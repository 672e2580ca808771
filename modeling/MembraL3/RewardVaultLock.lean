/-
Lock discipline of the reward vault.

`perform` is a call of a public operation with its mutex: each takes a scoped
lock, and `create_reward_entry`, under that lock, calls the public
`get_worker_daily_claimed`, which takes the same lock again.

* `perform_eq_step` — where a call does not get that far it acts as `step` and
  returns with the mutex released;
* `perform_eq_relock` — where it does, it faults;
* `disciplined_iff_locksOnce` — the sessions without a fault.
-/
import MembraL3.RewardVault
import MembraL3.Lib.Lock

namespace Membra

namespace RewardVault

open Runs Lock

/-! ### Operations with their locks -/

def lockedDepositToPool (amountLamports : UInt64) (source : String) : LockM RewardVault Bool :=
  guarded (straight fun vault => vault.depositToPool amountLamports source)

def lockedGetWorkerDailyClaimed (workerAddress : String) (now : Seconds) :
    LockM RewardVault UInt64 :=
  guarded (straight fun vault => (vault.getWorkerDailyClaimed workerAddress now, vault))

/-- What `create_reward_entry` does under its lock. -/
def createRewardEntryBody (workerAddress receiptId : String) (amountLamports : UInt64)
    (source : String) (dailyNow idNow stampNow : Seconds) : LockM RewardVault String := do
  let g ← get
  let (entryId, vault) ← createRewardEntryWith (lockedGetWorkerDailyClaimed workerAddress dailyNow)
    g.data workerAddress receiptId amountLamports source idNow stampNow
  modify fun g => { g with data := vault }
  return entryId

def lockedCreateRewardEntry (workerAddress receiptId : String) (amountLamports : UInt64)
    (source : String) (dailyNow idNow stampNow : Seconds) : LockM RewardVault String :=
  guarded (createRewardEntryBody workerAddress receiptId amountLamports source dailyNow idNow
    stampNow)

def lockedClaimReward (entryId : String) (now : Seconds) : LockM RewardVault Bool :=
  guarded (straight fun vault => vault.claimReward entryId now)

def lockedGetEntry (entryId : String) : LockM RewardVault (Option RewardVaultEntry) :=
  guarded (straight fun vault => (vault.getEntry entryId, vault))

def lockedGetWorkerEntries (workerAddress : String) : LockM RewardVault (List RewardVaultEntry) :=
  guarded (straight fun vault => (vault.getWorkerEntries workerAddress, vault))

/-- One public call. -/
def perform : Call → LockM RewardVault Reply
  | .depositToPool amount source => Reply.deposited <$> lockedDepositToPool amount source
  | .createRewardEntry worker receipt amount source dailyNow idNow stampNow =>
    Reply.created <$>
      lockedCreateRewardEntry worker receipt amount source dailyNow idNow stampNow
  | .claimReward entryId now => Reply.claimed <$> lockedClaimReward entryId now
  | .getWorkerDailyClaimed worker now => Reply.amount <$> lockedGetWorkerDailyClaimed worker now
  | .getEntry entryId => Reply.entry <$> lockedGetEntry entryId
  | .getWorkerEntries worker => Reply.entries <$> lockedGetWorkerEntries worker

/-! ### Which calls lock once -/

/-- The call locks the mutex only once: it is not a creation that passes the
funding check and the cap per receipt. -/
def LocksOnce (vault : RewardVault) : Call → Prop
  | .createRewardEntry _ _ amount _ _ _ _ =>
    vault.poolBalance = 0 ∨ maxRewardPerReceipt < amount
  | _ => True

/-- A creation stopped by one of its first two checks. -/
theorem createRewardEntryWith_of_stopped {m : Type → Type} [Monad m] (daily : m UInt64)
    {vault : RewardVault} (worker receipt : String) {amount : UInt64} (source : String)
    (idNow stampNow : Seconds) (h : vault.poolBalance = 0 ∨ maxRewardPerReceipt < amount) :
    createRewardEntryWith daily vault worker receipt amount source idNow stampNow
      = pure ("", vault) := by
  rw [createRewardEntryWith]
  by_cases hfunded : vault.poolBalance = 0
  · rw [if_pos hfunded]
  · have hreceipt : amount > maxRewardPerReceipt := h.resolve_left hfunded
    rw [if_neg hfunded, if_pos hreceipt]

/-- A creation that passes its first two checks. -/
theorem createRewardEntryWith_of_passed {m : Type → Type} [Monad m] (daily : m UInt64)
    {vault : RewardVault} (worker receipt : String) {amount : UInt64} (source : String)
    (idNow stampNow : Seconds) (h : ¬ (vault.poolBalance = 0 ∨ maxRewardPerReceipt < amount)) :
    ∃ rest, createRewardEntryWith daily vault worker receipt amount source idNow stampNow
      = daily >>= rest := by
  obtain ⟨hfunded, hreceipt⟩ := not_or.mp h
  rw [createRewardEntryWith, if_neg hfunded, if_neg hreceipt]
  exact ⟨_, rfl⟩

theorem createRewardEntryBody_run (worker receipt : String) (amount : UInt64) (source : String)
    (dailyNow idNow stampNow : Seconds) (g : Guarded RewardVault) :
    createRewardEntryBody worker receipt amount source dailyNow idNow stampNow g
      = (createRewardEntryWith (lockedGetWorkerDailyClaimed worker dailyNow) g.data worker receipt
          amount source idNow stampNow >>= fun r => do
            modify fun g => { g with data := r.2 }
            return r.1) g :=
  rfl

/-- A call that locks once acts as `step` and releases the mutex. -/
theorem perform_eq_step {vault : RewardVault} {c : Call} (h : LocksOnce vault c) :
    perform c ⟨false, vault⟩ = .ok ((step vault c).1, ⟨false, (step vault c).2⟩) := by
  cases c with
  | createRewardEntry worker receipt amount source dailyNow idNow stampNow =>
    -- one of the first two checks returns, before the nested call
    have hstep : step vault (.createRewardEntry worker receipt amount source dailyNow idNow
        stampNow) = (.created "", vault) := by
      rw [step, createRewardEntry, createRewardEntryWith_of_stopped _ _ _ _ _ _ h]
      rfl
    have hbody : createRewardEntryBody worker receipt amount source dailyNow idNow stampNow
        ⟨true, vault⟩ = .ok ("", ⟨true, vault⟩) := by
      rw [createRewardEntryBody_run, createRewardEntryWith_of_stopped _ _ _ _ _ _ h]
      rfl
    rw [hstep, perform, map_run, lockedCreateRewardEntry, guarded_run_free, hbody]
    rfl
  | depositToPool amount source =>
    rw [perform, map_run, lockedDepositToPool, guarded_straight]
    rfl
  | claimReward entryId now =>
    rw [perform, map_run, lockedClaimReward, guarded_straight]
    rfl
  | getWorkerDailyClaimed worker now =>
    rw [perform, map_run, lockedGetWorkerDailyClaimed, guarded_straight]
    rfl
  | getEntry entryId =>
    rw [perform, map_run, lockedGetEntry, guarded_straight]
    rfl
  | getWorkerEntries worker =>
    rw [perform, map_run, lockedGetWorkerEntries, guarded_straight]
    rfl

/-- Any other call faults. -/
theorem perform_eq_relock {vault : RewardVault} {c : Call} (h : ¬ LocksOnce vault c) :
    perform c ⟨false, vault⟩ = .error .relock := by
  cases c with
  | createRewardEntry worker receipt amount source dailyNow idNow stampNow =>
    obtain ⟨rest, hrest⟩ := createRewardEntryWith_of_passed
      (lockedGetWorkerDailyClaimed worker dailyNow) worker receipt source idNow stampNow h
    -- the call under the lock finds the mutex held
    have hbody : createRewardEntryBody worker receipt amount source dailyNow idNow stampNow
        ⟨true, vault⟩ = .error .relock := by
      rw [createRewardEntryBody_run, hrest, bind_run, bind_run, lockedGetWorkerDailyClaimed,
        guarded_run_held]
      rfl
    rw [perform, map_run, lockedCreateRewardEntry, guarded_run_free, hbody]
    rfl
  | _ => exact absurd trivial h

/-- In a session from a new vault no operation faults, and each returns with the
mutex released, iff every creation finds the pool empty or asks for more than the
cap per receipt. -/
theorem disciplined_iff_locksOnce (initial : UInt64) (calls : List Call) :
    Disciplined perform (new initial) calls ↔ Each step LocksOnce (new initial) calls :=
  disciplined_iff (fun _ _ h => perform_eq_step h) (fun _ _ h => perform_eq_relock h)
    (new initial) calls

/-- The first creation on a vault of 100 SOL faults. -/
theorem not_forall_disciplined :
    ¬ ∀ (initial : UInt64) (calls : List Call), Disciplined perform (new initial) calls := by
  intro h
  have hrun : session perform
      [.createRewardEntry "worker_wallet" "receipt_123" 50000000 "inference" 0 0 0]
      ⟨false, new 100000000000⟩ = .error .relock := rfl
  obtain ⟨vault, hvault⟩ := h 100000000000
    [.createRewardEntry "worker_wallet" "receipt_123" 50000000 "inference" 0 0 0] _
    (List.prefix_refl _)
  rw [hrun] at hvault
  exact absurd hvault (by simp)

end RewardVault

end Membra
