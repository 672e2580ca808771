/-
The reward vault.

Workers' rewards are created as entries against the pool balance and claimed
later.  `step` performs one of the six public operations, with the clock
readings it takes as arguments of the call.

`create_reward_entry` calls `get_worker_daily_claimed` while it holds the
vault's mutex.  `createRewardEntryWith` is its body over any monad in which that
call is made; `createRewardEntry` makes it without locking again, and
`RewardVaultLock.lean` makes it with the mutex.

* `createRewardEntry_cases` — what a creation does;
* `claimReward_eq` — what a claim does, in terms of the entry that it can pay;
* `step_cases` — all that one operation can do to the vault;
* `amountsCapped_final` — every entry of a reachable vault is within the cap per
  receipt.
-/
import MembraL3.Clock
import MembraL3.Lib.Runs
import MembraL3.Lib.Words

namespace Membra

structure RewardVaultEntry where
  entryId : String
  workerAddress : String
  receiptId : String
  amountLamports : UInt64
  source : String
  timestamp : Seconds
  claimed : Bool
  claimedAt : Seconds
  poolId : String
  poolBalanceBefore : UInt64
  /-- Not initialised before the entry is claimed. -/
  poolBalanceAfter : Option UInt64
  payoutPossible : Bool
  fundingSource : String
  deriving DecidableEq

structure RewardVault where
  entries : Store String RewardVaultEntry
  totalRewardsAvailable : UInt64
  totalRewardsClaimed : UInt64
  poolBalance : UInt64

namespace RewardVault

/-- 1 SOL. -/
def maxRewardPerReceipt : UInt64 := 1000000000

/-- 10 SOL. -/
def maxRewardPerWorkerPerDay : UInt64 := 10000000000

/-- 1000 SOL. -/
def maxPoolBalance : UInt64 := 1000000000000

/-- `RewardVault(initial_pool_balance)`. -/
def new (initialPoolBalance : UInt64) : RewardVault where
  entries := ∅
  totalRewardsAvailable := initialPoolBalance
  totalRewardsClaimed := 0
  poolBalance := initialPoolBalance

/-! ### Operations -/

def depositToPool (vault : RewardVault) (amountLamports : UInt64) (_source : String) :
    Bool × RewardVault :=
  if vault.poolBalance + amountLamports > maxPoolBalance then (false, vault)
  else
    (true, { vault with
      poolBalance := vault.poolBalance + amountLamports
      totalRewardsAvailable := vault.totalRewardsAvailable + amountLamports })

/-- Claimed by this worker in the 24 hours before `now`. -/
def countsToday (workerAddress : String) (now : Seconds) (entry : RewardVaultEntry) : Bool :=
  let dayStart := now - 86400
  entry.workerAddress = workerAddress ∧ entry.claimed ∧ entry.claimedAt ≥ dayStart

/-- The loop over the entries; their order does not matter to the sum. -/
def getWorkerDailyClaimed (vault : RewardVault) (workerAddress : String) (now : Seconds) :
    UInt64 :=
  vault.entries.values.foldl
    (fun total entry =>
      if countsToday workerAddress now entry then total + entry.amountLamports else total)
    0

/-- The id of a new entry. -/
def rewardEntryId (workerAddress : String) (now : Seconds) : String :=
  "reward_" ++ workerAddress ++ "_" ++ toStringDouble now

/-- The entry that `create_reward_entry` fills in. -/
def newEntry (vault : RewardVault) (workerAddress receiptId : String) (amountLamports : UInt64)
    (source : String) (idNow stampNow : Seconds) : RewardVaultEntry where
  entryId := rewardEntryId workerAddress idNow
  workerAddress := workerAddress
  receiptId := receiptId
  amountLamports := amountLamports
  source := source
  timestamp := stampNow
  claimed := false
  claimedAt := 0
  poolId := "main_pool"
  poolBalanceBefore := vault.poolBalance
  poolBalanceAfter := none
  payoutPossible := true
  fundingSource := "treasury_or_api_usage"

/-- The body of `create_reward_entry`, given the call it makes to
`get_worker_daily_claimed`.  The empty id reports failure; the clock is read once
for the id and once for the time stamp. -/
def createRewardEntryWith {m : Type → Type} [Monad m] (getWorkerDailyClaimed : m UInt64)
    (vault : RewardVault) (workerAddress receiptId : String) (amountLamports : UInt64)
    (source : String) (idNow stampNow : Seconds) : m (String × RewardVault) :=
  if vault.poolBalance = 0 then pure ("", vault)
  else if amountLamports > maxRewardPerReceipt then pure ("", vault)
  else do
    let workerDailyClaimed ← getWorkerDailyClaimed
    if workerDailyClaimed + amountLamports > maxRewardPerWorkerPerDay then pure ("", vault)
    else if amountLamports > vault.poolBalance then pure ("", vault)
    else
      let entryId := rewardEntryId workerAddress idNow
      let entry := vault.newEntry workerAddress receiptId amountLamports source idNow stampNow
      pure (entryId, { vault with entries := vault.entries.assign entryId entry })

/-- `create_reward_entry`, calling `get_worker_daily_claimed` without locking. -/
def createRewardEntry (vault : RewardVault) (workerAddress receiptId : String)
    (amountLamports : UInt64) (source : String) (dailyNow idNow stampNow : Seconds) :
    String × RewardVault :=
  Id.run <| createRewardEntryWith (pure (vault.getWorkerDailyClaimed workerAddress dailyNow))
    vault workerAddress receiptId amountLamports source idNow stampNow

def claimReward (vault : RewardVault) (entryId : String) (now : Seconds) : Bool × RewardVault :=
  match vault.entries.lookup entryId with
  | none => (false, vault)
  | some entry =>
    if entry.claimed then (false, vault)
    else if vault.poolBalance = 0 then (false, vault)
    else if entry.amountLamports > vault.poolBalance then (false, vault)
    else
      let poolBalance := vault.poolBalance - entry.amountLamports
      let entry' := { entry with
        claimed := true, claimedAt := now, poolBalanceAfter := some poolBalance }
      (true,
        { vault with
          poolBalance := poolBalance
          totalRewardsClaimed := vault.totalRewardsClaimed + entry.amountLamports
          entries := vault.entries.assign entryId entry' })

def remainingRewards (vault : RewardVault) : UInt64 :=
  vault.totalRewardsAvailable - vault.totalRewardsClaimed

def getEntry (vault : RewardVault) (entryId : String) : Option RewardVaultEntry :=
  vault.entries.lookup entryId

/-- The worker's entries; the source leaves their order to the map. -/
def getWorkerEntries (vault : RewardVault) (workerAddress : String) : List RewardVaultEntry :=
  vault.entries.values.filter fun entry => entry.workerAddress = workerAddress

/-! ### Calls -/

/-- A call of a public operation, with the clock readings it takes; a reading
that an early return skips is not used. -/
inductive Call where
  | depositToPool (amountLamports : UInt64) (source : String)
  | createRewardEntry (workerAddress receiptId : String) (amountLamports : UInt64)
      (source : String) (dailyNow idNow stampNow : Seconds)
  | claimReward (entryId : String) (now : Seconds)
  | getWorkerDailyClaimed (workerAddress : String) (now : Seconds)
  | getEntry (entryId : String)
  | getWorkerEntries (workerAddress : String)

/-- The clock readings of a call, in order. -/
def Call.readings : Call → List Seconds
  | .depositToPool _ _ => []
  | .createRewardEntry _ _ _ _ dailyNow idNow stampNow => [dailyNow, idNow, stampNow]
  | .claimReward _ now => [now]
  | .getWorkerDailyClaimed _ now => [now]
  | .getEntry _ => []
  | .getWorkerEntries _ => []

/-- What a call returns. -/
inductive Reply where
  | deposited (ok : Bool)
  | created (entryId : String)
  | claimed (ok : Bool)
  | amount (lamports : UInt64)
  | entry (entry : Option RewardVaultEntry)
  | entries (entries : List RewardVaultEntry)
  deriving DecidableEq

/-- One operation. -/
def step (vault : RewardVault) : Call → Reply × RewardVault
  | .depositToPool amount source => (vault.depositToPool amount source).map .deposited id
  | .createRewardEntry worker receipt amount source dailyNow idNow stampNow =>
    (vault.createRewardEntry worker receipt amount source dailyNow idNow stampNow).map .created id
  | .claimReward entryId now => (vault.claimReward entryId now).map .claimed id
  | .getWorkerDailyClaimed worker now => (.amount (vault.getWorkerDailyClaimed worker now), vault)
  | .getEntry entryId => (.entry (vault.getEntry entryId), vault)
  | .getWorkerEntries worker => (.entries (vault.getWorkerEntries worker), vault)

/-! ### What an operation does -/

theorem getWorkerDailyClaimed_eq_total (vault : RewardVault) (worker : String) (now : Seconds) :
    vault.getWorkerDailyClaimed worker now
      = Store.total (fun entry => if countsToday worker now entry then entry.amountLamports else 0)
          vault.entries := by
  rw [getWorkerDailyClaimed, Words.foldl_add_if, zero_add]
  rfl

theorem rewardEntryId_ne_empty (worker : String) (now : Seconds) :
    rewardEntryId worker now ≠ "" := by
  intro h
  -- the literal parts alone have a positive length
  have hlen := congrArg String.length h
  simp [rewardEntryId, String.length_append] at hlen

/-- `create_reward_entry` either fails at one of its four checks or stores a new
entry. -/
theorem createRewardEntry_cases (vault : RewardVault) (worker receipt : String) (amount : UInt64)
    (source : String) (dailyNow idNow stampNow : Seconds) :
    vault.createRewardEntry worker receipt amount source dailyNow idNow stampNow = ("", vault) ∨
    (vault.poolBalance ≠ 0 ∧ amount ≤ maxRewardPerReceipt ∧
      vault.getWorkerDailyClaimed worker dailyNow + amount ≤ maxRewardPerWorkerPerDay ∧
      amount ≤ vault.poolBalance ∧
      vault.createRewardEntry worker receipt amount source dailyNow idNow stampNow
        = (rewardEntryId worker idNow,
          { vault with
            entries := vault.entries.assign (rewardEntryId worker idNow)
              (vault.newEntry worker receipt amount source idNow stampNow) })) := by
  -- the four checks, in the order of the source
  rw [createRewardEntry, createRewardEntryWith]
  by_cases hfunded : vault.poolBalance = 0
  · left
    rw [if_pos hfunded]
    rfl
  by_cases hreceipt : amount > maxRewardPerReceipt
  · left
    rw [if_neg hfunded, if_pos hreceipt]
    rfl
  rw [if_neg hfunded, if_neg hreceipt, pure_bind]
  by_cases hdaily :
      vault.getWorkerDailyClaimed worker dailyNow + amount > maxRewardPerWorkerPerDay
  · left
    rw [if_pos hdaily]
    rfl
  by_cases hpool : amount > vault.poolBalance
  · left
    rw [if_neg hdaily, if_pos hpool]
    rfl
  · right
    rw [if_neg hdaily, if_neg hpool]
    exact ⟨hfunded, UInt64.not_lt.mp hreceipt, UInt64.not_lt.mp hdaily, UInt64.not_lt.mp hpool, rfl⟩

/-- The four checks of `create_reward_entry`. -/
def PassesChecks (vault : RewardVault) (worker : String) (amount : UInt64) (dailyNow : Seconds) :
    Prop :=
  vault.poolBalance ≠ 0 ∧ amount ≤ maxRewardPerReceipt ∧
    vault.getWorkerDailyClaimed worker dailyNow + amount ≤ maxRewardPerWorkerPerDay ∧
    amount ≤ vault.poolBalance

theorem createRewardEntry_of_passesChecks {vault : RewardVault} {worker : String} {amount : UInt64}
    {dailyNow : Seconds} (h : vault.PassesChecks worker amount dailyNow) (receipt source : String)
    (idNow stampNow : Seconds) :
    vault.createRewardEntry worker receipt amount source dailyNow idNow stampNow
      = (rewardEntryId worker idNow,
        { vault with
          entries := vault.entries.assign (rewardEntryId worker idNow)
            (vault.newEntry worker receipt amount source idNow stampNow) }) := by
  obtain ⟨hfunded, hreceipt, hdaily, hpool⟩ := h
  rw [createRewardEntry, createRewardEntryWith, if_neg hfunded,
    if_neg (UInt64.not_lt.mpr hreceipt), pure_bind, if_neg (UInt64.not_lt.mpr hdaily),
    if_neg (UInt64.not_lt.mpr hpool)]
  rfl

theorem createRewardEntry_of_not_passesChecks {vault : RewardVault} {worker : String}
    {amount : UInt64} {dailyNow : Seconds} (h : ¬ vault.PassesChecks worker amount dailyNow)
    (receipt source : String) (idNow stampNow : Seconds) :
    vault.createRewardEntry worker receipt amount source dailyNow idNow stampNow = ("", vault) := by
  rcases createRewardEntry_cases vault worker receipt amount source dailyNow idNow stampNow with
    hfail | ⟨hfunded, hreceipt, hdaily, hpool, _⟩
  · exact hfail
  · exact absurd ⟨hfunded, hreceipt, hdaily, hpool⟩ h

/-- The entry that a claim of `entryId` pays, if it pays. -/
def payable (vault : RewardVault) (entryId : String) : Option RewardVaultEntry :=
  (vault.entries.lookup entryId).filter fun entry =>
    !entry.claimed ∧ vault.poolBalance ≠ 0 ∧ entry.amountLamports ≤ vault.poolBalance

/-- The vault after paying `entry` at `now`. -/
def pay (vault : RewardVault) (entryId : String) (entry : RewardVaultEntry) (now : Seconds) :
    RewardVault :=
  { vault with
    poolBalance := vault.poolBalance - entry.amountLamports
    totalRewardsClaimed := vault.totalRewardsClaimed + entry.amountLamports
    entries := vault.entries.assign entryId { entry with
      claimed := true
      claimedAt := now
      poolBalanceAfter := some (vault.poolBalance - entry.amountLamports) } }

theorem payable_eq_some_iff {vault : RewardVault} {entryId : String} {entry : RewardVaultEntry} :
    vault.payable entryId = some entry ↔
      vault.entries.lookup entryId = some entry ∧ entry.claimed = false ∧
        vault.poolBalance ≠ 0 ∧ entry.amountLamports ≤ vault.poolBalance := by
  simp [payable, Option.filter_eq_some_iff]

/-- A claim pays the payable entry, and does nothing when there is none. -/
theorem claimReward_eq (vault : RewardVault) (entryId : String) (now : Seconds) :
    vault.claimReward entryId now =
      match vault.payable entryId with
      | none => (false, vault)
      | some entry => (true, vault.pay entryId entry now) := by
  -- each early return fails one of the conditions of `payable`
  rw [claimReward, payable]
  cases hlookup : vault.entries.lookup entryId with
  | none => rfl
  | some entry =>
    rw [Option.filter_some]
    by_cases hclaimed : entry.claimed = true
    · simp [hclaimed]
    by_cases hfunded : vault.poolBalance = 0
    · simp [hfunded]
    by_cases hpool : entry.amountLamports > vault.poolBalance
    · have hle : ¬ entry.amountLamports ≤ vault.poolBalance := UInt64.not_le.mpr hpool
      simp [hpool, hle]
    · have hle : entry.amountLamports ≤ vault.poolBalance := UInt64.not_lt.mp hpool
      simp [hclaimed, hfunded, hpool, hle, pay]

theorem claimReward_of_payable {vault : RewardVault} {entryId : String} {entry : RewardVaultEntry}
    (h : vault.payable entryId = some entry) (now : Seconds) :
    vault.claimReward entryId now = (true, vault.pay entryId entry now) := by
  rw [claimReward_eq, h]

theorem claimReward_of_not_payable {vault : RewardVault} {entryId : String}
    (h : vault.payable entryId = none) (now : Seconds) :
    vault.claimReward entryId now = (false, vault) := by
  rw [claimReward_eq, h]

/-- What one operation can do to the vault. -/
theorem step_cases (vault : RewardVault) (c : Call) :
    ((step vault c).2 = vault ∧ (step vault c).1 ≠ .deposited true ∧
      (step vault c).1 ≠ .claimed true) ∨
    (∃ amount source, c = .depositToPool amount source ∧ (step vault c).1 = .deposited true ∧
      (step vault c).2 = { vault with
        poolBalance := vault.poolBalance + amount
        totalRewardsAvailable := vault.totalRewardsAvailable + amount }) ∨
    (∃ worker receipt amount source dailyNow idNow stampNow,
      c = .createRewardEntry worker receipt amount source dailyNow idNow stampNow ∧
      amount ≤ maxRewardPerReceipt ∧
      (step vault c).2 = { vault with
        entries := vault.entries.assign (rewardEntryId worker idNow)
          (vault.newEntry worker receipt amount source idNow stampNow) }) ∨
    (∃ entryId now entry, c = .claimReward entryId now ∧ vault.payable entryId = some entry ∧
      (step vault c).1 = .claimed true ∧ (step vault c).2 = vault.pay entryId entry now) := by
  cases c with
  | depositToPool amount source =>
    by_cases hmax : vault.poolBalance + amount > maxPoolBalance
    · have hstep : step vault (.depositToPool amount source) = (.deposited false, vault) := by
        rw [step, depositToPool, if_pos hmax]
        rfl
      left
      rw [hstep]
      exact ⟨rfl, by simp, by simp⟩
    · refine .inr (.inl ⟨amount, source, rfl, ?_, ?_⟩)
      · rw [step, depositToPool, if_neg hmax]
        rfl
      · rw [step, depositToPool, if_neg hmax]
        rfl
  | createRewardEntry worker receipt amount source dailyNow idNow stampNow =>
    rcases createRewardEntry_cases vault worker receipt amount source dailyNow idNow stampNow with
      h | ⟨_, hreceipt, _, _, h⟩
    · left
      rw [step, h]
      exact ⟨rfl, by simp, by simp⟩
    · refine .inr (.inr (.inl ⟨worker, receipt, amount, source, dailyNow, idNow, stampNow, rfl,
        hreceipt, ?_⟩))
      rw [step, h]
      rfl
  | claimReward entryId now =>
    cases hpay : vault.payable entryId with
    | none =>
      left
      rw [step, claimReward_of_not_payable hpay]
      exact ⟨rfl, by simp, by simp⟩
    | some entry =>
      refine .inr (.inr (.inr ⟨entryId, now, entry, rfl, hpay, ?_, ?_⟩))
      · rw [step, claimReward_of_payable hpay]
        rfl
      · rw [step, claimReward_of_payable hpay]
        rfl
  | getWorkerDailyClaimed worker now => exact .inl ⟨rfl, by simp [step], by simp [step]⟩
  | getEntry entryId => exact .inl ⟨rfl, by simp [step], by simp [step]⟩
  | getWorkerEntries worker => exact .inl ⟨rfl, by simp [step], by simp [step]⟩

/-- What a creation that passes its checks does. -/
theorem step_createRewardEntry_of_passesChecks {vault : RewardVault} {worker : String}
    {amount : UInt64} {dailyNow : Seconds} (h : vault.PassesChecks worker amount dailyNow)
    (receipt source : String) (idNow stampNow : Seconds) :
    step vault (.createRewardEntry worker receipt amount source dailyNow idNow stampNow)
      = (.created (rewardEntryId worker idNow), { vault with
        entries := vault.entries.assign (rewardEntryId worker idNow)
          (vault.newEntry worker receipt amount source idNow stampNow) }) := by
  rw [step, createRewardEntry_of_passesChecks h]
  rfl

/-- A claim succeeds by paying its entry. -/
theorem step_of_claimed {vault : RewardVault} {c : Call} (h : (step vault c).1 = .claimed true) :
    ∃ entryId now entry, c = .claimReward entryId now ∧ vault.payable entryId = some entry ∧
      (step vault c).2 = vault.pay entryId entry now := by
  rcases step_cases vault c with ⟨_, _, hc⟩ | ⟨amount, source, rfl, hok, _⟩ |
    ⟨worker, receipt, amount, source, dailyNow, idNow, stampNow, rfl, _⟩ |
    ⟨entryId, now, entry, rfl, hpay, _, hclaim⟩
  · exact absurd h hc
  · exact absurd h (by simp [step])
  · exact absurd h (by simp [step])
  · exact ⟨entryId, now, entry, rfl, hpay, hclaim⟩

/-! ### Payments -/

open Runs

/-- The entry that a successful claim paid. -/
def paidEntry (e : Event RewardVault Call Reply) : Option RewardVaultEntry :=
  match e.call, e.result with
  | .claimReward entryId _, .claimed true => e.before.entries.lookup entryId
  | _, _ => none

theorem paidEntry_claimReward (vault : RewardVault) (entryId : String) (now : Seconds) :
    paidEntry (event step vault (.claimReward entryId now)) = vault.payable entryId := by
  cases hpay : vault.payable entryId with
  | none => simp [paidEntry, step, claimReward_of_not_payable hpay]
  | some entry =>
    have hlookup := (payable_eq_some_iff.mp hpay).1
    simp [paidEntry, step, claimReward_of_payable hpay, hlookup]

/-- Only a successful claim pays. -/
theorem paidEntry_of_not_claimed {vault : RewardVault} {c : Call}
    (hc : (step vault c).1 ≠ .claimed true) : paidEntry (event step vault c) = none := by
  rw [paidEntry]
  split
  · exact absurd ‹_› hc
  · rfl

/-! ### Amounts -/

/-- Every stored entry is within the cap per receipt. -/
def AmountsCapped (entries : Store String RewardVaultEntry) : Prop :=
  ∀ id entry, entries.lookup id = some entry → entry.amountLamports ≤ maxRewardPerReceipt

theorem amountsCapped_assign {entries : Store String RewardVaultEntry} {id : String}
    {entry : RewardVaultEntry} (h : AmountsCapped entries)
    (hentry : entry.amountLamports ≤ maxRewardPerReceipt) :
    AmountsCapped (entries.assign id entry) := by
  intro id' entry' hlookup
  rw [Store.lookup_assign] at hlookup
  by_cases hid : id' = id
  · rw [if_pos hid, Option.some_inj] at hlookup
    rwa [← hlookup]
  · rw [if_neg hid] at hlookup
    exact h id' entry' hlookup

theorem amountsCapped_step (vault : RewardVault) (c : Call) (h : AmountsCapped vault.entries) :
    AmountsCapped (step vault c).2.entries := by
  rcases step_cases vault c with ⟨hsame, _⟩ | ⟨amount, source, rfl, _, hdeposit⟩ |
    ⟨worker, receipt, amount, source, dailyNow, idNow, stampNow, rfl, hcap, hcreate⟩ |
    ⟨entryId, now, entry, rfl, hpay, _, hclaim⟩
  · rwa [hsame]
  · rwa [hdeposit]
  · rw [hcreate]
    exact amountsCapped_assign h hcap
  · -- the paid entry keeps the amount it was created with
    rw [hclaim]
    have hentry := h entryId entry (payable_eq_some_iff.mp hpay).1
    exact amountsCapped_assign h hentry

theorem amountsCapped_final (initial : UInt64) (calls : List Call) :
    AmountsCapped (final step (new initial) calls).entries := by
  have h0 : AmountsCapped (new initial).entries := fun _ _ h => absurd h (by simp [new])
  exact final_invariant amountsCapped_step h0 calls

theorem paidEntry_le_maxRewardPerReceipt (initial : UInt64) (pre : List Call) {c : Call}
    {entry : RewardVaultEntry}
    (h : paidEntry (event step (final step (new initial) pre) c) = some entry) :
    entry.amountLamports.toNat ≤ maxRewardPerReceipt.toNat := by
  cases c with
  | claimReward entryId now =>
    rw [paidEntry_claimReward] at h
    exact UInt64.le_iff_toNat_le.mp
      (amountsCapped_final initial pre entryId entry (payable_eq_some_iff.mp h).1)
  | _ => exact absurd h (by simp [paidEntry])

end RewardVault

end Membra
