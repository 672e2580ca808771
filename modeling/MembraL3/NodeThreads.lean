/-
The threads of a node and their mutexes.

A node has one of each component that guards its state with a mutex.  A call is a
program: it takes the mutexes that the source takes, on the branch that it takes.
Two operations take a second mutex under their own, `pay_gas` that of the staking
system and `calculate_compensation` that of the gas oracle; `create_reward_entry`
takes its own again, when it gets as far as the daily cap.

* `inOrder_perform` — every call takes its mutexes by rank, that one apart;
* `completes_iff_no_relock` — the threads of a node run to their end, whatever the
  schedule, iff no creation of a reward entry gets that far;
* `completes_of_stopped` — they do where each creation asks for more than the cap;
* `not_completes_of_passed` — and may not where a thread begins with another one.
-/
import MembraL3.GasVaultThreads
import MembraL3.CompensationRange
import MembraL3.FuturesThreads
import MembraL3.IntentNetwork
import MembraL3.ProofBook
import MembraL3.ProofOfInference
import MembraL3.RewardVaultLock
import MembraL3.VolatilityOracle

namespace Membra

open Threads

/-! ### Components with two mutexes -/

/-- `calculate_compensation`.  The oracle's mutex covers the check of its age, and not
the prices read after it. -/
def ReceiverPaidGas.calculateCompensationLocked (arith : Doubles) (receiptId : String)
    (staleNow dayNow : Seconds) : Prog ReceiverPaidGas Mutex (Option UInt64) :=
  .guarded .gasReceipts do
    let found ← .read fun gas => gas.receipts.lookup receiptId
    match found with
    | none => return none
    | some receipt =>
      let enabled ← .read fun gas => gas.compensationEnabled
      if !enabled then return none
      else
        let stale ← .guarded .gasOracle (.read fun gas => gas.oracleState.isStale staleNow)
        if stale then return none
        else if receipt.usedForCompensation then return none
        else
          let gas ← .read id
          let walletDaily := gas.getWalletDailyCompensation receipt.receiverWallet dayNow
          if walletDaily + receipt.totalFeeLamports > gas.maxCompensationPerWalletPerDay then
            return none
          else .read fun gas => some (gas.compensation arith receipt.totalFeeLamports)

def ReceiverPaidGas.performLocked (arith : Doubles) :
    ReceiverPaidGas.Call → Prog ReceiverPaidGas Mutex Unit
  | .createReceipt payment blockNow createdNow =>
    .guarded .gasReceipts (.write fun gas => (gas.createReceipt payment blockNow createdNow).2)
  | .updateOracle gasTwap priorityFeeTwap solUsd membraUsd now =>
    .guarded .gasOracle
      (.write fun gas => gas.updateOracle gasTwap priorityFeeTwap solUsd membraUsd now)
  | .setCompensationEnabled enabled => .write fun gas => gas.setCompensationEnabled enabled
  | .calculateCompensation receiptId staleNow dayNow => do
    let _ ← calculateCompensationLocked arith receiptId staleNow dayNow
    return ()
  | .markCompensated receiptId =>
    .guarded .gasReceipts (.write fun gas => (gas.markCompensated receiptId).2)

/-- `create_reward_entry`, with the locked call that it makes under its lock. -/
def RewardVault.createRewardEntryLocked (workerAddress receiptId : String)
    (amountLamports : UInt64) (source : String) (dailyNow idNow stampNow : Seconds) :
    Prog RewardVault Mutex String :=
  .guarded .rewardVault do
    let vault ← .read id
    let (entryId, vault) ← createRewardEntryWith
      (.guarded .rewardVault
        (.read fun vault => vault.getWorkerDailyClaimed workerAddress dailyNow))
      vault workerAddress receiptId amountLamports source idNow stampNow
    .write fun _ => vault
    return entryId

def RewardVault.performLocked : RewardVault.Call → Prog RewardVault Mutex Unit
  | .createRewardEntry worker receipt amount source dailyNow idNow stampNow => do
    let _ ← createRewardEntryLocked worker receipt amount source dailyNow idNow stampNow
    return ()
  | c => .guarded .rewardVault (.write fun vault => (vault.step c).2)

/-- `assess`.  The mutex of the prices covers the window alone. -/
def VolatilityOracle.assessLocked (coverageRatio : ℚ) (now : Seconds) :
    Prog VolatilityOracle Mutex VolatilityReport := do
  let (twap, priceChange) ← .guarded .prices (.read computeTwap)
  let lastOracleUpdate ← .read fun oracle => oracle.lastOracleUpdate
  let oracleAge := now - lastOracleUpdate
  let (signal, confidence) := determineSignal oracleAge coverageRatio priceChange
  .write fun oracle => { oracle with lastTwap := twap }
  .write fun oracle => { oracle with lastPriceChange := priceChange }
  return ⟨signal, confidence, twap, priceChange * 100, coverageRatio, oracleAge, now⟩

def VolatilityOracle.performLocked : Call × Seconds → Prog VolatilityOracle Mutex Unit
  | (.feedPrice priceUsd volumeUsd, now) =>
    .guarded .prices (.write fun oracle => oracle.feedPrice priceUsd volumeUsd now)
  | (.feedGas baseFee priorityFee congested, now) =>
    .guarded .gasConditions (.write fun oracle => oracle.feedGas baseFee priorityFee congested now)
  | (.assess coverageRatio, now) => do
    let _ ← assessLocked coverageRatio now
    return ()

/-! ### Nodes -/

structure Node where
  gas : GasNode
  receipts : ReceiverPaidGas
  rewards : RewardVault
  intents : IntentNetwork
  proofs : ProofBook
  inference : ProofOfInference
  futures : FuturesSystem
  volatility : VolatilityOracle

namespace Node

/-- The components as they are constructed, the staking system attached to the vault. -/
def new (initialSolLamports initialPoolBalance : UInt64) (now : Seconds) : Node where
  gas := ⟨.new initialSolLamports, .new, true⟩
  receipts := .new now
  rewards := .new initialPoolBalance
  intents := .new
  proofs := .new
  inference := .new
  futures := .new
  volatility := .new

inductive Call where
  | gas (c : GasNode.Call)
  | receipts (c : ReceiverPaidGas.Call)
  | rewards (c : RewardVault.Call)
  | intents (c : IntentNetwork.Call)
  | proofs (c : ProofBook.Call)
  | inference (c : ProofOfInference.Call)
  | futures (c : FuturesSystem.Call)
  | volatility (c : VolatilityOracle.Call × Seconds)
  | getStake (stakeId : String)
  | getStakerStakes (stakerAddress : String)
  | getGasAllowance (stakerAddress : String)
  | getOracleState
  | getReceipt (receiptId : String)

/-- A read under a mutex. -/
def query {α : Type} (m : Mutex) (read : Node → α) : Prog Node Mutex Unit := do
  let _ ← .guarded m (.read read)
  return ()

/-- A call on its component of a node. -/
def perform (order : MapOrder) (arith : Doubles) (sha256 : Sha256) :
    Call → Prog Node Mutex Unit
  | .gas c => do
    let _ ← (GasNode.perform order arith c).focus Node.gas fun node gas => { node with gas := gas }
    return ()
  | .receipts c =>
    (ReceiverPaidGas.performLocked arith c).focus Node.receipts fun node receipts =>
      { node with receipts := receipts }
  | .rewards c =>
    (RewardVault.performLocked c).focus Node.rewards fun node rewards =>
      { node with rewards := rewards }
  | .intents c =>
    .guarded .intents (.write fun node => { node with intents := (node.intents.step c).2 })
  | .proofs c =>
    .guarded .proofBook (.write fun node => { node with proofs := (node.proofs.step sha256 c).2 })
  | .inference c =>
    .guarded .inference
      (.write fun node => { node with inference := (node.inference.step sha256 c).2 })
  | .futures c =>
    .guarded (FuturesSystem.mutex c)
      (.write fun node => { node with futures := (node.futures.step order c).2 })
  | .volatility c =>
    (VolatilityOracle.performLocked c).focus Node.volatility fun node volatility =>
      { node with volatility := volatility }
  | .getStake stakeId => query .computeStaking fun node => node.gas.staking.getStake stakeId
  | .getStakerStakes staker =>
    query .computeStaking fun node => node.gas.staking.getStakerStakes order staker
  | .getGasAllowance staker =>
    query .computeStaking fun node => node.gas.staking.getGasAllowance order staker
  | .getOracleState => query .gasOracle fun node => node.receipts.getOracleState
  | .getReceipt receiptId => query .gasReceipts fun node => node.receipts.getReceipt receiptId

/-- The sessions of the threads, on a node. -/
def threads {T : Type} (order : MapOrder) (arith : Doubles) (sha256 : Sha256)
    (calls : T → List Call) (node : Node) : State T Node Mutex (List Unit) :=
  start (fun t => Prog.session (perform order arith sha256) [] (calls t)) node

end Node

/-! ### The order of the mutexes -/

/-- The mutexes that are taken under another one come after the others. -/
def Mutex.level : Mutex → ℕ
  | .computeStaking => 1
  | .gasOracle => 1
  | _ => 0

/-- A call takes its mutexes by level; it may take one of `again` that it holds. -/
abbrev InOrder {σ α : Type} (again held : Set Mutex) (p : Prog σ Mutex α) : Prop :=
  Ordered Mutex.level again held held p

variable {σ α : Type} {again held : Set Mutex}

theorem inOrder_guarded {m : Mutex} {body : Prog σ Mutex α} (h : InOrder again {m} body) :
    InOrder again ∅ (Prog.guarded m body) := by
  refine Ordered.guarded (fun m hm => absurd hm (Set.notMem_empty m)) ?_
  rwa [insert_empty_eq]

theorem inOrder_guarded_second {m m' : Mutex} {body : Prog σ Mutex α}
    (hlevel : m'.level < m.level) (h : InOrder again (insert m {m'}) body) :
    InOrder again {m'} (Prog.guarded m body) :=
  Ordered.guarded (fun m'' hm => by rwa [Set.mem_singleton_iff.mp hm]) h

theorem GasNode.inOrder_settleGas (user : String) (gas : UInt64) (consumed : Bool) :
    InOrder again held (settleGas user gas consumed) := by
  cases consumed with
  | true => exact fun _ _ _ => rfl
  | false =>
    intro node
    show Ordered _ _ _ _ (if node.vault.solReserves < gas then _ else _)
    split
    · rfl
    · exact fun _ _ _ => rfl

theorem GasNode.inOrder_payGas (order : MapOrder) (user : String) (gas : UInt64) :
    InOrder again ∅ (payGas order user gas) := by
  refine inOrder_guarded ((ordered_atomically _).bind fun txCount => ?_)
  split
  · rfl
  refine (ordered_read _).bind fun attached => ?_
  cases attached with
  | true =>
    have hconsume : InOrder again {Mutex.gasVault} (consumeGasAllowance order user gas) :=
      inOrder_guarded_second (by decide) (ordered_atomically _)
    exact hconsume.bind fun consumed => inOrder_settleGas user gas consumed
  | false => exact inOrder_settleGas user gas false

theorem GasNode.inOrder_perform (order : MapOrder) (arith : Doubles) (c : Call) :
    InOrder again ∅ (perform order arith c) := by
  cases c with
  | depositSol amount source => exact (ordered_write _).bind fun _ => rfl
  | payGas user gas => exact (inOrder_payGas order user gas).bind fun _ => rfl
  | staking c => exact (inOrder_guarded (ordered_atomically _)).bind fun _ => rfl

theorem ReceiverPaidGas.inOrder_calculateCompensation (arith : Doubles) (receiptId : String)
    (staleNow dayNow : Seconds) :
    InOrder again ∅ (calculateCompensationLocked arith receiptId staleNow dayNow) := by
  refine inOrder_guarded ((ordered_read _).bind fun found => ?_)
  cases found with
  | none => rfl
  | some receipt =>
    refine (ordered_read _).bind fun enabled => ?_
    split
    · rfl
    refine (inOrder_guarded_second (by decide) (ordered_read _)).bind fun stale => ?_
    split
    · rfl
    split
    · rfl
    refine (ordered_read _).bind fun gas => ?_
    dsimp only
    split
    · rfl
    · exact ordered_read _

theorem ReceiverPaidGas.inOrder_perform (arith : Doubles) (c : Call) :
    InOrder again ∅ (performLocked arith c) := by
  cases c with
  | calculateCompensation receiptId staleNow dayNow =>
    exact (inOrder_calculateCompensation arith receiptId staleNow dayNow).bind fun _ => rfl
  | setCompensationEnabled enabled => exact ordered_write _
  | _ => exact inOrder_guarded (ordered_write _)

theorem VolatilityOracle.inOrder_perform (c : Call × Seconds) :
    InOrder again ∅ (performLocked c) := by
  obtain ⟨c, now⟩ := c
  cases c with
  | assess coverageRatio =>
    have hassess : InOrder again ∅ (assessLocked coverageRatio now) := by
      refine (inOrder_guarded (ordered_read _)).bind fun change => ?_
      exact fun _ _ _ => rfl
    exact hassess.bind fun _ => rfl
  | _ => exact inOrder_guarded (ordered_write _)

/-- A creation that is stopped by one of its first two checks takes its mutex once; one
that is not takes it again. -/
theorem RewardVault.ordered_createRewardEntry (worker receipt : String) (amount : UInt64)
    (source : String) (dailyNow idNow stampNow : Seconds)
    (h : maxRewardPerReceipt < amount ∨ Mutex.rewardVault ∈ again) :
    InOrder again ∅
      (createRewardEntryLocked worker receipt amount source dailyNow idNow stampNow) := by
  refine inOrder_guarded ((ordered_read _).bind fun vault => ?_)
  by_cases hstopped : vault.poolBalance = 0 ∨ maxRewardPerReceipt < amount
  · rw [createRewardEntryWith_of_stopped _ _ _ _ _ _ hstopped]
    exact fun _ => rfl
  · obtain ⟨rest, hrest⟩ := createRewardEntryWith_of_passed
      (Prog.guarded Mutex.rewardVault
        (.read fun vault : RewardVault => vault.getWorkerDailyClaimed worker dailyNow))
      worker receipt source idNow stampNow hstopped
    rw [hrest]
    exact .inl ⟨rfl, h.resolve_left fun hamount => hstopped (.inr hamount)⟩

/-- The call is not a creation of an entry of at most the cap per receipt. -/
def RewardVault.Call.Stopped : RewardVault.Call → Prop
  | .createRewardEntry _ _ amount _ _ _ _ => maxRewardPerReceipt < amount
  | _ => True

theorem RewardVault.inOrder_perform (c : Call) (h : c.Stopped ∨ Mutex.rewardVault ∈ again) :
    InOrder again ∅ (performLocked c) := by
  cases c with
  | createRewardEntry worker receipt amount source dailyNow idNow stampNow =>
    exact (ordered_createRewardEntry worker receipt amount source dailyNow idNow stampNow h).bind
      fun _ => rfl
  | _ => exact inOrder_guarded (ordered_write _)

namespace Node

/-- The call is not a creation of a reward entry of at most the cap per receipt. -/
def Call.Stopped : Call → Prop
  | .rewards c => c.Stopped
  | _ => True

variable (order : MapOrder) (arith : Doubles) (sha256 : Sha256)

theorem inOrder_query {α : Type} (m : Mutex) (read : Node → α) :
    InOrder again ∅ (query m read) :=
  (inOrder_guarded (ordered_read read)).bind fun _ => rfl

theorem inOrder_perform (c : Call) (h : c.Stopped ∨ Mutex.rewardVault ∈ again) :
    InOrder again ∅ (perform order arith sha256 c) := by
  cases c with
  | gas c => exact ((GasNode.inOrder_perform order arith c).focus _ _).bind fun _ => rfl
  | receipts c => exact (ReceiverPaidGas.inOrder_perform arith c).focus _ _
  | rewards c => exact (RewardVault.inOrder_perform c h).focus _ _
  | volatility c => exact (VolatilityOracle.inOrder_perform c).focus _ _
  | getStake _ | getStakerStakes _ | getGasAllowance _ | getOracleState | getReceipt _ =>
    exact inOrder_query _ _
  | _ => exact inOrder_guarded (ordered_write _)

theorem sound_threads {T : Type} (calls : T → List Call) (node : Node)
    (h : ∀ t, ∀ c ∈ calls t, c.Stopped ∨ Mutex.rewardVault ∈ again) :
    Sound Mutex.level again (threads order arith sha256 calls node) := by
  refine sound_start (fun t => ordered_session (fun c hc => ?_) []) node
  exact inOrder_perform order arith sha256 c (h t c hc)

/-- Whatever any number of threads call, and in whatever order they are scheduled: they
all return, iff no thread ever comes to take the mutex of the reward vault while it
holds it. -/
theorem completes_iff_no_relock {T : Type} [Finite T] [DecidableEq T] (calls : T → List Call)
    (node : Node) :
    Completes (threads order arith sha256 calls node) ↔
      ∀ s, Reachable (threads order arith sha256 calls node) s →
        ∀ t, ¬ s.SelfBlocked t .rewardVault := by
  have hsound : Sound Mutex.level {.rewardVault} (threads order arith sha256 calls node) :=
    sound_threads order arith sha256 calls node fun _ _ _ => .inr rfl
  rw [completes_iff_no_selfBlocked hsound]
  simp only [Set.mem_singleton_iff, forall_eq]

/-- Two threads, one of which creates a reward entry. -/
theorem completes_iff_no_relock_two :
    let calls : Bool → List Call := fun first =>
      if first then [.rewards (.createRewardEntry "worker" "receipt" 1 "source" 0 0 0)]
      else [.gas (.payGas "alice" 5), .receipts (.calculateCompensation "gas_0" 0 0),
        .getGasAllowance "alice"]
    let threads := threads newestFirst (.exact .wrapping) (fun _ => zeroHash) calls (new 10 100 0)
    Completes threads ↔
      ∀ s, Reachable threads s → ∀ t, ¬ s.SelfBlocked t .rewardVault :=
  completes_iff_no_relock newestFirst (.exact .wrapping) (fun _ => zeroHash) _ (new 10 100 0)

/-- Threads that create no reward entry of at most the cap per receipt run to their
end. -/
theorem completes_of_stopped {T : Type} [Finite T] [DecidableEq T] (calls : T → List Call)
    (node : Node) (h : ∀ t, ∀ c ∈ calls t, c.Stopped) :
    Completes (threads order arith sha256 calls node) := by
  have hsound : Sound Mutex.level ∅ (threads order arith sha256 calls node) :=
    sound_threads order arith sha256 calls node fun t c hc => .inl (h t c hc)
  refine (completes_iff_no_selfBlocked hsound).mpr fun s _ t m hm => ?_
  exact absurd hm (Set.notMem_empty m)

/-- On a funded vault, a thread that begins with such a creation may never return. -/
theorem not_completes_of_passed {T : Type} [Finite T] [DecidableEq T] {calls : T → List Call}
    {node : Node} {t : T} {worker receipt : String} {amount : UInt64} {source : String}
    {dailyNow idNow stampNow : Seconds} {rest : List Call}
    (hcalls : calls t = .rewards (.createRewardEntry worker receipt amount source dailyNow idNow
      stampNow) :: rest)
    (h : ¬ (node.rewards.poolBalance = 0 ∨ RewardVault.maxRewardPerReceipt < amount)) :
    ¬ Completes (threads order arith sha256 calls node) := by
  have hsound : Sound Mutex.level {.rewardVault} (threads order arith sha256 calls node) :=
    sound_threads order arith sha256 calls node fun _ _ _ => .inr rfl
  rw [completes_iff_no_selfBlocked hsound]
  intro hnone
  obtain ⟨k, hk⟩ := RewardVault.createRewardEntryWith_of_passed
    (Prog.guarded Mutex.rewardVault
      (.read fun vault : RewardVault => vault.getWorkerDailyClaimed worker dailyNow))
    worker receipt source idNow stampNow h
  -- it takes the mutex, reads the vault, and comes to take the mutex again
  have hprog : ∃ update next, (threads order arith sha256 calls node).progs t
      = .acquire .rewardVault (.act update next) ∧
        ∃ rest', next node = .acquire .rewardVault rest' := by
    show ∃ update next, Prog.session _ [] (calls t) = _ ∧ _
    rw [hcalls]
    refine ⟨_, _, rfl, ?_⟩
    simp only [Prog.done_bind, id_eq, hk]
    exact ⟨_, rfl⟩
  obtain ⟨update, next, hprog, rest', hnext⟩ := hprog
  have hfirst := move_of_acquire hprog rfl
  set s₀ := threads order arith sha256 calls node with hs₀
  have hself : (s₀.goTo t (.act update next)).progs t = .act update next := s₀.goTo_progs_self t _
  have hsecond := move_of_act (s := { s₀.goTo t (.act update next) with
    owner := Function.update s₀.owner .rewardVault (some t) }) hself
  refine hnone _ (.tail (.tail .refl ⟨t, hfirst⟩) ⟨t, hsecond⟩) t .rewardVault rfl ⟨rest', ?_, ?_⟩
  · rw [State.goTo_progs_self]
    exact hnext
  · show Function.update s₀.owner .rewardVault (some t) .rewardVault = some t
    rw [Function.update_self]

end Node

end Membra
