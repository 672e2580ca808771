/-
Inference receipts and their rewards.

`ProofOfInference` stores a signed receipt for each piece of work, verifies the
signature on demand and pays the reward of a verified receipt once.  Its two running
totals are 64-bit words.  `step` performs one public operation.

* `Moves`, `evolves_step`, `lookup_of_step` — what a call does to a receipt;
* `nodup_createdIds`, `each_fresh_new` — the ids of a run are distinct, and no
  receipt is created under one that is taken.
-/
import MembraL3.Lib.Numbered
import MembraL3.Crypto
import MembraL3.Clock
import MembraL3.MapOrder
import Mathlib.Algebra.Order.Ring.Rat

namespace Membra

inductive InferenceType where
  | proofGeneration
  | validation
  | consensus
  | zkComputation
  deriving DecidableEq

structure InferenceReceipt where
  receiptId : String
  workerAddress : String
  taskId : String
  inferenceType : InferenceType
  inputHash : UInt64
  outputHash : UInt64
  computeUnitsConsumed : UInt64
  cpuCycles : UInt64
  memoryBytesUsed : UInt64
  executionTimeSec : Seconds
  timestamp : Seconds
  signature : String
  verified : Bool
  rewardLamports : UInt64
  rewardClaimed : Bool
  rewardClaimedAt : Seconds
  deriving DecidableEq

/-- What `sign_receipt` and `verify_signature` hash of a receipt. -/
def signReceipt (sha256 : Sha256) (receiptId workerAddress : String) (inputHash : UInt64)
    (timestamp : Seconds) : String :=
  hashToHex sha256
    (receiptId ++ workerAddress ++ toString inputHash.toNat ++ toStringDouble timestamp)

def verifySignature (sha256 : Sha256) (receipt : InferenceReceipt) : Bool :=
  signReceipt sha256 receipt.receiptId receipt.workerAddress receipt.inputHash receipt.timestamp
    == receipt.signature

/-- The receipt after `verify_receipt`. -/
def InferenceReceipt.checked (sha256 : Sha256) (receipt : InferenceReceipt) : InferenceReceipt :=
  { receipt with verified := verifySignature sha256 receipt }

/-- The receipt after its reward has been claimed. -/
def InferenceReceipt.rewarded (receipt : InferenceReceipt) (rewardLamports : UInt64)
    (now : Seconds) : InferenceReceipt :=
  { receipt with
    rewardLamports := rewardLamports
    rewardClaimed := true
    rewardClaimedAt := now }

structure ProofOfInference where
  receipts : Store String InferenceReceipt
  receiptCounter : UInt64
  totalComputeUnits : UInt64
  totalRewardsPaid : UInt64

/-- The arguments of `create_receipt`. -/
structure InferenceWork where
  workerAddress : String
  taskId : String
  inferenceType : InferenceType
  inputHash : UInt64
  outputHash : UInt64
  computeUnits : UInt64
  cpuCycles : UInt64
  memoryBytes : UInt64
  executionTime : Seconds

namespace ProofOfInference

def new : ProofOfInference := ⟨∅, 0, 0, 0⟩

def receiptId (n : ℕ) : String := Numbered.name "infer_" n

/-- The receipt that `create_receipt` fills in. -/
def newReceipt (sha256 : Sha256) (id : String) (work : InferenceWork) (now : Seconds) :
    InferenceReceipt where
  receiptId := id
  workerAddress := work.workerAddress
  taskId := work.taskId
  inferenceType := work.inferenceType
  inputHash := work.inputHash
  outputHash := work.outputHash
  computeUnitsConsumed := work.computeUnits
  cpuCycles := work.cpuCycles
  memoryBytesUsed := work.memoryBytes
  executionTimeSec := work.executionTime
  timestamp := now
  signature := signReceipt sha256 id work.workerAddress work.inputHash now
  verified := false
  rewardLamports := 0
  rewardClaimed := false
  rewardClaimedAt := 0

def createReceipt (sha256 : Sha256) (ledger : ProofOfInference) (work : InferenceWork)
    (now : Seconds) : String × ProofOfInference :=
  let id := receiptId ledger.receiptCounter.toNat
  (id,
    { receipts := ledger.receipts.assign id (newReceipt sha256 id work now)
      receiptCounter := ledger.receiptCounter + 1
      totalComputeUnits := ledger.totalComputeUnits + work.computeUnits
      totalRewardsPaid := ledger.totalRewardsPaid })

def verifyReceipt (sha256 : Sha256) (ledger : ProofOfInference) (receiptId : String) :
    Bool × ProofOfInference :=
  match ledger.receipts.lookup receiptId with
  | none => (false, ledger)
  | some receipt =>
    let receipt := receipt.checked sha256
    (receipt.verified, { ledger with receipts := ledger.receipts.assign receiptId receipt })

def claimReward (ledger : ProofOfInference) (receiptId : String) (rewardLamports : UInt64)
    (now : Seconds) : Bool × ProofOfInference :=
  match ledger.receipts.lookup receiptId with
  | none => (false, ledger)
  | some receipt =>
    if !receipt.verified then (false, ledger)
    else if receipt.rewardClaimed then (false, ledger)
    else
      (true,
        { ledger with
          receipts := ledger.receipts.assign receiptId (receipt.rewarded rewardLamports now)
          totalRewardsPaid := ledger.totalRewardsPaid + rewardLamports })

def isReplay (ledger : ProofOfInference) (receiptId : String) : Bool :=
  (ledger.receipts.lookup receiptId).any InferenceReceipt.rewardClaimed

def getReceipt (ledger : ProofOfInference) (receiptId : String) : Option InferenceReceipt :=
  ledger.receipts.lookup receiptId

def getWorkerReceipts (order : MapOrder) (ledger : ProofOfInference) (workerAddress : String) :
    List InferenceReceipt :=
  ((order.order ledger.receipts.keys).filterMap ledger.receipts.lookup).filter
    fun receipt => receipt.workerAddress = workerAddress

def receiptCount (ledger : ProofOfInference) : ℕ := ledger.receipts.size

/-! ### Runs -/

inductive Call where
  | createReceipt (work : InferenceWork) (now : Seconds)
  | verifyReceipt (receiptId : String)
  | claimReward (receiptId : String) (rewardLamports : UInt64) (now : Seconds)
  | isReplay (receiptId : String)
  | getReceipt (receiptId : String)
  | getWorkerReceipts (order : MapOrder) (workerAddress : String)
  | receiptCount

inductive Result where
  | created (receiptId : String)
  | verified (ok : Bool)
  | claimed (ok : Bool)
  | replay (replayed : Bool)
  | receipt (receipt : Option InferenceReceipt)
  | receipts (receipts : List InferenceReceipt)
  | count (n : ℕ)

def step (sha256 : Sha256) (ledger : ProofOfInference) : Call → Result × ProofOfInference
  | .createReceipt work now =>
    let (id, ledger) := ledger.createReceipt sha256 work now
    (.created id, ledger)
  | .verifyReceipt id =>
    let (ok, ledger) := ledger.verifyReceipt sha256 id
    (.verified ok, ledger)
  | .claimReward id reward now =>
    let (ok, ledger) := ledger.claimReward id reward now
    (.claimed ok, ledger)
  | .isReplay id => (.replay (ledger.isReplay id), ledger)
  | .getReceipt id => (.receipt (ledger.getReceipt id), ledger)
  | .getWorkerReceipts order worker => (.receipts (ledger.getWorkerReceipts order worker), ledger)
  | .receiptCount => (.count ledger.receiptCount, ledger)

def Call.creates : Call → Bool
  | .createReceipt .. => true
  | _ => false

/-! ### What a call does to a receipt -/

/-- What one call can do to the receipt stored under `id`. -/
inductive Moves (sha256 : Sha256) (id : String) :
    Call → InferenceReceipt → InferenceReceipt → Prop
  | kept (call : Call) (receipt : InferenceReceipt) : Moves sha256 id call receipt receipt
  | verified (receipt : InferenceReceipt) :
      Moves sha256 id (.verifyReceipt id) receipt (receipt.checked sha256)
  | claimed (reward : UInt64) (now : Seconds) (receipt : InferenceReceipt)
      (hverified : receipt.verified = true) (hunclaimed : receipt.rewardClaimed = false) :
      Moves sha256 id (.claimReward id reward now) receipt (receipt.rewarded reward now)

variable {sha256 : Sha256} {ledger : ProofOfInference} {id : String} {call : Call}

theorem verifyReceipt_cases (sha256 : Sha256) (ledger : ProofOfInference) (id : String) :
    (∃ receipt, ledger.receipts.lookup id = some receipt ∧
      ledger.verifyReceipt sha256 id
        = (verifySignature sha256 receipt,
          { ledger with receipts := ledger.receipts.assign id (receipt.checked sha256) })) ∨
    ledger.verifyReceipt sha256 id = (false, ledger) := by
  rw [verifyReceipt]
  cases hlookup : ledger.receipts.lookup id with
  | none => exact .inr rfl
  | some receipt => exact .inl ⟨receipt, rfl, rfl⟩

/-- A claim pays a verified receipt that has not been claimed, or it fails and changes
nothing. -/
theorem claimReward_cases (ledger : ProofOfInference) (id : String) (reward : UInt64)
    (now : Seconds) :
    (∃ receipt, ledger.receipts.lookup id = some receipt ∧ receipt.verified = true ∧
      receipt.rewardClaimed = false ∧
      ledger.claimReward id reward now
        = (true,
          { ledger with
            receipts := ledger.receipts.assign id (receipt.rewarded reward now)
            totalRewardsPaid := ledger.totalRewardsPaid + reward })) ∨
    ledger.claimReward id reward now = (false, ledger) := by
  rw [claimReward]
  cases hlookup : ledger.receipts.lookup id with
  | none => exact .inr rfl
  | some receipt =>
    cases hverified : receipt.verified with
    | false => exact .inr (by simp [hverified])
    | true =>
      cases hclaimed : receipt.rewardClaimed with
      | true => exact .inr (by simp [hverified, hclaimed])
      | false => exact .inl ⟨receipt, rfl, hverified, hclaimed, by simp [hverified, hclaimed]⟩

/-- The id a call creates a receipt under is not taken. -/
def Fresh (ledger : ProofOfInference) (call : Call) : Prop :=
  call.creates = true → receiptId ledger.receiptCounter.toNat ∉ ledger.receipts

/-- Every stored receipt stays stored and makes a move. -/
theorem evolves_step (sha256 : Sha256) (hfresh : Fresh ledger call) :
    Store.Evolves (fun id => Moves sha256 id call) ledger.receipts
      (step sha256 ledger call).2.receipts := by
  have hkept : ∀ id receipt, Moves sha256 id call receipt receipt :=
    fun id receipt => .kept call receipt
  cases call with
  | createReceipt work now => exact Store.evolves_assign_new hkept _ (hfresh rfl)
  | verifyReceipt id =>
    rcases verifyReceipt_cases sha256 ledger id with ⟨receipt, hlookup, heq⟩ | heq
    · simp only [step, heq]
      exact Store.evolves_assign hkept hlookup (.verified receipt)
    · simp only [step, heq]
      exact .refl hkept _
  | claimReward id reward now =>
    rcases claimReward_cases ledger id reward now with
      ⟨receipt, hlookup, hverified, hunclaimed, heq⟩ | heq
    · simp only [step, heq]
      exact Store.evolves_assign hkept hlookup (.claimed reward now receipt hverified hunclaimed)
    · simp only [step, heq]
      exact .refl hkept _
  | _ => exact .refl hkept _

/-- A stored receipt was stored before, or has just been created. -/
theorem lookup_of_step {receipt' : InferenceReceipt}
    (hlookup : (step sha256 ledger call).2.receipts.lookup id = some receipt') :
    (∃ receipt, ledger.receipts.lookup id = some receipt ∧
      Moves sha256 id call receipt receipt') ∨
    ∃ work now, call = .createReceipt work now ∧
      id = receiptId ledger.receiptCounter.toNat ∧
      receipt' = newReceipt sha256 (receiptId ledger.receiptCounter.toNat) work now := by
  cases call with
  | createReceipt work now =>
    rcases Store.of_lookup_assign hlookup with ⟨hid, hnew⟩ | hold
    · exact .inr ⟨work, now, rfl, hid, hnew⟩
    · exact .inl ⟨receipt', hold, .kept _ receipt'⟩
  | verifyReceipt id' =>
    rcases verifyReceipt_cases sha256 ledger id' with ⟨receipt, hreceipt, heq⟩ | heq
    · simp only [step, heq] at hlookup
      rcases Store.of_lookup_assign hlookup with ⟨rfl, rfl⟩ | hold
      · exact .inl ⟨receipt, hreceipt, .verified receipt⟩
      · exact .inl ⟨receipt', hold, .kept _ receipt'⟩
    · simp only [step, heq] at hlookup
      exact .inl ⟨receipt', hlookup, .kept _ receipt'⟩
  | claimReward id' reward now =>
    rcases claimReward_cases ledger id' reward now with
      ⟨receipt, hreceipt, hverified, hunclaimed, heq⟩ | heq
    · simp only [step, heq] at hlookup
      rcases Store.of_lookup_assign hlookup with ⟨rfl, rfl⟩ | hold
      · exact .inl ⟨receipt, hreceipt, .claimed reward now receipt hverified hunclaimed⟩
      · exact .inl ⟨receipt', hold, .kept _ receipt'⟩
    · simp only [step, heq] at hlookup
      exact .inl ⟨receipt', hlookup, .kept _ receipt'⟩
  | _ => exact .inl ⟨receipt', hlookup, .kept _ receipt'⟩

theorem counter_step (sha256 : Sha256) (ledger : ProofOfInference) (call : Call) :
    (step sha256 ledger call).2.receiptCounter
      = if call.creates then ledger.receiptCounter + 1 else ledger.receiptCounter := by
  cases call with
  | verifyReceipt id =>
    rcases verifyReceipt_cases sha256 ledger id with ⟨receipt, -, heq⟩ | heq
    · simp only [step, heq]
      rfl
    · simp only [step, heq]
      rfl
  | claimReward id reward now =>
    rcases claimReward_cases ledger id reward now with ⟨receipt, -, -, -, heq⟩ | heq
    · simp only [step, heq]
      rfl
    · simp only [step, heq]
      rfl
  | _ => rfl

/-! ### Runs of fewer than 2^64 receipts -/

/-- The bound on the number of receipts of a run. -/
def CreatesFit (calls : List Call) : Prop := calls.countP Call.creates < 2 ^ 64

instance (calls : List Call) : Decidable (CreatesFit calls) := inferInstanceAs (Decidable (_ < _))

theorem counter_fits {calls : List Call} (hcreates : CreatesFit calls) :
    new.receiptCounter.toNat + calls.countP Call.creates < 2 ^ 64 := by
  have hzero : new.receiptCounter.toNat = 0 := rfl
  rw [CreatesFit] at hcreates
  omega

/-- The id that a call returns for the receipt it creates. -/
def createdId (e : Runs.Event ProofOfInference Call Result) : Option String :=
  match e.result with
  | .created id => some id
  | _ => none

theorem createdId_event (sha256 : Sha256) (ledger : ProofOfInference) (call : Call) :
    createdId (Runs.event (step sha256) ledger call)
      = Numbered.issued receiptCounter Call.creates (fun _ n => receiptId n)
          (Runs.event (step sha256) ledger call) := by
  cases call <;> rfl

theorem nodup_createdIds {calls : List Call} (hcreates : CreatesFit calls) :
    ((Runs.trace (step sha256) new calls).filterMap createdId).Nodup := by
  rw [List.filterMap_congr (Runs.forall_trace (createdId_event sha256) new calls)]
  exact Numbered.nodup_issued receiptCounter (fun _ n => receiptId n) (counter_step sha256)
    (fun _ _ m n _ _ => Numbered.name_inj.mp) (counter_fits hcreates)

theorem each_fresh_new {calls : List Call} (hcreates : CreatesFit calls) :
    Runs.Each (step sha256) Fresh new calls := by
  refine Numbered.each_fresh receiptCounter (fun _ n => receiptId n) (counter_step sha256)
    (fun _ _ m n _ _ => Numbered.name_inj.mp) (fun ledger id => id ∈ ledger.receipts) ?_
    (fun id => AList.notMem_empty id) (counter_fits hcreates)
  intro ledger call id hmem
  obtain ⟨receipt, hlookup⟩ := Option.isSome_iff_exists.mp (AList.lookup_isSome.mpr hmem)
  rcases lookup_of_step hlookup with ⟨before, hbefore, -⟩ | ⟨work, now, rfl, rfl, -⟩
  · exact .inl (Store.mem_of_lookup hbefore)
  · exact .inr rfl

end ProofOfInference

end Membra
