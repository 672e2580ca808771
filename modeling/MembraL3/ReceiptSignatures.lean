/-
What the signature of a receipt covers.

`sign_receipt` hashes the id, the worker, the input hash and the time, with nothing in
between; the other fields of the work are not signed, and the signed ones run together.

* `signedText_eq_iff` — when two receipts have one signed text;
* `coversWork_iff` — the alterations of a receipt that its verification shows.
-/
import MembraL3.ProofOfInference

namespace Membra

namespace InferenceReceipt

/-- What `sign_receipt` hashes of the receipt. -/
def signedText (receipt : InferenceReceipt) : String :=
  receipt.receiptId ++ receipt.workerAddress ++ toString receipt.inputHash.toNat ++
    toStringDouble receipt.timestamp

/-- The same work, at the same time as it is printed. -/
structure SameWork (receipt receipt' : InferenceReceipt) : Prop where
  workerAddress : receipt.workerAddress = receipt'.workerAddress
  taskId : receipt.taskId = receipt'.taskId
  inferenceType : receipt.inferenceType = receipt'.inferenceType
  inputHash : receipt.inputHash = receipt'.inputHash
  outputHash : receipt.outputHash = receipt'.outputHash
  computeUnitsConsumed : receipt.computeUnitsConsumed = receipt'.computeUnitsConsumed
  cpuCycles : receipt.cpuCycles = receipt'.cpuCycles
  memoryBytesUsed : receipt.memoryBytesUsed = receipt'.memoryBytesUsed
  timestamp : microsecond receipt.timestamp = microsecond receipt'.timestamp

/-- The fields of the work that are not signed. -/
def unsigned (receipt : InferenceReceipt) :
    String × InferenceType × UInt64 × UInt64 × UInt64 × UInt64 :=
  (receipt.taskId, receipt.inferenceType, receipt.outputHash, receipt.computeUnitsConsumed,
    receipt.cpuCycles, receipt.memoryBytesUsed)

/-- The signed texts in front of the decimal point of the time. -/
def leading (receipt : InferenceReceipt) : List String :=
  [receipt.receiptId, receipt.workerAddress, toString receipt.inputHash.toNat,
    wholePart (microsecond receipt.timestamp)]

/-- The decimals of the time are the same. -/
def SameDecimals (receipt receipt' : InferenceReceipt) : Prop :=
  decimals (microsecond receipt.timestamp) = decimals (microsecond receipt'.timestamp)

/-- What is signed is the same, but the work is not. -/
structure ChangesUnsigned (receipt receipt' : InferenceReceipt) : Prop where
  leading : leading receipt = leading receipt'
  decimals : SameDecimals receipt receipt'
  unsigned : unsigned receipt ≠ unsigned receipt'

/-- The signed texts make one text, cut at different places. -/
structure RunTogether (receipt receipt' : InferenceReceipt) : Prop where
  text : String.join (leading receipt) = String.join (leading receipt')
  decimals : SameDecimals receipt receipt'
  cuts : (leading receipt).map String.length ≠ (leading receipt').map String.length

variable {receipt receipt' : InferenceReceipt}

theorem signedText_eq_iff :
    signedText receipt = signedText receipt' ↔
      String.join (leading receipt) = String.join (leading receipt') ∧
        SameDecimals receipt receipt' := by
  have hempty : '.' ∉ "".toList := by decide
  have hshape : ∀ r : InferenceReceipt, signedText r = r.receiptId ++ r.workerAddress ++
      toString r.inputHash.toNat ++ printed (microsecond r.timestamp) ++ "" := by
    intro r
    rw [signedText, toStringDouble_eq, String.append_empty]
  have hjoin : ∀ r : InferenceReceipt, String.join (leading r) = r.receiptId ++ r.workerAddress ++
      toString r.inputHash.toNat ++ wholePart (microsecond r.timestamp) := by
    intro r
    simp [leading, String.join]
  rw [hshape, hshape, append_printed_inj hempty hempty, hjoin, hjoin, and_iff_left rfl]
  exact Iff.rfl

/-- The same work under one text has the same leading texts. -/
theorem SameWork.leading_eq (h : SameWork receipt receipt')
    (htext : String.join (leading receipt) = String.join (leading receipt')) :
    leading receipt = leading receipt' := by
  simp only [leading, String.join, List.foldl_cons, List.foldl_nil, h.workerAddress, h.inputHash,
    h.timestamp, String.empty_append, String.append_left_inj] at htext
  rw [leading, leading, htext, h.workerAddress, h.inputHash, h.timestamp]

theorem sameWork_iff (hleading : leading receipt = leading receipt')
    (hdecimals : SameDecimals receipt receipt') :
    SameWork receipt receipt' ↔ unsigned receipt = unsigned receipt' := by
  simp only [leading, List.cons.injEq, and_true] at hleading
  obtain ⟨_, hworker, hinput, hwhole⟩ := hleading
  constructor
  · intro h
    rw [unsigned, h.taskId, h.inferenceType, h.outputHash, h.computeUnitsConsumed, h.cpuCycles,
      h.memoryBytesUsed, unsigned]
  · intro h
    simp only [unsigned, Prod.mk.injEq] at h
    obtain ⟨htask, htype, houtput, hunits, hcycles, hmemory⟩ := h
    exact ⟨hworker, htask, htype, UInt64.toNat_inj.mp (Printed.toString_nat_inj.mp hinput),
      houtput, hunits, hcycles, hmemory, parts_inj.mp ⟨hwhole, hdecimals⟩⟩

/-- One signed text is one work, unless fields that are not signed are changed or the
signed ones run together. -/
theorem sameWork_of_signedText_iff :
    (signedText receipt = signedText receipt' → SameWork receipt receipt') ↔
      ¬ (ChangesUnsigned receipt receipt' ∨ RunTogether receipt receipt') := by
  rw [signedText_eq_iff, not_or]
  constructor
  · intro hwork
    refine ⟨?_, ?_⟩
    · rintro ⟨hleading, hdecimals, hunsigned⟩
      have hsame := hwork ⟨by rw [hleading], hdecimals⟩
      exact hunsigned ((sameWork_iff hleading hdecimals).mp hsame)
    · rintro ⟨htext, hdecimals, hcuts⟩
      exact hcuts (by rw [(hwork ⟨htext, hdecimals⟩).leading_eq htext])
  · rintro ⟨hunsigned, hapart⟩ ⟨htext, hdecimals⟩
    have hcuts := not_not.mp fun hcuts => hapart ⟨htext, hdecimals, hcuts⟩
    have hleading := (Codes.join_inj_of_lengths hcuts).mp htext
    refine (sameWork_iff hleading hdecimals).mpr ?_
    exact not_not.mp fun hne => hunsigned ⟨hleading, hdecimals, hne⟩

end InferenceReceipt

namespace ProofOfInference

open InferenceReceipt

/-- The receipt that `create_receipt` stores. -/
def createdReceipt (sha256 : Sha256) (ledger : ProofOfInference) (work : InferenceWork)
    (now : Seconds) : InferenceReceipt :=
  newReceipt sha256 (receiptId ledger.receiptCounter.toNat) work now

/-- Whatever is written through the pointer that `get_receipt` returns, but to the
signature. -/
def altered (receipt changes : InferenceReceipt) : InferenceReceipt :=
  { changes with signature := receipt.signature }

/-- If the work of a receipt has been altered, a verification of it fails in every ledger,
or two different strings have been hashed. -/
def CoversWork (sha256 : Sha256) (receipt receipt' : InferenceReceipt) : Prop :=
  ¬ SameWork receipt receipt' → ∀ (ledger : ProofOfInference) (id : String),
    ledger.receipts.lookup id = some receipt' →
      (ledger.verifyReceipt sha256 id).1 = false ∨ signedText receipt ≠ signedText receipt'

theorem getReceipt_createReceipt (sha256 : Sha256) (ledger : ProofOfInference)
    (work : InferenceWork) (now : Seconds) :
    (ledger.createReceipt sha256 work now).2.getReceipt (ledger.createReceipt sha256 work now).1
      = some (createdReceipt sha256 ledger work now) :=
  Store.lookup_assign_self ..

theorem sameWork_altered_iff {receipt changes : InferenceReceipt} :
    SameWork receipt (altered receipt changes) ↔ SameWork receipt changes := by
  constructor
  · rintro ⟨hworker, htask, htype, hinput, houtput, hunits, hcycles, hmemory, htime⟩
    exact ⟨hworker, htask, htype, hinput, houtput, hunits, hcycles, hmemory, htime⟩
  · rintro ⟨hworker, htask, htype, hinput, houtput, hunits, hcycles, hmemory, htime⟩
    exact ⟨hworker, htask, htype, hinput, houtput, hunits, hcycles, hmemory, htime⟩

/-- The verification of an altered receipt compares the two signed texts. -/
theorem verifySignature_altered (sha256 : Sha256) (ledger : ProofOfInference)
    (work : InferenceWork) (now : Seconds) (changes : InferenceReceipt)
    (h : signedText (createdReceipt sha256 ledger work now)
      = signedText (altered (createdReceipt sha256 ledger work now) changes)) :
    verifySignature sha256 (altered (createdReceipt sha256 ledger work now) changes) = true := by
  show (hashToHex sha256 (signedText (altered (createdReceipt sha256 ledger work now) changes))
    == hashToHex sha256 (signedText (createdReceipt sha256 ledger work now))) = true
  rw [h, beq_self_eq_true]

theorem verifyReceipt_of_lookup {sha256 : Sha256} {ledger : ProofOfInference} {id : String}
    {receipt : InferenceReceipt} (h : ledger.receipts.lookup id = some receipt) :
    (ledger.verifyReceipt sha256 id).1 = verifySignature sha256 receipt := by
  rw [verifyReceipt, h]
  rfl

/-- A verification shows that the work of a receipt was altered iff the alteration neither
leaves all that is signed as it was, nor moves what is signed from one field to the next. -/
theorem coversWork_iff (sha256 : Sha256) (ledger : ProofOfInference) (work : InferenceWork)
    (now : Seconds) (changes : InferenceReceipt) :
    CoversWork sha256 (createdReceipt sha256 ledger work now)
        (altered (createdReceipt sha256 ledger work now) changes) ↔
      ¬ (ChangesUnsigned (createdReceipt sha256 ledger work now) changes ∨
        RunTogether (createdReceipt sha256 ledger work now) changes) := by
  have hverify := verifySignature_altered sha256 ledger work now changes
  generalize createdReceipt sha256 ledger work now = receipt at hverify ⊢
  rw [← sameWork_of_signedText_iff, CoversWork, sameWork_altered_iff]
  constructor
  · intro hcovers htext
    by_contra hdiffers
    -- in a ledger that has only the altered receipt
    have hlookup := Store.lookup_assign_self new.receipts "" (altered receipt changes)
    rcases hcovers hdiffers ⟨_, 0, 0, 0⟩ "" hlookup with hfalse | hne
    · rw [verifyReceipt_of_lookup hlookup, hverify htext] at hfalse
      exact Bool.false_ne_true hfalse.symm
    · exact hne htext
  · intro hwork hdiffers _ _ _
    exact .inr fun htext => hdiffers (hwork htext)

/-- One unit of work, with this result. -/
def unitWork (outputHash : UInt64) : InferenceWork :=
  ⟨"worker", "task", .validation, 1, outputHash, 1, 1, 1, 1⟩

/-- No digest covers the result of the work. -/
theorem not_forall_coversWork :
    ¬ ∃ sha256 : Sha256, ∀ ledger work now changes,
      CoversWork sha256 (createdReceipt sha256 ledger work now)
        (altered (createdReceipt sha256 ledger work now) changes) := by
  rintro ⟨sha256, hall⟩
  have hcovers := hall new (unitWork 2) 0 (createdReceipt sha256 new (unitWork 3) 0)
  have htext : signedText (createdReceipt sha256 new (unitWork 2) 0)
      = signedText (altered (createdReceipt sha256 new (unitWork 2) 0)
        (createdReceipt sha256 new (unitWork 3) 0)) := by
    simp only [signedText, altered, createdReceipt, newReceipt, unitWork]
  have hverify := verifySignature_altered sha256 new (unitWork 2) 0 _ htext
  have hdiffers : ¬ SameWork (createdReceipt sha256 new (unitWork 2) 0)
      (altered (createdReceipt sha256 new (unitWork 2) 0)
        (createdReceipt sha256 new (unitWork 3) 0)) := by
    intro hsame
    have houtput : (2 : UInt64) = 3 := hsame.outputHash
    exact absurd houtput (by decide)
  have hlookup := Store.lookup_assign_self new.receipts "infer_0"
    (altered (createdReceipt sha256 new (unitWork 2) 0)
      (createdReceipt sha256 new (unitWork 3) 0))
  rcases hcovers hdiffers ⟨_, 1, 1, 0⟩ "infer_0" hlookup with hfalse | hne
  · rw [verifyReceipt_of_lookup hlookup, hverify] at hfalse
    exact Bool.false_ne_true hfalse.symm
  · exact hne htext

end ProofOfInference

end Membra
