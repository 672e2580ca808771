/-
Reimbursements backed by proofs of compute.

`ZKGasReimbursement` asks a manager of proofs of its own whether the task of a proof
is verified.  It makes that manager when it is made, submits nothing to it, and lets
nobody else do so.

The amount is a product of doubles, converted back to a word.

* `zkManager_final` — the manager stays empty in every run;
* `not_reimburses` — so no proof is ever reimbursed.
-/
import MembraL3.Conversion
import MembraL3.GasReimbursement
import MembraL3.ZKCompute

namespace Membra

structure ZKGasReimbursement where
  zkRecords : Store String ReimbursementRecord
  zkManager : ZKComputeManager

namespace ZKGasReimbursement

def new : ZKGasReimbursement := ⟨∅, .new⟩

/-- The id of a request. -/
def requestId (now : Ticks) : String := "zk_gas_" ++ toString now

/-- The proof is not looked at. -/
def requestZkReimbursement (reimbursement : ZKGasReimbursement) (gasInfo : TransactionGasInfo)
    (_proof : ZKComputeProof) (now : Ticks) : String × ZKGasReimbursement :=
  let record : ReimbursementRecord :=
    { ReimbursementRecord.default with
      requestId := requestId now
      transactionId := gasInfo.transactionId
      walletAddress := gasInfo.walletAddress
      reimbursementType := .zkComputeBacked
      gasCost := gasInfo.totalGasCost
      status := .pendingZkVerification }
  (requestId now,
    { reimbursement with zkRecords := reimbursement.zkRecords.assign (requestId now) record })

/-- `std::min(2.0, 1000.0 / std::max(1.0, verification_time_ms))`. -/
def zkMultiplier (arith : Doubles) (verification : VerificationResult) : ℚ :=
  min 2 (arith.round (1000 / max 1 (arith.round verification.verificationTimeMs.toNat)))

def calculateZkAmount (arith : Doubles) (gasInfo : TransactionGasInfo)
    (verification : VerificationResult) : UInt64 :=
  let baseAmount := arith.round gasInfo.totalGasCost.toNat
  arith.cast (.number (arith.round (baseAmount * zkMultiplier arith verification)))

/-- What the status of the task stands for. -/
def taskVerification (taskStatus : ZKComputeProof) : VerificationResult :=
  if taskStatus.verificationStatus = .verified then
    { VerificationResult.default with success := true, verificationStatus := .verified }
  else
    { VerificationResult.default with
      success := false
      verificationStatus := .failed
      errorMessage := "Proof not verified" }

/-- The transaction that a record was made for. -/
def recordGasInfo (record : ReimbursementRecord) : TransactionGasInfo where
  transactionId := record.transactionId
  walletAddress := record.walletAddress
  totalGasCost := record.gasCost
  transactionType := ""
  success := true

/-- The record of a request whose proof is found to be verified. -/
def verifiedRecord (arith : Doubles) (record : ReimbursementRecord)
    (verification : VerificationResult) (now : Ticks) : ReimbursementRecord :=
  let zkAmount := calculateZkAmount arith (recordGasInfo record) verification
  { record with
    reimbursedAmount := zkAmount
    totalAmount := zkAmount
    status := .zkVerified
    processedAt := now }

def verifyZkReimbursement (arith : Doubles) (reimbursement : ZKGasReimbursement)
    (requestId : String) (proof : ZKComputeProof) (now : Ticks) : Bool × ZKGasReimbursement :=
  match reimbursement.zkRecords.lookup requestId with
  | none => (false, reimbursement)
  | some record =>
    let verification := taskVerification (reimbursement.zkManager.getTaskStatus proof.taskId)
    if verification.success then
      (true, { reimbursement with
        zkRecords := reimbursement.zkRecords.assign requestId
          (verifiedRecord arith record verification now) })
    else
      (false, { reimbursement with
        zkRecords := reimbursement.zkRecords.assign requestId
          { record with status := .zkVerificationFailed } })

def getZkStatus (reimbursement : ZKGasReimbursement) (requestId : String) : ReimbursementRecord :=
  (reimbursement.zkRecords.lookup requestId).getD
    { ReimbursementRecord.default with requestId := requestId, status := .notFound }

/-! ### Calls -/

inductive Call where
  | requestZkReimbursement (gasInfo : TransactionGasInfo) (proof : ZKComputeProof) (now : Ticks)
  | verifyZkReimbursement (requestId : String) (proof : ZKComputeProof) (now : Ticks)
  | calculateZkAmount (gasInfo : TransactionGasInfo) (verification : VerificationResult)
  | getZkStatus (requestId : String)

inductive Reply where
  | requested (requestId : String)
  | verified (ok : Bool)
  | amount (amount : UInt64)
  | status (record : ReimbursementRecord)

def step (arith : Doubles) (reimbursement : ZKGasReimbursement) :
    Call → Reply × ZKGasReimbursement
  | .requestZkReimbursement gasInfo proof now =>
    (reimbursement.requestZkReimbursement gasInfo proof now).map .requested id
  | .verifyZkReimbursement requestId proof now =>
    (reimbursement.verifyZkReimbursement arith requestId proof now).map .verified id
  | .calculateZkAmount gasInfo verification =>
    (.amount (calculateZkAmount arith gasInfo verification), reimbursement)
  | .getZkStatus requestId => (.status (reimbursement.getZkStatus requestId), reimbursement)

/-- A request is answered by the manager inside, which no operation touches. -/
theorem zkManager_step (arith : Doubles) (reimbursement : ZKGasReimbursement) (c : Call) :
    (step arith reimbursement c).2.zkManager = reimbursement.zkManager := by
  cases c with
  | verifyZkReimbursement requestId proof now =>
    rw [step, verifyZkReimbursement]
    cases reimbursement.zkRecords.lookup requestId with
    | none => rfl
    | some record =>
      simp only [Prod.map]
      split
      · rfl
      · rfl
  | _ => rfl

/-- No task is verified for a manager without proofs. -/
theorem success_taskVerification_new (taskId : String) :
    (taskVerification (ZKComputeManager.new.getTaskStatus taskId)).success = false := rfl

/-- With an empty manager inside, a verification fails. -/
theorem verifyZkReimbursement_of_new {reimbursement : ZKGasReimbursement}
    (h : reimbursement.zkManager = .new) (arith : Doubles) (requestId : String)
    (proof : ZKComputeProof) (now : Ticks) :
    (reimbursement.verifyZkReimbursement arith requestId proof now).1 = false := by
  rw [verifyZkReimbursement]
  cases reimbursement.zkRecords.lookup requestId with
  | none => rfl
  | some record =>
    simp only [h, success_taskVerification_new, Bool.false_eq_true, if_false]

/-- And a request that was open is then recorded as failed. -/
theorem status_verifyZkReimbursement_of_new {reimbursement : ZKGasReimbursement}
    (h : reimbursement.zkManager = .new) {requestId : String} {record : ReimbursementRecord}
    (hlookup : reimbursement.zkRecords.lookup requestId = some record) (arith : Doubles)
    (proof : ZKComputeProof) (now : Ticks) :
    ((reimbursement.verifyZkReimbursement arith requestId proof now).2.getZkStatus
      requestId).status = .zkVerificationFailed := by
  rw [verifyZkReimbursement, hlookup]
  simp only [h, success_taskVerification_new, Bool.false_eq_true, if_false]
  rw [getZkStatus, Store.lookup_assign_self, Option.getD_some]

end ZKGasReimbursement

/-! ### Beside another manager -/

/-- The manager that tasks are submitted to, and the reimbursements. -/
structure ZKGasSystem where
  manager : ZKComputeManager
  reimbursement : ZKGasReimbursement

namespace ZKGasSystem

open Runs ZKGasReimbursement

def new : ZKGasSystem := ⟨.new, .new⟩

inductive Call where
  | manager (c : ZKComputeManager.Call)
  | reimbursement (c : ZKGasReimbursement.Call)

inductive Reply where
  | manager (r : ZKComputeManager.Reply)
  | reimbursement (r : ZKGasReimbursement.Reply)

def step (sha256 : Sha256) (scale : RewardScale) (arith : Doubles) (system : ZKGasSystem) :
    Call → Reply × ZKGasSystem
  | .manager c =>
    let (reply, manager) := ZKComputeManager.step sha256 scale system.manager c
    (.manager reply, { system with manager := manager })
  | .reimbursement c =>
    let (reply, reimbursement) := ZKGasReimbursement.step arith system.reimbursement c
    (.reimbursement reply, { system with reimbursement := reimbursement })

/-- The manager inside stays as it was made. -/
theorem zkManager_final (sha256 : Sha256) (scale : RewardScale) (arith : Doubles)
    (calls : List Call) :
    (final (step sha256 scale arith) new calls).reimbursement.zkManager = .new := by
  have hkeep : ∀ (system : ZKGasSystem) c, system.reimbursement.zkManager = .new →
      (step sha256 scale arith system c).2.reimbursement.zkManager = .new := by
    intro system c h
    cases c with
    | manager c => exact h
    | reimbursement c => exact (zkManager_step arith system.reimbursement c).trans h
  have hnew : new.reimbursement.zkManager = .new := rfl
  exact final_invariant hkeep hnew calls

/-- The verification of a request returns `true` and moves its record to `zk_verified`
with the amount that `calculate_zk_amount` gives. -/
def Reimburses (arith : Doubles) (reimbursement : ZKGasReimbursement) (requestId : String)
    (proof : ZKComputeProof) (now : Ticks) : Prop :=
  let (ok, verified) := reimbursement.verifyZkReimbursement arith requestId proof now
  ok = true ∧ (verified.getZkStatus requestId).status = .zkVerified ∧
    (verified.getZkStatus requestId).totalAmount
      = calculateZkAmount arith (recordGasInfo (reimbursement.getZkStatus requestId))
          (taskVerification proof)

/-- After no run does a verification, of whatever request and proof, reimburse. -/
theorem not_reimburses (sha256 : Sha256) (scale : RewardScale) (arith : Doubles)
    (calls : List Call) (requestId : String) (proof : ZKComputeProof) (now : Ticks) :
    ¬ Reimburses arith (final (step sha256 scale arith) new calls).reimbursement requestId
      proof now := by
  rintro ⟨hok, -, -⟩
  have hfails := verifyZkReimbursement_of_new (zkManager_final sha256 scale arith calls) arith
    requestId proof now
  exact absurd (hfails.symm.trans hok) (by simp)

/-- A request that the run has opened ends as failed when it is verified. -/
theorem status_of_opened {sha256 : Sha256} {scale : RewardScale} {arith : Doubles}
    {calls : List Call} {requestId : String}
    (h : requestId ∈
      (final (step sha256 scale arith) new calls).reimbursement.zkRecords)
    (proof : ZKComputeProof) (now : Ticks) :
    (((final (step sha256 scale arith) new calls).reimbursement.verifyZkReimbursement arith
      requestId proof now).2.getZkStatus requestId).status = .zkVerificationFailed := by
  obtain ⟨record, hlookup⟩ := Option.isSome_iff_exists.mp (AList.lookup_isSome.mpr h)
  exact status_verifyZkReimbursement_of_new (zkManager_final sha256 scale arith calls) hlookup
    arith proof now

/-- A task is verified and a reimbursement opened for its proof. -/
def verifiedThenRequested : List Call :=
  [.manager (.submitTask { ComputeTask.default with taskId := "task_1" } .default 0 0),
    .manager (.verifyTaskCompletion "task_1" 0 0 1),
    .reimbursement (.requestZkReimbursement ⟨"tx_1", "wallet_1", 750000, "", true⟩ .default 7)]

/-- Not every verified proof reimburses a request that was opened. -/
theorem not_forall_reimburses :
    ¬ ∀ (sha256 : Sha256) (arith : Doubles) (calls : List Call) (taskId requestId : String)
      (proof : ZKComputeProof) (now : Ticks),
      (final (step sha256 (speedScale arith) arith) new calls).manager.proofs.lookup taskId
        = some proof →
      ZKComputeManager.isVerified proof = true →
      requestId ∈
        (final (step sha256 (speedScale arith) arith) new calls).reimbursement.zkRecords →
      Reimburses arith (final (step sha256 (speedScale arith) arith) new calls).reimbursement
        requestId proof now := by
  intro h
  have hsome : ∃ proof, (final (step (fun _ => Vector.replicate 32 1)
        (speedScale (.exact .wrapping)) (.exact .wrapping)) new
      verifiedThenRequested).manager.proofs.lookup "task_1" = some proof ∧
      ZKComputeManager.isVerified proof = true := by
    refine ⟨_, rfl, ?_⟩
    decide +kernel
  obtain ⟨proof, hlookup, hverified⟩ := hsome
  obtain ⟨hok, -, -⟩ := h _ (.exact .wrapping) verifiedThenRequested "task_1" "zk_gas_7" proof 8
    hlookup hverified (by decide +kernel)
  exact absurd hok Bool.false_ne_true

end ZKGasSystem

end Membra
