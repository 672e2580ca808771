/-
Proofs of compute.

`ZKProver` makes a proof of a task, a hash for now, and verifies it.
`ZKComputeManager` keeps the proofs by task, verifies them on request, computes
their rewards and counts both; `generate_merkle_root` adds the verified proofs
to the manager's one Merkle tree.

The results of `rand()` are arguments of a verification.  The product of a
reward and its speed bonus is computed in doubles: what it comes to is a
parameter, `RewardScale`; `speedScale` is that of a double arithmetic, and
`exactScale` that of exact arithmetic.

* `step_cases` — all that one operation can do to proofs, totals and the tree.
-/
import MembraL3.Clock
import MembraL3.Conversion
import MembraL3.MerkleProvenance
import MembraL3.Lib.Store
import Mathlib.Data.String.Basic
import Mathlib.Algebra.Order.Floor.Semifield
import Mathlib.Tactic.Ring

namespace Membra

inductive ComputeType where
  | llmInference
  | merkleComputation
  | microtaskCompletion
  | collateralLocking
  | gasReimbursement
  | idoAppraisal
  | circuitCompilation
  | proofVerification
  deriving DecidableEq

/-- The value of the enumerator. -/
def ComputeType.code : ComputeType → UInt8
  | .llmInference => 0
  | .merkleComputation => 1
  | .microtaskCompletion => 2
  | .collateralLocking => 3
  | .gasReimbursement => 4
  | .idoAppraisal => 5
  | .circuitCompilation => 6
  | .proofVerification => 7

/-- The texts of the two `verification_status` fields. -/
inductive VerificationStatus where
  | pending
  | verified
  | failed
  | invalidProof
  | taskNotFound
  | notFound
  deriving DecidableEq

structure ZKComputeProof where
  taskId : String
  proverEndpoint : String
  computeType : ComputeType
  inputHash : Hash
  outputHash : Hash
  resourceCommitment : Hash
  proofHash : Hash
  verificationStatus : VerificationStatus
  rewardAmount : UInt64
  createdAt : Int64
  verifiedAt : Int64
  circuitIdentifier : String
  deriving DecidableEq

def defaultRewardAmount : UInt64 := 1000000

/-- `ZKComputeProof()`. -/
def ZKComputeProof.default : ZKComputeProof where
  taskId := ""
  proverEndpoint := ""
  computeType := .llmInference
  inputHash := zeroHash
  outputHash := zeroHash
  resourceCommitment := zeroHash
  proofHash := zeroHash
  verificationStatus := .pending
  rewardAmount := defaultRewardAmount
  createdAt := 0
  verifiedAt := 0
  circuitIdentifier := ""

structure ComputeTask where
  taskId : String
  computeType : ComputeType
  inputData : List UInt8
  circuitIdentifier : String
  requiredComputeUnits : UInt64
  timeoutSeconds : UInt64
  deriving DecidableEq

/-- `ComputeTask()`. -/
def ComputeTask.default : ComputeTask := ⟨"", .llmInference, [], "", 1000, 300⟩

structure ResourceCommitment where
  commitmentId : String
  nodeId : String
  cpuCoresCommitted : UInt64
  memoryMbCommitted : UInt64
  gpuCommitted : Bool
  durationSeconds : UInt64
  commitmentHash : Hash
  expiresAt : Int64
  deriving DecidableEq

/-- `ResourceCommitment()`. -/
def ResourceCommitment.default : ResourceCommitment := ⟨"", "", 0, 0, false, 0, zeroHash, 0⟩

structure VerificationResult where
  success : Bool
  verificationStatus : VerificationStatus
  errorMessage : String
  gasUsed : UInt64
  verificationTimeMs : UInt64
  verifiedHash : Hash
  deriving DecidableEq

/-- `VerificationResult()`. -/
def VerificationResult.default : VerificationResult := ⟨false, .failed, "", 0, 0, zeroHash⟩

/-! ### The prover -/

structure ZKProver where
  proverEndpoint : String

namespace ZKProver

def new : ZKProver := ⟨"http://localhost:8080"⟩

def generateMockProof (sha256 : Sha256) (task : ComputeTask) : Hash :=
  sha256 (bytesOf task.taskId ++ task.inputData ++ [task.computeType.code])

/-- The id of the proof of a task. -/
def proofTaskId (task : ComputeTask) (idNow : Nanoseconds) : String :=
  if task.taskId = "" then "task_" ++ toString idNow.toInt else task.taskId

/-- `idNow` is read only where the task has no id. -/
def generateProof (sha256 : Sha256) (prover : ZKProver) (task : ComputeTask)
    (commitment : ResourceCommitment) (idNow createdNow : Nanoseconds) : ZKComputeProof :=
  { ZKComputeProof.default with
    taskId := proofTaskId task idNow
    proverEndpoint := prover.proverEndpoint
    computeType := task.computeType
    inputHash := sha256 task.inputData
    resourceCommitment := sha256 (bytesOf commitment.commitmentId)
    proofHash := generateMockProof sha256 task
    circuitIdentifier := task.circuitIdentifier
    verificationStatus := .pending
    createdAt := .ofInt (wholeSeconds createdNow) }

/-- What is hashed of a proof. -/
def proofData (proof : ZKComputeProof) : List UInt8 :=
  bytesOf proof.taskId ++ proof.proofHash.toList

/-- The first byte of the proof hash is taken for a sign that it is there. -/
def accepts (proof : ZKComputeProof) : Bool := proof.proofHash[0] ≠ 0

/-- `timeRand` and `gasRand` are the results of `rand()`. -/
def verifyProof (sha256 : Sha256) (proof : ZKComputeProof) (timeRand gasRand : ℕ) :
    VerificationResult :=
  let result : VerificationResult :=
    { success := true
      verificationStatus := .verified
      errorMessage := ""
      verificationTimeMs := UInt64.ofNat (100 + timeRand % 200)
      gasUsed := UInt64.ofNat (50000 + gasRand % 100000)
      verifiedHash := sha256 (proofData proof) }
  if accepts proof then result
  else
    { result with
      success := false
      verificationStatus := .invalidProof
      errorMessage := "Proof hash is empty" }

end ZKProver

/-! ### The manager -/

structure ComputeStats where
  totalTasksSubmitted : UInt64
  totalTasksVerified : UInt64
  totalRewardsPaid : UInt64
  totalComputeUnits : UInt64
  /-- `none` from a division by zero on. -/
  averageVerificationTimeMs : Option ℚ
  deriving DecidableEq

structure ZKComputeManager where
  proofs : Store String ZKComputeProof
  prover : ZKProver
  merkleBuilder : MerkleTreeBuilder
  stats : ComputeStats

/-- `static_cast<uint64_t>(reward * std::max(1.0, 1000.0 / verification_time_ms))`, from
the reward and the time. -/
abbrev RewardScale := UInt64 → UInt64 → UInt64

/-- What it comes to in a double arithmetic. -/
def speedScale (arith : Doubles) : RewardScale := fun reward time =>
  let ratio := (quotient 1000 (arith.round time.toNat)).map arith.round
  let speedBonus := ratio.map (max 1)
  arith.cast ((speedBonus.scale (arith.round reward.toNat)).map arith.round)

/-- In exact arithmetic. -/
def exactScale (convert : WordCast) : RewardScale := speedScale (.exact convert)

namespace ZKComputeManager

def new : ZKComputeManager where
  proofs := ∅
  prover := .new
  merkleBuilder := .empty
  stats := ⟨0, 0, 0, 0, some 0⟩

def baseReward : ComputeType → UInt64
  | .llmInference => 2000000
  | .merkleComputation => 1500000
  | .microtaskCompletion => 500000
  | .collateralLocking => 1000000
  | .gasReimbursement => 750000
  | .idoAppraisal => 3000000
  | .circuitCompilation => 2500000
  | .proofVerification => 500000

def calculateReward (scale : RewardScale) (task : ComputeTask)
    (verification : VerificationResult) : UInt64 :=
  if !verification.success then 0
  else
    let complexityMultiplier := task.requiredComputeUnits / 1000
    let reward := baseReward task.computeType * complexityMultiplier
    scale reward verification.verificationTimeMs

def submitTask (sha256 : Sha256) (manager : ZKComputeManager) (task : ComputeTask)
    (commitment : ResourceCommitment) (idNow createdNow : Nanoseconds) :
    String × ZKComputeManager :=
  let proof := manager.prover.generateProof sha256 task commitment idNow createdNow
  (proof.taskId, { manager with
    proofs := manager.proofs.assign proof.taskId proof
    stats := { manager.stats with
      totalTasksSubmitted := manager.stats.totalTasksSubmitted + 1
      totalComputeUnits := manager.stats.totalComputeUnits + task.requiredComputeUnits } })

def getTaskStatus (manager : ZKComputeManager) (taskId : String) : ZKComputeProof :=
  (manager.proofs.lookup taskId).getD
    { ZKComputeProof.default with taskId := taskId, verificationStatus := .notFound }

/-- The proof after a verification that succeeds.  Its reward is that of a task made
up from the type of the proof. -/
def verifiedProof (scale : RewardScale) (proof : ZKComputeProof)
    (verification : VerificationResult) (now : Nanoseconds) : ZKComputeProof :=
  { proof with
    verificationStatus := verification.verificationStatus
    verifiedAt := now
    outputHash := verification.verifiedHash
    rewardAmount :=
      calculateReward scale { ComputeTask.default with computeType := proof.computeType }
        verification }

/-- The statistics after one more verification. -/
def countVerified (stats : ComputeStats) (rewardAmount verificationTimeMs : UInt64) :
    ComputeStats :=
  let total := stats.totalTasksVerified + 1
  { stats with
    totalTasksVerified := total
    totalRewardsPaid := stats.totalRewardsPaid + rewardAmount
    averageVerificationTimeMs :=
      if total = 0 then none
      else stats.averageVerificationTimeMs.map fun average =>
        (average * (total - 1).toNat + verificationTimeMs.toNat) / total.toNat }

def verifyTaskCompletion (sha256 : Sha256) (scale : RewardScale) (manager : ZKComputeManager)
    (taskId : String) (timeRand gasRand : ℕ) (now : Nanoseconds) :
    VerificationResult × ZKComputeManager :=
  match manager.proofs.lookup taskId with
  | none => ({ VerificationResult.default with verificationStatus := .taskNotFound }, manager)
  | some proof =>
    let verification := ZKProver.verifyProof sha256 proof timeRand gasRand
    if verification.success then
      let proof := verifiedProof scale proof verification now
      (verification, { manager with
        proofs := manager.proofs.assign taskId proof
        stats := countVerified manager.stats proof.rewardAmount verification.verificationTimeMs })
    else (verification, manager)

def getPendingTasks (manager : ZKComputeManager) : List ZKComputeProof :=
  manager.proofs.sortedValues.filter fun proof => proof.verificationStatus = .pending

def isVerified (proof : ZKComputeProof) : Bool := proof.verificationStatus = .verified

def getVerifiedProofs (manager : ZKComputeManager) : List ZKComputeProof :=
  manager.proofs.sortedValues.filter isVerified

def generateMerkleRoot (sha256 : Sha256) (manager : ZKComputeManager) : Hash × ZKComputeManager :=
  let verified := manager.getVerifiedProofs
  if verified.isEmpty then (zeroHash, manager)
  else
    let builder := verified.foldl
      (fun builder proof => builder.addLeaf sha256 (ZKProver.proofData proof)) manager.merkleBuilder
    let (root, builder) := builder.buildRoot sha256
    (root, { manager with merkleBuilder := builder })

/-! ### Calls -/

inductive Call where
  | submitTask (task : ComputeTask) (commitment : ResourceCommitment)
      (idNow createdNow : Nanoseconds)
  | getTaskStatus (taskId : String)
  | verifyTaskCompletion (taskId : String) (timeRand gasRand : ℕ) (now : Nanoseconds)
  | getPendingTasks
  | getVerifiedProofs
  | generateMerkleRoot
  | getStats

inductive Reply where
  | submitted (taskId : String)
  | status (proof : ZKComputeProof)
  | verification (result : VerificationResult)
  | proofs (proofs : List ZKComputeProof)
  | root (root : Hash)
  | stats (stats : ComputeStats)

def step (sha256 : Sha256) (scale : RewardScale) (manager : ZKComputeManager) :
    Call → Reply × ZKComputeManager
  | .submitTask task commitment idNow createdNow =>
    (manager.submitTask sha256 task commitment idNow createdNow).map .submitted id
  | .getTaskStatus taskId => (.status (manager.getTaskStatus taskId), manager)
  | .verifyTaskCompletion taskId timeRand gasRand now =>
    (manager.verifyTaskCompletion sha256 scale taskId timeRand gasRand now).map .verification id
  | .getPendingTasks => (.proofs manager.getPendingTasks, manager)
  | .getVerifiedProofs => (.proofs manager.getVerifiedProofs, manager)
  | .generateMerkleRoot => (manager.generateMerkleRoot sha256).map .root id
  | .getStats => (.stats manager.stats, manager)

/-! ### What an operation does -/

theorem exactScale_eq (convert : WordCast) (reward : UInt64) {time : UInt64}
    (h : 0 < time.toNat) :
    exactScale convert reward time
      = convert.cast (.number (reward.toNat * max 1 (1000 / (time.toNat : ℚ)))) := by
  have hne : (time.toNat : ℚ) ≠ 0 := by exact_mod_cast h.ne'
  show convert.cast (((((quotient 1000 (time.toNat : ℚ)).map id).map (max 1)).scale _).map id) = _
  rw [quotient_of_ne 1000 hne]
  rfl

/-- The speed bonus in whole numbers. -/
theorem floor_bonus (reward : ℕ) {time : ℕ} (h : 0 < time) :
    ⌊(reward : ℚ) * max 1 (1000 / (time : ℚ))⌋₊ = max reward (1000 * reward / time) := by
  have hpos : (0 : ℚ) < (time : ℚ) := by exact_mod_cast h
  rcases Nat.le_total 1000 time with hslow | hfast
  · -- no bonus from a second on
    have hquotient : (1000 : ℚ) / (time : ℚ) ≤ 1 := by
      rw [div_le_one hpos]
      exact_mod_cast hslow
    have hshare : 1000 * reward / time ≤ reward :=
      Nat.div_le_of_le_mul (Nat.mul_le_mul_right _ hslow)
    rw [max_eq_left hquotient, mul_one, Nat.floor_natCast, max_eq_left hshare]
  · have hquotient : 1 ≤ (1000 : ℚ) / (time : ℚ) := by
      rw [one_le_div hpos]
      exact_mod_cast hfast
    have hshare : reward ≤ 1000 * reward / time := by
      rw [Nat.le_div_iff_mul_le h, Nat.mul_comm]
      exact Nat.mul_le_mul_right _ hfast
    have hproduct : (reward : ℚ) * (1000 / (time : ℚ))
        = ((1000 * reward : ℕ) : ℚ) / (time : ℚ) := by
      push_cast
      ring
    rw [max_eq_right hquotient, hproduct, Nat.floor_div_eq_div, max_eq_right hshare]

/-- A scaled reward that fits 64 bits is what it is in whole numbers. -/
theorem toNat_exactScale (convert : WordCast) (reward : UInt64) {time : UInt64}
    (h : 0 < time.toNat) (hfits : max reward.toNat (1000 * reward.toNat / time.toNat) < 2 ^ 64) :
    (exactScale convert reward time).toNat
      = max reward.toNat (1000 * reward.toNat / time.toNat) := by
  have h0 : 0 ≤ (reward.toNat : ℚ) * max 1 (1000 / (time.toNat : ℚ)) := by positivity
  have hrange : (reward.toNat : ℚ) * max 1 (1000 / (time.toNat : ℚ)) < 2 ^ 64 := by
    rw [← floor_bonus reward.toNat h, Nat.floor_lt h0] at hfits
    exact_mod_cast hfits
  rw [exactScale_eq convert reward h, convert.cast_of_range _ h0 hrange, floor_bonus _ h]

/-- Any word may come of one that does not. -/
theorem exactScale_giving (word reward : UInt64) {time : UInt64} (h : 0 < time.toNat)
    (hlarge : 2 ^ 64 ≤ max reward.toNat (1000 * reward.toNat / time.toNat)) :
    exactScale (.giving word) reward time = word := by
  have h0 : 0 ≤ (reward.toNat : ℚ) * max 1 (1000 / (time.toNat : ℚ)) := by positivity
  have hrange : 2 ^ 64 ≤ (reward.toNat : ℚ) * max 1 (1000 / (time.toNat : ℚ)) := by
    rw [← floor_bonus reward.toNat h, Nat.le_floor_iff h0] at hlarge
    exact_mod_cast hlarge
  rw [exactScale_eq _ reward h, WordCast.giving_of_ge word hrange]

theorem success_verifyProof (sha256 : Sha256) (proof : ZKComputeProof) (timeRand gasRand : ℕ) :
    (ZKProver.verifyProof sha256 proof timeRand gasRand).success = ZKProver.accepts proof := by
  rw [ZKProver.verifyProof]
  cases ZKProver.accepts proof with
  | false => rfl
  | true => rfl

theorem verificationStatus_verifyProof (sha256 : Sha256) {proof : ZKComputeProof}
    (h : ZKProver.accepts proof = true) (timeRand gasRand : ℕ) :
    (ZKProver.verifyProof sha256 proof timeRand gasRand).verificationStatus = .verified := by
  rw [ZKProver.verifyProof, h]
  rfl

/-- What one operation can do to proofs and totals; only `generate_merkle_root`
touches the tree. -/
theorem step_cases (sha256 : Sha256) (scale : RewardScale) (manager : ZKComputeManager)
    (c : Call) :
    ((step sha256 scale manager c).2.proofs = manager.proofs ∧
      (step sha256 scale manager c).2.stats = manager.stats ∧
      (c ≠ .generateMerkleRoot →
        (step sha256 scale manager c).2.merkleBuilder = manager.merkleBuilder) ∧
      (∀ task commitment idNow createdNow, c ≠ .submitTask task commitment idNow createdNow) ∧
      ∀ taskId timeRand gasRand now, c = .verifyTaskCompletion taskId timeRand gasRand now →
        ∀ proof ∈ manager.proofs.lookup taskId, ZKProver.accepts proof = false) ∨
    (∃ task commitment idNow createdNow, c = .submitTask task commitment idNow createdNow ∧
      (step sha256 scale manager c).2.proofs
        = manager.proofs.assign (ZKProver.proofTaskId task idNow)
            (manager.prover.generateProof sha256 task commitment idNow createdNow) ∧
      (step sha256 scale manager c).2.stats.totalTasksVerified
        = manager.stats.totalTasksVerified ∧
      (step sha256 scale manager c).2.stats.totalRewardsPaid = manager.stats.totalRewardsPaid ∧
      (step sha256 scale manager c).2.merkleBuilder = manager.merkleBuilder) ∨
    (∃ taskId timeRand gasRand now proof result,
      c = .verifyTaskCompletion taskId timeRand gasRand now ∧
      manager.proofs.lookup taskId = some proof ∧ ZKProver.accepts proof = true ∧
      isVerified (verifiedProof scale proof result now) = true ∧
      (step sha256 scale manager c).1 = .verification result ∧ result.success = true ∧
      (step sha256 scale manager c).2.proofs
        = manager.proofs.assign taskId (verifiedProof scale proof result now) ∧
      (step sha256 scale manager c).2.stats.totalTasksVerified
        = manager.stats.totalTasksVerified + 1 ∧
      (step sha256 scale manager c).2.stats.totalRewardsPaid
        = manager.stats.totalRewardsPaid + (verifiedProof scale proof result now).rewardAmount ∧
      (step sha256 scale manager c).2.merkleBuilder = manager.merkleBuilder) := by
  cases c with
  | submitTask task commitment idNow createdNow =>
    exact .inr (.inl ⟨task, commitment, idNow, createdNow, rfl, rfl, rfl, rfl, rfl⟩)
  | verifyTaskCompletion taskId timeRand gasRand now =>
    cases hlookup : manager.proofs.lookup taskId with
    | none =>
      left
      rw [step, verifyTaskCompletion, hlookup]
      refine ⟨rfl, rfl, fun _ => rfl, by simp, ?_⟩
      intro taskId' timeRand' gasRand' now' hcall proof hproof
      obtain ⟨rfl, -, -, -⟩ := Call.verifyTaskCompletion.inj hcall
      rw [hlookup] at hproof
      exact absurd hproof (by simp)
    | some proof =>
      have hsuccess := success_verifyProof sha256 proof timeRand gasRand
      cases haccepts : ZKProver.accepts proof with
      | false =>
        -- a failed verification is reported and stored nowhere
        left
        rw [haccepts] at hsuccess
        rw [step, verifyTaskCompletion, hlookup]
        simp only [hsuccess, Bool.false_eq_true, if_false]
        refine ⟨rfl, rfl, fun _ => rfl, by simp, ?_⟩
        intro taskId' timeRand' gasRand' now' hcall found hfound
        obtain ⟨rfl, -, -, -⟩ := Call.verifyTaskCompletion.inj hcall
        rw [hlookup] at hfound
        obtain rfl := Option.some_inj.mp hfound
        exact haccepts
      | true =>
        rw [haccepts] at hsuccess
        have hstatus := verificationStatus_verifyProof sha256 haccepts timeRand gasRand
        refine .inr (.inr ⟨taskId, timeRand, gasRand, now, proof,
          ZKProver.verifyProof sha256 proof timeRand gasRand, rfl, hlookup, haccepts, ?_, ?_⟩)
        · exact decide_eq_true hstatus
        · rw [step, verifyTaskCompletion, hlookup]
          simp only [hsuccess, if_true]
          exact ⟨rfl, trivial, rfl, rfl, rfl, rfl⟩
  | generateMerkleRoot =>
    left
    rw [step, generateMerkleRoot]
    cases manager.getVerifiedProofs.isEmpty with
    | true => exact ⟨rfl, rfl, fun _ => rfl, by simp, by simp⟩
    | false => exact ⟨rfl, rfl, fun hne => absurd rfl hne, by simp, by simp⟩
  | _ => exact .inl ⟨rfl, rfl, fun _ => rfl, by simp, by simp⟩

end ZKComputeManager

end Membra
