/-
From a submitted task to its verified proof.

The proof of a task is a digest of it, and the verifier turns down the digests that begin
with a zero byte.  Of the task itself only the type stays in the proof: the reward is that
of a made-up task of this type.

* `proofOf_final` — a task's proof keeps its digest and type until the id is submitted
  again;
* `verifyTaskCompletion_of_proofOf` — what a verification then does;
* `completes_iff` — the tasks whose proofs verify;
* `rewardsTask_iff` — the tasks whose rewards are their own.
-/
import MembraL3.ZKCompute
import MembraL3.Lib.Runs
import Mathlib.Data.Nat.ModEq

namespace Membra

namespace ZKComputeManager

open Runs

/-- The call submits a task under the id. -/
def SubmitsUnder (taskId : String) : Call → Prop
  | .submitTask task _ idNow _ => ZKProver.proofTaskId task idNow = taskId
  | _ => False

/-- A run that submits the task, not for the last time, and then not under its id. -/
def submission (task : ComputeTask) (commitment : ResourceCommitment)
    (idNow createdNow : Nanoseconds) (pre mid : List Call) : List Call :=
  pre ++ .submitTask task commitment idNow createdNow :: mid

/-- The digest of the task, as its proof has it. -/
def taskDigest (sha256 : Sha256) (task : ComputeTask) : Hash :=
  sha256 (bytesOf task.taskId ++ task.inputData ++ [task.computeType.code])

variable {sha256 : Sha256} {scale : RewardScale} {task : ComputeTask} {taskId : String}

/-! ### The stored proof -/

/-- The proof stored under the id is one of the task. -/
def ProofOf (sha256 : Sha256) (task : ComputeTask) (taskId : String)
    (manager : ZKComputeManager) : Prop :=
  ∃ proof, manager.proofs.lookup taskId = some proof ∧
    proof.proofHash = taskDigest sha256 task ∧ proof.computeType = task.computeType

/-- Nothing but a submission under the id changes digest or type. -/
theorem proofOf_step (manager : ZKComputeManager) (c : Call)
    (h : ProofOf sha256 task taskId manager) (hc : ¬ SubmitsUnder taskId c) :
    ProofOf sha256 task taskId (step sha256 scale manager c).2 := by
  obtain ⟨proof, hlookup, hhash, htype⟩ := h
  rcases step_cases sha256 scale manager c with ⟨hproofs, _⟩ |
    ⟨task', commitment, idNow, createdNow, rfl, hproofs, _⟩ |
    ⟨taskId', timeRand, gasRand, now, old, result, rfl, hold, _, _, _, _, hproofs, _⟩
  · exact ⟨proof, by rw [hproofs, hlookup], hhash, htype⟩
  · have hne : taskId ≠ ZKProver.proofTaskId task' idNow := fun heq => hc heq.symm
    exact ⟨proof, by rw [hproofs, Store.lookup_assign_ne _ _ hne, hlookup], hhash, htype⟩
  · by_cases hid : taskId = taskId'
    · subst hid
      obtain rfl : proof = old := Option.some.inj (hlookup.symm.trans hold)
      exact ⟨verifiedProof scale proof result now, by rw [hproofs, Store.lookup_assign_self],
        hhash, htype⟩
    · exact ⟨proof, by rw [hproofs, Store.lookup_assign_ne _ _ hid, hlookup], hhash, htype⟩

theorem proofOf_final (scale : RewardScale) (task : ComputeTask) (commitment : ResourceCommitment)
    (idNow createdNow : Nanoseconds) (pre : List Call) {mid : List Call}
    (hmid : ∀ c ∈ mid, ¬ SubmitsUnder (ZKProver.proofTaskId task idNow) c) :
    ProofOf sha256 task (ZKProver.proofTaskId task idNow)
      (final (step sha256 scale) new (submission task commitment idNow createdNow pre mid)) := by
  rw [submission, final_append, final_cons]
  refine final_induction proofOf_step ?_ (each_of_forall_mem hmid)
  exact ⟨_, Store.lookup_assign_self .., rfl, rfl⟩

/-! ### One verification -/

/-- The verifier looks at the first byte of the digest. -/
theorem accepts_of_proofHash {proof : ZKComputeProof}
    (h : proof.proofHash = taskDigest sha256 task) :
    ZKProver.accepts proof = true ↔ (taskDigest sha256 task).get 0 ≠ 0 := by
  rw [ZKProver.accepts, h]
  exact decide_eq_true_iff

/-- A verification succeeds as the digest says; a success is stored with the reward of a
task of the same type and of the default size. -/
theorem verifyTaskCompletion_of_proofOf {manager : ZKComputeManager}
    (h : ProofOf sha256 task taskId manager) (scale : RewardScale) (timeRand gasRand : ℕ)
    (now : Nanoseconds) :
    ((manager.verifyTaskCompletion sha256 scale taskId timeRand gasRand now).1.success = true ↔
      (taskDigest sha256 task).get 0 ≠ 0) ∧
    ((taskDigest sha256 task).get 0 ≠ 0 →
      ((manager.verifyTaskCompletion sha256 scale taskId timeRand gasRand now).2.getTaskStatus
          taskId).verificationStatus = .verified ∧
      ((manager.verifyTaskCompletion sha256 scale taskId timeRand gasRand now).2.getTaskStatus
          taskId).rewardAmount
        = calculateReward scale { ComputeTask.default with computeType := task.computeType }
            (manager.verifyTaskCompletion sha256 scale taskId timeRand gasRand now).1) := by
  obtain ⟨proof, hlookup, hhash, htype⟩ := h
  have haccepts := accepts_of_proofHash hhash
  have hsuccess := success_verifyProof sha256 proof timeRand gasRand
  rw [verifyTaskCompletion, hlookup]
  cases hdigest : ZKProver.accepts proof with
  | false =>
    rw [hdigest] at hsuccess haccepts
    simp only [hsuccess, Bool.false_eq_true, if_false, false_iff] at haccepts ⊢
    exact ⟨haccepts, fun hne => absurd hne haccepts⟩
  | true =>
    have hstatus := verificationStatus_verifyProof sha256 hdigest timeRand gasRand
    rw [hdigest] at hsuccess haccepts
    simp only [hsuccess, if_true]
    refine ⟨iff_of_true trivial (haccepts.mp rfl), fun _ => ?_⟩
    rw [getTaskStatus, Store.lookup_assign_self, Option.getD_some]
    refine ⟨hstatus, ?_⟩
    rw [← htype]
    rfl

/-- The verifier makes up the time. -/
theorem verificationTimeMs_of_proofOf {manager : ZKComputeManager}
    (h : ProofOf sha256 task taskId manager) (scale : RewardScale) (timeRand gasRand : ℕ)
    (now : Nanoseconds) :
    (manager.verifyTaskCompletion sha256 scale taskId timeRand gasRand now).1.verificationTimeMs
      = UInt64.ofNat (100 + timeRand % 200) := by
  obtain ⟨proof, hlookup, _⟩ := h
  have htime : (ZKProver.verifyProof sha256 proof timeRand gasRand).verificationTimeMs
      = UInt64.ofNat (100 + timeRand % 200) := by
    rw [ZKProver.verifyProof]
    cases ZKProver.accepts proof with
    | false => rfl
    | true => rfl
  rw [verifyTaskCompletion, hlookup]
  by_cases hsuccess : (ZKProver.verifyProof sha256 proof timeRand gasRand).success = true
  · simp only [if_pos hsuccess, htime]
  · simp only [if_neg hsuccess, htime]

/-! ### Honest proofs -/

/-- The proof of the task verifies, and wherever the task was submitted, and its id not
submitted again, a verification moves it out of pending. -/
structure Completes (sha256 : Sha256) (scale : RewardScale) (task : ComputeTask)
    (commitment : ResourceCommitment) : Prop where
  verifies : ∀ (prover : ZKProver) (idNow createdNow : Nanoseconds) (timeRand gasRand : ℕ),
    (ZKProver.verifyProof sha256 (prover.generateProof sha256 task commitment idNow createdNow)
        timeRand gasRand).success = true ∧
      (ZKProver.verifyProof sha256 (prover.generateProof sha256 task commitment idNow createdNow)
        timeRand gasRand).verificationStatus = .verified
  leavesPending : ∀ (idNow createdNow : Nanoseconds) (pre mid : List Call) (timeRand gasRand : ℕ)
      (now : Nanoseconds), (∀ c ∈ mid, ¬ SubmitsUnder (ZKProver.proofTaskId task idNow) c) →
    ((final (step sha256 scale) new (submission task commitment idNow createdNow pre mid ++
        [.verifyTaskCompletion (ZKProver.proofTaskId task idNow) timeRand gasRand
          now])).getTaskStatus (ZKProver.proofTaskId task idNow)).verificationStatus ≠ .pending

/-- The proof of a task verifies iff the digest of its id, input and type does not begin
with a zero byte. -/
theorem completes_iff (sha256 : Sha256) (scale : RewardScale) (task : ComputeTask)
    (commitment : ResourceCommitment) :
    Completes sha256 scale task commitment ↔
      (sha256 (bytesOf task.taskId ++ task.inputData ++ [task.computeType.code])).get 0 ≠ 0 := by
  have haccepts : ∀ (prover : ZKProver) (idNow createdNow : Nanoseconds),
      ZKProver.accepts (prover.generateProof sha256 task commitment idNow createdNow) = true ↔
        (taskDigest sha256 task).get 0 ≠ 0 := fun _ _ _ => accepts_of_proofHash rfl
  constructor
  · intro hcompletes
    have hsuccess := (hcompletes.verifies .new 0 0 0 0).1
    rw [success_verifyProof] at hsuccess
    exact (haccepts .new 0 0).mp hsuccess
  · intro hdigest
    refine ⟨?_, ?_⟩
    · intro prover idNow createdNow timeRand gasRand
      have haccepted := (haccepts prover idNow createdNow).mpr hdigest
      rw [success_verifyProof]
      exact ⟨haccepted, verificationStatus_verifyProof sha256 haccepted timeRand gasRand⟩
    · intro idNow createdNow pre mid timeRand gasRand now hmid
      have hproof := @proofOf_final sha256 scale task commitment idNow createdNow pre mid hmid
      obtain ⟨hverified, _⟩ :=
        (verifyTaskCompletion_of_proofOf hproof scale timeRand gasRand now).2 hdigest
      rw [final_append, final_cons, final_nil]
      intro hpending
      exact absurd (hverified.symm.trans hpending) (by simp)

theorem not_forall_completes :
    ¬ ∀ sha256 scale task commitment, Completes sha256 scale task commitment := by
  intro h
  have hcompletes := h (fun _ => zeroHash) (exactScale .wrapping) .default .default
  have hsuccess := (hcompletes.verifies .new 0 0 0 0).1
  revert hsuccess
  decide +kernel

/-- A proof that is turned down stays as it was submitted. -/
theorem pending_step (hdigest : (taskDigest sha256 task).get 0 = 0) (manager : ZKComputeManager)
    (c : Call) (h : ProofOf sha256 task taskId manager ∧
      (manager.getTaskStatus taskId).verificationStatus = .pending)
    (hc : ¬ SubmitsUnder taskId c) :
    ProofOf sha256 task taskId (step sha256 scale manager c).2 ∧
      ((step sha256 scale manager c).2.getTaskStatus taskId).verificationStatus = .pending := by
  obtain ⟨hproof, hpending⟩ := h
  refine ⟨proofOf_step manager c hproof hc, ?_⟩
  obtain ⟨proof, hlookup, hhash, _⟩ := hproof
  rw [getTaskStatus] at hpending ⊢
  rcases step_cases sha256 scale manager c with ⟨hproofs, _⟩ |
    ⟨task', commitment, idNow, createdNow, rfl, hproofs, _⟩ |
    ⟨taskId', timeRand, gasRand, now, old, result, rfl, hold, haccepts, _, _, _, hproofs, _⟩
  · rw [hproofs]
    exact hpending
  · have hne : taskId ≠ ZKProver.proofTaskId task' idNow := fun heq => hc heq.symm
    rw [hproofs, Store.lookup_assign_ne _ _ hne]
    exact hpending
  · have hne : taskId ≠ taskId' := by
      rintro rfl
      obtain rfl : proof = old := Option.some.inj (hlookup.symm.trans hold)
      exact (accepts_of_proofHash hhash).mp haccepts hdigest
    rw [hproofs, Store.lookup_assign_ne _ _ hne]
    exact hpending

/-- A task whose digest begins with a zero byte stays pending, however often it is
verified. -/
theorem pending_of_digest (scale : RewardScale) (hdigest : (taskDigest sha256 task).get 0 = 0)
    (commitment : ResourceCommitment) (idNow createdNow : Nanoseconds) (pre : List Call)
    {mid : List Call} (hmid : ∀ c ∈ mid, ¬ SubmitsUnder (ZKProver.proofTaskId task idNow) c) :
    ((final (step sha256 scale) new
        (submission task commitment idNow createdNow pre mid)).getTaskStatus
      (ZKProver.proofTaskId task idNow)).verificationStatus = .pending := by
  rw [submission, final_append, final_cons]
  refine (final_induction (pending_step hdigest) ⟨⟨_, Store.lookup_assign_self .., rfl, rfl⟩, ?_⟩
    (each_of_forall_mem hmid)).2
  generalize final (step sha256 scale) new pre = manager
  have hlookup : (step sha256 scale manager (.submitTask task commitment idNow
      createdNow)).2.proofs.lookup (ZKProver.proofTaskId task idNow)
      = some (manager.prover.generateProof sha256 task commitment idNow createdNow) :=
    Store.lookup_assign_self ..
  rw [getTaskStatus, hlookup]
  rfl

/-! ### Rewards -/

/-- The base rewards have no period among the numbers of thousands of units. -/
theorem baseReward_mul_eq_iff (computeType : ComputeType) {k : ℕ} (hk : k ≤ 2 ^ 64 / 1000) :
    (baseReward computeType).toNat * k % 2 ^ 64 = (baseReward computeType).toNat ↔ k = 1 := by
  have hlt := UInt64.toNat_lt (baseReward computeType)
  have hperiod : 2 ^ 57 ≤ 2 ^ 64 / Nat.gcd (2 ^ 64) (baseReward computeType).toNat := by
    cases computeType <;> decide +kernel
  constructor
  · intro h
    have hmod : (baseReward computeType).toNat * k ≡ (baseReward computeType).toNat * 1
        [MOD 2 ^ 64] := by
      rw [mul_one]
      exact h.trans (Nat.mod_eq_of_lt hlt).symm
    have hcancel := Nat.ModEq.cancel_left_div_gcd (by decide) hmod
    have hsmall : k < 2 ^ 57 := by omega
    exact hcancel.eq_of_lt_of_lt (hsmall.trans_le hperiod)
      (Nat.lt_of_lt_of_le (by decide) hperiod)
  · rintro rfl
    rw [mul_one, Nat.mod_eq_of_lt hlt]

/-- In 200 ms the bonus is five. -/
theorem speedScale_200 (arith : Doubles) (reward : UInt64) :
    speedScale arith reward 200
      = arith.cast (.number (arith.round (arith.round reward.toNat * 5))) := by
  have htime : arith.round 200 = 200 := arith.round_natCast 200 (by norm_num)
  have hbonus : arith.round 5 = 5 := arith.round_natCast 5 (by norm_num)
  have hratio : quotient 1000 (arith.round 200) = .number 5 := by
    rw [htime, quotient_of_ne 1000 (by norm_num)]
    norm_num
  show arith.cast (((((quotient 1000 (arith.round 200)).map arith.round).map (max 1)).scale _).map
    arith.round) = _
  rw [hratio, DoubleValue.map_number, hbonus, DoubleValue.map_number, max_eq_right (by norm_num),
    DoubleValue.scale_number, DoubleValue.map_number]

/-- A small reward is multiplied without rounding. -/
theorem toNat_speedScale_200 (arith : Doubles) {reward : UInt64} (h : reward.toNat ≤ 2 ^ 50) :
    (speedScale arith reward 200).toNat = 5 * reward.toNat := by
  have hreward := arith.round_natCast reward.toNat (by omega)
  have hproduct : arith.round (arith.round reward.toNat * 5) = (5 * reward.toNat : ℕ) := by
    rw [hreward, ← arith.round_natCast (5 * reward.toNat) (by omega)]
    push_cast
    ring_nf
  have hrange : ((5 * reward.toNat : ℕ) : ℚ) < 2 ^ 64 := by
    have hlt : 5 * reward.toNat < 2 ^ 64 := by omega
    exact_mod_cast hlt
  rw [speedScale_200, hproduct, arith.cast_of_range _ (Nat.cast_nonneg _) hrange,
    Nat.floor_natCast]

/-- A larger reward in range is not rounded below five times `2 ^ 50`. -/
theorem le_toNat_speedScale_200 (arith : Doubles) {reward : UInt64} (h : 2 ^ 50 ≤ reward.toNat)
    (hrange : arith.round (arith.round reward.toNat * 5) < 2 ^ 64) :
    5 * 2 ^ 50 ≤ (speedScale arith reward 200).toNat := by
  have hreward : ((2 ^ 50 : ℕ) : ℚ) ≤ arith.round reward.toNat :=
    arith.natCast_le_round (by norm_num) (by exact_mod_cast h)
  have hproduct : ((5 * 2 ^ 50 : ℕ) : ℚ) ≤ arith.round (arith.round reward.toNat * 5) := by
    refine arith.natCast_le_round (by norm_num) ?_
    push_cast at hreward ⊢
    linarith
  rw [speedScale_200, arith.cast_of_range _ ((Nat.cast_nonneg _).trans hproduct) hrange]
  exact Nat.le_floor hproduct

/-- A bonus of five tells a small reward from all others, however products are rounded;
what is out of range may be anything. -/
theorem exists_speedScale_200_ne (arith : Doubles) {reward reward' : UInt64}
    (hpos : 0 < reward.toNat) (hsmall : reward.toNat ≤ 2 ^ 49) (hne : reward ≠ reward') :
    ∃ convert, speedScale (arith.withCast convert) reward 200
      ≠ speedScale (arith.withCast convert) reward' 200 := by
  have hexact : ∀ convert, (speedScale (arith.withCast convert) reward 200).toNat
      = 5 * reward.toNat := fun convert => toNat_speedScale_200 _ (by omega)
  by_cases hsmall' : reward'.toNat ≤ 2 ^ 50
  · refine ⟨.wrapping, fun heq => hne (UInt64.toNat_inj.mp ?_)⟩
    have hsame := congrArg UInt64.toNat heq
    rw [hexact, toNat_speedScale_200 _ hsmall'] at hsame
    omega
  by_cases hrange : arith.round (arith.round reward'.toNat * 5) < 2 ^ 64
  · refine ⟨.wrapping, fun heq => ?_⟩
    have hsame := congrArg UInt64.toNat heq
    have hlarge := le_toNat_speedScale_200 (arith.withCast .wrapping) (by omega) hrange
    rw [hexact] at hsame
    omega
  · -- out of range the conversion may give 0
    refine ⟨.giving 0, fun heq => ?_⟩
    have hsame := congrArg UInt64.toNat heq
    have hzero : speedScale (arith.withCast (.giving 0)) reward' 200 = 0 := by
      rw [speedScale_200]
      exact WordCast.giving_of_ge 0 (not_lt.mp hrange)
    rw [hexact, hzero, UInt64.toNat_zero] at hsame
    omega

/-- Wherever the task was submitted, and its id not submitted again, the reward stored by
a successful verification is the one calculated for the task. -/
def RewardsTask (sha256 : Sha256) (scale : RewardScale) (task : ComputeTask)
    (commitment : ResourceCommitment) : Prop :=
  ∀ (idNow createdNow : Nanoseconds) (pre mid : List Call) (timeRand gasRand : ℕ)
    (now : Nanoseconds) (v : VerificationResult) (manager : ZKComputeManager),
    (∀ c ∈ mid, ¬ SubmitsUnder (ZKProver.proofTaskId task idNow) c) →
    (final (step sha256 scale) new
        (submission task commitment idNow createdNow pre mid)).verifyTaskCompletion sha256
      scale (ZKProver.proofTaskId task idNow) timeRand gasRand now = (v, manager) →
    v.success = true →
    (manager.getTaskStatus (ZKProver.proofTaskId task idNow)).rewardAmount
      = calculateReward scale task v

/-- The digest begins with a zero byte, so that no verification succeeds, or the task asks
for as many thousands of units as the made-up one. -/
def RewardFits (sha256 : Sha256) (task : ComputeTask) : Prop :=
  (sha256 (bytesOf task.taskId ++ task.inputData ++ [task.computeType.code])).get 0 = 0 ∨
    1000 ≤ task.requiredComputeUnits.toNat ∧ task.requiredComputeUnits.toNat < 2000

/-- The task counts as one of the default size. -/
theorem div_1000_eq_one_iff (units : UInt64) :
    units / 1000 = 1 ↔ 1000 ≤ units.toNat ∧ units.toNat < 2000 := by
  have hunit : (1000 : UInt64).toNat = 1000 := rfl
  have hone : (1 : UInt64).toNat = 1 := rfl
  rw [← UInt64.toNat_inj, UInt64.toNat_div, hunit, hone]
  omega

theorem baseReward_mul_eq_self_iff (computeType : ComputeType) (units : UInt64) :
    baseReward computeType * (units / 1000) = baseReward computeType ↔ units / 1000 = 1 := by
  have hunit : (1000 : UInt64).toNat = 1000 := rfl
  have hone : (1 : UInt64).toNat = 1 := rfl
  have hlt := UInt64.toNat_lt units
  have hk : (units / 1000).toNat ≤ 2 ^ 64 / 1000 := by
    rw [UInt64.toNat_div, hunit]
    exact Nat.div_le_div_right hlt.le
  rw [← UInt64.toNat_inj, ← UInt64.toNat_inj, UInt64.toNat_mul, hone]
  exact baseReward_mul_eq_iff computeType hk

/-- What is stored, if the reward fits, is the reward of the task, whatever it is scaled
by. -/
theorem rewardsTask_of_fits (scale : RewardScale) (commitment : ResourceCommitment)
    (h : RewardFits sha256 task) : RewardsTask sha256 scale task commitment := by
  intro idNow createdNow pre mid timeRand gasRand now v manager hmid hverify hsuccess
  have hproof := @proofOf_final sha256 scale task commitment idNow createdNow pre mid hmid
  obtain ⟨hiff, hstored⟩ := verifyTaskCompletion_of_proofOf hproof scale timeRand gasRand now
  rw [hverify] at hiff hstored
  rcases h with hdigest | hunits
  · exact absurd hdigest (hiff.mp hsuccess)
  · rw [(hstored (hiff.mp hsuccess)).2]
    have hdefault : ComputeTask.default.requiredComputeUnits / 1000 = 1 := rfl
    simp only [calculateReward, (div_1000_eq_one_iff _).mpr hunits, hdefault]

/-- A verification of 200 ms, right after the submission, compares the two rewards. -/
theorem scale_eq_of_rewardsTask (hdigest : (taskDigest sha256 task).get 0 ≠ 0)
    {commitment : ResourceCommitment} (h : RewardsTask sha256 scale task commitment) :
    scale (baseReward task.computeType) 200
      = scale (baseReward task.computeType * (task.requiredComputeUnits / 1000)) 200 := by
  have hmid : ∀ c ∈ ([] : List Call), ¬ SubmitsUnder (ZKProver.proofTaskId task 0) c :=
    fun _ hc => absurd hc List.not_mem_nil
  have hproof := @proofOf_final sha256 scale task commitment 0 0 [] [] hmid
  obtain ⟨hiff, hstored⟩ := verifyTaskCompletion_of_proofOf hproof scale 100 0 0
  have htime := verificationTimeMs_of_proofOf hproof scale 100 0 0
  generalize hverify : (final (step sha256 scale) new
    (submission task commitment 0 0 [] [])).verifyTaskCompletion sha256 scale
      (ZKProver.proofTaskId task 0) 100 0 0 = result at hiff hstored htime
  obtain ⟨v, manager⟩ := result
  have hsuccess : v.success = true := hiff.mpr hdigest
  have hreward := h 0 0 [] [] 100 0 0 v manager hmid hverify hsuccess
  rw [(hstored hdigest).2] at hreward
  have hms : v.verificationTimeMs = 200 := htime
  have hdefault : ComputeTask.default.requiredComputeUnits / 1000 = 1 := rfl
  simpa only [calculateReward, hsuccess, hms, hdefault, Bool.not_true, Bool.false_eq_true,
    if_false, mul_one] using hreward

theorem baseReward_bounds (computeType : ComputeType) :
    0 < (baseReward computeType).toNat ∧ (baseReward computeType).toNat ≤ 2 ^ 49 := by
  cases computeType <;> decide +kernel

/-- However products are rounded: the stored reward is that of the task for all
verifications, whatever a conversion gives that is out of range, iff no verification
succeeds or the task asks for 1000 to 1999 units. -/
theorem rewardsTask_iff (sha256 : Sha256) (arith : Doubles) (task : ComputeTask)
    (commitment : ResourceCommitment) :
    (∀ convert, RewardsTask sha256 (speedScale (arith.withCast convert)) task commitment) ↔
      RewardFits sha256 task := by
  constructor
  · intro hrewards
    by_cases hdigest : (taskDigest sha256 task).get 0 = 0
    · exact .inl hdigest
    refine .inr ((div_1000_eq_one_iff _).mp ((baseReward_mul_eq_self_iff task.computeType _).mp ?_))
    by_contra hother
    obtain ⟨hpos, hsmall⟩ := baseReward_bounds task.computeType
    obtain ⟨convert, hdiffers⟩ :=
      exists_speedScale_200_ne arith hpos hsmall (Ne.symm hother)
    exact hdiffers (scale_eq_of_rewardsTask hdigest (hrewards convert))
  · intro hfits convert
    exact rewardsTask_of_fits _ commitment hfits

/-- A task of 5000 units, whose proof is verified in 200 ms, is paid for 1000. -/
theorem not_forall_rewardsTask :
    ¬ ∀ sha256 task commitment,
      RewardsTask sha256 (exactScale .wrapping) task commitment := by
  intro h
  have hreward := h (fun _ => Vector.replicate 32 1)
    { ComputeTask.default with taskId := "task_1", requiredComputeUnits := 5000 } .default 0 0 [] []
    100 0 0 _ _ (fun _ hc => absurd hc List.not_mem_nil) Prod.mk.eta.symm (by decide +kernel)
  revert hreward
  decide +kernel

end ZKComputeManager

end Membra
