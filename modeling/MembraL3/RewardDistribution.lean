/-
Rewards for verified proofs.

`RewardDistributor` credits the reward of every proof that says it is verified.  It
is handed copies, as `get_task_status` once returned them, and keeps no record of
the tasks it has paid for.

* `toNat_totalRewardsDistributed` — its total is that of the credited rewards;
* `paysOnce_step_iff`, `paysOnce_iff_coversCredits` — the calls, and the runs, that
  pay for a task at most once and out of the verified rewards;
* `paysOnce_iff_distributesOnce` — where verified proofs stay, no task may be paid
  for twice, and nothing else is needed.
-/
import MembraL3.ZKComputeTotals

namespace Membra

structure RewardDistributor where
  rewardBalances : Store String UInt64
  totalRewardsDistributed : UInt64

namespace RewardDistributor

def new : RewardDistributor := ⟨∅, 0⟩

def distributeReward (distributor : RewardDistributor) (proof : ZKComputeProof)
    (recipientWallet : String) : Bool × RewardDistributor :=
  if proof.verificationStatus ≠ .verified then (false, distributor)
  else
    (true,
      { rewardBalances := distributor.rewardBalances.assign recipientWallet
          ((distributor.rewardBalances.lookup recipientWallet).getD 0 + proof.rewardAmount)
        totalRewardsDistributed := distributor.totalRewardsDistributed + proof.rewardAmount })

/-- The table of `calculate_reward_amount`. -/
def baseReward : ComputeType → UInt64
  | .llmInference => 2000000
  | .merkleComputation => 1500000
  | .microtaskCompletion => 500000
  | .collateralLocking => 1000000
  | .gasReimbursement => 750000
  | .idoAppraisal => 3000000
  | .circuitCompilation => 2500000
  | .proofVerification => 500000

def calculateRewardAmount (task : ComputeTask) (verification : VerificationResult) : UInt64 :=
  if !verification.success then 0
  else
    let complexityMultiplier := task.requiredComputeUnits / 1000
    baseReward task.computeType * complexityMultiplier

def getRewardHistory (distributor : RewardDistributor) (wallet : String) : Store String UInt64 :=
  if wallet ≠ "" then distributor.rewardBalances
  else
    match distributor.rewardBalances.lookup wallet with
    | none => ∅
    | some balance => (∅ : Store String UInt64).assign wallet balance

end RewardDistributor

/-- A manager, a distributor, and the proofs that went from one to the other. -/
structure RewardSystem where
  manager : ZKComputeManager
  distributor : RewardDistributor
  /-- What `get_task_status` has returned. -/
  fetched : List ZKComputeProof
  /-- The proofs whose reward was credited, the last one first. -/
  credited : List ZKComputeProof

namespace RewardSystem

open Runs ZKComputeManager

def new : RewardSystem := ⟨.new, .new, [], []⟩

/-- A proof is distributed by its place among those fetched. -/
inductive Call where
  | manager (c : ZKComputeManager.Call)
  | distributeReward (index : ℕ) (recipientWallet : String)

inductive Reply where
  | manager (r : ZKComputeManager.Reply)
  | distributed (ok : Bool)

/-- The proof that a reply hands over. -/
def fetchedBy : ZKComputeManager.Reply → List ZKComputeProof
  | .status proof => [proof]
  | _ => []

def step (sha256 : Sha256) (scale : RewardScale) (system : RewardSystem) :
    Call → Reply × RewardSystem
  | .manager c =>
    let (reply, manager) := ZKComputeManager.step sha256 scale system.manager c
    (.manager reply, { system with
      manager := manager
      fetched := system.fetched ++ fetchedBy reply })
  | .distributeReward index recipientWallet =>
    match system.fetched[index]? with
    | none => (.distributed false, system)
    | some proof =>
      let (ok, distributor) := system.distributor.distributeReward proof recipientWallet
      (.distributed ok, { system with
        distributor := distributor
        credited := if ok then proof :: system.credited else system.credited })

/-- The verified proof that a distribution is given. -/
def distributes (system : RewardSystem) (index : ℕ) : Option ZKComputeProof :=
  (system.fetched[index]?).filter isVerified

/-! ### What is credited -/

/-- The rewards of a list of proofs. -/
def rewardsOf (proofs : List ZKComputeProof) : ℕ :=
  (proofs.map fun proof => proof.rewardAmount.toNat).sum

/-- The rewards of the verified proofs. -/
def verifiedRewards (manager : ZKComputeManager) : ℕ :=
  Store.total (fun proof => (verifiedReward proof).toNat) manager.proofs

/-- The task has been paid for. -/
def Credited (system : RewardSystem) (taskId : String) : Prop :=
  taskId ∈ system.credited.map ZKComputeProof.taskId

theorem step_distribute_of_none {sha256 : Sha256} {scale : RewardScale} {system : RewardSystem}
    {index : ℕ} (h : system.distributes index = none) (wallet : String) :
    (step sha256 scale system (.distributeReward index wallet)).2 = system := by
  rw [distributes] at h
  rw [step]
  cases hfetched : system.fetched[index]? with
  | none => rfl
  | some proof =>
    rw [hfetched, Option.filter_some] at h
    have hstatus : proof.verificationStatus ≠ .verified := by
      intro hverified
      have hisVerified : isVerified proof = true := decide_eq_true hverified
      rw [if_pos hisVerified] at h
      exact absurd h (by simp)
    simp only [RewardDistributor.distributeReward, if_pos hstatus, Bool.false_eq_true, if_false]

theorem step_distribute_of_some {sha256 : Sha256} {scale : RewardScale} {system : RewardSystem}
    {index : ℕ} {proof : ZKComputeProof} (h : system.distributes index = some proof)
    (wallet : String) :
    (step sha256 scale system (.distributeReward index wallet)).2 = { system with
      distributor := (system.distributor.distributeReward proof wallet).2
      credited := proof :: system.credited } := by
  obtain ⟨hfetched, hverified⟩ := Option.filter_eq_some_iff.mp h
  rw [step, hfetched]
  have hok : (system.distributor.distributeReward proof wallet).1 = true := by
    rw [RewardDistributor.distributeReward, if_neg (not_not.mpr (of_decide_eq_true hverified))]
  simp only [hok, if_true]

theorem totalRewardsDistributed_distributeReward {proof : ZKComputeProof}
    (h : isVerified proof = true) (distributor : RewardDistributor) (wallet : String) :
    (distributor.distributeReward proof wallet).2.totalRewardsDistributed
      = distributor.totalRewardsDistributed + proof.rewardAmount := by
  rw [RewardDistributor.distributeReward, if_neg (not_not.mpr (of_decide_eq_true h))]

theorem isVerified_of_distributes {system : RewardSystem} {index : ℕ} {proof : ZKComputeProof}
    (h : system.distributes index = some proof) : isVerified proof = true :=
  (Option.filter_eq_some_iff.mp h).2

/-- The total is the sum of what was credited, in words. -/
def CreditsCounted (system : RewardSystem) : Prop :=
  system.distributor.totalRewardsDistributed
    = (system.credited.map ZKComputeProof.rewardAmount).sum

theorem creditsCounted_step (sha256 : Sha256) (scale : RewardScale) (system : RewardSystem)
    (c : Call) (h : CreditsCounted system) : CreditsCounted (step sha256 scale system c).2 := by
  cases c with
  | manager c => exact h
  | distributeReward index wallet =>
    cases hproof : system.distributes index with
    | none =>
      rw [step_distribute_of_none hproof wallet]
      exact h
    | some proof =>
      rw [step_distribute_of_some hproof wallet, CreditsCounted,
        totalRewardsDistributed_distributeReward (isVerified_of_distributes hproof), h,
        List.map_cons, List.sum_cons, add_comm]

theorem creditsCounted_final (sha256 : Sha256) (scale : RewardScale) (calls : List Call) :
    CreditsCounted (final (step sha256 scale) new calls) := by
  have hnew : CreditsCounted new := rfl
  exact final_invariant (creditsCounted_step sha256 scale) hnew calls

theorem toNat_totalRewardsDistributed {system : RewardSystem} (h : CreditsCounted system) :
    system.distributor.totalRewardsDistributed.toNat = rewardsOf system.credited % 2 ^ 64 := by
  rw [h, Words.toNat_sum, List.map_map]
  rfl

/-! ### Each task once -/

/-- No task has been paid for twice, and neither what was credited nor the total of the
distributor exceeds the rewards of the verified proofs. -/
structure PaysOnce (system : RewardSystem) : Prop where
  once : (system.credited.map ZKComputeProof.taskId).Nodup
  covered : rewardsOf system.credited ≤ verifiedRewards system.manager
  distributed :
    system.distributor.totalRewardsDistributed.toNat ≤ verifiedRewards system.manager

theorem paysOnce_new : PaysOnce new := ⟨List.nodup_nil, le_refl 0, le_refl 0⟩

/-- The total needs no bound of its own. -/
theorem paysOnce_iff_of_counted {system : RewardSystem} (h : CreditsCounted system) :
    PaysOnce system ↔ (system.credited.map ZKComputeProof.taskId).Nodup ∧
      rewardsOf system.credited ≤ verifiedRewards system.manager := by
  constructor
  · intro hpays
    exact ⟨hpays.once, hpays.covered⟩
  · rintro ⟨honce, hcovered⟩
    refine ⟨honce, hcovered, ?_⟩
    rw [toNat_totalRewardsDistributed h]
    exact (Nat.mod_le _ _).trans hcovered

/-- A verified proof is overwritten, by a new proof or by a further verification, only
where the verified rewards then still cover what was credited.  A verified proof is
distributed only for a task that was not paid for, and only where they cover its
reward too. -/
def CoversCredits (sha256 : Sha256) (scale : RewardScale) (system : RewardSystem) : Call → Prop
  | .manager (.submitTask task _ idNow _) =>
    ∀ old ∈ system.manager.proofs.lookup (ZKProver.proofTaskId task idNow),
      isVerified old = true →
      rewardsOf system.credited + old.rewardAmount.toNat ≤ verifiedRewards system.manager
  | .manager (.verifyTaskCompletion taskId timeRand gasRand now) =>
    ∀ old ∈ system.manager.proofs.lookup taskId,
      ZKProver.accepts old = true → isVerified old = true →
      rewardsOf system.credited + old.rewardAmount.toNat ≤ verifiedRewards system.manager +
        (verifiedProof scale old (ZKProver.verifyProof sha256 old timeRand gasRand)
          now).rewardAmount.toNat
  | .manager _ => True
  | .distributeReward index _ =>
    ∀ proof ∈ system.distributes index,
      ¬ system.Credited proof.taskId ∧
      rewardsOf system.credited + proof.rewardAmount.toNat ≤ verifiedRewards system.manager

/-- When a new proof leaves enough verified rewards. -/
theorem covered_assign_iff {manager manager' : ZKComputeManager} {n : ℕ}
    (hn : n ≤ verifiedRewards manager) {taskId : String} {proof : ZKComputeProof}
    (hassign : manager'.proofs = manager.proofs.assign taskId proof) :
    n ≤ verifiedRewards manager' ↔
      ∀ old ∈ manager.proofs.lookup taskId, isVerified old = true →
        n + old.rewardAmount.toNat ≤ verifiedRewards manager + (verifiedReward proof).toNat := by
  have htotal := Store.total_assign (fun proof => (verifiedReward proof).toNat) manager.proofs
    taskId proof
  rw [← hassign] at htotal
  change verifiedRewards manager' + _ = verifiedRewards manager + _ at htotal
  cases hlookup : manager.proofs.lookup taskId with
  | none =>
    rw [hlookup, Option.map_none, Option.getD_none] at htotal
    exact iff_of_true (by omega) (fun _ h => absurd h (by simp))
  | some old =>
    rw [hlookup, Option.map_some, Option.getD_some] at htotal
    have hforall : (∀ found ∈ some old, isVerified found = true →
        n + found.rewardAmount.toNat ≤ verifiedRewards manager + (verifiedReward proof).toNat) ↔
        (isVerified old = true →
          n + old.rewardAmount.toNat ≤ verifiedRewards manager + (verifiedReward proof).toNat) := by
      simp
    rw [hforall]
    cases hverified : isVerified old with
    | false =>
      have hzero : (verifiedReward old).toNat = 0 := by
        rw [verifiedReward, hverified]
        rfl
      exact iff_of_true (by omega) (fun h => absurd h (by simp))
    | true =>
      have hreward : verifiedReward old = old.rewardAmount := by
        rw [verifiedReward, if_pos hverified]
      rw [hreward] at htotal
      constructor
      · intro h _
        omega
      · intro h
        have hcover := h rfl
        omega

/-- What a verification reports. -/
theorem reply_verifyTaskCompletion {sha256 : Sha256} {scale : RewardScale}
    {manager : ZKComputeManager} {taskId : String} {proof : ZKComputeProof}
    (h : manager.proofs.lookup taskId = some proof) (timeRand gasRand : ℕ) (now : Nanoseconds) :
    (ZKComputeManager.step sha256 scale manager
        (.verifyTaskCompletion taskId timeRand gasRand now)).1
      = .verification (ZKProver.verifyProof sha256 proof timeRand gasRand) := by
  rw [ZKComputeManager.step, verifyTaskCompletion, h]
  by_cases hsuccess : (ZKProver.verifyProof sha256 proof timeRand gasRand).success = true
  · simp only [if_pos hsuccess, Prod.map]
  · simp only [if_neg hsuccess, Prod.map]

/-- A call of the manager leaves what was credited, so the verified rewards decide. -/
theorem covered_manager_iff {sha256 : Sha256} {scale : RewardScale} {system : RewardSystem}
    (hcovered : rewardsOf system.credited ≤ verifiedRewards system.manager)
    (c : ZKComputeManager.Call) :
    rewardsOf system.credited
        ≤ verifiedRewards (ZKComputeManager.step sha256 scale system.manager c).2 ↔
      CoversCredits sha256 scale system (.manager c) := by
  rcases step_cases sha256 scale system.manager c with ⟨hproofs, _, _, hsubmit, hverify⟩ |
    ⟨task, commitment, idNow, createdNow, rfl, hproofs, _⟩ |
    ⟨taskId, timeRand, gasRand, now, proof, result, rfl, hlookup, haccepts, hisVerified, hreply,
      _, hproofs, _⟩
  · have hsame : verifiedRewards (ZKComputeManager.step sha256 scale system.manager c).2
        = verifiedRewards system.manager := by
      rw [verifiedRewards, hproofs, verifiedRewards]
    rw [hsame]
    refine iff_of_true hcovered ?_
    cases c with
    | submitTask task commitment idNow createdNow =>
      exact absurd rfl (hsubmit task commitment idNow createdNow)
    | verifyTaskCompletion taskId timeRand gasRand now =>
      intro old hold haccepts
      have hrejects := hverify taskId timeRand gasRand now rfl old hold
      exact absurd (hrejects.symm.trans haccepts) (by simp)
    | _ => trivial
  · have hpending : (verifiedReward (system.manager.prover.generateProof sha256 task commitment
        idNow createdNow)).toNat = 0 := rfl
    rw [covered_assign_iff hcovered hproofs, hpending]
    exact Iff.rfl
  · -- the verification is the one of the proof that was stored
    rw [reply_verifyTaskCompletion hlookup, ZKComputeManager.Reply.verification.injEq] at hreply
    subst hreply
    rw [covered_assign_iff hcovered hproofs, CoversCredits, hlookup, verifiedReward,
      if_pos hisVerified]
    simp [haccepts]

/-- From a system that has paid once for each task, one call leads to such a system iff
it keeps to the condition. -/
theorem paysOnce_step_iff {sha256 : Sha256} {scale : RewardScale} {system : RewardSystem}
    (hcounted : CreditsCounted system) (h : PaysOnce system) (c : Call) :
    PaysOnce (step sha256 scale system c).2 ↔ CoversCredits sha256 scale system c := by
  rw [paysOnce_iff_of_counted (creditsCounted_step sha256 scale system c hcounted)]
  cases c with
  | manager c => exact (and_iff_right h.once).trans (covered_manager_iff h.covered c)
  | distributeReward index wallet =>
    cases hproof : system.distributes index with
    | none =>
      rw [step_distribute_of_none hproof wallet, CoversCredits, hproof]
      exact iff_of_true ⟨h.once, h.covered⟩ (fun _ hnone => absurd hnone (by simp))
    | some proof =>
      have hrewards : rewardsOf (proof :: system.credited)
          = rewardsOf system.credited + proof.rewardAmount.toNat := by
        rw [rewardsOf, List.map_cons, List.sum_cons, add_comm, rewardsOf]
      rw [step_distribute_of_some hproof wallet, CoversCredits, hproof, hrewards, List.map_cons,
        List.nodup_cons]
      have hmem : (∀ found ∈ some proof, ¬ system.Credited found.taskId ∧
          rewardsOf system.credited + found.rewardAmount.toNat ≤ verifiedRewards system.manager) ↔
          ¬ system.Credited proof.taskId ∧
            rewardsOf system.credited + proof.rewardAmount.toNat
              ≤ verifiedRewards system.manager := by
        simp
      rw [hmem, and_iff_left h.once]
      exact Iff.rfl

/-- No task of a run is paid for twice and all is paid out of the verified rewards iff
each of its calls keeps to the condition. -/
theorem paysOnce_iff_coversCredits (sha256 : Sha256) (scale : RewardScale) (calls : List Call) :
    (∀ pre, pre <+: calls → PaysOnce (final (step sha256 scale) new pre)) ↔
      Each (step sha256 scale) (CoversCredits sha256 scale) new calls := by
  refine forall_final_iff paysOnce_new ?_
  intro pre c h
  exact paysOnce_step_iff (creditsCounted_final sha256 scale pre) h c

/-- One verified proof is fetched once and distributed to two wallets. -/
def distributedTwice : List Call :=
  [.manager (.submitTask { ComputeTask.default with taskId := "task_1" } .default 0 0),
    .manager (.verifyTaskCompletion "task_1" 0 0 1), .manager (.getTaskStatus "task_1"),
    .distributeReward 0 "wallet_1", .distributeReward 0 "wallet_2"]

theorem not_forall_paysOnce :
    ¬ ∀ (sha256 : Sha256) (calls : List Call),
      PaysOnce (final (step sha256 (exactScale .wrapping)) new calls) := by
  intro h
  have hdistributed := (h (fun _ => Vector.replicate 32 1) distributedTwice).distributed
  revert hdistributed
  decide +kernel

/-! ### Where verified proofs stay

A copy that was fetched is then still the proof of its task, and the condition on
sums follows from the one on tasks. -/

/-- No verified proof is submitted or verified again. -/
def KeepsVerified (system : RewardSystem) : Call → Prop
  | .manager (.submitTask task _ idNow _) =>
    verifiedAt system.manager (ZKProver.proofTaskId task idNow) = false
  | .manager (.verifyTaskCompletion taskId _ _ _) => verifiedAt system.manager taskId = false
  | _ => True

/-- No verified proof is distributed for a task that was paid for. -/
def DistributesOnce (system : RewardSystem) : Call → Prop
  | .distributeReward index _ =>
    ∀ proof ∈ system.distributes index, ¬ system.Credited proof.taskId
  | _ => True

/-- Every proof is stored under its task, and the verified copies are those stored. -/
structure CopiesStored (system : RewardSystem) : Prop where
  keyed : ∀ taskId proof, system.manager.proofs.lookup taskId = some proof → proof.taskId = taskId
  fetched : ∀ proof ∈ system.fetched, isVerified proof = true →
    system.manager.proofs.lookup proof.taskId = some proof
  credited : ∀ proof ∈ system.credited, isVerified proof = true ∧
    system.manager.proofs.lookup proof.taskId = some proof

theorem copiesStored_new : CopiesStored new where
  keyed _ _ h := absurd h (by simp [new, ZKComputeManager.new])
  fetched _ h := absurd h List.not_mem_nil
  credited _ h := absurd h List.not_mem_nil

/-- A verified proof stays where another is stored. -/
theorem lookup_assign_of_verified {manager : ZKComputeManager} {taskId : String}
    (h : verifiedAt manager taskId = false) {proof : ZKComputeProof}
    (hverified : isVerified proof = true)
    (hlookup : manager.proofs.lookup proof.taskId = some proof) (new : ZKComputeProof) :
    (manager.proofs.assign taskId new).lookup proof.taskId = some proof := by
  have hne : proof.taskId ≠ taskId := by
    rintro rfl
    rw [verifiedAt, hlookup, Option.any_some, hverified] at h
    exact absurd h (by simp)
  rw [Store.lookup_assign_ne _ _ hne, hlookup]

/-- The same of all copies of a system, where a proof is stored under its task. -/
theorem copiesStored_assign {system system' : RewardSystem} (h : CopiesStored system)
    {taskId : String} (hkeep : verifiedAt system.manager taskId = false) {new : ZKComputeProof}
    (htaskId : new.taskId = taskId)
    (hassign : system'.manager.proofs = system.manager.proofs.assign taskId new)
    (hfetched : system'.fetched = system.fetched) (hcredited : system'.credited = system.credited) :
    CopiesStored system' := by
  refine ⟨?_, ?_, ?_⟩
  · intro key proof hlookup
    rw [hassign] at hlookup
    rcases Store.of_lookup_assign hlookup with ⟨rfl, rfl⟩ | hlookup
    · exact htaskId
    · exact h.keyed key proof hlookup
  · intro proof hproof hverified
    rw [hfetched] at hproof
    rw [hassign]
    exact lookup_assign_of_verified hkeep hverified (h.fetched proof hproof hverified) new
  · intro proof hproof
    rw [hcredited] at hproof
    obtain ⟨hverified, hlookup⟩ := h.credited proof hproof
    rw [hassign]
    exact ⟨hverified, lookup_assign_of_verified hkeep hverified hlookup new⟩

/-- A verified proof that is handed over is the one of its task. -/
theorem lookup_of_fetchedBy {sha256 : Sha256} {scale : RewardScale} {manager : ZKComputeManager}
    (hkeyed : ∀ taskId proof, manager.proofs.lookup taskId = some proof → proof.taskId = taskId)
    {c : ZKComputeManager.Call} {proof : ZKComputeProof}
    (hproof : proof ∈ fetchedBy (ZKComputeManager.step sha256 scale manager c).1)
    (hverified : isVerified proof = true) : manager.proofs.lookup proof.taskId = some proof := by
  cases c with
  | getTaskStatus taskId =>
    obtain rfl := List.mem_singleton.mp hproof
    rw [getTaskStatus] at hverified ⊢
    cases hlookup : manager.proofs.lookup taskId with
    | none =>
      rw [hlookup] at hverified
      exact absurd hverified (by simp [isVerified])
    | some proof =>
      rw [Option.getD_some, hkeyed taskId proof hlookup, hlookup]
  | _ => exact absurd hproof List.not_mem_nil

theorem copiesStored_step (sha256 : Sha256) (scale : RewardScale) (system : RewardSystem)
    (c : Call) (h : CopiesStored system) (hkeep : KeepsVerified system c) :
    CopiesStored (step sha256 scale system c).2 := by
  cases c with
  | manager c =>
    rcases step_cases sha256 scale system.manager c with ⟨hproofs, _⟩ |
      ⟨task, commitment, idNow, createdNow, rfl, hproofs, _⟩ |
      ⟨taskId, timeRand, gasRand, now, proof, result, rfl, hlookup, _, _, hreply, _, hproofs, _⟩
    · have hsame : (step sha256 scale system (.manager c)).2.manager.proofs
          = system.manager.proofs := hproofs
      refine ⟨?_, ?_, ?_⟩
      · rw [hsame]
        exact h.keyed
      · intro proof hproof hverified
        rw [hsame]
        rcases List.mem_append.mp hproof with hproof | hproof
        · exact h.fetched proof hproof hverified
        · exact lookup_of_fetchedBy h.keyed hproof hverified
      · rw [hsame]
        exact h.credited
    · exact copiesStored_assign h hkeep rfl hproofs (List.append_nil _) rfl
    · have htaskId : (verifiedProof scale proof result now).taskId = taskId :=
        h.keyed taskId proof hlookup
      refine copiesStored_assign h hkeep htaskId hproofs ?_ rfl
      show system.fetched ++ fetchedBy (ZKComputeManager.step sha256 scale system.manager
        (.verifyTaskCompletion taskId timeRand gasRand now)).1 = system.fetched
      rw [hreply]
      exact List.append_nil _
  | distributeReward index wallet =>
    cases hproof : system.distributes index with
    | none =>
      rw [step_distribute_of_none hproof wallet]
      exact h
    | some proof =>
      rw [step_distribute_of_some hproof wallet]
      refine ⟨h.keyed, h.fetched, ?_⟩
      intro found hfound
      rcases List.mem_cons.mp hfound with rfl | hfound
      · obtain ⟨hfetched, hverified⟩ := Option.filter_eq_some_iff.mp hproof
        exact ⟨hverified, h.fetched found (List.mem_of_getElem? hfetched) hverified⟩
      · exact h.credited found hfound

/-- Copies of distinct tasks are paid out of the verified rewards. -/
theorem covered_of_copiesStored {system : RewardSystem} (h : CopiesStored system)
    (honce : (system.credited.map ZKComputeProof.taskId).Nodup) :
    rewardsOf system.credited ≤ verifiedRewards system.manager := by
  refine Store.sum_le_total honce ?_
  intro proof hproof
  obtain ⟨hverified, hlookup⟩ := h.credited proof hproof
  refine ⟨proof, hlookup, ?_⟩
  rw [verifiedReward, if_pos hverified]

/-- In a run that keeps the verified proofs, no task is paid for twice and all is paid
out of the verified rewards iff no proof is distributed for a task that was paid for. -/
theorem paysOnce_iff_distributesOnce {sha256 : Sha256} {scale : RewardScale} {calls : List Call}
    (h : Each (step sha256 scale) KeepsVerified new calls) :
    (∀ pre, pre <+: calls → PaysOnce (final (step sha256 scale) new pre)) ↔
      Each (step sha256 scale) DistributesOnce new calls := by
  constructor
  · intro hpays
    rw [each_iff_forall]
    intro pre c hpre
    have hbefore := hpays pre ((List.prefix_append pre [c]).trans hpre)
    have hafter := hpays (pre ++ [c]) hpre
    rw [final_append, final_cons, final_nil] at hafter
    have hcovers :=
      (paysOnce_step_iff (creditsCounted_final sha256 scale pre) hbefore c).mp hafter
    cases c with
    | manager c => trivial
    | distributeReward index wallet => exact fun proof hproof => (hcovers proof hproof).1
  · intro honce pre hpre
    have hboth := (h.and honce).restrict hpre
    have hnew : CopiesStored new ∧ (new.credited.map ZKComputeProof.taskId).Nodup :=
      ⟨copiesStored_new, List.nodup_nil⟩
    have hinv : CopiesStored (final (step sha256 scale) new pre) ∧
        ((final (step sha256 scale) new pre).credited.map ZKComputeProof.taskId).Nodup := by
      refine @final_induction _ _ _ (step sha256 scale) new _
        (fun system => CopiesStored system ∧
          (system.credited.map ZKComputeProof.taskId).Nodup) ?_ pre hnew hboth
      rintro system c ⟨hcopies, hnodup⟩ ⟨hkeep, hfresh⟩
      refine ⟨copiesStored_step sha256 scale system c hcopies hkeep, ?_⟩
      cases c with
      | manager c => exact hnodup
      | distributeReward index wallet =>
        cases hproof : system.distributes index with
        | none =>
          rw [step_distribute_of_none hproof wallet]
          exact hnodup
        | some proof =>
          rw [step_distribute_of_some hproof wallet]
          exact List.nodup_cons.mpr ⟨hfresh proof hproof, hnodup⟩
    obtain ⟨hcopies, hnodup⟩ := hinv
    exact (paysOnce_iff_of_counted (creditsCounted_final sha256 scale pre)).mpr
      ⟨hnodup, covered_of_copiesStored hcopies hnodup⟩

end RewardSystem

end Membra
