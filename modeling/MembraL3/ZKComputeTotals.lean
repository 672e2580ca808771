/-
Totals of the verified proofs.

`verify_task_completion` does not look at the status of the proof: a task that is
verified again is counted and paid again, and `submit_task` replaces a verified
proof by a new one without taking it back.

* `totalsAgree_step_iff` — one call keeps the totals right iff it is no such call;
* `totalsAgree_iff_verifiesOnce` — the runs in which they are right throughout.
-/
import MembraL3.ZKCompute
import MembraL3.Lib.Runs
import MembraL3.Lib.Words

namespace Membra

namespace ZKComputeManager

open Runs

/-- The proof of the task is verified. -/
def verifiedAt (manager : ZKComputeManager) (taskId : String) : Bool :=
  (manager.proofs.lookup taskId).any isVerified

/-- The reward of a verified proof. -/
def verifiedReward (proof : ZKComputeProof) : UInt64 :=
  if isVerified proof then proof.rewardAmount else 0

/-- The totals are those of the verified proofs: their number, and the sum of their
rewards modulo `2 ^ 64`. -/
structure TotalsAgree (manager : ZKComputeManager) : Prop where
  verified : manager.stats.totalTasksVerified.toNat = Store.count isVerified manager.proofs
  paid : manager.stats.totalRewardsPaid = Store.total verifiedReward manager.proofs

theorem totalsAgree_new : TotalsAgree new := ⟨rfl, rfl⟩

/-- No verified proof is submitted or verified again, and the total can count one
more. -/
def VerifiesOnce (manager : ZKComputeManager) : Call → Prop
  | .submitTask task _ idNow _ => verifiedAt manager (ZKProver.proofTaskId task idNow) = false
  | .verifyTaskCompletion taskId _ _ _ => ∀ proof ∈ manager.proofs.lookup taskId,
      ZKProver.accepts proof = true →
      isVerified proof = false ∧ manager.stats.totalTasksVerified.toNat + 1 < 2 ^ 64
  | _ => True

/-- Where no verified proof is overwritten, the sum of the rewards grows by that of
the new proof. -/
theorem total_verifiedReward_assign {manager : ZKComputeManager} {taskId : String}
    (h : verifiedAt manager taskId = false) (proof : ZKComputeProof) :
    Store.total verifiedReward (manager.proofs.assign taskId proof)
      = Store.total verifiedReward manager.proofs + verifiedReward proof := by
  have hsum := Store.total_assign verifiedReward manager.proofs taskId proof
  rw [verifiedAt] at h
  cases hlookup : manager.proofs.lookup taskId with
  | none =>
    rw [hlookup] at hsum
    exact (add_zero _).symm.trans hsum
  | some old =>
    rw [hlookup] at h hsum
    have hold : verifiedReward old = 0 := by
      rw [verifiedReward, if_neg]
      exact Bool.eq_false_iff.mp h
    rw [Option.map_some, Option.getD_some, hold] at hsum
    exact (add_zero _).symm.trans hsum

/-- Where a proof is stored and the total paid grows by its reward, the count decides:
if it is right, then no verified proof is overwritten, and the sum is right too. -/
theorem totalsAgree_assign_iff {manager manager' : ZKComputeManager} {taskId : String}
    {proof : ZKComputeProof} {P : Prop} (h : TotalsAgree manager)
    (hproofs : manager'.proofs = manager.proofs.assign taskId proof)
    (hpaid : manager'.stats.totalRewardsPaid
      = manager.stats.totalRewardsPaid + verifiedReward proof)
    (hcount : manager'.stats.totalTasksVerified.toNat = Store.count isVerified manager'.proofs ↔ P)
    (hunverified : P → verifiedAt manager taskId = false) :
    TotalsAgree manager' ↔ P := by
  constructor
  · intro hagree
    exact hcount.mp hagree.verified
  · intro hP
    refine ⟨hcount.mpr hP, ?_⟩
    rw [hproofs, hpaid, total_verifiedReward_assign (hunverified hP), h.paid]

/-- From totals that are right, one call leads to such totals iff it keeps to the
condition. -/
theorem totalsAgree_step_iff {sha256 : Sha256} {scale : RewardScale} {manager : ZKComputeManager}
    (h : TotalsAgree manager) (c : Call) :
    TotalsAgree (step sha256 scale manager c).2 ↔ VerifiesOnce manager c := by
  rcases step_cases sha256 scale manager c with ⟨hproofs, hstats, _, hsubmit, hverify⟩ |
    ⟨task, commitment, idNow, createdNow, rfl, hproofs, hverified, hpaid, _⟩ |
    ⟨taskId, timeRand, gasRand, now, proof, result, rfl, hlookup, haccepts, hisVerified, _, _,
      hproofs, hverified, hpaid, _⟩
  · have hagree : TotalsAgree (step sha256 scale manager c).2 := by
      refine ⟨?_, ?_⟩
      · rw [hproofs, hstats]
        exact h.verified
      · rw [hproofs, hstats]
        exact h.paid
    refine iff_of_true hagree ?_
    cases c with
    | submitTask task commitment idNow createdNow =>
      exact absurd rfl (hsubmit task commitment idNow createdNow)
    | verifyTaskCompletion taskId timeRand gasRand now =>
      intro proof hproof haccepts
      have hrejects := hverify taskId timeRand gasRand now rfl proof hproof
      exact absurd (hrejects.symm.trans haccepts) (by simp)
    | _ => trivial
  · have hpending : isVerified
        (manager.prover.generateProof sha256 task commitment idNow createdNow) = false := rfl
    refine totalsAgree_assign_iff h hproofs ?_ ?_ id
    · rw [hpaid, verifiedReward, hpending]
      exact (add_zero _).symm
    · rw [hproofs, hverified]
      exact Words.counts_store_iff h.verified _ hpending
  · have hcondition : VerifiesOnce manager (.verifyTaskCompletion taskId timeRand gasRand now) ↔
        verifiedAt manager taskId = false ∧
          manager.stats.totalTasksVerified.toNat + 1 < 2 ^ 64 := by
      rw [verifiedAt, VerifiesOnce, hlookup]
      simp [haccepts]
    rw [hcondition]
    refine totalsAgree_assign_iff h hproofs ?_ ?_ And.left
    · rw [hpaid, verifiedReward, if_pos hisVerified]
    · rw [hproofs, hverified]
      exact Words.counts_add_iff h.verified _ hisVerified

/-- The totals are right in every state of a run iff each of its calls keeps to the
condition. -/
theorem totalsAgree_iff_verifiesOnce (sha256 : Sha256) (scale : RewardScale) (calls : List Call) :
    (∀ pre, pre <+: calls → TotalsAgree (final (step sha256 scale) new pre)) ↔
      Each (step sha256 scale) VerifiesOnce new calls := by
  refine forall_final_iff totalsAgree_new ?_
  intro pre c h
  exact totalsAgree_step_iff h c

/-- One task is verified twice. -/
def verifiedTwice : List Call :=
  [.submitTask { ComputeTask.default with taskId := "task_1" } .default 0 0,
    .verifyTaskCompletion "task_1" 0 0 1, .verifyTaskCompletion "task_1" 50 0 2]

theorem not_forall_totalsAgree :
    ¬ ∀ (sha256 : Sha256) (calls : List Call),
      TotalsAgree (final (step sha256 (exactScale .wrapping)) new calls) := by
  intro h
  have hverified := (h (fun _ => Vector.replicate 32 1) verifiedTwice).verified
  revert hverified
  decide +kernel

end ZKComputeManager

end Membra
