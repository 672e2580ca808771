/-
The Merkle root of the verified proofs.

`generate_merkle_root` adds all verified proofs to a builder that the manager
keeps, so that the leaves of earlier calls stay in the tree.  A call that finds no
verified proof returns the zero hash and adds nothing.

* `leaves_final` — the leaves of the builder are those of all calls so far;
* `generateMerkleRoot_eq_root` — and the root is that of all of them;
* `rootsOfVerified_of_rootReady` — the runs in which every root is that of the
  verified proofs alone.
-/
import MembraL3.ZKCompute
import MembraL3.Lib.Runs

namespace Membra

namespace ZKComputeManager

open Runs MerkleNode MerkleTreeBuilder

/-! ### What a call returns -/

/-- The leaves of the verified proofs, in the order of the task ids. -/
def verifiedLeaves (sha256 : Sha256) (manager : ZKComputeManager) : List MerkleNode :=
  manager.getVerifiedProofs.map fun proof => createLeaf sha256 (ZKProver.proofData proof)

/-- The root that a fresh builder gives for the verified proofs. -/
def freshRoot (sha256 : Sha256) (manager : ZKComputeManager) : Hash :=
  ((ofLeaves sha256 (manager.getVerifiedProofs.map ZKProver.proofData)).buildRoot sha256).1

/-- The builder with the verified proofs added to it. -/
def extendedBuilder (sha256 : Sha256) (manager : ZKComputeManager) : MerkleTreeBuilder :=
  manager.getVerifiedProofs.foldl
    (fun builder proof => builder.addLeaf sha256 (ZKProver.proofData proof)) manager.merkleBuilder

theorem extendedBuilder_leaves (sha256 : Sha256) (manager : ZKComputeManager) :
    (extendedBuilder sha256 manager).leaves
      = manager.merkleBuilder.leaves ++ verifiedLeaves sha256 manager := by
  have hfold := foldl_addLeaf_leaves sha256 (manager.getVerifiedProofs.map ZKProver.proofData)
    manager.merkleBuilder
  rw [List.foldl_map, List.map_map] at hfold
  exact hfold

theorem generateMerkleRoot_of_nil {sha256 : Sha256} {manager : ZKComputeManager}
    (h : manager.getVerifiedProofs = []) :
    manager.generateMerkleRoot sha256 = (zeroHash, manager) := by
  rw [generateMerkleRoot, h]
  rfl

theorem generateMerkleRoot_of_ne {sha256 : Sha256} {manager : ZKComputeManager}
    (h : manager.getVerifiedProofs ≠ []) :
    manager.generateMerkleRoot sha256
      = (((extendedBuilder sha256 manager).buildRoot sha256).1,
          { manager with
            merkleBuilder := ((extendedBuilder sha256 manager).buildRoot sha256).2 }) := by
  have hempty : manager.getVerifiedProofs.isEmpty = false := by
    rw [← Bool.not_eq_true, List.isEmpty_iff]
    exact h
  rw [generateMerkleRoot, hempty]
  rfl

/-- The root that is returned is that of the leaves in the builder and of the
verified proofs after them. -/
theorem generateMerkleRoot_eq_root {sha256 : Sha256} {manager : ZKComputeManager}
    (h : manager.getVerifiedProofs ≠ []) :
    HashTree.root (nodeHash sha256)
        (hashes (manager.merkleBuilder.leaves ++ verifiedLeaves sha256 manager))
      = some (manager.generateMerkleRoot sha256).1 := by
  have hne : (extendedBuilder sha256 manager).leaves ≠ [] := by
    rw [extendedBuilder_leaves, verifiedLeaves]
    simp [h]
  rw [generateMerkleRoot_of_ne h, ← extendedBuilder_leaves]
  exact buildRoot_eq_root sha256 hne

theorem freshRoot_eq_root {sha256 : Sha256} {manager : ZKComputeManager}
    (h : manager.getVerifiedProofs ≠ []) :
    HashTree.root (nodeHash sha256) (hashes (verifiedLeaves sha256 manager))
      = some (freshRoot sha256 manager) := by
  have hleaves : (ofLeaves sha256 (manager.getVerifiedProofs.map ZKProver.proofData)).leaves
      = verifiedLeaves sha256 manager := by
    rw [ofLeaves_leaves, List.map_map]
    rfl
  rw [← hleaves]
  refine buildRoot_eq_root sha256 ?_
  rw [hleaves, verifiedLeaves]
  simp [h]

theorem freshRoot_of_nil {sha256 : Sha256} {manager : ZKComputeManager}
    (h : manager.getVerifiedProofs = []) : freshRoot sha256 manager = zeroHash := by
  rw [freshRoot, h]
  rfl

/-- With no leaves in the builder, the root is that of the verified proofs. -/
theorem generateMerkleRoot_of_leaves_nil {sha256 : Sha256} {manager : ZKComputeManager}
    (h : manager.merkleBuilder.leaves = []) :
    (manager.generateMerkleRoot sha256).1 = freshRoot sha256 manager := by
  by_cases hverified : manager.getVerifiedProofs = []
  · rw [generateMerkleRoot_of_nil hverified, freshRoot_of_nil hverified]
  · have hroot : HashTree.root (nodeHash sha256) _ = some (manager.generateMerkleRoot sha256).1 :=
      generateMerkleRoot_eq_root hverified
    rw [h, List.nil_append, freshRoot_eq_root hverified] at hroot
    exact (Option.some_inj.mp hroot).symm

theorem leaves_generateMerkleRoot (sha256 : Sha256) (manager : ZKComputeManager) :
    (manager.generateMerkleRoot sha256).2.merkleBuilder.leaves
      = manager.merkleBuilder.leaves ++ verifiedLeaves sha256 manager := by
  by_cases hverified : manager.getVerifiedProofs = []
  · rw [generateMerkleRoot_of_nil hverified, verifiedLeaves, hverified]
    exact (List.append_nil _).symm
  · rw [generateMerkleRoot_of_ne hverified, ← extendedBuilder_leaves]
    exact buildRoot_leaves sha256 (extendedBuilder sha256 manager)

theorem merkleBuilder_step {sha256 : Sha256} {scale : RewardScale} {manager : ZKComputeManager}
    {c : Call} (hc : c ≠ .generateMerkleRoot) :
    (step sha256 scale manager c).2.merkleBuilder = manager.merkleBuilder := by
  rcases step_cases sha256 scale manager c with ⟨_, _, hbuilder, _⟩ |
    ⟨_, _, _, _, _, _, _, _, hbuilder⟩ |
    ⟨_, _, _, _, _, _, _, _, _, _, _, _, _, _, _, hbuilder⟩
  · exact hbuilder hc
  · exact hbuilder
  · exact hbuilder

/-- The leaves that a call adds. -/
def addedLeaves (sha256 : Sha256) (e : Event ZKComputeManager Call Reply) : List MerkleNode :=
  match e.call with
  | .generateMerkleRoot => verifiedLeaves sha256 e.before
  | _ => []

/-- The builder has kept the leaves of all calls of the run. -/
theorem leaves_final (sha256 : Sha256) (scale : RewardScale) (calls : List Call) :
    (final (step sha256 scale) new calls).merkleBuilder.leaves
      = (trace (step sha256 scale) new calls).flatMap (addedLeaves sha256) := by
  induction calls using List.reverseRecOn with
  | nil => rfl
  | append_singleton calls c ih =>
    rw [final_append, trace_append, List.flatMap_append, ← ih, final_cons, final_nil, trace_cons,
      trace_nil, List.flatMap_singleton]
    cases c with
    | generateMerkleRoot => exact leaves_generateMerkleRoot sha256 _
    | _ =>
      rw [merkleBuilder_step (by simp)]
      exact (List.append_nil _).symm

/-! ### Roots along a run -/

/-- The call verifies a proof with success. -/
def Verifies (sha256 : Sha256) (scale : RewardScale) (manager : ZKComputeManager) (c : Call) :
    Prop :=
  ∃ result, (step sha256 scale manager c).1 = .verification result ∧ result.success = true

theorem getVerifiedProofs_eq_nil_iff (manager : ZKComputeManager) :
    manager.getVerifiedProofs = [] ↔
      ∀ taskId proof, manager.proofs.lookup taskId = some proof → isVerified proof = false := by
  rw [getVerifiedProofs, List.filter_eq_nil_iff]
  constructor
  · intro h taskId proof hlookup
    have hmem := Store.mem_sortedValues_iff.mpr (Store.mem_values_iff.mpr ⟨taskId, hlookup⟩)
    exact Bool.eq_false_iff.mpr (h proof hmem)
  · intro h proof hmem
    obtain ⟨taskId, hlookup⟩ := Store.mem_values_iff.mp (Store.mem_sortedValues_iff.mp hmem)
    exact Bool.eq_false_iff.mp (h taskId proof hlookup)

/-- Without a verification there is no verified proof after a call where there was
none before. -/
theorem getVerifiedProofs_step {sha256 : Sha256} {scale : RewardScale}
    {manager : ZKComputeManager} {c : Call} (h : manager.getVerifiedProofs = [])
    (hc : ¬ Verifies sha256 scale manager c) :
    (step sha256 scale manager c).2.getVerifiedProofs = [] := by
  rw [getVerifiedProofs_eq_nil_iff] at h ⊢
  rcases step_cases sha256 scale manager c with ⟨hproofs, _⟩ |
    ⟨task, commitment, idNow, createdNow, _, hproofs, _⟩ |
    ⟨_, _, _, _, _, result, _, _, _, _, hreply, hsuccess, _⟩
  · rw [hproofs]
    exact h
  · rw [hproofs]
    intro taskId proof hlookup
    rw [Store.lookup_assign] at hlookup
    by_cases hid : taskId = ZKProver.proofTaskId task idNow
    · rw [if_pos hid, Option.some_inj] at hlookup
      rw [← hlookup]
      rfl
    · rw [if_neg hid] at hlookup
      exact h taskId proof hlookup
  · exact absurd ⟨result, hreply, hsuccess⟩ hc

/-- Each root of the run is the one that a fresh builder gives for the proofs that
are verified at the call; and two calls without a verification between them
return the same root. -/
structure RootsOfVerified (sha256 : Sha256) (scale : RewardScale) (calls : List Call) : Prop where
  fresh : ∀ pre, pre ++ [.generateMerkleRoot] <+: calls →
    ((final (step sha256 scale) new pre).generateMerkleRoot sha256).1
      = freshRoot sha256 (final (step sha256 scale) new pre)
  same : ∀ pre mid, pre ++ .generateMerkleRoot :: mid ++ [.generateMerkleRoot] <+: calls →
    Each (step sha256 scale) (fun s c => ¬ Verifies sha256 scale s c)
      (final (step sha256 scale) new (pre ++ [.generateMerkleRoot])) mid →
    ((final (step sha256 scale) new (pre ++ .generateMerkleRoot :: mid)).generateMerkleRoot
      sha256).1
      = ((final (step sha256 scale) new pre).generateMerkleRoot sha256).1

/-- If an earlier call has found verified proofs, then a verification has succeeded
since, and yet no proof is verified now. -/
def RootReady (sha256 : Sha256) (scale : RewardScale) (calls : List Call) : Prop :=
  ∀ pre mid, calls = pre ++ .generateMerkleRoot :: mid →
    (final (step sha256 scale) new pre).getVerifiedProofs ≠ [] →
    (final (step sha256 scale) new calls).getVerifiedProofs = [] ∧
      ¬ Each (step sha256 scale) (fun s c => ¬ Verifies sha256 scale s c)
        (final (step sha256 scale) new (pre ++ [.generateMerkleRoot])) mid

/-- Until a call finds verified proofs, the builder has no leaves. -/
theorem leaves_eq_nil {sha256 : Sha256} {scale : RewardScale} {calls : List Call}
    (h : ∀ pre mid, calls = pre ++ .generateMerkleRoot :: mid →
      (final (step sha256 scale) new pre).getVerifiedProofs = []) :
    (final (step sha256 scale) new calls).merkleBuilder.leaves = [] := by
  rw [leaves_final, List.flatMap_eq_nil_iff]
  intro e he
  obtain ⟨pre, c, mid, hcalls, rfl⟩ := mem_trace_iff.mp he
  cases c with
  | generateMerkleRoot =>
    show verifiedLeaves sha256 (final (step sha256 scale) new pre) = []
    rw [verifiedLeaves, h pre mid hcalls, List.map_nil]
  | _ => rfl

theorem generateMerkleRoot_of_rootReady {sha256 : Sha256} {scale : RewardScale} {calls : List Call}
    (h : RootReady sha256 scale calls) :
    ((final (step sha256 scale) new calls).generateMerkleRoot sha256).1
      = freshRoot sha256 (final (step sha256 scale) new calls) := by
  by_cases hverified : (final (step sha256 scale) new calls).getVerifiedProofs = []
  · rw [generateMerkleRoot_of_nil hverified, freshRoot_of_nil hverified]
  · refine generateMerkleRoot_of_leaves_nil (leaves_eq_nil ?_)
    -- an earlier call that had found verified proofs would leave none now
    intro pre mid hcalls
    by_contra hfound
    exact hverified (h pre mid hcalls hfound).1

/-- In a run whose calls for the root are all ready, each root is that of the
verified proofs. -/
theorem rootsOfVerified_of_rootReady (sha256 : Sha256) (scale : RewardScale) (calls : List Call)
    (h : ∀ pre, pre ++ [.generateMerkleRoot] <+: calls → RootReady sha256 scale pre) :
    RootsOfVerified sha256 scale calls := by
  refine ⟨?_, ?_⟩
  · intro pre hpre
    exact generateMerkleRoot_of_rootReady (h pre hpre)
  · intro pre mid hpre hmid
    have hafter : final (step sha256 scale) new (pre ++ .generateMerkleRoot :: mid)
        = final (step sha256 scale) (final (step sha256 scale) new (pre ++ [.generateMerkleRoot]))
            mid := by
      rw [← final_append, List.append_assoc]
      rfl
    by_cases hverified : (final (step sha256 scale) new pre).getVerifiedProofs = []
    · -- nothing was verified at the first call, so nothing is at the second
      have hfirst : (final (step sha256 scale) new
          (pre ++ [.generateMerkleRoot])).getVerifiedProofs = [] := by
        rw [final_append, final_cons, final_nil]
        show ((final (step sha256 scale) new pre).generateMerkleRoot
          sha256).2.getVerifiedProofs = []
        rw [generateMerkleRoot_of_nil hverified]
        exact hverified
      have hsecond : (final (step sha256 scale) new
          (pre ++ .generateMerkleRoot :: mid)).getVerifiedProofs = [] := by
        rw [hafter]
        have hkeep : ∀ (s : ZKComputeManager) c, s.getVerifiedProofs = [] →
            ¬ Verifies sha256 scale s c → (step sha256 scale s c).2.getVerifiedProofs = [] :=
          fun s c hs hc => getVerifiedProofs_step hs hc
        exact final_induction hkeep hfirst hmid
      rw [generateMerkleRoot_of_nil hverified, generateMerkleRoot_of_nil hsecond]
    · exact absurd hmid (h _ hpre pre mid rfl hverified).2

/-- A root is asked for before a verification and after it. -/
def rootBeforeAndAfter : List Call :=
  [.generateMerkleRoot,
    .submitTask { ComputeTask.default with taskId := "task_1" } .default 0 0,
    .verifyTaskCompletion "task_1" 0 0 1, .generateMerkleRoot]

theorem rootsOfVerified_of_rootReady_beforeAndAfter :
    RootsOfVerified (fun _ => Vector.replicate 32 1) (exactScale .wrapping) rootBeforeAndAfter := by
  refine rootsOfVerified_of_rootReady _ (exactScale .wrapping) rootBeforeAndAfter ?_
  rintro pre ⟨post, hcalls⟩ a b rfl hfound
  -- the earlier call is the first of the run, which finds nothing
  rcases a with _ | ⟨c₁, _ | ⟨c₂, _ | ⟨c₃, _ | ⟨c₄, a⟩⟩⟩⟩
  · exact absurd rfl hfound
  all_goals simp [rootBeforeAndAfter] at hcalls

/-- A task that is submitted and verified. -/
def verifiedOnce : List Call :=
  [.submitTask { ComputeTask.default with taskId := "task_1" } .default 0 0,
    .verifyTaskCompletion "task_1" 0 0 1]

/-- A hash that tells one leaf from two. -/
def lengthHash : Sha256 := fun bytes => Vector.replicate 32 (UInt8.ofNat bytes.length)

theorem not_forall_rootsOfVerified :
    ¬ ∀ (sha256 : Sha256) (scale : RewardScale) (calls : List Call),
      RootsOfVerified sha256 scale calls := by
  intro h
  have hsame := (h lengthHash (exactScale .wrapping)
    (verifiedOnce ++ [.generateMerkleRoot, .generateMerkleRoot])).same verifiedOnce []
    (List.prefix_refl _) each_nil
  -- one leaf at the first call, the same leaf twice at the second
  have hfirst : hashes
      ((final (step lengthHash (exactScale .wrapping)) new verifiedOnce).merkleBuilder.leaves ++
        verifiedLeaves lengthHash
          (final (step lengthHash (exactScale .wrapping)) new verifiedOnce))
      = [Vector.replicate 32 38] := by decide +kernel
  have hsecond : hashes ((final (step lengthHash (exactScale .wrapping)) new
      (verifiedOnce ++ [.generateMerkleRoot])).merkleBuilder.leaves
      ++ verifiedLeaves lengthHash (final (step lengthHash (exactScale .wrapping)) new
        (verifiedOnce ++ [.generateMerkleRoot])))
      = [Vector.replicate 32 38, Vector.replicate 32 38] := by decide +kernel
  have hroot : HashTree.root (nodeHash lengthHash) _ = some
      ((final (step lengthHash (exactScale .wrapping)) new verifiedOnce).generateMerkleRoot
        lengthHash).1 :=
    generateMerkleRoot_eq_root (by decide +kernel)
  have hroot' : HashTree.root (nodeHash lengthHash) _ = some
      ((final (step lengthHash (exactScale .wrapping)) new
        (verifiedOnce ++ [.generateMerkleRoot])).generateMerkleRoot lengthHash).1 :=
    generateMerkleRoot_eq_root (by decide +kernel)
  rw [hfirst, HashTree.root_of_le (by simp)] at hroot
  rw [hsecond, HashTree.root_of_lt (by simp), HashTree.nextLevel, HashTree.nextLevel,
    HashTree.root_of_le (by simp), hsame] at hroot'
  have heq := hroot.trans hroot'.symm
  revert heq
  decide +kernel

end ZKComputeManager

end Membra
