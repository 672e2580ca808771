/-
Which proofs verify.

On symbolic digests a node is no leaf, and equal to another node only where both
children are: verification compares the tree over the leaves with the one that the
siblings recompute.

* `proofVerifies_iff_treeHash` — the code's verification compares the digests of the two;
* `verifies_paired_only` — they are one tree where the path of the leaf is paired on every
  level; on any other path they differ, so that verification fails for every hash function
  that does not confuse the two.
-/
import MembraL3.MerkleCompleteness
import MembraL3.MerkleSoundness

namespace Membra

open MerkleNode HashTree

/-- The verification on symbolic digests. -/
def SymbolicallyVerifies (data : List (List UInt8)) (i : ℕ) (hi : i < data.length) : Prop :=
  tree data = some (pathTree data i hi)

variable (sha256 : Sha256) {data : List (List UInt8)} {i : ℕ}

theorem treeHash_pathTree (hi : i < data.length) :
    treeHash sha256 (pathTree data i hi)
      = foldPath (nodeHash sha256) i (sha256 data[i])
          (authPath (nodeHash sha256) (data.map sha256) i) := by
  have hnode : ∀ l r, treeHash sha256 (.node l r)
      = nodeHash sha256 (treeHash sha256 l) (treeHash sha256 r) := fun _ _ => rfl
  have hleaves : (data.map Term.leaf).map (treeHash sha256) = data.map sha256 := by
    rw [List.map_map]
    rfl
  rw [pathTree, foldPath_map hnode, authPath_map hnode, hleaves]
  rfl

/-- A proof verifies when the tree and the recomputed one have one digest. -/
theorem proofVerifies_iff_treeHash (hi : i < data.length) :
    proofVerifies sha256 data i = true ↔
      (tree data).map (treeHash sha256) = some (treeHash sha256 (pathTree data i hi)) := by
  have hne : data ≠ [] := List.ne_nil_of_length_pos (by omega)
  obtain ⟨t, ht, -, hroot, -⟩ := exists_tree_builtRoot sha256 hne
  rw [proofVerifies_iff_foldPath sha256 hi, ← treeHash_pathTree sha256 hi, ht, Option.map_some,
    hroot, root_eq_builtRoot sha256 hne]

theorem SymbolicallyVerifies.proofVerifies {hi : i < data.length}
    (h : SymbolicallyVerifies data i hi) : proofVerifies sha256 data i = true := by
  rw [proofVerifies_iff_treeHash sha256 hi, h, Option.map_some]

/-- A proof that verifies for one hash function only shows where that one is not free. -/
theorem confused_of_proofVerifies {hi : i < data.length} (h : ¬ SymbolicallyVerifies data i hi)
    (hv : proofVerifies sha256 data i = true) :
    ∃ t, tree data = some t ∧ Confused sha256 pairBytes t (pathTree data i hi) := by
  rw [proofVerifies_iff_treeHash sha256 hi] at hv
  obtain ⟨t, ht, hdigest⟩ := Option.map_eq_some_iff.mp hv
  refine ⟨t, ht, ?_⟩
  rcases eq_or_confused (fun _ _ _ _ => pairBytes_inj) hdigest with rfl | hconfused
  · exact absurd ht h
  · exact hconfused

/-- On symbolic digests the proofs of paired paths verify and no others, whether the
leaves are distinct or not.  The former verify for every hash function, the latter only
where two hashed strings collide or a leaf is hashed as a node. -/
theorem verifies_paired_only (data : List (List UInt8)) {i : ℕ} (hi : i < data.length) :
    (SymbolicallyVerifies data i hi ↔ Paired data.length i) ∧
    (Paired data.length i → ∀ sha256, proofVerifies sha256 data i = true) ∧
    (¬ Paired data.length i → ∀ sha256, proofVerifies sha256 data i = true →
      ∃ t, tree data = some t ∧ Confused sha256 pairBytes t (pathTree data i hi)) := by
  have hpaired : SymbolicallyVerifies data i hi ↔ Paired data.length i := by
    constructor
    · intro hsymbolic
      by_contra hp
      -- an unpaired path recomputes a longer spine
      exact tree_ne_pathTree hi hp hsymbolic
    · exact tree_eq_pathTree hi
  refine ⟨hpaired, ?_, ?_⟩
  · intro hp sha256
    exact (hpaired.mpr hp).proofVerifies sha256
  · intro hp sha256
    exact confused_of_proofVerifies sha256 fun hsymbolic => hp (hpaired.mp hsymbolic)

/-- Of three leaves, the last one is promoted. -/
theorem verifies_paired_only_three :
    ¬ Paired 3 2 ∧
    (SymbolicallyVerifies [[1], [2], [3]] 2 (by simp) ↔ Paired 3 2) ∧
    (Paired 3 2 → ∀ sha256, proofVerifies sha256 [[1], [2], [3]] 2 = true) ∧
    (¬ Paired 3 2 → ∀ sha256, proofVerifies sha256 [[1], [2], [3]] 2 = true →
      ∃ t, tree [[1], [2], [3]] = some t ∧
        Confused sha256 pairBytes t (pathTree [[1], [2], [3]] 2 (by simp))) := by
  refine ⟨?_, verifies_paired_only [[1], [2], [3]] (by simp)⟩
  intro hp
  have h0 := hp 0 (by decide)
  exact absurd h0 (by decide)

end Membra
