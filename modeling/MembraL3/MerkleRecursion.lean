/-
The Merkle root from the top.

The builder goes up level by level and promotes odd nodes; `mth` splits the leaves
at the largest power of two below their number.  Both give one root, and a builder
gives it after any calls that added the same leaves.

* `isGreatest_splitSize` — where the leaves are split;
* `root_eq_mth` — the two recursions agree;
* `buildRoot_eq_mth` — of every builder that calls can lead to.
-/
import MembraL3.MerkleProvenance
import MembraL3.Lib.Runs
import Mathlib.Order.Bounds.Basic

namespace Membra

open MerkleNode

namespace MerkleTreeBuilder

/-! ### Calls -/

inductive Call where
  | addLeaf (data : List UInt8)
  | buildRoot
  | generateProof (leafIndex : ℕ)

inductive Reply where
  | added
  | root (root : Hash)
  | proof (proof : MerkleProof)
  | thrown (message : String)

def step (sha256 : Sha256) (builder : MerkleTreeBuilder) : Call → Reply × MerkleTreeBuilder
  | .addLeaf data => (.added, builder.addLeaf sha256 data)
  | .buildRoot => (builder.buildRoot sha256).map .root id
  | .generateProof leafIndex =>
    match builder.generateProof sha256 leafIndex with
    | .ok (proof, builder) => (.proof proof, builder)
    | .error message => (.thrown message, builder)

/-- The leaf that a call adds. -/
def addedLeaf : Call → Option (List UInt8)
  | .addLeaf data => some data
  | _ => none

theorem leaves_generateProof {sha256 : Sha256} {builder builder' : MerkleTreeBuilder} {i : ℕ}
    {proof : MerkleProof} (h : builder.generateProof sha256 i = .ok (proof, builder')) :
    builder'.leaves = builder.leaves := by
  have hresult : ∀ result : MerkleProof × MerkleTreeBuilder,
      (.ok result : Except String _) = .ok (proof, builder') →
      result.2.leaves = builder.leaves → builder'.leaves = builder.leaves := by
    intro result hok hleaves
    rw [Except.ok.inj hok] at hleaves
    exact hleaves
  rw [generateProof] at h
  split at h
  · split at h
    · exact hresult _ h rfl
    · exact hresult _ h rfl
    · exact hresult _ h rfl
  · exact absurd h (by simp)

/-- Only `add_leaf` changes the leaves. -/
theorem leaves_step (sha256 : Sha256) (builder : MerkleTreeBuilder) (c : Call) :
    (step sha256 builder c).2.leaves
      = builder.leaves ++ ((addedLeaf c).toList).map (createLeaf sha256) := by
  cases c with
  | addLeaf data => rfl
  | buildRoot => exact (buildRoot_leaves sha256 builder).trans (List.append_nil _).symm
  | generateProof leafIndex =>
    refine Eq.trans ?_ (List.append_nil _).symm
    rw [step]
    cases hproof : builder.generateProof sha256 leafIndex with
    | error message => rfl
    | ok result => exact leaves_generateProof hproof

/-- The leaves of a builder are those that the calls have added. -/
theorem leaves_final (sha256 : Sha256) (builder : MerkleTreeBuilder) (calls : List Call) :
    (Runs.final (step sha256) builder calls).leaves
      = builder.leaves ++ (calls.filterMap addedLeaf).map (createLeaf sha256) := by
  induction calls generalizing builder with
  | nil => exact (List.append_nil _).symm
  | cons c calls ih =>
    rw [Runs.final_cons, ih, leaves_step, List.append_assoc, ← List.map_append,
      List.filterMap_cons]
    cases addedLeaf c with
    | none => rfl
    | some data => rfl

end MerkleTreeBuilder

/-! ### The recursive definition -/

/-- The largest power of two below `n`, for `n` from two on. -/
def splitSize (n : ℕ) : ℕ := 2 ^ Nat.log 2 (n - 1)

theorem splitSize_lt {n : ℕ} (h : 1 < n) : splitSize n < n := by
  have hpow : splitSize n ≤ n - 1 := Nat.pow_log_le_self 2 (by omega)
  omega

theorem le_two_mul_splitSize {n : ℕ} (h : 1 < n) : n ≤ splitSize n + splitSize n := by
  have hnext : n - 1 < 2 ^ (Nat.log 2 (n - 1) + 1) := Nat.lt_pow_succ_log_self (by decide) (n - 1)
  rw [Nat.pow_succ] at hnext
  rw [splitSize]
  omega

theorem isGreatest_splitSize {n : ℕ} (h : 1 < n) :
    IsGreatest {m | (∃ k, m = 2 ^ k) ∧ m < n} (splitSize n) := by
  refine ⟨⟨⟨_, rfl⟩, splitSize_lt h⟩, ?_⟩
  rintro m ⟨⟨k, rfl⟩, hlt⟩
  have hlog : k ≤ Nat.log 2 (n - 1) := Nat.le_log_of_pow_le (by decide) (by omega)
  exact Nat.pow_le_pow_right (by decide) hlog

/-- The Merkle tree hash of the leaves; of no leaves, the zero hash of the builder. -/
def mth (sha256 : Sha256) (data : List (List UInt8)) : Hash :=
  if 1 < data.length then
    nodeHash sha256 (mth sha256 (data.take (splitSize data.length)))
      (mth sha256 (data.drop (splitSize data.length)))
  else
    match data with
    | [] => zeroHash
    | leaf :: _ => sha256 leaf
  termination_by data.length
  decreasing_by
  · rw [List.length_take]
    exact (Nat.min_le_left ..).trans_lt (splitSize_lt (by assumption))
  · have hpos : 0 < splitSize data.length := Nat.two_pow_pos _
    rw [List.length_drop]
    omega

theorem mth_of_lt (sha256 : Sha256) {data : List (List UInt8)} (h : 1 < data.length) :
    mth sha256 data = nodeHash sha256 (mth sha256 (data.take (splitSize data.length)))
      (mth sha256 (data.drop (splitSize data.length))) := by
  rw [mth.eq_def, if_pos h]

theorem mth_singleton (sha256 : Sha256) (leaf : List UInt8) : mth sha256 [leaf] = sha256 leaf := by
  rw [mth.eq_def, if_neg (by simp)]

/-- Level by level or from the top, the root is the same. -/
theorem root_eq_mth (sha256 : Sha256) {data : List (List UInt8)} (h : data ≠ []) :
    HashTree.root (nodeHash sha256) (data.map sha256) = some (mth sha256 data) := by
  induction data using mth.induct with
  | case1 data hlt ihtake ihdrop =>
    have hsplit := splitSize_lt hlt
    have htake : (data.take (splitSize data.length)).length = splitSize data.length := by
      rw [List.length_take]
      omega
    have hdrop : (data.drop (splitSize data.length)).length ≤ splitSize data.length := by
      have htwice := le_two_mul_splitSize hlt
      rw [List.length_drop]
      omega
    have hpos : 0 < splitSize data.length := Nat.two_pow_pos _
    have htakeNe : data.take (splitSize data.length) ≠ [] :=
      List.ne_nil_of_length_pos (by omega)
    have hdropNe : data.drop (splitSize data.length) ≠ [] := by
      refine List.ne_nil_of_length_pos ?_
      rw [List.length_drop]
      omega
    have hleft : ((data.take (splitSize data.length)).map sha256).length
        = 2 ^ Nat.log 2 (data.length - 1) := by
      rw [List.length_map, htake, splitSize]
    have hright : ((data.drop (splitSize data.length)).map sha256).length
        ≤ 2 ^ Nat.log 2 (data.length - 1) := by
      rwa [List.length_map]
    have hroot := HashTree.root_append hleft hright (ihtake htakeNe) (ihdrop hdropNe)
    rw [← List.map_append, List.take_append_drop] at hroot
    rw [hroot, ← mth_of_lt sha256 hlt]
  | case2 hle => exact absurd rfl h
  | case3 leaf rest hle =>
    obtain rfl : rest = [] := by
      rw [List.length_cons] at hle
      exact List.length_eq_zero_iff.mp (by omega)
    rw [mth_singleton]
    exact HashTree.root_of_le (le_refl 1)

/-- After any calls, the root that is built is that of the leaves that were added. -/
theorem buildRoot_eq_mth (sha256 : Sha256) (calls : List MerkleTreeBuilder.Call) :
    ((Runs.final (MerkleTreeBuilder.step sha256) .empty calls).buildRoot sha256).1
      = mth sha256 (calls.filterMap MerkleTreeBuilder.addedLeaf) := by
  have hleaves := MerkleTreeBuilder.leaves_final sha256 .empty calls
  have hempty : MerkleTreeBuilder.empty.leaves = [] := rfl
  rw [hempty, List.nil_append] at hleaves
  by_cases hadded : calls.filterMap MerkleTreeBuilder.addedLeaf = []
  · rw [hadded, List.map_nil] at hleaves
    rw [hadded, mth.eq_def, if_neg (by simp), MerkleTreeBuilder.buildRoot, hleaves]
  · have hroot := MerkleTreeBuilder.root_eq_buildRoot sha256 hleaves hadded
    rw [root_eq_mth sha256 hadded] at hroot
    exact (Option.some_inj.mp hroot).symm

end Membra
