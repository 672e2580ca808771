/-
Completeness of Merkle proofs, for every hash function.

The builder pushes no sibling where a node is promoted unpaired, but the
verifier reads one bit of the leaf index for each sibling it has, so above a
promoted level the two are out of step.  A proof is complete for every hash
function exactly when that cannot happen on its path:

* `proofVerifies_iff_paired` — leaf `i` of `n` verifies whatever SHA-256 is iff
  the node above it has a sibling on every level below the root.

The `←` direction holds for any hash function (`HashTree.root_eq_foldPath`).
For the `→` direction, `tailHash t` adds `t` to the last byte of its input, so a
digest knows the length of the right spine below it times `t`; on an unpaired
path the recomputed spine is too long (`HashTree.exists_root_lt_foldPath`).
-/
import MembraL3.MerkleProvenance
import Mathlib.Data.UInt

namespace Membra

open MerkleNode

/-- Build the root over `data`, generate the proof of leaf `i` and verify it
against the root. -/
def proofVerifies (sha256 : Sha256) (data : List (List UInt8)) (i : ℕ) : Bool :=
  let (root, builder) := (MerkleTreeBuilder.ofLeaves sha256 data).buildRoot sha256
  match builder.generateProof sha256 i with
  | .ok (proof, _) => proof.verify sha256 root
  | .error _ => false

/-- A proof verifies when the path of its leaf recomputes the root over the
leaves. -/
theorem proofVerifies_iff_foldPath (sha256 : Sha256) {data : List (List UInt8)} {i : ℕ}
    (hi : i < data.length) :
    proofVerifies sha256 data i = true ↔
      HashTree.root (nodeHash sha256) (data.map sha256)
        = some (HashTree.foldPath (nodeHash sha256) i (sha256 data[i])
            (HashTree.authPath (nodeHash sha256) (data.map sha256) i)) := by
  have hne : data ≠ [] := List.ne_nil_of_length_pos (by omega)
  have hroot := MerkleTreeBuilder.root_eq_buildRoot sha256
    (MerkleTreeBuilder.ofLeaves_leaves sha256 data) hne
  have hlt : i < ((MerkleTreeBuilder.ofLeaves sha256 data).buildRoot sha256).2.leaves.length := by
    rwa [MerkleTreeBuilder.buildRoot_leaves, MerkleTreeBuilder.ofLeaves_leaves, List.length_map]
  obtain ⟨builder', hproof⟩ := MerkleTreeBuilder.generateProof_eq_authPath sha256 hlt
  simp only [MerkleTreeBuilder.buildRoot_leaves, MerkleTreeBuilder.ofLeaves_leaves,
    hashes_createLeaf, List.getElem_map] at hproof
  simp only [proofVerifies, hproof, MerkleProof.verify, verifyLoop_eq_foldPath, beq_iff_eq]
  rw [hroot, Option.some_inj]
  exact eq_comm

/-! ### A hash function that measures spines -/

/-- The last byte of the input plus `t`, in every byte of the digest. -/
def tailHash (t : UInt8) : Sha256 := fun bytes => Vector.replicate 32 (bytes.getLastD 0 + t)

/-- Nodes of symbolic digests: a last byte and the length of the right spine. -/
def tailNode (_ right : UInt8 × ℕ) : UInt8 × ℕ := (right.1, right.2 + 1)

def tailLeaf (bytes : List UInt8) : UInt8 × ℕ := (bytes.getLastD 0, 0)

/-- The digest that a symbolic digest stands for. -/
def tailDigest (t : UInt8) (x : UInt8 × ℕ) : Hash :=
  Vector.replicate 32 (x.1 + t + UInt8.ofNat x.2 * t)

theorem tailDigest_tailNode (t : UInt8) (x y : UInt8 × ℕ) :
    tailDigest t (tailNode x y) = nodeHash (tailHash t) (tailDigest t x) (tailDigest t y) := by
  have hlast : ((tailDigest t x).toList ++ (tailDigest t y).toList).getLastD 0
      = y.1 + t + UInt8.ofNat y.2 * t := rfl
  rw [nodeHash, tailHash, hlast, tailDigest, tailNode, UInt8.ofNat_add]
  congr 1
  grind

theorem tailDigest_tailLeaf (t : UInt8) (bytes : List UInt8) :
    tailDigest t (tailLeaf bytes) = tailHash t bytes := by
  rw [tailDigest, tailHash, tailLeaf]
  congr 1
  simp

theorem tailDigest_inj {t : UInt8} {x y : UInt8 × ℕ} (h : tailDigest t x = tailDigest t y) :
    x.1 + t + UInt8.ofNat x.2 * t = y.1 + t + UInt8.ofNat y.2 * t := by
  have h0 := congrArg (fun v : Hash => v[0]) h
  simpa [tailDigest] using h0

/-- Under `tailHash t`, verification compares the digests of two symbolic ones. -/
theorem tailDigest_eq_of_verifies {t : UInt8} {data : List (List UInt8)} {i : ℕ}
    (hi : i < data.length) (hv : proofVerifies (tailHash t) data i = true) {r : UInt8 × ℕ}
    (hr : HashTree.root tailNode (data.map tailLeaf) = some r) :
    tailDigest t r = tailDigest t
      (HashTree.foldPath tailNode i (tailLeaf data[i])
        (HashTree.authPath tailNode (data.map tailLeaf) i)) := by
  have hleaves : data.map (tailHash t) = (data.map tailLeaf).map (tailDigest t) := by
    rw [List.map_map]
    exact List.map_congr_left fun bytes _ => (tailDigest_tailLeaf t bytes).symm
  have hnode := tailDigest_tailNode t
  rw [proofVerifies_iff_foldPath _ hi, hleaves, ← HashTree.root_map hnode,
    ← HashTree.authPath_map hnode, ← tailDigest_tailLeaf, ← HashTree.foldPath_map hnode, hr] at hv
  exact Option.some.inj hv

/-- On an unpaired path the recomputed spine is longer than the true one, by less
than a byte can hold. -/
theorem exists_spine_lt {data : List (List UInt8)} {i : ℕ} (hn : data.length < 2 ^ 64)
    (hi : i < data.length) (hp : ¬ HashTree.Paired data.length i) :
    ∃ r, HashTree.root tailNode (data.map tailLeaf) = some r ∧
      r.2 < (HashTree.foldPath tailNode i (tailLeaf data[i])
        (HashTree.authPath tailNode (data.map tailLeaf) i)).2 ∧
      (HashTree.foldPath tailNode i (tailLeaf data[i])
        (HashTree.authPath tailNode (data.map tailLeaf) i)).2 ≤ 64 := by
  have hsnd : ∀ x y : UInt8 × ℕ, (tailNode x y).2 = HashTree.spineNode x.2 y.2 :=
    fun _ _ => rfl
  have hzero : ∀ x ∈ data.map tailLeaf, x.2 = 0 := by
    intro x hx
    obtain ⟨bytes, -, rfl⟩ := List.mem_map.mp hx
    rfl
  have hleaf : (data.map tailLeaf)[i]? = some (tailLeaf data[i]) := by
    rw [List.getElem?_map, List.getElem?_eq_getElem hi, Option.map_some]
  obtain ⟨r, hr, hlt⟩ := HashTree.exists_root_lt_foldPath hsnd hzero hleaf
    (by rwa [List.length_map])
  refine ⟨r, hr, hlt, (HashTree.spine_foldPath_le hsnd hzero hleaf).trans ?_⟩
  rw [List.length_map]
  exact Nat.clog_le_of_le_pow hn.le

/-! ### Completeness -/

/-- Leaf `i` verifies for every hash function iff its path is paired on every
level below the root. -/
theorem proofVerifies_iff_paired (data : List (List UInt8)) (i : ℕ)
    (hn : data.length < 2 ^ 64) (hi : i < data.length) :
    (∀ sha256, proofVerifies sha256 data i = true) ↔ HashTree.Paired data.length i := by
  constructor
  · intro hv
    by_contra hp
    obtain ⟨r, hr, hlt, hle⟩ := exists_spine_lt hn hi hp
    have h0 := tailDigest_inj (tailDigest_eq_of_verifies hi (hv (tailHash 0)) hr)
    have h1 := tailDigest_inj (tailDigest_eq_of_verifies hi (hv (tailHash 1)) hr)
    -- `t = 0` compares the last bytes, `t = 1` then compares the spines
    generalize HashTree.foldPath tailNode i _ _ = q at hlt hle h0 h1
    have hbyte : r.1 = q.1 := by simpa using h0
    have hspine : UInt8.ofNat r.2 = UInt8.ofNat q.2 := by
      rw [hbyte] at h1
      simpa using h1
    have hmod := congrArg UInt8.toNat hspine
    rw [UInt8.toNat_ofNat', UInt8.toNat_ofNat', Nat.mod_eq_of_lt (by omega),
      Nat.mod_eq_of_lt (by omega)] at hmod
    omega
  · intro hp sha256
    rw [proofVerifies_iff_foldPath sha256 hi]
    refine HashTree.root_eq_foldPath ?_ ?_
    · rw [List.getElem?_map, List.getElem?_eq_getElem hi, Option.map_some]
    · rwa [List.length_map]

theorem proofVerifies_iff_paired_four :
    (∀ sha256, proofVerifies sha256 [[1], [2], [3], [4]] 2 = true) ↔ HashTree.Paired 4 2 :=
  proofVerifies_iff_paired [[1], [2], [3], [4]] 2 (by decide) (by decide)

/-- The last of three leaves is promoted: its proof fails under `tailHash 0`. -/
theorem not_forall_proofVerifies :
    ¬ ∀ (sha256 : Sha256) (data : List (List UInt8)) (i : ℕ), i < data.length →
      proofVerifies sha256 data i = true := by
  intro h
  have h3 := h (tailHash 0) [[1], [2], [3]] 2 (by decide)
  rw [proofVerifies_iff_foldPath _ (by decide)] at h3
  rw [HashTree.root_of_lt (by decide), HashTree.root_of_lt (by decide),
    HashTree.root_of_le (by decide), HashTree.authPath_of_lt (by decide),
    HashTree.authPath_of_lt (by decide), HashTree.authPath_of_le (by decide)] at h3
  revert h3
  decide

end Membra
