/-
Merkle trees for batch attestations.

`MerkleTreeBuilder` collects leaves, builds all levels on demand and hands out
inclusion proofs; `MerkleProof.verify` recomputes the root from a leaf hash and
its siblings.  The loops of the builder and of the verifier are those of a hash
tree over digests (`HashTree`), with `nodeHash` as the node function:

* `verifyLoop_eq_foldPath` — the verifier's loop;
* `buildRoot_eq_root` — the root, whatever the builder has built before;
* `generateProof_eq_authPath` — the proof of a leaf.
-/
import MembraL3.Crypto
import MembraL3.Lib.HashTree

namespace Membra

variable (sha256 : Sha256)

structure MerkleNode where
  hash : Hash
  leftChild : Hash
  rightChild : Hash
  hasLeft : Bool
  hasRight : Bool
  deriving DecidableEq

namespace MerkleNode

def createLeaf (data : List UInt8) : MerkleNode where
  hash := sha256 data
  leftChild := zeroHash
  rightChild := zeroHash
  hasLeft := false
  hasRight := false

/-- The digest of two concatenated digests. -/
def nodeHash (left right : Hash) : Hash := sha256 (left.toList ++ right.toList)

def createInternal (left right : Hash) : MerkleNode where
  hash := nodeHash sha256 left right
  leftChild := left
  rightChild := right
  hasLeft := true
  hasRight := true

end MerkleNode

open MerkleNode

/-! ### Proofs -/

structure MerkleProof where
  leafHash : Hash
  siblings : List Hash
  leafIndex : ℕ
  deriving DecidableEq

/-- The verifier's loop over the siblings. -/
def verifyLoop (currentHash : Hash) (currentIndex : ℕ) : List Hash → Hash
  | [] => currentHash
  | sibling :: siblings =>
    let combined :=
      if currentIndex % 2 = 0 then currentHash.toList ++ sibling.toList
      else sibling.toList ++ currentHash.toList
    verifyLoop (sha256 combined) (currentIndex / 2) siblings

def MerkleProof.verify (proof : MerkleProof) (root : Hash) : Bool :=
  verifyLoop sha256 proof.leafHash proof.leafIndex proof.siblings == root

theorem verifyLoop_eq_foldPath (siblings : List Hash) (currentHash : Hash) (currentIndex : ℕ) :
    verifyLoop sha256 currentHash currentIndex siblings
      = HashTree.foldPath (nodeHash sha256) currentIndex currentHash siblings := by
  induction siblings generalizing currentHash currentIndex with
  | nil => rfl
  | cons sibling siblings ih =>
    rw [verifyLoop, HashTree.foldPath, ih]
    by_cases h : currentIndex % 2 = 0
    · rw [if_pos h, if_pos h]
      rfl
    · rw [if_neg h, if_neg h]
      rfl

/-! ### The builder -/

structure MerkleTreeBuilder where
  leaves : List MerkleNode
  nodes : List MerkleNode

/-- One level up: pairs become internal nodes, an odd last node is promoted. -/
def nextLevel : List MerkleNode → List MerkleNode
  | a :: b :: rest => createInternal sha256 a.hash b.hash :: nextLevel rest
  | [a] => [a]
  | [] => []

theorem nextLevel_map_hash :
    ∀ level : List MerkleNode, (nextLevel sha256 level).map MerkleNode.hash
      = HashTree.nextLevel (nodeHash sha256) (level.map MerkleNode.hash)
  | a :: b :: rest => by
    simp only [nextLevel, List.map_cons, nextLevel_map_hash rest, HashTree.nextLevel]
    rfl
  | [a] => rfl
  | [] => rfl

theorem length_nextLevel (level : List MerkleNode) :
    (nextLevel sha256 level).length = (level.length + 1) / 2 := by
  have h := congrArg List.length (nextLevel_map_hash sha256 level)
  rwa [List.length_map, HashTree.length_nextLevel, List.length_map] at h

/-- The loop of `build_tree`: append each level to `nodes`, and the top last. -/
def buildTreeLoop (nodes currentLevel : List MerkleNode) : List MerkleNode :=
  if 1 < currentLevel.length then
    buildTreeLoop (nodes ++ currentLevel) (nextLevel sha256 currentLevel)
  else
    match currentLevel with
    | [] => nodes
    | top :: _ => nodes ++ [top]
  termination_by currentLevel.length
  decreasing_by rw [length_nextLevel]; omega

/-- The loop of `generate_proof_recursive`: push the sibling where there is one. -/
def generateProofLoop (siblings : List Hash) (currentLevel : List MerkleNode)
    (currentIndex : ℕ) : List Hash :=
  if 1 < currentLevel.length then
    let siblingIndex := if currentIndex % 2 = 0 then currentIndex + 1 else currentIndex - 1
    let siblings' :=
      match currentLevel[siblingIndex]? with
      | some sibling => siblings ++ [sibling.hash]
      | none => siblings
    generateProofLoop siblings' (nextLevel sha256 currentLevel) (currentIndex / 2)
  else siblings
  termination_by currentLevel.length
  decreasing_by rw [length_nextLevel]; omega

namespace MerkleTreeBuilder

def empty : MerkleTreeBuilder := ⟨[], []⟩

def addLeaf (builder : MerkleTreeBuilder) (data : List UInt8) : MerkleTreeBuilder :=
  { builder with leaves := builder.leaves ++ [createLeaf sha256 data] }

def buildTree (builder : MerkleTreeBuilder) : MerkleTreeBuilder :=
  { builder with nodes := buildTreeLoop sha256 [] builder.leaves }

def buildRoot (builder : MerkleTreeBuilder) : Hash × MerkleTreeBuilder :=
  match builder.leaves with
  | [] => (zeroHash, builder)
  | [leaf] => (leaf.hash, builder)
  | leaf :: _ =>
    let built := builder.buildTree sha256
    match built.nodes.getLast? with
    | none => (leaf.hash, built)
    | some top => (top.hash, built)

def generateProofRecursive (builder : MerkleTreeBuilder) (leafIndex : ℕ)
    (h : leafIndex < builder.leaves.length) : MerkleProof where
  leafHash := builder.leaves[leafIndex].hash
  siblings := generateProofLoop sha256 [] builder.leaves leafIndex
  leafIndex := leafIndex

/-- Throws when there is no such leaf. -/
def generateProof (builder : MerkleTreeBuilder) (leafIndex : ℕ) :
    Except String (MerkleProof × MerkleTreeBuilder) :=
  if h : leafIndex < builder.leaves.length then
    match builder.leaves with
    | [] => .ok (⟨zeroHash, [], 0⟩, builder)
    | [leaf] => .ok (⟨leaf.hash, [], 0⟩, builder)
    | _ => .ok (builder.generateProofRecursive sha256 leafIndex h, builder.buildTree sha256)
  else .error "Leaf index out of range"

/-- The builder after adding the given leaves. -/
def ofLeaves (data : List (List UInt8)) : MerkleTreeBuilder :=
  data.foldl (addLeaf sha256) empty

end MerkleTreeBuilder

/-! ### The loops as hash trees -/

/-- The digests of a level. -/
def hashes (level : List MerkleNode) : List Hash := level.map MerkleNode.hash

@[simp] theorem length_hashes (level : List MerkleNode) : (hashes level).length = level.length :=
  List.length_map ..

theorem hashes_getElem? (level : List MerkleNode) (i : ℕ) :
    (hashes level)[i]? = (level[i]?).map MerkleNode.hash :=
  List.getElem?_map ..

theorem hashes_createLeaf (data : List (List UInt8)) :
    hashes (data.map (createLeaf sha256)) = data.map sha256 := by
  rw [hashes, List.map_map]
  rfl

theorem buildTreeLoop_of_lt {nodes level : List MerkleNode} (h : 1 < level.length) :
    buildTreeLoop sha256 nodes level
      = buildTreeLoop sha256 (nodes ++ level) (nextLevel sha256 level) := by
  rw [buildTreeLoop.eq_def, if_pos h]

theorem buildTreeLoop_top (nodes : List MerkleNode) (top : MerkleNode) :
    buildTreeLoop sha256 nodes [top] = nodes ++ [top] := by
  rw [buildTreeLoop.eq_def, if_neg (by simp)]

/-- The last node built is the root of the tree. -/
theorem buildTreeLoop_getLast? (nodes : List MerkleNode) {level : List MerkleNode}
    (hlevel : level ≠ []) :
    (buildTreeLoop sha256 nodes level).getLast?.map MerkleNode.hash
      = HashTree.root (nodeHash sha256) (hashes level) := by
  induction nodes, level using buildTreeLoop.induct sha256 with
  | case1 nodes level h ih =>
    have hne : nextLevel sha256 level ≠ [] := by
      intro hnil
      have hlen := length_nextLevel sha256 level
      rw [hnil, List.length_nil] at hlen
      omega
    have hlt : 1 < (hashes level).length := by rwa [length_hashes]
    rw [buildTreeLoop_of_lt sha256 h, ih hne, HashTree.root_of_lt hlt, hashes, nextLevel_map_hash]
    rfl
  | case2 nodes h => exact absurd rfl hlevel
  | case3 nodes top rest h =>
    obtain rfl : rest = [] := by
      rw [List.length_cons] at h
      exact List.length_eq_zero_iff.mp (by omega)
    rw [buildTreeLoop_top, HashTree.root_of_le (by simp), List.getLast?_concat]
    rfl

theorem generateProofLoop_eq_append (siblings : List Hash) (level : List MerkleNode) (i : ℕ) :
    generateProofLoop sha256 siblings level i
      = siblings ++ HashTree.authPath (nodeHash sha256) (hashes level) i := by
  induction siblings, level, i using generateProofLoop.induct sha256 with
  | case1 siblings level i h siblingIndex siblings' ih =>
    have hlt : 1 < (hashes level).length := by rwa [length_hashes]
    have hpush : siblings' = siblings ++ ((hashes level)[siblingIndex]?).toList := by
      rw [hashes_getElem?]
      cases hs : level[siblingIndex]? with
      | none => simp [siblings', hs]
      | some sibling => simp [siblings', hs]
    have hnext : hashes (nextLevel sha256 level)
        = HashTree.nextLevel (nodeHash sha256) (hashes level) := nextLevel_map_hash sha256 level
    rw [generateProofLoop.eq_def, if_pos h, HashTree.authPath_of_lt hlt, ← hnext,
      ← List.append_assoc]
    show generateProofLoop sha256 siblings' _ _ = _
    rw [ih, hpush]
    rfl
  | case2 siblings level i h =>
    have hle : (hashes level).length ≤ 1 := by
      rw [length_hashes]
      omega
    rw [generateProofLoop.eq_def, if_neg h, HashTree.authPath_of_le hle, List.append_nil]

namespace MerkleTreeBuilder

/-- The root of a non-empty builder is the root over its leaves, whatever was
built before. -/
theorem buildRoot_eq_root {builder : MerkleTreeBuilder} (h : builder.leaves ≠ []) :
    HashTree.root (nodeHash sha256) (hashes builder.leaves)
      = some (builder.buildRoot sha256).1 := by
  obtain ⟨leaves, nodes⟩ := builder
  rcases leaves with _ | ⟨leaf, _ | ⟨leaf', rest⟩⟩
  · exact absurd rfl h
  · exact HashTree.root_of_le (by simp)
  · have hlast := buildTreeLoop_getLast? sha256 [] h
    simp only [buildRoot, buildTree]
    cases htop : (buildTreeLoop sha256 [] (leaf :: leaf' :: rest)).getLast? with
    | none =>
      have hne : hashes (leaf :: leaf' :: rest) ≠ [] := List.cons_ne_nil _ _
      obtain ⟨r, hr⟩ := HashTree.exists_root hne
      rw [htop, Option.map_none, hr] at hlast
      exact absurd hlast (Option.some_ne_none r).symm
    | some top =>
      rw [htop, Option.map_some] at hlast
      exact hlast.symm

/-- So over leaves that were added the root is that over their hashes. -/
theorem root_eq_buildRoot {builder : MerkleTreeBuilder} {data : List (List UInt8)}
    (hleaves : builder.leaves = data.map (createLeaf sha256)) (h : data ≠ []) :
    HashTree.root (nodeHash sha256) (data.map sha256) = some (builder.buildRoot sha256).1 := by
  have hne : builder.leaves ≠ [] := by
    rw [hleaves]
    exact fun hnil => h (List.map_eq_nil_iff.mp hnil)
  have hroot := buildRoot_eq_root sha256 hne
  rw [hleaves, hashes_createLeaf] at hroot
  exact hroot

@[simp] theorem buildRoot_leaves (builder : MerkleTreeBuilder) :
    (builder.buildRoot sha256).2.leaves = builder.leaves := by
  obtain ⟨leaves, nodes⟩ := builder
  rcases leaves with _ | ⟨leaf, _ | ⟨leaf', rest⟩⟩
  · rfl
  · rfl
  · simp only [buildRoot, buildTree]
    split <;> rfl

/-- The proof of a leaf lists the siblings on its way up. -/
theorem generateProof_eq_authPath {builder : MerkleTreeBuilder} {i : ℕ}
    (h : i < builder.leaves.length) :
    ∃ builder', builder.generateProof sha256 i
      = .ok (⟨builder.leaves[i].hash,
          HashTree.authPath (nodeHash sha256) (hashes builder.leaves) i, i⟩, builder') := by
  obtain ⟨leaves, nodes⟩ := builder
  rcases leaves with _ | ⟨leaf, _ | ⟨leaf', rest⟩⟩
  · exact absurd h (by simp)
  · obtain rfl : i = 0 := by simpa using h
    refine ⟨⟨[leaf], nodes⟩, ?_⟩
    rw [HashTree.authPath_of_le (by simp), generateProof, dif_pos h]
    rfl
  · refine ⟨buildTree sha256 ⟨leaf :: leaf' :: rest, nodes⟩, ?_⟩
    rw [generateProof, dif_pos h]
    simp only [generateProofRecursive, generateProofLoop_eq_append, List.nil_append]

theorem foldl_addLeaf_leaves (data : List (List UInt8)) (builder : MerkleTreeBuilder) :
    (data.foldl (addLeaf sha256) builder).leaves
      = builder.leaves ++ data.map (createLeaf sha256) := by
  induction data generalizing builder with
  | nil => simp
  | cons d data ih =>
    rw [List.foldl_cons, ih]
    simp [addLeaf]

@[simp] theorem ofLeaves_leaves (data : List (List UInt8)) :
    (ofLeaves sha256 data).leaves = data.map (createLeaf sha256) :=
  foldl_addLeaf_leaves sha256 data empty

end MerkleTreeBuilder

end Membra
