/-
Soundness and binding of Merkle proofs and roots.

A leaf is hashed as it is and a node as the 64 bytes of two digests, so a digest does
not tell which of the two it is of; and a proof carries neither the number of leaves
nor, with it, the number of siblings it should have.

* `verify_sound` — what a proof that verifies shows: the hash of the node that its
  index leads to, and of the leaf itself where it has the siblings of a generated one;
* `root_binds` — what sequences with one root have in common;
* `verify_binds_position` — what proofs with one index and root have in common.

The first two are read off the tree that the levels of the builder stand for
(`HashTree.Term`).
-/
import MembraL3.MerkleProvenance
import MembraL3.Lib.SymbolicTree

namespace Membra

open MerkleNode HashTree

/-- The bytes that are hashed for an internal node. -/
def pairBytes (left right : Hash) : List UInt8 := left.toList ++ right.toList

theorem pairBytes_inj {a b c d : Hash} (h : pairBytes a b = pairBytes c d) : a = c ∧ b = d := by
  have hlen : a.toList.length = c.toList.length := by
    rw [Vector.length_toList, Vector.length_toList]
  obtain ⟨hleft, hright⟩ := List.append_inj h hlen
  exact ⟨Vector.toList_inj.mp hleft, Vector.toList_inj.mp hright⟩

/-- The root that a builder with these leaves builds. -/
def builtRoot (sha256 : Sha256) (data : List (List UInt8)) : Hash :=
  ((MerkleTreeBuilder.ofLeaves sha256 data).buildRoot sha256).1

/-- The concatenations that the build hashes, level by level. -/
def nodeStrings (sha256 : Sha256) (data : List (List UInt8)) : List (List UInt8) :=
  levelPayloads sha256 pairBytes (data.map sha256)

/-- Everything that is hashed while the leaves are added and the root is built. -/
def hashedByBuild (sha256 : Sha256) (data : List (List UInt8)) : List (List UInt8) :=
  data ++ nodeStrings sha256 data

/-- Everything that is hashed while the proof is verified. -/
def hashedByVerify (sha256 : Sha256) (proof : MerkleProof) : List (List UInt8) :=
  pathPayloads sha256 pairBytes proof.leafIndex proof.leafHash proof.siblings

variable {sha256 : Sha256} {data data' : List (List UInt8)} {proof : MerkleProof}

theorem root_eq_builtRoot (sha256 : Sha256) {data : List (List UInt8)} (h : data ≠ []) :
    root (nodeHash sha256) (data.map sha256) = some (builtRoot sha256 data) :=
  MerkleTreeBuilder.root_eq_buildRoot sha256 (MerkleTreeBuilder.ofLeaves_leaves sha256 data) h

/-! ### The tree under a root -/

/-- The digest of a part of the tree. -/
def treeHash (sha256 : Sha256) (node : Term (List UInt8)) : Hash := node.digestOf sha256 pairBytes

/-- A builder with leaves builds the root of their tree. -/
theorem exists_tree_builtRoot (sha256 : Sha256) {data : List (List UInt8)} (h : data ≠ []) :
    ∃ t, tree data = some t ∧ t.leaves = data ∧ treeHash sha256 t = builtRoot sha256 data ∧
      t.hashed sha256 pairBytes ⊆ hashedByBuild sha256 data := by
  obtain ⟨t, ht, hleaves, hdigest⟩ := exists_tree sha256 pairBytes h
  refine ⟨t, ht, hleaves, ?_, ?_⟩
  · exact Option.some_inj.mp (hdigest.symm.trans (root_eq_builtRoot sha256 h))
  · intro p hp
    rcases List.mem_append.mp hp with hp | hp
    · rw [hleaves] at hp
      exact List.mem_append_left _ hp
    · exact List.mem_append_right _ (inner_subset sha256 pairBytes ht hp)

/-! ### Proofs that verify -/

/-- The node that the lowest `k` bits of an index lead to from the root, the highest of
them first. -/
def nodeAt (data : List (List UInt8)) (k i : ℕ) : Option (Term (List UInt8)) :=
  (tree data).bind fun t => t.reach k i

/-- The leaf hash is that of the leaf at the index. -/
def NamesLeaf (sha256 : Sha256) (data : List (List UInt8)) (proof : MerkleProof) : Prop :=
  ∃ leaf, data[proof.leafIndex]? = some leaf ∧ proof.leafHash = sha256 leaf

/-- The leaf hash is that of the node which the index leads to. -/
def NamesNode (sha256 : Sha256) (data : List (List UInt8)) (proof : MerkleProof) : Prop :=
  ∃ node, nodeAt data proof.siblings.length proof.leafIndex = some node ∧
    proof.leafHash = treeHash sha256 node

/-- The way that the index shows comes to a leaf before its end, and the concatenation
hashed there for the proof is the data of that leaf. -/
def RunsBelowLeaf (sha256 : Sha256) (data : List (List UInt8)) (proof : MerkleProof) : Prop :=
  nodeAt data proof.siblings.length proof.leafIndex = none ∧
    ∃ k leaf, k < proof.siblings.length ∧
      nodeAt data k (proof.leafIndex / 2 ^ (proof.siblings.length - k)) = some (.leaf leaf) ∧
      (hashedByVerify sha256 proof)[proof.siblings.length - 1 - k]? = some leaf

/-- The builder would give a proof with as many siblings for that leaf, and on no level
below the root is a node on its way without a sibling. -/
def HasLeafShape (sha256 : Sha256) (data : List (List UInt8)) (proof : MerkleProof) : Prop :=
  Paired data.length proof.leafIndex ∧
    ∃ generated builder, (MerkleTreeBuilder.ofLeaves sha256 data).generateProof sha256
        proof.leafIndex = .ok (generated, builder) ∧
      proof.siblings.length = generated.siblings.length

/-- The way of such a proof ends at the leaf. -/
theorem nodeAt_of_hasLeafShape (h : HasLeafShape sha256 data proof) :
    ∃ leaf, data[proof.leafIndex]? = some leaf ∧
      nodeAt data proof.siblings.length proof.leafIndex = some (.leaf leaf) := by
  obtain ⟨hpaired, generated, builder, hgenerated, hlength⟩ := h
  by_cases hi : proof.leafIndex < data.length
  · have hne : data ≠ [] := List.ne_nil_of_length_pos (by omega)
    obtain ⟨t, ht, -⟩ := exists_tree_builtRoot sha256 hne
    have hbuilder : proof.leafIndex
        < (MerkleTreeBuilder.ofLeaves sha256 data).leaves.length := by
      rwa [MerkleTreeBuilder.ofLeaves_leaves, List.length_map]
    -- the generated siblings are as many as those in the symbolic tree
    obtain ⟨_, hproof⟩ := MerkleTreeBuilder.generateProof_eq_authPath sha256 hbuilder
    have hsame := Except.ok.inj (hgenerated.symm.trans hproof)
    have hsiblings : generated.siblings = authPath (nodeHash sha256)
        (hashes (MerkleTreeBuilder.ofLeaves sha256 data).leaves) proof.leafIndex :=
      congrArg (fun result => result.1.siblings) hsame
    have hnode : ∀ l r, treeHash sha256 (.node l r)
        = nodeHash sha256 (treeHash sha256 l) (treeHash sha256 r) := fun _ _ => rfl
    have hlevel : (data.map Term.leaf).map (treeHash sha256) = data.map sha256 := by
      rw [List.map_map]
      rfl
    have hpath := authPath_map hnode (data.map Term.leaf) proof.leafIndex
    rw [hlevel] at hpath
    have hcount : proof.siblings.length
        = (authPath Term.node (data.map Term.leaf) proof.leafIndex).length := by
      rw [hlength, hsiblings, MerkleTreeBuilder.ofLeaves_leaves, hashes_createLeaf, ← hpath,
        List.length_map]
    refine ⟨data[proof.leafIndex], List.getElem?_eq_getElem hi, ?_⟩
    rw [nodeAt, ht, Option.bind_some, hcount]
    refine reach_of_paired ht ?_ (by rwa [List.length_map])
    rw [List.getElem?_map, List.getElem?_eq_getElem hi, Option.map_some]
  · -- there is no such leaf, so nothing is generated for it
    have hthrows : (MerkleTreeBuilder.ofLeaves sha256 data).generateProof sha256 proof.leafIndex
        = .error "Leaf index out of range" := by
      rw [MerkleTreeBuilder.generateProof, dif_neg]
      rwa [MerkleTreeBuilder.ofLeaves_leaves, List.length_map]
    rw [hthrows] at hgenerated
    exact absurd hgenerated (by simp)

/-- A proof that verifies has the hash of the node that its index leads to, or runs
below a leaf, or there is a collision.  With the shape of a generated proof it has the
hash of the leaf at its index, or there is a collision. -/
theorem verify_sound (sha256 : Sha256) {data : List (List UInt8)} {proof : MerkleProof}
    (hdata : data ≠ []) (hverify : proof.verify sha256 (builtRoot sha256 data) = true) :
    (NamesNode sha256 data proof ∨ RunsBelowLeaf sha256 data proof ∨
      Collision sha256 (hashedByBuild sha256 data ++ hashedByVerify sha256 proof)) ∧
    (HasLeafShape sha256 data proof →
      NamesLeaf sha256 data proof ∨
        Collision sha256 (hashedByBuild sha256 data ++ hashedByVerify sha256 proof)) := by
  obtain ⟨t, ht, -, hroot, hhashed⟩ := exists_tree_builtRoot sha256 hdata
  rw [MerkleProof.verify, verifyLoop_eq_foldPath, beq_iff_eq, ← hroot] at hverify
  have hcollision : Collision sha256 (t.hashed sha256 pairBytes ++ hashedByVerify sha256 proof) →
      Collision sha256 (hashedByBuild sha256 data ++ hashedByVerify sha256 proof) := by
    intro hcollision
    refine hcollision.mono ?_
    intro p hp
    rcases List.mem_append.mp hp with hp | hp
    · exact List.mem_append_left _ (hhashed hp)
    · exact List.mem_append_right _ hp
  have hat : ∀ k i, nodeAt data k i = t.reach k i := by
    intro k i
    rw [nodeAt, ht, Option.bind_some]
  have hgeneral : NamesNode sha256 data proof ∨ RunsBelowLeaf sha256 data proof ∨
      Collision sha256 (hashedByBuild sha256 data ++ hashedByVerify sha256 proof) := by
    rcases reach_or_collision (fun _ _ _ _ => pairBytes_inj) hverify with
      ⟨node, hreach, hhash⟩ | ⟨hnone, k, leaf, hk, hreach, hhashed⟩ | hcollide
    · exact .inl ⟨node, (hat _ _).trans hreach, hhash⟩
    · exact .inr (.inl ⟨(hat _ _).trans hnone, k, leaf, hk, (hat _ _).trans hreach, hhashed⟩)
    · exact .inr (.inr (hcollision hcollide))
  refine ⟨hgeneral, ?_⟩
  intro hshape
  obtain ⟨leaf, hleaf, hend⟩ := nodeAt_of_hasLeafShape hshape
  rcases hgeneral with ⟨node, hnode, hhash⟩ | ⟨hnone, -⟩ | hcollide
  · obtain rfl := Option.some_inj.mp (hend.symm.trans hnode)
    exact .inl ⟨leaf, hleaf, hhash⟩
  · exact absurd (hend.symm.trans hnone) (by simp)
  · exact .inr hcollide

/-- A hash function that adds up the bytes. -/
def sumHash : Sha256 := fun bytes => Vector.replicate 32 bytes.sum

/-- The proof of the third of four leaves. -/
def thirdProof : MerkleProof where
  leafHash := sumHash [3]
  siblings := [sumHash [4], nodeHash sumHash (sumHash [1]) (sumHash [2])]
  leafIndex := 2

theorem thirdProof_hasLeafShape : HasLeafShape sumHash [[1], [2], [3], [4]] thirdProof := by
  have hthird : 2 < (MerkleTreeBuilder.ofLeaves sumHash [[1], [2], [3], [4]]).leaves.length := by
    rw [MerkleTreeBuilder.ofLeaves_leaves]
    decide
  have hsiblings : (authPath (nodeHash sumHash)
      (hashes (MerkleTreeBuilder.ofLeaves sumHash [[1], [2], [3], [4]]).leaves) 2).length = 2 := by
    decide +kernel
  -- of four leaves each has its sibling, and so has each of the two nodes over them
  have hnodes : Paired 2 1 := (paired_iff (by decide)).mpr ⟨by decide, paired_of_le_one le_rfl 0⟩
  have hpaired : Paired 4 2 := (paired_iff (by decide)).mpr ⟨by decide, hnodes⟩
  obtain ⟨builder, hgenerated⟩ := MerkleTreeBuilder.generateProof_eq_authPath sumHash hthird
  exact ⟨hpaired, _, builder, hgenerated, hsiblings.symm⟩

theorem verify_sound_four :
    HasLeafShape sumHash [[1], [2], [3], [4]] thirdProof ∧
    ¬ Collision sumHash
      (hashedByBuild sumHash [[1], [2], [3], [4]] ++ hashedByVerify sumHash thirdProof) ∧
    (NamesNode sumHash [[1], [2], [3], [4]] thirdProof ∨
      RunsBelowLeaf sumHash [[1], [2], [3], [4]] thirdProof ∨
      Collision sumHash
        (hashedByBuild sumHash [[1], [2], [3], [4]] ++ hashedByVerify sumHash thirdProof)) ∧
    (NamesLeaf sumHash [[1], [2], [3], [4]] thirdProof ∨
      Collision sumHash
        (hashedByBuild sumHash [[1], [2], [3], [4]] ++ hashedByVerify sumHash thirdProof)) := by
  have hsound := @verify_sound sumHash [[1], [2], [3], [4]] thirdProof (by simp) (by decide +kernel)
  refine ⟨thirdProof_hasLeafShape, ?_, hsound.1, hsound.2 thirdProof_hasLeafShape⟩
  unfold Collision
  decide +kernel

/-- With one leaf nothing else is hashed. -/
theorem hashedByBuild_singleton (sha256 : Sha256) (leaf : List UInt8) :
    hashedByBuild sha256 [leaf] = [leaf] := by
  rw [hashedByBuild, nodeStrings, List.map_singleton, levelPayloads_of_le _ _ (by simp),
    List.append_nil]

/-- For no hash function does every proof that verifies have the hash of the leaf at its
index: with no siblings, any index does for a single leaf. -/
theorem not_forall_namesLeaf :
    ¬ ∃ sha256 : Sha256, ∀ (data : List (List UInt8)) (proof : MerkleProof), data ≠ [] →
      proof.verify sha256 (builtRoot sha256 data) = true →
      NamesLeaf sha256 data proof ∨
        Collision sha256 (hashedByBuild sha256 data ++ hashedByVerify sha256 proof) := by
  rintro ⟨sha256, h⟩
  have hverify : MerkleProof.verify sha256 ⟨sha256 [1], [], 5⟩ (builtRoot sha256 [[1]]) = true :=
    beq_self_eq_true _
  rcases h [[1]] ⟨sha256 [1], [], 5⟩ (by simp) hverify with ⟨leaf, hleaf, -⟩ | hcollision
  · exact absurd hleaf (by simp)
  · rw [hashedByBuild_singleton] at hcollision
    exact not_collision_singleton sha256 [1] hcollision

/-! ### Sequences with one root -/

/-- A leaf of the first sequence is one of the concatenations that are hashed for the
nodes of the second one. -/
def LeafHashedAsNode (sha256 : Sha256) (data data' : List (List UInt8)) : Prop :=
  ∃ leaf ∈ data, leaf ∈ nodeStrings sha256 data'

/-- Sequences with one root are equal, or there is a collision, or a leaf of one is
hashed as a node of the other. -/
theorem root_binds (sha256 : Sha256) {data data' : List (List UInt8)} (hdata : data ≠ [])
    (hdata' : data' ≠ []) (hroot : builtRoot sha256 data = builtRoot sha256 data') :
    data = data' ∨
      Collision sha256 (hashedByBuild sha256 data ++ hashedByBuild sha256 data') ∨
      LeafHashedAsNode sha256 data data' ∨ LeafHashedAsNode sha256 data' data := by
  obtain ⟨t, ht, hleaves, hdigest, hhashed⟩ := exists_tree_builtRoot sha256 hdata
  obtain ⟨t', ht', hleaves', hdigest', hhashed'⟩ := exists_tree_builtRoot sha256 hdata'
  have hsame : treeHash sha256 t = treeHash sha256 t' := by rw [hdigest, hroot, hdigest']
  rcases eq_or_confused (fun _ _ _ _ => pairBytes_inj) hsame with
    rfl | hcollision | ⟨leaf, hleaf, hinner⟩ | ⟨leaf, hleaf, hinner⟩
  · exact .inl (hleaves.symm.trans hleaves')
  · refine .inr (.inl (hcollision.mono ?_))
    intro p hp
    rcases List.mem_append.mp hp with hp | hp
    · exact List.mem_append_left _ (hhashed hp)
    · exact List.mem_append_right _ (hhashed' hp)
  · rw [hleaves] at hleaf
    exact .inr (.inr (.inl ⟨leaf, hleaf, inner_subset sha256 pairBytes ht' hinner⟩))
  · rw [hleaves'] at hleaf
    exact .inr (.inr (.inr ⟨leaf, hleaf, inner_subset sha256 pairBytes ht hinner⟩))

/-- A hash function that tells byte strings of different lengths apart. -/
def lengthHash : Sha256 := fun bytes => Vector.replicate 32 (UInt8.ofNat bytes.length)

/-- One leaf, which is what is hashed for the root of the two empty ones. -/
def rootOfEmpties : List UInt8 := pairBytes (lengthHash []) (lengthHash [])

theorem hashedByBuild_empties (sha256 : Sha256) :
    hashedByBuild sha256 [[], []] = [[], [], pairBytes (sha256 []) (sha256 [])] := by
  have hlevel : [([] : List UInt8), []].map sha256 = [sha256 [], sha256 []] := rfl
  rw [hashedByBuild, nodeStrings, hlevel, levelPayloads_of_lt _ _ (by simp)]
  simp only [pairPayloads, HashTree.nextLevel]
  rw [levelPayloads_of_le _ _ (by simp)]
  rfl

theorem builtRoot_empties (sha256 : Sha256) :
    builtRoot sha256 [[], []] = sha256 (pairBytes (sha256 []) (sha256 [])) := by
  have hroot := root_eq_builtRoot sha256 (List.cons_ne_nil [] [[]])
  have hlevel : [([] : List UInt8), []].map sha256 = [sha256 [], sha256 []] := rfl
  rw [hlevel, root_of_lt (by simp), HashTree.nextLevel, HashTree.nextLevel,
    root_of_le (le_refl 1)] at hroot
  exact (Option.some_inj.mp hroot).symm

theorem root_binds_empties :
    (builtRoot lengthHash [rootOfEmpties] = builtRoot lengthHash [[], []]) ∧
    ([rootOfEmpties] = [[], []] ∨
      Collision lengthHash
        (hashedByBuild lengthHash [rootOfEmpties] ++ hashedByBuild lengthHash [[], []]) ∨
      LeafHashedAsNode lengthHash [rootOfEmpties] [[], []] ∨
      LeafHashedAsNode lengthHash [[], []] [rootOfEmpties]) := by
  have hroot : builtRoot lengthHash [rootOfEmpties] = builtRoot lengthHash [[], []] :=
    (builtRoot_empties lengthHash).symm
  exact ⟨hroot, root_binds lengthHash (by simp) (by simp) hroot⟩

theorem not_forall_root_binds :
    ¬ ∀ (sha256 : Sha256) (data data' : List (List UInt8)), data ≠ [] → data' ≠ [] →
      builtRoot sha256 data = builtRoot sha256 data' →
      data = data' ∨
        Collision sha256 (hashedByBuild sha256 data ++ hashedByBuild sha256 data') := by
  intro h
  rcases h lengthHash [rootOfEmpties] [[], []] (by simp) (by simp)
    (builtRoot_empties lengthHash).symm with heq | ⟨p, hp, q, hq, hne, hhash⟩
  · exact absurd (congrArg List.length heq) (by simp)
  · -- the only two strings are the empty one and the one of 64 bytes
    rw [hashedByBuild_singleton, hashedByBuild_empties] at hp hq
    have hinjective : ∀ p ∈ [rootOfEmpties] ++ [[], [], rootOfEmpties],
        ∀ q ∈ [rootOfEmpties] ++ [[], [], rootOfEmpties],
        lengthHash p = lengthHash q → p = q := by
      decide +kernel
    exact hne (hinjective p hp q hq hhash)

/-! ### Proofs with one index -/

theorem length_of_mem_hashedByVerify {bytes : List UInt8}
    (h : bytes ∈ hashedByVerify sha256 proof) : bytes.length = 64 := by
  obtain ⟨left, right, rfl⟩ := exists_pair_of_mem_pathPayloads h
  rw [pairBytes, List.length_append, Vector.length_toList, Vector.length_toList]

/-- At one index a root leaves room for one leaf hash and one list of siblings of each
length, unless two of the concatenations that the verifications hash collide. -/
theorem verify_binds_position (sha256 : Sha256) {proof proof' : MerkleProof} {root : Hash}
    (hindex : proof.leafIndex = proof'.leafIndex)
    (hlength : proof.siblings.length = proof'.siblings.length)
    (hverify : proof.verify sha256 root = true) (hverify' : proof'.verify sha256 root = true) :
    (proof.leafHash = proof'.leafHash ∧ proof.siblings = proof'.siblings) ∨
      ∃ bytes ∈ hashedByVerify sha256 proof, ∃ bytes' ∈ hashedByVerify sha256 proof',
        bytes.length = 64 ∧ bytes'.length = 64 ∧ bytes ≠ bytes' ∧
          sha256 bytes = sha256 bytes' := by
  rw [MerkleProof.verify, verifyLoop_eq_foldPath, beq_iff_eq] at hverify hverify'
  rw [← hverify', hindex] at hverify
  rcases foldPath_binds (fun _ _ _ _ => pairBytes_inj) hlength hverify with
    hsame | ⟨bytes, hbytes, bytes', hbytes', hne, hhash⟩
  · exact .inl hsame
  · rw [← hindex] at hbytes
    exact .inr ⟨bytes, hbytes, bytes', hbytes', length_of_mem_hashedByVerify hbytes,
      length_of_mem_hashedByVerify hbytes', hne, hhash⟩

/-- Under a hash function that only sees lengths, a leaf hash can be exchanged. -/
theorem verify_binds_position_lengthHash :
    let proof : MerkleProof := ⟨zeroHash, [zeroHash], 0⟩
    let proof' : MerkleProof := ⟨lengthHash [1], [zeroHash], 0⟩
    proof.leafHash ≠ proof'.leafHash ∧
    ((proof.leafHash = proof'.leafHash ∧ proof.siblings = proof'.siblings) ∨
      ∃ bytes ∈ hashedByVerify lengthHash proof, ∃ bytes' ∈ hashedByVerify lengthHash proof',
        bytes.length = 64 ∧ bytes'.length = 64 ∧ bytes ≠ bytes' ∧
          lengthHash bytes = lengthHash bytes') :=
  ⟨by decide +kernel, @verify_binds_position lengthHash ⟨zeroHash, [zeroHash], 0⟩
    ⟨lengthHash [1], [zeroHash], 0⟩ (lengthHash (List.replicate 64 0)) rfl rfl
    (by decide +kernel) (by decide +kernel)⟩

end Membra
