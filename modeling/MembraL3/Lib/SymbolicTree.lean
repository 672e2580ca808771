/-
Symbolic hash trees.

A `Term` keeps what a digest forgets: the payload of each leaf and which digests were
combined.  `pair a b` is the payload of a node over the digests `a` and `b`, so that
the nodes of a hash tree combine digests by `digest (pair a b)`; the same levels over
symbolic leaves build the tree that a root is the digest of.

* `exists_tree` — that tree, and its leaves;
* `eq_or_confused` — trees with one digest are equal, unless two payloads collide or a
  leaf of one is a node of the other;
* `foldPath_binds` — paths that recompute one digest agree, or payloads collide;
* `reach_or_collision` — what a recomputed path says about the tree it ends in;
* `reach_of_paired` — the leaf at the end of a path that is paired on every level;
* `tree_eq_pathTree`, `tree_ne_pathTree` — the paths that recompute the tree itself.
-/
import MembraL3.Lib.HashTree

namespace HashTree

/-- Two different payloads of the list have one digest. -/
def Collision {π δ : Type*} (digest : π → δ) (payloads : List π) : Prop :=
  ∃ p ∈ payloads, ∃ q ∈ payloads, p ≠ q ∧ digest p = digest q

inductive Term (π : Type*) where
  | leaf (payload : π)
  | node (left right : Term π)

section Collision

variable {π δ : Type*} {digest : π → δ} {payloads payloads' : List π}

theorem Collision.mono (h : Collision digest payloads) (hsub : payloads ⊆ payloads') :
    Collision digest payloads' := by
  obtain ⟨p, hp, q, hq, hcollide⟩ := h
  exact ⟨p, hsub hp, q, hsub hq, hcollide⟩

/-- Two payloads with one digest are equal or collide. -/
theorem eq_or_collision_of_digest {p q : π} (hp : p ∈ payloads) (hq : q ∈ payloads)
    (h : digest p = digest q) : p = q ∨ Collision digest payloads := by
  by_cases hpq : p = q
  · exact .inl hpq
  · exact .inr ⟨p, hp, q, hq, hpq, h⟩

theorem not_collision_singleton (digest : π → δ) (p : π) : ¬ Collision digest [p] := by
  rintro ⟨q, hq, r, hr, hne, -⟩
  rw [List.mem_singleton] at hq hr
  exact hne (hq.trans hr.symm)

end Collision

variable {π δ : Type*} (digest : π → δ) (pair : δ → δ → π)

/-- The digest of a node. -/
def nodeDigest (a b : δ) : δ := digest (pair a b)

namespace Term

def digestOf : Term π → δ
  | leaf p => digest p
  | node l r => nodeDigest digest pair l.digestOf r.digestOf

def leaves : Term π → List π
  | leaf p => [p]
  | node l r => l.leaves ++ r.leaves

/-- What is hashed for the nodes above the leaves. -/
def inner : Term π → List π
  | leaf _ => []
  | node l r => pair (l.digestOf digest pair) (r.digestOf digest pair) :: (l.inner ++ r.inner)

/-- Everything that is hashed. -/
def hashed (t : Term π) : List π := t.leaves ++ t.inner digest pair

/-- The child that a bit of an index picks. -/
def child (i : ℕ) : Term π → Option (Term π)
  | leaf _ => none
  | node l r => if i % 2 = 0 then some l else some r

/-- The tree `k` levels down, on the way that the last `k` bits of the index show. -/
def reach (t : Term π) : ℕ → ℕ → Option (Term π)
  | 0, _ => some t
  | k + 1, i => (t.reach k (i / 2)).bind (child i)

end Term

open Term

/-! ### The tree of a level -/

/-- The tree that the levels over these leaves build. -/
def tree (payloads : List π) : Option (Term π) := root Term.node (payloads.map Term.leaf)

/-- Concatenating neighbours keeps the whole of a level. -/
theorem flatten_nextLevel {α : Type*} :
    ∀ level : List (List α), (nextLevel List.append level).flatten = level.flatten
  | a :: b :: rest => by
    rw [nextLevel, List.flatten_cons, flatten_nextLevel rest, List.flatten_cons,
      List.flatten_cons, ← List.append_assoc]
    rfl
  | [a] => rfl
  | [] => rfl

theorem root_append_eq_flatten {α : Type*} {level : List (List α)} (h : level ≠ []) :
    root List.append level = some level.flatten := by
  induction level using root.induct List.append with
  | case1 level hlt ih =>
    have hnext : nextLevel List.append level ≠ [] := by
      intro hnil
      have hlen := length_nextLevel List.append level
      rw [hnil, List.length_nil] at hlen
      omega
    rw [root_of_lt hlt, ih hnext, flatten_nextLevel]
  | case2 level hle =>
    rw [root_of_le (by omega)]
    rcases level with _ | ⟨a, _ | ⟨b, rest⟩⟩
    · exact absurd rfl h
    · rw [List.head?_cons, List.flatten_singleton]
    · rw [List.length_cons, List.length_cons] at hle
      omega

/-- The levels over some payloads build a tree with these leaves, and with the root of
their digests. -/
theorem exists_tree {payloads : List π} (h : payloads ≠ []) :
    ∃ t, tree payloads = some t ∧ t.leaves = payloads ∧
      root (nodeDigest digest pair) (payloads.map digest) = some (t.digestOf digest pair) := by
  have hne : payloads.map Term.leaf ≠ [] := fun hnil => h (List.map_eq_nil_iff.mp hnil)
  obtain ⟨t, ht⟩ : ∃ t, root Term.node (payloads.map Term.leaf) = some t := exists_root hne
  refine ⟨t, ht, ?_, ?_⟩
  · -- concatenating the leaves on the way up gives all of them
    have hnode : ∀ l r : Term π, (Term.node l r).leaves = List.append l.leaves r.leaves :=
      fun _ _ => rfl
    have hleaves := root_map hnode (payloads.map Term.leaf)
    have hsingletons : (payloads.map Term.leaf).map Term.leaves = payloads.map fun p => [p] := by
      rw [List.map_map]
      rfl
    have hsome : payloads.map (fun p => [p]) ≠ [] := fun hnil => h (List.map_eq_nil_iff.mp hnil)
    rw [ht, Option.map_some, hsingletons, root_append_eq_flatten hsome, Option.some_inj] at hleaves
    rw [hleaves]
    exact List.flatMap_singleton' payloads
  · have hnode : ∀ l r : Term π, (Term.node l r).digestOf digest pair
        = nodeDigest digest pair (l.digestOf digest pair) (r.digestOf digest pair) :=
      fun _ _ => rfl
    have hdigests := root_map hnode (payloads.map Term.leaf)
    have hleaves : (payloads.map Term.leaf).map (Term.digestOf digest pair)
        = payloads.map digest := by
      rw [List.map_map]
      rfl
    rw [ht, Option.map_some, hleaves] at hdigests
    exact hdigests.symm

/-! ### What is hashed above a level -/

/-- The payloads of the pairs of a level. -/
def pairPayloads : List δ → List π
  | a :: b :: rest => pair a b :: pairPayloads rest
  | _ => []

/-- The payloads of all pairs, level by level. -/
def levelPayloads (level : List δ) : List π :=
  if 1 < level.length then
    pairPayloads pair level ++ levelPayloads (nextLevel (nodeDigest digest pair) level)
  else []
  termination_by level.length
  decreasing_by rw [length_nextLevel]; omega

theorem levelPayloads_of_lt {level : List δ} (h : 1 < level.length) :
    levelPayloads digest pair level = pairPayloads pair level ++
      levelPayloads digest pair (nextLevel (nodeDigest digest pair) level) := by
  rw [levelPayloads.eq_def, if_pos h]

theorem levelPayloads_of_le {level : List δ} (h : level.length ≤ 1) :
    levelPayloads digest pair level = [] := by
  rw [levelPayloads.eq_def, if_neg (by omega)]

theorem flatMap_inner_nextLevel :
    ∀ level : List (Term π),
      (nextLevel Term.node level).flatMap (Term.inner digest pair)
        ⊆ level.flatMap (Term.inner digest pair) ++
          pairPayloads pair (level.map (Term.digestOf digest pair))
  | a :: b :: rest => by
    have hrest := flatMap_inner_nextLevel rest
    intro p hp
    rw [nextLevel, List.flatMap_cons, Term.inner] at hp
    simp only [List.flatMap_cons, List.map_cons, pairPayloads, List.mem_append, List.mem_cons]
    rcases List.mem_append.mp hp with hp | hp
    · rcases List.mem_cons.mp hp with rfl | hp
      · exact .inr (.inl rfl)
      · rcases List.mem_append.mp hp with hp | hp
        · exact .inl (.inl hp)
        · exact .inl (.inr (.inl hp))
    · rcases List.mem_append.mp (hrest hp) with hp | hp
      · exact .inl (.inr (.inr hp))
      · exact .inr (.inr hp)
  | [a] => by simp [nextLevel]
  | [] => by simp [nextLevel]

theorem inner_subset_of_root {level : List (Term π)} {t : Term π}
    (h : root Term.node level = some t) :
    t.inner digest pair ⊆ level.flatMap (Term.inner digest pair) ++
      levelPayloads digest pair (level.map (Term.digestOf digest pair)) := by
  induction level using root.induct Term.node with
  | case1 level hlt ih =>
    have hmap : 1 < (level.map (Term.digestOf digest pair)).length := by rwa [List.length_map]
    have hnode : ∀ l r : Term π, (Term.node l r).digestOf digest pair
        = nodeDigest digest pair (l.digestOf digest pair) (r.digestOf digest pair) :=
      fun _ _ => rfl
    rw [root_of_lt hlt] at h
    intro p hp
    rw [levelPayloads_of_lt digest pair hmap, ← nextLevel_map hnode, ← List.append_assoc]
    rcases List.mem_append.mp (ih h hp) with hp | hp
    · exact List.mem_append_left _ (flatMap_inner_nextLevel digest pair level hp)
    · exact List.mem_append_right _ hp
  | case2 level hle =>
    rw [root_of_le (by omega)] at h
    intro p hp
    exact List.mem_append_left _ (List.mem_flatMap.mpr ⟨t, List.mem_of_mem_head? h, hp⟩)

/-- The nodes of the tree hash nothing else. -/
theorem inner_subset {payloads : List π} {t : Term π} (h : tree payloads = some t) :
    t.inner digest pair ⊆ levelPayloads digest pair (payloads.map digest) := by
  have hsub := inner_subset_of_root digest pair h
  have hleaves : (payloads.map Term.leaf).flatMap (Term.inner digest pair) = [] := by
    rw [List.flatMap_map]
    exact List.flatMap_eq_nil_iff.mpr fun _ _ => rfl
  have hdigests : (payloads.map Term.leaf).map (Term.digestOf digest pair)
      = payloads.map digest := by
    rw [List.map_map]
    rfl
  rw [hleaves, List.nil_append, hdigests] at hsub
  exact hsub

/-! ### Trees with one digest -/

variable {digest pair}

/-- All that is hashed for the first tree is hashed for the second one. -/
structure Part (digest : π → δ) (pair : δ → δ → π) (t u : Term π) : Prop where
  leaves : t.leaves ⊆ u.leaves
  inner : t.inner digest pair ⊆ u.inner digest pair

theorem Part.refl (t : Term π) : Part digest pair t t :=
  ⟨List.Subset.refl _, List.Subset.refl _⟩

theorem Part.trans {t u v : Term π} (h : Part digest pair t u) (h' : Part digest pair u v) :
    Part digest pair t v :=
  ⟨List.Subset.trans h.leaves h'.leaves, List.Subset.trans h.inner h'.inner⟩

theorem part_left (l r : Term π) : Part digest pair l (.node l r) where
  leaves := List.subset_append_left ..
  inner := List.subset_cons_of_subset _ (List.subset_append_left ..)

theorem part_right (l r : Term π) : Part digest pair r (.node l r) where
  leaves := List.subset_append_right ..
  inner := List.subset_cons_of_subset _ (List.subset_append_right ..)

theorem Part.hashed {t u : Term π} (h : Part digest pair t u) :
    t.hashed digest pair ⊆ u.hashed digest pair := by
  intro p hp
  rcases List.mem_append.mp hp with hp | hp
  · exact List.mem_append_left _ (h.leaves hp)
  · exact List.mem_append_right _ (h.inner hp)

theorem mem_hashed_leaf (p : π) : p ∈ (Term.leaf p).hashed digest pair :=
  List.mem_append_left _ (List.mem_singleton_self p)

theorem mem_hashed_node (l r : Term π) :
    pair (l.digestOf digest pair) (r.digestOf digest pair)
      ∈ (Term.node l r).hashed digest pair :=
  List.mem_append_right _ (List.mem_cons_self ..)

/-- A leaf of the first tree is a node of the second one. -/
def LeafIsNode (digest : π → δ) (pair : δ → δ → π) (t u : Term π) : Prop :=
  ∃ p ∈ t.leaves, p ∈ u.inner digest pair

theorem LeafIsNode.mono {t t' u u' : Term π} (h : LeafIsNode digest pair t u)
    (ht : Part digest pair t t') (hu : Part digest pair u u') : LeafIsNode digest pair t' u' := by
  obtain ⟨p, hp, hinner⟩ := h
  exact ⟨p, ht.leaves hp, hu.inner hinner⟩

/-- What else than equality one digest can mean: a collision, or a leaf of one tree that
is a node of the other. -/
def Confused (digest : π → δ) (pair : δ → δ → π) (t u : Term π) : Prop :=
  Collision digest (t.hashed digest pair ++ u.hashed digest pair) ∨
    LeafIsNode digest pair t u ∨ LeafIsNode digest pair u t

theorem Confused.mono {t t' u u' : Term π} (h : Confused digest pair t u)
    (ht : Part digest pair t t') (hu : Part digest pair u u') : Confused digest pair t' u' := by
  rcases h with hcollision | hleaf | hleaf
  · refine .inl (hcollision.mono ?_)
    intro p hp
    rcases List.mem_append.mp hp with hp | hp
    · exact List.mem_append_left _ (ht.hashed hp)
    · exact List.mem_append_right _ (hu.hashed hp)
  · exact .inr (.inl (hleaf.mono ht hu))
  · exact .inr (.inr (hleaf.mono hu ht))

theorem eq_or_confused (hpair : ∀ a b c d, pair a b = pair c d → a = c ∧ b = d)
    {t u : Term π} (h : t.digestOf digest pair = u.digestOf digest pair) :
    t = u ∨ Confused digest pair t u := by
  induction t generalizing u with
  | leaf p =>
    cases u with
    | leaf q =>
      rcases eq_or_collision_of_digest (List.mem_append_left _ (mem_hashed_leaf p))
        (List.mem_append_right _ (mem_hashed_leaf q)) h with rfl | hcollision
      · exact .inl rfl
      · exact .inr (.inl hcollision)
    | node l r =>
      rcases eq_or_collision_of_digest (List.mem_append_left _ (mem_hashed_leaf p))
        (List.mem_append_right _ (mem_hashed_node l r)) h with rfl | hcollision
      · exact .inr (.inr (.inl ⟨_, List.mem_singleton_self _, List.mem_cons_self ..⟩))
      · exact .inr (.inl hcollision)
  | node l r ihl ihr =>
    cases u with
    | leaf q =>
      rcases eq_or_collision_of_digest (List.mem_append_left _ (mem_hashed_node l r))
        (List.mem_append_right _ (mem_hashed_leaf q)) h with rfl | hcollision
      · exact .inr (.inr (.inr ⟨_, List.mem_singleton_self _, List.mem_cons_self ..⟩))
      · exact .inr (.inl hcollision)
    | node l' r' =>
      rcases eq_or_collision_of_digest (List.mem_append_left _ (mem_hashed_node l r))
        (List.mem_append_right _ (mem_hashed_node l' r')) h with heq | hcollision
      · -- the same payload at the top: compare the children
        obtain ⟨hleft, hright⟩ := hpair _ _ _ _ heq
        rcases ihl hleft with rfl | hconfused
        · rcases ihr hright with rfl | hconfused
          · exact .inl rfl
          · exact .inr (hconfused.mono (part_right l r) (part_right l r'))
        · exact .inr (hconfused.mono (part_left l r) (part_left l' r'))
      · exact .inr (.inl hcollision)

/-! ### Recomputed paths -/

/-- What is hashed while a path is recomputed. -/
def pathPayloads (digest : π → δ) (pair : δ → δ → π) (i : ℕ) (current : δ) : List δ → List π
  | [] => []
  | s :: rest =>
    let p := if i % 2 = 0 then pair current s else pair s current
    p :: pathPayloads digest pair (i / 2) (digest p) rest

theorem exists_pair_of_mem_pathPayloads {p : π} {i : ℕ} {current : δ} {path : List δ}
    (hp : p ∈ pathPayloads digest pair i current path) : ∃ a b, p = pair a b := by
  induction path generalizing i current with
  | nil => exact absurd hp List.not_mem_nil
  | cons s rest ih =>
    rcases List.mem_cons.mp hp with rfl | hp
    · by_cases hi : i % 2 = 0
      · exact ⟨current, s, if_pos hi⟩
      · exact ⟨s, current, if_neg hi⟩
    · exact ih hp

/-- One step of a path hashes one payload. -/
theorem ite_nodeDigest (i : ℕ) (current s : δ) :
    (if i % 2 = 0 then nodeDigest digest pair current s else nodeDigest digest pair s current)
      = digest (if i % 2 = 0 then pair current s else pair s current) := by
  by_cases hi : i % 2 = 0
  · rw [if_pos hi, if_pos hi, nodeDigest]
  · rw [if_neg hi, if_neg hi, nodeDigest]

/-- Paths of one length that recompute the same digest from the same index are the same,
unless two of the payloads collide. -/
theorem foldPath_binds (hpair : ∀ a b c d, pair a b = pair c d → a = c ∧ b = d) {i : ℕ}
    {current current' : δ} {path path' : List δ} (hlength : path.length = path'.length)
    (h : foldPath (nodeDigest digest pair) i current path
      = foldPath (nodeDigest digest pair) i current' path') :
    (current = current' ∧ path = path') ∨
      ∃ p ∈ pathPayloads digest pair i current path,
        ∃ q ∈ pathPayloads digest pair i current' path', p ≠ q ∧ digest p = digest q := by
  induction path generalizing i current current' path' with
  | nil =>
    obtain rfl : path' = [] := List.length_eq_zero_iff.mp hlength.symm
    exact .inl ⟨h, rfl⟩
  | cons s rest ih =>
    obtain ⟨s', rest', rfl⟩ : ∃ s' rest', path' = s' :: rest' :=
      List.exists_cons_of_length_pos (by rw [← hlength]; exact Nat.succ_pos _)
    rw [List.length_cons, List.length_cons, Nat.add_right_cancel_iff] at hlength
    rw [foldPath, foldPath, ite_nodeDigest, ite_nodeDigest] at h
    rw [pathPayloads, pathPayloads]
    rcases ih hlength h with ⟨hdigest, rfl⟩ | ⟨p, hp, q, hq, hcollide⟩
    · -- above this step the paths agree, so its payloads agree or collide
      by_cases hsame : (if i % 2 = 0 then pair current s else pair s current)
          = if i % 2 = 0 then pair current' s' else pair s' current'
      · by_cases hi : i % 2 = 0
        · rw [if_pos hi, if_pos hi] at hsame
          obtain ⟨rfl, rfl⟩ := hpair _ _ _ _ hsame
          exact .inl ⟨rfl, rfl⟩
        · rw [if_neg hi, if_neg hi] at hsame
          obtain ⟨rfl, rfl⟩ := hpair _ _ _ _ hsame
          exact .inl ⟨rfl, rfl⟩
      · exact .inr ⟨_, List.mem_cons_self .., _, List.mem_cons_self .., hsame, hdigest⟩
    · exact .inr ⟨p, List.mem_cons_of_mem _ hp, q, List.mem_cons_of_mem _ hq, hcollide⟩

theorem part_of_reach {t u : Term π} {k i : ℕ} (h : t.reach k i = some u) :
    Part digest pair u t := by
  induction k generalizing i u with
  | zero =>
    obtain rfl := Option.some_inj.mp h
    exact Part.refl t
  | succ k ih =>
    rw [reach, Option.bind_eq_some_iff] at h
    obtain ⟨parent, hparent, hchild⟩ := h
    refine Part.trans ?_ (ih hparent)
    cases parent with
    | leaf p => exact absurd hchild (by simp [child])
    | node l r =>
      rw [child] at hchild
      by_cases hi : i % 2 = 0
      · rw [if_pos hi, Option.some_inj] at hchild
        rw [← hchild]
        exact part_left l r
      · rw [if_neg hi, Option.some_inj] at hchild
        rw [← hchild]
        exact part_right l r

/-- The way of `n` bits of an index comes to a leaf before its end, and what is hashed for
the path there is the payload of that leaf. -/
def Term.EndsInLeaf (t : Term π) (n i : ℕ) (payloads : List π) : Prop :=
  ∃ k p, k < n ∧ t.reach k (i / 2 ^ (n - k)) = some (.leaf p) ∧ payloads[n - 1 - k]? = some p

theorem Term.endsInLeaf_head {t : Term π} {n i : ℕ} {p : π} (h : t.reach n (i / 2) = some (.leaf p))
    (payloads : List π) : t.EndsInLeaf (n + 1) i (p :: payloads) := by
  refine ⟨n, p, Nat.lt_succ_self n, ?_, ?_⟩
  · rwa [Nat.add_sub_cancel_left, pow_one]
  · rw [Nat.add_sub_cancel, Nat.sub_self, List.getElem?_cons_zero]

theorem Term.EndsInLeaf.cons {t : Term π} {n i : ℕ} {payloads : List π}
    (h : t.EndsInLeaf n (i / 2) payloads) (p : π) : t.EndsInLeaf (n + 1) i (p :: payloads) := by
  obtain ⟨k, leaf, hk, hreach, hleaf⟩ := h
  refine ⟨k, leaf, Nat.lt_succ_of_lt hk, ?_, ?_⟩
  · rwa [Nat.succ_sub hk.le, pow_succ', ← Nat.div_div_eq_div_mul]
  · have hindex : n + 1 - 1 - k = (n - 1 - k) + 1 := by omega
    rwa [hindex, List.getElem?_cons_succ]

/-- A path that recomputes the digest of a tree starts at the digest of the tree that it
reaches; or it goes on below a leaf, which is then hashed for the path itself; or there
is a collision. -/
theorem reach_or_collision (hpair : ∀ a b c d, pair a b = pair c d → a = c ∧ b = d)
    {t : Term π} {path : List δ} {i : ℕ} {current : δ}
    (h : foldPath (nodeDigest digest pair) i current path = t.digestOf digest pair) :
    (∃ u, t.reach path.length i = some u ∧ current = u.digestOf digest pair) ∨
    (t.reach path.length i = none ∧
      t.EndsInLeaf path.length i (pathPayloads digest pair i current path)) ∨
    Collision digest (t.hashed digest pair ++ pathPayloads digest pair i current path) := by
  induction path generalizing i current with
  | nil => exact .inl ⟨t, rfl, h⟩
  | cons s rest ih =>
    rw [foldPath, ite_nodeDigest] at h
    rw [List.length_cons, reach, pathPayloads]
    rcases ih h with ⟨parent, hreach, hdigest⟩ | ⟨hnone, hends⟩ | hcollision
    · have hpart : Part digest pair parent t := part_of_reach hreach
      cases parent with
      | leaf p =>
        -- the path goes on below a leaf
        rcases eq_or_collision_of_digest (List.mem_append_right _ (List.mem_cons_self ..))
          (List.mem_append_left _ (hpart.hashed (mem_hashed_leaf p))) hdigest with rfl | hcollision
        · exact .inr (.inl ⟨by rw [hreach]; rfl, endsInLeaf_head hreach _⟩)
        · exact .inr (.inr hcollision)
      | node l r =>
        rw [hreach, Option.bind_some]
        rcases eq_or_collision_of_digest (List.mem_append_right _ (List.mem_cons_self ..))
          (List.mem_append_left _ (hpart.hashed (mem_hashed_node l r))) hdigest
          with heq | hcollision
        · rw [child]
          by_cases hi : i % 2 = 0
          · rw [if_pos hi] at heq ⊢
            exact .inl ⟨l, rfl, (hpair _ _ _ _ heq).1⟩
          · rw [if_neg hi] at heq ⊢
            exact .inl ⟨r, rfl, (hpair _ _ _ _ heq).2⟩
        · exact .inr (.inr hcollision)
    · rw [hnone, Option.bind_none]
      exact .inr (.inl ⟨rfl, hends.cons _⟩)
    · refine .inr (.inr (hcollision.mono ?_))
      intro p hp
      rcases List.mem_append.mp hp with hp | hp
      · exact List.mem_append_left _ hp
      · exact List.mem_append_right _ (List.mem_cons_of_mem _ hp)

/-- On a path that is paired on every level, the siblings lead back to the node that
the path started from. -/
theorem reach_of_paired {level : List (Term π)} {t u : Term π} {i : ℕ}
    (ht : root Term.node level = some t) (hu : level[i]? = some u) (hp : Paired level.length i) :
    t.reach (authPath Term.node level i).length i = some u := by
  induction level, i using authPath.induct Term.node generalizing u with
  | case1 level i h ih =>
    obtain ⟨hs, hp'⟩ := (paired_iff h).mp hp
    have hs' : level[sibling i]? = some level[sibling i] := List.getElem?_eq_getElem hs
    have hup : (nextLevel Term.node level)[i / 2]? = _ := nextLevel_getElem?_half hu hs'
    rw [root_of_lt h] at ht
    have hparent := ih ht hup (by rwa [length_nextLevel])
    rw [authPath_of_lt h, hs', Option.toList_some, List.singleton_append, List.length_cons, reach,
      hparent, Option.bind_some]
    by_cases hi : i % 2 = 0
    · rw [if_pos hi, child, if_pos hi]
    · rw [if_neg hi, child, if_neg hi]
  | case2 level i h =>
    have hi : i < level.length := (List.getElem?_eq_some_iff.mp hu).choose
    obtain rfl : i = 0 := by omega
    rw [root_of_le (by omega), List.head?_eq_getElem?, hu] at ht
    rw [authPath_of_le (by omega)]
    exact ht.symm

/-! ### Unpaired paths

A term is never equal to one with a longer right spine, whatever its leaves are. -/

def Term.spine : Term π → ℕ
  | leaf _ => 0
  | node _ r => r.spine + 1

/-- What the siblings of leaf `i` recompute. -/
def pathTree (payloads : List π) (i : ℕ) (hi : i < payloads.length) : Term π :=
  foldPath Term.node i (.leaf payloads[i]) (authPath Term.node (payloads.map Term.leaf) i)

theorem tree_eq_pathTree {payloads : List π} {i : ℕ} (hi : i < payloads.length)
    (hp : Paired payloads.length i) : tree payloads = some (pathTree payloads i hi) := by
  refine root_eq_foldPath ?_ ?_
  · rw [List.getElem?_map, List.getElem?_eq_getElem hi, Option.map_some]
  · rwa [List.length_map]

/-- On an unpaired path another tree is recomputed, one with a longer right spine. -/
theorem tree_ne_pathTree {payloads : List π} {i : ℕ} (hi : i < payloads.length)
    (hp : ¬ Paired payloads.length i) : tree payloads ≠ some (pathTree payloads i hi) := by
  have hnode : ∀ l r : Term π, (Term.node l r).spine = spineNode l.spine r.spine :=
    fun _ _ => rfl
  have hzero : ∀ t ∈ payloads.map Term.leaf, t.spine = 0 := by
    intro t ht
    obtain ⟨p, -, rfl⟩ := List.mem_map.mp ht
    rfl
  have hleaf : (payloads.map Term.leaf)[i]? = some (.leaf payloads[i]) := by
    rw [List.getElem?_map, List.getElem?_eq_getElem hi, Option.map_some]
  obtain ⟨t, ht, hlt⟩ := exists_root_lt_foldPath hnode hzero hleaf (by rwa [List.length_map])
  intro heq
  -- one term cannot have two spines
  obtain rfl := Option.some_inj.mp (ht.symm.trans heq)
  exact lt_irrefl _ hlt

end HashTree
