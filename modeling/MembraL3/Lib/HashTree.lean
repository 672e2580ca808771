/-
Hash trees built level by level.

`nextLevel node` combines neighbouring digests of a level and promotes an odd
last one unchanged; `root` iterates it down to one digest.  `authPath level i`
lists the siblings that the node at `i` meets on its way up, one for each level
where it has one, and `foldPath i x` recomputes a root from a digest and such a
list, reading one bit of the index `i` for each sibling.

* `nextLevel_map`, `root_map`, `authPath_map`, `foldPath_map` — everything
  commutes with a map that commutes with `node`;
* `root_append` — the same root from the top, split at a power of two;
* `root_eq_foldPath` — a path that is paired on every level recomputes the root;
* `root_lt_foldPath` — for `node a b = b + 1`, the length of the right spine, a
  path that is unpaired on some level recomputes a number above the root: a
  promoted level consumes no sibling and no bit, so the later siblings are put
  on the wrong side;
* `exists_root_lt_foldPath` — so does any `node` that such a length can be read off.
-/
import Mathlib.Algebra.Order.Ring.Nat
import Mathlib.Data.Nat.Log
import Mathlib.Data.List.Basic
import Mathlib.Tactic.Common

namespace HashTree

variable {δ ε : Type*}

/-- Pair up a level; an odd last digest is promoted. -/
def nextLevel (node : δ → δ → δ) : List δ → List δ
  | a :: b :: rest => node a b :: nextLevel node rest
  | [a] => [a]
  | [] => []

theorem length_nextLevel (node : δ → δ → δ) :
    ∀ level : List δ, (nextLevel node level).length = (level.length + 1) / 2
  | a :: b :: rest => by
    simp only [nextLevel, List.length_cons, length_nextLevel node rest]
    omega
  | [a] => by simp [nextLevel]
  | [] => by simp [nextLevel]

/-- The digest above a pair. -/
theorem nextLevel_getElem?_pair (node : δ → δ → δ) {level : List δ} {k : ℕ} {a b : δ}
    (ha : level[2 * k]? = some a) (hb : level[2 * k + 1]? = some b) :
    (nextLevel node level)[k]? = some (node a b) := by
  induction k generalizing level with
  | zero =>
    rcases level with _ | ⟨x, _ | ⟨y, rest⟩⟩
    · simp at ha
    · simp at hb
    · have hx : x = a := by simpa using ha
      have hy : y = b := by simpa using hb
      rw [nextLevel, List.getElem?_cons_zero, hx, hy]
  | succ k ih =>
    rcases level with _ | ⟨x, _ | ⟨y, rest⟩⟩
    · simp at ha
    · simp at hb
    · rw [nextLevel, List.getElem?_cons_succ]
      exact ih ha hb

theorem nextLevel_map {node : δ → δ → δ} {node' : ε → ε → ε} {f : δ → ε}
    (hf : ∀ a b, f (node a b) = node' (f a) (f b)) :
    ∀ level : List δ, (nextLevel node level).map f = nextLevel node' (level.map f)
  | a :: b :: rest => by
    simp only [nextLevel, List.map_cons, hf, nextLevel_map hf rest]
  | [a] => rfl
  | [] => rfl

/-- The root of a level; none for the empty level. -/
def root (node : δ → δ → δ) (level : List δ) : Option δ :=
  if 1 < level.length then root node (nextLevel node level) else level.head?
  termination_by level.length
  decreasing_by rw [length_nextLevel]; omega

theorem root_of_lt {node : δ → δ → δ} {level : List δ} (h : 1 < level.length) :
    root node level = root node (nextLevel node level) := by
  rw [root, if_pos h]

theorem root_of_le {node : δ → δ → δ} {level : List δ} (h : level.length ≤ 1) :
    root node level = level.head? := by
  rw [root, if_neg (by omega)]

/-- A non-empty level has a root. -/
theorem exists_root {node : δ → δ → δ} {level : List δ} (h : level ≠ []) :
    ∃ r, root node level = some r := by
  induction level using root.induct node with
  | case1 level hlt ih =>
    have hnext : nextLevel node level ≠ [] := by
      intro hnil
      have hlen := length_nextLevel node level
      rw [hnil, List.length_nil] at hlen
      omega
    rw [root_of_lt hlt]
    exact ih hnext
  | case2 level hle =>
    rw [root_of_le (by omega)]
    obtain ⟨a, rest, rfl⟩ := List.exists_cons_of_ne_nil h
    exact ⟨a, rfl⟩

/-! ### Splitting at a power of two -/

theorem root_nextLevel (node : δ → δ → δ) (level : List δ) :
    root node (nextLevel node level) = root node level := by
  by_cases hlt : 1 < level.length
  · rw [root_of_lt hlt]
  · rcases level with _ | ⟨a, _ | ⟨b, rest⟩⟩
    · rfl
    · rfl
    · rw [List.length_cons, List.length_cons] at hlt
      omega

/-- No pair of an even level reaches into the next one. -/
theorem nextLevel_append (node : δ → δ → δ) (right : List δ) :
    ∀ left : List δ, left.length % 2 = 0 →
      nextLevel node (left ++ right) = nextLevel node left ++ nextLevel node right
  | a :: b :: rest, h => by
    have hrest : rest.length % 2 = 0 := by
      rw [List.length_cons, List.length_cons] at h
      omega
    simp only [List.cons_append, nextLevel, nextLevel_append node right rest hrest]
  | [a], h => absurd h (by simp)
  | [], _ => rfl

/-- A full tree on the left, and on the right no more leaves than it has. -/
theorem root_append {node : δ → δ → δ} {left right : List δ} {k : ℕ} {a b : δ}
    (hleft : left.length = 2 ^ k) (hright : right.length ≤ 2 ^ k) (ha : root node left = some a)
    (hb : root node right = some b) : root node (left ++ right) = some (node a b) := by
  induction k generalizing left right with
  | zero =>
    rw [root_of_le hleft.le] at ha
    rw [root_of_le hright] at hb
    obtain ⟨x, rfl⟩ := List.length_eq_one_iff.mp hleft
    rcases right with _ | ⟨y, _ | ⟨z, rest⟩⟩
    · exact absurd hb (by simp)
    · rw [List.head?_cons, Option.some_inj] at ha hb
      rw [ha, hb, root_of_lt (by simp)]
      exact root_of_le (le_refl 1)
    · rw [List.length_cons, List.length_cons] at hright
      omega
  | succ k ih =>
    -- one level up, both sides halve
    rw [Nat.pow_succ] at hleft hright
    have heven : left.length % 2 = 0 := by omega
    rw [← root_nextLevel, nextLevel_append node right left heven]
    rw [← root_nextLevel] at ha hb
    refine ih ?_ ?_ ha hb
    · rw [length_nextLevel]
      omega
    · rw [length_nextLevel]
      omega

/-- The index next to `i` in its pair. -/
def sibling (i : ℕ) : ℕ := if i % 2 = 0 then i + 1 else i - 1

theorem sibling_even {i : ℕ} (h : i % 2 = 0) : sibling i = i + 1 := if_pos h

theorem sibling_odd {i : ℕ} (h : i % 2 = 1) : sibling i = i - 1 := if_neg (by omega)

/-- The siblings met on the way up from index `i`. -/
def authPath (node : δ → δ → δ) (level : List δ) (i : ℕ) : List δ :=
  if 1 < level.length then
    (level[sibling i]?).toList ++ authPath node (nextLevel node level) (i / 2)
  else []
  termination_by level.length
  decreasing_by rw [length_nextLevel]; omega

theorem authPath_of_lt {node : δ → δ → δ} {level : List δ} {i : ℕ} (h : 1 < level.length) :
    authPath node level i
      = (level[sibling i]?).toList ++ authPath node (nextLevel node level) (i / 2) := by
  rw [authPath, if_pos h]

theorem authPath_of_le {node : δ → δ → δ} {level : List δ} {i : ℕ} (h : level.length ≤ 1) :
    authPath node level i = [] := by
  rw [authPath, if_neg (by omega)]

/-- Recompute a root: one bit of the index for each sibling. -/
def foldPath (node : δ → δ → δ) (i : ℕ) (current : δ) : List δ → δ
  | [] => current
  | s :: rest =>
    foldPath node (i / 2) (if i % 2 = 0 then node current s else node s current) rest

theorem root_map {node : δ → δ → δ} {node' : ε → ε → ε} {f : δ → ε}
    (hf : ∀ a b, f (node a b) = node' (f a) (f b)) (level : List δ) :
    (root node level).map f = root node' (level.map f) := by
  induction level using root.induct node with
  | case1 level h ih =>
    have hmap : 1 < (level.map f).length := by rwa [List.length_map]
    rw [root_of_lt h, ih, nextLevel_map hf, ← root_of_lt hmap]
  | case2 level h =>
    have hmap : (level.map f).length ≤ 1 := by rw [List.length_map]; omega
    rw [root_of_le (by omega), root_of_le hmap, List.head?_map]

theorem authPath_map {node : δ → δ → δ} {node' : ε → ε → ε} {f : δ → ε}
    (hf : ∀ a b, f (node a b) = node' (f a) (f b)) (level : List δ) (i : ℕ) :
    (authPath node level i).map f = authPath node' (level.map f) i := by
  induction level, i using authPath.induct node with
  | case1 level i h ih =>
    have hmap : 1 < (level.map f).length := by rwa [List.length_map]
    rw [authPath_of_lt h, authPath_of_lt hmap, List.map_append, ih, nextLevel_map hf,
      List.getElem?_map, Option.toList_map]
  | case2 level i h =>
    have hmap : (level.map f).length ≤ 1 := by rw [List.length_map]; omega
    rw [authPath_of_le (by omega), authPath_of_le hmap, List.map_nil]

theorem foldPath_map {node : δ → δ → δ} {node' : ε → ε → ε} {f : δ → ε}
    (hf : ∀ a b, f (node a b) = node' (f a) (f b)) (path : List δ) (i : ℕ) (x : δ) :
    f (foldPath node i x path) = foldPath node' i (f x) (path.map f) := by
  induction path generalizing i x with
  | nil => rfl
  | cons s rest ih =>
    rw [foldPath, ih, List.map_cons, foldPath]
    by_cases hi : i % 2 = 0
    · rw [if_pos hi, if_pos hi, hf]
    · rw [if_neg hi, if_neg hi, hf]

/-! ### Paired paths -/

/-- The number of digests on level `j` above a level of `n`. -/
def levelSize (n : ℕ) : ℕ → ℕ
  | 0 => n
  | j + 1 => (levelSize n j + 1) / 2

theorem levelSize_succ (n j : ℕ) : levelSize n (j + 1) = levelSize ((n + 1) / 2) j := by
  induction j with
  | zero => rfl
  | succ j ih => rw [levelSize, ih, levelSize]

theorem levelSize_le_one {n : ℕ} (h : n ≤ 1) (j : ℕ) : levelSize n j ≤ 1 := by
  induction j with
  | zero => exact h
  | succ j ih =>
    rw [levelSize]
    omega

/-- The node above index `i` has a sibling on every level below the root. -/
def Paired (n i : ℕ) : Prop :=
  ∀ j, 1 < levelSize n j → sibling (i / 2 ^ j) < levelSize n j

theorem paired_of_le_one {n : ℕ} (h : n ≤ 1) (i : ℕ) : Paired n i := by
  intro j hj
  have := levelSize_le_one h j
  omega

theorem paired_iff {n i : ℕ} (h : 1 < n) :
    Paired n i ↔ sibling i < n ∧ Paired ((n + 1) / 2) (i / 2) := by
  constructor
  · intro hp
    refine ⟨by simpa [levelSize] using hp 0 h, ?_⟩
    intro j hj
    rw [← levelSize_succ] at hj ⊢
    rw [Nat.div_div_eq_div_mul, ← Nat.pow_succ']
    exact hp (j + 1) hj
  · rintro ⟨h0, hp⟩ j hj
    rcases j with _ | j
    · simpa [levelSize] using h0
    · rw [levelSize_succ] at hj ⊢
      rw [Nat.pow_succ', ← Nat.div_div_eq_div_mul]
      exact hp j hj

/-- One step up a paired level. -/
theorem nextLevel_getElem?_half {node : δ → δ → δ} {level : List δ} {i : ℕ} {x s : δ}
    (hx : level[i]? = some x) (hs : level[sibling i]? = some s) :
    (nextLevel node level)[i / 2]? = some (if i % 2 = 0 then node x s else node s x) := by
  by_cases hi : i % 2 = 0
  · rw [sibling_even hi] at hs
    rw [if_pos hi]
    refine nextLevel_getElem?_pair node ?_ ?_
    · rwa [show 2 * (i / 2) = i by omega]
    · rwa [show 2 * (i / 2) = i by omega]
  · rw [sibling_odd (by omega)] at hs
    rw [if_neg hi]
    refine nextLevel_getElem?_pair node ?_ ?_
    · rwa [show 2 * (i / 2) = i - 1 by omega]
    · rwa [show 2 * (i / 2) + 1 = i by omega]

/-- A path that is paired on every level recomputes the root. -/
theorem root_eq_foldPath {node : δ → δ → δ} {level : List δ} {i : ℕ} {x : δ}
    (hx : level[i]? = some x) (hp : Paired level.length i) :
    root node level = some (foldPath node i x (authPath node level i)) := by
  induction level, i using authPath.induct node generalizing x with
  | case1 level i h ih =>
    obtain ⟨hs, hp'⟩ := (paired_iff h).mp hp
    have hs' : level[sibling i]? = some level[sibling i] := List.getElem?_eq_getElem hs
    rw [root_of_lt h, authPath_of_lt h, hs']
    refine ih (nextLevel_getElem?_half hx hs') ?_
    rwa [length_nextLevel]
  | case2 level i h =>
    have hi : i < level.length := (List.getElem?_eq_some_iff.mp hx).choose
    obtain rfl : i = 0 := by omega
    rw [root_of_le (by omega), authPath_of_le (by omega), foldPath, ← hx, List.head?_eq_getElem?]

/-! ### The right spine -/

/-- Length of the right spine: a node is one longer than its right child. -/
def spineNode (_ b : ℕ) : ℕ := b + 1

/-- A level at height `h` whose last node has spine `e`. -/
def spineLevel (k h e : ℕ) : List ℕ := List.replicate k h ++ [e]

@[simp] theorem length_spineLevel (k h e : ℕ) : (spineLevel k h e).length = k + 1 := by
  simp [spineLevel]

theorem spineLevel_getElem?_lt {k h e j : ℕ} (hj : j < k) : (spineLevel k h e)[j]? = some h := by
  rw [spineLevel, List.getElem?_append_left (by simpa using hj)]
  simp [hj]

theorem spineLevel_getElem?_last (k h e : ℕ) : (spineLevel k h e)[k]? = some e := by
  simp [spineLevel]

theorem nextLevel_spineLevel (k h e : ℕ) :
    nextLevel spineNode (spineLevel k h e)
      = spineLevel (k / 2) (h + 1) (if k % 2 = 1 then e + 1 else e) := by
  induction k using Nat.twoStepInduction with
  | zero => rfl
  | one => rfl
  | more k ih _ =>
    rw [show spineLevel (k + 2) h e = h :: h :: spineLevel k h e from rfl, nextLevel, ih,
      show (k + 2) / 2 = k / 2 + 1 by omega, show (k + 2) % 2 = k % 2 by omega]
    rfl

theorem root_spineLevel {k h e : ℕ} (hk : 0 < k) :
    root spineNode (spineLevel k h e)
      = root spineNode (spineLevel (k / 2) (h + 1) (if k % 2 = 1 then e + 1 else e)) := by
  rw [root_of_lt (by rw [length_spineLevel]; omega), nextLevel_spineLevel]

theorem authPath_spineLevel {k h e : ℕ} (i : ℕ) (hk : 0 < k) :
    authPath spineNode (spineLevel k h e) i
      = ((spineLevel k h e)[sibling i]?).toList ++
        authPath spineNode (spineLevel (k / 2) (h + 1) (if k % 2 = 1 then e + 1 else e))
          (i / 2) := by
  rw [authPath_of_lt (by rw [length_spineLevel]; omega), nextLevel_spineLevel]

/-- The last node of an even level meets a sibling. -/
theorem authPath_spineLevel_odd {k h e : ℕ} (hk : k % 2 = 1) :
    authPath spineNode (spineLevel k h e) k
      = h :: authPath spineNode (spineLevel (k / 2) (h + 1) (e + 1)) (k / 2) := by
  rw [authPath_spineLevel k (by omega), if_pos hk, sibling_odd hk,
    spineLevel_getElem?_lt (by omega)]
  rfl

/-- The last node of an odd level is promoted. -/
theorem authPath_spineLevel_even {k h e : ℕ} (hpos : 0 < k) (hk : k % 2 = 0) :
    authPath spineNode (spineLevel k h e) k
      = authPath spineNode (spineLevel (k / 2) (h + 1) e) (k / 2) := by
  rw [authPath_spineLevel k hpos, if_neg (by omega), sibling_even hk,
    List.getElem?_eq_none (by simp)]
  rfl

/-- Once the recomputed spine is above the true one, it stays above: on either
side of a full-height sibling it grows at least as much. -/
theorem root_lt_foldPath_of_lt {k h e c : ℕ} (i : ℕ) (hec : e < c) (hch : c ≤ h) :
    ∃ r, root spineNode (spineLevel k h e) = some r ∧
      r < foldPath spineNode i c (authPath spineNode (spineLevel k h e) k) := by
  induction k using Nat.strongRecOn generalizing h e c i with
  | _ k ih =>
    rcases Nat.eq_zero_or_pos k with rfl | hpos
    · refine ⟨e, root_of_le (by simp), ?_⟩
      rwa [authPath_of_le (by simp), foldPath]
    · rcases Nat.mod_two_eq_zero_or_one k with hk | hk
      · rw [root_spineLevel hpos, if_neg (by omega), authPath_spineLevel_even hpos hk]
        exact ih (k / 2) (by omega) i hec (by omega)
      · rw [root_spineLevel hpos, if_pos hk, authPath_spineLevel_odd hk, foldPath]
        refine ih (k / 2) (by omega) (i / 2) ?_ ?_
        · unfold spineNode
          split <;> omega
        · unfold spineNode
          split <;> omega

/-- A promoted node that still has the true spine meets its first sibling on the
wrong side. -/
theorem root_lt_foldPath_of_even {k h e : ℕ} {i : ℕ} (hpos : 0 < k) (hi : i % 2 = 0)
    (heh : e < h) :
    ∃ r, root spineNode (spineLevel k h e) = some r ∧
      r < foldPath spineNode i e (authPath spineNode (spineLevel k h e) k) := by
  induction k using Nat.strongRecOn generalizing h e with
  | _ k ih =>
    rcases Nat.mod_two_eq_zero_or_one k with hk | hk
    · rw [root_spineLevel hpos, if_neg (by omega), authPath_spineLevel_even hpos hk]
      exact ih (k / 2) (by omega) (by omega) (by omega)
    · rw [root_spineLevel hpos, if_pos hk, authPath_spineLevel_odd hk, foldPath, if_pos hi]
      refine root_lt_foldPath_of_lt (i / 2) ?_ ?_
      · unfold spineNode
        omega
      · unfold spineNode
        omega

/-- An unpaired path recomputes a spine above the root's. -/
theorem root_lt_foldPath {k h e i x : ℕ} (heh : e ≤ h) (hx : (spineLevel k h e)[i]? = some x)
    (hp : ¬ Paired (k + 1) i) :
    ∃ r, root spineNode (spineLevel k h e) = some r ∧
      r < foldPath spineNode i x (authPath spineNode (spineLevel k h e) i) := by
  induction k using Nat.strongRecOn generalizing h e i x with
  | _ k ih =>
    have hik : i < k + 1 := by
      simpa using (List.getElem?_eq_some_iff.mp hx).choose
    rcases Nat.eq_zero_or_pos k with rfl | hpos
    · exact absurd (paired_of_le_one (by omega) i) hp
    · by_cases hs : sibling i < k + 1
      · -- paired here: the promotion is on a level above
        have hp' : ¬ Paired (k / 2 + 1) (i / 2) := by
          rw [show k / 2 + 1 = (k + 1 + 1) / 2 by omega]
          exact fun hc => hp ((paired_iff (by omega)).mpr ⟨hs, hc⟩)
        obtain ⟨s, hs'⟩ : ∃ s, (spineLevel k h e)[sibling i]? = some s :=
          ⟨_, List.getElem?_eq_getElem (by simpa using hs)⟩
        have hup : (nextLevel spineNode (spineLevel k h e))[i / 2]? = _ :=
          nextLevel_getElem?_half hx hs'
        rw [nextLevel_spineLevel] at hup
        rw [root_spineLevel hpos, authPath_spineLevel i hpos, hs']
        refine ih (k / 2) (by omega) ?_ hup hp'
        split <;> omega
      · -- promoted here: `i` is the last node and its index is even
        have hi : i % 2 = 0 := by
          by_contra hodd
          rw [sibling_odd (by omega)] at hs
          omega
        rw [sibling_even hi] at hs
        obtain rfl : i = k := by omega
        obtain rfl : x = e := by
          rw [spineLevel_getElem?_last] at hx
          exact (Option.some.inj hx).symm
        rw [root_spineLevel hpos, if_neg (by omega), authPath_spineLevel_even hpos hi]
        exact root_lt_foldPath_of_even (by omega) hi (by omega)

theorem mem_nextLevel_le {h : ℕ} :
    ∀ {level : List ℕ}, (∀ x ∈ level, x ≤ h) → ∀ x ∈ nextLevel spineNode level, x ≤ h + 1
  | [], _, x, hx => absurd hx (by simp [nextLevel])
  | [a], hle, x, hx => by
    rw [nextLevel, List.mem_singleton] at hx
    have := hle a (by simp)
    omega
  | a :: b :: rest, hle, x, hx => by
    rw [nextLevel] at hx
    rcases List.mem_cons.mp hx with rfl | hx
    · have := hle b (by simp)
      unfold spineNode
      omega
    · exact mem_nextLevel_le (fun y hy => hle y (by simp [hy])) x hx

/-- A recomputed spine is at most the height of the tree. -/
theorem foldPath_le {level : List ℕ} {h i c : ℕ} (j : ℕ) (hle : ∀ x ∈ level, x ≤ h) (hc : c ≤ h) :
    foldPath spineNode i c (authPath spineNode level j) ≤ h + Nat.clog 2 level.length := by
  induction level, j using authPath.induct spineNode generalizing h i c with
  | case1 level j hlt ih =>
    have hclog : Nat.clog 2 level.length = Nat.clog 2 (nextLevel spineNode level).length + 1 := by
      rw [length_nextLevel, Nat.clog_of_two_le (by omega) (by omega)]
      rfl
    have hnext := mem_nextLevel_le hle
    rw [authPath_of_lt hlt, hclog, ← Nat.add_assoc, Nat.add_right_comm]
    rcases hs : level[sibling j]? with _ | s
    · exact ih hnext (by omega)
    · have hsh : s ≤ h := hle s (List.mem_of_getElem? hs)
      refine ih hnext ?_
      unfold spineNode
      split <;> omega
  | case2 level j hlt =>
    rw [authPath_of_le (by omega), foldPath]
    omega

section

variable {δ : Type*} {node : δ → δ → δ} {f : δ → ℕ} {level : List δ} {i : ℕ} {x : δ}

theorem map_eq_spineLevel (hzero : ∀ y ∈ level, f y = 0) (hx : level[i]? = some x) :
    level.map f = spineLevel (level.length - 1) 0 0 := by
  have hi : i < level.length := (List.getElem?_eq_some_iff.mp hx).choose
  rw [spineLevel, ← List.replicate_succ', Nat.sub_add_cancel (by omega),
    List.map_eq_replicate_iff]
  exact hzero

/-- So for any digests that measure spines, over leaves without one. -/
theorem exists_root_lt_foldPath (hnode : ∀ a b, f (node a b) = spineNode (f a) (f b))
    (hzero : ∀ y ∈ level, f y = 0) (hx : level[i]? = some x) (hp : ¬ Paired level.length i) :
    ∃ r, root node level = some r ∧ f r < f (foldPath node i x (authPath node level i)) := by
  have hi : i < level.length := (List.getElem?_eq_some_iff.mp hx).choose
  have hlevel := map_eq_spineLevel hzero hx
  have hspine : (spineLevel (level.length - 1) 0 0)[i]? = some (f x) := by
    rw [← hlevel, List.getElem?_map, hx, Option.map_some]
  obtain ⟨r, hr, hlt⟩ := root_lt_foldPath (Nat.le_refl 0) hspine
    (by rwa [Nat.sub_add_cancel (by omega)])
  rw [← hlevel, ← root_map hnode] at hr
  rw [← hlevel, ← authPath_map hnode, ← foldPath_map hnode] at hlt
  obtain ⟨y, hy, rfl⟩ := Option.map_eq_some_iff.mp hr
  exact ⟨y, hy, hlt⟩

/-- Recomputed, such a spine is at most the height of the tree. -/
theorem spine_foldPath_le (hnode : ∀ a b, f (node a b) = spineNode (f a) (f b))
    (hzero : ∀ y ∈ level, f y = 0) (hx : level[i]? = some x) :
    f (foldPath node i x (authPath node level i)) ≤ Nat.clog 2 level.length := by
  have hle : ∀ h ∈ level.map f, h ≤ 0 := by
    intro h hh
    obtain ⟨y, hy, rfl⟩ := List.mem_map.mp hh
    exact (hzero y hy).le
  have hbound := foldPath_le (i := i) i hle (hzero x (List.mem_of_getElem? hx)).le
  rwa [Nat.zero_add, List.length_map, ← authPath_map hnode, ← foldPath_map hnode] at hbound

end

end HashTree
