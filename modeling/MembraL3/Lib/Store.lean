/-
Keyed stores.

A `Store K V` is an association list without repeated keys (Mathlib's `AList`),
with the one update that `m[k] = v` and a write through a reference perform:
`assign` overwrites the value in place when the key is present and adds the key
otherwise.  The key list of a store therefore only changes when a new key is
added.

`total f m` is the sum of `f` over the stored values:

* `total_assign_new`, `total_assign_of_lookup` — how one assignment changes it;
* `total_erase_of_lookup` — and the removal of a key;
* `total_assign_erase` — the total after an assignment, from the other keys;
* `total_congr`, `total_le_total` — comparison of two shares;
* `sum_le_total`, `le_total_of_lookup` — comparison with the weights of some keys;
* `count p m` — the number of stored values with `p`, a special case;
* `count_le_size`, `count_le_card` — at most all of them, and at most as many as there
  are keys for them.

`sortedEntries m` and `sortedValues m` are the entries and values as an ordered map
iterates them:

* `map_sortedEntries_eq_iff` — when two maps are iterated alike;
* `countP_sortedValues`, `foldl_insert_eq` — the loops that count and collect;
* `eq_of_mem_iff_of_ascending` — one list is in strictly ascending order.

`map f m` applies `f` to every value, as a loop through references to them does.

`Evolves R m m'` says that all values of `m` are still there in `m'`, changed only
as `R` allows:

* `evolves_assign_new`, `evolves_assign` — after a new key, and after a write;
* `Evolves.refl`, `Evolves.trans` — over many updates.

`Adds k m m'` says that `m'` is `m` with one more key (`adds_assign_iff`).
-/
import Mathlib.Data.List.AList
import Mathlib.Data.List.Sort
import Mathlib.Data.Finset.Card
import Mathlib.Algebra.BigOperators.Group.List.Basic
import Mathlib.Algebra.Order.BigOperators.Group.List
import Mathlib.Algebra.Order.Ring.Nat
import Mathlib.Tactic.Common

/-- A finite map, as an association list without repeated keys. -/
abbrev Store (K V : Type*) := AList fun _ : K => V

namespace Store

variable {K V : Type*}

/-- The stored values, in the order of their keys. -/
def values (m : Store K V) : List V := m.entries.map Sigma.snd

/-- The stored values in the order of their keys, as an ordered map iterates them. -/
def sortedValues [LinearOrder K] (m : Store K V) : List V :=
  (m.entries.insertionSort fun a b => a.1 ≤ b.1).map Sigma.snd

/-- The same with their keys. -/
def sortedEntries [LinearOrder K] (m : Store K V) : List (K × V) :=
  (m.entries.insertionSort fun a b => a.1 ≤ b.1).map fun e => (e.1, e.2)

/-- The number of stored values. -/
def size (m : Store K V) : ℕ := m.keys.length

/-- The sum of `f` over the stored values. -/
def total {M : Type*} [AddCommMonoid M] (f : V → M) (m : Store K V) : M :=
  (m.values.map f).sum

/-- The number of stored values with `p`. -/
def count (p : V → Bool) (m : Store K V) : ℕ := total (fun v => if p v then 1 else 0) m

theorem total_add {M : Type*} [AddCommMonoid M] (f g : V → M) (m : Store K V) :
    total (fun v => f v + g v) m = total f m + total g m :=
  List.sum_map_add

theorem count_eq_length (p : V → Bool) (m : Store K V) :
    count p m = (m.entries.filter fun e => p e.2).length := by
  rw [count, total, values, List.map_map]
  induction m.entries with
  | nil => rfl
  | cons e l ih =>
    rw [List.map_cons, List.sum_cons, ih, List.filter_cons, Function.comp_apply]
    by_cases hp : p e.2 = true
    · rw [if_pos hp, if_pos hp, List.length_cons, add_comm]
    · rw [if_neg hp, if_neg hp, zero_add]

theorem sortedValues_perm [LinearOrder K] (m : Store K V) : m.sortedValues.Perm m.values := by
  rw [sortedValues, values]
  exact (List.perm_insertionSort (fun a b : Sigma fun _ : K => V => a.1 ≤ b.1)
    m.entries).map Sigma.snd

theorem mem_sortedValues_iff [LinearOrder K] {m : Store K V} {v : V} :
    v ∈ m.sortedValues ↔ v ∈ m.values := m.sortedValues_perm.mem_iff

theorem length_sortedValues [LinearOrder K] (m : Store K V) : m.sortedValues.length = size m := by
  rw [m.sortedValues_perm.length_eq, values, List.length_map, size, AList.keys, List.keys,
    List.length_map]

/-- The loop over an ordered map that counts its values. -/
theorem countP_sortedValues [LinearOrder K] (p : V → Bool) (m : Store K V) :
    m.sortedValues.countP p = count p m := by
  rw [m.sortedValues_perm.countP_eq, count_eq_length, values, List.countP_map,
    List.countP_eq_length_filter]
  rfl

/-- The loop that collects what the values are mapped to. -/
theorem foldl_insert_eq {W : Type*} [DecidableEq W] (f : V → W) (l : List V) (s : Finset W) :
    l.foldl (fun s v => insert (f v) s) s = s ∪ (l.map f).toFinset := by
  induction l generalizing s with
  | nil => rw [List.foldl_nil, List.map_nil, List.toFinset_nil, Finset.union_empty]
  | cons v l ih =>
    rw [List.foldl_cons, ih, List.map_cons, List.toFinset_cons, Finset.insert_union,
      Finset.union_insert]

theorem map_snd_sortedEntries [LinearOrder K] (m : Store K V) :
    m.sortedEntries.map Prod.snd = m.sortedValues := by
  rw [sortedEntries, List.map_map]
  rfl

theorem pairwise_sortedEntries [LinearOrder K] (m : Store K V) :
    m.sortedEntries.Pairwise fun e e' => e.1 < e'.1 := by
  have hperm := List.perm_insertionSort (fun a b : Sigma fun _ : K => V => a.1 ≤ b.1) m.entries
  have hsorted :=
    List.pairwise_insertionSort (fun a b : Sigma fun _ : K => V => a.1 ≤ b.1) m.entries
  have hkeys : (m.entries.insertionSort fun a b => a.1 ≤ b.1).Pairwise fun e e' => e.1 ≠ e'.1 := by
    have hnodup := (hperm.map Sigma.fst).nodup_iff.mpr m.nodupKeys
    exact List.pairwise_map.mp hnodup
  rw [sortedEntries, List.pairwise_map]
  exact (hsorted.and hkeys).imp fun h => lt_of_le_of_ne h.1 h.2

/-- In strictly ascending order of their keys, the same values make the same list. -/
theorem eq_of_mem_iff_of_ascending [LinearOrder K] {key : V → K} {l l' : List V}
    (hl : l.Pairwise fun v w => key v < key w) (hl' : l'.Pairwise fun v w => key v < key w)
    (hmem : ∀ v, v ∈ l ↔ v ∈ l') : l = l' := by
  have hirrefl : Std.Irrefl fun v w => key v < key w := ⟨fun v => lt_irrefl (key v)⟩
  have hantisymm : Std.Antisymm fun v w => key v < key w :=
    ⟨fun _ _ hlt hgt => absurd hgt hlt.asymm⟩
  exact hl.eq_of_mem_iff hl' hmem

/-- `for (auto& entry : m) entry.second = f(entry.second)`. -/
def map (f : V → V) (m : Store K V) : Store K V :=
  ⟨m.entries.map fun e => ⟨e.1, f e.2⟩, m.nodupKeys.map₂ (fun _ => f) m.entries⟩

@[simp] theorem keys_map (f : V → V) (m : Store K V) : (m.map f).keys = m.keys := by
  rw [AList.keys, AList.keys, map, List.keys, List.map_map]
  rfl

variable [DecidableEq K]

@[simp] theorem lookup_map (f : V → V) (m : Store K V) (k : K) :
    (m.map f).lookup k = (m.lookup k).map f :=
  List.dlookup_map₂ (f := fun _ => f) k

/-! ### Assignment -/

theorem dlookup_cons_skip {k a : K} (w : V) (l : List (Sigma fun _ : K => V)) (h : k ≠ a) :
    List.dlookup k (⟨a, w⟩ :: l) = l.dlookup k :=
  List.dlookup_cons_ne _ _ h

theorem kreplace_cons_self (k : K) (v w : V) (l : List (Sigma fun _ : K => V)) :
    List.kreplace k v (⟨k, w⟩ :: l) = ⟨k, v⟩ :: l :=
  List.lookmap_cons_some _ _ (by simp)

theorem kreplace_cons_ne {k a : K} (v w : V) (l : List (Sigma fun _ : K => V)) (hk : k ≠ a) :
    List.kreplace k v (⟨a, w⟩ :: l) = ⟨a, w⟩ :: l.kreplace k v :=
  List.lookmap_cons_none _ _ (by simp [hk])

theorem dlookup_kreplace_self {k : K} {v w : V} {l : List (Sigma fun _ : K => V)}
    (h : l.dlookup k = some w) : (l.kreplace k v).dlookup k = some v := by
  induction l with
  | nil => exact absurd h (by simp)
  | cons e l ih =>
    obtain ⟨a, b⟩ := e
    by_cases hk : k = a
    · subst hk
      rw [kreplace_cons_self, List.dlookup_cons_eq]
    · rw [dlookup_cons_skip _ _ hk] at h
      rw [kreplace_cons_ne v b l hk, dlookup_cons_skip _ _ hk, ih h]

theorem dlookup_kreplace_ne {k k' : K} {v : V} {l : List (Sigma fun _ : K => V)}
    (hne : k' ≠ k) : (l.kreplace k v).dlookup k' = l.dlookup k' := by
  induction l with
  | nil => rfl
  | cons e l ih =>
    obtain ⟨a, b⟩ := e
    by_cases hk : k = a
    · subst hk
      rw [kreplace_cons_self, dlookup_cons_skip _ _ hne, dlookup_cons_skip _ _ hne]
    · rw [kreplace_cons_ne v b l hk]
      by_cases ha : k' = a
      · subst ha
        rw [List.dlookup_cons_eq, List.dlookup_cons_eq]
      · rw [dlookup_cons_skip _ _ ha, dlookup_cons_skip _ _ ha, ih]

/-- `m[k] = v`: overwrite in place, or add a new key. -/
def assign (m : Store K V) (k : K) (v : V) : Store K V :=
  if k ∈ m then m.replace k v else m.insert k v

@[simp] theorem lookup_assign_self (m : Store K V) (k : K) (v : V) :
    (m.assign k v).lookup k = some v := by
  unfold assign
  by_cases hk : k ∈ m
  · rw [if_pos hk]
    obtain ⟨w, hw⟩ := Option.isSome_iff_exists.mp (AList.lookup_isSome.mpr hk)
    exact dlookup_kreplace_self hw
  · rw [if_neg hk, AList.lookup_insert]

theorem lookup_assign_ne (m : Store K V) {k k' : K} (v : V) (hne : k' ≠ k) :
    (m.assign k v).lookup k' = m.lookup k' := by
  unfold assign
  by_cases hk : k ∈ m
  · rw [if_pos hk]
    exact dlookup_kreplace_ne hne
  · rw [if_neg hk, AList.lookup_insert_ne hne]

theorem lookup_assign (m : Store K V) (k k' : K) (v : V) :
    (m.assign k v).lookup k' = if k' = k then some v else m.lookup k' := by
  by_cases hk : k' = k
  · rw [if_pos hk, hk, lookup_assign_self]
  · rw [if_neg hk, lookup_assign_ne m v hk]

/-- A value that is found after an assignment is the new one, or was there before. -/
theorem of_lookup_assign {m : Store K V} {k k' : K} {v w : V}
    (h : (m.assign k v).lookup k' = some w) : k' = k ∧ w = v ∨ m.lookup k' = some w := by
  rw [lookup_assign] at h
  by_cases hk : k' = k
  · rw [if_pos hk, Option.some.injEq] at h
    exact .inl ⟨hk, h.symm⟩
  · rw [if_neg hk] at h
    exact .inr h

theorem keys_assign_of_mem {m : Store K V} {k : K} (v : V) (hk : k ∈ m) :
    (m.assign k v).keys = m.keys := by
  rw [assign, if_pos hk, AList.keys_replace]

theorem keys_assign_of_notMem {m : Store K V} {k : K} (v : V) (hk : k ∉ m) :
    (m.assign k v).keys = k :: m.keys := by
  rw [assign, if_neg hk, AList.insert_of_notMem hk]
  rfl

theorem mem_of_lookup {m : Store K V} {k : K} {v : V} (h : m.lookup k = some v) : k ∈ m :=
  AList.lookup_isSome.mp (by rw [h]; rfl)

@[simp] theorem mem_assign {m : Store K V} {k k' : K} {v : V} :
    k' ∈ m.assign k v ↔ k' = k ∨ k' ∈ m := by
  rw [← AList.lookup_isSome, ← AList.lookup_isSome, lookup_assign]
  by_cases hk : k' = k
  · simp [hk]
  · simp [hk]

/-- Writing under a key that is there adds none. -/
theorem mem_assign_of_lookup {m : Store K V} {k k' : K} {v w : V} (h : m.lookup k = some w) :
    k' ∈ m.assign k v ↔ k' ∈ m := by
  rw [mem_assign]
  refine or_iff_right_of_imp ?_
  rintro rfl
  exact mem_of_lookup h

theorem mem_values_iff {m : Store K V} {v : V} : v ∈ m.values ↔ ∃ k, m.lookup k = some v := by
  constructor
  · intro hv
    obtain ⟨⟨k, w⟩, he, rfl⟩ := List.mem_map.mp hv
    exact ⟨k, AList.mem_lookup_iff.mpr he⟩
  · rintro ⟨k, hk⟩
    exact List.mem_map.mpr ⟨⟨k, v⟩, AList.mem_lookup_iff.mp hk, rfl⟩

/-! ### In the order of the keys -/

section Sorted

variable {W : Type*} {m m' : Store K V}

theorem mem_sortedEntries_iff [LinearOrder K] {k : K} {v : V} :
    (k, v) ∈ m.sortedEntries ↔ m.lookup k = some v := by
  have hperm := List.perm_insertionSort (fun a b : Sigma fun _ : K => V => a.1 ≤ b.1) m.entries
  rw [sortedEntries, List.mem_map]
  constructor
  · rintro ⟨⟨k, v⟩, he, rfl, rfl⟩
    exact AList.mem_lookup_iff.mpr (hperm.mem_iff.mp he)
  · intro hlookup
    exact ⟨⟨k, v⟩, hperm.mem_iff.mpr (AList.mem_lookup_iff.mp hlookup), rfl⟩

/-- The entries in order are the same exactly if all lookups are. -/
theorem map_sortedEntries_eq_iff [LinearOrder K] (f : V → W) :
    m.sortedEntries.map (fun e => (e.1, f e.2)) = m'.sortedEntries.map (fun e => (e.1, f e.2)) ↔
      ∀ k, (m.lookup k).map f = (m'.lookup k).map f := by
  have hmem : ∀ (m : Store K V) (k : K) (w : W),
      (k, w) ∈ m.sortedEntries.map (fun e => (e.1, f e.2)) ↔ (m.lookup k).map f = some w := by
    intro m k w
    rw [List.mem_map, Option.map_eq_some_iff]
    constructor
    · rintro ⟨⟨k, v⟩, he, rfl, rfl⟩
      exact ⟨v, mem_sortedEntries_iff.mp he, rfl⟩
    · rintro ⟨v, hlookup, rfl⟩
      exact ⟨(k, v), mem_sortedEntries_iff.mpr hlookup, rfl⟩
  constructor
  · intro h k
    refine Option.ext fun w => ?_
    rw [← hmem, h, hmem]
  · intro h
    have hsorted : ∀ m : Store K V, (m.sortedEntries.map fun e => (e.1, f e.2)).Pairwise
        fun e e' => e.1 < e'.1 :=
      fun m => List.pairwise_map.mpr (pairwise_sortedEntries m)
    refine eq_of_mem_iff_of_ascending (hsorted m) (hsorted m') ?_
    rintro ⟨k, w⟩
    rw [hmem, hmem, h]

end Sorted

/-! ### Values that stay -/

/-- Every value stays under its key, changed only as `R` allows. -/
def Evolves (R : K → V → V → Prop) (m m' : Store K V) : Prop :=
  ∀ k v, m.lookup k = some v → ∃ v', m'.lookup k = some v' ∧ R k v v'

section Evolves

variable {R S : K → V → V → Prop} {m m' : Store K V}

theorem Evolves.refl (hR : ∀ k v, R k v v) (m : Store K V) : Evolves R m m :=
  fun k v hv => ⟨v, hv, hR k v⟩

theorem Evolves.trans {m'' : Store K V} (hR : ∀ k u v w, R k u v → R k v w → R k u w)
    (h : Evolves R m m') (h' : Evolves R m' m'') : Evolves R m m'' := by
  intro k u hu
  obtain ⟨v, hv, huv⟩ := h k u hu
  obtain ⟨w, hw, hvw⟩ := h' k v hv
  exact ⟨w, hw, hR k u v w huv hvw⟩

theorem Evolves.imp (hRS : ∀ k v v', R k v v' → S k v v') (h : Evolves R m m') :
    Evolves S m m' := by
  intro k v hv
  obtain ⟨v', hv', hR⟩ := h k v hv
  exact ⟨v', hv', hRS k v v' hR⟩

/-- A new key leaves all values alone. -/
theorem evolves_assign_new (hR : ∀ k v, R k v v) {k : K} (v : V) (hnew : k ∉ m) :
    Evolves R m (m.assign k v) := by
  intro k' v' hv'
  have hne : k' ≠ k := by
    rintro rfl
    exact hnew (mem_of_lookup hv')
  exact ⟨v', by rw [lookup_assign_ne m v hne, hv'], hR k' v'⟩

/-- A write changes one value. -/
theorem evolves_assign (hR : ∀ k v, R k v v) {k : K} {v w : V} (hold : m.lookup k = some v)
    (hvw : R k v w) : Evolves R m (m.assign k w) := by
  intro k' v' hv'
  by_cases hk : k' = k
  · subst hk
    obtain rfl : v = v' := Option.some.inj (hold.symm.trans hv')
    exact ⟨w, lookup_assign_self .., hvw⟩
  · exact ⟨v', by rw [lookup_assign_ne m w hk, hv'], hR k' v'⟩

theorem evolves_map {f : V → V} (hf : ∀ k v, R k v (f v)) : Evolves R m (m.map f) := by
  intro k v hv
  exact ⟨f v, by rw [lookup_map, hv]; rfl, hf k v⟩

end Evolves

/-! ### One more key -/

/-- `m'` has the new key `k` and is otherwise `m`. -/
def Adds (k : K) (m m' : Store K V) : Prop :=
  k ∉ m ∧ k ∈ m' ∧ ∀ k', k' ≠ k → m'.lookup k' = m.lookup k'

theorem adds_assign_iff {m : Store K V} {k : K} (v : V) : Adds k m (m.assign k v) ↔ k ∉ m := by
  constructor
  · exact And.left
  · intro hnew
    exact ⟨hnew, mem_assign.mpr (.inl rfl), fun k' hne => lookup_assign_ne m v hne⟩

/-! ### Totals -/

section Total

variable {M : Type*} [AddCommMonoid M]

theorem total_congr {f g : V → M} {m : Store K V} (h : ∀ k v, m.lookup k = some v → f v = g v) :
    total f m = total g m := by
  unfold total
  congr 1
  refine List.map_congr_left ?_
  intro v hv
  obtain ⟨k, hk⟩ := mem_values_iff.mp hv
  exact h k v hk

/-- A new key adds its value's share. -/
theorem total_assign_new (f : V → M) {m : Store K V} {k : K} (v : V) (h : m.lookup k = none) :
    total f (m.assign k v) = f v + total f m := by
  have hk : k ∉ m := AList.lookup_eq_none.mp h
  rw [assign, if_neg hk, AList.insert_of_notMem hk]
  rfl

theorem sum_kreplace (f : V → M) {k : K} {v w : V} {l : List (Sigma fun _ : K => V)}
    (h : l.dlookup k = some w) :
    (((l.kreplace k v).map Sigma.snd).map f).sum + f w = ((l.map Sigma.snd).map f).sum + f v := by
  induction l with
  | nil => exact absurd h (by simp)
  | cons e l ih =>
    obtain ⟨a, b⟩ := e
    by_cases hk : k = a
    · -- the replaced value is the first one: the shares trade places
      subst hk
      rw [List.dlookup_cons_eq, Option.some_inj] at h
      subst h
      simp only [kreplace_cons_self, List.map_cons, List.sum_cons]
      rw [add_right_comm, add_comm (f v), add_right_comm]
    · rw [dlookup_cons_skip _ _ hk] at h
      simp only [kreplace_cons_ne v b l hk, List.map_cons, List.sum_cons]
      rw [add_assoc, ih h, add_assoc]

/-- Overwriting a value exchanges its share. -/
theorem total_assign_of_lookup (f : V → M) {m : Store K V} {k : K} (v : V) {w : V}
    (h : m.lookup k = some w) : total f (m.assign k v) + f w = total f m + f v := by
  rw [assign, if_pos (mem_of_lookup h)]
  exact sum_kreplace f h

/-- Overwriting a value with one of the same share changes no total. -/
theorem total_assign_eq [IsRightCancelAdd M] (f : V → M) {m : Store K V} {k : K} {v w : V}
    (h : m.lookup k = some w) (hf : f v = f w) : total f (m.assign k v) = total f m := by
  have hsum := total_assign_of_lookup f v h
  rw [hf] at hsum
  exact add_right_cancel hsum

/-- The same, for a key that may be new. -/
theorem total_assign (f : V → M) (m : Store K V) (k : K) (v : V) :
    total f (m.assign k v) + ((m.lookup k).map f).getD 0 = total f m + f v := by
  cases h : m.lookup k with
  | none =>
    rw [total_assign_new f v h, add_comm (f v)]
    exact add_zero _
  | some w => exact total_assign_of_lookup f v h

theorem kerase_cons_self (k : K) (w : V) (l : List (Sigma fun _ : K => V)) :
    List.kerase k (⟨k, w⟩ :: l) = l :=
  List.kerase_cons_eq rfl

theorem kerase_cons_skip {k a : K} (w : V) (l : List (Sigma fun _ : K => V)) (hk : k ≠ a) :
    List.kerase k (⟨a, w⟩ :: l) = ⟨a, w⟩ :: l.kerase k :=
  List.kerase_cons_ne hk

theorem sum_kerase (f : V → M) {k : K} {w : V} {l : List (Sigma fun _ : K => V)}
    (h : l.dlookup k = some w) :
    (((l.kerase k).map Sigma.snd).map f).sum + f w = ((l.map Sigma.snd).map f).sum := by
  induction l with
  | nil => exact absurd h (by simp)
  | cons e l ih =>
    obtain ⟨a, b⟩ := e
    by_cases hk : k = a
    · subst hk
      rw [List.dlookup_cons_eq, Option.some_inj] at h
      subst h
      rw [kerase_cons_self, List.map_cons, List.map_cons, List.sum_cons, add_comm]
    · rw [dlookup_cons_skip _ _ hk] at h
      simp only [kerase_cons_skip b l hk, List.map_cons, List.sum_cons]
      rw [add_assoc, ih h]

/-- Removing a key takes its share away. -/
theorem total_erase_of_lookup (f : V → M) {m : Store K V} {k : K} {w : V}
    (h : m.lookup k = some w) : total f (m.erase k) + f w = total f m :=
  sum_kerase f h

/-- A stored value's share is added to the shares under the other keys. -/
theorem total_assign_erase [IsRightCancelAdd M] (f : V → M) (m : Store K V) (k : K) (v : V) :
    total f (m.assign k v) = total f (m.erase k) + f v := by
  cases h : m.lookup k with
  | none =>
    have herase : total f (m.erase k) = total f m := by
      show (((m.entries.kerase k).map Sigma.snd).map f).sum = _
      rw [List.kerase_of_notMem_keys (AList.lookup_eq_none.mp h)]
      rfl
    rw [total_assign_new f v h, herase, add_comm]
  | some w =>
    have hassign := total_assign_of_lookup f v h
    rw [← total_erase_of_lookup f h, add_right_comm] at hassign
    exact add_right_cancel hassign

end Total

/-- A stored value's share is part of the total. -/
theorem le_total_of_lookup {f : V → ℕ} {m : Store K V} {k : K} {v : V} (h : m.lookup k = some v) :
    f v ≤ total f m := by
  rw [← total_erase_of_lookup f h]
  exact Nat.le_add_left _ _

/-- Weights of distinct stored keys add up to at most the total. -/
theorem sum_le_total {ι : Type*} {f : V → ℕ} {key : ι → K} {weight : ι → ℕ} {l : List ι}
    {m : Store K V} (hkeys : (l.map key).Nodup)
    (hstored : ∀ i ∈ l, ∃ v, m.lookup (key i) = some v ∧ weight i ≤ f v) :
    (l.map weight).sum ≤ total f m := by
  induction l generalizing m with
  | nil => exact Nat.zero_le _
  | cons i l ih =>
    rw [List.map_cons, List.nodup_cons] at hkeys
    obtain ⟨v, hv, hweight⟩ := hstored i (List.mem_cons_self ..)
    have herase := total_erase_of_lookup f hv
    -- the other keys are still stored when this one is removed
    have hrest : (l.map weight).sum ≤ total f (m.erase (key i)) := by
      refine ih hkeys.2 ?_
      intro j hj
      have hne : key j ≠ key i := by
        intro heq
        exact hkeys.1 (heq ▸ List.mem_map_of_mem hj)
      rw [AList.lookup_erase_ne hne]
      exact hstored j (List.mem_cons_of_mem _ hj)
    rw [List.map_cons, List.sum_cons]
    omega

theorem total_le_total {f g : V → ℕ} {m : Store K V}
    (h : ∀ k v, m.lookup k = some v → f v ≤ g v) : total f m ≤ total g m := by
  refine List.sum_le_sum ?_
  intro v hv
  obtain ⟨k, hk⟩ := mem_values_iff.mp hv
  exact h k v hk

/-- Counting is a total. -/
theorem count_assign_new (p : V → Bool) {m : Store K V} {k : K} (v : V) (h : m.lookup k = none) :
    count p (m.assign k v) = (if p v then 1 else 0) + count p m :=
  total_assign_new _ v h

theorem count_assign_of_lookup (p : V → Bool) {m : Store K V} {k : K} (v : V) {w : V}
    (h : m.lookup k = some w) :
    count p (m.assign k v) + (if p w then 1 else 0) = count p m + (if p v then 1 else 0) :=
  total_assign_of_lookup _ v h

/-- The same, for a key that may be new. -/
theorem count_assign (p : V → Bool) (m : Store K V) (k : K) (v : V) :
    count p (m.assign k v) + (if (m.lookup k).any p then 1 else 0)
      = count p m + (if p v then 1 else 0) := by
  cases h : m.lookup k with
  | none =>
    rw [count_assign_new p v h, add_comm (count p m)]
    rfl
  | some w => exact count_assign_of_lookup p v h

/-- A value that does not count makes no count larger. -/
theorem count_assign_le (p : V → Bool) (m : Store K V) (k : K) {v : V} (hv : p v = false) :
    count p (m.assign k v) ≤ count p m := by
  have hcount := count_assign p m k v
  simp only [hv, Bool.false_eq_true, if_false, add_zero] at hcount
  omega

theorem count_le_size (p : V → Bool) (m : Store K V) : count p m ≤ size m := by
  -- the size is the total of ones
  have hone : total (fun _ => 1) m = size m := by
    have hlen : m.values.length = size m := by
      simp [values, size, AList.keys, List.keys]
    rw [total, List.map_const', List.sum_replicate_nat, mul_one, hlen]
  rw [← hone]
  refine total_le_total ?_
  intro k v _
  split <;> omega

/-- Values whose keys are all in a finite set. -/
theorem count_le_card {p : V → Bool} {m : Store K V} {s : Finset K}
    (h : ∀ k v, m.lookup k = some v → p v = true → k ∈ s) : count p m ≤ s.card := by
  have hnodup : ((m.entries.filter fun e => p e.2).map Sigma.fst).Nodup :=
    (List.filter_sublist.map Sigma.fst).nodup m.keys_nodup
  have hlength : count p m = ((m.entries.filter fun e => p e.2).map Sigma.fst).toFinset.card := by
    rw [List.toFinset_card_of_nodup hnodup, List.length_map, count_eq_length]
  rw [hlength]
  refine Finset.card_le_card ?_
  intro k hk
  obtain ⟨⟨k, v⟩, he, rfl⟩ := List.mem_map.mp (List.mem_toFinset.mp hk)
  obtain ⟨hentry, hp⟩ := List.mem_filter.mp he
  exact h k v (AList.mem_lookup_iff.mpr hentry) hp

theorem size_assign_new {m : Store K V} {k : K} (v : V) (h : m.lookup k = none) :
    size (m.assign k v) = size m + 1 := by
  rw [size, keys_assign_of_notMem v (AList.lookup_eq_none.mp h), List.length_cons, size]

theorem size_assign_of_lookup {m : Store K V} {k : K} (v : V) {w : V} (h : m.lookup k = some w) :
    size (m.assign k v) = size m := by
  rw [size, keys_assign_of_mem v (mem_of_lookup h), size]

end Store
