/-
Loops over the keys of a store.

`modify m k f` is a write through a reference to the value under `k`.

* `eq_of_keys_of_lookup` — the keys in their order and what is found under them make
  the store;
* `foldl_modify_keys` — the loop that changes every value, key by key, is `map`;
* `foldl_count_keys` — the loop that counts values is `count`.
-/
import MembraL3.Lib.Store

namespace Store

variable {K V : Type*} [DecidableEq K]

/-- `m[k] = f(m[k])`, if `k` is a key. -/
def modify (m : Store K V) (k : K) (f : V → V) : Store K V :=
  match m.lookup k with
  | none => m
  | some v => m.assign k (f v)

theorem keys_modify (m : Store K V) (k : K) (f : V → V) : (m.modify k f).keys = m.keys := by
  rw [modify]
  cases hlookup : m.lookup k with
  | none => rfl
  | some v => exact keys_assign_of_mem _ (mem_of_lookup hlookup)

theorem lookup_modify (m : Store K V) (k k' : K) (f : V → V) :
    (m.modify k f).lookup k' = (m.lookup k').map fun v => if k' = k then f v else v := by
  rw [modify]
  by_cases heq : k' = k
  · subst heq
    cases hlookup : m.lookup k' with
    | none => exact hlookup
    | some v => simp
  · simp only [heq, if_false, Option.map_id']
    cases m.lookup k with
    | none => rfl
    | some v => exact lookup_assign_ne m _ heq

theorem mem_entries_iff {m : Store K V} {e : Sigma fun _ : K => V} :
    e ∈ m.entries ↔ m.lookup e.1 = some e.2 :=
  (List.mem_dlookup_iff m.nodupKeys).symm

theorem entries_eq_filterMap (m : Store K V) :
    m.entries = m.keys.filterMap fun k => (m.lookup k).map (Sigma.mk k) := by
  have hlookup : ∀ e ∈ m.entries, ((fun k => (m.lookup k).map (Sigma.mk k)) ∘ Sigma.fst) e
      = some e := by
    intro e he
    rw [Function.comp_apply, mem_entries_iff.mp he]
    rfl
  rw [AList.keys, List.keys, List.filterMap_map, List.filterMap_congr hlookup]
  exact List.filterMap_some.symm

/-- The keys in their order and what is found under them make the store. -/
theorem eq_of_keys_of_lookup {m m' : Store K V} (hkeys : m.keys = m'.keys)
    (hlookup : ∀ k, m.lookup k = m'.lookup k) : m = m' := by
  refine AList.ext ?_
  rw [entries_eq_filterMap, entries_eq_filterMap, hkeys]
  simp only [hlookup]

theorem modify_of_lookup {m : Store K V} {k : K} {v : V} (h : m.lookup k = some v) (f : V → V) :
    m.modify k f = m.assign k (f v) := by
  rw [modify, h]

theorem modify_of_notMem {m : Store K V} {k : K} (h : m.lookup k = none) (f : V → V) :
    m.modify k f = m := by
  rw [modify, h]

/-- A write that changes nothing. -/
theorem modify_eq_self {m : Store K V} {k : K} {v : V} {f : V → V} (h : m.lookup k = some v)
    (hf : f v = v) : m.modify k f = m := by
  refine eq_of_keys_of_lookup (keys_modify m k f) fun k' => ?_
  rw [lookup_modify]
  by_cases heq : k' = k
  · subst heq
    simp [h, hf]
  · simp [heq]

/-- A write to a value that has just been written. -/
theorem modify_assign (m : Store K V) (k : K) (v : V) (f : V → V) :
    (m.assign k v).modify k f = m.assign k (f v) := by
  have hkeys : ∀ w, (m.assign k w).keys = if k ∈ m then m.keys else k :: m.keys := by
    intro w
    by_cases hk : k ∈ m
    · rw [if_pos hk, keys_assign_of_mem w hk]
    · rw [if_neg hk, keys_assign_of_notMem w hk]
  refine eq_of_keys_of_lookup ?_ fun k' => ?_
  · rw [keys_modify, hkeys, hkeys]
  · rw [lookup_modify, lookup_assign, lookup_assign]
    by_cases heq : k' = k
    · simp [heq]
    · simp [heq]

/-- The loop that changes every value. -/
theorem foldl_modify_keys (m : Store K V) (f : V → V) :
    m.keys.foldl (fun m k => m.modify k f) m = m.map f := by
  have hkeys : ∀ (ks : List K) (m : Store K V),
      (ks.foldl (fun m k => m.modify k f) m).keys = m.keys := by
    intro ks
    induction ks with
    | nil => exact fun m => rfl
    | cons k ks ih => exact fun m => (ih _).trans (keys_modify m k f)
  have hlookup : ∀ (ks : List K) (m : Store K V) (k : K), ks.Nodup →
      (ks.foldl (fun m k => m.modify k f) m).lookup k
        = (m.lookup k).map fun v => if k ∈ ks then f v else v := by
    intro ks
    induction ks with
    | nil =>
      intro m k _
      simp
    | cons k' ks ih =>
      intro m k hnodup
      obtain ⟨hk', hks⟩ := List.nodup_cons.mp hnodup
      rw [List.foldl_cons, ih _ _ hks, lookup_modify, Option.map_map]
      congr 1
      funext v
      by_cases heq : k = k'
      · subst heq
        simp [hk']
      · simp [heq]
  refine eq_of_keys_of_lookup ((hkeys _ m).trans (keys_map f m).symm) fun k => ?_
  rw [hlookup m.keys m k m.keys_nodup, lookup_map]
  cases h : m.lookup k with
  | none => rfl
  | some v =>
    have hk : k ∈ m.keys := mem_of_lookup h
    simp [hk]

/-- The loop that counts the values with `p`. -/
theorem foldl_count_keys (m : Store K V) (p : V → Bool) :
    m.keys.foldl (fun n k => if (m.lookup k).any p then n + 1 else n) 0 = m.count p := by
  have hfoldl : ∀ (ks : List K) (n : ℕ),
      ks.foldl (fun n k => if (m.lookup k).any p then n + 1 else n) n
        = n + ks.countP fun k => (m.lookup k).any p := by
    intro ks
    induction ks with
    | nil => exact fun n => rfl
    | cons k ks ih =>
      intro n
      rw [List.foldl_cons, ih, List.countP_cons]
      split <;> omega
  have hlookup : ∀ e ∈ m.entries,
      (((fun k => (m.lookup k).any p) ∘ Sigma.fst) e = true ↔ p e.2 = true) := by
    intro e he
    rw [Function.comp_apply, mem_entries_iff.mp he]
    rfl
  rw [hfoldl, Nat.zero_add, count_eq_length, ← List.countP_eq_length_filter, AList.keys, List.keys,
    List.countP_map]
  exact List.countP_congr hlookup

end Store
