/-
Indexes of stores.

A store with a second map from a field of its values back to their keys.
`IsIndex field m index` says that the two are inverse to each other.

* `isIndex_assign_iff` — a value with a new field keeps them inverse exactly if it is
  stored under a new key;
* `size_eq_of_isIndex` — both have the same size.
-/
import MembraL3.Lib.Store

namespace Store

variable {K J V : Type*} [DecidableEq K] [DecidableEq J]

/-- `index` leads from the field of each stored value to its key, and nowhere else. -/
structure IsIndex (field : V → J) (m : Store K V) (index : Store J K) : Prop where
  found : ∀ j k, index.lookup j = some k → ∃ v, m.lookup k = some v ∧ field v = j
  indexed : ∀ k v, m.lookup k = some v → index.lookup (field v) = some k

variable {field : V → J} {m : Store K V} {index : Store J K} {k : K} {v : V}

theorem isIndex_empty : IsIndex field (∅ : Store K V) (∅ : Store J K) where
  found := by
    intro j k h
    cases h
  indexed := by
    intro k v h
    cases h

/-- A value under a new key, with a new field. -/
theorem isIndex_assign (h : IsIndex field m index) (hfield : field v ∉ index) (hk : k ∉ m) :
    IsIndex field (m.assign k v) (index.assign (field v) k) := by
  constructor
  · intro j k' hj
    rcases of_lookup_assign hj with ⟨rfl, rfl⟩ | hold
    · exact ⟨v, lookup_assign_self .., rfl⟩
    · obtain ⟨v', hv', rfl⟩ := h.found j k' hold
      have hne : k' ≠ k := by
        rintro rfl
        exact hk (mem_of_lookup hv')
      exact ⟨v', by rw [lookup_assign_ne m v hne, hv'], rfl⟩
  · intro k' v' hv'
    rcases of_lookup_assign hv' with ⟨rfl, rfl⟩ | hold
    · exact lookup_assign_self ..
    · have hold' := h.indexed k' v' hold
      have hne : field v' ≠ field v := by
        intro heq
        exact hfield (heq ▸ mem_of_lookup hold')
      rw [lookup_assign_ne index k hne, hold']

/-- Otherwise the field of the old value still leads to its key. -/
theorem isIndex_assign_iff (h : IsIndex field m index) (hfield : field v ∉ index) :
    IsIndex field (m.assign k v) (index.assign (field v) k) ↔ k ∉ m := by
  constructor
  · intro hafter hk
    obtain ⟨w, hw⟩ := Option.isSome_iff_exists.mp (AList.lookup_isSome.mpr hk)
    have hold := h.indexed k w hw
    have hne : field w ≠ field v := by
      intro heq
      exact hfield (heq ▸ mem_of_lookup hold)
    obtain ⟨v', hv', heq⟩ := hafter.found (field w) k (by rw [lookup_assign_ne index k hne, hold])
    rw [lookup_assign_self, Option.some.injEq] at hv'
    exact hne (by rw [← heq, hv'])
  · exact isIndex_assign h hfield

/-- The fields of the values are the keys of the index. -/
theorem mem_index_iff (h : IsIndex field m index) {j : J} :
    j ∈ index ↔ ∃ k v, m.lookup k = some v ∧ field v = j := by
  constructor
  · intro hj
    obtain ⟨k, hk⟩ := Option.isSome_iff_exists.mp (AList.lookup_isSome.mpr hj)
    obtain ⟨v, hv, heq⟩ := h.found j k hk
    exact ⟨k, v, hv, heq⟩
  · rintro ⟨k, v, hv, rfl⟩
    exact mem_of_lookup (h.indexed k v hv)

theorem size_eq_of_isIndex (h : IsIndex field m index) : size index = size m := by
  -- no two values have a field in common
  have hinj : ∀ e ∈ m.entries, ∀ e' ∈ m.entries, field e.2 = field e'.2 → e = e' := by
    rintro ⟨k, v⟩ he ⟨k', v'⟩ he' heq
    have hv : m.lookup k = some v := AList.mem_lookup_iff.mpr he
    have hv' : m.lookup k' = some v' := AList.mem_lookup_iff.mpr he'
    have hk := h.indexed k v hv
    rw [show field v = field v' from heq, h.indexed k' v' hv'] at hk
    obtain rfl := Option.some.inj hk
    rw [hv] at hv'
    obtain rfl := Option.some.inj hv'
    rfl
  have hnodup : (m.entries.map fun e => field e.2).Nodup :=
    (List.NodupKeys.nodup m.nodupKeys).map_on hinj
  have hperm : index.keys.Perm (m.entries.map fun e => field e.2) := by
    refine (List.perm_ext_iff_of_nodup index.keys_nodup hnodup).mpr ?_
    intro j
    rw [← AList.mem_keys, mem_index_iff h, List.mem_map]
    constructor
    · rintro ⟨k, v, hv, rfl⟩
      exact ⟨⟨k, v⟩, AList.mem_lookup_iff.mp hv, rfl⟩
    · rintro ⟨⟨k, v⟩, he, rfl⟩
      exact ⟨k, v, AList.mem_lookup_iff.mpr he, rfl⟩
  have hlength := hperm.length_eq
  rw [List.length_map] at hlength
  show index.keys.length = m.keys.length
  rw [hlength]
  show m.entries.length = (m.entries.map Sigma.fst).length
  rw [List.length_map]

end Store
