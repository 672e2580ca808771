/-
Ids printed from a counter.

A machine takes the next number of a 64-bit counter for each id it issues and
prints the id from it.  As long as the counter does not wrap around, no id is
issued twice.

* `name_inj` — a stem followed by a decimal number determines the number;
* `toNat_counter_final` — the counter after a run;
* `nodup_issued` — the ids of a run are distinct;
* `each_fresh` — none of them is live when it is issued.
-/
import MembraL3.Lib.Printed
import MembraL3.Lib.Runs
import MembraL3.Lib.Words

namespace Numbered

open Runs

/-- `stem + std::to_string(n)`. -/
def name (stem : String) (n : ℕ) : String := stem ++ toString n

theorem name_inj {stem : String} {m n : ℕ} : name stem m = name stem n ↔ m = n := by
  rw [name, name, String.append_right_inj, Printed.toString_nat_inj]

section Counter

variable {σ ι ρ κ : Type*} {step : σ → ι → ρ × σ} (counter : σ → UInt64) (issues : ι → Bool)
  (id : ι → ℕ → κ)

/-- The id that a call issues. -/
def issued (e : Event σ ι ρ) : Option κ :=
  if issues e.call then some (id e.call (counter e.before).toNat) else none

variable {counter issues id}
  (hcounter : ∀ s c, counter (step s c).2 = if issues c then counter s + 1 else counter s)

include hcounter

theorem toNat_counter_step {s : σ} {c : ι}
    (hfit : (counter s).toNat + [c].countP issues < 2 ^ 64) :
    (counter (step s c).2).toNat = (counter s).toNat + [c].countP issues := by
  rw [hcounter]
  rw [List.countP_singleton] at hfit ⊢
  by_cases hc : issues c = true
  · rw [if_pos hc] at hfit
    rw [if_pos hc, if_pos hc]
    exact (Words.toNat_add_one_eq_iff _).mpr hfit
  · rw [if_neg hc, if_neg hc, Nat.add_zero]

theorem toNat_counter_final {s : σ} {cs : List ι}
    (hfit : (counter s).toNat + cs.countP issues < 2 ^ 64) :
    (counter (final step s cs)).toNat = (counter s).toNat + cs.countP issues := by
  induction cs generalizing s with
  | nil => rfl
  | cons c cs ih =>
    have hsplit : (c :: cs).countP issues = [c].countP issues + cs.countP issues := by
      rw [← List.countP_append, List.singleton_append]
    rw [hsplit] at hfit ⊢
    have hhead := toNat_counter_step hcounter (s := s) (c := c) (by omega)
    rw [final_cons, ih (by omega), hhead, Nat.add_assoc]

/-- The ids of a run are printed from numbers that are not below the counter. -/
theorem exists_number {s : σ} {cs : List ι} {k : κ}
    (hfit : (counter s).toNat + cs.countP issues < 2 ^ 64)
    (hk : k ∈ (trace step s cs).filterMap (issued counter issues id)) :
    ∃ c n, issues c = true ∧ id c n = k ∧ (counter s).toNat ≤ n := by
  obtain ⟨e, he, hid⟩ := List.mem_filterMap.mp hk
  obtain ⟨pre, c, post, rfl, rfl⟩ := mem_trace_iff.mp he
  rw [issued, event_call, event_before] at hid
  by_cases hc : issues c = true
  · rw [if_pos hc, Option.some.injEq] at hid
    rw [List.countP_append] at hfit
    have hpre : (counter s).toNat + pre.countP issues < 2 ^ 64 := by omega
    refine ⟨c, _, hc, hid, ?_⟩
    rw [toNat_counter_final hcounter hpre]
    omega
  · rw [if_neg hc] at hid
    cases hid

variable (counter id) in
/-- The ids of a run are distinct. -/
theorem nodup_issued (hid : ∀ c d m n, issues c = true → issues d = true →
    id c m = id d n → m = n) {s : σ} {cs : List ι}
    (hfit : (counter s).toNat + cs.countP issues < 2 ^ 64) :
    ((trace step s cs).filterMap (issued counter issues id)).Nodup := by
  induction cs generalizing s with
  | nil => exact List.nodup_nil
  | cons c cs ih =>
    have hsplit : (c :: cs).countP issues = [c].countP issues + cs.countP issues := by
      rw [← List.countP_append, List.singleton_append]
    rw [hsplit] at hfit
    have hhead := toNat_counter_step hcounter (s := s) (c := c) (by omega)
    have hrest : (counter (step s c).2).toNat + cs.countP issues < 2 ^ 64 := by omega
    rw [trace_cons, List.filterMap_cons]
    cases hissued : issued counter issues id (event step s c) with
    | none => exact ih hrest
    | some k =>
      refine List.nodup_cons.mpr ⟨?_, ih hrest⟩
      -- a later id has a larger number
      intro hlater
      obtain ⟨d, n, hd, rfl, hn⟩ := exists_number hcounter hrest hlater
      rw [issued, event_call, event_before] at hissued
      by_cases hc : issues c = true
      · rw [if_pos hc, Option.some.injEq] at hissued
        have heq := hid _ _ _ _ hc hd hissued
        rw [List.countP_singleton, if_pos hc] at hhead
        omega
      · rw [if_neg hc] at hissued
        cases hissued

variable (counter id) in
/-- No id is live when it is issued, where only the run makes ids live. -/
theorem each_fresh (hid : ∀ c d m n, issues c = true → issues d = true →
    id c m = id d n → m = n) (live : σ → κ → Prop)
    (hlive : ∀ s c k, live (step s c).2 k →
      live s k ∨ issued counter issues id (event step s c) = some k)
    {s : σ} (h0 : ∀ k, ¬ live s k) {cs : List ι}
    (hfit : (counter s).toNat + cs.countP issues < 2 ^ 64) :
    Each step (fun t c => issues c = true → ¬ live t (id c (counter t).toNat)) s cs := by
  have hfresh := each_fresh_of_nodup live (issued counter issues id) hlive h0
    (nodup_issued counter id hcounter hid hfit)
  refine hfresh.imp ?_
  intro t c hnew hc
  exact hnew _ (by rw [issued, event_call, event_before, if_pos hc])

end Counter

end Numbered
