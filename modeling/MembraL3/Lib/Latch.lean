/-
Latches.

A latch is a state property that some calls set and others clear.  `HoldsUntil`
says of a run that the property, once set, holds until it is cleared.

* `exists_set_of_final` — where the property holds, some call has set it, and none
  has cleared it since;
* `holdsUntil_iff` — a run keeps the latch iff each of its steps does.
-/
import MembraL3.Lib.Runs

namespace Runs

variable {σ ι ρ : Type*} {step : σ → ι → ρ × σ} {sets clears : σ → ι → Prop} {G : σ → Prop}

/-- Along the run `cs`, after every call that sets `G` it holds until a call clears
it. -/
def HoldsUntil (step : σ → ι → ρ × σ) (sets clears : σ → ι → Prop) (G : σ → Prop) (s : σ)
    (cs : List ι) : Prop :=
  ∀ pre c mid, pre ++ c :: mid <+: cs → sets (final step s pre) c →
    Each step (fun s c => ¬ clears s c) (step (final step s pre) c).2 mid →
    G (final step s (pre ++ c :: mid))

theorem final_append_cons (s : σ) (pre : List ι) (c : ι) (mid : List ι) :
    final step s (pre ++ c :: mid) = final step (step (final step s pre) c).2 mid := by
  rw [final_append, final_cons]

/-- A property that only `sets` brings about was set by some call, and not cleared
since. -/
theorem exists_set_of_final (hclear : ∀ s c, clears s c → ¬ G (step s c).2)
    (hsource : ∀ s c, G (step s c).2 → G s ∨ sets s c) {s : σ} (h0 : ¬ G s) {cs : List ι}
    (h : G (final step s cs)) :
    ∃ pre c mid, cs = pre ++ c :: mid ∧ sets (final step s pre) c ∧
      Each step (fun s c => ¬ clears s c) (step (final step s pre) c).2 mid := by
  induction cs using List.reverseRecOn with
  | nil => exact absurd h h0
  | append_singleton cs d ih =>
    rw [final_append, final_cons, final_nil] at h
    rcases hsource _ _ h with hold | hset
    · obtain ⟨pre, c, mid, rfl, hset, hmid⟩ := ih hold
      refine ⟨pre, c, mid ++ [d], by simp, hset, ?_⟩
      rw [each_append]
      refine ⟨hmid, ?_⟩
      rw [each_cons, ← final_append_cons]
      exact ⟨fun hd => hclear _ _ hd h, each_nil⟩
    · exact ⟨cs, d, [], rfl, hset, each_nil⟩

/-- A run keeps the latch iff each step does that does not clear it. -/
theorem holdsUntil_iff (hset : ∀ s c, sets s c → G (step s c).2)
    (hclear : ∀ s c, clears s c → ¬ G (step s c).2)
    (hsource : ∀ s c, G (step s c).2 → G s ∨ sets s c) {s : σ} (h0 : ¬ G s) (cs : List ι) :
    HoldsUntil step sets clears G s cs ↔
      Each step (fun s c => G s → ¬ clears s c → G (step s c).2) s cs := by
  constructor
  · intro hold
    rw [each_iff_forall]
    intro pre d hpre hG hd
    -- the call that set the property, and the calls since
    obtain ⟨p, c, mid, rfl, hsets, hmid⟩ := exists_set_of_final hclear hsource h0 hG
    have hsplit : p ++ c :: mid ++ [d] = p ++ c :: (mid ++ [d]) := by simp
    rw [hsplit] at hpre
    have hafter : Each step (fun s c => ¬ clears s c) (step (final step s p) c).2 (mid ++ [d]) := by
      rw [each_append]
      refine ⟨hmid, ?_⟩
      rw [each_cons, ← final_append_cons]
      exact ⟨hd, each_nil⟩
    have hG' := hold p c (mid ++ [d]) hpre hsets hafter
    rwa [← hsplit, final_append, final_cons, final_nil] at hG'
  · intro hkeeps pre c mid hpre hsets hmid
    have hrun := hkeeps.restrict hpre
    rw [each_append, each_cons] at hrun
    rw [final_append_cons]
    -- both conditions hold at each step after the call
    have hboth : Each step (fun s c => (G s → ¬ clears s c → G (step s c).2) ∧ ¬ clears s c)
        (step (final step s pre) c).2 mid :=
      fun e he => ⟨hrun.2.2 e he, hmid e he⟩
    exact final_induction (fun s c hG hQ => hQ.1 hG hQ.2) (hset _ _ hsets) hboth

end Runs
