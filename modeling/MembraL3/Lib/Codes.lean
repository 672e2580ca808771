/-
Words written one after another.

* `flatMap_inj_of_lengths`, `join_inj_of_lengths` — words of known lengths can be read off
  what is made of them;
* `SelfDelimiting.flatMap_inj` — so can words that show their own end, whatever comes
  behind them;
* `append_word_inj` — a word of fixed length can be read off the end of a text;
* `binds_iff`, `digest_eq_iff` — what the digest of a text binds, collisions apart.
-/
import Mathlib.Data.List.Basic

namespace Codes

variable {α β γ : Type*} {f : α → List β} {as bs : List α}

/-- Words that are cut at the same places. -/
theorem flatMap_inj_of_lengths (hf : Function.Injective f)
    (h : as.map (fun a => (f a).length) = bs.map fun b => (f b).length) :
    as.flatMap f = bs.flatMap f ↔ as = bs := by
  refine ⟨?_, fun heq => by rw [heq]⟩
  intro hflat
  have hlengths : (as.map f).map List.length = (bs.map f).map List.length := by
    rwa [List.map_map, List.map_map]
  have hwords : as.map f = bs.map f := List.eq_iff_flatten_eq.mpr ⟨hflat, hlengths⟩
  exact List.map_injective_iff.mpr hf hwords

/-- Texts without a separator that are cut at the same places. -/
theorem join_inj_of_lengths {ss ts : List String}
    (h : ss.map String.length = ts.map String.length) :
    String.join ss = String.join ts ↔ ss = ts := by
  have hlengths : ss.map (fun s => s.toList.length) = ts.map fun t => t.toList.length := by
    simpa only [String.length_toList] using h
  rw [← String.toList_inj, String.toList_join, String.toList_join]
  exact flatMap_inj_of_lengths (fun _ _ => String.toList_inj.mp) hlengths

/-- A word shows where it ends. -/
def SelfDelimiting (f : α → List β) : Prop :=
  ∀ a b rest rest', f a ++ rest = f b ++ rest' → a = b

theorem selfDelimiting_of_length (hf : Function.Injective f)
    (hlength : ∀ a b, (f a).length = (f b).length) : SelfDelimiting f :=
  fun a b _ _ h => hf (List.append_inj h (hlength a b)).1

theorem SelfDelimiting.flatMap_inj (hf : SelfDelimiting f) (hne : ∀ a, f a ≠ []) :
    as.flatMap f = bs.flatMap f ↔ as = bs := by
  refine ⟨?_, fun heq => by rw [heq]⟩
  intro h
  induction as generalizing bs with
  | nil =>
    cases bs with
    | nil => rfl
    | cons b bs =>
      rw [List.flatMap_nil, List.flatMap_cons] at h
      exact absurd (List.append_eq_nil_iff.mp h.symm).1 (hne b)
  | cons a as ih =>
    cases bs with
    | nil =>
      rw [List.flatMap_nil, List.flatMap_cons] at h
      exact absurd (List.append_eq_nil_iff.mp h).1 (hne a)
    | cons b bs =>
      rw [List.flatMap_cons, List.flatMap_cons] at h
      obtain rfl := hf a b _ _ h
      rw [ih (List.append_cancel_left h)]

/-- A word of fixed length behind a text of any length. -/
theorem append_word_inj (hf : Function.Injective f) (hlength : ∀ a b, (f a).length = (f b).length)
    {s t : List β} {a b : α} : s ++ f a = t ++ f b ↔ s = t ∧ a = b := by
  constructor
  · intro h
    obtain ⟨hfront, hword⟩ := List.append_inj' h (hlength a b)
    exact ⟨hfront, hf hword⟩
  · rintro ⟨rfl, rfl⟩
    rfl

/-- One digest shows that `P` holds or that two texts collide, iff one text shows `P`. -/
theorem binds_iff {digest : β → γ} {s t : β} {P : Prop} :
    (digest s = digest t → P ∨ s ≠ t) ↔ (s = t → P) := by
  constructor
  · intro h hst
    exact (h (congrArg digest hst)).resolve_right fun hne => hne hst
  · intro h _
    by_cases hst : s = t
    · exact .inl (h hst)
    · exact .inr hst

/-- Texts have one digest iff they show the same, or collide. -/
theorem digest_eq_iff {digest : β → γ} {s t : β} {P : Prop} (h : s = t ↔ P) :
    digest s = digest t ↔ P ∨ (s ≠ t ∧ digest s = digest t) := by
  constructor
  · intro hdigest
    by_cases hst : s = t
    · exact .inl (h.mp hst)
    · exact .inr ⟨hst, hdigest⟩
  · rintro (hP | ⟨-, hdigest⟩)
    · rw [h.mpr hP]
    · exact hdigest

end Codes
