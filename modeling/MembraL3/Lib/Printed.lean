/-
Printed numbers and names put together from parts.

* `toString_nat_inj`, `toString_int_inj` — a decimal number determines the number;
* `padded_inj` — and so do its last digits, filled up with zeros;
* `separated_inj`, `first_separated_inj` — a separator that the last part, or the first,
  does not contain determines both parts.
-/
import Mathlib.Data.Nat.Digits.Defs
import Mathlib.Data.List.Infix
import Mathlib.Tactic.Common

namespace Printed

theorem toList_toString_nat (n : ℕ) : (toString n).toList = Nat.toDigits 10 n := Nat.toList_repr

theorem toString_nat_inj {m n : ℕ} : toString m = toString n ↔ m = n := by
  refine ⟨?_, congrArg toString⟩
  intro h
  have hdigits : Nat.toDigits 10 m = Nat.toDigits 10 n := by
    rw [← toList_toString_nat, h, toList_toString_nat]
  rw [← Nat.ofDigitChars_ten_toDigits (n := m), hdigits, Nat.ofDigitChars_ten_toDigits]

/-- A printed number has digits only. -/
theorem isDigit_of_mem_toString {n : ℕ} {c : Char} (h : c ∈ (toString n).toList) :
    c.isDigit = true := by
  rw [toList_toString_nat] at h
  exact Nat.isDigit_of_mem_toDigits (by decide) (by decide) h

theorem toString_ne_minus (m n : ℕ) : toString m ≠ "-" ++ toString n := by
  intro h
  have hminus : '-' ∈ (toString m).toList := by
    rw [h, String.toList_append]
    exact List.mem_append_left _ (by decide)
  exact absurd (isDigit_of_mem_toString hminus) (by decide)

theorem toString_int_inj {a b : ℤ} : toString a = toString b ↔ a = b := by
  refine ⟨?_, congrArg toString⟩
  intro h
  cases a with
  | ofNat m =>
    cases b with
    | ofNat n => exact congrArg Int.ofNat (toString_nat_inj.mp h)
    | negSucc n => exact absurd h (toString_ne_minus m (n + 1))
  | negSucc m =>
    cases b with
    | ofNat n => exact absurd h.symm (toString_ne_minus n (m + 1))
    | negSucc n =>
      have habs : toString (m + 1) = toString (n + 1) := (String.append_right_inj "-").mp h
      rw [Nat.add_right_cancel (toString_nat_inj.mp habs)]

/-! ### Leading zeros -/

/-- The digits of `n`, filled up with zeros to `width`. -/
def padded (width n : ℕ) : List Char := (Nat.toDigits 10 n).leftpad width '0'

theorem ofDigitChars_replicate_zero (k : ℕ) (l : List Char) :
    Nat.ofDigitChars 10 (List.replicate k '0' ++ l) 0 = Nat.ofDigitChars 10 l 0 := by
  induction k with
  | zero => rfl
  | succ k ih =>
    rw [List.replicate_succ, List.cons_append]
    exact ih

theorem ofDigitChars_padded (width n : ℕ) : Nat.ofDigitChars 10 (padded width n) 0 = n := by
  rw [padded, List.leftpad, ofDigitChars_replicate_zero, Nat.ofDigitChars_ten_toDigits]

theorem padded_inj {width m n : ℕ} : padded width m = padded width n ↔ m = n := by
  refine ⟨?_, congrArg (padded width)⟩
  intro h
  rw [← ofDigitChars_padded width m, h, ofDigitChars_padded]

theorem length_padded {width n : ℕ} (hwidth : 0 < width) (h : n < 10 ^ width) :
    (padded width n).length = width := by
  have hle : (Nat.toDigits 10 n).length ≤ width :=
    (Nat.length_toDigits_le_iff (by decide) hwidth).mpr h
  rw [padded, List.leftpad, List.length_append, List.length_replicate]
  exact Nat.sub_add_cancel hle

theorem isDigit_of_mem_padded {width n : ℕ} {c : Char} (h : c ∈ padded width n) :
    c.isDigit = true := by
  rcases List.mem_append.mp h with hzero | hdigit
  · rw [List.eq_of_mem_replicate hzero]
    rfl
  · exact Nat.isDigit_of_mem_toDigits (by decide) (by decide) hdigit

/-! ### Separated parts -/

theorem separated_list_inj {c : Char} {as bs ts us : List Char} (ht : c ∉ ts) (hu : c ∉ us) :
    as ++ c :: ts = bs ++ c :: us ↔ as = bs ∧ ts = us := by
  constructor
  · intro h
    rcases List.append_eq_append_iff.mp h with ⟨ws, rfl, hws⟩ | ⟨ws, rfl, hws⟩
    · cases ws with
      | nil => exact ⟨(List.append_nil as).symm, (List.cons.inj hws).2⟩
      | cons w ws =>
        -- the second separator would stand in the first tail
        obtain ⟨-, rfl⟩ := List.cons.inj hws
        exact absurd (List.mem_append_right _ (List.mem_cons_self ..)) ht
    · cases ws with
      | nil => exact ⟨List.append_nil bs, (List.cons.inj hws).2.symm⟩
      | cons w ws =>
        obtain ⟨-, rfl⟩ := List.cons.inj hws
        exact absurd (List.mem_append_right _ (List.mem_cons_self ..)) hu
  · rintro ⟨rfl, rfl⟩
    rfl

/-- So does one that the first part does not contain. -/
theorem first_separated_inj {c : Char} {as bs ts us : List Char} (ha : c ∉ as) (hb : c ∉ bs) :
    as ++ c :: ts = bs ++ c :: us ↔ as = bs ∧ ts = us := by
  rw [← List.reverse_inj]
  simp only [List.reverse_append, List.reverse_cons, List.append_assoc, List.singleton_append]
  rw [separated_list_inj (by rwa [List.mem_reverse]) (by rwa [List.mem_reverse]),
    List.reverse_inj, List.reverse_inj]
  exact and_comm

/-- A separator that the last part does not contain determines both parts. -/
theorem separated_inj {c : Char} {a b t u : String} (ht : c ∉ t.toList) (hu : c ∉ u.toList) :
    a ++ String.singleton c ++ t = b ++ String.singleton c ++ u ↔ a = b ∧ t = u := by
  rw [← String.toList_inj, ← @String.toList_inj a b, ← @String.toList_inj t u]
  simp only [String.toList_append, String.toList_singleton, List.append_assoc,
    List.singleton_append]
  exact separated_list_inj ht hu

end Printed
