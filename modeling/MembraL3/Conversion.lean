/-
Doubles that become words.

Doubles are rationals in this development, and a division by zero gives one of the other
values that a double has.  A conversion to `uint64_t` is undefined outside the range of the
type, and any `WordCast` may stand for what the program then does.  Where the rounding of a
result is not left out of account, it goes through the rounding of a `Doubles`; exact
arithmetic is the case of a rounding that changes nothing.
-/
import Mathlib.Algebra.Order.Floor.Semiring
import Mathlib.Algebra.Order.Ring.Rat
import Mathlib.Data.Rat.Floor
import Mathlib.Data.UInt
import Mathlib.Order.Monotone.Basic

namespace Membra

/-! ### Values -/

/-- What an operation on doubles gives. -/
inductive DoubleValue where
  | number (x : ℚ)
  | infinite (negative : Bool)
  | notANumber
  deriving DecidableEq

namespace DoubleValue

/-- An operation that keeps the infinities. -/
def map (f : ℚ → ℚ) : DoubleValue → DoubleValue
  | number x => number (f x)
  | infinite negative => infinite negative
  | notANumber => notANumber

@[simp] theorem map_number (f : ℚ → ℚ) (x : ℚ) : (number x).map f = number (f x) := rfl

@[simp] theorem map_id (x : DoubleValue) : x.map id = x := by
  cases x with
  | number x => rfl
  | infinite negative => rfl
  | notANumber => rfl

/-- The product with a number. -/
def scale (y : ℚ) : DoubleValue → DoubleValue
  | number x => number (y * x)
  | infinite negative => if y = 0 then notANumber else infinite (negative ^^ y < 0)
  | notANumber => notANumber

@[simp] theorem scale_number (y x : ℚ) : (number x).scale y = number (y * x) := rfl

end DoubleValue

/-- The quotient of two numbers. -/
def quotient (x y : ℚ) : DoubleValue :=
  if y ≠ 0 then .number (x / y) else if x ≠ 0 then .infinite (x < 0) else .notANumber

theorem quotient_of_ne (x : ℚ) {y : ℚ} (h : y ≠ 0) : quotient x y = .number (x / y) := if_pos h

theorem quotient_zero (x : ℚ) :
    quotient x 0 = if x ≠ 0 then .infinite (x < 0) else .notANumber :=
  if_neg (not_not.mpr rfl)

theorem mul_neg_iff_of_pos {c : ℚ} (hc : 0 < c) (x : ℚ) : x * c < 0 ↔ x < 0 := by
  rw [← not_le, ← not_le, mul_nonneg_iff_of_pos_right hc]

/-- A quotient by zero has the sign of the dividend, whatever its size. -/
theorem map_mul_quotient {c : ℚ} (hc : 0 < c) (x y : ℚ) :
    (quotient x y).map (· * c) = quotient (x * c) y := by
  by_cases hy : y = 0
  · rw [hy, quotient_zero, quotient_zero]
    simp only [ne_eq, mul_eq_zero, hc.ne', or_false, mul_neg_iff_of_pos hc]
    split
    · rfl
    · rfl
  · rw [quotient_of_ne x hy, quotient_of_ne (x * c) hy, DoubleValue.map_number,
      div_mul_eq_mul_div]

theorem quotient_mul_mul {c : ℚ} (hc : 0 < c) (x y : ℚ) :
    quotient (x * c) (y * c) = quotient x y := by
  by_cases hy : y = 0
  · rw [hy, zero_mul, quotient_zero, quotient_zero]
    simp only [ne_eq, mul_eq_zero, hc.ne', or_false, mul_neg_iff_of_pos hc]
  · rw [quotient_of_ne x hy, quotient_of_ne (x * c) (mul_ne_zero hy hc.ne'),
      mul_div_mul_right x y hc.ne']

/-! ### Conversions -/

/-- `static_cast<uint64_t>` of a double: it truncates a number in the range of the type, and
is undefined for everything else. -/
structure WordCast where
  cast : DoubleValue → UInt64
  cast_of_range : ∀ x : ℚ, 0 ≤ x → x < 2 ^ 64 → (cast (.number x)).toNat = ⌊x⌋₊

/-- A conversion that truncates modulo `2 ^ 64`, and gives 0 for what is no number. -/
def WordCast.wrapping : WordCast where
  cast
    | .number x => UInt64.ofNat ⌊x⌋₊
    | _ => 0
  cast_of_range := by
    intro x h0 hx
    have hfloor : ⌊x⌋₊ < 2 ^ 64 := (Nat.floor_lt h0).mpr (by exact_mod_cast hx)
    rw [UInt64.toNat_ofNat', Nat.mod_eq_of_lt hfloor]

/-- A conversion that gives `word` where the program's is undefined. -/
def WordCast.giving (word : UInt64) : WordCast where
  cast
    | .number x => if 0 ≤ x ∧ x < 2 ^ 64 then WordCast.wrapping.cast (.number x) else word
    | _ => word
  cast_of_range := by
    intro x h0 hx
    show (if _ then WordCast.wrapping.cast (.number x) else word).toNat = _
    rw [if_pos ⟨h0, hx⟩]
    exact WordCast.wrapping.cast_of_range x h0 hx

theorem WordCast.giving_of_ge (word : UInt64) {x : ℚ} (h : 2 ^ 64 ≤ x) :
    (WordCast.giving word).cast (.number x) = word :=
  if_neg fun hrange => absurd hrange.2 (not_lt.mpr h)

/-- A double arithmetic: the results of its operations are rounded, and those of its
conversions to `uint64_t` are words. -/
structure Doubles extends WordCast where
  round : ℚ → ℚ
  round_mono : Monotone round
  /-- An integer of 53 bits is a double. -/
  round_natCast : ∀ n : ℕ, n ≤ 2 ^ 53 → round n = n

namespace Doubles

/-- Nothing is rounded below an integer of 53 bits that it has reached. -/
theorem natCast_le_round (arith : Doubles) {n : ℕ} (hn : n ≤ 2 ^ 53) {x : ℚ} (h : n ≤ x) :
    n ≤ arith.round x :=
  calc (n : ℚ) = arith.round n := (arith.round_natCast n hn).symm
    _ ≤ arith.round x := arith.round_mono h

/-- Exact arithmetic with the given conversion. -/
def exact (convert : WordCast) : Doubles where
  toWordCast := convert
  round := id
  round_mono := monotone_id
  round_natCast := fun _ _ => rfl

/-- The same rounding with another conversion. -/
def withCast (arith : Doubles) (convert : WordCast) : Doubles :=
  { arith with toWordCast := convert }

end Doubles

end Membra
