/-
Clock readings and their decimal form.

The program reads `system_clock` as a double of seconds and prints readings into
its ids with `std::to_string`.  A reading is a rational here, and differences of
readings are exact; `toStringDouble` is the `%f` format: six decimals, the last
one rounded half to even.

* `toStringDouble_eq` — only the microsecond that a reading rounds to is printed;
* `append_printed_inj` — what can be read off a text that ends in a printed reading;
* `selfDelimiting_printed` — printed readings one after another can be told apart;
* `clockName_injective` — an owner and a microsecond can be read off the id made of them.
-/
import MembraL3.Lib.Codes
import MembraL3.Lib.Printed
import Mathlib.Data.Rat.Defs
import Mathlib.Data.Nat.Digits.Defs

namespace Membra

/-- A clock reading in seconds. -/
abbrev Seconds := ℚ

/-- `time_since_epoch().count()`, in the unit of the clock. -/
abbrev Ticks := ℤ

/-- The same with its 64 bits, of nanoseconds, where the program stores it. -/
abbrev Nanoseconds := Int64

/-- `duration_cast<milliseconds>`. -/
def milliseconds (t : Nanoseconds) : ℤ := t.toInt.tdiv 1000000

/-- `duration_cast<seconds>`. -/
def wholeSeconds (t : Nanoseconds) : ℤ := t.toInt.tdiv 1000000000

/-- `num / den`, rounded to the nearest integer and to the even one of two. -/
def roundHalfEven (num den : ℕ) : ℕ :=
  let q := num / den
  let r := num % den
  if 2 * r < den then q
  else if den < 2 * r then q + 1
  else if q % 2 = 0 then q else q + 1

/-- `std::to_string(double)`. -/
def toStringDouble (x : Seconds) : String :=
  let micros := roundHalfEven (x.num.natAbs * 1000000) x.den
  let sign := if x.num < 0 then "-" else ""
  sign ++ toString (micros / 1000000) ++ "." ++
    String.ofList ((Nat.toDigits 10 (micros % 1000000)).leftpad 6 '0')

example : toStringDouble (1700000000 + 1 / 128) = "1700000000.007812" := by decide +kernel

/-- The microsecond that a reading rounds to: its sign and its distance from zero. -/
def microsecond (x : Seconds) : Bool × ℕ :=
  (decide (x.num < 0), roundHalfEven (x.num.natAbs * 1000000) x.den)

/-- A sign and a printed number determine both. -/
theorem signed_inj {b b' : Bool} {m n : ℕ} :
    (if b then "-" else "") ++ toString m = (if b' then "-" else "") ++ toString n ↔
      b = b' ∧ m = n := by
  have hplain (s : String) : (if false then "-" else "") ++ s = s := String.empty_append
  have hminus (s : String) : (if true then "-" else "") ++ s = "-" ++ s := rfl
  cases b with
  | false =>
    cases b' with
    | false =>
      rw [hplain, hplain, Printed.toString_nat_inj]
      exact (and_iff_right rfl).symm
    | true =>
      rw [hplain, hminus]
      exact iff_of_false (Printed.toString_ne_minus m n) fun h => Bool.false_ne_true h.1
  | true =>
    cases b' with
    | false =>
      rw [hminus, hplain]
      exact iff_of_false (Printed.toString_ne_minus n m).symm fun h => Bool.false_ne_true h.1.symm
    | true =>
      rw [hminus, hminus, String.append_right_inj, Printed.toString_nat_inj]
      exact (and_iff_right rfl).symm

/-- What stands in front of the decimal point. -/
def wholePart (m : Bool × ℕ) : String := (if m.1 then "-" else "") ++ toString (m.2 / 1000000)

/-- The six decimals. -/
def decimals (m : Bool × ℕ) : String := String.ofList (Printed.padded 6 (m.2 % 1000000))

/-- The reading of a microsecond, printed with six decimals. -/
def printed (m : Bool × ℕ) : String :=
  (if m.1 then "-" else "") ++ toString (m.2 / 1000000) ++ String.singleton '.' ++
    String.ofList (Printed.padded 6 (m.2 % 1000000))

theorem toStringDouble_eq (x : Seconds) : toStringDouble x = printed (microsecond x) := by
  rw [toStringDouble, printed, microsecond]
  simp only [decide_eq_true_eq]
  rfl

theorem printed_eq (m : Bool × ℕ) :
    printed m = wholePart m ++ String.singleton '.' ++ decimals m := rfl

theorem dot_notMem_toString (n : ℕ) : '.' ∉ (toString n).toList :=
  fun h => absurd (Printed.isDigit_of_mem_toString h) (by decide)

theorem dot_notMem_wholePart (m : Bool × ℕ) : '.' ∉ (wholePart m).toList := by
  rw [wholePart, String.toList_append, List.mem_append, not_or]
  refine ⟨?_, dot_notMem_toString _⟩
  split <;> decide

theorem dot_notMem_decimals (m : Bool × ℕ) : '.' ∉ (decimals m).toList := by
  rw [decimals, String.toList_ofList]
  intro h
  exact absurd (Printed.isDigit_of_mem_padded h) (by decide)

theorem length_decimals (m : Bool × ℕ) : (decimals m).toList.length = 6 := by
  rw [decimals, String.toList_ofList]
  exact Printed.length_padded (by decide) (Nat.mod_lt _ (by decide))

/-- The two parts determine the microsecond. -/
theorem parts_inj {m n : Bool × ℕ} :
    wholePart m = wholePart n ∧ decimals m = decimals n ↔ m = n := by
  constructor
  · rintro ⟨hwhole, hrest⟩
    obtain ⟨hsign, hseconds⟩ := signed_inj.mp hwhole
    rw [decimals, decimals, String.ofList_inj, Printed.padded_inj] at hrest
    have hm := Nat.div_add_mod m.2 1000000
    have hn := Nat.div_add_mod n.2 1000000
    exact Prod.ext hsign (by omega)
  · rintro rfl
    exact ⟨rfl, rfl⟩

theorem printed_injective : Function.Injective printed := by
  intro m n h
  rw [printed_eq, printed_eq,
    Printed.separated_inj (dot_notMem_decimals m) (dot_notMem_decimals n)] at h
  exact parts_inj.mp h

/-- The decimals of the last printed reading of a text are read off from behind. -/
theorem append_printed_inj {a b r t : String} {m n : Bool × ℕ} (hr : '.' ∉ r.toList)
    (ht : '.' ∉ t.toList) :
    a ++ printed m ++ r = b ++ printed n ++ t ↔
      a ++ wholePart m = b ++ wholePart n ∧ decimals m = decimals n ∧ r = t := by
  have hshape : ∀ (x y : String) (k : Bool × ℕ), x ++ printed k ++ y
      = x ++ wholePart k ++ String.singleton '.' ++ (decimals k ++ y) := by
    intro x y k
    simp only [printed_eq, String.append_assoc]
  have hdot : ∀ (k : Bool × ℕ) (y : String), '.' ∉ y.toList → '.' ∉ (decimals k ++ y).toList := by
    intro k y hy
    rw [String.toList_append, List.mem_append, not_or]
    exact ⟨dot_notMem_decimals k, hy⟩
  rw [hshape, hshape, Printed.separated_inj (hdot m r hr) (hdot n t ht)]
  refine and_congr_right fun _ => ?_
  constructor
  · intro h
    rw [← String.toList_inj, String.toList_append, String.toList_append] at h
    obtain ⟨hdecimals, hrest⟩ :=
      List.append_inj h ((length_decimals m).trans (length_decimals n).symm)
    exact ⟨String.toList_inj.mp hdecimals, String.toList_inj.mp hrest⟩
  · rintro ⟨hdecimals, hrest⟩
    rw [hdecimals, hrest]

/-- A printed reading ends six digits behind its first point. -/
theorem selfDelimiting_printed : Codes.SelfDelimiting fun m => (printed m).toList := by
  intro m n rest rest' h
  have hshape : ∀ (k : Bool × ℕ) (l : List Char), (printed k).toList ++ l
      = (wholePart k).toList ++ '.' :: ((decimals k).toList ++ l) := by
    intro k l
    simp [printed_eq]
  rw [hshape, hshape, Printed.first_separated_inj (dot_notMem_wholePart m)
    (dot_notMem_wholePart n)] at h
  obtain ⟨hwhole, hrest⟩ := h
  obtain ⟨hdecimals, -⟩ :=
    List.append_inj hrest ((length_decimals m).trans (length_decimals n).symm)
  exact parts_inj.mp ⟨String.toList_inj.mp hwhole, String.toList_inj.mp hdecimals⟩

theorem underscore_notMem_printed (m : Bool × ℕ) : '_' ∉ (printed m).toList := by
  have hdigit : ¬ '_'.isDigit = true := by decide
  simp only [printed, String.toList_append, List.mem_append, not_or, String.toList_ofList]
  refine ⟨⟨⟨?_, fun h => hdigit (Printed.isDigit_of_mem_toString h)⟩, by decide⟩,
    fun h => hdigit (Printed.isDigit_of_mem_padded h)⟩
  split <;> decide

/-- The name of a record: its kind, its owner, and a printed reading. -/
def clockName (kind : String) (key : String × Bool × ℕ) : String :=
  kind ++ key.1 ++ "_" ++ printed key.2

theorem clockName_injective (kind : String) : Function.Injective (clockName kind) := by
  intro k l h
  -- the printed reading has no underscore, so the last one separates it from the owner
  have hparts := (Printed.separated_inj (c := '_') (underscore_notMem_printed k.2)
    (underscore_notMem_printed l.2)).mp h
  exact Prod.ext ((String.append_right_inj kind).mp hparts.1) (printed_injective hparts.2)

end Membra
