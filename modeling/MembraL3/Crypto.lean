/-
Digests and the hash function.

SHA-256 itself is a library function of the program; here it is a parameter
`sha256 : Sha256`, any function from byte strings to 32-byte digests.  The
program hashes the bytes of strings and of 64-bit words, and prints digests in
hexadecimal.

* `bytesOf_injective`, `bytesOfWord_injective`, `hex_injective` — neither the bytes of
  a string or of a word nor the hexadecimal form of bytes loses anything;
* `append_bytesOfWord_inj` — nor does a word behind bytes.
-/
import MembraL3.Lib.Codes
import Mathlib.Data.List.Basic
import Mathlib.Data.UInt

namespace Membra

/-- `std::array<uint8_t, 32>`. -/
abbrev Hash := Vector UInt8 32

/-- What the program relies on of SHA-256: a function from bytes to digests. -/
abbrev Sha256 := List UInt8 → Hash

/-- The array filled with zeros. -/
def zeroHash : Hash := Vector.replicate 32 0

/-- The bytes of a string. -/
def bytesOf (s : String) : List UInt8 := s.toByteArray.data.toList

/-- The eight bytes of a word, the lowest first. -/
def bytesOfWord (w : UInt64) : List UInt8 :=
  (List.range 8).map fun i => UInt8.ofNat (w.toNat / 256 ^ i)

/-- The format `"%02x"`. -/
def hexByte (b : UInt8) : List Char := [Nat.digitChar (b.toNat / 16), Nat.digitChar (b.toNat % 16)]

def hex (bytes : List UInt8) : String := String.ofList (bytes.flatMap hexByte)

theorem length_hex (bytes : List UInt8) : (hex bytes).length = 2 * bytes.length := by
  rw [hex, String.length_ofList]
  induction bytes with
  | nil => rfl
  | cons b bytes ih =>
    rw [List.flatMap_cons, List.length_append, ih, List.length_cons]
    show 2 + 2 * bytes.length = 2 * (bytes.length + 1)
    omega

/-- `hash_to_hex(sha256(text))`. -/
def hashToHex (sha256 : Sha256) (text : String) : String := hex (sha256 (bytesOf text)).toList

theorem bytesOf_injective : Function.Injective bytesOf := by
  intro s t h
  exact String.toByteArray_inj.mp (ByteArray.ext (Array.toList_inj.mp h))

/-- The bytes of texts one after another are those of the text that they make. -/
theorem flatMap_bytesOf (ss : List String) : ss.flatMap bytesOf = bytesOf (String.join ss) := by
  induction ss with
  | nil => rfl
  | cons s ss ih =>
    rw [List.flatMap_cons, ih, String.join_cons, bytesOf, bytesOf, bytesOf,
      String.toByteArray_append, ByteArray.data_append, Array.toList_append]

/-- Numbers with the same digits are equal. -/
theorem eq_of_digits {b n v w : ℕ} (hv : v < b ^ n) (hw : w < b ^ n)
    (h : ∀ i < n, v / b ^ i % b = w / b ^ i % b) : v = w := by
  induction n generalizing v w with
  | zero =>
    rw [Nat.pow_zero, Nat.lt_one_iff] at hv hw
    rw [hv, hw]
  | succ n ih =>
    rw [Nat.pow_succ] at hv hw
    have hlow : v % b = w % b := by
      have h0 := h 0 (Nat.succ_pos n)
      rwa [Nat.pow_zero, Nat.div_one, Nat.div_one] at h0
    have hhigh : v / b = w / b := by
      refine ih (Nat.div_lt_of_lt_mul (by rwa [Nat.mul_comm]))
        (Nat.div_lt_of_lt_mul (by rwa [Nat.mul_comm])) ?_
      intro i hi
      rw [Nat.div_div_eq_div_mul, Nat.div_div_eq_div_mul, ← Nat.pow_succ']
      exact h (i + 1) (Nat.succ_lt_succ hi)
    rw [← Nat.div_add_mod v b, ← Nat.div_add_mod w b, hlow, hhigh]

/-- The bytes of a word are its digits. -/
theorem bytesOfWord_injective : Function.Injective bytesOfWord := by
  intro v w h
  have hbyte : ∀ i < 8, v.toNat / 256 ^ i % 256 = w.toNat / 256 ^ i % 256 := by
    intro i hi
    have hdigit := congrArg UInt8.toNat (List.map_inj_left.mp h i (List.mem_range.mpr hi))
    rwa [UInt8.toNat_ofNat', UInt8.toNat_ofNat'] at hdigit
  have hsize : 2 ^ 64 = 256 ^ 8 := by decide
  have hv : v.toNat < 256 ^ 8 := hsize ▸ v.toNat_lt
  have hw : w.toNat < 256 ^ 8 := hsize ▸ w.toNat_lt
  exact UInt64.toNat_inj.mp (eq_of_digits hv hw hbyte)

theorem length_bytesOfWord (w : UInt64) : (bytesOfWord w).length = 8 := by
  rw [bytesOfWord, List.length_map, List.length_range]

/-- A word behind bytes. -/
theorem append_bytesOfWord_inj {s t : List UInt8} {v w : UInt64} :
    s ++ bytesOfWord v = t ++ bytesOfWord w ↔ s = t ∧ v = w :=
  Codes.append_word_inj bytesOfWord_injective fun v w =>
    (length_bytesOfWord v).trans (length_bytesOfWord w).symm

theorem digitChar_inj : ∀ m < 16, ∀ n < 16, Nat.digitChar m = Nat.digitChar n → m = n := by
  decide

theorem hexByte_injective : Function.Injective hexByte := by
  intro b c h
  have hb := b.toNat_lt
  have hc := c.toNat_lt
  simp only [hexByte, List.cons.injEq, and_true] at h
  have hhigh := digitChar_inj _ (by omega) _ (by omega) h.1
  have hlow := digitChar_inj _ (by omega) _ (by omega) h.2
  exact UInt8.toNat_inj.mp (by omega)

theorem hex_injective : Function.Injective hex := by
  intro bs cs h
  -- each byte takes two digits, so the bytes can be read off one by one
  have htwo : Codes.SelfDelimiting hexByte :=
    Codes.selfDelimiting_of_length hexByte_injective fun _ _ => rfl
  exact (htwo.flatMap_inj fun _ => List.cons_ne_nil _ _).mp (String.ofList_inj.mp h)

example : hex [0, 10, 255] = "000aff" := by decide +kernel

end Membra
