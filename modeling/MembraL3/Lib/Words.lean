/-
Sums of 64-bit words.

Counters of 64 bits add modulo `2 ^ 64`; a sum of such words is the true sum of
their values whenever that fits.

* `toNat_total`, `toNat_total_if` — sums modulo `2 ^ 64`;
* `toNat_total_if_of_lt` — sums that do not wrap around;
* `toNat_add_toNat_sub` — differences that do not wrap around;
* `toNat_add_eq_iff` — when a sum does not;
* `min_mod_div_eq_iff` — when a share of the low word of a product is that of the product;
* `toNat_add_one_eq_iff`, `toNat_add_one_ne`, `toNat_sub_one_of_pos` — counters;
* `counts_store_iff`, `counts_add_iff`, `counts_sub_iff` — whether a counter of the
  values with a property is right after one value has been stored;
* `counts_erase` — and after one has been removed;
* `lease_new`, `lease_back` — a free part and the parts taken from it make up a
  constant capacity;
* `foldl_add_if` — a loop that adds up the words it selects;
* `foldl_count`, `toNat_add_ofNat_eq_iff` — a loop that counts, and when what it counts
  from does not show.
-/
import MembraL3.Lib.Store
import Mathlib.Data.UInt

namespace Words

theorem sum_eq_ofNat (ws : List UInt64) : ws.sum = UInt64.ofNat (ws.map UInt64.toNat).sum := by
  induction ws with
  | nil => rfl
  | cons w ws ih =>
    rw [List.sum_cons, ih, List.map_cons, List.sum_cons, UInt64.ofNat_add, UInt64.ofNat_toNat]

/-- A sum of words is the sum of their values modulo `2 ^ 64`. -/
theorem toNat_sum (ws : List UInt64) : ws.sum.toNat = (ws.map UInt64.toNat).sum % 2 ^ 64 := by
  rw [sum_eq_ofNat, UInt64.toNat_ofNat']

/-- The difference of two words is exact where it does not wrap around. -/
theorem toNat_add_toNat_sub {a b : UInt64} (h : b ≤ a) : b.toNat + (a - b).toNat = a.toNat := by
  rw [UInt64.toNat_sub_of_le a b h]
  have hle := UInt64.le_iff_toNat_le.mp h
  omega

/-- The sum of two words is exact exactly where it fits. -/
theorem toNat_add_eq_iff (a b : UInt64) :
    (a + b).toNat = a.toNat + b.toNat ↔ a.toNat + b.toNat < 2 ^ 64 := by
  have hlt := UInt64.toNat_lt (a + b)
  rw [UInt64.toNat_add] at hlt ⊢
  omega

theorem toNat_min (a b : UInt64) : (min a b).toNat = min a.toNat b.toNat := by
  by_cases h : a ≤ b
  · have hle := UInt64.le_iff_toNat_le.mp h
    rw [min_eq_left hle]
    exact congrArg UInt64.toNat (if_pos h)
  · have hle := UInt64.le_iff_toNat_le.not.mp h
    rw [min_eq_right (Nat.le_of_lt (Nat.lt_of_not_le hle))]
    exact congrArg UInt64.toNat (if_neg h)

/-- A share of the low word of a product, up to a cap, is that share of the product
exactly where the product fits or its low word already reaches the cap. -/
theorem min_mod_div_eq_iff {p d cap : ℕ} (hpos : 0 < d) (hd : d ≤ 2 ^ 64) :
    min (p % 2 ^ 64 / d) cap = min (p / d) cap ↔ p < 2 ^ 64 ∨ cap * d ≤ p % 2 ^ 64 := by
  rw [← Nat.le_div_iff_mul_le hpos]
  by_cases hfits : p < 2 ^ 64
  · rw [Nat.mod_eq_of_lt hfits]
    exact iff_of_true rfl (.inl hfits)
  · -- the high word adds at least one to the share
    have hmore : p % 2 ^ 64 + d ≤ p := by
      have hmod := Nat.mod_add_div p (2 ^ 64)
      have hhigh : 0 < p / 2 ^ 64 := Nat.div_pos (Nat.le_of_not_lt hfits) (by omega)
      have hmul := Nat.le_mul_of_pos_right (2 ^ 64) hhigh
      omega
    have hshare : p % 2 ^ 64 / d + 1 ≤ p / d := by
      rw [← Nat.add_div_right _ hpos]
      exact Nat.div_le_div_right hmore
    rw [or_iff_right hfits]
    omega

/-- A counter counts one more exactly where that fits. -/
theorem toNat_add_one_eq_iff (a : UInt64) : (a + 1).toNat = a.toNat + 1 ↔ a.toNat + 1 < 2 ^ 64 := by
  have hone : (1 : UInt64).toNat = 1 := rfl
  have hlt := UInt64.toNat_lt a
  rw [UInt64.toNat_add, hone]
  omega

theorem toNat_add_one_ne (a : UInt64) : (a + 1).toNat ≠ a.toNat := by
  have hone : (1 : UInt64).toNat = 1 := rfl
  have hlt := UInt64.toNat_lt a
  rw [UInt64.toNat_add, hone]
  omega

theorem toNat_sub_one_ne (a : UInt64) : (a - 1).toNat ≠ a.toNat := by
  intro h
  -- otherwise adding the one back would change nothing
  have hback := toNat_add_one_ne (a - 1)
  rw [UInt64.sub_add_cancel] at hback
  exact hback h.symm

/-- A positive counter counts down. -/
theorem toNat_sub_one_of_pos {a : UInt64} (h : 0 < a.toNat) : (a - 1).toNat + 1 = a.toNat := by
  have hone : (1 : UInt64) ≤ a := by
    rw [UInt64.le_iff_toNat_le]
    exact h
  have hexact := toNat_add_toNat_sub hone
  have hval : (1 : UInt64).toNat = 1 := rfl
  omega

/-- A sum that a word does not change, the word being zero. -/
theorem toNat_add_ofNat_eq_iff (a : UInt64) {n : ℕ} (hn : n < 2 ^ 64) :
    (a + UInt64.ofNat n).toNat = n ↔ a = 0 := by
  have ha := a.toNat_lt
  rw [UInt64.toNat_add, UInt64.toNat_ofNat', Nat.mod_eq_of_lt hn, ← UInt64.toNat_inj,
    UInt64.toNat_zero]
  omega

variable {K V : Type*}

theorem toNat_total (f : V → UInt64) (m : Store K V) :
    (Store.total f m).toNat = Store.total (fun v => (f v).toNat) m % 2 ^ 64 := by
  rw [Store.total, toNat_sum, List.map_map]
  rfl

/-- The same for the words of the values with a property. -/
theorem toNat_total_if (p : V → Bool) (f : V → UInt64) (m : Store K V) :
    (Store.total (fun v => if p v then f v else 0) m).toNat
      = Store.total (fun v => if p v then (f v).toNat else 0) m % 2 ^ 64 := by
  have hshare : (fun v => if p v then (f v).toNat else 0)
      = fun v => (if p v then f v else 0).toNat := by
    funext v
    by_cases hp : p v
    · rw [if_pos hp, if_pos hp]
    · rw [if_neg hp, if_neg hp]
      rfl
  rw [hshare, toNat_total]

theorem toNat_total_if_of_lt {p : V → Bool} {f : V → UInt64} {m : Store K V}
    (h : Store.total (fun v => if p v then (f v).toNat else 0) m < 2 ^ 64) :
    (Store.total (fun v => if p v then f v else 0) m).toNat
      = Store.total (fun v => if p v then (f v).toNat else 0) m := by
  rw [toNat_total_if, Nat.mod_eq_of_lt h]

/-! ### Counters of stored values -/

section Counter

variable [DecidableEq K] {p : V → Bool} {m : Store K V} {n : UInt64}

/-- A value that does not count is stored, and the counter left alone. -/
theorem counts_store_iff (h : n.toNat = Store.count p m) (k : K) {v : V} (hv : p v = false) :
    n.toNat = Store.count p (m.assign k v) ↔ (m.lookup k).any p = false := by
  have hcount := Store.count_assign p m k v
  rw [hv] at hcount
  cases hk : (m.lookup k).any p with
  | false =>
    simp only [hk, Bool.false_eq_true, if_false, add_zero] at hcount
    exact iff_of_true (h.trans hcount.symm) rfl
  | true =>
    simp only [hk, Bool.false_eq_true, if_false, if_true] at hcount
    exact iff_of_false (by omega) (by simp)

/-- A value that counts is stored, and the counter raised. -/
theorem counts_add_iff (h : n.toNat = Store.count p m) (k : K) {v : V} (hv : p v = true) :
    (n + 1).toNat = Store.count p (m.assign k v) ↔
      (m.lookup k).any p = false ∧ n.toNat + 1 < 2 ^ 64 := by
  have hcount := Store.count_assign p m k v
  rw [hv] at hcount
  cases hk : (m.lookup k).any p with
  | false =>
    simp only [hk, Bool.false_eq_true, if_false, if_true, add_zero] at hcount
    rw [hcount, ← h, toNat_add_one_eq_iff]
    exact (and_iff_right rfl).symm
  | true =>
    simp only [hk, if_true] at hcount
    have hne := toNat_add_one_ne n
    exact iff_of_false (by omega) (by simp)

/-- A value that does not count is stored, and the counter lowered. -/
theorem counts_sub_iff (h : n.toNat = Store.count p m) (k : K) {v : V} (hv : p v = false) :
    (n - 1).toNat = Store.count p (m.assign k v) ↔ (m.lookup k).any p = true := by
  have hcount := Store.count_assign p m k v
  rw [hv] at hcount
  cases hk : (m.lookup k).any p with
  | false =>
    simp only [hk, Bool.false_eq_true, if_false, add_zero] at hcount
    have hne := toNat_sub_one_ne n
    exact iff_of_false (by omega) (by simp)
  | true =>
    simp only [hk, Bool.false_eq_true, if_false, if_true] at hcount
    have hone := toNat_sub_one_of_pos (a := n) (by omega)
    exact iff_of_true (by omega) rfl

/-- A value that counts is removed, and the counter lowered. -/
theorem counts_erase (h : n.toNat = Store.count p m) {k : K} {v : V} (hk : m.lookup k = some v)
    (hv : p v = true) : (n - 1).toNat = Store.count p (m.erase k) := by
  have hcount : Store.count p (m.erase k) + (if p v then 1 else 0) = Store.count p m :=
    Store.total_erase_of_lookup _ hk
  rw [if_pos hv] at hcount
  have hone := toNat_sub_one_of_pos (a := n) (by omega)
  omega

end Counter

/-! ### Leases -/

section Lease

variable [DecidableEq K] {f : V → ℕ} {m : Store K V} {free w : UInt64} {capacity : ℕ}

/-- A lease that the free part covers. -/
theorem lease_new (h : free.toNat + Store.total f m = capacity) {k : K} {v : V}
    (hk : m.lookup k = none) (hv : f v = w.toNat) (hle : w ≤ free) :
    (free - w).toNat + Store.total f (m.assign k v) = capacity := by
  have hexact := toNat_add_toNat_sub hle
  rw [Store.total_assign_new f v hk, hv]
  omega

/-- A lease goes back to the free part. -/
theorem lease_back (h : free.toNat + Store.total f m = capacity) (hcapacity : capacity < 2 ^ 64)
    {k : K} {v : V} (hk : m.lookup k = some v) (hv : f v = w.toNat) :
    (free + w).toNat + Store.total f (m.erase k) = capacity := by
  have herase := Store.total_erase_of_lookup f hk
  rw [hv] at herase
  rw [UInt64.toNat_add, Nat.mod_eq_of_lt (by omega)]
  omega

end Lease

theorem foldl_add_if (p : V → Bool) (f : V → UInt64) (vs : List V) (a : UInt64) :
    vs.foldl (fun total v => if p v then total + f v else total) a
      = a + (vs.map fun v => if p v then f v else 0).sum := by
  induction vs generalizing a with
  | nil => exact (add_zero a).symm
  | cons v vs ih =>
    rw [List.foldl_cons, ih, List.map_cons, List.sum_cons, ← add_assoc]
    congr 1
    by_cases hv : p v
    · rw [if_pos hv, if_pos hv]
    · rw [if_neg hv, if_neg hv, add_zero]

theorem foldl_count (p : V → Bool) (vs : List V) (a : UInt64) :
    vs.foldl (fun counted v => if p v then counted + 1 else counted) a
      = a + UInt64.ofNat (vs.countP p) := by
  induction vs generalizing a with
  | nil => exact (add_zero a).symm
  | cons v vs ih =>
    rw [List.foldl_cons, ih]
    by_cases hv : p v
    · rw [if_pos hv, List.countP_cons_of_pos hv, UInt64.ofNat_add, add_assoc, add_comm 1]
      rfl
    · rw [if_neg hv, List.countP_cons_of_neg hv]

end Words
