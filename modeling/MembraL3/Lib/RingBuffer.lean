/-
Ring buffers.

A vector of slots and the index of the slot to write next.  Read from there and once
round, the slots hold what was written longest ago first.

* `Holds.filter_read` — a predicate that is false of blanks selects from the items
  written alone;
* `read_perm` — reading in another order reads the same items;
* `Holds.filter_toList` — the order of the slots;
* `read_set` — a write drops the first item read and adds one at the end;
* `Holds.set` — so that the last items written are the ones read.
-/
import Mathlib.Algebra.Group.Fin.Basic
import Mathlib.Algebra.GroupWithZero.Nat
import Mathlib.Data.List.DropRight
import Mathlib.Data.List.OfFn
import Mathlib.Data.List.Rotate

namespace RingBuffer

variable {α : Type*} {n : ℕ}

/-- The slots from `start` to the one before it. -/
def read (slots : Vector α n) (start : Fin n) : List α := List.ofFn fun i => slots.get (start + i)

theorem length_read (slots : Vector α n) (start : Fin n) : (read slots start).length = n :=
  List.length_ofFn

theorem read_replicate (blank : α) (start : Fin n) :
    read (Vector.replicate n blank) start = List.replicate n blank := by
  refine List.eq_replicate_iff.mpr ⟨length_read _ start, ?_⟩
  intro a ha
  obtain ⟨i, rfl⟩ := List.mem_ofFn.mp ha
  exact Vector.getElem_replicate _

/-- The slots hold the last of the items written to a ring of `blank`s. -/
def Holds (blank : α) (slots : Vector α n) (i : Fin n) (written : List α) : Prop :=
  read slots i = (List.replicate n blank ++ written).rtake n

variable {blank a : α} {slots : Vector α n} {i : Fin n} {written : List α}

theorem holds_nil : Holds blank (Vector.replicate n blank) i [] := by
  rw [Holds, read_replicate, List.append_nil, List.rtake, List.length_replicate, Nat.sub_self,
    List.drop_zero]

theorem Holds.read_eq (h : Holds blank slots i written) :
    read slots i = List.replicate (n - written.length) blank ++ written.rtake n := by
  rw [h, List.rtake, List.rtake, List.drop_append, List.drop_replicate, List.length_append,
    List.length_replicate]
  congr 2
  · omega
  · omega

theorem Holds.filter_read {p : α → Bool} (h : Holds blank slots i written)
    (hblank : p blank = false) : (read slots i).filter p = (written.rtake n).filter p := by
  rw [h.read_eq, List.filter_append, List.filter_replicate_of_neg (by simp [hblank]),
    List.nil_append]

/-! ### The order of the slots -/

/-- Reading from a slot is turning the slots round. -/
theorem read_eq_rotate (slots : Vector α n) (start : Fin n) :
    read slots start = slots.toList.rotate start := by
  refine List.ext_getElem (by rw [length_read, List.length_rotate, Vector.length_toList]) ?_
  intro k hk _
  have hmod : ∀ m, m % n < n := fun m => Nat.mod_lt m start.pos
  rw [List.getElem_rotate]
  simp only [read, List.getElem_ofFn, Vector.getElem_toList, Vector.length_toList]
  show slots.get ⟨(start + k) % n, hmod _⟩ = slots.get ⟨(k + start) % n, hmod _⟩
  simp only [Nat.add_comm]

theorem read_perm (slots : Vector α n) (start : Fin n) : (read slots start).Perm slots.toList := by
  rw [read_eq_rotate]
  exact List.rotate_perm ..

theorem rtake_append_of_le {as bs : List α} {k : ℕ} (h : k ≤ bs.length) :
    (as ++ bs).rtake k = bs.rtake k := by
  rw [List.rtake, List.rtake, List.length_append, Nat.add_sub_assoc h, List.drop_length_add_append]

theorem rdrop_append_of_le {as bs : List α} {k : ℕ} (h : k ≤ bs.length) :
    (as ++ bs).rdrop k = as ++ bs.rdrop k := by
  rw [List.rdrop, List.rdrop, List.length_append, Nat.add_sub_assoc h, List.take_length_add_append]

theorem rtake_rtake_of_le (as : List α) {k m : ℕ} (h : k ≤ m) :
    (as.rtake m).rtake k = as.rtake k := by
  rw [List.rtake, List.rtake, List.rtake, List.drop_drop, List.length_drop]
  congr 1
  omega

/-- In their own order the slots hold what is read last, then what is read first. -/
theorem toList_eq_read (slots : Vector α n) (start : Fin n) :
    slots.toList = (read slots start).rtake start ++ (read slots start).rdrop start := by
  have hle : (start : ℕ) ≤ slots.toList.length := by
    rw [Vector.length_toList]
    omega
  have htake : (start : ℕ) = (slots.toList.take start).length :=
    (List.length_take_of_le hle).symm
  rw [read_eq_rotate, List.rotate_eq_drop_append_take hle, rtake_append_of_le htake.le,
    rdrop_append_of_le htake.le, List.rtake, List.rdrop, ← htake, Nat.sub_self, List.drop_zero,
    List.take_zero, List.append_nil, List.take_append_drop]

/-- So they hold the items written since the first slot was last written, then those that
are left of the round before. -/
theorem Holds.filter_toList {p : α → Bool} (h : Holds blank slots i written)
    (hblank : p blank = false) (hi : (i : ℕ) ≤ written.length) :
    slots.toList.filter p
      = (written.rtake i).filter p ++ ((written.rtake n).rdrop i).filter p := by
  have hlt := i.isLt
  have hlength : (i : ℕ) ≤ (written.rtake n).length := by
    rw [List.rtake, List.length_drop]
    omega
  rw [toList_eq_read slots i, h.read_eq, rtake_append_of_le hlength, rdrop_append_of_le hlength,
    rtake_rtake_of_le written hlt.le, List.filter_append, List.filter_append,
    List.filter_replicate_of_neg (by simp [hblank]), List.nil_append]

/-! ### Writing -/

variable [NeZero n]

theorem read_set (slots : Vector α n) (i : Fin n) (a : α) :
    read (slots.set i a) (i + 1) = (read slots i).tail ++ [a] := by
  have hself : (slots.set i a).get i = a := Vector.getElem_set_self _
  have hother (j : Fin n) (h : i ≠ j) : (slots.set i a).get j = slots.get j :=
    Vector.getElem_set_ne _ _ (Fin.val_ne_of_ne h)
  obtain ⟨m, rfl⟩ := Nat.exists_eq_succ_of_ne_zero (NeZero.ne n)
  rw [read, read, List.ofFn_succ', List.ofFn_succ, List.tail_cons, List.concat_eq_append]
  congr 1
  · -- all but the last item read are the ones after the first
    refine congrArg List.ofFn (funext fun k => ?_)
    have hindex : i + 1 + k.castSucc = i + k.succ := by
      rw [add_assoc, add_comm 1, Fin.coeSucc_eq_succ]
    rw [hindex]
    refine hother _ ?_
    intro h
    exact Fin.succ_ne_zero k (left_eq_add.mp h)
  · have hlast : i + 1 + Fin.last m = i := by
      rw [add_assoc, add_comm 1, Fin.last_add_one, add_zero]
    rw [hlast, hself]

theorem Holds.set (h : Holds blank slots i written) :
    Holds blank (slots.set i a) (i + 1) (written ++ [a]) := by
  obtain ⟨m, rfl⟩ := Nat.exists_eq_succ_of_ne_zero (NeZero.ne n)
  have hlength : m + 1 ≤ (List.replicate (m + 1) blank ++ written).length := by
    rw [List.length_append, List.length_replicate]
    omega
  have htail : ((List.replicate (m + 1) blank ++ written).rtake (m + 1)).tail
      = (List.replicate (m + 1) blank ++ written).rtake m := by
    rw [List.rtake, List.rtake, List.tail_drop]
    congr 1
    omega
  rw [Holds, read_set, h, htail, ← List.append_assoc, List.rtake_concat_succ]

end RingBuffer
