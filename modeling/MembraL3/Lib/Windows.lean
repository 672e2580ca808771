/-
Sums over windows of time.

A log of weighted entries, each with a time.  `sum time weight span start l` is the
weight of the entries whose times lie in the closed window of length `span` that
starts at `start`, and `near time span t l` are the entries that some window has in
common with the time `t`.

* `sum_cons_le` — a cap that the new entry and the entries near it keep holds in
  every window;
* `sum_le_sum` — comparison of two weights.
-/
import Mathlib.Algebra.Order.BigOperators.Group.List
import Mathlib.Algebra.Order.Group.Defs
import Mathlib.Algebra.Order.Ring.Nat
import Mathlib.Tactic.Common

namespace Windows

variable {α T : Type*} [AddCommGroup T] [LinearOrder T]

/-- The weight of the entries in the window from `start` to `start + span`. -/
def sum (time : α → T) (weight : α → ℕ) (span start : T) (l : List α) : ℕ :=
  ((l.filter fun a => start ≤ time a ∧ time a ≤ start + span).map weight).sum

/-- The entries at most `span` away from `t`. -/
def near (time : α → T) (span t : T) (l : List α) : List α :=
  l.filter fun a => t - span ≤ time a ∧ time a ≤ t + span

variable {time : α → T} {weight : α → ℕ} {span start : T} {l : List α}

theorem sum_le_sum {weight' : α → ℕ} (h : ∀ a ∈ l, weight a ≤ weight' a) :
    sum time weight span start l ≤ sum time weight' span start l := by
  refine List.sum_le_sum ?_
  intro a ha
  exact h a (List.mem_of_mem_filter ha)

variable [IsOrderedAddMonoid T]

/-- Two times in one window are near each other. -/
theorem near_of_window {s t : T} (hs : start ≤ s) (hs' : s ≤ start + span) (ht : start ≤ t)
    (ht' : t ≤ start + span) : t - span ≤ s ∧ s ≤ t + span := by
  constructor
  · have hback : t - span ≤ start := sub_le_iff_le_add.mpr ht'
    exact hback.trans hs
  · exact hs'.trans (add_le_add_left ht span)

/-- The part of a window that contains `t` is near `t`. -/
theorem sum_le_sum_near {t : T} (ht : start ≤ t) (ht' : t ≤ start + span) :
    sum time weight span start l ≤ ((near time span t l).map weight).sum := by
  refine List.Sublist.sum_le_sum ?_ fun n _ => Nat.zero_le n
  refine List.Sublist.map weight (List.monotone_filter_right l ?_)
  intro a ha
  rw [decide_eq_true_iff] at ha ⊢
  exact near_of_window ha.1 ha.2 ht ht'

/-- A new entry that fits with those near it fits into every window. -/
theorem sum_cons_le {a : α} {cap : ℕ} (hold : ∀ start, sum time weight span start l ≤ cap)
    (hnew : ((near time span (time a) l).map weight).sum + weight a ≤ cap) (start : T) :
    sum time weight span start (a :: l) ≤ cap := by
  by_cases ha : start ≤ time a ∧ time a ≤ start + span
  · have hcons : sum time weight span start (a :: l)
        = weight a + sum time weight span start l := by
      rw [sum, List.filter_cons_of_pos (by simpa using ha), List.map_cons, List.sum_cons, sum]
    have hnear : sum time weight span start l ≤ ((near time span (time a) l).map weight).sum :=
      sum_le_sum_near ha.1 ha.2
    omega
  · -- the window does not contain the new entry
    have hcons : sum time weight span start (a :: l) = sum time weight span start l := by
      rw [sum, List.filter_cons_of_neg (by simpa using ha), sum]
    rw [hcons]
    exact hold start

end Windows
