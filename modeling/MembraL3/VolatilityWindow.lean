/-
The volatility oracle as a sliding window.

Seen from outside, the ring is the list of the last hundred feeds: the average and the
price change that `compute_twap` reads from it are those of the list.

* `weightedAverage_between` — the average is one of prices in the window;
* `computeTwap_refines_window` — the ring in every run.
-/
import MembraL3.VolatilityOracle
import Mathlib.Algebra.BigOperators.Ring.List

namespace Membra.VolatilityOracle

/-! ### The average -/

theorem sum_mul_weight_le {window : List PricePoint} {f g : PricePoint → ℚ}
    (h : ∀ point ∈ window, f point ≤ g point) :
    (window.map fun point => f point * weight point).sum
      ≤ (window.map fun point => g point * weight point).sum := by
  refine List.sum_le_sum ?_
  intro point hpoint
  exact mul_le_mul_of_nonneg_right (h point hpoint) (weight_pos point).le

/-- The average is between any bounds of the prices. -/
theorem weightedAverage_between {window : List PricePoint} (hne : window ≠ []) {low high : ℚ}
    (h : ∀ point ∈ window, low ≤ point.priceUsd ∧ point.priceUsd ≤ high) :
    low ≤ weightedAverage window ∧ weightedAverage window ≤ high := by
  have hpos := sum_weight_pos hne
  constructor
  · rw [weightedAverage, le_div_iff₀ hpos, ← List.sum_map_mul_left]
    exact sum_mul_weight_le fun point hpoint => (h point hpoint).1
  · rw [weightedAverage, div_le_iff₀ hpos, ← List.sum_map_mul_left]
    exact sum_mul_weight_le fun point hpoint => (h point hpoint).2

/-! ### Runs -/

open Runs

/-- What the code divides by: the total volume after the first loop. -/
def divisor (oracle : VolatilityOracle) : ℚ :=
  (oracle.priceHistory.toList.foldl addPoint (0, 0, 0)).2.1

/-- The last hundred feeds, the oldest first. -/
def lastFeeds (feeds : List PricePoint) : List PricePoint := feeds.rtake priceHistorySize

theorem window_eq_lastFeeds {feeds : List PricePoint} (h : ∀ point ∈ feeds, 0 < point.timestamp) :
    window feeds = lastFeeds feeds := by
  rw [window, lastFeeds, List.filter_eq_self]
  intro point hpoint
  exact isValid_iff.mpr (h point (List.mem_of_mem_drop hpoint))

theorem length_lastFeeds (feeds : List PricePoint) :
    (lastFeeds feeds).length = min feeds.length priceHistorySize := by
  rw [lastFeeds, List.rtake, List.length_drop]
  omega

/-- Whatever is called in between, after feeds at positive times the ring is as good as
the list of the last hundred of them; with enough feeds nothing is divided by zero, and the
average is between any bounds of the prices. -/
theorem computeTwap_refines_window {calls : List (Call × Seconds)}
    (htimes : ∀ point ∈ fed calls, 0 < point.timestamp) :
    (final step new calls).computeTwap = reference (lastFeeds (fed calls)) ∧
    (minDataPoints ≤ (fed calls).length →
      divisor (final step new calls) ≠ 0 ∧
      ∀ low high, (∀ point ∈ lastFeeds (fed calls),
          low ≤ point.priceUsd ∧ point.priceUsd ≤ high) →
        low ≤ (final step new calls).computeTwap.1 ∧
          (final step new calls).computeTwap.1 ≤ high) := by
  have hpoints : (final step new calls).points = lastFeeds (fed calls) :=
    (tracks_final calls).points_eq.trans (window_eq_lastFeeds htimes)
  have htwap : (final step new calls).computeTwap = reference (lastFeeds (fed calls)) := by
    rw [computeTwap_eq_reference, hpoints]
  refine ⟨htwap, ?_⟩
  intro hmany
  have henough : ¬ (lastFeeds (fed calls)).length < minDataPoints := by
    have hsize : minDataPoints ≤ priceHistorySize := by decide
    rw [length_lastFeeds]
    omega
  have hne : lastFeeds (fed calls) ≠ [] := by
    intro hnil
    rw [hnil] at henough
    exact henough (by decide)
  constructor
  · rw [divisor, foldl_addPoint_slots, hpoints]
    exact (sum_weight_pos hne).ne'
  · intro low high hbounds
    rw [htwap, reference, if_neg henough]
    exact weightedAverage_between hne hbounds

/-- Twelve feeds, every second one without a volume. -/
def twelveFeeds : List (Call × Seconds) :=
  (List.range 12).map fun i : ℕ =>
    (Call.feedPrice (100 + i) (if i % 2 = 0 then 0 else 3), 1000 + (i : ℚ))

theorem computeTwap_refines_window_twelve :
    (final step new twelveFeeds).computeTwap = (10575 / 100, 11 / 100) ∧
    (final step new twelveFeeds).computeTwap = reference (lastFeeds (fed twelveFeeds)) ∧
    (minDataPoints ≤ (fed twelveFeeds).length →
      divisor (final step new twelveFeeds) ≠ 0 ∧
      ∀ low high, (∀ point ∈ lastFeeds (fed twelveFeeds),
          low ≤ point.priceUsd ∧ point.priceUsd ≤ high) →
        low ≤ (final step new twelveFeeds).computeTwap.1 ∧
          (final step new twelveFeeds).computeTwap.1 ≤ high) :=
  ⟨by decide +kernel, computeTwap_refines_window (by decide +kernel)⟩

end Membra.VolatilityOracle
