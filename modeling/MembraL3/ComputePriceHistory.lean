/-
The price history of the compute oracle.

`price_change_pct` scans the ring in the order of its slots, and the last point that is
old enough counts.  After a hundred feeds the first slots are the newest: what was written
since slot 0 was last written is a lap, and the rest of the ring is of the lap before.

* `tracks_fedPrices` — the ring after a run;
* `oldestPrice_eq` — the scan sees the present lap first;
* `looksAtLatest_iff` — when it finds the latest feed that is old enough.
-/
import MembraL3.ComputeFutures
import MembraL3.Lib.RingBuffer
import Mathlib.Algebra.Order.Field.Rat
import Mathlib.Tactic.NormNum
import Mathlib.Tactic.Ring

namespace Membra.ComputePriceOracle

/-- The two prices of a feed and its time. -/
abbrev Feed := ℚ × ℚ × Seconds

/-- What a feed writes to the ring. -/
def pointOf (feed : Feed) : ComputePricePoint where
  cpuPriceSol := feed.1
  ramPriceSol := feed.2.1
  computeIndex := feed.1 * cpuWeight + feed.2.1 * ramWeight
  timestamp := feed.2.2

/-- The oracle after some feeds. -/
def fedPrices (feeds : List Feed) : ComputePriceOracle :=
  feeds.foldl (fun oracle feed => oracle.feedPrice feed.1 feed.2.1 feed.2.2) new

/-! ### The ring -/

structure Tracks (oracle : ComputePriceOracle) (points : List ComputePricePoint) : Prop where
  holds : RingBuffer.Holds ⟨0, 0, 0, 0⟩ oracle.priceHistory oracle.priceIndex points
  index : (oracle.priceIndex : ℕ) = points.length % 100

theorem tracks_new : Tracks new [] where
  holds := RingBuffer.holds_nil
  index := rfl

theorem tracks_feedPrice {oracle : ComputePriceOracle} {points : List ComputePricePoint}
    (h : Tracks oracle points) (feed : Feed) :
    Tracks (oracle.feedPrice feed.1 feed.2.1 feed.2.2) (points ++ [pointOf feed]) where
  holds := h.holds.set
  index := by
    have hindex := h.index
    rw [List.length_append, List.length_singleton]
    show ((oracle.priceIndex : ℕ) + 1) % 100 = _
    omega

theorem tracks_fedPrices (feeds : List Feed) : Tracks (fedPrices feeds) (feeds.map pointOf) := by
  induction feeds using List.reverseRecOn with
  | nil => exact tracks_new
  | append_singleton feeds feed ih =>
    rw [fedPrices, List.foldl_append, List.map_append]
    exact tracks_feedPrice ih feed

/-! ### The scan -/

/-- Fed, and before the target time. -/
def isBefore (target : Seconds) (point : ComputePricePoint) : Bool :=
  point.timestamp > 0 ∧ point.timestamp < target

/-- The index of the last of some points before the target time, zero where there is none. -/
def lastIndexBefore (target : Seconds) (points : List ComputePricePoint) : ℚ :=
  (points.filter (isBefore target)).getLast?.elim 0 ComputePricePoint.computeIndex

/-- What was fed since the first slot was last written. -/
def presentLap (points : List ComputePricePoint) : List ComputePricePoint :=
  points.rtake (points.length % 100)

/-- What is left of the lap before. -/
def previousLap (points : List ComputePricePoint) : List ComputePricePoint :=
  (points.rtake 100).rdrop (points.length % 100)

theorem foldl_eq_lastIndexBefore (target : Seconds) (points : List ComputePricePoint) :
    points.foldl (fun oldest point =>
      if point.timestamp > 0 ∧ point.timestamp < target then point.computeIndex else oldest) 0
      = lastIndexBefore target points := by
  induction points using List.reverseRecOn with
  | nil => rfl
  | append_singleton points point ih =>
    rw [List.foldl_append, List.foldl_cons, List.foldl_nil, ih, lastIndexBefore, lastIndexBefore,
      List.filter_append]
    by_cases hbefore : point.timestamp > 0 ∧ point.timestamp < target
    · have hpoint : isBefore target point = true := decide_eq_true hbefore
      rw [if_pos hbefore, List.filter_cons_of_pos hpoint, List.filter_nil, List.getLast?_concat]
      rfl
    · have hpoint : ¬ isBefore target point = true := fun h => hbefore (of_decide_eq_true h)
      rw [if_neg hbefore, List.filter_cons_of_neg hpoint, List.filter_nil, List.append_nil]

/-- The scan sees the present lap first. -/
theorem oldestPrice_eq (feeds : List Feed) (secondsAgo now : Seconds) :
    (fedPrices feeds).oldestPrice secondsAgo now
      = lastIndexBefore (now - secondsAgo)
          (presentLap (feeds.map pointOf) ++ previousLap (feeds.map pointOf)) := by
  have htracks := tracks_fedPrices feeds
  have hindex := htracks.index
  have hslots : (fedPrices feeds).priceHistory.toList.filter (isBefore (now - secondsAgo)) = _ :=
    htracks.holds.filter_toList (decide_eq_false fun h => lt_irrefl _ h.1)
      (by rw [hindex]; exact Nat.mod_le _ _)
  rw [oldestPrice, foldl_eq_lastIndexBefore, lastIndexBefore, hslots, lastIndexBefore,
    List.filter_append, presentLap, previousLap, hindex]

/-- The last hundred points, in the order of the feeds. -/
theorem rtake_eq_laps (points : List ComputePricePoint) :
    points.rtake 100 = previousLap points ++ presentLap points := by
  have hlap : points.length % 100 ≤ 100 := (Nat.mod_lt _ (by decide)).le
  rw [presentLap, previousLap, ← RingBuffer.rtake_rtake_of_le points hlap]
  exact (List.take_append_drop _ _).symm

section

variable {target : Seconds} {as bs : List ComputePricePoint}

theorem filter_eq_nil (h : ∀ point ∈ as, ¬ point.timestamp < target) :
    as.filter (isBefore target) = [] := by
  refine List.filter_eq_nil_iff.mpr ?_
  intro point hpoint hbefore
  exact h point hpoint (of_decide_eq_true hbefore).2

theorem lastIndexBefore_append_of_left (h : ∀ point ∈ as, ¬ point.timestamp < target) :
    lastIndexBefore target (as ++ bs) = lastIndexBefore target bs := by
  rw [lastIndexBefore, List.filter_append, filter_eq_nil h, List.nil_append, lastIndexBefore]

theorem lastIndexBefore_append_of_right (h : ∀ point ∈ bs, ¬ point.timestamp < target) :
    lastIndexBefore target (as ++ bs) = lastIndexBefore target as := by
  rw [lastIndexBefore, List.filter_append, filter_eq_nil h, List.append_nil, lastIndexBefore]

/-- Where all of the points that are seen last are old enough, the last of them counts. -/
theorem lastIndexBefore_append_of_forall (hne : bs ≠ [])
    (h : ∀ point ∈ bs, 0 < point.timestamp ∧ point.timestamp < target) :
    lastIndexBefore target (as ++ bs) = bs.getLast?.elim 0 ComputePricePoint.computeIndex := by
  have hall : bs.filter (isBefore target) = bs := by
    refine List.filter_eq_self.mpr ?_
    intro point hpoint
    exact decide_eq_true (h point hpoint)
  rw [lastIndexBefore, List.filter_append, hall, List.getLast?_append_of_ne_nil _ hne]

end

/-! ### The change -/

/-- The change in percent, none from an index of zero. -/
def changeFrom (current old : ℚ) : ℚ := if old = 0 then 0 else (current - old) / old * 100

/-- The change is the same from either of two indices. -/
def SameChange (current old old' : ℚ) : Prop :=
  old = old' ∨ (current = 0 ∧ old ≠ 0 ∧ old' ≠ 0) ∨ (old = 0 ∧ old' = current) ∨
    (old' = 0 ∧ old = current)

theorem changeFrom_eq_iff (current old old' : ℚ) :
    changeFrom current old = changeFrom current old' ↔ SameChange current old old' := by
  have hzero : ∀ {x : ℚ}, x ≠ 0 → ((current - x) / x * 100 = 0 ↔ x = current) := by
    intro x hx
    rw [mul_eq_zero, div_eq_zero_iff, or_iff_left (by norm_num), or_iff_left hx, sub_eq_zero,
      eq_comm]
  rw [changeFrom, changeFrom, SameChange]
  by_cases hold : old = 0
  · by_cases hold' : old' = 0
    · rw [if_pos hold, if_pos hold']
      exact iff_of_true rfl (.inl (hold.trans hold'.symm))
    · rw [if_pos hold, if_neg hold', eq_comm, hzero hold']
      grind
  · by_cases hold' : old' = 0
    · rw [if_neg hold, if_pos hold', hzero hold]
      grind
    · have hcross : (current - old) / old * 100 = (current - old') / old' * 100 ↔
          current = 0 ∨ old = old' := by
        rw [mul_left_inj' (by norm_num), div_eq_div_iff hold hold']
        have hdifference : (current - old) * old' - (current - old') * old
            = current * (old' - old) := by ring
        rw [← sub_eq_zero, hdifference, mul_eq_zero, sub_eq_zero, eq_comm (a := old')]
      rw [if_neg hold, if_neg hold', hcross]
      grind

/-- The change is the one from the latest of the last hundred feeds that is old enough. -/
def LooksAtLatest (feeds : List Feed) (secondsAgo now : Seconds) : Prop :=
  (fedPrices feeds).priceChangePct secondsAgo now
    = changeFrom (fedPrices feeds).currentIndex
        (lastIndexBefore (now - secondsAgo) ((feeds.map pointOf).rtake 100))

/-- Some feed of the present lap is old enough, and there are feeds of the lap before. -/
def ReachesPresentLap (points : List ComputePricePoint) (target : Seconds) : Prop :=
  previousLap points ≠ [] ∧ ∃ point ∈ presentLap points, point.timestamp < target

/-- The scan finds the latest feed that is old enough unless that one is of the present lap
and the ring also holds feeds of the lap before: then the last of these takes its place,
which only does no harm where the change is the same. -/
theorem looksAtLatest_iff {feeds : List Feed}
    (htimes : (feeds.map fun feed => feed.2.2).Pairwise (· < ·))
    (hpos : ∀ feed ∈ feeds, 0 < feed.2.2) (secondsAgo now : Seconds) :
    LooksAtLatest feeds secondsAgo now ↔
      (ReachesPresentLap (feeds.map pointOf) (now - secondsAgo) →
        SameChange (fedPrices feeds).currentIndex
          ((previousLap (feeds.map pointOf)).getLast?.elim 0 ComputePricePoint.computeIndex)
          (lastIndexBefore (now - secondsAgo) ((feeds.map pointOf).rtake 100))) := by
  have hchange : (fedPrices feeds).priceChangePct secondsAgo now
      = changeFrom (fedPrices feeds).currentIndex
          ((fedPrices feeds).oldestPrice secondsAgo now) := rfl
  rw [LooksAtLatest, hchange, oldestPrice_eq]
  have hlaps := rtake_eq_laps (feeds.map pointOf)
  by_cases hreaches : ReachesPresentLap (feeds.map pointOf) (now - secondsAgo)
  · have hmixed := hreaches
    obtain ⟨hne, latest, hlatest, hbefore⟩ := hmixed
    have hordered : ((feeds.map pointOf).rtake 100).Pairwise
        fun point point' => point.timestamp < point'.timestamp := by
      refine List.Pairwise.sublist (List.drop_sublist _ _) ?_
      rw [List.pairwise_map] at htimes ⊢
      exact htimes
    rw [hlaps, List.pairwise_append] at hordered
    -- all feeds of the lap before are older than the one of the present lap
    have hall : ∀ point ∈ previousLap (feeds.map pointOf),
        0 < point.timestamp ∧ point.timestamp < now - secondsAgo := by
      intro point hpoint
      have hmem : point ∈ (feeds.map pointOf).rtake 100 := by
        rw [hlaps]
        exact List.mem_append_left _ hpoint
      obtain ⟨feed, hfeed, rfl⟩ := List.mem_map.mp (List.mem_of_mem_drop hmem)
      exact ⟨hpos feed hfeed, (hordered.2.2 _ hpoint latest hlatest).trans hbefore⟩
    rw [lastIndexBefore_append_of_forall hne hall, changeFrom_eq_iff]
    exact (imp_iff_right hreaches).symm
  · refine iff_of_true ?_ fun hc => absurd hc hreaches
    rw [hlaps]
    by_cases hne : previousLap (feeds.map pointOf) = []
    · rw [hne, List.append_nil, List.nil_append]
    · have hnone : ∀ point ∈ presentLap (feeds.map pointOf),
          ¬ point.timestamp < now - secondsAgo :=
        fun point hpoint hlt => hreaches ⟨hne, point, hpoint, hlt⟩
      rw [lastIndexBefore_append_of_left hnone, lastIndexBefore_append_of_right hnone]

/-- A feed every second, with the second as the index. -/
def everySecond (n : ℕ) : List Feed := (List.range n).map fun i : ℕ => (i + 1, i + 1, i + 1)

theorem everySecond_increasing (n : ℕ) :
    ((everySecond n).map fun feed => feed.2.2).Pairwise (· < ·) := by
  rw [everySecond, List.map_map, List.pairwise_map]
  refine List.pairwise_lt_range.imp ?_
  intro i j hij
  show (i : ℚ) + 1 < j + 1
  exact_mod_cast Nat.succ_lt_succ hij

theorem everySecond_pos {n : ℕ} : ∀ feed ∈ everySecond n, 0 < feed.2.2 := by
  intro feed hfeed
  obtain ⟨i, -, rfl⟩ := List.mem_map.mp hfeed
  show 0 < (i : ℚ) + 1
  exact_mod_cast Nat.succ_pos i

/-- Two feeds into the second lap, the latest feed before second 102 has index 101, but
the one with index 100 counts. -/
theorem looksAtLatest_iff_everySecond :
    (fedPrices (everySecond 102)).priceChangePct (3 / 2) (207 / 2) = 2 ∧
    (LooksAtLatest (everySecond 102) (3 / 2) (207 / 2) ↔
      (ReachesPresentLap ((everySecond 102).map pointOf) (207 / 2 - 3 / 2) →
        SameChange (fedPrices (everySecond 102)).currentIndex
          ((previousLap ((everySecond 102).map pointOf)).getLast?.elim 0
            ComputePricePoint.computeIndex)
          (lastIndexBefore (207 / 2 - 3 / 2) (((everySecond 102).map pointOf).rtake 100)))) :=
  ⟨by decide +kernel, looksAtLatest_iff (everySecond_increasing 102) everySecond_pos _ _⟩

theorem not_forall_looksAtLatest :
    ¬ ∀ (feeds : List Feed) (secondsAgo now : Seconds),
      (feeds.map fun feed => feed.2.2).Pairwise (· < ·) → (∀ feed ∈ feeds, 0 < feed.2.2) →
      LooksAtLatest feeds secondsAgo now := by
  intro h
  have hlatest := h (everySecond 102) (3 / 2) (207 / 2) (everySecond_increasing 102)
    everySecond_pos
  have hscan : (fedPrices (everySecond 102)).priceChangePct (3 / 2) (207 / 2) = 2 := by
    decide +kernel
  have hindex : changeFrom (fedPrices (everySecond 102)).currentIndex
      (lastIndexBefore (207 / 2 - 3 / 2) (((everySecond 102).map pointOf).rtake 100))
        = 100 / 101 := by
    decide +kernel
  rw [LooksAtLatest, hscan, hindex] at hlatest
  exact absurd hlatest (by norm_num)

end Membra.ComputePriceOracle
