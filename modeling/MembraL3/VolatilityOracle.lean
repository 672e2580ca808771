/-
The volatility oracle.

`feed_price` writes to a ring of a hundred points; `assess` compares the oldest of them
with the newest and reports the first of a stale oracle, low coverage, volatility and a
pause that applies.  It keeps the price change for `can_unlock_rebase` in any case.

Doubles are exact rationals.

* `computeTwap_eq_reference` — the average and the price change are those of the points in
  the ring;
* `determineSignal_eq_volatilityDetected_iff` — when volatility is reported;
* `opensOnDetected_iff` — in which runs the gate is open on a report of volatility only.
-/
import MembraL3.Clock
import MembraL3.Lib.RingBuffer
import MembraL3.Lib.Runs
import Mathlib.Algebra.BigOperators.Group.List.Basic
import Mathlib.Algebra.Order.BigOperators.Group.List
import Mathlib.Algebra.Order.Field.Rat
import Mathlib.Tactic.Linarith

namespace Membra

inductive VolatilitySignal where
  | volatilityDetected
  | volatilityPaused
  | gasSpike
  | gasNormal
  | coverageWarning
  | coverageHealthy
  | oracleStale
  | oracleFresh
  deriving DecidableEq

structure PricePoint where
  priceUsd : ℚ
  timestamp : Seconds
  volumeUsd : ℚ
  deriving DecidableEq

structure GasConditions where
  baseFeeLamports : UInt64
  priorityFeeLamports : UInt64
  congested : Bool
  timestamp : Seconds
  deriving DecidableEq

structure VolatilityReport where
  signal : VolatilitySignal
  confidence : ℚ
  membraTwap : ℚ
  priceChangePct : ℚ
  coverageRatio : ℚ
  oracleAgeSeconds : ℚ
  timestamp : Seconds
  deriving DecidableEq

namespace VolatilityOracle

def priceHistorySize : ℕ := 100

instance : NeZero priceHistorySize := ⟨by decide⟩

end VolatilityOracle

open VolatilityOracle in
/-- `price_history_` is a ring, written next at `price_index_`. -/
structure VolatilityOracle where
  priceHistory : Vector PricePoint priceHistorySize
  priceIndex : Fin priceHistorySize
  latestGas : GasConditions
  lastOracleUpdate : Seconds
  lastTwap : ℚ
  lastPriceChange : ℚ
  deriving DecidableEq

namespace VolatilityOracle

def volatilityThreshold : ℚ := 2 / 100

def oracleStaleSeconds : ℚ := 300

def minDataPoints : ℕ := 12

def new : VolatilityOracle where
  priceHistory := Vector.replicate priceHistorySize ⟨0, 0, 0⟩
  priceIndex := 0
  latestGas := ⟨5000, 0, false, 0⟩
  lastOracleUpdate := 0
  lastTwap := 0
  lastPriceChange := 0

def feedPrice (oracle : VolatilityOracle) (priceUsd volumeUsd : ℚ) (now : Seconds) :
    VolatilityOracle :=
  { oracle with
    priceHistory := oracle.priceHistory.set oracle.priceIndex ⟨priceUsd, now, volumeUsd⟩
    priceIndex := oracle.priceIndex + 1
    lastOracleUpdate := now }

def feedGas (oracle : VolatilityOracle) (baseFee priorityFee : UInt64) (congested : Bool)
    (now : Seconds) : VolatilityOracle :=
  { oracle with latestGas := ⟨baseFee, priorityFee, congested, now⟩ }

/-! ### The price change -/

/-- The first loop of `compute_twap`: the total price, the total volume and the number
of the points with a time. -/
def addPoint (sums : ℚ × ℚ × ℕ) (point : PricePoint) : ℚ × ℚ × ℕ :=
  let (totalPrice, totalVolume, count) := sums
  if 0 < point.timestamp then
    if 0 < point.volumeUsd then
      (totalPrice + point.priceUsd * point.volumeUsd, totalVolume + point.volumeUsd, count + 1)
    else (totalPrice + point.priceUsd, totalVolume + 1, count + 1)
  else sums

/-- The second loop: the first price, the last price, and whether there is one. -/
def seePoint (seen : ℚ × ℚ × Bool) (point : PricePoint) : ℚ × ℚ × Bool :=
  let (firstPrice, _, found) := seen
  if 0 < point.timestamp then
    (if found then firstPrice else point.priceUsd, point.priceUsd, true)
  else seen

def computeTwap (oracle : VolatilityOracle) : ℚ × ℚ :=
  let (totalPrice, totalVolume, count) := oracle.priceHistory.toList.foldl addPoint (0, 0, 0)
  if count < minDataPoints ∨ totalVolume = 0 then (0, 0)
  else
    let twap := totalPrice / totalVolume
    let (firstPrice, lastPrice, _) :=
      (RingBuffer.read oracle.priceHistory oracle.priceIndex).foldl seePoint (0, 0, false)
    let change := if 0 < firstPrice then (lastPrice - firstPrice) / firstPrice else 0
    (twap, change)

/-! ### The window

Both loops see the points with a time only, and of a ring the last hundred feeds. -/

/-- Points with a time have been fed. -/
def isValid (point : PricePoint) : Bool := 0 < point.timestamp

theorem isValid_iff {point : PricePoint} : isValid point = true ↔ 0 < point.timestamp :=
  decide_eq_true_iff

/-- What a price counts in the average. -/
def weight (point : PricePoint) : ℚ := if 0 < point.volumeUsd then point.volumeUsd else 1

theorem weight_pos (point : PricePoint) : 0 < weight point := by
  rw [weight]
  split
  · rename_i hvolume
    exact hvolume
  · exact one_pos

theorem addPoint_eq (sums : ℚ × ℚ × ℕ) (point : PricePoint) :
    addPoint sums point =
      if isValid point then
        (sums.1 + point.priceUsd * weight point, sums.2.1 + weight point, sums.2.2 + 1)
      else sums := by
  rw [addPoint]
  simp only [isValid_iff, weight]
  split
  · split
    · rfl
    · rw [mul_one]
  · rfl

theorem foldl_addPoint (points : List PricePoint) :
    points.foldl addPoint (0, 0, 0) =
      (((points.filter isValid).map fun point => point.priceUsd * weight point).sum,
        ((points.filter isValid).map weight).sum, (points.filter isValid).length) := by
  induction points using List.reverseRecOn with
  | nil => rfl
  | append_singleton points point ih =>
    rw [List.foldl_append, List.foldl_cons, List.foldl_nil, ih, addPoint_eq]
    by_cases hvalid : isValid point = true
    · simp [hvalid]
    · simp [hvalid]

theorem foldl_seePoint (points : List PricePoint) :
    points.foldl seePoint (0, 0, false) =
      ((points.filter isValid).head?.elim 0 PricePoint.priceUsd,
        (points.filter isValid).getLast?.elim 0 PricePoint.priceUsd,
        !(points.filter isValid).isEmpty) := by
  induction points using List.reverseRecOn with
  | nil => rfl
  | append_singleton points point ih =>
    rw [List.foldl_append, List.foldl_cons, List.foldl_nil, ih, seePoint]
    by_cases hvalid : isValid point = true
    · rw [if_pos (isValid_iff.mp hvalid), List.filter_append, List.filter_cons_of_pos hvalid,
        List.filter_nil, List.getLast?_concat, List.head?_append]
      -- the point is the first one if there is none before it
      cases points.filter isValid with
      | nil => rfl
      | cons first rest => rfl
    · rw [if_neg fun htime => hvalid (isValid_iff.mpr htime), List.filter_append,
        List.filter_cons_of_neg hvalid, List.filter_nil, List.append_nil]

/-- The change from the oldest price of a window to the newest, relative to the oldest;
none where the window has too few points. -/
def windowChange (window : List PricePoint) : ℚ :=
  if window.length < minDataPoints then 0
  else
    let oldest := window.head?.elim 0 PricePoint.priceUsd
    let newest := window.getLast?.elim 0 PricePoint.priceUsd
    if 0 < oldest then (newest - oldest) / oldest else 0

/-- The points with a time, the oldest first. -/
def points (oracle : VolatilityOracle) : List PricePoint :=
  (RingBuffer.read oracle.priceHistory oracle.priceIndex).filter isValid

/-- Prices weighted by their volumes, and by one where there is none. -/
def weightedAverage (window : List PricePoint) : ℚ :=
  (window.map fun point => point.priceUsd * weight point).sum / (window.map weight).sum

/-- The average and the price change of a window. -/
def reference (window : List PricePoint) : ℚ × ℚ :=
  if window.length < minDataPoints then (0, 0)
  else (weightedAverage window, windowChange window)

theorem sum_weight_pos {window : List PricePoint} (h : window ≠ []) :
    0 < (window.map weight).sum := by
  refine List.sum_pos _ ?_ ?_
  · intro w hw
    obtain ⟨point, -, rfl⟩ := List.mem_map.mp hw
    exact weight_pos point
  · rwa [Ne, List.map_eq_nil_iff]

/-- The first loop sees the points in the order of the slots, which does not matter. -/
theorem foldl_addPoint_slots (oracle : VolatilityOracle) :
    oracle.priceHistory.toList.foldl addPoint (0, 0, 0) =
      ((oracle.points.map fun point => point.priceUsd * weight point).sum,
        (oracle.points.map weight).sum, oracle.points.length) := by
  have hperm : (oracle.priceHistory.toList.filter isValid).Perm oracle.points :=
    ((RingBuffer.read_perm oracle.priceHistory oracle.priceIndex).filter isValid).symm
  rw [foldl_addPoint, hperm.length_eq, (hperm.map weight).sum_eq,
    (hperm.map fun point => point.priceUsd * weight point).sum_eq]

theorem computeTwap_eq_reference (oracle : VolatilityOracle) :
    oracle.computeTwap = reference oracle.points := by
  rw [computeTwap, foldl_addPoint_slots, foldl_seePoint, reference]
  show (if _ ∨ _ then _ else _ : ℚ × ℚ) = _
  by_cases hfew : oracle.points.length < minDataPoints
  · rw [if_pos (.inl hfew), if_pos hfew]
  · -- enough points have a volume, so that nothing is divided by zero
    have hne : oracle.points ≠ [] := by
      intro hnil
      rw [hnil] at hfew
      exact hfew (by decide)
    have hneither : ¬ (oracle.points.length < minDataPoints ∨ (oracle.points.map weight).sum = 0) :=
      not_or.mpr ⟨hfew, (sum_weight_pos hne).ne'⟩
    rw [if_neg hneither, if_neg hfew, weightedAverage, windowChange, if_neg hfew]
    rfl

theorem computeTwap_snd (oracle : VolatilityOracle) :
    oracle.computeTwap.2 = windowChange oracle.points := by
  rw [computeTwap_eq_reference, reference]
  by_cases hfew : oracle.points.length < minDataPoints
  · rw [if_pos hfew, windowChange, if_pos hfew]
  · rw [if_neg hfew]

/-! ### The signal and the gate -/

/-- The signal, and the confidence in it. -/
def determineSignal (oracleAge coverageRatio priceChange : ℚ) : VolatilitySignal × ℚ :=
  let oracleStale := oracleAge > oracleStaleSeconds
  let coverageLow := coverageRatio < 15 / 10
  if oracleStale then (.oracleStale, 95 / 100)
  else if coverageLow then (.coverageWarning, 9 / 10)
  else if volatilityThreshold ≤ |priceChange| then
    (.volatilityDetected, min (95 / 100) (5 / 10 + |priceChange| * 10))
  else (.volatilityPaused, 7 / 10)

def assess (oracle : VolatilityOracle) (coverageRatio : ℚ) (now : Seconds) :
    VolatilityReport × VolatilityOracle :=
  let (twap, priceChange) := oracle.computeTwap
  let oracleAge := now - oracle.lastOracleUpdate
  let (signal, confidence) := determineSignal oracleAge coverageRatio priceChange
  (⟨signal, confidence, twap, priceChange * 100, coverageRatio, oracleAge, now⟩,
    { oracle with lastTwap := twap, lastPriceChange := priceChange })

def canUnlockRebase (oracle : VolatilityOracle) : Bool :=
  volatilityThreshold ≤ |oracle.lastPriceChange|

/-! ### Runs -/

inductive Call where
  | feedPrice (priceUsd volumeUsd : ℚ)
  | feedGas (baseFee priorityFee : UInt64) (congested : Bool)
  | assess (coverageRatio : ℚ)
  deriving DecidableEq

/-- A call at a time, with the report of an assessment. -/
def step (oracle : VolatilityOracle) : Call × Seconds → Option VolatilityReport × VolatilityOracle
  | (.feedPrice priceUsd volumeUsd, now) => (none, oracle.feedPrice priceUsd volumeUsd now)
  | (.feedGas baseFee priorityFee congested, now) =>
    (none, oracle.feedGas baseFee priorityFee congested now)
  | (.assess coverageRatio, now) =>
    let (report, oracle') := oracle.assess coverageRatio now
    (some report, oracle')

/-- The point of a feed. -/
def feedOf : Call × Seconds → Option PricePoint
  | (.feedPrice priceUsd volumeUsd, now) => some ⟨priceUsd, now, volumeUsd⟩
  | _ => none

/-- The points that a run has fed. -/
def fed (calls : List (Call × Seconds)) : List PricePoint := calls.filterMap feedOf

/-- The points with a time among the last hundred. -/
def window (feeds : List PricePoint) : List PricePoint :=
  (feeds.rtake priceHistorySize).filter isValid

/-- The time of the last feed, zero before there is one. -/
def lastFeedTime (feeds : List PricePoint) : Seconds :=
  feeds.getLast?.elim 0 PricePoint.timestamp

/-- The ring and the time of its last update are those of a sequence of feeds. -/
structure Tracks (oracle : VolatilityOracle) (feeds : List PricePoint) : Prop where
  holds : RingBuffer.Holds ⟨0, 0, 0⟩ oracle.priceHistory oracle.priceIndex feeds
  updated : oracle.lastOracleUpdate = lastFeedTime feeds

theorem tracks_new : Tracks new [] where
  holds := RingBuffer.holds_nil
  updated := rfl

theorem Tracks.points_eq {oracle : VolatilityOracle} {feeds : List PricePoint}
    (h : Tracks oracle feeds) : oracle.points = window feeds :=
  h.holds.filter_read (by decide)

theorem tracks_step {oracle : VolatilityOracle} {feeds : List PricePoint} (h : Tracks oracle feeds)
    (c : Call × Seconds) : Tracks (step oracle c).2 (feeds ++ (feedOf c).toList) := by
  obtain ⟨call, now⟩ := c
  cases call with
  | feedPrice priceUsd volumeUsd =>
    refine ⟨h.holds.set, ?_⟩
    show now = lastFeedTime (feeds ++ [_])
    rw [lastFeedTime, List.getLast?_concat]
    rfl
  | feedGas baseFee priorityFee congested =>
    show Tracks (oracle.feedGas baseFee priorityFee congested now) (feeds ++ [])
    rw [List.append_nil]
    exact ⟨h.holds, h.updated⟩
  | assess coverageRatio =>
    show Tracks (oracle.assess coverageRatio now).2 (feeds ++ [])
    rw [List.append_nil]
    exact ⟨h.holds, h.updated⟩

open Runs

theorem tracks_final (calls : List (Call × Seconds)) :
    Tracks (final step new calls) (fed calls) := by
  induction calls using List.reverseRecOn with
  | nil => exact tracks_new
  | append_singleton calls c ih =>
    have hfed : fed (calls ++ [c]) = fed calls ++ (feedOf c).toList := by
      rw [fed, List.filterMap_append]
      cases hc : feedOf c <;> simp [fed, hc]
    rw [final_append, hfed]
    exact tracks_step ih c

/-- The report of the most recent assessment. -/
def lastReport (calls : List (Call × Seconds)) : Option VolatilityReport :=
  ((trace step new calls).filterMap Event.result).getLast?

/-! ### The gate -/

theorem determineSignal_eq_volatilityDetected_iff (oracleAge coverageRatio priceChange : ℚ) :
    (determineSignal oracleAge coverageRatio priceChange).1 = .volatilityDetected ↔
      oracleAge ≤ oracleStaleSeconds ∧ 15 / 10 ≤ coverageRatio ∧
        volatilityThreshold ≤ |priceChange| := by
  rw [determineSignal]
  split
  · rename_i hstale
    exact iff_of_false (by decide) fun h => absurd h.1 (not_le.mpr hstale)
  · rename_i hfresh
    split
    · rename_i hlow
      exact iff_of_false (by decide) fun h => absurd h.2.1 (not_le.mpr hlow)
    · rename_i hcovered
      split
      · rename_i hchange
        exact iff_of_true rfl ⟨not_lt.mp hfresh, not_lt.mp hcovered, hchange⟩
      · rename_i hchange
        exact iff_of_false (by decide) fun h => hchange h.2.2

/-- In every state of a run, the gate is open only where the most recent assessment has
reported volatility. -/
def OpensOnDetected (calls : List (Call × Seconds)) : Prop :=
  ∀ pre, pre <+: calls → (final step new pre).canUnlockRebase = true →
    ∃ report, lastReport pre = some report ∧ report.signal = .volatilityDetected

/-- A large change of the prices fed is assessed within five minutes of the last feed, and
with enough coverage. -/
def AssessedInTime (feeds : List PricePoint) : Call × Seconds → Prop
  | (.assess coverageRatio, now) =>
    volatilityThreshold ≤ |windowChange (window feeds)| →
      now - lastFeedTime feeds ≤ oracleStaleSeconds ∧ 15 / 10 ≤ coverageRatio
  | _ => True

section

variable {oracle : VolatilityOracle} {feeds : List PricePoint} (h : Tracks oracle feeds)
  (coverageRatio : ℚ) (now : Seconds)

include h

theorem canUnlockRebase_assess :
    (oracle.assess coverageRatio now).2.canUnlockRebase = true ↔
      volatilityThreshold ≤ |windowChange (window feeds)| := by
  rw [← h.points_eq, ← computeTwap_snd]
  exact decide_eq_true_iff

theorem signal_assess :
    (oracle.assess coverageRatio now).1.signal =
      (determineSignal (now - lastFeedTime feeds) coverageRatio
        (windowChange (window feeds))).1 := by
  rw [← h.points_eq, ← computeTwap_snd, ← h.updated]
  rfl

/-- An assessment that opens the gate reports volatility iff it is in time. -/
theorem opens_assess_iff :
    ((oracle.assess coverageRatio now).2.canUnlockRebase = true →
        (oracle.assess coverageRatio now).1.signal = .volatilityDetected) ↔
      AssessedInTime feeds (.assess coverageRatio, now) := by
  rw [canUnlockRebase_assess h, signal_assess h, determineSignal_eq_volatilityDetected_iff,
    AssessedInTime]
  refine imp_congr_right ?_
  intro hchange
  rw [and_iff_left hchange]

end

theorem lastReport_append_singleton (pre : List (Call × Seconds)) (c : Call × Seconds) :
    lastReport (pre ++ [c]) = (step (final step new pre) c).1.or (lastReport pre) := by
  rw [lastReport, trace_append, List.filterMap_append, trace_cons, trace_nil]
  cases hresult : (step (final step new pre) c).1 with
  | none =>
    rw [List.filterMap_cons_none (by rw [event_result, hresult]), List.filterMap_nil,
      List.append_nil, Option.none_or, lastReport]
  | some report =>
    rw [List.filterMap_cons_some (by rw [event_result, hresult]), List.filterMap_nil,
      List.getLast?_concat, Option.some_or]

/-- The gate follows the reports of volatility in exactly the runs in which every large
change is assessed in time and with enough coverage. -/
theorem opensOnDetected_iff (calls : List (Call × Seconds)) :
    OpensOnDetected calls ↔
      ∀ pre c, pre ++ [c] <+: calls → AssessedInTime (fed pre) c := by
  refine forall_prefix_iff ?_ ?_
  · intro hopen
    exact absurd hopen (by decide +kernel)
  · intro pre c _ hpast
    have hbefore := hpast pre (List.prefix_refl pre)
    rw [final_append, final_cons, final_nil, lastReport_append_singleton]
    obtain ⟨call, now⟩ := c
    cases call with
    | feedPrice priceUsd volumeUsd => exact iff_of_true hbefore trivial
    | feedGas baseFee priorityFee congested => exact iff_of_true hbefore trivial
    | assess coverageRatio =>
      have hreport : (step (final step new pre) (.assess coverageRatio, now)).1
          = some ((final step new pre).assess coverageRatio now).1 := rfl
      rw [hreport, Option.some_or]
      refine Iff.trans ?_ (opens_assess_iff (tracks_final pre) coverageRatio now)
      refine imp_congr_right ?_
      intro _
      constructor
      · rintro ⟨report, heq, hdetected⟩
        rwa [Option.some_inj.mp heq]
      · intro hdetected
        exact ⟨_, rfl, hdetected⟩

/-- Prices that rise by 11 % within eleven seconds, assessed an hour later. -/
def assessedLate : List (Call × Seconds) :=
  ((List.range 12).map fun i => (Call.feedPrice (100 + i) 1, 1000 + (i : ℚ))) ++
    [(Call.assess 2, 4611)]

theorem not_forall_opensOnDetected : ¬ ∀ calls, OpensOnDetected calls := by
  intro h
  obtain ⟨report, hreport, hsignal⟩ :=
    h assessedLate assessedLate (List.prefix_refl _) (by decide +kernel)
  have hstale : (lastReport assessedLate).map VolatilityReport.signal = some .oracleStale := by
    decide +kernel
  rw [hreport, Option.map_some, hsignal] at hstale
  exact absurd hstale (by decide)

end VolatilityOracle

end Membra
