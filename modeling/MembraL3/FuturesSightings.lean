/-
What the futures market sees of the oracle.

An opening loads two prices for its notional value and the third for its entry price,
without the oracle's mutex, so it can see those of different feeds.  A moment is a number
of stores to the prices: a feed makes three.

* `published` — the current prices at a moment;
* `trade` — a call on the market that has loaded each price at a moment of its own;
* `Ascending` — loads that follow each other;
* `InTurn` — the calls of a thread, on the oracle and on the market, follow each other.
-/
import MembraL3.FuturesThreads

namespace Membra

open Threads Runs

namespace FuturesSystem

open ComputePriceOracle ComputeFuturesMarket

/-! ### What the oracle has published -/

/-- The prices of a feed, and its time. -/
abbrev Feed : Type := ℚ × ℚ × Seconds

def feedOf : Call → Option Feed
  | .feedPrice cpu ram now => some (cpu, ram, now)
  | _ => none

/-- The oracle after these feeds. -/
def fed (feeds : List Feed) : ComputePriceOracle :=
  feeds.foldl (fun oracle feed => oracle.feedPrice feed.1 feed.2.1 feed.2.2) .new

/-- The current prices after so many stores to them.  A feed makes three, first that of the
index, then those of the prices of cores and of memory. -/
def published (feeds : List Feed) (moment : ℕ) : Prices where
  index := (fed (feeds.take ((moment + 2) / 3))).currentIndex
  cpu := (fed (feeds.take ((moment + 1) / 3))).currentCpuPrice
  ram := (fed (feeds.take (moment / 3))).currentRamPrice

theorem fed_append (feeds : List Feed) (feed : Feed) :
    fed (feeds ++ [feed]) = (fed feeds).feedPrice feed.1 feed.2.1 feed.2.2 :=
  List.foldl_append

section

variable {feeds : List Feed} {moment : ℕ}

theorem published_append (h : (moment + 2) / 3 ≤ feeds.length) (more : List Feed) :
    published (feeds ++ more) moment = published feeds moment := by
  rw [published, published, List.take_append_of_le_length h,
    List.take_append_of_le_length (by omega), List.take_append_of_le_length (by omega)]

/-- What has been published by a moment, where the stores are counted for each price. -/
theorem published_eq {i c r : ℕ} (hindex : (moment + 2) / 3 = i) (hcpu : (moment + 1) / 3 = c)
    (hram : moment / 3 = r) :
    published feeds moment
      = ⟨(fed (feeds.take i)).currentIndex, (fed (feeds.take c)).currentCpuPrice,
        (fed (feeds.take r)).currentRamPrice⟩ := by
  subst hindex hcpu hram
  rfl

variable (feeds) (feed : Feed)

/-- Between two feeds. -/
theorem published_all : published feeds (3 * feeds.length) = (fed feeds).prices := by
  have htake : feeds.take feeds.length = feeds := List.take_length
  rw [published_eq (i := feeds.length) (c := feeds.length) (r := feeds.length) (by omega)
    (by omega) (by omega), htake]
  rfl

theorem published_index :
    published (feeds ++ [feed]) (3 * feeds.length + 1)
      = { (fed feeds).prices with index := (fed (feeds ++ [feed])).currentIndex } := by
  have hall : (feeds ++ [feed]).take (feeds.length + 1) = feeds ++ [feed] :=
    List.take_of_length_le (by simp)
  have hold : (feeds ++ [feed]).take feeds.length = feeds := List.take_left
  rw [published_eq (i := feeds.length + 1) (c := feeds.length) (r := feeds.length) (by omega)
    (by omega) (by omega), hall, hold]
  rfl

theorem published_cpu :
    published (feeds ++ [feed]) (3 * feeds.length + 2)
      = { (fed (feeds ++ [feed])).prices with ram := (fed feeds).currentRamPrice } := by
  have hall : (feeds ++ [feed]).take (feeds.length + 1) = feeds ++ [feed] :=
    List.take_of_length_le (by simp)
  have hold : (feeds ++ [feed]).take feeds.length = feeds := List.take_left
  rw [published_eq (i := feeds.length + 1) (c := feeds.length + 1) (r := feeds.length) (by omega)
    (by omega) (by omega), hall, hold]
  rfl

end

/-! ### Sightings -/

/-- When the three prices have been loaded, in the order of `open_forward`. -/
structure Sighting where
  cpuAt : ℕ
  ramAt : ℕ
  indexAt : ℕ
  cpu_le : cpuAt ≤ ramAt
  ram_le : ramAt ≤ indexAt

namespace Sighting

def moments (sighting : Sighting) : List ℕ := [sighting.cpuAt, sighting.ramAt, sighting.indexAt]

/-- What has been loaded. -/
def prices (sighting : Sighting) (feeds : List Feed) : Prices where
  index := (published feeds sighting.indexAt).index
  cpu := (published feeds sighting.cpuAt).cpu
  ram := (published feeds sighting.ramAt).ram

/-- All at one moment. -/
def now (moment : ℕ) : Sighting := ⟨moment, moment, moment, le_rfl, le_rfl⟩

/-- Later feeds change nothing of it. -/
theorem prices_append {sighting : Sighting} {feeds : List Feed}
    (h : (sighting.indexAt + 2) / 3 ≤ feeds.length) (more : List Feed) :
    sighting.prices (feeds ++ more) = sighting.prices feeds := by
  have hcpu := sighting.cpu_le
  have hram := sighting.ram_le
  rw [prices, prices, published_append h, published_append (by omega), published_append (by omega)]

end Sighting

/-- An oracle with these current prices. -/
def showing (seen : Prices) : ComputePriceOracle :=
  { ComputePriceOracle.new with
    currentIndex := seen.index
    currentCpuPrice := seen.cpu
    currentRamPrice := seen.ram }

/-- A call on the market that sees these prices. -/
def sell (order : MapOrder) (seen : Prices) (market : ComputeFuturesMarket) (c : Call) :
    Reply × ComputeFuturesMarket :=
  let (reply, system) := step order ⟨showing seen, market⟩ c
  (reply, system.market)

/-- A call on the market with what it has seen of the feeds. -/
def trade (order : MapOrder) (feeds : List Feed) (market : ComputeFuturesMarket)
    (c : Call × Sighting) : Reply × ComputeFuturesMarket :=
  sell order (c.2.prices feeds) market c.1

/-- These moments follow each other, and none is after `bound`. -/
structure Ascending (moments : List ℕ) (bound : ℕ) : Prop where
  sorted : moments.Pairwise (· ≤ ·)
  le_bound : ∀ moment ∈ moments, moment ≤ bound

theorem Ascending.mono {moments : List ℕ} {bound bound' : ℕ} (h : Ascending moments bound)
    (hle : bound ≤ bound') : Ascending moments bound' :=
  ⟨h.sorted, fun moment hmoment => (h.le_bound moment hmoment).trans hle⟩

/-- The loads of one more call. -/
theorem ascending_moments {moments : List ℕ} {sighting : Sighting} {bound : ℕ} :
    Ascending (moments ++ sighting.moments) bound
      ↔ Ascending moments sighting.cpuAt ∧ sighting.indexAt ≤ bound := by
  have hcpu := sighting.cpu_le
  have hram := sighting.ram_le
  constructor
  · rintro ⟨hsorted, hbound⟩
    obtain ⟨hmoments, -, hle⟩ := List.pairwise_append.mp hsorted
    exact ⟨⟨hmoments, fun moment hmoment => hle moment hmoment _ (by simp [Sighting.moments])⟩,
      hbound _ (by simp [Sighting.moments])⟩
  · rintro ⟨⟨hsorted, hle⟩, hindex⟩
    refine ⟨List.pairwise_append.mpr ⟨hsorted, ?_, fun moment hmoment moment' hmoment' => ?_⟩,
      fun moment hmoment => ?_⟩
    · simp [Sighting.moments]
      omega
    · have hmoment := hle moment hmoment
      simp only [Sighting.moments, List.mem_cons, List.not_mem_nil, or_false] at hmoment'
      omega
    · simp only [Sighting.moments, List.mem_append, List.mem_cons, List.not_mem_nil, or_false]
        at hmoment
      rcases hmoment with hmoment | hmoment
      · have := hle moment hmoment
        omega
      · omega

section

variable {T : Type}

/-- What has been fed. -/
def feedsOf (asked : List (T × Call × Reply)) : List Feed := (logged asked).filterMap feedOf

/-- The loads of these trades. -/
def sightings (traded : List (T × (Call × Sighting) × Reply)) : List ℕ :=
  traded.flatMap fun e => e.2.1.2.moments

/-- The loads of the trades of `t`. -/
def seenBy [DecidableEq T] (t : T) (traded : List (T × (Call × Sighting) × Reply)) :
    List Sighting :=
  (traded.filterMap (Atomic.ofThread t)).map fun e => e.1.2

/-- The calls of `t` follow each other, and the last ends by a moment.  A call on the
oracle has its place among those asked, and goes from the stores of the feeds before it
to its own; one on the market goes from its first load to its last. -/
inductive InTurn [DecidableEq T] (asked : List (T × Call × Reply)) (t : T) :
    List (Call × Reply) → List Sighting → ℕ → Prop
  | nil : InTurn asked t [] [] 0
  | ask {acc : List (Call × Reply)} {seen : List Sighting} {last : ℕ} {r : Call × Reply}
      {earlier later : List (T × Call × Reply)} (h : InTurn asked t acc seen last)
      (hplace : asked = earlier ++ (t, r) :: later)
      (hearlier : earlier.filterMap (Atomic.ofThread t)
        = acc.filter fun r => mutex r.1 = .computePrices)
      (hlast : last ≤ 3 * (feedsOf earlier).length) :
      InTurn asked t (acc ++ [r]) seen (3 * (feedsOf (earlier ++ [(t, r)])).length)
  | trade {acc : List (Call × Reply)} {seen : List Sighting} {last : ℕ} {r : Call × Reply}
      {sighting : Sighting} (h : InTurn asked t acc seen last) (hmarket : mutex r.1 = .futures)
      (hlast : last ≤ sighting.cpuAt) :
      InTurn asked t (acc ++ [r]) (seen ++ [sighting]) sighting.indexAt

theorem InTurn.mono [DecidableEq T] {asked asked' : List (T × Call × Reply)} {t : T}
    {acc : List (Call × Reply)} {seen : List Sighting} {last : ℕ}
    (h : InTurn asked t acc seen last) (hmore : asked <+: asked') :
    InTurn asked' t acc seen last := by
  obtain ⟨more, rfl⟩ := hmore
  induction h with
  | nil => exact .nil
  | @ask _ _ _ r earlier later h hplace hearlier hlast ih =>
    have hplace' : asked ++ more = earlier ++ (t, r) :: (later ++ more) := by
      rw [hplace, List.append_assoc, List.cons_append]
    exact .ask ih hplace' hearlier hlast
  | trade h hmarket hlast ih => exact .trade ih hmarket hlast

/-- Later feeds change nothing of trades that have seen earlier ones. -/
theorem trade_append {order : MapOrder} {traded : List (T × (Call × Sighting) × Reply)}
    {feeds : List Feed} {bound : ℕ} (h : Ascending (sightings traded) bound)
    (hbound : (bound + 2) / 3 ≤ feeds.length) (more : List Feed) {c : Call × Sighting}
    (hc : c ∈ logged traded) (market : ComputeFuturesMarket) :
    trade order feeds market c = trade order (feeds ++ more) market c := by
  obtain ⟨e, he, rfl⟩ := List.mem_map.mp hc
  have hindex := h.le_bound e.2.1.2.indexAt
    (List.mem_flatMap.mpr ⟨e, he, by simp [Sighting.moments]⟩)
  rw [trade, trade, Sighting.prices_append (by omega)]

end

end FuturesSystem

end Membra
