/-
The two valuations of a futures position.

Settlement pays the gain of a position times its size.  Liquidation weighs the gain
itself, and none at all for a forward contract.

* `separates_iff` — when two gains are on different sides of a threshold;
* `liquidates_iff`, `wouldSettleLow_iff` — the ratio that each of the two decides by;
* `valuedAlike_iff` — when the check decides as the pnl of a settlement would.
-/
import MembraL3.FuturesLifecycle
import MembraL3.FuturesLoss

namespace Membra

/-- The gain at which collateral and gain are half of the notional value. -/
def ComputeFuture.breakEven (future : ComputeFuture) : ℚ :=
  future.notionalValue / 2 - future.collateralSol

/-- The threshold is above one of the values and not above the other; for a negative
notional value the sides change places. -/
def Separates (notionalValue threshold a b : ℚ) : Prop :=
  if 0 < notionalValue then min a b < threshold ∧ threshold ≤ max a b
  else min a b ≤ threshold ∧ threshold < max a b

theorem separates_iff {n c a b : ℚ} (hn : n ≠ 0) :
    Separates n (n / 2 - c) a b ↔ ¬ ((c + a) / n < 1 / 2 ↔ (c + b) / n < 1 / 2) := by
  rw [Separates]
  rcases hn.lt_or_gt with hneg | hpos
  · -- dividing by a negative value turns the comparison round
    have hside : ∀ x, (c + x) / n < 1 / 2 ↔ n / 2 - c < x := by
      intro x
      rw [div_lt_iff_of_neg hneg]
      constructor
      · intro h
        linarith
      · intro h
        linarith
    rw [if_neg hneg.not_gt, hside, hside]
    grind
  · have hside : ∀ x, (c + x) / n < 1 / 2 ↔ x < n / 2 - c := by
      intro x
      rw [div_lt_iff₀ hpos]
      constructor
      · intro h
        linarith
      · intro h
        linarith
    rw [if_pos hpos, hside, hside]
    grind

namespace FuturesSystem

open ComputeFuturesMarket Runs

variable {order : MapOrder} {market : ComputeFuturesMarket} {oracle : ComputePriceOracle}
  {id : String} {future : ComputeFuture}

/-- The check liquidates the position under `id`. -/
def Liquidates (order : MapOrder) (market : ComputeFuturesMarket) (oracle : ComputePriceOracle)
    (id : String) : Prop :=
  ((market.checkLiquidations order oracle).2.futures.lookup id).map ComputeFuture.status
    = some .liquidated

/-- Collateral and pnl would be less than half of the notional value if the position were
settled instead. -/
def WouldSettleLow (market : ComputeFuturesMarket) (oracle : ComputePriceOracle) (id : String)
    (future : ComputeFuture) (now : Seconds) : Prop :=
  ∃ pnl, (market.settleFuture oracle id now).1 = some pnl ∧
    (future.collateralSol + pnl) / future.notionalValue < 1 / 2

theorem liquidates_iff (hlookup : market.futures.lookup id = some future)
    (hopen : future.status = .opened) (hn : future.notionalValue ≠ 0) :
    Liquidates order market oracle id ↔
      (future.collateralSol + future.unrealizedPnl oracle.currentIndex) / future.notionalValue
        < 1 / 2 := by
  have hlow := liquidatable_iff (p := oracle.currentIndex) hn
  rw [Liquidates, lookup_checkLiquidations, hlookup, Option.map_some, Option.map_some,
    Option.some_inj, sweep]
  by_cases h : liquidatable oracle.currentIndex future = true
  · rw [if_pos h]
    exact iff_of_true rfl (hlow.mp h).2
  · rw [if_neg h, hopen]
    exact iff_of_false (by decide) fun hratio => h (hlow.mpr ⟨hopen, hratio⟩)

theorem wouldSettleLow_iff (hlookup : market.futures.lookup id = some future)
    (hopen : future.status = .opened) (now : Seconds) :
    WouldSettleLow market oracle id future now ↔
      (future.collateralSol + future.settlementPnl oracle.currentIndex) / future.notionalValue
        < 1 / 2 := by
  have hsettled : (market.settleFuture oracle id now).1
      = some (future.settlementPnl oracle.currentIndex) := by
    rw [settleFuture, hlookup]
    simp only [hopen, ne_eq, not_true_eq_false, if_false]
    rfl
  rw [WouldSettleLow, hsettled]
  constructor
  · rintro ⟨pnl, hpnl, hlow⟩
    rwa [Option.some_inj.mp hpnl]
  · intro hlow
    exact ⟨_, rfl, hlow⟩

/-- The check decides as the pnl of a settlement at the same index would. -/
def ValuedAlike (order : MapOrder) (market : ComputeFuturesMarket) (oracle : ComputePriceOracle)
    (id : String) (future : ComputeFuture) (now : Seconds) : Prop :=
  Liquidates order market oracle id ↔ WouldSettleLow market oracle id future now

/-- An open position is valued alike unless the gain at which it would break even is
between the gain that the check counts and the gain times the size. -/
theorem valuedAlike_iff (order : MapOrder) (hlookup : market.futures.lookup id = some future)
    (hopen : future.status = .opened) (hn : future.notionalValue ≠ 0) (now : Seconds) :
    ValuedAlike order market oracle id future now ↔
      ¬ Separates future.notionalValue future.breakEven
        (if future.type = .forwardContract then 0 else future.gain oracle.currentIndex)
        (future.gain oracle.currentIndex * future.size) := by
  rw [ValuedAlike, liquidates_iff hlookup hopen hn, wouldSettleLow_iff hlookup hopen,
    ComputeFuture.unrealizedPnl_eq_gain, ComputeFuture.settlementPnl_eq_gain,
    ComputeFuture.breakEven, separates_iff hn, not_not]

/-- A forward contract with a collateral of 1, and the index then doubled. -/
def doubled : List Call := [.openPosition (forward 1), .feedPrice 2 2 0]

theorem lookup_doubled :
    (final (step newestFirst) new doubled).market.futures.lookup "fwd_0" = some forwardFuture := by
  decide +kernel

theorem forwardFuture_notionalValue_ne_zero : forwardFuture.notionalValue ≠ 0 := by
  show (6 / 5 : ℚ) ≠ 0
  norm_num

/-- It is not liquidated, although settling would take 6/5 of a collateral of 1. -/
theorem valuedAlike_iff_doubled :
    let system := final (step newestFirst) new doubled
    ¬ Liquidates newestFirst system.market system.oracle "fwd_0" ∧
    (ValuedAlike newestFirst system.market system.oracle "fwd_0" forwardFuture 0 ↔
      ¬ Separates forwardFuture.notionalValue forwardFuture.breakEven
        (if forwardFuture.type = .forwardContract then 0
          else forwardFuture.gain system.oracle.currentIndex)
        (forwardFuture.gain system.oracle.currentIndex * forwardFuture.size)) := by
  intro system
  refine ⟨?_, valuedAlike_iff newestFirst lookup_doubled rfl
    forwardFuture_notionalValue_ne_zero 0⟩
  rw [liquidates_iff lookup_doubled rfl forwardFuture_notionalValue_ne_zero]
  decide +kernel

theorem not_forall_valuedAlike :
    ¬ ∀ (order : MapOrder) (calls : List Call) (id : String) (future : ComputeFuture)
        (now : Seconds),
      (final (step order) new calls).market.futures.lookup id = some future →
      future.status = .opened → future.notionalValue ≠ 0 →
      ValuedAlike order (final (step order) new calls).market
        (final (step order) new calls).oracle id future now := by
  intro h
  have halike := h newestFirst doubled "fwd_0" forwardFuture 0 lookup_doubled rfl
    forwardFuture_notionalValue_ne_zero
  rw [ValuedAlike, liquidates_iff lookup_doubled rfl forwardFuture_notionalValue_ne_zero,
    wouldSettleLow_iff lookup_doubled rfl] at halike
  exact absurd halike (by decide +kernel)

end FuturesSystem

end Membra
