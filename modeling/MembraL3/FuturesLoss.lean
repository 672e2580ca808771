/-
Loss of a futures position.

A position may be settled at an index at which the last check has not liquidated
it.  The check weighs the move of the price times the leverage against the
collateral; settlement multiplies the move by the size of the position as well, and
a forward contract is not weighed at all.  So the collateral covers the loss only
under a condition on the terms at which the position is opened.

* `forall_move_le_iff` — all moves up to a margin and below a bound cost at most
  the collateral;
* `settlementPnl_eq_gain`, `unrealizedPnl_eq_gain` — the gain that both weigh;
* `lossCovered_iff` — the collateral covers every loss a check lets through exactly
  when the position `LimitsLoss`;
* `atRest_of_checked` — in a disciplined run a position is settled at its entry price
  or after a check has let it through;
* `limitedLoss_of_limitsLoss` — so all losses are limited where all positions limit
  theirs, and an opening that does not has a continuation with a larger loss.
-/
import MembraL3.FuturesPositions
import Mathlib.Algebra.Order.Field.Rat
import Mathlib.Tactic.Linarith
import Mathlib.Tactic.FieldSimp
import Mathlib.Tactic.Positivity

namespace Membra

/-! ### Moves and what they cost -/

/-- All moves up to `m` and below `b` cost at most `c`. -/
theorem forall_move_le_iff {c m b s : ℚ} (hc : 0 < c) (hs : 0 ≤ s) :
    (∀ d, d ≤ m → d < b → d * s ≤ c) ↔ m * s ≤ c ∨ b * s ≤ c := by
  constructor
  · intro hall
    by_contra hnot
    rw [not_or, not_le, not_le] at hnot
    obtain ⟨hm, hb⟩ := hnot
    have hpos : 0 < s := by
      rcases hs.lt_or_eq with hpos | rfl
      · exact hpos
      · rw [mul_zero] at hm
        exact absurd hm (not_lt.mpr hc.le)
    -- a move between the largest that is covered and both bounds
    have hcm : c / s < m := (div_lt_iff₀ hpos).mpr hm
    have hcb : c / s < b := (div_lt_iff₀ hpos).mpr hb
    have hmove := hall (min m ((c / s + b) / 2)) (min_le_left _ _)
      (min_lt_of_right_lt (by linarith))
    have hlarge : c / s < min m ((c / s + b) / 2) := lt_min hcm (by linarith)
    exact absurd hmove (not_le.mpr ((div_lt_iff₀ hpos).mp hlarge))
  · rintro (hm | hb) d hdm hdb
    · exact (mul_le_mul_of_nonneg_right hdm hs).trans hm
    · exact (mul_le_mul_of_nonneg_right hdb.le hs).trans hb

/-- The terms of a position under which its collateral `c` covers every loss that
liquidation lets through: `n` is the notional value, `s` the size and `b` the entry
price times the leverage. -/
def LimitsLoss (type : FutureType) (c n s b : ℚ) : Prop :=
  match type with
  | .forwardContract => s = 0 ∨ c < n / 2
  | .speculativeLong => (c - n / 2) * s ≤ c ∨ b * s ≤ c
  | .speculativeShort => (c - n / 2) * s ≤ c

namespace ComputeFuture

/-- What is true of the terms of every position: prices, leverage and collateral are
positive, and a forward contract has its target at the entry price. -/
structure WellPosed (future : ComputeFuture) : Prop where
  entryPrice_pos : 0 < future.entryPrice
  leverage_pos : 0 < future.leverage
  collateralSol_pos : 0 < future.collateralSol
  notionalValue_nonneg : 0 ≤ future.notionalValue
  size_eq_zero : future.notionalValue = 0 → future.size = 0
  targetPrice_eq : future.type = .forwardContract → future.targetPrice = future.entryPrice

/-- The terms of the position limit its loss. -/
def Limits (future : ComputeFuture) : Prop :=
  LimitsLoss future.type future.collateralSol future.notionalValue future.size
    (future.entryPrice * future.leverage)

variable {future : ComputeFuture}

theorem size_nonneg (future : ComputeFuture) : 0 ≤ future.size := by
  rw [size]
  positivity

theorem belowCollateral_eq_false_iff {p : ℚ} (h : 0 < future.notionalValue) :
    future.belowCollateral p = false ↔
      future.notionalValue / 2 ≤ future.collateralSol + future.unrealizedPnl p := by
  rw [belowCollateral, if_neg h.ne', decide_eq_false_iff_not, not_lt, le_div_iff₀ h]
  constructor
  · intro hle
    linarith
  · intro hle
    linarith

/-- Settling at a positive price at which the position is not liquidated costs no more
than the collateral. -/
def LossCovered (future : ComputeFuture) : Prop :=
  ∀ p, 0 < p → future.belowCollateral p = false → -future.collateralSol ≤ future.settlementPnl p

/-- What a position gains for each unit of its size. -/
def gain (future : ComputeFuture) (p : ℚ) : ℚ :=
  match future.type with
  | .speculativeLong => (p - future.entryPrice) * future.leverage
  | .speculativeShort => (future.entryPrice - p) * future.leverage
  | .forwardContract => future.targetPrice - p

theorem settlementPnl_eq_gain (future : ComputeFuture) (p : ℚ) :
    future.settlementPnl p = future.gain p * future.size := by
  rw [settlementPnl, gain]
  cases future.type <;> rfl

theorem unrealizedPnl_eq_gain (future : ComputeFuture) (p : ℚ) :
    future.unrealizedPnl p = if future.type = .forwardContract then 0 else future.gain p := by
  rw [unrealizedPnl, gain]
  cases future.type <;> rfl

/-- A position without a size has no loss. -/
theorem settlementPnl_of_size_eq_zero (h : future.size = 0) (p : ℚ) :
    future.settlementPnl p = 0 := by
  rw [settlementPnl_eq_gain, h, mul_zero]

/-- At the entry price there is no gain and no loss. -/
theorem WellPosed.settlementPnl_entryPrice (h : future.WellPosed) :
    future.settlementPnl future.entryPrice = 0 := by
  have hgain : future.gain future.entryPrice = 0 := by
    rw [gain]
    cases htype : future.type with
    | forwardContract => exact sub_eq_zero.mpr (h.targetPrice_eq htype)
    | speculativeLong => show (_ - _) * _ = (0 : ℚ); rw [sub_self, zero_mul]
    | speculativeShort => show (_ - _) * _ = (0 : ℚ); rw [sub_self, zero_mul]
  rw [settlementPnl_eq_gain, hgain, zero_mul]

theorem lossCovered_forward (h : future.WellPosed) (hn : 0 < future.notionalValue)
    (htype : future.type = .forwardContract) :
    future.LossCovered ↔ future.size = 0 ∨ future.collateralSol < future.notionalValue / 2 := by
  have hpnl : ∀ p, future.settlementPnl p = (future.entryPrice - p) * future.size := by
    intro p
    rw [settlementPnl, htype, ← h.targetPrice_eq htype]
  have hchecked : ∀ p, future.belowCollateral p = false ↔
      future.notionalValue / 2 ≤ future.collateralSol := by
    intro p
    rw [belowCollateral_eq_false_iff hn, unrealizedPnl, htype, add_zero]
  constructor
  · intro hcovered
    by_contra hnot
    rw [not_or, not_lt] at hnot
    obtain ⟨hsize, hmargin⟩ := hnot
    have hs : 0 < future.size := lt_of_le_of_ne future.size_nonneg (Ne.symm hsize)
    have hc := h.collateralSol_pos
    -- a price so high that the loss is the collateral and the size
    have hloss := hcovered (future.entryPrice + future.collateralSol / future.size + 1)
      (by have := h.entryPrice_pos; positivity) ((hchecked _).mpr hmargin)
    have hcancel : future.collateralSol / future.size * future.size = future.collateralSol :=
      div_mul_cancel₀ _ hsize
    rw [hpnl] at hloss
    linarith
  · rintro (hsize | hlow) p hp hfree
    · rw [settlementPnl_of_size_eq_zero hsize]
      exact (neg_neg_of_pos h.collateralSol_pos).le
    · exact absurd ((hchecked p).mp hfree) (not_le.mpr hlow)

/-- A speculative position is checked by the loss for each unit of its size. -/
theorem lossCovered_iff_gain (hn : 0 < future.notionalValue)
    (htype : future.type ≠ .forwardContract) :
    future.LossCovered ↔ ∀ p, 0 < p →
      -future.gain p ≤ future.collateralSol - future.notionalValue / 2 →
      -future.gain p * future.size ≤ future.collateralSol := by
  refine forall_congr' fun p => imp_congr_right fun _ => ?_
  rw [belowCollateral_eq_false_iff hn, unrealizedPnl_eq_gain, if_neg htype, settlementPnl_eq_gain,
    neg_mul]
  constructor
  · intro hcovered hmargin
    have hloss := hcovered (by linarith)
    linarith
  · intro hcovered hfree
    have hloss := hcovered (by linarith)
    linarith

theorem lossCovered_long (h : future.WellPosed) (hn : 0 < future.notionalValue)
    (htype : future.type = .speculativeLong) :
    future.LossCovered ↔
      (future.collateralSol - future.notionalValue / 2) * future.size ≤ future.collateralSol ∨
        future.entryPrice * future.leverage * future.size ≤ future.collateralSol := by
  have hL := h.leverage_pos
  have hgain : ∀ p, -future.gain p = (future.entryPrice - p) * future.leverage := by
    intro p
    rw [gain, htype]
    show -((p - _) * _) = _
    rw [← neg_mul, neg_sub]
  rw [← forall_move_le_iff h.collateralSol_pos future.size_nonneg,
    lossCovered_iff_gain hn (by rw [htype]; decide)]
  constructor
  · intro hcovered d hmargin hbound
    -- the price that has fallen by the move
    have hp : 0 < future.entryPrice - d / future.leverage :=
      sub_pos.mpr ((div_lt_iff₀ hL).mpr hbound)
    have hmove : -future.gain (future.entryPrice - d / future.leverage) = d := by
      rw [hgain, sub_sub_cancel, div_mul_cancel₀ _ hL.ne']
    have hloss := hcovered _ hp (hmove.le.trans hmargin)
    rwa [hmove] at hloss
  · intro hall p hp hmargin
    refine hall _ hmargin ?_
    rw [hgain]
    exact mul_lt_mul_of_pos_right (by linarith) hL

theorem lossCovered_short (h : future.WellPosed) (hn : 0 < future.notionalValue)
    (htype : future.type = .speculativeShort) :
    future.LossCovered ↔
      (future.collateralSol - future.notionalValue / 2) * future.size
        ≤ future.collateralSol := by
  have hL := h.leverage_pos
  rw [lossCovered_iff_gain hn (by rw [htype]; decide)]
  constructor
  · intro hcovered
    by_contra hnot
    rw [not_le] at hnot
    -- the price that has risen by the whole margin
    have hm : 0 < future.collateralSol - future.notionalValue / 2 := by
      by_contra hneg
      have hle := mul_nonpos_of_nonpos_of_nonneg (not_lt.mp hneg) future.size_nonneg
      linarith [h.collateralSol_pos]
    have hp : 0 < future.entryPrice
        + (future.collateralSol - future.notionalValue / 2) / future.leverage :=
      add_pos h.entryPrice_pos (div_pos hm hL)
    have hmove : -future.gain (future.entryPrice
        + (future.collateralSol - future.notionalValue / 2) / future.leverage)
        = future.collateralSol - future.notionalValue / 2 := by
      rw [gain, htype]
      show -((_ - (_ + _)) * _) = _
      rw [sub_add_cancel_left, neg_mul, neg_neg, div_mul_cancel₀ _ hL.ne']
    have hloss := hcovered _ hp hmove.le
    rw [hmove] at hloss
    exact absurd hloss (not_le.mpr hnot)
  · intro hmargin p _ hgain
    exact (mul_le_mul_of_nonneg_right hgain future.size_nonneg).trans hmargin

/-- The collateral covers every loss a check lets through exactly when the terms of
the position limit its loss. -/
theorem lossCovered_iff (h : future.WellPosed) : future.LossCovered ↔ future.Limits := by
  rcases h.notionalValue_nonneg.lt_or_eq with hn | hn
  · unfold Limits LimitsLoss
    cases htype : future.type with
    | forwardContract => exact lossCovered_forward h hn htype
    | speculativeLong => exact lossCovered_long h hn htype
    | speculativeShort => exact lossCovered_short h hn htype
  · -- no notional value, hence no size
    have hsize := h.size_eq_zero hn.symm
    have hc := h.collateralSol_pos
    have hlimits : future.Limits := by
      unfold Limits LimitsLoss
      rw [hsize]
      cases future.type with
      | forwardContract => exact .inl rfl
      | speculativeLong => exact .inl (by rw [mul_zero]; exact hc.le)
      | speculativeShort => show _ * (0 : ℚ) ≤ _; rw [mul_zero]; exact hc.le
    refine iff_of_true ?_ hlimits
    intro p hp hfree
    rw [settlementPnl_of_size_eq_zero hsize]
    exact (neg_neg_of_pos hc).le

end ComputeFuture

namespace FuturesSystem

open Runs ComputeFuturesMarket

/-! ### Disciplined runs -/

/-- Since the last feed there has been a check. -/
def checked (calls : List Call) : Bool :=
  calls.foldl (fun ok call =>
    match call with
    | .feedPrice .. => false
    | .checkLiquidations => true
    | _ => ok) true

/-- Prices, leverage and collateral of the call are positive. -/
def Call.Positive : Call → Prop
  | .feedPrice cpu ram _ => 0 < cpu ∧ 0 < ram
  | .openPosition c => 0 < c.leverage ∧ 0 < c.collateralSol
  | _ => True

/-- Every feed is followed by a check before the next settlement, and all amounts are
positive. -/
structure Disciplined (calls : List Call) : Prop where
  checks : ∀ pre id now, pre ++ [.settleFuture id now] <+: calls → checked pre = true
  positive : ∀ call ∈ calls, call.Positive

/-- The terms that a call opens a position at limit its loss. -/
def Limiting (system : FuturesSystem) (call : Call) : Prop :=
  ∀ c, call = .openPosition c →
    LimitsLoss c.type c.collateralSol
      (system.oracle.computeIndexForCpuRam c.cpuCores c.ramGb * c.leverage)
      (c.cpuCores.toNat * (1 / 10) + c.ramGb.toNat * (1 / 20))
      (system.oracle.currentIndex * c.leverage)

/-- No settlement returns less than minus the collateral. -/
def LimitedLoss (order : MapOrder) (calls : List Call) : Prop :=
  ∀ pre id now, pre ++ [.settleFuture id now] <+: calls → ∀ future pnl,
    (final (step order) new pre).market.futures.lookup id = some future →
    ((final (step order) new pre).market.settleFuture
      (final (step order) new pre).oracle id now).1 = some pnl →
    -future.collateralSol ≤ pnl

theorem checked_append (calls : List Call) (call : Call) :
    checked (calls ++ [call])
      = match call with
        | .feedPrice .. => false
        | .checkLiquidations => true
        | _ => checked calls := by
  rw [checked, List.foldl_append]
  rfl

theorem Disciplined.restrict {calls pre : List Call} (h : Disciplined calls)
    (hpre : pre <+: calls) : Disciplined pre :=
  ⟨fun p id now hp => h.checks p id now (hp.trans hpre),
    fun call hcall => h.positive call (hpre.subset hcall)⟩

variable {order : MapOrder} {system : FuturesSystem} {id : String} {call : Call}

/-! ### Positions are well posed -/

/-- The prices of the oracle are positive. -/
structure PositiveOracle (oracle : ComputePriceOracle) : Prop where
  index_pos : 0 < oracle.currentIndex
  cpu_pos : 0 < oracle.currentCpuPrice
  ram_pos : 0 < oracle.currentRamPrice

/-- Only a feed changes what the oracle says. -/
theorem oracle_step (order : MapOrder) (system : FuturesSystem) (call : Call) :
    (step order system call).2.oracle
      = match call with
        | .feedPrice cpu ram now => system.oracle.feedPrice cpu ram now
        | _ => system.oracle := by
  cases call <;> rfl

theorem positiveOracle_step (h : PositiveOracle system.oracle) (hcall : call.Positive) :
    PositiveOracle (step order system call).2.oracle := by
  rw [oracle_step]
  cases call with
  | feedPrice cpu ram now =>
    obtain ⟨hcpu, hram⟩ := hcall
    refine ⟨?_, hcpu, hram⟩
    show 0 < cpu * (3 / 5) + ram * (2 / 5)
    positivity
  | _ => exact h

/-- A position opened at positive prices, leverage and collateral is well posed. -/
theorem wellPosed_filledIn {market : ComputeFuturesMarket} {oracle : ComputePriceOracle}
    {c : OpenCall} {future : ComputeFuture} (hfilled : FilledIn market oracle c future)
    (horacle : PositiveOracle oracle) (hcall : (Call.openPosition c).Positive) :
    future.WellPosed := by
  obtain ⟨hleverage, hcollateral⟩ := hcall
  have hcpu := horacle.cpu_pos
  have hram := horacle.ram_pos
  constructor
  · rw [hfilled.entryPrice_eq]
    exact horacle.index_pos
  · rwa [hfilled.leverage_eq]
  · rwa [hfilled.collateralSol_eq]
  · rw [hfilled.notionalValue_eq, ComputePriceOracle.computeIndexForCpuRam]
    positivity
  · intro hnotional
    rw [hfilled.notionalValue_eq, ComputePriceOracle.computeIndexForCpuRam] at hnotional
    have hsum := (mul_eq_zero.mp hnotional).resolve_right hleverage.ne'
    have hcores : (0 : ℚ) ≤ c.cpuCores.toNat * oracle.currentCpuPrice := by positivity
    have hgb : (0 : ℚ) ≤ c.ramGb.toNat * oracle.currentRamPrice := by positivity
    have hcores0 : (c.cpuCores.toNat : ℚ) = 0 :=
      (mul_eq_zero.mp (show (c.cpuCores.toNat : ℚ) * oracle.currentCpuPrice = 0 by
        linarith)).resolve_right hcpu.ne'
    have hgb0 : (c.ramGb.toNat : ℚ) = 0 :=
      (mul_eq_zero.mp (show (c.ramGb.toNat : ℚ) * oracle.currentRamPrice = 0 by
        linarith)).resolve_right hram.ne'
    rw [ComputeFuture.size, hfilled.cpuCores_eq, hfilled.ramGb_eq, hcores0, hgb0]
    norm_num
  · intro htype
    rw [hfilled.type_eq] at htype
    rw [hfilled.targetPrice_eq htype, hfilled.entryPrice_eq]

/-- The terms of a position are those of the call that has opened it. -/
theorem limits_filledIn {c : OpenCall} {future : ComputeFuture}
    (hfilled : FilledIn system.market system.oracle c future) :
    future.Limits ↔ Limiting system (.openPosition c) := by
  have hterms : future.Limits ↔ LimitsLoss c.type c.collateralSol
      (system.oracle.computeIndexForCpuRam c.cpuCores c.ramGb * c.leverage)
      (c.cpuCores.toNat * (1 / 10) + c.ramGb.toNat * (1 / 20))
      (system.oracle.currentIndex * c.leverage) := by
    rw [ComputeFuture.Limits, ComputeFuture.size, hfilled.type_eq, hfilled.collateralSol_eq,
      hfilled.notionalValue_eq, hfilled.cpuCores_eq, hfilled.ramGb_eq, hfilled.entryPrice_eq,
      hfilled.leverage_eq]
  rw [hterms]
  constructor
  · rintro hlimits _ ⟨⟩
    exact hlimits
  · intro hlimiting
    exact hlimiting c rfl

/-- A call leaves the terms of a position alone. -/
theorem Moves.terms {future future' : ComputeFuture} (h : Moves system id call future future')
    (hposed : future.WellPosed) (hlimits : future.Limits) :
    future'.WellPosed ∧ future'.Limits := by
  cases h with
  | kept => exact ⟨hposed, hlimits⟩
  | settled now future hopen =>
    exact ⟨⟨hposed.1, hposed.2, hposed.3, hposed.4, hposed.5, hposed.6⟩, hlimits⟩
  | liquidated future hlow =>
    exact ⟨⟨hposed.1, hposed.2, hposed.3, hposed.4, hposed.5, hposed.6⟩, hlimits⟩

/-! ### What a settlement finds -/

/-- If the position is open, the last check at this index has let it through, or it has
been opened at this index. -/
def AtRest (system : FuturesSystem) (future : ComputeFuture) : Prop :=
  future.status = .opened →
    future.belowCollateral system.oracle.currentIndex = false ∨
      future.entryPrice = system.oracle.currentIndex

/-- Settling such a position costs no more than its collateral. -/
theorem settlementPnl_ge {future : ComputeFuture} (hindex : 0 < system.oracle.currentIndex)
    (hposed : future.WellPosed) (hlimits : future.Limits) (hrest : AtRest system future)
    (hopen : future.status = .opened) :
    -future.collateralSol ≤ future.settlementPnl system.oracle.currentIndex := by
  rcases hrest hopen with hfree | hentry
  · exact (ComputeFuture.lossCovered_iff hposed).mpr hlimits _ hindex hfree
  · rw [← hentry, hposed.settlementPnl_entryPrice]
    exact (neg_neg_of_pos hposed.collateralSol_pos).le

theorem atRest_step {future' : ComputeFuture} {calls : List Call}
    (hrest : checked calls = true → ∀ id future,
      system.market.futures.lookup id = some future → AtRest system future)
    (hchecked : checked (calls ++ [call]) = true)
    (hlookup : (step order system call).2.market.futures.lookup id = some future') :
    AtRest (step order system call).2 future' := by
  rw [checked_append] at hchecked
  rw [AtRest, oracle_step]
  intro hopen
  rcases lookup_of_step hlookup with ⟨future, hbefore, hmoves⟩ | ⟨c, rfl, hfilled, -⟩
  · cases hmoves with
    | settled now future hbefore => cases hopen
    | liquidated future hlow => cases hopen
    | kept =>
      cases call with
      | feedPrice cpu ram now => cases hchecked
      | checkLiquidations =>
        -- the check has let the position through
        have hlookup : (system.market.checkLiquidations order system.oracle).2.futures.lookup id
            = some future' := hlookup
        rw [lookup_checkLiquidations, hbefore, Option.map_some, Option.some.injEq] at hlookup
        have hlow := not_liquidatable_sweep system.oracle.currentIndex future'
        rw [hlookup, liquidatable, decide_eq_false_iff_not, not_and, Bool.not_eq_true] at hlow
        exact .inl (hlow hopen)
      | _ => exact hrest hchecked id future' hbefore hopen
  · exact .inr hfilled.entryPrice_eq

theorem positiveOracle_final (order : MapOrder) {calls : List Call}
    (hpositive : ∀ call ∈ calls, call.Positive) :
    PositiveOracle (final (step order) new calls).oracle := by
  refine final_induction (fun (system : FuturesSystem) call (h : PositiveOracle system.oracle)
    hcall => positiveOracle_step h hcall) ?_ (each_of_forall_mem (P := Call.Positive) hpositive)
  exact ⟨by decide +kernel, by decide +kernel, by decide +kernel⟩

/-- What a disciplined run whose positions limit their losses keeps of them. -/
theorem positions_final {calls : List Call} (hpositive : ∀ call ∈ calls, call.Positive)
    (hlimiting : Each (step order) Limiting new calls) :
    (∀ id future, (final (step order) new calls).market.futures.lookup id = some future →
      future.WellPosed ∧ future.Limits) ∧
    (checked calls = true → ∀ id future,
      (final (step order) new calls).market.futures.lookup id = some future →
        AtRest (final (step order) new calls) future) := by
  induction calls using List.reverseRecOn with
  | nil =>
    refine ⟨fun id future h => ?_, fun _ id future h => ?_⟩
    · cases h
    · cases h
  | append_singleton calls call ih =>
    rw [each_append, each_cons] at hlimiting
    obtain ⟨hpast, hnow, -⟩ := hlimiting
    have hbefore : ∀ call ∈ calls, call.Positive :=
      fun c hc => hpositive c (List.mem_append_left _ hc)
    have hcall := hpositive call (List.mem_append_right _ (List.mem_singleton_self call))
    obtain ⟨hterms, hrest⟩ := ih hbefore hpast
    rw [final_append, final_cons, final_nil]
    refine ⟨?_, fun hchecked id future hlookup => atRest_step hrest hchecked hlookup⟩
    intro id future' hlookup
    rcases lookup_of_step hlookup with ⟨future, hold, hmoves⟩ | ⟨c, rfl, hfilled, -⟩
    · exact hmoves.terms (hterms id future hold).1 (hterms id future hold).2
    · exact ⟨wellPosed_filledIn hfilled (positiveOracle_final order hbefore) hcall,
        (limits_filledIn hfilled).mpr hnow⟩

/-- Disciplined runs whose positions limit their losses have limited losses. -/
theorem limitedLoss {calls : List Call} (hdisciplined : Disciplined calls)
    (hlimiting : Each (step order) Limiting new calls) : LimitedLoss order calls := by
  intro pre id now hpre future pnl hlookup hsettle
  have hprefix := (List.prefix_append pre _).trans hpre
  have hpositive := (hdisciplined.restrict hprefix).positive
  obtain ⟨hterms, hrest⟩ := positions_final hpositive (hlimiting.restrict hprefix)
  obtain ⟨hposed, hlimits⟩ := hterms id future hlookup
  have hatRest := hrest (hdisciplined.checks pre id now hpre) id future hlookup
  rcases settleFuture_cases (final (step order) new pre).market
      (final (step order) new pre).oracle id now with ⟨found, hfound, hopen, heq⟩ | heq
  · obtain rfl : found = future := Option.some.inj (hfound.symm.trans hlookup)
    rw [heq, Option.some.injEq] at hsettle
    rw [← hsettle]
    exact settlementPnl_ge (positiveOracle_final order hpositive).index_pos hposed hlimits hatRest
      hopen
  · rw [heq] at hsettle
    cases hsettle

/-! ### A position that does not limit its loss -/

theorem Disciplined.append {calls : List Call} (h : Disciplined calls) (hcall : call.Positive)
    (hchecked : ∀ id now, call = .settleFuture id now → checked calls = true) :
    Disciplined (calls ++ [call]) := by
  constructor
  · intro pre id now hpre
    rcases List.prefix_concat_iff.mp hpre with heq | hpre
    · obtain ⟨rfl, hlast⟩ := List.append_inj' heq rfl
      exact hchecked id now (List.singleton_inj.mp hlast).symm
    · exact h.checks pre id now hpre
  · intro c hc
    rcases List.mem_append.mp hc with hc | hc
    · exact h.positive c hc
    · rwa [List.mem_singleton.mp hc]

/-- The price moves to `p`, the check lets the position through, and it is settled. -/
def settleAt (p : ℚ) (id : String) : List Call :=
  [.feedPrice p p 0, .checkLiquidations, .settleFuture id 0]

theorem disciplined_settleAt {pre : List Call} {c : OpenCall} {p : ℚ} (h : Disciplined pre)
    (hcall : (Call.openPosition c).Positive) (hp : 0 < p) (id : String) :
    Disciplined (pre ++ .openPosition c :: settleAt p id) := by
  have hopen : Disciplined (pre ++ [.openPosition c]) := h.append hcall nofun
  have hfeed : Disciplined (pre ++ [.openPosition c] ++ [.feedPrice p p 0]) :=
    hopen.append ⟨hp, hp⟩ nofun
  have hcheck : Disciplined (pre ++ [.openPosition c] ++ [.feedPrice p p 0]
      ++ [.checkLiquidations]) := hfeed.append trivial nofun
  have hsettle : Disciplined (pre ++ [.openPosition c] ++ [.feedPrice p p 0]
      ++ [.checkLiquidations] ++ [.settleFuture id 0]) :=
    hcheck.append trivial fun _ _ _ => checked_append _ .checkLiquidations
  simpa only [settleAt, List.append_assoc, List.cons_append, List.nil_append] using hsettle

/-- A position that does not limit its loss can be settled at a larger one. -/
theorem exists_not_limitedLoss {pre : List Call} {c : OpenCall} (h : Disciplined pre)
    (hcall : (Call.openPosition c).Positive)
    (hnot : ¬ Limiting (final (step order) new pre) (.openPosition c)) :
    ∃ p id, 0 < p ∧ ¬ LimitedLoss order (pre ++ .openPosition c :: settleAt p id) := by
  set system := final (step order) new pre with hsystem
  obtain ⟨future, hfilled, hopen⟩ := openPosition_filledIn system.market system.oracle c
  have hposed := wellPosed_filledIn hfilled (positiveOracle_final order h.positive) hcall
  -- a price at which the check lets more than the collateral through
  have hloss : ¬ future.LossCovered := fun hcovered =>
    hnot ((limits_filledIn hfilled).mp ((ComputeFuture.lossCovered_iff hposed).mp hcovered))
  rw [ComputeFuture.LossCovered] at hloss
  push Not at hloss
  obtain ⟨p, hp, hfree, hlarge⟩ := hloss
  refine ⟨p, future.futureId, hp, fun hlimited => ?_⟩
  set opened := (step order system (.openPosition c)).2 with hopened
  set fed := (step order opened (.feedPrice p p 0)).2 with hfed
  set swept := (step order fed .checkLiquidations).2 with hswept
  have hindex : fed.oracle.currentIndex = p := by
    show p * (3 / 5) + p * (2 / 5) = p
    linarith
  have hlookup : fed.market.futures.lookup future.futureId = some future := by
    show (system.market.openPosition system.oracle c).2.futures.lookup future.futureId = _
    rw [hopen, Store.lookup_assign_self]
  have hlow : liquidatable p future = false := by
    simp [liquidatable, hfree]
  have hkept : swept.market.futures.lookup future.futureId = some future := by
    show (fed.market.checkLiquidations order fed.oracle).2.futures.lookup future.futureId = _
    rw [lookup_checkLiquidations, hlookup, hindex, Option.map_some, sweep, hlow,
      if_neg Bool.false_ne_true]
  have hreached : final (step order) new
      (pre ++ [.openPosition c, .feedPrice p p 0, .checkLiquidations]) = swept := by
    rw [final_append]
    rfl
  have hbound := hlimited (pre ++ [.openPosition c, .feedPrice p p 0, .checkLiquidations])
    future.futureId 0 (by simp [settleAt]) future (future.settlementPnl p)
  rw [hreached] at hbound
  refine absurd (hbound hkept ?_) (not_le.mpr hlarge)
  have hsame : swept.oracle.currentIndex = p := hindex
  rw [settleFuture, hkept]
  simp only [hfilled.status_eq, ne_eq, not_true_eq_false, if_false]
  show some (future.settlementPnl swept.oracle.currentIndex) = some (future.settlementPnl p)
  rw [hsame]

/-- Losses are limited in every disciplined run in which each position is opened at
terms that limit its loss, and a position opened at any others has a disciplined
continuation in which its loss exceeds the collateral. -/
theorem limitedLoss_of_limitsLoss (order : MapOrder) :
    (∀ calls, Disciplined calls → Each (step order) Limiting new calls →
      LimitedLoss order calls) ∧
    ∀ pre c, Disciplined pre → (Call.openPosition c).Positive →
      ¬ Limiting (final (step order) new pre) (.openPosition c) →
      ∃ post, Disciplined (pre ++ .openPosition c :: post) ∧
        ¬ LimitedLoss order (pre ++ .openPosition c :: post) := by
  constructor
  · intro calls hdisciplined hlimiting
    exact limitedLoss hdisciplined hlimiting
  · intro pre c hdisciplined hcall hnot
    obtain ⟨p, id, hp, hloss⟩ := exists_not_limitedLoss hdisciplined hcall hnot
    exact ⟨settleAt p id, disciplined_settleAt hdisciplined hcall hp id, hloss⟩

/-- A forward contract for four cores and sixteen gigabytes, opened before any feed:
its entry price is 1, its notional value and its size are 6/5. -/
def forward (collateral : ℚ) : OpenCall := .forward "trader_1" 4 16 3600 collateral 0

theorem disciplined_nil : Disciplined [] :=
  ⟨fun pre id now hpre => by simp at hpre, fun call hcall => by simp at hcall⟩

theorem positive_forward {collateral : ℚ} (h : 0 < collateral) :
    (Call.openPosition (forward collateral)).Positive :=
  ⟨one_pos, h⟩

/-- A collateral of one half is liquidated at the first check, one of 1 at none. -/
theorem limitedLoss_of_limitsLoss_forward :
    LimitedLoss newestFirst (.openPosition (forward (1 / 2)) :: settleAt 100 "fwd_0") ∧
      ∃ post, Disciplined ([] ++ .openPosition (forward 1) :: post) ∧
        ¬ LimitedLoss newestFirst ([] ++ .openPosition (forward 1) :: post) := by
  constructor
  · refine (limitedLoss_of_limitsLoss newestFirst).1 _
      (disciplined_settleAt disciplined_nil (positive_forward (by norm_num)) (by norm_num) _) ?_
    rw [each_cons]
    refine ⟨?_, (each_of_forall_mem (P := fun call => call.opens = false) (by simp [settleAt,
      Call.opens])).imp ?_⟩
    · rintro c ⟨⟩
      exact .inr (by decide +kernel)
    · rintro system call hcall c rfl
      cases hcall
  · refine (limitedLoss_of_limitsLoss newestFirst).2 [] (forward 1) disciplined_nil
      (positive_forward one_pos) ?_
    intro hlimiting
    rcases hlimiting (forward 1) rfl with hsize | hlow
    · exact absurd hsize (by decide +kernel)
    · exact absurd hlow (by decide +kernel)

/-- The position of the forward contract with a collateral of 1. -/
def forwardFuture : ComputeFuture where
  futureId := "fwd_0"
  traderAddress := "trader_1"
  type := .forwardContract
  status := .opened
  cpuCores := 4
  ramGb := 16
  entryPrice := 1
  targetPrice := 1
  leverage := 1
  collateralSol := 1
  notionalValue := 6 / 5
  openedAt := 0
  expiresAt := 3600
  settledAt := 0
  pnl := 0

/-- Settled at an index of 100 it returns `(1 - 100) * 6 / 5`. -/
theorem not_forall_limitedLoss :
    ¬ ∀ order calls, Disciplined calls → LimitedLoss order calls := by
  intro h
  have hlimited := h newestFirst _
    (disciplined_settleAt disciplined_nil (positive_forward one_pos) (by norm_num : (0 : ℚ) < 100)
      "fwd_0")
  have hbound := hlimited [.openPosition (forward 1), .feedPrice 100 100 0, .checkLiquidations]
    "fwd_0" 0 (List.prefix_refl _) forwardFuture (-594 / 5) (by decide +kernel)
    (by decide +kernel)
  exact absurd hbound (by decide +kernel)

end FuturesSystem

end Membra
