/-
The life of a futures position.

A position is opened `OPEN` and closed once, by settlement or by liquidation; from
then on its record stays as it is.  `check_liquidations` closes the open positions
whose collateral has run low and leaves all others alone.

* `keyed_final` — every position is stored under its own id;
* `exits_iff` — the calls that close a position;
* `countP_exits_le_one` — a position is closed at most once;
* `openFuturesCount_add` — the open positions are those opened and not closed;
* `noneLow_final` — after a check, nothing is left to liquidate at its price;
* `futures_lifecycle` — the life of the positions of a run.
-/
import MembraL3.FuturesPositions
import Mathlib.Algebra.Order.Ring.Rat

namespace Membra

/-- `collateral_ratio`, for a notional value that is not zero. -/
def ComputeFuture.collateralRatio (future : ComputeFuture) (currentPrice : ℚ) : ℚ :=
  (future.collateralSol + future.unrealizedPnl currentPrice) / future.notionalValue

theorem ComputeFuture.belowCollateral_iff {future : ComputeFuture} {currentPrice : ℚ}
    (h : future.notionalValue ≠ 0) :
    future.belowCollateral currentPrice = true ↔ future.collateralRatio currentPrice < 1 / 2 := by
  rw [belowCollateral, if_neg h, decide_eq_true_iff]
  rfl

namespace FuturesSystem

open Runs ComputeFuturesMarket

variable {order : MapOrder} {system : FuturesSystem} {id : String} {call : Call}

/-! ### Positions are stored under their ids -/

/-- Every position is stored under its own id. -/
def Keyed (system : FuturesSystem) : Prop :=
  ∀ id future, system.market.futures.lookup id = some future → future.futureId = id

theorem Moves.futureId_eq {future future' : ComputeFuture}
    (h : Moves system id call future future') : future'.futureId = future.futureId := by
  cases h <;> rfl

theorem keyed_step (order : MapOrder) (call : Call) (h : Keyed system) :
    Keyed (step order system call).2 := by
  intro id future' hlookup
  rcases lookup_of_step hlookup with ⟨future, hbefore, hmoves⟩ | ⟨c, -, -, hid⟩
  · rw [hmoves.futureId_eq]
    exact h id future hbefore
  · exact hid.symm

theorem keyed_final (order : MapOrder) (calls : List Call) :
    Keyed (final (step order) new calls) := by
  refine final_invariant (fun _ call h => keyed_step order call h) ?_ calls
  intro id future h
  cases h

/-- Each step of such a run meets positions stored under their ids. -/
theorem each_keyed {calls : List Call} (hfresh : Each (step order) Fresh new calls) :
    Each (step order) (fun system call => Fresh system call ∧ Keyed system) new calls := by
  refine hfresh.and (each_iff_forall.mpr ?_)
  intro pre call _
  exact keyed_final order pre

/-! ### Closing -/

/-- The position under `id` is closed. -/
def Closed (id : String) (system : FuturesSystem) : Prop :=
  ∃ future, system.market.futures.lookup id = some future ∧ future.status ≠ .opened

/-- The ids that `check_liquidations` returns. -/
def liquidatedIds (order : MapOrder) (system : FuturesSystem) : List String :=
  (system.market.checkLiquidations order system.oracle).1

/-- The call settles the position under `id`, or liquidates it. -/
def exits (order : MapOrder) (id : String) (system : FuturesSystem) : Call → Bool
  | .settleFuture id' now =>
    id' == id && (system.market.settleFuture system.oracle id' now).1.isSome
  | .checkLiquidations => (liquidatedIds order system).contains id
  | _ => false

/-- The ids returned by a check are those of the positions it can liquidate. -/
theorem mem_liquidatedIds (order : MapOrder) (h : Keyed system) :
    id ∈ liquidatedIds order system ↔ ∃ future,
      system.market.futures.lookup id = some future ∧
        liquidatable system.oracle.currentIndex future = true := by
  have hnodup := ((order.perm system.market.futures.keys).nodup_iff).mpr
    system.market.futures.keys_nodup
  show id ∈ (liquidationLoop _ _ _).1 ↔ _
  rw [liquidationLoop_ids h hnodup, List.mem_filter, Option.any_eq_true]
  constructor
  · rintro ⟨-, future, hlookup, hlow⟩
    exact ⟨future, hlookup, hlow⟩
  · rintro ⟨future, hlookup, hlow⟩
    have hkey : id ∈ system.market.futures.keys := AList.mem_keys.mp (Store.mem_of_lookup hlookup)
    exact ⟨(order.perm _).mem_iff.mpr hkey, future, hlookup, hlow⟩

theorem nodup_liquidatedIds (order : MapOrder) (h : Keyed system) :
    (liquidatedIds order system).Nodup := by
  have hnodup := ((order.perm system.market.futures.keys).nodup_iff).mpr
    system.market.futures.keys_nodup
  show (liquidationLoop _ _ _).1.Nodup
  rw [liquidationLoop_ids h hnodup]
  exact hnodup.filter _

/-- The calls that close an open position, and what the others leave of it. -/
theorem exits_iff (order : MapOrder) (hkeyed : Keyed system) {future : ComputeFuture}
    (hfresh : Fresh system call) (hlookup : system.market.futures.lookup id = some future)
    (hopen : future.status = .opened) :
    ∃ future', (step order system call).2.market.futures.lookup id = some future' ∧
      (future'.status ≠ .opened ↔ exits order id system call = true) ∧
      (future'.status = .opened → future' = future) := by
  cases call with
  | settleFuture id' now =>
    rcases settleFuture_cases system.market system.oracle id' now with
      ⟨found, hfound, -, heq⟩ | heq
    · simp only [step, exits, heq]
      by_cases hid : id = id'
      · subst hid
        refine ⟨_, Store.lookup_assign_self .., ?_, ?_⟩
        · simp [ComputeFuture.settled]
        · intro hstill
          cases hstill
      · refine ⟨future, (Store.lookup_assign_ne _ _ hid).trans hlookup, ?_, fun _ => rfl⟩
        simp [hopen, Ne.symm hid]
    · simp only [step, exits, heq]
      exact ⟨future, hlookup, by simp [hopen], fun _ => rfl⟩
  | checkLiquidations =>
    refine ⟨sweep system.oracle.currentIndex future, ?_, ?_, ?_⟩
    · show (system.market.checkLiquidations order system.oracle).2.futures.lookup id = _
      rw [lookup_checkLiquidations, hlookup]
      rfl
    · rw [exits, List.contains_iff_mem, mem_liquidatedIds order hkeyed]
      cases hlow : liquidatable system.oracle.currentIndex future with
      | true =>
        rw [sweep, if_pos hlow]
        refine ⟨fun _ => ⟨future, hlookup, hlow⟩, ?_⟩
        intro _ hstill
        cases hstill
      | false =>
        rw [sweep, hlow, if_neg Bool.false_ne_true]
        refine ⟨fun hclosed => absurd hopen hclosed, ?_⟩
        rintro ⟨found, hfound, hfoundLow⟩
        obtain rfl : found = future := Option.some.inj (hfound.symm.trans hlookup)
        rw [hlow] at hfoundLow
        cases hfoundLow
    · intro hstill
      rw [sweep] at hstill ⊢
      by_cases hlow : liquidatable system.oracle.currentIndex future = true
      · rw [if_pos hlow] at hstill
        cases hstill
      · rw [if_neg hlow]
  | openPosition c =>
    obtain ⟨future', hlookup', hmoves⟩ := evolves_step order hfresh id future hlookup
    cases hmoves
    exact ⟨future, hlookup', by simp [hopen, exits], fun _ => rfl⟩
  | _ => exact ⟨future, hlookup, by simp [hopen, exits], fun _ => rfl⟩

/-- A call that closes a position finds it open. -/
theorem not_closed_of_exits (hkeyed : Keyed system) (h : exits order id system call = true) :
    ∃ future, system.market.futures.lookup id = some future ∧ future.status = .opened := by
  cases call with
  | settleFuture id' now =>
    simp only [exits, Bool.and_eq_true, beq_iff_eq] at h
    obtain ⟨rfl, hsome⟩ := h
    rcases settleFuture_cases system.market system.oracle id' now with
      ⟨future, hlookup, hopen, -⟩ | heq
    · exact ⟨future, hlookup, hopen⟩
    · rw [heq] at hsome
      cases hsome
  | checkLiquidations =>
    rw [exits, List.contains_iff_mem, mem_liquidatedIds order hkeyed] at h
    obtain ⟨future, hlookup, hlow⟩ := h
    exact ⟨future, hlookup, (of_decide_eq_true hlow).1⟩
  | _ => cases h

/-- A closed position stays as it is. -/
theorem lookup_step_of_closed (order : MapOrder) {future : ComputeFuture}
    (hfresh : Fresh system call) (hlookup : system.market.futures.lookup id = some future)
    (hclosed : future.status ≠ .opened) :
    (step order system call).2.market.futures.lookup id = some future := by
  obtain ⟨future', hlookup', hmoves⟩ := evolves_step order hfresh id future hlookup
  cases hmoves with
  | kept => exact hlookup'
  | settled now future hopen => exact absurd hopen hclosed
  | liquidated future hlow => exact absurd (of_decide_eq_true hlow).1 hclosed

theorem lookup_final_of_closed {calls : List Call} {future : ComputeFuture}
    (hfresh : Each (step order) Fresh system calls)
    (hlookup : system.market.futures.lookup id = some future) (hclosed : future.status ≠ .opened) :
    (final (step order) system calls).market.futures.lookup id = some future :=
  final_induction (Q := Fresh) (fun _ _ h hcall => lookup_step_of_closed order hcall h hclosed)
    hlookup hfresh

theorem countP_exits_le_one {calls : List Call} (hfresh : Each (step order) Fresh new calls)
    (id : String) :
    (trace (step order) new calls).countP (fun e => exits order id e.before e.call) ≤ 1 := by
  refine countP_le_one (D := Closed id) ?_ ?_ ?_ (each_keyed hfresh)
  · rintro system call ⟨-, hkeyed⟩ hexits ⟨closed, hlookup, hclosed⟩
    obtain ⟨future, hfuture, hopen⟩ := not_closed_of_exits hkeyed hexits
    obtain rfl : closed = future := Option.some.inj (hlookup.symm.trans hfuture)
    exact hclosed hopen
  · rintro system call ⟨hcall, -⟩ ⟨future, hlookup, hclosed⟩
    exact ⟨future, lookup_step_of_closed order hcall hlookup hclosed, hclosed⟩
  · rintro system call ⟨hcall, hkeyed⟩ hexits
    obtain ⟨future, hlookup, hopen⟩ := not_closed_of_exits hkeyed hexits
    obtain ⟨future', hlookup', hexit, -⟩ := exits_iff order hkeyed hcall hlookup hopen
    exact ⟨future', hlookup', hexit.mpr hexits⟩

/-! ### Counting -/

/-- One for a settlement that succeeds. -/
def Reply.settledCount : Reply → ℕ
  | .settled (some _) => 1
  | _ => 0

def Reply.liquidatedCount : Reply → ℕ
  | .liquidated ids => ids.length
  | _ => 0

/-- The positions that a run settles, and those that it liquidates. -/
def settledIn (order : MapOrder) (calls : List Call) : ℕ :=
  ((trace (step order) new calls).map fun e => e.result.settledCount).sum

def liquidatedIn (order : MapOrder) (calls : List Call) : ℕ :=
  ((trace (step order) new calls).map fun e => e.result.liquidatedCount).sum

/-- A position more for each that is opened, a position less for each that is
closed. -/
theorem openFuturesCount_step (order : MapOrder) (hfresh : Fresh system call) :
    (step order system call).2.market.openFuturesCount
        + (step order system call).1.settledCount + (step order system call).1.liquidatedCount
      = system.market.openFuturesCount + if call.opens then 1 else 0 := by
  cases call with
  | openPosition c =>
    obtain ⟨filled, hfilled, hopen⟩ := openPosition_filledIn system.market system.oracle c
    have hnew : system.market.futures.lookup filled.futureId = none := by
      rw [hfilled.futureId_eq]
      exact AList.lookup_eq_none.mpr (hfresh c rfl)
    have hcount := Store.count_assign_new
      (fun future : ComputeFuture => decide (future.status = .opened)) filled hnew
    rw [if_pos (decide_eq_true hfilled.status_eq)] at hcount
    show (system.market.openPosition system.oracle c).2.openFuturesCount + 0 + 0 = _ + 1
    rw [hopen]
    exact hcount.trans (Nat.add_comm ..)
  | settleFuture id now =>
    rcases settleFuture_cases system.market system.oracle id now with
      ⟨future, hlookup, hopen, heq⟩ | heq
    · have hcount := Store.count_assign_of_lookup
        (fun future : ComputeFuture => decide (future.status = .opened))
        (future.settled system.oracle.currentIndex now) hlookup
      rw [if_pos (decide_eq_true hopen), if_neg (by simp [ComputeFuture.settled])] at hcount
      simp only [step, heq]
      exact hcount
    · simp only [step, heq]
      rfl
  | checkLiquidations =>
    exact count_liquidationLoop system.oracle.currentIndex system.market.futures _
  | _ => rfl

theorem openFuturesCount_add {calls : List Call} (hfresh : Each (step order) Fresh new calls) :
    (final (step order) new calls).market.openFuturesCount + settledIn order calls
        + liquidatedIn order calls = calls.countP Call.opens := by
  induction calls using List.reverseRecOn with
  | nil => rfl
  | append_singleton calls call ih =>
    rw [each_append, each_cons] at hfresh
    obtain ⟨hcalls, hcall, -⟩ := hfresh
    have hstep := openFuturesCount_step order hcall
    have hpast := ih hcalls
    rw [settledIn, liquidatedIn] at hpast ⊢
    rw [final_append, trace_append, List.countP_append, List.countP_singleton, List.map_append,
      List.map_append, List.sum_append, List.sum_append]
    simp only [final_cons, final_nil, trace_cons, trace_nil, List.map_cons, List.map_nil,
      List.sum_cons, List.sum_nil, event_result]
    omega

/-! ### Checking again -/

/-- At the price `p` there is nothing to liquidate. -/
def NoneLow (p : ℚ) (system : FuturesSystem) : Prop :=
  ∀ id future, system.market.futures.lookup id = some future → liquidatable p future = false

theorem noneLow_checkLiquidations (order : MapOrder) (system : FuturesSystem) :
    NoneLow system.oracle.currentIndex (step order system .checkLiquidations).2 := by
  intro id future' hlookup
  have hlookup : (system.market.checkLiquidations order system.oracle).2.futures.lookup id
      = some future' := hlookup
  rw [lookup_checkLiquidations, Option.map_eq_some_iff] at hlookup
  obtain ⟨future, -, rfl⟩ := hlookup
  exact not_liquidatable_sweep ..

/-- Only a position that is opened can be low. -/
theorem noneLow_step {p : ℚ} (h : NoneLow p system) (hcall : call.opens = false) :
    NoneLow p (step order system call).2 := by
  intro id future' hlookup
  rcases lookup_of_step hlookup with ⟨future, hbefore, hmoves⟩ | ⟨c, rfl, -, -⟩
  · cases hmoves with
    | kept => exact h id future' hbefore
    | settled now future hopen => simp [liquidatable, ComputeFuture.settled]
    | liquidated future hlow => exact not_liquidatable_liquidated p future
  · cases hcall

theorem noneLow_final (order : MapOrder) (system : FuturesSystem) {mid : List Call}
    (hmid : ∀ call ∈ mid, call.opens = false) :
    NoneLow system.oracle.currentIndex
      (final (step order) system (.checkLiquidations :: mid)) := by
  rw [final_cons]
  exact final_induction (fun _ _ => noneLow_step) (noneLow_checkLiquidations order system)
    (each_of_forall_mem hmid)

/-- So a check finds nothing. -/
theorem liquidatedIds_eq_nil (order : MapOrder) (hkeyed : Keyed system)
    (h : NoneLow system.oracle.currentIndex system) : liquidatedIds order system = [] := by
  rw [List.eq_nil_iff_forall_not_mem]
  intro id hid
  obtain ⟨future, hlookup, hlow⟩ := (mem_liquidatedIds order hkeyed).mp hid
  rw [h id future hlookup] at hlow
  cases hlow

/-! ### The life of the positions of a run -/

structure Lifecycle (order : MapOrder) (calls : List Call) : Prop where
  /-- A position leaves `OPEN` by the calls that settle or liquidate it, and only then is
  its record touched. -/
  leaves : ∀ pre call, pre ++ [call] <+: calls → ∀ id future,
    (final (step order) new pre).market.futures.lookup id = some future →
    future.status = .opened →
    ∃ future', (final (step order) new (pre ++ [call])).market.futures.lookup id = some future' ∧
      (future'.status ≠ .opened ↔
        exits order id (final (step order) new pre) call = true) ∧
      (future'.status = .opened → future' = future)
  /-- It does so at most once, and its record stays as it is afterwards. -/
  leavesOnce : ∀ id,
    (trace (step order) new calls).countP (fun e => exits order id e.before e.call) ≤ 1
  closedForGood : ∀ pre mid, pre ++ mid <+: calls → ∀ id future,
    (final (step order) new pre).market.futures.lookup id = some future →
    future.status ≠ .opened →
    (final (step order) new (pre ++ mid)).market.futures.lookup id = some future
  /-- Open positions are those opened minus those settled minus those liquidated. -/
  counted : (final (step order) new calls).market.openFuturesCount + settledIn order calls
    + liquidatedIn order calls = calls.countP Call.opens
  /-- A check liquidates the open positions whose ratio is below one half, and leaves the
  others untouched. -/
  liquidates : ∀ pre, pre ++ [.checkLiquidations] <+: calls → ∀ id future,
    (final (step order) new pre).market.futures.lookup id = some future →
    future.notionalValue ≠ 0 →
    (final (step order) new (pre ++ [.checkLiquidations])).market.futures.lookup id
      = some (if future.status = .opened ∧ future.collateralRatio
            (final (step order) new pre).oracle.currentIndex < 1 / 2
          then { future with status := .liquidated, pnl := -future.collateralSol }
          else future)
  /-- It returns the ids of the positions it liquidates, each once. -/
  returned : ∀ pre, pre ++ [.checkLiquidations] <+: calls →
    (liquidatedIds order (final (step order) new pre)).Nodup ∧
      ∀ id future, (final (step order) new pre).market.futures.lookup id = some future →
        future.notionalValue ≠ 0 →
        (id ∈ liquidatedIds order (final (step order) new pre) ↔
          future.status = .opened ∧ future.collateralRatio
            (final (step order) new pre).oracle.currentIndex < 1 / 2)
  /-- A later check at the same index returns nothing, unless a position has been opened. -/
  again : ∀ pre mid, pre ++ .checkLiquidations :: mid <+: calls →
    (∀ call ∈ mid, call.opens = false) →
    (final (step order) new (pre ++ .checkLiquidations :: mid)).oracle.currentIndex
      = (final (step order) new pre).oracle.currentIndex →
    liquidatedIds order (final (step order) new (pre ++ .checkLiquidations :: mid)) = []

theorem liquidatable_iff {future : ComputeFuture} {p : ℚ} (h : future.notionalValue ≠ 0) :
    liquidatable p future = true ↔
      future.status = .opened ∧ future.collateralRatio p < 1 / 2 := by
  rw [liquidatable, decide_eq_true_iff, ComputeFuture.belowCollateral_iff h]

theorem futures_lifecycle (order : MapOrder) {calls : List Call} (hopens : OpensFit calls) :
    Lifecycle order calls := by
  have hfresh := each_fresh_new order hopens
  constructor
  case leaves =>
    intro pre call hpre id future hlookup hopen
    have hcall := each_iff_forall.mp hfresh pre call hpre
    rw [final_append]
    exact exits_iff order (keyed_final order pre) hcall hlookup hopen
  case leavesOnce => exact countP_exits_le_one hfresh
  case closedForGood =>
    intro pre mid hpre id future hlookup hclosed
    rw [final_append]
    exact lookup_final_of_closed (hfresh.between hpre) hlookup hclosed
  case counted => exact openFuturesCount_add hfresh
  case liquidates =>
    intro pre _ id future hlookup hnotional
    rw [final_append]
    show ((final (step order) new pre).market.checkLiquidations order
      (final (step order) new pre).oracle).2.futures.lookup id = _
    rw [lookup_checkLiquidations, hlookup, Option.map_some, sweep]
    simp only [liquidatable_iff hnotional]
    rfl
  case returned =>
    intro pre _
    refine ⟨nodup_liquidatedIds order (keyed_final order pre), ?_⟩
    intro id future hlookup hnotional
    rw [mem_liquidatedIds order (keyed_final order pre), ← liquidatable_iff hnotional]
    constructor
    · rintro ⟨found, hfound, hlow⟩
      obtain rfl : found = future := Option.some.inj (hfound.symm.trans hlookup)
      exact hlow
    · intro hlow
      exact ⟨future, hlookup, hlow⟩
  case again =>
    intro pre mid _ hmid hindex
    refine liquidatedIds_eq_nil order (keyed_final order _) ?_
    rw [hindex, final_append]
    exact noneLow_final order _ hmid

/-- A long and a short position: one is settled, the other liquidated. -/
theorem futures_lifecycle_longAndShort :
    Lifecycle newestFirst
      [.feedPrice 2 2 0, .openPosition (.long "a" 10 0 1 10 60 0),
        .openPosition (.short "b" 10 0 1 10 60 0), .feedPrice 4 4 1, .settleFuture "long_0" 2,
        .checkLiquidations, .checkLiquidations] :=
  futures_lifecycle newestFirst (by decide)

end FuturesSystem

end Membra
