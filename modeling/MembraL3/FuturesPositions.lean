/-
Positions of the futures market.

What each operation does to a position: opening files a new record under an id
printed from the counter, settling and liquidating close an open one, and no other
operation touches a position.

* `openPosition_filledIn` — the record that opening a position files;
* `lookup_liquidationLoop`, `liquidationLoop_ids`, `count_liquidationLoop` — the
  liquidation loop: what it leaves, what it returns, how many it closes;
* `Moves`, `evolves_step`, `lookup_of_step` — what a call does to a position;
* `each_fresh_new` — no run opens a position under an id that is taken.
-/
import MembraL3.ComputeFutures
import MembraL3.Lib.Numbered

namespace Membra

namespace OpenCall

/-- The literal part of the id. -/
def tag : OpenCall → String
  | forward .. => "fwd_"
  | long .. => "long_"
  | short .. => "short_"

def type : OpenCall → FutureType
  | forward .. => .forwardContract
  | long .. => .speculativeLong
  | short .. => .speculativeShort

def cpuCores : OpenCall → UInt64
  | forward _ cpu _ _ _ _ => cpu
  | long _ cpu _ _ _ _ _ => cpu
  | short _ cpu _ _ _ _ _ => cpu

def ramGb : OpenCall → UInt64
  | forward _ _ ram _ _ _ => ram
  | long _ _ ram _ _ _ _ => ram
  | short _ _ ram _ _ _ _ => ram

/-- Forwards have no leverage. -/
def leverage : OpenCall → ℚ
  | forward .. => 1
  | long _ _ _ leverage _ _ _ => leverage
  | short _ _ _ leverage _ _ _ => leverage

def collateralSol : OpenCall → ℚ
  | forward _ _ _ _ collateral _ => collateral
  | long _ _ _ _ collateral _ _ => collateral
  | short _ _ _ _ collateral _ _ => collateral

/-- The id of the position, for a value of the counter. -/
def id (c : OpenCall) (n : ℕ) : String := Numbered.name c.tag n

/-- Tags that differ do so in the first letter. -/
theorem id_inj (c d : OpenCall) (m n : ℕ) (h : c.id m = d.id n) : m = n := by
  have hhead := congrArg (fun s : String => s.toList.head?) h
  simp only [id, Numbered.name, String.toList_append] at hhead
  have htag : c.tag = d.tag := by
    cases c <;> cases d <;> first | rfl | exact absurd hhead (by simp [tag])
  rw [id, id, htag] at h
  exact Numbered.name_inj.mp h

end OpenCall

namespace ComputeFuturesMarket

/-! ### Opening -/

/-- The record that opening a position fills in. -/
structure FilledIn (market : ComputeFuturesMarket) (oracle : ComputePriceOracle) (c : OpenCall)
    (future : ComputeFuture) : Prop where
  futureId_eq : future.futureId = c.id market.futureCounter.toNat
  status_eq : future.status = .opened
  type_eq : future.type = c.type
  cpuCores_eq : future.cpuCores = c.cpuCores
  ramGb_eq : future.ramGb = c.ramGb
  entryPrice_eq : future.entryPrice = oracle.currentIndex
  targetPrice_eq : c.type = .forwardContract → future.targetPrice = oracle.currentIndex
  leverage_eq : future.leverage = c.leverage
  collateralSol_eq : future.collateralSol = c.collateralSol
  notionalValue_eq :
    future.notionalValue = oracle.computeIndexForCpuRam c.cpuCores c.ramGb * c.leverage

theorem openPosition_filledIn (market : ComputeFuturesMarket) (oracle : ComputePriceOracle)
    (c : OpenCall) :
    ∃ future, FilledIn market oracle c future ∧
      (market.openPosition oracle c).2
        = { futures := market.futures.assign future.futureId future
            futureCounter := market.futureCounter + 1 } := by
  cases c with
  | forward trader cpu ram duration collateral now =>
    exact ⟨_, ⟨rfl, rfl, rfl, rfl, rfl, rfl, fun _ => rfl, rfl, rfl, (mul_one _).symm⟩, rfl⟩
  | long trader cpu ram leverage collateral duration now =>
    exact ⟨_, ⟨rfl, rfl, rfl, rfl, rfl, rfl, nofun, rfl, rfl, rfl⟩, rfl⟩
  | short trader cpu ram leverage collateral duration now =>
    exact ⟨_, ⟨rfl, rfl, rfl, rfl, rfl, rfl, nofun, rfl, rfl, rfl⟩, rfl⟩

/-! ### Settling -/

/-- Settling finds an open position, or fails and changes nothing. -/
theorem settleFuture_cases (market : ComputeFuturesMarket) (oracle : ComputePriceOracle)
    (id : String) (now : Seconds) :
    (∃ future, market.futures.lookup id = some future ∧ future.status = .opened ∧
      market.settleFuture oracle id now
        = (some (future.settlementPnl oracle.currentIndex),
          { market with
            futures := market.futures.assign id (future.settled oracle.currentIndex now) })) ∨
    market.settleFuture oracle id now = (none, market) := by
  rw [settleFuture]
  cases hlookup : market.futures.lookup id with
  | none => exact .inr rfl
  | some future =>
    by_cases hopen : future.status = .opened
    · refine .inl ⟨future, rfl, hopen, ?_⟩
      simp only [hopen, ne_eq, not_true_eq_false, if_false]
      rfl
    · refine .inr ?_
      simp only [hopen, ne_eq, not_false_eq_true, if_true]

/-! ### Liquidation -/

/-- The position is open and its collateral has run low. -/
def liquidatable (currentPrice : ℚ) (future : ComputeFuture) : Bool :=
  future.status = .opened ∧ future.belowCollateral currentPrice = true

/-- What the loop does with one record. -/
def sweep (currentPrice : ℚ) (future : ComputeFuture) : ComputeFuture :=
  if liquidatable currentPrice future then future.liquidated else future

theorem not_liquidatable_liquidated (currentPrice : ℚ) (future : ComputeFuture) :
    liquidatable currentPrice future.liquidated = false := by
  simp [liquidatable, ComputeFuture.liquidated]

theorem not_liquidatable_sweep (currentPrice : ℚ) (future : ComputeFuture) :
    liquidatable currentPrice (sweep currentPrice future) = false := by
  cases h : liquidatable currentPrice future with
  | true =>
    rw [sweep, if_pos h]
    exact not_liquidatable_liquidated currentPrice future
  | false => rw [sweep, if_neg (by simp [h]), h]

theorem liquidationLoop_of_not_mem {currentPrice : ℚ} {futures : Store String ComputeFuture}
    {id : String} {ids : List String} (h : futures.lookup id = none) :
    liquidationLoop currentPrice futures (id :: ids)
      = liquidationLoop currentPrice futures ids := by
  rw [liquidationLoop, h]

theorem liquidationLoop_of_liquidatable {currentPrice : ℚ} {futures : Store String ComputeFuture}
    {id : String} {ids : List String} {future : ComputeFuture}
    (hlookup : futures.lookup id = some future) (h : liquidatable currentPrice future = true) :
    liquidationLoop currentPrice futures (id :: ids)
      = (future.futureId ::
          (liquidationLoop currentPrice (futures.assign id future.liquidated) ids).1,
        (liquidationLoop currentPrice (futures.assign id future.liquidated) ids).2) := by
  rw [liquidationLoop, hlookup]
  simp only [if_pos (of_decide_eq_true h)]

theorem liquidationLoop_of_not_liquidatable {currentPrice : ℚ}
    {futures : Store String ComputeFuture} {id : String} {ids : List String}
    {future : ComputeFuture} (hlookup : futures.lookup id = some future)
    (h : liquidatable currentPrice future = false) :
    liquidationLoop currentPrice futures (id :: ids)
      = liquidationLoop currentPrice futures ids := by
  rw [liquidationLoop, hlookup]
  simp only [if_neg (of_decide_eq_false h)]

/-- The loop sweeps the records it visits, and no others. -/
theorem lookup_liquidationLoop (currentPrice : ℚ) (futures : Store String ComputeFuture)
    (ids : List String) (key : String) :
    (liquidationLoop currentPrice futures ids).2.lookup key
      = if key ∈ ids then (futures.lookup key).map (sweep currentPrice)
        else futures.lookup key := by
  induction ids generalizing futures with
  | nil => rfl
  | cons id ids ih =>
    cases hlookup : futures.lookup id with
    | none =>
      rw [liquidationLoop_of_not_mem hlookup, ih]
      by_cases hkey : key = id
      · subst hkey
        simp [hlookup]
      · simp [hkey]
    | some future =>
      cases h : liquidatable currentPrice future with
      | true =>
        rw [liquidationLoop_of_liquidatable hlookup h, ih]
        by_cases hkey : key = id
        · -- visited again, it would be left as it is
          subst hkey
          have hagain : sweep currentPrice future.liquidated = future.liquidated := by
            rw [sweep, not_liquidatable_liquidated, if_neg Bool.false_ne_true]
          have hsweep : sweep currentPrice future = future.liquidated := by rw [sweep, if_pos h]
          rw [Store.lookup_assign_self, hlookup, Option.map_some, Option.map_some, hagain, hsweep,
            ite_self, if_pos (List.mem_cons_self ..)]
        · rw [Store.lookup_assign_ne _ _ hkey]
          simp [hkey]
      | false =>
        rw [liquidationLoop_of_not_liquidatable hlookup h, ih]
        by_cases hkey : key = id
        · subst hkey
          have hsweep : sweep currentPrice future = future := by
            rw [sweep, h, if_neg Bool.false_ne_true]
          rw [hlookup, Option.map_some, hsweep, ite_self, ite_self]
        · simp [hkey]

/-- The loop over the ids of the records returns those it can liquidate. -/
theorem liquidationLoop_ids {currentPrice : ℚ} {futures : Store String ComputeFuture}
    (hids : ∀ id future, futures.lookup id = some future → future.futureId = id)
    {ids : List String} (hnodup : ids.Nodup) :
    (liquidationLoop currentPrice futures ids).1
      = ids.filter fun id => (futures.lookup id).any (liquidatable currentPrice) := by
  induction ids generalizing futures with
  | nil => rfl
  | cons id ids ih =>
    obtain ⟨hnew, hrest⟩ := List.nodup_cons.mp hnodup
    cases hlookup : futures.lookup id with
    | none =>
      rw [liquidationLoop_of_not_mem hlookup, ih hids hrest, List.filter_cons, hlookup]
      rfl
    | some future =>
      cases h : liquidatable currentPrice future with
      | true =>
        have hids' : ∀ key found, (futures.assign id future.liquidated).lookup key = some found →
            found.futureId = key := by
          intro key found hfound
          by_cases hkey : key = id
          · subst hkey
            rw [Store.lookup_assign_self] at hfound
            rw [← Option.some.inj hfound]
            exact hids key future hlookup
          · rw [Store.lookup_assign_ne _ _ hkey] at hfound
            exact hids key found hfound
        rw [liquidationLoop_of_liquidatable hlookup h, ih hids' hrest, hids id future hlookup,
          List.filter_cons, hlookup, Option.any_some, if_pos h]
        -- the ids that follow are others
        refine congrArg (id :: ·) (List.filter_congr ?_)
        intro key hkey
        have hne : key ≠ id := by
          rintro rfl
          exact hnew hkey
        rw [Store.lookup_assign_ne _ _ hne]
      | false =>
        rw [liquidationLoop_of_not_liquidatable hlookup h, ih hids hrest, List.filter_cons, hlookup,
          Option.any_some, h, if_neg Bool.false_ne_true]

/-- One open position less for each id that is returned. -/
theorem count_liquidationLoop (currentPrice : ℚ) (futures : Store String ComputeFuture)
    (ids : List String) :
    Store.count (fun future => future.status = .opened)
        (liquidationLoop currentPrice futures ids).2
      + (liquidationLoop currentPrice futures ids).1.length
      = Store.count (fun future => future.status = .opened) futures := by
  induction ids generalizing futures with
  | nil => rfl
  | cons id ids ih =>
    cases hlookup : futures.lookup id with
    | none => rw [liquidationLoop_of_not_mem hlookup, ih]
    | some future =>
      cases h : liquidatable currentPrice future with
      | true =>
        have hopen : future.status = .opened := (of_decide_eq_true h).1
        have hcount := Store.count_assign_of_lookup
          (fun future : ComputeFuture => decide (future.status = .opened)) future.liquidated hlookup
        rw [if_pos (decide_eq_true hopen), if_neg (by simp [ComputeFuture.liquidated])] at hcount
        rw [liquidationLoop_of_liquidatable hlookup h, List.length_cons, ← Nat.add_assoc, ih]
        omega
      | false => rw [liquidationLoop_of_not_liquidatable hlookup h, ih]

/-- All records are swept: every key is visited, in whatever order. -/
theorem lookup_checkLiquidations (order : MapOrder) (market : ComputeFuturesMarket)
    (oracle : ComputePriceOracle) (id : String) :
    (market.checkLiquidations order oracle).2.futures.lookup id
      = (market.futures.lookup id).map (sweep oracle.currentIndex) := by
  show (liquidationLoop oracle.currentIndex market.futures _).2.lookup id = _
  rw [lookup_liquidationLoop]
  cases hlookup : market.futures.lookup id with
  | none => rw [Option.map_none, ite_self]
  | some future =>
    have hkey : id ∈ market.futures.keys := AList.mem_keys.mp (Store.mem_of_lookup hlookup)
    rw [if_pos ((order.perm _).mem_iff.mpr hkey)]

end ComputeFuturesMarket

namespace FuturesSystem

open Runs ComputeFuturesMarket

def Call.opens : Call → Bool
  | .openPosition _ => true
  | _ => false

theorem exists_of_opens {call : Call} (h : call.opens = true) : ∃ c, call = .openPosition c := by
  cases call with
  | openPosition c => exact ⟨c, rfl⟩
  | _ => cases h

/-- The id a call opens a position under is not taken. -/
def Fresh (system : FuturesSystem) (call : Call) : Prop :=
  ∀ c, call = .openPosition c → c.id system.market.futureCounter.toNat ∉ system.market.futures

/-- What one call can do to the position stored under `id`. -/
inductive Moves (system : FuturesSystem) (id : String) :
    Call → ComputeFuture → ComputeFuture → Prop
  | kept (call : Call) (future : ComputeFuture) : Moves system id call future future
  | settled (now : Seconds) (future : ComputeFuture) (hopen : future.status = .opened) :
      Moves system id (.settleFuture id now) future
        (future.settled system.oracle.currentIndex now)
  | liquidated (future : ComputeFuture)
      (hlow : liquidatable system.oracle.currentIndex future = true) :
      Moves system id .checkLiquidations future future.liquidated

theorem sweep_moves (system : FuturesSystem) (id : String) (future : ComputeFuture) :
    Moves system id .checkLiquidations future (sweep system.oracle.currentIndex future) := by
  rw [sweep]
  by_cases hlow : liquidatable system.oracle.currentIndex future = true
  · rw [if_pos hlow]
    exact .liquidated future hlow
  · rw [if_neg hlow]
    exact .kept _ future

variable {order : MapOrder} {system : FuturesSystem} {id : String} {call : Call}

/-- Every stored position stays stored and makes a move. -/
theorem evolves_step (order : MapOrder) (hfresh : Fresh system call) :
    Store.Evolves (fun id => Moves system id call) system.market.futures
      (step order system call).2.market.futures := by
  have hkept : ∀ id future, Moves system id call future future := fun id future => .kept call future
  cases call with
  | openPosition c =>
    obtain ⟨filled, hfilled, hopen⟩ := openPosition_filledIn system.market system.oracle c
    show Store.Evolves _ _ (system.market.openPosition system.oracle c).2.futures
    rw [hopen]
    exact Store.evolves_assign_new hkept _ (hfilled.futureId_eq ▸ hfresh c rfl)
  | settleFuture id now =>
    rcases settleFuture_cases system.market system.oracle id now with
      ⟨future, hlookup, hopen, heq⟩ | heq
    · simp only [step, heq]
      exact Store.evolves_assign hkept hlookup (.settled now future hopen)
    · simp only [step, heq]
      exact .refl hkept _
  | checkLiquidations =>
    intro id future hlookup
    refine ⟨sweep system.oracle.currentIndex future, ?_, sweep_moves system id future⟩
    show (system.market.checkLiquidations order system.oracle).2.futures.lookup id = _
    rw [lookup_checkLiquidations, hlookup]
    rfl
  | _ => exact .refl hkept _

/-- A key is an old one, or that of the position just opened. -/
theorem mem_of_step (hmem : id ∈ (step order system call).2.market.futures) :
    id ∈ system.market.futures ∨
      ∃ c, call = .openPosition c ∧ id = c.id system.market.futureCounter.toNat := by
  cases call with
  | openPosition c =>
    obtain ⟨filled, hfilled, hopen⟩ := openPosition_filledIn system.market system.oracle c
    have hmem : id ∈ (system.market.openPosition system.oracle c).2.futures := hmem
    rw [hopen, Store.mem_assign] at hmem
    rcases hmem with rfl | hold
    · exact .inr ⟨c, rfl, hfilled.futureId_eq⟩
    · exact .inl hold
  | settleFuture id' now =>
    rcases settleFuture_cases system.market system.oracle id' now with
      ⟨found, hfound, -, heq⟩ | heq
    · simp only [step, heq, Store.mem_assign_of_lookup hfound] at hmem
      exact .inl hmem
    · simp only [step, heq] at hmem
      exact .inl hmem
  | checkLiquidations =>
    refine .inl (AList.lookup_isSome.mp ?_)
    have hsome := AList.lookup_isSome.mpr hmem
    rw [step, lookup_checkLiquidations, Option.isSome_map] at hsome
    exact hsome
  | _ => exact .inl hmem

theorem fresh_of_not_opens (h : call.opens = false) : Fresh system call := by
  rintro c rfl
  cases h

/-- A stored position was stored before, or has just been opened. -/
theorem lookup_of_step {future' : ComputeFuture}
    (hlookup : (step order system call).2.market.futures.lookup id = some future') :
    (∃ future, system.market.futures.lookup id = some future ∧
      Moves system id call future future') ∨
    ∃ c, call = .openPosition c ∧ FilledIn system.market system.oracle c future' ∧
      id = future'.futureId := by
  cases hopens : call.opens with
  | true =>
    obtain ⟨c, rfl⟩ := exists_of_opens hopens
    obtain ⟨filled, hfilled, hopen⟩ := openPosition_filledIn system.market system.oracle c
    have hlookup : (system.market.openPosition system.oracle c).2.futures.lookup id
        = some future' := hlookup
    rw [hopen, Store.lookup_assign] at hlookup
    by_cases hid : id = filled.futureId
    · rw [if_pos hid, Option.some.injEq] at hlookup
      subst hlookup
      exact .inr ⟨c, rfl, hfilled, hid⟩
    · rw [if_neg hid] at hlookup
      exact .inl ⟨future', hlookup, .kept _ future'⟩
  | false =>
    cases hbefore : system.market.futures.lookup id with
    | some future =>
      obtain ⟨moved, hmoved, hmoves⟩ :=
        evolves_step order (fresh_of_not_opens hopens) id future hbefore
      obtain rfl : moved = future' := Option.some.inj (hmoved.symm.trans hlookup)
      exact .inl ⟨future, rfl, hmoves⟩
    | none =>
      rcases mem_of_step (Store.mem_of_lookup hlookup) with hold | ⟨c, rfl, -⟩
      · exact absurd hold (AList.lookup_eq_none.mp hbefore)
      · cases hopens

theorem counter_step (order : MapOrder) (system : FuturesSystem) (call : Call) :
    (step order system call).2.market.futureCounter
      = if call.opens then system.market.futureCounter + 1 else system.market.futureCounter := by
  cases call with
  | openPosition c =>
    obtain ⟨filled, -, hopen⟩ := openPosition_filledIn system.market system.oracle c
    show (system.market.openPosition system.oracle c).2.futureCounter = _
    rw [hopen]
    rfl
  | settleFuture id now =>
    rcases settleFuture_cases system.market system.oracle id now with ⟨future, -, -, heq⟩ | heq
    · simp only [step, heq]
      rfl
    · simp only [step, heq]
      rfl
  | _ => rfl

/-! ### Runs of fewer than 2^64 positions -/

/-- The bound on the number of positions of a run. -/
def OpensFit (calls : List Call) : Prop := calls.countP Call.opens < 2 ^ 64

instance (calls : List Call) : Decidable (OpensFit calls) := inferInstanceAs (Decidable (_ < _))

/-- The id of the position that a call opens, for a value of the counter. -/
def openedId (call : Call) (n : ℕ) : String :=
  match call with
  | .openPosition c => c.id n
  | _ => ""

theorem openedId_inj {call call' : Call} {m n : ℕ} (h : call.opens = true)
    (h' : call'.opens = true) (hid : openedId call m = openedId call' n) : m = n := by
  obtain ⟨c, rfl⟩ := exists_of_opens h
  obtain ⟨d, rfl⟩ := exists_of_opens h'
  exact OpenCall.id_inj c d m n hid

theorem each_fresh_new (order : MapOrder) {calls : List Call} (hopens : OpensFit calls) :
    Each (step order) Fresh new calls := by
  have hzero : new.market.futureCounter.toNat = 0 := rfl
  have hfit : new.market.futureCounter.toNat + calls.countP Call.opens < 2 ^ 64 := by
    rw [OpensFit] at hopens
    omega
  have hfresh : Each (step order) (fun system call => call.opens = true →
      openedId call system.market.futureCounter.toNat ∉ system.market.futures) new calls := by
    refine Numbered.each_fresh (fun system : FuturesSystem => system.market.futureCounter) openedId
      (counter_step order) (fun _ _ _ _ => openedId_inj)
      (fun system id => id ∈ system.market.futures) ?_ (fun id => AList.notMem_empty id) hfit
    intro system call id hmem
    rcases mem_of_step hmem with hold | ⟨c, rfl, rfl⟩
    · exact .inl hold
    · exact .inr rfl
  refine hfresh.imp ?_
  rintro system call hnew c rfl
  exact hnew rfl

end FuturesSystem

end Membra
