/-
The ids of new positions.

Each of the three functions that open a position stores it under its id and then
returns the id of the record it was moved from.  That id is empty, and no
position is ever stored under the empty key.

* `keysNonempty_final` — in every reachable market all keys are non-empty;
* `openPosition_not_idUsable` — so no id that is returned finds its position.
-/
import MembraL3.ComputeFutures
import MembraL3.Lib.Runs

namespace Membra

namespace ComputeFuturesMarket

/-- Opening a position returns the empty string, and stores the position under a
key that is not empty. -/
theorem openPosition_cases (market : ComputeFuturesMarket) (oracle : ComputePriceOracle)
    (c : OpenCall) :
    ∃ future : ComputeFuture, future.futureId ≠ "" ∧ future.status = .opened ∧
      market.openPosition oracle c
        = ("", { futures := market.futures.assign future.futureId future
                 futureCounter := market.futureCounter + 1 }) := by
  -- the literal part of the id alone has a positive length
  have hne : ∀ tag number : String, tag.length ≠ 0 → tag ++ number ≠ "" := by
    intro tag number htag h
    have hlen := congrArg String.length h
    rw [String.length_append, String.length_empty] at hlen
    omega
  cases c with
  | forward trader cpu ram duration collateral now =>
    exact ⟨_, hne "fwd_" _ (by decide), rfl, rfl⟩
  | long trader cpu ram leverage collateral duration now =>
    exact ⟨_, hne "long_" _ (by decide), rfl, rfl⟩
  | short trader cpu ram leverage collateral duration now =>
    exact ⟨_, hne "short_" _ (by decide), rfl, rfl⟩

/-- The liquidation loop changes records in place. -/
theorem mem_liquidationLoop (currentPrice : ℚ) (futures : Store String ComputeFuture)
    (ids : List String) (key : String) :
    key ∈ (liquidationLoop currentPrice futures ids).2 ↔ key ∈ futures := by
  induction ids generalizing futures with
  | nil => rfl
  | cons id ids ih =>
    rw [liquidationLoop]
    cases hlookup : futures.lookup id with
    | none => exact ih futures
    | some future =>
      by_cases hbelow : future.status = .opened ∧ future.belowCollateral currentPrice = true
      · simp only [if_pos hbelow]
        rw [ih, Store.mem_assign_of_lookup hlookup]
      · simp only [if_neg hbelow]
        exact ih futures

end ComputeFuturesMarket

namespace FuturesSystem

open Runs ComputeFuturesMarket

/-- No position is stored under the empty key. -/
def KeysNonempty (system : FuturesSystem) : Prop := "" ∉ system.market.futures

theorem keysNonempty_step (order : MapOrder) {system : FuturesSystem} (c : Call)
    (h : KeysNonempty system) : KeysNonempty (step order system c).2 := by
  cases c with
  | openPosition c =>
    obtain ⟨future, hid, -, hopen⟩ := openPosition_cases system.market system.oracle c
    show "" ∉ (system.market.openPosition system.oracle c).2.futures
    rw [hopen]
    intro hmem
    rcases Store.mem_assign.mp hmem with hempty | hmem
    · exact hid hempty.symm
    · exact h hmem
  | settleFuture futureId now =>
    -- settling overwrites the record under a key that is there
    show "" ∉ (system.market.settleFuture system.oracle futureId now).2.futures
    rw [settleFuture]
    cases hlookup : system.market.futures.lookup futureId with
    | none => exact h
    | some future =>
      by_cases hopen : future.status = .opened
      · simp only [hopen, ne_eq, not_true_eq_false, if_false]
        intro hmem
        exact h ((Store.mem_assign_of_lookup hlookup).mp hmem)
      · simp only [hopen, ne_eq, not_false_eq_true, if_true]
        exact h
  | checkLiquidations =>
    show "" ∉ (liquidationLoop _ system.market.futures _).2
    rw [mem_liquidationLoop]
    exact h
  | _ => exact h

theorem keysNonempty_final (order : MapOrder) (calls : List Call) :
    KeysNonempty (final (step order) new calls) := by
  have hnew : KeysNonempty new := AList.notMem_empty ""
  exact final_invariant (fun _ c h => keysNonempty_step order c h) hnew calls

/-- The id that opening a position returns is usable: it is the key under which
the new position is stored, so that it finds the position and settles it. -/
structure IdUsable (system : FuturesSystem) (c : OpenCall) : Prop where
  stored : ∃ future, (system.market.openPosition system.oracle c).2.futures
    = system.market.futures.assign (system.market.openPosition system.oracle c).1 future
  found : ∃ future, (system.market.openPosition system.oracle c).2.getFuture
    (system.market.openPosition system.oracle c).1 = some future
  settles : ∀ now, ((system.market.openPosition system.oracle c).2.settleFuture system.oracle
    (system.market.openPosition system.oracle c).1 now).1.isSome

/-- No id that opening a position returns is usable: in every reachable state it is
no key of the map, before and after, and settling it fails and changes nothing. -/
theorem openPosition_not_idUsable (order : MapOrder) (calls : List Call) (c : OpenCall) :
    let system := final (step order) new calls
    let (id, market) := system.market.openPosition system.oracle c
    ¬ IdUsable system c ∧ market.getFuture id = none ∧
      ∀ oracle now, market.settleFuture oracle id now = (none, market) := by
  intro system
  obtain ⟨future, hid, -, hopen⟩ := openPosition_cases system.market system.oracle c
  rw [hopen]
  have hbefore : "" ∉ system.market.futures := keysNonempty_final order calls
  have hlookup : (system.market.futures.assign future.futureId future).lookup "" = none := by
    rw [Store.lookup_assign_ne _ _ hid.symm]
    exact AList.lookup_eq_none.mpr hbefore
  refine ⟨?_, hlookup, ?_⟩
  · intro husable
    obtain ⟨found, hfound⟩ := husable.found
    rw [hopen] at hfound
    exact absurd (hlookup.symm.trans hfound) (by simp)
  · intro oracle now
    rw [settleFuture, hlookup]

/-- The forward contract of a first call. -/
theorem not_forall_idUsable : ¬ ∀ order calls c, IdUsable (final (step order) new calls) c := by
  intro h
  obtain ⟨future, hfound⟩ := (h newestFirst [] (.forward "trader_1" 4 16 3600 1 0)).found
  have hnone : (new.market.openPosition new.oracle (.forward "trader_1" 4 16 3600 1 0)).2.getFuture
      "" = none := by decide +kernel
  exact absurd (hnone.symm.trans hfound) (by simp)

end FuturesSystem

end Membra
