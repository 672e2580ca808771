/-
Isolation of gas pools.

Each pool has its own config and reserved amount, but the statistics are one record for
all pools, from which `get_pool_stats` takes the utilization ratio.

* `lookup_step_of_ne`, `reservedAt_step_of_ne` — an operation on one pool leaves config
  and reserved amount of the others alone;
* `stats_step` — what an operation writes into the shared record;
* `isolates_iff` — no other pool's answers change, exactly if the ratio that is written
  is the one that is there;
* `isolated_iff_keepsRatio` — the same for all operations of a run.
-/
import MembraL3.GasPool
import MembraL3.Lib.Runs

namespace Membra

namespace GasPoolManager

open Runs

/-- The pool that an operation works on. -/
def Call.target : Call → Option String
  | .initializePool config => some config.poolId
  | .updatePoolBalance poolId _ => some poolId
  | .reserveFunds poolId _ => some poolId
  | .releaseFunds poolId _ => some poolId
  | _ => none

/-- What is reported of pool `poolId` does not change. -/
structure Undisturbed (manager : GasPoolManager) (c : Call) (poolId : String) : Prop where
  stats : ((step manager c).2.getPoolStats poolId).1 = (manager.getPoolStats poolId).1
  config : (step manager c).2.getPoolConfig poolId = manager.getPoolConfig poolId
  availability : ∀ required, ((step manager c).2.checkAvailability poolId required).1
    = (manager.checkAvailability poolId required).1

/-- An operation on a pool disturbs no other. -/
def Isolates (manager : GasPoolManager) (c : Call) : Prop :=
  ∀ poolId other, c.target = some poolId → other ≠ poolId → Undisturbed manager c other

/-! ### Other pools -/

variable {manager : GasPoolManager} {c : Call} {poolId other : String}

theorem lookup_step_of_ne (htarget : c.target = some poolId) (hother : other ≠ poolId) :
    (step manager c).2.poolConfigs.lookup other = manager.poolConfigs.lookup other := by
  rcases step_cases manager c with ⟨hsame, _⟩ | ⟨config, rfl, hconfigs, _⟩ |
    ⟨poolId', amount, config, rfl, _, hconfigs, _⟩ |
    ⟨poolId', amount, config, rfl, _, _, _, hsame, _⟩ | ⟨poolId', amount, rfl, hsame, _⟩
  · rw [hsame]
  · obtain rfl := Option.some.inj htarget
    rw [hconfigs, Store.lookup_assign_ne _ _ hother]
  · obtain rfl := Option.some.inj htarget
    rw [hconfigs, Store.lookup_assign_ne _ _ hother]
  · rw [hsame]
  · rw [hsame]

theorem reservedAt_step_of_ne (htarget : c.target = some poolId) (hother : other ≠ poolId) :
    (step manager c).2.reservedAt other = manager.reservedAt other := by
  rcases step_cases manager c with ⟨_, hsame, _⟩ | ⟨config, rfl, _, hsame⟩ |
    ⟨poolId', amount, config, rfl, _, _, hsame⟩ |
    ⟨poolId', amount, config, rfl, _, _, _, _, hreserved⟩ |
    ⟨poolId', amount, rfl, _, hreserved⟩
  · rw [hsame]
  · rw [hsame]
  · rw [hsame]
  · obtain rfl := Option.some.inj htarget
    rw [hreserved, Function.update_of_ne hother]
  · obtain rfl := Option.some.inj htarget
    rw [hreserved, Function.update_of_ne hother]

/-! ### The shared statistics -/

/-- The ratio that an operation writes into the shared statistics, if it writes one. -/
def writtenRatio (manager : GasPoolManager) : Call → Option DoubleValue
  | .reserveFunds poolId amount =>
    match manager.poolConfigs.lookup poolId with
    | none => none
    | some config =>
      if amount ≤ config.availableBalance - manager.reservedAt poolId then
        some (utilization (manager.reservedAt poolId + amount) config.totalPoolBalance)
      else none
  | .releaseFunds poolId amount =>
    match manager.poolConfigs.lookup poolId with
    | none => none
    | some config =>
      some (utilization (afterRelease (manager.reservedAt poolId) amount) config.totalPoolBalance)
  | _ => none

theorem stats_step (manager : GasPoolManager) (c : Call) :
    (step manager c).2.stats.totalReimbursements = manager.stats.totalReimbursements ∧
      (step manager c).2.stats.utilizationRatio
        = (writtenRatio manager c).getD manager.stats.utilizationRatio := by
  cases c with
  | initializePool config => exact ⟨rfl, rfl⟩
  | getPoolConfig poolId => exact ⟨rfl, rfl⟩
  | updatePoolBalance poolId amount =>
    cases hlookup : manager.poolConfigs.lookup poolId with
    | none => simp [step, updatePoolBalance, hlookup, writtenRatio]
    | some config => simp [step, updatePoolBalance, hlookup, writtenRatio]
  | checkAvailability poolId required =>
    cases hlookup : manager.poolConfigs.lookup poolId with
    | none => simp [step, checkAvailability, hlookup, writtenRatio]
    | some config => simp [step, checkAvailability, hlookup, writtenRatio, touchReserved]
  | reserveFunds poolId amount =>
    cases hlookup : manager.poolConfigs.lookup poolId with
    | none => simp [step, reserveFunds, checkAvailability, hlookup, writtenRatio]
    | some config =>
      by_cases havailable : amount ≤ config.availableBalance - manager.reservedAt poolId
      · rw [step, reserveFunds_of_available hlookup havailable]
        simp [hlookup, havailable, writtenRatio, setReserved, touchReserved]
      · simp [step, reserveFunds, checkAvailability, hlookup, havailable, writtenRatio,
          touchReserved]
  | releaseFunds poolId amount =>
    cases hlookup : manager.poolConfigs.lookup poolId with
    | none => simp [step, releaseFunds, hlookup, writtenRatio, setReserved]
    | some config => simp [step, releaseFunds, hlookup, writtenRatio, setReserved, afterRelease]
  | getPoolStats poolId =>
    cases hlookup : manager.poolConfigs.lookup poolId with
    | none => simp [step, getPoolStats, hlookup, writtenRatio]
    | some config => simp [step, getPoolStats, hlookup, writtenRatio, touchReserved]

theorem getPoolStats_eq (manager : GasPoolManager) (poolId : String) :
    (manager.getPoolStats poolId).1 =
      match manager.poolConfigs.lookup poolId with
      | some config =>
        { totalDeposited := config.totalPoolBalance
          totalWithdrawn := config.totalPoolBalance - config.availableBalance
          currentBalance := config.availableBalance
          reservedAmount := manager.reservedAt poolId
          totalReimbursements := manager.stats.totalReimbursements
          utilizationRatio := manager.stats.utilizationRatio }
      | none => .default := by
  rw [getPoolStats]
  cases manager.poolConfigs.lookup poolId <;> rfl

/-- The statistics of another pool change with the shared ratio, if the pool exists. -/
theorem getPoolStats_step_iff (htarget : c.target = some poolId) (hother : other ≠ poolId) :
    ((step manager c).2.getPoolStats other).1 = (manager.getPoolStats other).1 ↔
      (other ∈ manager.poolConfigs →
        (step manager c).2.stats.utilizationRatio = manager.stats.utilizationRatio) := by
  rw [getPoolStats_eq, getPoolStats_eq, lookup_step_of_ne htarget hother,
    reservedAt_step_of_ne htarget hother, (stats_step manager c).1]
  cases hlookup : manager.poolConfigs.lookup other with
  | none =>
    have hnone := AList.lookup_eq_none.mp hlookup
    exact iff_of_true rfl fun hmem => absurd hmem hnone
  | some config =>
    have hmem := Store.mem_of_lookup hlookup
    rw [forall_prop_of_true hmem]
    simp

/-- Where there are other pools, the ratio that is written is the one that is there. -/
def KeepsRatio (manager : GasPoolManager) (c : Call) : Prop :=
  ∀ poolId ratio, c.target = some poolId → writtenRatio manager c = some ratio →
    (∃ other ∈ manager.poolConfigs, other ≠ poolId) → ratio = manager.stats.utilizationRatio

theorem isolates_iff (manager : GasPoolManager) (c : Call) :
    Isolates manager c ↔ KeepsRatio manager c := by
  constructor
  · rintro h poolId ratio htarget hwritten ⟨other, hmem, hother⟩
    have hstats := (getPoolStats_step_iff htarget hother).mp (h poolId other htarget hother).stats
    rw [← hstats hmem, (stats_step manager c).2, hwritten]
    rfl
  · intro h poolId other htarget hother
    have hlookup : (step manager c).2.poolConfigs.lookup other
        = manager.poolConfigs.lookup other := lookup_step_of_ne htarget hother
    refine ⟨?_, ?_, ?_⟩
    · rw [getPoolStats_step_iff htarget hother, (stats_step manager c).2]
      intro hmem
      cases hwritten : writtenRatio manager c with
      | none => rfl
      | some ratio => exact h poolId ratio htarget hwritten ⟨other, hmem, hother⟩
    · rw [getPoolConfig, getPoolConfig, hlookup]
    · exact checkAvailability_congr hlookup (reservedAt_step_of_ne htarget hother)

/-- All operations of a run leave what is reported of other pools alone, exactly if none
writes a new ratio while there are other pools. -/
theorem isolated_iff_keepsRatio (calls : List Call) :
    (∀ e ∈ trace step new calls, Isolates e.before e.call) ↔ Each step KeepsRatio new calls :=
  forall_trace_iff_each isolates_iff

/-- Two pools, and a reservation from one of them. -/
def twoPools : List Call :=
  [.initializePool { GasPoolConfig.default with
      poolId := "a", totalPoolBalance := 10, availableBalance := 10 },
    .initializePool { GasPoolConfig.default with
      poolId := "b", totalPoolBalance := 10, availableBalance := 10 }]

theorem not_forall_isolated : ¬ ∀ calls, ∀ e ∈ trace step new calls, Isolates e.before e.call := by
  intro h
  have hmem : event step (final step new twoPools) (.reserveFunds "a" 5)
      ∈ trace step new (twoPools ++ [.reserveFunds "a" 5]) :=
    mem_trace_iff.mpr ⟨twoPools, .reserveFunds "a" 5, [], rfl, rfl⟩
  have hstats := (h _ _ hmem "a" "b" rfl (by decide)).stats
  revert hstats
  decide +kernel

end GasPoolManager

end Membra
