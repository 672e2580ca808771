/-
Gas pools and their reservations.

`GasPoolManager` keeps the pools' balances in one map and the amounts reserved
from them in another, which adds a zero for a pool wherever it is read.  `step`
performs one public operation.

* `step_cases` — all that one operation can do to balances and reservations;
* `reserveFunds_eq_true_iff` — when a reservation succeeds.
-/
import MembraL3.Conversion
import MembraL3.GasReimbursement
import Mathlib.Logic.Function.Basic

namespace Membra

structure PoolStats where
  totalDeposited : UInt64
  totalWithdrawn : UInt64
  currentBalance : UInt64
  reservedAmount : UInt64
  totalReimbursements : UInt64
  utilizationRatio : DoubleValue
  deriving DecidableEq

/-- `PoolStats()`. -/
def PoolStats.default : PoolStats := ⟨0, 0, 0, 0, 0, .number 0⟩

structure GasPoolManager where
  poolConfigs : Store String GasPoolConfig
  reservedAmounts : Store String UInt64
  stats : PoolStats

namespace GasPoolManager

def new : GasPoolManager where
  poolConfigs := ∅
  reservedAmounts := ∅
  stats := ⟨0, 0, 0, 0, 0, .number 0⟩

/-! ### Operations -/

def initializePool (manager : GasPoolManager) (config : GasPoolConfig) : Bool × GasPoolManager :=
  (true, { manager with
    poolConfigs := manager.poolConfigs.assign config.poolId config
    stats := { manager.stats with
      totalDeposited := config.totalPoolBalance
      currentBalance := config.availableBalance } })

def getPoolConfig (manager : GasPoolManager) (poolId : String) : GasPoolConfig :=
  (manager.poolConfigs.lookup poolId).getD .default

/-- The config with `amount` added to both balances. -/
def toppedUp (config : GasPoolConfig) (amount : UInt64) : GasPoolConfig :=
  { config with
    totalPoolBalance := config.totalPoolBalance + amount
    availableBalance := config.availableBalance + amount }

def updatePoolBalance (manager : GasPoolManager) (poolId : String) (amount : UInt64) :
    Bool × GasPoolManager :=
  match manager.poolConfigs.lookup poolId with
  | none => (false, manager)
  | some config =>
    (true, { manager with
      poolConfigs := manager.poolConfigs.assign poolId (toppedUp config amount)
      stats := { manager.stats with currentBalance := config.availableBalance + amount } })

/-- `reserved_amounts_[pool_id]`, as a value. -/
def reservedAt (manager : GasPoolManager) (poolId : String) : UInt64 :=
  (manager.reservedAmounts.lookup poolId).getD 0

/-- `reserved_amounts_[pool_id]` adds a zero where there is no amount. -/
def touchReserved (manager : GasPoolManager) (poolId : String) : GasPoolManager :=
  { manager with
    reservedAmounts := manager.reservedAmounts.assign poolId (manager.reservedAt poolId) }

/-- The quotient of the two, exact. -/
def utilization (reserved total : UInt64) : DoubleValue := quotient reserved.toNat total.toNat

def checkAvailability (manager : GasPoolManager) (poolId : String) (requiredAmount : UInt64) :
    Bool × GasPoolManager :=
  match manager.poolConfigs.lookup poolId with
  | none => (false, manager)
  | some config =>
    let available := config.availableBalance - manager.reservedAt poolId
    (available ≥ requiredAmount, manager.touchReserved poolId)

/-- `reserved_amounts_[pool_id] = reserved`, with the statistics that follow it. -/
def setReserved (manager : GasPoolManager) (poolId : String) (reserved : UInt64)
    (ratio : DoubleValue) : GasPoolManager :=
  { manager with
    reservedAmounts := manager.reservedAmounts.assign poolId reserved
    stats := { manager.stats with reservedAmount := reserved, utilizationRatio := ratio } }

def reserveFunds (manager : GasPoolManager) (poolId : String) (amount : UInt64) :
    Bool × GasPoolManager :=
  let (available, manager) := manager.checkAvailability poolId amount
  if !available then (false, manager)
  else
    let reserved := manager.reservedAt poolId + amount
    let config := manager.getPoolConfig poolId
    (true, manager.setReserved poolId reserved (utilization reserved config.totalPoolBalance))

/-- A release of more than is reserved is cut down to what is. -/
def releaseFunds (manager : GasPoolManager) (poolId : String) (amount : UInt64) : GasPoolManager :=
  let reserved :=
    if manager.reservedAt poolId ≥ amount then manager.reservedAt poolId - amount else 0
  let ratio :=
    match manager.poolConfigs.lookup poolId with
    | some config => utilization reserved config.totalPoolBalance
    | none => manager.stats.utilizationRatio
  manager.setReserved poolId reserved ratio

def getPoolStats (manager : GasPoolManager) (poolId : String) : PoolStats × GasPoolManager :=
  match manager.poolConfigs.lookup poolId with
  | some config =>
    ({ totalDeposited := config.totalPoolBalance
       totalWithdrawn := config.totalPoolBalance - config.availableBalance
       currentBalance := config.availableBalance
       reservedAmount := manager.reservedAt poolId
       totalReimbursements := manager.stats.totalReimbursements
       utilizationRatio := manager.stats.utilizationRatio },
      manager.touchReserved poolId)
  | none => (.default, manager)

/-! ### Calls -/

inductive Call where
  | initializePool (config : GasPoolConfig)
  | getPoolConfig (poolId : String)
  | updatePoolBalance (poolId : String) (amount : UInt64)
  | checkAvailability (poolId : String) (requiredAmount : UInt64)
  | reserveFunds (poolId : String) (amount : UInt64)
  | releaseFunds (poolId : String) (amount : UInt64)
  | getPoolStats (poolId : String)

inductive Reply where
  | initialized (ok : Bool)
  | config (config : GasPoolConfig)
  | updated (ok : Bool)
  | available (ok : Bool)
  | reserved (ok : Bool)
  | released
  | stats (stats : PoolStats)

def step (manager : GasPoolManager) : Call → Reply × GasPoolManager
  | .initializePool config => (manager.initializePool config).map .initialized id
  | .getPoolConfig poolId => (.config (manager.getPoolConfig poolId), manager)
  | .updatePoolBalance poolId amount => (manager.updatePoolBalance poolId amount).map .updated id
  | .checkAvailability poolId required =>
    (manager.checkAvailability poolId required).map .available id
  | .reserveFunds poolId amount => (manager.reserveFunds poolId amount).map .reserved id
  | .releaseFunds poolId amount => (.released, manager.releaseFunds poolId amount)
  | .getPoolStats poolId => (manager.getPoolStats poolId).map .stats id

/-! ### What an operation does -/

/-- Assigning one amount, seen through `reserved_amounts_[·]`. -/
theorem getD_lookup_assign (amounts : Store String UInt64) (poolId : String) (amount : UInt64) :
    (fun pool => ((amounts.assign poolId amount).lookup pool).getD 0)
      = Function.update (fun pool => (amounts.lookup pool).getD 0) poolId amount := by
  funext pool
  rw [Store.lookup_assign]
  by_cases hpool : pool = poolId
  · rw [if_pos hpool, hpool, Function.update_self]
    rfl
  · rw [if_neg hpool, Function.update_of_ne hpool]

@[simp] theorem poolConfigs_touchReserved (manager : GasPoolManager) (poolId : String) :
    (manager.touchReserved poolId).poolConfigs = manager.poolConfigs := rfl

@[simp] theorem reservedAt_touchReserved (manager : GasPoolManager) (poolId : String) :
    (manager.touchReserved poolId).reservedAt = manager.reservedAt := by
  show (fun pool => ((manager.reservedAmounts.assign poolId _).lookup pool).getD 0) = _
  rw [getD_lookup_assign]
  exact Function.update_eq_self poolId manager.reservedAt

theorem reservedAt_setReserved (manager : GasPoolManager) (poolId : String) (reserved : UInt64)
    (ratio : DoubleValue) :
    (manager.setReserved poolId reserved ratio).reservedAt
      = Function.update manager.reservedAt poolId reserved :=
  getD_lookup_assign manager.reservedAmounts poolId reserved

/-- What a release leaves reserved. -/
def afterRelease (reserved amount : UInt64) : UInt64 :=
  if reserved ≥ amount then reserved - amount else 0

theorem reservedAt_releaseFunds (manager : GasPoolManager) (poolId : String) (amount : UInt64) :
    (manager.releaseFunds poolId amount).reservedAt
      = Function.update manager.reservedAt poolId
          (afterRelease (manager.reservedAt poolId) amount) :=
  reservedAt_setReserved manager poolId _ _

/-- A reservation that the balance covers. -/
theorem reserveFunds_of_available {manager : GasPoolManager} {poolId : String} {amount : UInt64}
    {config : GasPoolConfig} (hlookup : manager.poolConfigs.lookup poolId = some config)
    (havailable : amount ≤ config.availableBalance - manager.reservedAt poolId) :
    manager.reserveFunds poolId amount
      = (true, (manager.touchReserved poolId).setReserved poolId
          (manager.reservedAt poolId + amount)
          (utilization (manager.reservedAt poolId + amount) config.totalPoolBalance)) := by
  simp [reserveFunds, checkAvailability, getPoolConfig, hlookup, havailable]

/-- A reservation succeeds where the balance less what is reserved, in 64 bits, is
not below the amount. -/
theorem reserveFunds_eq_true_iff (manager : GasPoolManager) (poolId : String) (amount : UInt64) :
    (manager.reserveFunds poolId amount).1 = true ↔
      ∃ config, manager.poolConfigs.lookup poolId = some config ∧
        amount ≤ config.availableBalance - manager.reservedAt poolId := by
  rw [reserveFunds, checkAvailability]
  cases hlookup : manager.poolConfigs.lookup poolId with
  | none => simp
  | some config =>
    by_cases havailable : amount ≤ config.availableBalance - manager.reservedAt poolId
    · simp [havailable]
    · simp [havailable]

/-- What one operation can do to balances and reservations. -/
theorem step_cases (manager : GasPoolManager) (c : Call) :
    ((step manager c).2.poolConfigs = manager.poolConfigs ∧
      (step manager c).2.reservedAt = manager.reservedAt ∧
      (step manager c).1 ≠ .reserved true ∧ (step manager c).1 ≠ .released ∧
      (∀ config, c ≠ .initializePool config) ∧
      ∀ poolId amount, c = .updatePoolBalance poolId amount →
        manager.poolConfigs.lookup poolId = none) ∨
    (∃ config, c = .initializePool config ∧
      (step manager c).2.poolConfigs = manager.poolConfigs.assign config.poolId config ∧
      (step manager c).2.reservedAt = manager.reservedAt) ∨
    (∃ poolId amount config, c = .updatePoolBalance poolId amount ∧
      manager.poolConfigs.lookup poolId = some config ∧
      (step manager c).2.poolConfigs
        = manager.poolConfigs.assign poolId (toppedUp config amount) ∧
      (step manager c).2.reservedAt = manager.reservedAt) ∨
    (∃ poolId amount config, c = .reserveFunds poolId amount ∧
      manager.poolConfigs.lookup poolId = some config ∧
      amount ≤ config.availableBalance - manager.reservedAt poolId ∧
      (step manager c).1 = .reserved true ∧
      (step manager c).2.poolConfigs = manager.poolConfigs ∧
      (step manager c).2.reservedAt
        = Function.update manager.reservedAt poolId (manager.reservedAt poolId + amount)) ∨
    (∃ poolId amount, c = .releaseFunds poolId amount ∧
      (step manager c).2.poolConfigs = manager.poolConfigs ∧
      (step manager c).2.reservedAt
        = Function.update manager.reservedAt poolId
            (afterRelease (manager.reservedAt poolId) amount)) := by
  cases c with
  | initializePool config => exact .inr (.inl ⟨config, rfl, rfl, rfl⟩)
  | getPoolConfig poolId =>
    left
    simp [step]
  | updatePoolBalance poolId amount =>
    cases hlookup : manager.poolConfigs.lookup poolId with
    | none =>
      left
      simp [step, updatePoolBalance, hlookup]
    | some config =>
      refine .inr (.inr (.inl ⟨poolId, amount, config, rfl, hlookup, ?_, ?_⟩))
      · simp only [step, updatePoolBalance, hlookup]
        rfl
      · simp only [step, updatePoolBalance, hlookup]
        rfl
  | checkAvailability poolId required =>
    left
    cases hlookup : manager.poolConfigs.lookup poolId with
    | none => simp [step, checkAvailability, hlookup]
    | some config => simp [step, checkAvailability, hlookup]
  | reserveFunds poolId amount =>
    cases hlookup : manager.poolConfigs.lookup poolId with
    | none =>
      left
      simp [step, reserveFunds, checkAvailability, hlookup]
    | some config =>
      by_cases havailable : amount ≤ config.availableBalance - manager.reservedAt poolId
      · have hreserve := reserveFunds_of_available hlookup havailable
        refine .inr (.inr (.inr (.inl ⟨poolId, amount, config, rfl, hlookup, havailable, ?_, ?_,
          ?_⟩)))
        · rw [step, hreserve]
          rfl
        · rw [step, hreserve]
          rfl
        · rw [step, hreserve, ← reservedAt_touchReserved manager poolId]
          exact reservedAt_setReserved _ poolId _ _
      · left
        simp [step, reserveFunds, checkAvailability, hlookup, havailable]
  | releaseFunds poolId amount =>
    exact .inr (.inr (.inr (.inr ⟨poolId, amount, rfl, rfl,
      reservedAt_releaseFunds manager poolId amount⟩)))
  | getPoolStats poolId =>
    left
    cases hlookup : manager.poolConfigs.lookup poolId with
    | none => simp [step, getPoolStats, hlookup]
    | some config => simp [step, getPoolStats, hlookup]

/-! ### Balances and reservations apart -/

/-- Reservations and releases. -/
def Call.isReservation : Call → Bool
  | .reserveFunds _ _ => true
  | .releaseFunds _ _ => true
  | _ => false

/-- The balances after a call, from the balances before it. -/
def configsAfter (configs : Store String GasPoolConfig) : Call → Store String GasPoolConfig
  | .initializePool config => configs.assign config.poolId config
  | .updatePoolBalance poolId amount =>
    match configs.lookup poolId with
    | none => configs
    | some config => configs.assign poolId (toppedUp config amount)
  | _ => configs

theorem poolConfigs_step (manager : GasPoolManager) (c : Call) :
    (step manager c).2.poolConfigs = configsAfter manager.poolConfigs c := by
  rcases step_cases manager c with ⟨hconfigs, _, _, _, hinit, htopUp⟩ |
    ⟨config, rfl, hconfigs, _⟩ | ⟨poolId, amount, config, rfl, hlookup, hconfigs, _⟩ |
    ⟨poolId, amount, config, rfl, _, _, _, hconfigs, _⟩ | ⟨poolId, amount, rfl, hconfigs, _⟩
  · rw [hconfigs]
    cases c with
    | initializePool config => exact absurd rfl (hinit config)
    | updatePoolBalance poolId amount => rw [configsAfter, htopUp poolId amount rfl]
    | _ => rfl
  · exact hconfigs
  · rw [hconfigs, configsAfter, hlookup]
  · exact hconfigs
  · exact hconfigs

theorem configsAfter_of_isReservation (configs : Store String GasPoolConfig) {c : Call}
    (hc : c.isReservation = true) : configsAfter configs c = configs := by
  cases c with
  | reserveFunds poolId amount => rfl
  | releaseFunds poolId amount => rfl
  | _ => exact absurd hc (by simp [Call.isReservation])

theorem reservedAt_step_of_not_isReservation (manager : GasPoolManager) {c : Call}
    (hc : c.isReservation = false) : (step manager c).2.reservedAt = manager.reservedAt := by
  rcases step_cases manager c with ⟨_, hreserved, _⟩ | ⟨config, rfl, _, hreserved⟩ |
    ⟨poolId, amount, config, rfl, _, _, hreserved⟩ |
    ⟨poolId, amount, config, rfl, _⟩ | ⟨poolId, amount, rfl, _⟩
  · exact hreserved
  · exact hreserved
  · exact hreserved
  · exact absurd hc (by simp [Call.isReservation])
  · exact absurd hc (by simp [Call.isReservation])

/-- What `check_availability` answers depends on the pool's config and on what is
reserved from it. -/
theorem checkAvailability_congr {manager manager' : GasPoolManager} {poolId : String}
    (hconfig : manager.poolConfigs.lookup poolId = manager'.poolConfigs.lookup poolId)
    (hreserved : manager.reservedAt poolId = manager'.reservedAt poolId) (required : UInt64) :
    (manager.checkAvailability poolId required).1
      = (manager'.checkAvailability poolId required).1 := by
  rw [checkAvailability, checkAvailability, hconfig, hreserved]
  cases manager'.poolConfigs.lookup poolId with
  | none => rfl
  | some config => rfl

end GasPoolManager

end Membra
