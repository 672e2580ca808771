/-
Pools that cover their reservations.

`reserve_funds` compares the amount with the balance less what is reserved, in
64 bits.  As long as the balance covers what is reserved this is exact; but a
pool that is initialised again, or topped up past `2 ^ 64`, can fall below its
reservations, and the difference wraps around.

* `covered_iff` — what follows from the balances alone;
* `covered_iff_keepsReservations` — the runs in which every pool covers its
  reservations throughout.
-/
import MembraL3.GasPool
import MembraL3.Lib.Runs
import MembraL3.Lib.Words

namespace Membra

namespace GasPoolManager

open Runs

/-- Every initialised pool covers what is reserved from it: the subtraction of
`check_availability` is exact, and a reservation succeeds where the sums of
unbounded integers say so. -/
structure Covered (manager : GasPoolManager) : Prop where
  reserved_le : ∀ poolId config, manager.poolConfigs.lookup poolId = some config →
    manager.reservedAt poolId ≤ config.availableBalance
  exact_available : ∀ poolId config, manager.poolConfigs.lookup poolId = some config →
    (manager.reservedAt poolId).toNat
        + (config.availableBalance - manager.reservedAt poolId).toNat
      = config.availableBalance.toNat
  reserveFunds_iff : ∀ poolId config amount, manager.poolConfigs.lookup poolId = some config →
    ((manager.reserveFunds poolId amount).1 = true ↔
      (manager.reservedAt poolId).toNat + amount.toNat ≤ config.availableBalance.toNat)

/-- The first condition is enough. -/
theorem covered_iff (manager : GasPoolManager) :
    Covered manager ↔ ∀ poolId config, manager.poolConfigs.lookup poolId = some config →
      manager.reservedAt poolId ≤ config.availableBalance := by
  constructor
  · intro h
    exact h.reserved_le
  · intro h
    refine ⟨h, ?_, ?_⟩
    · intro poolId config hlookup
      exact Words.toNat_add_toNat_sub (h poolId config hlookup)
    · intro poolId config amount hlookup
      have hexact := Words.toNat_add_toNat_sub (h poolId config hlookup)
      rw [reserveFunds_eq_true_iff, hlookup]
      constructor
      · rintro ⟨config', hsome, hle⟩
        obtain rfl := Option.some_inj.mp hsome
        rw [UInt64.le_iff_toNat_le] at hle
        omega
      · intro hle
        refine ⟨config, rfl, ?_⟩
        rw [UInt64.le_iff_toNat_le]
        omega

theorem covered_new : Covered new := by
  rw [covered_iff]
  intro poolId config hlookup
  exact absurd hlookup (by simp [new])

/-- A pool is initialised with a balance that covers what is reserved from it, and
still covers it after a top-up, which adds modulo `2 ^ 64`. -/
def KeepsReservations (manager : GasPoolManager) : Call → Prop
  | .initializePool config => manager.reservedAt config.poolId ≤ config.availableBalance
  | .updatePoolBalance poolId amount => ∀ config ∈ manager.poolConfigs.lookup poolId,
      manager.reservedAt poolId ≤ config.availableBalance + amount
  | _ => True

/-- Storing a config for one pool leaves the others covered. -/
theorem covered_assign_iff {manager manager' : GasPoolManager} (h : Covered manager)
    {poolId : String} {config : GasPoolConfig}
    (hconfigs : manager'.poolConfigs = manager.poolConfigs.assign poolId config)
    (hreserved : manager'.reservedAt = manager.reservedAt) :
    Covered manager' ↔ manager.reservedAt poolId ≤ config.availableBalance := by
  rw [covered_iff, hconfigs, hreserved]
  constructor
  · intro hall
    exact hall poolId config (Store.lookup_assign_self ..)
  · intro hle pool config' hlookup
    rw [Store.lookup_assign] at hlookup
    by_cases hpool : pool = poolId
    · rw [if_pos hpool, Option.some_inj] at hlookup
      rw [hpool, ← hlookup]
      exact hle
    · rw [if_neg hpool] at hlookup
      exact h.reserved_le pool config' hlookup

/-- Lowering what is reserved from one pool, or raising it to what its balance
covers, leaves all pools covered. -/
theorem covered_update {manager manager' : GasPoolManager} (h : Covered manager)
    {poolId : String} {reserved : UInt64}
    (hconfigs : manager'.poolConfigs = manager.poolConfigs)
    (hreserved : manager'.reservedAt = Function.update manager.reservedAt poolId reserved)
    (hle : ∀ config, manager.poolConfigs.lookup poolId = some config →
      reserved ≤ config.availableBalance) : Covered manager' := by
  rw [covered_iff, hconfigs, hreserved]
  intro pool config hlookup
  by_cases hpool : pool = poolId
  · subst hpool
    rw [Function.update_self]
    exact hle config hlookup
  · rw [Function.update_of_ne hpool]
    exact h.reserved_le pool config hlookup

theorem afterRelease_le (reserved amount : UInt64) : afterRelease reserved amount ≤ reserved := by
  unfold afterRelease
  split
  · rename_i hle
    have hexact := Words.toNat_add_toNat_sub hle
    rw [UInt64.le_iff_toNat_le]
    omega
  · exact UInt64.zero_le

/-- From a covered state, one call leads to a covered one iff it keeps to the
condition. -/
theorem covered_step_iff {manager : GasPoolManager} (h : Covered manager) (c : Call) :
    Covered (step manager c).2 ↔ KeepsReservations manager c := by
  rcases step_cases manager c with ⟨hconfigs, hreserved, _, _, hinit, htopUp⟩ |
    ⟨config, rfl, hconfigs, hreserved⟩ |
    ⟨poolId, amount, config, rfl, hlookup, hconfigs, hreserved⟩ |
    ⟨poolId, amount, config, rfl, hlookup, havailable, _, hconfigs, hreserved⟩ |
    ⟨poolId, amount, rfl, hconfigs, hreserved⟩
  · have hcovered : Covered (step manager c).2 := by
      rw [covered_iff, hconfigs, hreserved]
      exact h.reserved_le
    -- the condition is empty: neither initialised nor topped up
    refine iff_of_true hcovered ?_
    cases c with
    | initializePool config => exact absurd rfl (hinit config)
    | updatePoolBalance poolId amount =>
      intro config hlookup
      rw [htopUp poolId amount rfl] at hlookup
      exact absurd hlookup (by simp)
    | _ => trivial
  · exact covered_assign_iff h hconfigs hreserved
  · rw [covered_assign_iff h hconfigs hreserved]
    show _ ↔ ∀ config ∈ manager.poolConfigs.lookup poolId, _
    rw [hlookup]
    simp [toppedUp]
  · refine iff_of_true (covered_update h hconfigs hreserved ?_) trivial
    intro config' hlookup'
    obtain rfl := Option.some_inj.mp (hlookup.symm.trans hlookup')
    -- what is reserved stays within the balance, so the sum does not wrap around
    have hexact := h.exact_available poolId config hlookup
    rw [UInt64.le_iff_toNat_le] at havailable ⊢
    have hlt := UInt64.toNat_lt config.availableBalance
    rw [UInt64.toNat_add, Nat.mod_eq_of_lt (by omega)]
    omega
  · refine iff_of_true (covered_update h hconfigs hreserved ?_) trivial
    intro config hlookup
    exact UInt64.le_trans (afterRelease_le ..) (h.reserved_le poolId config hlookup)

/-- The pools cover their reservations in every state of a run iff each of its
calls keeps to the condition. -/
theorem covered_iff_keepsReservations (calls : List Call) :
    (∀ pre, pre <+: calls → Covered (final step new pre)) ↔
      Each step KeepsReservations new calls := by
  refine forall_final_iff covered_new ?_
  intro pre c h
  exact covered_step_iff h c

/-- A pool is initialised again, with less than is reserved from it. -/
def reinitialized : List Call :=
  [.initializePool { GasPoolConfig.default with
      poolId := "pool_1", totalPoolBalance := 1000, availableBalance := 1000 },
    .reserveFunds "pool_1" 800,
    .initializePool { GasPoolConfig.default with
      poolId := "pool_1", totalPoolBalance := 500, availableBalance := 500 }]

theorem not_forall_covered : ¬ ∀ calls : List Call, Covered (final step new calls) := by
  intro h
  have hcovered := h reinitialized
  have hreserved : (final step new reinitialized).reservedAt "pool_1" = 800 := by decide +kernel
  have havailable : ((final step new reinitialized).poolConfigs.lookup "pool_1").map
      GasPoolConfig.availableBalance = some 500 := by decide +kernel
  obtain ⟨config, hlookup, hbalance⟩ := Option.map_eq_some_iff.mp havailable
  have hle := hcovered.reserved_le "pool_1" config hlookup
  rw [hreserved, hbalance] at hle
  exact absurd hle (by decide)

end GasPoolManager

end Membra
