/-
The amounts of a reimbursement.

`calculate_reimbursement` and `calculate_bonus` multiply the gas cost by a rate in basis
points before they divide and cap, and multiply modulo `2 ^ 64`.

* `toNat_calculateReimbursement`, `toNat_calculateBonus` — what they compute;
* `amountsExact_iff` — when that is what exact arithmetic gives, and then it grows with
  the gas cost;
* `withinCeiling_iff` — when the two amounts are at most twice the gas cost;
* `withinCeiling_of_rates` — rates that keep them so whatever the gas cost.
-/
import MembraL3.GasReimbursement

namespace Membra

namespace GasReimbursementManager

/-- The low 64 bits of a product. -/
def lowProduct (a b : UInt64) : ℕ := a.toNat * b.toNat % 2 ^ 64

/-! ### What is computed -/

theorem toNat_share (cost rate : UInt64) :
    (cost * rate / 10000).toNat = lowProduct cost rate / 10000 := by
  have hbps : (10000 : UInt64).toNat = 10000 := rfl
  rw [UInt64.toNat_div, UInt64.toNat_mul, hbps, lowProduct]

variable (gasInfo : TransactionGasInfo) (config : GasPoolConfig)

theorem toNat_calculateReimbursement :
    (calculateReimbursement gasInfo config).toNat =
      if gasInfo.success then
        min (lowProduct gasInfo.totalGasCost config.reimbursementRateBps / 10000)
          config.maxReimbursementPerTx.toNat
      else 0 := by
  rw [calculateReimbursement]
  cases gasInfo.success with
  | false => simp
  | true =>
    show (min (gasInfo.totalGasCost * config.reimbursementRateBps / 10000)
      config.maxReimbursementPerTx * 1).toNat = _
    rw [mul_one, Words.toNat_min, toNat_share, if_pos rfl]

theorem toNat_calculateBonus :
    (calculateBonus gasInfo config).toNat =
      if gasInfo.success then
        min (lowProduct gasInfo.totalGasCost config.bonusRateBps / 10000)
          (gasInfo.totalGasCost.toNat / 2)
      else 0 := by
  have htwo : (2 : UInt64).toNat = 2 := rfl
  rw [calculateBonus]
  cases gasInfo.success with
  | false => simp
  | true =>
    by_cases hrate : config.bonusRateBps = 0
    · -- without a rate the share is zero as well
      simp [hrate, lowProduct]
    · simp only [hrate, decide_false, Bool.not_true, Bool.or_false, Bool.false_eq_true, if_false,
        if_true]
      rw [Words.toNat_min, toNat_share, UInt64.toNat_div, htwo]

/-! ### Exact amounts -/

/-- The reimbursement over unbounded integers. -/
def exactReimbursement : ℕ :=
  if gasInfo.success then
    min (gasInfo.totalGasCost.toNat * config.reimbursementRateBps.toNat / 10000)
      config.maxReimbursementPerTx.toNat
  else 0

/-- The bonus over unbounded integers. -/
def exactBonus : ℕ :=
  if gasInfo.success then
    min (gasInfo.totalGasCost.toNat * config.bonusRateBps.toNat / 10000)
      (gasInfo.totalGasCost.toNat / 2)
  else 0

/-- Both amounts are those of unbounded integers. -/
structure AmountsExact : Prop where
  reimbursement : (calculateReimbursement gasInfo config).toNat = exactReimbursement gasInfo config
  bonus : (calculateBonus gasInfo config).toNat = exactBonus gasInfo config

/-- The transaction failed, or each product fits 64 bits or has low 64 bits that already
reach the cap. -/
def AmountsFit : Prop :=
  gasInfo.success = false ∨
    (gasInfo.totalGasCost.toNat * config.reimbursementRateBps.toNat < 2 ^ 64 ∨
      config.maxReimbursementPerTx.toNat * 10000
        ≤ lowProduct gasInfo.totalGasCost config.reimbursementRateBps) ∧
    (gasInfo.totalGasCost.toNat * config.bonusRateBps.toNat < 2 ^ 64 ∨
      gasInfo.totalGasCost.toNat / 2 * 10000
        ≤ lowProduct gasInfo.totalGasCost config.bonusRateBps)

theorem amountsExact_iff_amountsFit : AmountsExact gasInfo config ↔ AmountsFit gasInfo config := by
  have hreimbursement := toNat_calculateReimbursement gasInfo config
  have hbonus := toNat_calculateBonus gasInfo config
  cases hsuccess : gasInfo.success with
  | false =>
    rw [hsuccess, if_neg Bool.false_ne_true] at hreimbursement hbonus
    refine iff_of_true ⟨?_, ?_⟩ (.inl hsuccess)
    · rw [hreimbursement, exactReimbursement, hsuccess, if_neg Bool.false_ne_true]
    · rw [hbonus, exactBonus, hsuccess, if_neg Bool.false_ne_true]
  | true =>
    rw [hsuccess, if_pos rfl] at hreimbursement hbonus
    have hshare := @Words.min_mod_div_eq_iff
      (gasInfo.totalGasCost.toNat * config.reimbursementRateBps.toNat) 10000
      config.maxReimbursementPerTx.toNat (by omega) (by omega)
    have hextra := @Words.min_mod_div_eq_iff
      (gasInfo.totalGasCost.toNat * config.bonusRateBps.toNat) 10000
      (gasInfo.totalGasCost.toNat / 2) (by omega) (by omega)
    have hexact : AmountsExact gasInfo config ↔
        (calculateReimbursement gasInfo config).toNat = exactReimbursement gasInfo config ∧
        (calculateBonus gasInfo config).toNat = exactBonus gasInfo config :=
      ⟨fun h => ⟨h.reimbursement, h.bonus⟩, fun ⟨h, h'⟩ => ⟨h, h'⟩⟩
    rw [hexact, hreimbursement, hbonus, exactReimbursement, exactBonus, hsuccess, if_pos rfl,
      if_pos rfl, AmountsFit, hsuccess, or_iff_right (by simp)]
    exact and_congr hshare hextra

/-- Of two transactions that end alike, the one with the higher gas cost gets at least as
much, wherever both are exact. -/
def GrowsWithCost : Prop :=
  ∀ gasInfo gasInfo' : TransactionGasInfo, gasInfo.success = gasInfo'.success →
    gasInfo.totalGasCost ≤ gasInfo'.totalGasCost →
    AmountsFit gasInfo config → AmountsFit gasInfo' config →
    calculateReimbursement gasInfo config ≤ calculateReimbursement gasInfo' config ∧
    calculateBonus gasInfo config ≤ calculateBonus gasInfo' config

theorem growsWithCost : GrowsWithCost config := by
  intro gasInfo gasInfo' hsuccess hcost hfit hfit'
  have hexact := (amountsExact_iff_amountsFit gasInfo config).mpr hfit
  have hexact' := (amountsExact_iff_amountsFit gasInfo' config).mpr hfit'
  have hle := UInt64.le_iff_toNat_le.mp hcost
  constructor
  · rw [UInt64.le_iff_toNat_le, hexact.reimbursement, hexact'.reimbursement, exactReimbursement,
      exactReimbursement, hsuccess]
    cases gasInfo'.success with
    | false => exact le_refl 0
    | true => exact min_le_min_right _ (Nat.div_le_div_right (Nat.mul_le_mul_right _ hle))
  · rw [UInt64.le_iff_toNat_le, hexact.bonus, hexact'.bonus, exactBonus, exactBonus, hsuccess]
    cases gasInfo'.success with
    | false => exact le_refl 0
    | true =>
      exact min_le_min (Nat.div_le_div_right (Nat.mul_le_mul_right _ hle))
        (Nat.div_le_div_right hle)

/-- The amounts of a transaction are exact iff it failed or its products fit or reach their
caps, and exact amounts grow with the gas cost. -/
theorem amountsExact_iff :
    (AmountsExact gasInfo config ↔ AmountsFit gasInfo config) ∧ GrowsWithCost config :=
  ⟨amountsExact_iff_amountsFit gasInfo config, growsWithCost config⟩

/-- A successful transaction of this gas cost. -/
def successful (totalGasCost : UInt64) : TransactionGasInfo :=
  ⟨"tx_002", "wallet_002", totalGasCost, "custom", true⟩

/-- At a full rate the product of the rate and `2 ^ 63` vanishes. -/
theorem not_forall_amountsExact : ¬ ∀ gasInfo config, AmountsExact gasInfo config := by
  intro h
  have hexact := (h (successful 9223372036854775808) .default).reimbursement
  revert hexact
  decide +kernel

/-! ### The ceiling -/

/-- The two amounts together are at most twice the gas cost. -/
def WithinCeiling : Prop :=
  (calculateReimbursement gasInfo config).toNat + (calculateBonus gasInfo config).toNat
    ≤ maxReimbursementMultiplier.toNat * gasInfo.totalGasCost.toNat

/-- A reimbursement of this amount leaves room for the largest bonus, half the gas cost, or
at least for what the bonus rate gives. -/
def LeavesRoom (amount : ℕ) : Prop :=
  amount ≤ 2 * gasInfo.totalGasCost.toNat - gasInfo.totalGasCost.toNat / 2 ∨
    amount ≤ 2 * gasInfo.totalGasCost.toNat ∧
      lowProduct gasInfo.totalGasCost config.bonusRateBps
        < (2 * gasInfo.totalGasCost.toNat - amount + 1) * 10000

/-- The transaction failed, or the cap of the reimbursement or its share of the gas cost
leaves room for the bonus. -/
def CeilingFits : Prop :=
  gasInfo.success = false ∨
    LeavesRoom gasInfo config config.maxReimbursementPerTx.toNat ∨
    LeavesRoom gasInfo config
      (lowProduct gasInfo.totalGasCost config.reimbursementRateBps / 10000)

theorem add_bonus_le_iff (amount : ℕ) :
    amount + min (lowProduct gasInfo.totalGasCost config.bonusRateBps / 10000)
        (gasInfo.totalGasCost.toNat / 2) ≤ 2 * gasInfo.totalGasCost.toNat ↔
      LeavesRoom gasInfo config amount := by
  rw [LeavesRoom, ← min_add_add_left, min_le_iff, or_comm]
  refine or_congr ?_ ?_
  · omega
  · omega

theorem withinCeiling_iff : WithinCeiling gasInfo config ↔ CeilingFits gasInfo config := by
  have htwo : maxReimbursementMultiplier.toNat = 2 := rfl
  rw [WithinCeiling, toNat_calculateReimbursement, toNat_calculateBonus, htwo, CeilingFits]
  cases gasInfo.success with
  | false => simp
  | true =>
    -- the lower of the share and the cap leaves room iff one of them does
    rw [if_pos rfl, if_pos rfl, or_iff_right (by simp), ← min_add_add_right, min_le_iff, or_comm]
    exact or_congr (add_bonus_le_iff gasInfo config _) (add_bonus_le_iff gasInfo config _)

/-- A pool that reimburses three times the gas cost. -/
def threefold : GasPoolConfig := { GasPoolConfig.default with reimbursementRateBps := 30000 }

theorem not_forall_withinCeiling : ¬ ∀ gasInfo config, WithinCeiling gasInfo config := by
  intro h
  have hceiling := h (successful 1000000) threefold
  revert hceiling
  unfold WithinCeiling
  decide +kernel

/-- Rates that add up to at most 200 %, the bonus counted for no more than its cap of 50 %,
keep every transaction within the ceiling. -/
theorem withinCeiling_of_rates
    (h : config.reimbursementRateBps.toNat + min config.bonusRateBps.toNat 5000 ≤ 20000) :
    WithinCeiling gasInfo config := by
  have htwo : maxReimbursementMultiplier.toNat = 2 := rfl
  rw [WithinCeiling, toNat_calculateReimbursement, toNat_calculateBonus, htwo]
  cases gasInfo.success with
  | false => simp
  | true =>
    rw [if_pos rfl, if_pos rfl]
    have hshare : lowProduct gasInfo.totalGasCost config.reimbursementRateBps
        ≤ gasInfo.totalGasCost.toNat * config.reimbursementRateBps.toNat := Nat.mod_le _ _
    have hextra : lowProduct gasInfo.totalGasCost config.bonusRateBps
        ≤ gasInfo.totalGasCost.toNat * config.bonusRateBps.toNat := Nat.mod_le _ _
    have hrates := Nat.mul_le_mul_left gasInfo.totalGasCost.toNat h
    -- the lower of the two bounds on the bonus is the one at the lower rate
    rcases Nat.le_total config.bonusRateBps.toNat 5000 with hlow | hhigh
    · rw [min_eq_left hlow, Nat.mul_add] at hrates
      omega
    · rw [min_eq_right hhigh, Nat.mul_add] at hrates
      omega

end GasReimbursementManager

end Membra
