/-
The two reward calculators.

`ZKComputeManager::calculate_reward` and `RewardDistributor::calculate_reward_amount` have
the same table and the same multiplier; only the first has a bonus for fast verification.

* `calculateReward_eq_scale` — the first is the second, scaled by the bonus;
* `calculators_agree_iff` — when the bonus makes no difference.
-/
import MembraL3.RewardDistribution

namespace Membra

namespace RewardDistributor

open ZKComputeManager

/-- The two tables are the same. -/
theorem baseReward_eq (computeType : ComputeType) :
    baseReward computeType = ZKComputeManager.baseReward computeType := by
  cases computeType <;> rfl

theorem calculateReward_eq_scale (scale : RewardScale) (task : ComputeTask)
    {verification : VerificationResult} (h : verification.success = true) :
    calculateReward scale task verification
      = scale (calculateRewardAmount task verification) verification.verificationTimeMs := by
  simp only [calculateReward, calculateRewardAmount, h, baseReward_eq]
  rfl

/-- The base reward times the thousands of units, modulo `2 ^ 64`. -/
def unscaledReward (task : ComputeTask) : ℕ :=
  (baseReward task.computeType).toNat * (task.requiredComputeUnits.toNat / 1000) % 2 ^ 64

theorem toNat_calculateRewardAmount (task : ComputeTask) {verification : VerificationResult}
    (h : verification.success = true) :
    (calculateRewardAmount task verification).toNat = unscaledReward task := by
  have hunit : (1000 : UInt64).toNat = 1000 := rfl
  simp only [calculateRewardAmount, h, Bool.not_true, Bool.false_eq_true, if_false]
  rw [UInt64.toNat_mul, UInt64.toNat_div, hunit, unscaledReward]

/-- The verification failed, or took a second or longer, or the bonus is less than one unit
of the reward. -/
def BonusVanishes (task : ComputeTask) (verification : VerificationResult) : Prop :=
  verification.success = false ∨ 1000 ≤ verification.verificationTimeMs.toNat ∨
    unscaledReward task * (1000 - verification.verificationTimeMs.toNat)
      < verification.verificationTimeMs.toNat

/-- A share of at least one is the whole exactly if what is missing is less than a part. -/
theorem div_eq_self_iff {r t : ℕ} (ht : 0 < t) (hfast : t ≤ 1000) :
    1000 * r / t = r ↔ r * (1000 - t) < t := by
  obtain ⟨d, hd⟩ := Nat.exists_eq_add_of_le hfast
  have hsub : 1000 - t = d := by omega
  have hproduct : 1000 * r = t * r + r * d := by rw [hd]; ring
  rw [hsub, hproduct, Nat.mul_add_div ht, Nat.add_eq_left, Nat.div_eq_zero_iff]
  omega

/-- The bonus vanishes if the reward is at least what it makes of it. -/
theorem max_bonus_eq_iff {r t : ℕ} (ht : 0 < t) :
    max r (1000 * r / t) = r ↔ 1000 ≤ t ∨ r * (1000 - t) < t := by
  rcases Nat.le_total 1000 t with hslow | hfast
  · have hshare : 1000 * r / t ≤ r := Nat.div_le_of_le_mul (Nat.mul_le_mul_right _ hslow)
    exact iff_of_true (max_eq_left hshare) (.inl hslow)
  · have hshare : r ≤ 1000 * r / t := by
      rw [Nat.le_div_iff_mul_le ht, Nat.mul_comm]
      exact Nat.mul_le_mul_right _ hfast
    rw [max_eq_right hshare, div_eq_self_iff ht hfast, or_iff_right_of_imp]
    intro hslow
    rwa [Nat.sub_eq_zero_of_le hslow, Nat.mul_zero]

/-- In exact arithmetic and for a positive time: the two calculators return the same amount,
whatever a conversion gives that is out of range, iff the bonus vanishes. -/
theorem calculators_agree_iff (task : ComputeTask) (verification : VerificationResult)
    (h : 0 < verification.verificationTimeMs.toNat) :
    (∀ convert, calculateReward (exactScale convert) task verification
        = calculateRewardAmount task verification) ↔
      BonusVanishes task verification := by
  cases hsuccess : verification.success with
  | false =>
    refine iff_of_true (fun convert => ?_) (.inl hsuccess)
    simp [calculateReward, calculateRewardAmount, hsuccess]
  | true =>
    have hamount := toNat_calculateRewardAmount task hsuccess
    have hlt : unscaledReward task < 2 ^ 64 := Nat.mod_lt _ (by omega)
    rw [BonusVanishes, hsuccess, or_iff_right (by simp), ← max_bonus_eq_iff h, ← hamount]
    simp only [calculateReward_eq_scale _ task hsuccess]
    by_cases hfits : max (calculateRewardAmount task verification).toNat
        (1000 * (calculateRewardAmount task verification).toNat
          / verification.verificationTimeMs.toNat) < 2 ^ 64
    · simp only [← UInt64.toNat_inj, toNat_exactScale _ _ h hfits]
      exact ⟨fun hagree => hagree .wrapping, fun hsame _ => hsame⟩
    · -- out of range, the conversion may give another word
      refine iff_of_false (fun hagree => ?_) (by omega)
      have hword := hagree (.giving (calculateRewardAmount task verification + 1))
      rw [exactScale_giving _ _ h (not_lt.mp hfits)] at hword
      exact absurd (add_eq_left.mp hword) (by decide)

/-- A verification of this duration that succeeded. -/
def verifiedIn (verificationTimeMs : UInt64) : VerificationResult :=
  { VerificationResult.default with
    success := true, verificationStatus := .verified, verificationTimeMs := verificationTimeMs }

theorem calculators_agree_at_one_second :
    calculateRewardAmount .default (verifiedIn 1000) = 2000000 ∧
      ((∀ convert, calculateReward (exactScale convert) .default (verifiedIn 1000)
          = calculateRewardAmount .default (verifiedIn 1000)) ↔
        BonusVanishes .default (verifiedIn 1000)) :=
  ⟨by decide +kernel, calculators_agree_iff .default (verifiedIn 1000) (by decide)⟩

theorem not_forall_calculators_agree :
    ¬ ∀ task verification, 0 < verification.verificationTimeMs.toNat →
      calculateReward (exactScale .wrapping) task verification
        = calculateRewardAmount task verification := by
  intro h
  have hagree := h .default (verifiedIn 200) (by decide)
  revert hagree
  decide +kernel

end RewardDistributor

end Membra
