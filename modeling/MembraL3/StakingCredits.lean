/-
Credits issued by staking.

The staking system counts the credits it has issued, and each stake counts its own.
Staking raises both counters and unstaking only that of the stake.

* `issuedAgrees_step_iff` — which operations keep the counter right;
* `issuedAgrees_iff` — when it is right in every state of a run.
-/
import MembraL3.StakingRuns

namespace Membra

namespace ComputeStaking

open Runs

/-- The counter of issued credits is the sum over all stakes. -/
def IssuedAgrees (staking : ComputeStaking) : Prop :=
  staking.totalCreditGrantsIssued.toNat
    = Store.total (fun stake => stake.totalCreditGrantsIssued.toNat) staking.stakes % 2 ^ 64

/-- No unstaking earns a time reward: what it is converted to is 0. -/
def EarnsNothing (arith : Doubles) (staking : ComputeStaking) : Call → Prop
  | .unstakeCompute stakeId durationNow _ =>
    ∀ stake, staking.Due stakeId durationNow stake →
      calculateTimeRewards arith stake (durationNow - stake.stakedAt) = 0
  | _ => True

/-- In the range of the type a reward is converted to 0 exactly below one credit. -/
theorem calculateTimeRewards_eq_zero_iff (arith : Doubles) (stake : ComputeStake)
    (duration : Seconds) (reward : ℚ)
    (hreward : reward = arith.round
      (arith.round (arith.round stake.computeUnits.toNat * stake.rewardRate) * duration))
    (h0 : 0 ≤ reward) (hrange : reward < 2 ^ 64) :
    calculateTimeRewards arith stake duration = 0 ↔ reward < 1 := by
  have hcast : (calculateTimeRewards arith stake duration).toNat = ⌊reward⌋₊ := by
    rw [calculateTimeRewards, ← hreward]
    exact arith.cast_of_range reward h0 hrange
  rw [← UInt64.toNat_inj, hcast]
  exact Nat.floor_eq_zero

theorem issuedAgrees_iff_total (staking : ComputeStaking) :
    IssuedAgrees staking ↔
      staking.totalCreditGrantsIssued
        = Store.total (·.totalCreditGrantsIssued) staking.stakes := by
  rw [IssuedAgrees, ← Words.toNat_total, UInt64.toNat_inj]

/-- An unstaking raises the sum over the stakes by its time reward. -/
theorem total_issued_unstaked {stakes : Store String ComputeStake} {id : String}
    {stake : ComputeStake} (hlookup : stakes.lookup id = some stake) (credits : UInt64)
    (now : Seconds) :
    Store.total (·.totalCreditGrantsIssued) (stakes.assign id (stake.unstaked credits now))
      = Store.total (·.totalCreditGrantsIssued) stakes + credits := by
  have hsum := Store.total_assign_of_lookup (·.totalCreditGrantsIssued)
    (stake.unstaked credits now) hlookup
  refine add_right_cancel (hsum.trans ?_)
  rw [add_assoc, add_comm credits]
  rfl

theorem earnsNothing_iff_of_due (arith : Doubles) {staking : ComputeStaking} {stakeId : String}
    {durationNow : Seconds} {stake : ComputeStake} (hdue : staking.Due stakeId durationNow stake)
    (stampNow : Seconds) :
    EarnsNothing arith staking (.unstakeCompute stakeId durationNow stampNow) ↔
      calculateTimeRewards arith stake (durationNow - stake.stakedAt) = 0 := by
  constructor
  · intro hearns
    exact hearns stake hdue
  · intro hzero stake' hdue'
    obtain rfl : stake = stake' := Option.some.inj (hdue.1.symm.trans hdue'.1)
    exact hzero

/-- An operation keeps the counter right exactly if it earns nothing: staking raises both,
unstaking only the stake's own total. -/
theorem issuedAgrees_step_iff (order : MapOrder) (arith : Doubles) {staking : ComputeStaking}
    {c : Call} (h : IssuedAgrees staking) (hfresh : Fresh staking c) :
    IssuedAgrees (step order arith staking c).2 ↔ EarnsNothing arith staking c := by
  rw [issuedAgrees_iff_total] at h ⊢
  rcases step_cases order arith staking c with ⟨hsame, hfail⟩ |
    ⟨staker, cores, ram, units, idNow, stampNow, rfl, hnew⟩ |
    ⟨stakeId, durationNow, stampNow, stake, rfl, hdue, _, hclosed⟩ |
    ⟨staker, cost, id, stake, rfl, hlookup, _, htaken⟩
  · rw [hsame]
    refine iff_of_true h ?_
    cases c with
    | unstakeCompute stakeId durationNow stampNow =>
      intro stake hdue
      refine absurd ?_ (hfail (calculateTimeRewards arith stake (durationNow - stake.stakedAt)))
      rw [step, unstakeCompute_of_due arith hdue]
      rfl
    | _ => trivial
  · refine iff_of_true ?_ trivial
    have hnone := AList.lookup_eq_none.mpr (hfresh _ rfl)
    rw [hnew, Store.total_assign_new _ _ hnone, ← h]
    exact add_comm _ _
  · rw [hclosed, earnsNothing_iff_of_due arith hdue]
    show staking.totalCreditGrantsIssued = Store.total _ _ ↔ _
    rw [total_issued_unstaked hdue.1, h]
    exact left_eq_add
  · refine iff_of_true ?_ trivial
    have hsame := Store.total_assign_eq (·.totalCreditGrantsIssued) hlookup
      (show (stake.charged cost).totalCreditGrantsIssued = _ from rfl)
    rw [htaken, hsame]
    exact h

/-- In every run with distinct stake ids the counter of issued credits is the sum over the
stakes, in every state exactly if no unstaking earns anything. -/
theorem issuedAgrees_iff (order : MapOrder) (arith : Doubles) (calls : List Call)
    (hids : (stakeIds calls).Nodup) :
    (∀ pre, pre <+: calls → IssuedAgrees (final (step order arith) new pre)) ↔
      Each (step order arith) (EarnsNothing arith) new calls := by
  have hfresh := each_iff_forall.mp (each_fresh order arith hids)
  rw [each_iff_forall]
  refine forall_prefix_iff rfl ?_
  intro pre c hpre hpast
  rw [final_append, final_cons, final_nil]
  exact issuedAgrees_step_iff order arith (hpast pre (List.prefix_refl pre)) (hfresh pre c hpre)

theorem issuedAgrees_iff_stakeAndUnstake :
    (final (step newestFirst (.exact .wrapping)) new stakeAndUnstake).totalCreditGrantsIssued
        = 50000000000 ∧
      ((∀ pre, pre <+: stakeAndUnstake →
          IssuedAgrees (final (step newestFirst (.exact .wrapping)) new pre)) ↔
        Each (step newestFirst (.exact .wrapping)) (EarnsNothing (.exact .wrapping)) new
          stakeAndUnstake) :=
  ⟨by decide +kernel,
    issuedAgrees_iff newestFirst (.exact .wrapping) stakeAndUnstake (by decide +kernel)⟩

/-- An hour of a hundred units earns 540 million credits that the counter leaves out. -/
theorem not_forall_issuedAgrees :
    ¬ ∀ order arith calls, (stakeIds calls).Nodup →
      IssuedAgrees (final (step order arith) new calls) := by
  intro h
  have hagrees := h newestFirst (.exact .wrapping) stakeAndUnstake (by decide +kernel)
  revert hagrees
  unfold IssuedAgrees
  decide +kernel

end ComputeStaking

end Membra
