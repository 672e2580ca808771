/-
Conservation of the reward pool.

The three counters of the vault are the columns of an account that receives the
deposits and pays the claims.

* `tracks_poolMove` — they stay so along every run;
* `rewardPool_conserved` — the balance, what was claimed, and the operations
  that fail.
-/
import MembraL3.RewardVault
import MembraL3.Lib.Account

namespace Membra

namespace RewardVault

open Runs Account

/-- The amount that a successful claim paid. -/
def claimedAmount (e : Event RewardVault Call Reply) : UInt64 :=
  match paidEntry e with
  | some entry => entry.amountLamports
  | none => 0

/-- The operation reports failure. -/
def Reply.isFailure : Reply → Bool
  | .deposited ok => !ok
  | .created entryId => entryId = ""
  | .claimed ok => !ok
  | _ => false

/-- A claim that succeeds takes what the pool holds. -/
theorem claimedAmount_le_poolBalance {vault : RewardVault} {c : Call} {entry : RewardVaultEntry}
    (h : paidEntry (event step vault c) = some entry) :
    entry.amountLamports ≤ vault.poolBalance := by
  cases c with
  | claimReward entryId now =>
    rw [paidEntry_claimReward] at h
    exact (payable_eq_some_iff.mp h).2.2.2
  | _ => exact absurd h (by simp [paidEntry])

theorem step_eq_of_isFailure {vault : RewardVault} {c : Call}
    (h : (step vault c).1.isFailure = true) : (step vault c).2 = vault := by
  rcases step_cases vault c with ⟨hsame, _⟩ | ⟨amount, source, rfl, hok, _⟩ |
    ⟨worker, receipt, amount, source, dailyNow, idNow, stampNow, rfl, hcap, hstep⟩ |
    ⟨entryId, now, entry, rfl, hpay, hok, _⟩
  · exact hsame
  · rw [hok] at h
    exact absurd h (by decide)
  · rcases createRewardEntry_cases vault worker receipt amount source dailyNow idNow stampNow with
      hfail | ⟨_, _, _, _, hnew⟩
    · rw [step, hfail]
      rfl
    · rw [step, hnew] at h
      -- the empty id, which reports failure, is no entry's
      have hempty : rewardEntryId worker idNow = "" := of_decide_eq_true h
      exact absurd hempty (rewardEntryId_ne_empty worker idNow)
  · rw [hok] at h
    exact absurd h (by decide)

/-! ### The account -/

/-- The move that a call makes on the pool's account. -/
def poolMove (vault : RewardVault) (c : Call) : Move UInt64 :=
  match c, (step vault c).1 with
  | .depositToPool amount _, .deposited true => .receive amount
  | .claimReward _ _, .claimed true => .pay (claimedAmount (event step vault c))
  | _, _ => .idle

theorem poolMove_idle {vault : RewardVault} {c : Call} (hd : (step vault c).1 ≠ .deposited true)
    (hc : (step vault c).1 ≠ .claimed true) : poolMove vault c = .idle := by
  unfold poolMove
  split
  · exact absurd ‹_› hd
  · exact absurd ‹_› hc
  · rfl

theorem outflow_poolMove (vault : RewardVault) (c : Call) :
    (poolMove vault c).outflow = claimedAmount (event step vault c) := by
  cases c with
  | claimReward entryId now =>
    by_cases hc : (step vault (.claimReward entryId now)).1 = .claimed true
    · unfold poolMove
      rw [hc]
      rfl
    · rw [poolMove_idle (by simp [step]) hc, claimedAmount, paidEntry_of_not_claimed hc]
      rfl
  | _ =>
    unfold poolMove
    split <;> rfl

/-- Every step moves the counters as `poolMove` moves the account. -/
theorem tracks_step (vault : RewardVault) (a : Account UInt64) (c : Call)
    (h : Tracks vault.poolBalance vault.totalRewardsAvailable vault.totalRewardsClaimed a) :
    Tracks (step vault c).2.poolBalance (step vault c).2.totalRewardsAvailable
      (step vault c).2.totalRewardsClaimed (a.post (poolMove vault c)) := by
  rcases step_cases vault c with ⟨hsame, hd, hc⟩ | ⟨amount, source, rfl, hok, hdeposit⟩ |
    ⟨worker, receipt, amount, source, dailyNow, idNow, stampNow, rfl, _, hcreate⟩ |
    ⟨entryId, now, entry, rfl, hpay, hok, hclaim⟩
  · rw [hsame, poolMove_idle hd hc]
    exact h.idle
  · have hmove : poolMove vault (.depositToPool amount source) = .receive amount := by
      unfold poolMove
      rw [hok]
    rw [hdeposit, hmove]
    exact h.receive amount
  · -- a creation stores an entry and moves nothing
    rw [hcreate]
    exact h.idle
  · have hmove : poolMove vault (.claimReward entryId now) = .pay entry.amountLamports := by
      unfold poolMove
      rw [hok, claimedAmount, paidEntry_claimReward, hpay]
    rw [hclaim, hmove]
    exact h.pay entry.amountLamports

theorem tracks_poolMove (initial : UInt64) (calls : List Call) :
    Tracks (final step (new initial) calls).poolBalance
      (final step (new initial) calls).totalRewardsAvailable
      (final step (new initial) calls).totalRewardsClaimed
      ((Account.opened initial).postAll (moves poolMove step (new initial) calls)) := by
  have h0 : Tracks (new initial).poolBalance (new initial).totalRewardsAvailable
      (new initial).totalRewardsClaimed (Account.opened initial) := ⟨rfl, rfl, rfl⟩
  exact tracks_final (fun vault a c _ => tracks_step vault a c) h0 each_true

/-- In every reachable state the pool balance and the claimed rewards make up the
available ones, what remains is the pool balance, and the claimed rewards are
those of the successful claims; no claim takes more than the pool holds and no
failing operation changes the vault. -/
theorem rewardPool_conserved (initial : UInt64) (calls : List Call) :
    (final step (new initial) calls).poolBalance
        + (final step (new initial) calls).totalRewardsClaimed
      = (final step (new initial) calls).totalRewardsAvailable ∧
    (final step (new initial) calls).remainingRewards
      = (final step (new initial) calls).poolBalance ∧
    (final step (new initial) calls).totalRewardsClaimed
      = ((trace step (new initial) calls).map claimedAmount).sum ∧
    (∀ e ∈ trace step (new initial) calls, ∀ entry, paidEntry e = some entry →
      entry.amountLamports.toNat ≤ e.before.poolBalance.toNat) ∧
    (∀ e ∈ trace step (new initial) calls, e.result.isFailure = true → e.after = e.before) := by
  have htracks := tracks_poolMove initial calls
  have hbalanced := htracks.balanced
  refine ⟨hbalanced, ?_, ?_, ?_, ?_⟩
  · rw [remainingRewards, ← hbalanced]
    exact add_sub_cancel_right _ _
  · have hpaid : (opened initial).paid = 0 := rfl
    rw [htracks.paid_eq, paid_postAll, hpaid, zero_add, map_moves outflow_poolMove]
  · exact forall_trace (fun vault c entry h =>
      UInt64.le_iff_toNat_le.mp (claimedAmount_le_poolBalance h)) _ _
  · exact forall_trace (fun vault c h => step_eq_of_isFailure h) _ _

end RewardVault

end Membra
