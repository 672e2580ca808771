/-
Reward histories.

`get_reward_history` is meant to return one wallet's rewards, or all of them where no
wallet is named; its test for the name is the wrong way round.

* `lookup_final` — the balance of a wallet is what its own distributions add up to;
* `getRewardHistory_of_ne` — a named wallet is answered with the balances of all;
* `sameHistory_iff` — when two runs that agree on a wallet give it the same history.
-/
import MembraL3.RewardDistribution
import MembraL3.Lib.Runs

namespace Membra

namespace RewardDistributor

open Runs ZKComputeManager

/-- A `distribute_reward` of a proof to a wallet. -/
structure Distribution where
  proof : ZKComputeProof
  recipientWallet : String

def step (distributor : RewardDistributor) (c : Distribution) : Bool × RewardDistributor :=
  distributor.distributeReward c.proof c.recipientWallet

/-! ### The balance of a wallet -/

/-- The rewards of the verified proofs that were distributed to the wallet. -/
def creditsTo (wallet : String) (run : List Distribution) : List UInt64 :=
  (run.filter fun c => c.recipientWallet = wallet ∧ isVerified c.proof).map
    fun c => c.proof.rewardAmount

/-- The entry of a wallet: none before its first reward, then their sum. -/
def entryOf (credits : List UInt64) : Option UInt64 :=
  if credits = [] then none else some credits.sum

theorem lookup_step (distributor : RewardDistributor) (c : Distribution) (wallet : String) :
    (step distributor c).2.rewardBalances.lookup wallet =
      if c.recipientWallet = wallet ∧ isVerified c.proof = true then
        some ((distributor.rewardBalances.lookup wallet).getD 0 + c.proof.rewardAmount)
      else distributor.rewardBalances.lookup wallet := by
  rw [step, distributeReward]
  by_cases hstatus : c.proof.verificationStatus = .verified
  · have hverified : isVerified c.proof = true := decide_eq_true hstatus
    rw [if_neg (not_not.mpr hstatus), Store.lookup_assign]
    by_cases hwallet : wallet = c.recipientWallet
    · rw [if_pos hwallet, if_pos ⟨hwallet.symm, hverified⟩, hwallet]
    · rw [if_neg hwallet, if_neg fun hboth => hwallet hboth.1.symm]
  · have hnot : ¬ isVerified c.proof = true :=
      fun hverified => hstatus (of_decide_eq_true hverified)
    rw [if_pos hstatus, if_neg fun hboth => hnot hboth.2]

theorem creditsTo_append_singleton (wallet : String) (run : List Distribution)
    (c : Distribution) :
    creditsTo wallet (run ++ [c]) = creditsTo wallet run ++
      if c.recipientWallet = wallet ∧ isVerified c.proof = true then [c.proof.rewardAmount]
      else [] := by
  rw [creditsTo, List.filter_append, List.map_append, List.filter_singleton, creditsTo]
  by_cases hboth : c.recipientWallet = wallet ∧ isVerified c.proof = true
  · simp [hboth]
  · simp only [decide_eq_false hboth, if_neg hboth]
    rfl

theorem entryOf_append_singleton (credits : List UInt64) (credit : UInt64) :
    entryOf (credits ++ [credit]) = some ((entryOf credits).getD 0 + credit) := by
  rw [entryOf, if_neg (by simp), List.sum_append, List.sum_singleton, entryOf]
  by_cases hnil : credits = []
  · rw [if_pos hnil, hnil]
    rfl
  · rw [if_neg hnil]
    rfl

/-- The balance of a wallet is what its own distributions add up to. -/
theorem lookup_final (run : List Distribution) (wallet : String) :
    (final step new run).rewardBalances.lookup wallet = entryOf (creditsTo wallet run) := by
  induction run using List.reverseRecOn with
  | nil => rfl
  | append_singleton run c ih =>
    rw [final_append, final_cons, final_nil, lookup_step, ih, creditsTo_append_singleton]
    by_cases hboth : c.recipientWallet = wallet ∧ isVerified c.proof = true
    · rw [if_pos hboth, if_pos hboth, entryOf_append_singleton]
    · rw [if_neg hboth, if_neg hboth, List.append_nil]

/-! ### What a history tells -/

/-- A named wallet is answered with the balances of all. -/
theorem getRewardHistory_of_ne (distributor : RewardDistributor) {wallet : String}
    (h : wallet ≠ "") : distributor.getRewardHistory wallet = distributor.rewardBalances :=
  if_pos h

/-- The two runs have the same calls for the wallet. -/
def AgreeOn (wallet : String) (run run' : List Distribution) : Prop :=
  run.filter (fun c => c.recipientWallet = wallet)
    = run'.filter fun c => c.recipientWallet = wallet

/-- The wallet gets the same map in both runs. -/
def SameHistory (wallet : String) (run run' : List Distribution) : Prop :=
  ∀ key, ((final step new run).getRewardHistory wallet).lookup key
    = ((final step new run').getRewardHistory wallet).lookup key

/-- Every other wallet is paid in both runs or in neither, and the same sum in words. -/
def SameCredits (wallet : String) (run run' : List Distribution) : Prop :=
  ∀ other, other ≠ wallet →
    (creditsTo other run = [] ↔ creditsTo other run' = []) ∧
      (creditsTo other run).sum = (creditsTo other run').sum

theorem entryOf_eq_iff (credits credits' : List UInt64) :
    entryOf credits = entryOf credits' ↔
      (credits = [] ↔ credits' = []) ∧ credits.sum = credits'.sum := by
  by_cases hnil : credits = []
  · by_cases hnil' : credits' = []
    · simp [hnil, hnil']
    · simp [entryOf, hnil, hnil']
  · by_cases hnil' : credits' = []
    · simp [entryOf, hnil, hnil']
    · simp [entryOf, hnil, hnil']

/-- Which calls are credited to a wallet is seen from those for it. -/
theorem creditsTo_of_agreeOn {wallet : String} {run run' : List Distribution}
    (h : AgreeOn wallet run run') : creditsTo wallet run = creditsTo wallet run' := by
  have hfilter : ∀ cs : List Distribution, creditsTo wallet cs
      = ((cs.filter fun c => c.recipientWallet = wallet).filter fun c => isVerified c.proof).map
        fun c => c.proof.rewardAmount := by
    intro cs
    rw [List.filter_filter, creditsTo]
    congr 2
    funext c
    simp [Bool.and_comm]
  rw [hfilter, hfilter, h]

/-- Two runs with the same calls for a named wallet give it the same history iff they pay
all other wallets alike. -/
theorem sameHistory_iff {wallet : String} {run run' : List Distribution} (hname : wallet ≠ "")
    (h : AgreeOn wallet run run') :
    SameHistory wallet run run' ↔ SameCredits wallet run run' := by
  have hown := creditsTo_of_agreeOn h
  have hhistory : SameHistory wallet run run' ↔
      ∀ key, entryOf (creditsTo key run) = entryOf (creditsTo key run') := by
    refine forall_congr' fun key => ?_
    rw [getRewardHistory_of_ne _ hname, getRewardHistory_of_ne _ hname, lookup_final, lookup_final]
  rw [hhistory]
  constructor
  · intro hsame other _
    exact (entryOf_eq_iff _ _).mp (hsame other)
  · intro hsame key
    by_cases hkey : key = wallet
    · rw [hkey, hown]
    · exact (entryOf_eq_iff _ _).mpr (hsame key hkey)

/-- A verified proof of this reward, for a wallet. -/
def reward (amount : UInt64) (wallet : String) : Distribution :=
  ⟨{ ZKComputeProof.default with verificationStatus := .verified, rewardAmount := amount }, wallet⟩

theorem sameHistory_iff_wallet_1 :
    creditsTo "wallet_1" [reward 5 "wallet_1", reward 7 "wallet_2"] = [5] ∧
      (SameHistory "wallet_1" [reward 5 "wallet_1", reward 7 "wallet_2"] [reward 5 "wallet_1"] ↔
        SameCredits "wallet_1" [reward 5 "wallet_1", reward 7 "wallet_2"]
          [reward 5 "wallet_1"]) :=
  ⟨by decide +kernel, sameHistory_iff (by decide) (by unfold AgreeOn; rfl)⟩

theorem not_forall_sameHistory :
    ¬ ∀ wallet run run', wallet ≠ "" → AgreeOn wallet run run' → SameHistory wallet run run' := by
  intro h
  have hsame := h "wallet_1" [reward 7 "wallet_2"] [] (by decide) rfl "wallet_2"
  revert hsame
  decide +kernel

end RewardDistributor

end Membra
