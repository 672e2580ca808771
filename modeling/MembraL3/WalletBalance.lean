/-
The never-zero check.

`check_wallet_balance` compares `current_balance - pending_reimbursements` with
`required_amount + min_balance_threshold` in 64 bits.  No operation of the
manager sets a balance, so the subtraction wraps around as soon as the wallet has
submitted anything.

* `walletStatesUnfunded_final` — every wallet state of a reachable manager has
  balance 0 and the default threshold;
* `checkWalletBalance_correct_iff` — where the check is that of the integers.
-/
import MembraL3.GasReimbursement

namespace Membra

namespace GasReimbursementManager

open Runs

/-- No wallet has a balance, and all have the default threshold. -/
def WalletStatesUnfunded (manager : GasReimbursementManager) : Prop :=
  ∀ wallet state, manager.walletStates.lookup wallet = some state →
    state.currentBalance = 0 ∧ state.minBalanceThreshold = minBalanceLamports

theorem walletStatesUnfunded_updateWalletState {manager : GasReimbursementManager}
    (h : WalletStatesUnfunded manager) (wallet : String) (amount : UInt64) (now : Ticks) :
    WalletStatesUnfunded (manager.updateWalletState wallet amount now) := by
  -- the state that is updated, found or created
  have hold : ((manager.walletStates.lookup wallet).getD .default).currentBalance = 0 ∧
      ((manager.walletStates.lookup wallet).getD .default).minBalanceThreshold
        = minBalanceLamports := by
    cases hlookup : manager.walletStates.lookup wallet with
    | none => exact ⟨rfl, rfl⟩
    | some state => exact h wallet state hlookup
  intro wallet' state' hstate'
  rw [updateWalletState, Store.lookup_assign] at hstate'
  by_cases hwallet : wallet' = wallet
  · rw [if_pos hwallet, Option.some_inj] at hstate'
    rw [← hstate']
    split <;> exact hold
  · rw [if_neg hwallet] at hstate'
    exact h wallet' state' hstate'

theorem walletStatesUnfunded_step (manager : GasReimbursementManager) (c : Call)
    (h : WalletStatesUnfunded manager) : WalletStatesUnfunded (step manager c).2 := by
  rcases step_cases manager c with ⟨hsame, _⟩ | ⟨request, nowMs, now, rfl, hsubmit⟩ |
    ⟨requestId, request, now, rfl, _, hprocess⟩ |
    ⟨requestId, signature, now, record, rfl, _, _, _, happrove⟩ |
    ⟨requestId, reason, now, record, rfl, _, _, _, hreject⟩
  · rwa [hsame]
  · rw [hsubmit]
    refine walletStatesUnfunded_updateWalletState ?_ _ _ _
    exact h
  · rw [hprocess]
    exact h
  · rw [happrove]
    exact h
  · rw [hreject]
    exact h

theorem walletStatesUnfunded_final (calls : List Call) :
    WalletStatesUnfunded (final step new calls) := by
  have h0 : WalletStatesUnfunded new := fun wallet state h => absurd h (by simp [new])
  exact final_invariant walletStatesUnfunded_step h0 calls

/-- The check that is meant, over the integers. -/
def StaysAboveThreshold (state : WalletBalanceState) (required : UInt64) : Prop :=
  state.currentBalance.toNat
    ≥ state.pendingReimbursements.toNat + required.toNat + state.minBalanceThreshold.toNat

/-- Where the 64-bit check does not go wrong: nothing is pending and the right-hand
side does not wrap around to 0, or what is pending and the right-hand side, as far
as it does not wrap around, exceed `2 ^ 64`. -/
def CheckExact (state : WalletBalanceState) (required : UInt64) : Prop :=
  (state.pendingReimbursements.toNat = 0 ∧ required.toNat + 1000 ≠ 2 ^ 64) ∨
  (0 < state.pendingReimbursements.toNat ∧
    2 ^ 64 < state.pendingReimbursements.toNat + (required.toNat + 1000) % 2 ^ 64)

/-- The check of a wallet with a state, on natural numbers. -/
theorem checkWalletBalance_iff {manager : GasReimbursementManager} {wallet : String}
    {state : WalletBalanceState} (hstate : manager.walletStates.lookup wallet = some state)
    (hbalance : state.currentBalance = 0)
    (hthreshold : state.minBalanceThreshold = minBalanceLamports)
    (required : UInt64) :
    manager.checkWalletBalance wallet required = true ↔
      (required.toNat + 1000) % 2 ^ 64
        ≤ (2 ^ 64 - state.pendingReimbursements.toNat) % 2 ^ 64 := by
  have hmin : minBalanceLamports.toNat = 1000 := rfl
  simp only [checkWalletBalance, hstate, hbalance, hthreshold, decide_eq_true_eq, ge_iff_le,
    UInt64.le_iff_toNat_le, UInt64.toNat_add, UInt64.toNat_sub, hmin]
  simp

/-- In every reachable manager the check of a wallet with a state agrees with the
integers exactly where it is exact. -/
theorem checkWalletBalance_correct_iff (calls : List Call) (wallet : String)
    (state : WalletBalanceState) (required : UInt64)
    (hstate : (final step new calls).walletStates.lookup wallet = some state) :
    ((final step new calls).checkWalletBalance wallet required = true ↔
      StaysAboveThreshold state required) ↔ CheckExact state required := by
  obtain ⟨hbalance, hthreshold⟩ := walletStatesUnfunded_final calls wallet state hstate
  -- an empty wallet never has enough, so the check is right where it fails
  have hnever : ¬ StaysAboveThreshold state required := by
    have hmin : minBalanceLamports.toNat = 1000 := rfl
    have hzero : (0 : UInt64).toNat = 0 := rfl
    rw [StaysAboveThreshold, hbalance, hthreshold, hmin, hzero]
    omega
  have hpending : state.pendingReimbursements.toNat < 2 ^ 64 := UInt64.toNat_lt _
  have hrequired : required.toNat < 2 ^ 64 := UInt64.toNat_lt _
  rw [iff_false_right hnever, checkWalletBalance_iff hstate hbalance hthreshold, not_le,
    CheckExact]
  -- with nothing pending the left-hand side is 0, otherwise it wraps around
  rcases Nat.eq_zero_or_pos state.pendingReimbursements.toNat with hp | hp
  · rw [hp]
    omega
  · rw [Nat.mod_eq_of_lt (Nat.sub_lt (by decide) hp)]
    omega

/-- One request over 5000 lamports of gas. -/
def submitOne : List Call :=
  [.submitRequest { ReimbursementRequest.default with
    walletAddress := "wallet_123", gasCost := 5000 } 1700000000000 0]

/-- The wallet's state after it. -/
def walletAfterOne : WalletBalanceState :=
  { WalletBalanceState.default with
    walletAddress := "wallet_123", isBelowThreshold := true, pendingReimbursements := 5000 }

theorem checkWalletBalance_correct_iff_submitOne :
    ((final step new submitOne).checkWalletBalance "wallet_123" 2500 = true ↔
      StaysAboveThreshold walletAfterOne 2500) ↔ CheckExact walletAfterOne 2500 :=
  checkWalletBalance_correct_iff submitOne "wallet_123" walletAfterOne 2500 (by decide +kernel)

/-- An empty wallet with 5000 lamports pending passes the check. -/
theorem not_forall_checkWalletBalance_correct :
    ¬ ∀ (calls : List Call) (wallet : String) (state : WalletBalanceState) (required : UInt64),
      (final step new calls).walletStates.lookup wallet = some state →
      ((final step new calls).checkWalletBalance wallet required = true ↔
        StaysAboveThreshold state required) := by
  intro h
  have hcheck := h submitOne "wallet_123" walletAfterOne 0 (by decide +kernel)
  have hpasses : (final step new submitOne).checkWalletBalance "wallet_123" 0 = true := by
    decide +kernel
  have hmeant := hcheck.mp hpasses
  revert hmeant
  rw [StaysAboveThreshold]
  decide

end GasReimbursementManager

end Membra
