/-
The cap per receipt.

`create_reward_entry` compares one entry's amount with the cap per receipt, and
neither operation looks for other entries with the same receipt.

* `paidFor` — what the claims of a run have paid for a receipt;
* `receiptCapped_iff_fitsReceipt` — no receipt is paid above the cap iff every
  claim that pays for a receipt again fits into what is left of it.
-/
import MembraL3.RewardVault

namespace Membra

namespace RewardVault

open Runs

/-- What a call paid for the receipt. -/
def paymentFor (receipt : String) (e : Event RewardVault Call Reply) : ℕ :=
  match paidEntry e with
  | some entry => if entry.receiptId = receipt then entry.amountLamports.toNat else 0
  | none => 0

/-- What the successful claims of a run have paid for the receipt. -/
def paidFor (receipt : String) (events : List (Event RewardVault Call Reply)) : ℕ :=
  (events.map (paymentFor receipt)).sum

/-- If the call is a claim that pays an entry for whose receipt the run has paid
before, the two are within the cap per receipt. -/
def FitsReceipt (initial : UInt64) (pre : List Call) : Call → Prop
  | .claimReward entryId _ => ∀ entry,
      (final step (new initial) pre).payable entryId = some entry →
      paidFor entry.receiptId (trace step (new initial) pre) ≠ 0 →
      paidFor entry.receiptId (trace step (new initial) pre) + entry.amountLamports.toNat
        ≤ maxRewardPerReceipt.toNat
  | _ => True

/-- The condition in terms of what the call pays. -/
theorem fitsReceipt_iff_paidEntry {initial : UInt64} {pre : List Call} {c : Call} :
    FitsReceipt initial pre c ↔
      ∀ entry, paidEntry (event step (final step (new initial) pre) c) = some entry →
        paidFor entry.receiptId (trace step (new initial) pre) ≠ 0 →
        paidFor entry.receiptId (trace step (new initial) pre) + entry.amountLamports.toNat
          ≤ maxRewardPerReceipt.toNat := by
  cases c with
  | claimReward entryId now =>
    rw [paidEntry_claimReward]
    rfl
  | _ => exact iff_of_true trivial fun entry h => absurd h (by simp [paidEntry])

theorem paidFor_append (receipt : String) (initial : UInt64) (pre post : List Call) :
    paidFor receipt (trace step (new initial) (pre ++ post))
      = paidFor receipt (trace step (new initial) pre)
        + paidFor receipt (trace step (final step (new initial) pre) post) := by
  rw [trace_append, paidFor, List.map_append, List.sum_append]
  rfl

theorem paidFor_append_singleton (receipt : String) (initial : UInt64) (pre : List Call)
    (c : Call) :
    paidFor receipt (trace step (new initial) (pre ++ [c]))
      = paidFor receipt (trace step (new initial) pre)
        + paymentFor receipt (event step (final step (new initial) pre) c) := by
  rw [paidFor_append, paidFor, paidFor, trace_cons, trace_nil, List.map_singleton,
    List.sum_singleton]

/-- A first payment is within the cap; the cap of a later one is the condition. -/
theorem receiptCapped_append_iff {initial : UInt64} {pre : List Call} {c : Call}
    (hpast : ∀ receipt, paidFor receipt (trace step (new initial) pre)
      ≤ maxRewardPerReceipt.toNat) :
    (∀ receipt, paidFor receipt (trace step (new initial) (pre ++ [c]))
        ≤ maxRewardPerReceipt.toNat) ↔ FitsReceipt initial pre c := by
  rw [fitsReceipt_iff_paidEntry]
  cases hpaid : paidEntry (event step (final step (new initial) pre) c) with
  | none =>
    have hsame : ∀ receipt, paidFor receipt (trace step (new initial) (pre ++ [c]))
        = paidFor receipt (trace step (new initial) pre) := by
      intro receipt
      rw [paidFor_append_singleton, paymentFor, hpaid, add_zero]
    refine iff_of_true (fun receipt => ?_) (fun entry hentry => ?_)
    · rw [hsame]
      exact hpast receipt
    · exact absurd hentry.symm (Option.some_ne_none entry)
  | some entry =>
    have hpayment : ∀ receipt, paidFor receipt (trace step (new initial) (pre ++ [c]))
        = paidFor receipt (trace step (new initial) pre)
          + if entry.receiptId = receipt then entry.amountLamports.toNat else 0 := by
      intro receipt
      rw [paidFor_append_singleton, paymentFor, hpaid]
    constructor
    · intro h entry' hentry' _
      obtain rfl : entry = entry' := Option.some.inj hentry'
      have hcapped := h entry.receiptId
      rwa [hpayment, if_pos rfl] at hcapped
    · -- the payment counts for the receipt of the entry only
      intro h receipt
      rw [hpayment]
      by_cases hreceipt : entry.receiptId = receipt
      · rw [if_pos hreceipt, ← hreceipt]
        by_cases hfirst : paidFor entry.receiptId (trace step (new initial) pre) = 0
        · rw [hfirst, zero_add]
          exact paidEntry_le_maxRewardPerReceipt initial pre hpaid
        · exact h entry rfl hfirst
      · rw [if_neg hreceipt]
        exact hpast receipt

/-- No receipt is paid above the cap over a run iff every claim in it that pays for
a receipt again fits into what is left of the cap. -/
theorem receiptCapped_iff_fitsReceipt (initial : UInt64) (calls : List Call) :
    (∀ receipt, paidFor receipt (trace step (new initial) calls)
        ≤ maxRewardPerReceipt.toNat) ↔
      ∀ pre c, pre ++ [c] <+: calls → FitsReceipt initial pre c := by
  rw [← forall_prefix_iff (G := fun pre => ∀ receipt,
    paidFor receipt (trace step (new initial) pre) ≤ maxRewardPerReceipt.toNat) ?_
    fun pre c _ hpast => receiptCapped_append_iff (hpast pre (List.prefix_refl _))]
  · constructor
    · -- what is paid only grows along a run
      rintro h pre ⟨post, rfl⟩ receipt
      have hle := h receipt
      rw [paidFor_append] at hle
      omega
    · intro h
      exact h calls (List.prefix_refl _)
  · intro receipt
    exact Nat.zero_le _

/-- Two entries for one receipt are created and claimed. -/
def claimTwice : List Call :=
  [.createRewardEntry "worker_wallet" "receipt_123" 1000000000 "inference" 0 0 0,
    .createRewardEntry "worker_wallet" "receipt_123" 1000000000 "inference" 1 1 1,
    .claimReward (rewardEntryId "worker_wallet" 0) 2,
    .claimReward (rewardEntryId "worker_wallet" 1) 3]

theorem not_forall_receiptCapped :
    ¬ ∀ (initial : UInt64) (calls : List Call) (receipt : String),
      paidFor receipt (trace step (new initial) calls) ≤ maxRewardPerReceipt.toNat := by
  intro h
  have hcapped := h 100000000000 claimTwice "receipt_123"
  revert hcapped
  decide +kernel

end RewardVault

end Membra
