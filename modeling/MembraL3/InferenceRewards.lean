/-
The rewards of inference receipts.

A reward is claimed once, after its receipt has been verified, and stays as it was
claimed; the two running totals are, modulo `2^64`, what the stored receipts add up
to.

* `countP_claims_le_one` — a reward is claimed at most once;
* `exists_verify` — a verified receipt has been verified by a call;
* `balanced_final` — the running totals are those of the stored receipts;
* `reward_ledger` — the ledger of a run.
-/
import MembraL3.ProofOfInference

namespace Membra

namespace ProofOfInference

open Runs

variable {sha256 : Sha256} {ledger : ProofOfInference} {id : String} {call : Call}

/-! ### Claims -/

/-- The call claims the reward of the receipt under `id`. -/
def claims (id : String) (ledger : ProofOfInference) : Call → Bool
  | .claimReward id' reward now => id' == id && (ledger.claimReward id' reward now).1
  | _ => false

/-- The reward of the receipt under `id` has been claimed. -/
def Claimed (id : String) (ledger : ProofOfInference) : Prop :=
  ∃ receipt, ledger.receipts.lookup id = some receipt ∧ receipt.rewardClaimed = true

/-- A claim finds the receipt verified and its reward unclaimed, and leaves it
claimed. -/
theorem claims_spec (sha256 : Sha256) (h : claims id ledger call = true) :
    (∃ receipt, ledger.receipts.lookup id = some receipt ∧ receipt.verified = true ∧
      receipt.rewardClaimed = false) ∧
    Claimed id (step sha256 ledger call).2 := by
  cases call with
  | claimReward id' reward now =>
    simp only [claims, Bool.and_eq_true, beq_iff_eq] at h
    obtain ⟨rfl, hok⟩ := h
    rcases claimReward_cases ledger id' reward now with
      ⟨receipt, hlookup, hverified, hunclaimed, heq⟩ | heq
    · refine ⟨⟨receipt, hlookup, hverified, hunclaimed⟩, ?_⟩
      simp only [step, heq]
      exact ⟨_, Store.lookup_assign_self .., rfl⟩
    · rw [heq] at hok
      cases hok
  | _ => cases h

/-- What no call changes once the reward has been claimed. -/
structure RewardKept (receipt receipt' : InferenceReceipt) : Prop where
  claimed : receipt.rewardClaimed = true → receipt'.rewardClaimed = true
  reward : receipt.rewardClaimed = true → receipt'.rewardLamports = receipt.rewardLamports

theorem Moves.rewardKept {receipt receipt' : InferenceReceipt}
    (h : Moves sha256 id call receipt receipt') : RewardKept receipt receipt' := by
  cases h with
  | kept => exact ⟨fun h => h, fun _ => rfl⟩
  | verified => exact ⟨fun h => h, fun _ => rfl⟩
  | claimed reward now receipt hverified hunclaimed =>
    refine ⟨fun _ => rfl, fun hclaimed => ?_⟩
    rw [hunclaimed] at hclaimed
    cases hclaimed

theorem evolves_final {calls : List Call} (hfresh : Each (step sha256) Fresh ledger calls) :
    Store.Evolves (fun _ => RewardKept) ledger.receipts
      (final (step sha256) ledger calls).receipts := by
  refine final_rel (R := fun s t => Store.Evolves (fun _ => RewardKept) s.receipts t.receipts)
    (fun s => .refl (fun _ _ => ⟨fun h => h, fun _ => rfl⟩) _) ?_ ?_ hfresh
  · intro s t u hst htu
    refine hst.trans ?_ htu
    intro id r r' r'' h h'
    refine ⟨fun hclaimed => h'.claimed (h.claimed hclaimed), fun hclaimed => ?_⟩
    rw [h'.reward (h.claimed hclaimed), h.reward hclaimed]
  · intro s call hcall
    exact (evolves_step sha256 hcall).imp fun _ _ _ hmoves => hmoves.rewardKept

theorem countP_claims_le_one {calls : List Call} (hfresh : Each (step sha256) Fresh new calls)
    (id : String) :
    (trace (step sha256) new calls).countP (fun e => claims id e.before e.call) ≤ 1 := by
  refine countP_le_one (D := Claimed id) ?_ ?_ ?_ hfresh
  · rintro s call - hclaims ⟨receipt, hlookup, hclaimed⟩
    obtain ⟨⟨found, hfound, -, hunclaimed⟩, -⟩ := claims_spec sha256 hclaims
    obtain rfl : found = receipt := Option.some.inj (hfound.symm.trans hlookup)
    rw [hunclaimed] at hclaimed
    cases hclaimed
  · rintro s call hcall ⟨receipt, hlookup, hclaimed⟩
    obtain ⟨receipt', hlookup', hmoves⟩ := evolves_step sha256 hcall id receipt hlookup
    exact ⟨receipt', hlookup', hmoves.rewardKept.claimed hclaimed⟩
  · intro s call _ hclaims
    exact (claims_spec sha256 hclaims).2

/-! ### Verification -/

/-- A receipt that is stored as verified has been verified by a call. -/
theorem exists_verify {calls : List Call} {receipt : InferenceReceipt}
    (hlookup : (final (step sha256) new calls).receipts.lookup id = some receipt)
    (hverified : receipt.verified = true) :
    ∃ pre, pre ++ [.verifyReceipt id] <+: calls ∧
      ((final (step sha256) new pre).verifyReceipt sha256 id).1 = true := by
  induction calls using List.reverseRecOn generalizing receipt with
  | nil => cases hlookup
  | append_singleton calls call ih =>
    rw [final_append] at hlookup
    have hpast : ∀ before, (final (step sha256) new calls).receipts.lookup id = some before →
        before.verified = true → ∃ pre, pre ++ [.verifyReceipt id] <+: calls ++ [call] ∧
          ((final (step sha256) new pre).verifyReceipt sha256 id).1 = true := by
      intro before hbefore hold
      obtain ⟨pre, hpre, hok⟩ := ih hbefore hold
      exact ⟨pre, hpre.trans (List.prefix_append ..), hok⟩
    rcases lookup_of_step hlookup with ⟨before, hbefore, hmoves⟩ | ⟨work, now, -, -, rfl⟩
    · cases hmoves with
      | kept => exact hpast receipt hbefore hverified
      | verified =>
        -- the flag is what this call has returned
        refine ⟨calls, List.prefix_refl _, ?_⟩
        rw [verifyReceipt, hbefore]
        exact hverified
      | claimed reward now before hold hunclaimed => exact hpast before hbefore hold
    · cases hverified

/-! ### Totals -/

/-- What a receipt has been paid. -/
def paid (receipt : InferenceReceipt) : UInt64 :=
  if receipt.rewardClaimed then receipt.rewardLamports else 0

/-- The running totals are the sums over the stored receipts, in 64 bits. -/
structure Balanced (ledger : ProofOfInference) : Prop where
  units : ledger.totalComputeUnits
    = Store.total InferenceReceipt.computeUnitsConsumed ledger.receipts
  rewards : ledger.totalRewardsPaid = Store.total paid ledger.receipts

theorem balanced_step (h : Balanced ledger) (hfresh : Fresh ledger call) :
    Balanced (step sha256 ledger call).2 := by
  cases call with
  | createReceipt work now =>
    have hnew := AList.lookup_eq_none.mpr (hfresh rfl)
    constructor
    · show ledger.totalComputeUnits + work.computeUnits = Store.total _ (ledger.receipts.assign _ _)
      rw [Store.total_assign_new _ _ hnew, h.units]
      exact add_comm ..
    · show ledger.totalRewardsPaid = Store.total _ (ledger.receipts.assign _ _)
      rw [Store.total_assign_new _ _ hnew, h.rewards]
      exact (zero_add _).symm
  | verifyReceipt id =>
    rcases verifyReceipt_cases sha256 ledger id with ⟨receipt, hlookup, heq⟩ | heq
    · simp only [step, heq]
      constructor
      · exact h.units.trans
          (Store.total_assign_eq (v := receipt.checked sha256) _ hlookup rfl).symm
      · exact h.rewards.trans
          (Store.total_assign_eq (v := receipt.checked sha256) _ hlookup rfl).symm
    · simp only [step, heq]
      exact h
  | claimReward id reward now =>
    rcases claimReward_cases ledger id reward now with
      ⟨receipt, hlookup, hverified, hunclaimed, heq⟩ | heq
    · simp only [step, heq]
      constructor
      · exact h.units.trans
          (Store.total_assign_eq (v := receipt.rewarded reward now) _ hlookup rfl).symm
      · have hsum := Store.total_assign_of_lookup paid (receipt.rewarded reward now) hlookup
        have hbefore : paid receipt = 0 := by
          rw [paid, hunclaimed]
          rfl
        rw [hbefore, add_zero] at hsum
        rw [hsum, ← h.rewards]
        rfl
    · simp only [step, heq]
      exact h
  | _ => exact h

theorem balanced_final {calls : List Call} (hfresh : Each (step sha256) Fresh new calls) :
    Balanced (final (step sha256) new calls) :=
  final_induction (fun _ _ => balanced_step) ⟨rfl, rfl⟩ hfresh

/-! ### The ledger of a run -/

structure Ledger (sha256 : Sha256) (calls : List Call) : Prop where
  /-- A reward is claimed at most once, and only after its receipt has been verified. -/
  claimedOnce : ∀ id,
    (trace (step sha256) new calls).countP (fun e => claims id e.before e.call) ≤ 1
  afterVerify : ∀ pre id reward now, pre ++ [.claimReward id reward now] <+: calls →
    ((final (step sha256) new pre).claimReward id reward now).1 = true →
    ∃ earlier, earlier ++ [.verifyReceipt id] <+: pre ∧
      ((final (step sha256) new earlier).verifyReceipt sha256 id).1 = true
  /-- A claimed reward is never changed. -/
  rewardFixed : ∀ pre mid, pre ++ mid <+: calls → ∀ id receipt,
    (final (step sha256) new pre).receipts.lookup id = some receipt →
    receipt.rewardClaimed = true →
    ∃ receipt', (final (step sha256) new (pre ++ mid)).receipts.lookup id = some receipt' ∧
      receipt'.rewardClaimed = true ∧ receipt'.rewardLamports = receipt.rewardLamports
  /-- The running totals, modulo `2^64`. -/
  rewardsPaid : (final (step sha256) new calls).totalRewardsPaid.toNat
    = Store.total (fun receipt =>
        if receipt.rewardClaimed then receipt.rewardLamports.toNat else 0)
      (final (step sha256) new calls).receipts % 2 ^ 64
  computeUnits : (final (step sha256) new calls).totalComputeUnits.toNat
    = Store.total (fun receipt => receipt.computeUnitsConsumed.toNat)
      (final (step sha256) new calls).receipts % 2 ^ 64
  /-- The ids that `create_receipt` returns are distinct. -/
  distinct : ((trace (step sha256) new calls).filterMap createdId).Nodup
  /-- A claim that returns true records the reward, one that returns false changes nothing. -/
  pays : ∀ pre id reward now, pre ++ [.claimReward id reward now] <+: calls →
    ((final (step sha256) new pre).claimReward id reward now).1 = true →
    ∃ receipt, (final (step sha256) new (pre ++ [.claimReward id reward now])).receipts.lookup id
        = some receipt ∧
      receipt.rewardClaimed = true ∧ receipt.rewardLamports = reward
  refused : ∀ pre id reward now, pre ++ [.claimReward id reward now] <+: calls →
    ((final (step sha256) new pre).claimReward id reward now).1 = false →
    final (step sha256) new (pre ++ [.claimReward id reward now]) = final (step sha256) new pre

/-- Every run of fewer than `2^64` receipts. -/
theorem reward_ledger (sha256 : Sha256) {calls : List Call} (hcreates : CreatesFit calls) :
    Ledger sha256 calls := by
  have hfresh : Each (step sha256) Fresh new calls := each_fresh_new hcreates
  have hbalanced := balanced_final hfresh
  constructor
  case claimedOnce => exact countP_claims_le_one hfresh
  case afterVerify =>
    intro pre id reward now _ hok
    rcases claimReward_cases (final (step sha256) new pre) id reward now with
      ⟨receipt, hlookup, hverified, -, -⟩ | heq
    · exact exists_verify hlookup hverified
    · rw [heq] at hok
      cases hok
  case rewardFixed =>
    intro pre mid hpre id receipt hlookup hclaimed
    obtain ⟨receipt', hlookup', hkept⟩ :=
      evolves_final (hfresh.between hpre) id receipt hlookup
    rw [final_append]
    exact ⟨receipt', hlookup', hkept.claimed hclaimed, hkept.reward hclaimed⟩
  case rewardsPaid =>
    rw [hbalanced.rewards, Words.toNat_total]
    congr 1
    refine Store.total_congr fun id receipt _ => ?_
    rw [paid]
    cases receipt.rewardClaimed <;> rfl
  case computeUnits => rw [hbalanced.units, Words.toNat_total]
  case distinct => exact nodup_createdIds hcreates
  case pays =>
    intro pre id reward now _ hok
    rw [final_append]
    rcases claimReward_cases (final (step sha256) new pre) id reward now with
      ⟨receipt, -, -, -, heq⟩ | heq
    · simp only [final_cons, final_nil, step, heq]
      exact ⟨_, Store.lookup_assign_self .., rfl, rfl⟩
    · rw [heq] at hok
      cases hok
  case refused =>
    intro pre id reward now _ hrefused
    rw [final_append]
    rcases claimReward_cases (final (step sha256) new pre) id reward now with
      ⟨receipt, -, -, -, heq⟩ | heq
    · rw [heq] at hrefused
      cases hrefused
    · simp only [final_cons, final_nil, step, heq]

/-- A receipt whose reward is claimed before its verification, after it, and again. -/
theorem reward_ledger_claimedOnce :
    Ledger (fun _ => zeroHash)
      [.createReceipt ⟨"worker", "task", .validation, 1, 2, 10, 20, 30, 1⟩ 0,
        .claimReward "infer_0" 5 1, .verifyReceipt "infer_0", .claimReward "infer_0" 5 2,
        .claimReward "infer_0" 7 3] :=
  reward_ledger _ (by decide)

end ProofOfInference

end Membra
