/-
The cap per worker and day.

`create_reward_entry` compares what the worker has claimed in the last day plus
the new entry with the cap; `claim_reward`, which pays, compares nothing.  So
entries that were created below the cap can be claimed above it.

* `dailyClaimed` — the day's claims of a worker as an unbounded sum;
* `dailyClaimed_pay` — a payment is the only step that raises it;
* `dailyCapped_iff_fitsDay` — the cap holds after every prefix of a run iff each
  payment fits into what the worker's claims of the last day have left of it.
-/
import MembraL3.RewardVault
import Mathlib.Tactic.Linarith

namespace Membra

namespace RewardVault

open Runs

/-! ### The day's claims without wrap-around -/

/-- What the worker claimed in the 24 hours before `now`, as an unbounded sum. -/
def dailyClaimed (entries : Store String RewardVaultEntry) (worker : String) (now : Seconds) : ℕ :=
  Store.total
    (fun entry => if countsToday worker now entry then entry.amountLamports.toNat else 0) entries

/-- Below `2 ^ 64` the loop computes the unbounded sum. -/
theorem toNat_getWorkerDailyClaimed {vault : RewardVault} {worker : String} {now : Seconds}
    (h : dailyClaimed vault.entries worker now < 2 ^ 64) :
    (vault.getWorkerDailyClaimed worker now).toNat = dailyClaimed vault.entries worker now := by
  rw [getWorkerDailyClaimed_eq_total]
  exact Words.toNat_total_if_of_lt h

theorem countsToday_of_le {worker : String} {t t' : Seconds} {entry : RewardVaultEntry}
    (ht : t ≤ t') (h : countsToday worker t' entry = true) : countsToday worker t entry = true := by
  simp only [countsToday, decide_eq_true_eq] at h ⊢
  obtain ⟨hworker, hclaimed, hsince⟩ := h
  exact ⟨hworker, hclaimed, le_trans (sub_le_sub_right ht 86400) hsince⟩

/-- Claims drop out of the day as the clock advances. -/
theorem dailyClaimed_antitone (entries : Store String RewardVaultEntry) (worker : String)
    {t t' : Seconds} (ht : t ≤ t') :
    dailyClaimed entries worker t' ≤ dailyClaimed entries worker t := by
  refine Store.total_le_total ?_
  intro id entry _
  by_cases hc : countsToday worker t' entry
  · rw [if_pos hc, if_pos (countsToday_of_le ht hc)]
  · rw [if_neg hc]
    exact Nat.zero_le _

/-! ### What a step does to it -/

/-- Storing an unclaimed entry can only lower the day's claims. -/
theorem dailyClaimed_assign_unclaimed (entries : Store String RewardVaultEntry) (id : String)
    {entry : RewardVaultEntry} (hentry : entry.claimed = false) (worker : String) (now : Seconds) :
    dailyClaimed (entries.assign id entry) worker now ≤ dailyClaimed entries worker now := by
  have hshare : countsToday worker now entry = false := by
    simp [countsToday, hentry]
  rw [dailyClaimed, dailyClaimed]
  cases hlookup : entries.lookup id with
  | none =>
    rw [Store.total_assign_new _ _ hlookup, hshare]
    simp
  | some old =>
    have hsum := Store.total_assign_of_lookup
      (fun entry => if countsToday worker now entry then entry.amountLamports.toNat else 0)
      entry hlookup
    simp only [hshare, Bool.false_eq_true, if_false] at hsum
    omega

/-- A payment adds its amount to the worker's day. -/
theorem dailyClaimed_pay {vault : RewardVault} {entryId : String} {entry : RewardVaultEntry}
    (hpay : vault.payable entryId = some entry) (now : Seconds) (worker : String) (t : Seconds) :
    dailyClaimed (vault.pay entryId entry now).entries worker t
      = dailyClaimed vault.entries worker t
        + if entry.workerAddress = worker ∧ t - 86400 ≤ now then entry.amountLamports.toNat
          else 0 := by
  obtain ⟨hlookup, hclaimed, _, _⟩ := payable_eq_some_iff.mp hpay
  have hsum := Store.total_assign_of_lookup
    (fun entry => if countsToday worker t entry then entry.amountLamports.toNat else 0)
    { entry with
      claimed := true
      claimedAt := now
      poolBalanceAfter := some (vault.poolBalance - entry.amountLamports) } hlookup
  have hold : countsToday worker t entry = false := by
    simp [countsToday, hclaimed]
  simp only [hold, Bool.false_eq_true, if_false, add_zero] at hsum
  simpa [countsToday, dailyClaimed, pay] using hsum

/-- A step that pays nothing does not raise it. -/
theorem dailyClaimed_step_of_not_claimed {vault : RewardVault} {c : Call}
    (hc : (step vault c).1 ≠ .claimed true) (worker : String) (t : Seconds) :
    dailyClaimed (step vault c).2.entries worker t ≤ dailyClaimed vault.entries worker t := by
  rcases step_cases vault c with ⟨hsame, _⟩ | ⟨amount, source, rfl, _, hdeposit⟩ |
    ⟨worker', receipt, amount, source, dailyNow, idNow, stampNow, rfl, _, hcreate⟩ |
    ⟨entryId, now, entry, rfl, _, hok, _⟩
  · rw [hsame]
  · rw [hdeposit]
  · rw [hcreate]
    exact dailyClaimed_assign_unclaimed vault.entries _ rfl worker t
  · exact absurd hok hc

/-- A step raises it by at most the cap per receipt. -/
theorem dailyClaimed_step_le {vault : RewardVault} (h : AmountsCapped vault.entries) (c : Call)
    (worker : String) (t : Seconds) :
    dailyClaimed (step vault c).2.entries worker t
      ≤ dailyClaimed vault.entries worker t + maxRewardPerReceipt.toNat := by
  by_cases hc : (step vault c).1 = .claimed true
  · obtain ⟨entryId, now, entry, rfl, hpay, hclaim⟩ := step_of_claimed hc
    have hentry := UInt64.le_iff_toNat_le.mp (h entryId entry (payable_eq_some_iff.mp hpay).1)
    rw [hclaim, dailyClaimed_pay hpay]
    split <;> omega
  · exact (dailyClaimed_step_of_not_claimed hc worker t).trans (Nat.le_add_right _ _)

/-! ### The cap along a run -/

/-- The clock readings of a list of calls, in order. -/
def readings (calls : List Call) : List Seconds := calls.flatMap Call.readings

/-- At any time from the last reading on, no worker is above the cap. -/
def DailyCapped (initial : UInt64) (calls : List Call) : Prop :=
  ∀ worker now, (∀ t ∈ readings calls, t ≤ now) →
    (final step (new initial) calls).getWorkerDailyClaimed worker now ≤ maxRewardPerWorkerPerDay

/-- If the call is a claim that pays, the entry fits into what the worker's claims
of the last day have left: the comparison of `create_reward_entry`, made now. -/
def FitsDay (vault : RewardVault) : Call → Prop
  | .claimReward entryId now => ∀ entry, vault.payable entryId = some entry →
      dailyClaimed vault.entries entry.workerAddress now + entry.amountLamports.toNat
        ≤ maxRewardPerWorkerPerDay.toNat
  | _ => True

theorem readings_append (calls : List Call) (c : Call) :
    readings (calls ++ [c]) = readings calls ++ c.readings := by
  simp [readings]

theorem getWorkerDailyClaimed_le_iff {vault : RewardVault} {worker : String} {now : Seconds}
    (h : dailyClaimed vault.entries worker now < 2 ^ 64) :
    vault.getWorkerDailyClaimed worker now ≤ maxRewardPerWorkerPerDay ↔
      dailyClaimed vault.entries worker now ≤ maxRewardPerWorkerPerDay.toNat := by
  rw [UInt64.le_iff_toNat_le, toNat_getWorkerDailyClaimed h]

/-- One call cannot make the day's claims of a worker within the cap wrap around. -/
theorem dailyCapped_append_iff_le {initial : UInt64} {pre : List Call} {c : Call}
    (hday : ∀ worker now, (∀ t ∈ readings pre, t ≤ now) →
      dailyClaimed (final step (new initial) pre).entries worker now
        ≤ maxRewardPerWorkerPerDay.toNat) :
    DailyCapped initial (pre ++ [c]) ↔
      ∀ worker now, (∀ t ∈ readings (pre ++ [c]), t ≤ now) →
        dailyClaimed (final step (new initial) (pre ++ [c])).entries worker now
          ≤ maxRewardPerWorkerPerDay.toNat := by
  refine forall_congr' fun worker => forall_congr' fun now => forall_congr' fun hnow => ?_
  refine getWorkerDailyClaimed_le_iff ?_
  -- one call adds at most 1 SOL to the 10 SOL of the shorter history
  have hbefore := hday worker now fun t ht =>
    hnow t (by rw [readings_append]; exact List.mem_append_left _ ht)
  have hstep := dailyClaimed_step_le (amountsCapped_final initial pre) c worker now
  have hfinal : final step (new initial) (pre ++ [c])
      = (step (final step (new initial) pre) c).2 := final_append ..
  rw [hfinal]
  refine lt_of_le_of_lt (hstep.trans (Nat.add_le_add_right hbefore _)) ?_
  decide

/-- While the cap has held, nothing has wrapped around. -/
theorem dailyClaimed_le_of_dailyCapped {initial : UInt64} {calls : List Call}
    (hcapped : ∀ pre, pre <+: calls → DailyCapped initial pre) :
    ∀ worker now, (∀ t ∈ readings calls, t ≤ now) →
      dailyClaimed (final step (new initial) calls).entries worker now
        ≤ maxRewardPerWorkerPerDay.toNat := by
  induction calls using List.reverseRecOn with
  | nil => exact fun _ _ _ => Nat.zero_le _
  | append_singleton pre c ih =>
    have hbefore := ih fun p hp => hcapped p (hp.trans (List.prefix_append pre [c]))
    exact (dailyCapped_append_iff_le hbefore).mp (hcapped (pre ++ [c]) List.prefix_rfl)

theorem fitsDay_claimReward_iff {vault : RewardVault} {entryId : String} {entry : RewardVaultEntry}
    (hpay : vault.payable entryId = some entry) (now : Seconds) :
    FitsDay vault (.claimReward entryId now) ↔
      dailyClaimed vault.entries entry.workerAddress now + entry.amountLamports.toNat
        ≤ maxRewardPerWorkerPerDay.toNat := by
  constructor
  · intro h
    exact h entry hpay
  · intro h entry' hentry'
    obtain rfl : entry = entry' := Option.some.inj (hpay.symm.trans hentry')
    exact h

theorem fitsDay_of_not_claimed {vault : RewardVault} {c : Call}
    (hc : (step vault c).1 ≠ .claimed true) : FitsDay vault c := by
  cases c with
  | claimReward entryId now =>
    intro entry hpay
    rw [step, claimReward_of_payable hpay] at hc
    exact absurd rfl hc
  | _ => trivial

/-- After a payment at the latest reading, every day keeps the cap iff the day of the
paid worker does at that reading. -/
theorem dailyClaimed_pay_le_iff {vault : RewardVault} {entryId : String} {entry : RewardVaultEntry}
    {past : List Seconds} {t : Seconds} (hpay : vault.payable entryId = some entry)
    (ht : ∀ t' ∈ past, t' ≤ t)
    (hday : ∀ worker now, (∀ t' ∈ past, t' ≤ now) →
      dailyClaimed vault.entries worker now ≤ maxRewardPerWorkerPerDay.toNat) :
    (∀ worker now, (∀ t' ∈ past ++ [t], t' ≤ now) →
      dailyClaimed (vault.pay entryId entry t).entries worker now
        ≤ maxRewardPerWorkerPerDay.toNat) ↔
      dailyClaimed vault.entries entry.workerAddress t + entry.amountLamports.toNat
        ≤ maxRewardPerWorkerPerDay.toNat := by
  constructor
  · -- read at the very time of the claim
    intro h
    have hnow : ∀ t' ∈ past ++ [t], t' ≤ t := by
      intro t' ht'
      rcases List.mem_append.mp ht' with ht' | ht'
      · exact ht t' ht'
      · exact (List.mem_singleton.mp ht').le
    have hpaid : dailyClaimed (vault.pay entryId entry t).entries entry.workerAddress t
        = dailyClaimed vault.entries entry.workerAddress t + entry.amountLamports.toNat := by
      rw [dailyClaimed_pay hpay, if_pos ⟨rfl, by linarith⟩]
    rw [← hpaid]
    exact h entry.workerAddress t hnow
  · -- later readings only forget claims, and other workers' days are the same
    intro h worker now hnow
    have htnow : t ≤ now := hnow t (List.mem_append_right _ (List.mem_singleton_self t))
    rw [dailyClaimed_pay hpay]
    by_cases hworker : entry.workerAddress = worker ∧ now - 86400 ≤ t
    · rw [if_pos hworker, ← hworker.1]
      have hanti := dailyClaimed_antitone vault.entries entry.workerAddress htnow
      exact (Nat.add_le_add_right hanti _).trans h
    · rw [if_neg hworker]
      exact hday worker now fun t' ht' => hnow t' (List.mem_append_left _ ht')

/-- Where the cap has always held, a call keeps it iff it fits into the day. -/
theorem dailyCapped_append_iff {initial : UInt64} {pre : List Call} {c : Call}
    (hclock : (readings (pre ++ [c])).Pairwise (· ≤ ·))
    (hcapped : ∀ p, p <+: pre → DailyCapped initial p) :
    DailyCapped initial (pre ++ [c]) ↔ FitsDay (final step (new initial) pre) c := by
  have hday := dailyClaimed_le_of_dailyCapped hcapped
  have hfinal : final step (new initial) (pre ++ [c])
      = (step (final step (new initial) pre) c).2 := final_append ..
  rw [dailyCapped_append_iff_le hday, hfinal]
  rw [readings_append] at hclock ⊢
  generalize final step (new initial) pre = vault at hday ⊢
  by_cases hc : (step vault c).1 = .claimed true
  · obtain ⟨entryId, t, entry, rfl, hpay, hclaim⟩ := step_of_claimed hc
    -- the reading of the claim is not before any other
    have ht : ∀ t' ∈ readings pre, t' ≤ t := fun t' ht' =>
      (List.pairwise_append.mp hclock).2.2 t' ht' t (List.mem_singleton_self t)
    rw [hclaim, fitsDay_claimReward_iff hpay]
    exact dailyClaimed_pay_le_iff hpay ht hday
  · -- nothing is paid
    refine iff_of_true (fun worker now hnow => ?_) (fitsDay_of_not_claimed hc)
    have hold := hday worker now fun t ht => hnow t (List.mem_append_left _ ht)
    exact (dailyClaimed_step_of_not_claimed hc worker now).trans hold

/-- Over any non-decreasing clock readings, no worker is ever above the cap iff at
each payment what the worker has claimed in the last day plus the entry is within
the cap. -/
theorem dailyCapped_iff_fitsDay (initial : UInt64) (calls : List Call)
    (hclock : (readings calls).Pairwise (· ≤ ·)) :
    (∀ pre, pre <+: calls → DailyCapped initial pre) ↔
      Each step FitsDay (new initial) calls := by
  rw [each_iff_forall]
  refine forall_prefix_iff ?_ fun pre c hpre hpast => ?_
  · intro worker now _
    exact UInt64.le_iff_toNat_le.mpr (Nat.zero_le _)
  · have hsub : (readings (pre ++ [c])).Sublist (readings calls) := by
      obtain ⟨post, rfl⟩ := hpre
      have hsplit : readings (pre ++ [c] ++ post) = readings (pre ++ [c]) ++ readings post :=
        List.flatMap_append
      rw [hsplit]
      exact List.sublist_append_left _ _
    exact dailyCapped_append_iff (hclock.sublist hsub) hpast

/-- One worker creates `n` entries of 1 SOL, a second apart, and claims them all a
minute later. -/
def createThenClaim (n : ℕ) : List Call :=
  (List.range n).map (fun k =>
    .createRewardEntry "worker_wallet" ("receipt_" ++ toString k) 1000000000 "inference" k k k) ++
  (List.range n).map (fun k => .claimReward (rewardEntryId "worker_wallet" k) (n + 60))

theorem dailyCapped_iff_fitsDay_two :
    (∀ pre, pre <+: createThenClaim 2 → DailyCapped 100000000000 pre) ↔
      Each step FitsDay (new 100000000000) (createThenClaim 2) :=
  dailyCapped_iff_fitsDay 100000000000 (createThenClaim 2) (by decide +kernel)

/-- Eleven entries pass the check of their creation and are claimed on one day. -/
theorem not_forall_dailyCapped :
    ¬ ∀ (initial : UInt64) (calls : List Call), (readings calls).Pairwise (· ≤ ·) →
      ∀ pre, pre <+: calls → DailyCapped initial pre := by
  intro h
  have hcapped := h 100000000000 (createThenClaim 11) (by decide +kernel) _ (List.prefix_refl _)
    "worker_wallet" 71 (by decide +kernel)
  revert hcapped
  decide +kernel

end RewardVault

end Membra
