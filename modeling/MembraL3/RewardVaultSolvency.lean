/-
Cap and solvency of the reward pool.

The guard of a deposit compares a sum of 64 bits with the cap, and a creation compares
its amount with the balance, of which nothing is set aside for earlier entries.

* `capsAndDeposits_iff` — the balance stays within its cap, and deposits are exact while
  the sums fit 64 bits;
* `claimable_iff_solvent` — what is owed can be claimed in any order exactly if the balance
  covers the sum of it;
* `claimable_iff_keepsCover` — when that is so in every state of a run.
-/
import MembraL3.RewardVault

namespace Membra

namespace RewardVault

open Runs

/-! ### The cap and the deposits -/

/-- The balance is at most the initial one or the cap, and a successful deposit raises
balance and available rewards by its amount, as unbounded integers. -/
structure CapsAndDeposits (initial : UInt64) (calls : List Call) : Prop where
  capped : ∀ pre, pre <+: calls →
    (final step (new initial) pre).poolBalance.toNat ≤ max initial.toNat maxPoolBalance.toNat
  deposits : ∀ e ∈ trace step (new initial) calls, ∀ amount source,
    e.call = .depositToPool amount source → e.result = .deposited true →
    e.after.poolBalance.toNat = e.before.poolBalance.toNat + amount.toNat ∧
      e.after.totalRewardsAvailable.toNat = e.before.totalRewardsAvailable.toNat + amount.toNat

/-- A deposit that passes the guard does not wrap around. -/
def DepositFits (vault : RewardVault) : Call → Prop
  | .depositToPool amount _ =>
    vault.poolBalance + amount ≤ maxPoolBalance →
      vault.poolBalance.toNat + amount.toNat < 2 ^ 64 ∧
        vault.totalRewardsAvailable.toNat + amount.toNat < 2 ^ 64
  | _ => True

theorem capped_step (initial : UInt64) (vault : RewardVault) (c : Call)
    (h : vault.poolBalance.toNat ≤ max initial.toNat maxPoolBalance.toNat) :
    (step vault c).2.poolBalance.toNat ≤ max initial.toNat maxPoolBalance.toNat := by
  rcases step_cases vault c with ⟨hsame, _⟩ | ⟨amount, source, rfl, hok, hdeposit⟩ |
    ⟨worker, receipt, amount, source, dailyNow, idNow, stampNow, rfl, _, hcreate⟩ |
    ⟨entryId, now, entry, rfl, hpay, _, hclaim⟩
  · rwa [hsame]
  · -- what passes the guard is within the cap, wrapped around or not
    have hguard : vault.poolBalance + amount ≤ maxPoolBalance := by
      by_contra hover
      rw [step, depositToPool, if_pos (UInt64.not_le.mp hover)] at hok
      exact absurd hok (by simp)
    rw [hdeposit]
    exact le_trans (UInt64.le_iff_toNat_le.mp hguard) (le_max_right _ _)
  · rwa [hcreate]
  · have hexact := Words.toNat_add_toNat_sub (payable_eq_some_iff.mp hpay).2.2.2
    have hpool : (step vault (.claimReward entryId now)).2.poolBalance
        = vault.poolBalance - entry.amountLamports := by
      rw [hclaim]
      rfl
    rw [hpool]
    omega

theorem step_depositToPool (vault : RewardVault) (amount : UInt64) (source : String) :
    (step vault (.depositToPool amount source)).1 = .deposited true ∧
        (step vault (.depositToPool amount source)).2 = { vault with
          poolBalance := vault.poolBalance + amount
          totalRewardsAvailable := vault.totalRewardsAvailable + amount } ∧
        vault.poolBalance + amount ≤ maxPoolBalance ∨
      step vault (.depositToPool amount source) = (.deposited false, vault) ∧
        ¬ vault.poolBalance + amount ≤ maxPoolBalance := by
  by_cases hguard : vault.poolBalance + amount > maxPoolBalance
  · right
    refine ⟨?_, UInt64.not_le.mpr hguard⟩
    rw [step, depositToPool, if_pos hguard]
    rfl
  · left
    rw [step, depositToPool, if_neg hguard]
    exact ⟨rfl, rfl, UInt64.not_lt.mp hguard⟩

theorem depositFits_iff (vault : RewardVault) (c : Call) :
    DepositFits vault c ↔ ∀ amount source, c = .depositToPool amount source →
      (step vault c).1 = .deposited true →
      (step vault c).2.poolBalance.toNat = vault.poolBalance.toNat + amount.toNat ∧
        (step vault c).2.totalRewardsAvailable.toNat
          = vault.totalRewardsAvailable.toNat + amount.toNat := by
  cases c with
  | depositToPool amount source =>
    rcases step_depositToPool vault amount source with ⟨hok, hafter, hguard⟩ | ⟨hfail, hguard⟩
    · rw [hok, hafter, DepositFits, ← Words.toNat_add_eq_iff, ← Words.toNat_add_eq_iff]
      constructor
      · rintro hfits amount' source' ⟨⟩ -
        exact hfits hguard
      · intro hexact _
        exact hexact amount source rfl rfl
    · rw [hfail]
      constructor
      · intro _ amount' source' _ hok
        cases hok
      · intro _ hguard'
        exact absurd hguard' hguard
  | _ =>
    refine iff_of_true trivial ?_
    intro amount source hcall
    cases hcall

/-- The balance stays within its cap in every run, and all deposits are exact exactly if
those that pass the guard fit 64 bits. -/
theorem capsAndDeposits_iff (initial : UInt64) (calls : List Call) :
    CapsAndDeposits initial calls ↔ Each step DepositFits (new initial) calls := by
  constructor
  · intro h
    refine (forall_trace_iff_each ?_).mp h.deposits
    exact fun vault c => (depositFits_iff vault c).symm
  · intro h
    refine ⟨?_, (forall_trace_iff_each ?_).mpr h⟩
    · intro pre _
      refine final_invariant (capped_step initial) ?_ pre
      exact le_max_left _ _
    · exact fun vault c => (depositFits_iff vault c).symm

/-- The largest deposit into a pool of five lamports takes one of them away. -/
theorem not_forall_capsAndDeposits : ¬ ∀ initial calls, CapsAndDeposits initial calls := by
  intro h
  have hdeposits := (h 5 [.depositToPool 18446744073709551615 "treasury"]).deposits _
    (List.mem_cons_self ..) _ _ rfl (by decide +kernel)
  revert hdeposits
  decide +kernel

/-! ### What is owed -/

/-- Not claimed yet, and marked as payable. -/
def outstanding (entry : RewardVaultEntry) : Bool := !entry.claimed && entry.payoutPossible

/-- The sum over the outstanding entries. -/
def owed (entries : Store String RewardVaultEntry) : ℕ :=
  Store.total (fun entry => if outstanding entry then entry.amountLamports.toNat else 0) entries

/-- An entry of amount 0 is outstanding. -/
def OwesZero (entries : Store String RewardVaultEntry) : Prop :=
  ∃ id entry, entries.lookup id = some entry ∧ outstanding entry = true ∧
    entry.amountLamports = 0

/-- The balance covers what is owed; a claim of 0 also needs a balance that is not 0. -/
def Covers (pool : UInt64) (owed : ℕ) (owesZero : Prop) : Prop :=
  owed ≤ pool.toNat ∧ (owesZero → owed < pool.toNat)

def Solvent (vault : RewardVault) : Prop :=
  Covers vault.poolBalance (owed vault.entries) (OwesZero vault.entries)

/-- Claims of these entries, each with its reading. -/
def claims (entries : List (String × Seconds)) : List Call :=
  entries.map fun (entryId, now) => .claimReward entryId now

/-- The outstanding entries can all be claimed, in any order. -/
def Claimable (vault : RewardVault) : Prop :=
  ∀ entries : List (String × Seconds), (entries.map Prod.fst).Nodup →
    (∀ e ∈ entries, ∃ entry, vault.entries.lookup e.1 = some entry ∧ outstanding entry = true) →
    ∀ e ∈ trace step vault (claims entries), e.result = .claimed true

variable {vault : RewardVault} {entryId : String} {entry : RewardVaultEntry}

theorem amount_le_owed {entries : Store String RewardVaultEntry}
    (hlookup : entries.lookup entryId = some entry) (hout : outstanding entry = true) :
    entry.amountLamports.toNat ≤ owed entries := by
  have hle := Store.le_total_of_lookup
    (f := fun entry => if outstanding entry then entry.amountLamports.toNat else 0) hlookup
  rwa [if_pos hout] at hle

/-- What is owed can be paid. -/
theorem payable_of_covers (h : Solvent vault) (hlookup : vault.entries.lookup entryId = some entry)
    (hout : outstanding entry = true) : vault.payable entryId = some entry := by
  have hle := amount_le_owed hlookup hout
  obtain ⟨hclaimed, -⟩ := (Bool.and_eq_true _ _).mp hout
  rw [payable_eq_some_iff]
  refine ⟨hlookup, (Bool.not_eq_true' _).mp hclaimed, ?_, ?_⟩
  · intro hempty
    have hpool : vault.poolBalance.toNat = 0 := by
      rw [hempty]
      rfl
    -- nothing is owed from an empty pool, not even 0
    have hcovers := le_trans hle h.1
    rw [hpool] at hcovers
    have hzero : entry.amountLamports = 0 := UInt64.toNat_inj.mp (Nat.le_zero.mp hcovers)
    have hlt := h.2 ⟨entryId, entry, hlookup, hout, hzero⟩
    omega
  · rw [UInt64.le_iff_toNat_le]
    exact le_trans hle h.1

/-! ### A claim -/

theorem owed_pay (hlookup : vault.entries.lookup entryId = some entry)
    (hout : outstanding entry = true) (now : Seconds) :
    owed (vault.pay entryId entry now).entries + entry.amountLamports.toNat
      = owed vault.entries := by
  have hassign := Store.total_assign_of_lookup
    (fun entry => if outstanding entry then entry.amountLamports.toNat else 0)
    { entry with
      claimed := true
      claimedAt := now
      poolBalanceAfter := some (vault.poolBalance - entry.amountLamports) } hlookup
  rw [if_pos hout] at hassign
  exact hassign

/-- The other outstanding entries stay, and the paid one is not outstanding. -/
theorem outstanding_pay_iff (now : Seconds) {id : String} {other : RewardVaultEntry} :
    ((vault.pay entryId entry now).entries.lookup id = some other ∧ outstanding other = true) ↔
      id ≠ entryId ∧ vault.entries.lookup id = some other ∧ outstanding other = true := by
  rw [pay, Store.lookup_assign]
  by_cases hid : id = entryId
  · rw [if_pos hid]
    refine iff_of_false ?_ fun h => h.1 hid
    rintro ⟨⟨⟩, hout⟩
    cases hout
  · rw [if_neg hid]
    exact (and_iff_right hid).symm

theorem solvent_pay (h : Solvent vault) (hlookup : vault.entries.lookup entryId = some entry)
    (hout : outstanding entry = true) (now : Seconds) :
    Solvent (vault.pay entryId entry now) := by
  have howed := owed_pay hlookup hout now
  have hle := le_trans (amount_le_owed hlookup hout) h.1
  have hpool : (vault.pay entryId entry now).poolBalance.toNat + entry.amountLamports.toNat
      = vault.poolBalance.toNat := by
    rw [add_comm]
    exact Words.toNat_add_toNat_sub (UInt64.le_iff_toNat_le.mpr hle)
  refine ⟨?_, ?_⟩
  · have hcovers := h.1
    omega
  · rintro ⟨id, other, hother, hzero⟩
    obtain ⟨-, hother', hout'⟩ := (outstanding_pay_iff now).mp ⟨hother, hzero.1⟩
    have hstrict := h.2 ⟨id, other, hother', hout', hzero.2⟩
    omega

theorem claimable_of_solvent (h : Solvent vault) : Claimable vault := by
  intro entries
  induction entries generalizing vault with
  | nil =>
    intro _ _ e he
    exact absurd he List.not_mem_nil
  | cons first entries ih =>
    obtain ⟨entryId, now⟩ := first
    intro hids hout
    rw [List.map_cons, List.nodup_cons] at hids
    obtain ⟨entry, hlookup, hentry⟩ := hout (entryId, now) (List.mem_cons_self ..)
    have hclaim := claimReward_of_payable (payable_of_covers h hlookup hentry) now
    have hstep : step vault (.claimReward entryId now)
        = (.claimed true, vault.pay entryId entry now) := by
      rw [step, hclaim]
      rfl
    intro e he
    rcases List.mem_cons.mp he with rfl | he
    · rw [event_result, hstep]
    · -- the rest is owed by the vault after this claim
      rw [hstep] at he
      refine ih (solvent_pay h hlookup hentry now) hids.2 ?_ e he
      intro other hother
      obtain ⟨entry', hlookup', hentry'⟩ := hout other (List.mem_cons_of_mem _ hother)
      refine ⟨entry', (outstanding_pay_iff now).mpr ⟨?_, hlookup', hentry'⟩⟩
      intro hsame
      exact hids.1 (hsame ▸ List.mem_map_of_mem hother)

theorem payable_of_claimable (h : Claimable vault)
    (hlookup : vault.entries.lookup entryId = some entry) (hout : outstanding entry = true) :
    vault.payable entryId = some entry := by
  have hresult := h [(entryId, 0)] (List.nodup_singleton _)
    (fun e he => ⟨entry, by rwa [List.mem_singleton.mp he], hout⟩) _ (List.mem_cons_self ..)
  obtain ⟨id, now, entry', hcall, hpay, -⟩ := step_of_claimed hresult
  cases hcall
  rw [hpay, ← hlookup]
  exact (payable_eq_some_iff.mp hpay).1.symm

theorem claimable_pay (h : Claimable vault) (hlookup : vault.entries.lookup entryId = some entry)
    (hout : outstanding entry = true) (now : Seconds) :
    Claimable (vault.pay entryId entry now) := by
  intro entries hids hentries e he
  have hpay := payable_of_claimable h hlookup hout
  have hstep : (step vault (.claimReward entryId now)).2 = vault.pay entryId entry now := by
    rw [step, claimReward_of_payable hpay]
    rfl
  -- claim this entry first, and then the others
  refine h ((entryId, now) :: entries) ?_ ?_ e ?_
  · rw [List.map_cons, List.nodup_cons]
    refine ⟨?_, hids⟩
    intro hmem
    obtain ⟨other, hother, hsame⟩ := List.mem_map.mp hmem
    obtain ⟨entry', hentry'⟩ := hentries other hother
    exact ((outstanding_pay_iff now).mp hentry').1 hsame
  · intro other hother
    rcases List.mem_cons.mp hother with rfl | hother
    · exact ⟨entry, hlookup, hout⟩
    · obtain ⟨entry', hentry'⟩ := hentries other hother
      exact ⟨entry', ((outstanding_pay_iff now).mp hentry').2⟩
  · refine List.mem_cons_of_mem _ ?_
    rw [hstep]
    exact he

theorem owed_eq_zero {entries : Store String RewardVaultEntry}
    (h : ∀ id entry, entries.lookup id = some entry → outstanding entry = true →
      entry.amountLamports = 0) : owed entries = 0 := by
  have hnone : owed entries = Store.total (fun _ => 0) entries := by
    refine Store.total_congr ?_
    intro id entry hlookup
    by_cases hout : outstanding entry = true
    · rw [if_pos hout, h id entry hlookup hout]
      rfl
    · rw [if_neg hout]
  rw [hnone, Store.total, List.map_const', List.sum_replicate_nat, mul_zero]

theorem solvent_of_claimable (h : Claimable vault) : Solvent vault := by
  -- pay the entries one after the other, those of amount 0 last
  induction hamount : owed vault.entries using Nat.strong_induction_on generalizing vault with
  | h amount ih =>
    by_cases hpositive : ∃ id entry, vault.entries.lookup id = some entry ∧
        outstanding entry = true ∧ entry.amountLamports ≠ 0
    · obtain ⟨id, entry, hlookup, hout, hne⟩ := hpositive
      have howed := owed_pay hlookup hout 0
      have hle := UInt64.le_iff_toNat_le.mp
        (payable_eq_some_iff.mp (payable_of_claimable h hlookup hout)).2.2.2
      have hpool : (vault.pay id entry 0).poolBalance.toNat + entry.amountLamports.toNat
          = vault.poolBalance.toNat := by
        rw [add_comm]
        exact Words.toNat_add_toNat_sub (UInt64.le_iff_toNat_le.mpr hle)
      have hpos : entry.amountLamports.toNat ≠ 0 := fun hzero => hne (UInt64.toNat_inj.mp hzero)
      have hpaid : Solvent (vault.pay id entry 0) :=
        ih _ (by omega) (claimable_pay h hlookup hout 0) rfl
      refine ⟨?_, ?_⟩
      · have hcovers := hpaid.1
        omega
      · rintro ⟨zeroId, zero, hzero, hzeroOut, hzeroAmount⟩
        -- the entry of amount 0 is still outstanding after this payment
        have hne' : zeroId ≠ id := by
          rintro rfl
          obtain rfl : entry = zero := Option.some.inj (hlookup.symm.trans hzero)
          exact hne hzeroAmount
        obtain ⟨hzero', hzeroOut'⟩ := (outstanding_pay_iff 0).mpr ⟨hne', hzero, hzeroOut⟩
        have hstrict := hpaid.2 ⟨zeroId, zero, hzero', hzeroOut', hzeroAmount⟩
        omega
    · have hzero : owed vault.entries = 0 := by
        refine owed_eq_zero ?_
        intro id entry hlookup hout
        by_contra hne
        exact hpositive ⟨id, entry, hlookup, hout, hne⟩
      refine ⟨by omega, ?_⟩
      rintro ⟨id, entry, hlookup, hout, -⟩
      have hpool := (payable_eq_some_iff.mp (payable_of_claimable h hlookup hout)).2.2.1
      rw [hzero]
      exact Nat.pos_of_ne_zero fun hempty => hpool (UInt64.toNat_inj.mp hempty)

/-- What is owed can be claimed in any order exactly if the balance covers it. -/
theorem claimable_iff_solvent (vault : RewardVault) : Claimable vault ↔ Solvent vault :=
  ⟨solvent_of_claimable, claimable_of_solvent⟩

/-! ### Runs -/

/-- A creation leaves the balance covering its amount and what is owed to the other
entries, and a deposit that passes its guard does not wrap below what is owed. -/
def KeepsCover (vault : RewardVault) : Call → Prop
  | .depositToPool amount _ =>
    vault.poolBalance + amount ≤ maxPoolBalance →
      Covers (vault.poolBalance + amount) (owed vault.entries) (OwesZero vault.entries)
  | .createRewardEntry worker _ amount _ dailyNow idNow _ =>
    vault.PassesChecks worker amount dailyNow →
      let others := vault.entries.erase (rewardEntryId worker idNow)
      Covers vault.poolBalance (owed others + amount.toNat) (amount = 0 ∨ OwesZero others)
  | _ => True

theorem owed_assign {entry : RewardVaultEntry} (hout : outstanding entry = true)
    (entries : Store String RewardVaultEntry) (id : String) :
    owed (entries.assign id entry) = owed (entries.erase id) + entry.amountLamports.toNat := by
  have hassign := Store.total_assign_erase
    (fun entry => if outstanding entry then entry.amountLamports.toNat else 0) entries id entry
  rwa [if_pos hout] at hassign

theorem owesZero_assign_iff {entry : RewardVaultEntry} (hout : outstanding entry = true)
    (entries : Store String RewardVaultEntry) (id : String) :
    OwesZero (entries.assign id entry) ↔
      entry.amountLamports = 0 ∨ OwesZero (entries.erase id) := by
  constructor
  · rintro ⟨id', entry', hlookup, hout', hzero⟩
    by_cases hid : id' = id
    · rw [hid, Store.lookup_assign_self, Option.some_inj] at hlookup
      left
      rw [hlookup, hzero]
    · rw [Store.lookup_assign_ne _ _ hid, ← AList.lookup_erase_ne hid] at hlookup
      exact .inr ⟨id', entry', hlookup, hout', hzero⟩
  · rintro (hzero | ⟨id', entry', hlookup, hout', hzero⟩)
    · exact ⟨id, entry, Store.lookup_assign_self .., hout, hzero⟩
    · have hid : id' ≠ id := by
        rintro rfl
        rw [AList.lookup_erase] at hlookup
        cases hlookup
      rw [AList.lookup_erase_ne hid] at hlookup
      refine ⟨id', entry', ?_, hout', hzero⟩
      rw [Store.lookup_assign_ne _ _ hid, hlookup]

/-- Every entry was marked as payable when it was created. -/
def AllMarked (entries : Store String RewardVaultEntry) : Prop :=
  ∀ id entry, entries.lookup id = some entry → entry.payoutPossible = true

theorem allMarked_assign {entries : Store String RewardVaultEntry} {id : String}
    {entry : RewardVaultEntry} (h : AllMarked entries) (hentry : entry.payoutPossible = true) :
    AllMarked (entries.assign id entry) := by
  intro id' entry' hlookup
  rcases Store.of_lookup_assign hlookup with ⟨-, rfl⟩ | hold
  · exact hentry
  · exact h id' entry' hold

theorem allMarked_step (vault : RewardVault) (c : Call) (h : AllMarked vault.entries) :
    AllMarked (step vault c).2.entries := by
  rcases step_cases vault c with ⟨hsame, _⟩ | ⟨amount, source, rfl, _, hdeposit⟩ |
    ⟨worker, receipt, amount, source, dailyNow, idNow, stampNow, rfl, _, hcreate⟩ |
    ⟨entryId, now, entry, rfl, hpay, _, hclaim⟩
  · rwa [hsame]
  · rwa [hdeposit]
  · rw [hcreate]
    exact allMarked_assign h rfl
  · -- the paid entry keeps its mark
    rw [hclaim]
    have hentry := h entryId entry (payable_eq_some_iff.mp hpay).1
    exact allMarked_assign h hentry

theorem allMarked_final (initial : UInt64) (calls : List Call) :
    AllMarked (final step (new initial) calls).entries := by
  have h0 : AllMarked (new initial).entries := fun _ _ h => absurd h (by simp [new])
  exact final_invariant allMarked_step h0 calls

/-- An operation keeps what is owed covered exactly if it keeps the cover. -/
theorem solvent_step_iff (hmarked : AllMarked vault.entries) (h : Solvent vault) (c : Call) :
    Solvent (step vault c).2 ↔ KeepsCover vault c := by
  cases c with
  | depositToPool amount source =>
    rcases step_depositToPool vault amount source with ⟨-, hafter, hguard⟩ | ⟨hsame, hguard⟩
    · have hcovers : KeepsCover vault (.depositToPool amount source) ↔
          Covers (vault.poolBalance + amount) (owed vault.entries) (OwesZero vault.entries) :=
        forall_prop_of_true hguard
      rw [hafter, hcovers]
      rfl
    · rw [hsame]
      exact iff_of_true h fun hguard' => absurd hguard' hguard
  | createRewardEntry worker receipt amount source dailyNow idNow stampNow =>
    by_cases hpasses : vault.PassesChecks worker amount dailyNow
    · have hout : outstanding (vault.newEntry worker receipt amount source idNow stampNow) = true :=
        rfl
      have hcovers : KeepsCover vault
          (.createRewardEntry worker receipt amount source dailyNow idNow stampNow) ↔
          Covers vault.poolBalance _ _ := forall_prop_of_true hpasses
      rw [step_createRewardEntry_of_passesChecks hpasses, hcovers, Solvent, owed_assign hout,
        owesZero_assign_iff hout]
      rfl
    · rw [step, createRewardEntry_of_not_passesChecks hpasses]
      exact iff_of_true h fun hpasses' => absurd hpasses' hpasses
  | claimReward entryId now =>
    refine iff_of_true ?_ trivial
    rcases step_cases vault (.claimReward entryId now) with ⟨hsame, _⟩ | ⟨_, _, ⟨⟩, _⟩ |
      ⟨_, _, _, _, _, _, _, ⟨⟩, _⟩ | ⟨id, now', entry, hcall, hpay, _, hclaim⟩
    · rwa [hsame]
    · obtain ⟨hlookup, hclaimed, -⟩ := payable_eq_some_iff.mp hpay
      have hout : outstanding entry = true := by
        rw [outstanding, hclaimed, hmarked id entry hlookup]
        rfl
      rw [hclaim]
      exact solvent_pay h hlookup hout now'
  | _ => exact iff_of_true h trivial

/-- In every state of a run what is owed can be claimed in any order, exactly if every
operation keeps the cover. -/
theorem claimable_iff_keepsCover (initial : UInt64) (calls : List Call) :
    (∀ pre, pre <+: calls → Claimable (final step (new initial) pre)) ↔
      Each step KeepsCover (new initial) calls := by
  have h0 : Solvent (new initial) := by
    refine ⟨Nat.zero_le _, ?_⟩
    rintro ⟨id, entry, hlookup, -⟩
    cases hlookup
  simp only [claimable_iff_solvent]
  refine forall_final_iff h0 ?_
  intro pre c h
  exact solvent_step_iff (allMarked_final initial pre) h c

/-- Two rewards of a pool that holds one. -/
def twoRewards : List Call :=
  [.createRewardEntry "worker" "r1" 1000000000 "inference" 0 0 0,
    .createRewardEntry "worker" "r2" 1000000000 "inference" 1 1 1]

theorem not_forall_claimable :
    ¬ ∀ initial calls, Claimable (final step (new initial) calls) := by
  intro h
  have hcovers := (solvent_of_claimable (h 1000000000 twoRewards)).1
  revert hcovers
  decide +kernel

end RewardVault

end Membra
