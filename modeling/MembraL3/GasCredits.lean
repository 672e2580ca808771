/-
Gas credits across staking and vault.

A `CreditSystem` is a staking system with the one vault that consumes its
allowances.  Each stake is granted credits once and its allowance only pays for
gas, so what is missing from the allowances is what the vault counts as paid by
compute.

* `step_cases` — what a call does to the stakes and to that counter;
* `tracks_step` — allowances, grants and the counter are the columns of an account;
* `Later` — the order in which one stake's allowance changes;
* `gasCredits_conserved` — the credits of every run with distinct stake ids.
-/
import MembraL3.GasVault
import MembraL3.StakingRuns

namespace Membra

structure CreditSystem where
  vault : GasVault
  staking : ComputeStaking

namespace CreditSystem

open Runs Account ComputeStaking

/-- A fresh vault with a fresh staking system. -/
def new (initialSolLamports : UInt64) : CreditSystem where
  vault := GasVault.new initialSolLamports
  staking := ComputeStaking.new

inductive Call where
  | depositSol (amountLamports : UInt64) (source : String)
  | payGas (userAddress : String) (gasLamports : UInt64)
  | stakeCompute (stakerAddress : String) (cpuCores ramGb computeUnits : UInt64)
      (idNow stampNow : Seconds)
  | unstakeCompute (stakeId : String) (durationNow stampNow : Seconds)

inductive Reply where
  | done
  | paid (ok : Bool)
  | staked (stakeId : String) (creditGrant : UInt64)
  | unstaked (additionalCredits : Option UInt64)

/-- The vault and the staking system it points to. -/
def toGasSystem (sys : CreditSystem) : GasSystem := ⟨sys.vault, some sys.staking⟩

def step (order : MapOrder) (arith : Doubles) (sys : CreditSystem) : Call → Reply × CreditSystem
  | .depositSol amount source => (.done, { sys with vault := sys.vault.depositSol amount source })
  | .payGas user gas =>
    let (ok, vault, staking) := sys.vault.payGas order (some sys.staking) user gas
    (.paid ok, ⟨vault, staking.getD sys.staking⟩)
  | .stakeCompute staker cores ram units idNow stampNow =>
    let ((stakeId, grant), staking) :=
      sys.staking.stakeCompute staker cores ram units idNow stampNow
    (.staked stakeId grant, { sys with staking := staking })
  | .unstakeCompute stakeId durationNow stampNow =>
    let (credits, staking) := sys.staking.unstakeCompute arith stakeId durationNow stampNow
    (.unstaked credits, { sys with staking := staking })

/-! ### What a call does -/

/-- A call leaves stakes and counter alone, adds a stake, closes an active stake, or
takes gas from the allowance of an active stake. -/
theorem step_cases (order : MapOrder) (arith : Doubles) (sys : CreditSystem) (c : Call) :
    ((step order arith sys c).2.staking.stakes = sys.staking.stakes ∧
      (step order arith sys c).2.vault.gasPaidByCompute = sys.vault.gasPaidByCompute) ∨
    (∃ staker cores ram units idNow stampNow,
      c = .stakeCompute staker cores ram units idNow stampNow ∧
      (step order arith sys c).2.staking.stakes
        = sys.staking.stakes.assign (computeStakeId staker idNow)
          (newStake staker cores ram units idNow stampNow) ∧
      (step order arith sys c).2.vault.gasPaidByCompute = sys.vault.gasPaidByCompute) ∨
    (∃ id stake credits stampNow, sys.staking.stakes.lookup id = some stake ∧
      stake.active = true ∧
      (step order arith sys c).2.staking.stakes
        = sys.staking.stakes.assign id (stake.unstaked credits stampNow) ∧
      (step order arith sys c).2.vault.gasPaidByCompute = sys.vault.gasPaidByCompute) ∨
    (∃ id stake gas, sys.staking.stakes.lookup id = some stake ∧ stake.active = true ∧
      gas ≤ stake.gasCreditAllowance ∧
      (step order arith sys c).2.staking.stakes = sys.staking.stakes.assign id (stake.charged gas) ∧
      (step order arith sys c).2.vault.gasPaidByCompute = sys.vault.gasPaidByCompute + gas) := by
  cases c with
  | depositSol amount source => exact .inl ⟨rfl, rfl⟩
  | stakeCompute staker cores ram units idNow stampNow =>
    exact .inr (.inl ⟨staker, cores, ram, units, idNow, stampNow, rfl, rfl, rfl⟩)
  | unstakeCompute stakeId durationNow stampNow =>
    rcases unstakeCompute_cases arith sys.staking stakeId durationNow stampNow with
      h | ⟨stake, credits, hlookup, hactive, _, h⟩
    · left
      simp only [step, h]
      exact ⟨trivial, trivial⟩
    · refine .inr (.inr (.inl ⟨stakeId, stake, credits, stampNow, hlookup, hactive, ?_⟩))
      simp only [step, h]
      exact ⟨trivial, trivial⟩
  | payGas user gas =>
    -- the payment is that of the vault with this staking system attached
    have hvault : (step order arith sys (.payGas user gas)).2.vault
        = (GasSystem.step order sys.toGasSystem (.payGas user gas)).2.vault := rfl
    have hstakes : (step order arith sys (.payGas user gas)).2.staking
        = (GasSystem.step order sys.toGasSystem (.payGas user gas)).2.staking.getD sys.staking :=
      rfl
    rw [hvault, hstakes]
    rcases GasSystem.step_payGas_cases order sys.toGasSystem user gas with
      ⟨_, hsame⟩ | ⟨_, _, hstake⟩ | ⟨_, _, hreserves⟩
    · left
      rw [hsame.staking]
      exact ⟨rfl, hsame.gasPaidByCompute⟩
    · obtain ⟨staking, id, stake, hstaking, hlookup, _, hactive, hgas, htaken⟩ := hstake.taken
      obtain rfl : sys.staking = staking := Option.some.inj hstaking
      refine .inr (.inr (.inr ⟨id, stake, gas, hlookup, hactive,
        UInt64.le_iff_toNat_le.mpr hgas, ?_, hstake.gasPaidByCompute⟩))
      rw [htaken]
      rfl
    · left
      rw [hreserves.staking]
      exact ⟨rfl, hreserves.gasPaidByCompute⟩

/-- What a call asks of the staking system: a payment asks it for an allowance. -/
def stakingCall : Call → Option ComputeStaking.Call
  | .depositSol _ _ => none
  | .payGas user gas => some (.consumeGasAllowance user gas)
  | .stakeCompute staker cores ram units idNow stampNow =>
    some (.stakeCompute staker cores ram units idNow stampNow)
  | .unstakeCompute stakeId durationNow stampNow =>
    some (.unstakeCompute stakeId durationNow stampNow)

/-- A call does to the staking system what it asks of it, or nothing (a payment above
the rate limit). -/
theorem staking_step (order : MapOrder) (arith : Doubles) (sys : CreditSystem) (c : Call) :
    (step order arith sys c).2.staking = sys.staking ∨
    ∃ c', stakingCall c = some c' ∧ (step order arith sys c).2.staking
      = (ComputeStaking.step order arith sys.staking c').2 := by
  cases c with
  | depositSol amount source => exact .inl rfl
  | stakeCompute staker cores ram units idNow stampNow => exact .inr ⟨_, rfl, rfl⟩
  | unstakeCompute stakeId durationNow stampNow => exact .inr ⟨_, rfl, rfl⟩
  | payGas user gas =>
    have hstaking : (step order arith sys (.payGas user gas)).2.staking
        = (sys.vault.payGas order (some sys.staking) user gas).2.2.getD sys.staking := rfl
    rw [hstaking]
    rcases GasSystem.payGas_staking order sys.vault (some sys.staking) user gas with hsame | hasks
    · left
      rw [hsame]
      rfl
    · refine .inr ⟨_, rfl, ?_⟩
      rw [hasks]
      rfl

/-! ### Distinct ids -/

/-- A new stake does not overwrite another. -/
def Fresh (sys : CreditSystem) (c : Call) : Prop :=
  ∀ c', stakingCall c = some c' → ComputeStaking.Fresh sys.staking c'

theorem Fresh.lookup_eq_none {sys : CreditSystem} {staker : String}
    {cores ram units : UInt64} {idNow stampNow : Seconds}
    (h : Fresh sys (.stakeCompute staker cores ram units idNow stampNow)) :
    sys.staking.stakes.lookup (computeStakeId staker idNow) = none :=
  AList.lookup_eq_none.mpr (h _ rfl _ rfl)

/-- The ids that the stakes of a run get, in order. -/
def stakeIds (calls : List Call) : List String :=
  ComputeStaking.stakeIds (calls.filterMap stakingCall)

/-- The id that a call gives to a stake. -/
def stakedId (c : Call) : Option String := (stakingCall c).bind ComputeStaking.stakedId

/-- Every stored stake was stored before the call, or the call added it. -/
theorem mem_stakes_step (order : MapOrder) (arith : Doubles) (sys : CreditSystem) (c : Call)
    (id : String) (h : id ∈ (step order arith sys c).2.staking.stakes) :
    id ∈ sys.staking.stakes ∨ stakedId c = some id := by
  rcases staking_step order arith sys c with hsame | ⟨c', hcall, hstep⟩
  · rw [hsame] at h
    exact .inl h
  · rw [hstep] at h
    rw [stakedId, hcall]
    exact ComputeStaking.mem_stakes_step order arith sys.staking c' id h

theorem each_fresh (order : MapOrder) (arith : Doubles) (initial : UInt64) {calls : List Call}
    (hids : (stakeIds calls).Nodup) : Each (step order arith) Fresh (new initial) calls := by
  have hissued : ((trace (step order arith) (new initial) calls).filterMap
      fun e => stakedId e.call).Nodup := by
    rw [filterMap_call_trace]
    rw [stakeIds, ComputeStaking.stakeIds, List.filterMap_filterMap] at hids
    exact hids
  have hnew : ∀ id, id ∉ (new initial).staking.stakes := fun id => AList.notMem_empty id
  have hfresh := each_fresh_of_nodup (fun sys id => id ∈ sys.staking.stakes)
    (fun e => stakedId e.call) (mem_stakes_step order arith) hnew hissued
  refine hfresh.imp ?_
  intro sys c hnot c' hcall id hid
  refine hnot id ?_
  show (stakingCall c).bind ComputeStaking.stakedId = some id
  rw [hcall]
  exact hid

/-! ### The account -/

/-- Allowances, grants and the gas paid by compute are the columns of an account. -/
def Balanced (sys : CreditSystem) : Prop :=
  ∃ a : Account UInt64, Tracks (Store.total (·.gasCreditAllowance) sys.staking.stakes)
    (Store.total (·.instantCreditGrant) sys.staking.stakes) sys.vault.gasPaidByCompute a

theorem balanced_step (order : MapOrder) (arith : Doubles) (sys : CreditSystem) (c : Call)
    (h : Balanced sys) (hfresh : Fresh sys c) : Balanced (step order arith sys c).2 := by
  obtain ⟨a, ha⟩ := h
  rw [Balanced]
  rcases step_cases order arith sys c with ⟨hsame, hpaid⟩ |
    ⟨staker, cores, ram, units, idNow, stampNow, rfl, hnew, hpaid⟩ |
    ⟨id, stake, credits, stampNow, hlookup, _, hclosed, hpaid⟩ |
    ⟨id, stake, gas, hlookup, _, _, htaken, hpaid⟩
  · rw [hsame, hpaid]
    exact ⟨a, ha⟩
  · -- a new stake: its allowance is its grant
    refine ⟨a.post (.receive (cores * creditGrantPerCore)), ?_⟩
    rw [hnew, hpaid, Store.total_assign_new _ _ hfresh.lookup_eq_none,
      Store.total_assign_new _ _ hfresh.lookup_eq_none,
      add_comm, add_comm (ComputeStake.instantCreditGrant _)]
    exact ha.receive (cores * creditGrantPerCore)
  · -- unstaking touches neither
    have hallowance := Store.total_assign_eq (·.gasCreditAllowance) hlookup
      (show (stake.unstaked credits stampNow).gasCreditAllowance = _ from rfl)
    have hgrant := Store.total_assign_eq (·.instantCreditGrant) hlookup
      (show (stake.unstaked credits stampNow).instantCreditGrant = _ from rfl)
    refine ⟨a, ?_⟩
    rw [hclosed, hpaid, hallowance, hgrant]
    exact ha
  · -- the allowance pays what the counter counts
    have hallowance : Store.total (·.gasCreditAllowance)
        (sys.staking.stakes.assign id (stake.charged gas))
          = Store.total (·.gasCreditAllowance) sys.staking.stakes - gas := by
      have hsum := Store.total_assign_of_lookup (·.gasCreditAllowance) (stake.charged gas) hlookup
      have hcharged : (stake.charged gas).gasCreditAllowance = stake.gasCreditAllowance - gas := rfl
      rw [hcharged, ← add_sub_assoc, add_sub_right_comm] at hsum
      exact add_right_cancel hsum
    have hgrant := Store.total_assign_eq (·.instantCreditGrant) hlookup
      (show (stake.charged gas).instantCreditGrant = _ from rfl)
    refine ⟨a.post (.pay gas), ?_⟩
    rw [htaken, hpaid, hallowance, hgrant]
    exact ha.pay gas

/-- What is missing from the allowances is what compute has paid. -/
theorem Balanced.total_spent {sys : CreditSystem} (h : Balanced sys) :
    Store.total (fun stake => stake.instantCreditGrant - stake.gasCreditAllowance)
      sys.staking.stakes = sys.vault.gasPaidByCompute := by
  obtain ⟨a, ha⟩ := h
  have hsplit := Store.total_add
    (fun stake : ComputeStake => stake.instantCreditGrant - stake.gasCreditAllowance)
    (·.gasCreditAllowance) sys.staking.stakes
  simp only [sub_add_cancel] at hsplit
  have hbalanced := ha.balanced
  rw [hsplit, add_comm] at hbalanced
  exact (add_right_cancel hbalanced).symm

/-! ### Single stakes -/

/-- Every allowance is within its grant. -/
def WithinGrant (sys : CreditSystem) : Prop :=
  ∀ id stake, sys.staking.stakes.lookup id = some stake →
    stake.gasCreditAllowance ≤ stake.instantCreditGrant

theorem charged_le {stake : ComputeStake} {gas : UInt64} (h : gas ≤ stake.gasCreditAllowance) :
    (stake.charged gas).gasCreditAllowance ≤ stake.gasCreditAllowance := by
  have hcharged : (stake.charged gas).gasCreditAllowance = stake.gasCreditAllowance - gas := rfl
  have hexact := Words.toNat_add_toNat_sub h
  rw [hcharged, UInt64.le_iff_toNat_le]
  omega

theorem withinGrant_assign {stakes : Store String ComputeStake} {id : String} {stake : ComputeStake}
    (h : ∀ id stake, stakes.lookup id = some stake →
      stake.gasCreditAllowance ≤ stake.instantCreditGrant)
    (hstake : stake.gasCreditAllowance ≤ stake.instantCreditGrant) (id' : String)
    (stake' : ComputeStake) (hlookup : (stakes.assign id stake).lookup id' = some stake') :
    stake'.gasCreditAllowance ≤ stake'.instantCreditGrant := by
  rw [Store.lookup_assign] at hlookup
  by_cases hid : id' = id
  · rw [if_pos hid, Option.some_inj] at hlookup
    rwa [← hlookup]
  · rw [if_neg hid] at hlookup
    exact h id' stake' hlookup

theorem withinGrant_step (order : MapOrder) (arith : Doubles) (sys : CreditSystem) (c : Call)
    (h : WithinGrant sys) : WithinGrant (step order arith sys c).2 := by
  rw [WithinGrant]
  rcases step_cases order arith sys c with ⟨hsame, _⟩ |
    ⟨staker, cores, ram, units, idNow, stampNow, rfl, hnew, _⟩ |
    ⟨id, stake, credits, stampNow, hlookup, _, hclosed, _⟩ |
    ⟨id, stake, gas, hlookup, _, hgas, htaken, _⟩
  · rw [hsame]
    exact h
  · -- both are ten SOL-equivalents for each core
    rw [hnew]
    exact withinGrant_assign h (UInt64.le_refl _)
  · rw [hclosed]
    exact withinGrant_assign h (h id stake hlookup)
  · rw [htaken]
    exact withinGrant_assign h (UInt64.le_trans (charged_le hgas) (h id stake hlookup))

/-- From the first system to the second no stake's allowance has grown, and those of
unstaked ones are the same. -/
def Later (sys sys' : CreditSystem) : Prop :=
  ∀ id stake, sys.staking.stakes.lookup id = some stake →
    ∃ stake', sys'.staking.stakes.lookup id = some stake' ∧
      stake'.gasCreditAllowance ≤ stake.gasCreditAllowance ∧
      (stake.active = false →
        stake'.active = false ∧ stake'.gasCreditAllowance = stake.gasCreditAllowance)

theorem Later.refl (sys : CreditSystem) : Later sys sys :=
  fun _ stake h => ⟨stake, h, UInt64.le_refl _, fun hactive => ⟨hactive, rfl⟩⟩

theorem Later.trans (s t u : CreditSystem) (hst : Later s t) (htu : Later t u) : Later s u := by
  intro id stake h
  obtain ⟨stake', h', hle, hclosed⟩ := hst id stake h
  obtain ⟨stake'', h'', hle', hclosed'⟩ := htu id stake' h'
  refine ⟨stake'', h'', UInt64.le_trans hle' hle, ?_⟩
  intro hactive
  obtain ⟨hactive', hsame⟩ := hclosed hactive
  obtain ⟨hactive'', hsame'⟩ := hclosed' hactive'
  exact ⟨hactive'', hsame'.trans hsame⟩

/-- Overwriting an active stake without raising its allowance. -/
theorem later_assign {sys sys' : CreditSystem} {id : String} {stake new : ComputeStake}
    (hlookup : sys.staking.stakes.lookup id = some stake) (hactive : stake.active = true)
    (hle : new.gasCreditAllowance ≤ stake.gasCreditAllowance)
    (hassign : sys'.staking.stakes = sys.staking.stakes.assign id new) : Later sys sys' := by
  intro id' stake' h'
  rw [hassign, Store.lookup_assign]
  by_cases hid : id' = id
  · subst hid
    obtain rfl : stake = stake' := Option.some.inj (hlookup.symm.trans h')
    refine ⟨new, if_pos rfl, hle, ?_⟩
    intro hclosed
    rw [hactive] at hclosed
    exact absurd hclosed (by decide)
  · rw [if_neg hid]
    exact ⟨stake', h', UInt64.le_refl _, fun hclosed => ⟨hclosed, rfl⟩⟩

theorem later_step (order : MapOrder) (arith : Doubles) (sys : CreditSystem) (c : Call)
    (hfresh : Fresh sys c) : Later sys (step order arith sys c).2 := by
  rcases step_cases order arith sys c with ⟨hsame, _⟩ |
    ⟨staker, cores, ram, units, idNow, stampNow, rfl, hnew, _⟩ |
    ⟨id, stake, credits, stampNow, hlookup, hactive, hclosed, _⟩ |
    ⟨id, stake, gas, hlookup, hactive, hgas, htaken, _⟩
  · intro id stake h
    rw [hsame]
    exact ⟨stake, h, UInt64.le_refl _, fun hactive => ⟨hactive, rfl⟩⟩
  · intro id stake h
    have hne : id ≠ computeStakeId staker idNow := by
      rintro rfl
      exact absurd (h.symm.trans hfresh.lookup_eq_none) (Option.some_ne_none stake)
    rw [hnew, Store.lookup_assign_ne _ _ hne]
    exact ⟨stake, h, UInt64.le_refl _, fun hactive => ⟨hactive, rfl⟩⟩
  · have hle : (stake.unstaked credits stampNow).gasCreditAllowance ≤ stake.gasCreditAllowance :=
      UInt64.le_refl _
    exact later_assign hlookup hactive hle hclosed
  · exact later_assign hlookup hactive (charged_le hgas) htaken

/-! ### Conservation -/

/-- In every run with distinct stake ids the credits missing from the allowances
are those that compute has paid, no allowance exceeds its grant or grows, and that
of an unstaked stake stays the same. -/
theorem gasCredits_conserved (order : MapOrder) (arith : Doubles) (initial : UInt64)
    (calls : List Call) (hids : (stakeIds calls).Nodup) :
    let sys := final (step order arith) (new initial) calls
    Store.total (fun stake => stake.instantCreditGrant - stake.gasCreditAllowance)
      sys.staking.stakes = sys.vault.gasPaidByCompute ∧
    (∀ id stake, sys.staking.stakes.lookup id = some stake →
      stake.gasCreditAllowance ≤ stake.instantCreditGrant) ∧
    (∀ pre mid post, calls = pre ++ mid ++ post → ∀ id stake,
      (final (step order arith) (new initial) pre).staking.stakes.lookup id = some stake →
      ∃ stake', (final (step order arith) (new initial) (pre ++ mid)).staking.stakes.lookup id
          = some stake' ∧
        stake'.gasCreditAllowance ≤ stake.gasCreditAllowance ∧
        (stake.active = false → stake'.gasCreditAllowance = stake.gasCreditAllowance)) := by
  intro sys
  have hfresh := each_fresh order arith initial hids
  refine ⟨?_, ?_, ?_⟩
  · have h0 : Balanced (new initial) := ⟨Account.opened 0, rfl, rfl, rfl⟩
    exact (final_induction (balanced_step order arith) h0 hfresh).total_spent
  · have h0 : WithinGrant (new initial) := fun _ _ h => absurd h (by simp [new, ComputeStaking.new])
    exact final_invariant (withinGrant_step order arith) h0 calls
  · rintro pre mid post rfl id stake h
    have hmid := hfresh.between (List.prefix_append (pre ++ mid) post)
    have hlater : Later (final (step order arith) (new initial) pre)
        (final (step order arith) (new initial) (pre ++ mid)) := by
      rw [final_append]
      exact final_rel Later.refl Later.trans (later_step order arith) hmid
    obtain ⟨stake', h', hle, hclosed⟩ := hlater id stake h
    exact ⟨stake', h', hle, fun hactive => (hclosed hactive).2⟩

/-- Two stakers, a payment of each and an unstaking. -/
def stakeAndPay : List Call :=
  [.stakeCompute "alice" 2 4 100 0 0, .stakeCompute "bob" 1 4 100 1 1, .payGas "alice" 5000,
    .payGas "bob" 7000, .unstakeCompute (computeStakeId "alice" 0) 3600 3600]

theorem gasCredits_conserved_stakeAndPay :
    (final (step newestFirst (.exact .wrapping)) (new 0) stakeAndPay).vault.gasPaidByCompute
      = 12000 ∧
    Store.total (fun stake => stake.instantCreditGrant - stake.gasCreditAllowance)
        (final (step newestFirst (.exact .wrapping)) (new 0) stakeAndPay).staking.stakes
      = (final (step newestFirst (.exact .wrapping)) (new 0) stakeAndPay).vault.gasPaidByCompute :=
  ⟨by decide +kernel,
    (gasCredits_conserved newestFirst (.exact .wrapping) 0 stakeAndPay (by decide +kernel)).1⟩

end CreditSystem

end Membra
