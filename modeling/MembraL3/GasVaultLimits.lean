/-
What the gas vault pays, and for whom.

A payment succeeds for a user below the rate limit whose gas a stake of that user or the
reserves cover (`payGas_eq_true_iff`).

* `txCount_final` — the counter of the rate limit counts the successful payments;
* `rateLimited_iff` — nobody gets more than a thousand, exactly while no user with a
  thousand could pay once more;
* `coverageAgrees_iff` — when the coverage check says what payments do.
-/
import MembraL3.GasCredits
import Mathlib.Data.Fintype.EquivFin

namespace Membra

namespace GasSystem

open Runs

/-! ### Payments -/

/-- `user_tx_counts_[user]`, as a value. -/
def txCount (sys : GasSystem) (user : String) : UInt64 :=
  (sys.vault.userTxCounts.lookup user).getD 0

/-- The user is not rate limited. -/
def BelowLimit (sys : GasSystem) (user : String) : Prop := sys.txCount user ≤ 1000

/-- A stake of the user covers the gas. -/
def HasAllowance (sys : GasSystem) (user : String) (gas : UInt64) : Prop :=
  ∃ staking, sys.staking = some staking ∧ staking.CanConsume user gas

/-- A stake of the user or the reserves cover the gas. -/
def CanPay (sys : GasSystem) (user : String) (gas : UInt64) : Prop :=
  sys.HasAllowance user gas ∨ gas ≤ sys.vault.solReserves

variable {order : MapOrder} {sys : GasSystem} {user : String} {gas : UInt64}

theorem belowLimit_iff : sys.BelowLimit user ↔ (sys.txCount user).toNat ≤ 1000 :=
  UInt64.le_iff_toNat_le

theorem coveredByStake_iff (order : MapOrder) (sys : GasSystem) (user : String) (gas : UInt64) :
    coveredByStake order sys user gas = true ↔ sys.HasAllowance user gas := by
  rw [coveredByStake, HasAllowance]
  cases hstaking : sys.staking with
  | none => simp [GasVault.consumeAttached]
  | some staking =>
    show (staking.consumeGasAllowance order user gas).1 = true ↔ _
    rw [ComputeStaking.consumeGasAllowance_eq_true_iff]
    simp

/-- A payment of a user below the rate limit succeeds if a stake of that user or the
reserves cover it, and then counts; all other payments fail and do not. -/
theorem payGas_cases (order : MapOrder) (sys : GasSystem) (user : String) (gas : UInt64) :
    ((sys.BelowLimit user ∧ sys.CanPay user gas) ∧
      (step order sys (.payGas user gas)).1 = .paid true ∧
      (step order sys (.payGas user gas)).2.vault.userTxCounts
        = (sys.vault.userTxCounts.assign user (sys.txCount user)).assign user
            (sys.txCount user + 1)) ∨
    (¬ (sys.BelowLimit user ∧ sys.CanPay user gas) ∧
      (step order sys (.payGas user gas)).1 = .paid false ∧
      (step order sys (.payGas user gas)).2.vault.userTxCounts
        = sys.vault.userTxCounts.assign user (sys.txCount user)) := by
  by_cases hlimit : (sys.vault.userTxCounts.lookup user).getD 0 > 1000
  · right
    refine ⟨fun h => UInt64.not_le.mpr hlimit h.1, ?_⟩
    simp only [step, GasVault.payGas, hlimit, if_true]
    exact ⟨trivial, rfl⟩
  have hbelow : sys.BelowLimit user := UInt64.not_lt.mp hlimit
  cases hcovered : coveredByStake order sys user gas with
  | true =>
    have hconsumed : (GasVault.consumeAttached order sys.staking user gas).1 = true := hcovered
    left
    refine ⟨⟨hbelow, .inl ((coveredByStake_iff order sys user gas).mp hcovered)⟩, ?_⟩
    simp only [step, GasVault.payGas, hlimit, hconsumed]
    exact ⟨rfl, rfl⟩
  | false =>
    have hconsumed : (GasVault.consumeAttached order sys.staking user gas).1 = false := hcovered
    have hallowance : ¬ sys.HasAllowance user gas := by
      rw [← coveredByStake_iff order, hcovered]
      exact Bool.false_ne_true
    by_cases hreserves : sys.vault.solReserves < gas
    · right
      refine ⟨?_, ?_⟩
      · rintro ⟨-, hstake | henough⟩
        · exact hallowance hstake
        · exact UInt64.not_le.mpr hreserves henough
      · simp only [step, GasVault.payGas, hlimit, hconsumed, hreserves]
        exact ⟨rfl, rfl⟩
    · left
      refine ⟨⟨hbelow, .inr (UInt64.not_lt.mp hreserves)⟩, ?_⟩
      simp only [step, GasVault.payGas, hlimit, hconsumed, hreserves]
      exact ⟨rfl, rfl⟩

theorem payGas_eq_true_iff (order : MapOrder) (sys : GasSystem) (user : String) (gas : UInt64) :
    (step order sys (.payGas user gas)).1 = .paid true ↔
      sys.BelowLimit user ∧ sys.CanPay user gas := by
  rcases payGas_cases order sys user gas with ⟨hcan, hok, -⟩ | ⟨hcannot, hfail, -⟩
  · exact iff_of_true hok hcan
  · rw [hfail]
    exact iff_of_false (by decide) hcannot

/-! ### The rate limit -/

/-- A successful payment of `user`. -/
def pays (user : String) (e : Event GasSystem Call Reply) : Bool :=
  match e.call, e.result with
  | .payGas user' _, .paid true => user' = user
  | _, _ => false

theorem pays_iff {c : Call} :
    pays user (event (step order) sys c) = true ↔
      ∃ gas, c = .payGas user gas ∧ sys.BelowLimit user ∧ sys.CanPay user gas := by
  rw [pays]
  split
  · rename_i payer gas hcall hok
    obtain rfl : c = .payGas payer gas := hcall
    rw [decide_eq_true_iff]
    constructor
    · rintro rfl
      exact ⟨gas, rfl, (payGas_eq_true_iff order sys payer gas).mp hok⟩
    · rintro ⟨gas', hcall', -⟩
      cases hcall'
      rfl
  · rename_i hnot
    refine iff_of_false Bool.false_ne_true ?_
    rintro ⟨gas, rfl, hcan⟩
    exact hnot user gas rfl ((payGas_eq_true_iff order sys user gas).mpr hcan)

/-- A call counts its payment for its user, if it succeeds, and for nobody else. -/
theorem txCount_step (order : MapOrder) (sys : GasSystem) (c : Call) (user : String) :
    (step order sys c).2.txCount user =
      if pays user (event (step order) sys c) then sys.txCount user + 1
      else sys.txCount user := by
  cases c with
  | depositSol amount source => rfl
  | setComputeStaking staking => rfl
  | payGas payer gas =>
    -- the count is written back first, and the next one where the payment succeeds
    have hback : ((sys.vault.userTxCounts.assign payer (sys.txCount payer)).lookup user).getD 0
        = sys.txCount user := by
      rw [Store.lookup_assign]
      by_cases huser : user = payer
      · rw [if_pos huser, huser]
        rfl
      · rw [if_neg huser]
        rfl
    rcases payGas_cases order sys payer gas with ⟨-, hok, hcounts⟩ | ⟨-, hfail, hcounts⟩
    · rw [txCount, hcounts, pays, event_call, event_result, hok, Store.lookup_assign]
      by_cases huser : user = payer
      · rw [if_pos huser, if_pos (decide_eq_true huser.symm), huser]
        rfl
      · rw [if_neg huser, hback, if_neg]
        intro hpayer
        exact huser (of_decide_eq_true hpayer).symm
    · rw [txCount, hcounts, pays, event_call, event_result, hfail]
      exact hback

/-- The counter of a user counts the successful payments; it stops far below `2 ^ 64`. -/
theorem txCount_final (order : MapOrder) (sys : GasSystem) (calls : List Call) (user : String) :
    ((final (step order) sys calls).txCount user).toNat
      = (sys.txCount user).toNat + (trace (step order) sys calls).countP (pays user) := by
  induction calls generalizing sys with
  | nil => rfl
  | cons c calls ih =>
    rw [final_cons, ih, txCount_step, trace_cons]
    by_cases hpays : pays user (event (step order) sys c) = true
    · obtain ⟨gas, -, hlow, -⟩ := pays_iff.mp hpays
      have hbelow := belowLimit_iff.mp hlow
      have hone := (Words.toNat_add_one_eq_iff (sys.txCount user)).mpr (by omega)
      rw [if_pos hpays, List.countP_cons_of_pos hpays, hone]
      omega
    · rw [if_neg hpays, List.countP_cons_of_neg hpays]

/-- No user gets more than a thousand payments, and no call but a user's payment changes
whether that user is rate limited. -/
structure RateLimited (order : MapOrder) (start : GasSystem) (calls : List Call) : Prop where
  capped : ∀ user, (trace (step order) start calls).countP (pays user) ≤ 1000
  apart : ∀ e ∈ trace (step order) start calls, ∀ user, (∀ gas, e.call ≠ .payGas user gas) →
    (e.after.BelowLimit user ↔ e.before.BelowLimit user)

/-- A user who has paid a thousand times cannot pay any more. -/
def StopsAtLimit (sys : GasSystem) : Call → Prop
  | .payGas user gas => sys.txCount user = 1000 → ¬ sys.CanPay user gas
  | _ => True

theorem belowLimit_step_iff (order : MapOrder) (sys : GasSystem) (c : Call) {user : String}
    (hother : ∀ gas, c ≠ .payGas user gas) :
    (step order sys c).2.BelowLimit user ↔ sys.BelowLimit user := by
  have hnot : ¬ pays user (event (step order) sys c) = true := by
    intro hpays
    obtain ⟨gas, hcall, -⟩ := pays_iff.mp hpays
    exact hother gas hcall
  rw [BelowLimit, BelowLimit, txCount_step, if_neg hnot]

/-- Nobody has paid more than a thousand times. -/
def AllBelowLimit (sys : GasSystem) : Prop := ∀ user, sys.BelowLimit user

theorem allBelowLimit_step (order : MapOrder) (sys : GasSystem) (c : Call) (h : AllBelowLimit sys)
    (hstops : StopsAtLimit sys c) : AllBelowLimit (step order sys c).2 := by
  intro user
  rw [BelowLimit, txCount_step]
  by_cases hpays : pays user (event (step order) sys c) = true
  · have hne : sys.txCount user ≠ 1000 := by
      intro hfull
      obtain ⟨gas, rfl, -, hcan⟩ := pays_iff.mp hpays
      exact hstops hfull hcan
    have hle := belowLimit_iff.mp (h user)
    have hlt : (sys.txCount user).toNat ≠ 1000 := fun heq => hne (UInt64.toNat_inj.mp heq)
    have hone := (Words.toNat_add_one_eq_iff (sys.txCount user)).mpr (by omega)
    rw [if_pos hpays, UInt64.le_iff_toNat_le, hone]
    show (sys.txCount user).toNat + 1 ≤ 1000
    omega
  · rw [if_neg hpays]
    exact h user

/-- The rate limit holds in a run exactly if no user with a thousand payments has gas
that could be paid. -/
theorem rateLimited_iff (order : MapOrder) (initial : UInt64) (staking : Option ComputeStaking)
    (calls : List Call) :
    RateLimited order ⟨GasVault.new initial, staking⟩ calls ↔
      Each (step order) StopsAtLimit ⟨GasVault.new initial, staking⟩ calls := by
  have hnone : ∀ user, (txCount ⟨GasVault.new initial, staking⟩ user).toNat = 0 := fun _ => rfl
  constructor
  · intro h
    rw [each_iff_forall]
    rintro pre c ⟨post, rfl⟩
    cases c with
    | payGas user gas =>
      intro hfull hcan
      -- this payment would be the one after a thousand
      have hcount := txCount_final order ⟨GasVault.new initial, staking⟩ pre user
      have hlimit : (1000 : UInt64).toNat = 1000 := rfl
      rw [hfull, hnone, hlimit, zero_add] at hcount
      have hpays : pays user
          (event (step order) (final (step order) ⟨GasVault.new initial, staking⟩ pre)
            (.payGas user gas)) = true :=
        pays_iff.mpr ⟨gas, rfl, UInt64.le_of_eq hfull, hcan⟩
      have hcapped := h.capped user
      rw [List.append_assoc, trace_append, List.countP_append, ← hcount, List.singleton_append,
        trace_cons, List.countP_cons_of_pos hpays] at hcapped
      omega
    | _ => trivial
  · intro h
    refine ⟨?_, ?_⟩
    · intro user
      have h0 : AllBelowLimit ⟨GasVault.new initial, staking⟩ := fun _ => UInt64.zero_le
      have hbelow := final_induction (allBelowLimit_step order) h0 h user
      rw [belowLimit_iff, txCount_final, hnone] at hbelow
      omega
    · exact forall_trace (fun sys c user hother => belowLimit_step_iff order sys c hother) _ calls

/-- Payments of nothing, which any reserves cover. -/
def freePayments (n : ℕ) : List Call := List.replicate n (.payGas "user" 0)

theorem txCount_freePayments (order : MapOrder) {n : ℕ} (h : n ≤ 1001) :
    (txCount (final (step order) ⟨GasVault.new 0, none⟩ (freePayments n)) "user").toNat = n := by
  induction n with
  | zero => rfl
  | succ n ih =>
    have hcount := ih (by omega)
    have hpays : pays "user"
        (event (step order) (final (step order) ⟨GasVault.new 0, none⟩ (freePayments n))
          (.payGas "user" 0)) = true := by
      refine pays_iff.mpr ⟨0, rfl, ?_, .inr UInt64.zero_le⟩
      rw [belowLimit_iff, hcount]
      omega
    have hone := (Words.toNat_add_one_eq_iff
      (txCount (final (step order) ⟨GasVault.new 0, none⟩ (freePayments n)) "user")).mpr (by omega)
    rw [freePayments, List.replicate_succ', final_append, final_cons, final_nil, ← freePayments,
      txCount_step, if_pos hpays, hone, hcount]

/-- The payment after a thousand succeeds too. -/
theorem not_forall_rateLimited :
    ¬ ∀ order initial staking calls,
      RateLimited order ⟨GasVault.new initial, staking⟩ calls := by
  intro h
  have hcapped := (h newestFirst 0 none (freePayments 1001)).capped "user"
  have hcount := txCount_final newestFirst ⟨GasVault.new 0, none⟩ (freePayments 1001) "user"
  have hnone : (txCount ⟨GasVault.new 0, none⟩ "user").toNat = 0 := rfl
  rw [txCount_freePayments newestFirst le_rfl, hnone] at hcount
  omega

/-! ### The coverage check -/

/-- The rate of the attached staking system; 0 without one. -/
def creditRate (arith : Doubles) (sys : GasSystem) : UInt64 :=
  match sys.staking with
  | some staking => staking.currentGasCreditRate arith
  | none => 0

/-- What `can_cover_gas` says is what payments of users below the rate limit do. -/
structure CoverageAgrees (order : MapOrder) (arith : Doubles) (sys : GasSystem)
    (gas : UInt64) : Prop where
  sound : GasVault.canCoverGas arith sys.vault sys.staking gas = true →
    ∀ user, sys.BelowLimit user → (step order sys (.payGas user gas)).1 = .paid true
  complete : ∀ user, (step order sys (.payGas user gas)).1 = .paid true →
    GasVault.canCoverGas arith sys.vault sys.staking gas = true

theorem canCoverGas_eq_true_iff (arith : Doubles) (sys : GasSystem) (gas : UInt64) :
    GasVault.canCoverGas arith sys.vault sys.staking gas = true ↔
      sys.creditRate arith ≠ 0 ∨ gas ≤ sys.vault.solReserves := by
  rw [creditRate]
  cases hstaking : sys.staking with
  | none => simp [GasVault.canCoverGas]
  | some staking =>
    by_cases hrate : staking.currentGasCreditRate arith = 0
    · simp [GasVault.canCoverGas, hrate]
    · have hpos : staking.currentGasCreditRate arith > 0 := UInt64.pos_iff_ne_zero.mpr hrate
      simp [GasVault.canCoverGas, hrate, hpos]

/-- There is always a user who has neither paid nor staked. -/
theorem exists_bystander (sys : GasSystem) :
    ∃ user, sys.BelowLimit user ∧ ∀ gas, ¬ sys.HasAllowance user gas := by
  let stakers : List String := match sys.staking with
    | some staking => staking.stakes.values.map (·.stakerAddress)
    | none => []
  obtain ⟨user, huser⟩ :=
    Infinite.exists_notMem_finset (sys.vault.userTxCounts.keys ++ stakers).toFinset
  rw [List.mem_toFinset, List.mem_append, not_or] at huser
  refine ⟨user, ?_, ?_⟩
  · have hcount : sys.vault.userTxCounts.lookup user = none := AList.lookup_eq_none.mpr huser.1
    rw [BelowLimit, txCount, hcount]
    exact UInt64.zero_le
  · rintro gas ⟨staking, hstaking, id, stake, hlookup, hcovers⟩
    have hstakers : stakers = staking.stakes.values.map (·.stakerAddress) := by
      simp only [stakers, hstaking]
    have hvalue := Store.mem_values_iff.mpr ⟨id, hlookup⟩
    obtain ⟨rfl, -⟩ := of_decide_eq_true hcovers
    exact huser.2 (hstakers ▸ List.mem_map_of_mem hvalue)

/-- The check says what payments do exactly if the reserves hold the gas, or nothing
counts as staked and no user below the limit has an allowance for it. -/
theorem coverageAgrees_iff (order : MapOrder) (arith : Doubles) (sys : GasSystem)
    (gas : UInt64) :
    CoverageAgrees order arith sys gas ↔
      gas ≤ sys.vault.solReserves ∨
      (sys.creditRate arith = 0 ∧ ∀ user, sys.BelowLimit user → ¬ sys.HasAllowance user gas) := by
  constructor
  · intro h
    by_cases hreserves : gas ≤ sys.vault.solReserves
    · exact .inl hreserves
    right
    by_cases hrate : sys.creditRate arith = 0
    · refine ⟨hrate, ?_⟩
      intro user hbelow hallowance
      have hpaid := (payGas_eq_true_iff order sys user gas).mpr ⟨hbelow, .inl hallowance⟩
      rcases (canCoverGas_eq_true_iff arith sys gas).mp (h.complete user hpaid) with hne | hle
      · exact hne hrate
      · exact hreserves hle
    · -- the check answers true, and somebody cannot pay
      obtain ⟨user, hbelow, hnone⟩ := exists_bystander sys
      have hcover := (canCoverGas_eq_true_iff arith sys gas).mpr (.inl hrate)
      have hpaid := h.sound hcover user hbelow
      rcases ((payGas_eq_true_iff order sys user gas).mp hpaid).2 with hallowance | hle
      · exact absurd hallowance (hnone gas)
      · exact absurd hle hreserves
  · rintro (hreserves | ⟨hrate, hnone⟩)
    · refine ⟨?_, ?_⟩
      · intro _ user hbelow
        exact (payGas_eq_true_iff order sys user gas).mpr ⟨hbelow, .inr hreserves⟩
      · intro _ _
        exact (canCoverGas_eq_true_iff arith sys gas).mpr (.inr hreserves)
    · refine ⟨?_, ?_⟩
      · intro hcover user hbelow
        rcases (canCoverGas_eq_true_iff arith sys gas).mp hcover with hne | hle
        · exact absurd hrate hne
        · exact (payGas_eq_true_iff order sys user gas).mpr ⟨hbelow, .inr hle⟩
      · intro user hpaid
        obtain ⟨hbelow, hallowance | hle⟩ := (payGas_eq_true_iff order sys user gas).mp hpaid
        · exact absurd hallowance (hnone user hbelow)
        · exact (canCoverGas_eq_true_iff arith sys gas).mpr (.inr hle)

/-- A stake of four cores beside an empty vault: the check promises another user's gas. -/
theorem not_forall_coverageAgrees :
    ¬ ∀ (order : MapOrder) (arith : Doubles) (initial : UInt64)
      (calls : List CreditSystem.Call) (gas : UInt64),
      CoverageAgrees order arith
        (final (CreditSystem.step order arith) (CreditSystem.new initial) calls).toGasSystem gas := by
  intro h
  have hagrees := h newestFirst (.exact .wrapping) 0 [.stakeCompute "test_wallet" 4 16 4000 0 0] 5000
  have hpaid := hagrees.sound (by decide +kernel) "other_wallet" UInt64.zero_le
  revert hpaid
  decide +kernel

end GasSystem

end Membra
