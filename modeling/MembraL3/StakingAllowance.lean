/-
The allowance of a staker.

`get_gas_allowance` reports the first active stake of the staker that the map visits;
`consume_gas_allowance` takes the cost from the first one that covers it.

* `allowanceLoop_eq` — what is reported, from the first active stake;
* `consumeGasAllowance_of_firstActive` — a cost that this stake covers is taken from it;
* `allowanceAgrees_iff` — the states and costs for which report and consumption agree.
-/
import MembraL3.StakingRuns

namespace Membra

namespace ComputeStaking

open Runs

/-! ### The first active stake -/

/-- An active stake of the staker. -/
def owns (stakerAddress : String) (stake : ComputeStake) : Bool :=
  stake.stakerAddress = stakerAddress ∧ stake.active

/-- The first active stake of the staker among the keys. -/
def firstOwned (stakerAddress : String) (stakes : Store String ComputeStake) (ids : List String) :
    Option ComputeStake :=
  ids.findSome? fun id => (stakes.lookup id).filter (owns stakerAddress)

/-- The first active stake of the staker that the map visits. -/
def firstActive (order : MapOrder) (staking : ComputeStaking) (stakerAddress : String) :
    Option ComputeStake :=
  firstOwned stakerAddress staking.stakes (order.order staking.stakes.keys)

variable {staker : String} {cost : UInt64} {stakes : Store String ComputeStake} {id : String}
  {stake : ComputeStake}

theorem owns_of_covers (h : covers staker cost stake = true) : owns staker stake = true := by
  obtain ⟨hstaker, hactive, _⟩ := of_decide_eq_true h
  exact decide_eq_true ⟨hstaker, hactive⟩

theorem covers_of_owns (h : owns staker stake = true) (hcost : cost ≤ stake.gasCreditAllowance) :
    covers staker cost stake = true := by
  obtain ⟨hstaker, hactive⟩ := of_decide_eq_true h
  exact decide_eq_true ⟨hstaker, hactive, hcost⟩

@[simp] theorem firstOwned_nil : firstOwned staker stakes [] = none := rfl

/-- A stake of the staker is the first if it is visited first. -/
theorem firstOwned_cons_of_owns {ids : List String} (hlookup : stakes.lookup id = some stake)
    (howns : owns staker stake = true) : firstOwned staker stakes (id :: ids) = some stake := by
  rw [firstOwned, List.findSome?_cons, hlookup, Option.filter_some, if_pos howns]

theorem firstOwned_cons_of_not_owns {ids : List String}
    (h : ∀ stake, stakes.lookup id = some stake → owns staker stake = false) :
    firstOwned staker stakes (id :: ids) = firstOwned staker stakes ids := by
  have hnone : (stakes.lookup id).filter (owns staker) = none := by
    rw [Option.filter_eq_none_iff]
    intro stake hstake
    rw [h stake hstake]
    exact Bool.false_ne_true
  rw [firstOwned, List.findSome?_cons, hnone]
  rfl

/-- What `get_gas_allowance` reports. -/
theorem allowanceLoop_eq (staker : String) (stakes : Store String ComputeStake)
    (ids : List String) :
    allowanceLoop staker stakes ids
      = ((firstOwned staker stakes ids).map ComputeStake.gasCreditAllowance).getD 0 := by
  induction ids with
  | nil => rfl
  | cons id ids ih =>
    rw [allowanceLoop]
    cases hlookup : stakes.lookup id with
    | none =>
      rw [firstOwned_cons_of_not_owns (by simp [hlookup])]
      exact ih
    | some stake =>
      by_cases howns : stake.stakerAddress = staker ∧ stake.active = true
      · rw [firstOwned_cons_of_owns hlookup (decide_eq_true howns)]
        exact if_pos howns
      · have hskip : ∀ found, stakes.lookup id = some found → owns staker found = false := by
          intro found hfound
          obtain rfl : stake = found := Option.some.inj (hlookup.symm.trans hfound)
          exact decide_eq_false howns
        rw [firstOwned_cons_of_not_owns hskip]
        simp only [if_neg howns]
        exact ih

/-- The first active stake pays a cost that it covers, and stays the first. -/
theorem consumeLoop_of_firstOwned {ids : List String}
    (hfirst : firstOwned staker stakes ids = some stake)
    (hcost : cost ≤ stake.gasCreditAllowance) :
    ∃ id, stakes.lookup id = some stake ∧ owns staker stake = true ∧
      consumeLoop staker cost stakes ids = (true, stakes.assign id (stake.charged cost)) ∧
      firstOwned staker (stakes.assign id (stake.charged cost)) ids
        = some (stake.charged cost) := by
  induction ids with
  | nil => exact absurd hfirst (by simp)
  | cons id ids ih =>
    rw [consumeLoop]
    by_cases hvisit : ∃ found, stakes.lookup id = some found ∧ owns staker found = true
    · obtain ⟨found, hlookup, howns⟩ := hvisit
      rw [firstOwned_cons_of_owns hlookup howns] at hfirst
      obtain rfl := Option.some.inj hfirst
      refine ⟨id, hlookup, howns, ?_, ?_⟩
      · simp only [hlookup, covers_of_owns howns hcost, if_true]
      · exact firstOwned_cons_of_owns (Store.lookup_assign_self ..) howns
    · have hskip : ∀ found, stakes.lookup id = some found → owns staker found = false := by
        intro found hlookup
        exact eq_false_of_ne_true fun howns => hvisit ⟨found, hlookup, howns⟩
      rw [firstOwned_cons_of_not_owns hskip] at hfirst
      obtain ⟨payer, hpayer, howns, hconsume, hstays⟩ := ih hfirst
      -- the payer is a stake of the staker, so it is not the one that was passed over
      have hne : id ≠ payer := by
        rintro rfl
        exact absurd (hskip stake hpayer) (by simp [howns])
      refine ⟨payer, hpayer, howns, ?_, ?_⟩
      · cases hlookup : stakes.lookup id with
        | none => exact hconsume
        | some found =>
          have hcovers : covers staker cost found = false := by
            by_contra hcovers
            have hfound := owns_of_covers (eq_true_of_ne_false hcovers)
            exact absurd (hskip found hlookup) (by simp [hfound])
          simp only [hcovers, Bool.false_eq_true, if_false]
          exact hconsume
      · rw [firstOwned_cons_of_not_owns (by rwa [Store.lookup_assign_ne _ _ hne])]
        exact hstays

/-! ### One consumption -/

/-- A cost that the first active stake covers is taken from it. -/
theorem consumeGasAllowance_of_firstActive {order : MapOrder} {staking : ComputeStaking}
    (hfirst : staking.firstActive order staker = some stake)
    (hcost : cost ≤ stake.gasCreditAllowance) :
    (staking.consumeGasAllowance order staker cost).1 = true ∧
    (staking.consumeGasAllowance order staker cost).2.firstActive order staker
      = some (stake.charged cost) := by
  obtain ⟨id, hlookup, _, hconsume, hstays⟩ := consumeLoop_of_firstOwned hfirst hcost
  rw [consumeGasAllowance, hconsume]
  refine ⟨rfl, ?_⟩
  -- the map visits the same keys in the same order
  rw [firstActive, Store.keys_assign_of_mem _ (Store.mem_of_lookup hlookup)]
  exact hstays

theorem getGasAllowance_eq (order : MapOrder) (staking : ComputeStaking) (staker : String) :
    staking.getGasAllowance order staker
      = ((staking.firstActive order staker).map ComputeStake.gasCreditAllowance).getD 0 :=
  allowanceLoop_eq staker staking.stakes _

/-- A staker without an active stake can consume nothing. -/
theorem not_canConsume_of_firstActive {order : MapOrder} {staking : ComputeStaking}
    (h : staking.firstActive order staker = none) (cost : UInt64) :
    ¬ staking.CanConsume staker cost := by
  rintro ⟨id, stake, hlookup, hcovers⟩
  rw [firstActive, firstOwned, List.findSome?_eq_none_iff] at h
  have hmem : id ∈ staking.stakes.keys := Store.mem_of_lookup hlookup
  have hnone := h id ((order.perm staking.stakes.keys).mem_iff.mpr hmem)
  rw [hlookup, Option.filter_some, if_pos (owns_of_covers hcovers)] at hnone
  exact absurd hnone (by simp)

/-! ### Report and consumption -/

/-- A cost is consumed exactly if it is at most the allowance reported, the report then
falls by the cost, and a refusal changes no stake. -/
structure AllowanceAgrees (order : MapOrder) (staking : ComputeStaking) (staker : String)
    (cost : UInt64) : Prop where
  succeeds : (staking.consumeGasAllowance order staker cost).1 = true ↔
    cost ≤ staking.getGasAllowance order staker
  spends : (staking.consumeGasAllowance order staker cost).1 = true →
    ((staking.consumeGasAllowance order staker cost).2.getGasAllowance order staker).toNat
      + cost.toNat = (staking.getGasAllowance order staker).toNat
  refuses : (staking.consumeGasAllowance order staker cost).1 = false →
    (staking.consumeGasAllowance order staker cost).2.stakes = staking.stakes

/-- The first active stake that the map visits covers the cost if any stake does; a staker
without an active stake asks for something. -/
def FirstDecides (order : MapOrder) (staking : ComputeStaking) (staker : String)
    (cost : UInt64) : Prop :=
  match staking.firstActive order staker with
  | none => cost ≠ 0
  | some stake => staking.CanConsume staker cost → cost ≤ stake.gasCreditAllowance

theorem allowanceAgrees_iff_firstDecides (order : MapOrder) (staking : ComputeStaking)
    (staker : String) (cost : UInt64) :
    AllowanceAgrees order staking staker cost ↔ FirstDecides order staking staker cost := by
  have hconsume := staking.consumeGasAllowance_eq_true_iff order staker cost
  have hreport := getGasAllowance_eq order staking staker
  have hrefuses : (staking.consumeGasAllowance order staker cost).1 = false →
      (staking.consumeGasAllowance order staker cost).2.stakes = staking.stakes := by
    intro hfalse
    rw [consumeGasAllowance_of_false hfalse]
  rw [FirstDecides]
  cases hfirst : staking.firstActive order staker with
  | none =>
    rw [hfirst, Option.map_none, Option.getD_none] at hreport
    have hnot := not_canConsume_of_firstActive hfirst cost
    constructor
    · rintro hagrees rfl
      have hzero : (0 : UInt64) ≤ staking.getGasAllowance order staker := by
        rw [hreport]
        exact UInt64.le_refl 0
      exact hnot (hconsume.mp (hagrees.succeeds.mpr hzero))
    · intro hcost
      have hfalse : ¬ (staking.consumeGasAllowance order staker cost).1 = true :=
        fun htrue => hnot (hconsume.mp htrue)
      refine ⟨?_, fun htrue => absurd htrue hfalse, hrefuses⟩
      rw [hreport]
      exact iff_of_false hfalse fun hle => hcost (UInt64.le_antisymm hle UInt64.zero_le)
  | some stake =>
    rw [hfirst, Option.map_some, Option.getD_some] at hreport
    constructor
    · intro hagrees hcan
      rw [← hreport]
      exact hagrees.succeeds.mp (hconsume.mpr hcan)
    · intro hdecides
      refine ⟨?_, ?_, hrefuses⟩
      · rw [hreport]
        refine ⟨fun htrue => hdecides (hconsume.mp htrue), fun hcost => ?_⟩
        exact (consumeGasAllowance_of_firstActive hfirst hcost).1
      · intro htrue
        have hcost := hdecides (hconsume.mp htrue)
        obtain ⟨_, hafter⟩ := consumeGasAllowance_of_firstActive hfirst hcost
        rw [hreport, getGasAllowance_eq, hafter]
        show (stake.gasCreditAllowance - cost).toNat + cost.toNat = stake.gasCreditAllowance.toNat
        rw [UInt64.toNat_sub_of_le _ _ hcost]
        exact Nat.sub_add_cancel hcost

/-- In every reachable state, report and consumption of a cost agree iff the first active
stake of the staker decides. -/
theorem allowanceAgrees_iff (order : MapOrder) (arith : Doubles) (calls : List Call)
    (staker : String) (cost : UInt64) :
    AllowanceAgrees order (final (step order arith) new calls) staker cost ↔
      FirstDecides order (final (step order arith) new calls) staker cost :=
  allowanceAgrees_iff_firstDecides order _ staker cost

/-- Two stakes of one size, of which one has paid. -/
def oneSpent : List Call :=
  [.stakeCompute "alice" 1 4 100 0 0, .stakeCompute "alice" 1 4 100 1 1,
    .consumeGasAllowance "alice" 1]

theorem not_forall_allowanceAgrees :
    ¬ ∀ order arith calls staker cost,
      AllowanceAgrees order (final (step order arith) new calls) staker cost := by
  intro h
  have hsucceeds := (h oldestFirst (.exact .wrapping) oneSpent "alice" 10000000000).succeeds
  revert hsucceeds
  decide +kernel

end ComputeStaking

end Membra
