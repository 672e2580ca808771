/-
What the iteration order of the stakes decides.

Two staking systems that iterate their maps in different orders take the same calls.  They
may charge a cost to different stakes of its staker; everything else about the stakes stays
the same, and the allowances of a staker stay the same as long as no cost of that staker
leaves a choice.

* `alike_step` — one call, for the stakers whose allowances are compared;
* `answers_eq` — which answers do not depend on the order.
-/
import MembraL3.StakingRuns

namespace Membra

namespace ComputeStaking

open Runs

variable (p : String → Prop) [DecidablePred p]

/-- A stake without its allowance, unless its staker is one of those that are compared. -/
def view (stake : ComputeStake) : ComputeStake :=
  if p stake.stakerAddress then stake else { stake with gasCreditAllowance := 0 }

/-- The same stakes, up to allowances that are not compared. -/
def Alike (staking staking' : ComputeStaking) : Prop :=
  ∀ id, (staking.stakes.lookup id).map (view p) = (staking'.stakes.lookup id).map (view p)

/-- The stake under `id` covers a cost of this staker. -/
def CoversAt (staking : ComputeStaking) (staker : String) (cost : UInt64) (id : String) : Prop :=
  ∃ stake, staking.stakes.lookup id = some stake ∧ covers staker cost stake = true

/-- The call finds at most one stake that covers its cost, if its staker is compared. -/
def NoChoice (staking : ComputeStaking) (c : Call) : Prop :=
  ∀ staker cost, c = .consumeGasAllowance staker cost → p staker →
    ∀ id id', CoversAt staking staker cost id → CoversAt staking staker cost id' → id = id'

variable {p} {staking staking' : ComputeStaking} {stake stake' : ComputeStake} {id : String}

@[simp] theorem stakerAddress_view : (view p stake).stakerAddress = stake.stakerAddress := by
  rw [view]
  split <;> rfl

/-- The view of a compared stake is all of it. -/
theorem eq_of_view_eq (h : p stake.stakerAddress) (hview : view p stake' = view p stake) :
    stake' = stake := by
  have hstaker : stake'.stakerAddress = stake.stakerAddress := by
    rw [← stakerAddress_view (p := p), hview, stakerAddress_view]
  have h' : p stake'.stakerAddress := by rwa [hstaker]
  rwa [view, view, if_pos h, if_pos h'] at hview

theorem view_unstaked (credits : UInt64) (now : Seconds) :
    view p (stake.unstaked credits now) = (view p stake).unstaked credits now := by
  rw [view, view]
  show (if p stake.stakerAddress then _ else _) = _
  split <;> rfl

/-- Charging a stake of a staker who is not compared. -/
theorem view_charged (h : ¬ p stake.stakerAddress) (cost : UInt64) :
    view p (stake.charged cost) = view p stake := by
  have h' : ¬ p (stake.charged cost).stakerAddress := h
  rw [view, view, if_neg h, if_neg h']
  rfl

theorem Alike.symm (h : Alike p staking staking') : Alike p staking' staking :=
  fun id => (h id).symm

/-- A stake in one system is there in the other, with the same view. -/
theorem Alike.lookup (h : Alike p staking staking')
    (hlookup : staking.stakes.lookup id = some stake) :
    ∃ stake', staking'.stakes.lookup id = some stake' ∧ view p stake' = view p stake := by
  have hview := h id
  rw [hlookup] at hview
  exact Option.map_eq_some_iff.mp hview.symm

/-- The same write to both. -/
theorem Alike.assign (h : Alike p staking staking') (hview : view p stake = view p stake')
    {after after' : ComputeStaking} (hafter : after.stakes = staking.stakes.assign id stake)
    (hafter' : after'.stakes = staking'.stakes.assign id stake') : Alike p after after' := by
  intro other
  rw [hafter, hafter', Store.lookup_assign, Store.lookup_assign]
  by_cases hid : other = id
  · rw [if_pos hid, if_pos hid, Option.map_some, Option.map_some, hview]
  · rw [if_neg hid, if_neg hid]
    exact h other

/-- A write to one of them that does not show. -/
theorem Alike.hidden (h : Alike p staking staking') {old : ComputeStake}
    (hlookup : staking.stakes.lookup id = some old) (hview : view p stake = view p old)
    {after : ComputeStaking} (hafter : after.stakes = staking.stakes.assign id stake) :
    Alike p after staking' := by
  intro other
  rw [hafter, Store.lookup_assign]
  by_cases hid : other = id
  · rw [if_pos hid, Option.map_some, hview, ← h other, hid, hlookup]
    rfl
  · rw [if_neg hid]
    exact h other

/-! ### Unstaking -/

@[simp] theorem active_view : (view p stake).active = stake.active := by
  rw [view]
  split <;> rfl

@[simp] theorem stakedAt_view : (view p stake).stakedAt = stake.stakedAt := by
  rw [view]
  split <;> rfl

@[simp] theorem calculateTimeRewards_view (arith : Doubles) (duration : Seconds) :
    calculateTimeRewards arith (view p stake) duration
      = calculateTimeRewards arith stake duration := by
  rw [view]
  split <;> rfl

/-- A stake is due in both systems, and earns the same. -/
theorem Alike.due (arith : Doubles) (h : Alike p staking staking') {now : Seconds}
    (hdue : staking.Due id now stake) :
    ∃ stake', staking'.Due id now stake' ∧ view p stake' = view p stake ∧
      calculateTimeRewards arith stake' (now - stake'.stakedAt)
        = calculateTimeRewards arith stake (now - stake.stakedAt) := by
  obtain ⟨stake', hlookup, hview⟩ := h.lookup hdue.1
  have hactive : stake'.active = stake.active := by
    rw [← active_view (p := p), hview, active_view]
  have hstakedAt : stake'.stakedAt = stake.stakedAt := by
    rw [← stakedAt_view (p := p), hview, stakedAt_view]
  refine ⟨stake', ⟨hlookup, ?_, ?_⟩, hview, ?_⟩
  · rw [hactive]
    exact hdue.2.1
  · rw [hstakedAt]
    exact hdue.2.2
  · rw [hstakedAt, ← calculateTimeRewards_view (p := p), hview, calculateTimeRewards_view]

theorem Alike.unstakeCompute (arith : Doubles) (h : Alike p staking staking') (stakeId : String)
    (durationNow stampNow : Seconds) :
    (staking.unstakeCompute arith stakeId durationNow stampNow).1
        = (staking'.unstakeCompute arith stakeId durationNow stampNow).1 ∧
      Alike p (staking.unstakeCompute arith stakeId durationNow stampNow).2
        (staking'.unstakeCompute arith stakeId durationNow stampNow).2 := by
  by_cases hdue : ∃ stake, staking.Due stakeId durationNow stake
  · obtain ⟨stake, hdue⟩ := hdue
    obtain ⟨stake', hdue', hview, hearned⟩ := h.due arith hdue
    rw [unstakeCompute_of_due arith hdue, unstakeCompute_of_due arith hdue', hearned]
    refine ⟨rfl, h.assign ?_ rfl rfl⟩
    rw [view_unstaked, view_unstaked, hview]
  · have hdue' : ∀ stake, ¬ staking'.Due stakeId durationNow stake := by
      intro stake' hdue'
      obtain ⟨stake, hstake, -⟩ := h.symm.due arith hdue'
      exact hdue ⟨stake, hstake⟩
    rw [unstakeCompute_of_not_due arith (not_exists.mp hdue), unstakeCompute_of_not_due arith hdue']
    exact ⟨rfl, h⟩

/-! ### Consuming -/

theorem Alike.coversAt (h : Alike p staking staking') {staker : String} (hp : p staker)
    {cost : UInt64} (hcovers : CoversAt staking staker cost id) :
    CoversAt staking' staker cost id := by
  obtain ⟨stake, hlookup, hstake⟩ := hcovers
  obtain ⟨stake', hlookup', hview⟩ := h.lookup hlookup
  obtain ⟨rfl, -⟩ := of_decide_eq_true hstake
  obtain rfl := eq_of_view_eq hp hview
  exact ⟨stake', hlookup', hstake⟩

/-- A compared staker can consume in both systems or in neither. -/
theorem Alike.consumed (h : Alike p staking staking') {staker : String} (hp : p staker)
    (A B : MapOrder) (cost : UInt64) :
    (staking.consumeGasAllowance A staker cost).1
      = (staking'.consumeGasAllowance B staker cost).1 := by
  rw [Bool.eq_iff_iff, consumeGasAllowance_eq_true_iff, consumeGasAllowance_eq_true_iff]
  constructor
  · rintro ⟨id, hcovers⟩
    exact ⟨id, h.coversAt hp hcovers⟩
  · rintro ⟨id, hcovers⟩
    exact ⟨id, h.symm.coversAt hp hcovers⟩

/-- A consumption by a staker who is not compared does not show. -/
theorem alike_consume_hidden (h : Alike p staking staking') {staker : String} (hp : ¬ p staker)
    (order : MapOrder) (cost : UInt64) :
    Alike p (staking.consumeGasAllowance order staker cost).2 staking' := by
  rcases staking.consumeGasAllowance_cases order staker cost with
    hnone | ⟨id, stake, hlookup, rfl, _, _, htaken⟩
  · rw [hnone]
    exact h
  · rw [htaken]
    exact h.hidden hlookup (view_charged hp cost) rfl

theorem alike_consume (h : Alike p staking staking') {staker : String} {cost : UInt64}
    (hchoice : NoChoice p staking (.consumeGasAllowance staker cost)) (A B : MapOrder) :
    Alike p (staking.consumeGasAllowance A staker cost).2
      (staking'.consumeGasAllowance B staker cost).2 := by
  by_cases hp : p staker
  · have hsame := h.consumed hp A B cost
    rcases staking.consumeGasAllowance_cases A staker cost with
      hnone | ⟨id, stake, hlookup, hstaker, hactive, hcost, htaken⟩
    · rcases staking'.consumeGasAllowance_cases B staker cost with
        hnone' | ⟨_, _, _, _, _, _, htaken'⟩
      · rw [hnone, hnone']
        exact h
      · rw [hnone, htaken'] at hsame
        cases hsame
    · rcases staking'.consumeGasAllowance_cases B staker cost with
        hnone' | ⟨id', stake', hlookup', hstaker', hactive', hcost', htaken'⟩
      · rw [htaken, hnone'] at hsame
        cases hsame
      · -- there is no choice: both take the cost from the same stake
        have hcovers : CoversAt staking staker cost id :=
          ⟨stake, hlookup, decide_eq_true ⟨hstaker, hactive, hcost⟩⟩
        have hcovers' : CoversAt staking' staker cost id' :=
          ⟨stake', hlookup', decide_eq_true ⟨hstaker', hactive', hcost'⟩⟩
        obtain rfl := hchoice staker cost rfl hp id id' hcovers (h.symm.coversAt hp hcovers')
        obtain ⟨stake'', hlookup'', hview⟩ := h.lookup hlookup
        obtain rfl : stake' = stake'' := Option.some.inj (hlookup'.symm.trans hlookup'')
        obtain rfl : stake' = stake := eq_of_view_eq (by rwa [hstaker]) hview
        rw [htaken, htaken']
        exact h.assign rfl rfl rfl
  · exact (alike_consume_hidden (alike_consume_hidden h hp A cost).symm hp B cost).symm

/-! ### Runs -/

/-- One call keeps the stakes alike where it leaves no choice. -/
theorem alike_step (A B : MapOrder) (arith : Doubles) (c : Call) (hchoice : NoChoice p staking c)
    (h : Alike p staking staking') :
    Alike p (step A arith staking c).2 (step B arith staking' c).2 := by
  cases c with
  | stakeCompute staker cores ram units idNow stampNow => exact h.assign rfl rfl rfl
  | unstakeCompute stakeId durationNow stampNow =>
    exact (h.unstakeCompute arith stakeId durationNow stampNow).2
  | consumeGasAllowance staker cost => exact alike_consume h hchoice A B

theorem alike_final (A B : MapOrder) (arith : Doubles) {calls : List Call}
    (hchoice : Each (step A arith) (NoChoice p) new calls) :
    Alike p (final (step A arith) new calls) (final (step B arith) new calls) :=
  final_lockstep (fun _ _ c hc h => alike_step A B arith c hc h) (fun _ => rfl) hchoice

/-- In two orders the same calls get the same answers, except that an answer of
`consume_gas_allowance` can differ after another consumption by the same staker that two
stakes covered. -/
theorem answers_eq (A B : MapOrder) (arith : Doubles) (pre : List Call) (c : Call)
    (h : ∀ staker cost, c = .consumeGasAllowance staker cost →
      Each (step A arith) (NoChoice (· = staker)) new pre) :
    (step A arith (final (step A arith) new pre) c).1
      = (step B arith (final (step B arith) new pre) c).1 := by
  cases c with
  | stakeCompute staker cores ram units idNow stampNow => rfl
  | unstakeCompute stakeId durationNow stampNow =>
    -- no allowances are compared
    have hnone : Each (step A arith) (NoChoice fun _ => False) new pre :=
      each_of_forall fun _ _ _ _ _ hfalse => hfalse.elim
    have hsame := ((alike_final A B arith hnone).unstakeCompute arith stakeId durationNow
      stampNow).1
    exact congrArg Reply.unstaked hsame
  | consumeGasAllowance staker cost =>
    have hsame := (alike_final A B arith (h staker cost rfl)).consumed rfl A B cost
    exact congrArg Reply.consumed hsame

/-- A staker with two stakes, who consumes what only the larger one covers. -/
def oneCovering : List Call :=
  [.stakeCompute "alice" 1 4 100 0 0, .stakeCompute "alice" 2 4 100 1 1,
    .consumeGasAllowance "alice" 15000000000]

/-- Of her stakes only the larger one covers more than the grant of one core. -/
theorem coversAt_oneCovering
    (h : CoversAt (final (step newestFirst (.exact .wrapping)) new (oneCovering.take 2)) "alice"
      15000000000 id) : id = computeStakeId "alice" 1 := by
  obtain ⟨stake, hlookup, hcovers⟩ := h
  rcases Store.of_lookup_assign hlookup with ⟨hid, -⟩ | hlookup
  · exact hid
  rcases Store.of_lookup_assign hlookup with ⟨-, rfl⟩ | hnone
  · exact absurd hcovers (by decide)
  · cases hnone

/-- The two orders visit the stakes differently, and answer the next cost alike. -/
theorem answers_eq_oneCovering :
    newestFirst.order (final (step newestFirst (.exact .wrapping)) new oneCovering).stakes.keys
        ≠ oldestFirst.order
          (final (step oldestFirst (.exact .wrapping)) new oneCovering).stakes.keys ∧
      (step newestFirst (.exact .wrapping)
          (final (step newestFirst (.exact .wrapping)) new oneCovering)
          (.consumeGasAllowance "alice" 10000000000)).1
        = (step oldestFirst (.exact .wrapping)
          (final (step oldestFirst (.exact .wrapping)) new oneCovering)
          (.consumeGasAllowance "alice" 10000000000)).1 := by
  refine ⟨by decide +kernel,
    answers_eq newestFirst oldestFirst (.exact .wrapping) oneCovering _ ?_⟩
  intro staker cost _
  rw [oneCovering, each_cons, each_cons, each_cons]
  refine ⟨?_, ?_, ?_, each_nil⟩
  · intro staker' cost' hcall
    cases hcall
  · intro staker' cost' hcall
    cases hcall
  · rintro staker' cost' ⟨⟩ _ id id' hid hid'
    rw [coversAt_oneCovering hid, coversAt_oneCovering hid']

/-- Two stakes of different sizes; the first cost fits both, and the second only the
larger one as it was. -/
def twoStakes : List Call :=
  [.stakeCompute "alice" 1 4 100 0 0, .stakeCompute "alice" 2 4 100 1 1,
    .consumeGasAllowance "alice" 10000000000, .consumeGasAllowance "alice" 20000000000]

theorem not_forall_answers_eq :
    ¬ ∀ A B arith calls, (trace (step A arith) new calls).map Event.result
      = (trace (step B arith) new calls).map Event.result := by
  intro h
  have hsame := h newestFirst oldestFirst (.exact .wrapping) twoStakes
  revert hsame
  decide +kernel

end ComputeStaking

end Membra
