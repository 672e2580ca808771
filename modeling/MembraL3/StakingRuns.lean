/-
Runs of the staking system.

`step` performs one of the three operations that change a stake, with the clock readings
it takes as arguments of the call.

* `step_cases` — all that one operation can do;
* `stakingLaws` — totals, durations and the ends of stakes in every run with distinct ids.
-/
import MembraL3.ComputeStaking
import MembraL3.Lib.Runs

namespace Membra

namespace ComputeStaking

open Runs

/-! ### Calls -/

inductive Call where
  | stakeCompute (stakerAddress : String) (cpuCores ramGb computeUnits : UInt64)
      (idNow stampNow : Seconds)
  | unstakeCompute (stakeId : String) (durationNow stampNow : Seconds)
  | consumeGasAllowance (stakerAddress : String) (gasCost : UInt64)

inductive Reply where
  | staked (stakeId : String) (creditGrant : UInt64)
  | unstaked (additionalCredits : Option UInt64)
  | consumed (ok : Bool)
  deriving DecidableEq

def step (order : MapOrder) (arith : Doubles) (staking : ComputeStaking) :
    Call → Reply × ComputeStaking
  | .stakeCompute staker cores ram units idNow stampNow =>
    (staking.stakeCompute staker cores ram units idNow stampNow).map
      (fun (stakeId, creditGrant) => .staked stakeId creditGrant) id
  | .unstakeCompute stakeId durationNow stampNow =>
    (staking.unstakeCompute arith stakeId durationNow stampNow).map .unstaked id
  | .consumeGasAllowance staker cost =>
    (staking.consumeGasAllowance order staker cost).map .consumed id

/-- What one operation can do. -/
theorem step_cases (order : MapOrder) (arith : Doubles) (staking : ComputeStaking) (c : Call) :
    ((step order arith staking c).2 = staking ∧
      ∀ credits, (step order arith staking c).1 ≠ .unstaked (some credits)) ∨
    (∃ staker cores ram units idNow stampNow,
      c = .stakeCompute staker cores ram units idNow stampNow ∧
      (step order arith staking c).2 =
        { stakes := staking.stakes.assign (computeStakeId staker idNow)
            (newStake staker cores ram units idNow stampNow)
          totalStakedCompute := staking.totalStakedCompute + units
          totalCpuCores := staking.totalCpuCores + cores
          totalCreditGrantsIssued :=
            staking.totalCreditGrantsIssued + cores * creditGrantPerCore }) ∨
    (∃ stakeId durationNow stampNow stake, c = .unstakeCompute stakeId durationNow stampNow ∧
      staking.Due stakeId durationNow stake ∧
      (step order arith staking c).1
        = .unstaked (some (calculateTimeRewards arith stake (durationNow - stake.stakedAt))) ∧
      (step order arith staking c).2 =
        { staking with
          stakes := staking.stakes.assign stakeId
            (stake.unstaked
              (calculateTimeRewards arith stake (durationNow - stake.stakedAt)) stampNow)
          totalStakedCompute := staking.totalStakedCompute - stake.computeUnits
          totalCpuCores := staking.totalCpuCores - stake.cpuCores }) ∨
    (∃ staker cost id stake, c = .consumeGasAllowance staker cost ∧
      staking.stakes.lookup id = some stake ∧ covers staker cost stake = true ∧
      (step order arith staking c).2
        = { staking with stakes := staking.stakes.assign id (stake.charged cost) }) := by
  cases c with
  | stakeCompute staker cores ram units idNow stampNow =>
    exact .inr (.inl ⟨staker, cores, ram, units, idNow, stampNow, rfl, rfl⟩)
  | unstakeCompute stakeId durationNow stampNow =>
    by_cases hdue : ∃ stake, staking.Due stakeId durationNow stake
    · obtain ⟨stake, hdue⟩ := hdue
      refine .inr (.inr (.inl ⟨stakeId, durationNow, stampNow, stake, rfl, hdue, ?_, ?_⟩))
      · rw [step, unstakeCompute_of_due arith hdue]
        rfl
      · rw [step, unstakeCompute_of_due arith hdue]
        rfl
    · left
      rw [step, unstakeCompute_of_not_due arith (not_exists.mp hdue)]
      exact ⟨rfl, fun credits h => by cases h⟩
  | consumeGasAllowance staker cost =>
    rcases staking.consumeGasAllowance_cases order staker cost with
      h | ⟨id, stake, hlookup, hstaker, hactive, hcost, h⟩
    · left
      rw [step, h]
      exact ⟨rfl, fun credits h => by cases h⟩
    · have hcovers : covers staker cost stake = true := decide_eq_true ⟨hstaker, hactive, hcost⟩
      refine .inr (.inr (.inr ⟨staker, cost, id, stake, rfl, hlookup, hcovers, ?_⟩))
      rw [step, h]
      rfl

/-! ### Distinct ids -/

/-- The id that a call gives to a stake. -/
def stakedId : Call → Option String
  | .stakeCompute staker _ _ _ idNow _ => some (computeStakeId staker idNow)
  | _ => none

/-- The ids that the stakes of a run get, in order. -/
def stakeIds (calls : List Call) : List String := calls.filterMap stakedId

/-- A new stake does not overwrite another. -/
def Fresh (staking : ComputeStaking) (c : Call) : Prop :=
  ∀ id, stakedId c = some id → id ∉ staking.stakes

/-- Every stored stake was stored before the call, or the call added it. -/
theorem mem_stakes_step (order : MapOrder) (arith : Doubles) (staking : ComputeStaking) (c : Call)
    (id : String) (h : id ∈ (step order arith staking c).2.stakes) :
    id ∈ staking.stakes ∨ stakedId c = some id := by
  rcases step_cases order arith staking c with ⟨hsame, _⟩ |
    ⟨staker, cores, ram, units, idNow, stampNow, rfl, hnew⟩ |
    ⟨stakeId, durationNow, stampNow, stake, rfl, hdue, _, hclosed⟩ |
    ⟨staker, cost, id', stake, rfl, hlookup, _, htaken⟩
  · rw [hsame] at h
    exact .inl h
  · rw [hnew, Store.mem_assign] at h
    rcases h with rfl | h
    · exact .inr rfl
    · exact .inl h
  · rw [hclosed, Store.mem_assign_of_lookup hdue.1] at h
    exact .inl h
  · rw [htaken, Store.mem_assign_of_lookup hlookup] at h
    exact .inl h

theorem each_fresh (order : MapOrder) (arith : Doubles) {calls : List Call}
    (hids : (stakeIds calls).Nodup) : Each (step order arith) Fresh new calls := by
  rw [stakeIds, ← filterMap_call_trace stakedId new calls] at hids
  have hnew : ∀ id, id ∉ new.stakes := fun id => AList.notMem_empty id
  exact each_fresh_of_nodup (fun staking id => id ∈ staking.stakes) (fun e => stakedId e.call)
    (mem_stakes_step order arith) hnew hids

/-! ### Totals -/

/-- The sum over the active stakes. -/
def activeTotal (f : ComputeStake → UInt64) (stakes : Store String ComputeStake) : UInt64 :=
  Store.total (fun stake => if stake.active then f stake else 0) stakes

section ActiveTotal

variable {f : ComputeStake → UInt64} {stakes : Store String ComputeStake} {id : String}
  {stake : ComputeStake}

theorem activeTotal_new (hnew : id ∉ stakes) (hactive : stake.active = true) :
    activeTotal f (stakes.assign id stake) = activeTotal f stakes + f stake := by
  rw [activeTotal, Store.total_assign_new _ stake (AList.lookup_eq_none.mpr hnew), if_pos hactive,
    add_comm]
  rfl

theorem activeTotal_unstaked (hlookup : stakes.lookup id = some stake)
    (hactive : stake.active = true) (credits : UInt64) (now : Seconds) :
    activeTotal f (stakes.assign id (stake.unstaked credits now))
      = activeTotal f stakes - f stake := by
  have hsum := Store.total_assign_of_lookup
    (fun stake : ComputeStake => if stake.active then f stake else 0)
    (stake.unstaked credits now) hlookup
  have hclosed : ¬ (stake.unstaked credits now).active = true := Bool.false_ne_true
  rw [if_pos hactive, if_neg hclosed, add_zero] at hsum
  exact eq_sub_of_add_eq hsum

theorem activeTotal_charged (hlookup : stakes.lookup id = some stake) (cost : UInt64)
    (hf : f (stake.charged cost) = f stake) :
    activeTotal f (stakes.assign id (stake.charged cost)) = activeTotal f stakes := by
  refine Store.total_assign_eq _ hlookup ?_
  show (if stake.active then _ else _) = _
  rw [hf]

end ActiveTotal

/-- The two counters are the sums over the active stakes. -/
structure Totals (staking : ComputeStaking) : Prop where
  cpuCores : staking.totalCpuCores = activeTotal (·.cpuCores) staking.stakes
  stakedCompute : staking.totalStakedCompute = activeTotal (·.computeUnits) staking.stakes

theorem totals_step (order : MapOrder) (arith : Doubles) (staking : ComputeStaking) (c : Call)
    (h : Totals staking) (hfresh : Fresh staking c) : Totals (step order arith staking c).2 := by
  rcases step_cases order arith staking c with ⟨hsame, _⟩ |
    ⟨staker, cores, ram, units, idNow, stampNow, rfl, hnew⟩ |
    ⟨stakeId, durationNow, stampNow, stake, rfl, ⟨hlookup, hactive, _⟩, _, hclosed⟩ |
    ⟨staker, cost, id, stake, rfl, hlookup, _, htaken⟩
  · rwa [hsame]
  · have hid := hfresh _ rfl
    rw [hnew]
    refine ⟨?_, ?_⟩
    · rw [activeTotal_new hid rfl, h.cpuCores]
      rfl
    · rw [activeTotal_new hid rfl, h.stakedCompute]
      rfl
  · rw [hclosed]
    refine ⟨?_, ?_⟩
    · rw [activeTotal_unstaked hlookup hactive, h.cpuCores]
    · rw [activeTotal_unstaked hlookup hactive, h.stakedCompute]
  · rw [htaken]
    refine ⟨?_, ?_⟩
    · rw [activeTotal_charged hlookup cost rfl, h.cpuCores]
    · rw [activeTotal_charged hlookup cost rfl, h.stakedCompute]

/-! ### The end of a stake -/

/-- A stake that is not active does not become active again. -/
def StaysClosed (_ : String) (stake stake' : ComputeStake) : Prop :=
  stake.active = false → stake'.active = false

theorem staysClosed_refl (id : String) (stake : ComputeStake) : StaysClosed id stake stake :=
  fun h => h

theorem staysClosed_trans (id : String) (s t u : ComputeStake) (hst : StaysClosed id s t)
    (htu : StaysClosed id t u) : StaysClosed id s u :=
  fun h => htu (hst h)

theorem staysClosed_step (order : MapOrder) (arith : Doubles) (staking : ComputeStaking) (c : Call)
    (hfresh : Fresh staking c) :
    Store.Evolves StaysClosed staking.stakes (step order arith staking c).2.stakes := by
  rcases step_cases order arith staking c with ⟨hsame, _⟩ |
    ⟨staker, cores, ram, units, idNow, stampNow, rfl, hnew⟩ |
    ⟨stakeId, durationNow, stampNow, stake, rfl, ⟨hlookup, _⟩, _, hclosed⟩ |
    ⟨staker, cost, id, stake, rfl, hlookup, _, htaken⟩
  · rw [hsame]
    exact Store.Evolves.refl staysClosed_refl _
  · rw [hnew]
    exact Store.evolves_assign_new staysClosed_refl _ (hfresh _ rfl)
  · rw [hclosed]
    exact Store.evolves_assign staysClosed_refl hlookup fun _ => rfl
  · rw [htaken]
    exact Store.evolves_assign staysClosed_refl hlookup fun h => h

theorem staysClosed_final (order : MapOrder) (arith : Doubles) {staking : ComputeStaking}
    {calls : List Call} (h : Each (step order arith) Fresh staking calls) :
    Store.Evolves StaysClosed staking.stakes (final (step order arith) staking calls).stakes := by
  refine final_rel (R := fun s t => Store.Evolves StaysClosed s.stakes t.stakes)
    (fun staking => Store.Evolves.refl staysClosed_refl _) ?_ (staysClosed_step order arith) h
  intro s t u hst htu
  exact hst.trans staysClosed_trans htu

/-- The stake is stored and not active. -/
def Closed (staking : ComputeStaking) (id : String) : Prop :=
  ∃ stake, staking.stakes.lookup id = some stake ∧ stake.active = false

theorem closed_final (order : MapOrder) (arith : Doubles) {staking : ComputeStaking}
    {calls : List Call} {id : String} (hfresh : Each (step order arith) Fresh staking calls)
    (h : Closed staking id) :
    Closed (final (step order arith) staking calls) id := by
  obtain ⟨stake, hlookup, hclosed⟩ := h
  obtain ⟨stake', hlookup', hstays⟩ := staysClosed_final order arith hfresh id stake hlookup
  exact ⟨stake', hlookup', hstays hclosed⟩

/-- A successful unstaking of `id`. -/
def unstakes (id : String) (e : Event ComputeStaking Call Reply) : Bool :=
  match e.call, e.result with
  | .unstakeCompute stakeId _ _, .unstaked (some _) => stakeId = id
  | _, _ => false

/-- A stake is unstaked while it is active and old enough, and is closed then. -/
theorem unstakes_spec {order : MapOrder} {arith : Doubles} {staking : ComputeStaking} {c : Call}
    {id : String} (h : unstakes id (event (step order arith) staking c) = true) :
    ∃ durationNow stampNow stake, c = .unstakeCompute id durationNow stampNow ∧
      staking.Due id durationNow stake ∧ Closed (step order arith staking c).2 id := by
  rw [unstakes] at h
  split at h
  · rename_i stakeId durationNow stampNow credits hcall hresult
    obtain rfl : c = .unstakeCompute stakeId durationNow stampNow := hcall
    obtain rfl : stakeId = id := of_decide_eq_true h
    rcases step_cases order arith staking (.unstakeCompute stakeId durationNow stampNow) with
      ⟨_, hfail⟩ | ⟨_, _, _, _, _, _, ⟨⟩, _⟩ |
      ⟨stakeId', durationNow', stampNow', stake, ⟨⟩, hdue, _, hclosed⟩ | ⟨_, _, _, _, ⟨⟩, _⟩
    · exact absurd hresult (hfail credits)
    · refine ⟨durationNow, stampNow, stake, rfl, hdue, ?_⟩
      rw [hclosed]
      exact ⟨_, Store.lookup_assign_self .., rfl⟩
  · cases h

theorem countP_unstakes_le_one (order : MapOrder) (arith : Doubles) {calls : List Call}
    (hfresh : Each (step order arith) Fresh new calls) (id : String) :
    (trace (step order arith) new calls).countP (unstakes id) ≤ 1 := by
  refine countP_le_one (D := fun staking => Closed staking id) ?_ ?_ ?_ hfresh
  · rintro staking c - hunstakes ⟨stake, hlookup, hclosed⟩
    obtain ⟨durationNow, stampNow, stake', -, ⟨hlookup', hactive, -⟩, -⟩ := unstakes_spec hunstakes
    obtain rfl : stake = stake' := Option.some.inj (hlookup.symm.trans hlookup')
    exact absurd (hclosed.symm.trans hactive) Bool.false_ne_true
  · intro staking c hc hclosed
    have hone : Each (step order arith) Fresh staking [c] := (each_cons c []).mpr ⟨hc, each_nil⟩
    exact closed_final order arith hone hclosed
  · intro staking c _ hunstakes
    obtain ⟨durationNow, stampNow, stake, -, -, hclosed⟩ := unstakes_spec hunstakes
    exact hclosed

/-- A stored stake was staked in the run, at the reading of its time stamp. -/
theorem staked_of_lookup (order : MapOrder) (arith : Doubles) (calls : List Call) {id : String}
    {stake : ComputeStake}
    (h : (final (step order arith) new calls).stakes.lookup id = some stake) :
    ∃ staker cores ram units idNow,
      .stakeCompute staker cores ram units idNow stake.stakedAt ∈ calls ∧
      computeStakeId staker idNow = id := by
  induction calls using List.reverseRecOn generalizing id stake with
  | nil => cases h
  | append_singleton calls c ih =>
    have hold : ∀ {id stake}, (final (step order arith) new calls).stakes.lookup id = some stake →
        ∃ staker cores ram units idNow,
          .stakeCompute staker cores ram units idNow stake.stakedAt ∈ calls ++ [c] ∧
          computeStakeId staker idNow = id := by
      intro id stake hlookup
      obtain ⟨staker, cores, ram, units, idNow, hmem, hid⟩ := ih hlookup
      exact ⟨staker, cores, ram, units, idNow, List.mem_append_left _ hmem, hid⟩
    rw [final_append, final_cons, final_nil] at h
    rcases step_cases order arith (final (step order arith) new calls) c with ⟨hsame, _⟩ |
      ⟨staker, cores, ram, units, idNow, stampNow, rfl, hnew⟩ |
      ⟨stakeId, durationNow, stampNow, old, rfl, ⟨hlookup, _⟩, _, hclosed⟩ |
      ⟨staker, cost, id', old, rfl, hlookup, _, htaken⟩
    · rw [hsame] at h
      exact hold h
    · rw [hnew] at h
      rcases Store.of_lookup_assign h with ⟨rfl, rfl⟩ | h
      · exact ⟨staker, cores, ram, units, idNow, by simp [newStake], rfl⟩
      · exact hold h
    · -- an unstaked stake keeps its time stamp
      rw [hclosed] at h
      rcases Store.of_lookup_assign h with ⟨rfl, rfl⟩ | h
      · have hstaked := hold hlookup
        exact hstaked
      · exact hold h
    · rw [htaken] at h
      rcases Store.of_lookup_assign h with ⟨rfl, rfl⟩ | h
      · have hstaked := hold hlookup
        exact hstaked
      · exact hold h

/-- An unstaking that fails changes nothing. -/
theorem step_of_unstaked_none {order : MapOrder} {arith : Doubles} {staking : ComputeStaking}
    {c : Call} (h : (step order arith staking c).1 = .unstaked none) :
    (step order arith staking c).2 = staking := by
  rcases step_cases order arith staking c with ⟨hsame, _⟩ |
    ⟨staker, cores, ram, units, idNow, stampNow, rfl, _⟩ |
    ⟨stakeId, durationNow, stampNow, stake, rfl, _, hok, _⟩ |
    ⟨staker, cost, id, stake, rfl, _, _, _⟩
  · exact hsame
  · cases h
  · rw [hok] at h
    cases h
  · cases h

/-! ### Every run -/

/-- What holds of a run from a fresh staking system. -/
structure StakingLaws (order : MapOrder) (arith : Doubles) (calls : List Call) : Prop where
  cpuCores : (final (step order arith) new calls).totalCpuCores.toNat
    = Store.total (fun stake => if stake.active then stake.cpuCores.toNat else 0)
        (final (step order arith) new calls).stakes % 2 ^ 64
  stakedCompute : (final (step order arith) new calls).totalStakedCompute.toNat
    = Store.total (fun stake => if stake.active then stake.computeUnits.toNat else 0)
        (final (step order arith) new calls).stakes % 2 ^ 64
  unstakedOnce : ∀ id, (trace (step order arith) new calls).countP (unstakes id) ≤ 1
  unstakedLate : ∀ pre stakeId durationNow stampNow,
    pre ++ [.unstakeCompute stakeId durationNow stampNow] <+: calls →
    unstakes stakeId (event (step order arith) (final (step order arith) new pre)
      (.unstakeCompute stakeId durationNow stampNow)) = true →
    ∃ staker cores ram units idNow stakedAt,
      .stakeCompute staker cores ram units idNow stakedAt ∈ pre ∧
      computeStakeId staker idNow = stakeId ∧ 3600 ≤ durationNow - stakedAt
  staysClosed : ∀ pre mid, pre ++ mid <+: calls → ∀ id,
    Closed (final (step order arith) new pre) id →
      Closed (final (step order arith) new (pre ++ mid)) id
  failing : ∀ e ∈ trace (step order arith) new calls,
    e.result = .unstaked none → e.after = e.before

/-- Over every run with distinct stake ids the two counters are the sums over the active
stakes modulo `2 ^ 64`, each stake is unstaked at most once and not within an hour of its
staking, it is never active again, and an unstaking that fails changes nothing. -/
theorem stakingLaws (order : MapOrder) (arith : Doubles) (calls : List Call)
    (hids : (stakeIds calls).Nodup) : StakingLaws order arith calls := by
  have hfresh := each_fresh order arith hids
  have htotals : Totals (final (step order arith) new calls) :=
    final_induction (totals_step order arith) ⟨rfl, rfl⟩ hfresh
  refine ⟨?_, ?_, countP_unstakes_le_one order arith hfresh, ?_, ?_, ?_⟩
  · rw [htotals.cpuCores]
    exact Words.toNat_total_if _ _ _
  · rw [htotals.stakedCompute]
    exact Words.toNat_total_if _ _ _
  · intro pre stakeId durationNow stampNow _ hunstakes
    obtain ⟨durationNow', stampNow', stake, hcall, ⟨hlookup, -, hold⟩, -⟩ :=
      unstakes_spec hunstakes
    cases hcall
    obtain ⟨staker, cores, ram, units, idNow, hmem, hid⟩ := staked_of_lookup order arith pre hlookup
    exact ⟨staker, cores, ram, units, idNow, stake.stakedAt, hmem, hid, hold⟩
  · intro pre mid hpre id hclosed
    rw [final_append]
    exact closed_final order arith (hfresh.between hpre) hclosed
  · exact forall_trace (fun staking c => step_of_unstaked_none) new calls

/-- Two stakes of a staker, one of which is unstaked too early, then in time, and again. -/
def stakeAndUnstake : List Call :=
  [.stakeCompute "alice" 2 4 100 0 0, .stakeCompute "alice" 3 4 200 1 1,
    .unstakeCompute (computeStakeId "alice" 0) 3599 3599,
    .unstakeCompute (computeStakeId "alice" 0) 3600 3600,
    .unstakeCompute (computeStakeId "alice" 0) 7200 7200, .consumeGasAllowance "alice" 5]

theorem stakingLaws_stakeAndUnstake :
    (final (step newestFirst (.exact .wrapping)) new stakeAndUnstake).totalCpuCores = 3 ∧
      StakingLaws newestFirst (.exact .wrapping) stakeAndUnstake :=
  ⟨by decide +kernel,
    stakingLaws newestFirst (.exact .wrapping) stakeAndUnstake (by decide +kernel)⟩

end ComputeStaking

end Membra
