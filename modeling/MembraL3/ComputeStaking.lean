/-
Compute staking.

Stakers receive a grant of gas credits for their cores; each stake carries an
allowance of credits that transactions consume.  Consuming looks for a stake
that covers the whole cost in the iteration order of the stake map, which the
program leaves to `std::unordered_map`: here it is a parameter, any permutation
of the keys (`MapOrder`).

* `consumeGasAllowance_cases` — consumption takes the whole cost from one active
  stake of the staker, or changes nothing;
* `unstakeCompute_cases` — what unstaking does.
-/
import MembraL3.Clock
import MembraL3.Conversion
import MembraL3.MapOrder
import MembraL3.Lib.Words

namespace Membra

structure ComputeStake where
  stakeId : String
  stakerAddress : String
  cpuCores : UInt64
  ramGb : UInt64
  computeUnits : UInt64
  stakedAt : Seconds
  /-- 0 while staked. -/
  unstakedAt : Seconds
  active : Bool
  rewardRate : ℚ
  instantCreditGrant : UInt64
  totalCreditGrantsIssued : UInt64
  gasCreditAllowance : UInt64
  redeemable : Bool
  deriving DecidableEq

namespace ComputeStake

/-- The stake after `gasCost` is consumed from its allowance. -/
def charged (stake : ComputeStake) (gasCost : UInt64) : ComputeStake :=
  { stake with gasCreditAllowance := stake.gasCreditAllowance - gasCost }

/-- The stake after unstaking with `additionalCredits` earned. -/
def unstaked (stake : ComputeStake) (additionalCredits : UInt64) (now : Seconds) : ComputeStake :=
  { stake with
    totalCreditGrantsIssued := stake.totalCreditGrantsIssued + additionalCredits
    active := false
    unstakedAt := now }

end ComputeStake

structure ComputeStaking where
  stakes : Store String ComputeStake
  totalStakedCompute : UInt64
  totalCpuCores : UInt64
  totalCreditGrantsIssued : UInt64

namespace ComputeStaking

def gasCreditsPerCorePerSec : ℚ := 1000

def minStakeDurationSec : Seconds := 3600

def rewardMultiplier : ℚ := 3 / 2

def creditGrantPerCore : UInt64 := 10000000000

def gasCreditAllowancePerCore : UInt64 := 10000000000

def new : ComputeStaking where
  stakes := ∅
  totalStakedCompute := 0
  totalCpuCores := 0
  totalCreditGrantsIssued := 0

/-! ### Operations -/

/-- Both products are rounded, and so are the units when they become a double. -/
def calculateTimeRewards (arith : Doubles) (stake : ComputeStake) (duration : Seconds) : UInt64 :=
  let units := arith.round stake.computeUnits.toNat
  let reward := arith.round (arith.round (units * stake.rewardRate) * duration)
  arith.cast (.number reward)

/-- The id of a new stake. -/
def computeStakeId (stakerAddress : String) (now : Seconds) : String :=
  "stake_" ++ stakerAddress ++ "_" ++ toStringDouble now

/-- The stake that `stake_compute` fills in. -/
def newStake (stakerAddress : String) (cpuCores ramGb computeUnits : UInt64)
    (idNow stampNow : Seconds) : ComputeStake where
  stakeId := computeStakeId stakerAddress idNow
  stakerAddress := stakerAddress
  cpuCores := cpuCores
  ramGb := ramGb
  computeUnits := computeUnits
  stakedAt := stampNow
  unstakedAt := 0
  active := true
  rewardRate := gasCreditsPerCorePerSec * rewardMultiplier
  instantCreditGrant := cpuCores * creditGrantPerCore
  totalCreditGrantsIssued := cpuCores * creditGrantPerCore
  gasCreditAllowance := cpuCores * gasCreditAllowancePerCore
  redeemable := false

/-- Returns the id and the out parameter `credit_grant`. -/
def stakeCompute (staking : ComputeStaking) (stakerAddress : String)
    (cpuCores ramGb computeUnits : UInt64) (idNow stampNow : Seconds) :
    (String × UInt64) × ComputeStaking :=
  let stakeId := computeStakeId stakerAddress idNow
  let creditGrant := cpuCores * creditGrantPerCore
  let stake := newStake stakerAddress cpuCores ramGb computeUnits idNow stampNow
  ((stakeId, creditGrant),
    { stakes := staking.stakes.assign stakeId stake
      totalStakedCompute := staking.totalStakedCompute + computeUnits
      totalCpuCores := staking.totalCpuCores + cpuCores
      totalCreditGrantsIssued := staking.totalCreditGrantsIssued + creditGrant })

/-- Returns the out parameter `additional_credits`, or `none` for `false`; the
clock is read once for the duration and once for the time stamp. -/
def unstakeCompute (arith : Doubles) (staking : ComputeStaking) (stakeId : String)
    (durationNow stampNow : Seconds) : Option UInt64 × ComputeStaking :=
  match staking.stakes.lookup stakeId with
  | none => (none, staking)
  | some stake =>
    if !stake.active then (none, staking)
    else
      -- the difference of two readings of the clock is a double
      let duration := durationNow - stake.stakedAt
      if duration < minStakeDurationSec then (none, staking)
      else
        let additionalCredits := calculateTimeRewards arith stake duration
        (some additionalCredits,
          { staking with
            stakes := staking.stakes.assign stakeId (stake.unstaked additionalCredits stampNow)
            totalStakedCompute := staking.totalStakedCompute - stake.computeUnits
            totalCpuCores := staking.totalCpuCores - stake.cpuCores })

/-- The stake covers a cost of this staker. -/
def covers (stakerAddress : String) (gasCost : UInt64) (stake : ComputeStake) : Bool :=
  stake.stakerAddress = stakerAddress ∧ stake.active ∧ stake.gasCreditAllowance ≥ gasCost

/-- The loop of `consume_gas_allowance` over the keys of the map. -/
def consumeLoop (stakerAddress : String) (gasCost : UInt64) (stakes : Store String ComputeStake) :
    List String → Bool × Store String ComputeStake
  | [] => (false, stakes)
  | id :: ids =>
    match stakes.lookup id with
    | none => consumeLoop stakerAddress gasCost stakes ids
    | some stake =>
      if covers stakerAddress gasCost stake then
        (true, stakes.assign id (stake.charged gasCost))
      else consumeLoop stakerAddress gasCost stakes ids

def consumeGasAllowance (order : MapOrder) (staking : ComputeStaking) (stakerAddress : String)
    (gasCost : UInt64) : Bool × ComputeStaking :=
  let (consumed, stakes) :=
    consumeLoop stakerAddress gasCost staking.stakes (order.order staking.stakes.keys)
  (consumed, { staking with stakes := stakes })

def getStake (staking : ComputeStaking) (stakeId : String) : Option ComputeStake :=
  staking.stakes.lookup stakeId

/-- In the iteration order of the map. -/
def getStakerStakes (order : MapOrder) (staking : ComputeStaking) (stakerAddress : String) :
    List ComputeStake :=
  ((order.order staking.stakes.keys).filterMap staking.stakes.lookup).filter
    (·.stakerAddress = stakerAddress)

/-- The loop of `get_gas_allowance` over the keys of the map. -/
def allowanceLoop (stakerAddress : String) (stakes : Store String ComputeStake) :
    List String → UInt64
  | [] => 0
  | id :: ids =>
    match stakes.lookup id with
    | none => allowanceLoop stakerAddress stakes ids
    | some stake =>
      if stake.stakerAddress = stakerAddress ∧ stake.active then stake.gasCreditAllowance
      else allowanceLoop stakerAddress stakes ids

def getGasAllowance (order : MapOrder) (staking : ComputeStaking) (stakerAddress : String) :
    UInt64 :=
  allowanceLoop stakerAddress staking.stakes (order.order staking.stakes.keys)

def currentGasCreditRate (arith : Doubles) (staking : ComputeStaking) : UInt64 :=
  let cores := arith.round staking.totalCpuCores.toNat
  arith.cast (.number (arith.round (cores * gasCreditsPerCorePerSec)))

/-! ### What an operation does -/

theorem consumeLoop_cases (staker : String) (cost : UInt64) (stakes : Store String ComputeStake)
    (ids : List String) :
    consumeLoop staker cost stakes ids = (false, stakes) ∨
    ∃ id stake, stakes.lookup id = some stake ∧ covers staker cost stake = true ∧
      consumeLoop staker cost stakes ids = (true, stakes.assign id (stake.charged cost)) := by
  induction ids with
  | nil => exact .inl rfl
  | cons id ids ih =>
    rw [consumeLoop]
    cases hlookup : stakes.lookup id with
    | none => exact ih
    | some stake =>
      by_cases hcovers : covers staker cost stake = true
      · -- the first stake that covers the cost pays it
        right
        refine ⟨id, stake, hlookup, hcovers, ?_⟩
        simp only [hcovers, if_true]
      · simp only [hcovers]
        exact ih

/-- Consumption takes the whole cost from one active stake of the staker, or
changes nothing. -/
theorem consumeGasAllowance_cases (order : MapOrder) (staking : ComputeStaking) (staker : String)
    (cost : UInt64) :
    staking.consumeGasAllowance order staker cost = (false, staking) ∨
    ∃ id stake, staking.stakes.lookup id = some stake ∧ stake.stakerAddress = staker ∧
      stake.active = true ∧ cost ≤ stake.gasCreditAllowance ∧
      staking.consumeGasAllowance order staker cost
        = (true, { staking with stakes := staking.stakes.assign id (stake.charged cost) }) := by
  rw [consumeGasAllowance]
  rcases consumeLoop_cases staker cost staking.stakes (order.order staking.stakes.keys) with
    h | ⟨id, stake, hlookup, hcovers, h⟩
  · left
    rw [h]
  · right
    obtain ⟨hstaker, hactive, hcost⟩ := of_decide_eq_true hcovers
    refine ⟨id, stake, hlookup, hstaker, hactive, hcost, ?_⟩
    rw [h]

/-- A refusal changes nothing. -/
theorem consumeGasAllowance_of_false {order : MapOrder} {staking : ComputeStaking}
    {staker : String} {cost : UInt64}
    (h : (staking.consumeGasAllowance order staker cost).1 = false) :
    (staking.consumeGasAllowance order staker cost).2 = staking := by
  rcases staking.consumeGasAllowance_cases order staker cost with hsame | ⟨_, _, _, _, _, _, hpaid⟩
  · rw [hsame]
  · rw [hpaid] at h
    exact absurd h (by simp)

/-- A stake of the staker covers the cost. -/
def CanConsume (staking : ComputeStaking) (staker : String) (cost : UInt64) : Prop :=
  ∃ id stake, staking.stakes.lookup id = some stake ∧ covers staker cost stake = true

theorem consumeLoop_eq_true_iff (staker : String) (cost : UInt64)
    (stakes : Store String ComputeStake) (ids : List String) :
    (consumeLoop staker cost stakes ids).1 = true ↔
      ∃ id ∈ ids, ∃ stake, stakes.lookup id = some stake ∧ covers staker cost stake = true := by
  induction ids with
  | nil => simp [consumeLoop]
  | cons id ids ih =>
    rw [consumeLoop]
    cases hlookup : stakes.lookup id with
    | none => simp [hlookup, ih]
    | some stake =>
      by_cases hcovers : covers staker cost stake = true
      · simp [hlookup, hcovers]
      · simp [hlookup, hcovers, ih]

/-- In any iteration order a cost is consumed exactly if a stake covers it. -/
theorem consumeGasAllowance_eq_true_iff (order : MapOrder) (staking : ComputeStaking)
    (staker : String) (cost : UInt64) :
    (staking.consumeGasAllowance order staker cost).1 = true ↔
      staking.CanConsume staker cost := by
  show (consumeLoop staker cost staking.stakes _).1 = true ↔ _
  rw [consumeLoop_eq_true_iff]
  constructor
  · rintro ⟨id, -, stake, hstake⟩
    exact ⟨id, stake, hstake⟩
  · rintro ⟨id, stake, hstake⟩
    have hmem : id ∈ staking.stakes.keys := Store.mem_of_lookup hstake.1
    exact ⟨id, (order.perm staking.stakes.keys).mem_iff.mpr hmem, stake, hstake⟩

/-- `stake` is stored, active and old enough to be unstaked at this reading. -/
def Due (staking : ComputeStaking) (stakeId : String) (durationNow : Seconds)
    (stake : ComputeStake) : Prop :=
  staking.stakes.lookup stakeId = some stake ∧ stake.active = true ∧
    minStakeDurationSec ≤ durationNow - stake.stakedAt

theorem unstakeCompute_of_due (arith : Doubles) {staking : ComputeStaking} {stakeId : String}
    {durationNow : Seconds} {stake : ComputeStake} (h : staking.Due stakeId durationNow stake)
    (stampNow : Seconds) :
    staking.unstakeCompute arith stakeId durationNow stampNow =
      (some (calculateTimeRewards arith stake (durationNow - stake.stakedAt)),
        { staking with
          stakes := staking.stakes.assign stakeId
            (stake.unstaked
              (calculateTimeRewards arith stake (durationNow - stake.stakedAt)) stampNow)
          totalStakedCompute := staking.totalStakedCompute - stake.computeUnits
          totalCpuCores := staking.totalCpuCores - stake.cpuCores }) := by
  obtain ⟨hlookup, hactive, hold⟩ := h
  have hearly : ¬ durationNow - stake.stakedAt < minStakeDurationSec := not_lt.mpr hold
  simp [unstakeCompute, hlookup, hactive, hearly]

theorem unstakeCompute_of_not_due (arith : Doubles) {staking : ComputeStaking} {stakeId : String}
    {durationNow : Seconds} (h : ∀ stake, ¬ staking.Due stakeId durationNow stake)
    (stampNow : Seconds) :
    staking.unstakeCompute arith stakeId durationNow stampNow = (none, staking) := by
  rw [unstakeCompute]
  cases hlookup : staking.stakes.lookup stakeId with
  | none => rfl
  | some stake =>
    by_cases hactive : stake.active = true
    · have hearly : durationNow - stake.stakedAt < minStakeDurationSec :=
        not_le.mp fun hold => h stake ⟨hlookup, hactive, hold⟩
      simp [hactive, hearly]
    · simp [hactive]

/-- Unstaking closes an active stake, or changes nothing. -/
theorem unstakeCompute_cases (arith : Doubles) (staking : ComputeStaking) (stakeId : String)
    (durationNow stampNow : Seconds) :
    staking.unstakeCompute arith stakeId durationNow stampNow = (none, staking) ∨
    ∃ stake credits, staking.stakes.lookup stakeId = some stake ∧ stake.active = true ∧
      minStakeDurationSec ≤ durationNow - stake.stakedAt ∧
      staking.unstakeCompute arith stakeId durationNow stampNow = (some credits,
        { staking with
          stakes := staking.stakes.assign stakeId (stake.unstaked credits stampNow)
          totalStakedCompute := staking.totalStakedCompute - stake.computeUnits
          totalCpuCores := staking.totalCpuCores - stake.cpuCores }) := by
  by_cases hdue : ∃ stake, staking.Due stakeId durationNow stake
  · right
    obtain ⟨stake, hdue⟩ := hdue
    exact ⟨stake, _, hdue.1, hdue.2.1, hdue.2.2, unstakeCompute_of_due arith hdue stampNow⟩
  · left
    exact unstakeCompute_of_not_due arith (not_exists.mp hdue) stampNow

end ComputeStaking

end Membra
