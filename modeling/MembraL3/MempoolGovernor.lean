/-
The mempool governor.

`LLMMempoolGovernor` reviews pending transactions and recommends an action from the
average of their risks; it can also simulate an action, and compare it with the limits of
rules.  `OvermanifoldPolicy` keeps rules and decides whether an action is executed.  Of
thirteen actions the governor recommends four and can simulate four, three of them the
same, and the policy executes none that asks for approval.

Doubles are exact rationals, apart from the thresholds of rules: those are of any type
with a product and a comparison.  Scores are percentages of fractions between zero and
one (`percent`).

* `reviewTransaction_scores_le`, `computeNextAction_scores_le` — so none exceeds a hundred;
* `pendingAction_cases` — what is recommended while a transaction is pending;
* `executeAction_eq_true_iff` — what is executed;
* `recommendation_actionable` — what comes of a recommendation.
-/
import MembraL3.Clock
import MembraL3.Crypto
import MembraL3.Lib.Store
import Mathlib.Algebra.Order.BigOperators.Group.List
import Mathlib.Algebra.Order.Floor.Semiring
import Mathlib.Data.Rat.Floor
import Mathlib.Data.String.Basic
import Mathlib.Tactic.Linarith

namespace Membra

inductive TransactionIntent where
  | unknown
  | arbitrage
  | liquidityProvision
  | liquidityRemoval
  | swap
  | bridge
  | stake
  | unstake
  | governance
  | nftMint
  | nftTransfer
  | spam
  | attack
  | mevExtraction
  deriving DecidableEq

/-- The value of the enumerator. -/
def TransactionIntent.code : TransactionIntent → ℕ
  | .unknown => 0
  | .arbitrage => 1
  | .liquidityProvision => 2
  | .liquidityRemoval => 3
  | .swap => 4
  | .bridge => 5
  | .stake => 6
  | .unstake => 7
  | .governance => 8
  | .nftMint => 9
  | .nftTransfer => 10
  | .spam => 11
  | .attack => 12
  | .mevExtraction => 13

inductive NextAction where
  | doNothing
  | updateOracle
  | triggerAlert
  | createMerkleProof
  | scheduleWorker
  | rerouteLiquidity
  | rebalancePool
  | hedgeExposure
  | bridgeLiquidity
  | sponsorUserTx
  | delayTx
  | requireHumanApproval
  | blockUnsafeAction
  deriving DecidableEq

structure PendingTransaction where
  transactionHash : String
  network : String
  value : UInt64
  data : String
  gasPrice : UInt64
  deriving DecidableEq

structure MempoolState where
  pendingTransactions : List PendingTransaction
  oraclePrices : Store String ℚ
  liquidityDepth : Store String ℚ
  snapshotTimestamp : Int64

structure TransactionAnalysis where
  transactionHash : String
  intent : TransactionIntent
  arbitrageOpportunity : ℚ
  mevRisk : ℚ
  bridgeDemand : ℚ
  liquidityShift : ℚ
  spamOrAttackProbability : ℚ
  priceImpactEstimate : ℚ
  confirmationRisk : ℚ
  confidence : UInt8
  riskScore : UInt8
  rationale : String
  deriving DecidableEq

structure ActionRecommendation where
  action : NextAction
  targetProtocol : String
  confidence : UInt8
  riskScore : UInt8
  requiresHumanApproval : Bool
  unsignedTransactionPlan : String
  simulationResult : String
  policyComplianceProof : String
  timestamp : Int64
  deriving DecidableEq

/-- `ActionRecommendation()`. -/
def ActionRecommendation.default : ActionRecommendation :=
  ⟨.doNothing, "", 0, 0, false, "", "", "", 0⟩

structure MempoolObservationProof where
  observationId : String
  mempoolStateHash : Hash
  transactionHash : Hash
  observationTimestamp : Int64
  snapshotTimestamp : Int64
  network : String
  observerSignature : String
  deriving DecidableEq

structure PolicyRule (D : Type) where
  ruleId : String
  condition : String
  action : String
  priority : UInt8
  requiresHumanApproval : Bool
  maxRiskThreshold : D
  minConfidenceThreshold : D
  deriving DecidableEq

/-- `PolicyRule()`. -/
def PolicyRule.default {D : Type} [OfScientific D] : PolicyRule D :=
  ⟨"", "", "", 50, false, 0.7, 0.6⟩

section

variable {D : Type} [Mul D] [LT D] [DecidableLT D] [NatCast D]

/-- `risk_score > rule.max_risk_threshold * 100`. -/
def PolicyRule.exceeded (rule : PolicyRule D) (riskScore : UInt8) : Bool :=
  rule.maxRiskThreshold * (100 : ℕ) < (riskScore.toNat : D)

/-- `confidence < rule.min_confidence_threshold * 100`. -/
def PolicyRule.unmet (rule : PolicyRule D) (confidence : UInt8) : Bool :=
  (confidence.toNat : D) < rule.minConfidenceThreshold * (100 : ℕ)

end

structure SimulationResult where
  success : Bool
  expectedProfit : ℚ
  expectedGasCost : ℚ
  expectedSlippage : ℚ
  executionTimeSeconds : ℚ
  errorMessage : String
  warnings : List String
  deriving DecidableEq

/-- `SimulationResult()`. -/
def SimulationResult.default : SimulationResult := ⟨false, 0, 0, 0, 0, "", []⟩

/-- `static_cast<uint8_t>(x * 100)`, for a fraction between zero and one. -/
def percent (x : ℚ) : UInt8 := UInt8.ofNat ⌊x * 100⌋₊

theorem floor_hundred_le {x : ℚ} (hx : x ∈ Set.Icc 0 1) : ⌊x * 100⌋₊ ≤ 100 := by
  refine Nat.floor_le_of_le ?_
  calc x * 100 ≤ 1 * 100 := mul_le_mul_of_nonneg_right hx.2 (by norm_num)
    _ = (100 : ℕ) := by norm_num

/-- The conversion is in range. -/
theorem toNat_percent {x : ℚ} (hx : x ∈ Set.Icc 0 1) : (percent x).toNat = ⌊x * 100⌋₊ :=
  UInt8.toNat_ofNat_of_lt' ((floor_hundred_le hx).trans_lt (by decide))

theorem toNat_percent_le_hundred {x : ℚ} (hx : x ∈ Set.Icc 0 1) : (percent x).toNat ≤ 100 := by
  rw [toNat_percent hx]
  exact floor_hundred_le hx

theorem toNat_percent_le {x : ℚ} (hx : x ∈ Set.Icc 0 1) : (percent x).toNat / (100 : ℚ) ≤ x := by
  have hnonneg : 0 ≤ x * 100 := mul_nonneg hx.1 (by norm_num)
  have hfloor := Nat.floor_le hnonneg
  rw [toNat_percent hx, div_le_iff₀ (by norm_num)]
  exact hfloor

/-! ### The governor -/

structure LLMMempoolGovernor where
  policyRules : List (PolicyRule ℚ)
  riskThreshold : ℚ
  confidenceThreshold : ℚ
  deriving DecidableEq

namespace LLMMempoolGovernor

def new : LLMMempoolGovernor where
  policyRules := [{ PolicyRule.default with
    ruleId := "safety_first"
    condition := "risk_score < 70"
    action := "allow"
    priority := 100
    requiresHumanApproval := false }]
  riskThreshold := 7 / 10
  confidenceThreshold := 6 / 10

def setRiskThreshold (governor : LLMMempoolGovernor) (threshold : ℚ) : LLMMempoolGovernor :=
  { governor with riskThreshold := threshold }

/-- `data.find(pattern) != npos`. -/
def mentions (data pattern : String) : Bool := pattern.toList <:+: data.toList

def classifyIntent (tx : PendingTransaction) : TransactionIntent :=
  if tx.data = "" ∧ 0 < tx.value then .swap
  else if "0x".toList <+: tx.data.toList then .governance
  else if mentions tx.data "bridge" then .bridge
  else if mentions tx.data "stake" then .stake
  else if mentions tx.data "mint" then .nftMint
  else .unknown

def detectArbitrage (tx : PendingTransaction) : ℚ := if 1000000 < tx.value then 3 / 10 else 1 / 10

def detectMevRisk (tx : PendingTransaction) : ℚ :=
  if 1000000000 < tx.gasPrice then 5 / 10 else 1 / 10

def estimatePriceImpact (tx : PendingTransaction) (context : MempoolState) : ℚ :=
  let totalValue := Store.total (fun depth => depth) context.liquidityDepth
  if 0 < totalValue then min (tx.value.toNat / totalValue) 1 else 0

/-- What the confidence is a percentage of. -/
def confidenceFraction (mevRisk spamOrAttackProbability : ℚ) : ℚ :=
  (1 - mevRisk) * (1 - spamOrAttackProbability)

/-- What the risk score is a percentage of. -/
def riskFraction (mevRisk spamOrAttackProbability priceImpactEstimate : ℚ) : ℚ :=
  mevRisk * (4 / 10) + spamOrAttackProbability * (3 / 10) + priceImpactEstimate * (3 / 10)

def rationale (intent : TransactionIntent) (confidence riskScore : UInt8) : String :=
  "Transaction classified as " ++ toString intent.code ++
    " with confidence " ++ toString confidence.toNat ++
    "% and risk score " ++ toString riskScore.toNat ++ "%"

def reviewTransaction (tx : PendingTransaction) (context : MempoolState) :
    TransactionAnalysis :=
  let intent := classifyIntent tx
  let mevRisk := detectMevRisk tx
  let spamOrAttackProbability := 0
  let priceImpactEstimate := estimatePriceImpact tx context
  let confidence := percent (confidenceFraction mevRisk spamOrAttackProbability)
  let riskScore := percent (riskFraction mevRisk spamOrAttackProbability priceImpactEstimate)
  { transactionHash := tx.transactionHash
    intent := intent
    arbitrageOpportunity := detectArbitrage tx
    mevRisk := mevRisk
    bridgeDemand := 0
    liquidityShift := 0
    spamOrAttackProbability := spamOrAttackProbability
    priceImpactEstimate := priceImpactEstimate
    confirmationRisk := 1 / 10
    confidence := confidence
    riskScore := riskScore
    rationale := rationale intent confidence riskScore }

/-- The loop of `compute_next_action`: the two totals. -/
def totals (state : MempoolState) : ℚ × ℚ :=
  state.pendingTransactions.foldl (fun (totalArbitrage, totalRisk) tx =>
    let analysis := reviewTransaction tx state
    (totalArbitrage + analysis.arbitrageOpportunity,
      totalRisk + analysis.riskScore.toNat / 100)) (0, 0)

def averageRisk (state : MempoolState) : ℚ :=
  (totals state).2 / state.pendingTransactions.length

/-! Scores and averages are fractions -/

theorem detectMevRisk_mem (tx : PendingTransaction) :
    detectMevRisk tx ∈ Set.Icc (1 / 10) (5 / 10) := by
  rw [detectMevRisk]
  split
  · exact ⟨by norm_num, le_rfl⟩
  · exact ⟨le_rfl, by norm_num⟩

theorem estimatePriceImpact_mem (tx : PendingTransaction) (context : MempoolState) :
    estimatePriceImpact tx context ∈ Set.Icc 0 1 := by
  rw [estimatePriceImpact]
  split
  · rename_i htotal
    exact ⟨le_min (div_nonneg (Nat.cast_nonneg _) htotal.le) zero_le_one, min_le_right _ _⟩
  · exact ⟨le_rfl, zero_le_one⟩

theorem confidenceFraction_mem (tx : PendingTransaction) :
    confidenceFraction (detectMevRisk tx) 0 ∈ Set.Icc 0 1 := by
  obtain ⟨hlow, hhigh⟩ := detectMevRisk_mem tx
  rw [confidenceFraction, sub_zero, mul_one]
  exact ⟨by linarith, by linarith⟩

theorem riskFraction_mem (tx : PendingTransaction) (context : MempoolState) :
    riskFraction (detectMevRisk tx) 0 (estimatePriceImpact tx context) ∈ Set.Icc 0 1 := by
  obtain ⟨hlow, hhigh⟩ := detectMevRisk_mem tx
  obtain ⟨hlow', hhigh'⟩ := estimatePriceImpact_mem tx context
  rw [riskFraction, zero_mul, add_zero]
  exact ⟨by linarith, by linarith⟩

theorem reviewTransaction_scores_le (tx : PendingTransaction) (context : MempoolState) :
    (reviewTransaction tx context).confidence.toNat ≤ 100 ∧
      (reviewTransaction tx context).riskScore.toNat ≤ 100 :=
  ⟨toNat_percent_le_hundred (confidenceFraction_mem tx),
    toNat_percent_le_hundred (riskFraction_mem tx context)⟩

theorem riskScore_mem (tx : PendingTransaction) (context : MempoolState) :
    ((reviewTransaction tx context).riskScore.toNat : ℚ) / 100 ∈ Set.Icc 0 1 := by
  have hfraction := riskFraction_mem tx context
  have hle := toNat_percent_le hfraction
  exact ⟨by positivity, hle.trans hfraction.2⟩

/-- Both totals are sums over the transactions. -/
theorem totals_eq (state : MempoolState) :
    totals state =
      ((state.pendingTransactions.map fun tx =>
          (reviewTransaction tx state).arbitrageOpportunity).sum,
        (state.pendingTransactions.map fun tx =>
          ((reviewTransaction tx state).riskScore.toNat : ℚ) / 100).sum) := by
  have hfold (l : List PendingTransaction) (a r : ℚ) :
      l.foldl (fun (totalArbitrage, totalRisk) tx =>
          let analysis := reviewTransaction tx state
          (totalArbitrage + analysis.arbitrageOpportunity,
            totalRisk + (analysis.riskScore.toNat : ℚ) / 100)) (a, r)
        = (a + (l.map fun tx => (reviewTransaction tx state).arbitrageOpportunity).sum,
          r + (l.map fun tx => ((reviewTransaction tx state).riskScore.toNat : ℚ) / 100).sum) := by
    induction l generalizing a r with
    | nil => simp
    | cons tx l ih =>
      rw [List.foldl_cons, ih, List.map_cons, List.sum_cons, List.map_cons, List.sum_cons,
        add_assoc, add_assoc]
  rw [totals, hfold, zero_add, zero_add]

theorem averageRisk_mem (state : MempoolState) : averageRisk state ∈ Set.Icc 0 1 := by
  have hrisk : ∀ r ∈ state.pendingTransactions.map fun tx =>
      ((reviewTransaction tx state).riskScore.toNat : ℚ) / 100, r ∈ Set.Icc (0 : ℚ) 1 := by
    intro r hr
    obtain ⟨tx, -, rfl⟩ := List.mem_map.mp hr
    exact riskScore_mem tx state
  have hnonneg := List.sum_nonneg fun r hr => (hrisk r hr).1
  have hle := List.sum_le_card_nsmul _ 1 fun r hr => (hrisk r hr).2
  rw [List.length_map, nsmul_one] at hle
  rw [averageRisk, totals_eq]
  exact ⟨div_nonneg hnonneg (Nat.cast_nonneg _), div_le_one_of_le₀ hle (Nat.cast_nonneg _)⟩

/-- The action that the totals call for, where a transaction is pending. -/
def pendingAction (governor : LLMMempoolGovernor) (state : MempoolState) : ActionRecommendation :=
  if governor.riskThreshold < averageRisk state then
    { ActionRecommendation.default with
      action := .blockUnsafeAction
      requiresHumanApproval := true }
  else if 5 / 10 < (totals state).1 then
    { ActionRecommendation.default with
      action := .rerouteLiquidity
      targetProtocol := "uniswap" }
  else { ActionRecommendation.default with action := .doNothing }

theorem pendingAction_cases (governor : LLMMempoolGovernor) (state : MempoolState) :
    (governor.riskThreshold < averageRisk state ∧
        (governor.pendingAction state).action = .blockUnsafeAction ∧
        (governor.pendingAction state).requiresHumanApproval = true) ∨
      (averageRisk state ≤ governor.riskThreshold ∧
        ((governor.pendingAction state).action = .rerouteLiquidity ∨
          (governor.pendingAction state).action = .doNothing) ∧
        (governor.pendingAction state).requiresHumanApproval = false) := by
  rw [pendingAction]
  split
  · rename_i hrisk
    exact .inl ⟨hrisk, rfl, rfl⟩
  · rename_i hrisk
    refine .inr ⟨not_lt.mp hrisk, ?_⟩
    split
    · exact ⟨.inl rfl, rfl⟩
    · exact ⟨.inr rfl, rfl⟩

def computeNextAction (governor : LLMMempoolGovernor) (state : MempoolState)
    (now : Nanoseconds) : ActionRecommendation :=
  let recommendation :=
    if state.pendingTransactions ≠ [] then
      { governor.pendingAction state with
        confidence := percent (1 - averageRisk state)
        riskScore := percent (averageRisk state) }
    else
      { ActionRecommendation.default with
        action := .updateOracle
        confidence := 100
        riskScore := 0 }
  { recommendation with timestamp := .ofInt (wholeSeconds now) }

theorem computeNextAction_scores_le (governor : LLMMempoolGovernor) (state : MempoolState)
    (now : Nanoseconds) :
    (governor.computeNextAction state now).confidence.toNat ≤ 100 ∧
      (governor.computeNextAction state now).riskScore.toNat ≤ 100 := by
  obtain ⟨hnonneg, hle⟩ := averageRisk_mem state
  rw [computeNextAction]
  split
  · refine ⟨toNat_percent_le_hundred ?_, toNat_percent_le_hundred ⟨hnonneg, hle⟩⟩
    exact ⟨by linarith, by linarith⟩
  · exact ⟨le_rfl, Nat.zero_le 100⟩

section

variable (governor : LLMMempoolGovernor) {state : MempoolState} (now : Nanoseconds)

theorem computeNextAction_action (h : state.pendingTransactions ≠ []) :
    (governor.computeNextAction state now).action = (governor.pendingAction state).action := by
  rw [computeNextAction, if_pos h]

theorem computeNextAction_requiresHumanApproval (h : state.pendingTransactions ≠ []) :
    (governor.computeNextAction state now).requiresHumanApproval
      = (governor.pendingAction state).requiresHumanApproval := by
  rw [computeNextAction, if_pos h]

/-- Only a block asks for approval. -/
theorem computeNextAction_eq_block_iff (h : state.pendingTransactions ≠ []) :
    (governor.computeNextAction state now).action = .blockUnsafeAction ↔
      (governor.computeNextAction state now).requiresHumanApproval = true := by
  rw [computeNextAction_action governor now h,
    computeNextAction_requiresHumanApproval governor now h]
  rcases governor.pendingAction_cases state with ⟨-, haction, happroval⟩ | ⟨-, haction, happroval⟩
  · exact iff_of_true haction happroval
  · rw [happroval]
    refine iff_of_false ?_ Bool.false_ne_true
    intro hblock
    rw [hblock] at haction
    exact haction.elim NextAction.noConfusion NextAction.noConfusion

end

def simulateAction (action : ActionRecommendation) : SimulationResult :=
  match action.action with
  | .rerouteLiquidity =>
    { SimulationResult.default with
      success := true
      expectedProfit := 1 / 1000
      expectedGasCost := 1 / 10000
      expectedSlippage := 5 / 10000
      executionTimeSeconds := 2 }
  | .hedgeExposure =>
    { SimulationResult.default with
      success := true
      expectedProfit := 5 / 10000
      expectedGasCost := 5 / 100000
      expectedSlippage := 2 / 10000
      executionTimeSeconds := 15 / 10 }
  | .blockUnsafeAction =>
    { SimulationResult.default with
      success := true
      expectedProfit := 0
      expectedGasCost := 0
      expectedSlippage := 0
      executionTimeSeconds := 1 / 10 }
  | .doNothing =>
    { SimulationResult.default with
      success := true
      expectedProfit := 0
      expectedGasCost := 0
      expectedSlippage := 0
      executionTimeSeconds := 0 }
  | _ =>
    { SimulationResult.default with
      success := false
      errorMessage := "Unknown action type" }

theorem simulateAction_success_iff (action : ActionRecommendation) :
    (simulateAction action).success = true ↔
      action.action ∈
        [NextAction.rerouteLiquidity, .hedgeExposure, .blockUnsafeAction, .doNothing] := by
  rw [simulateAction]
  generalize action.action = a
  cases a <;> decide

/-- Of a rule, only the two thresholds are read. -/
def checkPolicyCompliance {D : Type} [Mul D] [LT D] [DecidableLT D] [NatCast D]
    (action : ActionRecommendation) (rules : List (PolicyRule D)) : Bool :=
  rules.all fun rule => !rule.exceeded action.riskScore && !rule.unmet action.confidence

/-! Observations -/

/-- What `hash_mempool_state` hashes: the hashes of the transactions and the prices, in
the order of their tokens. -/
def stateText (state : MempoolState) : List UInt8 :=
  (state.pendingTransactions.flatMap fun tx => bytesOf tx.transactionHash) ++
    state.oraclePrices.sortedValues.flatMap fun price => bytesOf (toStringDouble price)

def hashMempoolState (sha256 : Sha256) (state : MempoolState) : Hash := sha256 (stateText state)

def observationId (sha256 : Sha256) (now : Nanoseconds) : String :=
  let hash := sha256 (bytesOf ("mempool_observation_" ++ toString (milliseconds now)))
  hex (hash.toList.take 16)

def observeMempool (sha256 : Sha256) (state : MempoolState) (now : Nanoseconds) :
    MempoolObservationProof where
  observationId := observationId sha256 now
  mempoolStateHash := hashMempoolState sha256 state
  transactionHash := zeroHash
  observationTimestamp := .ofInt (wholeSeconds now)
  snapshotTimestamp := state.snapshotTimestamp
  network := (state.pendingTransactions.head?.map PendingTransaction.network).getD ""
  observerSignature := "observer_signature_" ++ observationId sha256 now

end LLMMempoolGovernor

/-! ### The policy -/

structure OvermanifoldPolicy (D : Type) where
  policyRules : List (PolicyRule D)
  deriving DecidableEq

namespace OvermanifoldPolicy

variable {D : Type}

def new (D : Type) [OfScientific D] : OvermanifoldPolicy D where
  policyRules := [{ PolicyRule.default with
    ruleId := "safety_check"
    condition := "always"
    action := "verify"
    priority := 100
    requiresHumanApproval := true
    maxRiskThreshold := 0.5 }]

def addPolicyRule (policy : OvermanifoldPolicy D) (rule : PolicyRule D) :
    OvermanifoldPolicy D :=
  { policy with policyRules := policy.policyRules ++ [rule] }

/-- Removes all rules of the id. -/
def removePolicyRule (policy : OvermanifoldPolicy D) (ruleId : String) : OvermanifoldPolicy D :=
  { policy with policyRules := policy.policyRules.filter fun rule => rule.ruleId ≠ ruleId }

def getActiveRules (policy : OvermanifoldPolicy D) : List (PolicyRule D) :=
  policy.policyRules

def isActionSafe (action : ActionRecommendation) : Bool :=
  if action.action = .blockUnsafeAction then true
  else if action.action = .doNothing then true
  else 50 < action.confidence

def isWithinRiskLimits [Mul D] [LT D] [DecidableLT D] [NatCast D] (policy : OvermanifoldPolicy D)
    (action : ActionRecommendation) : Bool :=
  policy.policyRules.all fun rule => !rule.exceeded action.riskScore

/-- No approval is ever found. -/
def hasRequiredApprovals (action : ActionRecommendation) : Bool :=
  if action.requiresHumanApproval then false else true

variable [Mul D] [LT D] [DecidableLT D] [NatCast D]

def executeAction (policy : OvermanifoldPolicy D) (action : ActionRecommendation)
    (simulation : SimulationResult) : Bool :=
  if !isActionSafe action then false
  else if !policy.isWithinRiskLimits action then false
  else if !hasRequiredApprovals action then false
  else if !simulation.success then false
  else true

theorem executeAction_eq_true_iff (policy : OvermanifoldPolicy D) (action : ActionRecommendation)
    (simulation : SimulationResult) :
    policy.executeAction action simulation = true ↔
      isActionSafe action = true ∧ policy.isWithinRiskLimits action = true ∧
        action.requiresHumanApproval = false ∧ simulation.success = true := by
  rw [executeAction, hasRequiredApprovals]
  cases isActionSafe action <;> cases policy.isWithinRiskLimits action <;>
    cases action.requiresHumanApproval <;> cases simulation.success <;> decide

/-- No policy executes an action that asks for approval. -/
theorem executeAction_of_requiresHumanApproval (policy : OvermanifoldPolicy D)
    {action : ActionRecommendation} (h : action.requiresHumanApproval = true)
    (simulation : SimulationResult) : policy.executeAction action simulation = false := by
  rw [Bool.eq_false_iff, Ne, executeAction_eq_true_iff]
  rintro ⟨-, -, happroval, -⟩
  rw [h] at happroval
  exact Bool.false_ne_true happroval.symm

end OvermanifoldPolicy

/-! ### Recommendations -/

open LLMMempoolGovernor OvermanifoldPolicy

/-- While a transaction is pending, every recommendation can be simulated, and a block
waits for the approval of a human, under every policy and after every simulation. -/
theorem recommendation_actionable (governor : LLMMempoolGovernor) (state : MempoolState)
    (now : Nanoseconds) (h : state.pendingTransactions ≠ []) :
    (simulateAction (governor.computeNextAction state now)).success = true ∧
      ((governor.computeNextAction state now).action = .blockUnsafeAction →
        (governor.computeNextAction state now).requiresHumanApproval = true ∧
          ∀ (policy : OvermanifoldPolicy ℚ) (simulation : SimulationResult),
            policy.executeAction (governor.computeNextAction state now) simulation = false) := by
  constructor
  · rw [simulateAction_success_iff, computeNextAction_action governor now h]
    rcases governor.pendingAction_cases state with ⟨-, haction, -⟩ | ⟨-, haction | haction, -⟩
    · rw [haction]
      decide
    · rw [haction]
      decide
    · rw [haction]
      decide
  · intro hblock
    have happroval := (computeNextAction_eq_block_iff governor now h).mp hblock
    exact ⟨happroval, fun policy simulation =>
      policy.executeAction_of_requiresHumanApproval happroval simulation⟩

/-- A mempool with one dear transaction and no liquidity. -/
def dearMempool : MempoolState where
  pendingTransactions := [⟨"tx_1", "ethereum", 5, "", 2000000000⟩]
  oraclePrices := ∅
  liquidityDepth := ∅
  snapshotTimestamp := 0

theorem recommendation_actionable_dearMempool :
    let governor := LLMMempoolGovernor.new.setRiskThreshold (1 / 10)
    dearMempool.pendingTransactions ≠ [] ∧
      (simulateAction (governor.computeNextAction dearMempool 0)).success = true ∧
      ((governor.computeNextAction dearMempool 0).action = .blockUnsafeAction →
        (governor.computeNextAction dearMempool 0).requiresHumanApproval = true ∧
          ∀ (policy : OvermanifoldPolicy ℚ) (simulation : SimulationResult),
            policy.executeAction (governor.computeNextAction dearMempool 0) simulation = false) :=
  ⟨by decide, recommendation_actionable _ dearMempool 0 (by decide)⟩

/-- An empty mempool asks for an update of the oracle, which cannot be simulated; and a
block within the limits of the default policy does not take effect. -/
theorem not_forall_actionable :
    (¬ ∀ (governor : LLMMempoolGovernor) (state : MempoolState) (now : Nanoseconds),
      (simulateAction (governor.computeNextAction state now)).success = true) ∧
    (¬ ∀ (governor : LLMMempoolGovernor) (state : MempoolState) (now : Nanoseconds),
      (governor.computeNextAction state now).action = .blockUnsafeAction →
      (OvermanifoldPolicy.new ℚ).isWithinRiskLimits (governor.computeNextAction state now) = true →
      (OvermanifoldPolicy.new ℚ).executeAction (governor.computeNextAction state now)
        (simulateAction (governor.computeNextAction state now)) = true) := by
  constructor
  · intro h
    have hempty := h .new ⟨[], ∅, ∅, 0⟩ 0
    revert hempty
    decide +kernel
  · intro h
    have hblock := h (LLMMempoolGovernor.new.setRiskThreshold (1 / 10)) dearMempool 0
      (by decide +kernel) (by decide +kernel)
    revert hblock
    decide +kernel

end Membra
