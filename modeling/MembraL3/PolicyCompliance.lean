/-
Execution and compliance.

The governor and the policy judge an action by the same rules.  Both compare its risk with
the maximum of each; `check_policy_compliance` also asks for the minimum confidence, which
`execute_action` does not read, having a bound of its own for some of the actions.  That a
rule requires the approval of a human is read by neither.

* `mem_getActiveRules_iff` — which rules are active after a list of changes;
* `respectsPolicy_iff` — what is executed complies exactly if no active rule asks for
  what is not read.
-/
import MembraL3.MempoolGovernor
import MembraL3.Lib.Runs

namespace Membra

namespace OvermanifoldPolicy

open Runs LLMMempoolGovernor

/-! ### The active rules -/

inductive Call (D : Type) where
  | addPolicyRule (rule : PolicyRule D)
  | removePolicyRule (ruleId : String)
  deriving DecidableEq

variable {D : Type}

def step (policy : OvermanifoldPolicy D) : Call D → Unit × OvermanifoldPolicy D
  | .addPolicyRule rule => ((), policy.addPolicyRule rule)
  | .removePolicyRule ruleId => ((), policy.removePolicyRule ruleId)

/-- The rules of a new policy, as calls. -/
def defaults (D : Type) [OfScientific D] : List (Call D) :=
  (OvermanifoldPolicy.new D).policyRules.map .addPolicyRule

/-- The rule is one of the defaults or has been added, and no rule of its id has been
removed since. -/
def Active [OfScientific D] (calls : List (Call D)) (rule : PolicyRule D) : Prop :=
  ∃ earlier later, defaults D ++ calls = earlier ++ .addPolicyRule rule :: later ∧
    .removePolicyRule rule.ruleId ∉ later

variable {calls : List (Call D)} {policy : OvermanifoldPolicy D} {action : ActionRecommendation}
  {simulation : SimulationResult} {rule : PolicyRule D}

/-- What an event adds. -/
def added (e : Event (OvermanifoldPolicy D) (Call D) Unit) : Option (PolicyRule D) :=
  match e.call with
  | .addPolicyRule rule => some rule
  | .removePolicyRule _ => none

theorem added_eq_some_iff {call : Call D} :
    added (event step policy call) = some rule ↔ call = .addPolicyRule rule := by
  cases call with
  | addPolicyRule rule' => simp [added]
  | removePolicyRule ruleId => simp [added]

/-- A rule is active after a call if the call has added it, or has not removed it. -/
theorem mem_getActiveRules_step (policy : OvermanifoldPolicy D) (call : Call D)
    (rule : PolicyRule D) :
    rule ∈ (step policy call).2.getActiveRules ↔
      added (event step policy call) = some rule ∨
        (rule ∈ policy.getActiveRules ∧ ¬ call = .removePolicyRule rule.ruleId) := by
  rw [added_eq_some_iff]
  cases call with
  | addPolicyRule rule' =>
    have hmem : rule ∈ policy.policyRules ++ [rule'] ↔
        rule ∈ policy.policyRules ∨ rule = rule' := by
      rw [List.mem_append, List.mem_singleton]
    refine hmem.trans ?_
    rw [or_comm, Call.addPolicyRule.injEq, eq_comm]
    exact or_congr_right (and_iff_left nofun).symm
  | removePolicyRule ruleId =>
    have hmem : rule ∈ policy.policyRules.filter (fun rule => rule.ruleId ≠ ruleId) ↔
        rule ∈ policy.policyRules ∧ rule.ruleId ≠ ruleId := by
      rw [List.mem_filter, decide_eq_true_eq]
    refine hmem.trans ?_
    rw [Call.removePolicyRule.injEq, @eq_comm _ ruleId]
    exact (or_iff_right nofun).symm

theorem mem_getActiveRules_iff [OfScientific D] :
    rule ∈ (final step (.new D) calls).getActiveRules ↔ Active calls rule := by
  -- a new policy is an empty one to which its defaults have been added
  have hnew : final step (.new D) calls = final step ⟨[]⟩ (defaults D ++ calls) := by
    rw [final_append]
    rfl
  have hempty : ∀ rule, rule ∉ (⟨[]⟩ : OvermanifoldPolicy D).getActiveRules :=
    fun _ => List.not_mem_nil
  rw [hnew, live_final_iff (fun policy rule => rule ∈ policy.getActiveRules) added hempty
    mem_getActiveRules_step]
  simp only [added_eq_some_iff]
  constructor
  · rintro ⟨earlier, call, later, hsplit, rfl, hkept⟩
    exact ⟨earlier, later, hsplit, fun hremoved => hkept _ hremoved rfl⟩
  · rintro ⟨earlier, later, hsplit, hkept⟩
    refine ⟨earlier, _, later, hsplit, rfl, ?_⟩
    rintro call hcall rfl
    exact hkept hcall

/-! ### What is executed -/

variable [Mul D] [LT D] [DecidableLT D] [NatCast D]

/-- An executed action complies with the active rules, and has the approval that they
require. -/
def RespectsPolicy (policy : OvermanifoldPolicy D) (action : ActionRecommendation)
    (simulation : SimulationResult) : Prop :=
  policy.executeAction action simulation = true →
    checkPolicyCompliance action policy.getActiveRules = true ∧
      ∀ rule ∈ policy.getActiveRules, rule.requiresHumanApproval = true →
        action.requiresHumanApproval = true

/-- The action fails a check that the policy makes: of its confidence, its risk, its own
need of an approval or its simulation. -/
def Refused [OfScientific D] (calls : List (Call D)) (action : ActionRecommendation)
    (simulation : SimulationResult) : Prop :=
  (action.action ≠ .blockUnsafeAction ∧ action.action ≠ .doNothing ∧ action.confidence ≤ 50) ∨
    (∃ rule, Active calls rule ∧ rule.exceeded action.riskScore = true) ∨
    action.requiresHumanApproval = true ∨ simulation.success = false

/-- The rule requires approval, or more confidence than there is in the action. -/
def AsksMore (rule : PolicyRule D) (action : ActionRecommendation) : Prop :=
  rule.requiresHumanApproval = true ∨ rule.unmet action.confidence = true

theorem isActionSafe_eq_true_iff :
    isActionSafe action = true ↔
      ¬ (action.action ≠ .blockUnsafeAction ∧ action.action ≠ .doNothing ∧
        action.confidence ≤ 50) := by
  rw [isActionSafe, not_and_or, not_and_or, not_not, not_not, UInt8.not_le]
  split
  · simp [*]
  · split
    · simp [*]
    · simp [*]

theorem isWithinRiskLimits_eq_true_iff :
    policy.isWithinRiskLimits action = true ↔
      ¬ ∃ rule ∈ policy.getActiveRules, rule.exceeded action.riskScore = true := by
  rw [isWithinRiskLimits, List.all_eq_true]
  simp only [Bool.not_eq_true', Bool.not_eq_true, not_exists, not_and, getActiveRules]

theorem checkPolicyCompliance_eq_true_iff {rules : List (PolicyRule D)} :
    checkPolicyCompliance action rules = true ↔
      (¬ ∃ rule ∈ rules, rule.exceeded action.riskScore = true) ∧
        ∀ rule ∈ rules, ¬ rule.unmet action.confidence = true := by
  rw [checkPolicyCompliance, List.all_eq_true]
  simp only [Bool.and_eq_true, Bool.not_eq_true', Bool.not_eq_true, not_exists, not_and,
    forall_and]

variable [OfScientific D]

/-- Exactly what is not refused is executed. -/
theorem executeAction_eq_true_iff_not_refused :
    (final step (.new D) calls).executeAction action simulation = true ↔
      ¬ Refused calls action simulation := by
  rw [executeAction_eq_true_iff, isActionSafe_eq_true_iff, isWithinRiskLimits_eq_true_iff,
    Refused, not_or, not_or, not_or, Bool.not_eq_true, Bool.not_eq_false]
  simp only [mem_getActiveRules_iff]

theorem respectsPolicy_of_refused (hrefused : Refused calls action simulation) :
    RespectsPolicy (final step (.new D) calls) action simulation :=
  fun hexecuted => absurd hrefused (executeAction_eq_true_iff_not_refused.mp hexecuted)

theorem respectsPolicy_iff_of_not_refused (hrefused : ¬ Refused calls action simulation) :
    RespectsPolicy (final step (.new D) calls) action simulation ↔
      ∀ rule, Active calls rule → ¬ AsksMore rule action := by
  rw [RespectsPolicy, executeAction_eq_true_iff_not_refused, checkPolicyCompliance_eq_true_iff]
  simp only [mem_getActiveRules_iff, hrefused, not_false_eq_true, forall_const]
  rw [Refused, not_or, not_or, not_or] at hrefused
  -- so the action is below every maximum, and does not ask for approval itself
  obtain ⟨-, hrisk, happroval, -⟩ := hrefused
  constructor
  · rintro ⟨⟨-, hconfidence⟩, happrovals⟩ rule hactive (hasks | hlow)
    · exact happroval (happrovals rule hactive hasks)
    · exact hconfidence rule hactive hlow
  · intro hnone
    refine ⟨⟨hrisk, fun rule hactive hlow => hnone rule hactive (.inr hlow)⟩, ?_⟩
    intro rule hactive hasks
    exact absurd (.inl hasks) (hnone rule hactive)

/-- What is executed respects the active rules exactly if none of them asks for more; the
thresholds may be of any type, with any product and comparison. -/
theorem respectsPolicy_iff (calls : List (Call D)) (action : ActionRecommendation)
    (simulation : SimulationResult) :
    RespectsPolicy (final step (.new D) calls) action simulation ↔
      Refused calls action simulation ∨ ∀ rule, Active calls rule → ¬ AsksMore rule action := by
  by_cases hrefused : Refused calls action simulation
  · exact iff_of_true (respectsPolicy_of_refused hrefused) (.inl hrefused)
  · rw [or_iff_right hrefused]
    exact respectsPolicy_iff_of_not_refused hrefused

/-! ### Exact thresholds -/

/-- An action that nothing but a negative maximum can stop. -/
def idleAction : ActionRecommendation := .default

theorem refused_idleAction_iff {calls : List (Call ℚ)} :
    Refused calls idleAction { SimulationResult.default with success := true } ↔
      ∃ rule, Active calls rule ∧ rule.maxRiskThreshold < 0 := by
  have hrisk : ∀ rule : PolicyRule ℚ,
      rule.exceeded idleAction.riskScore = true ↔ rule.maxRiskThreshold < 0 := by
    intro rule
    have hzero : (idleAction.riskScore.toNat : ℚ) = 0 := rfl
    rw [PolicyRule.exceeded, decide_eq_true_iff, hzero, Nat.cast_ofNat]
    constructor
    · intro h
      linarith
    · intro h
      linarith
  rw [Refused]
  simp only [hrisk]
  simp [idleAction, ActionRecommendation.default]

/-- With exact thresholds: whatever an active rule forbids is refused, for all actions and
simulations, exactly if nothing is executed or no active rule asks for approval or for any
confidence. -/
theorem forall_respectsPolicy_iff (calls : List (Call ℚ)) :
    (∀ action simulation, RespectsPolicy (final step (.new ℚ) calls) action simulation) ↔
      (∃ rule, Active calls rule ∧ rule.maxRiskThreshold < 0) ∨
        ∀ rule, Active calls rule →
          rule.requiresHumanApproval = false ∧ rule.minConfidenceThreshold ≤ 0 := by
  constructor
  · intro h
    by_cases hrefused : Refused calls idleAction { SimulationResult.default with success := true }
    · exact .inl (refused_idleAction_iff.mp hrefused)
    · right
      intro rule hactive
      have hnone := (respectsPolicy_iff_of_not_refused hrefused).mp (h _ _) rule hactive
      obtain ⟨hfree, hconfidence⟩ := not_or.mp hnone
      have hzero : (idleAction.confidence.toNat : ℚ) = 0 := rfl
      rw [PolicyRule.unmet, decide_eq_true_iff, hzero, Nat.cast_ofNat] at hconfidence
      exact ⟨Bool.eq_false_of_not_eq_true hfree, by linarith⟩
  · intro h action simulation
    by_cases hrefused : Refused calls action simulation
    · exact respectsPolicy_of_refused hrefused
    rw [respectsPolicy_iff_of_not_refused hrefused]
    rcases h with ⟨rule, hactive, hnegative⟩ | hnone
    · have hrisk : (0 : ℚ) ≤ action.riskScore.toNat := Nat.cast_nonneg _
      refine absurd (.inr (.inl ⟨rule, hactive, decide_eq_true ?_⟩)) hrefused
      rw [Nat.cast_ofNat]
      linarith
    · rintro rule hactive (happroval | hlow)
      · exact Bool.false_ne_true ((hnone rule hactive).1.symm.trans happroval)
      · have hmin := (hnone rule hactive).2
        have hconfidence : (0 : ℚ) ≤ action.confidence.toNat := Nat.cast_nonneg _
        rw [PolicyRule.unmet, decide_eq_true_iff, Nat.cast_ofNat] at hlow
        linarith

/-! ### Double thresholds -/

instance : NatCast Float := ⟨Float.ofNat⟩

/-- The product of the double 0.65 and 100 is 65, and nothing is below a threshold that is
not a number. -/
example :
    { PolicyRule.default (D := Float) with minConfidenceThreshold := 0.65 }.unmet 65 = false ∧
      { PolicyRule.default (D := Float) with minConfidenceThreshold := 0.0 / 0.0 }.unmet 65
        = false := by
  decide +kernel

/-- The default rule requires approval and a confidence of sixty. -/
theorem not_forall_respectsPolicy :
    ¬ ∀ (calls : List (Call Float)) (action : ActionRecommendation)
        (simulation : SimulationResult),
      RespectsPolicy (final step (.new Float) calls) action simulation := by
  intro h
  let action : ActionRecommendation :=
    { ActionRecommendation.default with
      action := .rerouteLiquidity
      confidence := 55
      riskScore := 10 }
  have hexecuted := h [] action (simulateAction action) (by decide +kernel)
  have hcomplies : checkPolicyCompliance action (OvermanifoldPolicy.new Float).getActiveRules
      = false := by
    decide +kernel
  exact Bool.false_ne_true (hcomplies.symm.trans hexecuted.1)

end OvermanifoldPolicy

end Membra
