/-
Which recommendations of the mempool governor can be made.

Four tenths of a risk score are the extraction risk, which is never rated above a half,
three the price impact and three a probability of spam, which is never found.  So no
score exceeds fifty, no average of them a half, and with a threshold of a half or more
nothing is ever blocked (`computeNextAction_ne_blockUnsafeAction`).

The totals are sums over the pending transactions, of which each is reviewed on its own.
So their order does not matter either (`computeNextAction_reordered`).
-/
import MembraL3.MempoolGovernor

namespace Membra

namespace LLMMempoolGovernor

/-! ### Nothing is blocked -/

theorem riskFraction_le_half (tx : PendingTransaction) (context : MempoolState) :
    riskFraction (detectMevRisk tx) 0 (estimatePriceImpact tx context) ≤ 1 / 2 := by
  obtain ⟨-, hmev⟩ := detectMevRisk_mem tx
  obtain ⟨-, himpact⟩ := estimatePriceImpact_mem tx context
  rw [riskFraction, zero_mul, add_zero]
  linarith

theorem half_le_confidenceFraction (tx : PendingTransaction) :
    1 / 2 ≤ confidenceFraction (detectMevRisk tx) 0 := by
  obtain ⟨-, hmev⟩ := detectMevRisk_mem tx
  rw [confidenceFraction, sub_zero, mul_one]
  linarith

theorem riskScore_le_fifty (tx : PendingTransaction) (context : MempoolState) :
    (reviewTransaction tx context).riskScore.toNat ≤ 50 := by
  have hscore : (reviewTransaction tx context).riskScore.toNat
      = ⌊riskFraction (detectMevRisk tx) 0 (estimatePriceImpact tx context) * 100⌋₊ :=
    toNat_percent (riskFraction_mem tx context)
  have hhalf := riskFraction_le_half tx context
  rw [hscore]
  refine Nat.floor_le_of_le ?_
  rw [Nat.cast_ofNat]
  linarith

theorem fifty_le_confidence (tx : PendingTransaction) (context : MempoolState) :
    50 ≤ (reviewTransaction tx context).confidence.toNat := by
  have hscore : (reviewTransaction tx context).confidence.toNat
      = ⌊confidenceFraction (detectMevRisk tx) 0 * 100⌋₊ :=
    toNat_percent (confidenceFraction_mem tx)
  have hhalf := half_le_confidenceFraction tx
  rw [hscore]
  refine Nat.le_floor ?_
  rw [Nat.cast_ofNat]
  linarith

theorem averageRisk_le_half (state : MempoolState) : averageRisk state ≤ 1 / 2 := by
  have hrisk : ∀ r ∈ state.pendingTransactions.map fun tx =>
      ((reviewTransaction tx state).riskScore.toNat : ℚ) / 100, r ≤ 1 / 2 := by
    intro r hr
    obtain ⟨tx, -, rfl⟩ := List.mem_map.mp hr
    have hscore : ((reviewTransaction tx state).riskScore.toNat : ℚ) ≤ 50 := by
      exact_mod_cast riskScore_le_fifty tx state
    linarith
  -- an average of scores is at most the largest that one of them can be
  have hle := List.sum_le_card_nsmul _ _ hrisk
  rw [List.length_map, nsmul_eq_mul, mul_comm] at hle
  rw [averageRisk, totals_eq]
  exact div_le_of_le_mul₀ (Nat.cast_nonneg _) (by norm_num) hle

/-- No review scores a risk above fifty or a confidence below it, and a governor whose
threshold is a half or more neither blocks nor asks for approval. -/
theorem computeNextAction_ne_blockUnsafeAction {governor : LLMMempoolGovernor}
    (hthreshold : 1 / 2 ≤ governor.riskThreshold) (state : MempoolState) :
    (∀ tx, (reviewTransaction tx state).riskScore.toNat ≤ 50 ∧
      50 ≤ (reviewTransaction tx state).confidence.toNat) ∧
    ∀ now, (governor.computeNextAction state now).action ≠ .blockUnsafeAction ∧
      (governor.computeNextAction state now).requiresHumanApproval = false := by
  refine ⟨fun tx => ⟨riskScore_le_fifty tx state, fifty_le_confidence tx state⟩, ?_⟩
  intro now
  by_cases hpending : state.pendingTransactions = []
  · rw [computeNextAction, if_neg (not_not_intro hpending)]
    exact ⟨NextAction.noConfusion, rfl⟩
  · have happroval : (governor.computeNextAction state now).requiresHumanApproval = false := by
      rw [computeNextAction_requiresHumanApproval governor now hpending]
      rcases governor.pendingAction_cases state with ⟨hover, -, -⟩ | ⟨-, -, happroval⟩
      · exact absurd hover (not_lt.mpr ((averageRisk_le_half state).trans hthreshold))
      · exact happroval
    refine ⟨fun hblock => ?_, happroval⟩
    have hasked := (computeNextAction_eq_block_iff governor now hpending).mp hblock
    rw [happroval] at hasked
    exact Bool.false_ne_true hasked

theorem computeNextAction_ne_blockUnsafeAction_new :
    1 / 2 ≤ LLMMempoolGovernor.new.riskThreshold ∧
    (∀ tx, (reviewTransaction tx dearMempool).riskScore.toNat ≤ 50 ∧
      50 ≤ (reviewTransaction tx dearMempool).confidence.toNat) ∧
    ∀ now, (LLMMempoolGovernor.new.computeNextAction dearMempool now).action
        ≠ .blockUnsafeAction ∧
      (LLMMempoolGovernor.new.computeNextAction dearMempool now).requiresHumanApproval
        = false :=
  have hthreshold : 1 / 2 ≤ LLMMempoolGovernor.new.riskThreshold := by decide +kernel
  ⟨hthreshold, computeNextAction_ne_blockUnsafeAction hthreshold dearMempool⟩

/-! ### The order of the transactions -/

/-- The same snapshot, with its transactions in any order. -/
structure Reordered (state state' : MempoolState) : Prop where
  pendingTransactions : state.pendingTransactions.Perm state'.pendingTransactions
  oraclePrices : state.oraclePrices = state'.oraclePrices
  liquidityDepth : state.liquidityDepth = state'.liquidityDepth
  snapshotTimestamp : state.snapshotTimestamp = state'.snapshotTimestamp

/-- A review reads nothing of the snapshot but the liquidity. -/
theorem reviewTransaction_congr {state state' : MempoolState}
    (h : state.liquidityDepth = state'.liquidityDepth) (tx : PendingTransaction) :
    reviewTransaction tx state = reviewTransaction tx state' := by
  have himpact : estimatePriceImpact tx state = estimatePriceImpact tx state' := by
    rw [estimatePriceImpact, estimatePriceImpact, h]
  rw [reviewTransaction, reviewTransaction, himpact]

section

variable {state state' : MempoolState} (h : Reordered state state')

include h

theorem totals_reordered : totals state = totals state' := by
  -- the reviews are the same one by one, and sums do not depend on the order
  have hreview := reviewTransaction_congr h.liquidityDepth
  have harbitrage := h.pendingTransactions.map fun tx =>
    (reviewTransaction tx state).arbitrageOpportunity
  have hrisk := h.pendingTransactions.map fun tx =>
    ((reviewTransaction tx state).riskScore.toNat : ℚ) / 100
  rw [totals_eq, totals_eq, harbitrage.sum_eq, hrisk.sum_eq]
  simp only [hreview]

theorem averageRisk_reordered : averageRisk state = averageRisk state' := by
  rw [averageRisk, averageRisk, totals_reordered h, h.pendingTransactions.length_eq]

theorem pendingAction_reordered {governor governor' : LLMMempoolGovernor}
    (hthreshold : governor.riskThreshold = governor'.riskThreshold) :
    governor.pendingAction state = governor'.pendingAction state' := by
  rw [pendingAction, pendingAction, hthreshold, averageRisk_reordered h, totals_reordered h]

/-- Governors with one threshold recommend the same for the same transactions, in any
order and at any time. -/
theorem computeNextAction_reordered {governor governor' : LLMMempoolGovernor}
    (hthreshold : governor.riskThreshold = governor'.riskThreshold) (now now' : Nanoseconds) :
    let recommendation := governor.computeNextAction state now
    let recommendation' := governor'.computeNextAction state' now'
    recommendation.action = recommendation'.action ∧
      recommendation.targetProtocol = recommendation'.targetProtocol ∧
      recommendation.confidence = recommendation'.confidence ∧
      recommendation.riskScore = recommendation'.riskScore ∧
      recommendation.requiresHumanApproval = recommendation'.requiresHumanApproval := by
  have hempty : state.pendingTransactions = [] ↔ state'.pendingTransactions = [] := by
    rw [← List.length_eq_zero_iff, ← List.length_eq_zero_iff, h.pendingTransactions.length_eq]
  rw [computeNextAction, computeNextAction, pendingAction_reordered h hthreshold,
    averageRisk_reordered h]
  by_cases hpending : state'.pendingTransactions = []
  · rw [if_neg (not_not_intro hpending), if_neg (not_not_intro (hempty.mpr hpending))]
    exact ⟨rfl, rfl, rfl, rfl, rfl⟩
  · rw [if_pos hpending, if_pos (mt hempty.mp hpending)]
    exact ⟨rfl, rfl, rfl, rfl, rfl⟩

end

/-- A mempool with a large transfer before a dear one. -/
def twoMempool : MempoolState :=
  { dearMempool with
    pendingTransactions :=
      ⟨"tx_2", "solana", 2000000, "", 1⟩ :: dearMempool.pendingTransactions }

theorem computeNextAction_reordered_twoMempool :
    let reversed :=
      { twoMempool with pendingTransactions := twoMempool.pendingTransactions.reverse }
    let recommendation := LLMMempoolGovernor.new.computeNextAction twoMempool 0
    let recommendation' := LLMMempoolGovernor.new.computeNextAction reversed 1
    Reordered twoMempool reversed ∧
      recommendation.action = recommendation'.action ∧
      recommendation.targetProtocol = recommendation'.targetProtocol ∧
      recommendation.confidence = recommendation'.confidence ∧
      recommendation.riskScore = recommendation'.riskScore ∧
      recommendation.requiresHumanApproval = recommendation'.requiresHumanApproval :=
  have hreordered : Reordered twoMempool
      { twoMempool with pendingTransactions := twoMempool.pendingTransactions.reverse } :=
    ⟨(List.reverse_perm _).symm, rfl, rfl, rfl⟩
  ⟨hreordered, computeNextAction_reordered hreordered rfl 0 1⟩

end LLMMempoolGovernor

end Membra
