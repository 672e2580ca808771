/-
Market caps and provenance attestations.

The market cap of a base value is the product with three multipliers, of 128 bits,
divided by 1000000000 and cut to 64 bits.  An attestation carries the scores and the
market cap of an appraisal.

* `verifyAttestation_createAttestation` — what verifies a new attestation;
* `toNat_product` — the product is exact, for all scores;
* `createAttestation_valid` — attestations are created with scores in range;
* `meetsFormula_iff` — when the market cap is the one of the formula;
* `monotone_iff` — when it grows with the base value and the scores.
-/
import MembraL3.TokenAppraisal
import MembraL3.MerkleProvenance
import MembraL3.Clock

namespace Membra

namespace MarketCapCalculator

/-- `10000 + score`. -/
def multiplier (score : UInt16) : UInt64 := 10000 + score.toUInt64

/-- The total before it is normalized. -/
def product (baseValue : UInt64) (noveltyScore rarityScore executionDifficulty : UInt16) :
    BitVec 128 :=
  let total := baseValue.toBitVec.setWidth 128
  let total := total * (multiplier noveltyScore).toBitVec.setWidth 128
  let total := total * (multiplier rarityScore).toBitVec.setWidth 128
  total * (multiplier executionDifficulty).toBitVec.setWidth 128

def calculateAppraisal (baseValue : UInt64)
    (noveltyScore rarityScore executionDifficulty : UInt16) : UInt64 :=
  let total := product baseValue noveltyScore rarityScore executionDifficulty / 1000000000
  .ofBitVec (total.setWidth 64)

end MarketCapCalculator

structure ProvenanceAttestation where
  attestationId : UInt64
  tokenMint : Hash
  merkleRoot : Hash
  marketCapAppraisal : UInt64
  noveltyScore : UInt16
  rarityScore : UInt16
  executionDifficulty : UInt16
  attestationTimestamp : Int64
  authority : Hash
  verified : Bool

def ProvenanceAttestation.validateScores (attestation : ProvenanceAttestation) : Bool :=
  attestation.noveltyScore ≤ maxScoreBps && attestation.rarityScore ≤ maxScoreBps &&
    attestation.executionDifficulty ≤ maxScoreBps

namespace Tokenomics.ProvenanceAttestationBuilder

def createAttestation (sha256 : Sha256) (tokenMint : Hash) (appraisal : TokenAppraisal)
    (baseValue : UInt64) (authority : Hash) (attestationId : UInt64) (now : Nanoseconds) :
    ProvenanceAttestation :=
  let (novelty, rarity, execution) := appraisal.calculateScores
  { attestationId := attestationId
    tokenMint := tokenMint
    merkleRoot := appraisal.computeMerkleRoot sha256
    marketCapAppraisal :=
      MarketCapCalculator.calculateAppraisal baseValue novelty rarity execution
    noveltyScore := novelty
    rarityScore := rarity
    executionDifficulty := execution
    attestationTimestamp := .ofInt (wholeSeconds now)
    authority := authority
    verified := false }

/-- What is already verified is refused. -/
def verifyAttestation (sha256 : Sha256) (attestation : ProvenanceAttestation)
    (proof : MerkleProof) : Bool :=
  if attestation.verified then false else proof.verify sha256 attestation.merkleRoot

/-- A new attestation is verified by the proofs of its root, and by none once it is marked
as verified. -/
theorem verifyAttestation_createAttestation (sha256 : Sha256) (tokenMint : Hash)
    (appraisal : TokenAppraisal) (baseValue : UInt64) (authority : Hash) (attestationId : UInt64)
    (now : Nanoseconds) (verified : Bool) (proof : MerkleProof) :
    let attestation := createAttestation sha256 tokenMint appraisal baseValue authority
      attestationId now
    verifyAttestation sha256 { attestation with verified := verified } proof = true ↔
      verified = false ∧ proof.verify sha256 (appraisal.computeMerkleRoot sha256) = true := by
  intro attestation
  cases verified with
  | true => exact iff_of_false Bool.false_ne_true fun h => Bool.noConfusion h.1
  | false => exact (and_iff_right rfl).symm

end Tokenomics.ProvenanceAttestationBuilder

namespace MarketCapCalculator

/-! ### The product -/

variable (baseValue : UInt64) (noveltyScore rarityScore executionDifficulty : UInt16)

/-- The product of the formula, 10000 ^ 3 times too large. -/
def exactProduct : ℕ :=
  baseValue.toNat * (10000 + noveltyScore.toNat) * (10000 + rarityScore.toNat) *
    (10000 + executionDifficulty.toNat)

theorem toNat_multiplier (score : UInt16) : (multiplier score).toNat = 10000 + score.toNat := by
  have hlt := score.toNat_lt
  rw [multiplier, UInt64.toNat_add, UInt16.toNat_toUInt64]
  show (10000 + score.toNat) % 2 ^ 64 = _
  omega

theorem toNat_setWidth_multiplier (score : UInt16) :
    ((multiplier score).toBitVec.setWidth 128).toNat = 10000 + score.toNat := by
  have hlt := score.toNat_lt
  rw [BitVec.toNat_setWidth, UInt64.toNat_toBitVec, toNat_multiplier]
  omega

theorem toNat_setWidth_base : (baseValue.toBitVec.setWidth 128).toNat = baseValue.toNat := by
  have hlt := baseValue.toNat_lt
  rw [BitVec.toNat_setWidth, UInt64.toNat_toBitVec]
  omega

/-- One factor more takes 17 bits more. -/
theorem mul_multiplier_lt {x k : ℕ} (hx : x < 2 ^ k) (score : UInt16) :
    x * (10000 + score.toNat) < 2 ^ (k + 17) := by
  have hlt := score.toNat_lt
  calc x * (10000 + score.toNat) ≤ x * 2 ^ 17 := Nat.mul_le_mul_left x (by omega)
    _ < 2 ^ k * 2 ^ 17 := Nat.mul_lt_mul_of_pos_right hx (by omega)
    _ = 2 ^ (k + 17) := (Nat.pow_add 2 k 17).symm

/-- Nothing is lost in the 128 bits. -/
theorem toNat_product :
    (product baseValue noveltyScore rarityScore executionDifficulty).toNat
      = exactProduct baseValue noveltyScore rarityScore executionDifficulty := by
  have h1 := mul_multiplier_lt baseValue.toNat_lt noveltyScore
  have h2 := mul_multiplier_lt h1 rarityScore
  have h3 := mul_multiplier_lt h2 executionDifficulty
  rw [product, BitVec.toNat_mul, BitVec.toNat_mul, BitVec.toNat_mul, toNat_setWidth_multiplier,
    toNat_setWidth_multiplier, toNat_setWidth_multiplier, toNat_setWidth_base]
  rw [Nat.mod_eq_of_lt (h1.trans (by decide)), Nat.mod_eq_of_lt (h2.trans (by decide)),
    Nat.mod_eq_of_lt (h3.trans (by decide)), exactProduct]

theorem exactProduct_lt :
    exactProduct baseValue noveltyScore rarityScore executionDifficulty < 2 ^ 115 := by
  have h1 := mul_multiplier_lt baseValue.toNat_lt noveltyScore
  have h2 := mul_multiplier_lt h1 rarityScore
  exact mul_multiplier_lt h2 executionDifficulty

/-- The market cap, for all scores. -/
theorem toNat_calculateAppraisal :
    (calculateAppraisal baseValue noveltyScore rarityScore executionDifficulty).toNat
      = exactProduct baseValue noveltyScore rarityScore executionDifficulty / 1000000000
          % 2 ^ 64 := by
  have hdivisor : (1000000000 : BitVec 128).toNat = 1000000000 := rfl
  rw [calculateAppraisal, UInt64.toNat_ofBitVec, BitVec.toNat_setWidth, BitVec.toNat_udiv,
    toNat_product, hdivisor]

/-- Every attestation is created with scores in range, and from a product that its 128
bits hold. -/
theorem createAttestation_valid (sha256 : Sha256) (tokenMint : Hash) (appraisal : TokenAppraisal)
    (baseValue : UInt64) (authority : Hash) (attestationId : UInt64) (now : Nanoseconds) :
    let attestation := Tokenomics.ProvenanceAttestationBuilder.createAttestation sha256 tokenMint
      appraisal baseValue authority attestationId now
    let exact := exactProduct baseValue attestation.noveltyScore attestation.rarityScore
      attestation.executionDifficulty
    attestation.validateScores = true ∧
    (product baseValue attestation.noveltyScore attestation.rarityScore
      attestation.executionDifficulty).toNat = exact ∧ exact < 2 ^ 128 := by
  intro attestation exact
  refine ⟨?_, toNat_product .., (exactProduct_lt ..).trans (by decide)⟩
  have hnovelty := TokenAppraisal.calculateScore_le appraisal.noveltyFactors
  have hrarity := TokenAppraisal.calculateScore_le appraisal.rarityFactors
  have hexecution := TokenAppraisal.calculateScore_le appraisal.executionFactors
  simp only [ProvenanceAttestation.validateScores, Bool.and_eq_true, decide_eq_true_eq]
  exact ⟨⟨hnovelty, hrarity⟩, hexecution⟩

/-! ### The formula -/

/-- The value that the formula gives, rounded down. -/
def formula : ℕ :=
  exactProduct baseValue noveltyScore rarityScore executionDifficulty / 10000 ^ 3

/-- The first three decimals of the value before it is rounded. -/
def decimals : ℕ :=
  exactProduct baseValue noveltyScore rarityScore executionDifficulty / 1000000000 % 1000

/-- The market cap is the one of the formula. -/
structure MeetsFormula : Prop where
  value : (calculateAppraisal baseValue noveltyScore rarityScore executionDifficulty).toNat
    = formula baseValue noveltyScore rarityScore executionDifficulty
  base : noveltyScore = 0 → rarityScore = 0 → executionDifficulty = 0 →
    calculateAppraisal baseValue noveltyScore rarityScore executionDifficulty = baseValue
  le : (calculateAppraisal baseValue noveltyScore rarityScore executionDifficulty).toNat
    ≤ 8 * baseValue.toNat

variable {baseValue noveltyScore rarityScore executionDifficulty}

theorem formula_zero : formula baseValue 0 0 0 = baseValue.toNat := by
  have hproduct : exactProduct baseValue 0 0 0 = baseValue.toNat * 10000 ^ 3 := by
    rw [exactProduct]
    show baseValue.toNat * 10000 * 10000 * 10000 = _
    omega
  rw [formula, hproduct, Nat.mul_div_cancel _ (by decide)]

theorem formula_le (hnovelty : noveltyScore ≤ maxScoreBps) (hrarity : rarityScore ≤ maxScoreBps)
    (hexecution : executionDifficulty ≤ maxScoreBps) :
    formula baseValue noveltyScore rarityScore executionDifficulty ≤ 8 * baseValue.toNat := by
  have htwice : ∀ {score : UInt16}, score ≤ maxScoreBps → 10000 + score.toNat ≤ 20000 := by
    intro score hscore
    have hle : score.toNat ≤ 10000 := UInt16.le_iff_toNat_le.mp hscore
    omega
  refine Nat.div_le_of_le_mul ?_
  calc exactProduct baseValue noveltyScore rarityScore executionDifficulty
      ≤ baseValue.toNat * 20000 * 20000 * 20000 :=
        Nat.mul_le_mul (Nat.mul_le_mul (Nat.mul_le_mul_left _ (htwice hnovelty)) (htwice hrarity))
          (htwice hexecution)
    _ = 10000 ^ 3 * (8 * baseValue.toNat) := by omega

/-- A base value that is not zero is worth at least one unit. -/
theorem le_exactProduct (h : baseValue ≠ 0) :
    10000 ^ 3 ≤ exactProduct baseValue noveltyScore rarityScore executionDifficulty := by
  have hpos : 1 ≤ baseValue.toNat := by
    rw [Nat.one_le_iff_ne_zero]
    exact fun hzero => h (UInt64.toNat_inj.mp hzero)
  calc 10000 ^ 3 = 1 * 10000 * 10000 * 10000 := by decide
    _ ≤ exactProduct baseValue noveltyScore rarityScore executionDifficulty :=
        Nat.mul_le_mul (Nat.mul_le_mul (Nat.mul_le_mul hpos (Nat.le_add_right ..))
          (Nat.le_add_right ..)) (Nat.le_add_right ..)

theorem exactProduct_zero : exactProduct 0 noveltyScore rarityScore executionDifficulty = 0 := by
  rw [exactProduct]
  show 0 * _ * _ * _ = 0
  rw [Nat.zero_mul, Nat.zero_mul, Nat.zero_mul]

/-- Dividing by 1000000000 gives the thousandfold, with the decimals: this is the value of
the formula only for a base value of zero, or where the cut to 64 bits takes off exactly
what is too much. -/
theorem meetsFormula_iff (hnovelty : noveltyScore ≤ maxScoreBps)
    (hrarity : rarityScore ≤ maxScoreBps) (hexecution : executionDifficulty ≤ maxScoreBps)
    (hfits : formula baseValue noveltyScore rarityScore executionDifficulty < 2 ^ 64) :
    MeetsFormula baseValue noveltyScore rarityScore executionDifficulty ↔
      baseValue = 0 ∨ ∃ k, 0 < k ∧ k ≤ 999 ∧
        999 * formula baseValue noveltyScore rarityScore executionDifficulty +
          decimals baseValue noveltyScore rarityScore executionDifficulty = k * 2 ^ 64 := by
  have hvalue := toNat_calculateAppraisal baseValue noveltyScore rarityScore executionDifficulty
  have hformula : formula baseValue noveltyScore rarityScore executionDifficulty
      = exactProduct baseValue noveltyScore rarityScore executionDifficulty / 1000000000
        / 1000 := by
    have hpow : 10000 ^ 3 = 1000000000 * 1000 := by decide
    rw [formula, Nat.div_div_eq_div_mul, hpow]
  constructor
  · intro hmeets
    have heq := hmeets.value
    by_cases hbase : baseValue = 0
    · exact .inl hbase
    · have hpos : 10000 ^ 3
          ≤ exactProduct baseValue noveltyScore rarityScore executionDifficulty :=
        le_exactProduct hbase
      rw [hvalue] at heq
      -- the market cap is right, so the quotient is too large by what was cut off
      refine .inr ⟨exactProduct baseValue noveltyScore rarityScore executionDifficulty / 1000000000
        / 2 ^ 64, ?_, ?_, ?_⟩
      · omega
      · omega
      · rw [decimals]
        omega
  · intro hcases
    have heq : (calculateAppraisal baseValue noveltyScore rarityScore executionDifficulty).toNat
        = formula baseValue noveltyScore rarityScore executionDifficulty := by
      rcases hcases with rfl | ⟨k, -, -, hk⟩
      · rw [hvalue, formula, exactProduct_zero, Nat.zero_div, Nat.zero_div, Nat.zero_mod]
      · -- the quotient is the value and a multiple of 2 ^ 64
        rw [decimals] at hk
        omega
    refine ⟨heq, ?_, ?_⟩
    · rintro rfl rfl rfl
      rw [formula_zero] at heq
      exact UInt64.toNat_inj.mp heq
    · rw [heq]
      exact formula_le hnovelty hrarity hexecution

theorem meetsFormula_iff_million :
    formula 1000000 8000 9000 7500 = 5985000 ∧
    calculateAppraisal 1000000 8000 9000 7500 = 5985000000 ∧
    (MeetsFormula 1000000 8000 9000 7500 ↔ (1000000 : UInt64) = 0 ∨ ∃ k, 0 < k ∧ k ≤ 999 ∧
      999 * formula 1000000 8000 9000 7500 + decimals 1000000 8000 9000 7500 = k * 2 ^ 64) :=
  ⟨by decide, by decide, meetsFormula_iff (by decide) (by decide) (by decide) (by decide)⟩

/-- Without scores, a market cap is a thousand times the base value. -/
theorem not_forall_meetsFormula :
    ¬ ∀ (baseValue : UInt64) (noveltyScore rarityScore executionDifficulty : UInt16),
      noveltyScore ≤ maxScoreBps → rarityScore ≤ maxScoreBps →
      executionDifficulty ≤ maxScoreBps →
      formula baseValue noveltyScore rarityScore executionDifficulty < 2 ^ 64 →
      MeetsFormula baseValue noveltyScore rarityScore executionDifficulty := by
  intro h
  have hmeets := h 1000000 0 0 0 (by decide) (by decide) (by decide) (by decide)
  have hbase := hmeets.base rfl rfl rfl
  exact absurd hbase (by decide)

/-! ### Monotonicity -/

/-- The cut to 64 bits takes nothing off. -/
def CutExact (baseValue : UInt64) (noveltyScore rarityScore executionDifficulty : UInt16) : Prop :=
  (calculateAppraisal baseValue noveltyScore rarityScore executionDifficulty).toNat
    = (product baseValue noveltyScore rarityScore executionDifficulty / 1000000000).toNat

theorem cutExact_iff :
    CutExact baseValue noveltyScore rarityScore executionDifficulty ↔
      exactProduct baseValue noveltyScore rarityScore executionDifficulty
        < 2 ^ 64 * 1000000000 := by
  have hdivisor : (1000000000 : BitVec 128).toNat = 1000000000 := rfl
  rw [CutExact, toNat_calculateAppraisal, BitVec.toNat_udiv, toNat_product, hdivisor]
  omega

variable {baseValue' : UInt64} {noveltyScore' rarityScore' executionDifficulty' : UInt16}

theorem exactProduct_mono (hbase : baseValue ≤ baseValue') (hnovelty : noveltyScore ≤ noveltyScore')
    (hrarity : rarityScore ≤ rarityScore')
    (hexecution : executionDifficulty ≤ executionDifficulty') :
    exactProduct baseValue noveltyScore rarityScore executionDifficulty
      ≤ exactProduct baseValue' noveltyScore' rarityScore' executionDifficulty' := by
  rw [UInt64.le_iff_toNat_le] at hbase
  rw [UInt16.le_iff_toNat_le] at hnovelty hrarity hexecution
  exact Nat.mul_le_mul (Nat.mul_le_mul (Nat.mul_le_mul hbase (Nat.add_le_add_left hnovelty _))
    (Nat.add_le_add_left hrarity _)) (Nat.add_le_add_left hexecution _)

/-- How often the cut to 64 bits takes 2 ^ 64 off. -/
def wraps (baseValue : UInt64) (noveltyScore rarityScore executionDifficulty : UInt16) : ℕ :=
  exactProduct baseValue noveltyScore rarityScore executionDifficulty / 1000000000 / 2 ^ 64

/-- A larger base value with no smaller scores has no smaller market cap, and nothing is
cut off, exactly if the larger product is below 2 ^ 64 times the divisor.  Otherwise the
market cap may still be no smaller, if the quotient grows by 2 ^ 64 for each further time
that this is taken off. -/
theorem monotone_iff (hbase : baseValue ≤ baseValue') (hnovelty : noveltyScore ≤ noveltyScore')
    (hrarity : rarityScore ≤ rarityScore')
    (hexecution : executionDifficulty ≤ executionDifficulty') :
    (((calculateAppraisal baseValue noveltyScore rarityScore executionDifficulty
        ≤ calculateAppraisal baseValue' noveltyScore' rarityScore' executionDifficulty') ∧
      CutExact baseValue noveltyScore rarityScore executionDifficulty ∧
      CutExact baseValue' noveltyScore' rarityScore' executionDifficulty') ↔
    exactProduct baseValue' noveltyScore' rarityScore' executionDifficulty'
      < 2 ^ 64 * 1000000000) ∧
    (calculateAppraisal baseValue noveltyScore rarityScore executionDifficulty
        ≤ calculateAppraisal baseValue' noveltyScore' rarityScore' executionDifficulty' ↔
      exactProduct baseValue noveltyScore rarityScore executionDifficulty / 1000000000 +
        2 ^ 64 * (wraps baseValue' noveltyScore' rarityScore' executionDifficulty' -
          wraps baseValue noveltyScore rarityScore executionDifficulty)
      ≤ exactProduct baseValue' noveltyScore' rarityScore' executionDifficulty' / 1000000000) := by
  have hmono := exactProduct_mono hbase hnovelty hrarity hexecution
  rw [cutExact_iff, cutExact_iff, UInt64.le_iff_toNat_le, toNat_calculateAppraisal,
    toNat_calculateAppraisal, wraps, wraps]
  constructor
  · omega
  · omega

theorem monotone_iff_steps :
    exactProduct 2 0 0 0 < 2 ^ 64 * 1000000000 ∧
    (((calculateAppraisal 1 0 0 0 ≤ calculateAppraisal 2 0 0 0) ∧ CutExact 1 0 0 0 ∧
      CutExact 2 0 0 0) ↔ exactProduct 2 0 0 0 < 2 ^ 64 * 1000000000) ∧
    (calculateAppraisal 1 0 0 0 ≤ calculateAppraisal 2 0 0 0 ↔
      exactProduct 1 0 0 0 / 1000000000 + 2 ^ 64 * (wraps 2 0 0 0 - wraps 1 0 0 0)
        ≤ exactProduct 2 0 0 0 / 1000000000) :=
  ⟨by decide, monotone_iff (by decide) (by decide) (by decide) (by decide)⟩

/-- One lamport more, and the market cap falls to 384. -/
theorem not_forall_monotone :
    ¬ ∀ (baseValue baseValue' : UInt64) (noveltyScore noveltyScore' rarityScore rarityScore'
        executionDifficulty executionDifficulty' : UInt16),
      baseValue ≤ baseValue' → noveltyScore ≤ noveltyScore' → rarityScore ≤ rarityScore' →
      executionDifficulty ≤ executionDifficulty' → noveltyScore' ≤ maxScoreBps →
      rarityScore' ≤ maxScoreBps → executionDifficulty' ≤ maxScoreBps →
      calculateAppraisal baseValue noveltyScore rarityScore executionDifficulty
        ≤ calculateAppraisal baseValue' noveltyScore' rarityScore' executionDifficulty' := by
  intro h
  have hle := h 18446744073709551 18446744073709552 0 0 0 0 0 0 (by decide) (by decide) (by decide)
    (by decide) (by decide) (by decide) (by decide)
  exact absurd hle (by decide)

end MarketCapCalculator

end Membra
