/-
Token appraisals.

An appraisal is four byte vectors.  Its root is the digest of the four, one after the
other; a score is the average of a vector in percent, modulo 10001.

* `root_binds_scores` — what appraisals with one root have in common;
* `toNat_calculateScore` — a score, for vectors of any length;
* `calculateScore_le_iff` — when one vector scores no better than another.
-/
import MembraL3.Crypto
import Mathlib.Data.UInt

namespace Membra

def maxScoreBps : UInt16 := 10000

structure TokenAppraisal where
  noveltyFactors : List UInt8
  rarityFactors : List UInt8
  executionFactors : List UInt8
  historicalData : List UInt8

namespace TokenAppraisal

/-- The data that `compute_merkle_root` hashes. -/
def rootData (appraisal : TokenAppraisal) : List UInt8 :=
  appraisal.noveltyFactors ++ appraisal.rarityFactors ++ appraisal.executionFactors ++
    appraisal.historicalData

def computeMerkleRoot (sha256 : Sha256) (appraisal : TokenAppraisal) : Hash :=
  sha256 appraisal.rootData

/-- The loop over the factors. -/
def sumFactors (factors : List UInt8) : UInt32 :=
  factors.foldl (fun sum factor => sum + factor.toUInt32) 0

def calculateScore (factors : List UInt8) : UInt16 :=
  if factors.isEmpty then 0
  else
    -- the division is one of the size's type
    let average := UInt32.ofNat ((sumFactors factors).toNat / factors.length)
    let score := (average * 100 % 10001).toUInt16
    min score maxScoreBps

/-- Novelty, rarity and execution. -/
def calculateScores (appraisal : TokenAppraisal) : UInt16 × UInt16 × UInt16 :=
  (calculateScore appraisal.noveltyFactors, calculateScore appraisal.rarityFactors,
    calculateScore appraisal.executionFactors)

example : calculateScores ⟨[80, 90, 85], [70, 75, 80], [60, 65, 70], []⟩ = (8500, 7500, 6500) := by
  decide

/-! ### The root -/

/-- Two strings with one digest. -/
def RootCollision (sha256 : Sha256) (appraisal appraisal' : TokenAppraisal) : Prop :=
  appraisal.rootData ≠ appraisal'.rootData ∧ sha256 appraisal.rootData = sha256 appraisal'.rootData

/-- The lengths of the vectors that are scored. -/
def lengths (appraisal : TokenAppraisal) : ℕ × ℕ × ℕ :=
  (appraisal.noveltyFactors.length, appraisal.rarityFactors.length,
    appraisal.executionFactors.length)

/-- One string, cut into vectors at different places. -/
def CutElsewhere (appraisal appraisal' : TokenAppraisal) : Prop :=
  appraisal.rootData = appraisal'.rootData ∧ appraisal.lengths ≠ appraisal'.lengths

/-- The data and the lengths of the scored vectors determine an appraisal. -/
theorem eq_of_rootData_eq {appraisal appraisal' : TokenAppraisal}
    (hdata : appraisal.rootData = appraisal'.rootData)
    (hlengths : appraisal.lengths = appraisal'.lengths) : appraisal = appraisal' := by
  obtain ⟨novelty, rarity, execution, historical⟩ := appraisal
  obtain ⟨novelty', rarity', execution', historical'⟩ := appraisal'
  simp only [lengths, Prod.mk.injEq] at hlengths
  obtain ⟨hnovelty, hrarity, hexecution⟩ := hlengths
  simp only [rootData, List.append_assoc] at hdata
  obtain ⟨rfl, htail⟩ := List.append_inj hdata hnovelty
  obtain ⟨rfl, hlast⟩ := List.append_inj htail hrarity
  obtain ⟨rfl, rfl⟩ := List.append_inj hlast hexecution
  rfl

/-- Appraisals with one root have the same scores, unless two strings collide or one
string is cut at different places. -/
theorem root_binds_scores (sha256 : Sha256) {appraisal appraisal' : TokenAppraisal}
    (hroot : appraisal.computeMerkleRoot sha256 = appraisal'.computeMerkleRoot sha256) :
    appraisal.calculateScores = appraisal'.calculateScores ∨
      RootCollision sha256 appraisal appraisal' ∨ CutElsewhere appraisal appraisal' := by
  by_cases hdata : appraisal.rootData = appraisal'.rootData
  · by_cases hlengths : appraisal.lengths = appraisal'.lengths
    · rw [eq_of_rootData_eq hdata hlengths]
      exact .inl rfl
    · exact .inr (.inr ⟨hdata, hlengths⟩)
  · exact .inr (.inl ⟨hdata, hroot⟩)

/-- A factor that is moved from novelty to rarity. -/
theorem root_binds_scores_moved :
    let appraisal : TokenAppraisal := ⟨[80], [], [], []⟩
    let appraisal' : TokenAppraisal := ⟨[], [80], [], []⟩
    let sha256 : Sha256 := fun bytes => Vector.replicate 32 bytes.sum
    appraisal.calculateScores = (8000, 0, 0) ∧ appraisal'.calculateScores = (0, 8000, 0) ∧
    (appraisal.calculateScores = appraisal'.calculateScores ∨
      RootCollision sha256 appraisal appraisal' ∨ CutElsewhere appraisal appraisal') :=
  ⟨by decide, by decide, root_binds_scores _ rfl⟩

/-- For no hash function does the root bind the scores. -/
theorem not_forall_root_binds_scores :
    ¬ ∃ sha256 : Sha256, ∀ appraisal appraisal' : TokenAppraisal,
      appraisal.computeMerkleRoot sha256 = appraisal'.computeMerkleRoot sha256 →
      appraisal.calculateScores = appraisal'.calculateScores ∨
        RootCollision sha256 appraisal appraisal' := by
  rintro ⟨sha256, h⟩
  rcases h ⟨[80], [], [], []⟩ ⟨[], [80], [], []⟩ rfl with hscores | ⟨hdata, -⟩
  · exact absurd hscores (by decide)
  · exact hdata rfl

/-! ### Scores -/

/-- The sum of the factors. -/
def total (factors : List UInt8) : ℕ := (factors.map UInt8.toNat).sum

theorem toNat_sumFactors (factors : List UInt8) :
    (sumFactors factors).toNat = total factors % 2 ^ 32 := by
  have hloop : ∀ sum : UInt32, (factors.foldl (fun sum factor => sum + factor.toUInt32) sum).toNat
      = (sum.toNat + total factors) % 2 ^ 32 := by
    induction factors with
    | nil =>
      intro sum
      have hlt := sum.toNat_lt
      show sum.toNat = (sum.toNat + 0) % 2 ^ 32
      omega
    | cons factor factors ih =>
      intro sum
      have htotal : total (factor :: factors) = factor.toNat + total factors := rfl
      rw [List.foldl_cons, ih, UInt32.toNat_add, UInt8.toNat_toUInt32, htotal]
      omega
  rw [sumFactors, hloop]
  simp

theorem total_le (factors : List UInt8) : total factors ≤ 255 * factors.length := by
  induction factors with
  | nil => exact Nat.le_refl 0
  | cons factor factors ih =>
    have hfactor := factor.toNat_lt
    have htotal : total (factor :: factors) = factor.toNat + total factors := rfl
    rw [htotal, List.length_cons]
    omega

/-- The average of the factors, whose sum has 32 bits. -/
def average (factors : List UInt8) : ℕ := total factors % 2 ^ 32 / factors.length

theorem average_le (factors : List UInt8) : average factors ≤ 255 := by
  have htotal := total_le factors
  have hmod := Nat.mod_le (total factors) (2 ^ 32)
  refine Nat.div_le_of_le_mul ?_
  rw [Nat.mul_comm]
  omega

/-- A score, for vectors of any length. -/
theorem toNat_calculateScore {factors : List UInt8} (h : factors ≠ []) :
    (calculateScore factors).toNat = 100 * average factors % 10001 := by
  have haverage := average_le factors
  have hempty : factors.isEmpty = false := by simpa using h
  have hmod : 100 * average factors % 10001 < 10001 := Nat.mod_lt _ (by omega)
  have hpercent : (UInt32.ofNat (average factors) * 100 % 10001).toNat
      = 100 * average factors % 10001 := by
    rw [UInt32.toNat_mod, UInt32.toNat_mul, UInt32.toNat_ofNat']
    show average factors % 2 ^ 32 * 100 % 2 ^ 32 % 10001 = _
    have hword : average factors % 2 ^ 32 = average factors := Nat.mod_eq_of_lt (by omega)
    have hproduct : average factors * 100 % 2 ^ 32 = average factors * 100 :=
      Nat.mod_eq_of_lt (by omega)
    rw [hword, hproduct, Nat.mul_comm]
  have hscore : (UInt32.ofNat (average factors) * 100 % 10001).toUInt16.toNat
      = 100 * average factors % 10001 := by
    rw [UInt32.toNat_toUInt16, hpercent]
    omega
  -- the modulus has left nothing for the clamp to do
  have hle : (UInt32.ofNat (average factors) * 100 % 10001).toUInt16 ≤ maxScoreBps := by
    rw [UInt16.le_iff_toNat_le, hscore]
    show _ ≤ 10000
    omega
  rw [calculateScore, hempty, if_neg Bool.false_ne_true, toNat_sumFactors]
  show (if (UInt32.ofNat (average factors) * 100 % 10001).toUInt16 ≤ maxScoreBps then _
    else _ : UInt16).toNat = _
  rw [if_pos hle]
  exact hscore

theorem calculateScore_le (factors : List UInt8) : calculateScore factors ≤ maxScoreBps := by
  rw [UInt16.le_iff_toNat_le]
  show _ ≤ 10000
  rcases eq_or_ne factors [] with rfl | h
  · exact Nat.zero_le _
  · rw [toNat_calculateScore h]
    omega

/-- The whole hundreds that an average is above: an average of 100 is not above the
first one. -/
def hundreds (factors : List UInt8) : ℕ := (average factors - 1) / 100

/-- What is left of an average, at most 100. -/
def rest (factors : List UInt8) : ℕ := average factors - 100 * hundreds factors

/-- The modulus takes the whole hundreds off, and one basis point for each. -/
theorem toNat_calculateScore_add {factors : List UInt8} (h : factors ≠ []) :
    (calculateScore factors).toNat + hundreds factors = 100 * rest factors := by
  have haverage := average_le factors
  rw [toNat_calculateScore h, rest, hundreds]
  omega

/-- The first vector scores no better than the second one exactly if less of its average
is left above the whole hundreds, or as much above no fewer hundreds. -/
theorem calculateScore_le_iff {a b : List UInt8} (ha : a ≠ []) (hb : b ≠ []) :
    calculateScore a ≤ calculateScore b ↔
      rest a < rest b ∨ rest a = rest b ∧ hundreds b ≤ hundreds a := by
  have hscore := toNat_calculateScore_add ha
  have hscore' := toNat_calculateScore_add hb
  have hhundreds : hundreds a ≤ 2 := by
    have := average_le a
    rw [hundreds]
    omega
  have hhundreds' : hundreds b ≤ 2 := by
    have := average_le b
    rw [hundreds]
    omega
  rw [UInt16.le_iff_toNat_le]
  omega

theorem calculateScore_le_iff_ninety :
    rest [70, 90, 80] < rest [80, 100, 90] ∧
    (calculateScore [70, 90, 80] ≤ calculateScore [80, 100, 90] ↔
      rest [70, 90, 80] < rest [80, 100, 90] ∨
        rest [70, 90, 80] = rest [80, 100, 90] ∧
          hundreds [80, 100, 90] ≤ hundreds [70, 90, 80]) :=
  ⟨by decide, calculateScore_le_iff (by simp) (by simp)⟩

/-- An average of 100 scores 10000, one of 101 scores 99. -/
theorem not_forall_calculateScore_le :
    ¬ ∀ a b : List UInt8, a ≠ [] → a.length = b.length →
      (∀ k, ∀ hk : k < a.length, ∀ hk' : k < b.length, a[k] ≤ b[k]) →
      calculateScore a ≤ calculateScore b := by
  intro h
  have hle : ∀ k, ∀ hk : k < [(100 : UInt8)].length, ∀ hk' : k < [(101 : UInt8)].length,
      [(100 : UInt8)][k] ≤ [(101 : UInt8)][k] := by
    intro k hk hk'
    obtain rfl : k = 0 := by simpa using hk
    show (100 : UInt8) ≤ 101
    decide
  have hscores := h [100] [101] (by simp) rfl hle
  exact absurd hscores (by decide)

end TokenAppraisal

end Membra
