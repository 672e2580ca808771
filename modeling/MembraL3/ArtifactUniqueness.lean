/-
The check for duplicates and the registration.

`verify_artifact_uniqueness` looks up the perceptual hash of a content, `register_artifact`
the one that its attestation carries; both as hexadecimal digits.  An attestation built
from the content carries the same hash, and digits determine it.  So the registration
throws exactly where the check fails, which is where the hash has been registered before
(`registerArtifact_throws_iff`).
-/
import MembraL3.ArtifactRegistry

namespace Membra

namespace ArtifactRegistry

open Runs ProvenanceAttestationBuilder

variable {registry : ArtifactRegistry} {attestation : ArtifactAttestation}

/-- An attempt, with its result and the attestation that it leaves with the caller. -/
abbrev Registration :=
  Event ArtifactRegistry ArtifactAttestation (Except String String × ArtifactAttestation)

/-- `register_artifact` throws. -/
def Throws (registry : ArtifactRegistry) (attestation : ArtifactAttestation) : Prop :=
  ∃ message, (registerArtifact registry attestation).1.1 = .error message

/-- A registration has been accepted that carried the hash. -/
def Carried (calls : List ArtifactAttestation) (hash : PerceptualHash) : Prop :=
  ∃ e ∈ trace registerArtifact new calls,
    e.result.1.isOk = true ∧ e.call.perceptualHash = hash

/-- The digits that a registration adds to the index. -/
def indexedHash (e : Registration) : Option String :=
  if e.result.1.isOk then some (perceptualHashStr e.call) else none

theorem perceptualHashStr_inj {attestation' : ArtifactAttestation} :
    perceptualHashStr attestation = perceptualHashStr attestation' ↔
      attestation.perceptualHash = attestation'.perceptualHash :=
  hex_injective.eq_iff.trans Vector.toList_inj

/-- A call throws if the digits are in the index, and then nothing changes. -/
theorem throws_iff :
    Throws registry attestation ↔ perceptualHashStr attestation ∈ registry.perceptualHashes := by
  rw [Throws, registerArtifact]
  split
  · rename_i hhash
    exact iff_of_true ⟨_, rfl⟩ hhash
  · rename_i hhash
    refine iff_of_false ?_ hhash
    rintro ⟨message, herror⟩
    cases herror

theorem registerArtifact_of_throws (h : Throws registry attestation) :
    (registerArtifact registry attestation).2 = registry ∧
      (registerArtifact registry attestation).1.2 = attestation := by
  rw [registerArtifact, if_pos (throws_iff.mp h)]
  exact ⟨rfl, rfl⟩

theorem indexedHash_eq_some_iff {hash : String} :
    indexedHash (event registerArtifact registry attestation) = some hash ↔
      perceptualHashStr attestation ∉ registry.perceptualHashes ∧
        perceptualHashStr attestation = hash := by
  rw [indexedHash, event_result, event_call, registerArtifact]
  by_cases hhash : perceptualHashStr attestation ∈ registry.perceptualHashes
  · rw [if_pos hhash]
    exact iff_of_false (fun hsome => Option.some_ne_none hash hsome.symm) fun h => h.1 hhash
  · rw [if_neg hhash]
    exact Option.some_inj.trans (and_iff_right hhash).symm

/-- The index gains what the registration adds. -/
theorem mem_perceptualHashes_registerArtifact (registry : ArtifactRegistry)
    (attestation : ArtifactAttestation) (hash : String) :
    hash ∈ (registerArtifact registry attestation).2.perceptualHashes ↔
      indexedHash (event registerArtifact registry attestation) = some hash ∨
        hash ∈ registry.perceptualHashes := by
  rw [indexedHash_eq_some_iff]
  rcases registerArtifact_cases registry attestation with ⟨hold, hafter⟩ | ⟨hnew, hafter⟩
  · rw [hafter]
    exact (or_iff_right fun h => h.1 hold).symm
  · rw [hafter, Store.mem_assign, and_iff_right hnew, @eq_comm _ hash]

/-- The index of a run holds the digits of the hashes of the accepted registrations. -/
theorem perceptualHashStr_mem_final_iff (calls : List ArtifactAttestation) :
    perceptualHashStr attestation ∈ (final registerArtifact new calls).perceptualHashes ↔
      Carried calls attestation.perceptualHash := by
  -- no registration takes digits out of the index
  have hempty : ∀ hash, hash ∉ new.perceptualHashes := fun _ => AList.notMem_empty _
  rw [live_final_iff_issued (fun registry hash => hash ∈ registry.perceptualHashes) indexedHash
    hempty mem_perceptualHashes_registerArtifact, List.mem_filterMap]
  refine exists_congr fun e => and_congr_right fun _ => ?_
  rw [indexedHash]
  by_cases hok : e.result.1.isOk = true
  · rw [if_pos hok, Option.some_inj, perceptualHashStr_inj, and_iff_right hok]
  · rw [if_neg hok]
    exact iff_of_false (fun hsome => Option.some_ne_none _ hsome.symm) fun h => hok h.1

/-- The check fails for a content exactly where its attestation cannot be registered. -/
theorem verifyArtifactUniqueness_eq_false_iff {sha256 : Sha256} {content : List UInt8}
    (h : attestation.perceptualHash = ArtifactAnalyzer.generatePerceptualHash sha256 content) :
    verifyArtifactUniqueness sha256 registry content = false ↔
      perceptualHashStr attestation ∈ registry.perceptualHashes := by
  rw [verifyArtifactUniqueness, ← h, decide_eq_false_iff_not, not_not, perceptualHashStr]

/-- The registration of an attestation that was built from a content throws exactly where
the check of the content fails, and that is where a registration with its hash has been
accepted; and whatever throws changes neither the registry nor the attestation. -/
theorem registerArtifact_throws_iff {sha256 : Sha256} {config : IPFSConfig}
    {content : List UInt8} {format creatorWallet : String} {metadata : Store String String}
    {analysisNow idNow : Nanoseconds} {attestation : ArtifactAttestation}
    (h : createArtifactAttestation sha256 config content format creatorWallet metadata analysisNow
      idNow = .ok attestation) (calls : List ArtifactAttestation) :
    let registry := final registerArtifact new calls
    (Throws registry attestation ↔ verifyArtifactUniqueness sha256 registry content = false) ∧
      (verifyArtifactUniqueness sha256 registry content = false ↔
        Carried calls (ArtifactAnalyzer.generatePerceptualHash sha256 content)) ∧
      ∀ other, Throws registry other → (registerArtifact registry other).2 = registry ∧
        (registerArtifact registry other).1.2 = other := by
  intro registry
  have hhash := (createArtifactAttestation_eq_ok h).2
  have hcheck := @verifyArtifactUniqueness_eq_false_iff registry _ _ _ hhash
  refine ⟨throws_iff.trans hcheck.symm, ?_, fun other => registerArtifact_of_throws⟩
  rw [hcheck, perceptualHashStr_mem_final_iff, hhash]

/-- An attestation that is registered twice, under a hash function that adds up bytes. -/
theorem registerArtifact_throws_iff_again :
    let sha256 : Sha256 := fun bytes => Vector.replicate 32 bytes.sum
    ∃ attestation, createArtifactAttestation sha256 .default [1] "mp3" "wallet" ∅ 0 0
        = .ok attestation ∧
      let registry := final registerArtifact new [attestation]
      (Throws registry attestation ↔ verifyArtifactUniqueness sha256 registry [1] = false) ∧
        (verifyArtifactUniqueness sha256 registry [1] = false ↔
          Carried [attestation] (ArtifactAnalyzer.generatePerceptualHash sha256 [1])) ∧
        ∀ other, Throws registry other → (registerArtifact registry other).2 = registry ∧
          (registerArtifact registry other).1.2 = other := by
  intro sha256
  obtain ⟨attestation, h⟩ : ∃ attestation,
      createArtifactAttestation sha256 .default [1] "mp3" "wallet" ∅ 0 0 = .ok attestation := by
    rw [createArtifactAttestation, if_neg (by decide +kernel)]
    exact ⟨_, rfl⟩
  exact ⟨attestation, h, registerArtifact_throws_iff h [attestation]⟩

end ArtifactRegistry

end Membra
