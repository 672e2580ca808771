/-
Artifacts and their registry.

An attestation is built from a content: it is uploaded, sampled for a perceptual hash
and given an id, the hash of the address of the upload, the wallet and the millisecond.
The registry keeps attestations by id and an index of them by perceptual hash; a
registration is refused if the perceptual hash is in the index.  The type of a content is
told by its file name or its first bytes.  Attestations are listed and counted in the order
of their ids.

* `attestationId_eq_of_local` — ids that are the same for all contents;
* `registerArtifact_cases` — what a registration does;
* `inverse_iff_newIds` — the two maps are inverse to each other, exactly while no
  attestation is registered under an id that is taken;
* `returnsCertified_iff` — the registry returns what it has certified, exactly where that
  came in certified.
-/
import MembraL3.Lib.Index
import MembraL3.Lib.Runs
import MembraL3.Crypto
import MembraL3.Clock
import Mathlib.Data.String.Basic

namespace Membra

/-- `std::array<uint8_t, PERCEPTUAL_HASH_SIZE>`. -/
abbrev PerceptualHash := Vector UInt8 16

structure IPFSConfig where
  pinataApiKey : String
  pinataSecretKey : String
  useLocalIpfs : Bool

/-- No keys, and a local node. -/
def IPFSConfig.default : IPFSConfig := ⟨"", "", true⟩

structure ArtifactAnalysis where
  artifactType : String
  sizeBytes : UInt64
  contentHash : Hash
  format : String
  timestamp : Int64

structure ArtifactAttestation where
  attestationId : String
  artifactType : String
  ipfsCid : String
  contentHash : Hash
  perceptualHash : PerceptualHash
  sizeBytes : UInt64
  format : String
  creatorWallet : String
  createdAt : Int64
  metadata : Store String String
  verificationStatus : String
  oracleSignature : String

/-! ### The upload -/

namespace IPFSVerifier

/-- Hexadecimal digits for the base 58 of a real address. -/
def generateMockCid (sha256 : Sha256) (content : List UInt8) : String :=
  let hash := sha256 content
  let digits := hex ((List.range 44).map fun i => hash[i % 32])
  String.ofList (("Qm" ++ digits).toList.take 46)

/-- The address that a mock response gives every content. -/
def uploadToLocalIpfs : String := "QmHash123456789"

def uploadToPinata : String := "QmPinataMockCID123456"

def uploadToIpfs (sha256 : Sha256) (config : IPFSConfig) (content : List UInt8) : String :=
  if config.pinataApiKey ≠ "" ∧ config.pinataSecretKey ≠ "" then uploadToPinata
  else if config.useLocalIpfs then uploadToLocalIpfs
  else generateMockCid sha256 content

/-- With a local node, or with keys, the address does not depend on the content. -/
theorem uploadToIpfs_of_local (sha256 : Sha256) {config : IPFSConfig}
    (hlocal : config.useLocalIpfs = true) (content content' : List UInt8) :
    uploadToIpfs sha256 config content = uploadToIpfs sha256 config content' := by
  by_cases hkeys : config.pinataApiKey ≠ "" ∧ config.pinataSecretKey ≠ ""
  · rw [uploadToIpfs, uploadToIpfs, if_pos hkeys, if_pos hkeys]
  · rw [uploadToIpfs, uploadToIpfs, if_neg hkeys, if_neg hkeys, if_pos hlocal, if_pos hlocal]

end IPFSVerifier

/-! ### The analysis -/

namespace ArtifactAnalyzer

def audioExtensions : List String := [".mp3", ".wav", ".ogg", ".m4a", ".flac"]

def videoExtensions : List String := [".mp4", ".avi", ".mov", ".mkv", ".webm"]

/-- From the last dot on. -/
def getFileExtension (filename : String) : String :=
  match filename.toList.reverse.findIdx? (· = '.') with
  | some afterDot => String.ofList (filename.toList.drop (filename.toList.length - 1 - afterDot))
  | none => ""

/-- `content[i]`, or the index where it is out of bounds. -/
def readByte (content : List UInt8) (i : ℕ) : Except ℕ UInt8 :=
  match content[i]? with
  | some byte => .ok byte
  | none => .error i

/-- Compares the bytes from an index on with a signature, up to the first that differs. -/
def matchesAt (content : List UInt8) (i : ℕ) : List UInt8 → Except ℕ Bool
  | [] => .ok true
  | byte :: signature => do
    if (← readByte content i) = byte then matchesAt content (i + 1) signature else return false

/-- By the extension, or else by the first bytes of an MP3, a WAV or an MP4 file. -/
def detectArtifactType (filename : String) (content : List UInt8) : Except ℕ String :=
  let ext := (getFileExtension filename).map Char.toLower
  if ext ∈ audioExtensions then .ok "audio"
  else if ext ∈ videoExtensions then .ok "video"
  else if 4 ≤ content.length then do
    if ← matchesAt content 0 (bytesOf "ID3") then return "audio"
    if ← matchesAt content 0 (bytesOf "RIFF") then return "audio"
    if ← matchesAt content 4 (bytesOf "ftyp") then return "video"
    return "unknown"
  else .ok "unknown"

def analyze (artifactType : String) (sha256 : Sha256) (content : List UInt8) (format : String)
    (now : Nanoseconds) : ArtifactAnalysis where
  artifactType := artifactType
  sizeBytes := content.length.toUInt64
  contentHash := sha256 content
  format := format
  timestamp := .ofInt (wholeSeconds now)

def analyzeAudio := analyze "audio"

def analyzeVideo := analyze "video"

/-- The first half of the hash of the first 4 KB. -/
def generatePerceptualHash (sha256 : Sha256) (content : List UInt8) : PerceptualHash :=
  let sampleSize := min content.length 4096
  let fullHash := sha256 (content.take sampleSize)
  Vector.ofFn fun i => fullHash[i]

end ArtifactAnalyzer

/-! ### The attestation -/

namespace ProvenanceAttestationBuilder

/-- The first sixteen bytes of the hash. -/
def generateAttestationId (sha256 : Sha256) (ipfsCid creatorWallet : String) (now : Nanoseconds) :
    String :=
  hex ((sha256 (bytesOf (ipfsCid ++ creatorWallet ++ toString (milliseconds now)))).toList.take 16)

/-- The type of a format. -/
def artifactTypeOf (format : String) : String :=
  let ext := ("." ++ format).map Char.toLower
  if ext ∈ ArtifactAnalyzer.audioExtensions then "audio"
  else if ext ∈ ArtifactAnalyzer.videoExtensions then "video"
  else "unknown"

/-- Of a content in memory.  `analysisNow` and `idNow` are the two clock readings. -/
def createArtifactAttestation (sha256 : Sha256) (config : IPFSConfig) (content : List UInt8)
    (format creatorWallet : String) (metadata : Store String String)
    (analysisNow idNow : Nanoseconds) : Except String ArtifactAttestation :=
  let artifactType := artifactTypeOf format
  if artifactType = "unknown" then .error "Unsupported format"
  else
    let analysis :=
      if artifactType = "audio" then ArtifactAnalyzer.analyzeAudio sha256 content format analysisNow
      else ArtifactAnalyzer.analyzeVideo sha256 content format analysisNow
    let cid := IPFSVerifier.uploadToIpfs sha256 config content
    .ok
      { attestationId := generateAttestationId sha256 cid creatorWallet idNow
        artifactType := artifactType
        ipfsCid := cid
        contentHash := analysis.contentHash
        perceptualHash := ArtifactAnalyzer.generatePerceptualHash sha256 content
        sizeBytes := analysis.sizeBytes
        format := format
        creatorWallet := creatorWallet
        createdAt := analysis.timestamp
        metadata := metadata
        verificationStatus := "pending"
        oracleSignature := "" }

theorem createArtifactAttestation_eq_ok {sha256 : Sha256} {config : IPFSConfig}
    {content : List UInt8} {format creatorWallet : String} {metadata : Store String String}
    {analysisNow idNow : Nanoseconds} {attestation : ArtifactAttestation}
    (h : createArtifactAttestation sha256 config content format creatorWallet metadata analysisNow
      idNow = .ok attestation) :
    attestation.attestationId = generateAttestationId sha256
        (IPFSVerifier.uploadToIpfs sha256 config content) creatorWallet idNow ∧
      attestation.perceptualHash = ArtifactAnalyzer.generatePerceptualHash sha256 content := by
  rw [createArtifactAttestation] at h
  split at h
  · cases h
  · obtain rfl := Except.ok.inj h
    exact ⟨rfl, rfl⟩

/-- It is neither verified nor signed yet. -/
theorem verificationStatus_of_created {sha256 : Sha256} {config : IPFSConfig}
    {content : List UInt8} {format creatorWallet : String} {metadata : Store String String}
    {analysisNow idNow : Nanoseconds} {attestation : ArtifactAttestation}
    (h : createArtifactAttestation sha256 config content format creatorWallet metadata analysisNow
      idNow = .ok attestation) :
    attestation.verificationStatus = "pending" := by
  rw [createArtifactAttestation] at h
  split at h
  · cases h
  · obtain rfl := Except.ok.inj h
    rfl

/-- All contents that a wallet attests in one millisecond get the same id. -/
theorem attestationId_eq_of_local {sha256 : Sha256} {config : IPFSConfig}
    (hlocal : config.useLocalIpfs = true) {content content' : List UInt8}
    {format format' creatorWallet : String} {metadata metadata' : Store String String}
    {analysisNow analysisNow' idNow idNow' : Nanoseconds}
    {attestation attestation' : ArtifactAttestation}
    (h : createArtifactAttestation sha256 config content format creatorWallet metadata analysisNow
      idNow = .ok attestation)
    (h' : createArtifactAttestation sha256 config content' format' creatorWallet metadata'
      analysisNow' idNow' = .ok attestation')
    (hnow : milliseconds idNow = milliseconds idNow') :
    attestation.attestationId = attestation'.attestationId := by
  rw [(createArtifactAttestation_eq_ok h).1, (createArtifactAttestation_eq_ok h').1,
    IPFSVerifier.uploadToIpfs_of_local sha256 hlocal content content', generateAttestationId,
    generateAttestationId, hnow]

end ProvenanceAttestationBuilder

/-! ### The registry -/

structure ArtifactRegistry where
  attestations : Store String ArtifactAttestation
  perceptualHashes : Store String String

structure RegistryStats where
  totalAttestations : UInt64
  audioCount : UInt64
  videoCount : UInt64
  uniqueCreators : UInt64

namespace ArtifactRegistry

open Runs

/-- The state is not loaded from anywhere. -/
def new : ArtifactRegistry := ⟨∅, ∅⟩

def perceptualHashStr (attestation : ArtifactAttestation) : String :=
  hex attestation.perceptualHash.toList

def submitToOracle (attestation : ArtifactAttestation) : ArtifactAttestation :=
  { attestation with
    oracleSignature := "mock_oracle_signature_" ++ attestation.attestationId }

/-- Returns the id, and the caller's attestation as it is after the call: the stored copy
is the one from before it was verified. -/
def registerArtifact (registry : ArtifactRegistry) (attestation : ArtifactAttestation) :
    (Except String String × ArtifactAttestation) × ArtifactRegistry :=
  let hash := perceptualHashStr attestation
  if hash ∈ registry.perceptualHashes then
    ((.error "Duplicate artifact detected", attestation), registry)
  else
    let id := attestation.attestationId
    ((.ok id, submitToOracle { attestation with verificationStatus := "verified" }),
      { attestations := registry.attestations.assign id attestation
        perceptualHashes := registry.perceptualHashes.assign hash id })

/-- Of a content in memory. -/
def verifyArtifactUniqueness (sha256 : Sha256) (registry : ArtifactRegistry)
    (content : List UInt8) : Bool :=
  hex (ArtifactAnalyzer.generatePerceptualHash sha256 content).toList ∉ registry.perceptualHashes

/-- A copy of what is stored, or `none` for the null pointer. -/
def getAttestation (registry : ArtifactRegistry) (attestationId : String) :
    Option ArtifactAttestation :=
  registry.attestations.lookup attestationId

/-- The loop of `list_artifacts`, which looks at the limit after it has added one. -/
def listLoop (artifactType creatorWallet : String) (limit : UInt64) :
    List ArtifactAttestation → List ArtifactAttestation → List ArtifactAttestation
  | results, [] => results
  | results, attestation :: rest =>
    if artifactType ≠ "" ∧ attestation.artifactType ≠ artifactType then
      listLoop artifactType creatorWallet limit results rest
    else if creatorWallet ≠ "" ∧ attestation.creatorWallet ≠ creatorWallet then
      listLoop artifactType creatorWallet limit results rest
    else
      let results := results ++ [attestation]
      if limit.toNat ≤ results.length then results
      else listLoop artifactType creatorWallet limit results rest

def listArtifacts (registry : ArtifactRegistry) (artifactType creatorWallet : String)
    (limit : UInt64) : List ArtifactAttestation :=
  listLoop artifactType creatorWallet limit [] registry.attestations.sortedValues

/-- What `get_stats` does with an attestation. -/
def countType (stats : RegistryStats) (attestation : ArtifactAttestation) : RegistryStats :=
  if attestation.artifactType = "audio" then { stats with audioCount := stats.audioCount + 1 }
  else if attestation.artifactType = "video" then
    { stats with videoCount := stats.videoCount + 1 }
  else stats

/-- `memory` is what the members of the local `stats` hold before they are written. -/
def getStats (memory : RegistryStats) (registry : ArtifactRegistry) : RegistryStats :=
  let stats :=
    { memory with totalAttestations := UInt64.ofNat (Store.size registry.attestations) }
  let stats := registry.attestations.sortedValues.foldl countType stats
  let creators : Finset String := registry.attestations.sortedValues.foldl
    (fun creators attestation => insert attestation.creatorWallet creators) ∅
  { stats with uniqueCreators := UInt64.ofNat creators.card }

variable {registry : ArtifactRegistry} {attestation : ArtifactAttestation}

/-- A registration is refused, or the attestation and its hash are written. -/
theorem registerArtifact_cases (registry : ArtifactRegistry) (attestation : ArtifactAttestation) :
    (perceptualHashStr attestation ∈ registry.perceptualHashes ∧
      (registerArtifact registry attestation).2 = registry) ∨
    (perceptualHashStr attestation ∉ registry.perceptualHashes ∧
      (registerArtifact registry attestation).2 =
        ⟨registry.attestations.assign attestation.attestationId attestation,
          registry.perceptualHashes.assign (perceptualHashStr attestation)
            attestation.attestationId⟩) := by
  by_cases hhash : perceptualHashStr attestation ∈ registry.perceptualHashes
  · exact .inl ⟨hhash, by rw [registerArtifact, if_pos hhash]⟩
  · exact .inr ⟨hhash, by rw [registerArtifact, if_neg hhash]⟩

/-! ### The two maps -/

/-- Every entry of the index points to a stored attestation with that hash, every stored
attestation's hash leads back to its own id, and the maps have the same size. -/
structure Inverse (registry : ArtifactRegistry) : Prop where
  points : ∀ hash id, registry.perceptualHashes.lookup hash = some id →
    ∃ attestation, registry.attestations.lookup id = some attestation ∧
      perceptualHashStr attestation = hash
  leadsBack : ∀ id attestation, registry.attestations.lookup id = some attestation →
    attestation.attestationId = id ∧
      registry.perceptualHashes.lookup (perceptualHashStr attestation)
        = some attestation.attestationId
  sizes : Store.size registry.perceptualHashes = Store.size registry.attestations

/-- Every attestation is stored under its own id. -/
def OwnIds (registry : ArtifactRegistry) : Prop :=
  ∀ id attestation, registry.attestations.lookup id = some attestation →
    attestation.attestationId = id

/-- An attestation that is not refused has an id that is not taken. -/
def NewId (registry : ArtifactRegistry) (attestation : ArtifactAttestation) : Prop :=
  perceptualHashStr attestation ∉ registry.perceptualHashes →
    attestation.attestationId ∉ registry.attestations

theorem inverse_iff (h : OwnIds registry) :
    Inverse registry ↔
      Store.IsIndex perceptualHashStr registry.attestations registry.perceptualHashes := by
  constructor
  · intro hinverse
    refine ⟨hinverse.points, ?_⟩
    intro id attestation hlookup
    obtain ⟨hid, hback⟩ := hinverse.leadsBack id attestation hlookup
    rw [hback, hid]
  · intro hindex
    refine ⟨hindex.found, ?_, Store.size_eq_of_isIndex hindex⟩
    intro id attestation hlookup
    have hid := h id attestation hlookup
    refine ⟨hid, ?_⟩
    rw [hindex.indexed id attestation hlookup, hid]

theorem ownIds_registerArtifact (registry : ArtifactRegistry) (attestation : ArtifactAttestation)
    (h : OwnIds registry) : OwnIds (registerArtifact registry attestation).2 := by
  rcases registerArtifact_cases registry attestation with ⟨-, hafter⟩ | ⟨-, hafter⟩
  · rw [hafter]
    exact h
  · rw [hafter]
    intro id stored hstored
    rcases Store.of_lookup_assign hstored with ⟨rfl, rfl⟩ | hold
    · rfl
    · exact h id stored hold

theorem ownIds_final (calls : List ArtifactAttestation) :
    OwnIds (final registerArtifact new calls) := by
  refine final_invariant ownIds_registerArtifact ?_ calls
  intro id attestation h
  cases h

/-- A registration keeps the maps inverse exactly if its id is new. -/
theorem inverse_registerArtifact_iff (hown : OwnIds registry) (h : Inverse registry) :
    Inverse (registerArtifact registry attestation).2 ↔ NewId registry attestation := by
  have hown' := ownIds_registerArtifact registry attestation hown
  rcases registerArtifact_cases registry attestation with ⟨hhash, hafter⟩ | ⟨hhash, hafter⟩
  · rw [hafter]
    exact iff_of_true h fun hnew => absurd hhash hnew
  · rw [inverse_iff hown', hafter]
    have hindex := (inverse_iff hown).mp h
    rw [Store.isIndex_assign_iff hindex hhash, NewId]
    exact ⟨fun hnew _ => hnew, fun hnew => hnew hhash⟩

theorem inverse_new : Inverse new := by
  refine (inverse_iff ?_).mpr Store.isIndex_empty
  intro id attestation h
  cases h

/-- The two maps are inverse to each other in every state of a run exactly if every
attestation that is not refused has an id that is not taken. -/
theorem inverse_iff_newIds (calls : List ArtifactAttestation) :
    (∀ pre, pre <+: calls → Inverse (final registerArtifact new pre)) ↔
      Each registerArtifact NewId new calls := by
  refine forall_final_iff inverse_new ?_
  intro pre attestation h
  exact inverse_registerArtifact_iff (ownIds_final pre) h

/-- Two contents of one wallet, attested in the same millisecond with a local node, under
a hash function that adds up bytes. -/
def sameMillisecond : List ArtifactAttestation :=
  [[1], [2]].filterMap fun content =>
    (ProvenanceAttestationBuilder.createArtifactAttestation
      (fun bytes => Vector.replicate 32 bytes.sum) .default content "mp3" "wallet" ∅ 0 0).toOption

/-- Both are registered, the second in the place of the first. -/
theorem not_forall_inverse :
    ¬ ∀ calls pre, pre <+: calls → Inverse (final registerArtifact new pre) := by
  intro h
  have hsizes := (h sameMillisecond sameMillisecond List.prefix_rfl).sizes
  revert hsizes
  decide +kernel

/-! ### What is certified -/

/-- The registration of `attestation` is accepted. -/
def Accepts (registry : ArtifactRegistry) (attestation : ArtifactAttestation) : Prop :=
  (registerArtifact registry attestation).1.1 = .ok attestation.attestationId

/-- The caller's attestation after the call. -/
def certified (registry : ArtifactRegistry) (attestation : ArtifactAttestation) :
    ArtifactAttestation :=
  (registerArtifact registry attestation).1.2

/-- After the registration, and after any others under other ids, the registry returns
what the caller holds, which is verified and signed. -/
def ReturnsCertified (registry : ArtifactRegistry) (attestation : ArtifactAttestation) : Prop :=
  ∀ later : List ArtifactAttestation,
    (∀ other ∈ later, other.attestationId ≠ attestation.attestationId) →
    ∃ returned, getAttestation (final registerArtifact registry (attestation :: later))
        attestation.attestationId = some returned ∧
      returned = certified registry attestation ∧
      returned.verificationStatus = "verified" ∧
      returned.oracleSignature = "mock_oracle_signature_" ++ attestation.attestationId

theorem registerArtifact_of_accepts (h : Accepts registry attestation) :
    certified registry attestation
        = submitToOracle { attestation with verificationStatus := "verified" } ∧
      (registerArtifact registry attestation).2 =
        ⟨registry.attestations.assign attestation.attestationId attestation,
          registry.perceptualHashes.assign (perceptualHashStr attestation)
            attestation.attestationId⟩ := by
  rw [Accepts] at h
  by_cases hhash : perceptualHashStr attestation ∈ registry.perceptualHashes
  · rw [registerArtifact, if_pos hhash] at h
    cases h
  · rw [certified, registerArtifact, if_neg hhash]
    exact ⟨rfl, rfl⟩

/-- Registrations under other ids leave a stored attestation alone. -/
theorem getAttestation_final {id : String} {later : List ArtifactAttestation}
    (hother : ∀ other ∈ later, other.attestationId ≠ id) (registry : ArtifactRegistry) :
    getAttestation (final registerArtifact registry later) id = getAttestation registry id := by
  refine final_rel (R := fun r r' => getAttestation r' id = getAttestation r id) (fun _ => rfl)
    (fun _ _ _ hst htu => htu.trans hst) ?_ (each_of_forall_mem hother)
  intro registry other hne
  rcases registerArtifact_cases registry other with ⟨-, hafter⟩ | ⟨-, hafter⟩
  · rw [hafter]
  · rw [hafter]
    exact Store.lookup_assign_ne registry.attestations other hne.symm

/-- What is stored under the id of an accepted attestation is the attestation as it came
in, before it was verified and signed. -/
theorem getAttestation_of_accepts (h : Accepts registry attestation)
    {later : List ArtifactAttestation}
    (hother : ∀ other ∈ later, other.attestationId ≠ attestation.attestationId) :
    getAttestation (final registerArtifact registry (attestation :: later))
      attestation.attestationId = some attestation := by
  rw [final_cons, getAttestation_final hother, (registerArtifact_of_accepts h).2]
  exact Store.lookup_assign_self ..

/-- The registry returns what it has certified exactly where the attestation came in
verified and signed. -/
theorem returnsCertified_iff (calls : List ArtifactAttestation) (attestation : ArtifactAttestation)
    (h : Accepts (final registerArtifact new calls) attestation) :
    ReturnsCertified (final registerArtifact new calls) attestation ↔
      attestation.verificationStatus = "verified" ∧
        attestation.oracleSignature = "mock_oracle_signature_" ++ attestation.attestationId := by
  constructor
  · intro hreturns
    have hnone : ∀ other ∈ ([] : List ArtifactAttestation),
        other.attestationId ≠ attestation.attestationId :=
      fun _ hother => absurd hother List.not_mem_nil
    obtain ⟨returned, hget, -, hstatus, hsignature⟩ := hreturns [] hnone
    rw [getAttestation_of_accepts h hnone] at hget
    obtain rfl := Option.some.inj hget
    exact ⟨hstatus, hsignature⟩
  · rintro ⟨hstatus, hsignature⟩ later hother
    refine ⟨attestation, getAttestation_of_accepts h hother, ?_, hstatus, hsignature⟩
    -- verifying and signing it again writes the same texts
    rw [(registerArtifact_of_accepts h).1, submitToOracle, ← hstatus, ← hsignature]

/-- An attestation that came in verified and signed. -/
def signedArtifact : ArtifactAttestation where
  attestationId := "a"
  artifactType := "audio"
  ipfsCid := "QmHash123456789"
  contentHash := Vector.replicate 32 1
  perceptualHash := Vector.replicate 16 1
  sizeBytes := 1
  format := "mp3"
  creatorWallet := "wallet"
  createdAt := 0
  metadata := ∅
  verificationStatus := "verified"
  oracleSignature := "mock_oracle_signature_a"

/-- One that came in as it was built. -/
def pendingArtifact (attestationId : String) (byte : UInt8) : ArtifactAttestation :=
  { signedArtifact with
    attestationId, perceptualHash := Vector.replicate 16 byte
    verificationStatus := "pending", oracleSignature := "" }

/-- With two artifacts before them and one after it, the signed one is returned certified
and the one that came in pending is not. -/
theorem returnsCertified_iff_signedArtifact :
    let registry := final registerArtifact new [pendingArtifact "b" 2, pendingArtifact "c" 3]
    ReturnsCertified registry signedArtifact ∧
    getAttestation (final registerArtifact registry [signedArtifact, pendingArtifact "d" 4]) "a"
      = some (certified registry signedArtifact) ∧
    ¬ ReturnsCertified registry (pendingArtifact "d" 4) := by
  intro registry
  have hsigned : ReturnsCertified registry signedArtifact :=
    (returnsCertified_iff [pendingArtifact "b" 2, pendingArtifact "c" 3] signedArtifact
      (by unfold Accepts; decide +kernel)).mpr ⟨rfl, by decide +kernel⟩
  refine ⟨hsigned, ?_, ?_⟩
  · obtain ⟨returned, hget, hcertified, -⟩ := hsigned [pendingArtifact "d" 4] (by decide)
    rw [← hcertified]
    exact hget
  · intro hpending
    obtain ⟨hstatus, -⟩ := (returnsCertified_iff [pendingArtifact "b" 2, pendingArtifact "c" 3]
      (pendingArtifact "d" 4) (by unfold Accepts; decide +kernel)).mp hpending
    exact absurd hstatus (by decide)

/-- No attestation that was built from a content is returned certified. -/
theorem not_returnsCertified_of_created {sha256 : Sha256} {config : IPFSConfig}
    {content : List UInt8} {format creatorWallet : String} {metadata : Store String String}
    {analysisNow idNow : Nanoseconds} (calls : List ArtifactAttestation)
    (h : ProvenanceAttestationBuilder.createArtifactAttestation sha256 config content format
      creatorWallet metadata analysisNow idNow = .ok attestation)
    (haccepts : Accepts (final registerArtifact new calls) attestation) :
    ¬ ReturnsCertified (final registerArtifact new calls) attestation := by
  intro hreturns
  have hnone : ∀ other ∈ ([] : List ArtifactAttestation),
      other.attestationId ≠ attestation.attestationId :=
    fun _ hother => absurd hother List.not_mem_nil
  obtain ⟨returned, hget, -, hstatus, -⟩ := hreturns [] hnone
  rw [getAttestation_of_accepts haccepts hnone] at hget
  obtain rfl := Option.some.inj hget
  rw [ProvenanceAttestationBuilder.verificationStatus_of_created h] at hstatus
  exact absurd hstatus (by decide)

theorem not_forall_returnsCertified :
    ¬ ∀ calls attestation, Accepts (final registerArtifact new calls) attestation →
      ReturnsCertified (final registerArtifact new calls) attestation := by
  intro h
  have hcreated : (ProvenanceAttestationBuilder.createArtifactAttestation
      (fun bytes => Vector.replicate 32 bytes.sum) .default [1] "mp3" "wallet" ∅ 0 0).isOk := by
    decide +kernel
  cases hattestation : ProvenanceAttestationBuilder.createArtifactAttestation
      (fun bytes => Vector.replicate 32 bytes.sum) .default [1] "mp3" "wallet" ∅ 0 0 with
  | error message =>
    rw [hattestation] at hcreated
    cases hcreated
  | ok attestation =>
    have haccepts : Accepts (final registerArtifact new []) attestation := rfl
    exact not_returnsCertified_of_created [] hattestation haccepts (h [] attestation haccepts)

end ArtifactRegistry

end Membra
