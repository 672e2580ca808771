/-
Queries of the registry.

`list_artifacts` looks at the limit after it has added an attestation, so that it adds
one before it sees that none was wanted; `get_stats` counts on from what the members of
its local variable hold, which nothing has written.

* `listLoop_eq` — what the loop returns, for any bound;
* `listsFirst_iff` — when that is the first attestations up to the limit;
* `countsStored_iff` — when the statistics are those of what is stored.
-/
import MembraL3.ArtifactRegistry
import MembraL3.Lib.Words
import Mathlib.Data.Set.Card

namespace Membra

namespace ArtifactRegistry

open Runs

/-! ### Listing -/

/-- The attestation passes every filter that is not empty. -/
def Passes (artifactType creatorWallet : String) (attestation : ArtifactAttestation) : Prop :=
  (artifactType ≠ "" → attestation.artifactType = artifactType) ∧
    (creatorWallet ≠ "" → attestation.creatorWallet = creatorWallet)

instance (artifactType creatorWallet : String) : DecidablePred (Passes artifactType creatorWallet) :=
  fun _ => inferInstanceAs (Decidable (_ ∧ _))

/-- The attestation is stored and passes the filters. -/
def Selected (registry : ArtifactRegistry) (artifactType creatorWallet : String)
    (attestation : ArtifactAttestation) : Prop :=
  (∃ id, registry.attestations.lookup id = some attestation) ∧
    Passes artifactType creatorWallet attestation

/-- The listing is the beginning of the selected attestations, in the order of their ids,
up to the limit. -/
def ListsFirst (registry : ArtifactRegistry) (artifactType creatorWallet : String)
    (limit : UInt64) : Prop :=
  ∃ selected : List ArtifactAttestation,
    (selected.Pairwise fun a b => a.attestationId < b.attestationId) ∧
    (∀ attestation,
      attestation ∈ selected ↔ Selected registry artifactType creatorWallet attestation) ∧
    listArtifacts registry artifactType creatorWallet limit = selected.take limit.toNat

variable {artifactType creatorWallet : String} {limit : UInt64} {registry : ArtifactRegistry}
  {attestation : ArtifactAttestation}

theorem listLoop_of_not_passes (h : ¬ Passes artifactType creatorWallet attestation)
    (results rest : List ArtifactAttestation) :
    listLoop artifactType creatorWallet limit results (attestation :: rest)
      = listLoop artifactType creatorWallet limit results rest := by
  rw [listLoop]
  by_cases htype : artifactType ≠ "" ∧ attestation.artifactType ≠ artifactType
  · rw [if_pos htype]
  · have hwallet : creatorWallet ≠ "" ∧ attestation.creatorWallet ≠ creatorWallet := by
      by_contra hwallet
      rw [not_and_not_right] at htype hwallet
      exact h ⟨htype, hwallet⟩
    rw [if_neg htype, if_pos hwallet]

theorem listLoop_of_passes (h : Passes artifactType creatorWallet attestation)
    (results rest : List ArtifactAttestation) :
    listLoop artifactType creatorWallet limit results (attestation :: rest)
      = if limit.toNat ≤ results.length + 1 then results ++ [attestation]
        else listLoop artifactType creatorWallet limit (results ++ [attestation]) rest := by
  have htype := not_and_not_right.mpr h.1
  have hwallet := not_and_not_right.mpr h.2
  rw [listLoop, if_neg htype, if_neg hwallet]
  dsimp only
  rw [List.length_append, List.length_singleton]

/-- The loop adds what passes the filters, at least one of them and otherwise up to the
limit. -/
theorem listLoop_eq (artifactType creatorWallet : String) (limit : UInt64)
    (results rest : List ArtifactAttestation) :
    listLoop artifactType creatorWallet limit results rest
      = results ++ (rest.filter (Passes artifactType creatorWallet ·)).take
          (max (limit.toNat - results.length) 1) := by
  induction rest generalizing results with
  | nil => rw [listLoop, List.filter_nil, List.take_nil, List.append_nil]
  | cons attestation rest ih =>
    by_cases hpasses : Passes artifactType creatorWallet attestation
    · rw [listLoop_of_passes hpasses, List.filter_cons_of_pos (by simpa using hpasses)]
      by_cases hlimit : limit.toNat ≤ results.length + 1
      · have hone : max (limit.toNat - results.length) 1 = 1 := by omega
        rw [if_pos hlimit, hone, List.take_succ_cons, List.take_zero]
      · have hmore : max (limit.toNat - results.length) 1
            = max (limit.toNat - (results.length + 1)) 1 + 1 := by omega
        rw [if_neg hlimit, ih, hmore, List.take_succ_cons, List.length_append,
          List.length_singleton, List.append_assoc, List.singleton_append]
    · rw [listLoop_of_not_passes hpasses, ih,
        List.filter_cons_of_neg (by simpa using hpasses)]

theorem listArtifacts_eq (registry : ArtifactRegistry) (artifactType creatorWallet : String)
    (limit : UInt64) :
    listArtifacts registry artifactType creatorWallet limit
      = (registry.attestations.sortedValues.filter (Passes artifactType creatorWallet ·)).take
          (max limit.toNat 1) := by
  rw [listArtifacts, listLoop_eq, List.nil_append, List.length_nil, Nat.sub_zero]

/-- Where every attestation is stored under its own id, the order of the keys is that of
the ids. -/
theorem pairwise_sortedValues (h : OwnIds registry) :
    registry.attestations.sortedValues.Pairwise fun a b => a.attestationId < b.attestationId := by
  rw [← Store.map_snd_sortedEntries, List.pairwise_map]
  refine (Store.pairwise_sortedEntries registry.attestations).imp_of_mem ?_
  rintro ⟨id, a⟩ ⟨id', b⟩ ha hb hlt
  rw [h id a (Store.mem_sortedEntries_iff.mp ha), h id' b (Store.mem_sortedEntries_iff.mp hb)]
  exact hlt

theorem mem_selection_iff :
    attestation ∈ registry.attestations.sortedValues.filter (Passes artifactType creatorWallet ·) ↔
      Selected registry artifactType creatorWallet attestation := by
  rw [List.mem_filter, Store.mem_sortedValues_iff, Store.mem_values_iff, decide_eq_true_iff,
    Selected]

/-- In ascending order of the ids there is one list of the selected attestations. -/
theorem eq_selection (h : OwnIds registry) {selected : List ArtifactAttestation}
    (hsorted : selected.Pairwise fun a b => a.attestationId < b.attestationId)
    (hmem : ∀ attestation,
      attestation ∈ selected ↔ Selected registry artifactType creatorWallet attestation) :
    selected
      = registry.attestations.sortedValues.filter (Passes artifactType creatorWallet ·) := by
  refine Store.eq_of_mem_iff_of_ascending hsorted ((pairwise_sortedValues h).filter _) ?_
  intro attestation
  rw [hmem, mem_selection_iff]

/-- The first attestations up to the limit are listed exactly if the limit is not 0 or
none is selected. -/
theorem listsFirst_iff (calls : List ArtifactAttestation) (artifactType creatorWallet : String)
    (limit : UInt64) :
    ListsFirst (final registerArtifact new calls) artifactType creatorWallet limit ↔
      limit ≠ 0 ∨ ∀ attestation,
        ¬ Selected (final registerArtifact new calls) artifactType creatorWallet attestation := by
  have hown := ownIds_final calls
  generalize final registerArtifact new calls = registry at hown
  constructor
  · rintro ⟨selected, hsorted, hmem, hlist⟩
    by_cases hlimit : limit = 0
    · refine .inr fun attestation hselected => ?_
      rw [listArtifacts_eq, ← eq_selection hown hsorted hmem, hlimit] at hlist
      obtain ⟨first, rest, rfl⟩ :=
        List.exists_cons_of_ne_nil (List.ne_nil_of_mem ((hmem attestation).mpr hselected))
      cases hlist
    · exact .inl hlimit
  · intro h
    refine ⟨_, (pairwise_sortedValues hown).filter (Passes artifactType creatorWallet ·),
      fun _ => mem_selection_iff, ?_⟩
    rw [listArtifacts_eq]
    rcases h with hlimit | hnone
    · have hpos : limit.toNat ≠ 0 := fun hzero => hlimit (UInt64.toNat_inj.mp hzero)
      rw [max_eq_left (Nat.one_le_iff_ne_zero.mpr hpos)]
    · have hempty : registry.attestations.sortedValues.filter
          (Passes artifactType creatorWallet ·) = [] := by
        refine List.eq_nil_iff_forall_not_mem.mpr fun attestation hmem => ?_
        exact hnone attestation (mem_selection_iff.mp hmem)
      rw [hempty, List.take_nil, List.take_nil]

/-- With a limit of 0 an attestation is listed. -/
theorem not_forall_listsFirst :
    ¬ ∀ calls artifactType creatorWallet limit,
      ListsFirst (final registerArtifact new calls) artifactType creatorWallet limit := by
  intro h
  obtain ⟨selected, -, -, hlist⟩ := h [signedArtifact] "" "" 0
  have hlength := congrArg List.length hlist
  rw [UInt64.toNat_zero, List.take_zero] at hlength
  revert hlength
  decide +kernel

/-! ### Statistics -/

def isAudio (attestation : ArtifactAttestation) : Bool := attestation.artifactType = "audio"

def isVideo (attestation : ArtifactAttestation) : Bool := attestation.artifactType = "video"

/-- The wallets that have created a stored attestation. -/
def creators (registry : ArtifactRegistry) : Set String :=
  {wallet | ∃ id attestation, registry.attestations.lookup id = some attestation ∧
    attestation.creatorWallet = wallet}

/-- The statistics are the numbers of attestations, of each type, and of creators. -/
structure CountsStored (registry : ArtifactRegistry) (stats : RegistryStats) : Prop where
  total : stats.totalAttestations.toNat = Store.size registry.attestations
  audio : stats.audioCount.toNat = Store.count isAudio registry.attestations
  video : stats.videoCount.toNat = Store.count isVideo registry.attestations
  unique : stats.uniqueCreators.toNat = (creators registry).ncard

theorem audioCount_foldl (stats : RegistryStats) (attestations : List ArtifactAttestation) :
    (attestations.foldl countType stats).audioCount
      = stats.audioCount + UInt64.ofNat (attestations.countP isAudio) := by
  rw [← Words.foldl_count]
  refine (List.foldl_hom RegistryStats.audioCount fun stats attestation => ?_).symm
  rw [countType, isAudio]
  by_cases haudio : attestation.artifactType = "audio"
  · rw [if_pos haudio, if_pos (decide_eq_true haudio)]
  · rw [if_neg haudio, if_neg (by simpa using haudio)]
    split <;> rfl

theorem videoCount_foldl (stats : RegistryStats) (attestations : List ArtifactAttestation) :
    (attestations.foldl countType stats).videoCount
      = stats.videoCount + UInt64.ofNat (attestations.countP isVideo) := by
  rw [← Words.foldl_count]
  refine (List.foldl_hom RegistryStats.videoCount fun stats attestation => ?_).symm
  rw [countType, isVideo]
  by_cases haudio : attestation.artifactType = "audio"
  · rw [if_pos haudio, haudio]
    rfl
  · rw [if_neg haudio]
    by_cases hvideo : attestation.artifactType = "video"
    · rw [if_pos hvideo, if_pos (decide_eq_true hvideo)]
    · rw [if_neg hvideo, if_neg (by simpa using hvideo)]

theorem totalAttestations_foldl (stats : RegistryStats) (attestations : List ArtifactAttestation) :
    (attestations.foldl countType stats).totalAttestations = stats.totalAttestations := by
  induction attestations generalizing stats with
  | nil => rfl
  | cons attestation attestations ih =>
    rw [List.foldl_cons, ih, countType]
    split
    · rfl
    · split <;> rfl

theorem mem_creators_iff {wallet : String} :
    wallet ∈ creators registry ↔
      ∃ attestation ∈ registry.attestations.sortedValues, attestation.creatorWallet = wallet := by
  constructor
  · rintro ⟨id, attestation, hlookup, hwallet⟩
    have hmem := Store.mem_sortedValues_iff.mpr (Store.mem_values_iff.mpr ⟨id, hlookup⟩)
    exact ⟨attestation, hmem, hwallet⟩
  · rintro ⟨attestation, hmem, hwallet⟩
    obtain ⟨id, hlookup⟩ := Store.mem_values_iff.mp (Store.mem_sortedValues_iff.mp hmem)
    exact ⟨id, attestation, hlookup, hwallet⟩

theorem ncard_creators (registry : ArtifactRegistry) :
    (creators registry).ncard
      = (registry.attestations.sortedValues.map (·.creatorWallet)).toFinset.card := by
  rw [← Set.ncard_coe_finset]
  congr 1
  ext wallet
  rw [mem_creators_iff, Finset.mem_coe, List.mem_toFinset, List.mem_map]

theorem ncard_creators_le (registry : ArtifactRegistry) :
    (creators registry).ncard ≤ Store.size registry.attestations := by
  rw [ncard_creators, ← Store.length_sortedValues]
  refine (List.toFinset_card_le _).trans ?_
  rw [List.length_map]

/-- The four members as `get_stats` returns them. -/
theorem getStats_eq (memory : RegistryStats) (registry : ArtifactRegistry) :
    getStats memory registry =
      { totalAttestations := UInt64.ofNat (Store.size registry.attestations)
        audioCount :=
          memory.audioCount + UInt64.ofNat (Store.count isAudio registry.attestations)
        videoCount :=
          memory.videoCount + UInt64.ofNat (Store.count isVideo registry.attestations)
        uniqueCreators := UInt64.ofNat (creators registry).ncard } := by
  rw [getStats, Store.foldl_insert_eq, Finset.empty_union, ← ncard_creators,
    totalAttestations_foldl, audioCount_foldl, videoCount_foldl, Store.countP_sortedValues,
    Store.countP_sortedValues]

/-- The statistics are right exactly if nothing was in the two counters, and the number
of attestations fits. -/
theorem countsStored_iff (calls : List ArtifactAttestation) (memory : RegistryStats) :
    CountsStored (final registerArtifact new calls)
        (getStats memory (final registerArtifact new calls)) ↔
      Store.size (final registerArtifact new calls).attestations < 2 ^ 64 ∧
        memory.audioCount = 0 ∧ memory.videoCount = 0 := by
  generalize final registerArtifact new calls = registry
  have haudio := Store.count_le_size isAudio registry.attestations
  have hvideo := Store.count_le_size isVideo registry.attestations
  have hunique := ncard_creators_le registry
  rw [getStats_eq]
  constructor
  · rintro ⟨htotal, haudio', hvideo', -⟩
    have hsize : Store.size registry.attestations < 2 ^ 64 := htotal ▸ UInt64.toNat_lt _
    exact ⟨hsize,
      (Words.toNat_add_ofNat_eq_iff _ (haudio.trans_lt hsize)).mp haudio',
      (Words.toNat_add_ofNat_eq_iff _ (hvideo.trans_lt hsize)).mp hvideo'⟩
  · rintro ⟨hsize, haudio', hvideo'⟩
    exact
      { total := UInt64.toNat_ofNat_of_lt' hsize
        audio := (Words.toNat_add_ofNat_eq_iff _ (haudio.trans_lt hsize)).mpr haudio'
        video := (Words.toNat_add_ofNat_eq_iff _ (hvideo.trans_lt hsize)).mpr hvideo'
        unique := UInt64.toNat_ofNat_of_lt' (hunique.trans_lt hsize) }

/-- A counter that starts at 1 counts one attestation in an empty registry. -/
theorem not_forall_countsStored :
    ¬ ∀ calls memory, CountsStored (final registerArtifact new calls)
      (getStats memory (final registerArtifact new calls)) := by
  intro h
  exact absurd (h [] ⟨0, 1, 0, 0⟩).audio (by decide +kernel)

end ArtifactRegistry

end Membra
