/-
What the hash of a mempool binds.

`hash_mempool_state` hashes the transaction hashes and then the printed prices, with
nothing in between and without the tokens that the prices are of.

* `prices_inj` — printed prices one after another can be told apart;
* `stateText_inj_of_cuts` — so can the transaction hashes where their lengths are known;
* `bindsMempool_iff` — the pairs of states for which the hash binds transactions and
  prices;
* `observationProof_eq_iff` — what the proof of an observation binds.
-/
import MembraL3.MempoolGovernor

namespace Membra

namespace LLMMempoolGovernor

/-- The hashes of the pending transactions. -/
def transactionHashes (state : MempoolState) : List String :=
  state.pendingTransactions.map PendingTransaction.transactionHash

/-- The tokens that have a price, in order. -/
def tokens (state : MempoolState) : List String := state.oraclePrices.sortedEntries.map Prod.fst

/-- The prices in the order of their tokens, as they are printed. -/
def prices (state : MempoolState) : List (Bool × ℕ) :=
  state.oraclePrices.sortedValues.map microsecond

/-- The same sequence of transaction hashes and the same price for every token, as it is
printed. -/
structure SameObservation (state state' : MempoolState) : Prop where
  transactionHashes : transactionHashes state = transactionHashes state'
  oraclePrices : ∀ token, (state.oraclePrices.lookup token).map microsecond
    = (state'.oraclePrices.lookup token).map microsecond

/-- Two states with one hash are the same observation, or two different byte strings have
been hashed. -/
def BindsMempool (sha256 : Sha256) (state state' : MempoolState) : Prop :=
  hashMempoolState sha256 state = hashMempoolState sha256 state' →
    SameObservation state state' ∨ stateText state ≠ stateText state'

/-- The same transaction hashes and the same prices in order, but of other tokens. -/
structure RenamesTokens (state state' : MempoolState) : Prop where
  transactionHashes : transactionHashes state = transactionHashes state'
  prices : prices state = prices state'
  tokens : tokens state ≠ tokens state'

/-- The number of bytes of each transaction hash. -/
def cuts (state : MempoolState) : List ℕ :=
  (transactionHashes state).map fun hash => (bytesOf hash).length

/-- Transaction hashes and prices make one text, cut at different places. -/
structure RunTogether (state state' : MempoolState) : Prop where
  text : (transactionHashes state).flatMap bytesOf ++
      ((prices state).map printed).flatMap bytesOf
    = (transactionHashes state').flatMap bytesOf ++
      ((prices state').map printed).flatMap bytesOf
  cuts : cuts state ≠ cuts state'

variable {state state' : MempoolState}

theorem stateText_eq (state : MempoolState) :
    stateText state = (transactionHashes state).flatMap bytesOf ++
      ((prices state).map printed).flatMap bytesOf := by
  have hprinted : (prices state).map printed
      = state.oraclePrices.sortedValues.map toStringDouble := by
    rw [prices, List.map_map]
    exact List.map_congr_left fun price _ => (toStringDouble_eq price).symm
  rw [stateText, transactionHashes, hprinted, List.flatMap_map, List.flatMap_map]

/-- Printed prices one after another can be told apart. -/
theorem prices_inj {ps qs : List (Bool × ℕ)} :
    (ps.map printed).flatMap bytesOf = (qs.map printed).flatMap bytesOf ↔ ps = qs := by
  have hne : ∀ m : Bool × ℕ, (printed m).toList ≠ [] := by
    intro m
    simp [printed_eq]
  rw [flatMap_bytesOf, flatMap_bytesOf, bytesOf_injective.eq_iff, ← String.toList_inj,
    String.toList_join, String.toList_join, List.flatMap_map, List.flatMap_map]
  exact selfDelimiting_printed.flatMap_inj hne

/-- Texts that are cut at the same places are of the same transactions and prices. -/
theorem stateText_inj_of_cuts (hcuts : cuts state = cuts state') :
    stateText state = stateText state' ↔
      transactionHashes state = transactionHashes state' ∧ prices state = prices state' := by
  have hlength : ((transactionHashes state).flatMap bytesOf).length
      = ((transactionHashes state').flatMap bytesOf).length := by
    rw [List.length_flatMap, List.length_flatMap]
    exact congrArg List.sum hcuts
  rw [stateText_eq, stateText_eq]
  constructor
  · intro h
    obtain ⟨hhashes, hprices⟩ := List.append_inj h hlength
    exact ⟨(Codes.flatMap_inj_of_lengths bytesOf_injective hcuts).mp hhashes,
      prices_inj.mp hprices⟩
  · rintro ⟨hhashes, hprices⟩
    rw [hhashes, hprices]

/-- The prices of all tokens are the tokens and their prices in order. -/
theorem oraclePrices_eq_iff :
    (∀ token, (state.oraclePrices.lookup token).map microsecond
        = (state'.oraclePrices.lookup token).map microsecond) ↔
      tokens state = tokens state' ∧ prices state = prices state' := by
  have hprices : ∀ s : MempoolState,
      prices s
        = (s.oraclePrices.sortedEntries.map fun e => (e.1, microsecond e.2)).map Prod.snd := by
    intro s
    rw [prices, ← Store.map_snd_sortedEntries, List.map_map, List.map_map]
    rfl
  have htokens : ∀ s : MempoolState,
      tokens s
        = (s.oraclePrices.sortedEntries.map fun e => (e.1, microsecond e.2)).map Prod.fst := by
    intro s
    rw [tokens, List.map_map]
    rfl
  rw [← Store.map_sortedEntries_eq_iff, htokens, htokens, hprices, hprices]
  constructor
  · intro h
    rw [h]
    exact ⟨rfl, rfl⟩
  · rintro ⟨hfst, hsnd⟩
    rw [← List.zip_unzip (state.oraclePrices.sortedEntries.map fun e => (e.1, microsecond e.2)),
      ← List.zip_unzip (state'.oraclePrices.sortedEntries.map fun e => (e.1, microsecond e.2)),
      List.unzip_eq_map, List.unzip_eq_map]
    simp only
    rw [hfst, hsnd]

theorem SameObservation.cuts_eq (h : SameObservation state state') : cuts state = cuts state' := by
  rw [cuts, h.transactionHashes, cuts]

theorem bindsMempool_iff_of_stateText {sha256 : Sha256} :
    BindsMempool sha256 state state' ↔
      (stateText state = stateText state' → SameObservation state state') :=
  @Codes.binds_iff _ _ sha256 _ _ _

/-- The hash binds transactions and prices of all pairs of states but those that differ
only in the tokens, or in where the hashed texts begin and end. -/
theorem bindsMempool_iff (sha256 : Sha256) (state state' : MempoolState) :
    BindsMempool sha256 state state' ↔
      ¬ (RenamesTokens state state' ∨ RunTogether state state') := by
  rw [bindsMempool_iff_of_stateText, not_or]
  constructor
  · intro hsame
    refine ⟨?_, ?_⟩
    · rintro ⟨hhashes, hprices, htokens⟩
      have hcuts : cuts state = cuts state' := by rw [cuts, hhashes, cuts]
      have hobserved := hsame ((stateText_inj_of_cuts hcuts).mpr ⟨hhashes, hprices⟩)
      exact htokens (oraclePrices_eq_iff.mp hobserved.oraclePrices).1
    · rintro ⟨htext, hcuts⟩
      rw [← stateText_eq, ← stateText_eq] at htext
      exact hcuts (hsame htext).cuts_eq
  · rintro ⟨hnames, hapart⟩ htext
    have hcuts := not_not.mp fun hcuts =>
      hapart ⟨by rw [← stateText_eq, ← stateText_eq, htext], hcuts⟩
    obtain ⟨hhashes, hprices⟩ := (stateText_inj_of_cuts hcuts).mp htext
    have htokens := not_not.mp fun htokens => hnames ⟨hhashes, hprices, htokens⟩
    exact ⟨hhashes, oraclePrices_eq_iff.mpr ⟨htokens, hprices⟩⟩

/-- A mempool without transactions, where one token costs 1. -/
def onePrice (token : String) : MempoolState where
  pendingTransactions := []
  oraclePrices := (∅ : Store String ℚ).assign token 1
  liquidityDepth := ∅
  snapshotTimestamp := 0

/-- No digest tells the tokens apart. -/
theorem not_forall_bindsMempool :
    ¬ ∃ sha256 : Sha256, ∀ state state', BindsMempool sha256 state state' := by
  rintro ⟨sha256, hall⟩
  have htext : stateText (onePrice "ETH") = stateText (onePrice "SOL") := rfl
  have hsame := bindsMempool_iff_of_stateText.mp (hall _ _) htext
  have hprice := hsame.oraclePrices "SOL"
  revert hprice
  decide +kernel

/-! ### The proof of an observation -/

/-- What `generate_observation_proof` hashes: the id and the hash of the state. -/
def observationText (observation : MempoolObservationProof) : List UInt8 :=
  bytesOf observation.observationId ++ observation.mempoolStateHash.toList

def generateObservationProof (sha256 : Sha256) (observation : MempoolObservationProof) : Hash :=
  sha256 (observationText observation)

/-- Observations have the same proof if their ids and the hashes of their states are the
same, whatever else they say, or if two texts collide. -/
theorem observationProof_eq_iff (sha256 : Sha256) (o o' : MempoolObservationProof) :
    generateObservationProof sha256 o = generateObservationProof sha256 o' ↔
      (o.observationId = o'.observationId ∧ o.mempoolStateHash = o'.mempoolStateHash) ∨
        (observationText o ≠ observationText o' ∧
          sha256 (observationText o) = sha256 (observationText o')) := by
  have hlength : ∀ h h' : Hash, h.toList.length = h'.toList.length := fun h h' =>
    h.length_toList.trans h'.length_toList.symm
  have htext : observationText o = observationText o' ↔
      o.observationId = o'.observationId ∧ o.mempoolStateHash = o'.mempoolStateHash := by
    rw [observationText, observationText,
      Codes.append_word_inj (fun _ _ => Vector.toList_inj.mp) hlength, bytesOf_injective.eq_iff]
  exact Codes.digest_eq_iff htext

end LLMMempoolGovernor

end Membra
