/-
The proof book.

`ProofBook` keeps a list of entries, each sealed with the hash of the one before
it, and caches the hash of the last one.  The chain it checks is the hash chain of
`HashChain` over the strings `ProofEntry.payload`.

* `verifyFrom_iff` — what `verifyChain` accepts, entry by entry;
* `verifyFrom_concat` — an accepted list is extended by one entry sealed with the
  tip;
* `append_valid` — an append keeps `Valid`: the chain verifies and the cached hash
  is its tip;
* `proofBook_always_valid` — the book after every run of its operations.
-/
import MembraL3.Lib.HashChain
import MembraL3.Lib.Runs
import MembraL3.Crypto
import MembraL3.Clock

namespace Membra

inductive ProofType where
  | volatility
  | development
  | zkCompute
  | governance
  | feeCredit
  | routeValidation
  | oracleUpdate
  | treasury
  | identityLink
  deriving DecidableEq

/-- `static_cast<int>(type)`. -/
def ProofType.code : ProofType → ℕ
  | .volatility => 0
  | .development => 1
  | .zkCompute => 2
  | .governance => 3
  | .feeCredit => 4
  | .routeValidation => 5
  | .oracleUpdate => 6
  | .treasury => 7
  | .identityLink => 8

structure ProofEntry where
  type : ProofType
  data : String
  timestamp : Seconds
  prevHash : String
  entryHash : String
  deriving DecidableEq

/-- The genesis hash. -/
def genesis : String := String.ofList (List.replicate 64 '0')

namespace ProofEntry

/-- What an entry is about, apart from its place in the chain. -/
abbrev Content := ProofType × String × Seconds

def content (entry : ProofEntry) : Content := (entry.type, entry.data, entry.timestamp)

/-- The text of an entry without the hash of the one before it. -/
def text (c : Content) : String := toString c.1.code ++ c.2.1 ++ toStringDouble c.2.2

/-- What is hashed for an entry. -/
def payload (c : Content) (prevHash : String) : String := text c ++ prevHash

def computeHash (sha256 : Sha256) (entry : ProofEntry) : String :=
  hashToHex sha256 (payload entry.content entry.prevHash)

/-- `seal`: `prev_hash` is set first, then hashed. -/
def sealWith (sha256 : Sha256) (entry : ProofEntry) (prev : String) : ProofEntry :=
  let entry := { entry with prevHash := prev }
  { entry with entryHash := entry.computeHash sha256 }

end ProofEntry

structure ProofBook where
  entries : List ProofEntry
  lastHash : String

namespace ProofBook

open ProofEntry

def new : ProofBook := ⟨[], genesis⟩

/-- `append`, at the clock reading `now`. -/
def append (sha256 : Sha256) (book : ProofBook) (type : ProofType) (data : String)
    (now : Seconds) : ProofEntry × ProofBook :=
  let entry : ProofEntry :=
    { type := type, data := data, timestamp := now, prevHash := "", entryHash := "" }
  let entry := entry.sealWith sha256 book.lastHash
  (entry, ⟨book.entries ++ [entry], entry.entryHash⟩)

/-- The newest `limit` entries of a type, the newest first. -/
def getEntries (book : ProofBook) (type : ProofType) (limit : UInt64) : List ProofEntry :=
  (book.entries.reverse.filter fun entry => entry.type = type).take limit.toNat

/-- The loop of `verify_chain`, from the hash the next entry has to name. -/
def verifyFrom (sha256 : Sha256) (expected : String) : List ProofEntry → Bool
  | [] => true
  | entry :: entries =>
    if entry.prevHash ≠ expected then false
    else
      let computed := entry.computeHash sha256
      if entry.entryHash ≠ computed then false
      else verifyFrom sha256 computed entries

def verifyChain (sha256 : Sha256) (book : ProofBook) : Bool :=
  verifyFrom sha256 genesis book.entries

def entryCount (book : ProofBook) : ℕ := book.entries.length

/-! ### What the loop accepts -/

variable {sha256 : Sha256}

/-- The hash a chain of entries ends in. -/
def tip (sha256 : Sha256) (h : String) (entries : List ProofEntry) : String :=
  HashChain.tip payload (hashToHex sha256) h (entries.map content)

@[simp] theorem tip_cons (h : String) (entry : ProofEntry) (entries : List ProofEntry) :
    tip sha256 h (entry :: entries)
      = tip sha256 (hashToHex sha256 (payload entry.content h)) entries := rfl

theorem tip_concat (h : String) (entries : List ProofEntry) (entry : ProofEntry) :
    tip sha256 h (entries ++ [entry])
      = hashToHex sha256 (payload entry.content (tip sha256 h entries)) := by
  rw [tip, List.map_append, List.map_singleton, HashChain.tip_concat, ← tip]

theorem verifyFrom_cons_iff {h : String} {entry : ProofEntry} {entries : List ProofEntry} :
    verifyFrom sha256 h (entry :: entries) = true ↔
      entry.prevHash = h ∧ entry.entryHash = hashToHex sha256 (payload entry.content h) ∧
        verifyFrom sha256 (hashToHex sha256 (payload entry.content h)) entries = true := by
  rw [verifyFrom]
  by_cases hprev : entry.prevHash = h
  · subst hprev
    by_cases hentry : entry.entryHash = entry.computeHash sha256
    · rw [if_neg (by simp), if_neg (by simp [hentry])]
      exact ⟨fun hrest => ⟨rfl, hentry, hrest⟩, fun hall => hall.2.2⟩
    · rw [if_neg (by simp), if_pos hentry]
      exact ⟨fun hfalse => absurd hfalse (by simp), fun hall => absurd hall.2.1 hentry⟩
  · rw [if_pos hprev]
    exact ⟨fun hfalse => absurd hfalse (by simp), fun hall => absurd hall.1 hprev⟩

/-- An accepted list is extended by an entry sealed with the tip, and by no other. -/
theorem verifyFrom_concat {h : String} {entries : List ProofEntry} {entry : ProofEntry} :
    verifyFrom sha256 h (entries ++ [entry]) = true ↔
      verifyFrom sha256 h entries = true ∧ entry.prevHash = tip sha256 h entries ∧
        entry.entryHash = hashToHex sha256 (payload entry.content (tip sha256 h entries)) := by
  induction entries generalizing h with
  | nil =>
    rw [List.nil_append, verifyFrom_cons_iff]
    simp [verifyFrom, tip]
  | cons first entries ih =>
    rw [List.cons_append, verifyFrom_cons_iff, verifyFrom_cons_iff, ih, tip_cons]
    simp only [and_assoc]

/-- The last entry of an accepted list holds the tip. -/
theorem lastHash_of_verified {h : String} {entries : List ProofEntry}
    (hverify : verifyFrom sha256 h entries = true) :
    (entries.getLast?.map ProofEntry.entryHash).getD h = tip sha256 h entries := by
  rcases List.eq_nil_or_concat' entries with rfl | ⟨front, entry, rfl⟩
  · rfl
  · obtain ⟨-, -, hentry⟩ := verifyFrom_concat.mp hverify
    rw [List.getLast?_concat, tip_concat, ← hentry]
    rfl

/-! ### The book keeps itself valid -/

/-- The chain verifies, and the cached hash is its tip. -/
structure Valid (sha256 : Sha256) (book : ProofBook) : Prop where
  verified : book.verifyChain sha256 = true
  cached : book.lastHash = tip sha256 genesis book.entries

theorem valid_new : Valid sha256 new := ⟨rfl, rfl⟩

theorem append_valid {book : ProofBook} (h : Valid sha256 book) (type : ProofType)
    (data : String) (now : Seconds) : Valid sha256 (book.append sha256 type data now).2 := by
  constructor
  · refine verifyFrom_concat.mpr ⟨h.verified, h.cached, ?_⟩
    rw [← h.cached]
    rfl
  · rw [append, tip_concat, ← h.cached]
    rfl

/-- The cached hash is the one in the last entry, or the genesis hash. -/
theorem Valid.lastHash_eq {book : ProofBook} (h : Valid sha256 book) :
    book.lastHash = (book.entries.getLast?.map ProofEntry.entryHash).getD genesis := by
  rw [h.cached, lastHash_of_verified h.verified]

/-! ### Runs -/

inductive Call where
  | append (type : ProofType) (data : String) (now : Seconds)
  | getEntries (type : ProofType) (limit : UInt64)
  | verifyChain

inductive Result where
  | entry (entry : ProofEntry)
  | entries (entries : List ProofEntry)
  | verified (ok : Bool)

def step (sha256 : Sha256) (book : ProofBook) : Call → Result × ProofBook
  | .append type data now =>
    let (entry, book) := book.append sha256 type data now
    (.entry entry, book)
  | .getEntries type limit => (.entries (book.getEntries type limit), book)
  | .verifyChain => (.verified (book.verifyChain sha256), book)

/-- What a call appends. -/
def appended : Call → Option Content
  | .append type data now => some (type, data, now)
  | .getEntries .. => none
  | .verifyChain => none

/-- A call appends at most one entry, after those that are there. -/
theorem step_entries (sha256 : Sha256) (book : ProofBook) (call : Call) :
    ∃ new : List ProofEntry, (step sha256 book call).2.entries = book.entries ++ new ∧
      new.map content = (appended call).toList := by
  cases call with
  | append type data now =>
    exact ⟨[(book.append sha256 type data now).1], rfl, rfl⟩
  | getEntries type limit => exact ⟨[], (List.append_nil _).symm, rfl⟩
  | verifyChain => exact ⟨[], (List.append_nil _).symm, rfl⟩

theorem step_valid (book : ProofBook) (call : Call) (h : Valid sha256 book) :
    Valid sha256 (step sha256 book call).2 := by
  cases call with
  | append type data now => exact append_valid h type data now
  | getEntries type limit => exact h
  | verifyChain => exact h

/-- A run extends the list of entries by what its calls append. -/
theorem final_entries (sha256 : Sha256) (book : ProofBook) (calls : List Call) :
    ∃ new : List ProofEntry,
      (Runs.final (step sha256) book calls).entries = book.entries ++ new ∧
        new.map content = calls.filterMap appended := by
  induction calls generalizing book with
  | nil => exact ⟨[], (List.append_nil _).symm, rfl⟩
  | cons call calls ih =>
    obtain ⟨first, hfirst, hcontent⟩ := step_entries sha256 book call
    obtain ⟨rest, hrest, hcontents⟩ := ih (step sha256 book call).2
    refine ⟨first ++ rest, ?_, ?_⟩
    · rw [Runs.final_cons, hrest, hfirst, List.append_assoc]
    · rw [List.map_append, hcontent, hcontents, ← List.singleton_append, List.filterMap_append]
      cases happended : appended call with
      | none => simp [happended]
      | some c => simp [happended]

/-- After every run the chain verifies, there is one entry for each append with
what was appended, the last hash is that of the last entry, and what was there
before is still there. -/
theorem proofBook_always_valid (sha256 : Sha256) (calls more : List Call) :
    let book := Runs.final (step sha256) new calls
    book.verifyChain sha256 = true ∧
      book.entryCount = (calls.filterMap appended).length ∧
      book.entries.map content = calls.filterMap appended ∧
      book.lastHash = (book.entries.getLast?.map ProofEntry.entryHash).getD genesis ∧
      book.entries <+: (Runs.final (step sha256) new (calls ++ more)).entries := by
  intro book
  have hvalid : Valid sha256 book := Runs.final_invariant step_valid valid_new calls
  obtain ⟨entries, hentries, hcontent⟩ := final_entries sha256 new calls
  have hbook : book.entries = entries := hentries
  obtain ⟨later, hlater, -⟩ := final_entries sha256 book more
  refine ⟨hvalid.verified, ?_, ?_, hvalid.lastHash_eq, ?_⟩
  · rw [entryCount, hbook, ← hcontent, List.length_map]
  · rw [hbook, hcontent]
  · rw [Runs.final_append, hlater]
    exact List.prefix_append ..

end ProofBook

end Membra
