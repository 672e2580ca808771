/-
The proof book among threads.

The operations of `ProofBook` access by access, each under the book's mutex: an append
reads the cached hash, pushes the entry and caches its hash in three accesses, the two
loops read one entry at a time.

* `collect_alone`, `checkFrom_alone` — the loops compute `getEntries` and `verifyFrom`;
* `alone_body` — on its own, a body does what the operation does;
* `appends_serialize` — threads run to their end and leave one chain: it verifies, it
  consists of their appends and nothing else, and each has read a state of it.
-/
import MembraL3.Lib.Atomicity
import MembraL3.GasVaultThreads
import MembraL3.ProofBook

namespace Membra

namespace ProofBook

open Threads Runs ProofEntry

variable {sha256 : Sha256}

/-! ### Accesses -/

/-- `entries_.push_back(entry)`. -/
def pushBack (entry : ProofEntry) (book : ProofBook) : ProofBook :=
  { book with entries := book.entries ++ [entry] }

/-- `last_hash_ = entries_.back().entry_hash`. -/
def cacheHash (book : ProofBook) : ProofBook :=
  { book with
    lastHash := (book.entries.getLast?.map ProofEntry.entryHash).getD book.lastHash }

/-! ### Bodies -/

def appendBody (sha256 : Sha256) (type : ProofType) (data : String) (now : Seconds) :
    Prog ProofBook Mutex ProofEntry := do
  let entry : ProofEntry :=
    { type := type, data := data, timestamp := now, prevHash := "", entryHash := "" }
  let lastHash ← .read ProofBook.lastHash
  let entry := entry.sealWith sha256 lastHash
  .write (pushBack entry)
  .write cacheHash
  -- `entries_.back()`, of a list that is not empty
  .read fun book => book.entries.getLast?.getD entry

/-- The loop of `get_entries`, with the first `n` entries to go and `result` so far. -/
def collect (type : ProofType) (limit : UInt64) : ℕ → List ProofEntry →
    Prog ProofBook Mutex (List ProofEntry)
  | 0, result => .done result
  | n + 1, result =>
    if result.length < limit.toNat then do
      let entry ← .read fun book => book.entries[n]?
      match entry with
      | none => return result
      | some entry => collect type limit n (if entry.type = type then result ++ [entry] else result)
    else .done result

def getEntriesBody (type : ProofType) (limit : UInt64) :
    Prog ProofBook Mutex (List ProofEntry) := do
  let size ← .read fun book => book.entries.length
  collect type limit size []

/-- The loop of `verify_chain`, with the last `n` of `size` entries to go. -/
def checkFrom (sha256 : Sha256) (size : ℕ) : ℕ → String → Prog ProofBook Mutex Bool
  | 0, _ => .done true
  | n + 1, expected => do
    let entry ← .read fun book => book.entries[size - (n + 1)]?
    match entry with
    | none => return true
    | some entry =>
      if entry.prevHash ≠ expected then return false
      else
        let computed := entry.computeHash sha256
        if entry.entryHash ≠ computed then return false
        else checkFrom sha256 size n computed

def verifyChainBody (sha256 : Sha256) : Prog ProofBook Mutex Bool := do
  let size ← .read fun book => book.entries.length
  checkFrom sha256 size size genesis

def body (sha256 : Sha256) : Call → Prog ProofBook Mutex Result
  | .append type data now => do
    let entry ← appendBody sha256 type data now
    return .entry entry
  | .getEntries type limit => do
    let entries ← getEntriesBody type limit
    return .entries entries
  | .verifyChain => do
    let ok ← verifyChainBody sha256
    return .verified ok

/-- Threads that call a book that is constructed for them. -/
def threads {T : Type} (sha256 : Sha256) (calls : T → List Call) :
    State T ProofBook Mutex (List (Call × Result)) :=
  Atomic.threads .proofBook (fun _ => false) (body sha256) calls new

/-! ### Bodies without other threads -/

theorem appendBody_alone (type : ProofType) (data : String) (now : Seconds) (book : ProofBook) :
    (appendBody sha256 type data now).alone book = book.append sha256 type data now := by
  show (_, cacheHash (pushBack _ book)) = _
  simp only [cacheHash, pushBack, List.getLast?_concat]
  rfl

/-- The loop collects the newest entries of the type among the first `n`. -/
theorem collect_alone (type : ProofType) (limit : UInt64) {n : ℕ} {book : ProofBook}
    {result : List ProofEntry} (hn : n ≤ book.entries.length)
    (hresult : result.length ≤ limit.toNat) :
    (collect type limit n result).alone book
      = (result ++ (((book.entries.take n).reverse.filter fun entry => entry.type = type).take
          (limit.toNat - result.length)), book) := by
  induction n generalizing result with
  | zero => simp [collect]
  | succ n ih =>
    rw [collect]
    by_cases hlimit : result.length < limit.toNat
    · have hget : book.entries[n]? = some book.entries[n] := List.getElem?_eq_getElem hn
      have htake : (book.entries.take (n + 1)).reverse
          = book.entries[n] :: (book.entries.take n).reverse := by
        rw [List.take_add_one, hget, Option.toList_some, List.reverse_append,
          List.reverse_singleton, List.singleton_append]
      rw [if_pos hlimit, Prog.monad_bind, Prog.read_bind, Prog.alone_act, id_eq, hget]
      show (collect type limit n _).alone book = _
      by_cases htype : book.entries[n].type = type
      · have hleft : limit.toNat - result.length
            = limit.toNat - (result ++ [book.entries[n]]).length + 1 := by
          rw [List.length_append, List.length_singleton]
          omega
        have hnext : (result ++ [book.entries[n]]).length ≤ limit.toNat := by
          rw [List.length_append, List.length_singleton]
          omega
        rw [if_pos htype, ih (by omega) hnext, htake,
          List.filter_cons_of_pos (by simpa using htype), hleft, List.take_succ_cons,
          List.append_assoc, List.singleton_append]
      · rw [if_neg htype, ih (by omega) hresult, htake,
          List.filter_cons_of_neg (by simpa using htype)]
    · have hzero : limit.toNat - result.length = 0 := by omega
      rw [if_neg hlimit, hzero, List.take_zero, List.append_nil]
      rfl

theorem getEntriesBody_alone (type : ProofType) (limit : UInt64) (book : ProofBook) :
    (getEntriesBody type limit).alone book = (book.getEntries type limit, book) := by
  show (collect type limit book.entries.length []).alone book = _
  rw [collect_alone type limit le_rfl (Nat.zero_le _), List.take_length]
  rfl

/-- The loop checks the entries that it has to go. -/
theorem checkFrom_alone {n : ℕ} {book : ProofBook} (hn : n ≤ book.entries.length)
    (expected : String) :
    (checkFrom sha256 book.entries.length n expected).alone book
      = (verifyFrom sha256 expected (book.entries.drop (book.entries.length - n)), book) := by
  induction n generalizing expected with
  | zero => simp [checkFrom, verifyFrom]
  | succ n ih =>
    have hlt : book.entries.length - (n + 1) < book.entries.length := by omega
    have hget := List.getElem?_eq_getElem hlt
    have hdrop := List.drop_eq_getElem_cons hlt
    have hnext : book.entries.length - (n + 1) + 1 = book.entries.length - n := by omega
    rw [hnext] at hdrop
    rw [checkFrom, Prog.monad_bind, Prog.read_bind, Prog.alone_act, id_eq, hget, hdrop, verifyFrom]
    dsimp only
    split
    · rfl
    split
    · rfl
    · exact ih (by omega) _

theorem verifyChainBody_alone (book : ProofBook) :
    (verifyChainBody sha256).alone book = (book.verifyChain sha256, book) := by
  show (checkFrom sha256 book.entries.length book.entries.length genesis).alone book = _
  rw [checkFrom_alone le_rfl, Nat.sub_self, List.drop_zero]
  rfl

/-- On its own, a body does what the operation does. -/
theorem alone_body (c : Call) (book : ProofBook) :
    (body sha256 c).alone book = step sha256 book c := by
  cases c with
  | append type data now =>
    rw [body, Prog.monad_bind, Prog.alone_bind, appendBody_alone]
    rfl
  | getEntries type limit =>
    rw [body, Prog.monad_bind, Prog.alone_bind, getEntriesBody_alone]
    rfl
  | verifyChain =>
    rw [body, Prog.monad_bind, Prog.alone_bind, verifyChainBody_alone]
    rfl

theorem serve_body : Atomic.serve (body sha256) = step sha256 := by
  funext book c
  exact alone_body c book

theorem lockFree_collect (type : ProofType) (limit : UInt64) (n : ℕ) (result : List ProofEntry) :
    LockFree (collect type limit n result) := by
  induction n generalizing result with
  | zero => trivial
  | succ n ih =>
    rw [collect]
    split
    · refine (lockFree_read _).bind fun entry => ?_
      cases entry with
      | none => trivial
      | some entry => exact ih _
    · trivial

theorem lockFree_checkFrom (size n : ℕ) (expected : String) :
    LockFree (checkFrom sha256 size n expected) := by
  induction n generalizing expected with
  | zero => trivial
  | succ n ih =>
    refine (lockFree_read _).bind fun entry => ?_
    cases entry with
    | none => trivial
    | some entry =>
      dsimp only
      split
      · trivial
      split
      · trivial
      · exact ih _

theorem lockFree_body (sha256 : Sha256) (c : Call) : LockFree (body sha256 c) := by
  cases c with
  | append type data now => exact fun _ _ _ _ => trivial
  | getEntries type limit =>
    refine ((lockFree_read _).bind fun size => ?_).bind fun _ => trivial
    exact lockFree_collect type limit size []
  | verifyChain =>
    refine ((lockFree_read _).bind fun size => ?_).bind fun _ => trivial
    exact lockFree_checkFrom size size genesis

/-! ### One chain -/

/-- The answer to a call that finds the first `n` of these entries. -/
def answer (entries : List ProofEntry) (n : ℕ) : Call → Result
  | .append type data now =>
    .entry (entries[n]?.getD
      { type := type, data := data, timestamp := now, prevHash := "", entryHash := "" })
  | .getEntries type limit =>
    .entries (((entries.take n).reverse.filter fun entry => entry.type = type).take limit.toNat)
  | .verifyChain => .verified true

/-- The number of entries after some calls. -/
def appends (calls : List Call) : ℕ := (calls.filterMap appended).length

theorem length_entries_final (sha256 : Sha256) (calls : List Call) :
    (final (step sha256) new calls).entries.length = appends calls := by
  obtain ⟨entries, hentries, hcontent⟩ := final_entries sha256 new calls
  rw [hentries, appends, ← hcontent, List.length_map]
  rfl

/-- The call at each place of a run is answered from the entries that the run ends with. -/
theorem answer_of_run (sha256 : Sha256) (pre post : List Call) (c : Call) :
    (step sha256 (final (step sha256) new pre) c).1
      = answer (final (step sha256) new (pre ++ [c] ++ post)).entries (appends pre) c := by
  obtain ⟨later, hlater, -⟩ := final_entries sha256 (final (step sha256) new (pre ++ [c])) post
  rw [← final_append, final_append _ pre [c], final_cons, final_nil] at hlater
  have hlength := length_entries_final sha256 pre
  cases c with
  | append type data now =>
    have hget : (final (step sha256) new (pre ++ [.append type data now] ++ post)).entries[appends
        pre]? = some ((final (step sha256) new pre).append sha256 type data now).1 := by
      rw [hlater, ← hlength]
      show ((_ ++ [_]) ++ later)[_]? = _
      rw [List.append_assoc, List.getElem?_append_right le_rfl, Nat.sub_self]
      rfl
    rw [answer, hget]
    rfl
  | getEntries type limit =>
    have hbefore : (final (step sha256) new pre).entries
        = (final (step sha256) new (pre ++ [.getEntries type limit] ++ post)).entries.take
          (appends pre) := by
      rw [hlater, ← hlength]
      exact List.take_left.symm
    rw [answer, ← hbefore]
    rfl
  | verifyChain =>
    have hvalid : Valid sha256 (final (step sha256) new pre) :=
      final_invariant step_valid valid_new pre
    exact congrArg Result.verified hvalid.verified

variable {T : Type} [DecidableEq T]

/-- The calls of the threads in one order: each thread has made its calls in its order, the
chain verifies and consists of what they append, in that order, and each call has been
answered from the entries that the calls before it had appended. -/
structure OneChain (sha256 : Sha256) (calls : T → List Call) (results : T → List (Call × Result))
    (book : ProofBook) (order : List (T × Call)) : Prop where
  ordered : ∀ t, order.filterMap (Atomic.ofThread t) = calls t
  verified : book.verifyChain sha256 = true
  appended : book.entries.map content = (order.map Prod.snd).filterMap appended
  answered : ∀ t, results t =
    (Atomic.answers (fun pre => answer book.entries (appends pre)) [] order).filterMap
      (Atomic.ofThread t)

/-- Whatever the schedule, the threads run to their end, the chain verifies whenever the
mutex is free, and the finished threads leave one chain. -/
theorem appends_serialize [Finite T] (sha256 : Sha256) (calls : T → List Call) :
    Completes (threads sha256 calls) ∧
      (∀ s, Reachable (threads sha256 calls) s → s.owner .proofBook = none →
        s.data.verifyChain sha256 = true) ∧
      ∀ s results, Reachable (threads sha256 calls) s → (∀ t, s.progs t = .done (results t)) →
        ∃ order, OneChain sha256 calls results s.data order := by
  have hvalid : ∀ earlier, Valid sha256 (final (step sha256) new earlier) :=
    final_invariant step_valid valid_new
  have hshares := Atomic.shares_of_lockFree (lockFree_body sha256)
  refine ⟨Atomic.completes_threads hshares .proofBook calls new, fun s hreach hfree => ?_,
    fun s results hreach hfin => ?_⟩
  · obtain ⟨earlier, -, -, hdata⟩ := Atomic.data_of_free hshares hreach
    rw [serve_body] at hdata
    rw [hdata hfree]
    exact (hvalid _).verified
  obtain ⟨order, hordered, hresults, hdata⟩ := Atomic.atomic_of_finished hshares hreach hfin
  rw [serve_body] at hdata
  obtain ⟨entries, hentries, hcontent⟩ := final_entries sha256 new (order.map Prod.snd)
  refine ⟨order, hordered, ?_, ?_, fun t => ?_⟩
  · rw [hdata]
    exact (hvalid _).verified
  · rw [hdata, hentries]
    exact hcontent
  · rw [hresults]
    refine Atomic.repliesTo_eq_answers (fun pre call hstart => ?_) t
    obtain ⟨post, hpost⟩ := hstart
    rw [serve_body, hdata, ← hpost]
    exact answer_of_run sha256 pre post call

/-! ### Two writers -/

deriving instance DecidableEq for Call, Result

/-- Two threads that append, one of which then checks the chain. -/
def twoWriters : Bool → List Call
  | true => [.append .treasury "a" 1, .verifyChain]
  | false => [.append .governance "b" 2]

def firstByteHash : Sha256 := fun bytes => Vector.replicate 32 (bytes.headD 0)

/-- The entry of the faster thread, and the one sealed with its hash. -/
def twoWritersEntries : List ProofEntry :=
  (final (step firstByteHash) new [.append .governance "b" 2, .append .treasury "a" 1]).entries

def twoWritersResults : Bool → List (Call × Result)
  | true => [(.append .treasury "a" 1, answer twoWritersEntries 1 (.append .treasury "a" 1)),
      (.verifyChain, .verified true)]
  | false => [(.append .governance "b" 2, answer twoWritersEntries 0 (.append .governance "b" 2))]

theorem appends_serialize_twoWriters :
    ∃ book order, OneChain firstByteHash twoWriters twoWritersResults book order := by
  have hrun : ∀ t, ((run (threads firstByteHash twoWriters) [false, false, false, false, false,
      false, true, true, true, true, true, true, true, true, true, true, true]).bind
        fun s => (s.progs t).returned) = some (twoWritersResults t) := by
    decide +kernel
  obtain ⟨s, hreach, hfin⟩ := finished_of_run hrun
  exact ⟨s.data, (appends_serialize firstByteHash twoWriters).2.2 s _ hreach hfin⟩

end ProofBook

end Membra
