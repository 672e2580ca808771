/-
Operations under one mutex are atomic.

Each thread performs a list of calls.  A call takes the mutex, runs a body that takes
none itself, however many actions on the data that is, and releases the mutex; or it is
a single read without the mutex, which sees a part `view` of the data.  No body may
change that part twice.  Then every run of the threads is a sequential one: there is a
`history` of the calls, each placed where it changes the view or where it releases the
mutex, such that

* the threads run to their end (`completes_threads`), and the data is then what the
  history leaves (`atomic_of_finished`), as it is whenever the mutex is free, with the
  first calls of each thread in the history so far (`data_of_free`);
* each thread has received the replies of the history to its own calls, which are all
  its calls in their order (`atomic_of_finished`);
* where the history answers each call from the calls before it, the threads have these
  answers (`repliesTo_eq_answers`);
* what is replied to all threads together is what the history replies
  (`sum_countP_repliesTo`).
-/
import MembraL3.Lib.LockOrder
import MembraL3.Lib.Runs
import Mathlib.Algebra.BigOperators.Group.Finset.Piecewise
import Mathlib.Algebra.Order.Ring.Nat

namespace Threads

open Runs

variable {T V σ L ι ρ α β : Type}

/-! ### Programs without mutexes -/

/-- The program takes no mutex. -/
def LockFree : Prog σ L α → Prop
  | .done _ => True
  | .act _ next => ∀ s, LockFree (next s)
  | .acquire .. => False
  | .release .. => False

theorem LockFree.bind {p : Prog σ L α} {k : α → Prog σ L β} (hp : LockFree p)
    (hk : ∀ a, LockFree (k a)) : LockFree (p.bind k) := by
  induction p with
  | done a => exact hk a
  | act update next ih => exact fun s => ih s (hp s)
  | acquire l rest => exact hp.elim
  | release l rest => exact hp.elim

theorem LockFree.focus {ν : Type} {p : Prog σ L α} (h : LockFree p) (get : ν → σ)
    (put : ν → σ → ν) : LockFree (p.focus get put) := by
  induction p with
  | done a => trivial
  | act update next ih => exact fun n => ih (get n) (h (get n))
  | acquire l rest => exact h.elim
  | release l rest => exact h.elim

theorem lockFree_read (f : σ → α) : LockFree (Prog.read f : Prog σ L α) := fun _ => trivial

theorem lockFree_write (f : σ → σ) : LockFree (Prog.write f : Prog σ L Unit) := fun _ => trivial

theorem lockFree_forM {κ : Type} {body : κ → Prog σ L Unit} (h : ∀ k, LockFree (body k))
    (ks : List κ) : LockFree (ks.forM body) := by
  induction ks with
  | nil => trivial
  | cons k ks ih => exact (h k).bind fun _ => ih

theorem lockFree_foldlM {κ : Type} {body : α → κ → Prog σ L α} (h : ∀ a k, LockFree (body a k))
    (ks : List κ) (a : α) : LockFree (ks.foldlM body a) := by
  induction ks generalizing a with
  | nil => trivial
  | cons k ks ih => exact (h a k).bind fun a => ih a

/-- The program takes no mutex and does not change the view. -/
def Silent (view : σ → V) : Prog σ L α → Prop
  | .done _ => True
  | .act update next => ∀ s, view (update s) = view s ∧ Silent view (next s)
  | .acquire .. => False
  | .release .. => False

/-- The program takes no mutex and changes the view once at most. -/
def ChangesOnce (view : σ → V) : Prog σ L α → Prop
  | .done _ => True
  | .act update next =>
    ∀ s, view (update s) = view s ∧ ChangesOnce view (next s) ∨ Silent view (next s)
  | .acquire .. => False
  | .release .. => False

variable {view : σ → V}

theorem Silent.lockFree {p : Prog σ L α} (h : Silent view p) : LockFree p := by
  induction p with
  | done a => trivial
  | act update next ih => exact fun s => ih s (h s).2
  | acquire l rest => exact h.elim
  | release l rest => exact h.elim

theorem Silent.view_alone {p : Prog σ L α} (h : Silent view p) (s : σ) :
    view (p.alone s).2 = view s := by
  induction p generalizing s with
  | done a => rfl
  | act update next ih => exact (ih s (h s).2 (update s)).trans (h s).1
  | acquire l rest => exact h.elim
  | release l rest => exact h.elim

theorem Silent.bind {p : Prog σ L α} {k : α → Prog σ L β} (hp : Silent view p)
    (hk : ∀ a, Silent view (k a)) : Silent view (p.bind k) := by
  induction p with
  | done a => exact hk a
  | act update next ih => exact fun s => ⟨(hp s).1, ih s (hp s).2⟩
  | acquire l rest => exact hp.elim
  | release l rest => exact hp.elim

/-- After a silent start the program may change the view. -/
theorem Silent.bind_changesOnce {p : Prog σ L α} {k : α → Prog σ L β} (hp : Silent view p)
    (hk : ∀ a, ChangesOnce view (k a)) : ChangesOnce view (p.bind k) := by
  induction p with
  | done a => exact hk a
  | act update next ih => exact fun s => .inl ⟨(hp s).1, ih s (hp s).2⟩
  | acquire l rest => exact hp.elim
  | release l rest => exact hp.elim

theorem Silent.changesOnce {p : Prog σ L α} (h : Silent view p) : ChangesOnce view p := by
  induction p with
  | done a => trivial
  | act update next ih => exact fun s => .inl ⟨(h s).1, ih s (h s).2⟩
  | acquire l rest => exact h.elim
  | release l rest => exact h.elim

theorem ChangesOnce.bind {p : Prog σ L α} {k : α → Prog σ L β} (hp : ChangesOnce view p)
    (hk : ∀ a, Silent view (k a)) : ChangesOnce view (p.bind k) := by
  induction p with
  | done a => exact (hk a).changesOnce
  | act update next ih =>
    exact fun s => (hp s).imp (fun h => ⟨h.1, ih s h.2⟩) fun h => h.bind hk
  | acquire l rest => exact hp.elim
  | release l rest => exact hp.elim

theorem silent_done (a : α) : Silent view (.done a : Prog σ L α) := trivial

theorem silent_read (f : σ → α) : Silent view (Prog.read f : Prog σ L α) :=
  fun _ => ⟨rfl, trivial⟩

theorem silent_write {f : σ → σ} (h : ∀ s, view (f s) = view s) :
    Silent view (Prog.write f : Prog σ L Unit) :=
  fun s => ⟨h s, trivial⟩

/-- One change, and then nothing that is seen. -/
theorem changesOnce_write_bind (f : σ → σ) {k : Unit → Prog σ L β} (hk : Silent view (k ())) :
    ChangesOnce view ((Prog.write f).bind k) :=
  fun _ => .inr hk

theorem silent_foldlM {κ : Type} {body : α → κ → Prog σ L α} (h : ∀ a k, Silent view (body a k))
    (ks : List κ) (a : α) : Silent view (ks.foldlM body a) := by
  induction ks generalizing a with
  | nil => trivial
  | cons k ks ih => exact (h a k).bind fun a => ih a

theorem Silent.ordered {p : Prog σ L α} (h : Silent view p) (rank : L → ℕ) (again held : Set L) :
    Ordered rank again held held p := by
  induction p with
  | done a => rfl
  | act update next ih => exact fun s => ih s (h s).2
  | acquire l rest => exact h.elim
  | release l rest => exact h.elim

theorem ChangesOnce.ordered {p : Prog σ L α} (h : ChangesOnce view p) (rank : L → ℕ)
    (again held : Set L) : Ordered rank again held held p := by
  induction p with
  | done a => rfl
  | act update next ih =>
    exact fun s => (h s).elim (fun h => ih s h.2) fun h => h.ordered rank again held
  | acquire l rest => exact h.elim
  | release l rest => exact h.elim

/-- Where nothing is seen, nothing changes. -/
theorem LockFree.changesOnce {p : Prog σ L α} (h : LockFree p) :
    ChangesOnce (fun _ => ()) p := by
  induction p with
  | done a => trivial
  | act update next ih => exact fun s => .inl ⟨rfl, ih s (h s)⟩
  | acquire l rest => exact h.elim
  | release l rest => exact h.elim

namespace Atomic

/-! ### Calls -/

section

variable (l : L) (peeks : ι → Bool) (body : ι → Prog σ L ρ)

/-- What a call does on its own. -/
def serve (s : σ) (c : ι) : ρ × σ := (body c).alone s

/-- The same for a call of some thread. -/
def serveTo (s : σ) (c : T × ι) : ρ × σ := serve body s c.2

/-- The end of a call. -/
def leave (c : ι) (r : ρ) : Prog σ L (ι × ρ) := .release l (.done (c, r))

/-- A call, under the mutex unless it peeks; it returns the call with its reply. -/
def perform (c : ι) : Prog σ L (ι × ρ) :=
  if peeks c then (body c).bind fun r => .done (c, r)
  else .acquire l ((body c).bind (leave l c))

/-- Threads that perform calls one after the other. -/
def threads (calls : T → List ι) (data : σ) : State T σ L (List (ι × ρ)) :=
  start (fun t => .session (perform l peeks body) [] (calls t)) data

/-- A call without the mutex reads the view, a call with it changes the view once at
most. -/
structure Shares (view : σ → V) : Prop where
  peek : ∀ c, peeks c = true → ∃ look : V → ρ, body c = .read fun s => look (view s)
  once : ∀ c, peeks c = false → ChangesOnce view (body c)

/-- Where a thread is. -/
inductive Phase (σ L ι ρ : Type) where
  /-- Between two calls. -/
  | between (replies : List (ι × ρ)) (calls : List ι)
  /-- In a call that has changed nothing of the view, with `rest` of its body to go. -/
  | inside (replies : List (ι × ρ)) (c : ι) (rest : Prog σ L ρ) (calls : List ι)
  /-- In a call that will not change the view any more, and reply `r`. -/
  | leaving (replies : List (ι × ρ)) (c : ι) (r : ρ) (rest : Prog σ L ρ) (calls : List ι)

variable {l peeks body}

/-- Calls that all take the mutex. -/
theorem shares_of_lockFree (h : ∀ c, LockFree (body c)) :
    Shares (fun _ => false) body fun _ => () :=
  ⟨fun _ hpeek => absurd hpeek Bool.false_ne_true, fun c _ => (h c).changesOnce⟩

/-- What is left of a thread's program. -/
def Phase.prog (l : L) (peeks : ι → Bool) (body : ι → Prog σ L ρ) :
    Phase σ L ι ρ → Prog σ L (List (ι × ρ))
  | .between replies calls => .session (perform l peeks body) replies calls
  | .inside replies c rest calls => after replies c rest calls
  | .leaving replies c _ rest calls => after replies c rest calls
where
  after (replies : List (ι × ρ)) (c : ι) (rest : Prog σ L ρ) (calls : List ι) :
      Prog σ L (List (ι × ρ)) :=
    (rest.bind (leave l c)).bind fun a => .session (perform l peeks body) (replies ++ [a]) calls

/-- The calls that have their place in the history, with their replies. -/
def Phase.replied : Phase σ L ι ρ → List (ι × ρ)
  | .between replies _ => replies
  | .inside replies _ _ _ => replies
  | .leaving replies c r _ _ => replies ++ [(c, r)]

/-- How the data `s` compares with the data `s₀` that the history leaves. -/
def Phase.Agrees (view : σ → V) (body : ι → Prog σ L ρ) (s₀ s : σ) : Phase σ L ι ρ → Prop
  | .between .. => True
  | .inside _ c rest _ =>
    ChangesOnce view rest ∧ rest.alone s = serve body s₀ c ∧ view s = view s₀
  | .leaving _ _ r rest _ => Silent view rest ∧ rest.alone s = (r, s₀)

def Phase.Inside : Phase σ L ι ρ → Prop
  | .between .. => False
  | _ => True

theorem Phase.Agrees.of_not_inside {phase : Phase σ L ι ρ} (h : ¬ phase.Inside) (s₀ s : σ) :
    phase.Agrees view body s₀ s := by
  cases phase with
  | between replies calls => trivial
  | inside replies c rest calls => exact absurd trivial h
  | leaving replies c r rest calls => exact absurd trivial h

/-- In a call the view is that of the history. -/
theorem Phase.Agrees.view_eq {phase : Phase σ L ι ρ} {s₀ s : σ}
    (h : phase.Agrees view body s₀ s) (hin : phase.Inside) : view s = view s₀ := by
  cases phase with
  | between replies calls => exact hin.elim
  | inside replies c rest calls => exact h.2.2
  | leaving replies c r rest calls =>
    have hview := h.1.view_alone s
    rw [h.2] at hview
    exact hview.symm

/-- A thread that has returned is between two calls, with none to go. -/
theorem Phase.eq_of_done {p : Phase σ L ι ρ} {results : List (ι × ρ)}
    (hshares : Shares peeks body view) (h : p.prog l peeks body = .done results) :
    p = .between results [] := by
  cases p with
  | between replies calls =>
    cases calls with
    | nil =>
      cases h
      rfl
    | cons c calls =>
      change (perform l peeks body c).bind _ = _ at h
      cases hpeeks : peeks c with
      | false =>
        rw [perform, hpeeks] at h
        cases h
      | true =>
        obtain ⟨look, hbody⟩ := hshares.peek c hpeeks
        rw [perform, hpeeks, if_pos rfl, hbody] at h
        cases h
  | inside replies c rest calls => cases rest <;> cases h
  | leaving replies c r rest calls => cases rest <;> cases h

theorem yields_perform (c : ι) : Yields (fun r : ι × ρ => r.1 = c) (perform l peeks body c) := by
  rw [perform]
  split
  · exact Yields.bind (yields_true (body c)) fun _ _ => rfl
  · exact Yields.bind (yields_true (body c)) fun _ _ => rfl

theorem Phase.yields_after (replies : List (ι × ρ)) (c : ι) (rest : Prog σ L ρ) (calls : List ι) :
    Yields (fun rs => rs.map Prod.fst = replies.map Prod.fst ++ c :: calls)
      (prog.after l peeks body replies c rest calls) := by
  have hcall : Yields (fun r : ι × ρ => r.1 = c) (rest.bind (leave l c)) :=
    (yields_true rest).bind fun _ _ => rfl
  refine hcall.bind fun r hr => ?_
  refine (yields_session yields_perform (replies ++ [r]) calls).imp fun rs hrs => ?_
  rw [hrs, List.map_append, List.map_singleton, hr, List.append_assoc, List.singleton_append]

/-- A thread makes first the calls that have their place in the history. -/
theorem Phase.yields (p : Phase σ L ι ρ) :
    Yields (fun rs => p.replied.map Prod.fst <+: rs.map Prod.fst) (p.prog l peeks body) := by
  cases p with
  | between replies calls =>
    refine (yields_session yields_perform replies calls).imp fun rs hrs => ?_
    rw [hrs]
    exact List.prefix_append _ _
  | inside replies c rest calls =>
    refine (Phase.yields_after replies c rest calls).imp fun rs hrs => ?_
    rw [hrs]
    exact List.prefix_append _ _
  | leaving replies c r rest calls =>
    refine (Phase.yields_after replies c rest calls).imp fun rs hrs => ?_
    rw [hrs, replied, List.map_append, List.map_singleton]
    exact (List.prefix_append_right_inj _).mpr (List.prefix_append [c] calls)

/-- A history of the calls is a run of the calls. -/
theorem final_serveTo (s : σ) (history : List (T × ι)) :
    final (serveTo body) s history = final (serve body) s (history.map Prod.snd) := by
  have hstep : ∀ s c, id (serveTo body s c).2 = (serve body (id s) (Prod.snd (α := T) c)).2 :=
    fun _ _ => rfl
  exact final_map hstep s history

end

/-! ### Histories -/

section

variable (body : ι → Prog σ L ρ) (data : σ)

/-- The calls of a history with their replies, each for its thread. -/
def replies (history : List (T × ι)) : List (T × ι × ρ) :=
  (trace (serveTo body) data history).map fun e => (e.call.1, e.call.2, e.result)

/-- The answers to calls after the earlier ones, each for the thread of its call. -/
def answers (answer : List ι → ι → ρ) (earlier : List ι) : List (T × ι) → List (T × ι × ρ)
  | [] => []
  | (t, c) :: later => (t, c, answer earlier c) :: answers answer (earlier ++ [c]) later

theorem replies_cons (c : T × ι) (history : List (T × ι)) :
    replies body data (c :: history)
      = (c.1, c.2, (serve body data c.2).1) :: replies body (serve body data c.2).2 history := rfl

/-- The replies of a history are those of its calls. -/
theorem map_snd_replies (history : List (T × ι)) :
    (replies body data history).map Prod.snd
      = (trace (serve body) data (history.map Prod.snd)).map fun e => (e.call, e.result) := by
  induction history generalizing data with
  | nil => rfl
  | cons c history ih =>
    rw [replies_cons, List.map_cons, ih]
    rfl

/-- Where every call is answered from the calls before it, the replies of a history are
these answers. -/
theorem replies_eq_answers {answer : List ι → ι → ρ} {earlier : List ι} {history : List (T × ι)}
    (h : ∀ pre c, pre ++ [c] <+: earlier ++ history.map Prod.snd →
      (serve body (final (serve body) data pre) c).1 = answer pre c) :
    replies body (final (serve body) data earlier) history = answers answer earlier history := by
  induction history generalizing earlier with
  | nil => rfl
  | cons c history ih =>
    obtain ⟨t, c⟩ := c
    rw [List.map_cons, ← List.singleton_append, ← List.append_assoc] at h
    have hrest := ih h
    rw [final_append, final_cons, final_nil] at hrest
    rw [replies_cons, answers, h earlier c (List.prefix_append ..), hrest]

variable [DecidableEq T]

/-- What is for the thread `t`. -/
def ofThread (t : T) (e : T × α) : Option α := if e.1 = t then some e.2 else none

@[simp] theorem ofThread_self (t : T) (a : α) : ofThread t (t, a) = some a := if_pos rfl

theorem ofThread_of_ne {t t' : T} (h : t' ≠ t) (a : α) : ofThread t (t', a) = none := if_neg h

/-- What a thread adds is its own. -/
theorem filterMap_append_self (log : List (T × α)) (t : T) (more : List α) :
    (log ++ more.map (Prod.mk t)).filterMap (ofThread t) = log.filterMap (ofThread t) ++ more := by
  have hself : ofThread t ∘ Prod.mk t = (some : α → Option α) := funext (ofThread_self t)
  rw [List.filterMap_append, List.filterMap_map, hself, List.filterMap_some]

theorem filterMap_append_of_ne (log : List (T × α)) {t t' : T} (h : t' ≠ t) (more : List α) :
    (log ++ more.map (Prod.mk t)).filterMap (ofThread t') = log.filterMap (ofThread t') := by
  have hother : (more.map (Prod.mk t)).filterMap (ofThread t') = [] := by
    rw [List.filterMap_map]
    exact List.filterMap_eq_nil_iff.mpr fun a _ => ofThread_of_ne h.symm a
  rw [List.filterMap_append, hother, List.append_nil]

/-- The calls made by `t`, with their replies. -/
def repliesTo (history : List (T × ι)) (t : T) : List (ι × ρ) :=
  (replies body data history).filterMap (ofThread t)

variable {body data} {history : List (T × ι)} {t : T}

theorem repliesTo_eq_answers {answer : List ι → ι → ρ} {history : List (T × ι)}
    (h : ∀ pre c, pre ++ [c] <+: history.map Prod.snd →
      (serve body (final (serve body) data pre) c).1 = answer pre c) (t : T) :
    repliesTo body data history t = (answers answer [] history).filterMap (ofThread t) := by
  have hreplies := replies_eq_answers body data
    (show ∀ pre c, pre ++ [c] <+: [] ++ history.map Prod.snd → _ from h)
  rw [final_nil] at hreplies
  rw [repliesTo, hreplies]

theorem repliesTo_append (t' : T) (c : ι) :
    repliesTo body data (history ++ [(t', c)]) t
      = repliesTo body data history t ++
        (ofThread t (t', c, (serve body (final (serveTo body) data history) c).1)).toList := by
  rw [repliesTo, replies, trace_append, List.map_append, List.filterMap_append]
  congr 1

theorem repliesTo_append_self (c : ι) :
    repliesTo body data (history ++ [(t, c)]) t
      = repliesTo body data history t ++
        [(c, (serve body (final (serveTo body) data history) c).1)] := by
  rw [repliesTo_append, ofThread_self]
  rfl

theorem repliesTo_append_of_ne {t' : T} (h : t' ≠ t) (c : ι) :
    repliesTo body data (history ++ [(t, c)]) t' = repliesTo body data history t' := by
  rw [repliesTo_append, ofThread_of_ne h.symm]
  exact List.append_nil _

/-- The history serves the calls that each thread makes, in its order. -/
theorem calls_of_repliesTo (body : ι → Prog σ L ρ) (data : σ) (history : List (T × ι)) (t : T) :
    (repliesTo body data history t).map Prod.fst = history.filterMap (ofThread t) := by
  induction history generalizing data with
  | nil => rfl
  | cons c history ih =>
    obtain ⟨t', c⟩ := c
    have hrest := ih (serve body data c).2
    rw [repliesTo] at hrest
    rw [repliesTo, replies_cons, List.filterMap_cons, List.filterMap_cons]
    by_cases heq : t' = t
    · subst heq
      rw [ofThread_self, ofThread_self, List.map_cons, hrest]
    · rw [ofThread_of_ne heq, ofThread_of_ne heq, hrest]

/-- What all threads together make of a list is what the list makes. -/
theorem sum_map_ofThread [Fintype T] {M : Type} [AddCommMonoid M] (f : α → M)
    (events : List (T × α)) :
    ∑ t, ((events.filterMap (ofThread t)).map f).sum = ((events.map Prod.snd).map f).sum := by
  induction events with
  | nil => exact Finset.sum_eq_zero fun t _ => rfl
  | cons e events ih =>
    have hcons : ∀ t, (((e :: events).filterMap (ofThread t)).map f).sum
        = (if e.1 = t then f e.2 else 0) + ((events.filterMap (ofThread t)).map f).sum := by
      intro t
      rw [List.filterMap_cons]
      by_cases heq : e.1 = t
      · rw [← heq, ofThread_self, if_pos rfl, List.map_cons, List.sum_cons]
      · rw [ofThread_of_ne heq, if_neg heq, zero_add]
    simp only [hcons]
    rw [Finset.sum_add_distrib, ih, Finset.sum_ite_eq, if_pos (Finset.mem_univ _), List.map_cons,
      List.map_cons, List.sum_cons]

theorem countP_eq_sum (p : α → Bool) (l : List α) :
    l.countP p = (l.map fun a => if p a then 1 else 0).sum := by
  induction l with
  | nil => rfl
  | cons a l ih => rw [List.countP_cons, List.map_cons, List.sum_cons, ih, add_comm]

theorem sum_countP_ofThread [Fintype T] (p : α → Bool) (events : List (T × α)) :
    ∑ t, (events.filterMap (ofThread t)).countP p = (events.map Prod.snd).countP p := by
  simp only [countP_eq_sum]
  exact sum_map_ofThread _ events

/-- What is replied to all threads together is what the history replies. -/
theorem sum_map_repliesTo [Fintype T] {M : Type} [AddCommMonoid M] (f : ι × ρ → M)
    (history : List (T × ι)) :
    ∑ t, ((repliesTo body data history t).map f).sum
      = ((trace (serve body) data (history.map Prod.snd)).map
          fun e => f (e.call, e.result)).sum := by
  simp only [repliesTo]
  rw [sum_map_ofThread, map_snd_replies, List.map_map]
  rfl

/-- A quantity that each call changes by what its reply says. -/
theorem sum_of_history [Fintype T] {M : Type} [AddCommMonoid M] {Q : σ → M} {f : ι × ρ → M}
    (body : ι → Prog σ L ρ) (data : σ)
    (h : ∀ s c, Q (serve body s c).2 = Q s + f (c, (serve body s c).1))
    (history : List (T × ι)) :
    Q (final (serve body) data (history.map Prod.snd))
      = Q data + ∑ t, ((repliesTo body data history t).map f).sum := by
  have hrun : ∀ (cs : List ι) (s : σ), Q (final (serve body) s cs)
      = Q s + ((trace (serve body) s cs).map fun e => f (e.call, e.result)).sum := by
    intro cs
    induction cs with
    | nil => exact fun s => (add_zero (Q s)).symm
    | cons c cs ih =>
      intro s
      rw [final_cons, ih, h, trace_cons, List.map_cons, List.sum_cons, add_assoc]
      rfl
  rw [hrun, sum_map_repliesTo]

theorem sum_countP_repliesTo [Fintype T] (p : ι × ρ → Bool) (history : List (T × ι)) :
    ∑ t, (repliesTo body data history t).countP p
      = (trace (serve body) data (history.map Prod.snd)).countP fun e => p (e.call, e.result) := by
  simp only [countP_eq_sum]
  exact sum_map_repliesTo _ history

end

/-! ### Linked states -/

section

variable [DecidableEq T] {l : L} {peeks : ι → Bool} {body : ι → Prog σ L ρ} {data : σ}
  {phase : T → Phase σ L ι ρ} {s s' : State T σ L (List (ι × ρ))} {history : List (T × ι)} {t : T}

/-- The threads are in these phases, and this history has been decided. -/
structure Linked (l : L) (peeks : ι → Bool) (body : ι → Prog σ L ρ) (view : σ → V) (data : σ)
    (phase : T → Phase σ L ι ρ) (s : State T σ L (List (ι × ρ))) (history : List (T × ι)) :
    Prop where
  progs : ∀ t, s.progs t = (phase t).prog l peeks body
  owner : ∀ t, s.owner l = some t ↔ (phase t).Inside
  agrees : ∀ t, (phase t).Agrees view body (final (serveTo body) data history) s.data
  idle : s.owner l = none → s.data = final (serveTo body) data history
  replied : ∀ t, repliesTo body data history t = (phase t).replied

theorem linked_threads (calls : T → List ι) :
    Linked l peeks body view data (fun t => .between [] (calls t))
      (threads l peeks body calls data) [] where
  progs _ := rfl
  owner t := iff_of_false (fun h => Option.some_ne_none t h.symm) id
  agrees _ := trivial
  idle _ := rfl
  replied _ := rfl

/-- Only the owner of the mutex is in a call. -/
theorem Linked.not_inside (h : Linked l peeks body view data phase s history)
    (ht : (phase t).Inside) {t' : T} (hne : t' ≠ t) : ¬ (phase t').Inside := by
  intro ht'
  exact hne (Option.some.inj (((h.owner t').mpr ht').symm.trans ((h.owner t).mpr ht)))

/-- The view is that of the history. -/
theorem Linked.view_eq (h : Linked l peeks body view data phase s history) :
    view s.data = view (final (serveTo body) data history) := by
  cases howner : s.owner l with
  | none => rw [h.idle howner]
  | some t => exact (h.agrees t).view_eq ((h.owner t).mp howner)

/-- After a step of `t` to the phase `p`. -/
theorem Linked.next (h : Linked l peeks body view data phase s history) {p : Phase σ L ι ρ}
    {new : List (T × ι)}
    (hprogs : s'.progs = Function.update s.progs t (p.prog l peeks body))
    (howner : ∀ t', s'.owner l = some t' ↔ (Function.update phase t p t').Inside)
    (hself : p.Agrees view body (final (serveTo body) data (history ++ new)) s'.data)
    (hothers : ∀ t', t' ≠ t →
      (phase t').Agrees view body (final (serveTo body) data (history ++ new)) s'.data)
    (hidle : s'.owner l = none → s'.data = final (serveTo body) data (history ++ new))
    (hreplied : ∀ t', repliesTo body data (history ++ new) t'
      = (Function.update phase t p t').replied) :
    Linked l peeks body view data (Function.update phase t p) s' (history ++ new) where
  progs t' := by
    rw [hprogs]
    by_cases heq : t' = t
    · subst heq
      rw [Function.update_self, Function.update_self]
    · rw [Function.update_of_ne heq, Function.update_of_ne heq]
      exact h.progs t'
  owner := howner
  agrees t' := by
    by_cases heq : t' = t
    · subst heq
      rwa [Function.update_self]
    · rw [Function.update_of_ne heq]
      exact hothers t' heq
  idle := hidle
  replied := hreplied

/-- The owner of the mutex after a step to a phase of the same kind. -/
theorem Linked.owner_kept (h : Linked l peeks body view data phase s history) {p : Phase σ L ι ρ}
    (howner : s'.owner l = s.owner l) (hp : p.Inside ↔ (phase t).Inside) (t' : T) :
    s'.owner l = some t' ↔ (Function.update phase t p t').Inside := by
  rw [howner, h.owner]
  by_cases heq : t' = t
  · subst heq
    rw [Function.update_self, hp]
  · rw [Function.update_of_ne heq]

/-- The replies after a step of `t` that decides the calls `new` of it. -/
theorem Linked.replied_next (h : Linked l peeks body view data phase s history)
    {p : Phase σ L ι ρ} (c : ι)
    (hp : p.replied = (phase t).replied ++ [(c, (serve body (final (serveTo body) data history)
      c).1)]) (t' : T) :
    repliesTo body data (history ++ [(t, c)]) t' = (Function.update phase t p t').replied := by
  by_cases heq : t' = t
  · subst heq
    rw [Function.update_self, repliesTo_append_self, h.replied, hp]
  · rw [Function.update_of_ne heq, repliesTo_append_of_ne heq, h.replied]

/-- The same of a step that decides nothing. -/
theorem Linked.replied_kept (h : Linked l peeks body view data phase s history)
    {p : Phase σ L ι ρ} (hp : p.replied = (phase t).replied) (t' : T) :
    repliesTo body data (history ++ []) t' = (Function.update phase t p t').replied := by
  rw [List.append_nil, h.replied]
  by_cases heq : t' = t
  · subst heq
    rw [Function.update_self, hp]
  · rw [Function.update_of_ne heq]

/-- A step of the thread that is in a call and goes on with it. -/
theorem Linked.next_inside (h : Linked l peeks body view data phase s history)
    (hin : (phase t).Inside) {p : Phase σ L ι ρ} (hp : p.Inside) (new : List (T × ι))
    (hprogs : s'.progs = Function.update s.progs t (p.prog l peeks body))
    (howner : s'.owner = s.owner)
    (hself : p.Agrees view body (final (serveTo body) data (history ++ new)) s'.data)
    (hreplied : ∀ t', repliesTo body data (history ++ new) t'
      = (Function.update phase t p t').replied) :
    ∃ phase history, Linked l peeks body view data phase s' history := by
  have hown : s'.owner l = s.owner l := by rw [howner]
  refine ⟨_, _, h.next hprogs (h.owner_kept hown (iff_of_true hp hin)) hself (fun t' hne => ?_)
    (fun hnone => ?_) hreplied⟩
  · exact .of_not_inside (h.not_inside hin hne) _ _
  · rw [hown, (h.owner t).mpr hin] at hnone
    exact absurd hnone (Option.some_ne_none t)

variable [DecidableEq L]

/-- The release of the mutex, by a call that has its place in the history. -/
theorem Linked.next_release (h : Linked l peeks body view data phase s history)
    (hin : (phase t).Inside) (replies : List (ι × ρ)) (calls : List ι) (new : List (T × ι))
    (hprogs : s'.progs
      = Function.update s.progs t (Phase.prog l peeks body (.between replies calls)))
    (howner : s'.owner = Function.update s.owner l none)
    (hdata : s'.data = final (serveTo body) data (history ++ new))
    (hreplied : ∀ t', repliesTo body data (history ++ new) t'
      = (Function.update phase t (.between replies calls) t').replied) :
    ∃ phase history, Linked l peeks body view data phase s' history := by
  have hnone : s'.owner l = none := by
    rw [howner]
    exact Function.update_self ..
  have hothers : ∀ t', t' ≠ t → ¬ (phase t').Inside := fun t' => h.not_inside hin
  refine ⟨_, _, h.next hprogs (fun t' => ?_) trivial
    (fun t' hne => .of_not_inside (hothers t' hne) _ _) (fun _ => hdata) hreplied⟩
  rw [hnone]
  refine iff_of_false (fun hsome => Option.some_ne_none t' hsome.symm) ?_
  by_cases heq : t' = t
  · subst heq
    rw [Function.update_self]
    exact id
  · rw [Function.update_of_ne heq]
    exact hothers t' heq

/-- A step of a thread between two calls. -/
theorem linked_of_between (h : Linked l peeks body view data phase s history)
    (hshares : Shares peeks body view) {replies : List (ι × ρ)} {calls : List ι}
    (ht : phase t = .between replies calls) (hmove : move s t = some s') :
    ∃ phase history, Linked l peeks body view data phase s' history := by
  have hprog := h.progs t
  have hout : ¬ (phase t).Inside := by
    rw [ht]
    exact id
  rw [ht] at hprog
  cases calls with
  | nil =>
    rw [move_of_done hprog] at hmove
    exact absurd hmove (by simp)
  | cons c calls =>
    change s.progs t = (perform l peeks body c).bind _ at hprog
    cases hpeeks : peeks c with
    | true =>
      -- the call is a read of the view, and has its place in the history at once
      obtain ⟨look, hbody⟩ := hshares.peek c hpeeks
      rw [perform, hpeeks, if_pos rfl, hbody] at hprog
      obtain rfl := eq_of_move_act hprog hmove
      have hserve : ∀ s, serve body s c = (look (view s), s) := by
        intro s
        rw [serve, hbody]
        rfl
      have hfinal : final (serveTo body) data (history ++ [(t, c)])
          = final (serveTo body) data history := by
        rw [final_append]
        exact congrArg Prod.snd (hserve _)
      refine ⟨Function.update phase t (.between (replies ++ [(c, look (view s.data))]) calls),
        history ++ [(t, c)], h.next rfl (h.owner_kept rfl (iff_of_false id hout)) trivial
          (fun t' _ => ?_) (fun hnone => ?_) (h.replied_next c ?_)⟩
      · rw [hfinal]
        exact h.agrees t'
      · rw [hfinal]
        exact h.idle hnone
      · rw [hserve, ht, ← h.view_eq]
        rfl
    | false =>
      rw [perform, hpeeks] at hprog
      obtain ⟨hnone, rfl⟩ := eq_of_move_acquire hprog hmove
      have hothers : ∀ t', ¬ (phase t').Inside := by
        intro t' hin
        exact Option.some_ne_none t' (((h.owner t').mpr hin).symm.trans hnone)
      have hown : Function.update s.owner l (some t) l = some t := Function.update_self ..
      refine ⟨Function.update phase t (.inside replies c (body c) calls), history ++ [],
        h.next rfl (fun t' => ?_) ?_ (fun t' _ => .of_not_inside (hothers t') _ _)
          (fun hnone' => absurd (hown.symm.trans hnone') (Option.some_ne_none t))
          (h.replied_kept (by rw [ht]; rfl))⟩
      · by_cases heq : t' = t
        · subst heq
          rw [Function.update_self]
          exact iff_of_true hown trivial
        · rw [Function.update_of_ne heq]
          refine iff_of_false (fun hown' => heq ?_) (hothers t')
          exact Option.some.inj (hown'.symm.trans hown)
      · rw [List.append_nil, ← h.idle hnone]
        exact ⟨hshares.once c hpeeks, rfl, rfl⟩

/-- A step of a call that has not changed the view yet. -/
theorem linked_of_inside (h : Linked l peeks body view data phase s history)
    {replies : List (ι × ρ)} {c : ι} {rest : Prog σ L ρ} {calls : List ι}
    (ht : phase t = .inside replies c rest calls) (hmove : move s t = some s') :
    ∃ phase history, Linked l peeks body view data phase s' history := by
  have hprog := h.progs t
  have hagrees := h.agrees t
  have hin : (phase t).Inside := by
    rw [ht]
    trivial
  rw [ht] at hprog hagrees
  obtain ⟨honce, halone, hview⟩ := hagrees
  cases rest with
  | done r =>
    -- the mutex is released, and the call takes its place in the history
    obtain rfl := eq_of_move_release hprog hmove
    refine h.next_release hin (replies ++ [(c, r)]) calls [(t, c)] rfl rfl ?_
      (h.replied_next c ?_)
    · rw [final_append]
      exact congrArg Prod.snd halone
    · rw [ht, ← halone]
      rfl
  | act update next =>
    obtain rfl := eq_of_move_act hprog hmove
    rcases honce s.data with ⟨hkept, hrest⟩ | hsilent
    · refine h.next_inside (p := .inside replies c (next s.data) calls) hin trivial [] rfl rfl ?_
        (h.replied_kept (by rw [ht]; rfl))
      rw [List.append_nil]
      exact ⟨hrest, halone, hkept.trans hview⟩
    · -- the view may change, and the call takes its place in the history
      refine h.next_inside (p := .leaving replies c (serve body (final (serveTo body) data history)
        c).1 (next s.data) calls) hin trivial [(t, c)] rfl rfl ?_ (h.replied_next c ?_)
      · rw [final_append]
        exact ⟨hsilent, halone⟩
      · rw [ht]
        rfl
  | acquire l' rest => exact honce.elim
  | release l' rest => exact honce.elim

/-- A step of a call that has its place in the history. -/
theorem linked_of_leaving (h : Linked l peeks body view data phase s history)
    {replies : List (ι × ρ)} {c : ι} {r : ρ} {rest : Prog σ L ρ} {calls : List ι}
    (ht : phase t = .leaving replies c r rest calls) (hmove : move s t = some s') :
    ∃ phase history, Linked l peeks body view data phase s' history := by
  have hprog := h.progs t
  have hagrees := h.agrees t
  have hin : (phase t).Inside := by
    rw [ht]
    trivial
  rw [ht] at hprog hagrees
  obtain ⟨hsilent, halone⟩ := hagrees
  cases rest with
  | done r' =>
    obtain rfl := eq_of_move_release hprog hmove
    obtain ⟨rfl, hdata⟩ := Prod.mk.inj halone
    refine h.next_release hin (replies ++ [(c, r')]) calls [] rfl rfl ?_
      (h.replied_kept (by rw [ht]; rfl))
    rw [List.append_nil]
    exact hdata
  | act update next =>
    obtain rfl := eq_of_move_act hprog hmove
    refine h.next_inside (p := .leaving replies c r (next s.data) calls) hin trivial [] rfl rfl ?_
      (h.replied_kept (by rw [ht]; rfl))
    rw [List.append_nil]
    exact ⟨(hsilent s.data).2, halone⟩
  | acquire l' rest => exact hsilent.elim
  | release l' rest => exact hsilent.elim

theorem linked_move (h : Linked l peeks body view data phase s history)
    (hshares : Shares peeks body view) (hmove : move s t = some s') :
    ∃ phase history, Linked l peeks body view data phase s' history := by
  cases ht : phase t with
  | between replies calls => exact linked_of_between h hshares ht hmove
  | inside replies c rest calls => exact linked_of_inside h ht hmove
  | leaving replies c r rest calls => exact linked_of_leaving h ht hmove

theorem exists_linked (hshares : Shares peeks body view) {calls : T → List ι}
    (hreach : Reachable (threads l peeks body calls data) s) :
    ∃ phase history, Linked l peeks body view data phase s history := by
  refine reachable_induction
    (P := fun s => ∃ phase history, Linked l peeks body view data phase s history)
    ⟨_, [], linked_threads calls⟩ ?_ hreach
  rintro s₁ s₂ t ⟨phase, history, h⟩ hmove
  exact linked_move h hshares hmove

/-! ### Runs -/

/-- What is in the history of a thread are its first calls. -/
theorem Linked.starts (h : Linked l peeks body view data phase s history) {calls : T → List ι}
    (hreach : Reachable (threads l peeks body calls data) s) (t : T) :
    history.filterMap (ofThread t) <+: calls t := by
  have hcalls : Yields (fun rs => rs.map Prod.fst = calls t) (s.progs t) :=
    yields_of_reachable (P := fun t rs => rs.map Prod.fst = calls t)
      (fun t => yields_session yields_perform [] (calls t)) hreach t
  have hstarts : Yields (fun rs => (phase t).replied.map Prod.fst <+: rs.map Prod.fst)
      (s.progs t) := by
    rw [h.progs]
    exact (phase t).yields
  rw [← calls_of_repliesTo body data, h.replied, ← hcalls.alone s.data]
  exact hstarts.alone s.data

/-- At any moment, the view is that of a run of the first calls of each thread, and so is
all the data while the mutex is free. -/
theorem data_of_free (hshares : Shares peeks body view) {calls : T → List ι}
    (hreach : Reachable (threads l peeks body calls data) s) :
    ∃ history : List (T × ι), (∀ t, history.filterMap (ofThread t) <+: calls t) ∧
      view s.data = view (final (serve body) data (history.map Prod.snd)) ∧
      (s.owner l = none → s.data = final (serve body) data (history.map Prod.snd)) := by
  obtain ⟨phase, history, h⟩ := exists_linked hshares hreach
  refine ⟨history, h.starts hreach, ?_, fun hnone => ?_⟩
  · rw [← final_serveTo]
    exact h.view_eq
  · rw [← final_serveTo]
    exact h.idle hnone

/-- Whatever the schedule, the threads run to their end. -/
theorem completes_threads [Finite T] (hshares : Shares peeks body view) (l : L)
    (calls : T → List ι) (data : σ) : Completes (threads l peeks body calls data) := by
  have hperform : ∀ c, Ordered (fun _ => 0) ∅ ∅ ∅ (perform l peeks body c) := by
    intro c
    rw [perform]
    cases hpeeks : peeks c with
    | true =>
      obtain ⟨look, hbody⟩ := hshares.peek c hpeeks
      rw [if_pos rfl, hbody]
      exact fun _ => rfl
    | false =>
      refine .inr ⟨fun l hl => absurd hl (Set.notMem_empty l), ?_⟩
      refine ((hshares.once c hpeeks).ordered _ _ _).bind fun r => ⟨Set.mem_insert l ∅, ?_⟩
      exact Set.insert_sdiff_self_of_notMem (Set.notMem_empty l)
  have hsound : Sound (fun _ => 0) ∅ (threads l peeks body calls data) :=
    sound_start (fun t => ordered_session (fun c _ => hperform c) []) data
  exact (completes_iff_no_selfBlocked hsound).mpr fun _ _ _ l hl => absurd hl (Set.notMem_empty l)

/-- Every run of the threads to their end has a history. -/
theorem atomic_of_finished (hshares : Shares peeks body view) {calls : T → List ι}
    (hreach : Reachable (threads l peeks body calls data) s) {results : T → List (ι × ρ)}
    (hfin : ∀ t, s.progs t = .done (results t)) :
    ∃ history : List (T × ι),
      (∀ t, history.filterMap (ofThread t) = calls t) ∧
      (∀ t, results t = repliesTo body data history t) ∧
      s.data = final (serve body) data (history.map Prod.snd) := by
  obtain ⟨phase, history, h⟩ := exists_linked hshares hreach
  have hphase : ∀ t, phase t = .between (results t) [] := fun t =>
    Phase.eq_of_done hshares ((h.progs t).symm.trans (hfin t))
  have hresults : ∀ t, results t = repliesTo body data history t := by
    intro t
    rw [h.replied, hphase t]
    rfl
  refine ⟨history, fun t => ?_, hresults, ?_⟩
  · rw [← calls_of_repliesTo body data, ← hresults]
    exact yields_of_finished (P := fun t rs => rs.map Prod.fst = calls t)
      (fun t => yields_session yields_perform [] (calls t)) hreach hfin t
  · rw [← final_serveTo]
    refine h.idle (Option.eq_none_iff_forall_ne_some.mpr fun t howner => ?_)
    have hin := (h.owner t).mp howner
    rw [hphase t] at hin
    exact hin

end

end Atomic

end Threads
