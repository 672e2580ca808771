/-
Threads over shared data and mutexes.

A `Prog σ L α` is what one thread executes: it takes and releases mutexes of `L`,
acts on the data of type `σ`, one atomic action at a time, and returns an `α`.  A
`State` has one program for each thread, the owner of each mutex and the data;
`move s t` lets thread `t` take its next step, and is `none` where `t` has returned
or waits for a mutex.

* `alone_bind` — what a program does when no other thread moves;
* `move_eq_some` — what a step can be;
* `reachable_induction` — what each step keeps holds of every reachable state;
* `sum_of_finished` — where each program changes a quantity by what its result says,
  all of them together change it by the sum, whatever the schedule.
-/
import Mathlib.Algebra.BigOperators.Group.Finset.Piecewise
import Mathlib.Data.Fintype.Basic
import Mathlib.Data.Set.Insert
import Mathlib.Logic.Function.Basic
import Mathlib.Logic.Relation
import Mathlib.Tactic.Common

namespace Threads

/-- The program of one thread. -/
inductive Prog (σ L α : Type) where
  | done (a : α)
  | act (update : σ → σ) (next : σ → Prog σ L α)
  | acquire (l : L) (rest : Prog σ L α)
  | release (l : L) (rest : Prog σ L α)

namespace Prog

variable {σ L α β γ : Type}

/-- `p`, and then the program that its result selects. -/
def bind : Prog σ L α → (α → Prog σ L β) → Prog σ L β
  | .done a, k => k a
  | .act update next, k => .act update fun s => (next s).bind k
  | .acquire l rest, k => .acquire l (rest.bind k)
  | .release l rest, k => .release l (rest.bind k)

instance : Monad (Prog σ L) where
  pure := .done
  bind := bind

/-- One atomic action: `f` gives its result and the data it leaves. -/
def atomically (f : σ → α × σ) : Prog σ L α := .act (fun s => (f s).2) fun s => .done (f s).1

/-- Read a value. -/
def read (f : σ → α) : Prog σ L α := .act id fun s => .done (f s)

/-- Write to the data. -/
def write (f : σ → σ) : Prog σ L Unit := .act f fun _ => .done ()

def lock (l : L) : Prog σ L Unit := .acquire l (.done ())

def unlock (l : L) : Prog σ L Unit := .release l (.done ())

/-- A scoped lock around `body`. -/
def guarded (l : L) (body : Prog σ L α) : Prog σ L α := do
  lock l
  let a ← body
  unlock l
  return a

/-- Perform a list of operations, one after the other, and collect their results
behind `acc`. -/
def session {ι : Type} (op : ι → Prog σ L α) : List α → List ι → Prog σ L (List α)
  | acc, [] => .done acc
  | acc, c :: cs => (op c).bind fun a => session op (acc ++ [a]) cs

@[simp] theorem done_bind (a : α) (k : α → Prog σ L β) : (done a : Prog σ L α).bind k = k a := rfl

@[simp] theorem act_bind (update : σ → σ) (next : σ → Prog σ L α) (k : α → Prog σ L β) :
    (act update next).bind k = .act update fun s => (next s).bind k := rfl

@[simp] theorem acquire_bind (l : L) (rest : Prog σ L α) (k : α → Prog σ L β) :
    (acquire l rest).bind k = .acquire l (rest.bind k) := rfl

@[simp] theorem release_bind (l : L) (rest : Prog σ L α) (k : α → Prog σ L β) :
    (release l rest).bind k = .release l (rest.bind k) := rfl

@[simp] theorem monad_pure (a : α) : (pure a : Prog σ L α) = .done a := rfl

@[simp] theorem monad_bind (p : Prog σ L α) (k : α → Prog σ L β) : p >>= k = p.bind k := rfl

@[simp] theorem atomically_bind (f : σ → α × σ) (k : α → Prog σ L β) :
    (atomically f).bind k = .act (fun s => (f s).2) fun s => k (f s).1 := rfl

@[simp] theorem read_bind (f : σ → α) (k : α → Prog σ L β) :
    (read f).bind k = .act id fun s => k (f s) := rfl

@[simp] theorem write_bind (f : σ → σ) (k : Unit → Prog σ L β) :
    (write f).bind k = .act f fun _ => k () := rfl

theorem bind_assoc (p : Prog σ L α) (k : α → Prog σ L β) (m : β → Prog σ L γ) :
    (p.bind k).bind m = p.bind fun a => (k a).bind m := by
  induction p with
  | done a => rfl
  | act update next ih =>
    show Prog.act update (fun s => ((next s).bind k).bind m) = _
    simp only [ih]
    rfl
  | acquire l rest ih => exact congrArg (Prog.acquire l) ih
  | release l rest ih => exact congrArg (Prog.release l) ih

/-- The program acts on a part of larger data. -/
def focus {ν : Type} (get : ν → σ) (put : ν → σ → ν) : Prog σ L α → Prog ν L α
  | .done a => .done a
  | .act update next =>
    .act (fun n => put n (update (get n))) fun n => (next (get n)).focus get put
  | .acquire l rest => .acquire l (rest.focus get put)
  | .release l rest => .release l (rest.focus get put)

/-! ### A program on its own -/

/-- The result of a program and the data it leaves when no other thread moves. -/
def alone : Prog σ L α → σ → α × σ
  | .done a, s => (a, s)
  | .act update next, s => (next s).alone (update s)
  | .acquire _ rest, s => rest.alone s
  | .release _ rest, s => rest.alone s

@[simp] theorem alone_done (a : α) (s : σ) : (done a : Prog σ L α).alone s = (a, s) := rfl

@[simp] theorem alone_act (update : σ → σ) (next : σ → Prog σ L α) (s : σ) :
    (act update next).alone s = (next s).alone (update s) := rfl

@[simp] theorem alone_acquire (l : L) (rest : Prog σ L α) (s : σ) :
    (acquire l rest).alone s = rest.alone s := rfl

@[simp] theorem alone_release (l : L) (rest : Prog σ L α) (s : σ) :
    (release l rest).alone s = rest.alone s := rfl

theorem alone_bind (p : Prog σ L α) (k : α → Prog σ L β) (s : σ) :
    (p.bind k).alone s = (k (p.alone s).1).alone (p.alone s).2 := by
  induction p generalizing s with
  | done a => rfl
  | act update next ih => exact ih s (update s)
  | acquire l rest ih => exact ih s
  | release l rest ih => exact ih s

/-- A loop over a list whose body makes `f` of the data. -/
theorem alone_forM {κ : Type} {body : κ → Prog σ L Unit} {f : σ → κ → σ}
    (h : ∀ k s, (body k).alone s = ((), f s k)) (ks : List κ) (s : σ) :
    (ks.forM body).alone s = ((), ks.foldl f s) := by
  induction ks generalizing s with
  | nil => rfl
  | cons k ks ih =>
    show ((body k).bind fun _ => ks.forM body).alone s = _
    rw [alone_bind, h]
    exact ih (f s k)

/-- A loop that only reads, and makes `f` of what it has so far. -/
theorem alone_foldlM {κ : Type} {body : α → κ → Prog σ L α} {f : σ → α → κ → α}
    (h : ∀ a k s, (body a k).alone s = (f s a k, s)) (ks : List κ) (a : α) (s : σ) :
    (ks.foldlM body a).alone s = (ks.foldl (f s) a, s) := by
  induction ks generalizing a with
  | nil => rfl
  | cons k ks ih =>
    show ((body a k).bind fun a => ks.foldlM body a).alone s = _
    rw [alone_bind, h]
    exact ih (f s a k)

/-- A program on a part changes the part only. -/
theorem alone_focus {ν : Type} (p : Prog σ L α) (get : ν → σ) (put : ν → σ → ν)
    (hget : ∀ n s, get (put n s) = s) (hput : ∀ n, put n (get n) = n)
    (hputs : ∀ n s s', put (put n s) s' = put n s') (n : ν) :
    (p.focus get put).alone n = ((p.alone (get n)).1, put n (p.alone (get n)).2) := by
  induction p generalizing n with
  | done a => rw [alone_done, hput]; rfl
  | act update next ih =>
    have hnext := ih (get n) (put n (update (get n)))
    rw [hget, hputs] at hnext
    exact hnext
  | acquire l rest ih => exact ih n
  | release l rest ih => exact ih n

theorem alone_guarded (l : L) (body : Prog σ L α) (s : σ) :
    (guarded l body).alone s = body.alone s := by
  show (body.bind fun a => .release l (.done a)).alone s = _
  rw [alone_bind]
  rfl

end Prog

/-! ### The machine -/

/-- The programs of the threads, the owners of the mutexes, the data. -/
structure State (T σ L α : Type) where
  progs : T → Prog σ L α
  owner : L → Option T
  data : σ

variable {T σ L α : Type}

/-- All programs at their start, no mutex taken. -/
def start (progs : T → Prog σ L α) (data : σ) : State T σ L α := ⟨progs, fun _ => none, data⟩

section

variable [DecidableEq T] [DecidableEq L]

/-- Thread `t` goes on with `p`. -/
def State.goTo (s : State T σ L α) (t : T) (p : Prog σ L α) : State T σ L α :=
  { s with progs := Function.update s.progs t p }

/-- The next step of thread `t`. -/
def move (s : State T σ L α) (t : T) : Option (State T σ L α) :=
  match s.progs t with
  | .done _ => none
  | .act update next => some { s.goTo t (next s.data) with data := update s.data }
  | .acquire l rest =>
    match s.owner l with
    | none => some { s.goTo t rest with owner := Function.update s.owner l (some t) }
    | some _ => none
  | .release l rest => some { s.goTo t rest with owner := Function.update s.owner l none }

/-- Some thread takes a step. -/
def Moves (s s' : State T σ L α) : Prop := ∃ t, move s t = some s'

/-- The states of the runs from `s`, over all schedules. -/
def Reachable (s : State T σ L α) : State T σ L α → Prop := Relation.ReflTransGen Moves s

end

/-- What is left of a program after one step. -/
inductive Continues : Prog σ L α → Prog σ L α → Prop where
  | act (update : σ → σ) (next : σ → Prog σ L α) (s : σ) : Continues (next s) (.act update next)
  | acquire (l : L) (rest : Prog σ L α) : Continues rest (.acquire l rest)
  | release (l : L) (rest : Prog σ L α) : Continues rest (.release l rest)

/-- Every thread has returned. -/
def State.Finished (s : State T σ L α) : Prop := ∀ t, ∃ a, s.progs t = .done a

namespace State

variable [DecidableEq T] (s : State T σ L α) (t : T) (p : Prog σ L α)

@[simp] theorem goTo_progs_self : (s.goTo t p).progs t = p := Function.update_self ..

@[simp] theorem goTo_progs_ne {t' : T} (h : t' ≠ t) : (s.goTo t p).progs t' = s.progs t' :=
  Function.update_of_ne h ..

@[simp] theorem goTo_owner : (s.goTo t p).owner = s.owner := rfl

@[simp] theorem goTo_data : (s.goTo t p).data = s.data := rfl

end State

section

variable [DecidableEq T] [DecidableEq L] {s s' : State T σ L α} {t : T}

/-- What a step can be: an action on the data, a mutex that was free, or the release
of a mutex. -/
theorem move_eq_some (h : move s t = some s') :
    (∃ update next, s.progs t = .act update next ∧
      s' = { s.goTo t (next s.data) with data := update s.data }) ∨
    (∃ l rest, s.progs t = .acquire l rest ∧ s.owner l = none ∧
      s' = { s.goTo t rest with owner := Function.update s.owner l (some t) }) ∨
    (∃ l rest, s.progs t = .release l rest ∧
      s' = { s.goTo t rest with owner := Function.update s.owner l none }) := by
  unfold move at h
  split at h
  · exact absurd h (by simp)
  · rename_i update next hp
    exact .inl ⟨update, next, hp, (Option.some.inj h).symm⟩
  · rename_i l rest hp
    split at h
    · rename_i howner
      exact .inr (.inl ⟨l, rest, hp, howner, (Option.some.inj h).symm⟩)
    · exact absurd h (by simp)
  · rename_i l rest hp
    exact .inr (.inr ⟨l, rest, hp, (Option.some.inj h).symm⟩)

/-- A thread that cannot move has returned or waits for a mutex that is taken. -/
theorem move_eq_none (h : move s t = none) :
    (∃ a, s.progs t = .done a) ∨
      ∃ l rest t', s.progs t = .acquire l rest ∧ s.owner l = some t' := by
  unfold move at h
  split at h
  · rename_i a hp
    exact .inl ⟨a, hp⟩
  · exact absurd h (by simp)
  · rename_i l rest hp
    split at h
    · exact absurd h (by simp)
    · rename_i t' howner
      exact .inr ⟨l, rest, t', hp, howner⟩
  · exact absurd h (by simp)

theorem move_of_act {update : σ → σ} {next : σ → Prog σ L α} (h : s.progs t = .act update next) :
    move s t = some { s.goTo t (next s.data) with data := update s.data } := by
  unfold move
  rw [h]

theorem move_of_acquire {l : L} {rest : Prog σ L α} (h : s.progs t = .acquire l rest)
    (hfree : s.owner l = none) :
    move s t = some { s.goTo t rest with owner := Function.update s.owner l (some t) } := by
  unfold move
  rw [h]
  simp only [hfree]

theorem eq_of_move_act {update : σ → σ} {next : σ → Prog σ L α}
    (h : s.progs t = .act update next) (hmove : move s t = some s') :
    s' = { s.goTo t (next s.data) with data := update s.data } :=
  Option.some.inj (hmove.symm.trans (move_of_act h))

theorem eq_of_move_acquire {l : L} {rest : Prog σ L α} (h : s.progs t = .acquire l rest)
    (hmove : move s t = some s') :
    s.owner l = none ∧
      s' = { s.goTo t rest with owner := Function.update s.owner l (some t) } := by
  unfold move at hmove
  rw [h] at hmove
  cases howner : s.owner l with
  | some t' => simp [howner] at hmove
  | none =>
    simp only [howner] at hmove
    exact ⟨rfl, (Option.some.inj hmove).symm⟩

theorem eq_of_move_release {l : L} {rest : Prog σ L α} (h : s.progs t = .release l rest)
    (hmove : move s t = some s') :
    s' = { s.goTo t rest with owner := Function.update s.owner l none } := by
  unfold move at hmove
  rw [h] at hmove
  exact (Option.some.inj hmove).symm

theorem move_of_done {a : α} (h : s.progs t = .done a) : move s t = none := by
  unfold move
  rw [h]

/-- A thread leaves the programs of the others alone. -/
theorem progs_of_move {t' : T} (h : move s t = some s') (hne : t' ≠ t) :
    s'.progs t' = s.progs t' := by
  rcases move_eq_some h with ⟨_, _, _, rfl⟩ | ⟨_, _, _, _, rfl⟩ | ⟨_, _, _, rfl⟩ <;>
    exact State.goTo_progs_ne _ _ _ hne

theorem continues_of_move (h : move s t = some s') : Continues (s'.progs t) (s.progs t) := by
  rcases move_eq_some h with ⟨update, next, hp, rfl⟩ | ⟨l, rest, hp, -, rfl⟩ | ⟨l, rest, hp, rfl⟩
  · simpa [hp] using Continues.act update next s.data
  · simpa [hp] using Continues.acquire l rest
  · simpa [hp] using Continues.release l rest

/-- What holds at the start and is kept by each step holds of every reachable state. -/
theorem reachable_induction {P : State T σ L α → Prop} (h0 : P s)
    (hstep : ∀ s₁ s₂ t, P s₁ → move s₁ t = some s₂ → P s₂) (h : Reachable s s') : P s' := by
  induction h with
  | refl => exact h0
  | tail _ hmoves ih =>
    obtain ⟨t, ht⟩ := hmoves
    exact hstep _ _ t ih ht

/-- What the rest of a program inherits from it holds of the programs of every reachable
state. -/
theorem progs_of_reachable {R : T → Prog σ L α → Prop}
    (hR : ∀ t p p', R t p → Continues p' p → R t p') (h0 : ∀ t, R t (s.progs t))
    (h : Reachable s s') (t : T) : R t (s'.progs t) := by
  refine reachable_induction (P := fun s => ∀ t, R t (s.progs t)) h0 ?_ h t
  intro s₁ s₂ t₁ hs hmove t'
  by_cases heq : t' = t₁
  · subst heq
    exact hR t' _ _ (hs t') (continues_of_move hmove)
  · rw [progs_of_move hmove heq]
    exact hs t'

end

/-! ### Schedules -/

/-- The state after the threads of a schedule have taken one step each, in turn. -/
def run [DecidableEq T] [DecidableEq L] (s : State T σ L α) : List T → Option (State T σ L α)
  | [] => some s
  | t :: ts => (move s t).bind fun s' => run s' ts

theorem reachable_of_run [DecidableEq T] [DecidableEq L] {s s' : State T σ L α} {schedule : List T}
    (h : run s schedule = some s') : Reachable s s' := by
  induction schedule generalizing s with
  | nil =>
    cases h
    exact .refl
  | cons t ts ih =>
    obtain ⟨s₁, hmove, hrun⟩ := Option.bind_eq_some_iff.mp h
    exact .head ⟨t, hmove⟩ (ih hrun)

/-- The result of a thread that has returned. -/
def Prog.returned : Prog σ L α → Option α
  | .done a => some a
  | _ => none

/-- A schedule after which each thread has returned. -/
theorem finished_of_run [DecidableEq T] [DecidableEq L] [Nonempty T] {s : State T σ L α}
    {schedule : List T} {results : T → α}
    (h : ∀ t, ((run s schedule).bind fun s' => (s'.progs t).returned) = some (results t)) :
    ∃ s', Reachable s s' ∧ ∀ t, s'.progs t = .done (results t) := by
  obtain ⟨s', hrun, -⟩ := Option.bind_eq_some_iff.mp (h (Classical.arbitrary T))
  refine ⟨s', reachable_of_run hrun, fun t => ?_⟩
  have ht := h t
  rw [hrun, Option.bind_some] at ht
  cases hp : s'.progs t with
  | done a =>
    rw [hp] at ht
    exact congrArg Prog.done (Option.some.inj ht)
  | _ =>
    rw [hp] at ht
    cases ht

/-! ### Results -/

/-- Every result of the program meets `P`. -/
def Yields (P : α → Prop) : Prog σ L α → Prop
  | .done a => P a
  | .act _ next => ∀ s, Yields P (next s)
  | .acquire _ rest => Yields P rest
  | .release _ rest => Yields P rest

theorem Yields.bind {β : Type} {P : α → Prop} {P' : β → Prop} {p : Prog σ L α}
    {k : α → Prog σ L β} (hp : Yields P p) (hk : ∀ a, P a → Yields P' (k a)) :
    Yields P' (p.bind k) := by
  induction p with
  | done a => exact hk a hp
  | act update next ih => exact fun s => ih s (hp s)
  | acquire l rest ih => exact ih hp
  | release l rest ih => exact ih hp

theorem yields_true (p : Prog σ L α) : Yields (fun _ => True) p := by
  induction p with
  | done a => trivial
  | act update next ih => exact fun s => ih s
  | acquire l rest ih => exact ih
  | release l rest ih => exact ih

theorem Yields.imp {P P' : α → Prop} {p : Prog σ L α} (h : Yields P p) (himp : ∀ a, P a → P' a) :
    Yields P' p := by
  induction p with
  | done a => exact himp a h
  | act update next ih => exact fun s => ih s (h s)
  | acquire l rest ih => exact ih h
  | release l rest ih => exact ih h

/-- A program has a result. -/
theorem Yields.alone {P : α → Prop} {p : Prog σ L α} (h : Yields P p) (s : σ) :
    P (p.alone s).1 := by
  induction p generalizing s with
  | done a => exact h
  | act update next ih => exact ih s (h s) (update s)
  | acquire l rest ih => exact ih h s
  | release l rest ih => exact ih h s

/-- A session of operations that return the call with its reply returns its calls in
order. -/
theorem yields_session {ι ρ : Type} {op : ι → Prog σ L (ι × ρ)}
    (h : ∀ c, Yields (fun r => r.1 = c) (op c)) (acc : List (ι × ρ)) (cs : List ι) :
    Yields (fun rs => rs.map Prod.fst = acc.map Prod.fst ++ cs) (Prog.session op acc cs) := by
  induction cs generalizing acc with
  | nil => exact (List.append_nil _).symm
  | cons c cs ih =>
    refine (h c).bind fun r hr => ?_
    have hrest := ih (acc ++ [r])
    rwa [List.map_append, List.map_singleton, hr, List.append_assoc, List.singleton_append]
      at hrest

theorem yields_of_reachable [DecidableEq T] [DecidableEq L] {s : State T σ L α} {P : T → α → Prop}
    {progs : T → Prog σ L α} {data : σ} (h : ∀ t, Yields (P t) (progs t))
    (hreach : Reachable (start progs data) s) (t : T) : Yields (P t) (s.progs t) := by
  refine progs_of_reachable (R := fun t => Yields (P t))
    (fun t p p' hp hcontinues => ?_) h hreach t
  cases hcontinues with
  | act update next s => exact hp s
  | acquire l rest => exact hp
  | release l rest => exact hp

theorem yields_of_finished [DecidableEq T] [DecidableEq L] {s : State T σ L α} {P : T → α → Prop}
    {progs : T → Prog σ L α} {data : σ} {results : T → α} (h : ∀ t, Yields (P t) (progs t))
    (hreach : Reachable (start progs data) s) (hfin : ∀ t, s.progs t = .done (results t)) (t : T) :
    P t (results t) := by
  have hall := yields_of_reachable h hreach t
  rw [hfin t] at hall
  exact hall

/-! ### Sums over all schedules -/

section

variable {G : Type*} [AddCommGroup G] {Q : σ → G} {β : Type}

/-- After a change of `Q` by `sum`, the program changes it further, to `total` of its
result in all, whatever the other threads do to the data between its actions. -/
def Adds (Q : σ → G) (total : α → G) : G → Prog σ L α → Prop
  | sum, .done a => sum = total a
  | sum, .act update next => ∀ s, Adds Q total (sum + (Q (update s) - Q s)) (next s)
  | sum, .acquire _ rest => Adds Q total sum rest
  | sum, .release _ rest => Adds Q total sum rest

theorem Adds.bind {total : α → G} {total' : β → G} {sum : G} {p : Prog σ L α}
    {k : α → Prog σ L β} (hp : Adds Q total sum p) (hk : ∀ a, Adds Q total' (total a) (k a)) :
    Adds Q total' sum (p.bind k) := by
  induction p generalizing sum with
  | done a =>
    rw [show sum = total a from hp]
    exact hk a
  | act update next ih => exact fun s => ih s (hp s)
  | acquire l rest ih => exact ih hp
  | release l rest ih => exact ih hp

theorem Adds.guarded {total : α → G} {sum : G} {body : Prog σ L α} (h : Adds Q total sum body)
    (l : L) : Adds Q total sum (Prog.guarded l body) :=
  h.bind fun _ => rfl

/-- An action that leaves the quantity alone. -/
theorem adds_atomically {f : σ → α × σ} (h : ∀ s, Q (f s).2 = Q s) :
    Adds Q (fun _ => 0) 0 (Prog.atomically f : Prog σ L α) := by
  intro s
  show (0 : G) + (Q (f s).2 - Q s) = 0
  rw [h, sub_self, add_zero]

theorem adds_read (f : σ → α) : Adds Q (fun _ => 0) 0 (Prog.read f : Prog σ L α) := by
  intro s
  show (0 : G) + (Q s - Q s) = 0
  rw [sub_self, add_zero]

/-- What a program adds is independent of what was there before. -/
theorem Adds.add {total : α → G} {sum : G} {p : Prog σ L α} (hp : Adds Q total sum p) (g : G) :
    Adds Q (fun a => g + total a) (g + sum) p := by
  induction p generalizing sum with
  | done a => exact congrArg (g + ·) hp
  | act update next ih =>
    intro s
    rw [add_assoc]
    exact ih s (hp s)
  | acquire l rest ih => exact ih hp
  | release l rest ih => exact ih hp

/-- A session adds what its operations add. -/
theorem adds_session {ι : Type} {op : ι → Prog σ L α} {total : α → G}
    (h : ∀ c, Adds Q total 0 (op c)) (acc : List α) (cs : List ι) :
    Adds Q (fun results => (results.map total).sum) ((acc.map total).sum)
      (Prog.session op acc cs) := by
  induction cs generalizing acc with
  | nil => rfl
  | cons c cs ih =>
    have hfirst := (h c).add (acc.map total).sum
    rw [add_zero] at hfirst
    refine hfirst.bind fun a => ?_
    have hrest := ih (acc ++ [a])
    rwa [List.map_append, List.sum_append, List.map_singleton, List.sum_singleton] at hrest

variable [DecidableEq T] [DecidableEq L] [Fintype T] {s s' : State T σ L α}

/-- The part of each thread in the change so far. -/
def Shares (Q : σ → G) (total : α → G) (initial : G) (s : State T σ L α) : Prop :=
  ∃ part : T → G, (∀ t, Adds Q total (part t) (s.progs t)) ∧ Q s.data = initial + ∑ t, part t

theorem shares_move {total : α → G} {initial : G} {t : T} (h : Shares Q total initial s)
    (hmove : move s t = some s') : Shares Q total initial s' := by
  obtain ⟨part, hparts, hsum⟩ := h
  have hothers : ∀ t', t' ≠ t → Adds Q total (part t') (s'.progs t') := fun t' hne => by
    rw [progs_of_move hmove hne]
    exact hparts t'
  have ht := hparts t
  rcases move_eq_some hmove with ⟨update, next, hp, rfl⟩ | ⟨l, rest, hp, -, rfl⟩ |
    ⟨l, rest, hp, rfl⟩
  · rw [hp] at ht
    refine ⟨Function.update part t (part t + (Q (update s.data) - Q s.data)), fun t' => ?_, ?_⟩
    · by_cases heq : t' = t
      · subst heq
        simpa using ht s.data
      · simpa [heq] using hothers t' heq
    · rw [Finset.sum_update_of_mem (Finset.mem_univ t), ← Finset.erase_eq, add_assoc (part t),
        add_comm (Q _ - Q _), ← add_assoc (part t), Finset.add_sum_erase _ _ (Finset.mem_univ t),
        ← add_assoc, ← hsum]
      exact (add_sub_cancel (Q s.data) (Q (update s.data))).symm
  · rw [hp] at ht
    have hrest : Adds Q total (part t) rest := ht
    refine ⟨part, fun t' => ?_, hsum⟩
    by_cases heq : t' = t
    · subst heq
      simpa using hrest
    · exact hothers t' heq
  · rw [hp] at ht
    have hrest : Adds Q total (part t) rest := ht
    refine ⟨part, fun t' => ?_, hsum⟩
    by_cases heq : t' = t
    · subst heq
      simpa using hrest
    · exact hothers t' heq

/-- When all threads have returned, `Q` has changed by the sum of what their results
say. -/
theorem sum_of_finished {total : α → G} {progs : T → Prog σ L α} {data : σ} {results : T → α}
    (h : ∀ t, Adds Q total 0 (progs t)) (hreach : Reachable (start progs data) s)
    (hfin : ∀ t, s.progs t = .done (results t)) :
    Q s.data = Q data + ∑ t, total (results t) := by
  have hstart : Shares Q total (Q data) (start progs data) :=
    ⟨fun _ => 0, h, by rw [Finset.sum_const_zero, add_zero]; rfl⟩
  obtain ⟨part, hparts, hsum⟩ :=
    reachable_induction hstart (fun _ _ _ h hmove => shares_move h hmove) hreach
  rw [hsum]
  congr 1
  refine Finset.sum_congr rfl fun t _ => ?_
  have ht := hparts t
  rw [hfin t] at ht
  exact ht

end

end Threads
