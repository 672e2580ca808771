/-
Objects behind a non-recursive mutex.

A `Guarded σ` is an object of type `σ` with a mutex; a `LockM σ` action reads
and writes both, and faults when it acquires the mutex while it is held.
`guarded body` is a scoped lock: acquire, run `body`, release on return.

* `guarded_run_held` — a scoped lock faults while the mutex is held;
* `guarded_straight` — around a body that leaves the mutex alone it is that
  body, and it returns with the mutex released;
* `disciplined_iff` — if each operation faults exactly outside `Q` and otherwise
  acts as `step`, then the sessions in which no operation faults and each one
  releases the mutex are the runs of `step` whose calls all meet `Q`.
-/
import MembraL3.Lib.Runs

namespace Lock

/-- The fault of acquiring a mutex that is held. -/
inductive Fault where
  | relock
  deriving DecidableEq, Repr

/-- An object with the mutex that guards it. -/
structure Guarded (σ : Type) where
  held : Bool
  data : σ

/-- Actions on a guarded object. -/
abbrev LockM (σ : Type) := StateT (Guarded σ) (Except Fault)

variable {σ ι ρ α β : Type}

def acquire : LockM σ Unit := fun g =>
  if g.held then .error .relock else .ok ((), { g with held := true })

def release : LockM σ Unit := fun g => .ok ((), { g with held := false })

/-- A scoped lock around `body`. -/
def guarded (body : LockM σ α) : LockM σ α := do
  acquire
  let a ← body
  release
  return a

/-- A body that does not touch the mutex. -/
def straight (f : σ → α × σ) : LockM σ α := fun g =>
  .ok ((f g.data).1, { g with data := (f g.data).2 })

theorem guarded_run_held (body : LockM σ α) (s : σ) :
    guarded body ⟨true, s⟩ = .error .relock := rfl

theorem guarded_run_free (body : LockM σ α) (s : σ) :
    guarded body ⟨false, s⟩ =
      (body ⟨true, s⟩).map fun r => (r.1, { r.2 with held := false }) := by
  cases h : body ⟨true, s⟩ with
  | error e =>
    show (body ⟨true, s⟩ >>= fun r => release r.2 >>= fun q => pure (r.1, q.2)) = _
    rw [h]
    rfl
  | ok r =>
    show (body ⟨true, s⟩ >>= fun r => release r.2 >>= fun q => pure (r.1, q.2)) = _
    rw [h]
    rfl

theorem guarded_straight (f : σ → α × σ) (s : σ) :
    guarded (straight f) ⟨false, s⟩ = .ok ((f s).1, ⟨false, (f s).2⟩) := rfl

theorem bind_run (body : LockM σ α) (rest : α → LockM σ β) (g : Guarded σ) :
    (body >>= rest) g = body g >>= fun r => rest r.1 r.2 := rfl

theorem map_run (f : α → β) (body : LockM σ α) (g : Guarded σ) :
    (f <$> body) g = (body g).map fun r => (f r.1, r.2) := by
  show (body g >>= fun r => pure (f r.1, r.2)) = _
  cases body g with
  | error e => rfl
  | ok r => rfl

/-! ### Sessions -/

/-- Perform a list of operations, one after the other. -/
def session (op : ι → LockM σ ρ) : List ι → LockM σ Unit
  | [] => pure ()
  | c :: cs => op c >>= fun _ => session op cs

/-- Along `cs`, from a released mutex, no operation faults and each one returns
with the mutex released. -/
def Disciplined (op : ι → LockM σ ρ) (s : σ) (cs : List ι) : Prop :=
  ∀ pre, pre <+: cs → ∃ s', session op pre ⟨false, s⟩ = .ok ((), ⟨false, s'⟩)

section

variable {op : ι → LockM σ ρ} {step : σ → ι → ρ × σ} {Q : σ → ι → Prop}

/-- Where each operation acts as `step`, so does a session. -/
theorem session_eq_final
    (hok : ∀ s c, Q s c → op c ⟨false, s⟩ = .ok ((step s c).1, ⟨false, (step s c).2⟩))
    {s : σ} {cs : List ι} (hQ : Runs.Each step Q s cs) :
    session op cs ⟨false, s⟩ = .ok ((), ⟨false, Runs.final step s cs⟩) := by
  induction cs generalizing s with
  | nil => rfl
  | cons c cs ih =>
    obtain ⟨hc, hcs⟩ := (Runs.each_cons c cs).mp hQ
    show (op c ⟨false, s⟩ >>= fun r => session op cs r.2) = _
    rw [hok s c hc]
    exact ih hcs

theorem disciplined_iff
    (hok : ∀ s c, Q s c → op c ⟨false, s⟩ = .ok ((step s c).1, ⟨false, (step s c).2⟩))
    (hfault : ∀ s c, ¬ Q s c → op c ⟨false, s⟩ = .error .relock) (s : σ) (cs : List ι) :
    Disciplined op s cs ↔ Runs.Each step Q s cs := by
  constructor
  · intro hd
    induction cs generalizing s with
    | nil => exact Runs.each_nil
    | cons c cs ih =>
      have hfirst : ∃ s', session op [c] ⟨false, s⟩ = .ok ((), ⟨false, s'⟩) :=
        hd [c] ⟨cs, rfl⟩
      have hc : Q s c := by
        by_contra hn
        obtain ⟨s', hs'⟩ := hfirst
        change (op c ⟨false, s⟩ >>= fun _ => _) = _ at hs'
        rw [hfault s c hn] at hs'
        exact absurd hs' (by simp [Bind.bind, Except.bind])
      refine (Runs.each_cons c cs).mpr ⟨hc, ih (step s c).2 ?_⟩
      intro pre hpre
      obtain ⟨s', hs'⟩ := hd (c :: pre) (List.cons_prefix_cons.mpr ⟨rfl, hpre⟩)
      refine ⟨s', ?_⟩
      change (op c ⟨false, s⟩ >>= fun r => session op pre r.2) = _ at hs'
      rw [hok s c hc] at hs'
      exact hs'
  · intro hQ pre hpre
    exact ⟨_, session_eq_final hok (hQ.restrict hpre)⟩

end

end Lock
