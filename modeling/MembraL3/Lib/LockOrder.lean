/-
Deadlock freedom from an order on the mutexes.

A program is `Ordered` by a rank of its mutexes when it takes each one above all
those it holds, releases only what it holds, and returns with what it should still
hold.  Mutexes of a set `again` it may also take while it holds them, and is then
stuck.

* `sound_move` — a machine of ordered programs stays one;
* `exists_selfBlocked` — if no thread can move, then all have returned, or one waits
  for a mutex of its own;
* `moves_wellFounded` — no run is infinite;
* `completes_iff_no_selfBlocked` — every schedule runs all threads to their end, iff in
  no reachable state a thread waits for a mutex of its own.
-/
import MembraL3.Lib.Threads
import Mathlib.Data.DFinsupp.WellFounded
import Mathlib.Data.Set.Finite.Lemmas

namespace Threads

variable {T σ L α β : Type}

/-! ### Ordered programs -/

/-- From the mutexes in `held` the program takes mutexes in order of their rank, or
one of `again` that it holds, and returns with those in `left`. -/
def Ordered (rank : L → ℕ) (again left : Set L) : Set L → Prog σ L α → Prop
  | held, .done _ => held = left
  | held, .act _ next => ∀ s, Ordered rank again left held (next s)
  | held, .acquire l rest =>
    (l ∈ held ∧ l ∈ again) ∨
      (∀ h ∈ held, rank h < rank l) ∧ Ordered rank again left (insert l held) rest
  | held, .release l rest => l ∈ held ∧ Ordered rank again left (held \ {l}) rest

variable {rank : L → ℕ} {again held mid left : Set L}

theorem Ordered.bind {p : Prog σ L α} {k : α → Prog σ L β} (hp : Ordered rank again mid held p)
    (hk : ∀ a, Ordered rank again left mid (k a)) : Ordered rank again left held (p.bind k) := by
  induction p generalizing held with
  | done a =>
    rw [show held = mid from hp]
    exact hk a
  | act update next ih => exact fun s => ih s (hp s)
  | acquire l rest ih => exact hp.imp id fun h => ⟨h.1, ih h.2⟩
  | release l rest ih => exact ⟨hp.1, ih hp.2⟩

theorem ordered_atomically (f : σ → α × σ) :
    Ordered rank again held held (Prog.atomically f : Prog σ L α) := fun _ => rfl

theorem ordered_read (f : σ → α) : Ordered rank again held held (Prog.read f : Prog σ L α) :=
  fun _ => rfl

theorem ordered_write (f : σ → σ) : Ordered rank again held held (Prog.write f : Prog σ L Unit) :=
  fun _ => rfl

/-- Taking a mutex above those that are held. -/
theorem ordered_lock {l : L} (h : ∀ h ∈ held, rank h < rank l) :
    Ordered rank again (insert l held) held (Prog.lock l : Prog σ L Unit) :=
  .inr ⟨h, rfl⟩

theorem ordered_unlock {l : L} (h : ∀ h ∈ held, rank h < rank l) :
    Ordered rank again held (insert l held) (Prog.unlock l : Prog σ L Unit) := by
  refine ⟨Set.mem_insert l held, ?_⟩
  exact Set.insert_sdiff_self_of_notMem fun hl => (h l hl).false

/-- A scoped lock around a body that leaves the mutexes as they are. -/
theorem Ordered.guarded {l : L} {body : Prog σ L α} (h : ∀ h ∈ held, rank h < rank l)
    (hbody : Ordered rank again (insert l held) (insert l held) body) :
    Ordered rank again held held (Prog.guarded l body) := by
  refine (ordered_lock h).bind fun _ => hbody.bind fun a => ?_
  exact (ordered_unlock h).bind fun _ => rfl

theorem Ordered.focus {ν : Type} {p : Prog σ L α} (h : Ordered rank again left held p) (get : ν → σ)
    (put : ν → σ → ν) : Ordered rank again left held (p.focus get put) := by
  induction p generalizing held with
  | done a => exact h
  | act update next ih => exact fun n => ih (get n) (h (get n))
  | acquire l rest ih => exact h.imp id fun h => ⟨h.1, ih h.2⟩
  | release l rest ih => exact ⟨h.1, ih h.2⟩

theorem ordered_session {ι : Type} {op : ι → Prog σ L α} {cs : List ι}
    (h : ∀ c ∈ cs, Ordered rank again held held (op c)) (acc : List α) :
    Ordered rank again held held (Prog.session op acc cs) := by
  induction cs generalizing acc with
  | nil => rfl
  | cons c cs ih =>
    obtain ⟨hc, hcs⟩ := List.forall_mem_cons.mp h
    exact hc.bind fun a => ih hcs (acc ++ [a])

/-! ### Sound states -/

/-- The mutexes that `t` owns. -/
def State.holds (s : State T σ L α) (t : T) : Set L := {l | s.owner l = some t}

/-- Every thread goes on in order, and will return without a mutex. -/
def Sound (rank : L → ℕ) (again : Set L) (s : State T σ L α) : Prop :=
  ∀ t, Ordered rank again ∅ (s.holds t) (s.progs t)

/-- The thread waits for a mutex that it owns. -/
def State.SelfBlocked (s : State T σ L α) (t : T) (l : L) : Prop :=
  ∃ rest, s.progs t = .acquire l rest ∧ s.owner l = some t

theorem sound_start {progs : T → Prog σ L α} (h : ∀ t, Ordered rank again ∅ ∅ (progs t))
    (data : σ) : Sound rank again (start progs data) := by
  intro t
  have hnone : (start progs data).holds t = ∅ :=
    Set.eq_empty_iff_forall_notMem.mpr fun l hl => Option.some_ne_none t hl.symm
  rw [hnone]
  exact h t

/-! ### What a thread wants -/

/-- The rank of the mutex that a program is about to take. -/
def rankWanted (rank : L → ℕ) : Prog σ L α → ℕ
  | .acquire l _ => rank l
  | _ => 0

/-- A thread that waits for another one wants less than the other one does. -/
theorem rankWanted_lt {s : State T σ L α} {t : T} {l l' : L} {rest rest' : Prog σ L α} {t' : T}
    (h : Sound rank again s) (hp : s.progs t = .acquire l rest) (howner : s.owner l = some t')
    (hp' : s.progs t' = .acquire l' rest') (hself : ∀ l ∈ again, ¬ s.SelfBlocked t' l) :
    rankWanted rank (s.progs t) < rankWanted rank (s.progs t') := by
  have ht' := h t'
  rw [hp'] at ht'
  have hnew : ¬ (l' ∈ s.holds t' ∧ l' ∈ again) := fun hl => hself l' hl.2 ⟨rest', hp', hl.1⟩
  rw [hp, hp']
  exact (ht'.resolve_left hnew).1 l howner

/-! ### Programs end -/

theorem continues_wellFounded : WellFounded (Continues (σ := σ) (L := L) (α := α)) := by
  refine ⟨fun p => ?_⟩
  induction p with
  | done a => exact ⟨_, fun q hq => nomatch hq⟩
  | act update next ih =>
    refine ⟨_, fun q hq => ?_⟩
    cases hq with
    | act _ _ s => exact ih s
  | acquire l rest ih =>
    refine ⟨_, fun q hq => ?_⟩
    cases hq
    exact ih
  | release l rest ih =>
    refine ⟨_, fun q hq => ?_⟩
    cases hq
    exact ih

section

variable [DecidableEq T] [DecidableEq L] {s s' : State T σ L α} {t : T}

theorem holds_acquired {l : L} (p : Prog σ L α) :
    State.holds { s.goTo t p with owner := Function.update s.owner l (some t) } t
      = insert l (s.holds t) := by
  ext l'
  by_cases hl : l' = l
  · subst hl
    simp [State.holds]
  · simp [State.holds, hl]

theorem holds_released {l : L} (p : Prog σ L α) :
    State.holds { s.goTo t p with owner := Function.update s.owner l none } t
      = s.holds t \ {l} := by
  ext l'
  by_cases hl : l' = l
  · subst hl
    simp [State.holds]
  · simp [State.holds, hl]

/-- What the owner of a mutex does to it is nothing to the others. -/
theorem holds_of_update {l : L} {o : Option T} {p : Prog σ L α} {t' : T}
    (hbefore : s.owner l ≠ some t') (hafter : o ≠ some t') :
    State.holds { s.goTo t p with owner := Function.update s.owner l o } t' = s.holds t' := by
  ext l'
  by_cases hl : l' = l
  · subst hl
    simp [State.holds, hbefore, hafter]
  · simp [State.holds, Function.update_of_ne hl]

theorem sound_move (h : Sound rank again s) (hmove : move s t = some s') : Sound rank again s' := by
  intro t'
  have ht := h t
  rcases move_eq_some hmove with ⟨update, next, hp, rfl⟩ | ⟨l, rest, hp, hfree, rfl⟩ |
    ⟨l, rest, hp, rfl⟩
  · by_cases heq : t' = t
    · subst heq
      rw [hp] at ht
      simpa [State.holds] using ht s.data
    · simpa [State.holds, heq] using h t'
  · rw [hp] at ht
    have hnew : l ∉ s.holds t := fun hl => Option.some_ne_none t (hl.symm.trans hfree)
    by_cases heq : t' = t
    · subst heq
      rw [holds_acquired]
      simpa using (ht.resolve_left fun hl => hnew hl.1).2
    · rw [holds_of_update (by simp [hfree]) (by simpa using Ne.symm heq)]
      simpa [heq] using h t'
  · rw [hp] at ht
    by_cases heq : t' = t
    · subst heq
      rw [holds_released]
      simpa using ht.2
    · have howner : s.owner l = some t := ht.1
      rw [holds_of_update (by simpa [howner] using Ne.symm heq) (by simp)]
      simpa [heq] using h t'

theorem sound_of_reachable (h : Sound rank again s) (hreach : Reachable s s') :
    Sound rank again s' :=
  reachable_induction h (fun _ _ _ h hmove => sound_move h hmove) hreach

/-! ### Progress -/

/-- In a sound state where no thread can move, all threads have returned or one of
them waits for a mutex of its own. -/
theorem exists_selfBlocked [Finite T] (h : Sound rank again s) (hstuck : ∀ t, move s t = none)
    (hunfinished : ¬ s.Finished) : ∃ t, ∃ l ∈ again, s.SelfBlocked t l := by
  by_contra hnone
  have hnone' : ∀ t, ∀ l ∈ again, ¬ s.SelfBlocked t l := fun t l hl ht => hnone ⟨t, l, hl, ht⟩
  -- among the threads that wait, take one that wants most
  let waiting : Set T := {t | ¬ ∃ a, s.progs t = .done a}
  obtain ⟨t₀, ht₀⟩ : waiting.Nonempty := by
    obtain ⟨t, ht⟩ := not_forall.mp hunfinished
    exact ⟨t, ht⟩
  obtain ⟨t, ht, hmax⟩ := Set.exists_max_image waiting (fun t => rankWanted rank (s.progs t))
    (Set.toFinite waiting) ⟨t₀, ht₀⟩
  obtain ⟨l, rest, t', hp, howner⟩ := (move_eq_none (hstuck t)).resolve_left ht
  -- the owner of what it waits for has not returned
  have ht' : t' ∈ waiting := by
    rintro ⟨a, ha⟩
    have hdone := h t'
    rw [ha] at hdone
    exact Set.notMem_empty l (hdone.subset howner)
  obtain ⟨l', rest', _, hp', -⟩ := (move_eq_none (hstuck t')).resolve_left ht'
  exact (hmax t' ht').not_gt (rankWanted_lt h hp howner hp' (hnone' t'))

/-- A thread that waits for a mutex of its own does so for ever. -/
theorem selfBlocked_of_reachable (h : Sound rank again s) {l : L} (hself : s.SelfBlocked t l)
    (hreach : Reachable s s') : s'.SelfBlocked t l := by
  have hboth : Sound rank again s' ∧ s'.SelfBlocked t l := by
    refine reachable_induction (P := fun s => Sound rank again s ∧ s.SelfBlocked t l)
      ⟨h, hself⟩ ?_ hreach
    rintro s₁ s₂ t' ⟨hsound, rest, hp, howner⟩ hmove
    refine ⟨sound_move hsound hmove, rest, ?_⟩
    have hne : t ≠ t' := by
      rintro rfl
      rw [move, hp] at hmove
      simp [howner] at hmove
    refine ⟨(progs_of_move hmove hne).trans hp, ?_⟩
    rcases move_eq_some hmove with ⟨_, _, _, rfl⟩ | ⟨l', _, _, hfree, rfl⟩ | ⟨l', _, hp', rfl⟩
    · exact howner
    · have hl : l ≠ l' := by
        rintro rfl
        exact Option.some_ne_none t (howner.symm.trans hfree)
      exact (Function.update_of_ne hl ..).trans howner
    · have hl : l ≠ l' := by
        rintro rfl
        have ht' := hsound t'
        rw [hp'] at ht'
        exact hne (Option.some.inj (howner.symm.trans ht'.1))
      exact (Function.update_of_ne hl ..).trans howner
  exact hboth.2

/-! ### Termination -/

/-- No run is infinite: a step takes one of finitely many programs further. -/
theorem moves_wellFounded [Finite T] :
    WellFounded fun s' s : State T σ L α => Moves s s' := by
  have hlex : WellFounded (Pi.Lex (WellOrderingRel (α := T))
      fun {_} => Continues (σ := σ) (L := L) (α := α)) :=
    Pi.Lex.wellFounded _ fun _ => continues_wellFounded
  refine Subrelation.wf ?_ (InvImage.wf State.progs hlex)
  rintro s' s ⟨t, ht⟩
  refine ⟨t, fun t' ht' => ?_, continues_of_move ht⟩
  refine progs_of_move ht ?_
  rintro rfl
  exact irrefl t' ht'

/-! ### Completion -/

/-- Whatever the schedule, the threads all return: some thread can move until they
have, and that is after finitely many steps. -/
inductive Completes : State T σ L α → Prop where
  | intro (s : State T σ L α) (hprogress : s.Finished ∨ ∃ s', Moves s s')
      (hnext : ∀ s', Moves s s' → Completes s') : Completes s

theorem Completes.of_reachable (h : Completes s) (hreach : Reachable s s') : Completes s' := by
  induction hreach with
  | refl => exact h
  | tail _ hmoves ih =>
    cases ih with
    | intro _ _ hnext => exact hnext _ hmoves

/-- What completes can be brought to its end. -/
theorem Completes.exists_finished (h : Completes s) : ∃ s', Reachable s s' ∧ s'.Finished := by
  induction h with
  | intro s hprogress _ ih =>
    rcases hprogress with hfin | ⟨s', hmoves⟩
    · exact ⟨s, .refl, hfin⟩
    · obtain ⟨s'', hreach, hfin⟩ := ih s' hmoves
      exact ⟨s'', .head hmoves hreach, hfin⟩

/-- Every schedule runs all threads to their end, iff no thread ever waits for a mutex
of its own. -/
theorem completes_iff_no_selfBlocked [Finite T] (h : Sound rank again s) :
    Completes s ↔ ∀ s', Reachable s s' → ∀ t, ∀ l ∈ again, ¬ s'.SelfBlocked t l := by
  constructor
  · intro hc s' hreach t l _ hself
    obtain ⟨s'', hreach', hfin⟩ := (hc.of_reachable hreach).exists_finished
    obtain ⟨rest, hp, -⟩ :=
      selfBlocked_of_reachable (sound_of_reachable h hreach) hself hreach'
    obtain ⟨a, ha⟩ := hfin t
    rw [hp] at ha
    cases ha
  · revert h
    refine moves_wellFounded.induction (C := fun s : State T σ L α => Sound rank again s →
      (∀ s', Reachable s s' → ∀ t, ∀ l ∈ again, ¬ s'.SelfBlocked t l) → Completes s)
      s fun s ih h hnone => ?_
    refine .intro s ?_ fun s' hmoves => ?_
    · by_contra hstuck
      obtain ⟨hunfinished, hmoves⟩ := not_or.mp hstuck
      have hnomove : ∀ t, move s t = none := fun t =>
        Option.eq_none_iff_forall_not_mem.mpr fun s' hs' => hmoves ⟨s', t, hs'⟩
      obtain ⟨t, l, hl, ht⟩ := exists_selfBlocked h hnomove hunfinished
      exact hnone s .refl t l hl ht
    · obtain ⟨t, ht⟩ := id hmoves
      exact ih s' hmoves (sound_move h ht) fun s'' hreach => hnone s'' (.head hmoves hreach)

end

end Threads
