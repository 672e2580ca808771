/-
Rely and guarantee.

A `Protocol` of threads is an invariant of what they share and, for each thread, what
it may see the others do.  A program `Meets` it when each of its steps keeps the
invariant and is something that all others may see, whatever the others have done
before the step.  What the threads share has a part that exists in the proof only, the
ghost, and a step may change that part as it likes.

* `Meets.later`, `Meets.bind`, `meets_session` — programs meet a protocol piece by piece;
* `LockFree.meets_focus`, `Silent.meets_focus` — a program on a part of the data that no
  other thread changes does there what it does on its own;
* `exists_ghost_of_reachable`, `post_of_finished` — threads whose programs all meet the
  protocol keep its invariant on every schedule, and return as they promise.
-/
import MembraL3.Lib.Atomicity

namespace Threads

variable {T σ L Γ α β : Type}

/-- What threads share: the owners of the mutexes, the data and the ghost. -/
structure World (T σ L Γ : Type) where
  owner : L → Option T
  data : σ
  ghost : Γ

structure Protocol (T σ L Γ : Type) where
  inv : World T σ L Γ → Prop
  /-- What the thread may see others do, in any number of steps. -/
  rely : T → World T σ L Γ → World T σ L Γ → Prop
  refl : ∀ t w, rely t w w
  trans : ∀ {t w₁ w₂ w₃}, rely t w₁ w₂ → rely t w₂ w₃ → rely t w₁ w₃

/-- What `t` may do in one step. -/
structure Protocol.Allows (P : Protocol T σ L Γ) (t : T) (w w' : World T σ L Γ) : Prop where
  inv : P.inv w'
  seen : ∀ t', t' ≠ t → P.rely t' w w'

theorem Protocol.allows_refl {P : Protocol T σ L Γ} (t : T) {w : World T σ L Γ} (h : P.inv w) :
    P.Allows t w w :=
  ⟨h, fun t' _ => P.refl t' w⟩

namespace World

variable (w : World T σ L Γ)

/-- After an action on the data. -/
def acted (update : σ → σ) (g : Γ) : World T σ L Γ := ⟨w.owner, update w.data, g⟩

/-- After the mutex has got another owner, or none. -/
def passed [DecidableEq L] (l : L) (o : Option T) (g : Γ) : World T σ L Γ :=
  ⟨Function.update w.owner l o, w.data, g⟩

@[simp] theorem acted_owner (update : σ → σ) (g : Γ) : (w.acted update g).owner = w.owner := rfl

@[simp] theorem acted_data (update : σ → σ) (g : Γ) :
    (w.acted update g).data = update w.data := rfl

@[simp] theorem acted_ghost (update : σ → σ) (g : Γ) : (w.acted update g).ghost = g := rfl

variable {w} in
theorem owner_ne {l : L} {t t' : T} (h : w.owner l = some t) (hne : t' ≠ t) :
    w.owner l ≠ some t' :=
  fun h' => hne (Option.some.inj (h'.symm.trans h))

variable [DecidableEq L] (l : L) (o : Option T)

@[simp] theorem passed_owner_self (g : Γ) : (w.passed l o g).owner l = o :=
  Function.update_self ..

@[simp] theorem passed_owner_ne {l' : L} (h : l' ≠ l) (g : Γ) :
    (w.passed l o g).owner l' = w.owner l' :=
  Function.update_of_ne h ..

/-- The mutex was not of `t` and is not now. -/
theorem passed_owner_iff {t : T} (hold : w.owner l ≠ some t) (hnew : o ≠ some t) (g : Γ) (l' : L) :
    (w.passed l o g).owner l' = some t ↔ w.owner l' = some t := by
  by_cases heq : l' = l
  · subst heq
    rw [passed_owner_self]
    exact iff_of_false hnew hold
  · rw [passed_owner_ne w l o heq]

/-- The mutex is the only one that `t` has. -/
theorem passed_owner_some {t : T} (h : ∀ l, w.owner l ≠ some t) (g : Γ) (l' : L) :
    (w.passed l (some t) g).owner l' = some t ↔ l' = l := by
  by_cases heq : l' = l
  · rw [heq, passed_owner_self]
    exact iff_of_true rfl rfl
  · rw [passed_owner_ne w l _ heq]
    exact iff_of_false (h l') heq

/-- The mutex was the only one that `t` had. -/
theorem passed_owner_none {t : T} (h : ∀ l', w.owner l' = some t ↔ l' = l) (g : Γ) (l' : L) :
    (w.passed l none g).owner l' ≠ some t := by
  by_cases heq : l' = l
  · rw [heq, passed_owner_self]
    exact (Option.some_ne_none t).symm
  · rw [passed_owner_ne w l _ heq]
    exact fun hl' => heq ((h l').mp hl')

@[simp] theorem passed_data (g : Γ) : (w.passed l o g).data = w.data := rfl

@[simp] theorem passed_ghost (g : Γ) : (w.passed l o g).ghost = g := rfl

end World

section

variable [DecidableEq L] {P : Protocol T σ L Γ} {t : T} {w w' : World T σ L Γ}

/-- From `w` on, thread `t` keeps to the protocol and returns as `post` says. -/
def Meets (P : Protocol T σ L Γ) (t : T) (post : α → World T σ L Γ → Prop) :
    Prog σ L α → World T σ L Γ → Prop
  | .done a, w => ∀ w', P.rely t w w' → P.inv w' → post a w'
  | .act update next, w => ∀ w', P.rely t w w' → P.inv w' →
    ∃ g, P.Allows t w' (w'.acted update g) ∧ Meets P t post (next w'.data) (w'.acted update g)
  | .acquire l rest, w => ∀ w', P.rely t w w' → P.inv w' → w'.owner l = none →
    ∃ g, P.Allows t w' (w'.passed l (some t) g) ∧ Meets P t post rest (w'.passed l (some t) g)
  | .release l rest, w => ∀ w', P.rely t w w' → P.inv w' →
    ∃ g, P.Allows t w' (w'.passed l none g) ∧ Meets P t post rest (w'.passed l none g)

variable {post : α → World T σ L Γ → Prop}

/-- Others may go on in between. -/
theorem Meets.later {p : Prog σ L α} (h : Meets P t post p w) (hrely : P.rely t w w') :
    Meets P t post p w' := by
  cases p with
  | done a => exact fun w₁ h₁ => h w₁ (P.trans hrely h₁)
  | act update next => exact fun w₁ h₁ => h w₁ (P.trans hrely h₁)
  | acquire l rest => exact fun w₁ h₁ => h w₁ (P.trans hrely h₁)
  | release l rest => exact fun w₁ h₁ => h w₁ (P.trans hrely h₁)

theorem Meets.bind {mid : β → World T σ L Γ → Prop} {p : Prog σ L β} {k : β → Prog σ L α}
    (hinv : P.inv w) (hp : Meets P t mid p w)
    (hk : ∀ b w, P.inv w → mid b w → Meets P t post (k b) w) :
    Meets P t post (p.bind k) w := by
  induction p generalizing w with
  | done b => exact hk b w hinv (hp w (P.refl t w) hinv)
  | act update next ih =>
    intro w' hrely hinv'
    obtain ⟨g, hallows, hnext⟩ := hp w' hrely hinv'
    exact ⟨g, hallows, ih w'.data hallows.inv hnext⟩
  | acquire l rest ih =>
    intro w' hrely hinv' hfree
    obtain ⟨g, hallows, hrest⟩ := hp w' hrely hinv' hfree
    exact ⟨g, hallows, ih hallows.inv hrest⟩
  | release l rest ih =>
    intro w' hrely hinv'
    obtain ⟨g, hallows, hrest⟩ := hp w' hrely hinv'
    exact ⟨g, hallows, ih hallows.inv hrest⟩

/-- Reading changes nothing, and sees what the others have left. -/
theorem meets_read_bind {f : σ → β} {k : β → Prog σ L α}
    (h : ∀ w', P.rely t w w' → P.inv w' → Meets P t post (k (f w'.data)) w') :
    Meets P t post ((Prog.read f).bind k) w :=
  fun w' hrely hinv => ⟨w'.ghost, P.allows_refl t hinv, h w' hrely hinv⟩

/-- What holds of the replies so far and the calls to go is kept by each call. -/
theorem meets_session {ι : Type} {op : ι → Prog σ L α}
    {J : List α → List ι → World T σ L Γ → Prop}
    (hstable : ∀ {acc cs w w'}, J acc cs w → P.rely t w w' → P.inv w' → J acc cs w')
    (hop : ∀ {acc c cs w}, P.inv w → J acc (c :: cs) w →
      Meets P t (fun a => J (acc ++ [a]) cs) (op c) w)
    {acc : List α} {cs : List ι} (hinv : P.inv w) (hJ : J acc cs w) :
    Meets P t (fun results => J results []) (Prog.session op acc cs) w := by
  induction cs generalizing acc w with
  | nil => exact fun w' hrely hinv' => hstable hJ hrely hinv'
  | cons c cs ih => exact (hop hinv hJ).bind hinv fun a w' hinv' hJ' => ih hinv' hJ'

/-- A program on a part that the thread has to itself, where `Own m` says that this part
is `m`. -/
theorem LockFree.meets_focus {μ : Type} {p : Prog μ L α} (hp : LockFree p) {get : σ → μ}
    {put : σ → μ → σ} (Own : μ → World T σ L Γ → Prop)
    (hget : ∀ {m w}, Own m w → get w.data = m)
    (hstable : ∀ {m w w'}, Own m w → P.rely t w w' → P.inv w' → Own m w')
    (hput : ∀ {m w}, P.inv w → Own m w → ∀ m',
      P.Allows t w (w.acted (fun s => put s m') w.ghost) ∧
        Own m' (w.acted (fun s => put s m') w.ghost))
    {m : μ} (hown : Own m w)
    (hpost : ∀ w', P.inv w' → Own (p.alone m).2 w' → post (p.alone m).1 w') :
    Meets P t post (p.focus get put) w := by
  induction p generalizing w m with
  | done a => exact fun w' hrely hinv => hpost w' hinv (hstable hown hrely hinv)
  | act update next ih =>
    intro w' hrely hinv
    have hown' := hstable hown hrely hinv
    -- the part is still as this thread has left it
    obtain ⟨hallows, hnew⟩ := hput hinv hown' (update m)
    have hacted : w'.acted (fun s => put s (update (get s))) w'.ghost
        = w'.acted (fun s => put s (update m)) w'.ghost := by
      rw [World.acted, World.acted, hget hown']
    refine ⟨w'.ghost, ?_, ?_⟩
    · rw [hacted]
      exact hallows
    · show Meets P t post ((next (get w'.data)).focus get put) _
      rw [hacted, hget hown']
      exact ih m (hp m) hnew hpost
  | acquire l rest => exact hp.elim
  | release l rest => exact hp.elim

/-- A program that only reads a part that the others leave alone. -/
theorem Silent.meets_focus {μ : Type} {p : Prog μ L α} (hp : Silent id p) {get : σ → μ}
    {put : σ → μ → σ} (Own : μ → World T σ L Γ → Prop)
    (hget : ∀ {m w}, Own m w → get w.data = m)
    (hstable : ∀ {m w w'}, Own m w → P.rely t w w' → P.inv w' → Own m w')
    (hput : ∀ s, put s (get s) = s) {m : μ} (hown : Own m w)
    (hpost : ∀ w', P.inv w' → Own m w' → post (p.alone m).1 w') :
    Meets P t post (p.focus get put) w := by
  induction p generalizing w with
  | done a => exact fun w' hrely hinv => hpost w' hinv (hstable hown hrely hinv)
  | act update next ih =>
    intro w' hrely hinv
    have hown' := hstable hown hrely hinv
    have hupdate : ∀ s, update s = s := fun s => (hp s).1
    have hacted : w'.acted (fun s => put s (update (get s))) w'.ghost = w' := by
      rw [World.acted, hupdate, hput]
    refine ⟨w'.ghost, ?_, ?_⟩
    · rw [hacted]
      exact P.allows_refl t hinv
    · show Meets P t post ((next (get w'.data)).focus get put) _
      rw [hacted, hget hown']
      refine ih m (hp m).2 hown' fun w'' hinv' hown'' => ?_
      have hend := hpost w'' hinv' hown''
      rwa [Prog.alone_act, hupdate] at hend
  | acquire l rest => exact hp.elim
  | release l rest => exact hp.elim

end

/-! ### All threads -/

section

variable [DecidableEq T] [DecidableEq L] {P : Protocol T σ L Γ} {s s' : State T σ L α} {t : T}
  {post : T → α → World T σ L Γ → Prop} {g : Γ}

/-- What threads share in a state, with a ghost. -/
def State.world (s : State T σ L α) (g : Γ) : World T σ L Γ := ⟨s.owner, s.data, g⟩

/-- The invariant, and all threads keep to the protocol. -/
structure Keeping (P : Protocol T σ L Γ) (post : T → α → World T σ L Γ → Prop)
    (s : State T σ L α) (g : Γ) : Prop where
  inv : P.inv (s.world g)
  meets : ∀ t, Meets P t (post t) (s.progs t) (s.world g)

/-- After an allowed step of `t`, which goes on with `p`. -/
theorem Keeping.next (h : Keeping P post s g) {p : Prog σ L α} {g' : Γ}
    (hprogs : s'.progs = Function.update s.progs t p)
    (hallows : P.Allows t (s.world g) (s'.world g'))
    (hmeets : Meets P t (post t) p (s'.world g')) : Keeping P post s' g' where
  inv := hallows.inv
  meets t' := by
    rw [hprogs]
    by_cases heq : t' = t
    · subst heq
      rwa [Function.update_self]
    -- the step is one that the other thread may see
    · rw [Function.update_of_ne heq]
      exact (h.meets t').later (hallows.seen t' heq)

theorem keeping_move (h : Keeping P post s g) (hmove : move s t = some s') :
    ∃ g', Keeping P post s' g' := by
  have ht := h.meets t
  have hrefl := P.refl t (s.world g)
  rcases move_eq_some hmove with ⟨update, next, hp, rfl⟩ | ⟨l, rest, hp, hfree, rfl⟩ |
    ⟨l, rest, hp, rfl⟩
  · rw [hp] at ht
    obtain ⟨g', hallows, hnext⟩ := ht _ hrefl h.inv
    exact ⟨g', h.next rfl hallows hnext⟩
  · rw [hp] at ht
    obtain ⟨g', hallows, hrest⟩ := ht _ hrefl h.inv hfree
    exact ⟨g', h.next rfl hallows hrest⟩
  · rw [hp] at ht
    obtain ⟨g', hallows, hrest⟩ := ht _ hrefl h.inv
    exact ⟨g', h.next rfl hallows hrest⟩

/-- On every schedule there is a ghost with which the invariant holds and all threads
keep to the protocol. -/
theorem exists_ghost_of_reachable {progs : T → Prog σ L α} {data : σ}
    (h : Keeping P post (start progs data) g) (hreach : Reachable (start progs data) s) :
    ∃ g, Keeping P post s g := by
  refine reachable_induction (P := fun s => ∃ g, Keeping P post s g) ⟨g, h⟩ ?_ hreach
  rintro s₁ s₂ t ⟨g, h⟩ hmove
  exact keeping_move h hmove

/-- Threads that have returned have done so as they promised. -/
theorem post_of_finished {progs : T → Prog σ L α} {data : σ} {results : T → α}
    (h : Keeping P post (start progs data) g) (hreach : Reachable (start progs data) s)
    (hfin : ∀ t, s.progs t = .done (results t)) :
    ∃ g, P.inv (s.world g) ∧ ∀ t, post t (results t) (s.world g) := by
  obtain ⟨g, hinv, hmeets⟩ := exists_ghost_of_reachable h hreach
  refine ⟨g, hinv, fun t => ?_⟩
  have ht := hmeets t
  rw [hfin t] at ht
  exact ht _ (P.refl t _) hinv

end

end Threads
