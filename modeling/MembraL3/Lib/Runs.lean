/-
Runs of a deterministic machine.

A machine is a step function `step : σ → ι → ρ × σ`: on a call it returns a
result and the next state.  `final step s calls` is the state a list of calls
leads to, and `trace step s calls` lists what happened on the way, one `Event`
per call.

* `final_induction` — an invariant that every admissible step keeps holds after
  every run of admissible steps;
* `forall_prefix_iff` — a property of histories holds of all prefixes of a run
  exactly when all its calls are admissible;
* `forall_final_iff` — the same of a property of states that a call keeps exactly
  when it is admissible;
* `countP_le_one` — an event that is done for good once it has happened;
* `live_or_issued`, `each_fresh_of_nodup`, `not_live_again` — ids that a run issues
  only once;
* `live_final_iff`, `each_fresh_iff_nodup` — the live ids, exactly;
* `final_rel`, `forall_between_iff`, `final_simulates` — a relation between the states
  of each step holds between the ends of a run;
* `final_lockstep`, `final_map`, `final_filter` — two machines in step, and calls that can
  be left out;
* `Recorded` — the log of a run whose calls come from several callers.
-/
import Mathlib.Data.List.Infix
import Mathlib.Tactic.Common

namespace Runs

variable {σ ι ρ : Type*}

/-- One executed call: the state it found, the call, its result, the state it
left. -/
structure Event (σ ι ρ : Type*) where
  before : σ
  call : ι
  result : ρ
  after : σ

/-- The event that call `c` makes in state `s`. -/
def event (step : σ → ι → ρ × σ) (s : σ) (c : ι) : Event σ ι ρ :=
  ⟨s, c, (step s c).1, (step s c).2⟩

@[simp] theorem event_before (step : σ → ι → ρ × σ) (s : σ) (c : ι) :
    (event step s c).before = s := rfl

@[simp] theorem event_call (step : σ → ι → ρ × σ) (s : σ) (c : ι) :
    (event step s c).call = c := rfl

@[simp] theorem event_result (step : σ → ι → ρ × σ) (s : σ) (c : ι) :
    (event step s c).result = (step s c).1 := rfl

@[simp] theorem event_after (step : σ → ι → ρ × σ) (s : σ) (c : ι) :
    (event step s c).after = (step s c).2 := rfl

/-- The state after a list of calls. -/
def final (step : σ → ι → ρ × σ) (s : σ) : List ι → σ
  | [] => s
  | c :: cs => final step (step s c).2 cs

/-- The events of a run, in order. -/
def trace (step : σ → ι → ρ × σ) (s : σ) : List ι → List (Event σ ι ρ)
  | [] => []
  | c :: cs => event step s c :: trace step (step s c).2 cs

variable {step : σ → ι → ρ × σ} {s : σ}

@[simp] theorem final_nil : final step s [] = s := rfl

@[simp] theorem final_cons (c : ι) (cs : List ι) :
    final step s (c :: cs) = final step (step s c).2 cs := rfl

@[simp] theorem trace_nil : trace step s [] = [] := rfl

@[simp] theorem trace_cons (c : ι) (cs : List ι) :
    trace step s (c :: cs) = event step s c :: trace step (step s c).2 cs := rfl

theorem final_append (s : σ) (cs ds : List ι) :
    final step s (cs ++ ds) = final step (final step s cs) ds := by
  induction cs generalizing s with
  | nil => rfl
  | cons c cs ih => exact ih (step s c).2

theorem trace_append (s : σ) (cs ds : List ι) :
    trace step s (cs ++ ds) = trace step s cs ++ trace step (final step s cs) ds := by
  induction cs generalizing s with
  | nil => rfl
  | cons c cs ih => simp [ih]

/-- The events of a run are the calls of its prefixes, each in the state the
prefix leads to. -/
theorem mem_trace_iff {e : Event σ ι ρ} {cs : List ι} :
    e ∈ trace step s cs ↔
      ∃ pre c post, cs = pre ++ c :: post ∧ e = event step (final step s pre) c := by
  constructor
  · intro he
    induction cs generalizing s with
    | nil => exact absurd he (by simp)
    | cons c cs ih =>
      rcases List.mem_cons.mp he with rfl | he
      · exact ⟨[], c, cs, rfl, rfl⟩
      · obtain ⟨pre, d, post, rfl, rfl⟩ := ih he
        exact ⟨c :: pre, d, post, rfl, rfl⟩
  · rintro ⟨pre, c, post, rfl, rfl⟩
    rw [trace_append]
    exact List.mem_append_right _ (List.mem_cons_self ..)

/-- The calls of a run, from its events. -/
theorem map_call_trace (s : σ) (cs : List ι) : (trace step s cs).map Event.call = cs := by
  induction cs generalizing s with
  | nil => rfl
  | cons c cs ih => rw [trace_cons, List.map_cons, ih, event_call]

/-- What is computed from the calls alone. -/
theorem filterMap_call_trace {κ : Type*} (g : ι → Option κ) (s : σ) (cs : List ι) :
    (trace step s cs).filterMap (fun e => g e.call) = cs.filterMap g := by
  have hcomp := List.filterMap_map (f := Event.call) (g := g) (l := trace step s cs)
  rw [map_call_trace] at hcomp
  exact hcomp.symm

/-- What is true of the event of every call is true of all events of a run. -/
theorem forall_trace {G : Event σ ι ρ → Prop} (h : ∀ s c, G (event step s c)) (s : σ)
    (cs : List ι) : ∀ e ∈ trace step s cs, G e := by
  intro e he
  obtain ⟨pre, c, post, -, rfl⟩ := mem_trace_iff.mp he
  exact h (final step s pre) c

/-! ### Admissible runs -/

/-- Every step of the run meets `Q`, a condition on the state before the step
and the call. -/
def Each (step : σ → ι → ρ × σ) (Q : σ → ι → Prop) (s : σ) (cs : List ι) : Prop :=
  ∀ e ∈ trace step s cs, Q e.before e.call

variable {Q : σ → ι → Prop}

@[simp] theorem each_nil : Each step Q s [] := by simp [Each]

@[simp] theorem each_cons (c : ι) (cs : List ι) :
    Each step Q s (c :: cs) ↔ Q s c ∧ Each step Q (step s c).2 cs := by
  simp [Each]

theorem each_append (s : σ) (cs ds : List ι) :
    Each step Q s (cs ++ ds) ↔ Each step Q s cs ∧ Each step Q (final step s cs) ds := by
  induction cs generalizing s with
  | nil => simp
  | cons c cs ih => simp [ih, and_assoc]

theorem Each.restrict {cs pre : List ι} (h : Each step Q s cs) (hpre : pre <+: cs) :
    Each step Q s pre := by
  obtain ⟨post, rfl⟩ := hpre
  exact ((each_append s pre post).mp h).1

/-- The part of a run between two of its states. -/
theorem Each.between {cs pre mid : List ι} (h : Each step Q s cs) (hpre : pre ++ mid <+: cs) :
    Each step Q (final step s pre) mid :=
  ((each_append s pre mid).mp (h.restrict hpre)).2

theorem Each.imp {Q' : σ → ι → Prop} {cs : List ι} (h : Each step Q s cs)
    (himp : ∀ s c, Q s c → Q' s c) : Each step Q' s cs :=
  fun e he => himp e.before e.call (h e he)

/-- A family of conditions, one after the other or all at each step. -/
theorem forall_each_iff {κ : Type*} {Q : κ → σ → ι → Prop} {cs : List ι} :
    (∀ k, Each step (Q k) s cs) ↔ Each step (fun s c => ∀ k, Q k s c) s cs := by
  constructor
  · intro h e he k
    exact h k e he
  · intro h k e he
    exact h e he k

theorem each_of_forall {cs : List ι} (hQ : ∀ s c, Q s c) : Each step Q s cs :=
  fun e _ => hQ e.before e.call

/-- A property of events, as a condition on the states and calls of a run. -/
theorem forall_trace_iff_each {G : Event σ ι ρ → Prop} {cs : List ι}
    (h : ∀ s c, G (event step s c) ↔ Q s c) :
    (∀ e ∈ trace step s cs, G e) ↔ Each step Q s cs := by
  refine forall₂_congr ?_
  intro e he
  obtain ⟨pre, c, post, -, rfl⟩ := mem_trace_iff.mp he
  exact h (final step s pre) c

/-- A condition on the calls alone. -/
theorem each_of_forall_mem {P : ι → Prop} {cs : List ι} (h : ∀ c ∈ cs, P c) :
    Each step (fun _ c => P c) s cs := by
  intro e he
  rw [← map_call_trace s cs] at h
  exact h e.call (List.mem_map_of_mem he)

theorem Each.and {Q' : σ → ι → Prop} {cs : List ι} (h : Each step Q s cs)
    (h' : Each step Q' s cs) : Each step (fun s c => Q s c ∧ Q' s c) s cs :=
  fun e he => ⟨h e he, h' e he⟩

theorem each_true {cs : List ι} : Each step (fun _ _ => True) s cs :=
  each_of_forall fun _ _ => trivial

variable {Inv : σ → Prop}

/-- An invariant that every admissible step keeps holds after every run of
admissible steps. -/
theorem final_induction (hkeep : ∀ s c, Inv s → Q s c → Inv (step s c).2) {cs : List ι}
    (h0 : Inv s) (hQ : Each step Q s cs) : Inv (final step s cs) := by
  induction cs generalizing s with
  | nil => exact h0
  | cons c cs ih =>
    obtain ⟨hc, hcs⟩ := (each_cons c cs).mp hQ
    exact ih (hkeep s c h0 hc) hcs

/-- An invariant that every step keeps holds after every run. -/
theorem final_invariant (hkeep : ∀ s c, Inv s → Inv (step s c).2) (h0 : Inv s) (cs : List ι) :
    Inv (final step s cs) :=
  final_induction (fun s c hs _ => hkeep s c hs) h0 each_true

/-! ### Conditions on prefixes -/

theorem each_iff_forall {cs : List ι} :
    Each step Q s cs ↔ ∀ pre c, pre ++ [c] <+: cs → Q (final step s pre) c := by
  constructor
  · rintro hQ pre c ⟨post, rfl⟩
    rw [List.append_assoc] at hQ
    exact hQ _ (mem_trace_iff.mpr ⟨pre, c, post, rfl, rfl⟩)
  · intro hQ e he
    obtain ⟨pre, c, post, rfl, rfl⟩ := mem_trace_iff.mp he
    exact hQ pre c ⟨post, by rw [List.append_assoc]; rfl⟩

/-- Two conditions that agree in every state reached. -/
theorem each_congr {Q' : σ → ι → Prop} {cs : List ι}
    (h : ∀ pre c, Q (final step s pre) c ↔ Q' (final step s pre) c) :
    Each step Q s cs ↔ Each step Q' s cs := by
  rw [each_iff_forall, each_iff_forall]
  exact forall_congr' fun pre => forall₂_congr fun c _ => h pre c

/-- A property of histories that starts true and, as long as it has always been
true, is kept by a call exactly when the call is admissible, holds of all
prefixes of a run exactly when all its calls are admissible. -/
theorem forall_prefix_iff {G : List ι → Prop} {P : List ι → ι → Prop} {cs : List ι} (h0 : G [])
    (hstep : ∀ pre c, pre ++ [c] <+: cs → (∀ p, p <+: pre → G p) → (G (pre ++ [c]) ↔ P pre c)) :
    (∀ pre, pre <+: cs → G pre) ↔ ∀ pre c, pre ++ [c] <+: cs → P pre c := by
  constructor
  · intro hG pre c hpre
    have hpast : ∀ p, p <+: pre → G p :=
      fun p hp => hG p (hp.trans ((List.prefix_append pre [c]).trans hpre))
    exact (hstep pre c hpre hpast).mp (hG _ hpre)
  · intro hP
    -- induction on the prefix, keeping all shorter ones
    have hall : ∀ pre, pre <+: cs → ∀ p, p <+: pre → G p := by
      intro pre
      induction pre using List.reverseRecOn with
      | nil =>
        intro _ p hp
        rwa [List.prefix_nil.mp hp]
      | append_singleton pre c ih =>
        intro hpre p hp
        have hpast := ih ((List.prefix_append pre [c]).trans hpre)
        rcases List.prefix_concat_iff.mp hp with rfl | hp
        · exact (hstep pre c hpre hpast).mpr (hP pre c hpre)
        · exact hpast p hp
    exact fun pre hpre => hall pre hpre pre (List.prefix_refl pre)

/-- A property of states that a call keeps exactly when it is admissible. -/
theorem forall_final_iff {cs : List ι} (h0 : Inv s)
    (hstep : ∀ pre c, Inv (final step s pre) →
      (Inv (step (final step s pre) c).2 ↔ Q (final step s pre) c)) :
    (∀ pre, pre <+: cs → Inv (final step s pre)) ↔ Each step Q s cs := by
  rw [each_iff_forall]
  refine forall_prefix_iff h0 ?_
  intro pre c _ hpast
  rw [final_append, final_cons, final_nil]
  exact hstep pre c (hpast pre (List.prefix_refl pre))

/-! ### Events that happen at most once -/

section Once

variable {kind : Event σ ι ρ → Bool} {D : σ → Prop}
  (hneeds : ∀ s c, Q s c → kind (event step s c) = true → ¬ D s)
  (hstays : ∀ s c, Q s c → D s → D (step s c).2)

include hneeds hstays

theorem countP_eq_zero_of_done {cs : List ι} (hdone : D s) (hQ : Each step Q s cs) :
    (trace step s cs).countP kind = 0 := by
  induction cs generalizing s with
  | nil => rfl
  | cons c cs ih =>
    obtain ⟨hc, hcs⟩ := (each_cons c cs).mp hQ
    rw [trace_cons, List.countP_cons_of_neg fun hkind => hneeds s c hc hkind hdone]
    exact ih (hstays s c hc hdone) hcs

/-- An event that cannot happen any more once it is done, and makes itself done,
happens at most once. -/
theorem countP_le_one
    (hends : ∀ s c, Q s c → kind (event step s c) = true → D (step s c).2)
    {cs : List ι} (hQ : Each step Q s cs) : (trace step s cs).countP kind ≤ 1 := by
  induction cs generalizing s with
  | nil => exact Nat.zero_le 1
  | cons c cs ih =>
    obtain ⟨hc, hcs⟩ := (each_cons c cs).mp hQ
    rw [trace_cons]
    by_cases hkind : kind (event step s c) = true
    · rw [List.countP_cons_of_pos hkind,
        countP_eq_zero_of_done hneeds hstays (hends s c hc hkind) hcs]
    · rw [List.countP_cons_of_neg hkind]
      exact ih hcs

end Once

/-! ### Ids

The events of a run issue ids, and in each state some ids are live.  No id
becomes live without being issued. -/

section Ids

variable {κ : Type*} (live : σ → κ → Prop) (issue : Event σ ι ρ → Option κ)
  (hstep : ∀ s c k, live (step s c).2 k → live s k ∨ issue (event step s c) = some k)

include hstep

/-- An id that is live after a run was live before it, or the run has issued it. -/
theorem live_or_issued {cs : List ι} {k : κ} (h : live (final step s cs) k) :
    live s k ∨ k ∈ (trace step s cs).filterMap issue := by
  induction cs generalizing s with
  | nil => exact .inl h
  | cons c cs ih =>
    rcases ih h with hlive | hissued
    · rcases hstep s c k hlive with hbefore | hnow
      · exact .inl hbefore
      · exact .inr (List.mem_filterMap.mpr ⟨event step s c, List.mem_cons_self .., hnow⟩)
    · obtain ⟨e, he, hk⟩ := List.mem_filterMap.mp hissued
      exact .inr (List.mem_filterMap.mpr ⟨e, List.mem_cons_of_mem _ he, hk⟩)

variable (h0 : ∀ k, ¬ live s k)

include h0

/-- Where no id is issued twice, none is issued that is live. -/
theorem each_fresh_of_nodup {cs : List ι} (hids : ((trace step s cs).filterMap issue).Nodup) :
    Each step (fun t c => ∀ k, issue (event step t c) = some k → ¬ live t k) s cs := by
  rw [each_iff_forall]
  rintro pre c ⟨post, rfl⟩ k hk hlive
  have hold := (live_or_issued live issue hstep hlive).resolve_left (h0 k)
  have hnew : k ∈ (trace step (final step s pre) (c :: post)).filterMap issue :=
    List.mem_filterMap.mpr ⟨_, List.mem_cons_self .., hk⟩
  rw [List.append_assoc, trace_append, List.filterMap_append] at hids
  exact (List.nodup_append.mp hids).2.2 k hold k hnew rfl

/-- Where no id is issued twice, one that is no longer live does not become so again. -/
theorem not_live_again {pre mid : List ι} {c : ι} {k : κ}
    (hids : ((trace step s (pre ++ c :: mid)).filterMap issue).Nodup)
    (hlive : live (final step s pre) k) (hdropped : ¬ live (final step s (pre ++ [c])) k) :
    ¬ live (final step s (pre ++ c :: mid)) k := by
  intro hagain
  have hsplit : pre ++ c :: mid = pre ++ ([c] ++ mid) := rfl
  rw [hsplit, ← List.append_assoc, final_append] at hagain
  have hold := (live_or_issued live issue hstep hlive).resolve_left (h0 k)
  have hnew := (live_or_issued live issue hstep hagain).resolve_left hdropped
  rw [hsplit, ← List.append_assoc, trace_append, trace_append, List.filterMap_append,
    List.filterMap_append] at hids
  exact (List.nodup_append.mp hids).2.2 k (List.mem_append_left _ hold) k hnew rfl

end Ids

section LiveIds

variable {κ : Type*} (live : σ → κ → Prop) (issue : Event σ ι ρ → Option κ)
  (h0 : ∀ k, ¬ live s k)

include h0

/-- The live ids of a run are those that it has issued and not dropped since. -/
theorem live_final_iff {drops : ι → κ → Prop}
    (hstep : ∀ s c k, live (step s c).2 k ↔
      issue (event step s c) = some k ∨ (live s k ∧ ¬ drops c k)) {cs : List ι} {k : κ} :
    live (final step s cs) k ↔ ∃ pre c post, cs = pre ++ c :: post ∧
      issue (event step (final step s pre) c) = some k ∧ ∀ d ∈ post, ¬ drops d k := by
  induction cs using List.reverseRecOn with
  | nil => simp [h0 k]
  | append_singleton cs d ih =>
    rw [final_append, final_cons, final_nil, hstep]
    constructor
    · rintro (hnow | ⟨hlive, hkept⟩)
      · exact ⟨cs, d, [], rfl, hnow, fun _ h => absurd h (List.not_mem_nil)⟩
      · obtain ⟨pre, c, post, rfl, hissued, hpost⟩ := ih.mp hlive
        refine ⟨pre, c, post ++ [d], by simp, hissued, ?_⟩
        intro e he
        rcases List.mem_append.mp he with he | he
        · exact hpost e he
        · rwa [List.mem_singleton.mp he]
    · rintro ⟨pre, c, post, heq, hissued, hpost⟩
      -- the issuing call is the last one, or an earlier one
      rcases List.eq_nil_or_concat post with rfl | ⟨mid, d', rfl⟩
      · obtain ⟨rfl, hlast⟩ := List.append_inj' heq rfl
        obtain rfl : d = c := by simpa using hlast
        exact .inl hissued
      · rw [List.concat_eq_append] at heq hpost
        have hsplit : cs ++ [d] = (pre ++ c :: mid) ++ [d'] := by
          rw [heq, List.append_assoc, List.cons_append]
        obtain ⟨rfl, hlast⟩ := List.append_inj' hsplit rfl
        obtain rfl : d = d' := by simpa using hlast
        refine .inr ⟨ih.mpr ⟨pre, c, mid, rfl, hissued, ?_⟩, hpost d (by simp)⟩
        intro e he
        exact hpost e (List.mem_append_left _ he)

variable (hstep : ∀ s c k, live (step s c).2 k ↔ issue (event step s c) = some k ∨ live s k)

include hstep

/-- Where no id is ever dropped, the live ones are the issued ones. -/
theorem live_final_iff_issued {cs : List ι} {k : κ} :
    live (final step s cs) k ↔ k ∈ (trace step s cs).filterMap issue := by
  induction cs using List.reverseRecOn with
  | nil => simp [h0 k]
  | append_singleton cs c ih =>
    rw [final_append, final_cons, final_nil, hstep, ih, trace_append, List.filterMap_append,
      List.mem_append, or_comm]
    simp

/-- None is issued that is live exactly when none is issued twice. -/
theorem each_fresh_iff_nodup {cs : List ι} :
    Each step (fun t c => ∀ k, issue (event step t c) = some k → ¬ live t k) s cs ↔
      ((trace step s cs).filterMap issue).Nodup := by
  constructor
  · intro hfresh
    induction cs using List.reverseRecOn with
    | nil => exact List.nodup_nil
    | append_singleton cs c ih =>
      obtain ⟨hcs, hc⟩ := (each_append s cs [c]).mp hfresh
      rw [each_cons] at hc
      rw [trace_append, List.filterMap_append, List.nodup_append]
      refine ⟨ih hcs, ?_, ?_⟩
      · rw [trace_cons, trace_nil, List.filterMap_cons]
        split <;> simp
      · rintro k hold k' hnew rfl
        have hissued : issue (event step (final step s cs) c) = some k := by simpa using hnew
        exact hc.1 k hissued ((live_final_iff_issued live issue h0 hstep).mpr hold)
  · exact each_fresh_of_nodup live issue (fun s c k h => ((hstep s c k).mp h).symm) h0

end LiveIds

/-! ### Relations and simulation -/

/-- A preorder that every admissible step respects relates the first and the last
state of a run of admissible steps. -/
theorem final_rel {R : σ → σ → Prop} (hrefl : ∀ s, R s s) (htrans : ∀ s t u, R s t → R t u → R s u)
    (hstep : ∀ s c, Q s c → R s (step s c).2) {cs : List ι} (hQ : Each step Q s cs) :
    R s (final step s cs) := by
  induction cs generalizing s with
  | nil => exact hrefl s
  | cons c cs ih =>
    obtain ⟨hc, hcs⟩ := (each_cons c cs).mp hQ
    exact htrans _ _ _ (hstep s c hc) (ih hcs)

/-- Where the preorder holds of exactly the admissible steps, it relates any two states
of a run, the earlier one to the later one, exactly when all its steps are. -/
theorem forall_between_iff {R : σ → σ → Prop} (hrefl : ∀ s, R s s)
    (htrans : ∀ s t u, R s t → R t u → R s u) (hstep : ∀ s c, R s (step s c).2 ↔ Q s c)
    {cs : List ι} :
    (∀ pre mid, pre ++ mid <+: cs → R (final step s pre) (final step s (pre ++ mid))) ↔
      Each step Q s cs := by
  constructor
  · intro h
    rw [each_iff_forall]
    intro pre c hpre
    have hrel := h pre [c] hpre
    rw [final_append] at hrel
    exact (hstep _ c).mp hrel
  · intro hQ pre mid hpre
    rw [final_append]
    exact final_rel hrefl htrans (fun t c h => (hstep t c).mpr h) (hQ.between hpre)

/-- A step-by-step simulation relates the final states: the abstract machine
takes the moves `move s c` of the concrete run. -/
theorem final_simulates {τ κ : Type*} {R : σ → τ → Prop} {move : σ → ι → κ} {act : τ → κ → τ}
    (hsim : ∀ s t c, Q s c → R s t → R (step s c).2 (act t (move s c))) {t : τ} (h0 : R s t)
    {cs : List ι} (hQ : Each step Q s cs) :
    R (final step s cs) ((trace step s cs).foldl (fun t e => act t (move e.before e.call)) t) := by
  induction cs generalizing s t with
  | nil => exact h0
  | cons c cs ih =>
    obtain ⟨hc, hcs⟩ := (each_cons c cs).mp hQ
    exact ih (hsim s t c hc h0) hcs

/-- Two machines that take the same calls. -/
theorem final_lockstep {τ ρ' : Type*} {step' : τ → ι → ρ' × τ} {R : σ → τ → Prop}
    (hstep : ∀ s t c, Q s c → R s t → R (step s c).2 (step' t c).2) {t : τ} (h0 : R s t)
    {cs : List ι} (hQ : Each step Q s cs) : R (final step s cs) (final step' t cs) := by
  induction cs generalizing s t with
  | nil => exact h0
  | cons c cs ih =>
    obtain ⟨hc, hcs⟩ := (each_cons c cs).mp hQ
    exact ih (hstep s t c hc h0) hcs

variable {τ κ ρ' : Type*} {step' : τ → κ → ρ' × τ}

/-- A machine that contains another one, call by call, contains its runs. -/
theorem final_map {proj : σ → τ} {f : ι → κ}
    (h : ∀ s c, proj (step s c).2 = (step' (proj s) (f c)).2) (s : σ) (cs : List ι) :
    proj (final step s cs) = final step' (proj s) (cs.map f) := by
  induction cs generalizing s with
  | nil => rfl
  | cons c cs ih =>
    rw [final_cons, ih, h, List.map_cons, final_cons]

/-- Calls that keep a relation to a run without them can be left out of it. -/
theorem final_filter {R : σ → σ → Prop} {p : ι → Bool}
    (hkeep : ∀ s t c, p c = true → R s t → R (step s c).2 (step t c).2)
    (hskip : ∀ s t c, p c = false → R s t → R (step s c).2 t) {t : σ} (h0 : R s t)
    (cs : List ι) : R (final step s cs) (final step t (cs.filter p)) := by
  induction cs generalizing s t with
  | nil => exact h0
  | cons c cs ih =>
    cases hp : p c with
    | true =>
      rw [List.filter_cons_of_pos hp]
      exact ih (hkeep s t c hp h0)
    | false =>
      rw [List.filter_cons_of_neg (by simp [hp])]
      exact ih (hskip s t c hp h0)

/-! ### Logs -/

section

variable {T : Type*}

/-- The calls of a log. -/
def logged (log : List (T × ι × ρ)) : List ι := log.map fun e => e.2.1

/-- The log says who has made which call of a run, and what has been replied. -/
def Recorded (step : σ → ι → ρ × σ) (s : σ) (log : List (T × ι × ρ)) : Prop :=
  log.map Prod.snd = (trace step s (logged log)).map fun e => (e.call, e.result)

theorem recorded_nil : Recorded step s ([] : List (T × ι × ρ)) := rfl

@[simp] theorem logged_append (log log' : List (T × ι × ρ)) :
    logged (log ++ log') = logged log ++ logged log' := List.map_append

/-- Machines that agree on the calls. -/
theorem trace_congr {step' : σ → ι → ρ × σ} {cs : List ι}
    (h : ∀ c ∈ cs, ∀ s, step s c = step' s c) (s : σ) : trace step s cs = trace step' s cs := by
  induction cs generalizing s with
  | nil => rfl
  | cons c cs ih =>
    obtain ⟨hc, hcs⟩ := List.forall_mem_cons.mp h
    rw [trace_cons, trace_cons, ih hcs, event, event, hc]

theorem final_congr {step' : σ → ι → ρ × σ} {cs : List ι}
    (h : ∀ c ∈ cs, ∀ s, step s c = step' s c) (s : σ) : final step s cs = final step' s cs := by
  induction cs generalizing s with
  | nil => rfl
  | cons c cs ih =>
    obtain ⟨hc, hcs⟩ := List.forall_mem_cons.mp h
    rw [final_cons, final_cons, ih hcs, hc]

theorem Recorded.congr {step' : σ → ι → ρ × σ} {log : List (T × ι × ρ)}
    (h : Recorded step s log) (hstep : ∀ c ∈ logged log, ∀ s, step s c = step' s c) :
    Recorded step' s log := by
  rw [Recorded, h, trace_congr hstep]

/-- One more call. -/
theorem Recorded.append {log : List (T × ι × ρ)} (h : Recorded step s log) (t : T) (c : ι) :
    Recorded step s (log ++ [(t, c, (step (final step s (logged log)) c).1)]) := by
  rw [Recorded, logged_append, trace_append, List.map_append, List.map_append, h]
  rfl

end

end Runs
