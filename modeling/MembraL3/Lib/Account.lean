/-
Double-entry accounts.

An `Account G` holds an amount, and records what it has received and what it has
paid out; that the three agree is a field, so no unbalanced account exists.  It
is the purpose common to pools, reserves and allowances, over any commutative
group: amounts modulo `2 ^ 64` are one instance.

* `held_postAll`, `received_postAll`, `paid_postAll` — what a sequence of
  moves does to each column;
* `Tracks` — three counters of a concrete machine are the columns of an account,
  and stay so when both make the same move;
* `tracks_final` — step-by-step tracking gives tracking along whole runs.
-/
import MembraL3.Lib.Runs
import Mathlib.Algebra.Group.Basic
import Mathlib.Tactic.Abel

/-- An account whose columns balance. -/
structure Account (G : Type*) [AddCommGroup G] where
  held : G
  received : G
  paid : G
  balanced : held + paid = received

namespace Account

variable {G : Type*} [AddCommGroup G]

/-- A move of an account. -/
inductive Move (G : Type*) where
  | receive (amount : G)
  | pay (amount : G)
  | idle

namespace Move

/-- What a move brings in. -/
def inflow : Move G → G
  | receive a => a
  | pay _ => 0
  | idle => 0

/-- What a move takes out. -/
def outflow : Move G → G
  | receive _ => 0
  | pay a => a
  | idle => 0

end Move

/-- An account opened with `amount`. -/
def opened (amount : G) : Account G := ⟨amount, amount, 0, add_zero amount⟩

/-- Make a move. -/
def post (a : Account G) (m : Move G) : Account G where
  held := a.held + m.inflow - m.outflow
  received := a.received + m.inflow
  paid := a.paid + m.outflow
  balanced := by rw [← a.balanced]; abel

/-- Make a list of moves. -/
def postAll (a : Account G) (ms : List (Move G)) : Account G := ms.foldl post a

@[simp] theorem postAll_nil (a : Account G) : a.postAll [] = a := rfl

@[simp] theorem postAll_cons (a : Account G) (m : Move G) (ms : List (Move G)) :
    a.postAll (m :: ms) = (a.post m).postAll ms := rfl

theorem received_postAll (a : Account G) (ms : List (Move G)) :
    (a.postAll ms).received = a.received + (ms.map Move.inflow).sum := by
  induction ms generalizing a with
  | nil => simp
  | cons m ms ih =>
    rw [postAll_cons, ih, List.map_cons, List.sum_cons, ← add_assoc]
    rfl

theorem paid_postAll (a : Account G) (ms : List (Move G)) :
    (a.postAll ms).paid = a.paid + (ms.map Move.outflow).sum := by
  induction ms generalizing a with
  | nil => simp
  | cons m ms ih =>
    rw [postAll_cons, ih, List.map_cons, List.sum_cons, ← add_assoc]
    rfl

theorem held_postAll (a : Account G) (ms : List (Move G)) :
    (a.postAll ms).held
      = a.held + (ms.map Move.inflow).sum - (ms.map Move.outflow).sum := by
  have h := (a.postAll ms).balanced
  rw [received_postAll, paid_postAll, ← a.balanced] at h
  rw [← add_left_inj (a.paid + (ms.map Move.outflow).sum), h]
  abel

/-! ### Machines that keep an account -/

/-- Three counters are the columns of an account. -/
structure Tracks (held received paid : G) (a : Account G) : Prop where
  held_eq : held = a.held
  received_eq : received = a.received
  paid_eq : paid = a.paid

theorem Tracks.balanced {held received paid : G} {a : Account G}
    (h : Tracks held received paid a) : held + paid = received := by
  rw [h.held_eq, h.received_eq, h.paid_eq, a.balanced]

theorem Tracks.receive {held received paid : G} {a : Account G} (h : Tracks held received paid a)
    (amount : G) : Tracks (held + amount) (received + amount) paid (a.post (.receive amount)) where
  held_eq := by rw [h.held_eq]; exact (sub_zero _).symm
  received_eq := by rw [h.received_eq]; rfl
  paid_eq := by rw [h.paid_eq]; exact (add_zero _).symm

theorem Tracks.pay {held received paid : G} {a : Account G} (h : Tracks held received paid a)
    (amount : G) : Tracks (held - amount) received (paid + amount) (a.post (.pay amount)) where
  held_eq := by rw [h.held_eq, ← add_zero a.held]; rfl
  received_eq := by rw [h.received_eq]; exact (add_zero _).symm
  paid_eq := by rw [h.paid_eq]; rfl

theorem Tracks.idle {held received paid : G} {a : Account G} (h : Tracks held received paid a) :
    Tracks held received paid (a.post .idle) where
  held_eq := by rw [h.held_eq]; exact ((sub_zero _).trans (add_zero _)).symm
  received_eq := by rw [h.received_eq]; exact (add_zero _).symm
  paid_eq := by rw [h.paid_eq]; exact (add_zero _).symm

variable {σ ι ρ : Type*} {step : σ → ι → ρ × σ}

/-- The moves that a run makes on its account. -/
def moves (move : σ → ι → Move G) (step : σ → ι → ρ × σ) (s : σ) (cs : List ι) :
    List (Move G) :=
  (Runs.trace step s cs).map fun e => move e.before e.call

omit [AddCommGroup G] in
/-- A column of the moves, read off the events. -/
theorem map_moves {M : Type*} {move : σ → ι → Move G} {f : Move G → M}
    {g : Runs.Event σ ι ρ → M} (h : ∀ s c, f (move s c) = g (Runs.event step s c)) (s : σ)
    (cs : List ι) : (moves move step s cs).map f = (Runs.trace step s cs).map g := by
  rw [moves, List.map_map]
  exact List.map_congr_left
    (Runs.forall_trace (G := fun e => f (move e.before e.call) = g e) h s cs)

/-- If every admissible step moves the counters as `move` moves the account, the
counters track the account along every run of admissible steps. -/
theorem tracks_final {held received paid : σ → G} {move : σ → ι → Move G} {Q : σ → ι → Prop}
    (hstep : ∀ s a c, Q s c → Tracks (held s) (received s) (paid s) a →
      Tracks (held (step s c).2) (received (step s c).2) (paid (step s c).2)
        (a.post (move s c)))
    {s : σ} {a : Account G} (h0 : Tracks (held s) (received s) (paid s) a) {cs : List ι}
    (hQ : Runs.Each step Q s cs) :
    Tracks (held (Runs.final step s cs)) (received (Runs.final step s cs))
      (paid (Runs.final step s cs)) (a.postAll (moves move step s cs)) := by
  have h := Runs.final_simulates (R := fun s a => Tracks (held s) (received s) (paid s) a)
    hstep h0 hQ
  rw [postAll, moves, List.foldl_map]
  exact h

end Account
