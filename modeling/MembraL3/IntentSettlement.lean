/-
The settlement of an intent.

`confirm_settlement` takes every intent that is claimed, and an intent stays claimed when
its settlement is confirmed: a later confirmation overwrites the signature.

* `confirmSettlement_eq_true_iff` — which confirmations are accepted;
* `settled_confirm_iff`, `settled_create_iff`, `settled_other` — what a call does to the
  signatures confirmed so far;
* `settledOnce_iff` — the runs in which a settlement, once confirmed, stays as it is;
* `settledOnce_iff_of_createsFit` — the same where no id is used again.
-/
import MembraL3.IntentNetwork

namespace Membra

namespace IntentNetwork

open Runs

/-! ### Confirmations -/

variable {network : IntentNetwork} {id tx : String} {pre : List Call}

/-- Exactly the claimed intents can be confirmed. -/
theorem confirmSettlement_eq_true_iff (network : IntentNetwork) (id tx : String) :
    (network.confirmSettlement id tx).1 = true ↔
      ∃ intent, network.intents.lookup id = some intent ∧ intent.status = .claimed := by
  rw [confirmSettlement]
  cases hlookup : network.intents.lookup id with
  | none => simp
  | some intent =>
    by_cases hclaimed : intent.status = .claimed
    · simp [hclaimed]
    · simp [hclaimed]

/-- The run has confirmed the intent with this signature. -/
def Confirmed (calls : List Call) (id tx : String) : Prop :=
  ∃ pre, pre ++ [.confirmSettlement id tx] <+: calls ∧
    ((final step new pre).confirmSettlement id tx).1 = true

theorem not_confirmed_nil : ¬ Confirmed [] id tx := by
  rintro ⟨pre, hpre, _⟩
  exact absurd (List.prefix_nil.mp hpre) (by simp)

theorem confirmed_append_singleton_iff (pre : List Call) (c : Call) (id tx : String) :
    Confirmed (pre ++ [c]) id tx ↔ Confirmed pre id tx ∨
      c = .confirmSettlement id tx ∧ ((final step new pre).confirmSettlement id tx).1 = true := by
  constructor
  · rintro ⟨mid, hmid, hok⟩
    rcases List.prefix_concat_iff.mp hmid with heq | hbefore
    · obtain ⟨rfl, hc⟩ := List.append_inj' heq rfl
      obtain rfl : Call.confirmSettlement id tx = c := List.singleton_inj.mp hc
      exact .inr ⟨rfl, hok⟩
    · exact .inl ⟨mid, hbefore, hok⟩
  · rintro (⟨mid, hmid, hok⟩ | ⟨rfl, hok⟩)
    · exact ⟨mid, hmid.trans (List.prefix_append pre [c]), hok⟩
    · exact ⟨pre, List.prefix_refl _, hok⟩

/-- A call that is no confirmation confirms nothing. -/
theorem confirmed_append_iff_of_ne {c : Call} (h : ∀ id tx, c ≠ .confirmSettlement id tx) :
    Confirmed (pre ++ [c]) id tx ↔ Confirmed pre id tx := by
  rw [confirmed_append_singleton_iff, or_iff_left]
  exact fun hnow => h id tx hnow.1

/-! ### The recorded signatures -/

/-- Every signature confirmed is the one that its intent has. -/
def Settled (calls : List Call) : Prop :=
  ∀ id tx, Confirmed calls id tx →
    ∃ intent, (final step new calls).intents.lookup id = some intent ∧ intent.settlementTx = tx

/-- Nothing but a confirmation writes the signature of a stored intent. -/
theorem Moves.settlementTx_eq {call : Call} {intent intent' : PaymentIntent}
    (h : Moves id call intent intent') (hcall : ∀ tx, call ≠ .confirmSettlement id tx) :
    intent'.settlementTx = intent.settlementTx := by
  cases h with
  | kept => rfl
  | claimed => rfl
  | confirmed txSignature => exact absurd rfl (hcall txSignature)
  | expired => rfl

/-- A call that neither confirms nor creates leaves the signatures. -/
theorem settled_other {c : Call} (h : Settled pre) (hcreates : c.creates = false)
    (hconfirms : ∀ id tx, c ≠ .confirmSettlement id tx) : Settled (pre ++ [c]) := by
  intro id tx hconfirmed
  rw [confirmed_append_iff_of_ne hconfirms] at hconfirmed
  obtain ⟨intent, hlookup, htx⟩ := h id tx hconfirmed
  obtain ⟨intent', hlookup', hmoves⟩ :=
    evolves_step (fresh_of_not_creates hcreates) id intent hlookup
  rw [final_append, final_cons, final_nil]
  exact ⟨intent', hlookup', (hmoves.settlementTx_eq (hconfirms id)).trans htx⟩

/-- A call that stores an intent under the id leaves the other signatures. -/
theorem settled_assign_iff {c : Call} (h : Settled pre) {stored : PaymentIntent}
    (hassign : (step (final step new pre) c).2.intents
      = (final step new pre).intents.assign id stored)
    (hothers : ∀ id' tx, id' ≠ id → (Confirmed (pre ++ [c]) id' tx ↔ Confirmed pre id' tx)) :
    Settled (pre ++ [c]) ↔ ∀ tx, Confirmed (pre ++ [c]) id tx → stored.settlementTx = tx := by
  rw [Settled, final_append, final_cons, final_nil, hassign]
  constructor
  · intro hsettled tx hconfirmed
    obtain ⟨intent, hlookup, htx⟩ := hsettled id tx hconfirmed
    rw [Store.lookup_assign_self] at hlookup
    rw [← Option.some.inj hlookup] at htx
    exact htx
  · intro hstored id' tx hconfirmed
    by_cases hid : id' = id
    · subst hid
      exact ⟨stored, Store.lookup_assign_self .., hstored tx hconfirmed⟩
    · rw [Store.lookup_assign_ne _ _ hid]
      exact h id' tx ((hothers id' tx hid).mp hconfirmed)

/-- A claimed intent is confirmed again only with the signature that it has; an id is
used again only where the signature confirmed for it was empty. -/
def KeepsSettled (pre : List Call) : Call → Prop
  | .confirmSettlement id tx' =>
    (∃ intent, (final step new pre).intents.lookup id = some intent ∧ intent.status = .claimed) →
      ∀ tx, Confirmed pre id tx → tx' = tx
  | .createIntent .. =>
    ∀ tx, Confirmed pre (intentId (final step new pre).intentCounter.toNat) tx → tx = ""
  | _ => True

theorem settled_confirm_iff (h : Settled pre) (id tx' : String) :
    Settled (pre ++ [.confirmSettlement id tx']) ↔ KeepsSettled pre (.confirmSettlement id tx') := by
  have hok := confirmSettlement_eq_true_iff (final step new pre) id tx'
  rw [KeepsSettled, ← hok]
  rcases confirmSettlement_cases (final step new pre) id tx' with ⟨intent, _, _, heq⟩ | heq
  · have hassign : (step (final step new pre) (.confirmSettlement id tx')).2.intents
        = (final step new pre).intents.assign id { intent with settlementTx := tx' } := by
      simp only [step, heq]
      rfl
    have hothers : ∀ id' tx, id' ≠ id →
        (Confirmed (pre ++ [.confirmSettlement id tx']) id' tx ↔ Confirmed pre id' tx) := by
      intro id' tx hne
      rw [confirmed_append_singleton_iff, or_iff_left]
      rintro ⟨hcall, _⟩
      exact hne (Call.confirmSettlement.inj hcall).1.symm
    rw [settled_assign_iff h hassign hothers, heq, forall_prop_of_true rfl]
    constructor
    · intro hstored tx hconfirmed
      exact hstored tx ((confirmed_append_singleton_iff ..).mpr (.inl hconfirmed))
    · intro hsame tx hconfirmed
      rcases (confirmed_append_singleton_iff ..).mp hconfirmed with hbefore | ⟨hcall, _⟩
      · exact hsame tx hbefore
      · exact (Call.confirmSettlement.inj hcall).2
  · -- a refusal confirms nothing and writes nothing
    have hrefused : ¬ ((final step new pre).confirmSettlement id tx').1 = true := by
      rw [heq]
      exact Bool.false_ne_true
    refine iff_of_true ?_ (fun hok => absurd hok hrefused)
    intro id' tx hconfirmed
    have hsame : (step (final step new pre) (.confirmSettlement id tx')).2
        = final step new pre := by
      simp only [step, heq]
    rw [final_append, final_cons, final_nil, hsame]
    rcases (confirmed_append_singleton_iff ..).mp hconfirmed with hbefore | ⟨hcall, hok⟩
    · exact h id' tx hbefore
    · obtain ⟨rfl, rfl⟩ := Call.confirmSettlement.inj hcall
      exact absurd hok hrefused

theorem settled_create_iff (h : Settled pre) (sender receiver token : String) (amount : UInt64)
    (signature : String) (now : Seconds) :
    Settled (pre ++ [.createIntent sender receiver token amount signature now]) ↔
      KeepsSettled pre (.createIntent sender receiver token amount signature now) := by
  have hconfirms : ∀ id tx,
      Call.createIntent sender receiver token amount signature now ≠ .confirmSettlement id tx := by
    intro id tx hcall
    cases hcall
  have hcreated : created (final step new pre)
      (.createIntent sender receiver token amount signature now)
        = some ((final step new pre).createIntent sender receiver token amount signature now).1 :=
    rfl
  rw [settled_assign_iff h (intents_of_created hcreated).2
    (fun _ _ _ => confirmed_append_iff_of_ne hconfirms), KeepsSettled]
  refine forall_congr' fun tx => ?_
  rw [confirmed_append_iff_of_ne hconfirms]
  exact imp_congr_right fun _ => eq_comm

/-! ### Runs -/

/-- Once a confirmation was accepted, the intent keeps its signature, and no confirmation
with another signature is accepted. -/
structure SettledOnce (calls : List Call) : Prop where
  keeps : ∀ pre, pre <+: calls → ∀ id tx, Confirmed pre id tx →
    ∃ intent, (final step new pre).intents.lookup id = some intent ∧ intent.settlementTx = tx
  refuses : ∀ pre id tx tx', pre ++ [.confirmSettlement id tx'] <+: calls → Confirmed pre id tx →
    tx' ≠ tx → ((final step new pre).confirmSettlement id tx').1 = false

/-- The signatures that the intents have tell what was confirmed. -/
theorem settledOnce_iff_settled (calls : List Call) :
    SettledOnce calls ↔ ∀ pre, pre <+: calls → Settled pre := by
  constructor
  · intro honce
    exact honce.keeps
  · intro hsettled
    refine ⟨hsettled, ?_⟩
    intro pre id tx tx' hpre hconfirmed hne
    by_contra hok
    rw [Bool.not_eq_false] at hok
    obtain ⟨intent, hlookup, htx⟩ :=
      hsettled _ hpre id tx ((confirmed_append_singleton_iff ..).mpr (.inl hconfirmed))
    obtain ⟨intent', hlookup', htx'⟩ :=
      hsettled _ hpre id tx' ((confirmed_append_singleton_iff ..).mpr (.inr ⟨rfl, hok⟩))
    obtain rfl : intent = intent' := Option.some.inj (hlookup.symm.trans hlookup')
    exact hne (htx'.symm.trans htx)

theorem settled_iff_keepsSettled (calls : List Call) :
    (∀ pre, pre <+: calls → Settled pre) ↔
      ∀ pre c, pre ++ [c] <+: calls → KeepsSettled pre c := by
  refine forall_prefix_iff (fun id tx h => absurd h not_confirmed_nil) ?_
  intro pre c _ hpast
  have h := hpast pre (List.prefix_refl pre)
  cases c with
  | createIntent sender receiver token amount signature now =>
    exact settled_create_iff h sender receiver token amount signature now
  | confirmSettlement id tx' => exact settled_confirm_iff h id tx'
  | claimIntent id claimer checkNow claimNow =>
    exact iff_of_true (settled_other h rfl (by simp)) trivial
  | getIntent id => exact iff_of_true (settled_other h rfl (by simp)) trivial
  | expireIntents now => exact iff_of_true (settled_other h rfl (by simp)) trivial
  | pendingCount => exact iff_of_true (settled_other h rfl (by simp)) trivial

/-- In a run a settlement, once confirmed, is final iff no step confirms a claimed intent
with another signature than before, or takes its id for a new intent. -/
theorem settledOnce_iff (calls : List Call) :
    SettledOnce calls ↔ ∀ pre c, pre ++ [c] <+: calls → KeepsSettled pre c :=
  (settledOnce_iff_settled calls).trans (settled_iff_keepsSettled calls)

/-- A stored intent stays stored. -/
theorem mem_step_of_mem (network : IntentNetwork) (call : Call) (h : id ∈ network.intents) :
    id ∈ (step network call).2.intents := by
  cases hcreates : call.creates with
  | false => exact (mem_step hcreates).mpr h
  | true =>
    obtain ⟨made, hmade⟩ := created_eq_some_iff.mpr hcreates
    rw [(intents_of_created hmade).2, Store.mem_assign]
    exact .inr h

theorem mem_of_confirmed (h : Confirmed pre id tx) : id ∈ (final step new pre).intents := by
  obtain ⟨mid, ⟨post, rfl⟩, hok⟩ := h
  obtain ⟨intent, hlookup, _⟩ := (confirmSettlement_eq_true_iff _ id tx).mp hok
  rw [List.append_assoc, final_append]
  exact final_invariant mem_step_of_mem (Store.mem_of_lookup hlookup) _

/-- Where the ids do not run out, the confirmations alone decide. -/
theorem settledOnce_iff_of_createsFit {calls : List Call} (hcreates : CreatesFit calls) :
    SettledOnce calls ↔ ∀ pre id tx', pre ++ [.confirmSettlement id tx'] <+: calls →
      KeepsSettled pre (.confirmSettlement id tx') := by
  have hfresh := each_iff_forall.mp (each_fresh_new hcreates)
  have hall : (∀ pre c, pre ++ [c] <+: calls → KeepsSettled pre c) ↔
      ∀ pre id tx', pre ++ [.confirmSettlement id tx'] <+: calls →
        KeepsSettled pre (.confirmSettlement id tx') := by
    constructor
    · intro h pre id tx' hpre
      exact h pre (.confirmSettlement id tx') hpre
    · intro h pre c hpre
      cases c with
      | confirmSettlement id tx' => exact h pre id tx' hpre
      | createIntent sender receiver token amount signature now =>
        intro tx hconfirmed
        exact absurd (mem_of_confirmed hconfirmed) (hfresh pre _ hpre rfl)
      | _ => trivial
  refine Iff.trans ?_ hall
  exact settledOnce_iff_settled calls |>.trans (settled_iff_keepsSettled calls)

/-- Two relayers confirm one claimed intent. -/
def confirmedTwice : List Call :=
  [.createIntent "alice" "bob" "SOL" 5 "sig" 0, .claimIntent "int_1" "relayer" 1 1,
    .confirmSettlement "int_1" "tx_1", .confirmSettlement "int_1" "tx_2"]

theorem not_forall_settledOnce : ¬ ∀ calls : List Call, SettledOnce calls := by
  intro h
  have hfirst : Confirmed (confirmedTwice.take 3) "int_1" "tx_1" :=
    ⟨confirmedTwice.take 2, List.prefix_refl _, by decide +kernel⟩
  have hrefused := (h confirmedTwice).refuses (confirmedTwice.take 3) "int_1" "tx_1" "tx_2"
    (List.prefix_refl _) hfirst (by decide)
  revert hrefused
  decide +kernel

end IntentNetwork

end Membra
