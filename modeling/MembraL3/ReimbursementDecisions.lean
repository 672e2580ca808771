/-
Finality of reimbursement decisions.

`approve_reimbursement` and `reject_reimbursement` look at a record's status
before they decide; `submit_request` and `process_request` do not, and put a
decided record back to pending.

* `keepsDecisions_step` — every other operation keeps the decisions made;
* `approvals_le_one` — while they are kept, an id is approved at most once;
* `decisionsFinal_iff_respectsDecisions` — the decisions of a run are final iff it
  never submits or processes the id of a decided record.
-/
import MembraL3.GasReimbursement

namespace Membra

namespace GasReimbursementManager

open Runs

/-- Every decided record of the first manager has the same status and amounts in
the second. -/
def KeepsDecisions (manager manager' : GasReimbursementManager) : Prop :=
  ∀ id record, manager.records.lookup id = some record → record.status.IsDecided →
    ∃ record', manager'.records.lookup id = some record' ∧ record'.status = record.status ∧
      record'.reimbursedAmount = record.reimbursedAmount ∧
      record'.bonusAmount = record.bonusAmount ∧ record'.totalAmount = record.totalAmount

theorem KeepsDecisions.refl (manager : GasReimbursementManager) : KeepsDecisions manager manager :=
  fun _ record h _ => ⟨record, h, rfl, rfl, rfl, rfl⟩

theorem KeepsDecisions.trans (m m' m'' : GasReimbursementManager) (h : KeepsDecisions m m')
    (h' : KeepsDecisions m' m'') : KeepsDecisions m m'' := by
  intro id record hrecord hdecided
  obtain ⟨record', hrecord', hstatus, hreimbursed, hbonus, htotal⟩ := h id record hrecord hdecided
  obtain ⟨record'', hrecord'', hstatus', hreimbursed', hbonus', htotal'⟩ :=
    h' id record' hrecord' (by rwa [hstatus])
  exact ⟨record'', hrecord'', hstatus'.trans hstatus, hreimbursed'.trans hreimbursed,
    hbonus'.trans hbonus, htotal'.trans htotal⟩

/-- Overwriting a record that is not decided keeps the decisions. -/
theorem keepsDecisions_assign {manager manager' : GasReimbursementManager} {id : String}
    {new : ReimbursementRecord}
    (hopen : ∀ record, manager.records.lookup id = some record → ¬ record.status.IsDecided)
    (hassign : manager'.records = manager.records.assign id new) :
    KeepsDecisions manager manager' := by
  intro id' record hrecord hdecided
  have hne : id' ≠ id := by
    rintro rfl
    exact hopen record hrecord hdecided
  refine ⟨record, ?_, rfl, rfl, rfl, rfl⟩
  rw [hassign, Store.lookup_assign_ne _ _ hne, hrecord]

/-- The call does not submit or process the id of a decided record. -/
def RespectsDecisions (manager : GasReimbursementManager) : Call → Prop
  | .submitRequest request nowMs _ => ∀ record,
      manager.records.lookup (effectiveId request nowMs) = some record →
        ¬ record.status.IsDecided
  | .processRequest requestId _ => ∀ record,
      manager.records.lookup requestId = some record → ¬ record.status.IsDecided
  | _ => True

theorem keepsDecisions_step (manager : GasReimbursementManager) (c : Call)
    (hc : RespectsDecisions manager c) : KeepsDecisions manager (step manager c).2 := by
  rcases step_cases manager c with ⟨hsame, _⟩ | ⟨request, nowMs, now, rfl, _⟩ |
    ⟨requestId, request, now, rfl, _, hprocess⟩ |
    ⟨requestId, signature, now, record, rfl, hrecord, hopen, _, happrove⟩ |
    ⟨requestId, reason, now, record, rfl, hrecord, happroved, _, hreject⟩
  · rw [hsame]
    exact KeepsDecisions.refl manager
  · have hassign : (step manager (.submitRequest request nowMs now)).2.records
        = manager.records.assign (effectiveId request nowMs)
          (initialRecord request (effectiveId request nowMs)) := rfl
    exact keepsDecisions_assign hc hassign
  · have hassign := congrArg GasReimbursementManager.records hprocess
    exact keepsDecisions_assign hc hassign
  · have hopen' : ∀ record', manager.records.lookup requestId = some record' →
        ¬ record'.status.IsDecided := by
      intro record' hrecord'
      obtain rfl : record = record' := Option.some.inj (hrecord.symm.trans hrecord')
      exact hopen.not_isDecided
    have hassign := congrArg GasReimbursementManager.records happrove
    exact keepsDecisions_assign hopen' hassign
  · -- a rejected record may be rejected again
    intro id record' hrecord' hdecided
    rw [hreject, Store.lookup_assign]
    by_cases hid : id = requestId
    · subst hid
      obtain rfl : record = record' := Option.some.inj (hrecord.symm.trans hrecord')
      have hrejected : record.status = .rejected := hdecided.resolve_left happroved
      exact ⟨rejectedRecord record reason now, if_pos rfl, hrejected.symm, rfl, rfl, rfl⟩
    · rw [if_neg hid]
      exact ⟨record', hrecord', rfl, rfl, rfl, rfl⟩

/-- A submission or processing of a decided record undoes the decision. -/
theorem respectsDecisions_of_keepsDecisions {manager : GasReimbursementManager}
    (hids : SameIds manager) {c : Call}
    (h : KeepsDecisions manager (step manager c).2) : RespectsDecisions manager c := by
  cases c with
  | submitRequest request nowMs now =>
    intro record hrecord hdecided
    obtain ⟨record', hrecord', hstatus, _⟩ := h _ record hrecord hdecided
    have hnew : (step manager (.submitRequest request nowMs now)).2.records.lookup
        (effectiveId request nowMs) = some (initialRecord request (effectiveId request nowMs)) :=
      Store.lookup_assign_self ..
    obtain rfl := Option.some.inj (hrecord'.symm.trans hnew)
    rw [← hstatus] at hdecided
    exact absurd hdecided (ReimbursementStatus.IsOpen.not_isDecided (.inl rfl))
  | processRequest requestId now =>
    intro record hrecord hdecided
    obtain ⟨record', hrecord', hstatus, _⟩ := h _ record hrecord hdecided
    obtain ⟨request, hprocess⟩ := step_processRequest_of_lookup hids hrecord now
    rw [hprocess, Store.lookup_assign_self] at hrecord'
    obtain rfl := Option.some.inj hrecord'
    rw [← hstatus] at hdecided
    exact absurd hdecided (ReimbursementStatus.IsOpen.not_isDecided (.inr rfl))
  | _ => trivial

/-! ### Approvals -/

/-- The call approved the id. -/
def approves (id : String) (e : Event GasReimbursementManager Call Reply) : Bool :=
  match e.call, e.result with
  | .approveReimbursement requestId _ _, .approved true => requestId = id
  | _, _ => false

/-- How often a run approved the id. -/
def approvals (id : String) (events : List (Event GasReimbursementManager Call Reply)) : ℕ :=
  events.countP (approves id)

theorem approvals_append_singleton (id : String) (pre : List Call) (c : Call) :
    approvals id (trace step new (pre ++ [c]))
      = approvals id (trace step new pre)
        + if approves id (event step (final step new pre) c) then 1 else 0 := by
  rw [trace_append, approvals, List.countP_append, trace_cons, trace_nil, List.countP_singleton]
  rfl

/-- An approval finds an open record and leaves it approved. -/
theorem lookup_of_approves {manager : GasReimbursementManager} {c : Call} {id : String}
    (h : approves id (event step manager c) = true) :
    ∃ record record', manager.records.lookup id = some record ∧ record.status.IsOpen ∧
      (step manager c).2.records.lookup id = some record' ∧ record'.status = .approved := by
  rcases step_cases manager c with ⟨_, hnot⟩ | ⟨request, nowMs, now, rfl, _⟩ |
    ⟨requestId, request, now, rfl, _⟩ |
    ⟨requestId, signature, now, record, rfl, hrecord, hopen, hok, happrove⟩ |
    ⟨requestId, reason, now, record, rfl, _⟩
  · rw [approves] at h
    split at h
    · exact absurd ‹_› hnot
    · exact absurd h (by decide)
  · exact absurd h (by simp [approves])
  · exact absurd h (by simp [approves])
  · obtain rfl : requestId = id := by
      rw [approves, event_call, event_result, hok] at h
      exact of_decide_eq_true h
    refine ⟨record, approvedRecord record signature now, hrecord, hopen, ?_, rfl⟩
    rw [happrove]
    exact Store.lookup_assign_self ..
  · exact absurd h (by simp [approves])

/-- While decisions are kept, an id is approved at most once, and its record says
so. -/
theorem approvals_le_one {calls : List Call} (hkeep : Each step RespectsDecisions new calls)
    (id : String) :
    approvals id (trace step new calls) ≤ 1 ∧
    (approvals id (trace step new calls) = 1 →
      ∃ record, (final step new calls).records.lookup id = some record ∧
        record.status = .approved) := by
  induction calls using List.reverseRecOn with
  | nil => exact ⟨Nat.zero_le 1, fun h => absurd h Nat.zero_ne_one⟩
  | append_singleton pre c ih =>
    rw [each_append, each_cons] at hkeep
    obtain ⟨hpre, hc, _⟩ := hkeep
    obtain ⟨hle, happroved⟩ := ih hpre
    rw [approvals_append_singleton, final_append, final_cons, final_nil]
    by_cases h : approves id (event step (final step new pre) c) = true
    · obtain ⟨record, record', hrecord, hopen, hrecord', hstatus⟩ := lookup_of_approves h
      -- the record was open, so nothing had approved it
      have hfirst : approvals id (trace step new pre) ≠ 1 := by
        intro hone
        obtain ⟨record'', hrecord'', hstatus''⟩ := happroved hone
        obtain rfl : record = record'' := Option.some.inj (hrecord.symm.trans hrecord'')
        exact hopen.not_isDecided (.inl hstatus'')
      rw [if_pos h]
      exact ⟨by omega, fun _ => ⟨record', hrecord', hstatus⟩⟩
    · rw [if_neg h]
      refine ⟨hle, ?_⟩
      intro hone
      obtain ⟨record, hrecord, hstatus⟩ := happroved hone
      obtain ⟨record', hrecord', hsame, _⟩ :=
        keepsDecisions_step _ c hc id record hrecord (.inl hstatus)
      exact ⟨record', hrecord', hsame.trans hstatus⟩

/-! ### Finality -/

/-- In the run, no decided record ever changes its status or amounts, and no id is
approved twice. -/
def DecisionsFinal (calls : List Call) : Prop :=
  (∀ pre mid post, calls = pre ++ mid ++ post →
    KeepsDecisions (final step new pre) (final step new (pre ++ mid))) ∧
  ∀ id, approvals id (trace step new calls) ≤ 1

/-- Decisions are final in a run iff none of its steps submits or processes the id of
a decided record. -/
theorem decisionsFinal_iff_respectsDecisions (calls : List Call) :
    DecisionsFinal calls ↔ Each step RespectsDecisions new calls := by
  constructor
  · intro hfinal
    rw [each_iff_forall]
    rintro pre c ⟨post, hcalls⟩
    have hkeeps := hfinal.1 pre [c] post hcalls.symm
    rw [final_append] at hkeeps
    exact respectsDecisions_of_keepsDecisions (sameIds_final pre) hkeeps
  · intro hkeep
    refine ⟨?_, fun id => (approvals_le_one hkeep id).1⟩
    rintro pre mid post rfl
    have hmid := hkeep.between (List.prefix_append (pre ++ mid) post)
    rw [final_append]
    exact final_rel KeepsDecisions.refl KeepsDecisions.trans keepsDecisions_step hmid

/-- A request is approved, processed again and approved again. -/
def approveTwice : List Call :=
  [.submitRequest { ReimbursementRequest.default with
      requestId := "req_1", walletAddress := "wallet_123", gasCost := 5000 } 0 0,
    .processRequest "req_1" 1, .approveReimbursement "req_1" "signature" 2,
    .processRequest "req_1" 3, .approveReimbursement "req_1" "signature" 4]

theorem not_forall_decisionsFinal : ¬ ∀ calls : List Call, DecisionsFinal calls := by
  intro h
  have htwice := (h approveTwice).2 "req_1"
  revert htwice
  decide +kernel

end GasReimbursementManager

end Membra
