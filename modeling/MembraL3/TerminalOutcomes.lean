/-
Outcomes that are final.

`complete_recovery` asks for a verified request, and `verify_recovery_request` for
none: it takes a completed one back to `verified`, and then it can be completed
again.  Decisions of the governance are no more protected (`DecidesOnce`).

* `movesForward_step_iff` — the calls that move a recovery forward or not at all;
* `countP_completes_le_one` — where all do, none is completed twice;
* `outcomesTerminal_iff` — the runs with final outcomes, of either service.
-/
import MembraL3.PreservationGovernance
import MembraL3.WalletRecovery

namespace Membra

namespace WalletRecoveryService

open Runs

/-- The status of a request, `none` before there is one. -/
def statusOf (service : WalletRecoveryService) (recoveryId : String) : Option RecoveryState :=
  (service.recoveryRequests.lookup recoveryId).map RecoveryStatus.status

/-- A request appears as pending, is then verified, and then completed. -/
def Forward (before after : Option RecoveryState) : Prop :=
  before = after ∨ (before = none ∧ after = some .pending) ∨
    (before = some .pending ∧ after = some .verified) ∨
    (before = some .verified ∧ after = some .completed)

instance (before after : Option RecoveryState) : Decidable (Forward before after) :=
  inferInstanceAs (Decidable (_ ∨ _))

/-- No request goes back, and none skips a status. -/
def MovesForward (service service' : WalletRecoveryService) : Prop :=
  ∀ recoveryId, Forward (service.statusOf recoveryId) (service'.statusOf recoveryId)

theorem MovesForward.refl (service : WalletRecoveryService) : MovesForward service service :=
  fun _ => .inl rfl

/-- No completed request is verified, and no verified or completed one is initiated
again. -/
def VerifiesOpen (service : WalletRecoveryService) : Call → Prop
  | .initiateRecovery _ idNow _ =>
    ∀ status ∈ service.statusOf (recoveryId idNow), status = .pending
  | .verifyRecoveryRequest id _ =>
    ∀ status ∈ service.statusOf id, status = .pending ∨ status = .verified
  | _ => True

/-- The stored requests have one of the three statuses. -/
def StatusesKnown (service : WalletRecoveryService) : Prop :=
  ∀ recoveryId, service.statusOf recoveryId ≠ some .notFound

theorem statusOf_assign {service service' : WalletRecoveryService} {id : String}
    {status : RecoveryStatus}
    (hassign : service'.recoveryRequests = service.recoveryRequests.assign id status)
    (other : String) :
    service'.statusOf other =
      if other = id then some status.status else service.statusOf other := by
  rw [statusOf, hassign, Store.lookup_assign]
  by_cases hother : other = id
  · rw [if_pos hother, if_pos hother, Option.map_some]
  · rw [if_neg hother, if_neg hother, statusOf]

/-- A write moves forward iff the request that it writes does. -/
theorem movesForward_assign_iff {service service' : WalletRecoveryService} {id : String}
    {status : RecoveryStatus}
    (hassign : service'.recoveryRequests = service.recoveryRequests.assign id status) :
    MovesForward service service' ↔ Forward (service.statusOf id) (some status.status) := by
  constructor
  · intro h
    have hid := h id
    rw [statusOf_assign hassign, if_pos rfl] at hid
    exact hid
  · intro h other
    rw [statusOf_assign hassign]
    by_cases hother : other = id
    · rw [if_pos hother, hother]
      exact h
    · rw [if_neg hother]
      exact .inl rfl

/-- What verifies a request, and what it makes of its status. -/
theorem verifyRecoveryRequest_cases (sha256 : Sha256) (service : WalletRecoveryService)
    (id : String) (now : Nanoseconds) :
    (service.statusOf id = none ∧
      (step sha256 service (.verifyRecoveryRequest id now)).2 = service) ∨
    ∃ status, service.recoveryRequests.lookup id = some status ∧
      (step sha256 service (.verifyRecoveryRequest id now)).2.recoveryRequests
        = service.recoveryRequests.assign id
            { status with status := .verified, completedAt := some now } := by
  rw [step, verifyRecoveryRequest, statusOf]
  cases service.recoveryRequests.lookup id with
  | none => exact .inl ⟨rfl, rfl⟩
  | some status => exact .inr ⟨status, rfl, rfl⟩

/-- A completion fails and changes nothing, or completes a verified request. -/
theorem completeRecovery_cases (sha256 : Sha256) (service : WalletRecoveryService)
    (id key : String) (now : Nanoseconds) :
    ((step sha256 service (.completeRecovery id key now)).1 = .completed false ∧
      (step sha256 service (.completeRecovery id key now)).2 = service) ∨
    ∃ status, service.statusOf id = some .verified ∧ status.status = .completed ∧
      (step sha256 service (.completeRecovery id key now)).2.recoveryRequests
        = service.recoveryRequests.assign id status := by
  rw [step, completeRecovery, statusOf]
  cases service.recoveryRequests.lookup id with
  | none => exact .inl ⟨rfl, rfl⟩
  | some status =>
    by_cases hverified : status.status = .verified
    · simp only [hverified, ne_eq, not_true_eq_false, if_false]
      cases validateRecoveryKey key with
      | false => exact .inl ⟨rfl, rfl⟩
      | true =>
        refine .inr ⟨_, ?_, rfl, rfl⟩
        rw [Option.map_some, hverified]
    · simp only [ne_eq, hverified, not_false_eq_true, if_true]
      exact .inl ⟨rfl, rfl⟩

theorem statusesKnown_assign {service service' : WalletRecoveryService} {id : String}
    {status : RecoveryStatus} (h : StatusesKnown service) (hstatus : status.status ≠ .notFound)
    (hassign : service'.recoveryRequests = service.recoveryRequests.assign id status) :
    StatusesKnown service' := by
  intro other
  rw [statusOf_assign hassign]
  by_cases hother : other = id
  · rw [if_pos hother]
    intro hnotFound
    exact hstatus (Option.some_inj.mp hnotFound)
  · rw [if_neg hother]
    exact h other

theorem statusesKnown_step (sha256 : Sha256) (service : WalletRecoveryService) (c : Call)
    (h : StatusesKnown service) : StatusesKnown (step sha256 service c).2 := by
  cases c with
  | initiateRecovery recordId idNow stampNow => exact statusesKnown_assign h (by simp) rfl
  | verifyRecoveryRequest id now =>
    rcases verifyRecoveryRequest_cases sha256 service id now with ⟨_, hsame⟩ | ⟨status, _, hassign⟩
    · rw [hsame]
      exact h
    · exact statusesKnown_assign h (by simp) hassign
  | completeRecovery id key now =>
    rcases completeRecovery_cases sha256 service id key now with ⟨_, hsame⟩ |
      ⟨status, _, hstatus, hassign⟩
    · rw [hsame]
      exact h
    · exact statusesKnown_assign h (by simp [hstatus]) hassign
  | _ => exact h

theorem movesForward_step_iff (sha256 : Sha256) {service : WalletRecoveryService}
    (h : StatusesKnown service) (c : Call) :
    MovesForward service (step sha256 service c).2 ↔ VerifiesOpen service c := by
  cases c with
  | initiateRecovery recordId idNow stampNow =>
    refine (movesForward_assign_iff rfl).trans ?_
    show Forward (service.statusOf (recoveryId idNow)) (some .pending) ↔ _
    rw [VerifiesOpen]
    rcases service.statusOf (recoveryId idNow) with _ | _ | _ | _ | _
    all_goals simp [Forward]
  | verifyRecoveryRequest id now =>
    rcases verifyRecoveryRequest_cases sha256 service id now with ⟨hnone, hsame⟩ |
      ⟨status, hlookup, hassign⟩
    · rw [hsame, VerifiesOpen, hnone]
      exact iff_of_true (MovesForward.refl service) (fun _ hmem => absurd hmem (by simp))
    · refine (movesForward_assign_iff hassign).trans ?_
      have hstatus : service.statusOf id = some status.status := by
        rw [statusOf, hlookup, Option.map_some]
      have hknown := h id
      rw [VerifiesOpen, hstatus]
      rw [hstatus] at hknown
      revert hknown
      cases status.status with
      | _ => simp [Forward]
  | completeRecovery id key now =>
    -- the code asks for a verified request itself
    refine iff_of_true ?_ trivial
    rcases completeRecovery_cases sha256 service id key now with ⟨_, hsame⟩ |
      ⟨status, hverified, hstatus, hassign⟩
    · rw [hsame]
      exact MovesForward.refl service
    · refine (movesForward_assign_iff hassign).mpr ?_
      rw [hverified, hstatus]
      exact .inr (.inr (.inr ⟨rfl, rfl⟩))
  | _ => exact iff_of_true (MovesForward.refl service) trivial

/-- The event completes the request. -/
def completes (id : String) (e : Event WalletRecoveryService Call Reply) : Bool :=
  match e.call, e.result with
  | .completeRecovery recoveryId _ _, .completed ok => recoveryId = id ∧ ok
  | _, _ => false

/-- Only a verified request is completed, and it is completed then. -/
theorem of_completes {sha256 : Sha256} {service : WalletRecoveryService} {c : Call} {id : String}
    (h : completes id (event (step sha256) service c) = true) :
    service.statusOf id = some .verified ∧
      (step sha256 service c).2.statusOf id = some .completed := by
  cases c with
  | completeRecovery recoveryId key now =>
    rcases completeRecovery_cases sha256 service recoveryId key now with ⟨hfails, _⟩ |
      ⟨status, hverified, hstatus, hassign⟩
    · rw [completes, event_call, event_result, hfails] at h
      exact absurd h (by simp)
    · have hid : recoveryId = id ∧ _ := of_decide_eq_true h
      obtain ⟨rfl, -⟩ := hid
      refine ⟨hverified, ?_⟩
      rw [statusOf_assign hassign, if_pos rfl, hstatus]
  | _ => exact absurd h (by simp [completes])

/-- In a run that only moves forward, no request is completed twice. -/
theorem countP_completes_le_one {sha256 : Sha256} {calls : List Call}
    (h : Each (step sha256) (fun service c => MovesForward service (step sha256 service c).2)
      new calls) (id : String) :
    (trace (step sha256) new calls).countP (completes id) ≤ 1 := by
  have hneeds : ∀ service c, MovesForward service (step sha256 service c).2 →
      completes id (event (step sha256) service c) = true →
      ¬ service.statusOf id = some .completed := by
    intro service c _ hcompletes hdone
    have hverified := (of_completes hcompletes).1
    rw [hdone] at hverified
    exact absurd hverified (by simp)
  have hstays : ∀ service c, MovesForward service (step sha256 service c).2 →
      service.statusOf id = some .completed →
      (step sha256 service c).2.statusOf id = some .completed := by
    intro service c hforward hdone
    have hid := hforward id
    rw [hdone] at hid
    simpa [Forward, eq_comm] using hid
  exact countP_le_one hneeds hstays (fun _ _ _ hcompletes => (of_completes hcompletes).2) h

theorem statusesKnown_final (sha256 : Sha256) (calls : List Call) :
    StatusesKnown (final (step sha256) new calls) := by
  have hnew : StatusesKnown new := by
    intro id hnotFound
    exact absurd hnotFound (by simp [statusOf, new])
  exact final_invariant (statusesKnown_step sha256) hnew calls

/-- Statuses only move from pending to verified to completed, and none is completed
twice. -/
structure RecoveriesTerminal (sha256 : Sha256) (calls : List Call) : Prop where
  forward : ∀ e ∈ trace (step sha256) new calls, MovesForward e.before e.after
  completedOnce : ∀ id, (trace (step sha256) new calls).countP (completes id) ≤ 1

/-- So it is in a run iff no completed request is verified in it, and no verified or
completed one initiated again. -/
theorem recoveriesTerminal_iff (sha256 : Sha256) (calls : List Call) :
    RecoveriesTerminal sha256 calls ↔ Each (step sha256) VerifiesOpen new calls := by
  have hforward : (∀ e ∈ trace (step sha256) new calls, MovesForward e.before e.after) ↔
      Each (step sha256) (fun service c => MovesForward service (step sha256 service c).2)
        new calls := forall_trace_iff_each fun _ _ => Iff.rfl
  have hopen : Each (step sha256) (fun service c => MovesForward service (step sha256 service c).2)
      new calls ↔ Each (step sha256) VerifiesOpen new calls :=
    each_congr fun pre c => movesForward_step_iff sha256 (statusesKnown_final sha256 pre) c
  rw [← hopen, ← hforward]
  constructor
  · intro h
    exact h.forward
  · intro h
    exact ⟨h, countP_completes_le_one (hforward.mp h)⟩

/-- A recovery is verified after its completion, and completed again. -/
def verifiedAfterCompletion : List Call :=
  let key := String.ofList (List.replicate 64 'a')
  [.initiateRecovery "record_1" 0 0, .verifyRecoveryRequest "recovery_0" 1,
    .completeRecovery "recovery_0" key 2, .verifyRecoveryRequest "recovery_0" 3,
    .completeRecovery "recovery_0" key 4]

end WalletRecoveryService

namespace PreservationGovernance

/-- A request is approved, and then rejected. -/
def approvedThenRejected : List Call :=
  [.requestApproval "wallet_1" .freeze 0 0, .submitDecision "gov_approve_0" true "signature_1" 1,
    .submitDecision "gov_approve_0" false "signature_2" 2]

end PreservationGovernance

/-! ### Both services -/

open Runs

/-- Outcomes are final in a run of either service iff no call of it takes one back. -/
theorem outcomesTerminal_iff (sha256 : Sha256) (recoveries : List WalletRecoveryService.Call)
    (decisions : List PreservationGovernance.Call) :
    (WalletRecoveryService.RecoveriesTerminal sha256 recoveries ↔
      Each (WalletRecoveryService.step sha256) WalletRecoveryService.VerifiesOpen .new
        recoveries) ∧
    (PreservationGovernance.DecisionsTerminal decisions ↔
      Each PreservationGovernance.step PreservationGovernance.DecidesOnce .new decisions) :=
  ⟨WalletRecoveryService.recoveriesTerminal_iff sha256 recoveries,
    PreservationGovernance.decisionsTerminal_iff decisions⟩

/-- Neither service has final outcomes in all of its runs. -/
theorem not_forall_outcomesTerminal :
    (¬ ∀ (sha256 : Sha256) (calls : List WalletRecoveryService.Call),
      WalletRecoveryService.RecoveriesTerminal sha256 calls) ∧
    ¬ ∀ calls : List PreservationGovernance.Call,
      PreservationGovernance.DecisionsTerminal calls := by
  constructor
  · intro h
    have hterminal := h (fun _ => zeroHash) WalletRecoveryService.verifiedAfterCompletion
    have honce := hterminal.completedOnce "recovery_0"
    revert honce
    decide +kernel
  · intro h
    have hkeeps := h PreservationGovernance.approvedThenRejected
      (PreservationGovernance.approvedThenRejected.take 2)
      (PreservationGovernance.approvedThenRejected.drop 2) (List.prefix_refl _)
    obtain ⟨status, hlookup, hsame⟩ := hkeeps "gov_approve_0" _ rfl
    obtain ⟨hstatus, -⟩ := hsame (.inl rfl)
    obtain rfl := Option.some_inj.mp hlookup
    exact absurd hstatus (by decide +kernel)

end Membra
