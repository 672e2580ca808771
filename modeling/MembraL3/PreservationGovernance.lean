/-
Governance of preservation.

`PreservationGovernance` keeps requests for approval and records what was decided on
each, with a signature.  `submit_decision` decides any request that it finds, also
one that was decided before.

* `keepsDecisions_step_iff` — the calls that leave all decisions as they are;
* `decisionsTerminal_iff` — the runs in which a decision is final.
-/
import MembraL3.WalletPreservation
import MembraL3.Lib.Runs

namespace Membra

/-- The texts of `ApprovalStatus::status`. -/
inductive ApprovalState where
  | pending
  | approved
  | rejected
  | notFound
  deriving DecidableEq

/-- A decision was made. -/
def ApprovalState.IsDecided (state : ApprovalState) : Prop := state = approved ∨ state = rejected

/-- What the program has not written is `none`. -/
structure ApprovalStatus where
  requestId : String
  walletAddress : String
  action : Option PreservationAction
  status : ApprovalState
  governanceSignature : String
  requestedAt : Option Nanoseconds
  decidedAt : Option Nanoseconds
  deriving DecidableEq

structure PreservationGovernance where
  approvalRequests : Store String ApprovalStatus

namespace PreservationGovernance

def new : PreservationGovernance := ⟨∅⟩

/-- The id of a request for approval. -/
def approvalId (now : Nanoseconds) : String := "gov_approve_" ++ toString now.toInt

def requestApproval (governance : PreservationGovernance) (walletAddress : String)
    (action : PreservationAction) (idNow stampNow : Nanoseconds) :
    String × PreservationGovernance :=
  let status : ApprovalStatus :=
    { requestId := approvalId idNow
      walletAddress := walletAddress
      action := some action
      status := .pending
      governanceSignature := ""
      requestedAt := some stampNow
      decidedAt := none }
  (approvalId idNow, ⟨governance.approvalRequests.assign (approvalId idNow) status⟩)

/-- `approved ? "approved" : "rejected"`. -/
def decision (approved : Bool) : ApprovalState := if approved then .approved else .rejected

/-- The request after a decision. -/
def decided (status : ApprovalStatus) (approved : Bool) (signature : String)
    (now : Nanoseconds) : ApprovalStatus :=
  { status with
    status := decision approved
    governanceSignature := signature
    decidedAt := some now }

def submitDecision (governance : PreservationGovernance) (requestId : String) (approved : Bool)
    (signature : String) (now : Nanoseconds) : Bool × PreservationGovernance :=
  match governance.approvalRequests.lookup requestId with
  | none => (false, governance)
  | some status =>
    (true, ⟨governance.approvalRequests.assign requestId (decided status approved signature now)⟩)

def getApprovalStatus (governance : PreservationGovernance) (requestId : String) :
    ApprovalStatus :=
  (governance.approvalRequests.lookup requestId).getD
    { requestId := requestId
      walletAddress := ""
      action := none
      status := .notFound
      governanceSignature := ""
      requestedAt := none
      decidedAt := none }

/-- The wallet is not looked at. -/
def requiresApproval (_walletAddress : String) (action : PreservationAction) : Bool :=
  action = .freeze ∨ action = .governanceReview

/-! ### Calls -/

inductive Call where
  | requestApproval (walletAddress : String) (action : PreservationAction)
      (idNow stampNow : Nanoseconds)
  | submitDecision (requestId : String) (approved : Bool) (signature : String) (now : Nanoseconds)
  | getApprovalStatus (requestId : String)
  | requiresApproval (walletAddress : String) (action : PreservationAction)

inductive Reply where
  | requested (requestId : String)
  | submitted (ok : Bool)
  | status (status : ApprovalStatus)
  | required (required : Bool)

def step (governance : PreservationGovernance) : Call → Reply × PreservationGovernance
  | .requestApproval wallet action idNow stampNow =>
    (governance.requestApproval wallet action idNow stampNow).map .requested id
  | .submitDecision requestId approved signature now =>
    (governance.submitDecision requestId approved signature now).map .submitted id
  | .getApprovalStatus requestId => (.status (governance.getApprovalStatus requestId), governance)
  | .requiresApproval wallet action => (.required (requiresApproval wallet action), governance)

theorem step_submitDecision_of_none {governance : PreservationGovernance} {requestId : String}
    (h : governance.approvalRequests.lookup requestId = none) (approved : Bool)
    (signature : String) (now : Nanoseconds) :
    (step governance (.submitDecision requestId approved signature now)).2 = governance := by
  rw [step, submitDecision, h]
  rfl

theorem step_submitDecision_of_some {governance : PreservationGovernance} {requestId : String}
    {status : ApprovalStatus} (h : governance.approvalRequests.lookup requestId = some status)
    (approved : Bool) (signature : String) (now : Nanoseconds) :
    (step governance (.submitDecision requestId approved signature now)).2.approvalRequests
      = governance.approvalRequests.assign requestId (decided status approved signature now) := by
  rw [step, submitDecision, h]
  rfl

/-! ### Decisions that stay -/

/-- A request that was decided is still there, with the same decision and signature. -/
def SameDecision (status status' : ApprovalStatus) : Prop :=
  status.status.IsDecided →
    status'.status = status.status ∧ status'.governanceSignature = status.governanceSignature

theorem SameDecision.refl (status : ApprovalStatus) : SameDecision status status :=
  fun _ => ⟨rfl, rfl⟩

theorem SameDecision.trans {first second third : ApprovalStatus} (h : SameDecision first second)
    (h' : SameDecision second third) : SameDecision first third := by
  intro hdecided
  obtain ⟨hstatus, hsignature⟩ := h hdecided
  have hsecond : second.status.IsDecided := hstatus ▸ hdecided
  obtain ⟨hstatus', hsignature'⟩ := h' hsecond
  exact ⟨hstatus'.trans hstatus, hsignature'.trans hsignature⟩

/-- All decisions of the first state stand in the second one. -/
def KeepsDecisions (governance governance' : PreservationGovernance) : Prop :=
  Store.Evolves (fun _ => SameDecision) governance.approvalRequests governance'.approvalRequests

theorem KeepsDecisions.refl (governance : PreservationGovernance) :
    KeepsDecisions governance governance :=
  Store.Evolves.refl (fun _ => SameDecision.refl) _

/-- No decided request is decided differently, and none is replaced by a new one. -/
def DecidesOnce (governance : PreservationGovernance) : Call → Prop
  | .requestApproval _ _ idNow _ =>
    ∀ status ∈ governance.approvalRequests.lookup (approvalId idNow), ¬ status.status.IsDecided
  | .submitDecision requestId approved signature _ =>
    ∀ status ∈ governance.approvalRequests.lookup requestId, status.status.IsDecided →
      status.status = decision approved ∧ status.governanceSignature = signature
  | _ => True

/-- A write keeps the decisions iff it keeps the one under its id. -/
theorem evolves_assign_iff {m : Store String ApprovalStatus} {requestId : String}
    {new : ApprovalStatus} :
    Store.Evolves (fun _ => SameDecision) m (m.assign requestId new) ↔
      ∀ status ∈ m.lookup requestId, SameDecision status new := by
  constructor
  · intro h status hlookup
    obtain ⟨found, hfound, hsame⟩ := h requestId status hlookup
    rw [Store.lookup_assign_self, Option.some_inj] at hfound
    rw [hfound]
    exact hsame
  · intro h
    cases hlookup : m.lookup requestId with
    | none =>
      exact Store.evolves_assign_new (fun _ => SameDecision.refl) new
        (AList.lookup_eq_none.mp hlookup)
    | some status =>
      exact Store.evolves_assign (fun _ => SameDecision.refl) hlookup (h status hlookup)

theorem keepsDecisions_step_iff (governance : PreservationGovernance) (c : Call) :
    KeepsDecisions governance (step governance c).2 ↔ DecidesOnce governance c := by
  cases c with
  | requestApproval wallet action idNow stampNow =>
    refine evolves_assign_iff.trans (forall₂_congr ?_)
    intro status _
    constructor
    · intro hsame hdecided
      -- the new request is pending
      obtain ⟨hstatus, -⟩ := hsame hdecided
      rw [← hstatus] at hdecided
      exact absurd hdecided (by simp [ApprovalState.IsDecided])
    · intro hopen hdecided
      exact absurd hdecided hopen
  | submitDecision requestId approved signature now =>
    cases hlookup : governance.approvalRequests.lookup requestId with
    | none =>
      rw [step_submitDecision_of_none hlookup, DecidesOnce, hlookup]
      exact iff_of_true (KeepsDecisions.refl governance) (fun _ hnone => absurd hnone (by simp))
    | some status =>
      rw [KeepsDecisions, step_submitDecision_of_some hlookup, DecidesOnce]
      refine evolves_assign_iff.trans (forall₂_congr ?_)
      intro found _
      exact forall_congr' fun _ => and_congr eq_comm eq_comm
  | _ => exact iff_of_true (KeepsDecisions.refl governance) trivial

open Runs

/-- A request that is approved or rejected at some point of the run keeps its status and
its signature from there on. -/
def DecisionsTerminal (calls : List Call) : Prop :=
  ∀ pre mid, pre ++ mid <+: calls →
    KeepsDecisions (final step new pre) (final step new (pre ++ mid))

/-- Decisions are final in a run iff no call of it decides a decided request
differently or replaces it. -/
theorem decisionsTerminal_iff (calls : List Call) :
    DecisionsTerminal calls ↔ Each step DecidesOnce new calls := by
  refine forall_between_iff KeepsDecisions.refl ?_ keepsDecisions_step_iff
  intro first second third h h'
  exact h.trans (fun _ _ _ _ hfirst hsecond => hfirst.trans hsecond) h'

end PreservationGovernance

end Membra
