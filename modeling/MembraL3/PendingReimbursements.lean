/-
Pending reimbursements of the wallets.

`submit_request` adds the gas cost of a request to the pending reimbursements of its
wallet, and nothing takes it away again.

* `pendingCost_eq_sum` — the gas costs of a wallet among `get_pending_reimbursements`;
* `pendingExact_assign_iff` — what writing a record asks of the wallet states;
* `pendingAgrees_iff_keepsPending` — the runs in which every wallet's pending
  reimbursements are those of its pending records.
-/
import MembraL3.GasReimbursement

namespace Membra

namespace GasReimbursementManager

open Runs

/-! ### The pending records of a wallet -/

/-- The gas cost of a record of the wallet that waits for a decision. -/
def openCost (wallet : String) (record : ReimbursementRecord) : UInt64 :=
  if record.walletAddress = wallet ∧ isPending record then record.gasCost else 0

/-- The gas costs of the wallet's pending records, modulo `2 ^ 64`. -/
def pendingCost (manager : GasReimbursementManager) (wallet : String) : UInt64 :=
  Store.total (openCost wallet) manager.records

/-- The wallet's share of what `get_pending_reimbursements` returns. -/
theorem pendingCost_eq_sum (manager : GasReimbursementManager) (wallet : String) :
    manager.pendingCost wallet
      = ((manager.getPendingReimbursements.filter fun record =>
          record.walletAddress = wallet).map ReimbursementRecord.gasCost).sum := by
  have hperm := manager.records.sortedValues_perm.map (openCost wallet)
  rw [pendingCost, Store.total, ← hperm.sum_eq, getPendingReimbursements]
  generalize manager.records.sortedValues = records
  induction records with
  | nil => rfl
  | cons record records ih =>
    rw [List.map_cons, List.sum_cons, ih, openCost]
    by_cases hpending : isPending record = true
    · by_cases hwallet : record.walletAddress = wallet
      · simp [hpending, hwallet]
      · simp [hpending, hwallet]
    · simp [hpending]

/-- Every wallet state has the pending reimbursements of the wallet's pending records. -/
def PendingAgrees (manager : GasReimbursementManager) : Prop :=
  ∀ wallet state, manager.walletStates.lookup wallet = some state →
    state.pendingReimbursements = manager.pendingCost wallet

/-- What a wallet state says, 0 where there is none. -/
def pendingOf (manager : GasReimbursementManager) (wallet : String) : UInt64 :=
  ((manager.walletStates.lookup wallet).map WalletBalanceState.pendingReimbursements).getD 0

/-- The same of all wallets. -/
def PendingExact (manager : GasReimbursementManager) : Prop :=
  ∀ wallet, manager.pendingOf wallet = manager.pendingCost wallet

/-- Every record belongs to a wallet with a state. -/
def HasStates (manager : GasReimbursementManager) : Prop :=
  ∀ id record, manager.records.lookup id = some record →
    record.walletAddress ∈ manager.walletStates

theorem openCost_of_ne {wallet : String} {record : ReimbursementRecord}
    (h : record.walletAddress ≠ wallet) : openCost wallet record = 0 :=
  if_neg fun hboth => h hboth.1

/-- A wallet without a state has no records. -/
theorem pendingAgrees_iff_pendingExact {manager : GasReimbursementManager}
    (h : HasStates manager) : PendingAgrees manager ↔ PendingExact manager := by
  constructor
  · intro hagrees wallet
    rw [pendingOf]
    cases hstate : manager.walletStates.lookup wallet with
    | some state => exact hagrees wallet state hstate
    | none =>
      have hzero : ∀ id record, manager.records.lookup id = some record →
          openCost wallet record = 0 := by
        intro id record hrecord
        refine openCost_of_ne ?_
        rintro rfl
        exact AList.lookup_eq_none.mp hstate (h id record hrecord)
      show 0 = manager.pendingCost wallet
      rw [pendingCost, Store.total_congr hzero]
      exact (List.sum_map_zero).symm
  · intro hexact wallet state hstate
    have hwallet := hexact wallet
    rw [pendingOf, hstate] at hwallet
    exact hwallet

/-- One record is written for a wallet with a state, and no state is dropped. -/
theorem hasStates_assign {manager manager' : GasReimbursementManager} (h : HasStates manager)
    {id : String} {new : ReimbursementRecord}
    (hrecords : manager'.records = manager.records.assign id new)
    (hstates : ∀ wallet ∈ manager.walletStates, wallet ∈ manager'.walletStates)
    (hnew : new.walletAddress ∈ manager'.walletStates) : HasStates manager' := by
  intro id' record hrecord
  rw [hrecords] at hrecord
  rcases Store.of_lookup_assign hrecord with ⟨_, rfl⟩ | hold
  · exact hnew
  · exact hstates _ (h id' record hold)

theorem hasStates_step (manager : GasReimbursementManager) (c : Call) (hids : SameIds manager)
    (h : HasStates manager) : HasStates (step manager c).2 := by
  rcases step_cases manager c with ⟨hsame, _⟩ | ⟨request, nowMs, now, rfl, hsubmit⟩ |
    ⟨requestId, request, now, rfl, hrequest, hprocess⟩ |
    ⟨requestId, signature, now, record, rfl, hrecord, _, _, happrove⟩ |
    ⟨requestId, reason, now, record, rfl, hrecord, _, _, hreject⟩
  · rw [hsame]
    exact h
  · rw [hsubmit]
    refine hasStates_assign h rfl ?_ (Store.mem_assign.mpr (.inl rfl))
    intro wallet hwallet
    exact Store.mem_assign.mpr (.inr hwallet)
  · obtain ⟨record, hrecord⟩ := exists_record_of_request hids hrequest
    rw [hprocess, hrecord]
    exact hasStates_assign h rfl (fun _ hwallet => hwallet) (h requestId record hrecord)
  · rw [happrove]
    exact hasStates_assign h rfl (fun _ hwallet => hwallet) (h requestId record hrecord)
  · rw [hreject]
    exact hasStates_assign h rfl (fun _ hwallet => hwallet) (h requestId record hrecord)

theorem hasStates_final (calls : List Call) : HasStates (final step new calls) := by
  have hnew : HasStates new := fun id record h => absurd h (by simp [new])
  exact final_invariant_of_sameIds hasStates_step hnew calls

/-! ### One step -/

/-- One record is written, and the wallet states grow by `added`. -/
theorem pendingExact_assign_iff {manager manager' : GasReimbursementManager}
    (h : PendingExact manager) {id : String} {new : ReimbursementRecord} {added : String → UInt64}
    (hrecords : manager'.records = manager.records.assign id new)
    (hstates : ∀ wallet, manager'.pendingOf wallet = manager.pendingOf wallet + added wallet) :
    PendingExact manager' ↔ ∀ wallet, added wallet
      + ((manager.records.lookup id).map (openCost wallet)).getD 0 = openCost wallet new := by
  refine forall_congr' fun wallet => ?_
  have htotal := Store.total_assign (openCost wallet) manager.records id new
  rw [hstates, h wallet, pendingCost, pendingCost, hrecords]
  constructor
  · intro heq
    rw [← heq, add_assoc] at htotal
    exact add_left_cancel htotal
  · intro heq
    rw [← heq, ← add_assoc] at htotal
    exact (add_right_cancel htotal).symm

/-- No open record with a gas cost is overwritten or decided, and no decided one is
processed again. -/
def KeepsPending (manager : GasReimbursementManager) : Call → Prop
  | .submitRequest request nowMs _ => ∀ record,
      manager.records.lookup (effectiveId request nowMs) = some record →
        record.status.IsOpen → record.gasCost = 0
  | .processRequest requestId _ => ∀ record,
      manager.records.lookup requestId = some record →
        ¬ record.status.IsOpen → record.gasCost = 0
  | .approveReimbursement requestId _ _ | .rejectReimbursement requestId _ _ => ∀ record,
      manager.records.lookup requestId = some record →
        record.status.IsOpen → record.gasCost = 0
  | _ => True

theorem forall_openCost_eq_zero_iff {record : ReimbursementRecord} :
    (∀ wallet, openCost wallet record = 0) ↔ (record.status.IsOpen → record.gasCost = 0) := by
  rw [← isPending_iff]
  constructor
  · intro h hpending
    have hwallet := h record.walletAddress
    rwa [openCost, if_pos ⟨rfl, hpending⟩] at hwallet
  · intro h wallet
    rw [openCost]
    by_cases hboth : record.walletAddress = wallet ∧ isPending record = true
    · rw [if_pos hboth, h hboth.2]
    · rw [if_neg hboth]

/-- A record that changes nothing but its status keeps its share exactly if it stays open
or closed, or has no gas cost. -/
theorem forall_openCost_eq_iff {old new : ReimbursementRecord}
    (hwallet : new.walletAddress = old.walletAddress) (hcost : new.gasCost = old.gasCost) :
    (∀ wallet, openCost wallet old = openCost wallet new) ↔
      ((old.status.IsOpen ↔ new.status.IsOpen) ∨ old.gasCost = 0) := by
  rw [← isPending_iff, ← isPending_iff]
  constructor
  · intro h
    have hshare := h old.walletAddress
    simp only [openCost, hwallet, hcost, true_and] at hshare
    cases hold : isPending old with
    | false =>
      cases hnew : isPending new with
      | false => exact .inl Iff.rfl
      | true =>
        rw [hold, hnew] at hshare
        exact .inr hshare.symm
    | true =>
      cases hnew : isPending new with
      | false =>
        rw [hold, hnew] at hshare
        exact .inr hshare
      | true => exact .inl Iff.rfl
  · rintro (hsame | hzero) wallet
    · simp only [openCost, hwallet, hcost, hsame]
    · simp only [openCost, hcost, hzero, ite_self]

/-- A decision or a processing leaves the wallet states. -/
theorem pendingExact_status_iff {manager manager' : GasReimbursementManager}
    (h : PendingExact manager) {id : String} {old new : ReimbursementRecord}
    (hold : manager.records.lookup id = some old)
    (hrecords : manager'.records = manager.records.assign id new)
    (hstates : manager'.walletStates = manager.walletStates)
    (hwallet : new.walletAddress = old.walletAddress) (hcost : new.gasCost = old.gasCost) :
    PendingExact manager' ↔ ((old.status.IsOpen ↔ new.status.IsOpen) ∨ old.gasCost = 0) := by
  have hsame : ∀ wallet, manager'.pendingOf wallet = manager.pendingOf wallet + 0 := by
    intro wallet
    rw [pendingOf, hstates, add_zero, pendingOf]
  rw [pendingExact_assign_iff h hrecords hsame, hold, ← forall_openCost_eq_iff hwallet hcost]
  refine forall_congr' fun wallet => ?_
  rw [zero_add]
  exact Iff.rfl

/-- A submission adds the gas cost to one wallet. -/
theorem pendingOf_updateWalletState (manager : GasReimbursementManager) (wallet : String)
    (amount : UInt64) (now : Ticks) (wallet' : String) :
    (manager.updateWalletState wallet amount now).pendingOf wallet'
      = manager.pendingOf wallet' + if wallet = wallet' then amount else 0 := by
  rw [pendingOf, updateWalletState, Store.lookup_assign]
  by_cases hwallet : wallet' = wallet
  · subst hwallet
    rw [if_pos rfl, if_pos rfl, pendingOf]
    cases manager.walletStates.lookup wallet' with
    | none =>
      simp only [Option.map_some, Option.getD_some, Option.getD_none, Option.map_none]
      split
      · rfl
      · rfl
    | some state =>
      simp only [Option.map_some, Option.getD_some]
      split
      · rfl
      · rfl
  · rw [if_neg hwallet, if_neg (Ne.symm hwallet), add_zero]
    rfl

theorem pendingExact_submitRequest_iff {manager : GasReimbursementManager}
    (h : PendingExact manager) (request : ReimbursementRequest) (nowMs now : Ticks) :
    PendingExact (step manager (.submitRequest request nowMs now)).2 ↔
      KeepsPending manager (.submitRequest request nowMs now) := by
  have hrecords : (step manager (.submitRequest request nowMs now)).2.records
      = manager.records.assign (effectiveId request nowMs)
        (initialRecord request (effectiveId request nowMs)) := rfl
  have hstates : ∀ wallet, (step manager (.submitRequest request nowMs now)).2.pendingOf wallet
      = manager.pendingOf wallet + if request.walletAddress = wallet then request.gasCost else 0 :=
    fun wallet => pendingOf_updateWalletState _ request.walletAddress request.gasCost now wallet
  -- the new record's share is what the wallet state grows by
  have hshare : ∀ wallet, openCost wallet (initialRecord request (effectiveId request nowMs))
      = if request.walletAddress = wallet then request.gasCost else 0 := by
    intro wallet
    simp [openCost, initialRecord, isPending]
  rw [pendingExact_assign_iff h hrecords hstates, KeepsPending]
  simp only [hshare, add_eq_left]
  cases hlookup : manager.records.lookup (effectiveId request nowMs) with
  | none => simp
  | some record =>
    simp only [Option.map_some, Option.getD_some, Option.some.injEq, forall_eq']
    exact forall_openCost_eq_zero_iff

theorem pendingExact_processRequest_iff {manager : GasReimbursementManager}
    (hids : SameIds manager) (h : PendingExact manager) (requestId : String) (now : Ticks) :
    PendingExact (step manager (.processRequest requestId now)).2 ↔
      KeepsPending manager (.processRequest requestId now) := by
  cases hlookup : manager.records.lookup requestId with
  | none =>
    rw [step_processRequest_of_lookup_none hids hlookup]
    exact iff_of_true h (fun record hrecord => absurd (hrecord.symm.trans hlookup) (by simp))
  | some record =>
    obtain ⟨request, hprocess⟩ := step_processRequest_of_lookup hids hlookup now
    have hopen : (processedRecord record request now).status.IsOpen := .inr rfl
    rw [hprocess]
    have hiff := @pendingExact_status_iff manager { manager with
      records := manager.records.assign requestId (processedRecord record request now) }
      h requestId record (processedRecord record request now) hlookup rfl rfl rfl rfl
    rw [hiff, iff_true_right hopen, KeepsPending, hlookup]
    simp only [Option.some.injEq, forall_eq']
    exact Classical.or_iff_not_imp_left

/-- A decision takes the record's gas cost from the pending ones, but not from its
wallet state. -/
theorem pendingExact_decided_iff {manager manager' : GasReimbursementManager}
    (h : PendingExact manager) {id : String} {old new : ReimbursementRecord}
    (hold : manager.records.lookup id = some old)
    (hrecords : manager'.records = manager.records.assign id new)
    (hstates : manager'.walletStates = manager.walletStates)
    (hwallet : new.walletAddress = old.walletAddress) (hcost : new.gasCost = old.gasCost)
    (hdecided : ¬ new.status.IsOpen) :
    PendingExact manager' ↔ ∀ record, manager.records.lookup id = some record →
      record.status.IsOpen → record.gasCost = 0 := by
  rw [pendingExact_status_iff h hold hrecords hstates hwallet hcost, iff_false_right hdecided,
    hold]
  simp only [Option.some.injEq, forall_eq']
  exact imp_iff_not_or.symm

theorem pendingExact_approveReimbursement_iff {manager : GasReimbursementManager}
    (h : PendingExact manager) (requestId signature : String) (now : Ticks) :
    PendingExact (step manager (.approveReimbursement requestId signature now)).2 ↔
      KeepsPending manager (.approveReimbursement requestId signature now) := by
  by_cases hopen : ∃ record, manager.records.lookup requestId = some record ∧ record.status.IsOpen
  · obtain ⟨record, hrecord, hopen⟩ := hopen
    have hdecided : ¬ (approvedRecord record signature now).status.IsOpen := by
      simp [approvedRecord, ReimbursementStatus.IsOpen]
    rw [step_approveReimbursement_of_isOpen hrecord hopen]
    exact pendingExact_decided_iff h hrecord rfl rfl rfl rfl hdecided
  · have hclosed : ∀ record, manager.records.lookup requestId = some record →
        ¬ record.status.IsOpen := fun record hrecord ho => hopen ⟨record, hrecord, ho⟩
    rw [step_approveReimbursement_of_not_isOpen hclosed]
    exact iff_of_true h (fun record hrecord ho => absurd ho (hclosed record hrecord))

theorem pendingExact_rejectReimbursement_iff {manager : GasReimbursementManager}
    (h : PendingExact manager) (requestId reason : String) (now : Ticks) :
    PendingExact (step manager (.rejectReimbursement requestId reason now)).2 ↔
      KeepsPending manager (.rejectReimbursement requestId reason now) := by
  by_cases hclosed : ∀ record, manager.records.lookup requestId = some record →
      record.status = .approved ∨ record.status = .paid
  · rw [step_rejectReimbursement_of_closed hclosed]
    refine iff_of_true h ?_
    intro record hrecord hopen
    rcases hclosed record hrecord with hstatus | hstatus
    · simp [hstatus, ReimbursementStatus.IsOpen] at hopen
    · simp [hstatus, ReimbursementStatus.IsOpen] at hopen
  · obtain ⟨record, hnot⟩ := not_forall.mp hclosed
    obtain ⟨hrecord, hguard⟩ := Classical.not_imp.mp hnot
    have hdecided : ¬ (rejectedRecord record reason now).status.IsOpen := by
      simp [rejectedRecord, ReimbursementStatus.IsOpen]
    rw [step_rejectReimbursement_of_lookup hrecord hguard]
    exact pendingExact_decided_iff h hrecord rfl rfl rfl rfl hdecided

/-! ### Runs -/

/-- In every state of a run each wallet's pending reimbursements are those of its pending
records iff no step of it overwrites or decides an open record with a gas cost or processes
a decided one. -/
theorem pendingAgrees_iff_keepsPending (calls : List Call) :
    (∀ pre, pre <+: calls → PendingAgrees (final step new pre)) ↔
      Each step KeepsPending new calls := by
  have hexact : (∀ pre, pre <+: calls → PendingAgrees (final step new pre)) ↔
      ∀ pre, pre <+: calls → PendingExact (final step new pre) :=
    forall₂_congr fun pre _ => pendingAgrees_iff_pendingExact (hasStates_final pre)
  have hnew : PendingExact new := fun _ => rfl
  rw [hexact]
  refine forall_final_iff hnew ?_
  intro pre c h
  cases c with
  | submitRequest request nowMs now => exact pendingExact_submitRequest_iff h request nowMs now
  | processRequest requestId now =>
    exact pendingExact_processRequest_iff (sameIds_final pre) h requestId now
  | approveReimbursement requestId signature now =>
    exact pendingExact_approveReimbursement_iff h requestId signature now
  | rejectReimbursement requestId reason now =>
    exact pendingExact_rejectReimbursement_iff h requestId reason now
  | checkWalletBalance wallet required => exact iff_of_true h trivial
  | getReimbursementStatus requestId => exact iff_of_true h trivial

/-- A request is submitted and rejected. -/
def submitAndReject : List Call :=
  [.submitRequest { ReimbursementRequest.default with
      requestId := "req_1", walletAddress := "wallet_123", gasCost := 300000 } 0 0,
    .rejectReimbursement "req_1" "Insufficient funds" 1]

theorem not_forall_pendingAgrees :
    ¬ ∀ calls : List Call, PendingAgrees (final step new calls) := by
  intro h
  have hpending : ∀ state ∈ (final step new submitAndReject).walletStates.lookup "wallet_123",
      state.pendingReimbursements = (final step new submitAndReject).pendingCost "wallet_123" :=
    fun state hstate => h submitAndReject "wallet_123" state hstate
  revert hpending
  decide +kernel

end GasReimbursementManager

end Membra
