/-
Pricing and approval of reimbursements.

`process_request` computes the amounts of a record; `approve_reimbursement` decides it,
and takes records that were never processed too.

* `reachable_pricing` — a record carries no amounts until it is processed, and the amounts
  of its gas cost from then on;
* `isPriced_iff_of_unpriced` — the gas costs for which no amounts are the right ones;
* `approvedPriced_iff_approvesPriced` — the runs in which every approved record is priced.
-/
import MembraL3.ReimbursementAmounts

namespace Membra

namespace GasReimbursementManager

open Runs

/-- The gas info from which a record's amounts are computed. -/
def recordGasInfo (record : ReimbursementRecord) : TransactionGasInfo where
  transactionId := record.transactionId
  walletAddress := record.walletAddress
  totalGasCost := record.gasCost
  transactionType := "custom"
  success := true

/-- The amounts are those of the gas cost under the default config, and add up. -/
structure IsPriced (record : ReimbursementRecord) : Prop where
  reimbursed : record.reimbursedAmount = calculateReimbursement (recordGasInfo record) .default
  bonus : record.bonusAmount = calculateBonus (recordGasInfo record) .default
  total : record.totalAmount.toNat = record.reimbursedAmount.toNat + record.bonusAmount.toNat

/-- Every approved record is priced. -/
def ApprovedPriced (manager : GasReimbursementManager) : Prop :=
  ∀ id record, manager.records.lookup id = some record → record.status = .approved →
    IsPriced record

/-! ### Pricing a record -/

/-- The default config pays no bonus. -/
theorem calculateBonus_default (gasInfo : TransactionGasInfo) :
    calculateBonus gasInfo .default = 0 := by
  have hrate : GasPoolConfig.default.bonusRateBps = 0 := rfl
  simp [calculateBonus, hrate]

/-- Only the gas cost of a request enters its reimbursement. -/
theorem calculateReimbursement_customGasInfo {request : ReimbursementRequest}
    {record : ReimbursementRecord} (h : request.gasCost = record.gasCost)
    (config : GasPoolConfig) :
    calculateReimbursement (customGasInfo request) config
      = calculateReimbursement (recordGasInfo record) config := by
  simp only [calculateReimbursement, customGasInfo, recordGasInfo, h]

theorem isPriced_processedRecord {request : ReimbursementRequest} {record : ReimbursementRecord}
    (h : request.gasCost = record.gasCost) (now : Ticks) :
    IsPriced (processedRecord record request now) := by
  have hbonus : (processedRecord record request now).bonusAmount = 0 :=
    calculateBonus_default (customGasInfo request)
  have htotal : (processedRecord record request now).totalAmount
      = (processedRecord record request now).reimbursedAmount
        + (processedRecord record request now).bonusAmount := rfl
  refine ⟨calculateReimbursement_customGasInfo h .default, ?_, ?_⟩
  · rw [hbonus, calculateBonus_default]
  · rw [htotal, hbonus, add_zero]
    rfl

/-- The amounts of a record that was not processed. -/
structure Unpriced (record : ReimbursementRecord) : Prop where
  reimbursed : record.reimbursedAmount = 0
  bonus : record.bonusAmount = 0
  total : record.totalAmount = 0

/-- A product with the rate of 100 % whose low 64 bits make less than one unit: no amounts
are then the right ones. -/
def CostsNothing (record : ReimbursementRecord) : Prop :=
  lowProduct record.gasCost defaultReimbursementRateBps < 10000

theorem calculateReimbursement_default_eq_zero_iff (record : ReimbursementRecord) :
    calculateReimbursement (recordGasInfo record) .default = 0 ↔ CostsNothing record := by
  have hzero : (0 : UInt64).toNat = 0 := rfl
  have hcap : GasPoolConfig.default.maxReimbursementPerTx.toNat = 10000000 := rfl
  have hsuccess : (recordGasInfo record).success = true := rfl
  have hcost : (recordGasInfo record).totalGasCost = record.gasCost := rfl
  have hrate : GasPoolConfig.default.reimbursementRateBps = defaultReimbursementRateBps := rfl
  rw [← UInt64.toNat_inj, toNat_calculateReimbursement, hsuccess, if_pos rfl, hzero, hcap, hcost,
    hrate, CostsNothing]
  omega

theorem isPriced_iff_of_unpriced {record : ReimbursementRecord} (h : Unpriced record) :
    IsPriced record ↔ CostsNothing record := by
  rw [← calculateReimbursement_default_eq_zero_iff]
  constructor
  · intro hpriced
    rw [← hpriced.reimbursed, h.reimbursed]
  · intro hzero
    refine ⟨?_, ?_, ?_⟩
    · rw [h.reimbursed, hzero]
    · rw [h.bonus, calculateBonus_default]
    · rw [h.total, h.reimbursed, h.bonus]
      rfl

/-! ### Every reachable manager -/

/-- A stored record has the gas cost of its request, no amounts while it is pending, and
the right ones while it waits for approval. -/
structure PricedByStatus (manager : GasReimbursementManager) (id : String)
    (record : ReimbursementRecord) : Prop where
  request : ∃ request, manager.requests.lookup id = some request ∧
    request.gasCost = record.gasCost
  pending : record.status = .pending → Unpriced record
  pendingApproval : record.status = .pendingApproval → IsPriced record

def Pricing (manager : GasReimbursementManager) : Prop :=
  ∀ id record, manager.records.lookup id = some record → PricedByStatus manager id record

/-- One record is written, and its request stays or is the new one. -/
theorem pricing_assign {manager manager' : GasReimbursementManager} (h : Pricing manager)
    {id : String} {new : ReimbursementRecord}
    (hrecords : manager'.records = manager.records.assign id new)
    (hrequests : ∀ id', id' ≠ id →
      manager'.requests.lookup id' = manager.requests.lookup id')
    (hnew : PricedByStatus manager' id new) : Pricing manager' := by
  intro id' record hrecord
  rw [hrecords, Store.lookup_assign] at hrecord
  by_cases hid : id' = id
  · rw [if_pos hid, Option.some.injEq] at hrecord
    rw [← hrecord, hid]
    exact hnew
  · rw [if_neg hid] at hrecord
    obtain ⟨⟨request, hrequest, hcost⟩, hpending, happroval⟩ := h id' record hrecord
    exact ⟨⟨request, (hrequests id' hid).trans hrequest, hcost⟩, hpending, happroval⟩

theorem pricing_step (manager : GasReimbursementManager) (c : Call) (hids : SameIds manager)
    (h : Pricing manager) : Pricing (step manager c).2 := by
  rcases step_cases manager c with ⟨hsame, _⟩ | ⟨request, nowMs, now, rfl, hsubmit⟩ |
    ⟨requestId, request, now, rfl, hrequest, hprocess⟩ |
    ⟨requestId, signature, now, record, rfl, hrecord, _, _, happrove⟩ |
    ⟨requestId, reason, now, record, rfl, hrecord, _, _, hreject⟩
  · rw [hsame]
    exact h
  · rw [hsubmit]
    refine pricing_assign h rfl (fun id' hne => Store.lookup_assign_ne _ _ hne) ?_
    exact ⟨⟨request, Store.lookup_assign_self .., rfl⟩, fun _ => ⟨rfl, rfl, rfl⟩, nofun⟩
  · -- the record of a request has its gas cost
    obtain ⟨record, hrecord⟩ := exists_record_of_request hids hrequest
    obtain ⟨found, hfound, hcost⟩ := (h requestId record hrecord).request
    obtain rfl : request = found := Option.some.inj (hrequest.symm.trans hfound)
    rw [hprocess, hrecord]
    refine pricing_assign h rfl (fun _ _ => rfl) ?_
    exact ⟨⟨request, hrequest, hcost⟩, nofun, fun _ => isPriced_processedRecord hcost now⟩
  · rw [happrove]
    refine pricing_assign h rfl (fun _ _ => rfl) ?_
    exact ⟨(h requestId record hrecord).request, nofun, nofun⟩
  · rw [hreject]
    refine pricing_assign h rfl (fun _ _ => rfl) ?_
    exact ⟨(h requestId record hrecord).request, nofun, nofun⟩

theorem reachable_pricing (calls : List Call) : Pricing (final step new calls) := by
  have hnew : Pricing new := fun id record h => absurd h (by simp [new])
  exact final_invariant_of_sameIds pricing_step hnew calls

/-! ### Approvals -/

/-- No pending record is approved but one that costs nothing. -/
def ApprovesPriced (manager : GasReimbursementManager) : Call → Prop
  | .approveReimbursement requestId _ _ => ∀ record,
      manager.records.lookup requestId = some record → record.status = .pending →
        CostsNothing record
  | _ => True

/-- A written record counts if it is approved. -/
theorem approvedPriced_assign_iff {manager manager' : GasReimbursementManager}
    (h : ApprovedPriced manager) {id : String} {new : ReimbursementRecord}
    (hrecords : manager'.records = manager.records.assign id new) :
    ApprovedPriced manager' ↔ (new.status = .approved → IsPriced new) := by
  constructor
  · intro h'
    exact h' id new (by rw [hrecords, Store.lookup_assign_self])
  · intro hnew id' record hrecord happroved
    rw [hrecords] at hrecord
    rcases Store.of_lookup_assign hrecord with ⟨_, rfl⟩ | hold
    · exact hnew happroved
    · exact h id' record hold happroved

theorem approvedPriced_assign_of_ne {manager manager' : GasReimbursementManager}
    (h : ApprovedPriced manager) {id : String} {new : ReimbursementRecord}
    (hrecords : manager'.records = manager.records.assign id new)
    (hstatus : new.status ≠ .approved) : ApprovedPriced manager' :=
  (approvedPriced_assign_iff h hrecords).mpr fun happroved => absurd happroved hstatus

theorem approvedPriced_approveReimbursement_iff {manager : GasReimbursementManager}
    (hpricing : Pricing manager) (h : ApprovedPriced manager) (requestId signature : String)
    (now : Ticks) :
    ApprovedPriced (step manager (.approveReimbursement requestId signature now)).2 ↔
      ApprovesPriced manager (.approveReimbursement requestId signature now) := by
  by_cases hopen : ∃ record, manager.records.lookup requestId = some record ∧ record.status.IsOpen
  · obtain ⟨record, hrecord, hopen⟩ := hopen
    have hcond : ApprovesPriced manager (.approveReimbursement requestId signature now) ↔
        (record.status = .pending → CostsNothing record) := by
      simp [ApprovesPriced, hrecord]
    have happroved : (approvedRecord record signature now).status = .approved := rfl
    -- an approval leaves the amounts
    have hamounts : IsPriced (approvedRecord record signature now) ↔ IsPriced record :=
      ⟨fun hp => ⟨hp.reimbursed, hp.bonus, hp.total⟩, fun hp => ⟨hp.reimbursed, hp.bonus, hp.total⟩⟩
    rw [step_approveReimbursement_of_isOpen hrecord hopen,
      approvedPriced_assign_iff h rfl, hcond, forall_prop_of_true happroved, hamounts]
    obtain ⟨_, hpending, happroval⟩ := hpricing requestId record hrecord
    rcases hopen with hstatus | hstatus
    · rw [forall_prop_of_true hstatus]
      exact isPriced_iff_of_unpriced (hpending hstatus)
    · refine iff_of_true (happroval hstatus) ?_
      intro hpending
      exact absurd (hpending.symm.trans hstatus) (by simp)
  · have hclosed : ∀ record, manager.records.lookup requestId = some record →
        ¬ record.status.IsOpen := fun record hrecord ho => hopen ⟨record, hrecord, ho⟩
    rw [step_approveReimbursement_of_not_isOpen hclosed]
    refine iff_of_true h ?_
    intro record hrecord hpending
    exact absurd (.inl hpending) (hclosed record hrecord)

/-- In every state of a run all approved records are priced iff no step of it approves a
record that is still pending, except one that costs nothing. -/
theorem approvedPriced_iff_approvesPriced (calls : List Call) :
    (∀ pre, pre <+: calls → ApprovedPriced (final step new pre)) ↔
      Each step ApprovesPriced new calls := by
  have hnew : ApprovedPriced new := fun id record h => absurd h (by simp [new])
  refine forall_final_iff hnew ?_
  intro pre c h
  cases c with
  | approveReimbursement requestId signature now =>
    exact approvedPriced_approveReimbursement_iff (reachable_pricing pre) h requestId signature now
  | submitRequest request nowMs now =>
    exact iff_of_true (approvedPriced_assign_of_ne h rfl (by simp [initialRecord])) trivial
  | processRequest requestId now =>
    refine iff_of_true ?_ trivial
    cases hrecord : (final step new pre).records.lookup requestId with
    | none =>
      rw [step_processRequest_of_lookup_none (sameIds_final pre) hrecord]
      exact h
    | some record =>
      obtain ⟨request, hprocess⟩ := step_processRequest_of_lookup (sameIds_final pre) hrecord now
      rw [hprocess]
      exact approvedPriced_assign_of_ne h rfl (by simp [processedRecord])
  | rejectReimbursement requestId reason now =>
    refine iff_of_true ?_ trivial
    by_cases hclosed : ∀ record, (final step new pre).records.lookup requestId = some record →
        record.status = .approved ∨ record.status = .paid
    · rw [step_rejectReimbursement_of_closed hclosed]
      exact h
    · obtain ⟨record, hnot⟩ := not_forall.mp hclosed
      obtain ⟨hrecord, hguard⟩ := Classical.not_imp.mp hnot
      rw [step_rejectReimbursement_of_lookup hrecord hguard]
      exact approvedPriced_assign_of_ne h rfl (by simp [rejectedRecord])
  | checkWalletBalance wallet required => exact iff_of_true h trivial
  | getReimbursementStatus requestId => exact iff_of_true h trivial

/-- A request is approved that nobody processed. -/
def approveUnpriced : List Call :=
  [.submitRequest { ReimbursementRequest.default with
      requestId := "req_1", walletAddress := "wallet_123", gasCost := 500000 } 0 0,
    .approveReimbursement "req_1" "signature" 1]

theorem not_forall_approvedPriced :
    ¬ ∀ calls : List Call, ApprovedPriced (final step new calls) := by
  intro h
  have hreimbursed : ∀ record ∈ (final step new approveUnpriced).records.lookup "req_1",
      record.status = .approved →
      record.reimbursedAmount = calculateReimbursement (recordGasInfo record) .default :=
    fun record hrecord happroved => (h approveUnpriced "req_1" record hrecord happroved).reimbursed
  revert hreimbursed
  decide +kernel

end GasReimbursementManager

end Membra
