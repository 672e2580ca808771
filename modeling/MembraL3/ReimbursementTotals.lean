/-
Reimbursement statistics and the records.

The manager counts requests, approvals and rejections as they happen.  Its
statistics are those of the records as long as nothing happens twice to one id.

* `statsAgree_submitRequest_iff`, `statsAgree_processRequest_iff`,
  `statsAgree_rejectReimbursement_iff` — when an operation keeps them so;
* `statsAgree_approveReimbursement` — an approval always does;
* `statsAgree_iff_countsOnce` — the runs in which they always agree.
-/
import MembraL3.GasReimbursement

namespace Membra

namespace GasReimbursementManager

open Runs

def isApproved (record : ReimbursementRecord) : Bool := record.status = .approved

def isRejected (record : ReimbursementRecord) : Bool := record.status = .rejected

/-- The total of an approved record. -/
def approvedTotal (record : ReimbursementRecord) : UInt64 :=
  if isApproved record then record.totalAmount else 0

/-- The bonus of an approved record. -/
def approvedBonus (record : ReimbursementRecord) : UInt64 :=
  if isApproved record then record.bonusAmount else 0

/-- The statistics are those of the records: three counts, and two sums modulo
`2 ^ 64`. -/
structure StatsAgree (manager : GasReimbursementManager) : Prop where
  totalRequests : manager.stats.totalRequests.toNat = Store.size manager.records
  totalApproved : manager.stats.totalApproved.toNat = Store.count isApproved manager.records
  totalRejected : manager.stats.totalRejected.toNat = Store.count isRejected manager.records
  totalReimbursed : manager.stats.totalReimbursed = Store.total approvedTotal manager.records
  totalBonusPaid : manager.stats.totalBonusPaid = Store.total approvedBonus manager.records

theorem statsAgree_new : StatsAgree new := ⟨rfl, rfl, rfl, rfl, rfl⟩

/-- No step that does anything twice to one id, and no more records than fit. -/
def CountsOnce (manager : GasReimbursementManager) : Call → Prop
  | .submitRequest request nowMs _ =>
    manager.records.lookup (effectiveId request nowMs) = none ∧
      Store.size manager.records + 1 < 2 ^ 64
  | .processRequest requestId _ => ∀ record,
      manager.records.lookup requestId = some record → ¬ record.status.IsDecided
  | .rejectReimbursement requestId _ _ => ∀ record,
      manager.records.lookup requestId = some record → record.status ≠ .rejected
  | _ => True

/-! ### One step -/

theorem statsAgree_submitRequest_iff {manager : GasReimbursementManager} (h : StatsAgree manager)
    (request : ReimbursementRequest) (nowMs now : Ticks) :
    StatsAgree (step manager (.submitRequest request nowMs now)).2 ↔
      CountsOnce manager (.submitRequest request nowMs now) := by
  have hrecords : (step manager (.submitRequest request nowMs now)).2.records
      = manager.records.assign (effectiveId request nowMs)
        (initialRecord request (effectiveId request nowMs)) := rfl
  have hstats : (step manager (.submitRequest request nowMs now)).2.stats
      = { manager.stats with totalRequests := manager.stats.totalRequests + 1 } := rfl
  cases hlookup : manager.records.lookup (effectiveId request nowMs) with
  | none =>
    have hsize := Store.size_assign_new (initialRecord request (effectiveId request nowMs)) hlookup
    have hiff := Words.toNat_add_one_eq_iff manager.stats.totalRequests
    rw [h.totalRequests] at hiff
    constructor
    · intro h'
      have hrequests := h'.totalRequests
      rw [hstats, hrecords, hsize] at hrequests
      exact ⟨hlookup, hiff.mp hrequests⟩
    · rintro ⟨_, hfits⟩
      refine ⟨?_, ?_, ?_, ?_, ?_⟩
      · rw [hstats, hrecords, hsize]
        exact hiff.mpr hfits
      · rw [hstats, hrecords, Store.count_assign_new _ _ hlookup]
        exact h.totalApproved.trans (Nat.zero_add _).symm
      · rw [hstats, hrecords, Store.count_assign_new _ _ hlookup]
        exact h.totalRejected.trans (Nat.zero_add _).symm
      · rw [hstats, hrecords, Store.total_assign_new _ _ hlookup]
        exact h.totalReimbursed.trans (zero_add _).symm
      · rw [hstats, hrecords, Store.total_assign_new _ _ hlookup]
        exact h.totalBonusPaid.trans (zero_add _).symm
  | some record =>
    -- the number of records stays, the counter does not
    refine iff_of_false (fun h' => ?_) (fun hc => ?_)
    · have hrequests := h'.totalRequests
      rw [hstats, hrecords, Store.size_assign_of_lookup _ hlookup, ← h.totalRequests] at hrequests
      exact Words.toNat_add_one_ne _ hrequests
    · exact absurd (hlookup.symm.trans hc.1) (Option.some_ne_none record)

theorem isApproved_of_ne {record : ReimbursementRecord} (h : record.status ≠ .approved) :
    isApproved record = false := decide_eq_false h

theorem isRejected_of_ne {record : ReimbursementRecord} (h : record.status ≠ .rejected) :
    isRejected record = false := decide_eq_false h

theorem approvedTotal_of_ne {record : ReimbursementRecord} (h : record.status ≠ .approved) :
    approvedTotal record = 0 := by
  rw [approvedTotal, isApproved_of_ne h]
  rfl

theorem approvedBonus_of_ne {record : ReimbursementRecord} (h : record.status ≠ .approved) :
    approvedBonus record = 0 := by
  rw [approvedBonus, isApproved_of_ne h]
  rfl

/-- Overwriting a record exchanges its share in each of the statistics. -/
theorem statsAgree_assign_iff {manager : GasReimbursementManager} (h : StatsAgree manager)
    {id : String} {old : ReimbursementRecord} (hlookup : manager.records.lookup id = some old)
    (new : ReimbursementRecord) (stats : ReimbursementStats) :
    StatsAgree { manager with records := manager.records.assign id new, stats := stats } ↔
      stats.totalRequests.toNat = manager.stats.totalRequests.toNat ∧
      stats.totalApproved.toNat + (if isApproved old then 1 else 0)
        = manager.stats.totalApproved.toNat + (if isApproved new then 1 else 0) ∧
      stats.totalRejected.toNat + (if isRejected old then 1 else 0)
        = manager.stats.totalRejected.toNat + (if isRejected new then 1 else 0) ∧
      stats.totalReimbursed + approvedTotal old
        = manager.stats.totalReimbursed + approvedTotal new ∧
      stats.totalBonusPaid + approvedBonus old
        = manager.stats.totalBonusPaid + approvedBonus new := by
  have hsize := Store.size_assign_of_lookup new hlookup
  have happroved := Store.count_assign_of_lookup isApproved new hlookup
  have hrejected := Store.count_assign_of_lookup isRejected new hlookup
  have htotal := Store.total_assign_of_lookup approvedTotal new hlookup
  have hbonus := Store.total_assign_of_lookup approvedBonus new hlookup
  rw [h.totalRequests, h.totalApproved, h.totalRejected, h.totalReimbursed, h.totalBonusPaid,
    ← hsize, ← happroved, ← hrejected, ← htotal, ← hbonus]
  constructor
  · intro h'
    exact ⟨h'.totalRequests, congrArg (· + _) h'.totalApproved, congrArg (· + _) h'.totalRejected,
      congrArg (· + _) h'.totalReimbursed, congrArg (· + _) h'.totalBonusPaid⟩
  · rintro ⟨hrequests', happroved', hrejected', htotal', hbonus'⟩
    exact ⟨hrequests', Nat.add_right_cancel happroved', Nat.add_right_cancel hrejected',
      add_right_cancel htotal', add_right_cancel hbonus'⟩

theorem statsAgree_processRequest_iff {manager : GasReimbursementManager} (hids : SameIds manager)
    (h : StatsAgree manager) (requestId : String) (now : Ticks) :
    StatsAgree (step manager (.processRequest requestId now)).2 ↔
      CountsOnce manager (.processRequest requestId now) := by
  cases hlookup : manager.records.lookup requestId with
  | none =>
    rw [step_processRequest_of_lookup_none hids hlookup]
    refine iff_of_true h ?_
    intro record hrecord
    exact absurd (hrecord.symm.trans hlookup) (Option.some_ne_none record)
  | some old =>
    obtain ⟨request, hprocess⟩ := step_processRequest_of_lookup hids hlookup now
    have hnew : ¬ (processedRecord old request now).status.IsDecided :=
      ReimbursementStatus.IsOpen.not_isDecided (.inr rfl)
    obtain ⟨hnewApproved, hnewRejected⟩ := not_or.mp hnew
    rw [hprocess, statsAgree_assign_iff h hlookup, isApproved_of_ne hnewApproved,
      isRejected_of_ne hnewRejected, approvedTotal_of_ne hnewApproved,
      approvedBonus_of_ne hnewApproved]
    constructor
    · rintro ⟨_, happroved, hrejected, _, _⟩ record hrecord
      obtain rfl : old = record := Option.some.inj (hlookup.symm.trans hrecord)
      rintro (hold | hold)
      · have hshare : isApproved old = true := decide_eq_true hold
        simp [hshare] at happroved
      · have hshare : isRejected old = true := decide_eq_true hold
        simp [hshare] at hrejected
    · intro hc
      obtain ⟨holdApproved, holdRejected⟩ := not_or.mp (hc old hlookup)
      rw [isApproved_of_ne holdApproved, isRejected_of_ne holdRejected,
        approvedTotal_of_ne holdApproved, approvedBonus_of_ne holdApproved]
      exact ⟨rfl, rfl, rfl, rfl, rfl⟩

/-- A record that is not yet among the counted ones leaves room for one more. -/
theorem count_add_one_lt {manager : GasReimbursementManager} (h : StatsAgree manager) {id : String}
    {old new : ReimbursementRecord} (hlookup : manager.records.lookup id = some old)
    {p : ReimbursementRecord → Bool} (hold : p old = false) (hnew : p new = true) :
    Store.count p manager.records + 1 < 2 ^ 64 := by
  have hcount := Store.count_assign_of_lookup p new hlookup
  have hle := Store.count_le_size p (manager.records.assign id new)
  have hlt := UInt64.toNat_lt manager.stats.totalRequests
  rw [Store.size_assign_of_lookup new hlookup, ← h.totalRequests] at hle
  simp only [hold, hnew, Bool.false_eq_true, if_false, if_true] at hcount
  omega

/-- Adding a zero bonus and not adding it are the same. -/
theorem approveStats_totalBonusPaid (stats : ReimbursementStats) (record : ReimbursementRecord) :
    (approveStats stats record).totalBonusPaid = stats.totalBonusPaid + record.bonusAmount := by
  rw [approveStats]
  by_cases hbonus : record.bonusAmount > 0
  · rw [if_pos hbonus]
  · have hzero : record.bonusAmount = 0 := by
      rw [gt_iff_lt, UInt64.lt_iff_toNat_lt] at hbonus
      exact UInt64.toNat_inj.mp (Nat.le_zero.mp (Nat.not_lt.mp hbonus))
    rw [if_neg hbonus, hzero, add_zero]

theorem statsAgree_approveReimbursement {manager : GasReimbursementManager} (h : StatsAgree manager)
    (requestId signature : String) (now : Ticks) :
    StatsAgree (step manager (.approveReimbursement requestId signature now)).2 := by
  by_cases hclosed : ∀ record, manager.records.lookup requestId = some record →
      ¬ record.status.IsOpen
  · rwa [step_approveReimbursement_of_not_isOpen hclosed]
  · push Not at hclosed
    obtain ⟨old, hlookup, hopen⟩ := hclosed
    obtain ⟨holdApproved, holdRejected⟩ := not_or.mp hopen.not_isDecided
    have hshare : isApproved (approvedRecord old signature now) = true := rfl
    have hfits := count_add_one_lt h hlookup (isApproved_of_ne holdApproved) hshare
    rw [← h.totalApproved] at hfits
    rw [step_approveReimbursement_of_isOpen hlookup hopen, statsAgree_assign_iff h hlookup,
      isApproved_of_ne holdApproved, isRejected_of_ne holdRejected,
      approvedTotal_of_ne holdApproved, approvedBonus_of_ne holdApproved,
      approveStats_totalBonusPaid, hshare]
    refine ⟨rfl, (Words.toNat_add_one_eq_iff _).mpr hfits, rfl, ?_, ?_⟩
    · exact add_zero _
    · exact add_zero _

theorem statsAgree_rejectReimbursement_iff {manager : GasReimbursementManager}
    (h : StatsAgree manager) (requestId reason : String) (now : Ticks) :
    StatsAgree (step manager (.rejectReimbursement requestId reason now)).2 ↔
      CountsOnce manager (.rejectReimbursement requestId reason now) := by
  by_cases hclosed : ∀ record, manager.records.lookup requestId = some record →
      record.status = .approved ∨ record.status = .paid
  · rw [step_rejectReimbursement_of_closed hclosed]
    refine iff_of_true h ?_
    intro record hrecord hold
    have hstatus := hclosed record hrecord
    rw [hold] at hstatus
    exact absurd hstatus (by decide)
  · push Not at hclosed
    obtain ⟨old, hlookup, holdApproved, holdPaid⟩ := hclosed
    have hcounts : CountsOnce manager (.rejectReimbursement requestId reason now) ↔
        old.status ≠ .rejected := by
      simp [CountsOnce, hlookup]
    have hshare : isRejected (rejectedRecord old reason now) = true := rfl
    have hnewApproved : (rejectedRecord old reason now).status ≠ .approved := by
      simp [rejectedRecord]
    rw [hcounts, step_rejectReimbursement_of_lookup hlookup (not_or.mpr ⟨holdApproved, holdPaid⟩),
      statsAgree_assign_iff h hlookup, isApproved_of_ne holdApproved,
      isApproved_of_ne hnewApproved, approvedTotal_of_ne holdApproved,
      approvedTotal_of_ne hnewApproved, approvedBonus_of_ne holdApproved,
      approvedBonus_of_ne hnewApproved, hshare]
    constructor
    · -- a second rejection is counted, but the record was among the rejected ones
      rintro ⟨_, _, hrejected, _, _⟩ hold
      have holdShare : isRejected old = true := decide_eq_true hold
      rw [holdShare] at hrejected
      exact Words.toNat_add_one_ne _ (Nat.add_right_cancel hrejected)
    · intro holdRejected
      have hfits := count_add_one_lt h hlookup (isRejected_of_ne holdRejected) hshare
      rw [← h.totalRejected] at hfits
      rw [isRejected_of_ne holdRejected]
      exact ⟨rfl, rfl, (Words.toNat_add_one_eq_iff _).mpr hfits, rfl, rfl⟩

/-! ### Runs -/

/-- The statistics agree with the records in every state of a run iff no step of it
submits an id again, processes a decided record or rejects a rejected one. -/
theorem statsAgree_iff_countsOnce (calls : List Call) :
    (∀ pre, pre <+: calls → StatsAgree (final step new pre)) ↔
      Each step CountsOnce new calls := by
  refine forall_final_iff statsAgree_new ?_
  intro pre c h
  cases c with
  | submitRequest request nowMs now => exact statsAgree_submitRequest_iff h request nowMs now
  | processRequest requestId now =>
    exact statsAgree_processRequest_iff (sameIds_final pre) h requestId now
  | approveReimbursement requestId signature now =>
    exact iff_of_true (statsAgree_approveReimbursement h requestId signature now) trivial
  | rejectReimbursement requestId reason now =>
    exact statsAgree_rejectReimbursement_iff h requestId reason now
  | checkWalletBalance wallet required => exact iff_of_true h trivial
  | getReimbursementStatus requestId => exact iff_of_true h trivial

/-- A request is rejected twice. -/
def rejectTwice : List Call :=
  [.submitRequest { ReimbursementRequest.default with
      requestId := "req_1", walletAddress := "wallet_123", gasCost := 5000 } 0 0,
    .rejectReimbursement "req_1" "invalid" 1, .rejectReimbursement "req_1" "invalid" 2]

theorem not_forall_statsAgree : ¬ ∀ calls : List Call, StatsAgree (final step new calls) := by
  intro h
  have hrejected := (h rejectTwice).totalRejected
  revert hrejected
  decide +kernel

end GasReimbursementManager

end Membra
