/-
Gas reimbursement requests.

`GasReimbursementManager` keeps requests, their records, the wallets they come
from and running statistics.  `step` performs one public operation; the clock
readings it takes are arguments of the call.  The `update_stats` that
`process_request` calls last has an empty body.

* `step_cases` — all that one operation can do to the manager;
* `sameIds_final` — a reachable manager has a record for every request and no
  others.
-/
import MembraL3.Clock
import MembraL3.Crypto
import MembraL3.Lib.Runs
import MembraL3.Lib.Words
import Mathlib.Data.String.Basic

namespace Membra

inductive ReimbursementType where
  | preTransaction
  | postTransaction
  | bonus
  | emergency
  | zkComputeBacked
  deriving DecidableEq

/-- The status strings of a record; the last three are those of ZK-backed
reimbursements. -/
inductive ReimbursementStatus where
  | pending
  | pendingApproval
  | approved
  | rejected
  | paid
  | notFound
  | pendingZkVerification
  | zkVerified
  | zkVerificationFailed
  deriving DecidableEq

namespace ReimbursementStatus

/-- A status that `approve_reimbursement` accepts. -/
def IsOpen (status : ReimbursementStatus) : Prop := status = pending ∨ status = pendingApproval

/-- A decision was made. -/
def IsDecided (status : ReimbursementStatus) : Prop := status = approved ∨ status = rejected

theorem IsOpen.not_isDecided {status : ReimbursementStatus} (h : IsOpen status) :
    ¬ IsDecided status := by
  rcases h with rfl | rfl
  · simp [IsDecided]
  · simp [IsDecided]

end ReimbursementStatus

structure TransactionGasInfo where
  transactionId : String
  walletAddress : String
  totalGasCost : UInt64
  transactionType : String
  success : Bool

structure ReimbursementRequest where
  requestId : String
  transactionId : String
  walletAddress : String
  reimbursementType : ReimbursementType
  gasCost : UInt64
  requestedAmount : UInt64
  justification : String
  transactionHash : Hash
  createdAt : Ticks

/-- `ReimbursementRequest()`. -/
def ReimbursementRequest.default : ReimbursementRequest where
  requestId := ""
  transactionId := ""
  walletAddress := ""
  reimbursementType := .preTransaction
  gasCost := 0
  requestedAmount := 0
  justification := ""
  transactionHash := zeroHash
  createdAt := 0

structure ReimbursementRecord where
  requestId : String
  transactionId : String
  walletAddress : String
  reimbursementType : ReimbursementType
  gasCost : UInt64
  reimbursedAmount : UInt64
  bonusAmount : UInt64
  totalAmount : UInt64
  status : ReimbursementStatus
  processedAt : Ticks
  approvalSignature : String
  metadata : Store String String

/-- `ReimbursementRecord()`. -/
def ReimbursementRecord.default : ReimbursementRecord where
  requestId := ""
  transactionId := ""
  walletAddress := ""
  reimbursementType := .preTransaction
  gasCost := 0
  reimbursedAmount := 0
  bonusAmount := 0
  totalAmount := 0
  status := .pending
  processedAt := 0
  approvalSignature := ""
  metadata := ∅

structure GasPoolConfig where
  poolId : String
  totalPoolBalance : UInt64
  availableBalance : UInt64
  reimbursementRateBps : UInt64
  bonusRateBps : UInt64
  maxReimbursementPerTx : UInt64
  minBalanceThreshold : UInt64
  autoApproveEnabled : Bool
  zkComputeBackingEnabled : Bool

def minBalanceLamports : UInt64 := 1000

def defaultReimbursementRateBps : UInt64 := 10000

/-- Declared as the maximum of 2x; no function of the source reads it. -/
def maxReimbursementMultiplier : UInt64 := 2

/-- `GasPoolConfig()`. -/
def GasPoolConfig.default : GasPoolConfig where
  poolId := ""
  totalPoolBalance := 0
  availableBalance := 0
  reimbursementRateBps := defaultReimbursementRateBps
  bonusRateBps := 0
  maxReimbursementPerTx := 10000000
  minBalanceThreshold := minBalanceLamports
  autoApproveEnabled := false
  zkComputeBackingEnabled := false

structure WalletBalanceState where
  walletAddress : String
  currentBalance : UInt64
  minBalanceThreshold : UInt64
  isBelowThreshold : Bool
  pendingReimbursements : UInt64
  totalReimbursed : UInt64
  lastUpdated : Ticks
  deriving DecidableEq

/-- `WalletBalanceState()`. -/
def WalletBalanceState.default : WalletBalanceState where
  walletAddress := ""
  currentBalance := 0
  minBalanceThreshold := minBalanceLamports
  isBelowThreshold := false
  pendingReimbursements := 0
  totalReimbursed := 0
  lastUpdated := 0

structure ReimbursementStats where
  totalRequests : UInt64
  totalApproved : UInt64
  totalRejected : UInt64
  totalReimbursed : UInt64
  totalBonusPaid : UInt64
  averageReimbursementTimeMs : ℚ

structure GasReimbursementManager where
  requests : Store String ReimbursementRequest
  records : Store String ReimbursementRecord
  walletStates : Store String WalletBalanceState
  stats : ReimbursementStats

namespace GasReimbursementManager

def new : GasReimbursementManager where
  requests := ∅
  records := ∅
  walletStates := ∅
  stats := ⟨0, 0, 0, 0, 0, 0⟩

/-! ### Amounts -/

def calculateReimbursement (gasInfo : TransactionGasInfo) (config : GasPoolConfig) : UInt64 :=
  let baseAmount := (gasInfo.totalGasCost * config.reimbursementRateBps) / 10000
  let cappedAmount := min baseAmount config.maxReimbursementPerTx
  let multiplier := if gasInfo.success then 1 else 0
  cappedAmount * multiplier

def calculateBonus (gasInfo : TransactionGasInfo) (config : GasPoolConfig) : UInt64 :=
  if !gasInfo.success || config.bonusRateBps = 0 then 0
  else
    let bonusAmount := (gasInfo.totalGasCost * config.bonusRateBps) / 10000
    let maxBonus := gasInfo.totalGasCost / 2
    min bonusAmount maxBonus

/-- The gas info that `process_request` fills in. -/
def customGasInfo (request : ReimbursementRequest) : TransactionGasInfo where
  transactionId := request.transactionId
  walletAddress := request.walletAddress
  totalGasCost := request.gasCost
  transactionType := "custom"
  success := true

/-! ### Operations -/

def generateRequestId (nowMs : Ticks) : String := "gas_req_" ++ toString nowMs

/-- The id under which a request is stored. -/
def effectiveId (request : ReimbursementRequest) (nowMs : Ticks) : String :=
  if request.requestId = "" then generateRequestId nowMs else request.requestId

def updateWalletState (manager : GasReimbursementManager) (walletAddress : String)
    (amount : UInt64) (now : Ticks) : GasReimbursementManager :=
  let state := (manager.walletStates.lookup walletAddress).getD .default
  let state := { state with
    walletAddress := walletAddress
    pendingReimbursements := state.pendingReimbursements + amount
    lastUpdated := now }
  let state :=
    if state.currentBalance < state.minBalanceThreshold then
      { state with isBelowThreshold := true }
    else state
  { manager with walletStates := manager.walletStates.assign walletAddress state }

/-- The record that `submit_request` fills in. -/
def initialRecord (request : ReimbursementRequest) (requestId : String) : ReimbursementRecord :=
  { ReimbursementRecord.default with
    requestId := requestId
    transactionId := request.transactionId
    walletAddress := request.walletAddress
    reimbursementType := request.reimbursementType
    gasCost := request.gasCost
    status := .pending
    processedAt := 0 }

def submitRequest (manager : GasReimbursementManager) (request : ReimbursementRequest)
    (nowMs now : Ticks) : String × GasReimbursementManager :=
  let requestId := effectiveId request nowMs
  let manager := { manager with
    requests := manager.requests.assign requestId request
    records := manager.records.assign requestId (initialRecord request requestId)
    stats := { manager.stats with totalRequests := manager.stats.totalRequests + 1 } }
  (requestId, manager.updateWalletState request.walletAddress request.gasCost now)

/-- The record returned for an unknown id. -/
def notFoundRecord (requestId : String) : ReimbursementRecord :=
  { ReimbursementRecord.default with requestId := requestId, status := .notFound }

/-- The record with the amounts that `process_request` computes. -/
def priced (record : ReimbursementRecord) (request : ReimbursementRequest) (now : Ticks) :
    ReimbursementRecord :=
  let reimbursedAmount := calculateReimbursement (customGasInfo request) .default
  let bonusAmount := calculateBonus (customGasInfo request) .default
  { record with
    reimbursedAmount := reimbursedAmount
    bonusAmount := bonusAmount
    totalAmount := reimbursedAmount + bonusAmount
    processedAt := now }

/-- The record after an approval. -/
def approvedRecord (record : ReimbursementRecord) (approverSignature : String) (now : Ticks) :
    ReimbursementRecord :=
  { record with
    status := .approved
    approvalSignature := approverSignature
    processedAt := now }

/-- The record after a rejection. -/
def rejectedRecord (record : ReimbursementRecord) (reason : String) (now : Ticks) :
    ReimbursementRecord :=
  { record with
    status := .rejected
    metadata := record.metadata.assign "rejection_reason" reason
    processedAt := now }

/-- The statistics after approving a record: a zero bonus is not added. -/
def approveStats (stats : ReimbursementStats) (record : ReimbursementRecord) :
    ReimbursementStats :=
  { stats with
    totalApproved := stats.totalApproved + 1
    totalReimbursed := stats.totalReimbursed + record.totalAmount
    totalBonusPaid :=
      if record.bonusAmount > 0 then stats.totalBonusPaid + record.bonusAmount
      else stats.totalBonusPaid }

def processRequest (manager : GasReimbursementManager) (requestId : String) (now : Ticks) :
    ReimbursementRecord × GasReimbursementManager :=
  match manager.requests.lookup requestId with
  | none => (notFoundRecord requestId, manager)
  | some request =>
    -- `records_[request_id]` adds an empty record where there is none
    let record := (manager.records.lookup requestId).getD .default
    let record := priced record request now
    if GasPoolConfig.default.autoApproveEnabled then
      let record := { record with status := .approved }
      (record, { manager with
        records := manager.records.assign requestId record
        stats := approveStats manager.stats record })
    else
      let record := { record with status := .pendingApproval }
      (record, { manager with records := manager.records.assign requestId record })

def approveReimbursement (manager : GasReimbursementManager) (requestId approverSignature : String)
    (now : Ticks) : Bool × GasReimbursementManager :=
  match manager.records.lookup requestId with
  | none => (false, manager)
  | some record =>
    if record.status ≠ .pending ∧ record.status ≠ .pendingApproval then (false, manager)
    else
      let record := approvedRecord record approverSignature now
      (true, { manager with
        records := manager.records.assign requestId record
        stats := approveStats manager.stats record })

def rejectReimbursement (manager : GasReimbursementManager) (requestId reason : String)
    (now : Ticks) : Bool × GasReimbursementManager :=
  match manager.records.lookup requestId with
  | none => (false, manager)
  | some record =>
    if record.status = .approved ∨ record.status = .paid then (false, manager)
    else
      (true, { manager with
        records := manager.records.assign requestId (rejectedRecord record reason now)
        stats := { manager.stats with totalRejected := manager.stats.totalRejected + 1 } })

/-- A wallet without a state is taken to have sufficient balance. -/
def checkWalletBalance (manager : GasReimbursementManager) (walletAddress : String)
    (requiredAmount : UInt64) : Bool :=
  match manager.walletStates.lookup walletAddress with
  | none => true
  | some state =>
    let availableBalance := state.currentBalance - state.pendingReimbursements
    availableBalance ≥ requiredAmount + state.minBalanceThreshold

def getReimbursementStatus (manager : GasReimbursementManager) (requestId : String) :
    ReimbursementRecord :=
  match manager.records.lookup requestId with
  | some record => record
  | none => notFoundRecord requestId

/-- A record that waits for a decision. -/
def isPending (record : ReimbursementRecord) : Bool :=
  record.status = .pending ∨ record.status = .pendingApproval

def getPendingReimbursements (manager : GasReimbursementManager) : List ReimbursementRecord :=
  manager.records.sortedValues.filter isPending

/-! ### Calls -/

inductive Call where
  | submitRequest (request : ReimbursementRequest) (nowMs now : Ticks)
  | processRequest (requestId : String) (now : Ticks)
  | approveReimbursement (requestId approverSignature : String) (now : Ticks)
  | rejectReimbursement (requestId reason : String) (now : Ticks)
  | checkWalletBalance (walletAddress : String) (requiredAmount : UInt64)
  | getReimbursementStatus (requestId : String)

inductive Reply where
  | submitted (requestId : String)
  | processed (record : ReimbursementRecord)
  | approved (ok : Bool)
  | rejected (ok : Bool)
  | checked (ok : Bool)
  | status (record : ReimbursementRecord)

def step (manager : GasReimbursementManager) : Call → Reply × GasReimbursementManager
  | .submitRequest request nowMs now =>
    (manager.submitRequest request nowMs now).map .submitted id
  | .processRequest requestId now => (manager.processRequest requestId now).map .processed id
  | .approveReimbursement requestId signature now =>
    (manager.approveReimbursement requestId signature now).map .approved id
  | .rejectReimbursement requestId reason now =>
    (manager.rejectReimbursement requestId reason now).map .rejected id
  | .checkWalletBalance wallet required =>
    (.checked (manager.checkWalletBalance wallet required), manager)
  | .getReimbursementStatus requestId =>
    (.status (manager.getReimbursementStatus requestId), manager)

/-! ### What an operation does -/

@[simp] theorem updateWalletState_requests (manager : GasReimbursementManager) (wallet : String)
    (amount : UInt64) (now : Ticks) :
    (manager.updateWalletState wallet amount now).requests = manager.requests := rfl

@[simp] theorem updateWalletState_records (manager : GasReimbursementManager) (wallet : String)
    (amount : UInt64) (now : Ticks) :
    (manager.updateWalletState wallet amount now).records = manager.records := rfl

/-- The record that `process_request` leaves: the default config does not approve
automatically. -/
def processedRecord (record : ReimbursementRecord) (request : ReimbursementRequest) (now : Ticks) :
    ReimbursementRecord :=
  { priced record request now with status := .pendingApproval }

/-- An operation changes nothing, or submits, processes, approves or rejects. -/
theorem step_cases (manager : GasReimbursementManager) (c : Call) :
    ((step manager c).2 = manager ∧ (step manager c).1 ≠ .approved true) ∨
    (∃ request nowMs now, c = .submitRequest request nowMs now ∧
      (step manager c).2 = updateWalletState
        { manager with
          requests := manager.requests.assign (effectiveId request nowMs) request
          records := manager.records.assign (effectiveId request nowMs)
            (initialRecord request (effectiveId request nowMs))
          stats := { manager.stats with totalRequests := manager.stats.totalRequests + 1 } }
        request.walletAddress request.gasCost now) ∨
    (∃ requestId request now, c = .processRequest requestId now ∧
      manager.requests.lookup requestId = some request ∧
      (step manager c).2 = { manager with
        records := manager.records.assign requestId
          (processedRecord ((manager.records.lookup requestId).getD .default) request now) }) ∨
    (∃ requestId signature now record, c = .approveReimbursement requestId signature now ∧
      manager.records.lookup requestId = some record ∧
      record.status.IsOpen ∧ (step manager c).1 = .approved true ∧
      (step manager c).2 = { manager with
        records := manager.records.assign requestId (approvedRecord record signature now)
        stats := approveStats manager.stats record }) ∨
    (∃ requestId reason now record, c = .rejectReimbursement requestId reason now ∧
      manager.records.lookup requestId = some record ∧
      record.status ≠ .approved ∧ record.status ≠ .paid ∧
      (step manager c).2 = { manager with
        records := manager.records.assign requestId (rejectedRecord record reason now)
        stats := { manager.stats with totalRejected := manager.stats.totalRejected + 1 } }) := by
  cases c with
  | submitRequest request nowMs now =>
    -- a submission has no guard
    exact .inr (.inl ⟨request, nowMs, now, rfl, rfl⟩)
  | processRequest requestId now =>
    cases hrequest : manager.requests.lookup requestId with
    | none =>
      left
      simp [step, processRequest, hrequest]
    | some request =>
      refine .inr (.inr (.inl ⟨requestId, request, now, rfl, hrequest, ?_⟩))
      simp only [step, processRequest, hrequest]
      rfl
  | approveReimbursement requestId signature now =>
    cases hrecord : manager.records.lookup requestId with
    | none =>
      left
      simp [step, approveReimbursement, hrecord]
    | some record =>
      by_cases hopen : record.status ≠ .pending ∧ record.status ≠ .pendingApproval
      · left
        simp [step, approveReimbursement, hrecord, hopen]
      · -- the guard is the negation of `IsOpen`
        have hopen' : record.status.IsOpen := by
          by_contra hnot
          exact hopen (not_or.mp hnot)
        refine .inr (.inr (.inr (.inl ⟨requestId, signature, now, record, rfl, hrecord, hopen', ?_,
          ?_⟩)))
        · simp only [step, approveReimbursement, hrecord, if_neg hopen]
          rfl
        · simp only [step, approveReimbursement, hrecord, if_neg hopen]
          rfl
  | rejectReimbursement requestId reason now =>
    cases hrecord : manager.records.lookup requestId with
    | none =>
      left
      simp [step, rejectReimbursement, hrecord]
    | some record =>
      by_cases hclosed : record.status = .approved ∨ record.status = .paid
      · left
        simp [step, rejectReimbursement, hrecord, hclosed]
      · obtain ⟨happroved, hpaid⟩ := not_or.mp hclosed
        refine .inr (.inr (.inr (.inr ⟨requestId, reason, now, record, rfl, hrecord, happroved,
          hpaid, ?_⟩)))
        simp only [step, rejectReimbursement, hrecord, if_neg hclosed]
        rfl
  | checkWalletBalance wallet required => exact .inl ⟨rfl, by simp [step]⟩
  | getReimbursementStatus requestId => exact .inl ⟨rfl, by simp [step]⟩

theorem isPending_iff {record : ReimbursementRecord} :
    isPending record = true ↔ record.status.IsOpen := decide_eq_true_iff

/-- An approval decides an open record. -/
theorem step_approveReimbursement_of_isOpen {manager : GasReimbursementManager}
    {requestId : String} {record : ReimbursementRecord}
    (hrecord : manager.records.lookup requestId = some record) (hopen : record.status.IsOpen)
    (signature : String) (now : Ticks) :
    (step manager (.approveReimbursement requestId signature now)).2 = { manager with
      records := manager.records.assign requestId (approvedRecord record signature now)
      stats := approveStats manager.stats record } := by
  have hguard : ¬ (record.status ≠ .pending ∧ record.status ≠ .pendingApproval) :=
    fun hnot => hopen.elim hnot.1 hnot.2
  simp only [step, approveReimbursement, hrecord, if_neg hguard]
  rfl

theorem step_approveReimbursement_of_not_isOpen {manager : GasReimbursementManager}
    {requestId : String}
    (h : ∀ record, manager.records.lookup requestId = some record → ¬ record.status.IsOpen)
    (signature : String) (now : Ticks) :
    (step manager (.approveReimbursement requestId signature now)).2 = manager := by
  cases hrecord : manager.records.lookup requestId with
  | none => simp [step, approveReimbursement, hrecord]
  | some record =>
    have hguard : record.status ≠ .pending ∧ record.status ≠ .pendingApproval :=
      not_or.mp (h record hrecord)
    simp [step, approveReimbursement, hrecord, hguard]

/-- A rejection decides every record but an approved or a paid one. -/
theorem step_rejectReimbursement_of_lookup {manager : GasReimbursementManager}
    {requestId : String} {record : ReimbursementRecord}
    (hrecord : manager.records.lookup requestId = some record)
    (hguard : ¬ (record.status = .approved ∨ record.status = .paid)) (reason : String)
    (now : Ticks) :
    (step manager (.rejectReimbursement requestId reason now)).2 = { manager with
      records := manager.records.assign requestId (rejectedRecord record reason now)
      stats := { manager.stats with totalRejected := manager.stats.totalRejected + 1 } } := by
  simp only [step, rejectReimbursement, hrecord, if_neg hguard]
  rfl

theorem step_rejectReimbursement_of_closed {manager : GasReimbursementManager}
    {requestId : String}
    (h : ∀ record, manager.records.lookup requestId = some record →
      record.status = .approved ∨ record.status = .paid) (reason : String) (now : Ticks) :
    (step manager (.rejectReimbursement requestId reason now)).2 = manager := by
  cases hrecord : manager.records.lookup requestId with
  | none => simp [step, rejectReimbursement, hrecord]
  | some record => simp [step, rejectReimbursement, hrecord, h record hrecord]

/-! ### Records and requests -/

/-- Records and requests have the same ids. -/
def SameIds (manager : GasReimbursementManager) : Prop :=
  ∀ id, id ∈ manager.records ↔ id ∈ manager.requests

/-- Overwriting a record adds no id. -/
theorem mem_assign_of_mem {records : Store String ReimbursementRecord} {id : String}
    (h : id ∈ records) (record : ReimbursementRecord) (id' : String) :
    id' ∈ records.assign id record ↔ id' ∈ records := by
  rw [Store.mem_assign, or_iff_right_of_imp]
  rintro rfl
  exact h

theorem sameIds_step (manager : GasReimbursementManager) (c : Call) (h : SameIds manager) :
    SameIds (step manager c).2 := by
  intro id
  rcases step_cases manager c with ⟨hsame, _⟩ | ⟨request, nowMs, now, rfl, hsubmit⟩ |
    ⟨requestId, request, now, rfl, hrequest, hprocess⟩ |
    ⟨requestId, signature, now, record, rfl, hrecord, _, _, happrove⟩ |
    ⟨requestId, reason, now, record, rfl, hrecord, _, _, hreject⟩
  · rw [hsame]
    exact h id
  · rw [hsubmit, updateWalletState_records, updateWalletState_requests, Store.mem_assign,
      Store.mem_assign, h id]
  · have hmem : requestId ∈ manager.records := (h requestId).mpr (Store.mem_of_lookup hrequest)
    rw [hprocess]
    exact (mem_assign_of_mem hmem _ id).trans (h id)
  · rw [happrove]
    exact (mem_assign_of_mem (Store.mem_of_lookup hrecord) _ id).trans (h id)
  · rw [hreject]
    exact (mem_assign_of_mem (Store.mem_of_lookup hrecord) _ id).trans (h id)

theorem sameIds_new : SameIds new := fun id => by simp [new]

theorem sameIds_final (calls : List Call) : SameIds (Runs.final step new calls) :=
  Runs.final_invariant sameIds_step sameIds_new calls

/-- An invariant that may rely on the ids in each step. -/
theorem final_invariant_of_sameIds {Inv : GasReimbursementManager → Prop}
    (hstep : ∀ manager c, SameIds manager → Inv manager → Inv (step manager c).2) (h0 : Inv new)
    (calls : List Call) : Inv (Runs.final step new calls) := by
  have hboth : ∀ manager c, SameIds manager ∧ Inv manager →
      SameIds (step manager c).2 ∧ Inv (step manager c).2 :=
    fun manager c h => ⟨sameIds_step manager c h.1, hstep manager c h.1 h.2⟩
  exact (Runs.final_invariant hboth ⟨sameIds_new, h0⟩ calls).2

/-- A stored request has a record. -/
theorem exists_record_of_request {manager : GasReimbursementManager} (h : SameIds manager)
    {requestId : String} {request : ReimbursementRequest}
    (hrequest : manager.requests.lookup requestId = some request) :
    ∃ record, manager.records.lookup requestId = some record := by
  have hmem : requestId ∈ manager.records := (h requestId).mpr (Store.mem_of_lookup hrequest)
  exact Option.isSome_iff_exists.mp (AList.lookup_isSome.mpr hmem)

/-- Processing a stored record rewrites it. -/
theorem step_processRequest_of_lookup {manager : GasReimbursementManager} (h : SameIds manager)
    {requestId : String} {record : ReimbursementRecord}
    (hrecord : manager.records.lookup requestId = some record) (now : Ticks) :
    ∃ request, (step manager (.processRequest requestId now)).2 = { manager with
      records := manager.records.assign requestId (processedRecord record request now) } := by
  have hmem := (h requestId).mp (Store.mem_of_lookup hrecord)
  obtain ⟨request, hrequest⟩ := Option.isSome_iff_exists.mp (AList.lookup_isSome.mpr hmem)
  refine ⟨request, ?_⟩
  simp only [step, processRequest, hrequest, hrecord]
  rfl

/-- Processing an unknown id changes nothing. -/
theorem step_processRequest_of_lookup_none {manager : GasReimbursementManager}
    (h : SameIds manager) {requestId : String}
    (hrecord : manager.records.lookup requestId = none) (now : Ticks) :
    (step manager (.processRequest requestId now)).2 = manager := by
  have hrequest : manager.requests.lookup requestId = none :=
    AList.lookup_eq_none.mpr fun hmem => AList.lookup_eq_none.mp hrecord ((h requestId).mpr hmem)
  simp [step, processRequest, hrequest]

end GasReimbursementManager

end Membra
