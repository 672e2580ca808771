/-
Preservation of wallets.

`WalletPreservationMonitor` keeps a snapshot and a status of each wallet, which
it sets from the balance alone.  `WalletPreservationManager` keeps records of
what was done to wallets and calls its monitor.  Records lie under ids that are
printed from the clock; `freeze_wallet` and `unfreeze_wallet` look them up by
the address of the wallet.

* `getWalletStatus_updateWalletState` — an update sets the status of one wallet;
* `restoreWallet_cases`, `unfreezeWallet_of_some`, `freezeRecord_of_some` — which
  records the operations find and what they make of them.
-/
import MembraL3.Clock
import MembraL3.Crypto
import MembraL3.Lib.Store
import Mathlib.Data.String.Basic

namespace Membra

inductive PreservationStatus where
  | active
  | monitored
  | preserved
  | recovered
  | governanceLocked
  | emergencyFrozen
  deriving DecidableEq

inductive PreservationAction where
  | none
  | archive
  | restore
  | freeze
  | unfreeze
  | transferFunds
  | notifyUser
  | governanceReview
  deriving DecidableEq

structure WalletSnapshot where
  walletAddress : String
  balance : UInt64
  transactionCount : UInt64
  lastActivityTimestamp : Nanoseconds
  stateHash : Hash
  snapshotTimestamp : Nanoseconds

structure PreservationRecord where
  recordId : String
  walletAddress : String
  status : PreservationStatus
  actionTaken : PreservationAction
  balanceAtPreservation : UInt64
  preservationAmount : UInt64
  preservationTimestamp : Nanoseconds
  recoveryTimestamp : Nanoseconds
  recoveryKey : String
  archiveLocation : String
  metadata : Store String String

/-- `PreservationRecord()`. -/
def PreservationRecord.default : PreservationRecord where
  recordId := ""
  walletAddress := ""
  status := .active
  actionTaken := .none
  balanceAtPreservation := 0
  preservationAmount := 0
  preservationTimestamp := 0
  recoveryTimestamp := 0
  recoveryKey := ""
  archiveLocation := ""
  metadata := ∅

structure PreservationPolicy where
  preservationThreshold : UInt64
  criticalThreshold : UInt64
  minimumMaintenanceAmount : UInt64
  exemptWallets : List String

/-- `PreservationPolicy()`. -/
def PreservationPolicy.default : PreservationPolicy := ⟨5000, 1000, 1000, []⟩

/-! ### The monitor -/

structure WalletPreservationMonitor where
  walletSnapshots : Store String WalletSnapshot
  walletStatuses : Store String PreservationStatus
  policy : PreservationPolicy

namespace WalletPreservationMonitor

def new : WalletPreservationMonitor := ⟨∅, ∅, .default⟩

def isExempt (monitor : WalletPreservationMonitor) (walletAddress : String) : Bool :=
  walletAddress ∈ monitor.policy.exemptWallets

def checkWalletStatus (monitor : WalletPreservationMonitor) (walletAddress : String)
    (currentBalance : UInt64) : PreservationAction :=
  if monitor.isExempt walletAddress then .none
  else if currentBalance ≤ monitor.policy.criticalThreshold then .transferFunds
  else if currentBalance ≤ monitor.policy.preservationThreshold then .notifyUser
  else if currentBalance < monitor.policy.preservationThreshold * 2 then .none
  else .none

/-- What `generate_state_hash` hashes. -/
def stateData (walletAddress : List UInt8) (balance : UInt64) (snapshotTimestamp : Nanoseconds) :
    List UInt8 :=
  walletAddress ++ bytesOfWord balance ++ bytesOfWord snapshotTimestamp.toUInt64

def generateStateHash (sha256 : Sha256) (snapshot : WalletSnapshot) : Hash :=
  sha256 (stateData (bytesOf snapshot.walletAddress) snapshot.balance snapshot.snapshotTimestamp)

/-- The snapshot that `create_snapshot` takes; its hash does not read the hash field. -/
def newSnapshot (sha256 : Sha256) (walletAddress : String) (currentBalance : UInt64)
    (activityNow snapshotNow : Nanoseconds) : WalletSnapshot :=
  let snapshot : WalletSnapshot :=
    { walletAddress := walletAddress
      balance := currentBalance
      transactionCount := 0
      lastActivityTimestamp := activityNow
      stateHash := zeroHash
      snapshotTimestamp := snapshotNow }
  { snapshot with stateHash := generateStateHash sha256 snapshot }

def createSnapshot (sha256 : Sha256) (monitor : WalletPreservationMonitor) (walletAddress : String)
    (currentBalance : UInt64) (activityNow snapshotNow : Nanoseconds) :
    WalletSnapshot × WalletPreservationMonitor :=
  let snapshot := newSnapshot sha256 walletAddress currentBalance activityNow snapshotNow
  (snapshot,
    { monitor with walletSnapshots := monitor.walletSnapshots.assign walletAddress snapshot })

/-- `get_wallet_statuses()[wallet_address] = status`. -/
def setStatus (monitor : WalletPreservationMonitor) (walletAddress : String)
    (status : PreservationStatus) : WalletPreservationMonitor :=
  { monitor with walletStatuses := monitor.walletStatuses.assign walletAddress status }

/-- The status that a balance stands for. -/
def balanceStatus (monitor : WalletPreservationMonitor) (walletAddress : String)
    (balance : UInt64) : PreservationStatus :=
  if monitor.checkWalletStatus walletAddress balance ≠ .none then .monitored else .active

/-- `snapshotNow` is read only where the wallet has no snapshot yet. -/
def updateWalletState (sha256 : Sha256) (monitor : WalletPreservationMonitor)
    (walletAddress : String) (newBalance : UInt64) (activityNow snapshotNow : Nanoseconds) :
    WalletPreservationMonitor :=
  let updated :=
    match monitor.walletSnapshots.lookup walletAddress with
    | some snapshot =>
      let snapshot := { snapshot with balance := newBalance, lastActivityTimestamp := activityNow }
      { monitor with walletSnapshots := monitor.walletSnapshots.assign walletAddress snapshot }
    | none => (monitor.createSnapshot sha256 walletAddress newBalance activityNow snapshotNow).2
  updated.setStatus walletAddress (updated.balanceStatus walletAddress newBalance)

def getWalletStatus (monitor : WalletPreservationMonitor) (walletAddress : String) :
    PreservationStatus :=
  (monitor.walletStatuses.lookup walletAddress).getD .active

def needsPreservation (monitor : WalletPreservationMonitor) (walletAddress : String)
    (currentBalance : UInt64) : Bool :=
  currentBalance ≤ monitor.policy.preservationThreshold ∧ !monitor.isExempt walletAddress

/-! The statuses -/

theorem getWalletStatus_setStatus (monitor : WalletPreservationMonitor) (wallet other : String)
    (status : PreservationStatus) :
    (monitor.setStatus wallet status).getWalletStatus other
      = if other = wallet then status else monitor.getWalletStatus other := by
  rw [getWalletStatus, setStatus, Store.lookup_assign]
  by_cases hother : other = wallet
  · rw [if_pos hother, if_pos hother]
    rfl
  · rw [if_neg hother, if_neg hother]
    rfl

/-- An update sets the status of the wallet from its balance. -/
theorem getWalletStatus_updateWalletState (sha256 : Sha256) (monitor : WalletPreservationMonitor)
    (wallet other : String) (balance : UInt64) (activityNow snapshotNow : Nanoseconds) :
    (monitor.updateWalletState sha256 wallet balance activityNow snapshotNow).getWalletStatus other
      = if other = wallet then monitor.balanceStatus wallet balance
        else monitor.getWalletStatus other := by
  rw [updateWalletState, getWalletStatus_setStatus]
  -- neither branch touches the policy or the statuses
  cases monitor.walletSnapshots.lookup wallet with
  | none => rfl
  | some snapshot => rfl

theorem balanceStatus_ne_emergencyFrozen (monitor : WalletPreservationMonitor) (wallet : String)
    (balance : UInt64) : monitor.balanceStatus wallet balance ≠ .emergencyFrozen := by
  rw [balanceStatus]
  split <;> simp

end WalletPreservationMonitor

/-! ### The manager -/

structure PreservationStats where
  totalPreservations : UInt64
  totalRestorations : UInt64
  totalFundsTransferred : UInt64
  totalFrozen : UInt64
  activePreservations : UInt64
  averagePreservationTimeHours : ℚ
  deriving DecidableEq

structure WalletPreservationManager where
  preservationRecords : Store String PreservationRecord
  monitor : WalletPreservationMonitor
  stats : PreservationStats

namespace PreservationRecord

/-- The record after a restoration. -/
def restored (record : PreservationRecord) (now : Nanoseconds) : PreservationRecord :=
  { record with status := .recovered, actionTaken := .restore, recoveryTimestamp := now }

/-- The record after a freeze. -/
def frozen (record : PreservationRecord) (reason : String) : PreservationRecord :=
  { record with
    status := .emergencyFrozen
    actionTaken := .freeze
    metadata := record.metadata.assign "freeze_reason" reason }

/-- The record after an unfreeze. -/
def unfrozen (record : PreservationRecord) : PreservationRecord :=
  { record with status := .active, actionTaken := .unfreeze }

end PreservationRecord

namespace WalletPreservationManager

def new : WalletPreservationManager := ⟨∅, .new, ⟨0, 0, 0, 0, 0, 0⟩⟩

def generateRecordId (now : Nanoseconds) : String := "preserve_" ++ toString (milliseconds now)

/-- The id of a governance review. -/
def reviewId (now : Nanoseconds) : String := "gov_review_" ++ toString now.toInt

/-- What `archive_snapshot` hashes. -/
def archiveData (walletAddress : List UInt8) (balance : UInt64) : List UInt8 :=
  walletAddress ++ bytesOfWord balance

def archiveSnapshot (sha256 : Sha256) (snapshot : WalletSnapshot) : String :=
  "ipfs://" ++ hex (sha256 (archiveData (bytesOf snapshot.walletAddress) snapshot.balance)).toList

/-- The record that `preserve_wallet` stores. -/
def preservedRecord (sha256 : Sha256) (manager : WalletPreservationManager)
    (snapshot : WalletSnapshot) (walletAddress : String) (currentBalance : UInt64)
    (idNow stampNow : Nanoseconds) : PreservationRecord :=
  { PreservationRecord.default with
    recordId := generateRecordId idNow
    walletAddress := walletAddress
    status := .preserved
    actionTaken := .archive
    balanceAtPreservation := currentBalance
    preservationAmount := manager.monitor.policy.minimumMaintenanceAmount
    preservationTimestamp := stampNow
    archiveLocation := archiveSnapshot sha256 snapshot }

/-- The readings are those for the id, the snapshot (two), the record and the
update, in this order. -/
def preserveWallet (sha256 : Sha256) (manager : WalletPreservationManager) (walletAddress : String)
    (currentBalance : UInt64) (idNow activityNow snapshotNow stampNow updateNow : Nanoseconds) :
    String × WalletPreservationManager :=
  let recordId := generateRecordId idNow
  let (snapshot, monitor) := manager.monitor.createSnapshot sha256 walletAddress currentBalance
    activityNow snapshotNow
  let record := preservedRecord sha256 manager snapshot walletAddress currentBalance idNow stampNow
  (recordId,
    { preservationRecords := manager.preservationRecords.assign recordId record
      monitor := monitor.updateWalletState sha256 walletAddress currentBalance updateNow updateNow
      stats := { manager.stats with
        totalPreservations := manager.stats.totalPreservations + 1
        activePreservations := manager.stats.activePreservations + 1 } })

def restoreWallet (sha256 : Sha256) (manager : WalletPreservationManager)
    (recordId recoveryKey : String) (stampNow activityNow snapshotNow : Nanoseconds) :
    Bool × WalletPreservationManager :=
  match manager.preservationRecords.lookup recordId with
  | none => (false, manager)
  | some record =>
    if record.recoveryKey ≠ recoveryKey then (false, manager)
    else
      (true,
        { preservationRecords := manager.preservationRecords.assign recordId
            (record.restored stampNow)
          monitor := manager.monitor.updateWalletState sha256 record.walletAddress
            record.balanceAtPreservation activityNow snapshotNow
          stats := { manager.stats with
            totalRestorations := manager.stats.totalRestorations + 1
            activePreservations := manager.stats.activePreservations - 1 } })

def transferMaintenanceFunds (sha256 : Sha256) (manager : WalletPreservationManager)
    (walletAddress : String) (amount : UInt64) (activityNow snapshotNow updateNow : Nanoseconds) :
    Bool × WalletPreservationManager :=
  let (snapshot, monitor) :=
    manager.monitor.createSnapshot sha256 walletAddress 0 activityNow snapshotNow
  (true, { manager with
    monitor := monitor.updateWalletState sha256 walletAddress (snapshot.balance + amount)
      updateNow updateNow
    stats := { manager.stats with
      totalFundsTransferred := manager.stats.totalFundsTransferred + amount } })

/-- The key and the record that `freeze_wallet` stores: the record under the address
of the wallet, or else a new one under a new id. -/
def freezeRecord (manager : WalletPreservationManager) (walletAddress reason : String)
    (idNow stampNow : Nanoseconds) : String × PreservationRecord :=
  match manager.preservationRecords.lookup walletAddress with
  | none =>
    (generateRecordId idNow,
      { PreservationRecord.default with
        recordId := generateRecordId idNow
        walletAddress := walletAddress
        preservationTimestamp := stampNow }.frozen reason)
  | some record => (walletAddress, record.frozen reason)

def freezeWallet (manager : WalletPreservationManager) (walletAddress reason : String)
    (idNow stampNow : Nanoseconds) : Bool × WalletPreservationManager :=
  let (key, record) := manager.freezeRecord walletAddress reason idNow stampNow
  (true,
    { preservationRecords := manager.preservationRecords.assign key record
      monitor := manager.monitor.setStatus walletAddress .emergencyFrozen
      stats := { manager.stats with totalFrozen := manager.stats.totalFrozen + 1 } })

def unfreezeWallet (manager : WalletPreservationManager) (walletAddress : String) :
    Bool × WalletPreservationManager :=
  match manager.preservationRecords.lookup walletAddress with
  | none => (false, manager)
  | some record =>
    (true, { manager with
      preservationRecords := manager.preservationRecords.assign walletAddress record.unfrozen
      monitor := manager.monitor.setStatus walletAddress .active })

def requestGovernanceReview (manager : WalletPreservationManager) (walletAddress reason : String)
    (idNow stampNow : Nanoseconds) : String × WalletPreservationManager :=
  let requestId := reviewId idNow
  let record : PreservationRecord :=
    { PreservationRecord.default with
      recordId := requestId
      walletAddress := walletAddress
      status := .governanceLocked
      actionTaken := .governanceReview
      preservationTimestamp := stampNow
      metadata := (∅ : Store String String).assign "review_reason" reason }
  (requestId,
    { manager with preservationRecords := manager.preservationRecords.assign requestId record })

def getPreservationRecord (manager : WalletPreservationManager) (recordId : String) :
    PreservationRecord :=
  (manager.preservationRecords.lookup recordId).getD
    { PreservationRecord.default with recordId := recordId }

def getWalletHistory (manager : WalletPreservationManager) (walletAddress : String) :
    List PreservationRecord :=
  manager.preservationRecords.sortedValues.filter fun record => record.walletAddress = walletAddress

def getAllPreserved (manager : WalletPreservationManager) : List PreservationRecord :=
  manager.preservationRecords.sortedValues.filter fun record => record.status = .preserved

/-! ### Calls -/

inductive Call where
  | preserveWallet (walletAddress : String) (currentBalance : UInt64)
      (idNow activityNow snapshotNow stampNow updateNow : Nanoseconds)
  | restoreWallet (recordId recoveryKey : String) (stampNow activityNow snapshotNow : Nanoseconds)
  | transferMaintenanceFunds (walletAddress : String) (amount : UInt64)
      (activityNow snapshotNow updateNow : Nanoseconds)
  | freezeWallet (walletAddress reason : String) (idNow stampNow : Nanoseconds)
  | unfreezeWallet (walletAddress : String)
  | requestGovernanceReview (walletAddress reason : String) (idNow stampNow : Nanoseconds)
  | getPreservationRecord (recordId : String)
  | getWalletHistory (walletAddress : String)
  | getAllPreserved
  | getStats

inductive Reply where
  | preserved (recordId : String)
  | restored (ok : Bool)
  | transferred (ok : Bool)
  | frozen (ok : Bool)
  | unfrozen (ok : Bool)
  | review (requestId : String)
  | record (record : PreservationRecord)
  | records (records : List PreservationRecord)
  | stats (stats : PreservationStats)

def step (sha256 : Sha256) (manager : WalletPreservationManager) :
    Call → Reply × WalletPreservationManager
  | .preserveWallet wallet balance idNow activityNow snapshotNow stampNow updateNow =>
    (manager.preserveWallet sha256 wallet balance idNow activityNow snapshotNow stampNow
      updateNow).map .preserved id
  | .restoreWallet recordId key stampNow activityNow snapshotNow =>
    (manager.restoreWallet sha256 recordId key stampNow activityNow snapshotNow).map .restored id
  | .transferMaintenanceFunds wallet amount activityNow snapshotNow updateNow =>
    (manager.transferMaintenanceFunds sha256 wallet amount activityNow snapshotNow updateNow).map
      .transferred id
  | .freezeWallet wallet reason idNow stampNow =>
    (manager.freezeWallet wallet reason idNow stampNow).map .frozen id
  | .unfreezeWallet wallet => (manager.unfreezeWallet wallet).map .unfrozen id
  | .requestGovernanceReview wallet reason idNow stampNow =>
    (manager.requestGovernanceReview wallet reason idNow stampNow).map .review id
  | .getPreservationRecord recordId => (.record (manager.getPreservationRecord recordId), manager)
  | .getWalletHistory wallet => (.records (manager.getWalletHistory wallet), manager)
  | .getAllPreserved => (.records manager.getAllPreserved, manager)
  | .getStats => (.stats manager.stats, manager)

/-! ### What an operation does -/

/-- A record is restored where the key is the one in the record. -/
theorem restoreWallet_eq_true_iff (sha256 : Sha256) (manager : WalletPreservationManager)
    (recordId key : String) (stampNow activityNow snapshotNow : Nanoseconds) :
    (manager.restoreWallet sha256 recordId key stampNow activityNow snapshotNow).1 = true ↔
      ∃ record, manager.preservationRecords.lookup recordId = some record ∧
        record.recoveryKey = key := by
  rw [restoreWallet]
  cases manager.preservationRecords.lookup recordId with
  | none => simp
  | some record =>
    by_cases hkey : record.recoveryKey = key
    · simp [hkey]
    · simp [hkey]

/-- A restoration fails and changes nothing where no record has the key, and what it
leaves behind where one has. -/
theorem restoreWallet_cases (sha256 : Sha256) (manager : WalletPreservationManager)
    (recordId key : String) (stampNow activityNow snapshotNow : Nanoseconds) :
    ((∀ record ∈ manager.preservationRecords.lookup recordId, record.recoveryKey ≠ key) ∧
      manager.restoreWallet sha256 recordId key stampNow activityNow snapshotNow
        = (false, manager)) ∨
    ∃ record, manager.preservationRecords.lookup recordId = some record ∧
      record.recoveryKey = key ∧
      manager.restoreWallet sha256 recordId key stampNow activityNow snapshotNow = (true,
        { preservationRecords := manager.preservationRecords.assign recordId
            (record.restored stampNow)
          monitor := manager.monitor.updateWalletState sha256 record.walletAddress
            record.balanceAtPreservation activityNow snapshotNow
          stats := { manager.stats with
            totalRestorations := manager.stats.totalRestorations + 1
            activePreservations := manager.stats.activePreservations - 1 } }) := by
  rw [restoreWallet]
  cases hlookup : manager.preservationRecords.lookup recordId with
  | none =>
    left
    simp
  | some record =>
    by_cases hkey : record.recoveryKey = key
    · refine .inr ⟨record, rfl, hkey, ?_⟩
      simp only [hkey, ne_eq, not_true_eq_false, if_false]
    · left
      simp [hkey]

theorem unfreezeWallet_of_none {manager : WalletPreservationManager} {wallet : String}
    (h : manager.preservationRecords.lookup wallet = none) :
    manager.unfreezeWallet wallet = (false, manager) := by
  rw [unfreezeWallet, h]

theorem unfreezeWallet_of_some {manager : WalletPreservationManager} {wallet : String}
    {record : PreservationRecord} (h : manager.preservationRecords.lookup wallet = some record) :
    manager.unfreezeWallet wallet = (true, { manager with
      preservationRecords := manager.preservationRecords.assign wallet record.unfrozen
      monitor := manager.monitor.setStatus wallet .active }) := by
  rw [unfreezeWallet, h]

@[simp] theorem preservationRecords_freezeWallet (manager : WalletPreservationManager)
    (wallet reason : String) (idNow stampNow : Nanoseconds) :
    (manager.freezeWallet wallet reason idNow stampNow).2.preservationRecords
      = manager.preservationRecords.assign (manager.freezeRecord wallet reason idNow stampNow).1
          (manager.freezeRecord wallet reason idNow stampNow).2 := rfl

theorem freezeRecord_of_none {manager : WalletPreservationManager} {wallet : String}
    (h : manager.preservationRecords.lookup wallet = none) (reason : String)
    (idNow stampNow : Nanoseconds) :
    (manager.freezeRecord wallet reason idNow stampNow).1 = generateRecordId idNow := by
  rw [freezeRecord, h]

theorem freezeRecord_of_some {manager : WalletPreservationManager} {wallet : String}
    {record : PreservationRecord} (h : manager.preservationRecords.lookup wallet = some record)
    (reason : String) (idNow stampNow : Nanoseconds) :
    manager.freezeRecord wallet reason idNow stampNow = (wallet, record.frozen reason) := by
  rw [freezeRecord, h]

/-- Whatever record a freeze stores, it is frozen. -/
theorem status_freezeRecord (manager : WalletPreservationManager) (wallet reason : String)
    (idNow stampNow : Nanoseconds) :
    (manager.freezeRecord wallet reason idNow stampNow).2.status = .emergencyFrozen := by
  rw [freezeRecord]
  cases manager.preservationRecords.lookup wallet with
  | none => rfl
  | some record => rfl

end WalletPreservationManager

end Membra
