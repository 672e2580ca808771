/-
Recovery of preserved wallets.

`WalletRecoveryService` keeps recovery requests, which it verifies and completes,
and prints recovery keys from a hash.  It shares no state with the manager of
the records: a `PreservationSystem` is the two side by side, and a run of it any
interleaving of their operations.

* `length_generateRecoveryKey` — a key that is issued has 64 characters.
-/
import MembraL3.WalletPreservation

namespace Membra

/-- The texts of `RecoveryStatus::status`. -/
inductive RecoveryState where
  | pending
  | verified
  | completed
  | notFound
  deriving DecidableEq

/-- The times are `none` while the program has not written them. -/
structure RecoveryStatus where
  recoveryId : String
  recordId : String
  status : RecoveryState
  initiatedAt : Option Nanoseconds
  completedAt : Option Nanoseconds
  verificationMethod : String
  deriving DecidableEq

structure WalletRecoveryService where
  recoveryRequests : Store String RecoveryStatus

namespace WalletRecoveryService

def new : WalletRecoveryService := ⟨∅⟩

/-- The id of a recovery request. -/
def recoveryId (now : Nanoseconds) : String := "recovery_" ++ toString now.toInt

def initiateRecovery (service : WalletRecoveryService) (recordId : String)
    (idNow stampNow : Nanoseconds) : String × WalletRecoveryService :=
  let id := recoveryId idNow
  let status : RecoveryStatus :=
    { recoveryId := id
      recordId := recordId
      status := .pending
      initiatedAt := some stampNow
      completedAt := none
      verificationMethod := "signature" }
  (id, ⟨service.recoveryRequests.assign id status⟩)

def verifyRecoveryRequest (service : WalletRecoveryService) (recoveryId : String)
    (now : Nanoseconds) : Bool × WalletRecoveryService :=
  match service.recoveryRequests.lookup recoveryId with
  | none => (false, service)
  | some status =>
    let status := { status with status := .verified, completedAt := some now }
    (true, ⟨service.recoveryRequests.assign recoveryId status⟩)

/-- The length of the key in bytes. -/
def validateRecoveryKey (recoveryKey : String) : Bool := recoveryKey.utf8ByteSize = 64

def completeRecovery (service : WalletRecoveryService) (recoveryId recoveryKey : String)
    (now : Nanoseconds) : Bool × WalletRecoveryService :=
  match service.recoveryRequests.lookup recoveryId with
  | none => (false, service)
  | some status =>
    if status.status ≠ .verified then (false, service)
    else if !validateRecoveryKey recoveryKey then (false, service)
    else
      let status := { status with status := .completed, completedAt := some now }
      (true, ⟨service.recoveryRequests.assign recoveryId status⟩)

def generateRecoveryKey (sha256 : Sha256) (walletAddress : String) (now : Nanoseconds) : String :=
  hex (sha256 (bytesOf walletAddress ++ bytesOf (toString (milliseconds now)))).toList

def getRecoveryStatus (service : WalletRecoveryService) (recoveryId : String) : RecoveryStatus :=
  (service.recoveryRequests.lookup recoveryId).getD
    { recoveryId := recoveryId
      recordId := ""
      status := .notFound
      initiatedAt := none
      completedAt := none
      verificationMethod := "" }

/-! ### Calls -/

inductive Call where
  | initiateRecovery (recordId : String) (idNow stampNow : Nanoseconds)
  | verifyRecoveryRequest (recoveryId : String) (now : Nanoseconds)
  | completeRecovery (recoveryId recoveryKey : String) (now : Nanoseconds)
  | generateRecoveryKey (walletAddress : String) (now : Nanoseconds)
  | validateRecoveryKey (recoveryKey : String)
  | getRecoveryStatus (recoveryId : String)

inductive Reply where
  | initiated (recoveryId : String)
  | verified (ok : Bool)
  | completed (ok : Bool)
  | recoveryKey (key : String)
  | valid (ok : Bool)
  | status (status : RecoveryStatus)

def step (sha256 : Sha256) (service : WalletRecoveryService) :
    Call → Reply × WalletRecoveryService
  | .initiateRecovery recordId idNow stampNow =>
    (service.initiateRecovery recordId idNow stampNow).map .initiated id
  | .verifyRecoveryRequest recoveryId now =>
    (service.verifyRecoveryRequest recoveryId now).map .verified id
  | .completeRecovery recoveryId key now =>
    (service.completeRecovery recoveryId key now).map .completed id
  | .generateRecoveryKey wallet now =>
    (.recoveryKey (generateRecoveryKey sha256 wallet now), service)
  | .validateRecoveryKey key => (.valid (validateRecoveryKey key), service)
  | .getRecoveryStatus recoveryId => (.status (service.getRecoveryStatus recoveryId), service)

theorem length_generateRecoveryKey (sha256 : Sha256) (wallet : String) (now : Nanoseconds) :
    (generateRecoveryKey sha256 wallet now).length = 64 := by
  rw [generateRecoveryKey, length_hex, Vector.length_toList]

end WalletRecoveryService

/-! ### Both services -/

structure PreservationSystem where
  manager : WalletPreservationManager
  recovery : WalletRecoveryService

namespace PreservationSystem

def new : PreservationSystem := ⟨.new, .new⟩

inductive Call where
  | manager (c : WalletPreservationManager.Call)
  | recovery (c : WalletRecoveryService.Call)

inductive Reply where
  | manager (r : WalletPreservationManager.Reply)
  | recovery (r : WalletRecoveryService.Reply)

def step (sha256 : Sha256) (system : PreservationSystem) : Call → Reply × PreservationSystem
  | .manager c =>
    let (reply, manager) := WalletPreservationManager.step sha256 system.manager c
    (.manager reply, { system with manager := manager })
  | .recovery c =>
    let (reply, recovery) := WalletRecoveryService.step sha256 system.recovery c
    (.recovery reply, { system with recovery := recovery })

end PreservationSystem

end Membra
