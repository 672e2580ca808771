/-
Hashes of snapshots.

`generate_state_hash` and `archive_snapshot` hash the address of a wallet, which has any
length, and behind it the balance and, for the state, the time as eight bytes each.  They
can be read off from the end, so that only a collision can hide a difference.

* `stateData_eq_iff`, `archiveData_eq_iff` — what is hashed is the same iff the fields are;
* `snapshotHashes_bind` — and so are the hash and the location, collisions apart.
-/
import MembraL3.WalletPreservation

namespace Membra

/-- What the two functions read of a snapshot, the address being any byte string. -/
structure SnapshotBytes where
  walletAddress : List UInt8
  balance : UInt64
  snapshotTimestamp : Nanoseconds

/-- A snapshot whose address is a text. -/
def WalletSnapshot.bytes (snapshot : WalletSnapshot) : SnapshotBytes where
  walletAddress := bytesOf snapshot.walletAddress
  balance := snapshot.balance
  snapshotTimestamp := snapshot.snapshotTimestamp

/-- Two different byte strings have one hash. -/
def Collide (sha256 : Sha256) (data data' : List UInt8) : Prop :=
  data ≠ data' ∧ sha256 data = sha256 data'

namespace SnapshotBytes

/-- The `state_data` of `generate_state_hash`. -/
def stateData (snapshot : SnapshotBytes) : List UInt8 :=
  WalletPreservationMonitor.stateData snapshot.walletAddress snapshot.balance
    snapshot.snapshotTimestamp

/-- The `snapshot_data` of `archive_snapshot`. -/
def archiveData (snapshot : SnapshotBytes) : List UInt8 :=
  WalletPreservationManager.archiveData snapshot.walletAddress snapshot.balance

def generateStateHash (sha256 : Sha256) (snapshot : SnapshotBytes) : Hash :=
  sha256 snapshot.stateData

def archiveSnapshot (sha256 : Sha256) (snapshot : SnapshotBytes) : String :=
  "ipfs://" ++ hex (sha256 snapshot.archiveData).toList

/-- On the snapshots of the monitor it is the hash that they are given. -/
theorem generateStateHash_bytes (sha256 : Sha256) (snapshot : WalletSnapshot) :
    generateStateHash sha256 snapshot.bytes
      = WalletPreservationMonitor.generateStateHash sha256 snapshot := rfl

theorem archiveSnapshot_bytes (sha256 : Sha256) (snapshot : WalletSnapshot) :
    archiveSnapshot sha256 snapshot.bytes
      = WalletPreservationManager.archiveSnapshot sha256 snapshot := rfl

variable {snapshot snapshot' : SnapshotBytes}

theorem toUInt64_injective : Function.Injective Int64.toUInt64 := by
  rintro ⟨word⟩ ⟨word'⟩ h
  exact congrArg Int64.ofUInt64 h

theorem archiveData_eq_iff :
    snapshot.archiveData = snapshot'.archiveData ↔
      snapshot.walletAddress = snapshot'.walletAddress ∧ snapshot.balance = snapshot'.balance :=
  append_bytesOfWord_inj

/-- The time is read off first, then what is left is read as for the archive. -/
theorem stateData_eq_iff :
    snapshot.stateData = snapshot'.stateData ↔
      snapshot.walletAddress = snapshot'.walletAddress ∧ snapshot.balance = snapshot'.balance ∧
        snapshot.snapshotTimestamp = snapshot'.snapshotTimestamp := by
  calc snapshot.stateData = snapshot'.stateData
      ↔ snapshot.archiveData = snapshot'.archiveData ∧
          snapshot.snapshotTimestamp.toUInt64 = snapshot'.snapshotTimestamp.toUInt64 :=
        append_bytesOfWord_inj
    _ ↔ _ := by rw [archiveData_eq_iff, toUInt64_injective.eq_iff, and_assoc]

/-- The location shows the hash. -/
theorem archiveSnapshot_eq_iff {sha256 : Sha256} :
    snapshot.archiveSnapshot sha256 = snapshot'.archiveSnapshot sha256 ↔
      sha256 snapshot.archiveData = sha256 snapshot'.archiveData := by
  rw [archiveSnapshot, archiveSnapshot, String.append_right_inj, hex_injective.eq_iff,
    Vector.toList_inj]

/-- Snapshots with one hash have the same address, balance and time, and those with one
location the same address and balance, or what is hashed of them collides. -/
theorem snapshotHashes_bind (sha256 : Sha256) (snapshot snapshot' : SnapshotBytes) :
    (snapshot.generateStateHash sha256 = snapshot'.generateStateHash sha256 ↔
      (snapshot.walletAddress = snapshot'.walletAddress ∧
        snapshot.balance = snapshot'.balance ∧
        snapshot.snapshotTimestamp = snapshot'.snapshotTimestamp) ∨
      Collide sha256 snapshot.stateData snapshot'.stateData) ∧
    (snapshot.archiveSnapshot sha256 = snapshot'.archiveSnapshot sha256 ↔
      (snapshot.walletAddress = snapshot'.walletAddress ∧
        snapshot.balance = snapshot'.balance) ∨
      Collide sha256 snapshot.archiveData snapshot'.archiveData) := by
  constructor
  · exact Codes.digest_eq_iff stateData_eq_iff
  · rw [archiveSnapshot_eq_iff]
    exact Codes.digest_eq_iff archiveData_eq_iff

end SnapshotBytes

end Membra
