/-
Snapshots of wallets.

The monitor keeps one snapshot of each wallet, with its balance and a hash of its
state.  `transfer_maintenance_funds` asks for the balance by taking a new snapshot
of balance zero, which replaces the one that is there; `update_wallet_state` changes
the balance of a snapshot and leaves its hash.

* `walletSnapshots_updateWalletState`, `walletSnapshots_transfer` — what is stored;
* `transfersAddUp_iff` — the runs in which transfers add to the balances;
* `keepsSeal_iff` — which balances a hash admits;
* `sealed_iff_changesSealed` — the runs in which every hash is that of its snapshot.
-/
import MembraL3.WalletPreservation
import MembraL3.Lib.Runs
import MembraL3.Lib.Words

namespace Membra

namespace WalletPreservationMonitor

/-- The balance in the snapshot of the wallet, zero where there is none. -/
def trackedBalance (monitor : WalletPreservationMonitor) (wallet : String) : UInt64 :=
  ((monitor.walletSnapshots.lookup wallet).map WalletSnapshot.balance).getD 0

/-- The snapshot that an update stores. -/
def updatedSnapshot (sha256 : Sha256) (monitor : WalletPreservationMonitor) (wallet : String)
    (newBalance : UInt64) (activityNow snapshotNow : Nanoseconds) : WalletSnapshot :=
  match monitor.walletSnapshots.lookup wallet with
  | some snapshot => { snapshot with balance := newBalance, lastActivityTimestamp := activityNow }
  | none => newSnapshot sha256 wallet newBalance activityNow snapshotNow

theorem walletSnapshots_updateWalletState (sha256 : Sha256) (monitor : WalletPreservationMonitor)
    (wallet : String) (balance : UInt64) (activityNow snapshotNow : Nanoseconds) :
    (monitor.updateWalletState sha256 wallet balance activityNow snapshotNow).walletSnapshots
      = monitor.walletSnapshots.assign wallet
          (monitor.updatedSnapshot sha256 wallet balance activityNow snapshotNow) := by
  rw [updateWalletState, updatedSnapshot]
  cases monitor.walletSnapshots.lookup wallet with
  | none => rfl
  | some snapshot => rfl

/-- Of a wallet that has just got a snapshot, an update stores that one. -/
theorem updatedSnapshot_createSnapshot (sha256 : Sha256) (monitor : WalletPreservationMonitor)
    (wallet : String) (balance newBalance : UInt64)
    (activityNow snapshotNow updateNow now : Nanoseconds) :
    (monitor.createSnapshot sha256 wallet balance activityNow snapshotNow).2.updatedSnapshot sha256
        wallet newBalance updateNow now
      = { newSnapshot sha256 wallet balance activityNow snapshotNow with
          balance := newBalance
          lastActivityTimestamp := updateNow } := by
  rw [updatedSnapshot, createSnapshot, Store.lookup_assign_self]

end WalletPreservationMonitor

namespace WalletPreservationManager

open Runs WalletPreservationMonitor

/-- The snapshot that a transfer leaves. -/
def transferredSnapshot (sha256 : Sha256) (wallet : String) (amount : UInt64)
    (activityNow snapshotNow updateNow : Nanoseconds) : WalletSnapshot :=
  { newSnapshot sha256 wallet 0 activityNow snapshotNow with
    balance := 0 + amount
    lastActivityTimestamp := updateNow }

theorem lookup_transfer (sha256 : Sha256) (manager : WalletPreservationManager)
    (wallet other : String) (amount : UInt64) (activityNow snapshotNow updateNow : Nanoseconds) :
    (manager.transferMaintenanceFunds sha256 wallet amount activityNow snapshotNow
        updateNow).2.monitor.walletSnapshots.lookup other
      = if other = wallet then
          some (transferredSnapshot sha256 wallet amount activityNow snapshotNow updateNow)
        else manager.monitor.walletSnapshots.lookup other := by
  rw [transferMaintenanceFunds]
  simp only [walletSnapshots_updateWalletState, updatedSnapshot_createSnapshot]
  rw [Store.lookup_assign]
  by_cases hother : other = wallet
  · rw [if_pos hother, if_pos hother]
    rfl
  · rw [if_neg hother, if_neg hother, createSnapshot, Store.lookup_assign_ne _ _ hother]

/-- The balance that was there is lost. -/
theorem trackedBalance_transfer (sha256 : Sha256) (manager : WalletPreservationManager)
    (wallet other : String) (amount : UInt64) (activityNow snapshotNow updateNow : Nanoseconds) :
    (manager.transferMaintenanceFunds sha256 wallet amount activityNow snapshotNow
        updateNow).2.monitor.trackedBalance other
      = if other = wallet then amount else manager.monitor.trackedBalance other := by
  rw [trackedBalance, lookup_transfer]
  by_cases hother : other = wallet
  · rw [if_pos hother, if_pos hother, Option.map_some, Option.getD_some]
    exact zero_add amount
  · rw [if_neg hother, if_neg hother, trackedBalance]

/-! ### Transfers -/

/-- The amount that a call transfers. -/
def transferred : Call → Option UInt64
  | .transferMaintenanceFunds _ amount _ _ _ => some amount
  | _ => none

/-- A transfer adds its amount to the tracked balance of the wallet and leaves those of
all others. -/
def AddsToBalance (e : Event WalletPreservationManager Call Reply) : Prop :=
  match e.call with
  | .transferMaintenanceFunds wallet amount _ _ _ =>
    (e.after.monitor.trackedBalance wallet).toNat
      = (e.before.monitor.trackedBalance wallet).toNat + amount.toNat ∧
    ∀ other, other ≠ wallet →
      e.after.monitor.trackedBalance other = e.before.monitor.trackedBalance other
  | _ => True

/-- All transfers of the run add up, and the total is that of their amounts. -/
structure TransfersAddUp (sha256 : Sha256) (calls : List Call) : Prop where
  balances : ∀ e ∈ trace (step sha256) new calls, AddsToBalance e
  total : (final (step sha256) new calls).stats.totalFundsTransferred.toNat
    = ((calls.filterMap transferred).map UInt64.toNat).sum % 2 ^ 64

/-- A transfer goes to a wallet without a tracked balance. -/
def TransfersToEmpty (manager : WalletPreservationManager) : Call → Prop
  | .transferMaintenanceFunds wallet _ _ _ _ => manager.monitor.trackedBalance wallet = 0
  | _ => True

theorem addsToBalance_iff (sha256 : Sha256) (manager : WalletPreservationManager) (c : Call) :
    AddsToBalance (event (step sha256) manager c) ↔ TransfersToEmpty manager c := by
  cases c with
  | transferMaintenanceFunds wallet amount activityNow snapshotNow updateNow =>
    have htracked := fun other => trackedBalance_transfer sha256 manager wallet other amount
      activityNow snapshotNow updateNow
    have hothers : ∀ other, other ≠ wallet →
        (manager.transferMaintenanceFunds sha256 wallet amount activityNow snapshotNow
          updateNow).2.monitor.trackedBalance other = manager.monitor.trackedBalance other := by
      intro other hother
      rw [htracked, if_neg hother]
    refine (and_iff_left hothers).trans ?_
    show ((manager.transferMaintenanceFunds sha256 wallet amount activityNow snapshotNow
        updateNow).2.monitor.trackedBalance wallet).toNat
        = (manager.monitor.trackedBalance wallet).toNat + amount.toNat ↔
      manager.monitor.trackedBalance wallet = 0
    have hzero : (0 : UInt64).toNat = 0 := rfl
    rw [htracked, if_pos rfl, ← UInt64.toNat_inj, hzero]
    omega
  | _ => exact Iff.rfl

/-- One call adds the amount that it transfers to the total. -/
theorem totalFundsTransferred_step (sha256 : Sha256) (manager : WalletPreservationManager)
    (c : Call) :
    (step sha256 manager c).2.stats.totalFundsTransferred
      = manager.stats.totalFundsTransferred + (transferred c).getD 0 := by
  cases c with
  | transferMaintenanceFunds wallet amount activityNow snapshotNow updateNow => rfl
  | restoreWallet recordId key stampNow activityNow snapshotNow =>
    rcases restoreWallet_cases sha256 manager recordId key stampNow activityNow snapshotNow with
      ⟨_, hfail⟩ | ⟨record, _, _, hrestore⟩
    · rw [step, hfail]
      exact (add_zero _).symm
    · rw [step, hrestore]
      exact (add_zero _).symm
  | unfreezeWallet wallet =>
    cases hlookup : manager.preservationRecords.lookup wallet with
    | none =>
      rw [step, unfreezeWallet_of_none hlookup]
      exact (add_zero _).symm
    | some record =>
      rw [step, unfreezeWallet_of_some hlookup]
      exact (add_zero _).symm
  | _ => exact (add_zero _).symm

theorem totalFundsTransferred_final (sha256 : Sha256) (manager : WalletPreservationManager)
    (calls : List Call) :
    (final (step sha256) manager calls).stats.totalFundsTransferred
      = manager.stats.totalFundsTransferred + (calls.filterMap transferred).sum := by
  induction calls generalizing manager with
  | nil => exact (add_zero _).symm
  | cons c calls ih =>
    rw [final_cons, ih, totalFundsTransferred_step, List.filterMap_cons]
    cases transferred c with
    | none => rw [Option.getD_none, add_zero]
    | some amount => rw [Option.getD_some, List.sum_cons, add_assoc]

/-- The transfers of a run add up iff each goes to a wallet without a tracked balance. -/
theorem transfersAddUp_iff (sha256 : Sha256) (calls : List Call) :
    TransfersAddUp sha256 calls ↔ Each (step sha256) TransfersToEmpty new calls := by
  have hbalances : (∀ e ∈ trace (step sha256) new calls, AddsToBalance e) ↔
      Each (step sha256) TransfersToEmpty new calls :=
    forall_trace_iff_each (addsToBalance_iff sha256)
  rw [← hbalances]
  constructor
  · intro h
    exact h.balances
  · intro h
    refine ⟨h, ?_⟩
    -- the total is right in every run
    rw [totalFundsTransferred_final, ← Words.toNat_sum]
    show ((0 : UInt64) + _).toNat = _
    rw [zero_add]

/-- Two transfers to one wallet. -/
def transferredTwice : List Call :=
  [.transferMaintenanceFunds "wallet_1" 1000 0 0 0,
    .transferMaintenanceFunds "wallet_1" 1000 1 1 1]

theorem not_forall_transfersAddUp :
    ¬ ∀ (sha256 : Sha256) (calls : List Call), TransfersAddUp sha256 calls := by
  intro h
  have hsecond := (h (fun _ => zeroHash) transferredTwice).balances _
    (mem_trace_iff.mpr ⟨[.transferMaintenanceFunds "wallet_1" 1000 0 0 0], _, [], rfl, rfl⟩)
  have hbalance := hsecond.1
  revert hbalance
  decide +kernel

/-! ### Seals -/

/-- The hash of a snapshot is that of its state. -/
def IsSealed (sha256 : Sha256) (snapshot : WalletSnapshot) : Prop :=
  snapshot.stateHash = generateStateHash sha256 snapshot

/-- So it is of every snapshot that the monitor keeps. -/
def Sealed (sha256 : Sha256) (manager : WalletPreservationManager) : Prop :=
  ∀ wallet snapshot, manager.monitor.walletSnapshots.lookup wallet = some snapshot →
    IsSealed sha256 snapshot

/-- With another balance the state has the same hash. -/
def KeepsSeal (sha256 : Sha256) (snapshot : WalletSnapshot) (newBalance : UInt64) : Prop :=
  generateStateHash sha256 { snapshot with balance := newBalance }
    = generateStateHash sha256 snapshot

theorem stateData_inj {wallet : List UInt8} {balance balance' : UInt64} {now : Nanoseconds} :
    stateData wallet balance now = stateData wallet balance' now ↔ balance = balance' := by
  rw [stateData, stateData, List.append_left_inj, List.append_right_inj]
  exact bytesOfWord_injective.eq_iff

/-- It is the same balance, or the two states are different and have one hash. -/
theorem keepsSeal_iff (sha256 : Sha256) (snapshot : WalletSnapshot) (newBalance : UInt64) :
    KeepsSeal sha256 snapshot newBalance ↔ newBalance = snapshot.balance ∨
      ∃ state state', state ≠ state' ∧ sha256 state = sha256 state' ∧
        state = stateData (bytesOf snapshot.walletAddress) newBalance
          snapshot.snapshotTimestamp ∧
        state' = stateData (bytesOf snapshot.walletAddress) snapshot.balance
          snapshot.snapshotTimestamp := by
  refine (Codes.digest_eq_iff stateData_inj).trans (or_congr_right ?_)
  constructor
  · rintro ⟨hne, hhash⟩
    exact ⟨_, _, hne, hhash, rfl, rfl⟩
  · rintro ⟨_, _, hne, hhash, rfl, rfl⟩
    exact ⟨hne, hhash⟩

theorem isSealed_newSnapshot (sha256 : Sha256) (wallet : String) (balance : UInt64)
    (activityNow snapshotNow : Nanoseconds) :
    IsSealed sha256 (newSnapshot sha256 wallet balance activityNow snapshotNow) := rfl

/-- A sealed snapshot whose balance is changed is sealed iff the hash admits it. -/
theorem isSealed_update_iff {sha256 : Sha256} {snapshot : WalletSnapshot}
    (h : IsSealed sha256 snapshot) (newBalance : UInt64) (activityNow : Nanoseconds) :
    IsSealed sha256
        { snapshot with balance := newBalance, lastActivityTimestamp := activityNow } ↔
      KeepsSeal sha256 snapshot newBalance := by
  show snapshot.stateHash = generateStateHash sha256 { snapshot with balance := newBalance } ↔ _
  rw [h]
  exact eq_comm

theorem sealed_assign_iff {sha256 : Sha256} {manager manager' : WalletPreservationManager}
    (h : Sealed sha256 manager) {wallet : String} {snapshot : WalletSnapshot}
    (hlookup : ∀ other, manager'.monitor.walletSnapshots.lookup other
      = if other = wallet then some snapshot
        else manager.monitor.walletSnapshots.lookup other) :
    Sealed sha256 manager' ↔ IsSealed sha256 snapshot := by
  constructor
  · intro hsealed
    refine hsealed wallet snapshot ?_
    rw [hlookup, if_pos rfl]
  · intro hsnapshot other found hfound
    rw [hlookup] at hfound
    by_cases hother : other = wallet
    · rw [if_pos hother, Option.some_inj] at hfound
      rw [← hfound]
      exact hsnapshot
    · rw [if_neg hother] at hfound
      exact h other found hfound

/-- An update leaves all snapshots sealed iff the hash of the one that it finds admits
the balance. -/
theorem sealed_update_iff {sha256 : Sha256} {manager manager' : WalletPreservationManager}
    (h : Sealed sha256 manager) {wallet : String} {balance : UInt64}
    {activityNow snapshotNow : Nanoseconds}
    (hmonitor : manager'.monitor
      = manager.monitor.updateWalletState sha256 wallet balance activityNow snapshotNow) :
    Sealed sha256 manager' ↔
      ∀ snapshot ∈ manager.monitor.walletSnapshots.lookup wallet,
        KeepsSeal sha256 snapshot balance := by
  have hlookup : ∀ other, manager'.monitor.walletSnapshots.lookup other
      = if other = wallet then
          some (manager.monitor.updatedSnapshot sha256 wallet balance activityNow snapshotNow)
        else manager.monitor.walletSnapshots.lookup other := by
    intro other
    rw [hmonitor, walletSnapshots_updateWalletState, Store.lookup_assign]
  rw [sealed_assign_iff h hlookup, updatedSnapshot]
  cases hsnapshot : manager.monitor.walletSnapshots.lookup wallet with
  | none =>
    exact iff_of_true (isSealed_newSnapshot ..) (fun _ hnone => absurd hnone (by simp))
  | some snapshot =>
    have hsealed := h wallet snapshot hsnapshot
    refine (isSealed_update_iff hsealed balance activityNow).trans ?_
    simp

/-- The operations of the monitor, called directly or by those of the manager. -/
inductive SnapshotCall where
  | manager (c : Call)
  | createSnapshot (walletAddress : String) (currentBalance : UInt64)
      (activityNow snapshotNow : Nanoseconds)
  | updateWalletState (walletAddress : String) (newBalance : UInt64)
      (activityNow snapshotNow : Nanoseconds)

inductive SnapshotReply where
  | manager (r : Reply)
  | created (snapshot : WalletSnapshot)
  | updated

def stepSnapshots (sha256 : Sha256) (manager : WalletPreservationManager) :
    SnapshotCall → SnapshotReply × WalletPreservationManager
  | .manager c => (step sha256 manager c).map .manager id
  | .createSnapshot wallet balance activityNow snapshotNow =>
    let (snapshot, monitor) :=
      manager.monitor.createSnapshot sha256 wallet balance activityNow snapshotNow
    (.created snapshot, { manager with monitor := monitor })
  | .updateWalletState wallet balance activityNow snapshotNow =>
    (.updated, { manager with
      monitor := manager.monitor.updateWalletState sha256 wallet balance activityNow snapshotNow })

/-- A balance is changed only where the hash of the snapshot admits the new one: by an
update, by a restoration, and by a transfer after its snapshot of balance zero. -/
def ChangesSealed (sha256 : Sha256) (manager : WalletPreservationManager) : SnapshotCall → Prop
  | .updateWalletState wallet balance _ _ =>
    ∀ snapshot ∈ manager.monitor.walletSnapshots.lookup wallet, KeepsSeal sha256 snapshot balance
  | .manager (.restoreWallet recordId key _ _ _) =>
    ∀ record ∈ manager.preservationRecords.lookup recordId, record.recoveryKey = key →
      ∀ snapshot ∈ manager.monitor.walletSnapshots.lookup record.walletAddress,
        KeepsSeal sha256 snapshot record.balanceAtPreservation
  | .manager (.transferMaintenanceFunds wallet amount activityNow snapshotNow _) =>
    KeepsSeal sha256 (newSnapshot sha256 wallet 0 activityNow snapshotNow) amount
  | _ => True

/-- A preservation writes the balance of its own snapshot. -/
theorem sealed_preserve {sha256 : Sha256} {manager : WalletPreservationManager}
    (h : Sealed sha256 manager) (wallet : String) (balance : UInt64)
    (idNow activityNow snapshotNow stampNow updateNow : Nanoseconds) :
    Sealed sha256 (manager.preserveWallet sha256 wallet balance idNow activityNow snapshotNow
      stampNow updateNow).2 := by
  have hlookup : ∀ other, (manager.preserveWallet sha256 wallet balance idNow activityNow
      snapshotNow stampNow updateNow).2.monitor.walletSnapshots.lookup other
      = if other = wallet then
          some { newSnapshot sha256 wallet balance activityNow snapshotNow with
            balance := balance
            lastActivityTimestamp := updateNow }
        else manager.monitor.walletSnapshots.lookup other := by
    intro other
    rw [preserveWallet]
    simp only [walletSnapshots_updateWalletState, updatedSnapshot_createSnapshot]
    rw [Store.lookup_assign]
    by_cases hother : other = wallet
    · rw [if_pos hother, if_pos hother]
    · rw [if_neg hother, if_neg hother, createSnapshot, Store.lookup_assign_ne _ _ hother]
  refine (sealed_assign_iff h hlookup).mpr ?_
  exact (isSealed_update_iff (isSealed_newSnapshot ..) balance updateNow).mpr rfl

theorem sealed_step_iff {sha256 : Sha256} {manager : WalletPreservationManager}
    (h : Sealed sha256 manager) (c : SnapshotCall) :
    Sealed sha256 (stepSnapshots sha256 manager c).2 ↔ ChangesSealed sha256 manager c := by
  cases c with
  | createSnapshot wallet balance activityNow snapshotNow =>
    refine iff_of_true ?_ trivial
    have hlookup := fun other => Store.lookup_assign manager.monitor.walletSnapshots wallet other
      (newSnapshot sha256 wallet balance activityNow snapshotNow)
    exact (sealed_assign_iff h hlookup).mpr (isSealed_newSnapshot ..)
  | updateWalletState wallet balance activityNow snapshotNow => exact sealed_update_iff h rfl
  | manager c =>
    cases c with
    | preserveWallet wallet balance idNow activityNow snapshotNow stampNow updateNow =>
      exact iff_of_true (sealed_preserve h wallet balance idNow activityNow snapshotNow stampNow
        updateNow) trivial
    | restoreWallet recordId key stampNow activityNow snapshotNow =>
      rcases restoreWallet_cases sha256 manager recordId key stampNow activityNow snapshotNow with
        ⟨hrecords, hfail⟩ | ⟨record, hlookup, hkey, hrestore⟩
      · rw [stepSnapshots, step, hfail]
        exact iff_of_true h (fun record hrecord hkey => absurd hkey (hrecords record hrecord))
      · rw [stepSnapshots, step, hrestore, ChangesSealed, hlookup]
        refine (sealed_update_iff h rfl).trans ?_
        simp [hkey]
    | transferMaintenanceFunds wallet amount activityNow snapshotNow updateNow =>
      refine (sealed_assign_iff h (lookup_transfer sha256 manager wallet · amount activityNow
        snapshotNow updateNow)).trans ?_
      refine (isSealed_update_iff (isSealed_newSnapshot ..) (0 + amount) updateNow).trans ?_
      rw [zero_add, ChangesSealed]
    | unfreezeWallet wallet =>
      refine iff_of_true ?_ trivial
      cases hlookup : manager.preservationRecords.lookup wallet with
      | none =>
        rw [stepSnapshots, step, unfreezeWallet_of_none hlookup]
        exact h
      | some record =>
        rw [stepSnapshots, step, unfreezeWallet_of_some hlookup]
        exact h
    | _ => exact iff_of_true h trivial

/-- Every snapshot is sealed in every state of a run iff each of its calls keeps to the
condition. -/
theorem sealed_iff_changesSealed (sha256 : Sha256) (calls : List SnapshotCall) :
    (∀ pre, pre <+: calls → Sealed sha256 (final (stepSnapshots sha256) new pre)) ↔
      Each (stepSnapshots sha256) (ChangesSealed sha256) new calls := by
  have hnew : Sealed sha256 new := by
    intro wallet snapshot hlookup
    exact absurd hlookup (by simp [new, WalletPreservationMonitor.new])
  refine forall_final_iff hnew ?_
  intro pre c h
  exact sealed_step_iff h c

/-- The balance of a tracked wallet changes. -/
def updatedOnce : List SnapshotCall :=
  [.createSnapshot "wallet_1" 5000 0 0, .updateWalletState "wallet_1" 4000 1 1]

theorem not_forall_sealed :
    ¬ ∀ (sha256 : Sha256) (calls : List SnapshotCall),
      Sealed sha256 (final (stepSnapshots sha256) new calls) := by
  intro h
  have hsealed := h (fun data => Vector.replicate 32 data.sum) updatedOnce "wallet_1" _ rfl
  revert hsealed
  rw [IsSealed]
  decide +kernel

end WalletPreservationManager

end Membra
