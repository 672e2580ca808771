/-
Frozen wallets.

`freeze_wallet` sets the status of a wallet in the monitor, and every operation
that updates the state of the wallet sets it again from the balance.  The record
of the freeze lies under a new id, where `unfreeze_wallet`, which looks it up by
the address of the wallet, does not find it.

* `status_step_cases` — all that one operation can do to the statuses;
* `freezePersists_iff_respectsFreeze` — the runs in which a freeze lasts until the
  wallet is unfrozen;
* `unfreezeUndoes_iff` — the states in which unfreezing undoes a freeze.
-/
import MembraL3.WalletPreservation
import MembraL3.Lib.Latch

namespace Membra

namespace WalletPreservationManager

open Runs WalletPreservationMonitor

/-! ### A freeze lasts -/

def IsFrozen (wallet : String) (manager : WalletPreservationManager) : Prop :=
  manager.monitor.getWalletStatus wallet = .emergencyFrozen

/-- The call freezes the wallet. -/
def Freezes (wallet : String) (c : Call) : Prop :=
  ∃ reason idNow stampNow, c = .freezeWallet wallet reason idNow stampNow

/-- The call unfreezes the wallet and says so. -/
def Unfreezes (sha256 : Sha256) (wallet : String) (manager : WalletPreservationManager) (c : Call) :
    Prop :=
  c = .unfreezeWallet wallet ∧ (step sha256 manager c).1 = .unfrozen true

/-- The call sets the status of the wallet from its balance: it preserves the
wallet, transfers funds to it or restores a record of it. -/
def Recomputes (wallet : String) (manager : WalletPreservationManager) : Call → Prop
  | .preserveWallet w _ _ _ _ _ _ => w = wallet
  | .transferMaintenanceFunds w _ _ _ _ => w = wallet
  | .restoreWallet recordId key _ _ _ => ∃ record ∈ manager.preservationRecords.lookup recordId,
      record.recoveryKey = key ∧ record.walletAddress = wallet
  | _ => False

/-- What one operation can do to the statuses of the wallets. -/
theorem status_step_cases (sha256 : Sha256) (manager : WalletPreservationManager) (c : Call) :
    ((∀ other, (step sha256 manager c).2.monitor.getWalletStatus other
          = manager.monitor.getWalletStatus other) ∧
      (∀ wallet, ¬ Recomputes wallet manager c) ∧ (∀ wallet, ¬ Freezes wallet c) ∧
      (step sha256 manager c).1 ≠ .unfrozen true) ∨
    (∃ wallet balance, (∀ other, Recomputes other manager c ↔ wallet = other) ∧
      (∀ other, (step sha256 manager c).2.monitor.getWalletStatus other
        = if other = wallet then manager.monitor.balanceStatus wallet balance
          else manager.monitor.getWalletStatus other) ∧
      (∀ wallet, ¬ Freezes wallet c) ∧ (step sha256 manager c).1 ≠ .unfrozen true) ∨
    (∃ wallet reason idNow stampNow, c = .freezeWallet wallet reason idNow stampNow ∧
      ∀ other, (step sha256 manager c).2.monitor.getWalletStatus other
        = if other = wallet then .emergencyFrozen else manager.monitor.getWalletStatus other) ∨
    (∃ wallet, c = .unfreezeWallet wallet ∧ (step sha256 manager c).1 = .unfrozen true ∧
      ∀ other, (step sha256 manager c).2.monitor.getWalletStatus other
        = if other = wallet then .active else manager.monitor.getWalletStatus other) := by
  cases c with
  | preserveWallet wallet balance idNow activityNow snapshotNow stampNow updateNow =>
    refine .inr (.inl ⟨wallet, balance, fun other => Iff.rfl, ?_, by simp [Freezes],
      by simp [step]⟩)
    intro other
    exact getWalletStatus_updateWalletState sha256 _ wallet other balance updateNow updateNow
  | transferMaintenanceFunds wallet amount activityNow snapshotNow updateNow =>
    refine .inr (.inl ⟨wallet, 0 + amount, fun other => Iff.rfl, ?_, by simp [Freezes],
      by simp [step]⟩)
    intro other
    exact getWalletStatus_updateWalletState sha256 _ wallet other (0 + amount) updateNow updateNow
  | restoreWallet recordId key stampNow activityNow snapshotNow =>
    rcases restoreWallet_cases sha256 manager recordId key stampNow activityNow snapshotNow with
      ⟨hnone, hfail⟩ | ⟨record, hlookup, hkey, hrestore⟩
    · left
      refine ⟨?_, ?_, by simp [Freezes], by simp [step]⟩
      · intro other
        rw [step, hfail]
        rfl
      · rintro wallet ⟨record, hrecord, hkey, _⟩
        exact hnone record hrecord hkey
    · refine .inr (.inl ⟨record.walletAddress, record.balanceAtPreservation, ?_, ?_,
        by simp [Freezes], by simp [step]⟩)
      · intro other
        simp [Recomputes, hlookup, hkey]
      · intro other
        rw [step, hrestore]
        exact getWalletStatus_updateWalletState sha256 _ record.walletAddress other _ _ _
  | freezeWallet wallet reason idNow stampNow =>
    refine .inr (.inr (.inl ⟨wallet, reason, idNow, stampNow, rfl, ?_⟩))
    intro other
    exact getWalletStatus_setStatus manager.monitor wallet other .emergencyFrozen
  | unfreezeWallet wallet =>
    cases hlookup : manager.preservationRecords.lookup wallet with
    | none =>
      left
      rw [step, unfreezeWallet_of_none hlookup]
      exact ⟨fun other => rfl, by simp [Recomputes], by simp [Freezes], by simp⟩
    | some record =>
      refine .inr (.inr (.inr ⟨wallet, rfl, ?_, ?_⟩))
      · rw [step, unfreezeWallet_of_some hlookup]
        rfl
      · intro other
        rw [step, unfreezeWallet_of_some hlookup]
        exact getWalletStatus_setStatus manager.monitor wallet other .active
  | _ => exact .inl ⟨fun other => rfl, by simp [Recomputes], by simp [Freezes], by simp [step]⟩

theorem isFrozen_of_freezes (sha256 : Sha256) {wallet : String}
    (manager : WalletPreservationManager) {c : Call} (hc : Freezes wallet c) :
    IsFrozen wallet (step sha256 manager c).2 := by
  obtain ⟨reason, idNow, stampNow, rfl⟩ := hc
  show (manager.monitor.setStatus wallet .emergencyFrozen).getWalletStatus wallet = .emergencyFrozen
  rw [getWalletStatus_setStatus, if_pos rfl]

theorem not_isFrozen_of_unfreezes {sha256 : Sha256} {wallet : String}
    {manager : WalletPreservationManager} {c : Call} (hc : Unfreezes sha256 wallet manager c) :
    ¬ IsFrozen wallet (step sha256 manager c).2 := by
  obtain ⟨rfl, hreply⟩ := hc
  rcases status_step_cases sha256 manager (.unfreezeWallet wallet) with ⟨_, _, _, hnot⟩ |
    ⟨w, balance, _, _, _, hnot⟩ | ⟨w, reason, idNow, stampNow, hfreeze, _⟩ | ⟨w, hw, _, hstatus⟩
  · exact absurd hreply hnot
  · exact absurd hreply hnot
  · exact absurd hfreeze (by simp)
  · obtain rfl := Call.unfreezeWallet.inj hw
    rw [IsFrozen, hstatus, if_pos rfl]
    simp

/-- A wallet is frozen after a call only if it was before, or the call froze it. -/
theorem isFrozen_source (sha256 : Sha256) {wallet : String} {manager : WalletPreservationManager}
    {c : Call} (h : IsFrozen wallet (step sha256 manager c).2) :
    IsFrozen wallet manager ∨ Freezes wallet c := by
  rw [IsFrozen] at h
  rcases status_step_cases sha256 manager c with ⟨hstatus, _⟩ | ⟨w, balance, _, hstatus, _⟩ |
    ⟨w, reason, idNow, stampNow, rfl, hstatus⟩ | ⟨w, _, _, hstatus⟩
  · left
    rwa [hstatus] at h
  · left
    rw [hstatus] at h
    by_cases hw : wallet = w
    · rw [if_pos hw] at h
      exact absurd h (balanceStatus_ne_emergencyFrozen _ _ _)
    · rwa [if_neg hw] at h
  · by_cases hw : wallet = w
    · exact .inr ⟨reason, idNow, stampNow, by rw [hw]⟩
    · rw [hstatus, if_neg hw] at h
      exact .inl h
  · left
    rw [hstatus] at h
    by_cases hw : wallet = w
    · rw [if_pos hw] at h
      exact absurd h (by simp)
    · rwa [if_neg hw] at h

/-- The call does not set the status of a frozen wallet from its balance. -/
def RespectsFreeze (manager : WalletPreservationManager) (c : Call) : Prop :=
  ∀ wallet, Recomputes wallet manager c → ¬ IsFrozen wallet manager

/-- One call keeps all wallets frozen that it does not unfreeze iff it keeps to the
condition. -/
theorem keepsFrozen_iff (sha256 : Sha256) (manager : WalletPreservationManager) (c : Call) :
    (∀ wallet, IsFrozen wallet manager → ¬ Unfreezes sha256 wallet manager c →
      IsFrozen wallet (step sha256 manager c).2) ↔ RespectsFreeze manager c := by
  constructor
  · intro hkeep wallet hrecomputes hfrozen
    rcases status_step_cases sha256 manager c with ⟨_, hnone, _⟩ |
      ⟨w, balance, hw, hstatus, _, hnot⟩ | ⟨w, reason, idNow, stampNow, rfl, _⟩ | ⟨w, rfl, _⟩
    · exact hnone wallet hrecomputes
    · -- the status after the call is that of a balance
      obtain rfl := (hw wallet).mp hrecomputes
      have hafter := hkeep w hfrozen fun hunfreezes => hnot hunfreezes.2
      rw [IsFrozen, hstatus, if_pos rfl] at hafter
      exact balanceStatus_ne_emergencyFrozen _ _ _ hafter
    · exact hrecomputes
    · exact hrecomputes
  · intro hrespects wallet hfrozen hunfreezes
    rw [IsFrozen]
    rcases status_step_cases sha256 manager c with ⟨hstatus, _⟩ | ⟨w, balance, hw, hstatus, _⟩ |
      ⟨w, reason, idNow, stampNow, rfl, hstatus⟩ | ⟨w, rfl, hreply, hstatus⟩
    · rw [hstatus]
      exact hfrozen
    · have hne : wallet ≠ w := by
        rintro rfl
        exact hrespects wallet ((hw wallet).mpr rfl) hfrozen
      rw [hstatus, if_neg hne]
      exact hfrozen
    · rw [hstatus]
      split
      · rfl
      · exact hfrozen
    · -- a wallet that is unfrozen is another one
      have hne : wallet ≠ w := by
        rintro rfl
        exact hunfreezes ⟨rfl, hreply⟩
      rw [hstatus, if_neg hne]
      exact hfrozen

theorem not_isFrozen_new (wallet : String) : ¬ IsFrozen wallet new := by
  intro h
  have hactive : new.monitor.getWalletStatus wallet = .active := rfl
  exact absurd (hactive.symm.trans h) (by simp)

/-- After a freeze the wallet stays frozen until it is unfrozen, in all of a run and
for every wallet, iff no call of the run sets the status of a frozen wallet from its
balance. -/
theorem freezePersists_iff_respectsFreeze (sha256 : Sha256) (calls : List Call) :
    (∀ wallet, HoldsUntil (step sha256) (fun _ c => Freezes wallet c) (Unfreezes sha256 wallet)
      (IsFrozen wallet) new calls) ↔ Each (step sha256) RespectsFreeze new calls := by
  have hlatch : ∀ wallet, HoldsUntil (step sha256) (fun _ c => Freezes wallet c)
      (Unfreezes sha256 wallet) (IsFrozen wallet) new calls ↔
      Each (step sha256) (fun manager c => IsFrozen wallet manager →
        ¬ Unfreezes sha256 wallet manager c → IsFrozen wallet (step sha256 manager c).2)
        new calls := by
    intro wallet
    exact holdsUntil_iff (fun manager c hc => isFrozen_of_freezes sha256 manager hc)
      (fun manager c hc => not_isFrozen_of_unfreezes hc)
      (fun manager c h => isFrozen_source sha256 h) (not_isFrozen_new wallet) calls
  rw [forall_congr' hlatch, forall_each_iff]
  constructor
  · intro h
    exact h.imp fun manager c hc => (keepsFrozen_iff sha256 manager c).mp hc
  · intro h
    exact h.imp fun manager c hc => (keepsFrozen_iff sha256 manager c).mpr hc

/-- A frozen wallet receives funds. -/
def frozenThenFunded : List Call :=
  [.freezeWallet "wallet_1" "suspicious" 0 0, .transferMaintenanceFunds "wallet_1" 1000 1 1 1]

theorem not_forall_freezePersists :
    ¬ ∀ (sha256 : Sha256) (calls : List Call) (wallet : String),
      HoldsUntil (step sha256) (fun _ c => Freezes wallet c) (Unfreezes sha256 wallet)
        (IsFrozen wallet) new calls := by
  intro h
  have hfrozen : IsFrozen "wallet_1" (final (step fun _ => zeroHash) new frozenThenFunded) := by
    refine h (fun _ => zeroHash) frozenThenFunded "wallet_1" [] _ [_] (List.prefix_refl _)
      ⟨"suspicious", 0, 0, rfl⟩ ?_
    rw [each_cons]
    exact ⟨fun hc => absurd hc.1 (by simp), each_nil⟩
  rw [IsFrozen] at hfrozen
  revert hfrozen
  decide +kernel

/-! ### Unfreezing -/

/-- After freezing the wallet, unfreezing it succeeds, makes it active and leaves no
frozen record of it. -/
structure UnfreezeUndoes (manager : WalletPreservationManager) (wallet reason : String)
    (idNow stampNow : Nanoseconds) : Prop where
  returns_true :
    ((manager.freezeWallet wallet reason idNow stampNow).2.unfreezeWallet wallet).1 = true
  status_active :
    ((manager.freezeWallet wallet reason idNow stampNow).2.unfreezeWallet
      wallet).2.monitor.getWalletStatus wallet = .active
  no_frozen_record : ∀ key record,
    ((manager.freezeWallet wallet reason idNow stampNow).2.unfreezeWallet
      wallet).2.preservationRecords.lookup key = some record →
    record.walletAddress = wallet → record.status ≠ .emergencyFrozen

/-- The address of the wallet is the key of a record, or will be that of the record
of the freeze, and no record under another key is a frozen one of the wallet. -/
def FreezeIsFound (manager : WalletPreservationManager) (wallet : String) (idNow : Nanoseconds) :
    Prop :=
  (wallet ∈ manager.preservationRecords ∨ wallet = generateRecordId idNow) ∧
    ∀ key record, manager.preservationRecords.lookup key = some record → key ≠ wallet →
      record.walletAddress = wallet → record.status ≠ .emergencyFrozen

/-- The key under which a freeze stores its record. -/
theorem freezeRecord_key_eq_iff (manager : WalletPreservationManager) (wallet reason : String)
    (idNow stampNow : Nanoseconds) :
    (manager.freezeRecord wallet reason idNow stampNow).1 = wallet ↔
      wallet ∈ manager.preservationRecords ∨ wallet = generateRecordId idNow := by
  cases hlookup : manager.preservationRecords.lookup wallet with
  | none =>
    have hmem : wallet ∉ manager.preservationRecords := AList.lookup_eq_none.mp hlookup
    rw [freezeRecord_of_none hlookup, or_iff_right hmem]
    exact eq_comm
  | some record =>
    rw [freezeRecord_of_some hlookup]
    exact iff_of_true rfl (.inl (Store.mem_of_lookup hlookup))

/-- Where the freeze stores its record under the address, unfreezing finds it. -/
theorem unfreezeWallet_of_found {manager : WalletPreservationManager} {wallet reason : String}
    {idNow stampNow : Nanoseconds}
    (hkey : (manager.freezeRecord wallet reason idNow stampNow).1 = wallet) :
    ∃ record : PreservationRecord,
      ((manager.freezeWallet wallet reason idNow stampNow).2.unfreezeWallet wallet).1 = true ∧
      ((manager.freezeWallet wallet reason idNow stampNow).2.unfreezeWallet
        wallet).2.monitor.getWalletStatus wallet = .active ∧
      ∀ key, ((manager.freezeWallet wallet reason idNow stampNow).2.unfreezeWallet
        wallet).2.preservationRecords.lookup key
          = if key = wallet then some record.unfrozen
            else manager.preservationRecords.lookup key := by
  have hlookup : (manager.freezeWallet wallet reason idNow stampNow).2.preservationRecords.lookup
      wallet = some (manager.freezeRecord wallet reason idNow stampNow).2 := by
    rw [preservationRecords_freezeWallet, hkey, Store.lookup_assign_self]
  refine ⟨(manager.freezeRecord wallet reason idNow stampNow).2, ?_⟩
  rw [unfreezeWallet_of_some hlookup]
  refine ⟨rfl, ?_, ?_⟩
  · rw [getWalletStatus_setStatus, if_pos rfl]
  · intro key
    rw [Store.lookup_assign]
    by_cases hw : key = wallet
    · rw [if_pos hw, if_pos hw]
    · rw [if_neg hw, if_neg hw, preservationRecords_freezeWallet, hkey,
        Store.lookup_assign_ne _ _ hw]

/-- Elsewhere it does not, and fails. -/
theorem freezeRecord_key_of_unfreezeWallet {manager : WalletPreservationManager}
    {wallet reason : String} {idNow stampNow : Nanoseconds}
    (h : ((manager.freezeWallet wallet reason idNow stampNow).2.unfreezeWallet wallet).1 = true) :
    (manager.freezeRecord wallet reason idNow stampNow).1 = wallet := by
  by_contra hkey
  -- then no record lies under the address, before the freeze or after it
  have hnone : manager.preservationRecords.lookup wallet = none := by
    rw [freezeRecord_key_eq_iff] at hkey
    exact AList.lookup_eq_none.mpr fun hmem => hkey (.inl hmem)
  have hafter : (manager.freezeWallet wallet reason idNow stampNow).2.preservationRecords.lookup
      wallet = none := by
    rw [preservationRecords_freezeWallet, Store.lookup_assign_ne _ _ (Ne.symm hkey), hnone]
  rw [unfreezeWallet_of_none hafter] at h
  exact absurd h (by simp)

/-- Unfreezing undoes a freeze iff the record of the freeze lies where unfreezing
looks for it and no other record of the wallet is frozen. -/
theorem unfreezeUndoes_iff (manager : WalletPreservationManager) (wallet reason : String)
    (idNow stampNow : Nanoseconds) :
    UnfreezeUndoes manager wallet reason idNow stampNow ↔ FreezeIsFound manager wallet idNow := by
  rw [FreezeIsFound, ← freezeRecord_key_eq_iff manager wallet reason idNow stampNow]
  constructor
  · intro hundoes
    have hkey := freezeRecord_key_of_unfreezeWallet hundoes.returns_true
    obtain ⟨frozen, _, _, hrecords⟩ := unfreezeWallet_of_found hkey
    refine ⟨hkey, ?_⟩
    intro key record hlookup hne hwallet
    refine hundoes.no_frozen_record key record ?_ hwallet
    rw [hrecords, if_neg hne]
    exact hlookup
  · rintro ⟨hkey, hothers⟩
    obtain ⟨frozen, htrue, hactive, hrecords⟩ := unfreezeWallet_of_found hkey
    refine ⟨htrue, hactive, ?_⟩
    intro key record hlookup hwallet
    rw [hrecords] at hlookup
    by_cases hw : key = wallet
    · rw [if_pos hw, Option.some_inj] at hlookup
      rw [← hlookup]
      simp [PreservationRecord.unfrozen]
    · rw [if_neg hw] at hlookup
      exact hothers key record hlookup hw hwallet

/-- In a new manager: the record of the freeze lies under `preserve_0`. -/
theorem not_forall_unfreezeUndoes :
    ¬ ∀ (sha256 : Sha256) (calls : List Call) (wallet reason : String)
      (idNow stampNow : Nanoseconds),
      UnfreezeUndoes (final (step sha256) new calls) wallet reason idNow stampNow := by
  intro h
  have htrue := (h (fun _ => zeroHash) [] "wallet_1" "suspicious" 0 0).returns_true
  revert htrue
  decide +kernel

end WalletPreservationManager

end Membra
