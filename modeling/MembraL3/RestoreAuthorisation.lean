/-
Who may restore a wallet.

`restore_wallet` compares the key with the one in the record, and no operation
ever writes that one: it is empty in every record.  Keys that the recovery
service has issued have 64 characters and are refused.

* `keysBlank_final` — in every reachable state all records have an empty key;
* `restoresAuthorised_iff` — the runs in which every restoration is authorised.
-/
import MembraL3.WalletRecovery
import MembraL3.Lib.Runs

namespace Membra

namespace WalletPreservationManager

/-- No record has a recovery key. -/
def KeysBlank (manager : WalletPreservationManager) : Prop :=
  ∀ recordId record, manager.preservationRecords.lookup recordId = some record →
    record.recoveryKey = ""

theorem keysBlank_new : KeysBlank new := by
  intro recordId record hlookup
  exact absurd hlookup (by simp [new])

/-- A record is stored with the key of the record it replaces, or with none. -/
theorem keysBlank_assign {manager manager' : WalletPreservationManager} (h : KeysBlank manager)
    {key : String} {record : PreservationRecord} (hrecord : record.recoveryKey = "")
    (hassign : manager'.preservationRecords = manager.preservationRecords.assign key record) :
    KeysBlank manager' := by
  intro recordId found hlookup
  rw [hassign, Store.lookup_assign] at hlookup
  by_cases hkey : recordId = key
  · rw [if_pos hkey, Option.some_inj] at hlookup
    rw [← hlookup]
    exact hrecord
  · rw [if_neg hkey] at hlookup
    exact h recordId found hlookup

theorem keysBlank_step (sha256 : Sha256) {manager : WalletPreservationManager} (c : Call)
    (h : KeysBlank manager) : KeysBlank (step sha256 manager c).2 := by
  cases c with
  | preserveWallet wallet balance idNow activityNow snapshotNow stampNow updateNow =>
    exact keysBlank_assign h rfl rfl
  | restoreWallet recordId key stampNow activityNow snapshotNow =>
    rcases restoreWallet_cases sha256 manager recordId key stampNow activityNow snapshotNow with
      ⟨_, hfail⟩ | ⟨record, hlookup, _, hrestore⟩
    · rw [step, hfail]
      exact h
    · rw [step, hrestore]
      have hblank : (record.restored stampNow).recoveryKey = "" := h recordId record hlookup
      exact keysBlank_assign h hblank rfl
  | freezeWallet wallet reason idNow stampNow =>
    refine keysBlank_assign h ?_ (preservationRecords_freezeWallet ..)
    rw [freezeRecord]
    cases hlookup : manager.preservationRecords.lookup wallet with
    | none => rfl
    | some record => exact h wallet record hlookup
  | unfreezeWallet wallet =>
    cases hlookup : manager.preservationRecords.lookup wallet with
    | none =>
      rw [step, unfreezeWallet_of_none hlookup]
      exact h
    | some record =>
      rw [step, unfreezeWallet_of_some hlookup]
      have hblank : record.unfrozen.recoveryKey = "" := h wallet record hlookup
      exact keysBlank_assign h hblank rfl
  | requestGovernanceReview wallet reason idNow stampNow => exact keysBlank_assign h rfl rfl
  | _ => exact h

end WalletPreservationManager

namespace PreservationSystem

open Runs WalletPreservationManager

theorem keysBlank_final (sha256 : Sha256) (calls : List Call) :
    KeysBlank (final (step sha256) new calls).manager := by
  have hkeep : ∀ (system : PreservationSystem) c, KeysBlank system.manager →
      KeysBlank (step sha256 system c).2.manager := by
    intro system c h
    cases c with
    | manager c => exact keysBlank_step sha256 c h
    | recovery c => exact h
  exact final_invariant hkeep keysBlank_new calls

/-- In the run, `generate_recovery_key` has returned the key for the wallet. -/
def Issued (sha256 : Sha256) (calls : List Call) (wallet key : String) : Prop :=
  ∃ e ∈ trace (step sha256) new calls, ∃ now,
    e.call = .recovery (.generateRecoveryKey wallet now) ∧ e.result = .recovery (.recoveryKey key)

/-- In the run, `restore_wallet` has returned `true` for the record. -/
def Restored (sha256 : Sha256) (calls : List Call) (recordId : String) : Prop :=
  ∃ e ∈ trace (step sha256) new calls, ∃ key stampNow activityNow snapshotNow,
    e.call = .manager (.restoreWallet recordId key stampNow activityNow snapshotNow) ∧
      e.result = .manager (.restored true)

/-- Every restoration of the run is of a preserved record that was not restored
before, with a key that was issued before for the wallet of the record. -/
def RestoresAuthorised (sha256 : Sha256) (calls : List Call) : Prop :=
  ∀ pre recordId key stampNow activityNow snapshotNow,
    pre ++ [.manager (.restoreWallet recordId key stampNow activityNow snapshotNow)] <+: calls →
    ((final (step sha256) new pre).manager.restoreWallet sha256 recordId key stampNow activityNow
      snapshotNow).1 = true →
    ∃ record, (final (step sha256) new pre).manager.preservationRecords.lookup recordId
        = some record ∧ record.status = .preserved ∧
      Issued sha256 pre record.walletAddress key ∧ ¬ Restored sha256 pre recordId

/-- A stored record is not restored with the empty key. -/
def NamesKey (system : PreservationSystem) : Call → Prop
  | .manager (.restoreWallet recordId key _ _ _) =>
    recordId ∈ system.manager.preservationRecords → key ≠ ""
  | _ => True

theorem key_ne_empty_of_issued {sha256 : Sha256} {calls : List Call} {wallet key : String}
    (h : Issued sha256 calls wallet key) : key ≠ "" := by
  obtain ⟨e, he, now, hcall, hresult⟩ := h
  obtain ⟨pre, c, post, -, rfl⟩ := mem_trace_iff.mp he
  -- the reply to that call is the key that was generated
  rw [event_call] at hcall
  subst hcall
  have hkey : WalletRecoveryService.generateRecoveryKey sha256 wallet now = key := by
    simpa [step, WalletRecoveryService.step] using hresult
  intro hempty
  have hlength := WalletRecoveryService.length_generateRecoveryKey sha256 wallet now
  rw [hkey, hempty] at hlength
  exact absurd hlength (by decide)

/-- Every restoration of a run is authorised iff none is tried with the empty key on
a stored record. -/
theorem restoresAuthorised_iff (sha256 : Sha256) (calls : List Call) :
    RestoresAuthorised sha256 calls ↔ Each (step sha256) NamesKey new calls := by
  rw [each_iff_forall]
  constructor
  · intro h pre c hpre
    cases c with
    | recovery c => trivial
    | manager c =>
      cases c with
      | restoreWallet recordId key stampNow activityNow snapshotNow =>
        intro hmem hempty
        obtain ⟨record, hlookup⟩ := Option.isSome_iff_exists.mp (AList.lookup_isSome.mpr hmem)
        have hblank := keysBlank_final sha256 pre recordId record hlookup
        -- the empty key is the one in the record, but nobody was given it
        have htrue := (restoreWallet_eq_true_iff sha256 _ recordId key stampNow activityNow
          snapshotNow).mpr ⟨record, hlookup, hblank.trans hempty.symm⟩
        obtain ⟨_, _, _, hissued, _⟩ :=
          h pre recordId key stampNow activityNow snapshotNow hpre htrue
        exact key_ne_empty_of_issued hissued hempty
      | _ => trivial
  · intro h pre recordId key stampNow activityNow snapshotNow hpre htrue
    obtain ⟨record, hlookup, hkey⟩ := (restoreWallet_eq_true_iff sha256 _ recordId key stampNow
      activityNow snapshotNow).mp htrue
    -- the key that succeeds is the empty one, which the condition excludes
    have hblank := keysBlank_final sha256 pre recordId record hlookup
    exact absurd (hkey.symm.trans hblank) (h pre _ hpre (Store.mem_of_lookup hlookup))

/-- A wallet is preserved and restored with the empty key. -/
def preservedThenRestored : List Call :=
  [.manager (.preserveWallet "wallet_1" 500 0 0 0 0 0),
    .manager (.restoreWallet "preserve_0" "" 1 1 1)]

theorem not_forall_restoresAuthorised :
    ¬ ∀ (sha256 : Sha256) (calls : List Call), RestoresAuthorised sha256 calls := by
  intro h
  have hrestored := h (fun _ => zeroHash) preservedThenRestored
    [.manager (.preserveWallet "wallet_1" 500 0 0 0 0 0)] "preserve_0" "" 1 1 1
    (List.prefix_refl _) (by decide +kernel)
  obtain ⟨_, _, _, hissued, _⟩ := hrestored
  exact key_ne_empty_of_issued hissued rfl

end PreservationSystem

end Membra
