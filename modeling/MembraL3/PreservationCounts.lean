/-
The count of active preservations.

`active_preservations` goes up with `preserve_wallet` and down with
`restore_wallet`, whatever the status of the record that is written or
overwritten; the other operations leave it alone, also where they change the
status of a preserved record.

* `step_stores` — the records that an operation stores, and what it does to the
  counters;
* `countsAgree_iff_keepsCounts` — the runs in which both counters are right
  throughout.
-/
import MembraL3.WalletPreservation
import MembraL3.Lib.Runs
import MembraL3.Lib.Words

namespace Membra

namespace WalletPreservationManager

open Runs

def isPreserved (record : PreservationRecord) : Bool := record.status = .preserved

/-- The record under the key is preserved. -/
def preservedAt (manager : WalletPreservationManager) (key : String) : Bool :=
  (manager.preservationRecords.lookup key).any isPreserved

/-- `active_preservations` is the number of preserved records. -/
def ActiveAgrees (manager : WalletPreservationManager) : Prop :=
  manager.stats.activePreservations.toNat = Store.count isPreserved manager.preservationRecords

/-! ### Reviews -/

theorem reviewId_ne_generateRecordId (t t' : Nanoseconds) : reviewId t ≠ generateRecordId t' := by
  intro h
  -- the first letters differ
  have hlist := congrArg String.toList h
  rw [reviewId, generateRecordId, String.toList_append, String.toList_append] at hlist
  exact absurd (List.cons.inj hlist).1 (by decide)

/-- Only ids that `preserve_wallet` prints lead to preserved records. -/
def PreservedKeys (manager : WalletPreservationManager) : Prop :=
  ∀ key, preservedAt manager key = true → ∃ t, key = generateRecordId t

theorem preservedAt_assign {manager manager' : WalletPreservationManager} {key : String}
    {record : PreservationRecord}
    (hassign : manager'.preservationRecords = manager.preservationRecords.assign key record)
    (other : String) :
    preservedAt manager' other
      = if other = key then isPreserved record else preservedAt manager other := by
  rw [preservedAt, hassign, Store.lookup_assign]
  by_cases hother : other = key
  · rw [if_pos hother, if_pos hother]
    rfl
  · rw [if_neg hother, if_neg hother]
    rfl

theorem preservedKeys_assign {manager manager' : WalletPreservationManager}
    (h : PreservedKeys manager) {key : String} {record : PreservationRecord}
    (hassign : manager'.preservationRecords = manager.preservationRecords.assign key record)
    (hrecord : isPreserved record = true → ∃ t, key = generateRecordId t) :
    PreservedKeys manager' := by
  intro other hother
  rw [preservedAt_assign hassign] at hother
  by_cases hkey : other = key
  · rw [if_pos hkey] at hother
    rw [hkey]
    exact hrecord hother
  · rw [if_neg hkey] at hother
    exact h other hother

/-! ### What an operation stores -/

/-- A preservation uses an id that leads to no preserved record, and the total can
count it; only preserved records are restored; freezing and unfreezing change
no preserved record. -/
def KeepsCounts (manager : WalletPreservationManager) : Call → Prop
  | .preserveWallet _ _ idNow _ _ _ _ =>
    preservedAt manager (generateRecordId idNow) = false ∧
      manager.stats.totalPreservations.toNat + 1 < 2 ^ 64
  | .restoreWallet recordId key _ _ _ => ∀ record ∈ manager.preservationRecords.lookup recordId,
      record.recoveryKey = key → isPreserved record = true
  | .freezeWallet wallet _ idNow _ =>
    preservedAt manager
      (if wallet ∈ manager.preservationRecords then wallet else generateRecordId idNow) = false
  | .unfreezeWallet wallet => preservedAt manager wallet = false
  | _ => True

/-- The call is one of `preserve_wallet`. -/
def Call.isPreserve : Call → Bool
  | .preserveWallet _ _ _ _ _ _ _ => true
  | _ => false

theorem freezeRecord_key (manager : WalletPreservationManager) (wallet reason : String)
    (idNow stampNow : Nanoseconds) :
    (manager.freezeRecord wallet reason idNow stampNow).1
      = if wallet ∈ manager.preservationRecords then wallet else generateRecordId idNow := by
  cases hlookup : manager.preservationRecords.lookup wallet with
  | none =>
    rw [freezeRecord_of_none hlookup, if_neg (AList.lookup_eq_none.mp hlookup)]
  | some record =>
    rw [freezeRecord_of_some hlookup, if_pos (Store.mem_of_lookup hlookup)]

/-- What one operation can do to the records and to the two counters. -/
theorem step_stores (sha256 : Sha256) (manager : WalletPreservationManager) (c : Call) :
    ((step sha256 manager c).2.preservationRecords = manager.preservationRecords ∧
      (step sha256 manager c).2.stats.activePreservations = manager.stats.activePreservations ∧
      (step sha256 manager c).2.stats.totalPreservations = manager.stats.totalPreservations ∧
      c.isPreserve = false ∧ KeepsCounts manager c) ∨
    (∃ idNow record, c.isPreserve = true ∧ isPreserved record = true ∧
      (step sha256 manager c).2.preservationRecords
        = manager.preservationRecords.assign (generateRecordId idNow) record ∧
      (step sha256 manager c).2.stats.activePreservations = manager.stats.activePreservations + 1 ∧
      (step sha256 manager c).2.stats.totalPreservations = manager.stats.totalPreservations + 1 ∧
      (KeepsCounts manager c ↔ preservedAt manager (generateRecordId idNow) = false ∧
        manager.stats.totalPreservations.toNat + 1 < 2 ^ 64)) ∨
    (∃ key record, c.isPreserve = false ∧ isPreserved record = false ∧
      (step sha256 manager c).2.preservationRecords
        = manager.preservationRecords.assign key record ∧
      (step sha256 manager c).2.stats.activePreservations = manager.stats.activePreservations - 1 ∧
      (step sha256 manager c).2.stats.totalPreservations = manager.stats.totalPreservations ∧
      (KeepsCounts manager c ↔ preservedAt manager key = true)) ∨
    (∃ key record, c.isPreserve = false ∧ isPreserved record = false ∧
      (step sha256 manager c).2.preservationRecords
        = manager.preservationRecords.assign key record ∧
      (step sha256 manager c).2.stats.activePreservations = manager.stats.activePreservations ∧
      (step sha256 manager c).2.stats.totalPreservations = manager.stats.totalPreservations ∧
      ((KeepsCounts manager c ↔ preservedAt manager key = false) ∨
        (KeepsCounts manager c ∧ ∃ t, key = reviewId t))) := by
  cases c with
  | preserveWallet wallet balance idNow activityNow snapshotNow stampNow updateNow =>
    exact .inr (.inl ⟨idNow, _, rfl, rfl, rfl, rfl, rfl, Iff.rfl⟩)
  | restoreWallet recordId key stampNow activityNow snapshotNow =>
    rcases restoreWallet_cases sha256 manager recordId key stampNow activityNow snapshotNow with
      ⟨hnone, hfail⟩ | ⟨record, hlookup, hkey, hrestore⟩
    · left
      rw [step, hfail]
      exact ⟨rfl, rfl, rfl, rfl, fun record hrecord hkey => absurd hkey (hnone record hrecord)⟩
    · refine .inr (.inr (.inl ⟨recordId, record.restored stampNow, rfl, rfl, ?_⟩))
      rw [step, hrestore]
      refine ⟨rfl, rfl, rfl, ?_⟩
      show (∀ found ∈ manager.preservationRecords.lookup recordId, found.recoveryKey = key →
          isPreserved found = true)
        ↔ (manager.preservationRecords.lookup recordId).any isPreserved = true
      rw [hlookup]
      simp [hkey]
  | freezeWallet wallet reason idNow stampNow =>
    refine .inr (.inr (.inr ⟨(manager.freezeRecord wallet reason idNow stampNow).1,
      (manager.freezeRecord wallet reason idNow stampNow).2, rfl, ?_, rfl, rfl, rfl, ?_⟩))
    · simp [isPreserved, status_freezeRecord]
    · rw [freezeRecord_key]
      exact .inl Iff.rfl
  | unfreezeWallet wallet =>
    cases hlookup : manager.preservationRecords.lookup wallet with
    | none =>
      left
      rw [step, unfreezeWallet_of_none hlookup]
      refine ⟨rfl, rfl, rfl, rfl, ?_⟩
      show (manager.preservationRecords.lookup wallet).any isPreserved = false
      rw [hlookup]
      rfl
    | some record =>
      refine .inr (.inr (.inr ⟨wallet, record.unfrozen, rfl, rfl, ?_⟩))
      rw [step, unfreezeWallet_of_some hlookup]
      exact ⟨rfl, rfl, rfl, .inl Iff.rfl⟩
  | requestGovernanceReview wallet reason idNow stampNow =>
    exact .inr (.inr (.inr ⟨reviewId idNow, _, rfl, rfl, rfl, rfl, rfl,
      .inr ⟨trivial, idNow, rfl⟩⟩))
  | _ => exact .inl ⟨rfl, rfl, rfl, rfl, trivial⟩

theorem preservedKeys_final (sha256 : Sha256) (calls : List Call) :
    PreservedKeys (final (step sha256) new calls) := by
  have hnew : PreservedKeys new := by
    intro key hkey
    exact absurd hkey (by simp [preservedAt, new])
  refine final_invariant ?_ hnew calls
  intro manager c h
  rcases step_stores sha256 manager c with ⟨hrecords, _⟩ | ⟨idNow, record, _, _, hassign, _⟩ |
    ⟨key, record, _, hrecord, hassign, _⟩ | ⟨key, record, _, hrecord, hassign, _⟩
  · intro key hkey
    rw [preservedAt, hrecords] at hkey
    exact h key hkey
  · exact preservedKeys_assign h hassign fun _ => ⟨idNow, rfl⟩
  · exact preservedKeys_assign h hassign fun htrue => absurd htrue (by simp [hrecord])
  · exact preservedKeys_assign h hassign fun htrue => absurd htrue (by simp [hrecord])

/-! ### Both counters along a run -/

/-- The number of records that `preserve_wallet` has created. -/
def preservations (calls : List Call) : ℕ := calls.countP Call.isPreserve

theorem preservations_append (calls : List Call) (c : Call) :
    preservations (calls ++ [c]) = preservations calls + if c.isPreserve then 1 else 0 := by
  rw [preservations, List.countP_append, List.countP_singleton]
  rfl

/-- Each preserved record was created by a call of `preserve_wallet`. -/
theorem count_le_preservations (sha256 : Sha256) (calls : List Call) :
    Store.count isPreserved (final (step sha256) new calls).preservationRecords
      ≤ preservations calls := by
  induction calls using List.reverseRecOn with
  | nil => exact le_refl 0
  | append_singleton calls c ih =>
    rw [final_append, final_cons, final_nil, preservations_append]
    rcases step_stores sha256 (final (step sha256) new calls) c with ⟨hrecords, _⟩ |
      ⟨idNow, record, hc, hrecord, hassign, _⟩ | ⟨key, record, _, hrecord, hassign, _⟩ |
      ⟨key, record, _, hrecord, hassign, _⟩
    · rw [hrecords]
      omega
    · have hcount := Store.count_assign isPreserved
        (final (step sha256) new calls).preservationRecords (generateRecordId idNow) record
      rw [hassign, hc, if_pos rfl]
      rw [hrecord, if_pos rfl] at hcount
      omega
    · rw [hassign]
      exact ((Store.count_assign_le _ _ key hrecord).trans ih).trans (Nat.le_add_right _ _)
    · rw [hassign]
      exact ((Store.count_assign_le _ _ key hrecord).trans ih).trans (Nat.le_add_right _ _)

/-- After the run, `active_preservations` is the number of preserved records and
`total_preservations` that of the records created by `preserve_wallet`. -/
structure CountsAgree (sha256 : Sha256) (calls : List Call) : Prop where
  active : ActiveAgrees (final (step sha256) new calls)
  total : (final (step sha256) new calls).stats.totalPreservations.toNat = preservations calls

theorem countsAgree_nil (sha256 : Sha256) : CountsAgree sha256 [] := ⟨rfl, rfl⟩

/-- One more call keeps the counters right iff it keeps to the condition. -/
theorem countsAgree_append_iff {sha256 : Sha256} {calls : List Call} (h : CountsAgree sha256 calls)
    (c : Call) :
    CountsAgree sha256 (calls ++ [c]) ↔ KeepsCounts (final (step sha256) new calls) c := by
  have hsplit : CountsAgree sha256 (calls ++ [c]) ↔
      ActiveAgrees (step sha256 (final (step sha256) new calls) c).2 ∧
        (step sha256 (final (step sha256) new calls) c).2.stats.totalPreservations.toNat
          = preservations calls + if c.isPreserve then 1 else 0 := by
    have hfinal : final (step sha256) new (calls ++ [c])
        = (step sha256 (final (step sha256) new calls) c).2 := by
      rw [final_append, final_cons, final_nil]
    rw [← preservations_append, ← hfinal]
    exact ⟨fun hagree => ⟨hagree.active, hagree.total⟩, fun hagree => ⟨hagree.1, hagree.2⟩⟩
  rw [hsplit]
  rcases step_stores sha256 (final (step sha256) new calls) c with
    ⟨hrecords, hactive, hsame, hc, hkeeps⟩ |
    ⟨idNow, record, hc, hrecord, hassign, hactive, hplus, hkeeps⟩ |
    ⟨key, record, hc, hrecord, hassign, hactive, hsame, hkeeps⟩ |
    ⟨key, record, hc, hrecord, hassign, hactive, hsame, hkeeps⟩
  · refine iff_of_true ⟨?_, ?_⟩ hkeeps
    · rw [ActiveAgrees, hrecords, hactive]
      exact h.active
    · rw [hsame, hc]
      exact h.total
  · -- the total counts one more where it does not wrap around, and then so can the other
    rw [hkeeps, hplus, hc, if_pos rfl, ← h.total, Words.toNat_add_one_eq_iff, ActiveAgrees, hassign,
      hactive, Words.counts_add_iff h.active _ hrecord, and_assoc]
    refine and_congr_right fun _ => and_iff_right_of_imp ?_
    intro hbound
    have hle := count_le_preservations sha256 calls
    have htotal := h.total
    have hactiveEq : _ = Store.count isPreserved _ := h.active
    omega
  · simp only [hsame, hc, Bool.false_eq_true, if_false, add_zero, h.total, and_true]
    rw [hkeeps, ActiveAgrees, hassign, hactive, Words.counts_sub_iff h.active _ hrecord]
    rfl
  · simp only [hsame, hc, Bool.false_eq_true, if_false, add_zero, h.total, and_true]
    rw [ActiveAgrees, hassign, hactive, Words.counts_store_iff h.active _ hrecord]
    rcases hkeeps with hkeeps | ⟨hkeeps, t, rfl⟩
    · exact hkeeps.symm
    · refine iff_of_true ?_ hkeeps
      -- a review has an id of its own
      cases hpreserved : preservedAt (final (step sha256) new calls) (reviewId t) with
      | false => exact hpreserved
      | true =>
        obtain ⟨t', hid⟩ := preservedKeys_final sha256 calls _ hpreserved
        exact absurd hid (reviewId_ne_generateRecordId t t')

/-- Both counters are right in every state of a run iff each of its calls keeps to
the condition. -/
theorem countsAgree_iff_keepsCounts (sha256 : Sha256) (calls : List Call) :
    (∀ pre, pre <+: calls → CountsAgree sha256 pre) ↔ Each (step sha256) KeepsCounts new calls := by
  rw [each_iff_forall]
  refine forall_prefix_iff (countsAgree_nil sha256) ?_
  intro pre c _ hpast
  exact countsAgree_append_iff (hpast pre (List.prefix_refl pre)) c

/-- The readings of the clock during a call, in order. -/
def Call.readings : Call → List Nanoseconds
  | .preserveWallet _ _ idNow activityNow snapshotNow stampNow updateNow =>
    [idNow, activityNow, snapshotNow, stampNow, updateNow]
  | .restoreWallet _ _ stampNow activityNow snapshotNow => [stampNow, activityNow, snapshotNow]
  | .transferMaintenanceFunds _ _ activityNow snapshotNow updateNow =>
    [activityNow, snapshotNow, updateNow]
  | .freezeWallet _ _ idNow stampNow => [idNow, stampNow]
  | .requestGovernanceReview _ _ idNow stampNow => [idNow, stampNow]
  | _ => []

/-- Two wallets are preserved within one millisecond. -/
def preservedTogether : List Call :=
  [.preserveWallet "wallet_1" 500 1000000 1000000 1000000 1000000 1000000,
    .preserveWallet "wallet_2" 700 1000001 1000001 1000001 1000001 1000001]

theorem not_forall_countsAgree :
    ¬ ∀ (sha256 : Sha256) (calls : List Call),
      (calls.flatMap Call.readings).Pairwise (· ≤ ·) → CountsAgree sha256 calls := by
  intro h
  have hactive := (h (fun _ => zeroHash) preservedTogether (by decide +kernel)).active
  rw [ActiveAgrees] at hactive
  revert hactive
  decide +kernel

end WalletPreservationManager

end Membra
