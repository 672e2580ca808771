/-
Capacity of compute nodes.

What a node has left and what its live commitments hold make up what it had at
first, and its task counter counts them.

* `step_cases` — a call changes nothing, or it grants a commitment that the node
  covers, or it takes a live one back;
* `Ledger` — the invariant of runs with distinct ids;
* `Placed.liveCommitments_le` — ids are printed from milliseconds, so the commitments
  of a node never fill its counter;
* `resources_conserved` — every state of a run with distinct ids.
-/
import MembraL3.ComputeResources
import MembraL3.Lib.Runs
import MembraL3.Lib.Words
import Mathlib.Data.Int.Interval
import Mathlib.Data.Finset.Image

namespace Membra

namespace ComputeResourceAllocator

open Runs

/-! ### Shares of a node -/

/-- What a commitment holds of a node. -/
def share (nodeId : String) (amount : ResourceCommitment → UInt64)
    (commitment : ResourceCommitment) : ℕ :=
  if commitment.nodeId = nodeId then (amount commitment).toNat else 0

/-- What the live commitments hold of a node. -/
def committed (allocator : ComputeResourceAllocator) (nodeId : String)
    (amount : ResourceCommitment → UInt64) : ℕ :=
  Store.total (share nodeId amount) allocator.commitments

/-- The number of live commitments of a node. -/
def liveCommitments (allocator : ComputeResourceAllocator) (nodeId : String) : ℕ :=
  Store.count (fun commitment => decide (commitment.nodeId = nodeId)) allocator.commitments

/-- What a node has left and what its commitments hold is what it had at first. -/
structure Conserved (allocator : ComputeResourceAllocator) (nodeId : String)
    (initial status : NodeStatus) : Prop where
  cpu : status.availableCpuCores.toNat + allocator.committed nodeId (·.cpuCoresCommitted)
    = initial.availableCpuCores.toNat
  memory : status.availableMemoryMb.toNat + allocator.committed nodeId (·.memoryMbCommitted)
    = initial.availableMemoryMb.toNat
  tasks : status.activeTasks.toNat = allocator.liveCommitments nodeId

theorem share_self {nodeId : String} {commitment : ResourceCommitment}
    (h : commitment.nodeId = nodeId) (amount : ResourceCommitment → UInt64) :
    share nodeId amount commitment = (amount commitment).toNat :=
  if_pos h

theorem share_other {nodeId : String} {commitment : ResourceCommitment}
    (h : commitment.nodeId ≠ nodeId) (amount : ResourceCommitment → UInt64) :
    share nodeId amount commitment = 0 :=
  if_neg h

/-! ### What a call does -/

/-- The id that an answer grants. -/
def grantedId : Reply → Option String
  | .allocated commitment =>
    if commitment.commitmentId = "unavailable" then none else some commitment.commitmentId
  | _ => none

theorem step_cases (sha256 : Sha256) (allocator : ComputeResourceAllocator) (c : Call) :
    (grantedId (step sha256 allocator c).1 = none ∧ (step sha256 allocator c).2 = allocator) ∨
    (∃ task idNow expiryNow status commitment,
      c = .allocateResources task commitment.nodeId idNow expiryNow ∧
      allocator.nodeStatuses.lookup commitment.nodeId = some status ∧
      Granted sha256 status task idNow commitment ∧
      grantedId (step sha256 allocator c).1 = some commitment.commitmentId ∧
      (step sha256 allocator c).2 = allocator.grant status commitment) ∨
    (∃ id commitment, allocator.commitments.lookup id = some commitment ∧
      grantedId (step sha256 allocator c).1 = none ∧
      (step sha256 allocator c).2 = allocator.giveBack id commitment) := by
  cases c with
  | allocateResources task nodeId idNow expiryNow =>
    rw [step]
    rcases allocateResources_cases sha256 allocator task nodeId idNow expiryNow with
      hrefused | ⟨status, commitment, hstatus, rfl, hgranted, heq⟩
    · left
      rw [hrefused]
      exact ⟨rfl, rfl⟩
    · refine .inr (.inl ⟨task, idNow, expiryNow, status, commitment, rfl, hstatus, hgranted, ?_⟩)
      -- a printed id is never that of a refusal
      rw [heq]
      exact ⟨if_neg hgranted.ne_unavailable, rfl⟩
  | releaseResources id =>
    rw [step]
    cases hlookup : allocator.commitments.lookup id with
    | none => exact .inl ⟨rfl, releaseResources_of_none hlookup⟩
    | some commitment =>
      exact .inr (.inr ⟨id, commitment, hlookup, rfl, releaseResources_of_some hlookup⟩)
  | checkAvailability task nodeId => exact .inl ⟨rfl, rfl⟩
  | getNodeStatus nodeId => exact .inl ⟨rfl, rfl⟩

/-! ### Distinct ids -/

/-- The ids that a run grants, in order. -/
def grantedIds (sha256 : Sha256) (allocator : ComputeResourceAllocator) (calls : List Call) :
    List String :=
  (trace (step sha256) allocator calls).filterMap fun e => grantedId e.result

/-- The id of a commitment that is live. -/
def Live (allocator : ComputeResourceAllocator) (id : String) : Prop :=
  id ∈ allocator.commitments

/-- The live commitments are the one that the call grants and those that it does not release. -/
theorem live_step_iff (sha256 : Sha256) (allocator : ComputeResourceAllocator) (c : Call)
    (id : String) :
    Live (step sha256 allocator c).2 id ↔ grantedId (step sha256 allocator c).1 = some id ∨
      (Live allocator id ∧ ¬ c = .releaseResources id) := by
  cases c with
  | allocateResources task nodeId idNow expiryNow =>
    rcases allocateResources_cases sha256 allocator task nodeId idNow expiryNow with
      hrefused | ⟨status, commitment, hstatus, rfl, hgranted, heq⟩
    · rw [step, hrefused]
      simp [grantedId, unavailable]
    · rw [step, heq]
      simp [grantedId, hgranted.ne_unavailable, Live, grant, eq_comm]
  | releaseResources id' =>
    rw [step]
    cases hlookup : allocator.commitments.lookup id' with
    | none =>
      have hdead : ¬ Live allocator id' := AList.lookup_eq_none.mp hlookup
      rw [releaseResources_of_none hlookup]
      constructor
      · intro hlive
        refine .inr ⟨hlive, ?_⟩
        rintro ⟨⟩
        exact hdead hlive
      · rintro (hgranted | ⟨hlive, _⟩)
        · cases hgranted
        · exact hlive
    | some commitment =>
      rw [releaseResources_of_some hlookup]
      simp [grantedId, Live, giveBack, and_comm, eq_comm]
  | checkAvailability task nodeId => simp [step, grantedId]
  | getNodeStatus nodeId => simp [step, grantedId]

theorem live_step (sha256 : Sha256) (allocator : ComputeResourceAllocator) (c : Call) (id : String)
    (h : Live (step sha256 allocator c).2 id) :
    Live allocator id ∨ grantedId (step sha256 allocator c).1 = some id := by
  rcases (live_step_iff sha256 allocator c id).mp h with hgranted | ⟨hlive, _⟩
  · exact .inr hgranted
  · exact .inl hlive

theorem not_live_new (id : String) : ¬ Live new id := AList.notMem_empty id

/-- The ids of the calls' grants are not those of live commitments. -/
def Fresh (sha256 : Sha256) (allocator : ComputeResourceAllocator) (c : Call) : Prop :=
  ∀ id, grantedId (step sha256 allocator c).1 = some id → allocator.commitments.lookup id = none

theorem each_fresh (sha256 : Sha256) {calls : List Call}
    (hids : (grantedIds sha256 new calls).Nodup) : Each (step sha256) (Fresh sha256) new calls := by
  have hfresh := each_fresh_of_nodup Live (fun e => grantedId e.result) (live_step sha256)
    not_live_new hids
  refine hfresh.imp ?_
  intro allocator c hnot id hid
  exact AList.lookup_eq_none.mpr (hnot id hid)

/-! ### The number of commitments -/

theorem natAbs_milliseconds_le (t : Nanoseconds) : (milliseconds t).natAbs ≤ 2 ^ 44 := by
  have hlt := Int64.toInt_lt t
  have hle := Int64.le_toInt t
  rw [milliseconds, Int.natAbs_tdiv]
  show t.toInt.natAbs / 1000000 ≤ 2 ^ 44
  omega

/-- Every commitment is on a known node and has an id that was printed for it. -/
def Placed (sha256 : Sha256) (allocator : ComputeResourceAllocator) : Prop :=
  ∀ id commitment, allocator.commitments.lookup id = some commitment →
    commitment.nodeId ∈ allocator.nodeStatuses ∧
      ∃ now, id = commitmentId sha256 commitment.nodeId now

/-- The id that is printed from a reading in milliseconds. -/
def printedId (sha256 : Sha256) (nodeId : String) (ms : ℤ) : String :=
  hex ((sha256 (bytesOf (nodeId ++ toString ms))).toList.take 16)

/-- A node does not have more commitments than there are milliseconds to print. -/
theorem Placed.liveCommitments_le {sha256 : Sha256} {allocator : ComputeResourceAllocator}
    (h : Placed sha256 allocator) (nodeId : String) :
    allocator.liveCommitments nodeId ≤ 2 ^ 45 + 1 := by
  calc allocator.liveCommitments nodeId
      ≤ ((Finset.Icc (-2 ^ 44 : ℤ) (2 ^ 44)).image (printedId sha256 nodeId)).card := by
        -- every id of the node is printed from one of these readings
        refine Store.count_le_card ?_
        intro id commitment hlookup hnode
        obtain ⟨_, now, rfl⟩ := h id commitment hlookup
        obtain rfl : commitment.nodeId = nodeId := of_decide_eq_true hnode
        have habs := natAbs_milliseconds_le now
        refine Finset.mem_image.mpr ⟨milliseconds now, Finset.mem_Icc.mpr ?_, rfl⟩
        omega
    _ ≤ (Finset.Icc (-2 ^ 44 : ℤ) (2 ^ 44)).card := Finset.card_image_le
    _ = 2 ^ 45 + 1 := by
        rw [Int.card_Icc]
        omega

theorem Placed.grant {sha256 : Sha256} {allocator : ComputeResourceAllocator}
    (h : Placed sha256 allocator) {status : NodeStatus} {task : ComputeTask} {now : Nanoseconds}
    {commitment : ResourceCommitment} (hgranted : Granted sha256 status task now commitment) :
    Placed sha256 (allocator.grant status commitment) := by
  intro id' commitment' hlookup
  rw [ComputeResourceAllocator.grant, Store.lookup_assign] at hlookup
  by_cases hsame : id' = commitment.commitmentId
  · rw [if_pos hsame, Option.some_inj] at hlookup
    subst hlookup
    exact ⟨Store.mem_assign.mpr (.inl rfl), now, hsame.trans hgranted.commitmentId⟩
  · rw [if_neg hsame] at hlookup
    obtain ⟨hnode, hprinted⟩ := h id' commitment' hlookup
    exact ⟨Store.mem_assign.mpr (.inr hnode), hprinted⟩

theorem Placed.giveBack {sha256 : Sha256} {allocator : ComputeResourceAllocator}
    (h : Placed sha256 allocator) (id : String) (commitment : ResourceCommitment) :
    Placed sha256 (allocator.giveBack id commitment) := by
  intro id' commitment' hlookup
  rw [ComputeResourceAllocator.giveBack] at hlookup
  have hne : id' ≠ id := by
    rintro rfl
    rw [AList.lookup_erase] at hlookup
    exact absurd hlookup (by simp)
  rw [AList.lookup_erase_ne hne] at hlookup
  obtain ⟨hnode, hprinted⟩ := h id' commitment' hlookup
  exact ⟨Store.mem_assign.mpr (.inr hnode), hprinted⟩

/-! ### One node -/

section Node

variable {allocator allocator' : ComputeResourceAllocator} {nodeId : String}
  {initial status : NodeStatus} {commitment : ResourceCommitment}

/-- A commitment on the node itself. -/
theorem Conserved.grant_self (h : Conserved allocator commitment.nodeId initial status)
    (hfresh : allocator.commitments.lookup commitment.commitmentId = none)
    (hcpu : commitment.cpuCoresCommitted ≤ status.availableCpuCores)
    (hmemory : commitment.memoryMbCommitted ≤ status.availableMemoryMb)
    (hlive : allocator.liveCommitments commitment.nodeId ≤ 2 ^ 45 + 1) :
    Conserved (allocator.grant status commitment) commitment.nodeId initial
      (status.committed commitment) where
  cpu := Words.lease_new h.cpu hfresh (share_self rfl _) hcpu
  memory := Words.lease_new h.memory hfresh (share_self rfl _) hmemory
  tasks := by
    have htasks := h.tasks
    refine (Words.counts_add_iff htasks _ (decide_eq_true rfl)).mpr ⟨?_, ?_⟩
    · rw [hfresh]
      rfl
    · -- room for one more, far below where the counter wraps around
      omega

/-- The node that a live commitment goes back to. -/
theorem Conserved.giveBack_self {id : String}
    (h : Conserved allocator commitment.nodeId initial status)
    (hlookup : allocator.commitments.lookup id = some commitment) :
    Conserved (allocator.giveBack id commitment) commitment.nodeId initial
      (status.released commitment) where
  cpu := Words.lease_back h.cpu (UInt64.toNat_lt _) hlookup (share_self rfl _)
  memory := Words.lease_back h.memory (UInt64.toNat_lt _) hlookup (share_self rfl _)
  tasks := Words.counts_erase h.tasks hlookup (decide_eq_true rfl)

/-- A node whose commitments stay the same. -/
theorem Conserved.other (h : Conserved allocator nodeId initial status)
    (hcommitted : ∀ amount, allocator'.committed nodeId amount = allocator.committed nodeId amount)
    (hlive : allocator'.liveCommitments nodeId = allocator.liveCommitments nodeId) :
    Conserved allocator' nodeId initial status where
  cpu := by rw [hcommitted, h.cpu]
  memory := by rw [hcommitted, h.memory]
  tasks := by rw [hlive, h.tasks]

theorem Conserved.grant_other (h : Conserved allocator nodeId initial status)
    (hfresh : allocator.commitments.lookup commitment.commitmentId = none)
    (hnode : commitment.nodeId ≠ nodeId) (status' : NodeStatus) :
    Conserved (allocator.grant status' commitment) nodeId initial status := by
  refine h.other ?_ ?_
  · intro amount
    show Store.total _ (allocator.commitments.assign _ _) = _
    rw [Store.total_assign_new _ _ hfresh, share_other hnode, zero_add]
    rfl
  · show Store.count _ (allocator.commitments.assign _ _) = _
    rw [Store.count_assign_new _ _ hfresh, if_neg (by simp [hnode]), zero_add]
    rfl

theorem Conserved.giveBack_other {id : String} (h : Conserved allocator nodeId initial status)
    (hlookup : allocator.commitments.lookup id = some commitment)
    (hnode : commitment.nodeId ≠ nodeId) :
    Conserved (allocator.giveBack id commitment) nodeId initial status := by
  refine h.other ?_ ?_
  · intro amount
    have herase := Store.total_erase_of_lookup (share nodeId amount) hlookup
    rwa [share_other hnode, add_zero] at herase
  · have herase : Store.count _ (allocator.commitments.erase id) + _
        = allocator.liveCommitments nodeId := Store.total_erase_of_lookup _ hlookup
    rwa [if_neg (by simp [hnode]), add_zero] at herase

/-- A live commitment is one of the node's tasks. -/
theorem Conserved.activeTasks_pos {id : String}
    (h : Conserved allocator commitment.nodeId initial status)
    (hlookup : allocator.commitments.lookup id = some commitment) : 1 ≤ status.activeTasks := by
  have herase : Store.count _ (allocator.commitments.erase id) + _
      = allocator.liveCommitments commitment.nodeId := Store.total_erase_of_lookup _ hlookup
  rw [if_pos (decide_eq_true rfl)] at herase
  have htasks := h.tasks
  rw [UInt64.le_iff_toNat_le]
  show 1 ≤ status.activeTasks.toNat
  omega

end Node

/-! ### All nodes -/

/-- The invariant of runs with distinct ids. -/
structure Ledger (sha256 : Sha256) (allocator : ComputeResourceAllocator) : Prop where
  placed : Placed sha256 allocator
  conserved : ∀ nodeId status, allocator.nodeStatuses.lookup nodeId = some status →
    ∃ initial, new.nodeStatuses.lookup nodeId = some initial ∧
      Conserved allocator nodeId initial status

theorem ledger_new (sha256 : Sha256) : Ledger sha256 new where
  placed := fun _ _ h => absurd h (by simp [new])
  conserved := by
    intro nodeId status hlookup
    -- nothing is committed, and the one node has no tasks
    refine ⟨status, hlookup, ⟨rfl, rfl, ?_⟩⟩
    rw [new, Store.lookup_assign] at hlookup
    by_cases hnode : nodeId = "node_001"
    · rw [if_pos hnode, Option.some_inj] at hlookup
      subst hlookup
      rfl
    · rw [if_neg hnode] at hlookup
      exact absurd hlookup (by simp)

theorem Ledger.grant {sha256 : Sha256} {allocator : ComputeResourceAllocator}
    (h : Ledger sha256 allocator) {status : NodeStatus} {task : ComputeTask} {now : Nanoseconds}
    {commitment : ResourceCommitment} (hgranted : Granted sha256 status task now commitment)
    (hstatus : allocator.nodeStatuses.lookup commitment.nodeId = some status)
    (hfresh : allocator.commitments.lookup commitment.commitmentId = none) :
    Ledger sha256 (allocator.grant status commitment) where
  placed := h.placed.grant hgranted
  conserved := by
    intro nodeId status' hlookup
    rw [ComputeResourceAllocator.grant, Store.lookup_assign] at hlookup
    by_cases hnode : nodeId = commitment.nodeId
    · rw [if_pos hnode, Option.some_inj] at hlookup
      subst hnode hlookup
      obtain ⟨initial, hinitial, hconserved⟩ := h.conserved commitment.nodeId status hstatus
      exact ⟨initial, hinitial, hconserved.grant_self hfresh hgranted.cpu_le hgranted.memory_le
        (h.placed.liveCommitments_le _)⟩
    · rw [if_neg hnode] at hlookup
      obtain ⟨initial, hinitial, hconserved⟩ := h.conserved nodeId status' hlookup
      exact ⟨initial, hinitial, hconserved.grant_other hfresh (Ne.symm hnode) status⟩

/-- The node of a live commitment. -/
theorem Ledger.status_of_lookup {sha256 : Sha256} {allocator : ComputeResourceAllocator}
    (h : Ledger sha256 allocator) {id : String} {commitment : ResourceCommitment}
    (hlookup : allocator.commitments.lookup id = some commitment) :
    ∃ status initial, allocator.nodeStatuses.lookup commitment.nodeId = some status ∧
      new.nodeStatuses.lookup commitment.nodeId = some initial ∧
      Conserved allocator commitment.nodeId initial status := by
  obtain ⟨hnode, _⟩ := h.placed id commitment hlookup
  obtain ⟨status, hstatus⟩ := Option.isSome_iff_exists.mp (AList.lookup_isSome.mpr hnode)
  obtain ⟨initial, hinitial, hconserved⟩ := h.conserved commitment.nodeId status hstatus
  exact ⟨status, initial, hstatus, hinitial, hconserved⟩

theorem Ledger.giveBack {sha256 : Sha256} {allocator : ComputeResourceAllocator}
    (h : Ledger sha256 allocator) {id : String} {commitment : ResourceCommitment}
    (hlookup : allocator.commitments.lookup id = some commitment) :
    Ledger sha256 (allocator.giveBack id commitment) where
  placed := h.placed.giveBack id commitment
  conserved := by
    intro nodeId status' hlookup'
    rw [ComputeResourceAllocator.giveBack, Store.lookup_assign] at hlookup'
    by_cases hnode : nodeId = commitment.nodeId
    · obtain ⟨status, initial, hstatus, hinitial, hconserved⟩ := h.status_of_lookup hlookup
      rw [if_pos hnode, statusAt, hstatus, Option.some_inj] at hlookup'
      subst hnode hlookup'
      exact ⟨initial, hinitial, hconserved.giveBack_self hlookup⟩
    · rw [if_neg hnode] at hlookup'
      obtain ⟨initial, hinitial, hconserved⟩ := h.conserved nodeId status' hlookup'
      exact ⟨initial, hinitial, hconserved.giveBack_other hlookup (Ne.symm hnode)⟩

theorem ledger_step (sha256 : Sha256) (allocator : ComputeResourceAllocator) (c : Call)
    (h : Ledger sha256 allocator) (hfresh : Fresh sha256 allocator c) :
    Ledger sha256 (step sha256 allocator c).2 := by
  rcases step_cases sha256 allocator c with ⟨_, hsame⟩ |
    ⟨_, _, _, status, commitment, _, hstatus, hgranted, hid, hgrant⟩ |
    ⟨id, commitment, hlookup, _, hback⟩
  · rwa [hsame]
  · rw [hgrant]
    exact h.grant hgranted hstatus (hfresh _ hid)
  · rw [hback]
    exact h.giveBack hlookup

theorem ledger_final (sha256 : Sha256) {calls : List Call}
    (hids : (grantedIds sha256 new calls).Nodup) : Ledger sha256 (final (step sha256) new calls) :=
  final_induction (ledger_step sha256) (ledger_new sha256) (each_fresh sha256 hids)

/-! ### Whole runs -/

/-- Every live commitment holds what the task of its allocation requires. -/
theorem full_of_lookup (sha256 : Sha256) (calls : List Call) {id : String}
    {commitment : ResourceCommitment}
    (h : (final (step sha256) new calls).commitments.lookup id = some commitment) :
    ∃ task idNow expiryNow, .allocateResources task commitment.nodeId idNow expiryNow ∈ calls ∧
      id = commitmentId sha256 commitment.nodeId idNow ∧
      commitment.cpuCoresCommitted = requiredCpu task ∧
      commitment.memoryMbCommitted = requiredMemory task := by
  induction calls using List.reverseRecOn with
  | nil => exact absurd h (by simp [new])
  | append_singleton pre c ih =>
    -- a commitment of the state before is still that of an earlier call
    have hearlier
        (hbefore : (final (step sha256) new pre).commitments.lookup id = some commitment) :
        ∃ task idNow expiryNow,
          .allocateResources task commitment.nodeId idNow expiryNow ∈ pre ++ [c] ∧
          id = commitmentId sha256 commitment.nodeId idNow ∧
          commitment.cpuCoresCommitted = requiredCpu task ∧
          commitment.memoryMbCommitted = requiredMemory task := by
      obtain ⟨task, idNow, expiryNow, hmem, hfull⟩ := ih hbefore
      exact ⟨task, idNow, expiryNow, List.mem_append_left _ hmem, hfull⟩
    rw [final_append, final_cons, final_nil] at h
    rcases step_cases sha256 (final (step sha256) new pre) c with ⟨_, hsame⟩ |
      ⟨task, idNow, expiryNow, status, new, rfl, _, hgranted, _, hgrant⟩ | ⟨id', old, _, _, hback⟩
    · rw [hsame] at h
      exact hearlier h
    · rw [hgrant, grant, Store.lookup_assign] at h
      by_cases hid : id = new.commitmentId
      · rw [if_pos hid, Option.some_inj] at h
        subst h
        exact ⟨task, idNow, expiryNow, List.mem_append_right _ (List.mem_singleton_self _),
          hid.trans hgranted.commitmentId, hgranted.cpu, hgranted.memory⟩
      · rw [if_neg hid] at h
        exact hearlier h
    · -- the release of another id
      rw [hback, giveBack] at h
      by_cases hid : id = id'
      · rw [hid, AList.lookup_erase] at h
        exact absurd h (by simp)
      · rw [AList.lookup_erase_ne hid] at h
        exact hearlier h

/-- An id that has been released is not live again. -/
theorem lookup_eq_none_of_released (sha256 : Sha256) {pre mid : List Call} {id : String}
    (hids : (grantedIds sha256 new (pre ++ .releaseResources id :: mid)).Nodup)
    (hlive : id ∈ (final (step sha256) new pre).commitments) :
    (final (step sha256) new (pre ++ .releaseResources id :: mid)).commitments.lookup id
      = none := by
  refine AList.lookup_eq_none.mpr (not_live_again Live (fun e => grantedId e.result)
    (live_step sha256) not_live_new hids hlive ?_)
  -- the release has removed it from the map
  obtain ⟨commitment, hlookup⟩ := Option.isSome_iff_exists.mp (AList.lookup_isSome.mpr hlive)
  rw [final_append, final_cons, final_nil, step, releaseResources_of_some hlookup, Live, giveBack,
    AList.mem_erase]
  exact fun hagain => hagain.1 rfl

/-- What holds of the state a run has reached. -/
structure ResourcesConserved (sha256 : Sha256) (calls : List Call) : Prop where
  /-- The capacity of every node. -/
  conserved : ∀ nodeId status,
    (final (step sha256) new calls).getNodeStatus nodeId = some status →
    ∃ initial, new.getNodeStatus nodeId = some initial ∧
      Conserved (final (step sha256) new calls) nodeId initial status
  /-- Live commitments hold the full requirement. -/
  full : ∀ id commitment,
    (final (step sha256) new calls).commitments.lookup id = some commitment →
    ∃ task idNow expiryNow, .allocateResources task commitment.nodeId idNow expiryNow ∈ calls ∧
      id = commitmentId sha256 commitment.nodeId idNow ∧
      commitment.cpuCoresCommitted = requiredCpu task ∧
      commitment.memoryMbCommitted = requiredMemory task
  /-- The next allocation is refused and changes nothing, or takes from the node what
  it has. -/
  allocates : ∀ task nodeId idNow expiryNow commitment after,
    (final (step sha256) new calls).allocateResources sha256 task nodeId idNow expiryNow
      = (commitment, after) →
    (commitment.commitmentId = "unavailable" ∧ after = final (step sha256) new calls) ∨
    (commitment.nodeId = nodeId ∧
      after.commitments.lookup commitment.commitmentId = some commitment ∧
      ∃ status, (final (step sha256) new calls).getNodeStatus nodeId = some status ∧
        Granted sha256 status task idNow commitment)
  /-- The node of a live commitment counts a task to take away. -/
  releases : ∀ id commitment,
    (final (step sha256) new calls).commitments.lookup id = some commitment →
    ∃ status, (final (step sha256) new calls).getNodeStatus commitment.nodeId = some status ∧
      1 ≤ status.activeTasks
  /-- An unknown id. -/
  unknown : ∀ id, (final (step sha256) new calls).commitments.lookup id = none →
    (final (step sha256) new calls).releaseResources id = final (step sha256) new calls
  /-- An id that has been released before. -/
  released : ∀ pre id mid, calls = pre ++ .releaseResources id :: mid →
    id ∈ (final (step sha256) new pre).commitments →
    (final (step sha256) new calls).releaseResources id = final (step sha256) new calls

/-- The capacity of the nodes is conserved in every run with distinct ids. -/
theorem resources_conserved (sha256 : Sha256) (calls : List Call)
    (hids : (grantedIds sha256 new calls).Nodup) : ResourcesConserved sha256 calls where
  conserved := (ledger_final sha256 hids).conserved
  full := fun _ _ => full_of_lookup sha256 calls
  allocates := by
    intro task nodeId idNow expiryNow commitment after heq
    rcases allocateResources_cases sha256 (final (step sha256) new calls) task nodeId idNow
      expiryNow with hrefused | ⟨status, commitment', hstatus, rfl, hgranted, hgrant⟩
    · obtain ⟨rfl, rfl⟩ := Prod.mk.inj (hrefused.symm.trans heq)
      exact .inl ⟨rfl, rfl⟩
    · obtain ⟨rfl, rfl⟩ := Prod.mk.inj (hgrant.symm.trans heq)
      exact .inr ⟨rfl, Store.lookup_assign_self _ _ _, status, hstatus, hgranted⟩
  releases := by
    intro id commitment hlookup
    obtain ⟨status, _, hstatus, _, hconserved⟩ :=
      (ledger_final sha256 hids).status_of_lookup hlookup
    exact ⟨status, hstatus, hconserved.activeTasks_pos hlookup⟩
  unknown := fun _ => releaseResources_of_none
  released := by
    rintro pre id mid rfl hlive
    exact releaseResources_of_none (lookup_eq_none_of_released sha256 hids hlive)

/-- A hash that tells the last characters apart. -/
def lastByteHash : Sha256 := fun bytes => Vector.replicate 32 (bytes.getLastD 0)

def taskOf (units : UInt64) : ComputeTask :=
  { ComputeTask.default with requiredComputeUnits := units }

/-- Two tasks a millisecond apart, one that asks for too much, and the release of the
first. -/
def twoTasks : List Call :=
  [.allocateResources (taskOf 3000) "node_001" 0 0,
    .allocateResources (taskOf 4500) "node_001" 1000000 0,
    .allocateResources (taskOf 2000) "node_001" 2000000 0,
    .releaseResources (commitmentId lastByteHash "node_001" 0)]

theorem resources_conserved_twoTasks :
    (grantedIds lastByteHash new twoTasks).length = 2 ∧
    ((final (step lastByteHash) new twoTasks).getNodeStatus "node_001").map
      (fun status => (status.availableCpuCores, status.availableMemoryMb, status.activeTasks))
        = some (4, 15934, 1) ∧
    ResourcesConserved lastByteHash twoTasks :=
  ⟨by decide +kernel, by decide +kernel,
    resources_conserved lastByteHash twoTasks (by decide +kernel)⟩

end ComputeResourceAllocator

end Membra
