/-
Ids made from the clock.

Four stores name their records by a clock reading: stakes and reward entries by their
owner and the microsecond, reimbursement requests by the millisecond, and commitments by
a hash of their node and the millisecond.  A record gets a new key exactly where no
earlier record has the same name, so two of them in one microsecond, or millisecond,
share a key, and the second overwrites the first.

* `addsStakes_iff`, `addsEntries_iff`, `addsRequests_iff`, `addsCommitments_iff` — the
  stores one by one;
* `addsRecords_iff` — all of them.
-/
import MembraL3.ComputeResourceConservation
import MembraL3.GasReimbursement
import MembraL3.RewardVault
import MembraL3.StakingRuns

namespace Membra

open Runs

/-! ### Stakes -/

namespace ComputeStaking

/-- Every `stake_compute` adds one stake, under the id that it returns. -/
def AddsStakes (order : MapOrder) (arith : Doubles) (calls : List Call) : Prop :=
  ∀ e ∈ trace (step order arith) new calls, ∀ stakeId creditGrant,
    e.result = .staked stakeId creditGrant → Store.Adds stakeId e.before.stakes e.after.stakes

/-- The staker and the microsecond of a `stake_compute`. -/
def stakedAs : Call → Option (String × Bool × ℕ)
  | .stakeCompute staker _ _ _ idNow _ => some (staker, microsecond idNow)
  | _ => none

theorem computeStakeId_eq (staker : String) (now : Seconds) :
    computeStakeId staker now = clockName "stake_" (staker, microsecond now) := by
  rw [computeStakeId, toStringDouble_eq]
  rfl

theorem stakeIds_eq (calls : List Call) :
    stakeIds calls = (calls.filterMap stakedAs).map (clockName "stake_") := by
  rw [stakeIds, List.map_filterMap]
  congr 1
  funext c
  cases c with
  | stakeCompute staker cores ram units idNow stampNow =>
    exact congrArg some (computeStakeId_eq staker idNow)
  | unstakeCompute stakeId durationNow stampNow => rfl
  | consumeGasAllowance staker cost => rfl

/-- The stored stakes are those stored before the call and the one it adds. -/
theorem mem_stakes_step_iff (order : MapOrder) (arith : Doubles) (staking : ComputeStaking)
    (c : Call) (id : String) :
    id ∈ (step order arith staking c).2.stakes ↔ stakedId c = some id ∨ id ∈ staking.stakes := by
  constructor
  · intro h
    exact (mem_stakes_step order arith staking c id h).symm
  · rintro (hissued | hold)
    · cases c with
      | stakeCompute staker cores ram units idNow stampNow =>
        obtain rfl : computeStakeId staker idNow = id := Option.some.inj hissued
        exact Store.mem_assign.mpr (.inl rfl)
      | unstakeCompute stakeId durationNow stampNow => cases hissued
      | consumeGasAllowance staker cost => cases hissued
    · rcases step_cases order arith staking c with ⟨hsame, _⟩ | ⟨_, _, _, _, _, _, _, hnew⟩ |
        ⟨_, _, _, _, _, _, _, hclosed⟩ | ⟨_, _, _, _, _, _, _, htaken⟩
      · rwa [hsame]
      · rw [hnew]
        exact Store.mem_assign.mpr (.inr hold)
      · rw [hclosed]
        exact Store.mem_assign.mpr (.inr hold)
      · rw [htaken]
        exact Store.mem_assign.mpr (.inr hold)

theorem adds_event_iff (order : MapOrder) (arith : Doubles) (staking : ComputeStaking) (c : Call) :
    (∀ stakeId creditGrant,
      (event (step order arith) staking c).result = .staked stakeId creditGrant →
        Store.Adds stakeId staking.stakes (step order arith staking c).2.stakes) ↔
      Fresh staking c := by
  cases c with
  | stakeCompute staker cores ram units idNow stampNow =>
    simp [step, stakeCompute, Fresh, stakedId, Store.adds_assign_iff]
  | unstakeCompute stakeId durationNow stampNow => simp [step, Fresh, stakedId]
  | consumeGasAllowance staker cost => simp [step, Fresh, stakedId]

/-- Every `stake_compute` of a run adds a stake exactly when no staker stakes twice in
one microsecond. -/
theorem addsStakes_iff (order : MapOrder) (arith : Doubles) (calls : List Call) :
    AddsStakes order arith calls ↔ (calls.filterMap stakedAs).Nodup := by
  have hfresh : AddsStakes order arith calls ↔ Each (step order arith) Fresh new calls :=
    forall_trace_iff_each (adds_event_iff order arith)
  have hnew : ∀ id, id ∉ new.stakes := fun id => AList.notMem_empty id
  rw [hfresh]
  refine (each_fresh_iff_nodup (fun staking : ComputeStaking => (· ∈ staking.stakes))
    (fun e => stakedId e.call) hnew (mem_stakes_step_iff order arith)).trans ?_
  rw [filterMap_call_trace, ← List.nodup_map_iff (clockName_injective "stake_"), ← stakeIds_eq]
  rfl

end ComputeStaking

/-! ### Reward entries -/

namespace RewardVault

/-- Every `create_reward_entry` that succeeds adds one entry, under the id that it returns. -/
def AddsEntries (initialPoolBalance : UInt64) (calls : List Call) : Prop :=
  ∀ e ∈ trace step (new initialPoolBalance) calls, ∀ entryId,
    e.result = .created entryId → entryId ≠ "" →
      Store.Adds entryId e.before.entries e.after.entries

instance (vault : RewardVault) (worker : String) (amount : UInt64) (dailyNow : Seconds) :
    Decidable (vault.PassesChecks worker amount dailyNow) :=
  inferInstanceAs (Decidable (_ ∧ _ ∧ _ ∧ _))

/-- The worker and the microsecond of a creation that passes its checks. -/
def acceptedAs (e : Event RewardVault Call Reply) : Option (String × Bool × ℕ) :=
  match e.call with
  | .createRewardEntry worker _ amount _ dailyNow idNow _ =>
    if e.before.PassesChecks worker amount dailyNow then some (worker, microsecond idNow) else none
  | _ => none

/-- The id of the entry that a call creates. -/
def createdId (e : Event RewardVault Call Reply) : Option String :=
  (acceptedAs e).map (clockName "reward_")

theorem rewardEntryId_eq (worker : String) (now : Seconds) :
    rewardEntryId worker now = clockName "reward_" (worker, microsecond now) := by
  rw [rewardEntryId, toStringDouble_eq]
  rfl

section Create

variable {vault : RewardVault} {worker : String} {amount : UInt64} {dailyNow : Seconds}

theorem createdId_of_passesChecks (h : vault.PassesChecks worker amount dailyNow)
    (receipt source : String) (idNow stampNow : Seconds) :
    createdId (event step vault
      (.createRewardEntry worker receipt amount source dailyNow idNow stampNow))
        = some (rewardEntryId worker idNow) := by
  rw [createdId, acceptedAs, event_call, event_before]
  simp only [if_pos h, Option.map_some, rewardEntryId_eq]

theorem createdId_of_not_passesChecks (h : ¬ vault.PassesChecks worker amount dailyNow)
    (receipt source : String) (idNow stampNow : Seconds) :
    createdId (event step vault
      (.createRewardEntry worker receipt amount source dailyNow idNow stampNow)) = none := by
  rw [createdId, acceptedAs, event_call, event_before]
  simp only [if_neg h, Option.map_none]

end Create

theorem mem_entries_pay {vault : RewardVault} {entryId : String} {entry : RewardVaultEntry}
    (h : vault.payable entryId = some entry) (now : Seconds) (id : String) :
    id ∈ (vault.pay entryId entry now).entries ↔ id ∈ vault.entries := by
  rw [pay, Store.mem_assign, or_iff_right_of_imp]
  rintro rfl
  exact Store.mem_of_lookup (payable_eq_some_iff.mp h).1

/-- The stored entries are those stored before the call and the one it creates. -/
theorem mem_entries_step_iff (vault : RewardVault) (c : Call) (id : String) :
    id ∈ (step vault c).2.entries ↔
      createdId (event step vault c) = some id ∨ id ∈ vault.entries := by
  cases c with
  | createRewardEntry worker receipt amount source dailyNow idNow stampNow =>
    by_cases h : vault.PassesChecks worker amount dailyNow
    · rw [createdId_of_passesChecks h, step_createRewardEntry_of_passesChecks h, Store.mem_assign,
        Option.some_inj, eq_comm]
    · rw [createdId_of_not_passesChecks h, step, createRewardEntry_of_not_passesChecks h]
      simp
  | depositToPool amount source =>
    rw [step, depositToPool]
    split <;> simp [createdId, acceptedAs]
  | claimReward entryId now =>
    have hnone : createdId (event step vault (.claimReward entryId now)) = none := rfl
    rw [hnone, step]
    cases hpay : vault.payable entryId with
    | none => simp [claimReward_of_not_payable hpay]
    | some entry => simp [claimReward_of_payable hpay, mem_entries_pay hpay]
  | getWorkerDailyClaimed worker now => simp [step, createdId, acceptedAs]
  | getEntry entryId => simp [step, createdId, acceptedAs]
  | getWorkerEntries worker => simp [step, createdId, acceptedAs]

theorem adds_event_iff (vault : RewardVault) (c : Call) :
    (∀ entryId, (event step vault c).result = .created entryId → entryId ≠ "" →
      Store.Adds entryId vault.entries (step vault c).2.entries) ↔
    ∀ id, createdId (event step vault c) = some id → id ∉ vault.entries := by
  cases c with
  | createRewardEntry worker receipt amount source dailyNow idNow stampNow =>
    by_cases h : vault.PassesChecks worker amount dailyNow
    · rw [createdId_of_passesChecks h]
      simp [step_createRewardEntry_of_passesChecks h, rewardEntryId_ne_empty,
        Store.adds_assign_iff]
    · rw [createdId_of_not_passesChecks h]
      simp [step, createRewardEntry_of_not_passesChecks h]
  | depositToPool amount source => simp [step, createdId, acceptedAs]
  | claimReward entryId now => simp [step, createdId, acceptedAs]
  | getWorkerDailyClaimed worker now => simp [step, createdId, acceptedAs]
  | getEntry entryId => simp [step, createdId, acceptedAs]
  | getWorkerEntries worker => simp [step, createdId, acceptedAs]

/-- Every creation of a run that succeeds adds an entry exactly when no two of a worker are
accepted in one microsecond. -/
theorem addsEntries_iff (initialPoolBalance : UInt64) (calls : List Call) :
    AddsEntries initialPoolBalance calls ↔
      ((trace step (new initialPoolBalance) calls).filterMap acceptedAs).Nodup := by
  have hfresh : AddsEntries initialPoolBalance calls ↔ Each step
      (fun vault c => ∀ id, createdId (event step vault c) = some id → id ∉ vault.entries)
      (new initialPoolBalance) calls := forall_trace_iff_each adds_event_iff
  have hnew : ∀ id, id ∉ (new initialPoolBalance).entries := fun id => AList.notMem_empty id
  rw [hfresh]
  refine (each_fresh_iff_nodup (fun vault : RewardVault => (· ∈ vault.entries)) createdId hnew
    mem_entries_step_iff).trans ?_
  rw [← List.nodup_map_iff (clockName_injective "reward_"), List.map_filterMap]
  rfl

end RewardVault

/-! ### Reimbursement requests -/

namespace GasReimbursementManager

/-- Every `submit_request` with an empty id adds one request and one record, under the id
that it returns. -/
def AddsRequests (calls : List Call) : Prop :=
  ∀ e ∈ trace step new calls, ∀ request nowMs now, e.call = .submitRequest request nowMs now →
    request.requestId = "" → ∃ requestId, e.result = .submitted requestId ∧
      Store.Adds requestId e.before.requests e.after.requests ∧
      Store.Adds requestId e.before.records e.after.records

/-- A request does not have the id that is made from `nowMs`. -/
def OtherId (nowMs : Ticks) : Call → Prop
  | .submitRequest request nowMs' _ =>
    if request.requestId = "" then nowMs' ≠ nowMs else request.requestId ≠ generateRequestId nowMs
  | _ => True

/-- No earlier request has the id that a request without one is given. -/
def DistinctIds (calls : List Call) : Prop :=
  ∀ pre request nowMs now, pre ++ [.submitRequest request nowMs now] <+: calls →
    request.requestId = "" → ∀ c ∈ pre, OtherId nowMs c

/-- The id under which a call stores a request. -/
def submittedId : Call → Option String
  | .submitRequest request nowMs _ => some (effectiveId request nowMs)
  | _ => none

theorem generateRequestId_inj {m n : Ticks} :
    generateRequestId m = generateRequestId n ↔ m = n := by
  rw [generateRequestId, generateRequestId, String.append_right_inj, Printed.toString_int_inj]

theorem otherId_iff (nowMs : Ticks) (c : Call) :
    OtherId nowMs c ↔ submittedId c ≠ some (generateRequestId nowMs) := by
  cases c with
  | submitRequest request nowMs' now =>
    rw [OtherId, submittedId, effectiveId]
    split
    · simp [generateRequestId_inj]
    · simp
  | _ => simp [OtherId, submittedId]

theorem requests_step_of_none {manager : GasReimbursementManager} {c : Call}
    (h : submittedId c = none) : (step manager c).2.requests = manager.requests := by
  rcases step_cases manager c with ⟨hsame, _⟩ | ⟨_, _, _, rfl, _⟩ | ⟨_, _, _, _, _, hprocess⟩ |
    ⟨_, _, _, _, _, _, _, _, happrove⟩ | ⟨_, _, _, _, _, _, _, _, hreject⟩
  · rw [hsame]
  · cases h
  · rw [hprocess]
  · rw [happrove]
  · rw [hreject]

/-- The stored requests are those stored before the call and the one it submits. -/
theorem mem_requests_step_iff (manager : GasReimbursementManager) (c : Call) (id : String) :
    id ∈ (step manager c).2.requests ↔ submittedId c = some id ∨ id ∈ manager.requests := by
  by_cases hc : submittedId c = none
  · rw [requests_step_of_none hc, hc]
    simp
  · cases c with
    | submitRequest request nowMs now =>
      show id ∈ manager.requests.assign _ _ ↔ some _ = some id ∨ _
      rw [Store.mem_assign, Option.some_inj, eq_comm]
    | _ => exact absurd rfl hc

theorem mem_requests_final_iff (calls : List Call) (id : String) :
    id ∈ (final step new calls).requests ↔ ∃ c ∈ calls, submittedId c = some id := by
  have hnew : ∀ id, id ∉ new.requests := fun id => AList.notMem_empty id
  rw [live_final_iff_issued (fun manager : GasReimbursementManager => (· ∈ manager.requests))
    (fun e => submittedId e.call) hnew mem_requests_step_iff, filterMap_call_trace,
    List.mem_filterMap]

/-- A request without an id is given one that is not stored. -/
def GivesNewId (manager : GasReimbursementManager) : Call → Prop
  | .submitRequest request nowMs _ => request.requestId = "" →
    generateRequestId nowMs ∉ manager.requests ∧ generateRequestId nowMs ∉ manager.records
  | _ => True

theorem adds_event_iff (manager : GasReimbursementManager) (c : Call) :
    (∀ request nowMs now, c = .submitRequest request nowMs now → request.requestId = "" →
      ∃ requestId, (event step manager c).result = .submitted requestId ∧
        Store.Adds requestId manager.requests (step manager c).2.requests ∧
        Store.Adds requestId manager.records (step manager c).2.records) ↔
      GivesNewId manager c := by
  cases c with
  | submitRequest request nowMs now =>
    have hid (hempty : request.requestId = "") : effectiveId request nowMs
        = generateRequestId nowMs := if_pos hempty
    constructor
    · intro h hempty
      obtain ⟨requestId, hresult, hrequests, hrecords⟩ := h request nowMs now rfl hempty
      obtain rfl : effectiveId request nowMs = requestId := Reply.submitted.inj hresult
      rw [hid hempty] at hrequests hrecords
      exact ⟨hrequests.1, hrecords.1⟩
    · rintro h request' nowMs' now' ⟨⟩ hempty
      refine ⟨effectiveId request nowMs, rfl, ?_, ?_⟩
      · refine (Store.adds_assign_iff _).mpr ?_
        rw [hid hempty]
        exact (h hempty).1
      · refine (Store.adds_assign_iff _).mpr ?_
        rw [hid hempty]
        exact (h hempty).2
  | _ => simp [GivesNewId]

/-- Every request of a run without an id is added under a new one exactly when no earlier
request is given the same millisecond, or brings the id made from it along. -/
theorem addsRequests_iff (calls : List Call) : AddsRequests calls ↔ DistinctIds calls := by
  have hnewId : AddsRequests calls ↔ Each step GivesNewId new calls :=
    forall_trace_iff_each adds_event_iff
  rw [hnewId, each_iff_forall]
  -- requests and records have the same ids
  have hstored : ∀ pre nowMs, (generateRequestId nowMs ∉ (final step new pre).requests ∧
      generateRequestId nowMs ∉ (final step new pre).records) ↔ ∀ c ∈ pre, OtherId nowMs c := by
    intro pre nowMs
    rw [sameIds_final pre, and_self, mem_requests_final_iff]
    simp [otherId_iff]
  constructor
  · intro h pre request nowMs now hpre hempty
    exact (hstored pre nowMs).mp (h pre _ hpre hempty)
  · intro h pre c hpre
    cases c with
    | submitRequest request nowMs now =>
      intro hempty
      exact (hstored pre nowMs).mpr (h pre request nowMs now hpre hempty)
    | _ => trivial

end GasReimbursementManager

/-! ### Commitments -/

namespace ComputeResourceAllocator

/-- Every `allocate_resources` that succeeds adds one commitment, under its id. -/
def AddsCommitments (sha256 : Sha256) (calls : List Call) : Prop :=
  ∀ e ∈ trace (step sha256) new calls, ∀ commitment, e.result = .allocated commitment →
    commitment.commitmentId ≠ "unavailable" →
      Store.Adds commitment.commitmentId e.before.commitments e.after.commitments

/-- The bytes that a commitment's id is printed from. -/
def idBytes (sha256 : Sha256) (nodeId : String) (now : Nanoseconds) : List UInt8 :=
  (sha256 (bytesOf (nodeId ++ toString (milliseconds now)))).toList.take 16

/-- The allocation that a call makes where the node is available. -/
def grants (sha256 : Sha256) (allocator : ComputeResourceAllocator) : Call → Option (List UInt8)
  | .allocateResources task nodeId idNow _ =>
    if allocator.checkAvailability task nodeId then some (idBytes sha256 nodeId idNow) else none
  | _ => none

/-- Where an allocation finds the node available, an earlier one with the same id bytes has
been released since. -/
def ReleasedBefore (sha256 : Sha256) (calls : List Call) : Prop :=
  ∀ first c mid c' bytes, first ++ c :: mid ++ [c'] <+: calls →
    grants sha256 (final (step sha256) new first) c = some bytes →
    grants sha256 (final (step sha256) new (first ++ c :: mid)) c' = some bytes →
    .releaseResources (hex bytes) ∈ mid

theorem grantedId_step (sha256 : Sha256) (allocator : ComputeResourceAllocator) (c : Call) :
    grantedId (step sha256 allocator c).1 = (grants sha256 allocator c).map hex := by
  cases c with
  | allocateResources task nodeId idNow expiryNow =>
    rw [step, allocateResources, grants]
    cases h : allocator.checkAvailability task nodeId with
    | false => rfl
    | true => exact if_neg (commitmentId_ne_unavailable sha256 nodeId idNow)
  | releaseResources id => rfl
  | checkAvailability task nodeId => rfl
  | getNodeStatus nodeId => rfl

theorem adds_event_iff (sha256 : Sha256) (allocator : ComputeResourceAllocator) (c : Call) :
    (∀ commitment, (event (step sha256) allocator c).result = .allocated commitment →
      commitment.commitmentId ≠ "unavailable" →
      Store.Adds commitment.commitmentId allocator.commitments
        (step sha256 allocator c).2.commitments) ↔ Fresh sha256 allocator c := by
  rw [Fresh]
  cases c with
  | allocateResources task nodeId idNow expiryNow =>
    rw [event_result]
    rcases allocateResources_cases sha256 allocator task nodeId idNow expiryNow with
      hrefused | ⟨status, commitment, hstatus, rfl, hgranted, heq⟩
    · rw [step, hrefused]
      simp [grantedId, unavailable]
    · rw [step, heq]
      simp [grantedId, hgranted.ne_unavailable, grant, Store.adds_assign_iff,
        AList.lookup_eq_none]
  | releaseResources id => simp [step, grantedId]
  | checkAvailability task nodeId => simp [step, grantedId]
  | getNodeStatus nodeId => simp [step, grantedId]

/-- An id that is not live any more has been released since each of its grants. -/
theorem not_live_final_iff (sha256 : Sha256) (calls : List Call) (bytes : List UInt8) :
    ¬ Live (final (step sha256) new calls) (hex bytes) ↔
      ∀ first c mid, calls = first ++ c :: mid →
        grants sha256 (final (step sha256) new first) c = some bytes →
        .releaseResources (hex bytes) ∈ mid := by
  have hhex : ∀ found : Option (List UInt8), found.map hex = some (hex bytes) ↔
      found = some bytes := by
    intro found
    rw [← Option.map_some, (Option.map_injective hex_injective).eq_iff]
  rw [live_final_iff Live (fun e => grantedId e.result) not_live_new (live_step_iff sha256)]
  simp only [event_result, grantedId_step, hhex]
  push Not
  refine forall_congr' fun first => forall_congr' fun c => forall_congr' fun mid => ?_
  simp

/-- Every allocation of a run that succeeds adds a commitment exactly when the id bytes that
it takes have been released. -/
theorem addsCommitments_iff (sha256 : Sha256) (calls : List Call) :
    AddsCommitments sha256 calls ↔ ReleasedBefore sha256 calls := by
  have hfresh : AddsCommitments sha256 calls ↔ Each (step sha256) (Fresh sha256) new calls :=
    forall_trace_iff_each (adds_event_iff sha256)
  rw [hfresh, each_iff_forall]
  constructor
  · intro h first c mid c' bytes hpre hfirst hagain
    have hgranted : grantedId (step sha256 (final (step sha256) new (first ++ c :: mid)) c').1
        = some (hex bytes) := by
      rw [grantedId_step, hagain, Option.map_some]
    have hdead := AList.lookup_eq_none.mp (h _ c' hpre _ hgranted)
    exact (not_live_final_iff sha256 _ bytes).mp hdead first c mid rfl hfirst
  · intro h pre c' hpre id hid
    rw [grantedId_step] at hid
    obtain ⟨bytes, hagain, rfl⟩ := Option.map_eq_some_iff.mp hid
    refine AList.lookup_eq_none.mpr ((not_live_final_iff sha256 pre bytes).mpr ?_)
    rintro first c mid rfl hfirst
    exact h first c mid c' bytes hpre hfirst hagain

end ComputeResourceAllocator

/-! ### The four stores -/

/-- In all runs of the four stores, every record is added under a new key exactly when no
two of them are named alike. -/
theorem addsRecords_iff (order : MapOrder) (arith : Doubles) (stakes : List ComputeStaking.Call)
    (initialPoolBalance : UInt64) (rewards : List RewardVault.Call)
    (requests : List GasReimbursementManager.Call) (sha256 : Sha256)
    (allocations : List ComputeResourceAllocator.Call) :
    (ComputeStaking.AddsStakes order arith stakes ↔
      (stakes.filterMap ComputeStaking.stakedAs).Nodup) ∧
    (RewardVault.AddsEntries initialPoolBalance rewards ↔
      ((trace RewardVault.step (.new initialPoolBalance) rewards).filterMap
        RewardVault.acceptedAs).Nodup) ∧
    (GasReimbursementManager.AddsRequests requests ↔
      GasReimbursementManager.DistinctIds requests) ∧
    (ComputeResourceAllocator.AddsCommitments sha256 allocations ↔
      ComputeResourceAllocator.ReleasedBefore sha256 allocations) :=
  ⟨ComputeStaking.addsStakes_iff order arith stakes,
    RewardVault.addsEntries_iff initialPoolBalance rewards,
    GasReimbursementManager.addsRequests_iff requests,
    ComputeResourceAllocator.addsCommitments_iff sha256 allocations⟩

/-! ### A clock that stands still -/

/-- The clock readings of a call, in order. -/
def ComputeStaking.Call.readings : ComputeStaking.Call → List Seconds
  | .stakeCompute _ _ _ _ idNow stampNow => [idNow, stampNow]
  | .unstakeCompute _ durationNow stampNow => [durationNow, stampNow]
  | .consumeGasAllowance _ _ => []

/-- In nanoseconds; that of an id is cut to milliseconds. -/
def GasReimbursementManager.Call.readings : GasReimbursementManager.Call → List Ticks
  | .submitRequest request nowMs now =>
    if request.requestId = "" then [nowMs * 1000000, now] else [now]
  | .processRequest _ now => [now]
  | .approveReimbursement _ _ now => [now]
  | .rejectReimbursement _ _ now => [now]
  | .checkWalletBalance _ _ => []
  | .getReimbursementStatus _ => []

def ComputeResourceAllocator.Call.readings : ComputeResourceAllocator.Call → List Nanoseconds
  | .allocateResources _ _ idNow expiryNow => [idNow, expiryNow]
  | .releaseResources _ => []
  | .checkAvailability _ _ => []
  | .getNodeStatus _ => []

/-- Two stakes of one staker. -/
def stakedTwice : List ComputeStaking.Call :=
  [.stakeCompute "alice" 2 4 100 0 0, .stakeCompute "alice" 3 4 200 0 0]

/-- Two rewards of one worker. -/
def rewardedTwice : List RewardVault.Call :=
  [.createRewardEntry "worker" "infer_1" 10 "inference" 0 0 0,
    .createRewardEntry "worker" "infer_2" 20 "inference" 0 0 0]

/-- Two requests without an id. -/
def requestedTwice : List GasReimbursementManager.Call :=
  [.submitRequest .default 0 0, .submitRequest .default 0 0]

/-- Two commitments of one node. -/
def allocatedTwice : List ComputeResourceAllocator.Call :=
  [.allocateResources (ComputeResourceAllocator.taskOf 1000) "node_001" 0 0,
    .allocateResources (ComputeResourceAllocator.taskOf 2000) "node_001" 0 0]

open ComputeResourceAllocator in
theorem not_releasedBefore_allocatedTwice : ¬ ReleasedBefore lastByteHash allocatedTwice := by
  intro h
  have hreleased := h [] (.allocateResources (taskOf 1000) "node_001" 0 0) []
    (.allocateResources (taskOf 2000) "node_001" 0 0) (idBytes lastByteHash "node_001" 0)
    (List.prefix_refl _) (by decide +kernel) (by decide +kernel)
  exact absurd hreleased List.not_mem_nil

/-- Readings that do not decrease do not keep the records of any store apart. -/
theorem not_forall_addsRecords :
    (¬ ∀ order arith calls, (calls.flatMap ComputeStaking.Call.readings).Pairwise (· ≤ ·) →
      ComputeStaking.AddsStakes order arith calls) ∧
    (¬ ∀ initialPoolBalance calls,
      (calls.flatMap RewardVault.Call.readings).Pairwise (· ≤ ·) →
        RewardVault.AddsEntries initialPoolBalance calls) ∧
    (¬ ∀ calls, (calls.flatMap GasReimbursementManager.Call.readings).Pairwise (· ≤ ·) →
      GasReimbursementManager.AddsRequests calls) ∧
    (¬ ∀ sha256 calls,
      (calls.flatMap ComputeResourceAllocator.Call.readings).Pairwise (· ≤ ·) →
        ComputeResourceAllocator.AddsCommitments sha256 calls) := by
  refine ⟨?_, ?_, ?_, ?_⟩
  · intro h
    have hadds := h newestFirst (.exact .wrapping) stakedTwice (by decide +kernel)
    rw [ComputeStaking.addsStakes_iff] at hadds
    exact absurd hadds (by decide +kernel)
  · intro h
    have hadds := h 1000 rewardedTwice (by decide +kernel)
    rw [RewardVault.addsEntries_iff] at hadds
    exact absurd hadds (by decide +kernel)
  · intro h
    have hadds := h requestedTwice (by decide +kernel)
    rw [GasReimbursementManager.addsRequests_iff] at hadds
    -- the first request has the millisecond of the second
    exact hadds [.submitRequest .default 0 0] .default 0 0 (List.prefix_refl _) rfl _
      (List.mem_singleton_self _) rfl
  · intro h
    have hadds := h ComputeResourceAllocator.lastByteHash allocatedTwice (by decide +kernel)
    rw [ComputeResourceAllocator.addsCommitments_iff] at hadds
    exact not_releasedBefore_allocatedTwice hadds

end Membra
