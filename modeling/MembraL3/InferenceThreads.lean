/-
The inference ledger among threads.

The operations of `ProofOfInference` access by access, each under the ledger's mutex,
and `total_compute_units` and `total_rewards_paid`, which load an atomic counter and take
no mutex.  A creation changes the one counter once, a claim the other, so that a load
still has its place among the calls.

* `alone_body` — on its own, a body does what the operation does;
* `shares_body` — what a load can see of a body is one change;
* `ledger_serializes` — threads run to their end and have one history, their loads
  included;
* `rewards_exclusive` — together they are paid once for a receipt, after one of them has
  verified it, and the counters are the sums of what all of them have been replied.
-/
import MembraL3.Lib.Atomicity
import MembraL3.Lib.StoreLoops
import MembraL3.GasVaultThreads
import MembraL3.InferenceRewards

namespace Membra

namespace ProofOfInference

open Threads Runs

variable {sha256 : Sha256}

/-! ### Accesses -/

/-- `receipt_counter_++`, printed. -/
def nextReceiptId (ledger : ProofOfInference) : String × ProofOfInference :=
  (receiptId ledger.receiptCounter.toNat,
    { ledger with receiptCounter := ledger.receiptCounter + 1 })

/-- `receipts_[receipt_id] = std::move(receipt)`. -/
def store (id : String) (receipt : InferenceReceipt) (ledger : ProofOfInference) :
    ProofOfInference :=
  { ledger with receipts := ledger.receipts.assign id receipt }

/-- A write to a field of a stored receipt. -/
def update (id : String) (f : InferenceReceipt → InferenceReceipt) (ledger : ProofOfInference) :
    ProofOfInference :=
  { ledger with receipts := ledger.receipts.modify id f }

def setRewardLamports (rewardLamports : UInt64) (receipt : InferenceReceipt) : InferenceReceipt :=
  { receipt with rewardLamports := rewardLamports }

def setRewardClaimed (receipt : InferenceReceipt) : InferenceReceipt :=
  { receipt with rewardClaimed := true }

def setRewardClaimedAt (now : Seconds) (receipt : InferenceReceipt) : InferenceReceipt :=
  { receipt with rewardClaimedAt := now }

def addComputeUnits (units : UInt64) (ledger : ProofOfInference) : ProofOfInference :=
  { ledger with totalComputeUnits := ledger.totalComputeUnits + units }

def addRewardsPaid (rewardLamports : UInt64) (ledger : ProofOfInference) : ProofOfInference :=
  { ledger with totalRewardsPaid := ledger.totalRewardsPaid + rewardLamports }

/-! ### Bodies -/

def createReceiptBody (sha256 : Sha256) (work : InferenceWork) (now : Seconds) :
    Prog ProofOfInference Mutex String := do
  let id ← .atomically nextReceiptId
  .write (store id (newReceipt sha256 id work now))
  .write (addComputeUnits work.computeUnits)
  return id

def verifyReceiptBody (sha256 : Sha256) (id : String) : Prog ProofOfInference Mutex Bool := do
  let found ← .read fun ledger => ledger.receipts.lookup id
  match found with
  | none => return false
  | some receipt =>
    let verified := verifySignature sha256 receipt
    .write (update id fun receipt => { receipt with verified := verified })
    return verified

def claimRewardBody (id : String) (rewardLamports : UInt64) (now : Seconds) :
    Prog ProofOfInference Mutex Bool := do
  let found ← .read fun ledger => ledger.receipts.lookup id
  match found with
  | none => return false
  | some receipt =>
    if !receipt.verified then return false
    else if receipt.rewardClaimed then return false
    else
      .write (update id (setRewardLamports rewardLamports))
      .write (update id setRewardClaimed)
      .write (update id (setRewardClaimedAt now))
      .write (addRewardsPaid rewardLamports)
      return true

/-- The body of the loop of `get_worker_receipts`. -/
def workerBody (workerAddress : String) (result : List InferenceReceipt) (id : String) :
    Prog ProofOfInference Mutex (List InferenceReceipt) := do
  let found ← .read fun ledger => ledger.receipts.lookup id
  return match found with
    | none => result
    | some receipt =>
      if receipt.workerAddress = workerAddress then result ++ [receipt] else result

def getWorkerReceiptsBody (order : MapOrder) (workerAddress : String) :
    Prog ProofOfInference Mutex (List InferenceReceipt) := do
  let ids ← .read fun ledger => order.order ledger.receipts.keys
  ids.foldlM (workerBody workerAddress) []

def callBody (sha256 : Sha256) : Call → Prog ProofOfInference Mutex Result
  | .createReceipt work now => do
    let id ← createReceiptBody sha256 work now
    return .created id
  | .verifyReceipt id => do
    let ok ← verifyReceiptBody sha256 id
    return .verified ok
  | .claimReward id rewardLamports now => do
    let ok ← claimRewardBody id rewardLamports now
    return .claimed ok
  | .isReplay id => do
    let replayed ← .read fun ledger => ledger.isReplay id
    return .replay replayed
  | .getReceipt id => do
    let receipt ← .read fun ledger => ledger.getReceipt id
    return .receipt receipt
  | .getWorkerReceipts order workerAddress => do
    let receipts ← getWorkerReceiptsBody order workerAddress
    return .receipts receipts
  | .receiptCount => do
    let count ← .read receiptCount
    return .count count

/-- What threads ask of the ledger: a call under its mutex, or a load of a counter. -/
inductive Request where
  | call (c : Call)
  | totalComputeUnits
  | totalRewardsPaid

inductive Reply where
  | result (r : Result)
  | total (n : UInt64)

/-- The loads take no mutex. -/
def Request.loads : Request → Bool
  | .call _ => false
  | .totalComputeUnits => true
  | .totalRewardsPaid => true

def respond (sha256 : Sha256) (ledger : ProofOfInference) : Request → Reply × ProofOfInference
  | .call c =>
    let (result, ledger) := step sha256 ledger c
    (.result result, ledger)
  | .totalComputeUnits => (.total ledger.totalComputeUnits, ledger)
  | .totalRewardsPaid => (.total ledger.totalRewardsPaid, ledger)

def body (sha256 : Sha256) : Request → Prog ProofOfInference Mutex Reply
  | .call c => do
    let result ← callBody sha256 c
    return .result result
  | .totalComputeUnits => .read fun ledger => .total ledger.totalComputeUnits
  | .totalRewardsPaid => .read fun ledger => .total ledger.totalRewardsPaid

/-- Threads that share a ledger that is constructed for them. -/
def threads {T : Type} (sha256 : Sha256) (requests : T → List Request) :
    State T ProofOfInference Mutex (List (Request × Reply)) :=
  Atomic.threads .inference Request.loads (body sha256) requests new

/-! ### Bodies without other threads -/

variable {ledger : ProofOfInference} {id : String} {receipt : InferenceReceipt}

theorem update_of_lookup (h : ledger.receipts.lookup id = some receipt)
    (f : InferenceReceipt → InferenceReceipt) :
    update id f ledger = store id (f receipt) ledger := by
  rw [update, Store.modify_of_lookup h]
  rfl

theorem update_store (f : InferenceReceipt → InferenceReceipt) :
    update id f (store id receipt ledger) = store id (f receipt) ledger := by
  rw [update, store, Store.modify_assign]
  rfl

theorem verifyReceiptBody_alone :
    (verifyReceiptBody sha256 id).alone ledger = ledger.verifyReceipt sha256 id := by
  rw [verifyReceiptBody, verifyReceipt, Prog.monad_bind, Prog.read_bind, Prog.alone_act, id_eq]
  cases hlookup : ledger.receipts.lookup id with
  | none => rfl
  | some receipt =>
    show (verifySignature sha256 receipt, update id _ ledger) = _
    rw [update_of_lookup hlookup]
    rfl

theorem claimRewardBody_alone (rewardLamports : UInt64) (now : Seconds) :
    (claimRewardBody id rewardLamports now).alone ledger
      = ledger.claimReward id rewardLamports now := by
  rw [claimRewardBody, claimReward, Prog.monad_bind, Prog.read_bind, Prog.alone_act, id_eq]
  cases hlookup : ledger.receipts.lookup id with
  | none => rfl
  | some receipt =>
    dsimp only
    cases hverified : receipt.verified with
    | false => rfl
    | true =>
      cases hclaimed : receipt.rewardClaimed with
      | true => rfl
      | false =>
        show (true, addRewardsPaid rewardLamports (update id (setRewardClaimedAt now)
          (update id setRewardClaimed (update id (setRewardLamports rewardLamports) ledger)))) = _
        rw [update_of_lookup hlookup, update_store, update_store]
        rfl

theorem getWorkerReceiptsBody_alone (order : MapOrder) (workerAddress : String) :
    (getWorkerReceiptsBody order workerAddress).alone ledger
      = (ledger.getWorkerReceipts order workerAddress, ledger) := by
  let f : ProofOfInference → List InferenceReceipt → String → List InferenceReceipt :=
    fun ledger result id => match ledger.receipts.lookup id with
      | none => result
      | some receipt =>
        if receipt.workerAddress = workerAddress then result ++ [receipt] else result
  have hfoldl : ∀ (ids : List String) (result : List InferenceReceipt),
      ids.foldl (f ledger) result = result ++ (ids.filterMap ledger.receipts.lookup).filter
        fun receipt => receipt.workerAddress = workerAddress := by
    intro ids
    induction ids with
    | nil => exact fun result => (List.append_nil result).symm
    | cons id ids ih =>
      intro result
      rw [List.foldl_cons, ih, List.filterMap_cons]
      cases hlookup : ledger.receipts.lookup id with
      | none => simp only [f, hlookup]
      | some receipt =>
        by_cases hworker : receipt.workerAddress = workerAddress
        · simp [f, hlookup, hworker]
        · simp [f, hlookup, hworker]
  rw [getWorkerReceiptsBody, Prog.monad_bind, Prog.read_bind, Prog.alone_act, id_eq,
    Prog.alone_foldlM (f := f) fun _ _ _ => rfl, hfoldl, List.nil_append]
  rfl

theorem callBody_alone (c : Call) (ledger : ProofOfInference) :
    (callBody sha256 c).alone ledger = step sha256 ledger c := by
  cases c with
  | verifyReceipt id =>
    rw [callBody, Prog.monad_bind, Prog.alone_bind, verifyReceiptBody_alone]
    rfl
  | claimReward id rewardLamports now =>
    rw [callBody, Prog.monad_bind, Prog.alone_bind, claimRewardBody_alone]
    rfl
  | getWorkerReceipts order workerAddress =>
    rw [callBody, Prog.monad_bind, Prog.alone_bind, getWorkerReceiptsBody_alone]
    rfl
  | _ => rfl

/-- On its own, a body does what the operation does. -/
theorem alone_body (request : Request) (ledger : ProofOfInference) :
    (body sha256 request).alone ledger = respond sha256 ledger request := by
  cases request with
  | call c =>
    rw [body, Prog.monad_bind, Prog.alone_bind, callBody_alone]
    rfl
  | _ => rfl

theorem serve_body : Atomic.serve (body sha256) = respond sha256 := by
  funext ledger request
  exact alone_body request ledger

/-! ### What a load can see -/

/-- The two counters. -/
def counters (ledger : ProofOfInference) : UInt64 × UInt64 :=
  (ledger.totalComputeUnits, ledger.totalRewardsPaid)

theorem silent_update (id : String) (f : InferenceReceipt → InferenceReceipt) :
    Silent counters (.write (update id f) : Prog ProofOfInference Mutex Unit) :=
  silent_write fun _ => rfl

theorem changesOnce_createReceiptBody (work : InferenceWork) (now : Seconds) :
    ChangesOnce counters (createReceiptBody sha256 work now) :=
  fun _ => .inl ⟨rfl, fun _ => .inl ⟨rfl, changesOnce_write_bind _ trivial⟩⟩

theorem silent_verifyReceiptBody (id : String) :
    Silent counters (verifyReceiptBody sha256 id) := by
  refine (silent_read _).bind fun found => ?_
  cases found with
  | none => exact silent_done false
  | some receipt => exact (silent_update id _).bind fun _ => silent_done _

theorem changesOnce_claimRewardBody (id : String) (rewardLamports : UInt64) (now : Seconds) :
    ChangesOnce counters (claimRewardBody id rewardLamports now) := by
  refine (silent_read _).bind_changesOnce fun found => ?_
  cases found with
  | none => trivial
  | some receipt =>
    dsimp only
    split
    · trivial
    split
    · trivial
    · refine (silent_update id _).bind_changesOnce fun _ => ?_
      refine (silent_update id _).bind_changesOnce fun _ => ?_
      refine (silent_update id _).bind_changesOnce fun _ => ?_
      exact changesOnce_write_bind _ trivial

theorem silent_getWorkerReceiptsBody (order : MapOrder) (workerAddress : String) :
    Silent counters (getWorkerReceiptsBody order workerAddress) := by
  have hworker : ∀ result id, Silent counters (workerBody workerAddress result id) :=
    fun _ _ => (silent_read _).bind fun _ => silent_done _
  exact (silent_read _).bind fun ids => silent_foldlM hworker ids []

theorem changesOnce_callBody (c : Call) : ChangesOnce counters (callBody sha256 c) := by
  cases c with
  | createReceipt work now =>
    exact (changesOnce_createReceiptBody work now).bind fun _ => silent_done _
  | verifyReceipt id => exact (silent_verifyReceiptBody id).changesOnce.bind fun _ => silent_done _
  | claimReward id rewardLamports now =>
    exact (changesOnce_claimRewardBody id rewardLamports now).bind fun _ => silent_done _
  | getWorkerReceipts order workerAddress =>
    exact (silent_getWorkerReceiptsBody order workerAddress).changesOnce.bind
      fun _ => silent_done _
  | _ => exact (silent_read _).changesOnce.bind fun _ => silent_done _

/-- What a load can see of a body is one change. -/
theorem shares_body : Atomic.Shares Request.loads (body sha256) counters where
  peek request hloads := by
    cases request with
    | call c => cases hloads
    | totalComputeUnits => exact ⟨fun counters => .total counters.1, rfl⟩
    | totalRewardsPaid => exact ⟨fun counters => .total counters.2, rfl⟩
  once request hcall := by
    cases request with
    | call c => exact (changesOnce_callBody c).bind fun _ => silent_done _
    | totalComputeUnits => cases hcall
    | totalRewardsPaid => cases hcall

/-! ### One history -/

section

variable {T : Type} [DecidableEq T]

/-- The reply to a request after the earlier ones. -/
def answer (sha256 : Sha256) (earlier : List Request) (request : Request) : Reply :=
  (respond sha256 (final (respond sha256) new earlier) request).1

/-- The requests of the threads in one order: each thread has made its requests in its
order, every reply, loads included, is that of the ledger after the requests before it,
and the ledger is the one after all of them. -/
structure Serialized (sha256 : Sha256) (requests : T → List Request)
    (results : T → List (Request × Reply)) (ledger : ProofOfInference)
    (order : List (T × Request)) : Prop where
  ordered : ∀ t, order.filterMap (Atomic.ofThread t) = requests t
  answered : ∀ t,
    results t = (Atomic.answers (answer sha256) [] order).filterMap (Atomic.ofThread t)
  stored : ledger = final (respond sha256) new (order.map Prod.snd)

/-- Whatever the schedule, the threads run to their end, the counters are at any moment
those after the first requests of each thread in one order, and the finished threads have
one history. -/
theorem ledger_serializes [Finite T] (sha256 : Sha256) (requests : T → List Request) :
    Completes (threads sha256 requests) ∧
      (∀ s, Reachable (threads sha256 requests) s →
        ∃ earlier : List (T × Request),
          (∀ t, earlier.filterMap (Atomic.ofThread t) <+: requests t) ∧
          counters s.data = counters (final (respond sha256) new (earlier.map Prod.snd))) ∧
      ∀ s results, Reachable (threads sha256 requests) s → (∀ t, s.progs t = .done (results t)) →
        ∃ order, Serialized sha256 requests results s.data order := by
  refine ⟨Atomic.completes_threads shares_body .inference requests new, fun s hreach => ?_,
    fun s results hreach hfin => ?_⟩
  · obtain ⟨earlier, hown, hview, -⟩ := Atomic.data_of_free shares_body hreach
    rw [serve_body] at hview
    exact ⟨earlier, hown, hview⟩
  obtain ⟨order, hordered, hresults, hdata⟩ :=
    Atomic.atomic_of_finished shares_body hreach hfin
  rw [serve_body] at hdata
  refine ⟨order, hordered, fun t => ?_, hdata⟩
  rw [hresults]
  refine Atomic.repliesTo_eq_answers (fun pre request _ => ?_) t
  rw [serve_body, answer]

end

/-! ### What the threads together are paid -/

section

/-- The call of a request. -/
def callOf : Request → Option Call
  | .call c => some c
  | _ => none

/-- The reply to a call satisfies `p`. -/
def onCall (p : Call × Result → Bool) : Request × Reply → Bool
  | (.call c, .result r) => p (c, r)
  | _ => false

/-- The reply pays the reward of the receipt. -/
def pays (id : String) : Call × Result → Bool
  | (.claimReward id' .., .claimed ok) => id' == id && ok
  | _ => false

/-- The reply finds the receipt's signature good. -/
def verifies (id : String) : Call × Result → Bool
  | (.verifyReceipt id', .verified ok) => id' == id && ok
  | _ => false

/-- The reply is the id of a new receipt. -/
def issues (id : String) : Call × Result → Bool
  | (_, .created id') => id' == id
  | _ => false

/-- The reward that a request has been paid. -/
def rewardOf : Request × Reply → UInt64
  | (.call (.claimReward _ rewardLamports _), .result (.claimed true)) => rewardLamports
  | _ => 0

/-- The compute units that a request has recorded. -/
def unitsOf : Request × Reply → UInt64
  | (.call (.createReceipt work _), _) => work.computeUnits
  | _ => 0

variable {T : Type} [DecidableEq T] [Fintype T]

/-- How often threads have been replied what `p` says. -/
def times (p : Call × Result → Bool) (results : T → List (Request × Reply)) : ℕ :=
  ∑ t, (results t).countP (onCall p)

/-- What no schedule changes about the threads of a ledger together. -/
structure PaidOnce (results : T → List (Request × Reply)) (ledger : ProofOfInference) : Prop where
  paid : ∀ id, times (pays id) results ≤ 1
  verified : ∀ id, 0 < times (pays id) results → 0 < times (verifies id) results
  issued : ∀ id, times (issues id) results ≤ 1
  rewardsPaid : ledger.totalRewardsPaid = ∑ t, ((results t).map rewardOf).sum
  computeUnits : ledger.totalComputeUnits = ∑ t, ((results t).map unitsOf).sum

theorem rewardsPaid_respond (ledger : ProofOfInference) (request : Request) :
    (respond sha256 ledger request).2.totalRewardsPaid
      = ledger.totalRewardsPaid + rewardOf (request, (respond sha256 ledger request).1) := by
  have hzero := (add_zero ledger.totalRewardsPaid).symm
  cases request with
  | call c =>
    cases c with
    | verifyReceipt id =>
      rcases verifyReceipt_cases sha256 ledger id with ⟨receipt, -, heq⟩ | heq
      · simp only [respond, step, heq]
        exact hzero
      · simp only [respond, step, heq]
        exact hzero
    | claimReward id rewardLamports now =>
      rcases claimReward_cases ledger id rewardLamports now with ⟨receipt, -, -, -, heq⟩ | heq
      · simp only [respond, step, heq]
        rfl
      · simp only [respond, step, heq]
        exact hzero
    | _ => exact hzero
  | _ => exact hzero

theorem computeUnits_respond (ledger : ProofOfInference) (request : Request) :
    (respond sha256 ledger request).2.totalComputeUnits
      = ledger.totalComputeUnits + unitsOf (request, (respond sha256 ledger request).1) := by
  have hzero := (add_zero ledger.totalComputeUnits).symm
  cases request with
  | call c =>
    cases c with
    | createReceipt work now => rfl
    | verifyReceipt id =>
      rcases verifyReceipt_cases sha256 ledger id with ⟨receipt, -, heq⟩ | heq
      · simp only [respond, step, heq]
        exact hzero
      · simp only [respond, step, heq]
        exact hzero
    | claimReward id rewardLamports now =>
      rcases claimReward_cases ledger id rewardLamports now with ⟨receipt, -, -, -, heq⟩ | heq
      · simp only [respond, step, heq]
        exact hzero
      · simp only [respond, step, heq]
        exact hzero
    | _ => exact hzero
  | _ => exact hzero

/-- The calls of a run of requests are a run of calls. -/
theorem countP_onCall (p : Call × Result → Bool) (ledger : ProofOfInference)
    (requests : List Request) :
    (trace (respond sha256) ledger requests).countP (fun e => onCall p (e.call, e.result))
      = (trace (step sha256) ledger (requests.filterMap callOf)).countP
          fun e => p (e.call, e.result) := by
  induction requests generalizing ledger with
  | nil => rfl
  | cons request requests ih =>
    rw [trace_cons, List.countP_cons, ih]
    cases request with
    | call c =>
      have hcall : callOf (.call c) = some c := rfl
      rw [List.filterMap_cons_some hcall, trace_cons, List.countP_cons]
      rfl
    | _ => rfl

theorem pays_eq (id : String) (ledger : ProofOfInference) (c : Call) :
    pays id (c, (step sha256 ledger c).1) = claims id ledger c := by
  cases c <;> rfl

theorem issues_eq (id : String) (e : Event ProofOfInference Call Result) :
    issues id (e.call, e.result) = (createdId e).any (· == id) := by
  rw [createdId]
  cases e.result <;> rfl

/-- A receipt is paid only after a call that has verified it. -/
theorem exists_verifies {calls : List Call} {id : String}
    (hpaid : 0 < (trace (step sha256) new calls).countP fun e => claims id e.before e.call) :
    0 < (trace (step sha256) new calls).countP fun e => verifies id (e.call, e.result) := by
  obtain ⟨e, he, hclaims⟩ := List.countP_pos_iff.mp hpaid
  obtain ⟨pre, c, post, hcalls, rfl⟩ := mem_trace_iff.mp he
  obtain ⟨⟨receipt, hlookup, hverified, -⟩, -⟩ := claims_spec sha256 hclaims
  obtain ⟨earlier, hstart, hok⟩ := exists_verify hlookup hverified
  obtain ⟨later, rfl⟩ := hstart
  refine List.countP_pos_iff.mpr ⟨_, mem_trace_iff.mpr ⟨earlier, .verifyReceipt id,
    later ++ c :: post, by rw [hcalls]; simp, rfl⟩, ?_⟩
  simp [verifies, step, hok]

theorem paidOnce_of_history {order : List (T × Request)}
    (hcreates : CreatesFit ((order.map Prod.snd).filterMap callOf)) :
    PaidOnce (Atomic.repliesTo (body sha256) new order)
      (final (respond sha256) new (order.map Prod.snd)) := by
  have htimes : ∀ p, times p (Atomic.repliesTo (body sha256) new order)
      = (trace (step sha256) new ((order.map Prod.snd).filterMap callOf)).countP
          fun e => p (e.call, e.result) := by
    intro p
    rw [times, Atomic.sum_countP_repliesTo, serve_body, countP_onCall]
  have hpays : ∀ id, times (pays id) (Atomic.repliesTo (body sha256) new order)
      = (trace (step sha256) new ((order.map Prod.snd).filterMap callOf)).countP
          fun e => claims id e.before e.call := by
    intro id
    rw [htimes]
    refine List.countP_congr fun e he => ?_
    obtain ⟨pre, c, post, -, rfl⟩ := mem_trace_iff.mp he
    rw [event_before, event_call, event_result, pays_eq]
  constructor
  case paid =>
    intro id
    rw [hpays]
    exact countP_claims_le_one (each_fresh_new hcreates) id
  case verified =>
    intro id hpaid
    rw [hpays] at hpaid
    rw [htimes]
    exact exists_verifies hpaid
  case issued =>
    intro id
    have hids : ((trace (step sha256) new ((order.map Prod.snd).filterMap callOf)).filterMap
      createdId).Nodup := nodup_createdIds hcreates
    have hcount := List.nodup_iff_count_le_one.mp hids id
    rw [List.count, List.countP_filterMap] at hcount
    rw [htimes]
    refine le_trans (le_of_eq (List.countP_congr fun e _ => ?_)) hcount
    rw [issues_eq]
    cases createdId e <;> rfl
  case rewardsPaid =>
    have hsum := Atomic.sum_of_history (Q := totalRewardsPaid) (f := rewardOf) (body sha256) new
      (by rw [serve_body]; exact rewardsPaid_respond) order
    rw [serve_body] at hsum
    exact hsum.trans (zero_add _)
  case computeUnits =>
    have hsum := Atomic.sum_of_history (Q := totalComputeUnits) (f := unitsOf) (body sha256) new
      (by rw [serve_body]; exact computeUnits_respond) order
    rw [serve_body] at hsum
    exact hsum.trans (zero_add _)

/-- Whatever the schedule, threads that have run to their end are paid once. -/
theorem rewards_exclusive {requests : T → List Request}
    {s : State T ProofOfInference Mutex (List (Request × Reply))}
    {results : T → List (Request × Reply)}
    (hcreates : ∑ t, ((requests t).filterMap callOf).countP Call.creates < 2 ^ 64)
    (hreach : Reachable (threads sha256 requests) s) (hfin : ∀ t, s.progs t = .done (results t)) :
    PaidOnce results s.data := by
  obtain ⟨order, hordered, hresults, hdata⟩ :=
    Atomic.atomic_of_finished shares_body hreach hfin
  rw [serve_body] at hdata
  rw [funext hresults, hdata]
  refine paidOnce_of_history ?_
  simp only [List.countP_filterMap] at hcreates
  rw [CreatesFit, List.countP_filterMap, ← Atomic.sum_countP_ofThread]
  simpa only [hordered] using hcreates

end

/-! ### A claim that is watched -/

def watchedWork : InferenceWork := ⟨"worker", "task", .validation, 1, 2, 10, 20, 30, 1⟩

/-- One thread is paid for its work, the other loads the total and tries to be paid too. -/
def watchedClaim : Bool → List Request
  | true => [.call (.createReceipt watchedWork 0), .call (.verifyReceipt "infer_0"),
      .call (.claimReward "infer_0" 5 1)]
  | false => [.totalRewardsPaid, .call (.claimReward "infer_0" 7 2)]

def watchedClaimResults : Bool → List (Request × Reply)
  | true => [(.call (.createReceipt watchedWork 0), .result (.created "infer_0")),
      (.call (.verifyReceipt "infer_0"), .result (.verified true)),
      (.call (.claimReward "infer_0" 5 1), .result (.claimed true))]
  | false => [(.totalRewardsPaid, .total 5),
      (.call (.claimReward "infer_0" 7 2), .result (.claimed false))]

/-- The load falls between the payment and the release of the mutex. -/
theorem run_watchedClaim :
    ∃ s, run (threads (fun _ => zeroHash) watchedClaim) [true, true, true, true, true, true, true,
      true, true, true, true, true, true, true, true, false, true, false, false, false] = some s ∧
      ∀ t, s.progs t = .done (watchedClaimResults t) := by
  refine ⟨_, rfl, fun t => ?_⟩
  cases t <;> rfl

theorem ledger_serializes_watchedClaim :
    ∃ ledger order,
      Serialized (fun _ => zeroHash) watchedClaim watchedClaimResults ledger order := by
  obtain ⟨s, hrun, hfin⟩ := run_watchedClaim
  exact ⟨s.data, (ledger_serializes (fun _ => zeroHash) watchedClaim).2.2 s _
    (reachable_of_run hrun) hfin⟩

theorem rewards_exclusive_watchedClaim : ∃ ledger, PaidOnce watchedClaimResults ledger := by
  obtain ⟨s, hrun, hfin⟩ := run_watchedClaim
  exact ⟨s.data, rewards_exclusive (by decide) (reachable_of_run hrun) hfin⟩

end ProofOfInference

end Membra
