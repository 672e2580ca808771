/-
The intent network among threads.

The operations of `IntentNetwork` access by access, each under the network's mutex, for
any threads with any lists of calls.

* `alone_body` — on its own, a body does what the operation does;
* `intents_serialize` — threads run to their end and leave the intents of one history of
  all calls, and each has been answered from the history before its call;
* `grants_exclusive` — together they have claimed no intent twice, created no id and
  given no nonce of a sender twice, and settled no intent that none of them has claimed.
-/
import MembraL3.Lib.Atomicity
import MembraL3.Lib.StoreLoops
import MembraL3.GasVaultThreads
import MembraL3.IntentHistory
import MembraL3.IntentLifecycle
import MembraL3.IntentSettlement

namespace Membra

namespace IntentNetwork

open Threads Runs

/-! ### Accesses -/

/-- `user_nonces_[sender]++`. -/
def takeNonce (sender : String) (network : IntentNetwork) : UInt64 × IntentNetwork :=
  let nonce := (network.userNonces.lookup sender).getD 0
  (nonce, { network with userNonces := network.userNonces.assign sender (nonce + 1) })

def generateIntentId (network : IntentNetwork) : String × IntentNetwork :=
  (intentId network.intentCounter.toNat,
    { network with intentCounter := network.intentCounter + 1 })

/-- `intents_[intent.intent_id] = intent`. -/
def store (intent : PaymentIntent) (network : IntentNetwork) : IntentNetwork :=
  { network with intents := network.intents.assign intent.intentId intent }

/-- A write to a field of a stored intent. -/
def update (id : String) (f : PaymentIntent → PaymentIntent) (network : IntentNetwork) :
    IntentNetwork :=
  { network with intents := network.intents.modify id f }

def setStatus (status : IntentStatus) (intent : PaymentIntent) : PaymentIntent :=
  { intent with status := status }

def setClaimedAt (now : Seconds) (intent : PaymentIntent) : PaymentIntent :=
  { intent with claimedAt := now }

def setSettlementTx (txSignature : String) (intent : PaymentIntent) : PaymentIntent :=
  { intent with settlementTx := txSignature }

/-! ### Bodies -/

def createIntentBody (sender receiver token : String) (amount : UInt64) (signature : String)
    (now : Seconds) : Prog IntentNetwork Mutex PaymentIntent := do
  let nonce ← .atomically (takeNonce sender)
  let intentId ← .atomically generateIntentId
  let intent : PaymentIntent :=
    { intentId := intentId
      senderAddress := sender
      receiverAddress := receiver
      tokenSymbol := token
      amount := amount
      createdAt := now
      expiresAt := now + claimWindowSeconds
      nonce := nonce
      senderSignature := signature
      status := .pending }
  .write (store intent)
  return intent

def claimIntentBody (id _claimer : String) (checkNow claimNow : Seconds) :
    Prog IntentNetwork Mutex (Option PaymentIntent) := do
  let found ← .read fun network => network.intents.lookup id
  match found with
  | none => return none
  | some intent =>
    if !intent.isClaimable checkNow then return none
    else
      .write (update id (setStatus .claimed))
      .write (update id (setClaimedAt claimNow))
      -- the caller is handed the stored intent
      .read fun network => network.intents.lookup id

def confirmSettlementBody (id txSignature : String) : Prog IntentNetwork Mutex Bool := do
  let found ← .read fun network => network.intents.lookup id
  match found with
  | none => return false
  | some intent =>
    if intent.status ≠ .claimed then return false
    else
      .write (update id (setSettlementTx txSignature))
      return true

/-- The body of the loop of `expire_intents`. -/
def expireBody (now : Seconds) (id : String) : Prog IntentNetwork Mutex Unit := do
  let found ← .read fun network => network.intents.lookup id
  match found with
  | none => return ()
  | some intent =>
    if intent.status = .pending ∧ intent.expiresAt ≤ now then
      .write (update id (setStatus .expired))
    else return ()

def expireIntentsBody (now : Seconds) : Prog IntentNetwork Mutex Unit := do
  let ids ← .read fun network => network.intents.keys
  ids.forM (expireBody now)

/-- The body of the loop of `pending_count`. -/
def countBody (count : ℕ) (id : String) : Prog IntentNetwork Mutex ℕ := do
  let found ← .read fun network => network.intents.lookup id
  return if found.any fun intent => intent.status == .pending then count + 1 else count

def pendingCountBody : Prog IntentNetwork Mutex ℕ := do
  let ids ← .read fun network => network.intents.keys
  ids.foldlM countBody 0

def body : Call → Prog IntentNetwork Mutex Result
  | .createIntent sender receiver token amount signature now => do
    let intent ← createIntentBody sender receiver token amount signature now
    return .created intent
  | .claimIntent id claimer checkNow claimNow => do
    let intent ← claimIntentBody id claimer checkNow claimNow
    return .claimed intent
  | .confirmSettlement id txSignature => do
    let ok ← confirmSettlementBody id txSignature
    return .confirmed ok
  | .getIntent id => do
    let intent ← .read fun network => network.getIntent id
    return .found intent
  | .expireIntents now => do
    expireIntentsBody now
    return .swept
  | .pendingCount => do
    let count ← pendingCountBody
    return .count count

/-- Threads that call a network that is constructed for them. -/
def threads {T : Type} (calls : T → List Call) :
    State T IntentNetwork Mutex (List (Call × Result)) :=
  Atomic.threads .intents (fun _ => false) body calls new

/-! ### Bodies without other threads -/

variable {network : IntentNetwork} {id : String} {intent : PaymentIntent}

theorem update_of_lookup (h : network.intents.lookup id = some intent)
    (f : PaymentIntent → PaymentIntent) : update id f network = network.write id (f intent) := by
  rw [update, Store.modify_of_lookup h]
  rfl

theorem update_write (f : PaymentIntent → PaymentIntent) :
    update id f (network.write id intent) = network.write id (f intent) := by
  rw [update, write, Store.modify_assign]
  rfl

theorem lookup_write : (network.write id intent).intents.lookup id = some intent :=
  Store.lookup_assign_self ..

theorem claimIntentBody_alone (claimer : String) (checkNow claimNow : Seconds) :
    (claimIntentBody id claimer checkNow claimNow).alone network
      = network.claimIntent id claimer checkNow claimNow := by
  rw [claimIntentBody, claimIntent, Prog.monad_bind, Prog.read_bind, Prog.alone_act, id_eq]
  cases hlookup : network.intents.lookup id with
  | none => rfl
  | some intent =>
    dsimp only
    cases hclaimable : intent.isClaimable checkNow with
    | false => rfl
    | true =>
      rw [if_neg (by simp), if_neg (by simp)]
      show ((update id (setClaimedAt claimNow)
        (update id (setStatus .claimed) network)).intents.lookup id, _) = _
      rw [update_of_lookup hlookup, update_write, lookup_write]
      rfl

theorem confirmSettlementBody_alone (txSignature : String) :
    (confirmSettlementBody id txSignature).alone network
      = network.confirmSettlement id txSignature := by
  rw [confirmSettlementBody, confirmSettlement, Prog.monad_bind, Prog.read_bind, Prog.alone_act,
    id_eq]
  cases hlookup : network.intents.lookup id with
  | none => rfl
  | some intent =>
    dsimp only
    by_cases hclaimed : intent.status = .claimed
    · rw [if_neg (not_not.mpr hclaimed), if_neg (not_not.mpr hclaimed)]
      show (true, update id (setSettlementTx txSignature) network) = _
      rw [update_of_lookup hlookup]
      rfl
    · rw [if_pos hclaimed, if_pos hclaimed]
      rfl

theorem expireBody_alone (now : Seconds) :
    (expireBody now id).alone network = ((), update id (expire now) network) := by
  rw [expireBody, Prog.monad_bind, Prog.read_bind, Prog.alone_act, id_eq]
  cases hlookup : network.intents.lookup id with
  | none =>
    rw [update, Store.modify_of_notMem hlookup]
    rfl
  | some intent =>
    dsimp only
    by_cases hover : intent.status = .pending ∧ intent.expiresAt ≤ now
    · rw [if_pos hover, update_of_lookup hlookup, expire, if_pos hover]
      show ((), update id (setStatus .expired) network) = _
      rw [update_of_lookup hlookup]
      rfl
    · have hkept : expire now intent = intent := if_neg hover
      rw [if_neg hover, update, Store.modify_eq_self hlookup hkept]
      rfl

theorem expireIntentsBody_alone (now : Seconds) :
    (expireIntentsBody now).alone network = ((), network.expireIntents now) := by
  have hfoldl : ∀ (ids : List String) (network : IntentNetwork),
      ids.foldl (fun network id => update id (expire now) network) network
        = { network with
            intents := ids.foldl (fun m id => Store.modify m id (expire now))
              network.intents } := by
    intro ids
    induction ids with
    | nil => exact fun network => rfl
    | cons id ids ih => exact fun network => ih _
  rw [expireIntentsBody, Prog.monad_bind, Prog.read_bind, Prog.alone_act, id_eq,
    Prog.alone_forM (f := fun network id => update id (expire now) network)
      fun id network => expireBody_alone now, hfoldl, Store.foldl_modify_keys]
  rfl

theorem pendingCountBody_alone :
    pendingCountBody.alone network = (network.pendingCount, network) := by
  rw [pendingCountBody, Prog.monad_bind, Prog.read_bind, Prog.alone_act, id_eq,
    Prog.alone_foldlM (f := fun network count id =>
      if (network.intents.lookup id).any fun intent => intent.status == .pending then count + 1
      else count) fun _ _ _ => rfl, Store.foldl_count_keys]
  rfl

/-- On its own, a body does what the operation does. -/
theorem alone_body (c : Call) (network : IntentNetwork) :
    (body c).alone network = step network c := by
  cases c with
  | createIntent sender receiver token amount signature now => rfl
  | claimIntent id claimer checkNow claimNow =>
    rw [body, Prog.monad_bind, Prog.alone_bind, claimIntentBody_alone]
    rfl
  | confirmSettlement id txSignature =>
    rw [body, Prog.monad_bind, Prog.alone_bind, confirmSettlementBody_alone]
    rfl
  | getIntent id => rfl
  | expireIntents now =>
    rw [body, Prog.monad_bind, Prog.alone_bind, expireIntentsBody_alone]
    rfl
  | pendingCount =>
    rw [body, Prog.monad_bind, Prog.alone_bind, pendingCountBody_alone]
    rfl

theorem lockFree_claimIntentBody (id claimer : String) (checkNow claimNow : Seconds) :
    LockFree (claimIntentBody id claimer checkNow claimNow) := by
  refine (lockFree_read _).bind fun found => ?_
  cases found with
  | none => trivial
  | some intent =>
    dsimp only
    split
    · trivial
    · exact (lockFree_write _).bind fun _ => (lockFree_write _).bind fun _ => lockFree_read _

theorem lockFree_confirmSettlementBody (id txSignature : String) :
    LockFree (confirmSettlementBody id txSignature) := by
  refine (lockFree_read _).bind fun found => ?_
  cases found with
  | none => trivial
  | some intent =>
    dsimp only
    split
    · trivial
    · exact (lockFree_write _).bind fun _ => trivial

theorem lockFree_expireBody (now : Seconds) (id : String) : LockFree (expireBody now id) := by
  refine (lockFree_read _).bind fun found => ?_
  cases found with
  | none => trivial
  | some intent =>
    dsimp only
    split
    · exact lockFree_write _
    · trivial

theorem lockFree_body (c : Call) : LockFree (body c) := by
  cases c with
  | createIntent sender receiver token amount signature now => exact fun _ _ _ => trivial
  | claimIntent id claimer checkNow claimNow =>
    exact (lockFree_claimIntentBody id claimer checkNow claimNow).bind fun _ => trivial
  | confirmSettlement id txSignature =>
    exact (lockFree_confirmSettlementBody id txSignature).bind fun _ => trivial
  | getIntent id => exact (lockFree_read _).bind fun _ => trivial
  | expireIntents now =>
    refine ((lockFree_read _).bind fun ids => ?_).bind fun _ => trivial
    exact lockFree_forM (lockFree_expireBody now) ids
  | pendingCount =>
    have hcount : ∀ count id, LockFree (countBody count id) := fun _ _ _ => trivial
    exact ((lockFree_read _).bind fun ids => lockFree_foldlM hcount ids 0).bind fun _ => trivial

theorem serve_body : Atomic.serve body = step := by
  funext network c
  exact alone_body c network

/-! ### All threads have one history -/

section

variable {T : Type}

variable [DecidableEq T]

/-- The calls of the threads in one order: each thread has made its calls in its order and
has been answered from the calls of all threads before, and the network holds the history
of all calls. -/
structure Serialized (calls : T → List Call) (results : T → List (Call × Result))
    (network : IntentNetwork) (order : List (T × Call)) : Prop where
  ordered : ∀ t, order.filterMap (Atomic.ofThread t) = calls t
  answered : ∀ t, results t = (Atomic.answers answer [] order).filterMap (Atomic.ofThread t)
  stored : (network.intents.entries.map fun e => (e.1, e.2)).Perm
    ((history [] (order.map Prod.snd)).map fun intent => (intent.intentId, intent))

variable [Fintype T] {calls : T → List Call}

/-- The calls of an order create as often as those of the threads. -/
theorem createsFit_of_ordered {order : List (T × Call)}
    (hordered : ∀ t, order.filterMap (Atomic.ofThread t) = calls t)
    (hcreates : ∑ t, (calls t).countP Call.creates < 2 ^ 64 - 1) :
    CreatesFit (order.map Prod.snd) := by
  rw [CreatesFit, ← Atomic.sum_countP_ofThread]
  simpa only [hordered] using hcreates

/-- Whatever the schedule, the threads run to their end, the network is that after the
first calls of each thread in one order whenever its mutex is free, and the finished
threads have one history. -/
theorem intents_serialize (hcreates : ∑ t, (calls t).countP Call.creates < 2 ^ 64 - 1) :
    Completes (threads calls) ∧
      (∀ s, Reachable (threads calls) s → s.owner .intents = none →
        ∃ earlier : List (T × Call), (∀ t, earlier.filterMap (Atomic.ofThread t) <+: calls t) ∧
          s.data = final step new (earlier.map Prod.snd)) ∧
      ∀ s results, Reachable (threads calls) s → (∀ t, s.progs t = .done (results t)) →
        ∃ order, Serialized calls results s.data order := by
  have hshares := Atomic.shares_of_lockFree lockFree_body
  refine ⟨Atomic.completes_threads hshares .intents calls new, fun s hreach hfree => ?_,
    fun s results hreach hfin => ?_⟩
  · obtain ⟨earlier, hown, -, hdata⟩ := Atomic.data_of_free hshares hreach
    rw [serve_body] at hdata
    exact ⟨earlier, hown, hdata hfree⟩
  obtain ⟨order, hordered, hresults, hdata⟩ := Atomic.atomic_of_finished hshares hreach hfin
  have hfit := createsFit_of_ordered hordered hcreates
  refine ⟨order, hordered, fun t => ?_, ?_⟩
  · rw [hresults]
    refine Atomic.repliesTo_eq_answers (fun pre call hstart => ?_) t
    rw [serve_body]
    exact answer_final (hfit.restrict ((List.prefix_append pre [call]).trans hstart)) call
  · rw [hdata, serve_body]
    exact stored_final hfit

/-! ### What the threads together have been granted -/

/-- The reply grants the intent to a claimer. -/
def grants (id : String) : Call × Result → Bool
  | (.claimIntent id' .., .claimed intent) => id' == id && intent.isSome
  | _ => false

/-- The reply is a new intent with `p`. -/
def opens (p : PaymentIntent → Bool) : Call × Result → Bool
  | (_, .created intent) => p intent
  | _ => false

/-- The reply accepts a settlement of the intent. -/
def settles (id : String) : Call × Result → Bool
  | (.confirmSettlement id' _, .confirmed ok) => id' == id && ok
  | _ => false

/-- How often threads have been replied what `p` says. -/
def times (p : Call × Result → Bool) (results : T → List (Call × Result)) : ℕ :=
  ∑ t, (results t).countP p

/-- What no schedule lets the threads of a network have together. -/
structure Exclusive (results : T → List (Call × Result)) : Prop where
  granted : ∀ id, times (grants id) results ≤ 1
  opened : ∀ id, times (opens fun intent => intent.intentId == id) results ≤ 1
  numbered : ∀ sender nonce, times
    (opens fun intent => intent.nonce == nonce && intent.senderAddress == sender) results ≤ 1
  settled : ∀ id, 0 < times (settles id) results → 0 < times (grants id) results

theorem claims_eq (id : String) (network : IntentNetwork) (call : Call) :
    grants id (call, (step network call).1) = claims id network call := by
  cases call <;> rfl

theorem opens_eq (p : PaymentIntent → Bool) (network : IntentNetwork) (call : Call) :
    opens p (call, (step network call).1) = (created network call).any p := by
  cases call <;> rfl

theorem settles_spec {id : String} {network : IntentNetwork} {call : Call}
    (h : settles id (call, (step network call).1) = true) :
    ∃ intent, network.intents.lookup id = some intent ∧ intent.status = .claimed := by
  cases call with
  | confirmSettlement id' txSignature =>
    obtain ⟨hid, hok⟩ := Bool.and_eq_true_iff.mp h
    obtain rfl := beq_iff_eq.mp hid
    exact (confirmSettlement_eq_true_iff network id' txSignature).mp hok
  | _ => cases h

/-- A run creates as many intents with `p` as its replies show. -/
theorem countP_opens (p : PaymentIntent → Bool) (network : IntentNetwork) (calls : List Call) :
    (trace step network calls).countP (fun e => opens p (e.call, e.result))
      = (createdIn network calls).countP p := by
  induction calls generalizing network with
  | nil => rfl
  | cons call calls ih =>
    rw [trace_cons, List.countP_cons, ih, createdIn_cons, List.countP_append, event_call,
      event_result, opens_eq, add_comm]
    cases created network call <;> simp

/-- An intent is claimed only after a call that has claimed it. -/
theorem exists_claims {calls : List Call} {id : String} {intent : PaymentIntent}
    (hlookup : (final step new calls).intents.lookup id = some intent)
    (hclaimed : intent.status = .claimed) :
    0 < (trace step new calls).countP fun e => claims id e.before e.call := by
  induction calls using List.reverseRecOn generalizing intent with
  | nil => exact absurd hlookup (by simp [new])
  | append_singleton pre call ih =>
    rw [final_append, final_cons, final_nil] at hlookup
    rw [trace_append, List.countP_append, trace_cons, trace_nil, List.countP_singleton]
    rcases lookup_of_step hlookup with ⟨before, hbefore, hmoves⟩ | ⟨hcreated, -⟩
    · cases hmoves with
      | kept => exact Nat.add_pos_left (ih hbefore hclaimed) _
      | claimed claimer checkNow claimNow _ hpending hopen =>
        refine Nat.add_pos_right _ ?_
        have hclaims : claims id (final step new pre) (.claimIntent id claimer checkNow claimNow)
            = true := by
          simp [claims, claimIntent, hbefore, isClaimable_iff.mpr ⟨hpending, hopen⟩]
        rw [event_before, event_call, hclaims]
        exact Nat.one_pos
      | confirmed txSignature _ hstatus => exact Nat.add_pos_left (ih hbefore hstatus) _
      | expired => cases hclaimed
    · rw [(created_sound hcreated).1] at hclaimed
      cases hclaimed

theorem countP_map_le_one {α κ : Type} [DecidableEq κ] {f : α → κ} {l : List α}
    (h : (l.map f).Nodup) (k : κ) : (l.countP fun a => f a == k) ≤ 1 := by
  have hcount := List.nodup_iff_count_le_one.mp h k
  rwa [List.count, List.countP_map] at hcount

theorem exclusive_of_history {order : List (T × Call)}
    (hcreates : CreatesFit (order.map Prod.snd)) :
    Exclusive (Atomic.repliesTo body new order) := by
  have htimes : ∀ p, times p (Atomic.repliesTo body new order)
      = (trace step new (order.map Prod.snd)).countP fun e => p (e.call, e.result) := by
    intro p
    rw [times, Atomic.sum_countP_repliesTo, serve_body]
  have hgrants : ∀ id, times (grants id) (Atomic.repliesTo body new order)
      = (trace step new (order.map Prod.snd)).countP fun e => claims id e.before e.call := by
    intro id
    rw [htimes]
    refine List.countP_congr fun e he => ?_
    obtain ⟨pre, call, post, -, rfl⟩ := mem_trace_iff.mp he
    rw [event_before, event_call, event_result, claims_eq]
  constructor
  case granted =>
    intro id
    rw [hgrants]
    exact countP_claims_le_one (each_fresh_new hcreates) id
  case opened =>
    intro id
    rw [htimes, countP_opens]
    exact countP_map_le_one (nodup_createdIn hcreates) id
  case numbered =>
    intro sender nonce
    have hzero : new.nextNonce sender = 0 := rfl
    have hfit : (new.nextNonce sender).toNat + (order.map Prod.snd).countP Call.creates
        < 2 ^ 64 := by
      rw [CreatesFit] at hcreates
      rw [hzero, UInt64.toNat_zero]
      omega
    have hnonces : ((createdBy sender new (order.map Prod.snd)).map PaymentIntent.nonce).Nodup := by
      refine List.Nodup.of_map UInt64.toNat ?_
      rw [List.map_map]
      exact (nonces_createdBy hfit).symm ▸ List.nodup_range'
    have hone := countP_map_le_one hnonces nonce
    rw [createdBy, List.countP_filter] at hone
    rw [htimes, countP_opens]
    exact hone
  case settled =>
    intro id hsettled
    rw [htimes] at hsettled
    obtain ⟨e, he, hsettles⟩ := List.countP_pos_iff.mp hsettled
    obtain ⟨pre, call, post, horder, rfl⟩ := mem_trace_iff.mp he
    obtain ⟨intent, hlookup, hclaimed⟩ := settles_spec hsettles
    rw [hgrants, horder, trace_append, List.countP_append]
    exact Nat.add_pos_left (exists_claims hlookup hclaimed) _

/-- Whatever the schedule, the threads have been granted nothing twice. -/
theorem grants_exclusive {s : State T IntentNetwork Mutex (List (Call × Result))}
    {results : T → List (Call × Result)}
    (hcreates : ∑ t, (calls t).countP Call.creates < 2 ^ 64 - 1)
    (hreach : Reachable (threads calls) s) (hfin : ∀ t, s.progs t = .done (results t)) :
    Exclusive results := by
  obtain ⟨order, hordered, hresults, -⟩ :=
    Atomic.atomic_of_finished (Atomic.shares_of_lockFree lockFree_body) hreach hfin
  rw [funext hresults]
  exact exclusive_of_history (createsFit_of_ordered hordered hcreates)

end

/-! ### Two relayers and one intent -/

deriving instance DecidableEq for Call, Result

/-- One thread creates an intent and claims it, the other claims it too. -/
def twoRelayers : Bool → List Call
  | true => [.createIntent "alice" "bob" "SOL" 5 "sig" 0, .claimIntent "int_1" "bob" 2 2]
  | false => [.claimIntent "int_1" "relayer" 1 1]

def twoRelayersIntent : PaymentIntent :=
  { intentId := "int_1"
    senderAddress := "alice"
    receiverAddress := "bob"
    tokenSymbol := "SOL"
    amount := 5
    createdAt := 0
    expiresAt := 604800
    nonce := 0
    senderSignature := "sig" }

def twoRelayersResults : Bool → List (Call × Result)
  | true => [(.createIntent "alice" "bob" "SOL" 5 "sig" 0, .created twoRelayersIntent),
      (.claimIntent "int_1" "bob" 2 2, .claimed none)]
  | false => [(.claimIntent "int_1" "relayer" 1 1,
      .claimed (some { twoRelayersIntent with status := .claimed, claimedAt := 1 }))]

/-- The other thread is faster. -/
theorem finished_twoRelayers :
    ∃ s, Reachable (threads twoRelayers) s ∧ ∀ t, s.progs t = .done (twoRelayersResults t) := by
  have hrun : ∀ t, ((run (threads twoRelayers) [true, true, true, true, true, false, false, false,
      false, false, false, true, true, true]).bind fun s => (s.progs t).returned)
        = some (twoRelayersResults t) := by
    decide +kernel
  exact finished_of_run hrun

theorem intents_serialize_twoRelayers :
    ∃ network order, Serialized twoRelayers twoRelayersResults network order := by
  obtain ⟨s, hreach, hfin⟩ := finished_twoRelayers
  exact ⟨s.data, (intents_serialize (by decide +kernel)).2.2 s _ hreach hfin⟩

theorem grants_exclusive_twoRelayers : Exclusive twoRelayersResults := by
  obtain ⟨s, hreach, hfin⟩ := finished_twoRelayers
  exact grants_exclusive (by decide +kernel) hreach hfin

end IntentNetwork

end Membra
