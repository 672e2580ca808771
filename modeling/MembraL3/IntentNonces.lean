/-
Ids and nonces of payment intents.

The ids of a run come from one counter, the nonces from one counter for each
sender; every created intent stays in the store with the terms it was created
with.

* `nonces_createdIn` — the nonces of a sender count up from the sender's counter;
* `lookup_createdIn` — what is created is stored, and nothing else;
* `intents_kept` — the intents of a run.
-/
import MembraL3.IntentNetwork

namespace Membra

namespace IntentNetwork

/-- The intents that a run creates, in order. -/
def createdIn (network : IntentNetwork) (calls : List Call) : List PaymentIntent :=
  (Runs.trace step network calls).filterMap fun e => created e.before e.call

/-- The intents of a sender among them. -/
def createdBy (sender : String) (network : IntentNetwork) (calls : List Call) :
    List PaymentIntent :=
  (createdIn network calls).filter fun intent => intent.senderAddress = sender

/-- The nonce that the next intent of a sender gets. -/
def nextNonce (network : IntentNetwork) (sender : String) : UInt64 :=
  (network.userNonces.lookup sender).getD 0

variable {network : IntentNetwork} {id : String} {intent : PaymentIntent}

theorem createdIn_cons (call : Call) (calls : List Call) :
    createdIn network (call :: calls)
      = (created network call).toList ++ createdIn (step network call).2 calls := by
  rw [createdIn, Runs.trace_cons, List.filterMap_cons, Runs.event_before, Runs.event_call]
  cases created network call <;> rfl

theorem createdIn_append (calls more : List Call) :
    createdIn network (calls ++ more)
      = createdIn network calls ++ createdIn (Runs.final step network calls) more := by
  rw [createdIn, Runs.trace_append, List.filterMap_append, createdIn, createdIn]

theorem length_createdIn (network : IntentNetwork) (calls : List Call) :
    (createdIn network calls).length = calls.countP Call.creates := by
  induction calls generalizing network with
  | nil => rfl
  | cons call calls ih =>
    rw [createdIn_cons, List.length_append, ih, List.countP_cons, add_comm]
    cases call <;> rfl

/-! ### Nonces -/

/-- The nonce of a created intent is its sender's next one, which then counts up. -/
theorem nonce_of_created {call : Call} (hcreated : created network call = some intent) :
    intent.nonce = network.nextNonce intent.senderAddress ∧
      (step network call).2.nextNonce intent.senderAddress
        = network.nextNonce intent.senderAddress + 1 := by
  cases call with
  | createIntent sender receiver token amount signature now =>
    obtain rfl := Option.some.inj hcreated
    refine ⟨rfl, ?_⟩
    show ((network.userNonces.assign sender _).lookup sender).getD 0 = _
    rw [Store.lookup_assign_self]
    rfl
  | _ => cases hcreated

theorem nextNonce_step {call : Call} {sender : String}
    (hother : ∀ intent, created network call = some intent → intent.senderAddress ≠ sender) :
    (step network call).2.nextNonce sender = network.nextNonce sender := by
  cases call with
  | createIntent sender' receiver token amount signature now =>
    have hne : sender ≠ sender' := (hother _ rfl).symm
    show ((network.userNonces.assign sender' _).lookup sender).getD 0 = _
    rw [Store.lookup_assign_ne _ _ hne]
    rfl
  | claimIntent id claimer checkNow claimNow =>
    rcases claimIntent_cases network id claimer checkNow claimNow with
      ⟨intent, -, -, -, heq⟩ | heq
    · simp only [step, heq]
      rfl
    · simp only [step, heq]
  | confirmSettlement id txSignature =>
    rcases confirmSettlement_cases network id txSignature with ⟨intent, -, -, heq⟩ | heq
    · simp only [step, heq]
      rfl
    · simp only [step, heq]
  | getIntent id => rfl
  | expireIntents now => rfl
  | pendingCount => rfl

/-- The nonces of a sender's intents count up from the sender's counter, whatever
the others do. -/
theorem nonces_createdBy {calls : List Call} {sender : String}
    (hfit : (network.nextNonce sender).toNat + calls.countP Call.creates < 2 ^ 64) :
    (createdBy sender network calls).map (fun intent => intent.nonce.toNat)
      = List.range' (network.nextNonce sender).toNat (createdBy sender network calls).length := by
  induction calls generalizing network with
  | nil => rfl
  | cons call calls ih =>
    unfold createdBy at ih ⊢
    rw [createdIn_cons, List.filter_append]
    have hsplit : (call :: calls).countP Call.creates
        = calls.countP Call.creates + if call.creates then 1 else 0 := List.countP_cons
    cases hcreated : created network call with
    | none =>
      have hkept : (step network call).2.nextNonce sender = network.nextNonce sender := by
        refine nextNonce_step ?_
        rw [hcreated]
        nofun
      rw [← hkept]
      exact ih (by rw [hkept]; omega)
    | some intent =>
      obtain ⟨hnonce, hnext⟩ := nonce_of_created hcreated
      have hcreates : call.creates = true := created_eq_some_iff.mp ⟨intent, hcreated⟩
      rw [if_pos hcreates] at hsplit
      by_cases hsender : intent.senderAddress = sender
      · subst hsender
        have hone := (Words.toNat_add_one_eq_iff (network.nextNonce intent.senderAddress)).mpr
          (by omega)
        rw [← hnext] at hone
        have hrest := @ih (step network call).2 (by omega)
        rw [hone] at hrest
        simp only [Option.toList, List.filter_cons_of_pos, decide_true, List.filter_nil,
          List.singleton_append, List.map_cons, List.length_cons, List.range'_succ]
        rw [hrest, hnonce]
      · have hkept : (step network call).2.nextNonce sender = network.nextNonce sender := by
          refine nextNonce_step ?_
          rw [hcreated]
          rintro made ⟨⟩
          exact hsender
        rw [← hkept]
        simp only [Option.toList, List.filter_cons, decide_eq_true_eq, if_neg hsender,
          List.filter_nil, List.nil_append]
        exact ih (by rw [hkept]; omega)

/-! ### The store -/

theorem nodup_createdIn {calls : List Call} (hcreates : CreatesFit calls) :
    ((createdIn new calls).map PaymentIntent.intentId).Nodup := by
  have hone : new.intentCounter.toNat = 1 := rfl
  have hfit : new.intentCounter.toNat + calls.countP Call.creates < 2 ^ 64 := by
    rw [CreatesFit] at hcreates
    omega
  have hissued := Numbered.nodup_issued intentCounter (fun _ n => intentId n) counter_step
    (fun _ _ m n _ _ => Numbered.name_inj.mp) hfit
  rwa [funext issued_eq, ← List.map_filterMap] at hissued

theorem size_step {call : Call} (hfresh : Fresh network call) :
    (step network call).2.intents.size
      = network.intents.size + if call.creates then 1 else 0 := by
  cases hcall : call.creates with
  | false =>
    rw [Store.size, keys_step hcall]
    rfl
  | true =>
    obtain ⟨made, hmade⟩ := created_eq_some_iff.mpr hcall
    obtain ⟨hid, hintents⟩ := intents_of_created hmade
    have hnew := AList.lookup_eq_none.mpr (hfresh hcall)
    rw [hintents, Store.size_assign_new _ (by rw [hid]; exact hnew)]
    rfl

theorem size_final {calls : List Call} (hfresh : Runs.Each step Fresh network calls) :
    (Runs.final step network calls).intents.size
      = network.intents.size + calls.countP Call.creates := by
  induction calls generalizing network with
  | nil => rfl
  | cons call calls ih =>
    obtain ⟨hcall, hcalls⟩ := (Runs.each_cons _ _).mp hfresh
    rw [Runs.final_cons, ih hcalls, size_step hcall, List.countP_cons]
    omega

/-- What a run creates is stored when the run ends. -/
theorem lookup_createdIn {calls : List Call} (hfresh : Runs.Each step Fresh network calls)
    (hintent : intent ∈ createdIn network calls) :
    ∃ intent', (Runs.final step network calls).intents.lookup intent.intentId = some intent' ∧
      Progress intent intent' := by
  obtain ⟨e, he, hcreated⟩ := List.mem_filterMap.mp hintent
  obtain ⟨pre, call, post, rfl, rfl⟩ := Runs.mem_trace_iff.mp he
  rw [Runs.event_before, Runs.event_call] at hcreated
  rw [Runs.each_append, Runs.each_cons] at hfresh
  rw [Runs.final_append, Runs.final_cons]
  refine evolves_final hfresh.2.2 _ _ ?_
  rw [(intents_of_created hcreated).2, Store.lookup_assign_self]

/-- And nothing else is. -/
theorem mem_createdIn_of_lookup {calls : List Call}
    (hlookup : (Runs.final step new calls).intents.lookup id = some intent) :
    ∃ made ∈ createdIn new calls, made.intentId = id ∧ Progress made intent := by
  induction calls using List.reverseRecOn generalizing intent with
  | nil => cases hlookup
  | append_singleton calls call ih =>
    rw [Runs.final_append] at hlookup
    rw [createdIn_append]
    rcases lookup_of_step hlookup with ⟨before, hbefore, hmoves⟩ | ⟨hcreated, rfl⟩
    · obtain ⟨made, hmade, hid, hprogress⟩ := ih hbefore
      exact ⟨made, List.mem_append_left _ hmade, hid, hprogress.trans hmoves.progress⟩
    · refine ⟨intent, List.mem_append_right _ ?_, rfl, .refl intent⟩
      rw [createdIn_cons, hcreated]
      exact List.mem_append_left _ (List.mem_singleton_self intent)

/-! ### The intents of a run -/

/-- What is promised of the intents that a run from the empty network creates. -/
structure IntentsKept (calls : List Call) : Prop where
  /-- The ids are distinct, and there is one stored intent for each creation. -/
  distinct : ((createdIn new calls).map PaymentIntent.intentId).Nodup
  oneEach : (createdIn new calls).length = calls.countP Call.creates ∧
    (Runs.final step new calls).intents.size = calls.countP Call.creates
  /-- The store holds the created intents under their ids, with their terms. -/
  stored : ∀ intent ∈ createdIn new calls, ∃ intent',
    (Runs.final step new calls).intents.lookup intent.intentId = some intent' ∧
      terms intent' = terms intent
  nothingElse : ∀ id intent, (Runs.final step new calls).intents.lookup id = some intent →
    ∃ made ∈ createdIn new calls, made.intentId = id ∧ terms intent = terms made
  /-- The nonces of a sender's intents, in the order of their creation. -/
  nonces : ∀ sender, (createdBy sender new calls).map (fun intent => intent.nonce.toNat)
    = List.range (createdBy sender new calls).length
  /-- No call changes the terms of a stored intent. -/
  unchanged : ∀ pre mid, pre ++ mid <+: calls → ∀ id intent,
    (Runs.final step new pre).intents.lookup id = some intent →
    ∃ intent', (Runs.final step new (pre ++ mid)).intents.lookup id = some intent' ∧
      terms intent' = terms intent

theorem intents_kept {calls : List Call} (hcreates : CreatesFit calls) : IntentsKept calls := by
  have hfresh := each_fresh_new hcreates
  constructor
  case distinct => exact nodup_createdIn hcreates
  case oneEach => exact ⟨length_createdIn new calls, (size_final hfresh).trans (Nat.zero_add _)⟩
  case stored =>
    intro intent hintent
    obtain ⟨intent', hlookup, hprogress⟩ := lookup_createdIn hfresh hintent
    exact ⟨intent', hlookup, hprogress.terms_eq⟩
  case nothingElse =>
    intro id intent hlookup
    obtain ⟨made, hmade, hid, hprogress⟩ := mem_createdIn_of_lookup hlookup
    exact ⟨made, hmade, hid, hprogress.terms_eq⟩
  case nonces =>
    intro sender
    have hzero : (new.nextNonce sender).toNat = 0 := rfl
    have hnonces := @nonces_createdBy new calls sender
      (by rw [CreatesFit] at hcreates; omega)
    rw [hnonces, hzero, List.range_eq_range']
  case unchanged =>
    intro pre mid hpre id intent hlookup
    obtain ⟨intent', hlookup', hprogress⟩ :=
      evolves_final (hfresh.between hpre) id intent hlookup
    rw [Runs.final_append]
    exact ⟨intent', hlookup', hprogress.terms_eq⟩

/-- Two senders, interleaved. -/
theorem intents_kept_interleaved :
    IntentsKept
      [.createIntent "alice" "bob" "SOL" 5 "sig" 0, .createIntent "bob" "alice" "SOL" 6 "sig" 0,
        .claimIntent "int_2" "alice" 1 1, .createIntent "alice" "bob" "SOL" 7 "sig" 2] :=
  intents_kept (by decide +kernel)

end IntentNetwork

end Membra
