/-
The history of the payment intents.

What a run leaves of an intent can be read off its calls: the intent is decided by the
first later call that claims it in time or sweeps it too late, and a claimed intent has
the last settlement that was confirmed after its claim.  Calls about other intents do not
matter.

* `outcome` — the intent that the later calls make of a new one;
* `replay_act` — call by call;
* `history` — all intents of a list of calls;
* `intents_replayed` — the network after a run holds the history of its calls.
-/
import MembraL3.Lib.Replay
import MembraL3.IntentNonces

namespace Membra

namespace IntentNetwork

open Runs Replay

/-! ### One intent -/

/-- What a call does to the intent stored under `id`. -/
def act (id : String) : Call → PaymentIntent → PaymentIntent
  | .claimIntent id' _ checkNow claimNow, intent =>
    if id' = id ∧ intent.isClaimable checkNow then
      { intent with status := .claimed, claimedAt := claimNow }
    else intent
  | .confirmSettlement id' txSignature, intent =>
    if id' = id ∧ intent.status = .claimed then { intent with settlementTx := txSignature }
    else intent
  | .expireIntents now, intent => expire now intent
  | _, intent => intent

/-- The call decides what becomes of the intent while it is pending. -/
def decides (intent : PaymentIntent) : Call → Bool
  | .claimIntent id _ checkNow _ => id == intent.intentId && !intent.isExpired checkNow
  | .expireIntents now => intent.isExpired now
  | _ => false

/-- The settlement that a call offers for the intent. -/
def confirms (id : String) : Call → Option String
  | .confirmSettlement id' txSignature => if id' = id then some txSignature else none
  | _ => none

/-- What the calls after its creation make of an intent. -/
def outcome (intent : PaymentIntent) (later : List Call) : PaymentIntent :=
  match later.dropWhile fun call => !decides intent call with
  | .claimIntent _ _ _ claimNow :: rest =>
    { intent with
      status := .claimed
      claimedAt := claimNow
      settlementTx := (rest.filterMap (confirms intent.intentId)).getLast?.getD "" }
  | .expireIntents _ :: _ => { intent with status := .expired }
  | _ => intent

/-! ### One call after the other -/

theorem replay_expired {id : String} {intent : PaymentIntent} (h : intent.status = .expired)
    (later : List Call) : replay act id intent later = intent := by
  induction later with
  | nil => rfl
  | cons call later ih =>
    have hkept : act id call intent = intent := by
      cases call <;> simp [act, expire, PaymentIntent.isClaimable, h]
    rw [replay_cons, hkept, ih]

/-- A claimed intent takes the settlements that are confirmed, and nothing else. -/
theorem replay_claimed {id : String} {intent : PaymentIntent} (h : intent.status = .claimed)
    (later : List Call) :
    replay act id intent later =
      { intent with
        settlementTx := (later.filterMap (confirms id)).getLast?.getD intent.settlementTx } := by
  induction later generalizing intent with
  | nil => rfl
  | cons call later ih =>
    rw [replay_cons]
    by_cases hconfirm : ∃ txSignature, call = .confirmSettlement id txSignature
    · obtain ⟨txSignature, rfl⟩ := hconfirm
      have hact : act id (.confirmSettlement id txSignature) intent
          = { intent with settlementTx := txSignature } := by
        simp [act, h]
      have hconfirms : confirms id (.confirmSettlement id txSignature) = some txSignature := by
        simp [confirms]
      rw [hact, ih (by exact h), List.filterMap_cons_some hconfirms, List.getLast?_cons]
      rfl
    · have hact : act id call intent = intent := by
        cases call with
        | confirmSettlement id' txSignature =>
          have hne : id' ≠ id := fun hid => hconfirm ⟨txSignature, by rw [hid]⟩
          simp [act, hne]
        | _ => simp [act, expire, PaymentIntent.isClaimable, h]
      have hnone : confirms id call = none := by
        cases call with
        | confirmSettlement id' txSignature =>
          have hne : id' ≠ id := fun hid => hconfirm ⟨txSignature, by rw [hid]⟩
          simp [confirms, hne]
        | _ => rfl
      rw [hact, ih h, List.filterMap_cons_none hnone]

/-- Nothing happens to a pending intent before the call that decides it. -/
theorem act_of_not_decides {intent : PaymentIntent} {call : Call} (h : intent.status = .pending)
    (hcall : decides intent call = false) : act intent.intentId call intent = intent := by
  cases call with
  | claimIntent id claimer checkNow claimNow =>
    refine if_neg ?_
    rintro ⟨rfl, hclaimable⟩
    rw [PaymentIntent.isClaimable, Bool.and_eq_true] at hclaimable
    simp [decides, hclaimable.2] at hcall
  | confirmSettlement id txSignature => simp [act, h]
  | expireIntents now =>
    refine if_neg ?_
    rintro ⟨-, hover⟩
    simp [decides, PaymentIntent.isExpired, hover] at hcall
  | _ => rfl

/-- A new intent becomes what the later calls make of it. -/
theorem replay_act {intent : PaymentIntent} (hpending : intent.status = .pending)
    (hsettlement : intent.settlementTx = "") (later : List Call) :
    replay act intent.intentId intent later = outcome intent later := by
  induction later with
  | nil => rfl
  | cons call later ih =>
    rw [replay_cons]
    cases hdecides : decides intent call with
    | false =>
      rw [act_of_not_decides hpending hdecides, ih, outcome, outcome,
        List.dropWhile_cons_of_pos (by simp [hdecides])]
    | true =>
      rw [outcome, List.dropWhile_cons_of_neg (by simp [hdecides])]
      cases call with
      | claimIntent id claimer checkNow claimNow =>
        obtain ⟨hid, hopen⟩ := Bool.and_eq_true_iff.mp hdecides
        have hact : act intent.intentId (.claimIntent id claimer checkNow claimNow) intent
            = { intent with status := .claimed, claimedAt := claimNow } := by
          refine if_pos ⟨beq_iff_eq.mp hid, ?_⟩
          simp [PaymentIntent.isClaimable, hpending, hopen]
        rw [hact, replay_claimed rfl]
        simp only [hsettlement]
      | expireIntents now =>
        have hact : act intent.intentId (.expireIntents now) intent
            = { intent with status := .expired } :=
          if_pos ⟨hpending, of_decide_eq_true hdecides⟩
        rw [hact, replay_expired rfl]
      | _ => cases hdecides

/-! ### All of them -/

/-- The sender of the intent that a call creates. -/
def Call.sender : Call → Option String
  | .createIntent sender _ _ _ _ _ => some sender
  | _ => none

/-- The intent that a call creates after the earlier ones. -/
def opened (earlier : List Call) (sender receiver token : String) (amount : UInt64)
    (signature : String) (now : Seconds) : PaymentIntent :=
  { intentId := intentId (earlier.countP Call.creates + 1)
    senderAddress := sender
    receiverAddress := receiver
    tokenSymbol := token
    amount := amount
    createdAt := now
    expiresAt := now + claimWindowSeconds
    nonce := UInt64.ofNat (earlier.countP fun call => call.sender = some sender)
    senderSignature := signature }

/-- The intents that calls create after the earlier ones, as the calls leave them. -/
def history (earlier : List Call) : List Call → List PaymentIntent
  | [] => []
  | call@(.createIntent sender receiver token amount signature now) :: later =>
    outcome (opened earlier sender receiver token amount signature now) later ::
      history (earlier ++ [call]) later
  | call :: later => history (earlier ++ [call]) later

/-- What the calls make of the intent with this id. -/
def recorded (calls : List Call) (id : String) : Option PaymentIntent :=
  (history [] calls).find? fun intent => intent.intentId == id

/-- The answer to a call after the earlier ones. -/
def answer (earlier : List Call) : Call → Result
  | .createIntent sender receiver token amount signature now =>
    .created (opened earlier sender receiver token amount signature now)
  | .claimIntent id _ checkNow claimNow =>
    .claimed (((recorded earlier id).filter fun intent => intent.isClaimable checkNow).map
      fun intent => { intent with status := .claimed, claimedAt := claimNow })
  | .confirmSettlement id _ =>
    .confirmed ((recorded earlier id).any fun intent => intent.status == .claimed)
  | .getIntent id => .found (recorded earlier id)
  | .expireIntents _ => .swept
  | .pendingCount => .count ((history [] earlier).countP fun intent => intent.status == .pending)

/-- What a call stores, under its id. -/
def made (network : IntentNetwork) (call : Call) : Option (String × PaymentIntent) :=
  (created network call).map fun intent => (intent.intentId, intent)

theorem separate_act : Separate step intents act made := by
  constructor
  case lookup_made =>
    intro network call id intent hmade
    obtain ⟨intent', hcreated, heq⟩ := Option.map_eq_some_iff.mp hmade
    obtain ⟨rfl, rfl⟩ := Prod.mk.inj heq
    rw [(intents_of_created hcreated).2, Store.lookup_assign_self]
  case lookup_other =>
    intro network call id hother
    cases call with
    | createIntent sender receiver token amount signature now =>
      have hne : id ≠ intentId network.intentCounter.toNat := by
        rintro rfl
        exact hother _ rfl
      show (network.intents.assign _ _).lookup id = _
      rw [Store.lookup_assign_ne _ _ hne]
      exact Option.map_id'.symm
    | claimIntent id' claimer checkNow claimNow =>
      have hact : ∀ k intent, k ≠ id' →
          act k (.claimIntent id' claimer checkNow claimNow) intent = intent := by
        intro k intent hne
        exact if_neg fun h => hne h.1.symm
      refine lookup_of_about hact ?_ ?_ id
      · rw [step, claimIntent]
        cases hlookup : network.intents.lookup id' with
        | none => exact hlookup
        | some intent =>
          cases hclaimable : intent.isClaimable checkNow with
          | false => simp [hlookup, act, hclaimable]
          | true => simp [write, act, hclaimable]
      · intro k hne
        rw [step]
        rcases claimIntent_cases network id' claimer checkNow claimNow with
          ⟨intent, -, -, -, heq⟩ | heq
        · rw [heq]
          exact Store.lookup_assign_ne _ _ hne
        · rw [heq]
    | confirmSettlement id' txSignature =>
      have hact : ∀ k intent, k ≠ id' →
          act k (.confirmSettlement id' txSignature) intent = intent := by
        intro k intent hne
        exact if_neg fun h => hne h.1.symm
      refine lookup_of_about hact ?_ ?_ id
      · rw [step, confirmSettlement]
        cases hlookup : network.intents.lookup id' with
        | none => exact hlookup
        | some intent =>
          by_cases hclaimed : intent.status = .claimed
          · simp [write, act, hclaimed]
          · simp [hlookup, act, hclaimed]
      · intro k hne
        rw [step]
        rcases confirmSettlement_cases network id' txSignature with ⟨intent, -, -, heq⟩ | heq
        · rw [heq]
          exact Store.lookup_assign_ne _ _ hne
        · rw [heq]
    | getIntent id' => exact Option.map_id'.symm
    | expireIntents now => exact Store.lookup_map ..
    | pendingCount => exact Option.map_id'.symm

theorem nextNonce_final (network : IntentNetwork) (sender : String) (calls : List Call) :
    (final step network calls).nextNonce sender
      = network.nextNonce sender +
        UInt64.ofNat (calls.countP fun call => call.sender = some sender) := by
  induction calls generalizing network with
  | nil => exact (UInt64.add_zero _).symm
  | cons call calls ih =>
    rw [final_cons, ih, List.countP_cons]
    by_cases hsender : call.sender = some sender
    · obtain ⟨intent, hcreated, hintent⟩ : ∃ intent, created network call = some intent ∧
          intent.senderAddress = sender := by
        cases call with
        | createIntent sender' receiver token amount signature now =>
          exact ⟨_, rfl, Option.some.inj hsender⟩
        | _ => cases hsender
      have hnext := (nonce_of_created hcreated).2
      rw [hintent] at hnext
      rw [hnext, if_pos (by simpa using hsender), UInt64.ofNat_add, add_assoc, add_comm 1]
      rfl
    · have hkept : (step network call).2.nextNonce sender = network.nextNonce sender := by
        refine nextNonce_step fun intent hcreated hintent => ?_
        cases call with
        | createIntent sender' receiver token amount signature now =>
          obtain rfl := Option.some.inj hcreated
          exact hsender (congrArg some hintent)
        | _ => cases hcreated
      rw [hkept, if_neg (by simpa using hsender), add_zero]

theorem createIntent_final {earlier : List Call} (hcreates : CreatesFit earlier)
    (sender receiver token : String) (amount : UInt64) (signature : String) (now : Seconds) :
    ((final step new earlier).createIntent sender receiver token amount signature now).1
      = opened earlier sender receiver token amount signature now := by
  have hone : new.intentCounter.toNat = 1 := rfl
  have hfit : new.intentCounter.toNat + earlier.countP Call.creates < 2 ^ 64 := by
    rw [CreatesFit] at hcreates
    omega
  have hcounter := Numbered.toNat_counter_final counter_step hfit
  have hnonce := nextNonce_final new sender earlier
  rw [hone, add_comm] at hcounter
  rw [nextNonce, show new.nextNonce sender = 0 from rfl, zero_add] at hnonce
  rw [createIntent, hcounter, hnonce]
  rfl

@[simp] theorem outcome_intentId (intent : PaymentIntent) (later : List Call) :
    (outcome intent later).intentId = intent.intentId := by
  unfold outcome
  split <;> rfl

/-- The objects of a run are its history. -/
theorem lives_final {earlier calls : List Call} (hcreates : CreatesFit (earlier ++ calls)) :
    lives step act made (final step new earlier) calls
      = (history earlier calls).map fun intent => (intent.intentId, intent) := by
  induction calls generalizing earlier with
  | nil => rfl
  | cons call calls ih =>
    have hrest := @ih (earlier ++ [call]) (by rwa [List.append_assoc])
    rw [final_append, final_cons, final_nil] at hrest
    rw [lives, hrest]
    cases call with
    | createIntent sender receiver token amount signature now =>
      have hopened := createIntent_final (hcreates.restrict (List.prefix_append ..))
        sender receiver token amount signature now
      rw [made, created, hopened, history, List.map_cons, outcome_intentId]
      show [(_, _)] ++ _ = _
      rw [replay_act rfl rfl]
      rfl
    | _ => rfl

/-- What is promised of a run from the empty network. -/
structure Replayed (calls : List Call) : Prop where
  /-- The network holds the history of the calls. -/
  stored : ((final step new calls).intents.entries.map fun e => (e.1, e.2)).Perm
    ((history [] calls).map fun intent => (intent.intentId, intent))
  /-- Every call has been answered from the history of those before it. -/
  answered : ∀ earlier call, earlier ++ [call] <+: calls →
    (step (final step new earlier) call).1 = answer earlier call

theorem each_fresh_made {calls : List Call} (hcreates : CreatesFit calls) :
    Each step (Replay.Fresh intents made) new calls := by
  refine (each_fresh_new hcreates).imp ?_
  intro network call hfresh id intent hmade
  obtain ⟨intent', hcreated, heq⟩ := Option.map_eq_some_iff.mp hmade
  obtain ⟨rfl, -⟩ := Prod.mk.inj heq
  rw [(intents_of_created hcreated).1]
  exact hfresh (created_eq_some_iff.mp ⟨intent', hcreated⟩)

theorem lives_new {calls : List Call} (hcreates : CreatesFit calls) :
    lives step act made new calls
      = (history [] calls).map fun intent => (intent.intentId, intent) :=
  lives_final (show CreatesFit ([] ++ calls) from hcreates)

theorem stored_final {calls : List Call} (hcreates : CreatesFit calls) :
    ((final step new calls).intents.entries.map fun e => (e.1, e.2)).Perm
      ((history [] calls).map fun intent => (intent.intentId, intent)) := by
  have hperm := entries_final_perm separate_act (each_fresh_made hcreates) rfl
  rwa [lives_new hcreates] at hperm

/-- The answer to a call, from the history of the calls before it. -/
theorem answer_final {earlier : List Call} (hearlier : CreatesFit earlier) (call : Call) :
    (step (final step new earlier) call).1 = answer earlier call := by
  have hlookup : ∀ id, (final step new earlier).intents.lookup id = recorded earlier id :=
    lookup_final_eq_find separate_act (each_fresh_made hearlier) rfl (lives_new hearlier)
  cases call with
  | createIntent sender receiver token amount signature now =>
    exact congrArg Result.created (createIntent_final hearlier ..)
  | claimIntent id claimer checkNow claimNow =>
    rw [step, claimIntent, answer, ← hlookup]
    cases (final step new earlier).intents.lookup id with
    | none => rfl
    | some intent => cases hclaimable : intent.isClaimable checkNow <;> simp [hclaimable]
  | confirmSettlement id txSignature =>
    rw [step, confirmSettlement, answer, ← hlookup]
    cases (final step new earlier).intents.lookup id with
    | none => rfl
    | some intent => by_cases hclaimed : intent.status = .claimed <;> simp [hclaimed]
  | getIntent id => exact congrArg Result.found (hlookup id)
  | expireIntents now => rfl
  | pendingCount =>
    have hcount := count_final (fun intent : PaymentIntent => intent.status == .pending)
      separate_act (each_fresh_made hearlier) rfl (lives_new hearlier)
    exact congrArg Result.count hcount

/-- Every run of fewer than `2^64 - 1` creations. -/
theorem intents_replayed {calls : List Call} (hcreates : CreatesFit calls) : Replayed calls := by
  constructor
  case stored => exact stored_final hcreates
  case answered =>
    intro earlier call hstart
    exact answer_final (hcreates.restrict ((List.prefix_append earlier [call]).trans hstart)) call

/-- A settlement confirmed twice, an intent swept before it is claimed. -/
theorem intents_replayed_claimed_and_swept :
    Replayed
      [.createIntent "alice" "bob" "SOL" 5 "sig" 0, .createIntent "alice" "carol" "SOL" 7 "sig" 1,
        .claimIntent "int_1" "relayer" 604799 604800, .confirmSettlement "int_1" "tx",
        .expireIntents 604801, .claimIntent "int_2" "carol" 604802 604802,
        .confirmSettlement "int_1" "other", .pendingCount] :=
  intents_replayed (by decide +kernel)

end IntentNetwork

end Membra
