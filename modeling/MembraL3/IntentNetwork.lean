/-
The intent network.

`IntentNetwork` stores payment intents under ids printed from a counter, and keeps
the next nonce of each sender.  `step` performs one public operation; the clock
readings it takes are arguments of the call.  `claim_intent` reads the clock twice,
once for the expiry check and once for the time stamp.

* `Moves` — the four things a call can do to a stored intent;
* `evolves_step` — every stored intent stays stored and makes a move;
* `lookup_of_step` — a stored intent was stored before or has just been created;
* `each_fresh_new` — no run creates an intent under an id that is taken;
* `evolves_final` — what a run leaves of the stored intents.
-/
import MembraL3.Lib.Numbered
import MembraL3.Crypto
import MembraL3.Clock
import Mathlib.Algebra.Order.Ring.Rat

namespace Membra

inductive IntentStatus where
  | pending
  | claimed
  | expired
  | cancelled
  deriving DecidableEq

structure PaymentIntent where
  intentId : String
  senderAddress : String
  receiverAddress : String
  tokenSymbol : String
  amount : UInt64
  createdAt : Seconds
  expiresAt : Seconds
  nonce : UInt64
  senderSignature : String
  status : IntentStatus := .pending
  claimedAt : Seconds := 0
  settlementTx : String := ""
  deriving DecidableEq

namespace PaymentIntent

def isExpired (intent : PaymentIntent) (now : Seconds) : Bool := decide (intent.expiresAt ≤ now)

def isClaimable (intent : PaymentIntent) (now : Seconds) : Bool :=
  intent.status == .pending && !intent.isExpired now

/-- What `intent_hash` hashes. -/
def payload (intent : PaymentIntent) : String :=
  intent.intentId ++ intent.senderAddress ++ intent.receiverAddress ++ intent.tokenSymbol ++
    toString intent.amount.toNat ++ toStringDouble intent.createdAt ++
    toStringDouble intent.expiresAt ++ toString intent.nonce.toNat

def intentHash (sha256 : Sha256) (intent : PaymentIntent) : String :=
  hashToHex sha256 intent.payload

end PaymentIntent

/-- The claim window of seven days. -/
def claimWindowSeconds : Seconds := 604800

structure IntentNetwork where
  intents : Store String PaymentIntent
  userNonces : Store String UInt64
  intentCounter : UInt64

namespace IntentNetwork

def new : IntentNetwork := ⟨∅, ∅, 1⟩

/-- The id `generate_intent_id` prints for a value of the counter. -/
def intentId (n : ℕ) : String := Numbered.name "int_" n

def createIntent (network : IntentNetwork) (sender receiver token : String) (amount : UInt64)
    (signature : String) (now : Seconds) : PaymentIntent × IntentNetwork :=
  let nonce := (network.userNonces.lookup sender).getD 0
  let intent : PaymentIntent :=
    { intentId := intentId network.intentCounter.toNat
      senderAddress := sender
      receiverAddress := receiver
      tokenSymbol := token
      amount := amount
      createdAt := now
      expiresAt := now + claimWindowSeconds
      nonce := nonce
      senderSignature := signature
      status := .pending }
  (intent,
    { intents := network.intents.assign intent.intentId intent
      userNonces := network.userNonces.assign sender (nonce + 1)
      intentCounter := network.intentCounter + 1 })

/-- A write through the reference to the intent stored under an id. -/
def write (network : IntentNetwork) (intentId : String) (intent : PaymentIntent) : IntentNetwork :=
  { network with intents := network.intents.assign intentId intent }

/-- Anyone may claim: the claimer is not looked at. -/
def claimIntent (network : IntentNetwork) (intentId _claimer : String)
    (checkNow claimNow : Seconds) : Option PaymentIntent × IntentNetwork :=
  match network.intents.lookup intentId with
  | none => (none, network)
  | some intent =>
    if !intent.isClaimable checkNow then (none, network)
    else
      let intent := { intent with status := .claimed, claimedAt := claimNow }
      (some intent, network.write intentId intent)

def confirmSettlement (network : IntentNetwork) (intentId txSignature : String) :
    Bool × IntentNetwork :=
  match network.intents.lookup intentId with
  | none => (false, network)
  | some intent =>
    if intent.status ≠ .claimed then (false, network)
    else
      let intent := { intent with settlementTx := txSignature }
      (true, network.write intentId intent)

def getIntent (network : IntentNetwork) (intentId : String) : Option PaymentIntent :=
  network.intents.lookup intentId

/-- The body of the loop of `expire_intents`. -/
def expire (now : Seconds) (intent : PaymentIntent) : PaymentIntent :=
  if intent.status = .pending ∧ intent.expiresAt ≤ now then { intent with status := .expired }
  else intent

def expireIntents (network : IntentNetwork) (now : Seconds) : IntentNetwork :=
  { network with intents := network.intents.map (expire now) }

def pendingCount (network : IntentNetwork) : ℕ :=
  network.intents.count fun intent => intent.status == .pending

/-! ### Runs -/

inductive Call where
  | createIntent (sender receiver token : String) (amount : UInt64) (signature : String)
      (now : Seconds)
  | claimIntent (intentId claimer : String) (checkNow claimNow : Seconds)
  | confirmSettlement (intentId txSignature : String)
  | getIntent (intentId : String)
  | expireIntents (now : Seconds)
  | pendingCount

inductive Result where
  | created (intent : PaymentIntent)
  | claimed (intent : Option PaymentIntent)
  | confirmed (ok : Bool)
  | found (intent : Option PaymentIntent)
  | swept
  | count (n : ℕ)

def step (network : IntentNetwork) : Call → Result × IntentNetwork
  | .createIntent sender receiver token amount signature now =>
    let (intent, network) := network.createIntent sender receiver token amount signature now
    (.created intent, network)
  | .claimIntent id claimer checkNow claimNow =>
    let (intent, network) := network.claimIntent id claimer checkNow claimNow
    (.claimed intent, network)
  | .confirmSettlement id txSignature =>
    let (ok, network) := network.confirmSettlement id txSignature
    (.confirmed ok, network)
  | .getIntent id => (.found (network.getIntent id), network)
  | .expireIntents now => (.swept, network.expireIntents now)
  | .pendingCount => (.count network.pendingCount, network)

/-- The clock readings of a call, in order. -/
def Call.readings : Call → List Seconds
  | .createIntent _ _ _ _ _ now => [now]
  | .claimIntent _ _ checkNow claimNow => [checkNow, claimNow]
  | .confirmSettlement .. => []
  | .getIntent _ => []
  | .expireIntents now => [now]
  | .pendingCount => []

def Call.creates : Call → Bool
  | .createIntent .. => true
  | _ => false

/-- The intent that a call creates. -/
def created (network : IntentNetwork) : Call → Option PaymentIntent
  | .createIntent sender receiver token amount signature now =>
    some (network.createIntent sender receiver token amount signature now).1
  | _ => none

theorem counter_step (network : IntentNetwork) (call : Call) :
    (step network call).2.intentCounter
      = if call.creates then network.intentCounter + 1 else network.intentCounter := by
  cases call with
  | createIntent sender receiver token amount signature now => rfl
  | claimIntent id claimer checkNow claimNow =>
    simp only [step, claimIntent]
    split
    · rfl
    · split <;> rfl
  | confirmSettlement id txSignature =>
    simp only [step, confirmSettlement]
    split
    · rfl
    · split <;> rfl
  | getIntent id => rfl
  | expireIntents now => rfl
  | pendingCount => rfl

/-! ### What a call does to an intent -/

/-- What one call can do to the intent stored under `id`. -/
inductive Moves (id : String) : Call → PaymentIntent → PaymentIntent → Prop
  | kept (call : Call) (intent : PaymentIntent) : Moves id call intent intent
  | claimed (claimer : String) (checkNow claimNow : Seconds) (intent : PaymentIntent)
      (hpending : intent.status = .pending) (hopen : checkNow < intent.expiresAt) :
      Moves id (.claimIntent id claimer checkNow claimNow) intent
        { intent with status := .claimed, claimedAt := claimNow }
  | confirmed (txSignature : String) (intent : PaymentIntent)
      (hclaimed : intent.status = .claimed) :
      Moves id (.confirmSettlement id txSignature) intent
        { intent with settlementTx := txSignature }
  | expired (now : Seconds) (intent : PaymentIntent) (hpending : intent.status = .pending)
      (hover : intent.expiresAt ≤ now) :
      Moves id (.expireIntents now) intent { intent with status := .expired }

theorem isClaimable_iff {intent : PaymentIntent} {now : Seconds} :
    intent.isClaimable now = true ↔ intent.status = .pending ∧ now < intent.expiresAt := by
  simp [PaymentIntent.isClaimable, PaymentIntent.isExpired]

theorem expire_moves (id : String) (now : Seconds) (intent : PaymentIntent) :
    Moves id (.expireIntents now) intent (expire now intent) := by
  rw [expire]
  by_cases h : intent.status = .pending ∧ intent.expiresAt ≤ now
  · rw [if_pos h]
    exact .expired now intent h.1 h.2
  · rw [if_neg h]
    exact .kept _ intent

variable {network : IntentNetwork} {id : String} {intent : PaymentIntent}

/-- A claim succeeds on an intent that can be claimed, and on no other. -/
theorem claimIntent_cases (network : IntentNetwork) (id claimer : String)
    (checkNow claimNow : Seconds) :
    (∃ intent, network.intents.lookup id = some intent ∧ intent.status = .pending ∧
      checkNow < intent.expiresAt ∧
      network.claimIntent id claimer checkNow claimNow
        = (some { intent with status := .claimed, claimedAt := claimNow },
          network.write id { intent with status := .claimed, claimedAt := claimNow })) ∨
    network.claimIntent id claimer checkNow claimNow = (none, network) := by
  rw [claimIntent]
  cases hlookup : network.intents.lookup id with
  | none => exact .inr rfl
  | some intent =>
    by_cases hclaimable : intent.isClaimable checkNow = true
    · obtain ⟨hpending, hopen⟩ := isClaimable_iff.mp hclaimable
      refine .inl ⟨intent, rfl, hpending, hopen, ?_⟩
      simp [hclaimable]
    · refine .inr ?_
      simp [hclaimable]

/-- A confirmation is accepted for a claimed intent, and for no other. -/
theorem confirmSettlement_cases (network : IntentNetwork) (id txSignature : String) :
    (∃ intent, network.intents.lookup id = some intent ∧ intent.status = .claimed ∧
      network.confirmSettlement id txSignature
        = (true, network.write id { intent with settlementTx := txSignature })) ∨
    network.confirmSettlement id txSignature = (false, network) := by
  rw [confirmSettlement]
  cases hlookup : network.intents.lookup id with
  | none => exact .inr rfl
  | some intent =>
    by_cases hclaimed : intent.status = .claimed
    · refine .inl ⟨intent, rfl, hclaimed, ?_⟩
      simp [hclaimed]
    · refine .inr ?_
      simp [hclaimed]

/-- The id a call creates an intent under is not stored. -/
def Fresh (network : IntentNetwork) (call : Call) : Prop :=
  call.creates = true → intentId network.intentCounter.toNat ∉ network.intents

theorem keys_write {old moved : PaymentIntent} (hold : network.intents.lookup id = some old) :
    (network.write id moved).intents.keys = network.intents.keys :=
  Store.keys_assign_of_mem _ (Store.mem_of_lookup hold)

/-- Only the creation of an intent changes which ids are stored. -/
theorem keys_step {call : Call} (hcall : call.creates = false) :
    (step network call).2.intents.keys = network.intents.keys := by
  cases call with
  | createIntent sender receiver token amount signature now => cases hcall
  | claimIntent id claimer checkNow claimNow =>
    rcases claimIntent_cases network id claimer checkNow claimNow with
      ⟨intent, hlookup, -, -, heq⟩ | heq
    · simp only [step, heq]
      exact keys_write hlookup
    · simp only [step, heq]
  | confirmSettlement id txSignature =>
    rcases confirmSettlement_cases network id txSignature with ⟨intent, hlookup, -, heq⟩ | heq
    · simp only [step, heq]
      exact keys_write hlookup
    · simp only [step, heq]
  | getIntent id => rfl
  | expireIntents now => exact Store.keys_map ..
  | pendingCount => rfl

theorem mem_step {call : Call} (hcall : call.creates = false) :
    id ∈ (step network call).2.intents ↔ id ∈ network.intents := by
  rw [AList.mem_keys, keys_step hcall, ← AList.mem_keys]

theorem created_eq_some_iff {call : Call} :
    (∃ intent, created network call = some intent) ↔ call.creates = true := by
  cases call <;> simp [created, Call.creates]

/-- A creation stores the intent it returns under its id. -/
theorem intents_of_created {call : Call} (hcreated : created network call = some intent) :
    intent.intentId = intentId network.intentCounter.toNat ∧
      (step network call).2.intents = network.intents.assign intent.intentId intent := by
  cases call with
  | createIntent sender receiver token amount signature now =>
    obtain rfl := Option.some.inj hcreated
    exact ⟨rfl, rfl⟩
  | _ => cases hcreated

/-- Every stored intent stays stored and makes a move. -/
theorem evolves_step {call : Call} (hfresh : Fresh network call) :
    Store.Evolves (fun id => Moves id call) network.intents (step network call).2.intents := by
  have hkept : ∀ id intent, Moves id call intent intent := fun id intent => .kept call intent
  cases call with
  | createIntent sender receiver token amount signature now =>
    exact Store.evolves_assign_new hkept _ (hfresh rfl)
  | claimIntent id claimer checkNow claimNow =>
    rcases claimIntent_cases network id claimer checkNow claimNow with
      ⟨intent, hlookup, hpending, hopen, heq⟩ | heq
    · simp only [step, heq]
      exact Store.evolves_assign hkept hlookup
        (.claimed claimer checkNow claimNow intent hpending hopen)
    · simp only [step, heq]
      exact .refl hkept _
  | confirmSettlement id txSignature =>
    rcases confirmSettlement_cases network id txSignature with
      ⟨intent, hlookup, hclaimed, heq⟩ | heq
    · simp only [step, heq]
      exact Store.evolves_assign hkept hlookup (.confirmed txSignature intent hclaimed)
    · simp only [step, heq]
      exact .refl hkept _
  | getIntent id => exact .refl hkept _
  | expireIntents now => exact Store.evolves_map fun id intent => expire_moves id now intent
  | pendingCount => exact .refl hkept _

theorem fresh_of_not_creates {call : Call} (h : call.creates = false) : Fresh network call := by
  intro hcreates
  rw [h] at hcreates
  cases hcreates

/-- A stored intent was stored before, or has just been created. -/
theorem lookup_of_step {call : Call} {intent' : PaymentIntent}
    (hlookup : (step network call).2.intents.lookup id = some intent') :
    (∃ intent, network.intents.lookup id = some intent ∧ Moves id call intent intent') ∨
      (created network call = some intent' ∧ id = intent'.intentId) := by
  cases hcreates : call.creates with
  | true =>
    obtain ⟨made, hmade⟩ := created_eq_some_iff.mpr hcreates
    rw [(intents_of_created hmade).2] at hlookup
    rcases Store.of_lookup_assign hlookup with ⟨hid, rfl⟩ | hold
    · exact .inr ⟨hmade, hid⟩
    · exact .inl ⟨intent', hold, .kept call intent'⟩
  | false =>
    cases hbefore : network.intents.lookup id with
    | some intent =>
      obtain ⟨moved, hmoved, hmoves⟩ :=
        evolves_step (fresh_of_not_creates hcreates) id intent hbefore
      obtain rfl : moved = intent' := Option.some.inj (hmoved.symm.trans hlookup)
      exact .inl ⟨intent, rfl, hmoves⟩
    | none =>
      -- nothing else stores under a new id
      have hmem := (mem_step hcreates).mp (Store.mem_of_lookup hlookup)
      exact absurd hmem (AList.lookup_eq_none.mp hbefore)

/-! ### Runs of fewer than 2^64 creations -/

/-- The bound on the number of creations of a run. -/
def CreatesFit (calls : List Call) : Prop := calls.countP Call.creates < 2 ^ 64 - 1

instance (calls : List Call) : Decidable (CreatesFit calls) := inferInstanceAs (Decidable (_ < _))

theorem CreatesFit.restrict {calls pre : List Call} (h : CreatesFit calls) (hpre : pre <+: calls) :
    CreatesFit pre :=
  Nat.lt_of_le_of_lt (hpre.sublist.countP_le) h

/-- What the counter issues is what is created. -/
theorem issued_eq (e : Runs.Event IntentNetwork Call Result) :
    Numbered.issued intentCounter Call.creates (fun _ n => intentId n) e
      = (created e.before e.call).map PaymentIntent.intentId := by
  obtain ⟨network, call, -, -⟩ := e
  cases call <;> rfl

theorem each_fresh_new {calls : List Call} (hcreates : CreatesFit calls) :
    Runs.Each step Fresh new calls := by
  refine Numbered.each_fresh intentCounter (fun _ n => intentId n) counter_step
    (fun _ _ m n _ _ => Numbered.name_inj.mp) (fun network id => id ∈ network.intents) ?_
    (fun id hid => ?_) ?_
  · intro network call id hid
    rw [issued_eq, Runs.event_before, Runs.event_call]
    cases hcall : call.creates with
    | false =>
      exact .inl ((mem_step hcall).mp hid)
    | true =>
      obtain ⟨made, hmade⟩ := created_eq_some_iff.mpr hcall
      rw [(intents_of_created hmade).2, Store.mem_assign] at hid
      rcases hid with rfl | hid
      · exact .inr (by rw [hmade]; rfl)
      · exact .inl hid
  · exact absurd hid (AList.notMem_empty id)
  · have hone : new.intentCounter.toNat = 1 := rfl
    rw [CreatesFit] at hcreates
    omega

/-! ### What a run leaves of an intent -/

/-- Everything about an intent that is agreed on when it is created. -/
def terms (intent : PaymentIntent) :
    String × String × String × String × UInt64 × Seconds × Seconds × UInt64 × String :=
  (intent.intentId, intent.senderAddress, intent.receiverAddress, intent.tokenSymbol,
    intent.amount, intent.createdAt, intent.expiresAt, intent.nonce, intent.senderSignature)

/-- The terms are the same; the status is, or has left `PENDING`. -/
structure Progress (intent intent' : PaymentIntent) : Prop where
  terms_eq : terms intent' = terms intent
  status_eq : intent'.status = intent.status ∨
    intent.status = .pending ∧ (intent'.status = .claimed ∨ intent'.status = .expired)

theorem Progress.refl (intent : PaymentIntent) : Progress intent intent := ⟨rfl, .inl rfl⟩

theorem Progress.trans {i j k : PaymentIntent} (hij : Progress i j) (hjk : Progress j k) :
    Progress i k := by
  refine ⟨hjk.terms_eq.trans hij.terms_eq, ?_⟩
  rcases hij.status_eq with hsame | ⟨hpending, hleft⟩
  · rw [← hsame]
    exact hjk.status_eq
  · rcases hjk.status_eq with hsame | ⟨hagain, -⟩
    · rw [hsame]
      exact .inr ⟨hpending, hleft⟩
    · rw [hagain] at hleft
      simp at hleft

theorem Moves.progress {call : Call} {intent' : PaymentIntent} (h : Moves id call intent intent') :
    Progress intent intent' := by
  cases h with
  | kept => exact .refl intent
  | claimed claimer checkNow claimNow intent hpending hopen =>
    exact ⟨rfl, .inr ⟨hpending, .inl rfl⟩⟩
  | confirmed txSignature intent hclaimed => exact ⟨rfl, .inl rfl⟩
  | expired now intent hpending hover => exact ⟨rfl, .inr ⟨hpending, .inr rfl⟩⟩

/-- Every stored intent stays stored through a run and makes progress. -/
theorem evolves_final {calls : List Call} (hfresh : Runs.Each step Fresh network calls) :
    Store.Evolves (fun _ => Progress) network.intents
      (Runs.final step network calls).intents := by
  refine Runs.final_rel (R := fun s t => Store.Evolves (fun _ => Progress) s.intents t.intents)
    (fun s => .refl (fun _ => .refl) _) ?_ ?_ hfresh
  · intro s t u hst htu
    exact hst.trans (fun _ _ _ _ => .trans) htu
  · intro s call hcall
    exact (evolves_step hcall).imp fun _ _ _ hmoves => hmoves.progress

end IntentNetwork

end Membra
