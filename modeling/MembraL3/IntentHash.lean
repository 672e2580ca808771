/-
What the hash of an intent binds.

`intent_hash` hashes eight printed fields with nothing in between.  From behind, the
decimal points show where the times are, so nonce, expiry and the decimals of the
creation time can be read off; the fields in front of them run together.

* `payload_eq_iff` — when two intents are hashed from one text;
* `samePayment_iff` — when they are then one payment;
* `bindsPayment_iff` — the pairs of intents for which the hash binds the payment.
-/
import MembraL3.IntentNetwork

namespace Membra

namespace PaymentIntent

/-- The same payment: all terms but the id, the times as they are printed. -/
structure SamePayment (intent intent' : PaymentIntent) : Prop where
  senderAddress : intent.senderAddress = intent'.senderAddress
  receiverAddress : intent.receiverAddress = intent'.receiverAddress
  tokenSymbol : intent.tokenSymbol = intent'.tokenSymbol
  amount : intent.amount = intent'.amount
  createdAt : microsecond intent.createdAt = microsecond intent'.createdAt
  expiresAt : microsecond intent.expiresAt = microsecond intent'.expiresAt
  nonce : intent.nonce = intent'.nonce

/-- Two intents with one hash are the same payment, or two different strings have been
hashed. -/
def BindsPayment (sha256 : Sha256) (intent intent' : PaymentIntent) : Prop :=
  intent.intentHash sha256 = intent'.intentHash sha256 →
    SamePayment intent intent' ∨ intent.payload ≠ intent'.payload

/-- The texts in front of the first decimal point. -/
def leading (intent : PaymentIntent) : List String :=
  [intent.intentId, intent.senderAddress, intent.receiverAddress, intent.tokenSymbol,
    toString intent.amount.toNat, wholePart (microsecond intent.createdAt)]

/-- What stands behind it is the same. -/
structure SameEnd (intent intent' : PaymentIntent) : Prop where
  createdAt : decimals (microsecond intent.createdAt) = decimals (microsecond intent'.createdAt)
  expiresAt : microsecond intent.expiresAt = microsecond intent'.expiresAt
  nonce : intent.nonce = intent'.nonce

/-- The leading texts of the two make one text, cut at different places. -/
structure RunTogether (intent intent' : PaymentIntent) : Prop where
  sameEnd : SameEnd intent intent'
  text : String.join (leading intent) = String.join (leading intent')
  cuts : (leading intent).map String.length ≠ (leading intent').map String.length

variable {intent intent' : PaymentIntent}

theorem payload_eq (intent : PaymentIntent) :
    intent.payload = intent.intentId ++ intent.senderAddress ++ intent.receiverAddress ++
      intent.tokenSymbol ++ toString intent.amount.toNat ++
      printed (microsecond intent.createdAt) ++ printed (microsecond intent.expiresAt) ++
      toString intent.nonce.toNat := by
  rw [payload, toStringDouble_eq, toStringDouble_eq]

theorem join_leading (intent : PaymentIntent) :
    String.join (leading intent) = intent.intentId ++ intent.senderAddress ++
      intent.receiverAddress ++ intent.tokenSymbol ++ toString intent.amount.toNat ++
      wholePart (microsecond intent.createdAt) := by
  simp [leading, String.join]

/-- Two intents are hashed from one text iff their leading texts make one text and they
have the same end. -/
theorem payload_eq_iff :
    intent.payload = intent'.payload ↔
      String.join (leading intent) = String.join (leading intent') ∧ SameEnd intent intent' := by
  -- from behind: the nonce and the decimals of the expiry, then those of the creation
  rw [payload_eq, payload_eq,
    append_printed_inj (dot_notMem_toString _) (dot_notMem_toString _),
    append_printed_inj (dot_notMem_wholePart _) (dot_notMem_wholePart _), join_leading,
    join_leading, Printed.toString_nat_inj, UInt64.toNat_inj]
  constructor
  · rintro ⟨⟨htext, hcreated, hwhole⟩, hdecimals, hnonce⟩
    exact ⟨htext, hcreated, parts_inj.mp ⟨hwhole, hdecimals⟩, hnonce⟩
  · rintro ⟨htext, hcreated, hexpires, hnonce⟩
    obtain ⟨hwhole, hdecimals⟩ := parts_inj.mpr hexpires
    exact ⟨⟨htext, hcreated, hwhole⟩, hdecimals, hnonce⟩

/-- Intents of one text are the same payment iff their leading texts are the same. -/
theorem samePayment_iff (htext : String.join (leading intent) = String.join (leading intent'))
    (hend : SameEnd intent intent') :
    SamePayment intent intent' ↔ leading intent = leading intent' := by
  constructor
  · intro hsame
    -- the id is what is left of the text
    rw [join_leading, join_leading, hsame.senderAddress, hsame.receiverAddress,
      hsame.tokenSymbol, hsame.amount, hsame.createdAt] at htext
    have hid : intent.intentId = intent'.intentId := by
      simpa only [String.append_left_inj] using htext
    rw [leading, leading, hid, hsame.senderAddress, hsame.receiverAddress, hsame.tokenSymbol,
      hsame.amount, hsame.createdAt]
  · intro hleading
    simp only [leading, List.cons.injEq, and_true] at hleading
    obtain ⟨_, hsender, hreceiver, htoken, hamount, hwhole⟩ := hleading
    exact ⟨hsender, hreceiver, htoken, UInt64.toNat_inj.mp (Printed.toString_nat_inj.mp hamount),
      parts_inj.mp ⟨hwhole, hend.createdAt⟩, hend.expiresAt, hend.nonce⟩

theorem bindsPayment_iff_of_payload {sha256 : Sha256} :
    BindsPayment sha256 intent intent' ↔
      (intent.payload = intent'.payload → SamePayment intent intent') :=
  @Codes.binds_iff _ _ (hashToHex sha256) _ _ _

/-- The hash binds the payment of all pairs of intents but those whose leading texts run
together. -/
theorem bindsPayment_iff (sha256 : Sha256) (intent intent' : PaymentIntent) :
    BindsPayment sha256 intent intent' ↔ ¬ RunTogether intent intent' := by
  rw [bindsPayment_iff_of_payload, payload_eq_iff]
  constructor
  · rintro hbinds ⟨hend, htext, hcuts⟩
    have hleading := (samePayment_iff htext hend).mp (hbinds ⟨htext, hend⟩)
    exact hcuts (by rw [hleading])
  · rintro hapart ⟨htext, hend⟩
    have hcuts := not_not.mp fun hcuts => hapart ⟨hend, htext, hcuts⟩
    exact (samePayment_iff htext hend).mpr ((Codes.join_inj_of_lengths hcuts).mp htext)

/-- An intent created at the first second. -/
def firstIntent (sender receiver : String) : PaymentIntent :=
  (IntentNetwork.new.createIntent sender receiver "SOL" 5 "sig" 0).1

theorem not_forall_bindsPayment :
    ¬ ∃ sha256 : Sha256, ∀ intent intent', BindsPayment sha256 intent intent' := by
  rintro ⟨sha256, hall⟩
  have htext : (firstIntent "alice" "bob").payload = (firstIntent "aliceb" "ob").payload := by
    decide +kernel
  have hsame := bindsPayment_iff_of_payload.mp (hall _ _) htext
  exact absurd hsame.senderAddress (by decide)

end PaymentIntent

end Membra
