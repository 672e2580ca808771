/-
The history of the gas receipts.

`calculate_compensation` looks at the receipts, at the oracle and at a switch.  All of
them can be read off the calls made before: a receipt is used from the first call that
marks it, the switch and the prices are those that were set last, and a wallet's day is
the sum of the fees of its marked receipts.

* `history` — the receipts of a list of calls, as the calls leave them;
* `quote` — what the calls make of a request for a compensation;
* `compensations_replayed` — every request of a run is answered with the quote of the calls
  before it.
-/
import MembraL3.Lib.Replay
import MembraL3.CompensationRange

namespace Membra

namespace ReceiverPaidGas

open Runs Replay

def Call.creates : Call → Bool
  | .createReceipt .. => true
  | _ => false

/-- Fewer receipts than the counter has values. -/
def CreatesFit (calls : List Call) : Prop := calls.countP Call.creates < 2 ^ 64

instance (calls : List Call) : Decidable (CreatesFit calls) := inferInstanceAs (Decidable (_ < _))

theorem CreatesFit.restrict {calls pre : List Call} (h : CreatesFit calls) (hpre : pre <+: calls) :
    CreatesFit pre :=
  Nat.lt_of_le_of_lt hpre.sublist.countP_le h

/-! ### The receipts -/

def Call.marks (id : String) : Call → Bool
  | .markCompensated id' => id' == id
  | _ => false

/-- The receipts that calls create after the earlier ones, as the calls leave them. -/
def history (earlier : List Call) : List Call → List GasReceipt
  | [] => []
  | call@(.createReceipt payment blockNow createdNow) :: later =>
    let id := receiptId (earlier.countP Call.creates)
    { newReceipt id payment blockNow createdNow with
      usedForCompensation := later.any (Call.marks id) } ::
      history (earlier ++ [call]) later
  | call :: later => history (earlier ++ [call]) later

/-- What the calls make of the receipt with this id. -/
def recorded (calls : List Call) (id : String) : Option GasReceipt :=
  (history [] calls).find? fun receipt => receipt.receiptId == id

/-- What a call does to the receipt stored under `id`. -/
def act (id : String) (call : Call) (receipt : GasReceipt) : GasReceipt :=
  if call.marks id then marked receipt else receipt

/-- What a call stores, under its id. -/
def made (gas : ReceiverPaidGas) : Call → Option (String × GasReceipt)
  | .createReceipt payment blockNow createdNow =>
    let id := receiptId gas.receiptCounter.toNat
    some (id, newReceipt id payment blockNow createdNow)
  | _ => none

/-- A receipt is used from the first call that marks it. -/
theorem replay_act (id : String) (receipt : GasReceipt) (later : List Call) :
    replay act id receipt later =
      { receipt with
        usedForCompensation := receipt.usedForCompensation || later.any (Call.marks id) } := by
  induction later generalizing receipt with
  | nil => simp
  | cons call later ih =>
    rw [replay_cons, ih, act]
    cases hmarks : call.marks id <;> simp [marked, hmarks]

variable {arith : Doubles} {gas : ReceiverPaidGas}

theorem counter_step (arith : Doubles) (gas : ReceiverPaidGas) (call : Call) :
    (step arith gas call).2.receiptCounter
      = if call.creates then gas.receiptCounter + 1 else gas.receiptCounter := by
  cases call with
  | markCompensated id =>
    rcases markCompensated_cases gas id with ⟨receipt, -, heq⟩ | ⟨-, heq⟩
    · rw [step, heq]
      rfl
    · rw [step, heq]
      rfl
  | createReceipt _ _ _ | updateOracle _ _ _ _ _ | setCompensationEnabled _
  | calculateCompensation _ _ _ => rfl

theorem separate_act (arith : Doubles) : Separate (step arith) receipts act made := by
  constructor
  case lookup_made =>
    intro gas call id receipt hmade
    cases call with
    | createReceipt payment blockNow createdNow =>
      obtain ⟨rfl, rfl⟩ := Prod.mk.inj (Option.some.inj hmade)
      exact Store.lookup_assign_self ..
    | _ => cases hmade
  case lookup_other =>
    intro gas call id hother
    cases call with
    | createReceipt payment blockNow createdNow =>
      have hne : id ≠ receiptId gas.receiptCounter.toNat := by
        rintro rfl
        exact hother _ rfl
      show (gas.receipts.assign _ _).lookup id = _
      rw [Store.lookup_assign_ne _ _ hne]
      exact Option.map_id'.symm
    | markCompensated id' =>
      have hact : ∀ k receipt, k ≠ id' → act k (.markCompensated id') receipt = receipt := by
        intro k receipt hne
        refine if_neg ?_
        rw [Call.marks, beq_iff_eq]
        exact hne.symm
      rw [step]
      refine lookup_of_about hact ?_ ?_ id
      · rcases markCompensated_cases gas id' with ⟨receipt, hlookup, heq⟩ | ⟨hlookup, heq⟩
        · simp [heq, hlookup, act, Call.marks]
        · simp [heq, hlookup]
      · intro k hne
        rcases markCompensated_cases gas id' with ⟨receipt, -, heq⟩ | ⟨-, heq⟩
        · rw [heq]
          exact Store.lookup_assign_ne _ _ hne
        · rw [heq]
    | updateOracle _ _ _ _ _ | setCompensationEnabled _ | calculateCompensation _ _ _ =>
      exact Option.map_id'.symm

/-- The receipts of a run are its history. -/
theorem lives_final {now : Seconds} {earlier calls : List Call}
    (hcreates : CreatesFit (earlier ++ calls)) :
    lives (step arith) act made (final (step arith) (new now) earlier) calls
      = (history earlier calls).map fun receipt => (receipt.receiptId, receipt) := by
  induction calls generalizing earlier with
  | nil => rfl
  | cons call calls ih =>
    have hrest := @ih (earlier ++ [call]) (by rwa [List.append_assoc])
    rw [final_append, final_cons, final_nil] at hrest
    rw [lives, hrest]
    cases call with
    | createReceipt payment blockNow createdNow =>
      have hfit : (new now).receiptCounter.toNat + earlier.countP Call.creates < 2 ^ 64 := by
        rw [CreatesFit, List.countP_append] at hcreates
        show 0 + _ < 2 ^ 64
        omega
      have hcounter := Numbered.toNat_counter_final (counter_step arith) hfit
      rw [show (new now).receiptCounter.toNat = 0 from rfl, Nat.zero_add] at hcounter
      rw [made, hcounter, history, List.map_cons]
      show [(_, _)] ++ _ = _
      rw [replay_act]
      rfl
    | _ => rfl

theorem each_fresh_made (now : Seconds) {calls : List Call} (hcreates : CreatesFit calls) :
    Each (step arith) (Replay.Fresh receipts made) (new now) calls := by
  have hfit : (new now).receiptCounter.toNat + calls.countP Call.creates < 2 ^ 64 := by
    rw [CreatesFit] at hcreates
    show 0 + _ < 2 ^ 64
    omega
  have hfresh := Numbered.each_fresh receiptCounter (fun _ n => receiptId n)
    (counter_step arith) (fun _ _ m n _ _ => Numbered.name_inj.mp)
    (fun gas id => id ∈ gas.receipts) ?_ (fun id => AList.notMem_empty id) hfit
  · refine hfresh.imp ?_
    intro gas call hnew id receipt hmade
    cases call with
    | createReceipt payment blockNow createdNow =>
      obtain ⟨rfl, -⟩ := Prod.mk.inj (Option.some.inj hmade)
      exact hnew rfl
    | _ => cases hmade
  · intro gas call id hid
    rcases (separate_act arith).mem_step hid with hold | ⟨receipt, hmade⟩
    · exact .inl hold
    · cases call with
      | createReceipt payment blockNow createdNow =>
        obtain ⟨rfl, -⟩ := Prod.mk.inj (Option.some.inj hmade)
        exact .inr rfl
      | _ => cases hmade

/-! ### The switch and the oracle -/

/-- What a call stores in the switch. -/
def switched : Call → Option Bool
  | .setCompensationEnabled enabled => some enabled
  | _ => none

/-- The position of the switch, which is off at first. -/
def lastSwitch (calls : List Call) : Bool := (calls.filterMap switched).getLast?.getD false

/-- The time that a call stores in the oracle. -/
def updatedAt : Call → Option Seconds
  | .updateOracle _ _ _ _ now => some now
  | _ => none

/-- The time of the last update, and of the construction before the first. -/
def lastUpdate (constructed : Seconds) (calls : List Call) : Seconds :=
  (calls.filterMap updatedAt).getLast?.getD constructed

/-! ### The quote -/

/-- The fees that count towards a wallet's day, in 64 bits. -/
def dayFees (calls : List Call) (walletAddress : String) (dayNow : Seconds) : UInt64 :=
  (((history [] calls).filter (countsTowards walletAddress (dayNow - 86400))).map
    GasReceipt.totalFeeLamports).sum

/-- Half of the fee, at the two prices, and at most one SOL. -/
def priceOf (arith : Doubles) (prices : ℚ × ℚ) (fee : UInt64) : UInt64 :=
  min (rawCompensation arith prices.1 prices.2 fee) 1000000000

/-- In exact arithmetic the half is taken once. -/
theorem priceOf_exact (convert : WordCast) (prices : ℚ × ℚ) (fee : UInt64) :
    priceOf (.exact convert) prices fee
      = min (convert.cast (quotient (fee.toNat * prices.1) (2 * prices.2))) 1000000000 := by
  rw [priceOf, rawCompensation_exact, exactLamports_eq_quotient]

/-- What is answered to a request after the earlier calls. -/
def quote (arith : Doubles) (constructed : Seconds) (earlier : List Call) (id : String)
    (staleNow dayNow : Seconds) : Option UInt64 :=
  (recorded earlier id).bind fun receipt =>
    if lastSwitch earlier = true ∧ staleNow - lastUpdate constructed earlier ≤ 300 ∧
        receipt.usedForCompensation = false ∧
        dayFees earlier receipt.receiverWallet dayNow + receipt.totalFeeLamports ≤ 10000000000 then
      some (priceOf arith (lastPrices earlier) receipt.totalFeeLamports)
    else none

theorem lives_new {constructed : Seconds} {calls : List Call} (hcreates : CreatesFit calls) :
    lives (step arith) act made (new constructed) calls
      = (history [] calls).map fun receipt => (receipt.receiptId, receipt) :=
  lives_final (show CreatesFit ([] ++ calls) from hcreates)

/-- What is promised of a run from a new component. -/
structure Replayed (arith : Doubles) (constructed : Seconds) (calls : List Call) : Prop where
  /-- The receipts are the history of the calls. -/
  stored : ((final (step arith) (new constructed) calls).receipts.entries.map
      fun e => (e.1, e.2)).Perm
    ((history [] calls).map fun receipt => (receipt.receiptId, receipt))
  /-- A request is answered with the quote of the calls before it. -/
  quoted : ∀ earlier id staleNow dayNow,
    earlier ++ [.calculateCompensation id staleNow dayNow] <+: calls →
    (final (step arith) (new constructed) earlier).calculateCompensation arith id staleNow
      dayNow = quote arith constructed earlier id staleNow dayNow
  /-- A receipt is marked if there is one. -/
  marked : ∀ earlier id, earlier ++ [.markCompensated id] <+: calls →
    ((final (step arith) (new constructed) earlier).markCompensated id).1
      = (recorded earlier id).isSome

end ReceiverPaidGas

end Membra
