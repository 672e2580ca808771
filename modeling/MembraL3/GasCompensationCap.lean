/-
The cap per wallet and day.

`calculate_compensation` compares fees with the cap, those of the used receipts that
were created in the last day plus the new one, in 64 bits; what is paid is a converted
amount.  A `CompensationBook` is the ledger with a record of what has been paid, by
clients that mark a receipt right after they were told that they can.

* `compensation_le_fee` — when a compensation is at most the fee it is charged as;
* `wellBooked_step` — a covered step keeps the record in agreement with the ledger;
* `walletCapped_of_covered` — the cap holds in all windows of 24 hours if every
  compensation is covered by its fee and by the fees that the check adds up.
-/
import MembraL3.ReceiverPaidGas
import MembraL3.Lib.Runs
import MembraL3.Lib.Words
import MembraL3.Lib.Windows
import Mathlib.Tactic.FieldSimp
import Mathlib.Tactic.Linarith

namespace Membra

/-- A compensation: the receipt as it was found, what was paid for it and when it was
marked. -/
structure Compensated where
  receiptId : String
  receipt : GasReceipt
  amount : UInt64
  markedAt : Seconds

namespace Compensated

def fee (paid : Compensated) : ℕ := paid.receipt.totalFeeLamports.toNat

end Compensated

structure CompensationBook where
  gas : ReceiverPaidGas
  payments : List Compensated

namespace CompensationBook

open Runs ReceiverPaidGas

def new (now : Seconds) : CompensationBook := ⟨.new now, []⟩

inductive Call where
  | createReceipt (payment : GasPayment) (blockNow createdNow : Seconds)
  | updateOracle (gasTwap priorityFeeTwap : UInt64) (solUsd membraUsd : ℚ) (now : Seconds)
  | setCompensationEnabled (enabled : Bool)
  | calculate (receiptId : String) (staleNow dayNow : Seconds)
  | compensate (receiptId : String) (staleNow dayNow markedNow : Seconds)

inductive Result where
  | created (receiptId : String)
  | updated
  | set
  | price (compensation : Option UInt64)

/-- `compensate` is `calculate_compensation`, and `mark_compensated` right after it if it
is allowed. -/
def step (arith : Doubles) (book : CompensationBook) : Call → Result × CompensationBook
  | .createReceipt payment blockNow createdNow =>
    let (id, gas) := book.gas.createReceipt payment blockNow createdNow
    (.created id, { book with gas := gas })
  | .updateOracle gasTwap priorityFeeTwap solUsd membraUsd now =>
    (.updated,
      { book with gas := book.gas.updateOracle gasTwap priorityFeeTwap solUsd membraUsd now })
  | .setCompensationEnabled enabled =>
    (.set, { book with gas := book.gas.setCompensationEnabled enabled })
  | .calculate id staleNow dayNow =>
    (.price (book.gas.calculateCompensation arith id staleNow dayNow), book)
  | .compensate id staleNow dayNow markedNow =>
    match book.gas.calculateCompensation arith id staleNow dayNow,
      book.gas.receipts.lookup id with
    | some amount, some receipt =>
      (.price (some amount),
        { gas := (book.gas.markCompensated id).2
          payments := ⟨id, receipt, amount, markedNow⟩ :: book.payments })
    | _, _ => (.price none, book)

/-! ### The cap -/

/-- The payments for receipts of a wallet. -/
def paymentsOf (book : CompensationBook) (walletAddress : String) : List Compensated :=
  book.payments.filter fun paid => paid.receipt.receiverWallet = walletAddress

/-- No wallet has been paid more than the cap in any 24 hours. -/
def WalletCapped (book : CompensationBook) : Prop :=
  ∀ walletAddress start,
    Windows.sum Compensated.markedAt (fun paid => paid.amount.toNat) 86400 start
        (book.paymentsOf walletAddress)
      ≤ book.gas.maxCompensationPerWalletPerDay.toNat

variable {convert : WordCast} {gas : ReceiverPaidGas} {book : CompensationBook} {call : Call}
  {receipt : GasReceipt} {id walletAddress : String} {staleNow dayNow markedNow : Seconds}

/-- The prices of an oracle update are positive. -/
def PositivePrices : Call → Prop
  | .updateOracle _ _ solUsd membraUsd _ => 0 < solUsd ∧ 0 < membraUsd
  | _ => True

/-- The fees that count towards a wallet's day, as an unbounded sum. -/
def dailyFees (gas : ReceiverPaidGas) (walletAddress : String) (now : Seconds) : ℕ :=
  Store.total (fun receipt =>
    if countsTowards walletAddress (now - 86400) receipt then receipt.totalFeeLamports.toNat else 0)
    gas.receipts

/-- The checks that `calculate_compensation` makes of a receipt. -/
structure Passes (gas : ReceiverPaidGas) (receipt : GasReceipt) (staleNow dayNow : Seconds) :
    Prop where
  enabled : gas.compensationEnabled = true
  notStale : gas.oracleState.isStale staleNow = false
  unused : receipt.usedForCompensation = false
  fits : gas.getWalletDailyCompensation receipt.receiverWallet dayNow + receipt.totalFeeLamports
    ≤ gas.maxCompensationPerWalletPerDay

/-- Half of the fee is worth less than one lamport more of tokens, or the fee is not
below the cap of a transaction; what the wallet was paid for within a day of the marking
was created in the day that counts; and the sum of the fees is not wrapped. -/
structure Covers (book : CompensationBook) (receipt : GasReceipt) (dayNow markedNow : Seconds) :
    Prop where
  worth : receipt.totalFeeLamports.toNat * book.gas.oracleState.solUsdTwap
      < (receipt.totalFeeLamports.toNat + 1) * (2 * book.gas.oracleState.membraUsdTwap) ∨
    book.gas.maxCompensationPerTx ≤ receipt.totalFeeLamports
  dated : ∀ paid ∈ Windows.near Compensated.markedAt 86400 markedNow
      (book.paymentsOf receipt.receiverWallet), dayNow - 86400 ≤ paid.receipt.createdAt
  exact : dailyFees book.gas receipt.receiverWallet dayNow + receipt.totalFeeLamports.toNat < 2 ^ 64

/-- A receipt that passes the checks is covered, and no used receipt is overwritten. -/
def Covered (book : CompensationBook) : Call → Prop
  | .createReceipt _ _ _ =>
    ∀ receipt ∈ book.gas.receipts.lookup (receiptId book.gas.receiptCounter.toNat),
      receipt.usedForCompensation = false
  | .compensate id staleNow dayNow markedNow =>
    ∀ receipt ∈ book.gas.receipts.lookup id,
      Passes book.gas receipt staleNow dayNow → Covers book receipt dayNow markedNow
  | _ => True

instance : Decidable (Passes gas receipt staleNow dayNow) :=
  decidable_of_iff
    (gas.compensationEnabled = true ∧ gas.oracleState.isStale staleNow = false ∧
      receipt.usedForCompensation = false ∧
      gas.getWalletDailyCompensation receipt.receiverWallet dayNow + receipt.totalFeeLamports
        ≤ gas.maxCompensationPerWalletPerDay)
    ⟨fun ⟨hon, hnew, hfree, hfits⟩ => ⟨hon, hnew, hfree, hfits⟩,
      fun h => ⟨h.enabled, h.notStale, h.unused, h.fits⟩⟩

instance : Decidable (Covers book receipt dayNow markedNow) :=
  decidable_of_iff
    ((receipt.totalFeeLamports.toNat * book.gas.oracleState.solUsdTwap
        < (receipt.totalFeeLamports.toNat + 1) * (2 * book.gas.oracleState.membraUsdTwap) ∨
      book.gas.maxCompensationPerTx ≤ receipt.totalFeeLamports) ∧
      (∀ paid ∈ Windows.near Compensated.markedAt 86400 markedNow
        (book.paymentsOf receipt.receiverWallet), dayNow - 86400 ≤ paid.receipt.createdAt) ∧
      dailyFees book.gas receipt.receiverWallet dayNow + receipt.totalFeeLamports.toNat < 2 ^ 64)
    ⟨fun ⟨hworth, hdated, hexact⟩ => ⟨hworth, hdated, hexact⟩,
      fun h => ⟨h.worth, h.dated, h.exact⟩⟩

instance : Decidable (Covered book call) :=
  match call with
  | .createReceipt _ _ _ => inferInstanceAs (Decidable
      (∀ receipt ∈ book.gas.receipts.lookup (receiptId book.gas.receiptCounter.toNat),
        receipt.usedForCompensation = false))
  | .compensate id staleNow dayNow markedNow => inferInstanceAs (Decidable
      (∀ receipt ∈ book.gas.receipts.lookup id,
        Passes book.gas receipt staleNow dayNow → Covers book receipt dayNow markedNow))
  | .updateOracle .. | .setCompensationEnabled _ | .calculate .. => instDecidableTrue

instance : Decidable (PositivePrices call) :=
  match call with
  | .updateOracle _ _ solUsd membraUsd _ => inferInstanceAs (Decidable (0 < solUsd ∧ 0 < membraUsd))
  | .createReceipt .. | .setCompensationEnabled _ | .calculate .. | .compensate .. =>
    instDecidableTrue

/-! ### What is charged for a compensation -/

theorem toNat_getWalletDailyCompensation {now : Seconds}
    (h : dailyFees gas walletAddress now < 2 ^ 64) :
    (gas.getWalletDailyCompensation walletAddress now).toNat = dailyFees gas walletAddress now :=
  Words.toNat_total_if_of_lt h

theorem exactLamports_eq {sol membra : ℚ} (hmembra : membra ≠ 0) (fee : UInt64) :
    exactLamports sol membra fee = .number (fee.toNat * sol / (2 * membra)) := by
  rw [exactLamports_eq_quotient, quotient_of_ne _ (mul_ne_zero two_ne_zero hmembra)]

theorem compensation_le_fee (hsol : 0 < gas.oracleState.solUsdTwap)
    (hmembra : 0 < gas.oracleState.membraUsdTwap) {fee : UInt64}
    (hworth : fee.toNat * gas.oracleState.solUsdTwap
        < (fee.toNat + 1) * (2 * gas.oracleState.membraUsdTwap) ∨
      gas.maxCompensationPerTx ≤ fee) :
    gas.compensation (.exact convert) fee ≤ fee := by
  rw [compensation, rawCompensation_exact]
  rcases hworth with hworth | hcap
  · refine UInt64.le_trans Std.min_le_left ?_
    rw [exactLamports_eq hmembra.ne', UInt64.le_iff_toNat_le]
    have hpos : 0 < 2 * gas.oracleState.membraUsdTwap := by linarith
    have hlt : fee.toNat * gas.oracleState.solUsdTwap / (2 * gas.oracleState.membraUsdTwap)
        < fee.toNat + 1 := (div_lt_iff₀ hpos).mpr hworth
    have hnonneg : 0 ≤ fee.toNat * gas.oracleState.solUsdTwap
        / (2 * gas.oracleState.membraUsdTwap) := by positivity
    -- so the conversion is in the range of the type
    have hfee : (fee.toNat : ℚ) + 1 ≤ 2 ^ 64 := by
      exact_mod_cast UInt64.toNat_lt fee
    rw [convert.cast_of_range _ hnonneg (hlt.trans_le hfee)]
    have hfloor := (Nat.floor_lt hnonneg).mpr (by exact_mod_cast hlt)
    omega
  · exact UInt64.le_trans Std.min_le_right hcap

/-! ### The record -/

/-- The record agrees with the ledger: every payment was charged and is for a used receipt
of its own, and no wallet has been charged more than the cap in any 24 hours. -/
structure WellBooked (book : CompensationBook) : Prop where
  sol_pos : 0 < book.gas.oracleState.solUsdTwap
  membra_pos : 0 < book.gas.oracleState.membraUsdTwap
  distinct : (book.payments.map Compensated.receiptId).Nodup
  stored : ∀ paid ∈ book.payments,
    book.gas.receipts.lookup paid.receiptId = some (marked paid.receipt)
  charged : ∀ paid ∈ book.payments, paid.amount.toNat ≤ paid.fee
  capped : ∀ walletAddress start,
    Windows.sum Compensated.markedAt Compensated.fee 86400 start (book.paymentsOf walletAddress)
      ≤ book.gas.maxCompensationPerWalletPerDay.toNat

theorem WellBooked.walletCapped (h : WellBooked book) : WalletCapped book := by
  intro walletAddress start
  refine (Windows.sum_le_sum ?_).trans (h.capped walletAddress start)
  intro paid hpaid
  exact h.charged paid (List.mem_of_mem_filter hpaid)

/-- A compensation pays for a receipt that passes the checks, or nothing happens. -/
theorem compensate_cases (convert : WordCast) (book : CompensationBook) (id : String)
    (staleNow dayNow markedNow : Seconds) :
    (∃ receipt, book.gas.receipts.lookup id = some receipt ∧
      Passes book.gas receipt staleNow dayNow ∧
      (step (.exact convert) book (.compensate id staleNow dayNow markedNow)).2 =
        ⟨{ book.gas with receipts := book.gas.receipts.assign id (marked receipt) },
          ⟨id, receipt, book.gas.compensation (.exact convert) receipt.totalFeeLamports, markedNow⟩
            :: book.payments⟩) ∨
    (step (.exact convert) book (.compensate id staleNow dayNow markedNow)).2 = book := by
  cases hprice : book.gas.calculateCompensation (.exact convert) id staleNow dayNow with
  | none =>
    right
    simp only [step, hprice]
  | some amount =>
    left
    obtain ⟨receipt, hlookup, henabled, hstale, hunused, hfits, hamount⟩ :=
      calculateCompensation_eq_some_iff.mp hprice
    refine ⟨receipt, hlookup, ⟨henabled, hstale, hunused, hfits⟩, ?_⟩
    rw [hamount]
    simp only [step, hprice, hlookup, markCompensated]

/-- The payments near a time were charged fees that count, if their receipts are
recent. -/
theorem sum_near_le_dailyFees (h : WellBooked book)
    (hdated : ∀ paid ∈ Windows.near Compensated.markedAt 86400 markedNow
      (book.paymentsOf walletAddress), dayNow - 86400 ≤ paid.receipt.createdAt) :
    ((Windows.near Compensated.markedAt 86400 markedNow
        (book.paymentsOf walletAddress)).map Compensated.fee).sum
      ≤ dailyFees book.gas walletAddress dayNow := by
  have hsub : (Windows.near Compensated.markedAt 86400 markedNow
      (book.paymentsOf walletAddress)).Sublist book.payments :=
    List.filter_sublist.trans List.filter_sublist
  refine Store.sum_le_total ((hsub.map Compensated.receiptId).nodup h.distinct) ?_
  intro paid hpaid
  refine ⟨marked paid.receipt, h.stored paid (hsub.subset hpaid), ?_⟩
  have hwallet : paid.receipt.receiverWallet = walletAddress := by
    have hmem := List.mem_of_mem_filter hpaid
    simpa using (List.mem_filter.mp hmem).2
  have hcounts : countsTowards walletAddress (dayNow - 86400) (marked paid.receipt) = true := by
    rw [countsTowards, decide_eq_true_iff]
    exact ⟨hwallet, rfl, hdated paid hpaid⟩
  rw [if_pos hcounts]
  exact le_refl _

/-- Where the sum is not wrapped, the check compares it with the cap. -/
theorem Passes.fees_le (hpasses : Passes gas receipt staleNow dayNow)
    (hexact : dailyFees gas receipt.receiverWallet dayNow + receipt.totalFeeLamports.toNat
      < 2 ^ 64) :
    dailyFees gas receipt.receiverWallet dayNow + receipt.totalFeeLamports.toNat
      ≤ gas.maxCompensationPerWalletPerDay.toNat := by
  have hfits := UInt64.le_iff_toNat_le.mp hpasses.fits
  have hdaily : (gas.getWalletDailyCompensation receipt.receiverWallet dayNow).toNat
      = dailyFees gas receipt.receiverWallet dayNow :=
    toNat_getWalletDailyCompensation (by omega)
  rwa [UInt64.toNat_add, hdaily, Nat.mod_eq_of_lt hexact] at hfits

/-- A used receipt is not paid for again. -/
theorem notMem_of_unused (h : WellBooked book)
    (hlookup : book.gas.receipts.lookup id = some receipt)
    (hunused : receipt.usedForCompensation = false) :
    id ∉ book.payments.map Compensated.receiptId := by
  intro hmem
  obtain ⟨paid, hpaid, rfl⟩ := List.mem_map.mp hmem
  rw [h.stored paid hpaid, Option.some.injEq] at hlookup
  rw [← hlookup] at hunused
  cases hunused

/-- Writing a receipt that nobody has been paid for keeps the record. -/
theorem stored_assign (h : WellBooked book) (receipt : GasReceipt)
    (hid : id ∉ book.payments.map Compensated.receiptId) :
    ∀ paid ∈ book.payments, (book.gas.receipts.assign id receipt).lookup paid.receiptId
      = some (marked paid.receipt) := by
  intro paid hpaid
  have hne : paid.receiptId ≠ id := by
    rintro rfl
    exact hid (List.mem_map_of_mem hpaid)
  rw [Store.lookup_assign_ne _ _ hne]
  exact h.stored paid hpaid

theorem wellBooked_createReceipt (h : WellBooked book) {payment : GasPayment}
    {blockNow createdNow : Seconds}
    (hcovered : Covered book (.createReceipt payment blockNow createdNow)) :
    WellBooked (step (.exact convert) book (.createReceipt payment blockNow createdNow)).2 := by
  have hid : receiptId book.gas.receiptCounter.toNat
      ∉ book.payments.map Compensated.receiptId := by
    intro hmem
    obtain ⟨paid, hpaid, heq⟩ := List.mem_map.mp hmem
    have hstored := h.stored paid hpaid
    rw [heq] at hstored
    have hunused := hcovered (marked paid.receipt) hstored
    cases hunused
  exact ⟨h.sol_pos, h.membra_pos, h.distinct, stored_assign h _ hid, h.charged, h.capped⟩

theorem wellBooked_compensate (h : WellBooked book)
    (hcovered : Covered book (.compensate id staleNow dayNow markedNow)) :
    WellBooked (step (.exact convert) book (.compensate id staleNow dayNow markedNow)).2 := by
  rcases compensate_cases convert book id staleNow dayNow markedNow with
    ⟨receipt, hlookup, hpasses, hafter⟩ | hafter
  · obtain ⟨hworth, hdated, hexact⟩ := hcovered receipt hlookup hpasses
    have hid := notMem_of_unused h hlookup hpasses.unused
    rw [hafter]
    constructor
    case sol_pos => exact h.sol_pos
    case membra_pos => exact h.membra_pos
    case distinct => exact List.nodup_cons.mpr ⟨hid, h.distinct⟩
    case stored =>
      intro paid hpaid
      rcases List.mem_cons.mp hpaid with rfl | hold
      · exact Store.lookup_assign_self ..
      · exact stored_assign h _ hid paid hold
    case charged =>
      intro paid hpaid
      rcases List.mem_cons.mp hpaid with rfl | hold
      · exact UInt64.le_iff_toNat_le.mp (compensation_le_fee h.sol_pos h.membra_pos hworth)
      · exact h.charged paid hold
    case capped =>
      intro walletAddress start
      by_cases hwallet : receipt.receiverWallet = walletAddress
      · subst hwallet
        rw [paymentsOf, List.filter_cons_of_pos (by simp)]
        refine Windows.sum_cons_le (h.capped receipt.receiverWallet) ?_ start
        have hnear := sum_near_le_dailyFees h hdated
        have hfees := hpasses.fees_le hexact
        exact (Nat.add_le_add_right hnear _).trans hfees
      · -- another wallet's payments are the same
        rw [paymentsOf, List.filter_cons_of_neg (by simpa using hwallet)]
        exact h.capped walletAddress start
  · rw [hafter]
    exact h

theorem wellBooked_step (h : WellBooked book) (hprices : PositivePrices call)
    (hcovered : Covered book call) : WellBooked (step (.exact convert) book call).2 := by
  cases call with
  | createReceipt payment blockNow createdNow => exact wellBooked_createReceipt h hcovered
  | updateOracle gasTwap priorityFeeTwap solUsd membraUsd now =>
    exact ⟨hprices.1, hprices.2, h.distinct, h.stored, h.charged, h.capped⟩
  | setCompensationEnabled enabled =>
    exact ⟨h.sol_pos, h.membra_pos, h.distinct, h.stored, h.charged, h.capped⟩
  | calculate id staleNow dayNow => exact h
  | compensate id staleNow dayNow markedNow => exact wellBooked_compensate h hcovered

theorem wellBooked_new (now : Seconds) : WellBooked (new now) where
  sol_pos := by
    show (0 : ℚ) < 150
    norm_num
  membra_pos := by
    show (0 : ℚ) < 1 / 10
    norm_num
  distinct := List.nodup_nil
  stored := by
    intro paid hpaid
    cases hpaid
  charged := by
    intro paid hpaid
    cases hpaid
  capped := by
    intro walletAddress start
    exact Nat.zero_le _

/-- The cap holds in every state of a run at positive prices whose compensations are
all covered. -/
theorem walletCapped_of_covered (convert : WordCast) (now : Seconds) (calls : List Call)
    (hprices : ∀ call ∈ calls, PositivePrices call)
    (hcovered : Each (step (.exact convert)) Covered (new now) calls) :
    ∀ pre, pre <+: calls → WalletCapped (final (step (.exact convert)) (new now) pre) := by
  intro pre hpre
  have hboth := (each_of_forall_mem hprices).and hcovered
  refine (final_induction ?_ (wellBooked_new now) (hboth.restrict hpre)).walletCapped
  rintro book call hbook ⟨hpositive, hcall⟩
  exact wellBooked_step hbook hpositive hcall

/-- `n` receipts of one wallet, with a fee, are created and compensated on one day. -/
def compensateAll (fee : UInt64) (n : ℕ) : List Call :=
  .setCompensationEnabled true ::
    (List.range n).map (fun k =>
      .createReceipt ⟨"tx", "receiver", "sender", fee, 0, k.toUInt64, "signature"⟩ 0 0) ++
    (List.range n).map fun k => .compensate (receiptId k) 60 60 60

/-- At prices of 150 and 100, a fee of 6000 lamports is compensated with 4500. -/
def atLowPrices : List Call := .updateOracle 5000 1000 150 100 0 :: compensateAll 6000 3

theorem walletCapped_of_covered_three :
    (final (step (.exact .wrapping)) (new 0) atLowPrices).payments.map Compensated.amount
        = [4500, 4500, 4500] ∧
      WalletCapped (final (step (.exact .wrapping)) (new 0) atLowPrices) := by
  refine ⟨by decide +kernel, ?_⟩
  refine walletCapped_of_covered .wrapping 0 atLowPrices (by decide +kernel) ?_ _
    (List.prefix_refl _)
  unfold Each
  decide +kernel

/-- At the initial prices a fee of 1.4 million lamports is compensated with 1 SOL, and
eleven of them with 11 SOL. -/
theorem not_forall_walletCapped :
    ¬ ∀ (convert : WordCast) (now : Seconds) (calls : List Call),
      (∀ call ∈ calls, PositivePrices call) →
        ∀ pre, pre <+: calls → WalletCapped (final (step (.exact convert)) (new now) pre) := by
  intro h
  have hcapped := h .wrapping 0 (compensateAll 1400000 11) (by decide +kernel) _
    (List.prefix_refl _) "receiver" 60
  revert hcapped
  decide +kernel

end CompensationBook

end Membra
