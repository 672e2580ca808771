/-
Receiver-paid gas.

`ReceiverPaidGas` stores a receipt for each transaction whose gas the receiver has
paid, prices receipts in tokens and marks those that have been compensated.  The
arithmetic of the price is that of `Conversion.lean`.

* `calculateCompensation_eq_some_iff` — when a receipt can be compensated, and with
  how much;
* `markCompensated_cases` — what marking does.
-/
import MembraL3.Lib.Numbered
import MembraL3.Clock
import MembraL3.Conversion

namespace Membra

inductive GasPaymentSource where
  | sender
  | receiver
  | protocol
  | stakedCompute
  deriving DecidableEq

structure GasReceipt where
  receiptId : String
  txId : String
  receiverWallet : String
  senderWallet : String
  gasPaidLamports : UInt64
  priorityFeeLamports : UInt64
  totalFeeLamports : UInt64
  paymentSource : GasPaymentSource
  feePayer : String
  slot : UInt64
  blockTime : Seconds
  txSignature : String
  usedForCompensation : Bool
  createdAt : Seconds
  deriving DecidableEq

structure GasOracleState where
  oracleId : String
  chain : String
  cluster : String
  gasTwapLamports : UInt64
  priorityFeeTwapLamports : UInt64
  solUsdTwap : ℚ
  membraUsdTwap : ℚ
  lastUpdatedAt : Seconds
  staleAfterSeconds : Seconds
  deriving DecidableEq

def GasOracleState.isStale (oracle : GasOracleState) (now : Seconds) : Bool :=
  decide (now - oracle.lastUpdatedAt > oracle.staleAfterSeconds)

/-- `create_receipt`'s arguments. -/
structure GasPayment where
  txId : String
  receiverWallet : String
  senderWallet : String
  gasPaidLamports : UInt64
  priorityFeeLamports : UInt64
  slot : UInt64
  txSignature : String

structure ReceiverPaidGas where
  receipts : Store String GasReceipt
  receiptCounter : UInt64
  oracleState : GasOracleState
  compensationEnabled : Bool
  maxCompensationPerTx : UInt64
  maxCompensationPerWalletPerDay : UInt64
  maxCompensationPerEpoch : UInt64

namespace ReceiverPaidGas

/-- Compensation is disabled by default; the caps are 1, 10 and 100 SOL. -/
def new (now : Seconds) : ReceiverPaidGas where
  receipts := ∅
  receiptCounter := 0
  oracleState :=
    { oracleId := "gas_oracle_1"
      chain := "solana"
      cluster := "devnet"
      gasTwapLamports := 5000
      priorityFeeTwapLamports := 1000
      solUsdTwap := 150
      membraUsdTwap := 1 / 10
      lastUpdatedAt := now
      staleAfterSeconds := 300 }
  compensationEnabled := false
  maxCompensationPerTx := 1000000000
  maxCompensationPerWalletPerDay := 10000000000
  maxCompensationPerEpoch := 100000000000

def receiptId (n : ℕ) : String := Numbered.name "gas_" n

def newReceipt (id : String) (payment : GasPayment) (blockNow createdNow : Seconds) :
    GasReceipt where
  receiptId := id
  txId := payment.txId
  receiverWallet := payment.receiverWallet
  senderWallet := payment.senderWallet
  gasPaidLamports := payment.gasPaidLamports
  priorityFeeLamports := payment.priorityFeeLamports
  totalFeeLamports := payment.gasPaidLamports + payment.priorityFeeLamports
  paymentSource := .receiver
  feePayer := payment.receiverWallet
  slot := payment.slot
  blockTime := blockNow
  txSignature := payment.txSignature
  usedForCompensation := false
  createdAt := createdNow

def createReceipt (gas : ReceiverPaidGas) (payment : GasPayment) (blockNow createdNow : Seconds) :
    String × ReceiverPaidGas :=
  let id := receiptId gas.receiptCounter.toNat
  (id,
    { gas with
      receipts := gas.receipts.assign id (newReceipt id payment blockNow createdNow)
      receiptCounter := gas.receiptCounter + 1 })

def updateOracle (gas : ReceiverPaidGas) (gasTwap priorityFeeTwap : UInt64) (solUsd membraUsd : ℚ)
    (now : Seconds) : ReceiverPaidGas :=
  { gas with
    oracleState :=
      { gas.oracleState with
        gasTwapLamports := gasTwap
        priorityFeeTwapLamports := priorityFeeTwap
        solUsdTwap := solUsd
        membraUsdTwap := membraUsd
        lastUpdatedAt := now } }

/-- A receipt counts towards a wallet's day, by the date of its creation. -/
def countsTowards (walletAddress : String) (dayStart : Seconds) (receipt : GasReceipt) : Bool :=
  receipt.receiverWallet = walletAddress ∧ receipt.usedForCompensation = true ∧
    dayStart ≤ receipt.createdAt

/-- The sum of the fees that count, in 64 bits. -/
def getWalletDailyCompensation (gas : ReceiverPaidGas) (walletAddress : String) (now : Seconds) :
    UInt64 :=
  Store.total (fun receipt =>
    if countsTowards walletAddress (now - 86400) receipt then receipt.totalFeeLamports else 0)
    gas.receipts

/-- The price of a fee in tokens, half of it being compensated; what each operation
gives is rounded, and so is the fee when it becomes a double. -/
def compensationTokens (round : ℚ → ℚ) (solUsd membraUsd : ℚ) (fee : UInt64) : DoubleValue :=
  let gasUsd := round (round (round fee.toNat / 1000000000) * solUsd)
  let compensationUsd := round (gasUsd * (1 / 2))
  (quotient compensationUsd membraUsd).map round

/-- The price in lamports. -/
def rawCompensation (arith : Doubles) (solUsd membraUsd : ℚ) (fee : UInt64) : UInt64 :=
  let tokens := compensationTokens arith.round solUsd membraUsd fee
  arith.cast (tokens.map fun tokens => arith.round (tokens * 1000000000))

/-- The price in exact arithmetic, in lamports that are not yet converted. -/
def exactLamports (solUsd membraUsd : ℚ) (fee : UInt64) : DoubleValue :=
  (compensationTokens id solUsd membraUsd fee).map (· * 1000000000)

/-- The capped compensation of a fee. -/
def compensation (arith : Doubles) (gas : ReceiverPaidGas) (fee : UInt64) : UInt64 :=
  min (rawCompensation arith gas.oracleState.solUsdTwap gas.oracleState.membraUsdTwap fee)
    gas.maxCompensationPerTx

/-- Returns the compensation, or `none` where `can_compensate` is set to false. -/
def calculateCompensation (arith : Doubles) (gas : ReceiverPaidGas) (receiptId : String)
    (staleNow dayNow : Seconds) : Option UInt64 :=
  match gas.receipts.lookup receiptId with
  | none => none
  | some receipt =>
    if !gas.compensationEnabled then none
    else if gas.oracleState.isStale staleNow then none
    else if receipt.usedForCompensation then none
    else
      let walletDaily := gas.getWalletDailyCompensation receipt.receiverWallet dayNow
      if walletDaily + receipt.totalFeeLamports > gas.maxCompensationPerWalletPerDay then none
      else some (gas.compensation arith receipt.totalFeeLamports)

/-- The receipt after `mark_compensated`. -/
def marked (receipt : GasReceipt) : GasReceipt := { receipt with usedForCompensation := true }

/-- Does not look at whether the receipt has been used. -/
def markCompensated (gas : ReceiverPaidGas) (receiptId : String) : Bool × ReceiverPaidGas :=
  match gas.receipts.lookup receiptId with
  | none => (false, gas)
  | some receipt => (true, { gas with receipts := gas.receipts.assign receiptId (marked receipt) })

def setCompensationEnabled (gas : ReceiverPaidGas) (enabled : Bool) : ReceiverPaidGas :=
  { gas with compensationEnabled := enabled }

def getOracleState (gas : ReceiverPaidGas) : GasOracleState := gas.oracleState

def getReceipt (gas : ReceiverPaidGas) (receiptId : String) : Option GasReceipt :=
  gas.receipts.lookup receiptId

/-! ### What the operations do -/

theorem rawCompensation_exact (convert : WordCast) (solUsd membraUsd : ℚ) (fee : UInt64) :
    rawCompensation (.exact convert) solUsd membraUsd fee
      = convert.cast (exactLamports solUsd membraUsd fee) := rfl

theorem exactLamports_eq_quotient (solUsd membraUsd : ℚ) (fee : UInt64) :
    exactLamports solUsd membraUsd fee = quotient (fee.toNat * solUsd) (2 * membraUsd) := by
  have htokens : compensationTokens id solUsd membraUsd fee
      = quotient (fee.toNat / 1000000000 * solUsd * (1 / 2)) membraUsd :=
    DoubleValue.map_id _
  have hdividend : (fee.toNat : ℚ) * solUsd
      = fee.toNat / 1000000000 * solUsd * (1 / 2) * 1000000000 * 2 := by ring
  rw [exactLamports, htokens, map_mul_quotient (by norm_num), mul_comm 2 membraUsd, hdividend,
    quotient_mul_mul two_pos]

variable {arith : Doubles} {gas : ReceiverPaidGas} {id : String}

/-- A receipt can be compensated if it has not been used and fits the day of its
wallet. -/
theorem calculateCompensation_eq_some_iff {staleNow dayNow : Seconds} {amount : UInt64} :
    gas.calculateCompensation arith id staleNow dayNow = some amount ↔
      ∃ receipt, gas.receipts.lookup id = some receipt ∧ gas.compensationEnabled = true ∧
        gas.oracleState.isStale staleNow = false ∧ receipt.usedForCompensation = false ∧
        gas.getWalletDailyCompensation receipt.receiverWallet dayNow + receipt.totalFeeLamports
          ≤ gas.maxCompensationPerWalletPerDay ∧
        gas.compensation arith receipt.totalFeeLamports = amount := by
  rw [calculateCompensation]
  cases hlookup : gas.receipts.lookup id with
  | none => simp
  | some receipt =>
    cases henabled : gas.compensationEnabled with
    | false => simp
    | true =>
      cases hstale : gas.oracleState.isStale staleNow with
      | true => simp
      | false =>
        cases hused : receipt.usedForCompensation with
        | true => simp [hused]
        | false =>
          by_cases hcap : gas.getWalletDailyCompensation receipt.receiverWallet dayNow
              + receipt.totalFeeLamports > gas.maxCompensationPerWalletPerDay
          · simp [hused, hcap, UInt64.not_le.mpr hcap]
          · simp [hused, hcap, UInt64.not_lt.mp hcap]

theorem markCompensated_cases (gas : ReceiverPaidGas) (id : String) :
    (∃ receipt, gas.receipts.lookup id = some receipt ∧
      gas.markCompensated id
        = (true, { gas with receipts := gas.receipts.assign id (marked receipt) })) ∨
    (gas.receipts.lookup id = none ∧ gas.markCompensated id = (false, gas)) := by
  rw [markCompensated]
  cases hlookup : gas.receipts.lookup id with
  | none => exact .inr ⟨rfl, rfl⟩
  | some receipt => exact .inl ⟨receipt, rfl, rfl⟩

end ReceiverPaidGas

end Membra
