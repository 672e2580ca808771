/-
The range of the conversion.

`calculate_compensation` divides by the price of the token and converts the quotient to
64 bits before it applies the cap.  The oracle stores any prices.

* `lamports_mem_iff` — when a quotient of prices is in the range of the type;
* `prices_final` — the prices are those of the last update;
* `convertsInRange_iff` — every conversion of a run is in range exactly if each of its fees
  is small enough at the prices of the last update before it, and they have one sign.
-/
import MembraL3.GasCompensationCap
import Mathlib.Algebra.Order.Field.Basic

namespace Membra

namespace ReceiverPaidGas

open Runs
open CompensationBook (Passes exactLamports_eq)

/-! ### One conversion -/

/-- A fee at the price of a SOL and a token is worth fewer than `2 ^ 64` lamports of
tokens, and not less than nothing. -/
def Convertible (prices : ℚ × ℚ) (fee : UInt64) : Prop :=
  fee.toNat * |prices.1| < 2 ^ 65 * |prices.2| ∧ (fee = 0 ∨ 0 ≤ prices.1 * prices.2)

/-- The exact price of the fee is a number in the range of `uint64_t`. -/
def InRange (oracle : GasOracleState) (fee : UInt64) : Prop :=
  ∃ lamports, exactLamports oracle.solUsdTwap oracle.membraUsdTwap fee = .number lamports ∧
    0 ≤ lamports ∧ lamports < 2 ^ 64

/-- A price that gets past the checks is in range. -/
def ConvertsInRange (gas : ReceiverPaidGas) (id : String) (staleNow dayNow : Seconds) : Prop :=
  ∀ receipt ∈ gas.receipts.lookup id, Passes gas receipt staleNow dayNow →
    InRange gas.oracleState receipt.totalFeeLamports

theorem lamports_nonneg_iff {sol membra : ℚ} (fee : UInt64) :
    0 ≤ fee.toNat * sol / (2 * membra) ↔ fee = 0 ∨ 0 ≤ sol * membra := by
  by_cases hfee : fee = 0
  · refine iff_of_true ?_ (.inl hfee)
    rw [hfee, UInt64.toNat_zero, Nat.cast_zero, zero_mul, zero_div]
  · have hpos : (0 : ℚ) < fee.toNat * 2 := by
      have hne : fee.toNat ≠ 0 := fun h => hfee (UInt64.toNat_inj.mp h)
      positivity
    have hproduct : fee.toNat * sol * (2 * membra) = fee.toNat * 2 * (sol * membra) := by ring
    rw [or_iff_right hfee, div_nonneg_iff, ← mul_nonneg_iff, hproduct,
      mul_nonneg_iff_of_pos_left hpos]

theorem lamports_mem_iff {sol membra : ℚ} (hmembra : membra ≠ 0) (fee : UInt64) :
    0 ≤ fee.toNat * sol / (2 * membra) ∧ fee.toNat * sol / (2 * membra) < 2 ^ 64 ↔
      Convertible (sol, membra) fee := by
  have habs : |fee.toNat * sol / (2 * membra)| = fee.toNat * |sol| / (2 * |membra|) := by
    rw [abs_div, abs_mul, abs_mul, Nat.abs_cast, abs_two]
  have hpos : 0 < 2 * |membra| := by positivity
  rw [Convertible, ← lamports_nonneg_iff, and_comm]
  -- a quotient that is not negative is its own absolute value
  refine and_congr_left ?_
  intro hnonneg
  rw [← abs_of_nonneg hnonneg, habs, div_lt_iff₀ hpos, ← mul_assoc]
  norm_num

theorem inRange_iff {oracle : GasOracleState} {fee : UInt64} :
    InRange oracle fee ↔ Convertible (oracle.solUsdTwap, oracle.membraUsdTwap) fee := by
  by_cases hmembra : oracle.membraUsdTwap = 0
  · -- nothing is less than nothing
    refine iff_of_false ?_ ?_
    · rintro ⟨lamports, htokens, -, -⟩
      rw [exactLamports_eq_quotient, hmembra, mul_zero, quotient_zero] at htokens
      split at htokens
      · cases htokens
      · cases htokens
    · rintro ⟨hlt, -⟩
      rw [hmembra, abs_zero, mul_zero] at hlt
      exact absurd hlt (not_lt.mpr (by positivity))
  · rw [InRange, exactLamports_eq hmembra, ← lamports_mem_iff hmembra]
    simp only [DoubleValue.number.injEq, exists_eq_left']

/-! ### Runs -/

inductive Call where
  | createReceipt (payment : GasPayment) (blockNow createdNow : Seconds)
  | updateOracle (gasTwap priorityFeeTwap : UInt64) (solUsd membraUsd : ℚ) (now : Seconds)
  | setCompensationEnabled (enabled : Bool)
  | calculateCompensation (receiptId : String) (staleNow dayNow : Seconds)
  | markCompensated (receiptId : String)

inductive Result where
  | created (receiptId : String)
  | updated
  | set
  | price (compensation : Option UInt64)
  | marked (ok : Bool)

def step (arith : Doubles) (gas : ReceiverPaidGas) : Call → Result × ReceiverPaidGas
  | .createReceipt payment blockNow createdNow =>
    let (id, gas) := gas.createReceipt payment blockNow createdNow
    (.created id, gas)
  | .updateOracle gasTwap priorityFeeTwap solUsd membraUsd now =>
    (.updated, gas.updateOracle gasTwap priorityFeeTwap solUsd membraUsd now)
  | .setCompensationEnabled enabled => (.set, gas.setCompensationEnabled enabled)
  | .calculateCompensation id staleNow dayNow =>
    (.price (gas.calculateCompensation arith id staleNow dayNow), gas)
  | .markCompensated id =>
    let (ok, gas) := gas.markCompensated id
    (.marked ok, gas)

/-- The two prices that a call stores. -/
def updatedPrices : Call → Option (ℚ × ℚ)
  | .updateOracle _ _ solUsd membraUsd _ => some (solUsd, membraUsd)
  | _ => none

/-- The prices of the last update, and those of the constructor before the first. -/
def lastPrices (calls : List Call) : ℚ × ℚ :=
  (calls.filterMap updatedPrices).getLast?.getD (150, 1 / 10)

variable {arith : Doubles} {gas : ReceiverPaidGas}

def prices (gas : ReceiverPaidGas) : ℚ × ℚ :=
  (gas.oracleState.solUsdTwap, gas.oracleState.membraUsdTwap)

theorem prices_step (arith : Doubles) (gas : ReceiverPaidGas) (call : Call) :
    prices (step arith gas call).2 = (updatedPrices call).getD (prices gas) := by
  cases call with
  | markCompensated id =>
    rcases markCompensated_cases gas id with ⟨receipt, -, heq⟩ | ⟨-, heq⟩
    · rw [step, heq]
      rfl
    · rw [step, heq]
      rfl
  | createReceipt _ _ _ | updateOracle _ _ _ _ _ | setCompensationEnabled _
  | calculateCompensation _ _ _ => rfl

theorem prices_final (arith : Doubles) (now : Seconds) (calls : List Call) :
    prices (final (step arith) (new now) calls) = lastPrices calls := by
  induction calls using List.reverseRecOn with
  | nil => rfl
  | append_singleton calls call ih =>
    rw [final_append, final_cons, final_nil, prices_step, ih, lastPrices, lastPrices,
      List.filterMap_append]
    cases hupdated : updatedPrices call with
    | none => simp [hupdated]
    | some updated => simp [hupdated]

/-- Every price of a run that gets past the checks is in range exactly if its fee is
convertible at the prices of the last update before it. -/
theorem convertsInRange_iff (arith : Doubles) (now : Seconds) (calls : List Call) :
    (∀ pre id staleNow dayNow, pre ++ [.calculateCompensation id staleNow dayNow] <+: calls →
      ConvertsInRange (final (step arith) (new now) pre) id staleNow dayNow) ↔
    ∀ pre id staleNow dayNow, pre ++ [.calculateCompensation id staleNow dayNow] <+: calls →
      ∀ receipt ∈ (final (step arith) (new now) pre).receipts.lookup id,
        Passes (final (step arith) (new now) pre) receipt staleNow dayNow →
          Convertible (lastPrices pre) receipt.totalFeeLamports := by
  refine forall₄_congr fun pre id staleNow dayNow => forall_congr' fun _ => ?_
  simp only [ConvertsInRange, inRange_iff, ← prices_final arith now pre, prices]

def smallPayment : GasPayment := ⟨"tx_1", "receiver", "sender", 5000, 1000, 1, "signature"⟩

/-- A receipt, and then an update that gives the token no price. -/
def worthless : List Call :=
  [.setCompensationEnabled true, .createReceipt smallPayment 0 0, .updateOracle 0 0 150 0 0]

theorem not_forall_convertsInRange :
    ¬ ∀ (arith : Doubles) (now : Seconds) (calls pre : List Call) (id : String)
        (staleNow dayNow : Seconds),
      pre ++ [.calculateCompensation id staleNow dayNow] <+: calls →
        ConvertsInRange (final (step arith) (new now) pre) id staleNow dayNow := by
  intro h
  have hconverts := h (.exact .wrapping) 0 _ worthless "gas_0" 0 0 List.prefix_rfl
  have hstored : newReceipt "gas_0" smallPayment 0 0
      ∈ (final (step (.exact .wrapping)) (new 0) worthless).receipts.lookup "gas_0" := by
    decide +kernel
  have hpasses : Passes (final (step (.exact .wrapping)) (new 0) worthless)
      (newReceipt "gas_0" smallPayment 0 0) 0 0 := by
    decide +kernel
  obtain ⟨lamports, htokens, -, -⟩ := hconverts _ hstored hpasses
  have hinfinite : exactLamports
      (final (step (.exact .wrapping)) (new 0) worthless).oracleState.solUsdTwap
      (final (step (.exact .wrapping)) (new 0) worthless).oracleState.membraUsdTwap
      (newReceipt "gas_0" smallPayment 0 0).totalFeeLamports = .infinite false := by
    decide +kernel
  rw [hinfinite] at htokens
  cases htokens

end ReceiverPaidGas

end Membra
