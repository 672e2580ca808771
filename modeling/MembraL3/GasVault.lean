/-
The gas vault.

`pay_gas` charges a transaction to the allowance of one of the user's stakes in
the attached `ComputeStaking`, and otherwise to the vault's own reserves.  The
vault only holds a pointer to the staking system, which anyone may use or
exchange between two payments; `setComputeStaking` with any state stands for all
of that.

* `step_payGas_cases` — a payment fails without a trace in the ledger, or takes
  the gas from one stake, or takes it from the reserves;
* `tracks_step` — the reserves are the balance of an account that receives the
  deposits and pays what no stake covers;
* `gasVault_conserved` — the ledger of every run.
-/
import MembraL3.ComputeStaking
import MembraL3.Lib.Account

namespace Membra

structure GasVault where
  solReserves : UInt64
  totalGasPaid : UInt64
  gasPaidByCompute : UInt64
  userTxCounts : Store String UInt64

namespace GasVault

def new (initialSolLamports : UInt64) : GasVault where
  solReserves := initialSolLamports
  totalGasPaid := 0
  gasPaidByCompute := 0
  userTxCounts := ∅

def depositSol (vault : GasVault) (amountLamports : UInt64) (_source : String) : GasVault :=
  { vault with solReserves := vault.solReserves + amountLamports }

/-- The attached staking system's `consume_gas_allowance`; `false` without one. -/
def consumeAttached (order : MapOrder) (staking : Option ComputeStaking) (userAddress : String)
    (gasLamports : UInt64) : Bool × Option ComputeStaking :=
  match staking with
  | none => (false, none)
  | some staking =>
    let (consumed, staking) := staking.consumeGasAllowance order userAddress gasLamports
    (consumed, some staking)

/-- Anything that is staked counts, whosever it is. -/
def canCoverGas (arith : Doubles) (vault : GasVault) (staking : Option ComputeStaking)
    (gasLamports : UInt64) : Bool :=
  match staking with
  | some staking =>
    if staking.currentGasCreditRate arith > 0 then true
    else vault.solReserves ≥ gasLamports
  | none => vault.solReserves ≥ gasLamports

def payGas (order : MapOrder) (vault : GasVault) (staking : Option ComputeStaking)
    (userAddress : String) (gasLamports : UInt64) : Bool × GasVault × Option ComputeStaking :=
  -- `user_tx_counts_[user_address]` adds a zero where there is no count
  let txCount := (vault.userTxCounts.lookup userAddress).getD 0
  let vault := { vault with userTxCounts := vault.userTxCounts.assign userAddress txCount }
  if txCount > 1000 then (false, vault, staking)
  else
    let (consumed, staking) := consumeAttached order staking userAddress gasLamports
    if consumed then
      (true,
        { vault with
          gasPaidByCompute := vault.gasPaidByCompute + gasLamports
          totalGasPaid := vault.totalGasPaid + gasLamports
          userTxCounts := vault.userTxCounts.assign userAddress (txCount + 1) },
        staking)
    else if vault.solReserves < gasLamports then (false, vault, staking)
    else
      (true,
        { vault with
          solReserves := vault.solReserves - gasLamports
          totalGasPaid := vault.totalGasPaid + gasLamports
          userTxCounts := vault.userTxCounts.assign userAddress (txCount + 1) },
        staking)

end GasVault

/-- A gas vault with the staking system it points to. -/
structure GasSystem where
  vault : GasVault
  staking : Option ComputeStaking

namespace GasSystem

open Runs Account

inductive Call where
  | depositSol (amountLamports : UInt64) (source : String)
  | payGas (userAddress : String) (gasLamports : UInt64)
  | setComputeStaking (staking : Option ComputeStaking)

inductive Reply where
  | done
  | paid (ok : Bool)
  deriving DecidableEq

def step (order : MapOrder) (sys : GasSystem) : Call → Reply × GasSystem
  | .depositSol amount source => (.done, { sys with vault := sys.vault.depositSol amount source })
  | .payGas user gas =>
    let (ok, vault, staking) := sys.vault.payGas order sys.staking user gas
    (.paid ok, ⟨vault, staking⟩)
  | .setComputeStaking staking => (.done, { sys with staking := staking })

/-! ### What a payment does -/

/-- The gas comes from the allowance of one active stake of the user, and the
reserves are not touched. -/
structure FromStake (user : String) (gas : UInt64) (before after : GasSystem) : Prop where
  taken : ∃ staking id stake, before.staking = some staking ∧
    staking.stakes.lookup id = some stake ∧ stake.stakerAddress = user ∧ stake.active = true ∧
    gas.toNat ≤ stake.gasCreditAllowance.toNat ∧
    after.staking = some { staking with stakes := staking.stakes.assign id (stake.charged gas) }
  solReserves : after.vault.solReserves = before.vault.solReserves
  gasPaidByCompute : after.vault.gasPaidByCompute = before.vault.gasPaidByCompute + gas
  totalGasPaid : after.vault.totalGasPaid = before.vault.totalGasPaid + gas

/-- The gas comes from the reserves, which hold that much, and no stake is
touched. -/
structure FromReserves (gas : UInt64) (before after : GasSystem) : Prop where
  enough : gas.toNat ≤ before.vault.solReserves.toNat
  solReserves : after.vault.solReserves = before.vault.solReserves - gas
  staking : after.staking = before.staking
  gasPaidByCompute : after.vault.gasPaidByCompute = before.vault.gasPaidByCompute
  totalGasPaid : after.vault.totalGasPaid = before.vault.totalGasPaid + gas

/-- Reserves, totals and all stakes are the same. -/
structure SameLedger (before after : GasSystem) : Prop where
  solReserves : after.vault.solReserves = before.vault.solReserves
  gasPaidByCompute : after.vault.gasPaidByCompute = before.vault.gasPaidByCompute
  totalGasPaid : after.vault.totalGasPaid = before.vault.totalGasPaid
  staking : after.staking = before.staking

/-- A stake of the user covers the payment. -/
def coveredByStake (order : MapOrder) (sys : GasSystem) (user : String) (gas : UInt64) : Bool :=
  (GasVault.consumeAttached order sys.staking user gas).1

theorem consumeAttached_cases (order : MapOrder) (staking : Option ComputeStaking) (user : String)
    (gas : UInt64) :
    GasVault.consumeAttached order staking user gas = (false, staking) ∨
    ∃ staking' id stake, staking = some staking' ∧ staking'.stakes.lookup id = some stake ∧
      stake.stakerAddress = user ∧ stake.active = true ∧ gas ≤ stake.gasCreditAllowance ∧
      GasVault.consumeAttached order staking user gas = (true,
        some { staking' with stakes := staking'.stakes.assign id (stake.charged gas) }) := by
  cases staking with
  | none => exact .inl rfl
  | some staking =>
    rw [GasVault.consumeAttached]
    rcases staking.consumeGasAllowance_cases order user gas with
      h | ⟨id, stake, hlookup, hstaker, hactive, hgas, h⟩
    · left
      simp only [h]
    · right
      refine ⟨staking, id, stake, rfl, hlookup, hstaker, hactive, hgas, ?_⟩
      simp only [h]

/-- A payment asks the staking system for an allowance, or leaves it alone. -/
theorem payGas_staking (order : MapOrder) (vault : GasVault) (staking : Option ComputeStaking)
    (user : String) (gas : UInt64) :
    (vault.payGas order staking user gas).2.2 = staking ∨
    (vault.payGas order staking user gas).2.2
      = (GasVault.consumeAttached order staking user gas).2 := by
  by_cases hlimit : (vault.userTxCounts.lookup user).getD 0 > 1000
  · left
    simp only [GasVault.payGas, hlimit, if_true]
  · right
    simp only [GasVault.payGas, hlimit, if_false]
    split
    · rfl
    · split <;> rfl

/-- A payment fails without a trace in the ledger, or takes the gas from one stake,
or, where no stake covers it, from the reserves. -/
theorem step_payGas_cases (order : MapOrder) (sys : GasSystem) (user : String) (gas : UInt64) :
    ((step order sys (.payGas user gas)).1 = .paid false ∧
      SameLedger sys (step order sys (.payGas user gas)).2) ∨
    ((step order sys (.payGas user gas)).1 = .paid true ∧
      coveredByStake order sys user gas = true ∧
      FromStake user gas sys (step order sys (.payGas user gas)).2) ∨
    ((step order sys (.payGas user gas)).1 = .paid true ∧
      coveredByStake order sys user gas = false ∧
      FromReserves gas sys (step order sys (.payGas user gas)).2) := by
  by_cases hlimit : (sys.vault.userTxCounts.lookup user).getD 0 > 1000
  · -- the rate limit comes before either source
    left
    simp only [step, GasVault.payGas, hlimit, if_true]
    exact ⟨trivial, rfl, rfl, rfl, rfl⟩
  rcases consumeAttached_cases order sys.staking user gas with
    h | ⟨staking, id, stake, hstaking, hlookup, hstaker, hactive, hgas, h⟩
  · have hcovered : coveredByStake order sys user gas = false := by
      rw [coveredByStake, h]
    by_cases hreserves : sys.vault.solReserves < gas
    · left
      simp only [step, GasVault.payGas, hlimit, h, hreserves]
      exact ⟨rfl, rfl, rfl, rfl, rfl⟩
    · right
      right
      simp only [step, GasVault.payGas, hlimit, h, hreserves]
      exact ⟨rfl, hcovered, UInt64.le_iff_toNat_le.mp (UInt64.not_lt.mp hreserves), rfl, rfl, rfl,
        rfl⟩
  · right
    left
    have hcovered : coveredByStake order sys user gas = true := by
      rw [coveredByStake, h]
    simp only [step, GasVault.payGas, hlimit, h]
    exact ⟨rfl, hcovered, ⟨staking, id, stake, hstaking, hlookup, hstaker, hactive,
      UInt64.le_iff_toNat_le.mp hgas, rfl⟩, rfl, rfl, rfl⟩

/-! ### The reserves as an account -/

/-- The move that a call makes on the account of the reserves. -/
def reserveMove (order : MapOrder) (sys : GasSystem) : Call → Move UInt64
  | .depositSol amount _ => .receive amount
  | .payGas user gas =>
    if (step order sys (.payGas user gas)).1 = .paid true ∧
      coveredByStake order sys user gas = false then .pay gas
    else .idle
  | .setComputeStaking _ => .idle

/-- What a call deposits. -/
def deposited (e : Event GasSystem Call Reply) : UInt64 :=
  match e.call with
  | .depositSol amount _ => amount
  | _ => 0

/-- What a successful payment that no stake covers pays. -/
def paidFromReserves (order : MapOrder) (e : Event GasSystem Call Reply) : UInt64 :=
  match e.call with
  | .payGas user gas =>
    if e.result = .paid true ∧ coveredByStake order e.before user gas = false then gas else 0
  | _ => 0

theorem inflow_reserveMove (order : MapOrder) (sys : GasSystem) (c : Call) :
    (reserveMove order sys c).inflow = deposited (event (step order) sys c) := by
  cases c with
  | payGas user gas =>
    show (if _ then Move.pay gas else Move.idle).inflow = 0
    split <;> rfl
  | _ => rfl

theorem outflow_reserveMove (order : MapOrder) (sys : GasSystem) (c : Call) :
    (reserveMove order sys c).outflow = paidFromReserves order (event (step order) sys c) := by
  cases c with
  | payGas user gas =>
    show (if _ then Move.pay gas else Move.idle).outflow = if _ then gas else 0
    rw [apply_ite Move.outflow]
    rfl
  | _ => rfl

/-- The reserves and what they have paid are columns of an account that makes these
moves. -/
theorem tracks_step (order : MapOrder) (sys : GasSystem) (a : Account UInt64) (c : Call)
    (h : Tracks sys.vault.solReserves
      (sys.vault.solReserves + (sys.vault.totalGasPaid - sys.vault.gasPaidByCompute))
      (sys.vault.totalGasPaid - sys.vault.gasPaidByCompute) a) :
    Tracks (step order sys c).2.vault.solReserves
      ((step order sys c).2.vault.solReserves +
        ((step order sys c).2.vault.totalGasPaid - (step order sys c).2.vault.gasPaidByCompute))
      ((step order sys c).2.vault.totalGasPaid - (step order sys c).2.vault.gasPaidByCompute)
      (a.post (reserveMove order sys c)) := by
  cases c with
  | depositSol amount source =>
    have hreceive := h.receive amount
    rw [add_right_comm] at hreceive
    exact hreceive
  | setComputeStaking staking => exact h.idle
  | payGas user gas =>
    rcases step_payGas_cases order sys user gas with
      ⟨hfail, hsame⟩ | ⟨hok, hcovered, hstake⟩ | ⟨hok, hcovered, hreserves⟩
    · have hmove : reserveMove order sys (.payGas user gas) = .idle := by
        rw [reserveMove, if_neg]
        simp [hfail]
      rw [hmove, hsame.solReserves, hsame.totalGasPaid, hsame.gasPaidByCompute]
      exact h.idle
    · have hmove : reserveMove order sys (.payGas user gas) = .idle := by
        rw [reserveMove, if_neg]
        simp [hcovered]
      rw [hmove, hstake.solReserves, hstake.totalGasPaid, hstake.gasPaidByCompute,
        add_sub_add_right_eq_sub]
      exact h.idle
    · have hmove : reserveMove order sys (.payGas user gas) = .pay gas := by
        rw [reserveMove, if_pos ⟨hok, hcovered⟩]
      have hpay := h.pay gas
      rw [hmove, hreserves.solReserves, hreserves.totalGasPaid, hreserves.gasPaidByCompute,
        add_sub_right_comm, sub_add_add_cancel]
      exact hpay

/-- Over every run of deposits and payments, with any staking systems attached: the
reserves are the initial ones plus the deposits less what they paid, all gas was
paid by compute or from the reserves, every successful payment takes its gas from
exactly one of the two, which holds that much, and a failing one changes neither
and counts for neither. -/
theorem gasVault_conserved (order : MapOrder) (initial : UInt64) (staking : Option ComputeStaking)
    (calls : List Call) :
    let start : GasSystem := ⟨GasVault.new initial, staking⟩
    let sys := final (step order) start calls
    let events := trace (step order) start calls
    sys.vault.solReserves
      = initial + (events.map deposited).sum - (events.map (paidFromReserves order)).sum ∧
    sys.vault.totalGasPaid
      = sys.vault.gasPaidByCompute + (events.map (paidFromReserves order)).sum ∧
    (∀ e ∈ events, ∀ user gas, e.call = .payGas user gas → e.result = .paid true →
      (FromStake user gas e.before e.after ∧ paidFromReserves order e = 0) ∨
      (FromReserves gas e.before e.after ∧ paidFromReserves order e = gas)) ∧
    (∀ e ∈ events, ∀ user gas, e.call = .payGas user gas → e.result = .paid false →
      SameLedger e.before e.after ∧ paidFromReserves order e = 0) := by
  intro start sys events
  have h0 : Tracks start.vault.solReserves
      (start.vault.solReserves + (start.vault.totalGasPaid - start.vault.gasPaidByCompute))
      (start.vault.totalGasPaid - start.vault.gasPaidByCompute) (Account.opened initial) := by
    have hnone : start.vault.totalGasPaid - start.vault.gasPaidByCompute = 0 := sub_self _
    rw [hnone, add_zero]
    exact ⟨rfl, rfl, rfl⟩
  have hall : Each (step order) (fun _ _ => True) start calls := each_true
  have htracks := tracks_final (fun sys a c _ => tracks_step order sys a c) h0 hall
  have hin := map_moves (inflow_reserveMove order) start calls
  have hout := map_moves (outflow_reserveMove order) start calls
  refine ⟨?_, ?_, ?_, ?_⟩
  · -- the balance of the account
    have hheld := htracks.held_eq
    rw [held_postAll, hin, hout] at hheld
    exact hheld
  · -- what the account has paid
    have hpaid := htracks.paid_eq
    rw [paid_postAll, hout] at hpaid
    have hopened : (Account.opened initial).paid = 0 := rfl
    rw [hopened, zero_add, sub_eq_iff_eq_add'] at hpaid
    exact hpaid
  · refine forall_trace (fun sys c user gas hcall hok => ?_) start calls
    obtain rfl : c = .payGas user gas := hcall
    rcases step_payGas_cases order sys user gas with
      ⟨hfail, _⟩ | ⟨_, hcovered, hstake⟩ | ⟨_, hcovered, hreserves⟩
    · exact absurd (hok.symm.trans hfail) (by decide)
    · left
      exact ⟨hstake, if_neg fun h => Bool.false_ne_true (h.2.symm.trans hcovered)⟩
    · right
      exact ⟨hreserves, if_pos ⟨hok, hcovered⟩⟩
  · refine forall_trace (fun sys c user gas hcall hfail => ?_) start calls
    obtain rfl : c = .payGas user gas := hcall
    rcases step_payGas_cases order sys user gas with
      ⟨_, hsame⟩ | ⟨hok, _, _⟩ | ⟨hok, _, _⟩
    · refine ⟨hsame, if_neg fun h => ?_⟩
      exact absurd (hfail.symm.trans h.1) (by decide)
    · exact absurd (hfail.symm.trans hok) (by decide)
    · exact absurd (hfail.symm.trans hok) (by decide)

end GasSystem

end Membra
