/-
The gas vault among threads.

`payGas`, `depositSol` and the calls of the staking system as programs of one thread:
the mutexes they take, and between those one atomic action for each access to what
other threads can see.  A call of the staking system is one action, since all it
touches is behind its own mutex; `pay_gas` is not, since `deposit_sol` takes no mutex
and the staking system is released before the reserves are read.

* `payGas_alone` — with no other thread about, `payGas` is the vault's `pay_gas`;
* `books_balance` — whatever the schedule, totals, reserves and counts add up.
-/
import MembraL3.GasVault
import MembraL3.StakingRuns
import MembraL3.Lib.LockOrder

namespace Membra

open Threads

/-- The mutexes of a node. -/
inductive Mutex where
  | gasVault
  | computeStaking
  | gasReceipts
  | gasOracle
  | rewardVault
  | intents
  | proofBook
  | inference
  | computePrices
  | futures
  | prices
  | gasConditions
  deriving DecidableEq

/-- A gas vault and a staking system. -/
structure GasNode where
  vault : GasVault
  staking : ComputeStaking
  /-- `compute_staking_` is not null. -/
  attached : Bool

namespace GasNode

/-- The system that the vault sees. -/
def system (node : GasNode) : GasSystem :=
  ⟨node.vault, if node.attached then some node.staking else none⟩

/-! ### Atomic actions -/

def readTxCount (user : String) (node : GasNode) : UInt64 × GasNode :=
  -- `user_tx_counts_[user_address]` adds a zero where there is no count
  let txCount := (node.vault.userTxCounts.lookup user).getD 0
  (txCount,
    { node with vault :=
      { node.vault with userTxCounts := node.vault.userTxCounts.assign user txCount } })

def countTx (user : String) (node : GasNode) : GasNode :=
  let txCount := (node.vault.userTxCounts.lookup user).getD 0
  { node with vault :=
    { node.vault with userTxCounts := node.vault.userTxCounts.assign user (txCount + 1) } }

def addGasPaidByCompute (gas : UInt64) (node : GasNode) : GasNode :=
  { node with vault :=
    { node.vault with gasPaidByCompute := node.vault.gasPaidByCompute + gas } }

def addTotalGasPaid (gas : UInt64) (node : GasNode) : GasNode :=
  { node with vault := { node.vault with totalGasPaid := node.vault.totalGasPaid + gas } }

def takeReserves (gas : UInt64) (node : GasNode) : GasNode :=
  { node with vault := { node.vault with solReserves := node.vault.solReserves - gas } }

def addSolReserves (amount : UInt64) (node : GasNode) : GasNode :=
  { node with vault := { node.vault with solReserves := node.vault.solReserves + amount } }

/-- A call of the staking system. -/
def stakingCall (order : MapOrder) (arith : Doubles) (c : ComputeStaking.Call) (node : GasNode) :
    ComputeStaking.Reply × GasNode :=
  let (reply, staking) := ComputeStaking.step order arith node.staking c
  (reply, { node with staking := staking })

/-! ### Programs -/

def consumeGasAllowance (order : MapOrder) (user : String) (gas : UInt64) :
    Prog GasNode Mutex Bool :=
  .guarded .computeStaking <| .atomically fun node =>
    let (consumed, staking) := node.staking.consumeGasAllowance order user gas
    (consumed, { node with staking := staking })

/-- `pay_gas` once the staking system has answered. -/
def settleGas (user : String) (gas : UInt64) (consumed : Bool) : Prog GasNode Mutex Bool :=
  if consumed then do
    .write (addGasPaidByCompute gas)
    .write (addTotalGasPaid gas)
    .write (countTx user)
    return true
  else do
    let reserves ← .read fun node => node.vault.solReserves
    if reserves < gas then return false
    else
      .write (takeReserves gas)
      .write (addTotalGasPaid gas)
      .write (countTx user)
      return true

def payGas (order : MapOrder) (user : String) (gas : UInt64) : Prog GasNode Mutex Bool :=
  .guarded .gasVault do
    let txCount ← .atomically (readTxCount user)
    if txCount > 1000 then return false
    else
      let attached ← .read fun node => node.attached
      let consumed ← if attached then consumeGasAllowance order user gas else pure false
      settleGas user gas consumed

/-- One atomic addition, and no mutex. -/
def depositSol (amount : UInt64) (_source : String) : Prog GasNode Mutex Unit :=
  .write (addSolReserves amount)

inductive Call where
  | depositSol (amountLamports : UInt64) (source : String)
  | payGas (userAddress : String) (gasLamports : UInt64)
  | staking (c : ComputeStaking.Call)

inductive Reply where
  | done
  | paid (ok : Bool)
  | staking (reply : ComputeStaking.Reply)
  deriving DecidableEq

def perform (order : MapOrder) (arith : Doubles) : Call → Prog GasNode Mutex Reply
  | .depositSol amount source => do
    depositSol amount source
    return .done
  | .payGas user gas => do
    let ok ← payGas order user gas
    return .paid ok
  | .staking c => do
    let reply ← .guarded .computeStaking (.atomically (stakingCall order arith c))
    return .staking reply

/-- A call with its reply. -/
def performed (order : MapOrder) (arith : Doubles) (c : Call) :
    Prog GasNode Mutex (Call × Reply) := do
  let reply ← perform order arith c
  return (c, reply)

/-! ### Without other threads -/

theorem consumeGasAllowance_alone (order : MapOrder) (user : String) (gas : UInt64)
    (node : GasNode) :
    (consumeGasAllowance order user gas).alone node
      = ((node.staking.consumeGasAllowance order user gas).1,
        { node with staking := (node.staking.consumeGasAllowance order user gas).2 }) := by
  rw [consumeGasAllowance, Prog.alone_guarded]
  rfl

theorem settleGas_alone (user : String) (gas : UInt64) (consumed : Bool) (node : GasNode) :
    (settleGas user gas consumed).alone node =
      if consumed then (true, countTx user (addTotalGasPaid gas (addGasPaidByCompute gas node)))
      else if node.vault.solReserves < gas then (false, node)
      else (true, countTx user (addTotalGasPaid gas (takeReserves gas node))) := by
  rw [settleGas]
  cases consumed with
  | true => rfl
  | false =>
    show (if node.vault.solReserves < gas then (_ : Prog GasNode Mutex Bool) else _).alone node = _
    by_cases hreserves : node.vault.solReserves < gas
    · simp only [hreserves, if_true]
      rfl
    · simp only [hreserves, if_false]
      rfl

/-- With no other thread about, the program is the vault's `pay_gas`. -/
theorem payGas_alone (order : MapOrder) (user : String) (gas : UInt64) (node : GasNode) :
    (payGas order user gas).alone node =
      let (ok, vault, staking) := node.vault.payGas order node.system.staking user gas
      (ok, { node with vault := vault, staking := staking.getD node.staking }) := by
  obtain ⟨vault, staking, attached⟩ := node
  rw [payGas, Prog.alone_guarded, GasVault.payGas]
  simp only [Prog.monad_bind, Prog.atomically_bind, Prog.alone_act, readTxCount]
  by_cases hlimit : (vault.userTxCounts.lookup user).getD 0 > 1000
  · simp only [hlimit, if_true]
    cases attached <;> rfl
  · simp only [hlimit, if_false, Prog.read_bind, Prog.alone_act, id_eq]
    cases attached with
    | false =>
      simp only [Prog.monad_pure, Prog.done_bind, system, Bool.false_eq_true, if_false,
        GasVault.consumeAttached, settleGas_alone]
      split
      · rfl
      · simp [countTx, addTotalGasPaid, takeReserves]
    | true =>
      simp only [Prog.alone_bind, consumeGasAllowance_alone, system, if_true,
        GasVault.consumeAttached, settleGas_alone]
      split
      · simp [countTx, addTotalGasPaid, addGasPaidByCompute]
      · split
        · rfl
        · simp [countTx, addTotalGasPaid, takeReserves]

/-! ### Sums over every schedule -/

/-- What the actions of a call do to a quantity: `deposit` for a deposit; for a payment
`source` for taking the gas, from the reserves or by compute, `total` for the total and
`count` for counting it. -/
structure Effects (Q : GasNode → UInt64) (deposit source total : UInt64 → UInt64)
    (count : String → UInt64) : Prop where
  staking : ∀ node staking, Q { node with staking := staking } = Q node
  readTxCount : ∀ user node, Q (GasNode.readTxCount user node).2 = Q node
  addSolReserves : ∀ amount node, Q (GasNode.addSolReserves amount node) = Q node + deposit amount
  addGasPaidByCompute : ∀ gas node, Q (GasNode.addGasPaidByCompute gas node) = Q node + source gas
  takeReserves : ∀ gas node, Q (GasNode.takeReserves gas node) = Q node + source gas
  addTotalGasPaid : ∀ gas node, Q (GasNode.addTotalGasPaid gas node) = Q node + total gas
  countTx : ∀ user node, Q (GasNode.countTx user node) = Q node + count user

section

variable {Q : GasNode → UInt64} {deposit source total : UInt64 → UInt64} {count : String → UInt64}

/-- What a call with its reply has done to the quantity. -/
def change (deposit source total : UInt64 → UInt64) (count : String → UInt64) :
    Call × Reply → UInt64
  | (.depositSol amount _, _) => deposit amount
  | (.payGas user gas, .paid true) => source gas + total gas + count user
  | _ => 0

theorem adds_consumeGasAllowance (h : Effects Q deposit source total count) (order : MapOrder)
    (user : String) (gas : UInt64) :
    Adds Q (fun _ => 0) 0 (consumeGasAllowance order user gas) :=
  (adds_atomically fun node => h.staking node _).guarded Mutex.computeStaking

theorem adds_settleGas (h : Effects Q deposit source total count) (user : String) (gas : UInt64)
    (consumed : Bool) :
    Adds Q (fun ok => if ok then source gas + total gas + count user else 0) 0
      (settleGas user gas consumed) := by
  rw [settleGas]
  cases consumed with
  | true =>
    intro n₁ n₂ n₃
    show _ = source gas + total gas + count user
    rw [h.addGasPaidByCompute, h.addTotalGasPaid, h.countTx]
    simp only [add_sub_cancel_left, zero_add]
  | false =>
    refine (adds_read _).bind fun reserves => ?_
    split
    · rfl
    · intro n₁ n₂ n₃
      show _ = source gas + total gas + count user
      rw [h.takeReserves, h.addTotalGasPaid, h.countTx]
      simp only [add_sub_cancel_left, zero_add]

theorem adds_payGas (h : Effects Q deposit source total count) (order : MapOrder) (user : String)
    (gas : UInt64) :
    Adds Q (fun ok => if ok then source gas + total gas + count user else 0) 0
      (payGas order user gas) := by
  refine Adds.guarded ?_ Mutex.gasVault
  refine (adds_atomically (h.readTxCount user)).bind fun txCount => ?_
  split
  · rfl
  refine (adds_read _).bind fun attached => ?_
  cases attached with
  | true =>
    refine (adds_consumeGasAllowance h order user gas).bind fun consumed => ?_
    exact adds_settleGas h user gas consumed
  | false => exact adds_settleGas h user gas false

theorem adds_performed (h : Effects Q deposit source total count) (order : MapOrder)
    (arith : Doubles) (c : Call) :
    Adds Q (change deposit source total count) 0 (performed order arith c) := by
  cases c with
  | depositSol amount source =>
    intro node
    show (0 : UInt64) + (Q (addSolReserves amount node) - Q node) = deposit amount
    rw [h.addSolReserves, add_sub_cancel_left, zero_add]
  | payGas user gas =>
    have hpay : Adds Q (fun reply => change deposit source total count (.payGas user gas, reply)) 0
        (perform order arith (.payGas user gas)) := by
      refine (adds_payGas h order user gas).bind fun ok => ?_
      cases ok <;> rfl
    exact hpay.bind fun reply => rfl
  | staking c =>
    have hstaking : Adds Q (fun _ => 0) 0 (perform order arith (.staking c)) := by
      refine Adds.bind ?_ fun reply => rfl
      exact (adds_atomically fun node => h.staking node _).guarded Mutex.computeStaking
    exact hstaking.bind fun reply => rfl

end

theorem effects_totalGasPaid :
    Effects (fun node => node.vault.totalGasPaid) (fun _ => 0) (fun _ => 0) (fun gas => gas)
      (fun _ => 0) where
  staking _ _ := rfl
  readTxCount _ _ := rfl
  addSolReserves _ _ := (add_zero _).symm
  addGasPaidByCompute _ _ := (add_zero _).symm
  takeReserves _ _ := (add_zero _).symm
  addTotalGasPaid _ _ := rfl
  countTx _ _ := (add_zero _).symm

/-- The reserves and what has been paid from them. -/
def fundsSeen (node : GasNode) : UInt64 :=
  node.vault.solReserves + (node.vault.totalGasPaid - node.vault.gasPaidByCompute)

theorem effects_fundsSeen :
    Effects fundsSeen (fun amount => amount) (fun gas => -gas) (fun gas => gas) (fun _ => 0) where
  staking _ _ := rfl
  readTxCount _ _ := rfl
  addSolReserves amount node := by
    simp only [fundsSeen, addSolReserves]
    abel
  addGasPaidByCompute gas node := by
    simp only [fundsSeen, addGasPaidByCompute]
    abel
  takeReserves gas node := by
    simp only [fundsSeen, takeReserves]
    abel
  addTotalGasPaid gas node := by
    simp only [fundsSeen, addTotalGasPaid]
    abel
  countTx _ _ := (add_zero _).symm

def txCountOf (user : String) (node : GasNode) : UInt64 :=
  (node.vault.userTxCounts.lookup user).getD 0

theorem effects_txCountOf (user : String) :
    Effects (txCountOf user) (fun _ => 0) (fun _ => 0) (fun _ => 0)
      (fun payer => if payer = user then 1 else 0) where
  staking _ _ := rfl
  readTxCount payer node := by
    simp only [txCountOf, readTxCount]
    by_cases h : user = payer
    · rw [h, Store.lookup_assign_self]
      rfl
    · rw [Store.lookup_assign_ne _ _ h]
  addSolReserves _ _ := (add_zero _).symm
  addGasPaidByCompute _ _ := (add_zero _).symm
  takeReserves _ _ := (add_zero _).symm
  addTotalGasPaid _ _ := (add_zero _).symm
  countTx payer node := by
    simp only [txCountOf, countTx]
    by_cases h : user = payer
    · rw [h, Store.lookup_assign_self, if_pos rfl]
      rfl
    · rw [Store.lookup_assign_ne _ _ h, if_neg (Ne.symm h), add_zero]

/-- The gas of a successful payment. -/
def gasOf : Call × Reply → UInt64
  | (.payGas _ gas, .paid true) => gas
  | _ => 0

/-- What a call deposits. -/
def depositOf : Call → UInt64
  | .depositSol amount _ => amount
  | _ => 0

/-- One for a successful payment of `user`. -/
def txOf (user : String) : Call × Reply → UInt64
  | (.payGas payer _, .paid true) => if payer = user then 1 else 0
  | _ => 0

theorem change_totalGasPaid :
    change (fun _ => 0) (fun _ => 0) (fun gas => gas) (fun _ => 0) = gasOf := by
  funext ⟨c, reply⟩
  cases c with
  | payGas user gas =>
    rcases reply with _ | ok | reply
    · rfl
    · cases ok with
      | true => exact (add_zero _).trans (zero_add gas)
      | false => rfl
    · rfl
  | _ => rfl

theorem change_fundsSeen :
    change (fun amount => amount) (fun gas => -gas) (fun gas => gas) (fun _ => 0)
      = fun r => depositOf r.1 := by
  funext ⟨c, reply⟩
  cases c with
  | payGas user gas =>
    rcases reply with _ | ok | reply
    · rfl
    · cases ok with
      | true => exact (add_zero _).trans (neg_add_cancel gas)
      | false => rfl
    · rfl
  | _ => rfl

theorem change_txCountOf (user : String) :
    change (fun _ => 0) (fun _ => 0) (fun _ => 0) (fun payer => if payer = user then 1 else 0)
      = txOf user := by
  funext ⟨c, reply⟩
  cases c with
  | payGas payer gas =>
    rcases reply with _ | ok | reply
    · rfl
    · cases ok with
      | true => exact zero_add _
      | false => rfl
    · rfl
  | _ => rfl

/-- The sessions of the threads, on a node. -/
def threads {T : Type} (order : MapOrder) (arith : Doubles) (calls : T → List Call)
    (node : GasNode) : State T GasNode Mutex (List (Call × Reply)) :=
  start (fun t => Prog.session (performed order arith) [] (calls t)) node

theorem yields_performed (order : MapOrder) (arith : Doubles) (c : Call) :
    Yields (fun r => r.1 = c) (performed order arith c) :=
  (yields_true (perform order arith c)).bind fun _ _ => rfl

/-- When any number of threads have paid gas, deposited and used the staking system,
each any number of times and in any order of their actions, then the total is the gas
of all successful payments, the reserves are the deposits less the gas that compute did
not pay, and each user's count is that of the user's successful payments. -/
theorem books_balance {T : Type} [Fintype T] [DecidableEq T] (order : MapOrder) (arith : Doubles)
    (calls : T → List Call) (node : GasNode) {s : State T GasNode Mutex (List (Call × Reply))}
    {results : T → List (Call × Reply)} (hreach : Reachable (threads order arith calls node) s)
    (hfin : ∀ t, s.progs t = .done (results t)) :
    (∀ t, (results t).map Prod.fst = calls t) ∧
    s.data.vault.totalGasPaid = node.vault.totalGasPaid + ∑ t, ((results t).map gasOf).sum ∧
    fundsSeen s.data = fundsSeen node + ∑ t, ((calls t).map depositOf).sum ∧
    ∀ user, txCountOf user s.data
      = txCountOf user node + ∑ t, ((results t).map (txOf user)).sum := by
  have hcalls : ∀ t, (results t).map Prod.fst = calls t :=
    yields_of_finished (P := fun t rs => rs.map Prod.fst = calls t)
      (fun t => yields_session (yields_performed order arith) [] (calls t)) hreach hfin
  refine ⟨hcalls, ?_, ?_, fun user => ?_⟩
  · have hsum := sum_of_finished
      (fun t => adds_session (adds_performed effects_totalGasPaid order arith) [] (calls t))
      hreach hfin
    rwa [change_totalGasPaid] at hsum
  · have hsum := sum_of_finished
      (fun t => adds_session (adds_performed effects_fundsSeen order arith) [] (calls t))
      hreach hfin
    rw [change_fundsSeen] at hsum
    rw [hsum]
    congr 1
    refine Finset.sum_congr rfl fun t _ => ?_
    rw [← hcalls t, List.map_map]
    rfl
  · have hsum := sum_of_finished
      (fun t => adds_session (adds_performed (effects_txCountOf user) order arith) [] (calls t))
      hreach hfin
    rwa [change_txCountOf] at hsum

/-- One thread pays 3, the other deposits 5. -/
def payerAndDepositor : Bool → List Call
  | true => [.payGas "alice" 3]
  | false => [.depositSol 5 "treasury"]

def payerAndDepositorNode : GasNode := ⟨GasVault.new 10, ComputeStaking.new, true⟩

def payerAndDepositorResults : Bool → List (Call × Reply)
  | true => [(.payGas "alice" 3, .paid true)]
  | false => [(.depositSol 5 "treasury", .done)]

/-- The deposit may fall between the check of the reserves and their change. -/
theorem run_payerAndDepositor :
    ∃ s, run (threads newestFirst (.exact .wrapping) payerAndDepositor payerAndDepositorNode)
      [true, true, true, true, true, true, true, false, true, true, true, true] = some s ∧
      ∀ t, s.progs t = .done (payerAndDepositorResults t) := by
  refine ⟨_, rfl, fun t => ?_⟩
  cases t <;> rfl

theorem books_balance_payerAndDepositor :
    ∃ s, Reachable
        (threads newestFirst (.exact .wrapping) payerAndDepositor payerAndDepositorNode) s ∧
      (∀ t, (payerAndDepositorResults t).map Prod.fst = payerAndDepositor t) ∧
      s.data.vault.totalGasPaid = payerAndDepositorNode.vault.totalGasPaid +
        ∑ t, ((payerAndDepositorResults t).map gasOf).sum ∧
      fundsSeen s.data = fundsSeen payerAndDepositorNode +
        ∑ t, ((payerAndDepositor t).map depositOf).sum ∧
      ∀ user, txCountOf user s.data = txCountOf user payerAndDepositorNode +
        ∑ t, ((payerAndDepositorResults t).map (txOf user)).sum := by
  obtain ⟨s, hrun, hfin⟩ := run_payerAndDepositor
  have hreach := reachable_of_run hrun
  exact ⟨s, hreach,
    books_balance newestFirst (.exact .wrapping) payerAndDepositor payerAndDepositorNode hreach
      hfin⟩

end GasNode

end Membra
