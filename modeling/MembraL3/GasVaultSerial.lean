/-
Payments of concurrent threads are sequential ones.

In a run of any threads a payment takes effect at one moment: where it finds the
user's limit exceeded, where a stake answers, or where it reads the reserves.  What it
still has to write then is its own, since it holds the mutex of the vault, or commutes
with the deposits, which hold none.  The history of these moments is a sequential run
of the gas system with the same replies; in front of each payment it exchanges the
staking system for the state in which that had been asked.

* `payGas_of_counted` — what the vault's `pay_gas` does from where the program stands
  after counting;
* `linked_move` — a step of a thread keeps the state linked to a history;
* `payments_serialize` — the history of a finished run.
-/
import MembraL3.GasVaultThreads

namespace Membra

namespace GasNode

open Threads Runs

/-! ### Points of a payment -/

/-- Where a payment is while it holds the mutex of the vault. -/
inductive Point where
  /-- About to read the count. -/
  | counting
  /-- About to look whether a staking system is attached. -/
  | attaching
  /-- About to take its mutex. -/
  | wanting
  /-- About to ask it. -/
  | consuming
  /-- It has refused in the state `staking`. -/
  | refused (staking : Option ComputeStaking) (locked : Bool)
  /-- The reply is fixed, and `writes` are left. -/
  | settled (ok locked : Bool) (writes : List (GasNode → GasNode))

/-- Release the staking system first, if it is still locked. -/
def unlocking (locked : Bool) (p : Prog GasNode Mutex Bool) : Prog GasNode Mutex Bool :=
  if locked then .release .computeStaking p else p

def unlockVault (ok : Bool) : Prog GasNode Mutex Bool := .release .gasVault (.done ok)

/-- The last writes of a payment. -/
def writing (ok : Bool) : List (GasNode → GasNode) → Prog GasNode Mutex Bool
  | [] => unlockVault ok
  | w :: ws => .act w fun _ => writing ok ws

/-- `pay_gas` after the count. -/
def payCounted (order : MapOrder) (user : String) (gas : UInt64) : Prog GasNode Mutex Bool := do
  let attached ← .read fun node => node.attached
  let consumed ← if attached then consumeGasAllowance order user gas else pure false
  settleGas user gas consumed

/-- What is left of a payment. -/
def Point.prog (order : MapOrder) (user : String) (gas : UInt64) :
    Point → Prog GasNode Mutex Bool
  | .counting =>
    .act (fun node => (readTxCount user node).2) fun node =>
      Prog.bind
        (if (readTxCount user node).1 > 1000 then .done false else payCounted order user gas)
        unlockVault
  | .attaching => (payCounted order user gas).bind unlockVault
  | .wanting => ((consumeGasAllowance order user gas).bind (settleGas user gas)).bind unlockVault
  | .consuming =>
    .act
      (fun node =>
        { node with staking := (node.staking.consumeGasAllowance order user gas).2 })
      fun node => .release .computeStaking
        ((settleGas user gas (node.staking.consumeGasAllowance order user gas).1).bind unlockVault)
  | .refused _ locked => unlocking locked ((settleGas user gas false).bind unlockVault)
  | .settled ok locked writes => unlocking locked (writing ok writes)

/-- The writes that charge compute. -/
def computeWrites (user : String) (gas : UInt64) : List (GasNode → GasNode) :=
  [addGasPaidByCompute gas, addTotalGasPaid gas, countTx user]

/-- The writes that charge the reserves. -/
def reserveWrites (user : String) (gas : UInt64) : List (GasNode → GasNode) :=
  [takeReserves gas, addTotalGasPaid gas, countTx user]

theorem settleGas_false (user : String) (gas : UInt64) :
    (settleGas user gas false).bind unlockVault = .act id fun node =>
      if node.vault.solReserves < gas then writing false []
      else writing true (reserveWrites user gas) := by
  show Prog.act id (fun node : GasNode =>
    Prog.bind (if node.vault.solReserves < gas then _ else _) _) = _
  congr 1
  funext node
  split <;> rfl

/-! ### Points and the sequential vault -/

/-- A write to the vault that commutes with deposits. -/
structure OfVault (w : GasNode → GasNode) : Prop where
  deposit : ∀ amount node, w (addSolReserves amount node) = addSolReserves amount (w node)
  staking : ∀ staking node,
    w { node with staking := staking } = { w node with staking := staking }

/-- The node after the writes. -/
def written (writes : List (GasNode → GasNode)) (node : GasNode) : GasNode :=
  writes.foldl (fun node w => w node) node

theorem ofVault_computeWrites (user : String) (gas : UInt64) :
    ∀ w ∈ computeWrites user gas, OfVault w := by
  intro w hw
  simp only [computeWrites, List.mem_cons, List.not_mem_nil, or_false] at hw
  rcases hw with rfl | rfl | rfl <;> exact ⟨fun _ _ => rfl, fun _ _ => rfl⟩

theorem ofVault_reserveWrites (user : String) (gas : UInt64) :
    ∀ w ∈ reserveWrites user gas, OfVault w := by
  intro w hw
  simp only [reserveWrites, List.mem_cons, List.not_mem_nil, or_false] at hw
  rcases hw with rfl | rfl | rfl
  · refine ⟨fun amount node => ?_, fun _ _ => rfl⟩
    simp only [takeReserves, addSolReserves, add_sub_right_comm]
  · exact ⟨fun _ _ => rfl, fun _ _ => rfl⟩
  · exact ⟨fun _ _ => rfl, fun _ _ => rfl⟩

theorem written_addSolReserves {writes : List (GasNode → GasNode)}
    (h : ∀ w ∈ writes, OfVault w) (amount : UInt64) (node : GasNode) :
    written writes (addSolReserves amount node) = addSolReserves amount (written writes node) := by
  induction writes generalizing node with
  | nil => rfl
  | cons w ws ih =>
    obtain ⟨hw, hws⟩ := List.forall_mem_cons.mp h
    show written ws (w (addSolReserves amount node)) = _
    rw [hw.deposit]
    exact ih hws (w node)

theorem written_staking {writes : List (GasNode → GasNode)} (h : ∀ w ∈ writes, OfVault w)
    (staking : ComputeStaking) (node : GasNode) :
    written writes { node with staking := staking }
      = { written writes node with staking := staking } := by
  induction writes generalizing node with
  | nil => rfl
  | cons w ws ih =>
    obtain ⟨hw, hws⟩ := List.forall_mem_cons.mp h
    show written ws (w { node with staking := staking }) = _
    rw [hw.staking]
    exact ih hws (w node)

/-- The payment has counted its user, who is not over the limit; the sequential vault has
not. -/
def Counted (user : String) (node : GasNode) (vault : GasVault) : Prop :=
  let txCount := (vault.userTxCounts.lookup user).getD 0
  ¬ txCount > 1000 ∧
    node.vault = { vault with userTxCounts := vault.userTxCounts.assign user txCount }

/-- The vault's `pay_gas` from there. -/
theorem payGas_of_counted {user : String} {node : GasNode} {vault : GasVault}
    (h : Counted user node vault) (order : MapOrder) (staking : Option ComputeStaking)
    (gas : UInt64) :
    ((vault.payGas order staking user gas).1, (vault.payGas order staking user gas).2.1) =
      if (GasVault.consumeAttached order staking user gas).1 then
        (true, (written (computeWrites user gas) node).vault)
      else if node.vault.solReserves < gas then (false, node.vault)
      else (true, (written (reserveWrites user gas) node).vault) := by
  obtain ⟨hlimit, hvault⟩ := h
  have hcount : (node.vault.userTxCounts.lookup user).getD 0
      = (vault.userTxCounts.lookup user).getD 0 := by
    rw [hvault, Store.lookup_assign_self]
    rfl
  rw [GasVault.payGas]
  simp only [hlimit, if_false, written, computeWrites, reserveWrites, List.foldl_cons,
    List.foldl_nil, countTx, addTotalGasPaid, addGasPaidByCompute, takeReserves, hcount]
  split
  · simp only [hvault]
  · rw [hvault]
    split
    · rfl
    · rfl

/-! ### Phases of a thread -/

/-- Where a thread is in its session. -/
inductive Phase where
  | between (results : List (Call × Reply)) (calls : List Call)
  | paying (results : List (Call × Reply)) (user : String) (gas : UInt64) (point : Point)
      (calls : List Call)
  | staking (results : List (Call × Reply)) (c : ComputeStaking.Call)
      (reply : Option ComputeStaking.Reply) (calls : List Call)

/-- What is left of its session. -/
def Phase.prog (order : MapOrder) (arith : Doubles) :
    Phase → Prog GasNode Mutex (List (Call × Reply))
  | .between results calls => .session (performed order arith) results calls
  | .paying results user gas point calls =>
    (point.prog order user gas).bind fun ok =>
      .session (performed order arith) (results ++ [(.payGas user gas, .paid ok)]) calls
  | .staking results c none calls =>
    .act (fun node => (stakingCall order arith c node).2) fun node => .release .computeStaking
      (.session (performed order arith)
        (results ++ [(.staking c, .staking (stakingCall order arith c node).1)]) calls)
  | .staking results c (some reply) calls =>
    .release .computeStaking
      (.session (performed order arith) (results ++ [(.staking c, .staking reply)]) calls)

def Phase.Paying : Phase → Prop
  | .paying .. => True
  | _ => False

/-- A call of the vault with its reply, as one of the sequential system. -/
def ofVaultCall : Call × Reply → Option (GasSystem.Call × GasSystem.Reply)
  | (.depositSol amount source, .done) => some (.depositSol amount source, .done)
  | (.payGas user gas, .paid ok) => some (.payGas user gas, .paid ok)
  | _ => none

/-- The calls of the vault whose effect has been decided. -/
def Phase.decided : Phase → List (GasSystem.Call × GasSystem.Reply)
  | .between results _ => results.filterMap ofVaultCall
  | .paying results user gas (.settled ok _ _) _ =>
    results.filterMap ofVaultCall ++ [(.payGas user gas, .paid ok)]
  | .paying results _ _ _ _ => results.filterMap ofVaultCall
  | .staking results _ _ _ => results.filterMap ofVaultCall

/-- The relation between the node and the sequential vault while a payment is at `point`;
`Had` are the states that the staking system has been in. -/
def Point.Agrees (order : MapOrder) (Had : Option ComputeStaking → Prop) (user : String)
    (gas : UInt64) (node : GasNode) (vault : GasVault) : Point → Prop
  | .counting => vault = node.vault
  | .attaching => Counted user node vault
  | .wanting => Counted user node vault ∧ node.attached = true
  | .consuming => Counted user node vault ∧ node.attached = true
  | .refused staking _ =>
    Counted user node vault ∧ Had staking ∧
      (GasVault.consumeAttached order staking user gas).1 = false
  | .settled _ _ writes => vault = (written writes node).vault ∧ ∀ w ∈ writes, OfVault w

def Phase.Agrees (order : MapOrder) (Had : Option ComputeStaking → Prop) (node : GasNode)
    (vault : GasVault) : Phase → Prop
  | .paying _ user gas point _ => point.Agrees order Had user gas node vault
  | _ => True

section

variable {order : MapOrder} {Had : Option ComputeStaking → Prop} {node : GasNode}
  {vault : GasVault}

theorem Counted.deposit {user : String} (h : Counted user node vault) (amount : UInt64)
    (source : String) :
    Counted user (addSolReserves amount node) (vault.depositSol amount source) := by
  obtain ⟨hlimit, hvault⟩ := h
  refine ⟨hlimit, ?_⟩
  simp only [addSolReserves, hvault]
  rfl

/-- A deposit of another thread. -/
theorem Phase.Agrees.deposit {phase : Phase} (h : phase.Agrees order Had node vault)
    (amount : UInt64) (source : String) :
    phase.Agrees order Had (addSolReserves amount node) (vault.depositSol amount source) := by
  cases phase with
  | between results calls => trivial
  | staking results c reply calls => trivial
  | paying results user gas point calls =>
    cases point with
    | counting =>
      have hvault : vault = node.vault := h
      rw [hvault]
      rfl
    | attaching => exact Counted.deposit h amount source
    | wanting => exact ⟨h.1.deposit amount source, h.2⟩
    | consuming => exact ⟨h.1.deposit amount source, h.2⟩
    | refused staking locked => exact ⟨h.1.deposit amount source, h.2⟩
    | settled ok locked writes =>
      refine ⟨?_, h.2⟩
      rw [written_addSolReserves h.2, h.1]
      rfl

/-- A call of the staking system of another thread. -/
theorem Phase.Agrees.staking {phase : Phase} (h : phase.Agrees order Had node vault)
    (staking : ComputeStaking) :
    phase.Agrees order Had { node with staking := staking } vault := by
  cases phase with
  | between results calls => trivial
  | staking results c reply calls => trivial
  | paying results user gas point calls =>
    cases point with
    | settled ok locked writes =>
      refine ⟨?_, h.2⟩
      rw [written_staking h.2, h.1]
    | _ => exact h

theorem Phase.Agrees.mono {phase : Phase} (h : phase.Agrees order Had node vault)
    {Had' : Option ComputeStaking → Prop} (hhad : ∀ staking, Had staking → Had' staking) :
    phase.Agrees order Had' node vault := by
  cases phase with
  | paying results user gas point calls =>
    cases point with
    | refused staking locked => exact ⟨h.1, hhad staking h.2.1, h.2.2⟩
    | _ => exact h
  | _ => trivial

theorem Phase.Agrees.of_not_paying {phase : Phase} (h : ¬ phase.Paying) :
    phase.Agrees order Had node vault := by
  cases phase with
  | paying results user gas point calls => exact absurd trivial h
  | _ => trivial

end

/-! ### Histories -/

section

variable {T : Type}

/-- A call of the sequential system, made for a thread or, by an exchange of the staking
system, for none. -/
abbrev History (T : Type) := List (Option T × GasSystem.Call)

def serve (order : MapOrder) (sys : GasSystem) (c : Option T × GasSystem.Call) :
    GasSystem.Reply × GasSystem :=
  GasSystem.step order sys c.2

/-- The vault after a history. -/
def vaultAfter (order : MapOrder) (node : GasNode) (history : History T) : GasVault :=
  (final (serve order) node.system history).vault

/-- A call made for `t`, with its reply. -/
def servedTo [DecidableEq T] (t : T)
    (e : Event GasSystem (Option T × GasSystem.Call) GasSystem.Reply) :
    Option (GasSystem.Call × GasSystem.Reply) :=
  if e.call.1 = some t then some (e.call.2, e.result) else none

/-- The calls made for `t`, with their replies. -/
def repliesTo [DecidableEq T] (order : MapOrder) (node : GasNode) (history : History T) (t : T) :
    List (GasSystem.Call × GasSystem.Reply) :=
  (trace (serve order) node.system history).filterMap (servedTo t)

/-- A payment of `t`, with the staking system as it was when asked. -/
def servePayment (t : T) (staking : Option ComputeStaking) (user : String) (gas : UInt64) :
    History T :=
  [(none, .setComputeStaking staking), (some t, .payGas user gas)]

variable (order : MapOrder) (node : GasNode) (history : History T) (t : T)

theorem vaultAfter_deposit (amount : UInt64) (source : String) :
    vaultAfter order node (history ++ [(some t, .depositSol amount source)])
      = (vaultAfter order node history).depositSol amount source := by
  rw [vaultAfter, final_append]
  rfl

theorem vaultAfter_payment (staking : Option ComputeStaking) (user : String) (gas : UInt64) :
    vaultAfter order node (history ++ servePayment t staking user gas)
      = ((vaultAfter order node history).payGas order staking user gas).2.1 := by
  rw [vaultAfter, final_append]
  rfl

variable [DecidableEq T]

theorem repliesTo_append (new : History T) (t' : T) :
    repliesTo order node (history ++ new) t' = repliesTo order node history t' ++
      (trace (serve order) (final (serve order) node.system history) new).filterMap
        (servedTo t') := by
  rw [repliesTo, trace_append, List.filterMap_append]
  rfl

theorem repliesTo_deposit (amount : UInt64) (source : String) (t' : T) :
    repliesTo order node (history ++ [(some t, .depositSol amount source)]) t'
      = repliesTo order node history t' ++
        if t = t' then [(.depositSol amount source, .done)] else [] := by
  rw [repliesTo_append]
  by_cases h : t = t'
  · simp [servedTo, serve, GasSystem.step, h]
  · simp [servedTo, h]

theorem repliesTo_payment (staking : Option ComputeStaking) (user : String) (gas : UInt64)
    (t' : T) :
    repliesTo order node (history ++ servePayment t staking user gas) t'
      = repliesTo order node history t' ++
        if t = t' then [(.payGas user gas,
          .paid ((vaultAfter order node history).payGas order staking user gas).1)] else [] := by
  rw [repliesTo_append]
  by_cases h : t = t'
  · simp [servePayment, servedTo, serve, GasSystem.step, vaultAfter, h]
  · simp [servePayment, servedTo, h]

end

/-! ### Linked states -/

/-- The threads are in these phases, and what they have decided is this history. -/
structure Linked {T : Type} [DecidableEq T] (order : MapOrder) (arith : Doubles) (node : GasNode)
    (Had : Option ComputeStaking → Prop) (phase : T → Phase)
    (s : State T GasNode Mutex (List (Call × Reply))) (history : History T) : Prop where
  progs : ∀ t, s.progs t = (phase t).prog order arith
  owner : ∀ t, s.owner .gasVault = some t ↔ (phase t).Paying
  agrees : ∀ t, (phase t).Agrees order Had s.data (vaultAfter order node history)
  idle : s.owner .gasVault = none → vaultAfter order node history = s.data.vault
  decided : ∀ t, repliesTo order node history t = (phase t).decided
  exchanged : ∀ e ∈ history, e.1 = none → ∃ staking, Had staking ∧ e.2 = .setComputeStaking staking

/-- What is done to the mutex of the staking system is nothing to that of the vault. -/
theorem owner_gasVault {T : Type} (s : State T GasNode Mutex (List (Call × Reply))) (o : Option T) :
    Function.update s.owner .computeStaking o .gasVault = s.owner .gasVault :=
  Function.update_of_ne (by decide) ..

section

variable {T : Type} [DecidableEq T] {order : MapOrder} {arith : Doubles} {node : GasNode}
  {Had : Option ComputeStaking → Prop} {phase : T → Phase}
  {s s' : State T GasNode Mutex (List (Call × Reply))} {history : History T} {t : T}

theorem linked_threads (order : MapOrder) (arith : Doubles) (calls : T → List Call) (node : GasNode)
    (Had : Option ComputeStaking → Prop) :
    Linked order arith node Had (fun t => .between [] (calls t)) (threads order arith calls node)
      [] where
  progs _ := rfl
  owner t := iff_of_false (fun h => Option.some_ne_none t h.symm) id
  agrees _ := trivial
  idle _ := rfl
  decided _ := rfl
  exchanged _ he := absurd he List.not_mem_nil

/-- More states may come to be counted as had. -/
theorem Linked.mono (h : Linked order arith node Had phase s history)
    {Had' : Option ComputeStaking → Prop} (hhad : ∀ staking, Had staking → Had' staking) :
    Linked order arith node Had' phase s history where
  progs := h.progs
  owner := h.owner
  agrees t := (h.agrees t).mono hhad
  idle := h.idle
  decided := h.decided
  exchanged e he hnone := by
    obtain ⟨staking, hstaking, hcall⟩ := h.exchanged e he hnone
    exact ⟨staking, hhad staking hstaking, hcall⟩

/-- Only the owner of the vault's mutex is paying. -/
theorem Linked.not_paying (h : Linked order arith node Had phase s history) (ht : (phase t).Paying)
    {t' : T} (hne : t' ≠ t) : ¬ (phase t').Paying := by
  intro ht'
  exact hne (Option.some.inj (((h.owner t').mpr ht').symm.trans ((h.owner t).mpr ht)))

/-- After a step of `t` to the phase `p`. -/
theorem Linked.next (h : Linked order arith node Had phase s history) {p : Phase}
    (s' : State T GasNode Mutex (List (Call × Reply))) (new : History T)
    (hprogs : s'.progs = Function.update s.progs t (p.prog order arith))
    (howner : ∀ t', s'.owner .gasVault = some t' ↔ (Function.update phase t p t').Paying)
    (hself : p.Agrees order Had s'.data (vaultAfter order node (history ++ new)))
    (hothers : ∀ t', t' ≠ t →
      (phase t').Agrees order Had s'.data (vaultAfter order node (history ++ new)))
    (hidle : s'.owner .gasVault = none →
      vaultAfter order node (history ++ new) = s'.data.vault)
    (hdecided : repliesTo order node (history ++ new) t = p.decided)
    (hundecided : ∀ t', t' ≠ t →
      repliesTo order node (history ++ new) t' = repliesTo order node history t')
    (hnew : ∀ e ∈ new, e.1 = none → ∃ staking, Had staking ∧ e.2 = .setComputeStaking staking) :
    Linked order arith node Had (Function.update phase t p) s' (history ++ new) where
  progs t' := by
    rw [hprogs]
    by_cases heq : t' = t
    · subst heq
      rw [Function.update_self, Function.update_self]
    · rw [Function.update_of_ne heq, Function.update_of_ne heq]
      exact h.progs t'
  owner := howner
  agrees t' := by
    by_cases heq : t' = t
    · subst heq
      rwa [Function.update_self]
    · rw [Function.update_of_ne heq]
      exact hothers t' heq
  idle := hidle
  decided t' := by
    by_cases heq : t' = t
    · subst heq
      rwa [Function.update_self]
    · rw [Function.update_of_ne heq, hundecided t' heq]
      exact h.decided t'
  exchanged e he := (List.mem_append.mp he).elim (h.exchanged e) (hnew e)

/-- The owner of the vault's mutex where a thread goes on to a phase of the same kind. -/
theorem Linked.owner_update (h : Linked order arith node Had phase s history) {p : Phase}
    (howner : s'.owner .gasVault = s.owner .gasVault) (hp : p.Paying ↔ (phase t).Paying) (t' : T) :
    s'.owner .gasVault = some t' ↔ (Function.update phase t p t').Paying := by
  rw [howner, h.owner]
  by_cases heq : t' = t
  · subst heq
    rw [Function.update_self, hp]
  · rw [Function.update_of_ne heq]

/-- A step that decides nothing and changes no data. -/
theorem Linked.next_silent (h : Linked order arith node Had phase s history) {p : Phase}
    (hprogs : s'.progs = Function.update s.progs t (p.prog order arith))
    (hdata : s'.data = s.data) (howner : s'.owner .gasVault = s.owner .gasVault)
    (hp : p.Paying ↔ (phase t).Paying)
    (hself : p.Agrees order Had s.data (vaultAfter order node history))
    (hdecided : p.decided = (phase t).decided) :
    Linked order arith node Had (Function.update phase t p) s' history := by
  have hnext := h.next s' [] hprogs (h.owner_update howner hp)
  simp only [List.append_nil, hdata, howner] at hnext
  exact hnext hself (fun t' _ => h.agrees t') h.idle ((h.decided t).trans hdecided.symm)
    (fun _ _ => trivial) fun _ he => absurd he List.not_mem_nil

/-- A step of the payment that holds the vault's mutex, and decides nothing. -/
theorem Linked.next_point (h : Linked order arith node Had phase s history)
    (point' : Point) {results : List (Call × Reply)} {user : String} {gas : UInt64}
    {point : Point} {calls : List Call} (ht : phase t = .paying results user gas point calls)
    (hprogs : s'.progs =
      Function.update s.progs t ((Phase.paying results user gas point' calls).prog order arith))
    (howner : s'.owner .gasVault = s.owner .gasVault)
    (hself : point'.Agrees order Had user gas s'.data (vaultAfter order node history))
    (hdecided : (Phase.paying results user gas point' calls).decided = (phase t).decided) :
    Linked order arith node Had
      (Function.update phase t (.paying results user gas point' calls)) s' history := by
  have hpaying : (phase t).Paying := by
    rw [ht]
    trivial
  have hheld : s'.owner .gasVault = some t := howner.trans ((h.owner t).mpr hpaying)
  have hnext := h.next s' [] hprogs (h.owner_update howner (iff_of_true trivial hpaying))
  simp only [List.append_nil] at hnext
  exact hnext hself (fun t' hne => .of_not_paying (h.not_paying hpaying hne))
    (fun hnone => absurd (hheld.symm.trans hnone) (by simp))
    ((h.decided t).trans hdecided.symm) (fun _ _ => trivial) fun _ he => absurd he List.not_mem_nil

/-- The step that decides a payment. -/
theorem Linked.next_settled (h : Linked order arith node Had phase s history) (ok locked : Bool)
    (writes : List (GasNode → GasNode)) {results : List (Call × Reply)} {user : String}
    {gas : UInt64} {point : Point} {calls : List Call}
    (ht : phase t = .paying results user gas point calls)
    (hundecided : (phase t).decided = results.filterMap ofVaultCall)
    {staking : Option ComputeStaking} (hhad : Had staking)
    (hprogs : s'.progs = Function.update s.progs t
      ((Phase.paying results user gas (.settled ok locked writes) calls).prog order arith))
    (howner : s'.owner .gasVault = s.owner .gasVault)
    (hpaid : (((vaultAfter order node history).payGas order staking user gas).1,
      ((vaultAfter order node history).payGas order staking user gas).2.1)
        = (ok, (written writes s'.data).vault))
    (hwrites : ∀ w ∈ writes, OfVault w) :
    Linked order arith node Had
      (Function.update phase t (.paying results user gas (.settled ok locked writes) calls)) s'
      (history ++ servePayment t staking user gas) := by
  have hpaying : (phase t).Paying := by
    rw [ht]
    trivial
  have hheld : s'.owner .gasVault = some t := howner.trans ((h.owner t).mpr hpaying)
  obtain ⟨hok, hvault⟩ := Prod.mk.inj hpaid
  refine h.next s' _ hprogs (h.owner_update howner (iff_of_true trivial hpaying)) ?_
    (fun t' hne => .of_not_paying (h.not_paying hpaying hne))
    (fun hnone => absurd (hheld.symm.trans hnone) (by simp)) ?_ (fun t' hne => ?_) ?_
  · rw [vaultAfter_payment]
    exact ⟨hvault, hwrites⟩
  · rw [repliesTo_payment, if_pos rfl, h.decided, hundecided, hok]
    rfl
  · rw [repliesTo_payment, if_neg (Ne.symm hne), List.append_nil]
  · intro e he hnone
    rcases List.mem_cons.mp he with rfl | he
    · exact ⟨staking, hhad, rfl⟩
    · rw [List.mem_singleton.mp he] at hnone
      exact absurd hnone (by simp)

/-! ### One step -/

theorem performed_payGas_bind {β : Type} (arith : Doubles) (user : String) (gas : UInt64)
    (k : Call × Reply → Prog GasNode Mutex β) :
    (performed order arith (.payGas user gas)).bind k
      = .acquire .gasVault ((Point.counting.prog order user gas).bind fun ok =>
          k (.payGas user gas, .paid ok)) := by
  show Prog.acquire _ ((((Point.counting.prog order user gas).bind _).bind _).bind k) = _
  rw [Prog.bind_assoc, Prog.bind_assoc]
  rfl

/-- A thread between two calls begins the next one. -/
theorem linked_of_between (h : Linked order arith node Had phase s history)
    {results : List (Call × Reply)} {calls : List Call} (ht : phase t = .between results calls)
    (hmove : move s t = some s') :
    ∃ phase' history', Linked order arith node Had phase' s' history' := by
  have hp := h.progs t
  rw [ht] at hp
  have hidle : ¬ (phase t).Paying := by
    rw [ht]
    exact id
  cases calls with
  | nil => exact absurd hmove (by rw [move_of_done hp]; simp)
  | cons c calls =>
    cases c with
    | depositSol amount source =>
      obtain rfl := eq_of_move_act hp hmove
      refine ⟨_, _, h.next (p := .between (results ++ [(.depositSol amount source, .done)]) calls)
        _ [(some t, .depositSol amount source)] rfl (h.owner_update rfl (iff_of_false id hidle))
        trivial (fun t' _ => ?_) (fun hnone => ?_) ?_ (fun t' hne => ?_) ?_⟩
      · rw [vaultAfter_deposit]
        exact (h.agrees t').deposit amount source
      · rw [vaultAfter_deposit, h.idle hnone]
        rfl
      · rw [repliesTo_deposit, if_pos rfl, h.decided, ht]
        show results.filterMap ofVaultCall ++ _ = (results ++ [_]).filterMap ofVaultCall
        rw [List.filterMap_append]
        rfl
      · rw [repliesTo_deposit, if_neg (Ne.symm hne), List.append_nil]
      · intro e he hnone
        rw [List.mem_singleton.mp he] at hnone
        exact absurd hnone (by simp)
    | payGas user gas =>
      have hp' := hp.trans (performed_payGas_bind arith user gas _)
      obtain ⟨hfree, rfl⟩ := eq_of_move_acquire hp' hmove
      have hnone : ∀ t', ¬ (phase t').Paying := fun t' hpaying =>
        Option.some_ne_none t' (((h.owner t').mpr hpaying).symm.trans hfree)
      have hnext := h.next (p := .paying results user gas .counting calls) (t := t)
        { s.goTo t _ with owner := Function.update s.owner .gasVault (some t) } [] rfl
      simp only [List.append_nil, Function.update_self] at hnext
      refine ⟨_, _, hnext (fun t' => ?_) (h.idle hfree) (fun t' _ => .of_not_paying (hnone t'))
        (fun howner => absurd howner (by simp)) ?_ (fun _ _ => trivial)
        fun _ he => absurd he List.not_mem_nil⟩
      · by_cases heq : t' = t
        · subst heq
          rw [Function.update_self]
          exact iff_of_true rfl trivial
        · rw [Function.update_of_ne heq]
          exact iff_of_false (fun howner => heq (Option.some.inj howner).symm) (hnone t')
      · rw [h.decided, ht]
        rfl
    | staking c =>
      obtain ⟨-, rfl⟩ := eq_of_move_acquire hp hmove
      refine ⟨_, _, h.next_silent (p := .staking results c none calls) rfl rfl ?_
        (iff_of_false id hidle) trivial ?_⟩
      · exact owner_gasVault s (some t)
      · rw [ht]
        rfl

/-- A thread that holds the mutex of the staking system, outside a payment. -/
theorem linked_of_staking (h : Linked order arith node Had phase s history)
    {results : List (Call × Reply)} {c : ComputeStaking.Call}
    {reply : Option ComputeStaking.Reply} {calls : List Call}
    (ht : phase t = .staking results c reply calls) (hmove : move s t = some s') :
    ∃ phase' history', Linked order arith node Had phase' s' history' := by
  have hp := h.progs t
  rw [ht] at hp
  have hidle : ¬ (phase t).Paying := by
    rw [ht]
    exact id
  cases reply with
  | none =>
    obtain rfl := eq_of_move_act hp hmove
    have hnext := h.next (p := .staking results c (some (stakingCall order arith c s.data).1) calls)
      { s.goTo t _ with data := (stakingCall order arith c s.data).2 } [] rfl
      (h.owner_update rfl (iff_of_false id hidle))
    simp only [List.append_nil] at hnext
    refine ⟨_, _, hnext trivial (fun t' _ => (h.agrees t').staking _) h.idle ?_
      (fun _ _ => trivial) fun _ he => absurd he List.not_mem_nil⟩
    rw [h.decided, ht]
    rfl
  | some reply =>
    obtain rfl := eq_of_move_release hp hmove
    refine ⟨_, _, h.next_silent (p := .between (results ++ [(.staking c, .staking reply)]) calls)
      rfl rfl ?_ (iff_of_false id hidle) trivial ?_⟩
    · exact owner_gasVault s none
    · rw [ht]
      show (results ++ [_]).filterMap ofVaultCall = results.filterMap ofVaultCall
      rw [List.filterMap_append]
      exact List.append_nil _

/-- The payment that holds the mutex of the vault. -/
theorem linked_of_paying (h : Linked order arith node Had phase s history)
    (hhad : Had s.data.system.staking) {results : List (Call × Reply)} {user : String}
    {gas : UInt64} {point : Point} {calls : List Call}
    (ht : phase t = .paying results user gas point calls) (hmove : move s t = some s') :
    ∃ phase' history', Linked order arith node Had phase' s' history' := by
  have hp := h.progs t
  rw [ht] at hp
  have hagrees := h.agrees t
  rw [ht] at hagrees
  have hdecided : (phase t).decided = (Phase.paying results user gas point calls).decided := by
    rw [ht]
  cases point with
  | counting =>
    obtain rfl := eq_of_move_act hp hmove
    have hvault : vaultAfter order node history = s.data.vault := hagrees
    by_cases hlimit : (readTxCount user s.data).1 > 1000
    · -- the limit is exceeded
      refine ⟨_, _, h.next_settled false false [] ht hdecided hhad
        ?_ rfl ?_ (fun _ hw => absurd hw List.not_mem_nil)⟩
      · simp only [hlimit, if_true]
        rfl
      · have hlimit' : (s.data.vault.userTxCounts.lookup user).getD 0 > 1000 := hlimit
        rw [hvault, GasVault.payGas]
        simp only [hlimit', if_true]
        rfl
    · refine ⟨_, _, h.next_point .attaching ht ?_ rfl ?_ hdecided.symm⟩
      · simp only [hlimit, if_false]
        rfl
      · show Counted user _ _
        rw [hvault]
        exact ⟨hlimit, rfl⟩
  | attaching =>
    obtain rfl := eq_of_move_act hp hmove
    have hcounted : Counted user s.data (vaultAfter order node history) := hagrees
    cases hattached : s.data.attached with
    | true =>
      refine ⟨_, _, h.next_point .wanting ht ?_ rfl ⟨hcounted, hattached⟩
        hdecided.symm⟩
      simp only [hattached]
      rfl
    | false =>
      -- no staking system: that refuses as well
      have hnone : s.data.system.staking = none := by
        rw [system, hattached]
        rfl
      refine ⟨_, _, h.next_point (.refused none false) ht ?_ rfl
        ⟨hcounted, hnone ▸ hhad, rfl⟩ hdecided.symm⟩
      simp only [hattached]
      rfl
  | wanting =>
    obtain ⟨hcounted, hattached⟩ := hagrees
    obtain ⟨-, rfl⟩ := eq_of_move_acquire hp hmove
    exact ⟨_, _, h.next_point .consuming ht rfl (owner_gasVault s (some t))
      ⟨hcounted, hattached⟩ hdecided.symm⟩
  | consuming =>
    obtain ⟨hcounted, hattached⟩ := hagrees
    obtain rfl := eq_of_move_act hp hmove
    have hstaking : s.data.system.staking = some s.data.staking := by
      rw [system, hattached]
      rfl
    cases hconsumed : (s.data.staking.consumeGasAllowance order user gas).1 with
    | true =>
      have hcovered : (GasVault.consumeAttached order s.data.system.staking user gas).1 = true := by
        rw [hstaking]
        exact hconsumed
      refine ⟨_, _, h.next_settled true true (computeWrites user gas) ht hdecided hhad ?_ rfl ?_
        (ofVault_computeWrites user gas)⟩
      · simp only [hconsumed]
        rfl
      · rw [payGas_of_counted hcounted, if_pos hcovered]
        rfl
    | false =>
      refine ⟨_, _, h.next_point (.refused s.data.system.staking true) ht ?_ rfl
        ⟨hcounted, hhad, ?_⟩ hdecided.symm⟩
      · simp only [hconsumed]
        rfl
      · rw [hstaking]
        exact hconsumed
  | refused staking locked =>
    obtain ⟨hcounted, hstaking, hrefused⟩ := hagrees
    cases locked with
    | true =>
      obtain rfl := eq_of_move_release hp hmove
      exact ⟨_, _, h.next_point (.refused staking false) ht rfl (owner_gasVault s none)
        ⟨hcounted, hstaking, hrefused⟩ hdecided.symm⟩
    | false =>
      -- the reserves decide
      have hp' : s.progs t = .act id fun node => Prog.bind
          (if node.vault.solReserves < gas then writing false []
            else writing true (reserveWrites user gas))
          fun ok =>
            .session (performed order arith) (results ++ [(.payGas user gas, .paid ok)]) calls := by
        rw [hp]
        show ((settleGas user gas false).bind unlockVault).bind _ = _
        rw [settleGas_false]
        rfl
      obtain rfl := eq_of_move_act hp' hmove
      have hpaid := payGas_of_counted hcounted order staking gas
      rw [hrefused] at hpaid
      by_cases hreserves : s.data.vault.solReserves < gas
      · refine ⟨_, _, h.next_settled false false [] ht hdecided
          hstaking ?_ rfl ?_ (fun _ hw => absurd hw List.not_mem_nil)⟩
        · simp only [hreserves, if_true]
          rfl
        · rw [hpaid]
          simp only [hreserves, Bool.false_eq_true, if_false, if_true]
          rfl
      · refine ⟨_, _, h.next_settled true false (reserveWrites user gas) ht hdecided hstaking
          ?_ rfl ?_ (ofVault_reserveWrites user gas)⟩
        · simp only [hreserves, if_false]
          rfl
        · rw [hpaid]
          simp only [hreserves, Bool.false_eq_true, if_false]
          rfl
  | settled ok locked writes =>
    obtain ⟨hvault, hwrites⟩ := hagrees
    cases locked with
    | true =>
      obtain rfl := eq_of_move_release hp hmove
      exact ⟨_, _, h.next_point (.settled ok false writes) ht rfl (owner_gasVault s none)
        ⟨hvault, hwrites⟩ hdecided.symm⟩
    | false =>
      cases writes with
      | cons w ws =>
        obtain rfl := eq_of_move_act hp hmove
        exact ⟨_, _, h.next_point (.settled ok false ws) ht rfl rfl
          ⟨hvault, (List.forall_mem_cons.mp hwrites).2⟩ hdecided.symm⟩
      | nil =>
        obtain rfl := eq_of_move_release hp hmove
        have hpaying : (phase t).Paying := by
          rw [ht]
          trivial
        have hnext := h.next (p := .between (results ++ [(.payGas user gas, .paid ok)]) calls)
          (t := t) { s.goTo t _ with owner := Function.update s.owner .gasVault none } [] rfl
        simp only [List.append_nil, Function.update_self] at hnext
        refine ⟨_, _, hnext (fun t' => ?_) trivial
          (fun t' hne => .of_not_paying (h.not_paying hpaying hne)) (fun _ => hvault) ?_
          (fun _ _ => trivial) fun _ he => absurd he List.not_mem_nil⟩
        · refine iff_of_false (by simp) ?_
          by_cases heq : t' = t
          · subst heq
            rw [Function.update_self]
            exact id
          · rw [Function.update_of_ne heq]
            exact h.not_paying hpaying heq
        · rw [h.decided, hdecided]
          show results.filterMap ofVaultCall ++ _ = (results ++ [_]).filterMap ofVaultCall
          rw [List.filterMap_append]
          rfl

theorem linked_move (h : Linked order arith node Had phase s history)
    (hhad : Had s.data.system.staking) (hmove : move s t = some s') :
    ∃ phase' history', Linked order arith node Had phase' s' history' := by
  cases ht : phase t with
  | between results calls => exact linked_of_between h ht hmove
  | paying results user gas point calls => exact linked_of_paying h hhad ht hmove
  | staking results c reply calls => exact linked_of_staking h ht hmove

/-! ### Runs -/

/-- The staking system has been in this state on the way to `s`. -/
def Seen (start s : State T GasNode Mutex (List (Call × Reply)))
    (staking : Option ComputeStaking) : Prop :=
  ∃ s', Reachable start s' ∧ Reachable s' s ∧ s'.data.system.staking = staking

theorem exists_linked {calls : T → List Call}
    (hreach : Reachable (threads order arith calls node) s) :
    ∃ phase history,
      Linked order arith node (Seen (threads order arith calls node) s) phase s history := by
  have hboth := reachable_induction
    (P := fun s => Reachable (threads order arith calls node) s ∧ ∃ phase history,
      Linked order arith node (Seen (threads order arith calls node) s) phase s history)
    ⟨.refl, _, [], linked_threads order arith calls node _⟩ ?_ hreach
  · exact hboth.2
  rintro s₁ s₂ t ⟨hreach₁, phase, history, hlinked⟩ hmove
  obtain ⟨phase', history', hlinked'⟩ := linked_move hlinked ⟨s₁, hreach₁, .refl, rfl⟩ hmove
  refine ⟨hreach₁.tail ⟨t, hmove⟩, phase', history', hlinked'.mono ?_⟩
  rintro staking ⟨s', hreach', hlater, hstaking⟩
  exact ⟨s', hreach', hlater.tail ⟨t, hmove⟩, hstaking⟩

/-- A thread that has returned is between two calls, with none to go. -/
theorem Phase.eq_of_done {p : Phase} {results : List (Call × Reply)}
    (h : p.prog order arith = .done results) : p = .between results [] := by
  cases p with
  | between results' calls =>
    cases calls with
    | nil =>
      cases h
      rfl
    | cons c calls => cases c <;> cases h
  | paying results' user gas point calls =>
    cases point with
    | refused staking locked => cases locked <;> cases h
    | settled ok locked writes => cases locked <;> cases writes <;> cases h
    | _ => cases h
  | staking results' c reply calls => cases reply <;> cases h

end

/-- Every run of any threads, to its end, has a history: a sequential run of the gas
system that leaves the same vault, in which each thread makes its calls in its order and
receives the replies it has received, and which otherwise only exchanges the staking
system for states that it has been in on the way. -/
theorem payments_serialize {T : Type} [DecidableEq T] (order : MapOrder) (arith : Doubles)
    (calls : T → List Call) (node : GasNode) {s : State T GasNode Mutex (List (Call × Reply))}
    {results : T → List (Call × Reply)} (hreach : Reachable (threads order arith calls node) s)
    (hfin : ∀ t, s.progs t = .done (results t)) :
    ∃ history : History T,
      vaultAfter order node history = s.data.vault ∧
      (∀ t, (results t).map Prod.fst = calls t ∧
        repliesTo order node history t = (results t).filterMap ofVaultCall) ∧
      ∀ e ∈ history, e.1 = none →
        ∃ s', Reachable (threads order arith calls node) s' ∧ Reachable s' s ∧
          e.2 = .setComputeStaking s'.data.system.staking := by
  obtain ⟨phase, history, h⟩ := exists_linked hreach
  have hphase : ∀ t, phase t = .between (results t) [] := fun t =>
    Phase.eq_of_done ((h.progs t).symm.trans (hfin t))
  refine ⟨history, h.idle ?_, fun t => ⟨?_, ?_⟩, fun e he hnone => ?_⟩
  · rw [Option.eq_none_iff_forall_ne_some]
    intro t howner
    have hpaying := (h.owner t).mp howner
    rw [hphase t] at hpaying
    exact hpaying
  · exact yields_of_finished (P := fun t rs => rs.map Prod.fst = calls t)
      (fun t => yields_session (yields_performed order arith) [] (calls t)) hreach hfin t
  · rw [h.decided, hphase t]
    rfl
  · obtain ⟨staking, ⟨s', hreach', hlater, rfl⟩, hcall⟩ := h.exchanged e he hnone
    exact ⟨s', hreach', hlater, hcall⟩

theorem payments_serialize_payerAndDepositor :
    ∃ s : State Bool GasNode Mutex (List (Call × Reply)), ∃ history : History Bool,
      (∀ t, s.progs t = .done (payerAndDepositorResults t)) ∧
      vaultAfter newestFirst payerAndDepositorNode history = s.data.vault ∧
      (∀ t, (payerAndDepositorResults t).map Prod.fst = payerAndDepositor t ∧
        repliesTo newestFirst payerAndDepositorNode history t
          = (payerAndDepositorResults t).filterMap ofVaultCall) ∧
      ∀ e ∈ history, e.1 = none →
        ∃ s', Reachable
            (threads newestFirst (.exact .wrapping) payerAndDepositor payerAndDepositorNode) s' ∧
          Reachable s' s ∧ e.2 = .setComputeStaking s'.data.system.staking := by
  obtain ⟨s, hrun, hfin⟩ := run_payerAndDepositor
  obtain ⟨history, hserial⟩ := payments_serialize newestFirst (.exact .wrapping)
    payerAndDepositor payerAndDepositorNode (reachable_of_run hrun) hfin
  exact ⟨s, history, hfin, hserial⟩

end GasNode

end Membra
