/-
Clients that have receipts compensated.

Any number of clients price receipts and, when they are told that they can be
compensated, mark them; the two calls of a client take the lock one after the
other, and calls of others come in between.  A `CompensationSystem` is the ledger with
the clients that have been told yes and those that have been paid.

* `usedIffPaid_final` — a receipt is used exactly if a client has been paid for it;
* `atMostOnce_iff_marksUnused` — one client for each receipt, exactly when every client
  that marks a receipt finds it unused.
-/
import MembraL3.ReceiverPaidGas

namespace Membra

/-- The ledger, the clients whose last price said `can_compensate` and who have not
marked yet, and the clients who have marked since the receipt was created. -/
structure CompensationSystem where
  gas : ReceiverPaidGas
  allowed : List (ℕ × String)
  paid : List (ℕ × String)

namespace CompensationSystem

open Runs ReceiverPaidGas

def new (now : Seconds) : CompensationSystem := ⟨.new now, [], []⟩

inductive Call where
  | createReceipt (payment : GasPayment) (blockNow createdNow : Seconds)
  | updateOracle (gasTwap priorityFeeTwap : UInt64) (solUsd membraUsd : ℚ) (now : Seconds)
  | setCompensationEnabled (enabled : Bool)
  | calculate (client : ℕ) (receiptId : String) (staleNow dayNow : Seconds)
  | mark (client : ℕ) (receiptId : String)

inductive Result where
  | created (receiptId : String)
  | updated
  | set
  | price (compensation : Option UInt64)
  | marked (ok : Bool)
  | notAllowed

/-- A client marks only what it may.  A receipt that is overwritten is another one, for
which nobody has been paid. -/
def step (arith : Doubles) (system : CompensationSystem) : Call → Result × CompensationSystem
  | .createReceipt payment blockNow createdNow =>
    let (id, gas) := system.gas.createReceipt payment blockNow createdNow
    (.created id, { system with gas := gas, paid := system.paid.filter fun p => p.2 ≠ id })
  | .updateOracle gasTwap priorityFeeTwap solUsd membraUsd now =>
    (.updated,
      { system with gas := system.gas.updateOracle gasTwap priorityFeeTwap solUsd membraUsd now })
  | .setCompensationEnabled enabled =>
    (.set, { system with gas := system.gas.setCompensationEnabled enabled })
  | .calculate client id staleNow dayNow =>
    let others := system.allowed.filter fun p => p ≠ (client, id)
    match system.gas.calculateCompensation arith id staleNow dayNow with
    | some amount => (.price (some amount), { system with allowed := (client, id) :: others })
    | none => (.price none, { system with allowed := others })
  | .mark client id =>
    if (client, id) ∈ system.allowed then
      let (ok, gas) := system.gas.markCompensated id
      (.marked ok,
        { gas := gas
          allowed := system.allowed.filter fun p => p ≠ (client, id)
          paid := if ok then (client, id) :: system.paid else system.paid })
    else (.notAllowed, system)

/-! ### One client for each receipt -/

/-- At most one client has been paid for each receipt. -/
def AtMostOne (system : CompensationSystem) : Prop :=
  ∀ id client client', (client, id) ∈ system.paid → (client', id) ∈ system.paid →
    client = client'

/-- A client that marks a receipt finds it unused. -/
def MarksUnused (system : CompensationSystem) (call : Call) : Prop :=
  ∀ client id, call = .mark client id → (client, id) ∈ system.allowed →
    ∀ receipt, system.gas.receipts.lookup id = some receipt →
      receipt.usedForCompensation = false

/-- A receipt is used exactly if a client has been paid for it, and who has been paid for
a receipt may not mark it. -/
structure UsedIffPaid (system : CompensationSystem) : Prop where
  used_iff : ∀ id receipt, system.gas.receipts.lookup id = some receipt →
    (receipt.usedForCompensation = true ↔ ∃ client, (client, id) ∈ system.paid)
  notBoth : ∀ p ∈ system.paid, p ∉ system.allowed

variable {arith : Doubles} {system : CompensationSystem} {call : Call} {id : String}

/-- What marking does: it pays a client that may, for a stored receipt. -/
theorem mark_cases (arith : Doubles) (system : CompensationSystem) (client : ℕ) (id : String) :
    (∃ receipt, (client, id) ∈ system.allowed ∧ system.gas.receipts.lookup id = some receipt ∧
      (step arith system (.mark client id)).2.gas.receipts
        = system.gas.receipts.assign id (marked receipt) ∧
      (step arith system (.mark client id)).2.paid = (client, id) :: system.paid) ∨
    ((∀ receipt, (client, id) ∈ system.allowed → system.gas.receipts.lookup id ≠ some receipt) ∧
      (step arith system (.mark client id)).2.gas.receipts = system.gas.receipts ∧
      (step arith system (.mark client id)).2.paid = system.paid) := by
  by_cases hallowed : (client, id) ∈ system.allowed
  · rcases markCompensated_cases system.gas id with ⟨receipt, hlookup, heq⟩ | ⟨hlookup, heq⟩
    · refine .inl ⟨receipt, hallowed, hlookup, ?_⟩
      simp [step, hallowed, heq]
    · refine .inr ⟨fun receipt _ => by rw [hlookup]; nofun, ?_⟩
      simp [step, hallowed, heq]
  · refine .inr ⟨fun receipt h => absurd h hallowed, ?_⟩
    simp [step, hallowed]

/-- A client that marks may not mark again. -/
theorem allowed_mark (arith : Doubles) (system : CompensationSystem) (client : ℕ)
    (id : String) :
    (step arith system (.mark client id)).2.allowed
      = system.allowed.filter fun p => p ≠ (client, id) := by
  by_cases hallowed : (client, id) ∈ system.allowed
  · simp [step, hallowed]
  · have hself : system.allowed.filter (fun p => p ≠ (client, id)) = system.allowed := by
      refine List.filter_eq_self.mpr fun p hp => ?_
      rw [decide_eq_true_iff]
      rintro rfl
      exact hallowed hp
    rw [hself]
    simp [step, hallowed]

/-- Pricing pays nobody. -/
theorem calculate_frame (arith : Doubles) (system : CompensationSystem) (client : ℕ)
    (id : String) (staleNow dayNow : Seconds) :
    (step arith system (.calculate client id staleNow dayNow)).2.gas = system.gas ∧
      (step arith system (.calculate client id staleNow dayNow)).2.paid = system.paid := by
  simp only [step]
  split
  · exact ⟨rfl, rfl⟩
  · exact ⟨rfl, rfl⟩

/-- Pricing allows only what has not been used. -/
theorem of_mem_allowed_calculate {client : ℕ} {staleNow dayNow : Seconds} {p : ℕ × String}
    (h : p ∈ (step arith system (.calculate client id staleNow dayNow)).2.allowed) :
    p ∈ system.allowed ∨
      (p = (client, id) ∧ ∃ receipt, system.gas.receipts.lookup id = some receipt ∧
        receipt.usedForCompensation = false) := by
  simp only [step] at h
  split at h
  · rename_i amount hprice
    rcases List.mem_cons.mp h with rfl | hold
    · obtain ⟨receipt, hlookup, -, -, hunused, -⟩ := calculateCompensation_eq_some_iff.mp hprice
      exact .inr ⟨rfl, receipt, hlookup, hunused⟩
    · exact .inl (List.mem_of_mem_filter hold)
  · exact .inl (List.mem_of_mem_filter h)

theorem usedIffPaid_createReceipt (h : UsedIffPaid system) (payment : GasPayment)
    (blockNow createdNow : Seconds) :
    UsedIffPaid (step arith system (.createReceipt payment blockNow createdNow)).2 := by
  constructor
  · intro key receipt hlookup
    by_cases hkey : key = receiptId system.gas.receiptCounter.toNat
    · subst hkey
      have hnew : some _ = some receipt := (Store.lookup_assign_self ..).symm.trans hlookup
      obtain rfl := Option.some.inj hnew
      simp [step, createReceipt, newReceipt]
    · have hold : system.gas.receipts.lookup key = some receipt :=
        (Store.lookup_assign_ne _ _ hkey).symm.trans hlookup
      rw [h.used_iff key receipt hold]
      simp [step, createReceipt, hkey]
  · intro p hp
    exact h.notBoth p (List.mem_of_mem_filter hp)

theorem usedIffPaid_calculate (h : UsedIffPaid system) (client : ℕ) (id : String)
    (staleNow dayNow : Seconds) :
    UsedIffPaid (step arith system (.calculate client id staleNow dayNow)).2 := by
  obtain ⟨hgas, hpaid⟩ := calculate_frame arith system client id staleNow dayNow
  constructor
  · intro key receipt hlookup
    rw [hgas] at hlookup
    rw [hpaid]
    exact h.used_iff key receipt hlookup
  · intro p hp hallowed
    rw [hpaid] at hp
    rcases of_mem_allowed_calculate hallowed with hold | ⟨rfl, receipt, hlookup, hunused⟩
    · exact h.notBoth p hp hold
    · have hused := (h.used_iff id receipt hlookup).mpr ⟨client, hp⟩
      rw [hunused] at hused
      cases hused

theorem usedIffPaid_mark (h : UsedIffPaid system) (client : ℕ) (id : String) :
    UsedIffPaid (step arith system (.mark client id)).2 := by
  rcases mark_cases arith system client id with
    ⟨found, -, hfound, hreceipts, hpaid⟩ | ⟨-, hreceipts, hpaid⟩
  · constructor
    · intro key receipt hlookup
      rw [hreceipts] at hlookup
      rw [hpaid]
      by_cases hkey : key = id
      · subst hkey
        rw [Store.lookup_assign_self, Option.some.injEq] at hlookup
        subst hlookup
        exact iff_of_true rfl ⟨client, List.mem_cons_self ..⟩
      · rw [Store.lookup_assign_ne _ _ hkey] at hlookup
        rw [h.used_iff key receipt hlookup]
        simp [hkey]
    · intro p hp hallowed
      rw [hpaid] at hp
      rw [allowed_mark, List.mem_filter, decide_eq_true_iff] at hallowed
      rcases List.mem_cons.mp hp with heq | hold
      · exact hallowed.2 heq
      · exact h.notBoth p hold hallowed.1
  · constructor
    · rw [hreceipts, hpaid]
      exact h.used_iff
    · intro p hp hallowed
      rw [hpaid] at hp
      rw [allowed_mark] at hallowed
      exact h.notBoth p hp (List.mem_of_mem_filter hallowed)

theorem usedIffPaid_step (system : CompensationSystem) (call : Call) (h : UsedIffPaid system) :
    UsedIffPaid (step arith system call).2 := by
  cases call with
  | createReceipt payment blockNow createdNow =>
    exact usedIffPaid_createReceipt h payment blockNow createdNow
  | updateOracle gasTwap priorityFeeTwap solUsd membraUsd now => exact ⟨h.used_iff, h.notBoth⟩
  | setCompensationEnabled enabled => exact ⟨h.used_iff, h.notBoth⟩
  | calculate client id staleNow dayNow =>
    exact usedIffPaid_calculate h client id staleNow dayNow
  | mark client id => exact usedIffPaid_mark h client id

theorem usedIffPaid_final (arith : Doubles) (now : Seconds) (calls : List Call) :
    UsedIffPaid (final (step arith) (new now) calls) := by
  refine final_invariant usedIffPaid_step ⟨?_, ?_⟩ calls
  · intro id receipt h
    cases h
  · intro p hp
    cases hp

/-- Marking keeps one client for each receipt exactly if the receipt is unused. -/
theorem atMostOne_mark_iff (h : UsedIffPaid system) (hone : AtMostOne system) {client : ℕ}
    {found : GasReceipt} (hallowed : (client, id) ∈ system.allowed)
    (hfound : system.gas.receipts.lookup id = some found)
    (hpaid : (step arith system (.mark client id)).2.paid = (client, id) :: system.paid) :
    AtMostOne (step arith system (.mark client id)).2 ↔ found.usedForCompensation = false := by
  rw [AtMostOne, hpaid]
  constructor
  · intro hafter
    by_contra hused
    rw [Bool.not_eq_false] at hused
    -- whoever has used it is this client, which then may not mark it
    obtain ⟨payer, hpayer⟩ := (h.used_iff id found hfound).mp hused
    have hsame : payer = client :=
      hafter id payer client (List.mem_cons_of_mem _ hpayer) (List.mem_cons_self ..)
    rw [hsame] at hpayer
    exact h.notBoth _ hpayer hallowed
  · intro hunused
    have hnobody : ∀ payer, (payer, id) ∉ system.paid := by
      intro payer hpayer
      have hused := (h.used_iff id found hfound).mpr ⟨payer, hpayer⟩
      rw [hunused] at hused
      cases hused
    intro key c c' hc hc'
    rcases List.mem_cons.mp hc with heq | hold
    · rcases List.mem_cons.mp hc' with heq' | hold'
      · rw [(Prod.mk.inj heq).1, (Prod.mk.inj heq').1]
      · rw [(Prod.mk.inj heq).2] at hold'
        exact absurd hold' (hnobody c')
    · rcases List.mem_cons.mp hc' with heq' | hold'
      · rw [(Prod.mk.inj heq').2] at hold
        exact absurd hold (hnobody c)
      · exact hone key c c' hold hold'

/-- A call keeps one client for each receipt exactly if it marks no receipt that has
been used. -/
theorem atMostOne_step_iff (h : UsedIffPaid system) (hone : AtMostOne system) :
    AtMostOne (step arith system call).2 ↔ MarksUnused system call := by
  cases call with
  | createReceipt payment blockNow createdNow =>
    refine iff_of_true ?_ nofun
    intro id client client' hc hc'
    exact hone id client client' (List.mem_of_mem_filter hc) (List.mem_of_mem_filter hc')
  | updateOracle gasTwap priorityFeeTwap solUsd membraUsd now => exact iff_of_true hone nofun
  | setCompensationEnabled enabled => exact iff_of_true hone nofun
  | calculate client id staleNow dayNow =>
    refine iff_of_true ?_ nofun
    rw [AtMostOne, (calculate_frame arith system client id staleNow dayNow).2]
    exact hone
  | mark client id =>
    rcases mark_cases arith system client id with
      ⟨found, hallowed, hfound, -, hpaid⟩ | ⟨hnone, -, hpaid⟩
    · rw [atMostOne_mark_iff h hone hallowed hfound hpaid]
      constructor
      · rintro hunused _ _ ⟨⟩ - receipt hlookup
        rw [hfound] at hlookup
        obtain rfl := Option.some.inj hlookup
        exact hunused
      · intro hmarks
        exact hmarks client id rfl hallowed found hfound
    · rw [AtMostOne, hpaid]
      refine iff_of_true hone ?_
      rintro _ _ ⟨⟩ hallowed receipt hlookup
      exact absurd hlookup (hnone receipt hallowed)

/-- One client for each receipt, in every state of the run. -/
def AtMostOnce (arith : Doubles) (now : Seconds) (calls : List Call) : Prop :=
  ∀ pre, pre <+: calls → AtMostOne (final (step arith) (new now) pre)

/-- At most one client is compensated for each receipt exactly when every client that
marks a receipt finds it unused. -/
theorem atMostOnce_iff_marksUnused (arith : Doubles) (now : Seconds) (calls : List Call) :
    AtMostOnce arith now calls ↔ Each (step arith) MarksUnused (new now) calls := by
  have hnew : AtMostOne (new now) := fun id client client' hc => by cases hc
  refine forall_final_iff hnew ?_
  intro pre call hone
  exact atMostOne_step_iff (usedIffPaid_final arith now pre) hone

/-- Two clients price a receipt before either of them marks it. -/
def twoClients : List Call :=
  [.setCompensationEnabled true,
    .createReceipt ⟨"tx", "receiver", "sender", 5000, 1000, 1, "signature"⟩ 0 0,
    .calculate 0 "gas_0" 0 0,
    .calculate 1 "gas_0" 0 0,
    .mark 0 "gas_0",
    .mark 1 "gas_0"]

theorem paid_twoClients :
    (final (step (.exact .wrapping)) (new 0) twoClients).paid = [(1, "gas_0"), (0, "gas_0")] := by
  decide +kernel

/-- Both are paid. -/
theorem not_forall_atMostOnce : ¬ ∀ arith now calls, AtMostOnce arith now calls := by
  intro h
  have hone := h (.exact .wrapping) 0 twoClients twoClients List.prefix_rfl
  rw [AtMostOne, paid_twoClients] at hone
  have hsame : 1 = 0 := hone "gas_0" 1 0 (by simp) (by simp)
  omega

end CompensationSystem

end Membra
