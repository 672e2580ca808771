/-
Clients of one gas pool.

Any number of clients reserve and release funds of a pool, in any interleaving.
A system is the manager together with what each client currently has reserved
from the pool; no client releases more than that.

* `Settled` — the invariant: the pool's one counter is the sum of the clients'
  reservations;
* `clients_undisturbed` — what it gives: no release is cut down, and after the
  last one the pool answers as if nothing had ever been reserved.
-/
import MembraL3.GasPool
import MembraL3.Lib.Runs
import MembraL3.Lib.Words

namespace Membra

open Runs

/-- A call together with the client that makes it. -/
structure ClientCall (κ : Type*) where
  client : κ
  call : GasPoolManager.Call

/-- The manager, and what each client has reserved from the pool and not yet
released. -/
structure ClientSystem (κ : Type*) where
  manager : GasPoolManager
  outstanding : Store κ ℕ

namespace ClientSystem

variable {κ : Type*} [DecidableEq κ]

def new : ClientSystem κ := ⟨.new, ∅⟩

def outstandingOf (system : ClientSystem κ) (client : κ) : ℕ :=
  (system.outstanding.lookup client).getD 0

/-- The clients' reservations after a call on the pool, given the reply to it. -/
def account (poolId : String) (system : ClientSystem κ) (client : κ) :
    GasPoolManager.Call → GasPoolManager.Reply → Store κ ℕ
  | .reserveFunds pool amount, .reserved true =>
    if pool = poolId then
      system.outstanding.assign client (system.outstandingOf client + amount.toNat)
    else system.outstanding
  | .releaseFunds pool amount, .released =>
    if pool = poolId then
      system.outstanding.assign client (system.outstandingOf client - amount.toNat)
    else system.outstanding
  | _, _ => system.outstanding

def step (poolId : String) (system : ClientSystem κ) (c : ClientCall κ) :
    GasPoolManager.Reply × ClientSystem κ :=
  let (reply, manager) := GasPoolManager.step system.manager c.call
  (reply, ⟨manager, account poolId system c.client c.call reply⟩)

@[simp] theorem manager_step (poolId : String) (system : ClientSystem κ) (c : ClientCall κ) :
    (step poolId system c).2.manager = (GasPoolManager.step system.manager c.call).2 := rfl

@[simp] theorem outstanding_step (poolId : String) (system : ClientSystem κ) (c : ClientCall κ) :
    (step poolId system c).2.outstanding
      = account poolId system c.client c.call (GasPoolManager.step system.manager c.call).1 := rfl

/-- The pool is initialised once, its balance stays below `2 ^ 64`, and a client
releases only what it has reserved and not yet released. -/
def Disciplined (poolId : String) (system : ClientSystem κ) (c : ClientCall κ) : Prop :=
  match c.call with
  | .initializePool config =>
    config.poolId = poolId → system.manager.poolConfigs.lookup poolId = none
  | .updatePoolBalance pool amount =>
    pool = poolId → ∀ config ∈ system.manager.poolConfigs.lookup poolId,
      config.availableBalance.toNat + amount.toNat < 2 ^ 64
  | .releaseFunds pool amount =>
    pool = poolId → amount.toNat ≤ system.outstandingOf c.client
  | _ => True

instance (poolId : String) (system : ClientSystem κ) (c : ClientCall κ) :
    Decidable (Disciplined poolId system c) :=
  match c with
  | ⟨_, .initializePool config⟩ => inferInstanceAs
      (Decidable (config.poolId = poolId → system.manager.poolConfigs.lookup poolId = none))
  | ⟨_, .updatePoolBalance pool amount⟩ => inferInstanceAs
      (Decidable (pool = poolId → ∀ config ∈ system.manager.poolConfigs.lookup poolId,
        config.availableBalance.toNat + amount.toNat < 2 ^ 64))
  | ⟨client, .releaseFunds pool amount⟩ => inferInstanceAs
      (Decidable (pool = poolId → amount.toNat ≤ system.outstandingOf client))
  | ⟨_, .getPoolConfig _⟩ | ⟨_, .checkAvailability _ _⟩ | ⟨_, .reserveFunds _ _⟩
  | ⟨_, .getPoolStats _⟩ => instDecidableTrue

/-! ### The sum of the reservations -/

/-- The pool's reserved amount is the sum of the clients' reservations, which its
balance covers. -/
structure Settled (poolId : String) (system : ClientSystem κ) : Prop where
  reserved_eq : (system.manager.reservedAt poolId).toNat = Store.total id system.outstanding
  covered : ∀ config, system.manager.poolConfigs.lookup poolId = some config →
    system.manager.reservedAt poolId ≤ config.availableBalance
  reserved_of_none : system.manager.poolConfigs.lookup poolId = none →
    system.manager.reservedAt poolId = 0

omit [DecidableEq κ] in
theorem settled_new (poolId : String) : Settled poolId (new : ClientSystem κ) where
  reserved_eq := rfl
  covered := by
    intro config hlookup
    exact absurd hlookup (by simp [new, GasPoolManager.new])
  reserved_of_none := by
    intro _
    rfl

theorem total_outstanding_assign (system : ClientSystem κ) (client : κ) (amount : ℕ) :
    Store.total id (system.outstanding.assign client amount) + system.outstandingOf client
      = Store.total id system.outstanding + amount := by
  have hsum := Store.total_assign id system.outstanding client amount
  rwa [Option.map_id] at hsum

/-- A client's reservation is part of the sum. -/
theorem outstandingOf_le_total (system : ClientSystem κ) (client : κ) :
    system.outstandingOf client ≤ Store.total id system.outstanding := by
  have hsum := total_outstanding_assign system client 0
  omega

/-- What is released was reserved: the release is not cut down. -/
theorem toNat_afterRelease {poolId : String} {system : ClientSystem κ} (h : Settled poolId system)
    {client : κ} {amount : UInt64} (hamount : amount.toNat ≤ system.outstandingOf client) :
    (GasPoolManager.afterRelease (system.manager.reservedAt poolId) amount).toNat + amount.toNat
      = (system.manager.reservedAt poolId).toNat := by
  have htotal := outstandingOf_le_total system client
  have hle : amount ≤ system.manager.reservedAt poolId := by
    rw [UInt64.le_iff_toNat_le, h.reserved_eq]
    omega
  have hexact := Words.toNat_add_toNat_sub hle
  rw [GasPoolManager.afterRelease, if_pos hle]
  omega

omit [DecidableEq κ] in
theorem settled_of_frame {poolId : String} {system system' : ClientSystem κ}
    (h : Settled poolId system) (hconfig : system'.manager.poolConfigs.lookup poolId
      = system.manager.poolConfigs.lookup poolId)
    (hreserved : system'.manager.reservedAt poolId = system.manager.reservedAt poolId)
    (houtstanding : system'.outstanding = system.outstanding) : Settled poolId system' := by
  refine ⟨?_, ?_, ?_⟩
  · rw [hreserved, houtstanding]
    exact h.reserved_eq
  · rw [hconfig, hreserved]
    exact h.covered
  · rw [hconfig, hreserved]
    exact h.reserved_of_none

omit [DecidableEq κ] in
theorem settled_of_some {poolId : String} {system : ClientSystem κ} (config : GasPoolConfig)
    (hlookup : system.manager.poolConfigs.lookup poolId = some config)
    (heq : (system.manager.reservedAt poolId).toNat = Store.total id system.outstanding)
    (hle : system.manager.reservedAt poolId ≤ config.availableBalance) :
    Settled poolId system := by
  refine ⟨heq, ?_, ?_⟩
  · intro config' hlookup'
    obtain rfl := Option.some_inj.mp (hlookup.symm.trans hlookup')
    exact hle
  · intro hnone
    exact absurd (hlookup.symm.trans hnone) (by simp)

theorem account_of_idle (poolId : String) (system : ClientSystem κ) (client : κ)
    (call : GasPoolManager.Call) {reply : GasPoolManager.Reply} (hreserved : reply ≠ .reserved true)
    (hreleased : reply ≠ .released) :
    account poolId system client call reply = system.outstanding := by
  unfold account
  split
  · exact absurd rfl hreserved
  · exact absurd rfl hreleased
  · rfl

omit [DecidableEq κ] in
/-- A reservation that the balance covers adds to the sum without wrapping around. -/
theorem toNat_reserved_add {poolId : String} {system : ClientSystem κ} (h : Settled poolId system)
    {config : GasPoolConfig} {amount : UInt64}
    (hlookup : system.manager.poolConfigs.lookup poolId = some config)
    (havailable : amount ≤ config.availableBalance - system.manager.reservedAt poolId) :
    (system.manager.reservedAt poolId + amount).toNat
        = (system.manager.reservedAt poolId).toNat + amount.toNat ∧
      system.manager.reservedAt poolId + amount ≤ config.availableBalance := by
  have hcovered := h.covered config hlookup
  have hdiff := Words.toNat_add_toNat_sub hcovered
  rw [UInt64.le_iff_toNat_le] at havailable
  have hlt := UInt64.toNat_lt config.availableBalance
  have hexact : (system.manager.reservedAt poolId + amount).toNat
      = (system.manager.reservedAt poolId).toNat + amount.toNat := by
    rw [UInt64.toNat_add, Nat.mod_eq_of_lt (by omega)]
  refine ⟨hexact, ?_⟩
  rw [UInt64.le_iff_toNat_le, hexact]
  omega

section Calls

variable {poolId pool : String} {system : ClientSystem κ} {client : κ} {amount : UInt64}
  {config : GasPoolConfig}

/-- The first time, nothing can have been reserved. -/
theorem settled_initializePool (h : Settled poolId system)
    (hc : config.poolId = poolId → system.manager.poolConfigs.lookup poolId = none) :
    Settled poolId (step poolId system ⟨client, .initializePool config⟩).2 := by
  have hconfigs : (step poolId system ⟨client, .initializePool config⟩).2.manager.poolConfigs
      = system.manager.poolConfigs.assign config.poolId config := rfl
  by_cases hpool : config.poolId = poolId
  · have hzero := h.reserved_of_none (hc hpool)
    refine settled_of_some config ?_ h.reserved_eq ?_
    · rw [hconfigs, hpool, Store.lookup_assign_self]
    · show system.manager.reservedAt poolId ≤ _
      rw [hzero]
      exact UInt64.zero_le
  · refine settled_of_frame h ?_ rfl rfl
    rw [hconfigs, Store.lookup_assign_ne _ _ (Ne.symm hpool)]

/-- A top-up that fits leaves the reservations covered. -/
theorem settled_updatePoolBalance (h : Settled poolId system)
    (hc : Disciplined poolId system ⟨client, .updatePoolBalance pool amount⟩)
    (hlookup : system.manager.poolConfigs.lookup pool = some config)
    (hconfigs : (GasPoolManager.step system.manager (.updatePoolBalance pool amount)).2.poolConfigs
      = system.manager.poolConfigs.assign pool (GasPoolManager.toppedUp config amount))
    (hreserved : (GasPoolManager.step system.manager (.updatePoolBalance pool amount)).2.reservedAt
      = system.manager.reservedAt) :
    Settled poolId (step poolId system ⟨client, .updatePoolBalance pool amount⟩).2 := by
  by_cases hpool : pool = poolId
  · subst hpool
    have hbound := hc rfl config hlookup
    have hcovered := h.covered config hlookup
    refine settled_of_some (GasPoolManager.toppedUp config amount) ?_ ?_ ?_
    · rw [manager_step, hconfigs, Store.lookup_assign_self]
    · rw [manager_step, hreserved]
      exact h.reserved_eq
    · rw [manager_step, hreserved]
      show _ ≤ config.availableBalance + amount
      rw [UInt64.le_iff_toNat_le] at hcovered ⊢
      rw [UInt64.toNat_add, Nat.mod_eq_of_lt hbound]
      omega
  · refine settled_of_frame h ?_ (congrFun hreserved poolId) rfl
    rw [manager_step, hconfigs, Store.lookup_assign_ne _ _ (Ne.symm hpool)]

/-- A reservation is added to the counter and to the client's. -/
theorem settled_reserveFunds (h : Settled poolId system)
    (hlookup : system.manager.poolConfigs.lookup pool = some config)
    (havailable : amount ≤ config.availableBalance - system.manager.reservedAt pool)
    (hreply : (GasPoolManager.step system.manager (.reserveFunds pool amount)).1 = .reserved true)
    (hconfigs : (GasPoolManager.step system.manager (.reserveFunds pool amount)).2.poolConfigs
      = system.manager.poolConfigs)
    (hreserved : (GasPoolManager.step system.manager (.reserveFunds pool amount)).2.reservedAt
      = Function.update system.manager.reservedAt pool
          (system.manager.reservedAt pool + amount)) :
    Settled poolId (step poolId system ⟨client, .reserveFunds pool amount⟩).2 := by
  by_cases hpool : pool = poolId
  · subst hpool
    obtain ⟨hexact, hle⟩ := toNat_reserved_add h hlookup havailable
    have hsum := total_outstanding_assign system client
      (system.outstandingOf client + amount.toNat)
    refine settled_of_some config ?_ ?_ ?_
    · rw [manager_step, hconfigs, hlookup]
    · rw [manager_step, hreserved, Function.update_self, hexact, h.reserved_eq,
        outstanding_step, hreply, account, if_pos rfl]
      show _ = Store.total id (system.outstanding.assign client
        (system.outstandingOf client + amount.toNat))
      omega
    · rw [manager_step, hreserved, Function.update_self]
      exact hle
  · refine settled_of_frame h ?_ ?_ ?_
    · rw [manager_step, hconfigs]
    · rw [manager_step, hreserved, Function.update_of_ne (Ne.symm hpool)]
    · rw [outstanding_step, hreply, account, if_neg hpool]

/-- The client gives back at most its own part of the sum. -/
theorem settled_releaseFunds (h : Settled poolId system)
    (hc : Disciplined poolId system ⟨client, .releaseFunds pool amount⟩)
    (hconfigs : (GasPoolManager.step system.manager (.releaseFunds pool amount)).2.poolConfigs
      = system.manager.poolConfigs)
    (hreserved : (GasPoolManager.step system.manager (.releaseFunds pool amount)).2.reservedAt
      = Function.update system.manager.reservedAt pool
          (GasPoolManager.afterRelease (system.manager.reservedAt pool) amount)) :
    Settled poolId (step poolId system ⟨client, .releaseFunds pool amount⟩).2 := by
  by_cases hpool : pool = poolId
  · subst hpool
    have hamount : amount.toNat ≤ system.outstandingOf client := hc rfl
    have hexact := toNat_afterRelease h hamount
    have hsum := total_outstanding_assign system client
      (system.outstandingOf client - amount.toNat)
    have heq := h.reserved_eq
    refine ⟨?_, ?_, ?_⟩
    · rw [manager_step, hreserved, Function.update_self]
      show _ = Store.total id (if pool = pool then system.outstanding.assign client
        (system.outstandingOf client - amount.toNat) else system.outstanding)
      rw [if_pos rfl]
      omega
    · rw [manager_step, hconfigs, hreserved, Function.update_self]
      intro config hlookup
      have hcovered := h.covered config hlookup
      rw [UInt64.le_iff_toNat_le] at hcovered ⊢
      omega
    · rw [manager_step, hconfigs, hreserved, Function.update_self]
      intro hnone
      have hzero := h.reserved_of_none hnone
      rw [hzero] at hexact ⊢
      refine UInt64.toNat_inj.mp ?_
      show _ = 0
      have hnat : (0 : UInt64).toNat = 0 := rfl
      omega
  · refine settled_of_frame h ?_ ?_ ?_
    · rw [manager_step, hconfigs]
    · rw [manager_step, hreserved, Function.update_of_ne (Ne.symm hpool)]
    · show (if pool = poolId then _ else system.outstanding) = _
      rw [if_neg hpool]

end Calls

/-- A disciplined call keeps the pool's counter equal to the sum. -/
theorem settled_step {poolId : String} {system : ClientSystem κ} {c : ClientCall κ}
    (h : Settled poolId system) (hc : Disciplined poolId system c) :
    Settled poolId (step poolId system c).2 := by
  obtain ⟨client, call⟩ := c
  rcases GasPoolManager.step_cases system.manager call with
    ⟨hconfigs, hreserved, hnot, hnotReleased, _, _⟩ |
    ⟨config, rfl, _, _⟩ |
    ⟨pool, amount, config, rfl, hlookup, hconfigs, hreserved⟩ |
    ⟨pool, amount, config, rfl, hlookup, havailable, hreply, hconfigs, hreserved⟩ |
    ⟨pool, amount, rfl, hconfigs, hreserved⟩
  · exact settled_of_frame h (congrArg (AList.lookup poolId) hconfigs) (congrFun hreserved poolId)
      (account_of_idle poolId system client call hnot hnotReleased)
  · exact settled_initializePool h hc
  · exact settled_updatePoolBalance h hc hlookup hconfigs hreserved
  · exact settled_reserveFunds h hlookup havailable hreply hconfigs hreserved
  · exact settled_releaseFunds h hc hconfigs hreserved

theorem settled_final {poolId : String} {calls : List (ClientCall κ)}
    (h : Each (step poolId) (Disciplined poolId) new calls) :
    Settled poolId (final (step poolId) new calls) :=
  final_induction (fun _ _ hs hc => settled_step hs hc) (settled_new poolId) h

/-! ### The pool without its reservations -/

theorem manager_final (poolId : String) (calls : List (ClientCall κ)) :
    (final (step poolId) (new : ClientSystem κ) calls).manager
      = final GasPoolManager.step .new (calls.map ClientCall.call) :=
  final_map (manager_step poolId) new calls

/-- The run without its reservations and releases. -/
def unreserved (calls : List (ClientCall κ)) : GasPoolManager :=
  final GasPoolManager.step .new
    ((calls.map ClientCall.call).filter fun c => !c.isReservation)

/-- The run with and the run without reservations have the same balances. -/
theorem poolConfigs_unreserved (poolId : String) (calls : List (ClientCall κ)) :
    (final (step poolId) (new : ClientSystem κ) calls).manager.poolConfigs
        = (unreserved calls).poolConfigs ∧
      ∀ pool, (unreserved calls).reservedAt pool = 0 := by
  rw [manager_final, unreserved]
  refine final_filter (R := fun s t : GasPoolManager =>
    s.poolConfigs = t.poolConfigs ∧ ∀ pool, t.reservedAt pool = 0)
    ?_ ?_ ⟨rfl, fun _ => rfl⟩ (calls.map ClientCall.call)
  · rintro s t c hc ⟨hconfigs, hzero⟩
    have hnot : c.isReservation = false := by simpa using hc
    refine ⟨?_, ?_⟩
    · rw [GasPoolManager.poolConfigs_step, GasPoolManager.poolConfigs_step, hconfigs]
    · rw [GasPoolManager.reservedAt_step_of_not_isReservation t hnot]
      exact hzero
  · rintro s t c hc ⟨hconfigs, hzero⟩
    have his : c.isReservation = true := by simpa using hc
    refine ⟨?_, hzero⟩
    rw [GasPoolManager.poolConfigs_step, GasPoolManager.configsAfter_of_isReservation _ his,
      hconfigs]

/-- What the clients of a pool see of each other in a run: nothing. -/
structure Undisturbed (poolId : String) (calls : List (ClientCall κ)) : Prop where
  reserved_eq : ∀ pre, pre <+: calls →
    ((final (step poolId) new pre).manager.reservedAt poolId).toNat
      = Store.total id (final (step poolId) (new : ClientSystem κ) pre).outstanding
  release_exact : ∀ pre client amount, pre ++ [⟨client, .releaseFunds poolId amount⟩] <+: calls →
    ((final (step poolId) new (pre ++ [⟨client, .releaseFunds poolId amount⟩])).manager.reservedAt
        poolId).toNat + amount.toNat
      = ((final (step poolId) new pre).manager.reservedAt poolId).toNat
  available_eq : ∀ pre, pre <+: calls →
    (∀ client, (final (step poolId) new pre).outstandingOf client = 0) → ∀ amount,
      ((final (step poolId) new pre).manager.checkAvailability poolId amount).1
        = ((unreserved pre).checkAvailability poolId amount).1

theorem total_outstanding_eq_zero {system : ClientSystem κ}
    (h : ∀ client, system.outstandingOf client = 0) : Store.total id system.outstanding = 0 := by
  have hzero : Store.total id system.outstanding = Store.total (fun _ => 0) system.outstanding := by
    refine Store.total_congr ?_
    intro client amount hlookup
    have hclient := h client
    rwa [outstandingOf, hlookup] at hclient
  rw [hzero, Store.total, List.map_const', List.sum_replicate_nat, mul_zero]

/-- In every interleaving of disciplined clients, the pool's reserved amount is the
sum of what they have reserved, no release is cut down, and once everything is
released the pool answers as if nothing had been reserved. -/
theorem clients_undisturbed (poolId : String) (calls : List (ClientCall κ))
    (h : Each (step poolId) (Disciplined poolId) new calls) : Undisturbed poolId calls := by
  refine ⟨?_, ?_, ?_⟩
  · intro pre hpre
    exact (settled_final (h.restrict hpre)).reserved_eq
  · intro pre client amount hpre
    have hrun := h.restrict hpre
    rw [each_append, each_cons] at hrun
    obtain ⟨hpast, hc, _⟩ := hrun
    have hexact := toNat_afterRelease (settled_final hpast) (hc rfl)
    rw [final_append, final_cons, final_nil, manager_step, GasPoolManager.step,
      GasPoolManager.reservedAt_releaseFunds, Function.update_self]
    exact hexact
  · intro pre hpre hreleased amount
    have hsettled := settled_final (h.restrict hpre)
    obtain ⟨hconfigs, hzero⟩ := poolConfigs_unreserved poolId pre
    refine GasPoolManager.checkAvailability_congr (by rw [hconfigs]) ?_ amount
    refine UInt64.toNat_inj.mp ?_
    rw [hsettled.reserved_eq, total_outstanding_eq_zero hreleased, hzero]
    rfl

/-- Two clients whose reservations and releases interleave, with a top-up between. -/
def interleaved : List (ClientCall String) :=
  [⟨"alice", .initializePool { GasPoolConfig.default with
      poolId := "pool_1", totalPoolBalance := 1000, availableBalance := 1000 }⟩,
    ⟨"alice", .reserveFunds "pool_1" 300⟩, ⟨"bob", .reserveFunds "pool_1" 600⟩,
    ⟨"alice", .releaseFunds "pool_1" 100⟩, ⟨"bob", .updatePoolBalance "pool_1" 50⟩,
    ⟨"bob", .releaseFunds "pool_1" 600⟩, ⟨"alice", .releaseFunds "pool_1" 200⟩]

theorem clients_undisturbed_interleaved :
    Undisturbed "pool_1" interleaved ∧
      ((unreserved interleaved).checkAvailability "pool_1" 1050).1 = true := by
  refine ⟨clients_undisturbed "pool_1" interleaved ?_, by decide +kernel⟩
  unfold Each
  decide +kernel

end ClientSystem

end Membra
