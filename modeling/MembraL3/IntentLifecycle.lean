/-
The life of a payment intent.

Over a clock that does not run backwards an intent is created `PENDING`, and is
either claimed, once and before its window closes, or expires; a settlement is
recorded for claimed intents only.

* `Sound` — what is true of every stored intent;
* `countP_succeeds_le_one` — an intent is claimed at most once;
* `notOverdue_final` — no pending intent outlives a sweep;
* `intent_lifecycle` — the life of the intents of a run.
-/
import MembraL3.IntentNetwork
import Mathlib.Tactic.Linarith

namespace Membra

namespace IntentNetwork

/-- The readings of a run of calls do not decrease. -/
def ClockForward (calls : List Call) : Prop := (calls.flatMap Call.readings).Pairwise (· ≤ ·)

instance (calls : List Call) : Decidable (ClockForward calls) :=
  inferInstanceAs (Decidable (List.Pairwise _ _))

/-! ### Every stored intent is sound -/

structure SoundIntent (intent : PaymentIntent) : Prop where
  window : intent.expiresAt = intent.createdAt + claimWindowSeconds
  notCancelled : intent.status ≠ .cancelled
  settled : intent.settlementTx ≠ "" → intent.status = .claimed

def Sound (network : IntentNetwork) : Prop :=
  ∀ id intent, network.intents.lookup id = some intent → SoundIntent intent

variable {network : IntentNetwork} {id : String} {intent intent' : PaymentIntent}

theorem created_sound {call : Call} (h : created network call = some intent) :
    intent.status = .pending ∧ SoundIntent intent := by
  cases call with
  | createIntent sender receiver token amount signature now =>
    obtain rfl := Option.some.inj h
    exact ⟨rfl, rfl, nofun, fun htx => absurd rfl htx⟩
  | _ => cases h

theorem Moves.sound {call : Call} (h : Moves id call intent intent') (hsound : SoundIntent intent) :
    SoundIntent intent' := by
  cases h with
  | kept => exact hsound
  | claimed claimer checkNow claimNow intent hpending hopen =>
    exact ⟨hsound.window, nofun, fun _ => rfl⟩
  | confirmed txSignature intent hclaimed =>
    exact ⟨hsound.window, hsound.notCancelled, fun _ => hclaimed⟩
  | expired now intent hpending hover =>
    refine ⟨hsound.window, nofun, fun htx => ?_⟩
    -- a pending intent has no settlement
    rw [hsound.settled htx] at hpending
    cases hpending

theorem sound_step (network : IntentNetwork) (call : Call) (hsound : Sound network) :
    Sound (step network call).2 := by
  intro id intent' hlookup
  rcases lookup_of_step hlookup with ⟨intent, hbefore, hmoves⟩ | ⟨hcreated, -⟩
  · exact hmoves.sound (hsound id intent hbefore)
  · exact (created_sound hcreated).2

theorem sound_final (calls : List Call) : Sound (Runs.final step new calls) := by
  refine Runs.final_invariant sound_step ?_ calls
  intro id intent h
  cases h

/-! ### Claims -/

/-- The call claims the intent under `id`. -/
def claims (id : String) (network : IntentNetwork) : Call → Bool
  | .claimIntent id' claimer checkNow claimNow =>
    id' == id && (network.claimIntent id' claimer checkNow claimNow).1.isSome
  | _ => false

/-- The intent under `id` has left `PENDING`. -/
def Left (id : String) (network : IntentNetwork) : Prop :=
  ∃ intent, network.intents.lookup id = some intent ∧ intent.status ≠ .pending

/-- A claim finds the intent pending and within its window, and leaves it claimed. -/
theorem claims_spec {call : Call} (h : claims id network call = true) :
    ∃ claimer checkNow claimNow intent,
      call = .claimIntent id claimer checkNow claimNow ∧
      network.intents.lookup id = some intent ∧ intent.status = .pending ∧
      checkNow < intent.expiresAt ∧ Left id (step network call).2 := by
  cases call with
  | claimIntent id' claimer checkNow claimNow =>
    simp only [claims, Bool.and_eq_true, beq_iff_eq] at h
    obtain ⟨rfl, hsome⟩ := h
    rcases claimIntent_cases network id' claimer checkNow claimNow with
      ⟨intent, hlookup, hpending, hopen, heq⟩ | heq
    · refine ⟨claimer, checkNow, claimNow, intent, rfl, hlookup, hpending, hopen, ?_⟩
      simp only [step, heq]
      refine ⟨_, Store.lookup_assign_self .., ?_⟩
      intro hstill
      cases hstill
    · rw [heq] at hsome
      cases hsome
  | _ => cases h

/-- An intent that has left `PENDING` does not come back. -/
theorem left_step {call : Call} (hfresh : Fresh network call) (h : Left id network) :
    Left id (step network call).2 := by
  obtain ⟨intent, hlookup, hleft⟩ := h
  obtain ⟨intent', hlookup', hmoves⟩ := evolves_step hfresh id intent hlookup
  refine ⟨intent', hlookup', ?_⟩
  rcases hmoves.progress.status_eq with hsame | ⟨hpending, -⟩
  · rwa [hsame]
  · exact absurd hpending hleft

theorem countP_claims_le_one {calls : List Call} (hfresh : Runs.Each step Fresh new calls)
    (id : String) :
    (Runs.trace step new calls).countP (fun e => claims id e.before e.call) ≤ 1 := by
  refine Runs.countP_le_one (D := Left id) ?_ (fun _ _ => left_step) ?_ hfresh
  · rintro s call - hclaims ⟨intent, hlookup, hleft⟩
    obtain ⟨-, -, -, found, -, hfound, hpending, -⟩ := claims_spec hclaims
    obtain rfl : found = intent := Option.some.inj (hfound.symm.trans hlookup)
    exact hleft hpending
  · intro s call _ hclaims
    obtain ⟨-, -, -, -, -, -, -, -, hend⟩ := claims_spec hclaims
    exact hend

/-! ### Sweeps -/

/-- Every pending intent expires after `now`. -/
def NotOverdue (now : Seconds) (network : IntentNetwork) : Prop :=
  ∀ id intent, network.intents.lookup id = some intent → intent.status = .pending →
    now < intent.expiresAt

theorem notOverdue_expireIntents (network : IntentNetwork) (now : Seconds) :
    NotOverdue now (network.expireIntents now) := by
  intro id intent hlookup hpending
  rw [expireIntents, Store.lookup_map, Option.map_eq_some_iff] at hlookup
  obtain ⟨before, -, rfl⟩ := hlookup
  rw [expire] at hpending ⊢
  by_cases h : before.status = .pending ∧ before.expiresAt ≤ now
  · rw [if_pos h] at hpending
    cases hpending
  · rw [if_neg h] at hpending ⊢
    exact not_le.mp fun hover => h ⟨hpending, hover⟩

/-- A call that reads the clock no earlier creates nothing that is overdue. -/
theorem notOverdue_step {now : Seconds} {call : Call} (h : NotOverdue now network)
    (hclock : ∀ t ∈ call.readings, now ≤ t) :
    NotOverdue now (step network call).2 := by
  intro id intent' hlookup hpending
  rcases lookup_of_step hlookup with ⟨intent, hbefore, hmoves⟩ | ⟨hcreated, -⟩
  · have hexpires : intent'.expiresAt = intent.expiresAt :=
      congrArg (fun terms => terms.2.2.2.2.2.2.1) hmoves.progress.terms_eq
    rw [hexpires]
    refine h id intent hbefore ?_
    rcases hmoves.progress.status_eq with hsame | ⟨hbefore, -⟩
    · rwa [← hsame]
    · exact hbefore
  · cases call with
    | createIntent sender receiver token amount signature created =>
      obtain rfl := Option.some.inj hcreated
      have hnow := hclock created (List.mem_singleton_self created)
      show now < created + claimWindowSeconds
      rw [claimWindowSeconds]
      linarith
    | _ => cases hcreated

theorem notOverdue_final {calls pre mid : List Call} {now : Seconds}
    (hclock : ClockForward calls) (hpre : pre ++ .expireIntents now :: mid <+: calls) :
    NotOverdue now (Runs.final step new (pre ++ .expireIntents now :: mid)) := by
  -- every reading after the sweep is one of the later ones
  have hlater : ∀ call ∈ mid, ∀ t ∈ call.readings, now ≤ t := by
    obtain ⟨post, rfl⟩ := hpre
    rw [ClockForward, List.append_assoc, List.flatMap_append, List.cons_append,
      List.flatMap_cons, List.pairwise_append] at hclock
    obtain ⟨-, hclock, -⟩ := hclock
    intro call hcall t ht
    refine (List.pairwise_cons.mp hclock).1 t ?_
    show t ∈ (mid ++ post).flatMap Call.readings
    rw [List.flatMap_append]
    exact List.mem_append_left _ (List.mem_flatMap.mpr ⟨call, hcall, ht⟩)
  rw [Runs.final_append, Runs.final_cons]
  exact Runs.final_induction (fun _ _ => notOverdue_step) (notOverdue_expireIntents _ now)
    (Runs.each_of_forall_mem hlater)

/-! ### The life of the intents of a run -/

/-- What the lifecycle promises of a run from the empty network. -/
structure Lifecycle (calls : List Call) : Prop where
  /-- A status only moves from `PENDING` to `CLAIMED` or to `EXPIRED`. -/
  moves : ∀ pre mid, pre ++ mid <+: calls → ∀ id intent,
    (Runs.final step new pre).intents.lookup id = some intent →
    ∃ intent', (Runs.final step new (pre ++ mid)).intents.lookup id = some intent' ∧
      (intent'.status = intent.status ∨
        intent.status = .pending ∧ (intent'.status = .claimed ∨ intent'.status = .expired))
  /-- It starts `PENDING`, and is never anything else than the three. -/
  starts : ∀ pre call, pre ++ [call] <+: calls → ∀ intent,
    created (Runs.final step new pre) call = some intent → intent.status = .pending
  notCancelled : ∀ pre, pre <+: calls → ∀ id intent,
    (Runs.final step new pre).intents.lookup id = some intent → intent.status ≠ .cancelled
  /-- At most one claim of an intent succeeds. -/
  claimedOnce : ∀ id,
    (Runs.trace step new calls).countP (fun e => claims id e.before e.call) ≤ 1
  /-- A successful claim has read the clock within the window. -/
  claimedInTime : ∀ pre id claimer checkNow claimNow,
    pre ++ [.claimIntent id claimer checkNow claimNow] <+: calls → ∀ intent,
    ((Runs.final step new pre).claimIntent id claimer checkNow claimNow).1 = some intent →
    checkNow < intent.createdAt + 604800
  /-- After a sweep no pending intent is overdue. -/
  swept : ∀ pre now mid, pre ++ .expireIntents now :: mid <+: calls →
    NotOverdue now (Runs.final step new (pre ++ .expireIntents now :: mid))
  /-- Settlements are accepted for claimed intents, and stored in no others. -/
  settles : ∀ pre id txSignature, pre ++ [.confirmSettlement id txSignature] <+: calls →
    ((Runs.final step new pre).confirmSettlement id txSignature).1 = true →
    ∃ intent, (Runs.final step new pre).intents.lookup id = some intent ∧
      intent.status = .claimed
  settled : ∀ pre, pre <+: calls → ∀ id intent,
    (Runs.final step new pre).intents.lookup id = some intent → intent.settlementTx ≠ "" →
    intent.status = .claimed

/-- Every run over a clock that does not run backwards, of fewer than `2^64 - 1`
creations. -/
theorem intent_lifecycle {calls : List Call} (hclock : ClockForward calls)
    (hcreates : CreatesFit calls) : Lifecycle calls := by
  have hfresh := each_fresh_new hcreates
  have hsound : ∀ pre, pre <+: calls → Sound (Runs.final step new pre) :=
    fun pre _ => sound_final pre
  constructor
  case moves =>
    intro pre mid hpre id intent hlookup
    obtain ⟨intent', hlookup', hprogress⟩ :=
      evolves_final (hfresh.between hpre) id intent hlookup
    rw [Runs.final_append]
    exact ⟨intent', hlookup', hprogress.status_eq⟩
  case starts =>
    intro pre call _ intent hcreated
    exact (created_sound hcreated).1
  case notCancelled =>
    intro pre hpre id intent hlookup
    exact (hsound pre hpre id intent hlookup).notCancelled
  case claimedOnce => exact countP_claims_le_one hfresh
  case claimedInTime =>
    intro pre id claimer checkNow claimNow hpre claimed hclaimed
    rcases claimIntent_cases (Runs.final step new pre) id claimer checkNow claimNow with
      ⟨intent, hlookup, -, hopen, heq⟩ | heq
    · rw [heq, Option.some.injEq] at hclaimed
      subst hclaimed
      have hprefix := (List.prefix_append pre _).trans hpre
      rw [(hsound pre hprefix id intent hlookup).window, claimWindowSeconds] at hopen
      exact hopen
    · rw [heq] at hclaimed
      cases hclaimed
  case swept =>
    intro pre now mid hpre
    exact notOverdue_final hclock hpre
  case settles =>
    intro pre id txSignature _ hok
    rcases confirmSettlement_cases (Runs.final step new pre) id txSignature with
      ⟨intent, hlookup, hclaimed, -⟩ | heq
    · exact ⟨intent, hlookup, hclaimed⟩
    · rw [heq] at hok
      cases hok
  case settled =>
    intro pre hpre id intent hlookup
    exact (hsound pre hpre id intent hlookup).settled

/-- Two intents: one is claimed, late and twice, and settled, the other expires. -/
theorem intent_lifecycle_claimed_and_expired :
    Lifecycle
      [.createIntent "alice" "bob" "SOL" 5 "sig" 0, .createIntent "alice" "carol" "SOL" 7 "sig" 1,
        .claimIntent "int_1" "relayer" 604799 604800, .claimIntent "int_1" "bob" 604800 604800,
        .confirmSettlement "int_1" "tx", .expireIntents 604801] :=
  intent_lifecycle (by decide +kernel) (by decide +kernel)

end IntentNetwork

end Membra
