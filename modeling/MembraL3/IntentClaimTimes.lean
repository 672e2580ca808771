/-
The times of claims.

`claim_intent` reads the clock twice: for the expiry test, and for the time that it
stores.  The window may close between the two readings.

* `claimedInWindow_step_iff` — what one call asks of its second reading;
* `claimedInWindow_iff` — the runs in which every claimed intent was claimed before it
  expires.
-/
import MembraL3.IntentLifecycle

namespace Membra

namespace IntentNetwork

open Runs

/-- Every claimed intent has a claim time before its expiry. -/
def ClaimedInWindow (network : IntentNetwork) : Prop :=
  ∀ id intent, network.intents.lookup id = some intent → intent.status = .claimed →
    intent.claimedAt < intent.expiresAt

/-- Where the first reading of a claim finds the intent claimable, the second is still
before its expiry. -/
def ClaimsInWindow (network : IntentNetwork) : Call → Prop
  | .claimIntent id _ checkNow claimNow => ∀ intent, network.intents.lookup id = some intent →
      intent.isClaimable checkNow = true → claimNow < intent.expiresAt
  | _ => True

variable {network : IntentNetwork} {id : String} {intent intent' : PaymentIntent}

/-- What a claim stores of a claimable intent. -/
theorem lookup_claimIntent (hlookup : network.intents.lookup id = some intent)
    {checkNow : Seconds} (hclaimable : intent.isClaimable checkNow = true) (claimer : String)
    (claimNow : Seconds) :
    (step network (.claimIntent id claimer checkNow claimNow)).2.intents.lookup id
      = some { intent with status := .claimed, claimedAt := claimNow } := by
  simp only [step, claimIntent, hlookup, hclaimable]
  exact Store.lookup_assign_self ..

/-- A move leaves a claim in its window if a claim that it makes is in it. -/
theorem Moves.claimedInWindow {call : Call} (h : Moves id call intent intent')
    (hlookup : network.intents.lookup id = some intent) (hcall : ClaimsInWindow network call)
    (hbefore : intent.status = .claimed → intent.claimedAt < intent.expiresAt)
    (hclaimed : intent'.status = .claimed) : intent'.claimedAt < intent'.expiresAt := by
  cases h with
  | kept => exact hbefore hclaimed
  | claimed claimer checkNow claimNow _ hpending hopen =>
    exact hcall intent hlookup (isClaimable_iff.mpr ⟨hpending, hopen⟩)
  | confirmed => exact hbefore hclaimed
  | expired => cases hclaimed

theorem claimedInWindow_step_iff (h : ClaimedInWindow network) (call : Call) :
    ClaimedInWindow (step network call).2 ↔ ClaimsInWindow network call := by
  constructor
  · intro hafter
    cases call with
    | claimIntent id claimer checkNow claimNow =>
      intro intent hlookup hclaimable
      exact hafter id _ (lookup_claimIntent hlookup hclaimable claimer claimNow) rfl
    | _ => trivial
  · intro hcall id intent' hlookup' hclaimed
    rcases lookup_of_step hlookup' with ⟨intent, hlookup, hmoves⟩ | ⟨hcreated, -⟩
    · exact hmoves.claimedInWindow hlookup hcall (h id intent hlookup) hclaimed
    · -- an intent starts pending
      rw [(created_sound hcreated).1] at hclaimed
      cases hclaimed

/-- In every state of a run each claimed intent was claimed before it expires iff no claim
of the run is stored after the window that its test still found open. -/
theorem claimedInWindow_iff (calls : List Call) :
    (∀ pre, pre <+: calls → ClaimedInWindow (final step new pre)) ↔
      Each step ClaimsInWindow new calls := by
  have hnew : ClaimedInWindow new := by
    intro id intent h
    cases h
  exact forall_final_iff hnew fun pre call h => claimedInWindow_step_iff h call

/-- A claim whose test is in the last second of the window, and whose time is not. -/
def lateClaim : List Call :=
  [.createIntent "alice" "bob" "SOL" 5 "sig" 0, .claimIntent "int_1" "relayer" 604799 604800]

theorem not_forall_claimedInWindow :
    ¬ ∀ calls, ClockForward calls → ClaimedInWindow (final step new calls) := by
  intro h
  have hwindow : ∀ intent ∈ (final step new lateClaim).intents.lookup "int_1",
      intent.status = .claimed → intent.claimedAt < intent.expiresAt :=
    fun intent hlookup => h lateClaim (by decide +kernel) "int_1" intent hlookup
  revert hwindow
  decide +kernel

end IntentNetwork

end Membra
