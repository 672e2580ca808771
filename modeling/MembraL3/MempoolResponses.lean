/-
What the mempool governor answers.

The responses of `MempoolGovernorAPI` are JSON objects that are put together from strings,
without escapes.  The governor and the router print what they know of a transaction into
routes, alerts and tasks.

* `routes_identified` — what can be read off routes, alerts and tasks;
* `toList_serializeAnalysis`, `toList_serializeRecommendation` — the responses as objects;
* `analyses_read_back`, `recommendations_read_back` — which of them a reader of JSON reads
  back as they were meant;
* `handlers_read_back` — what the handlers answer.
-/
import MembraL3.Lib.Json
import MembraL3.MempoolGovernor

namespace Membra

/-- The value of the enumerator. -/
def NextAction.code : NextAction → ℕ
  | .doNothing => 0
  | .updateOracle => 1
  | .triggerAlert => 2
  | .createMerkleProof => 3
  | .scheduleWorker => 4
  | .rerouteLiquidity => 5
  | .rebalancePool => 6
  | .hedgeExposure => 7
  | .bridgeLiquidity => 8
  | .sponsorUserTx => 9
  | .delayTx => 10
  | .requireHumanApproval => 11
  | .blockUnsafeAction => 12

/-- The enumerators in order. -/
def NextAction.all : List NextAction :=
  [.doNothing, .updateOracle, .triggerAlert, .createMerkleProof, .scheduleWorker,
    .rerouteLiquidity, .rebalancePool, .hedgeExposure, .bridgeLiquidity, .sponsorUserTx, .delayTx,
    .requireHumanApproval, .blockUnsafeAction]

theorem NextAction.code_inj {a b : NextAction} : a.code = b.code ↔ a = b := by
  refine ⟨fun h => ?_, congrArg code⟩
  have hall : ∀ a : NextAction, all[a.code]? = some a := by
    intro a
    cases a <;> rfl
  have ha := hall a
  rw [h, hall b] at ha
  exact (Option.some.inj ha).symm

def TransactionIntent.all : List TransactionIntent :=
  [.unknown, .arbitrage, .liquidityProvision, .liquidityRemoval, .swap, .bridge, .stake, .unstake,
    .governance, .nftMint, .nftTransfer, .spam, .attack, .mevExtraction]

theorem TransactionIntent.code_inj {a b : TransactionIntent} : a.code = b.code ↔ a = b := by
  refine ⟨fun h => ?_, congrArg code⟩
  have hall : ∀ a : TransactionIntent, all[a.code]? = some a := by
    intro a
    cases a <;> rfl
  have ha := hall a
  rw [h, hall b] at ha
  exact (Option.some.inj ha).symm

namespace LLMMempoolGovernor

def routeFromSignal (analysis : TransactionAnalysis) : String :=
  match analysis.intent with
  | .arbitrage => "route_arbitrage_" ++ analysis.transactionHash
  | .liquidityProvision => "route_liquidity_provision_" ++ analysis.transactionHash
  | .bridge => "route_bridge_" ++ analysis.transactionHash
  | .swap => "route_swap_" ++ analysis.transactionHash
  | .spam | .attack => "route_block_" ++ analysis.transactionHash
  | _ => "route_monitor_" ++ analysis.transactionHash

/-- What the route of an intent starts with. -/
def routePrefix : TransactionIntent → String
  | .arbitrage => "route_arbitrage_"
  | .liquidityProvision => "route_liquidity_provision_"
  | .bridge => "route_bridge_"
  | .swap => "route_swap_"
  | .spam | .attack => "route_block_"
  | _ => "route_monitor_"

theorem routeFromSignal_eq (analysis : TransactionAnalysis) :
    routeFromSignal analysis = routePrefix analysis.intent ++ analysis.transactionHash := by
  rw [routeFromSignal]
  cases analysis.intent <;> rfl

/-- The prefixes differ in their first eight characters. -/
theorem routePrefix_spec (intent : TransactionIntent) :
    routePrefix intent ∈ ["route_arbitrage_", "route_liquidity_provision_", "route_bridge_",
      "route_swap_", "route_block_", "route_monitor_"] := by
  cases intent <;> decide

theorem eq_of_take_eight : ∀ p ∈ ["route_arbitrage_", "route_liquidity_provision_", "route_bridge_",
      "route_swap_", "route_block_", "route_monitor_"],
    8 ≤ p.toList.length ∧ ∀ q ∈ ["route_arbitrage_", "route_liquidity_provision_", "route_bridge_",
      "route_swap_", "route_block_", "route_monitor_"],
      p.toList.take 8 = q.toList.take 8 → p = q := by
  decide +kernel

theorem routeFromSignal_inj {a b : TransactionAnalysis} :
    routeFromSignal a = routeFromSignal b ↔
      routePrefix a.intent = routePrefix b.intent ∧ a.transactionHash = b.transactionHash := by
  rw [routeFromSignal_eq, routeFromSignal_eq]
  constructor
  · intro h
    obtain ⟨hlength, heq⟩ := eq_of_take_eight _ (routePrefix_spec a.intent)
    obtain ⟨hlength', -⟩ := eq_of_take_eight _ (routePrefix_spec b.intent)
    have htake := congrArg (fun text => text.toList.take 8) h
    simp only [String.toList_append, List.take_append_of_le_length hlength,
      List.take_append_of_le_length hlength'] at htake
    have hstart := heq _ (routePrefix_spec b.intent) htake
    rw [hstart, String.append_right_inj] at h
    exact ⟨hstart, h⟩
  · rintro ⟨hstart, hhash⟩
    rw [hstart, hhash]

/-- A reviewed transaction is routed as a swap or to a bridge, or monitored. -/
theorem routePrefix_reviewTransaction (tx : PendingTransaction) (context : MempoolState) :
    routePrefix (reviewTransaction tx context).intent
      ∈ ["route_swap_", "route_bridge_", "route_monitor_"] := by
  show routePrefix (classifyIntent tx) ∈ _
  rw [classifyIntent]
  split
  · decide
  split
  · decide
  split
  · decide
  split
  · decide
  split <;> decide

end LLMMempoolGovernor

namespace MempoolRouter

def compileRoute (analysis : TransactionAnalysis) : String :=
  "route_" ++ toString analysis.intent.code ++ "_conf_" ++ toString analysis.confidence.toNat ++
    "_risk_" ++ toString analysis.riskScore.toNat

def generateAlert (analysis : TransactionAnalysis) (severity : String) : String :=
  "alert_" ++ severity ++ "_" ++ analysis.transactionHash ++ "_intent_" ++
    toString analysis.intent.code

/-- The priority is computed as an `int`. -/
def scheduleWorkerTask (analysis : TransactionAnalysis) (taskType : String) : String :=
  "worker_" ++ taskType ++ "_" ++ analysis.transactionHash ++ "_priority_" ++
    toString (100 - (analysis.riskScore.toNat : ℤ))

/-! ### What the texts identify -/

theorem underscore_notMem_nat (n : ℕ) : '_' ∉ (toString n).toList := by
  intro h
  cases Printed.isDigit_of_mem_toString h

theorem underscore_notMem_int (n : ℤ) : '_' ∉ (toString n).toList := by
  cases n with
  | ofNat n => exact underscore_notMem_nat n
  | negSucc n =>
    intro h
    have hsplit : (toString (Int.negSucc n)).toList = '-' :: (toString (n + 1)).toList :=
      String.toList_append
    rw [hsplit] at h
    rcases List.mem_cons.mp h with hminus | hdigit
    · exact absurd hminus (by decide)
    · exact underscore_notMem_nat (n + 1) hdigit

theorem compileText_inj {i c r i' c' r' : String} (hi : '_' ∉ i.toList) (hi' : '_' ∉ i'.toList)
    (hc : '_' ∉ c.toList) (hc' : '_' ∉ c'.toList) :
    "route_" ++ i ++ "_conf_" ++ c ++ "_risk_" ++ r
        = "route_" ++ i' ++ "_conf_" ++ c' ++ "_risk_" ++ r' ↔ i = i' ∧ c = c' ∧ r = r' := by
  have htext : ∀ i c r : String, ("route_" ++ i ++ "_conf_" ++ c ++ "_risk_" ++ r).toList
      = "route_".toList ++ (i.toList ++ '_' :: ("conf_".toList ++
        (c.toList ++ '_' :: ("risk_".toList ++ r.toList)))) := by
    intro i c r
    simp
  rw [← String.toList_inj, htext, htext, List.append_cancel_left_eq,
    Printed.first_separated_inj hi hi', List.append_cancel_left_eq,
    Printed.first_separated_inj hc hc', List.append_cancel_left_eq, String.toList_inj,
    String.toList_inj, String.toList_inj]

theorem compileRoute_inj {a b : TransactionAnalysis} :
    compileRoute a = compileRoute b ↔
      a.intent = b.intent ∧ a.confidence = b.confidence ∧ a.riskScore = b.riskScore := by
  refine (compileText_inj (underscore_notMem_nat _) (underscore_notMem_nat _)
    (underscore_notMem_nat _) (underscore_notMem_nat _)).trans ?_
  rw [Printed.toString_nat_inj, Printed.toString_nat_inj, Printed.toString_nat_inj,
    TransactionIntent.code_inj, UInt8.toNat_inj, UInt8.toNat_inj]

/-- The number at the end of a text can be cut off, but a type and a hash run together. -/
theorem taskText_inj {opening middle stem kind hash number kind' hash' number' : String}
    (hmiddle : middle = stem ++ "_") (hnumber : '_' ∉ number.toList)
    (hnumber' : '_' ∉ number'.toList) :
    opening ++ kind ++ "_" ++ hash ++ middle ++ number
        = opening ++ kind' ++ "_" ++ hash' ++ middle ++ number' ↔
      kind ++ "_" ++ hash = kind' ++ "_" ++ hash' ∧ number = number' := by
  have htext : ∀ kind hash number, opening ++ kind ++ "_" ++ hash ++ middle ++ number
      = opening ++ (kind ++ "_" ++ hash) ++ stem ++ "_" ++ number := by
    intro kind hash number
    simp only [hmiddle, String.append_assoc]
  rw [htext, htext]
  refine (Printed.separated_inj (c := '_') hnumber hnumber').trans (and_congr_left fun _ => ?_)
  rw [String.append_left_inj, String.append_right_inj]

theorem generateAlert_inj {a b : TransactionAnalysis} {severity severity' : String} :
    generateAlert a severity = generateAlert b severity' ↔
      severity ++ "_" ++ a.transactionHash = severity' ++ "_" ++ b.transactionHash ∧
        a.intent = b.intent := by
  have hmiddle : "_intent_" = "_intent" ++ "_" := rfl
  refine (taskText_inj hmiddle (underscore_notMem_nat _) (underscore_notMem_nat _)).trans ?_
  rw [Printed.toString_nat_inj, TransactionIntent.code_inj]

theorem scheduleWorkerTask_inj {a b : TransactionAnalysis} {taskType taskType' : String} :
    scheduleWorkerTask a taskType = scheduleWorkerTask b taskType' ↔
      taskType ++ "_" ++ a.transactionHash = taskType' ++ "_" ++ b.transactionHash ∧
        a.riskScore = b.riskScore := by
  have hmiddle : "_priority_" = "_priority" ++ "_" := rfl
  refine (taskText_inj hmiddle (underscore_notMem_int _) (underscore_notMem_int _)).trans ?_
  rw [Printed.toString_int_inj, sub_right_inj, Int.natCast_inj, UInt8.toNat_inj]

open LLMMempoolGovernor in
/-- What the texts for two analyses have in common if they are the same, and where reviews
are routed. -/
theorem routes_identified (a b : TransactionAnalysis) :
    (compileRoute a = compileRoute b ↔
        a.intent = b.intent ∧ a.confidence = b.confidence ∧ a.riskScore = b.riskScore) ∧
      (routeFromSignal a = routeFromSignal b ↔
        routePrefix a.intent = routePrefix b.intent ∧ a.transactionHash = b.transactionHash) ∧
      (∀ severity severity', generateAlert a severity = generateAlert b severity' ↔
        severity ++ "_" ++ a.transactionHash = severity' ++ "_" ++ b.transactionHash ∧
          a.intent = b.intent) ∧
      (∀ taskType taskType', scheduleWorkerTask a taskType = scheduleWorkerTask b taskType' ↔
        taskType ++ "_" ++ a.transactionHash = taskType' ++ "_" ++ b.transactionHash ∧
          a.riskScore = b.riskScore) ∧
      ∀ (tx : PendingTransaction) (context : MempoolState),
        routePrefix (reviewTransaction tx context).intent
          ∈ ["route_swap_", "route_bridge_", "route_monitor_"] :=
  ⟨compileRoute_inj, routeFromSignal_inj, fun _ _ => generateAlert_inj,
    fun _ _ => scheduleWorkerTask_inj, routePrefix_reviewTransaction⟩

end MempoolRouter

namespace MempoolGovernorAPI

open Json

def serializeAnalysis (analysis : TransactionAnalysis) : String :=
  "\x7b\"transaction_hash\":\"" ++ analysis.transactionHash ++ "\"" ++
    ",\"intent\":" ++ toString analysis.intent.code ++
    ",\"confidence\":" ++ toString analysis.confidence.toNat ++
    ",\"risk_score\":" ++ toString analysis.riskScore.toNat ++
    ",\"rationale\":\"" ++ analysis.rationale ++ "\"\x7d"

def serializeRecommendation (recommendation : ActionRecommendation) : String :=
  "\x7b\"action\":" ++ toString recommendation.action.code ++
    ",\"confidence\":" ++ toString recommendation.confidence.toNat ++
    ",\"risk_score\":" ++ toString recommendation.riskScore.toNat ++
    ",\"requires_human_approval\":" ++
      (if recommendation.requiresHumanApproval then "true" else "false") ++
    ",\"timestamp\":" ++ toString recommendation.timestamp.toInt ++ "\x7d"

/-- The request is not parsed: an empty state is observed. -/
def handleObserveMempool (sha256 : Sha256) (_requestJson : String) (now : Nanoseconds) : String :=
  let proof := LLMMempoolGovernor.observeMempool sha256 ⟨[], ∅, ∅, 0⟩ now
  "\x7b\"observation_id\":\"" ++ proof.observationId ++ "\",\"status\":\"observed\"\x7d"

/-- Nor is this one: an empty transaction is reviewed. -/
def handleReviewTransaction (_requestJson : String) : String :=
  serializeAnalysis (LLMMempoolGovernor.reviewTransaction ⟨"", "", 0, "", 0⟩ ⟨[], ∅, ∅, 0⟩)

def handleComputeNextAction (governor : LLMMempoolGovernor) (_requestJson : String)
    (now : Nanoseconds) : String :=
  serializeRecommendation (governor.computeNextAction ⟨[], ∅, ∅, 0⟩ now)

def handleRouteFromSignal (_requestJson : String) : String :=
  let route := MempoolRouter.compileRoute
    ⟨"", .unknown, 0, 0, 0, 0, 0, 0, 0, 0, 0, ""⟩
  "\x7b\"route\":\"" ++ route ++ "\"\x7d"

/-- The members that an analysis is written as. -/
def analysisMembers (analysis : TransactionAnalysis) : List Member :=
  [⟨"transaction_hash".toList, .text analysis.transactionHash.toList⟩,
    ⟨"intent".toList, .integer analysis.intent.code⟩,
    ⟨"confidence".toList, .integer analysis.confidence.toNat⟩,
    ⟨"risk_score".toList, .integer analysis.riskScore.toNat⟩,
    ⟨"rationale".toList, .text analysis.rationale.toList⟩]

def recommendationMembers (recommendation : ActionRecommendation) : List Member :=
  [⟨"action".toList, .integer recommendation.action.code⟩,
    ⟨"confidence".toList, .integer recommendation.confidence.toNat⟩,
    ⟨"risk_score".toList, .integer recommendation.riskScore.toNat⟩,
    ⟨"requires_human_approval".toList, .flag recommendation.requiresHumanApproval⟩,
    ⟨"timestamp".toList, .integer recommendation.timestamp.toInt⟩]

theorem toList_analysisText (hash intent confidence risk rationale : String) :
    ("\x7b\"transaction_hash\":\"" ++ hash ++ "\"" ++ ",\"intent\":" ++ intent ++
        ",\"confidence\":" ++ confidence ++ ",\"risk_score\":" ++ risk ++
        ",\"rationale\":\"" ++ rationale ++ "\"\x7d").toList
      = '\x7b' :: quote :: ("transaction_hash".toList ++ quote :: ':' :: quote ::
        (hash.toList ++ quote :: ',' :: quote :: ("intent".toList ++ quote :: ':' ::
        (intent.toList ++ ',' :: quote :: ("confidence".toList ++ quote :: ':' ::
        (confidence.toList ++ ',' :: quote :: ("risk_score".toList ++ quote :: ':' ::
        (risk.toList ++ ',' :: quote :: ("rationale".toList ++ quote :: ':' :: quote ::
        (rationale.toList ++ [quote, '\x7d'])))))))))) := by
  simp [quote]

theorem toList_serializeAnalysis (analysis : TransactionAnalysis) :
    (serializeAnalysis analysis).toList = writeObject (analysisMembers analysis) := by
  refine (toList_analysisText _ _ _ _ _).trans ?_
  simp only [analysisMembers, writeObject, writeMembers, Member.write, Value.write,
    List.append_assoc, List.cons_append, List.nil_append]
  rfl

theorem toList_recommendationText (action confidence risk approval timestamp : String) :
    ("\x7b\"action\":" ++ action ++ ",\"confidence\":" ++ confidence ++
        ",\"risk_score\":" ++ risk ++ ",\"requires_human_approval\":" ++ approval ++
        ",\"timestamp\":" ++ timestamp ++ "\x7d").toList
      = '\x7b' :: quote :: ("action".toList ++ quote :: ':' ::
        (action.toList ++ ',' :: quote :: ("confidence".toList ++ quote :: ':' ::
        (confidence.toList ++ ',' :: quote :: ("risk_score".toList ++ quote :: ':' ::
        (risk.toList ++ ',' :: quote :: ("requires_human_approval".toList ++ quote :: ':' ::
        (approval.toList ++ ',' :: quote :: ("timestamp".toList ++ quote :: ':' ::
        (timestamp.toList ++ ['\x7d'])))))))))) := by
  simp [quote]

theorem toList_serializeRecommendation (recommendation : ActionRecommendation) :
    (serializeRecommendation recommendation).toList
      = writeObject (recommendationMembers recommendation) := by
  refine (toList_recommendationText _ _ _ _ _).trans ?_
  have hflag : (if recommendation.requiresHumanApproval then "true" else "false")
      = toString recommendation.requiresHumanApproval := by
    cases recommendation.requiresHumanApproval <;> rfl
  simp only [recommendationMembers, writeObject, writeMembers, Member.write, Value.write,
    List.append_assoc, List.cons_append, hflag]
  rfl

/-! ### What is read back -/

theorem analysisMembers_plain_iff (analysis : TransactionAnalysis) :
    (∀ m ∈ analysisMembers analysis, m.Plain) ↔
      Plain analysis.transactionHash.toList ∧ Plain analysis.rationale.toList := by
  have hkey : ∀ key ∈ ["transaction_hash", "intent", "confidence", "risk_score", "rationale"],
      Plain key.toList := by
    decide +kernel
  simp only [List.forall_mem_cons, List.not_mem_nil, false_implies, implies_true, and_true] at hkey
  obtain ⟨h1, h2, h3, h4, h5⟩ := hkey
  simp only [analysisMembers, List.forall_mem_cons, List.not_mem_nil, false_implies, implies_true,
    and_true, Member.Plain, Value.Plain, h1, h2, h3, h4, h5, true_and]

theorem recommendationMembers_plain (recommendation : ActionRecommendation) :
    ∀ m ∈ recommendationMembers recommendation, m.Plain := by
  have hkey : ∀ key ∈ ["action", "confidence", "risk_score", "requires_human_approval",
      "timestamp"], Plain key.toList := by
    decide +kernel
  simp only [List.forall_mem_cons, List.not_mem_nil, false_implies, implies_true, and_true] at hkey
  obtain ⟨h1, h2, h3, h4, h5⟩ := hkey
  simp only [recommendationMembers, List.forall_mem_cons, List.not_mem_nil, false_implies,
    implies_true, and_true, Member.Plain, Value.Plain, h1, h2, h3, h4, h5]

theorem plain_rationaleText {intent confidence risk : String} (hintent : Plain intent.toList)
    (hconfidence : Plain confidence.toList) (hrisk : Plain risk.toList) :
    Plain ("Transaction classified as " ++ intent ++ " with confidence " ++ confidence ++
      "% and risk score " ++ risk ++ "%").toList := by
  have htext : ∀ text ∈ ["Transaction classified as ", " with confidence ", "% and risk score ",
      "%"], Plain text.toList := by
    decide +kernel
  simp only [List.forall_mem_cons, List.not_mem_nil, false_implies, implies_true, and_true] at htext
  obtain ⟨h1, h2, h3, h4⟩ := htext
  simp only [String.toList_append, plain_append, h1, h2, h3, h4, hintent, hconfidence, hrisk,
    and_self]

/-- The rationale of a review is plain. -/
theorem plain_rationale (tx : PendingTransaction) (context : MempoolState) :
    Plain (LLMMempoolGovernor.reviewTransaction tx context).rationale.toList :=
  plain_rationaleText (plain_toString _) (plain_toString _) (plain_toString _)

/-- An analysis is read back exactly if its transaction hash and its rationale need no
escapes. -/
theorem serializeAnalysis_read_iff (unicode : List Char → Option Char)
    (analysis : TransactionAnalysis) :
    readObject unicode (serializeAnalysis analysis).toList = some (analysisMembers analysis) ↔
      Plain analysis.transactionHash.toList ∧ Plain analysis.rationale.toList := by
  rw [toList_serializeAnalysis, readObject_writeObject_iff, analysisMembers_plain_iff]

/-- Every analysis, and every review of a transaction. -/
theorem analyses_read_back (unicode : List Char → Option Char) :
    (∀ analysis : TransactionAnalysis,
      readObject unicode (serializeAnalysis analysis).toList = some (analysisMembers analysis) ↔
        Plain analysis.transactionHash.toList ∧ Plain analysis.rationale.toList) ∧
      ∀ (tx : PendingTransaction) (context : MempoolState),
        readObject unicode
            (serializeAnalysis (LLMMempoolGovernor.reviewTransaction tx context)).toList
          = some (analysisMembers (LLMMempoolGovernor.reviewTransaction tx context)) ↔
        Plain tx.transactionHash.toList := by
  refine ⟨serializeAnalysis_read_iff unicode, fun tx context => ?_⟩
  rw [serializeAnalysis_read_iff, and_iff_left (plain_rationale tx context)]
  rfl

/-- What a recommendation is written from. -/
def answered (recommendation : ActionRecommendation) : NextAction × UInt8 × UInt8 × Bool × Int64 :=
  (recommendation.action, recommendation.confidence, recommendation.riskScore,
    recommendation.requiresHumanApproval, recommendation.timestamp)

theorem recommendationMembers_inj {r r' : ActionRecommendation} :
    recommendationMembers r = recommendationMembers r' ↔ answered r = answered r' := by
  simp only [recommendationMembers, answered, List.cons.injEq, Member.mk.injEq, Value.integer.injEq,
    Value.flag.injEq, true_and, and_true, Int.natCast_inj, NextAction.code_inj, UInt8.toNat_inj,
    Int64.toInt_inj, Prod.mk.injEq]

/-- Every recommendation is read back, and two with the same text are the same. -/
theorem recommendations_read_back (unicode : List Char → Option Char) :
    (∀ recommendation : ActionRecommendation,
      readObject unicode (serializeRecommendation recommendation).toList
        = some (recommendationMembers recommendation)) ∧
      ∀ r r' : ActionRecommendation,
        serializeRecommendation r = serializeRecommendation r' ↔ answered r = answered r' := by
  constructor
  · intro recommendation
    rw [toList_serializeRecommendation]
    exact readObject_writeObject_iff.mpr (recommendationMembers_plain recommendation)
  · intro r r'
    rw [← String.toList_inj, toList_serializeRecommendation, toList_serializeRecommendation,
      writeObject_inj (recommendationMembers_plain r) (recommendationMembers_plain r'),
      recommendationMembers_inj]

/-! ### The handlers -/

/-- The hexadecimal form of bytes is plain. -/
theorem plain_hex (bytes : List UInt8) : Plain (hex bytes).toList := by
  have hdigit : ∀ n < 16, PlainChar (Nat.digitChar n) := by decide
  intro c hc
  rw [hex, String.toList_ofList, List.mem_flatMap] at hc
  obtain ⟨b, -, hmem⟩ := hc
  have hb := b.toNat_lt
  rcases List.mem_cons.mp hmem with rfl | hmem
  · exact hdigit _ (by omega)
  · rw [List.mem_singleton.mp hmem]
    exact hdigit _ (by omega)

theorem toList_observedText (id : String) :
    ("\x7b\"observation_id\":\"" ++ id ++ "\",\"status\":\"observed\"\x7d").toList
      = writeObject [⟨"observation_id".toList, .text id.toList⟩,
        ⟨"status".toList, .text "observed".toList⟩] := by
  simp [writeObject, writeMembers, Member.write, Value.write, quote]

theorem toList_routeText (route : String) :
    ("\x7b\"route\":\"" ++ route ++ "\"\x7d").toList
      = writeObject [⟨"route".toList, .text route.toList⟩] := by
  simp [writeObject, writeMembers, Member.write, Value.write, quote]

/-- Whatever is asked, the answer is a JSON object with these members. -/
theorem handlers_read_back (unicode : List Char → Option Char) (sha256 : Sha256)
    (governor : LLMMempoolGovernor) (requestJson : String) (now : Nanoseconds) :
    readObject unicode (handleObserveMempool sha256 requestJson now).toList
        = some [⟨"observation_id".toList,
            .text (LLMMempoolGovernor.observationId sha256 now).toList⟩,
          ⟨"status".toList, .text "observed".toList⟩] ∧
      readObject unicode (handleReviewTransaction requestJson).toList
        = some [⟨"transaction_hash".toList, .text []⟩, ⟨"intent".toList, .integer 0⟩,
          ⟨"confidence".toList, .integer 90⟩, ⟨"risk_score".toList, .integer 4⟩,
          ⟨"rationale".toList, .text ("Transaction classified as 0 with confidence " ++
            "90% and risk score 4%").toList⟩] ∧
      readObject unicode (handleComputeNextAction governor requestJson now).toList
        = some [⟨"action".toList, .integer 1⟩, ⟨"confidence".toList, .integer 100⟩,
          ⟨"risk_score".toList, .integer 0⟩,
          ⟨"requires_human_approval".toList, .flag false⟩,
          ⟨"timestamp".toList, .integer (Int64.ofInt (wholeSeconds now)).toInt⟩] ∧
      readObject unicode (handleRouteFromSignal requestJson).toList
        = some [⟨"route".toList, .text "route_0_conf_0_risk_0".toList⟩] := by
  refine ⟨?_, ?_, ?_, ?_⟩
  · refine (congrArg _ (toList_observedText _)).trans (readObject_writeObject_iff.mpr ?_)
    have hkeys : Plain "observation_id".toList ∧ Plain "status".toList ∧
        Plain "observed".toList := by
      decide +kernel
    obtain ⟨hid, hstatus, hobserved⟩ := hkeys
    simp only [List.forall_mem_cons, List.not_mem_nil, false_implies, implies_true, and_true]
    exact ⟨⟨hid, plain_hex _⟩, hstatus, hobserved⟩
  · have hplain := (serializeAnalysis_read_iff unicode (LLMMempoolGovernor.reviewTransaction
      ⟨"", "", 0, "", 0⟩ ⟨[], ∅, ∅, 0⟩)).mpr ⟨by decide +kernel, plain_rationale _ _⟩
    refine Eq.trans hplain (congrArg some ?_)
    decide +kernel
  · rw [handleComputeNextAction, toList_serializeRecommendation]
    exact readObject_writeObject_iff.mpr (recommendationMembers_plain _)
  · refine (congrArg _ (toList_routeText _)).trans (readObject_writeObject_iff.mpr ?_)
    decide +kernel

end MempoolGovernorAPI

end Membra
