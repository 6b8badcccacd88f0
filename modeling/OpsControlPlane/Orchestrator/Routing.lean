import OpsControlPlane.Orchestrator.Ledger

/-!
# Routing

The policy that picks the roles of a request, and the operations that the service performs
while it routes one. What a provider, the database or a lock answers is up to the
environment; each of these operations may raise.
-/

namespace OpsOrchestrator

open Calls

/-! ## The host -/

/-- What the service takes from the host: its floats, and functions of its standard
library. -/
class Host (F : Type) extends LE F, LT F where
  [decidableLE : DecidableLE F]
  [decidableLT : DecidableLT F]
  quarter : F
  threeQuarters : F
  fixed3 : F → String
  strip : String → String
  /-- `json.dumps` of the fields of a result, with sorted keys. -/
  dumps : ExecutorResult F → String
  /-- `_cost_limit_microusd`, which parses a decimal. -/
  costLimit : Option String → Except Exc (Option ℤ)

variable {F : Type} [Host F]

instance hostDecidableLE : DecidableLE F :=
  Host.decidableLE

instance hostDecidableLT : DecidableLT F :=
  Host.decidableLT

structure Thresholds (F : Type) where
  (mediumConfidence highConfidence simpleComplexity complexComplexity minimumProviderConfidence : F)

structure Limits where
  (maxIterations maxProviderCalls : ℕ)
  maxOutputTokens : ℤ
  (maxSectionChars maxContextChars maxContextTokens : ℕ)

structure Config (F : Type) where
  thresholds : Thresholds F
  limits : Limits
  providersByRole : Role → List ProviderConfig
  accountBudgets : List (String × ProviderAccountBudget)

/-! ## The policy -/

structure RoutingPlan where
  roles : List Role
  reason : String
  deterministic : Bool := false

def expertRoles : List Role :=
  [.reasoning, .premium]

/-- The roles of a request without a deterministic tool, with the reason. -/
def modelPlan (cfg : Config F) (request : RouteRequest F) : List Role × String :=
  if request.taskType = .embed then
    ([.embedding], "embedding task requires the embedding role")
  else if request.taskType = .rerank then
    ([.reranker], "reranking task requires the reranker role")
  else if request.taskType = .code then
    ([.coder, .premium],
      "missing code starts with isolated coders and escalates to premium only after failure")
  else if request.risk = .critical then
    ([.premium],
      "critical risk justifies the exceptional premium tier and still requires human approval")
  else if request.risk = .high then
    (expertRoles,
      "high risk starts with expert reasoning and escalates to premium only on failure")
  else if Host.threeQuarters ≤ request.impact then
    (expertRoles,
      "high potential impact requires expert reasoning before any premium escalation")
  else if cfg.limits.maxContextTokens * 3 / 4 ≤ request.context.estimatedTokens then
    (expertRoles,
      "large bounded context requires expert reasoning before any premium escalation")
  else if request.confidence < cfg.thresholds.mediumConfidence then
    (expertRoles, "low confidence requires expert reasoning before any premium escalation")
  else if cfg.thresholds.complexComplexity ≤ request.complexity then
    (expertRoles, "high complexity requires expert reasoning before any premium escalation")
  else if request.urgency = .emergency ∧ cfg.thresholds.simpleComplexity < request.complexity then
    (expertRoles,
      "urgent non-trivial analysis requires expert reasoning before any premium escalation")
  else if cfg.thresholds.highConfidence ≤ request.confidence ∧
      request.complexity ≤ cfg.thresholds.simpleComplexity ∧
      request.impact ≤ Host.quarter ∧ request.risk = .low then
    ([.tiny, .localOps, .reasoning, .premium],
      "simple low-risk high-confidence work starts with the least-cost capable API tier")
  else
    ([.localOps, .reasoning, .premium],
      "moderate work starts with the standard API tier and escalates only if needed")

def plan (cfg : Config F) (request : RouteRequest F) : RoutingPlan :=
  if request.deterministicAvailable then
    ⟨[], "an explicitly available deterministic tool takes priority", true⟩
  else ⟨(modelPlan cfg request).1, (modelPlan cfg request).2, false⟩

def importantTask (request : RouteRequest F) : Prop :=
  (request.risk = .high ∨ request.risk = .critical) ∨ Host.threeQuarters ≤ request.impact

instance (request : RouteRequest F) : Decidable (importantTask request) :=
  inferInstanceAs (Decidable (_ ∨ _))

theorem plan_deterministic (cfg : Config F) (request : RouteRequest F) :
    (plan cfg request).deterministic = request.deterministicAvailable := by
  unfold plan
  cases request.deterministicAvailable <;> rfl

/-! ## Operations -/

/-- An entry of the model trace, next to the request and the route. -/
structure TraceEntry (F : Type) where
  (eventType reason : String)
  role : Option String := none
  providerId : Option String := none
  model : Option String := none
  location : Option String := none
  confidenceIn : Option F := none
  confidenceOut : Option F := none
  inputTokens : ℤ := 0
  outputTokens : ℤ := 0
  costMicrousd : ℤ := 0

/-- What `candidate_score` returns of a candidate. -/
structure Score where
  adaptiveCostMicrousd : ℤ
  latencyEvidenceSufficient : Bool
  (observedLatencyMs latencyTargetMs : ℤ)

/-- What `capability_check` returns of a profile. -/
structure Capability where
  capable : Bool
  deficits : String
  margin : ℤ

/-- The operations that ask the environment. -/
inductive EnvOp (F : Type) where
  | startRun (routeId : String) (request : RouteRequest F) (requestedRole : Option String)
      (reason : String)
  | finishRun (routeId status : String) (decision : RouteDecision F) (durationMs : ℕ)
  | increment (name : String) (labels : List (String × String)) (amount : ℕ)
  | append (routeId : String) (request : RouteRequest F) (entry : TraceEntry F)
  /-- `database.record_adaptive_score_audit`. -/
  | scoreAudit (routeId : String) (taskType : String) (role : String) (scores : List (Score × ℕ))
  /-- `catalogue.profile_scores` and `capability_check`. -/
  | capability (profile : String) (request : RouteRequest F)
  | score (request : RouteRequest F) (provider : ProviderConfig) (model : String)
      (estimatedCost : ℤ) (usageRole : String)
  | available (provider : ProviderConfig)
  | resolvedModel (provider : ProviderConfig)
  | inputTokens (request : RouteRequest F) (kind : String)
  /-- `config.price_microusd_per_million`. -/
  | price (provider : ProviderConfig) (inputTokens : ℤ)
  /-- `local_model_lock.acquire`. -/
  | acquireLock
  /-- `local_model_lock.release`. -/
  | releaseLock
  | invoke (provider : ProviderConfig) (request : RouteRequest F) (maxOutputTokens : ℤ)
  /-- The milliseconds since the start. -/
  | elapsed

def EnvOp.Reply : EnvOp F → Type
  | startRun _ _ _ _ => Unit
  | finishRun _ _ _ _ => Unit
  | increment _ _ _ => Unit
  | append _ _ _ => ℤ
  | scoreAudit _ _ _ _ => Unit
  | capability _ _ => Capability
  | score _ _ _ _ _ => Score
  | available _ => Bool × String
  | resolvedModel _ => String
  | inputTokens _ _ => ℤ
  | price _ _ => Prices
  | acquireLock => Bool
  | releaseLock => Unit
  | invoke _ _ _ => ProviderResult F
  | elapsed => ℕ

inductive RouteOp (F : Type) where
  | ledger (o : LedgerOp)
  | env (o : EnvOp F)

def RouteOp.Ans : RouteOp F → Type
  | ledger o => o.Ans
  | env o => Except Exc o.Reply

abbrev routeInterface (F : Type) [Host F] : Interface :=
  ⟨RouteOp F, RouteOp.Ans⟩

abbrev RouteMethod (F : Type) [Host F] (α : Type) : Type :=
  Prog (routeInterface F) Exc α

def ask (o : EnvOp F) : RouteMethod F o.Reply := do
  let r ← Prog.perform (I := routeInterface F) (.env o)
  Prog.ofExcept r

def ledger {α : Type} (p : LedgerMethod α) : RouteMethod F α :=
  p.interpret fun o => Prog.perform (I := routeInterface F) (.ledger o)

/-- `try` with `except ConfigurationError`. -/
def catchConfiguration {α : Type} (m : RouteMethod F α) : RouteMethod F (Except String α) := do
  let r ← m.attempt
  match r with
  | .ok a => return .ok a
  | .error (.configuration message) => return .error message
  | .error e => .fail e

end OpsOrchestrator
