import OpsControlPlane.Lib.Text
import Mathlib.Data.List.Basic
import Mathlib.Tactic

/-!
# Data of the orchestrator

The requests, results and decisions of the orchestrator, what it knows of a provider, and
the exceptions that its operations raise. `F` is the type of its floats, which are compared
and passed on.
-/

namespace OpsOrchestrator

/-! ## Requests -/

inductive Role where
  | tiny
  | localOps
  | reasoning
  | premium
  | coder
  | embedding
  | reranker
deriving DecidableEq

def Role.value : Role → String
  | tiny => "ROLE_TINY"
  | localOps => "ROLE_LOCAL_OPS"
  | reasoning => "ROLE_REASONING"
  | premium => "ROLE_PREMIUM"
  | coder => "ROLE_CODER"
  | embedding => "ROLE_EMBEDDING"
  | reranker => "ROLE_RERANKER"

def Role.all : List Role :=
  [tiny, localOps, reasoning, premium, coder, embedding, reranker]

inductive TaskType where
  | observe
  | analyze
  | plan
  | summarize
  | code
  | embed
  | rerank
deriving DecidableEq

def TaskType.value : TaskType → String
  | observe => "OBSERVE"
  | analyze => "ANALYZE"
  | plan => "PLAN"
  | summarize => "SUMMARIZE"
  | code => "CODE"
  | embed => "EMBED"
  | rerank => "RERANK"

inductive Risk where
  | low
  | medium
  | high
  | critical
deriving DecidableEq

inductive Urgency where
  | routine
  | normal
  | urgent
  | emergency
deriving DecidableEq

def Urgency.value : Urgency → String
  | routine => "ROUTINE"
  | normal => "NORMAL"
  | urgent => "URGENT"
  | emergency => "EMERGENCY"

def len (s : String) : ℕ :=
  (Text.toChars s).length

structure Context where
  (instructions mission : String)
  currentState : String := ""
  relevantMemories : List String := []
  toolResults : List String := []

def Context.sections (c : Context) : List (String × String) :=
  [("instructions", c.instructions), ("mission", c.mission)] ++
    (if c.currentState = "" then [] else [("current_state", c.currentState)]) ++
    c.relevantMemories.map (fun v => ("relevant_memory", v)) ++
    c.toolResults.map (fun v => ("tool_result", v))

def Context.characterCount (c : Context) : ℕ :=
  (c.sections.map fun s => len s.2).sum

def Context.estimatedTokens (c : Context) : ℕ :=
  max 1 ((c.characterCount + 2) / 3)

structure RouteRequest (F : Type) where
  (missionId projectId : String)
  taskType : TaskType
  risk : Risk
  (complexity impact confidence : F)
  urgency : Urgency
  (deterministicAvailable remoteAllowed : Bool)
  context : Context
  requestedMaxCostUsd : Option String := none
  verificationMode : Bool := false

/-! ## Results -/

structure ProviderResult (F : Type) where
  status : String
  confidence : F
  summary : String
  plan : List String := []
  proposal : Option String := none
  inputTokens : ℤ := 0
  outputTokens : ℤ := 0
  verification : Option String := none

structure ExecutorResult (F : Type) where
  role : Role
  providerId : String
  (providerAccountId chatFamily : Option String)
  model : String
  confidence : F
  summary : String
  plan : List String := []
  proposal : Option String := none

structure VerificationOutcome (F : Type) where
  required : Bool
  status : String
  verifierRole : Option Role := none
  providerId : Option String := none
  providerAccountId : Option String := none
  chatFamily : Option String := none
  model : Option String := none
  confidence : Option F := none
  summary : Option String := none

/-- `RouteDecision`. The confidence of an escalation is the literal zero. -/
structure RouteDecision (F : Type) where
  (routeId missionId : String)
  selectedRole : Option Role
  (selectedProvider selectedModel : Option String)
  (disposition reason : String)
  confidence : Option F
  summary : String
  plan : List String := []
  proposal : Option String := none
  requiresHumanApproval : Bool := false
  degraded : Bool := false
  traceSequence : Option ℤ := none
  executorResult : Option (ExecutorResult F) := none
  verification : Option (VerificationOutcome F) := none

/-! ## Providers -/

/-- Prices of a million input and output tokens, in millionths of a dollar. -/
abbrev Prices : Type :=
  ℤ × ℤ

structure PriceTier where
  (maxInputTokens inputPriceMicrousdPerMillion outputPriceMicrousdPerMillion : ℤ)
deriving DecidableEq

structure BudgetLimits where
  (dailyCalls monthlyCalls dailyTokens monthlyTokens dailyCostMicrousd monthlyCostMicrousd : ℤ)
  missionCostMicrousd : ℤ
deriving DecidableEq

/-- `ProviderAccountBudget`: limits shared by every deployment billed to one account. -/
structure ProviderAccountBudget where
  (dailyCalls monthlyCalls dailyTokens monthlyTokens dailyCostMicrousd monthlyCostMicrousd : ℤ)
  (taskCalls taskTokens taskCostMicrousd : ℤ)

inductive Location where
  | onHost
  | remote
deriving DecidableEq

def Location.value : Location → String
  | onHost => "local"
  | remote => "remote"

/-- `ProviderConfig`, with the fields that routing and budgets read. -/
structure ProviderConfig where
  providerId : String
  accountId : Option String
  capabilityProfile : String
  role : Role
  kind : String
  location : Location
  priceTiers : List PriceTier
  chatFamily : Option String
  budget : BudgetLimits
deriving DecidableEq

/-! ## Exceptions -/

inductive Exc where
  | budgetExceeded (provider period limit : String)
  | configuration (message : String)
  | protocol (message : String)
  | other (typeName message : String)
  /-- A `BaseException` that is no `Exception`. -/
  | base (typeName : String)
deriving DecidableEq

/-- `except Exception` catches it. -/
def Exc.isException : Exc → Bool
  | base _ => false
  | _ => true

def Exc.typeName : Exc → String
  | budgetExceeded _ _ _ => "BudgetExceeded"
  | configuration _ => "ConfigurationError"
  | protocol _ => "ProviderProtocolError"
  | other typeName _ => typeName
  | base typeName => typeName

def Exc.text : Exc → String
  | budgetExceeded provider period limit =>
    "budget blocked for " ++ provider ++ ": " ++ period ++ " " ++ limit
  | configuration message => message
  | protocol message => message
  | other _ message => message
  | base _ => ""

end OpsOrchestrator
