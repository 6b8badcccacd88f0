import OpsControlPlane.Broker.Util

/-!
# Action classes and roles

The action policy and the role-based access control of `policy.py`. Both structures carry
what their loaders check, so that a policy in hand is a policy that was loaded. Lookups
fail closed: an unknown actor is denied.
-/

namespace OpsControlPlane

variable [Platform]

inductive ActionClass where
  | a
  | b
  | c
deriving DecidableEq

def ActionClass.text : ActionClass → String
  | a => "A"
  | b => "B"
  | c => "C"

def lifecycleCapabilities : List String :=
  ["mission.status.write", "mission.context.write", "mission.checkpoint.write",
    "mission.record.write", "mission.queue.claim", "incident.status.write",
    "incident.detail.write", "resource.lock", "model.trace.write"]

/-- `ActionPolicy`: the limits of class B, the time to live of a class C approval
request, and the actors that may approve. -/
structure ActionPolicy where
  (maxAttempts windowSeconds approvalTtlSeconds : ℕ)
  approvalActorIds : List String
  maxAttempts_pos : 1 ≤ maxAttempts
  windowSeconds_pos : 1 ≤ windowSeconds
  ttl_bounds : 60 ≤ approvalTtlSeconds ∧ approvalTtlSeconds ≤ 86400

/-- `ActionPolicy.validate_runbook_budget`. -/
def ActionPolicy.validRunbookBudget (p : ActionPolicy) (maxAttempts windowSeconds : ℕ) : Prop :=
  maxAttempts ≤ p.maxAttempts ∧ p.windowSeconds ≤ windowSeconds

def ActionPolicy.requireApprovalActor (p : ActionPolicy) (actorId : String) :
    Except PyError Unit :=
  if p.approvalActorIds = [] then
    .error (.authorizationDenied "human approval actors are not configured")
  else if actorId ∉ p.approvalActorIds then
    .error (.authorizationDenied "actor is not authorized to approve actions")
  else .ok ()

structure RoleGrant where
  (projects runbooks : List String)
  actionClasses : List ActionClass
  lifecycleCapabilities : List String

/-- `RBACPolicy`: the roles of the actors, each of which is defined. -/
structure RBACPolicy where
  actors : List (String × List String)
  roles : List (String × RoleGrant)
  roles_known : ∀ a ∈ actors, ∀ r ∈ a.2, (roles.lookup r).isSome

namespace RBACPolicy

variable (p : RBACPolicy)

def grants (actorId : String) : Option (List RoleGrant) :=
  (p.actors.lookup actorId).map fun roles => roles.filterMap fun r => p.roles.lookup r

def isKnownActor (actorId : String) : Bool :=
  (p.actors.lookup actorId).isSome

/-- The refusal of an actor without a grant that satisfies the condition. -/
def requireGrant (actorId : String) (c : RoleGrant → Bool) (message : String) :
    Except PyError Unit :=
  match p.grants actorId with
  | none => .error (.authorizationDenied "unknown actor")
  | some grants => if grants.any c then .ok () else .error (.authorizationDenied message)

def requireProject (actorId project : String) : Except PyError Unit :=
  p.requireGrant actorId (fun g => project ∈ g.projects) "actor has no grant for this project"

def projectsForActor (actorId : String) : Except PyError (List String) :=
  match p.grants actorId with
  | none => .error (.authorizationDenied "unknown actor")
  | some grants => .ok (grants.flatMap RoleGrant.projects)

def requireRunbook (actorId project runbookId : String) (actionClass : ActionClass) :
    Except PyError Unit := do
  p.requireProject actorId project
  p.requireGrant actorId
    (fun g => project ∈ g.projects ∧ runbookId ∈ g.runbooks ∧ actionClass ∈ g.actionClasses)
    "actor has no grant for this runbook and action class"

def requireLifecycle (actorId project capability : String) : Except PyError Unit := do
  if capability ∉ OpsControlPlane.lifecycleCapabilities then
    .error (.authorizationDenied "unknown lifecycle capability")
  else do
    p.requireProject actorId project
    p.requireGrant actorId
      (fun g => project ∈ g.projects ∧ capability ∈ g.lifecycleCapabilities)
      "actor has no grant for this lifecycle operation"

end RBACPolicy

end OpsControlPlane
