import OpsControlPlane.Broker.WorkQueue

/-!
# The transactions of mission control: details

What `update_incident_details` and `record_action_artifacts` do inside a transaction. Both
are updates that are identified by their payload, as `update_mission_state` is.
-/

namespace OpsControlPlane

open JsonText Calendar Transaction

variable [Platform]

/-! ## Details of incidents -/

/-- The columns that `update_incident_details` sets. -/
structure IncidentPatch where
  (service resourceId symptoms impact confirmedCause resolution rollback : Option String)
  (environment probableCausesJson recommendationsJson versionsJson : Option String)

def IncidentPatch.values (p : IncidentPatch) : List (String × Value) :=
  textItem "service" p.service ++ textItem "resource_id" p.resourceId ++
    textItem "symptoms" p.symptoms ++ textItem "impact" p.impact ++
    textItem "confirmed_cause" p.confirmedCause ++ textItem "resolution" p.resolution ++
    textItem "rollback" p.rollback ++ textItem "environment" p.environment ++
    textItem "probable_causes_json" p.probableCausesJson ++
    textItem "recommendations_json" p.recommendationsJson ++
    textItem "versions_json" p.versionsJson

def IncidentPatch.apply (p : IncidentPatch) (now : String) (r : IncidentDetailsRow) :
    IncidentDetailsRow :=
  { r with
    service := p.service.getD r.service
    resourceId := p.resourceId.getD r.resourceId
    environment := p.environment.getD r.environment
    symptoms := p.symptoms.getD r.symptoms
    impact := p.impact.getD r.impact
    probableCausesJson := p.probableCausesJson.getD r.probableCausesJson
    confirmedCause := p.confirmedCause.getD r.confirmedCause
    resolution := p.resolution.getD r.resolution
    rollback := p.rollback.getD r.rollback
    recommendationsJson := p.recommendationsJson.getD r.recommendationsJson
    versionsJson := p.versionsJson.getD r.versionsJson
    updatedAt := now }

/-- A row of `incidents` joined with its row of `incident_details`. -/
structure IncidentView where
  incident : IncidentRow
  details : IncidentDetailsRow

def incidentView (id : String) (db : Db) : Option IncidentView :=
  (row IncidentRow.id id db.incidents).bind fun i =>
    (row IncidentDetailsRow.incidentId id db.incidentDetails).map fun d => ⟨i, d⟩

/-- The transaction of `update_incident_details`: the incident, and whether the update is a
replay. -/
def updateIncidentDetails (rbac : RBACPolicy) (a : UpdateArgs) (p : IncidentPatch) :
    BrokerTxn (Option IncidentView × Bool) := do
  let incident ← select fun db => row IncidentRow.id a.entityId db.incidents
  let incident ← Txn.expect incident (.notFound "incident")
  Txn.ofExcept (rbac.requireLifecycle a.actorId incident.projectId "incident.detail.write")
  let prior ← select fun db => row UpdateRow.requestId a.requestId db.incidentUpdates
  match prior with
  | some prior =>
    Txn.demand (a.same prior)
      (.conflict "request_id was already used for another incident update")
    let v ← select (incidentView a.entityId)
    let v ← Txn.expect v .assertion
    return (some v, true)
  | none =>
    write fun db => { db with
      incidentDetails := update (fun r => r.incidentId = a.entityId) (p.apply (isoformat a.now))
        db.incidentDetails }
    write fun db => { db with incidentUpdates := db.incidentUpdates ++ [a.row] }
    let _ ← appendEvent (a.draft "incident.details_updated" "incident")
    let v ← select (incidentView a.entityId)
    return (v, false)

def Db.updateDetails (db : Db) (a : UpdateArgs) (p : IncidentPatch) : Db :=
  { db with
    incidentDetails := update (fun r => r.incidentId = a.entityId) (p.apply (isoformat a.now))
      db.incidentDetails
    incidentUpdates := db.incidentUpdates ++ [a.row] }

theorem updateIncidentDetails_spec (rbac : RBACPolicy) (a : UpdateArgs) (p : IncidentPatch)
    (x : TxEnv) (c : Conn) : (updateIncidentDetails rbac a p).wp x c
      (fun r c' => ∃ i, row IncidentRow.id a.entityId c.db.incidents = some i ∧
        rbac.requireLifecycle a.actorId i.projectId "incident.detail.write" = .ok () ∧
        Keyed (row UpdateRow.requestId a.requestId c.db.incidentUpdates) a.same
          (fun _ r => ∃ v, incidentView a.entityId c.db = some v ∧ r = (some v, true))
          (fun r c' => r = (incidentView a.entityId c'.db, false) ∧
            Logs x ⟨c.db.updateDetails a p, c.drawn⟩
              [a.draft "incident.details_updated" "incident"] c') c r c')
      fun e => ∀ i, row IncidentRow.id a.entityId c.db.incidents = some i →
        rbac.requireLifecycle a.actorId i.projectId "incident.detail.write" = .ok () →
        Refuses (row UpdateRow.requestId a.requestId c.db.incidentUpdates) a.same
          "request_id was already used for another incident update"
          (fun _ _ => incidentView a.entityId c.db = none) e := by
  simp only [updateIncidentDetails, Txn.wp_bind, wp_select, Txn.wp_expect, Txn.wp_ofExcept]
  refine ⟨fun i hi => ⟨fun _ hauth => ?_, fun e he j hj hok => ?_⟩, fun hnone j hj _ => ?_⟩
  · cases hp : row UpdateRow.requestId a.requestId c.db.incidentUpdates with
    | some prior =>
      refine Txn.wp.mono (wp_replay (A := fun _ r => ∃ v, incidentView a.entityId c.db = some v ∧
        r = (some v, true)) (N := fun _ _ => False)
        (F := fun _ _ => incidentView a.entityId c.db = none) rfl ?_)
        (fun r c' hr => ⟨i, hi, hauth, hr.imp_right fun h => h.2.elim⟩) fun e he j hj _ => he
      simp only [Txn.wp_bind, wp_select, Txn.wp_expect, Txn.wp_pure]
      exact ⟨fun v hv => ⟨⟨v, hv, rfl⟩, trivial⟩, fun h => h⟩
    | none =>
      simp only [Txn.wp_bind, wp_write]
      refine wp_appendEvent (fun head hh => ?_) fun _ _ _ _ => refuses_none _ _ _ _
      exact ⟨i, hi, hauth, Or.inr ⟨rfl, rfl, .single _ hh⟩⟩
  · obtain rfl := Option.some.inj (hi.symm.trans hj)
    cases he.symm.trans hok
  · cases hnone.symm.trans hj

def incidentDetailsPublic (v : IncidentView) (replayed : Option Bool) : Except PyError Value := do
  let probableCauses ← loadsJson v.details.probableCausesJson
  let recommendations ← loadsJson v.details.recommendationsJson
  let versions ← loadsJson v.details.versionsJson
  return .obj ([
    ("id", .str (clip 36 v.incident.id)),
    ("project_id", .str (clip 64 v.incident.projectId)),
    ("title", .str (clip 240 v.incident.title)),
    ("severity", .str (clip 16 v.incident.severity)),
    ("status", .str (clip 16 v.incident.status.text)),
    ("service", .str (clip 200 v.details.service)),
    ("resource_id", .str (clip 192 v.details.resourceId)),
    ("environment", .str (clip 64 v.details.environment)),
    ("symptoms", .str (clip 8000 v.details.symptoms)),
    ("impact", .str (clip 4000 v.details.impact)),
    ("probable_causes", probableCauses),
    ("confirmed_cause", .str (clip 4000 v.details.confirmedCause)),
    ("resolution", .str (clip 8000 v.details.resolution)),
    ("rollback", .str (clip 4000 v.details.rollback)),
    ("recommendations", recommendations),
    ("versions", versions),
    ("created_at", .str (clip 40 v.incident.createdAt)),
    ("updated_at", .str (clip 40 v.incident.updatedAt))] ++ replayedField replayed)

/-! ## Artifacts of actions -/

/-- The columns that `record_action_artifacts` sets. -/
structure ArtifactsPatch where
  (beforeDigest afterDigest targetVersion rollbackRef diffArtifact healthcheckJson : Option String)

namespace ArtifactsPatch

variable (p : ArtifactsPatch)

def values : List (String × Value) :=
  textItem "before_digest" p.beforeDigest ++ textItem "after_digest" p.afterDigest ++
    textItem "target_version" p.targetVersion ++ textItem "rollback_ref" p.rollbackRef ++
    textItem "diff_artifact" p.diffArtifact ++ textItem "healthcheck_json" p.healthcheckJson

def apply (now : String) (r : ArtifactsRow) : ArtifactsRow :=
  { r with
    beforeDigest := p.beforeDigest.or r.beforeDigest
    afterDigest := p.afterDigest.or r.afterDigest
    targetVersion := p.targetVersion.or r.targetVersion
    rollbackRef := p.rollbackRef.or r.rollbackRef
    diffArtifact := p.diffArtifact.or r.diffArtifact
    healthcheckJson := p.healthcheckJson.getD r.healthcheckJson
    updatedAt := now }

def keeps (value current : Option String) : Bool :=
  match value, current with
  | some v, some c => c = "" ∨ c = "{}" ∨ c = v
  | _, _ => true

/-- The first column, in the order of `values`, that would change what it holds. -/
def changedColumn (r : ArtifactsRow) : Option String :=
  ([("before_digest", keeps p.beforeDigest r.beforeDigest),
    ("after_digest", keeps p.afterDigest r.afterDigest),
    ("target_version", keeps p.targetVersion r.targetVersion),
    ("rollback_ref", keeps p.rollbackRef r.rollbackRef),
    ("diff_artifact", keeps p.diffArtifact r.diffArtifact),
    ("healthcheck_json", keeps p.healthcheckJson (some r.healthcheckJson))].find?
      fun c => !c.2).map Prod.fst

end ArtifactsPatch

def defaultArtifacts (actionId updatedAt : String) : ArtifactsRow where
  actionId := actionId
  beforeDigest := none
  afterDigest := none
  targetVersion := none
  rollbackRef := none
  diffArtifact := none
  healthcheckJson := "{}"
  updatedAt := updatedAt

/-- The row of the artifacts is there, and holds nothing that would change. -/
def prepareArtifacts (a : UpdateArgs) (p : ArtifactsPatch) : BrokerTxn Unit := do
  let existing ← select fun db => row ArtifactsRow.actionId a.entityId db.actionArtifacts
  match existing with
  | none =>
    write fun db => { db with
      actionArtifacts := db.actionArtifacts ++ [defaultArtifacts a.entityId (isoformat a.now)] }
  | some r =>
    match p.changedColumn r with
    | some column => Txn.raise (.conflict (column ++ " is immutable once recorded"))
    | none => pure ()

/-- The transaction of `record_action_artifacts`: the artifacts, and whether the update is
a replay. -/
def recordActionArtifacts (rbac : RBACPolicy) (a : UpdateArgs) (p : ArtifactsPatch) :
    BrokerTxn (Option ArtifactsRow × Bool) := do
  let action ← select fun db => row ActionRow.id a.entityId db.actions
  let action ← Txn.expect action (.notFound "action")
  Txn.ofExcept (rbac.requireProject a.actorId action.projectId)
  Txn.demand (action.requestedBy = a.actorId)
    (.authorizationDenied "only the action requester may attach execution artifacts")
  let prior ← select fun db => row UpdateRow.requestId a.requestId db.actionArtifactUpdates
  match prior with
  | some prior =>
    Txn.demand (a.same prior)
      (.conflict "request_id was already used for other action artifacts")
    let r ← select fun db => row ArtifactsRow.actionId a.entityId db.actionArtifacts
    let r ← Txn.expect r .assertion
    return (some r, true)
  | none =>
    prepareArtifacts a p
    write fun db => { db with
      actionArtifacts := update (fun r => r.actionId = a.entityId) (p.apply (isoformat a.now))
        db.actionArtifacts }
    write fun db => { db with actionArtifactUpdates := db.actionArtifactUpdates ++ [a.row] }
    let _ ← appendEvent (a.draft "action.artifacts_recorded" "action")
    let r ← select fun db => row ArtifactsRow.actionId a.entityId db.actionArtifacts
    return (r, false)

def Db.setArtifacts (db : Db) (t : List ArtifactsRow) : Db :=
  { db with actionArtifacts := t }

def ArtifactsPatch.updated (p : ArtifactsPatch) (a : UpdateArgs) (t : List ArtifactsRow) :
    List ArtifactsRow :=
  update (fun r => r.actionId = a.entityId) (p.apply (isoformat a.now))
    (if (row ArtifactsRow.actionId a.entityId t).isSome then t
      else t ++ [defaultArtifacts a.entityId (isoformat a.now)])

def Db.recordArtifacts (db : Db) (a : UpdateArgs) (p : ArtifactsPatch) : Db :=
  { db.setArtifacts (p.updated a db.actionArtifacts) with
    actionArtifactUpdates := db.actionArtifactUpdates ++ [a.row] }

/-- The actor requested the action, and has a grant for its project. -/
structure MayAttach (rbac : RBACPolicy) (a : UpdateArgs) (db : Db) (r : ActionRow) : Prop where
  found : row ActionRow.id a.entityId db.actions = some r
  allowed : rbac.requireProject a.actorId r.projectId = .ok ()
  requester : r.requestedBy = a.actorId

theorem prepareArtifacts_spec (a : UpdateArgs) (p : ArtifactsPatch) (x : TxEnv) (c : Conn) :
    (prepareArtifacts a p).wp x c (fun _ c' => c' = ⟨c.db.setArtifacts
      (if (row ArtifactsRow.actionId a.entityId c.db.actionArtifacts).isSome then
        c.db.actionArtifacts
      else c.db.actionArtifacts ++ [defaultArtifacts a.entityId (isoformat a.now)]), c.drawn⟩ ∧
      ∀ r, row ArtifactsRow.actionId a.entityId c.db.actionArtifacts = some r →
        p.changedColumn r = none) fun _ => True := by
  simp only [prepareArtifacts, Txn.wp_bind, wp_select]
  cases hr : row ArtifactsRow.actionId a.entityId c.db.actionArtifacts with
  | none => exact ⟨rfl, by simp⟩
  | some r =>
    dsimp only
    cases hcol : p.changedColumn r with
    | none => exact ⟨rfl, by rintro _ ⟨⟩; exact hcol⟩
    | some column => exact trivial

theorem recordActionArtifacts_spec (rbac : RBACPolicy) (a : UpdateArgs) (p : ArtifactsPatch)
    (x : TxEnv) (c : Conn) : (recordActionArtifacts rbac a p).wp x c
      (fun r c' => ∃ i, MayAttach rbac a c.db i ∧
        Keyed (row UpdateRow.requestId a.requestId c.db.actionArtifactUpdates) a.same
          (fun _ r => ∃ v, row ArtifactsRow.actionId a.entityId c.db.actionArtifacts = some v ∧
            r = (some v, true))
          (fun r c' => r = (row ArtifactsRow.actionId a.entityId c'.db.actionArtifacts, false) ∧
            (∀ v, row ArtifactsRow.actionId a.entityId c.db.actionArtifacts = some v →
              p.changedColumn v = none) ∧
            Logs x ⟨c.db.recordArtifacts a p, c.drawn⟩
              [a.draft "action.artifacts_recorded" "action"] c') c r c')
      fun e => ∀ i, MayAttach rbac a c.db i →
        Refuses (row UpdateRow.requestId a.requestId c.db.actionArtifactUpdates) a.same
          "request_id was already used for other action artifacts"
          (fun _ _ => row ArtifactsRow.actionId a.entityId c.db.actionArtifacts = none) e := by
  simp only [recordActionArtifacts, Txn.wp_bind, wp_select, Txn.wp_expect, Txn.wp_ofExcept,
    Txn.wp_demand]
  refine ⟨fun i hi => ⟨fun _ hauth => ⟨fun hreq => ?_, fun hreq j hj => ?_⟩,
    fun e he j hj => ?_⟩, fun hnone j hj => ?_⟩
  · cases hp : row UpdateRow.requestId a.requestId c.db.actionArtifactUpdates with
    | some prior =>
      refine Txn.wp.mono (wp_replay (A := fun _ r => ∃ v, row ArtifactsRow.actionId a.entityId
        c.db.actionArtifacts = some v ∧ r = (some v, true)) (N := fun _ _ => False)
        (F := fun _ _ => row ArtifactsRow.actionId a.entityId c.db.actionArtifacts = none) rfl ?_)
        (fun r c' hr => ⟨i, ⟨hi, hauth, hreq⟩, hr.imp_right fun h => h.2.elim⟩)
        fun e he j hj => he
      simp only [Txn.wp_bind, wp_select, Txn.wp_expect, Txn.wp_pure]
      exact ⟨fun v hv => ⟨⟨v, hv, rfl⟩, trivial⟩, fun h => h⟩
    | none =>
      simp only [Txn.wp_bind]
      refine (prepareArtifacts_spec a p x c).mono ?_ fun _ _ _ _ => refuses_none _ _ _ _
      rintro _ c₁ ⟨rfl, hcol⟩
      simp only [wp_write]
      refine wp_appendEvent (fun head hh => ?_) fun _ _ _ => refuses_none _ _ _ _
      exact ⟨i, ⟨hi, hauth, hreq⟩, Or.inr ⟨rfl, rfl, hcol, .single _ hh⟩⟩
  · obtain rfl := Option.some.inj (hi.symm.trans hj.found)
    exact absurd hj.requester hreq
  · obtain rfl := Option.some.inj (hi.symm.trans hj.found)
    cases he.symm.trans hj.allowed
  · cases hnone.symm.trans hj.found

def actionArtifactsPublic (r : ArtifactsRow) (replayed : Bool) : Except PyError Value := do
  let healthcheck ← loadsJson r.healthcheckJson
  return .obj [
    ("action_id", .str (clip 36 r.actionId)),
    ("before_digest", optionalText r.beforeDigest),
    ("after_digest", optionalText r.afterDigest),
    ("target_version", optionalText r.targetVersion),
    ("rollback_ref", optionalText r.rollbackRef),
    ("diff_artifact", optionalText r.diffArtifact),
    ("healthcheck", healthcheck),
    ("updated_at", .str (clip 40 r.updatedAt)),
    ("replayed", .bool replayed)]

end OpsControlPlane
