import OpsControlPlane.Memory.Catalog

/-!
# The memory service

`ingest`, `reindexApi`, `search`, `invalidate` and `maintain`, over the catalogue and the
collections of the vector store. A call of the vector store that raises may have taken effect
or not. What the hits of a search, the models and the clocks say is up to the environment.
-/

namespace OpsMemory

open Calls

variable {F : Type} [Host F]

/-! ## Policies -/

structure ActorPolicy where
  name : String
  (unixUsers roles grantableRoles projects environments : List String)
  maxClassification : Classification
  capabilities : List String
  sourceTypes : List String := []
  authoritativeSourceTypes : List String := []

def ActorPolicy.permitsScope (actor : ActorPolicy) (project environment : String)
    (classification : Classification) : Bool :=
  (project ∈ actor.projects ∨ "*" ∈ actor.projects) ∧
    (environment ∈ actor.environments ∨ "*" ∈ actor.environments) ∧
    classification.rank ≤ actor.maxClassification.rank

def ActorPolicy.recordVisible (actor : ActorPolicy) (r : Memory F) : Bool :=
  actor.permitsScope r.project r.environment r.classification ∧
    (∃ role ∈ r.allowedRoles, role ∈ actor.roles) ∧
    r.classification.rank ≤ actor.maxClassification.rank

structure ApiProvider where
  enabled : Bool
  (protocol model : String)
  dailyCallBudget : ℕ

/-- `MemoryConfig`. The space is the digest of the embedding API. -/
structure Config (F : Type) where
  actors : List ActorPolicy
  sourceTruth : List (String × List String)
  (dimensions apiDimensions : ℕ)
  modelId : String
  apiMinLocalConfidence : F
  embeddingApi : ApiProvider
  (space rerankerModelId : String)
  rerankerApi : ApiProvider
  (resultLimit fallbackScanLimit : ℕ)
  (allowDegradedReads allowDegradedWrites : Bool)
  (observationTtlDays staleAfterDays : ℕ)

/-- The source types that a category is verified against. -/
def Config.truthOf (cfg : Config F) (category : String) : List String :=
  (cfg.sourceTruth.lookup category).getD []

/-! ## Operations -/

/-- A collection of the vector store: that of the service, and one for each embedding API. -/
inductive Collection where
  | main
  | api (space : String)
deriving DecidableEq

structure Hit (F : Type) where
  id : String
  score : F

structure EmbeddingResult (F : Type) where
  vector : List F
  (model provider : String)
  confidence : F

structure AuditEntry where
  (actor operation outcome : String)
  project : Option String := none
  environment : Option String := none
  classification : Option Classification := none
  targetId : Option String := none
  query : Option String := none
  detail : String := ""

/-- The operations that ask the environment. -/
inductive EnvOp (F : Type) where
  | now
  | uuid
  /-- The time so many days from now. -/
  | expiry (days : ℕ)
  /-- The time now, and so many days ago. -/
  | sweepTimes (days : ℕ)
  | resolvedUids (actor : ActorPolicy)
  | audit (entry : AuditEntry)
  | reserveProviderCall (actor operation provider model : String) (budget : ℕ)
  | completeProviderCall (callId : ℕ) (outcome : String)
  | hasRecords (space : String)
  /-- The lookup in `api_vectors`. -/
  | cachedVector (space memoryId contentHash : String)
  /-- The insertion into `api_vectors`. -/
  | cacheVector (space memoryId contentHash : String) (vector : List F)
  | apiEmbed (text : String) (inputType : String)
  /-- The response of the reranker: an index and a score for each result. -/
  | rerank (query : String) (documents : List String) (topK : ℕ)
  | search (c : Collection) (vector : List F) (request : SearchRequest) (roles : List String)
  | recordMaintenance (started : String) (expired stale reindexed failures : ℕ)

def EnvOp.Reply : EnvOp F → Type
  | now => String
  | uuid => String
  | expiry _ => String
  | sweepTimes _ => String × String
  | resolvedUids _ => List ℕ
  | audit _ => Unit
  | reserveProviderCall _ _ _ _ _ => Option ℕ
  | completeProviderCall _ _ => Unit
  | hasRecords _ => Bool
  | cachedVector _ _ _ => Option (List F)
  | cacheVector _ _ _ _ => Unit
  | apiEmbed _ _ => EmbeddingResult F
  | rerank _ _ _ => List (ℤ × F)
  | search _ _ _ _ => List (Hit F)
  | recordMaintenance _ _ _ _ _ => String

inductive MemoryOp (F : Type) where
  | tx (t : CatalogTx F)
  | ensure (c : Collection)
  | upsert (c : Collection) (record : Row F) (vector : List F)
  | delete (c : Collection) (id : String)
  | env (o : EnvOp F)

def MemoryOp.Reply : MemoryOp F → Type
  | tx t => t.Reply
  | ensure _ => Unit
  | upsert _ _ _ => Unit
  | delete _ _ => Unit
  | env o => o.Reply

abbrev memoryInterface (F : Type) [Host F] : Interface :=
  ⟨MemoryOp F, fun o => Except Exc o.Reply⟩

abbrev Method (F : Type) [Host F] (α : Type) : Type :=
  Prog (memoryInterface F) Exc α

def perform (o : MemoryOp F) : Method F o.Reply := do
  let r ← Prog.perform (I := memoryInterface F) o
  Prog.ofExcept r

def ask (o : EnvOp F) : Method F o.Reply :=
  perform (.env o)

def catalog (t : CatalogTx F) : Method F t.Reply :=
  perform (.tx t)

/-- `try` with `except BackendUnavailableError`. -/
def catchUnavailable {α : Type} (m : Method F α) : Method F (Except String α) := do
  let r ← m.attempt
  match r with
  | .ok a => return .ok a
  | .error (.backendUnavailable message) => return .error message
  | .error e => .fail e

/-- `try` with `except (BackendUnavailableError, TypeError, ValueError)`. -/
def catchIndexing {α : Type} (m : Method F α) : Method F (Except String α) := do
  let r ← m.attempt
  match r with
  | .ok a => return .ok a
  | .error (.backendUnavailable message) => return .error message
  | .error (.value message) => return .error message
  | .error e => .fail e

/-- `try` with `except (BackendUnavailableError, ValidationError)`. -/
def catchEmbedding {α : Type} (m : Method F α) : Method F (Except String α) := do
  let r ← m.attempt
  match r with
  | .ok a => return .ok a
  | .error (.backendUnavailable message) => return .error message
  | .error (.validation message) => return .error message
  | .error e => .fail e

/-- The request of `QdrantClient.upsert`. -/
def putPoint (c : Collection) (record : Row F) (vector : List F) : Method F Unit :=
  perform (.upsert c record vector)

def upsertPoint (c : Collection) (dimensions : ℕ) (record : Row F) (vector : List F) :
    Method F Unit :=
  if vector.length ≠ dimensions then
    .fail (.backendUnavailable "refusing vector with unexpected dimension")
  else putPoint c record vector

def deletePoint (c : Collection) (id : String) : Method F Unit :=
  perform (.delete c id)

def markQdrant (id : String) (state : IndexState) (error : Option String) : Method F Unit := do
  let now ← ask .now
  catalog (.markQdrant id state error now)

def authorize (cfg : Config F) (name : String) (peerUid : ℕ) (capability : String) :
    Method F ActorPolicy :=
  match cfg.actors.find? fun actor => actor.name = name with
  | none => .fail (.authentication "unknown actor")
  | some actor => do
    let uids : List ℕ ← ask (.resolvedUids actor)
    if peerUid ∉ uids then
      .fail (.authentication "actor does not match the Unix peer identity")
    else if capability ∉ actor.capabilities then
      .fail (.authorization ("actor lacks capability: " ++ capability))
    else return actor

/-! ## Records -/

structure PublicRecord (F : Type) extends Memory F where
  stale : Bool
  advisoryOnly : Bool := true
  verifyAgainst : List String

def publicRecord (cfg : Config F) (r : Memory F) : PublicRecord F :=
  { r with stale := r.staleAt.isSome, verifyAgainst := cfg.truthOf r.category }

/-! ## Ingestion -/

def authorityStatus (cfg : Config F) (actor : ActorPolicy) (request : IngestRequest F) : String :=
  if request.sourceType ∈ ["llm", "model", "generated"] then "derived"
  else if request.sourceType ∈ cfg.truthOf request.category ∧
      request.sourceType ∈ actor.authoritativeSourceTypes ∧ request.reviewed then "authoritative"
  else if request.reviewed then "verified"
  else if request.kind = "incident" ∨ request.kind = "summary" then "historical"
  else "derived"

def authorizeIngest (actor : ActorPolicy) (request : IngestRequest F) : Except Exc Unit :=
  if actor.permitsScope request.project request.environment request.classification = false then
    .error (.authorization "memory scope is not authorized")
  else if ∃ role ∈ request.allowedRoles, role ∉ actor.grantableRoles then
    .error (.authorization "actor cannot grant one or more allowed_roles")
  else if request.sourceType ∉ actor.sourceTypes then
    .error (.authorization "source_type is not authorized for this actor")
  else if request.reviewed ∧ "review" ∉ actor.capabilities then
    .error (.authorization "actor cannot mark memory as reviewed")
  else .ok ()

def durableKinds : List String :=
  ["information", "decision", "rule", "procedure", "incident", "summary"]

def reviewIngest (request : IngestRequest F) : Except Exc Unit :=
  if request.kind ∈ ["decision", "rule", "procedure"] ∧ request.reviewed = false then
    .error (.validation (request.kind ++ " memory requires reviewed=true"))
  else if request.sourceType = "zulip" ∧ request.kind ∈ durableKinds ∧
      request.promote = false then
    .error (.validation "durable Zulip memory requires explicit promote=true")
  else .ok ()

/-- The end of validity of an observation that has none. -/
def defaultExpiry (cfg : Config F) (request : IngestRequest F) : Method F (IngestRequest F) :=
  if request.kind = "observation" ∧ request.validUntil = none then do
    let expiry : String ← ask (.expiry cfg.observationTtlDays)
    return { request with validUntil := some expiry }
  else return request

def reviewSupersession (actor : ActorPolicy) (request : IngestRequest F) (previous : Memory F) :
    Except Exc Unit :=
  if actor.recordVisible previous = false then
    .error (.notFound "superseded memory does not exist")
  else if (request.classification.rank < previous.classification.rank ∨
      ∃ role ∈ request.allowedRoles, role ∉ previous.allowedRoles) ∧
      "declassify" ∉ actor.capabilities then
    .error (.authorization "supersession would widen memory visibility")
  else if request.category ≠ previous.category ∧ "reclassify" ∉ actor.capabilities then
    .error (.authorization "supersession cannot change category")
  else .ok ()

def checkSupersession (actor : ActorPolicy) (request : IngestRequest F) : Method F Unit :=
  match request.supersedesId with
  | none => return ()
  | some id => do
    let previous : Row F ← catalog (.get id)
    Prog.ofExcept (reviewSupersession actor request previous.toMemory)

def dropSuperseded (supersededId : Option String) : Method F Unit :=
  match supersededId with
  | none => return ()
  | some id => do
    let r ← catchUnavailable do
      deletePoint .main id
      markQdrant id .deleted none
    match r with
    | .ok _ => return ()
    | .error _ => markQdrant id .deletePending (some "Qdrant unavailable")

/-- Index a new record. The message if the vector store is unavailable. -/
def indexRecord (cfg : Config F) (record : Row F) (vector : List F)
    (supersededId : Option String) : Method F (Except String Unit) :=
  catchUnavailable do
    perform (.ensure .main)
    upsertPoint .main cfg.dimensions record vector
    markQdrant record.id .indexed none
    dropSuperseded supersededId

inductive IngestReply (F : Type) where
  | ignored (kind : String)
  | stored (deduplicated degraded : Bool) (provider : String) (shown : Bool)
      (memory : PublicRecord F)

def store (cfg : Config F) (actor : ActorPolicy) (request : IngestRequest F) :
    Method F (IngestReply F) := do
  let vector := (Host.localEmbed cfg.dimensions request.content).1
  let entry (outcome : String) (id : String) (detail : String) : AuditEntry :=
    { actor := request.actor, operation := "ingest", outcome := outcome,
      project := some request.project, environment := some request.environment,
      classification := some request.classification, targetId := some id, detail := detail }
  let now : String ← ask .now
  let recordId : String ← ask .uuid
  let (record, duplicate, supersededId) ← (catalog (.ingest request vector cfg.modelId
    (authorityStatus cfg actor request) now recordId) : Method F (Row F × Bool × Option String))
  let answer (degraded : Bool) (state : IndexState) : Method F (IngestReply F) := do
    ask (.audit (entry (if duplicate then "deduplicated" else if degraded then "degraded"
      else "stored") record.id ("kind=" ++ request.kind ++ ";source=" ++ request.sourceType)))
    return .stored duplicate degraded "local" (actor.recordVisible record.toMemory)
      (publicRecord cfg { record.toMemory with qdrantState := state })
  if duplicate then answer false record.qdrantState
  else do
    let indexed ← indexRecord cfg record vector supersededId
    match indexed with
    | .ok _ => answer false .indexed
    | .error message => do
      markQdrant record.id .failed (some message)
      if cfg.allowDegradedWrites then answer true .failed
      else do
        ask (.audit (entry "backend_unavailable" record.id ""))
        .fail (.backendUnavailable message)

/-- `MemoryService.ingest`, of a parsed request. -/
def ingest (cfg : Config F) (request : IngestRequest F) (peerUid : ℕ) :
    Method F (IngestReply F) := do
  let actor ← authorize cfg request.actor peerUid "write"
  Prog.ofExcept (authorizeIngest actor request)
  if request.category = "secrets" ∨ request.sourceType = "openbao-secret" then
    .fail (.validation "secrets belong in OpenBao and cannot enter semantic memory")
  else if (request.kind = "noise" ∨ request.kind = "conversation") ∧ request.promote = false then do
    ask (.audit { actor := request.actor, operation := "ingest", outcome := "ignored",
                  project := some request.project, environment := some request.environment,
                  classification := some request.classification,
                  detail := "selective_ingestion:" ++ request.kind })
    return .ignored request.kind
  else do
    Prog.ofExcept (reviewIngest request)
    let request ← defaultExpiry cfg request
    if ∃ x ∈ request.validUntil, x ≤ request.validFrom then
      .fail (.validation "valid_until must be after valid_from")
    else do
      checkSupersession actor request
      store cfg actor request

/-! ## Indexing with an embedding API -/

/-- Every record is current and visible. -/
def allAvailable (actor : ActorPolicy) : List (Row F) → Method F Bool
  | [] => return true
  | r :: rs => do
    let now : String ← ask .now
    if r.isCurrent now ∧ actor.recordVisible r.toMemory then allAvailable actor rs
    else return false

/-- Every identifier has its record, and every record is current and visible. -/
def batchAvailable (actor : ActorPolicy) (ids : List String) (records : List (Row F)) :
    Method F Bool :=
  if records.length ≠ ids.length then return false else allAvailable actor records

abbrev ReindexReply : Type :=
  List String × List String

/-- The vector of a record, from the cache or from the API. None if the budget is spent, an
empty answer if the API failed. -/
def apiVector (cfg : Config F) (actor : String) (record : Row F) :
    Method F (Option (Option (List F))) := do
  let digest := Host.sha256 F record.content
  let cached : Option (List F) ← ask (.cachedVector cfg.space record.id digest)
  match cached with
  | some vector => return some (some vector)
  | none => do
    let callId : Option ℕ ← ask (.reserveProviderCall actor "reindex" "embedding-api"
      cfg.embeddingApi.model cfg.embeddingApi.dailyCallBudget)
    match callId with
    | none => return none
    | some callId => do
      let r ← catchEmbedding (ask (.apiEmbed record.content "document") :
        Method F (EmbeddingResult F))
      match r with
      | .ok result => do
        ask (.completeProviderCall callId "success")
        ask (.cacheVector cfg.space record.id digest result.vector)
        return some (some result.vector)
      | .error _ => do
        ask (.completeProviderCall callId "failed")
        return some none

def reindexLoop (cfg : Config F) (actor : String) :
    List (Row F) → ReindexReply → Method F ReindexReply
  | [], reply => return reply
  | r :: rs, (indexed, pending) => do
    let vector ← apiVector cfg actor r
    match vector with
    | none => return (indexed, pending ++ (r :: rs).map fun r => r.id)
    | some none => reindexLoop cfg actor rs (indexed, pending ++ [r.id])
    | some (some vector) => do
      let t ← catchUnavailable (upsertPoint (.api cfg.space) cfg.apiDimensions r vector)
      match t with
      | .ok _ => reindexLoop cfg actor rs (indexed ++ [r.id], pending)
      | .error _ => reindexLoop cfg actor rs (indexed, pending ++ [r.id])

def reindexApi (cfg : Config F) (actorName : String) (peerUid : ℕ) (ids : List String) :
    Method F ReindexReply := do
  let actor ← authorize cfg actorName peerUid "write"
  if "api-escalate" ∉ actor.capabilities then
    .fail (.authorization "actor cannot request an external provider")
  else if ids = [] ∨ 20 < ids.length ∨ ¬ ids.Nodup then
    .fail (.validation "reindex requires 1 to 20 distinct memory IDs")
  else do
    let records : List (Row F) ← catalog (.getMany ids)
    let available ← batchAvailable actor ids records
    if available = false then .fail (.notFound "one or more memories are not available")
    else if cfg.embeddingApi.enabled = false then
      .fail (.backendUnavailable "embedding API is disabled")
    else do
      perform (.ensure (.api cfg.space))
      let reply ← reindexLoop cfg actorName records ([], [])
      ask (.audit { actor := actorName, operation := "reindex_api",
                    outcome := if reply.2 = [] then "success" else "partial",
                    detail := cfg.space })
      return reply

/-! ## Invalidation -/

/-- `MemoryService.invalidate`, with a reason that was checked. -/
def invalidate (cfg : Config F) (actorName : String) (peerUid : ℕ) (id reason : String) :
    Method F (PublicRecord F) := do
  let actor ← authorize cfg actorName peerUid "invalidate"
  let record : Row F ← catalog (.get id)
  if actor.recordVisible record.toMemory = false then
    .fail (.notFound "memory does not exist")
  else do
    let now : String ← ask .now
    let result : Row F ← catalog (.invalidate id reason now)
    let r ← catchUnavailable do
      deletePoint .main id
      markQdrant id .deleted none
    let state := match r with
      | .ok _ => IndexState.deleted
      | .error _ => IndexState.deletePending
    ask (.audit { actor := actorName, operation := "invalidate", outcome := "success",
                  project := some record.project, environment := some record.environment,
                  classification := some record.classification, targetId := some id,
                  detail := reason })
    return publicRecord cfg { result.toMemory with qdrantState := state }

/-! ## Maintenance -/

/-- The loop over the pending deletions. The number of failures. -/
def deletionLoop : List (Row F) → Method F ℕ
  | [] => return 0
  | r :: rs => do
    let t ← catchUnavailable do
      deletePoint .main r.id
      markQdrant r.id .deleted none
    match t with
    | .ok _ => deletionLoop rs
    | .error message => do
      markQdrant r.id .deletePending (some message)
      return 1

/-- The loop over the records to index again. The numbers of records and of failures. -/
def indexingLoop (cfg : Config F) : List (Row F) → ℕ → Method F (ℕ × ℕ)
  | [], reindexed => return (reindexed, 0)
  | r :: rs, reindexed => do
    let t ← catchIndexing do
      upsertPoint .main cfg.dimensions r r.vector
      markQdrant r.id .indexed none
    match t with
    | .ok _ => indexingLoop cfg rs (reindexed + 1)
    | .error message => do
      markQdrant r.id .failed (some message)
      return (reindexed, 1)

structure MaintainReply where
  runId : String
  (expired markedStale reindexed failures : ℕ)

def reconcileIndex (cfg : Config F) : Method F (ℕ × ℕ) := do
  let ready ← catchUnavailable (perform (.ensure .main) : Method F Unit)
  match ready with
  | .error _ => return (0, 1)
  | .ok _ => do
    let deletions : List (Row F) ← catalog (.pendingDeletions 500)
    let deletionFailures ← deletionLoop deletions
    let records : List (Row F) ← catalog (.pendingForReindex 500)
    let (reindexed, failures) ← indexingLoop cfg records 0
    return (reindexed, deletionFailures + failures)

def maintain (cfg : Config F) (actorName : String) (peerUid : ℕ) : Method F MaintainReply := do
  let _ ← authorize cfg actorName peerUid "maintenance"
  let started : String ← ask .now
  let times : String × String ← ask (.sweepTimes cfg.staleAfterDays)
  let (expired, stale) ← (catalog (.consolidateLifecycle times.1 times.2) : Method F (ℕ × ℕ))
  let (reindexed, failures) ← reconcileIndex cfg
  let runId : String ← ask (.recordMaintenance started expired stale reindexed failures)
  ask (.audit { actor := actorName, operation := "maintain",
                outcome := if failures = 0 then "success" else "partial", detail := runId })
  return ⟨runId, expired, stale, reindexed, failures⟩

end OpsMemory
