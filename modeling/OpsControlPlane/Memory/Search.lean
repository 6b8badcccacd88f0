import OpsControlPlane.Memory.Service

/-!
# Searches

`search` takes hits from the vector store, reads their records from the catalogue and keeps
those that the caller may see, or falls back on the catalogue alone. A reranker orders what is
left.
-/

namespace OpsMemory

open Calls

variable {F : Type} [Host F]

/-! ## Candidates -/

/-- A record with its semantic score. -/
structure Candidate (F : Type) where
  record : Row F
  semanticScore : F

def admits (actor : ActorPolicy) (request : SearchRequest) (r : Memory F) : Bool :=
  actor.recordVisible r ∧ r.project = request.project ∧ r.environment = request.environment ∧
    r.classification.rank ≤ request.maxClassification.rank ∧
    (request.categories = [] ∨ r.category ∈ request.categories) ∧
    (request.kinds = [] ∨ r.kind ∈ request.kinds)

/-- The candidates that are current and admitted. Each is compared with the time anew. -/
def keepCandidates (actor : ActorPolicy) (request : SearchRequest) :
    List (Candidate F) → Method F (List (Candidate F))
  | [] => return []
  | c :: cs => do
    let now : String ← ask .now
    let rest ← keepCandidates actor request cs
    if c.record.isCurrent now ∧ admits actor request c.record.toMemory then return c :: rest
    else return rest

/-! ## Hits -/

def addShare (scores : List (String × F)) (id : String) (share : F) : List (String × F) :=
  if scores.any fun s => s.1 = id then
    scores.map fun s => if s.1 = id then (s.1, Host.add s.2 share) else s
  else scores ++ [(id, Host.add Host.zero share)]

def addShares (scores : List (String × F)) (hits : List (Hit F)) : List (String × F) :=
  hits.zipIdx.foldl (fun scores h => addShare scores h.1.id (Host.share h.2)) scores

/-- Hits of two vector spaces, combined by rank. -/
def fuse (localHits remoteHits : List (Hit F)) (limit : ℕ) : List (Hit F) :=
  let scores := addShares (addShares [] localHits) remoteHits
  let ordered := scores.insertionSort fun a b => b.2 < a.2 ∨ (¬ a.2 < b.2 ∧ a.1 ≤ b.1)
  (ordered.map fun s => ⟨s.1, Host.average s.2⟩).take limit

def scoreOf (hits : List (Hit F)) (id : String) : F :=
  match hits.reverse.find? fun h => h.id = id with
  | some h => h.score
  | none => Host.zero

/-- `self.local_embedding.embed`. -/
def localEmbedding (cfg : Config F) (text : String) : EmbeddingResult F where
  vector := (Host.localEmbed cfg.dimensions text).1
  model := cfg.modelId
  provider := "local"
  confidence := (Host.localEmbed cfg.dimensions text).2

def embedQuery (cfg : Config F) (request : SearchRequest) : Method F (EmbeddingResult F) := do
  let onHost := localEmbedding cfg request.query
  let escalate := request.allowApi ∧
    (request.important ∨ onHost.confidence < cfg.apiMinLocalConfidence)
  if ¬ escalate ∨ cfg.embeddingApi.enabled = false then return onHost
  else do
    let any : Bool ← ask (.hasRecords cfg.space)
    if any = false then return onHost
    else do
      let callId : Option ℕ ← ask (.reserveProviderCall request.actor "search" "embedding-api"
        cfg.embeddingApi.model cfg.embeddingApi.dailyCallBudget)
      match callId with
      | none => return onHost
      | some callId => do
        let r ← catchEmbedding (ask (.apiEmbed request.query
          (if cfg.embeddingApi.protocol = "voyage" ∨ cfg.embeddingApi.protocol = "jina" then
            "query" else "document")) : Method F (EmbeddingResult F))
        match r with
        | .ok result => do
          ask (.completeProviderCall callId "success")
          return result
        | .error _ => do
          ask (.completeProviderCall callId "failed")
          return onHost

def vectorHits (cfg : Config F) (actor : ActorPolicy) (request : SearchRequest)
    (embedding : EmbeddingResult F) : Method F (List (Hit F) × EmbeddingResult F) := do
  let localHits : List (Hit F) ← ask (.search .main (localEmbedding cfg request.query).vector
    request actor.roles)
  if embedding.provider = "api" then do
    let r ← catchUnavailable (ask (.search (.api cfg.space) embedding.vector request actor.roles) :
      Method F (List (Hit F)))
    match r with
    | .error _ => return (localHits, localEmbedding cfg request.query)
    | .ok remoteHits => return (fuse localHits remoteHits request.candidateLimit, embedding)
  else return (localHits, embedding)

def vectorCandidates (cfg : Config F) (actor : ActorPolicy) (request : SearchRequest)
    (embedding : EmbeddingResult F) :
    Method F (List (Candidate F) × EmbeddingResult F) := do
  let (hits, embedding) ← vectorHits cfg actor request embedding
  let records : List (Row F) ← catalog (.getMany (hits.map Hit.id))
  let candidates ← keepCandidates actor request
    (records.map fun r => ⟨r, scoreOf hits r.id⟩)
  return (candidates, embedding)

/-! ## The lexical fallback -/

/-- The order of the lexical candidates: score, importance, identifier. -/
def lexicalBefore (a b : Candidate F) : Bool :=
  b.semanticScore < a.semanticScore ∨ ¬ a.semanticScore < b.semanticScore ∧
    (b.record.importance < a.record.importance ∨
      ¬ a.record.importance < b.record.importance ∧ a.record.id ≤ b.record.id)

def fallbackCandidates (request : SearchRequest) (roles : List String) (scanLimit : ℕ) :
    Method F (List (Candidate F)) := do
  let now : String ← ask .now
  let rows : List (Row F) ← catalog (.fallback request scanLimit now)
  let queryTokens := Host.tokenize F request.query
  let scored := rows.map fun r =>
    Candidate.mk r (Host.overlap queryTokens (Host.tokenize F r.content))
  let visible := scored.filter fun c =>
    (∃ role ∈ c.record.allowedRoles, role ∈ roles) ∧ Host.zero < c.semanticScore
  return (visible.insertionSort fun a b => lexicalBefore a b).take scanLimit

/-! ## Ranking -/

structure Ranked (F : Type) where
  record : Row F
  score : F

/-- Stale candidates lose half of their score. A candidate that is listed twice is one object,
and loses it twice. -/
def discount (cs : List (Candidate F)) : List (Candidate F) :=
  cs.map fun c => if c.record.staleAt.isSome then
    { c with semanticScore :=
        Host.halve^[cs.countP fun d => d.record.id = c.record.id] c.semanticScore }
  else c

/-- The order of ranked candidates: score, identifier. -/
def Ranked.before (a b : Ranked F) : Bool :=
  b.score < a.score ∨ ¬ a.score < b.score ∧ a.record.id ≤ b.record.id

def localRerank (query : String) (cs : List (Candidate F)) (topK : ℕ) :
    Method F (List (Ranked F)) := do
  let now : String ← ask .now
  let ranked := cs.map fun c => Ranked.mk c.record (Host.localScore query c.record.content
    c.semanticScore c.record.authorityStatus c.record.importance c.record.createdAt now)
  return (ranked.insertionSort fun a b => a.before b).take topK

/-- The candidates that a response of the reranker lists. None if the response is invalid. -/
def readRanking (cs : List (Candidate F)) : List (ℤ × F) → List ℤ → Option (List (Ranked F))
  | [], _ => some []
  | (index, score) :: results, seen =>
    match if 0 ≤ index then cs[index.toNat]? else none with
    | none => none
    | some c =>
      if index ∈ seen ∨ Host.isfinite score = false ∨ ¬ (Host.zero ≤ score ∧ score ≤ Host.one) then
        none
      else (readRanking cs results (index :: seen)).map fun ranked => ⟨c.record, score⟩ :: ranked

def apiRerank (cfg : Config F) (query : String) (cs : List (Candidate F)) (topK : ℕ) :
    Method F (List (Ranked F)) :=
  if cfg.rerankerApi.enabled = false then
    .fail (.backendUnavailable "reranker API is disabled")
  else if cs = [] then return []
  else if 65536 < query.utf8ByteSize + (cs.map fun c => c.record.content.utf8ByteSize).sum then
    .fail (.backendUnavailable "reranker input exceeds the bounded API request")
  else do
    let results : List (ℤ × F) ← ask (.rerank query (cs.map fun c => c.record.content) topK)
    if topK < results.length then
      .fail (.backendUnavailable "reranker API failed: ValueError")
    else
      match readRanking cs results [] with
      | none => .fail (.backendUnavailable "reranker API failed: ValueError")
      | some ranked => return ranked

def rerank (cfg : Config F) (request : SearchRequest) (cs : List (Candidate F)) :
    Method F (List (Ranked F) × String) := do
  let onHost : Method F (List (Ranked F) × String) := do
    let ranked ← localRerank request.query cs request.topK
    return (ranked, "local")
  if request.allowApi ∧ request.important ∧ cfg.rerankerApi.enabled then do
    let callId : Option ℕ ← ask (.reserveProviderCall request.actor "search" "reranker-api"
      cfg.rerankerApi.model cfg.rerankerApi.dailyCallBudget)
    match callId with
    | none => onHost
    | some callId => do
      let r ← catchUnavailable (apiRerank cfg request.query cs request.topK)
      match r with
      | .error _ => do
        ask (.completeProviderCall callId "failed")
        onHost
      | .ok ranked => do
        ask (.completeProviderCall callId "success")
        return (ranked, "api")
  else onHost

/-! ## The search -/

structure Result (F : Type) where
  memory : PublicRecord F
  relevanceScore : F

structure SearchReply (F : Type) where
  results : List (Result F)
  candidateCount : ℕ
  (backend embeddingProvider embeddingModel rerankerProvider rerankerModel : String)

def searchEntry (request : SearchRequest) (outcome detail : String) : AuditEntry where
  actor := request.actor
  operation := "search"
  outcome := outcome
  project := some request.project
  environment := some request.environment
  classification := some request.maxClassification
  query := some request.query
  detail := detail

def present (cfg : Config F) (request : SearchRequest) (backend : String)
    (embedding : EmbeddingResult F) (candidates : List (Candidate F)) :
    Method F (SearchReply F) := do
  let candidates := discount candidates
  let (ranked, provider) ← rerank cfg request candidates
  let results := ranked.map fun r => Result.mk (publicRecord cfg r.record.toMemory) r.score
  ask (.audit (searchEntry request (if backend = "qdrant" then "success" else "degraded")
    ("backend=" ++ backend ++ ";results=" ++ toString results.length)))
  return ⟨results, candidates.length, backend, embedding.provider, embedding.model, provider,
    if provider = "api" then cfg.rerankerApi.model else cfg.rerankerModelId⟩

/-- `MemoryService.search`, of a parsed request. -/
def search (cfg : Config F) (request : SearchRequest) (peerUid : ℕ) :
    Method F (SearchReply F) := do
  let actor ← authorize cfg request.actor peerUid "read"
  if actor.permitsScope request.project request.environment request.maxClassification = false then
    .fail (.authorization "search scope is not authorized")
  else if request.allowApi ∧ "api-escalate" ∉ actor.capabilities then
    .fail (.authorization "actor cannot request an external provider")
  else do
    let embedding ← embedQuery cfg request
    let found ← catchUnavailable (vectorCandidates cfg actor request embedding)
    match found with
    | .ok (candidates, embedding) => present cfg request "qdrant" embedding candidates
    | .error message =>
      if cfg.allowDegradedReads = false then do
        ask (.audit (searchEntry request "backend_unavailable" ""))
        .fail (.backendUnavailable message)
      else do
        let candidates ← fallbackCandidates request actor.roles cfg.fallbackScanLimit
        present cfg request "sqlite-lexical-degraded" embedding
          (candidates.take request.candidateLimit)

end OpsMemory
