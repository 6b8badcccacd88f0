import OpsControlPlane.Lib.Transaction
import OpsControlPlane.Lib.Calls

/-!
# The memory catalogue

The table of memories with the statements of the service on it. A statement is one
transaction: `CatalogTx.run` is what it returns and the table that it leaves. Times are the
texts that the source compares.
-/

namespace OpsMemory

open Transaction

/-! ## The host -/

/-- What the service takes from the host: its floats, and functions of its standard
library. -/
class Host (F : Type) extends LE F, LT F where
  [decidableLE : DecidableLE F]
  [decidableLT : DecidableLT F]
  zero : F
  one : F
  add : F → F → F
  share : ℕ → F
  /-- `min(score / 2, 1.0)`. -/
  average : F → F
  halve : F → F
  tokenize : String → List String
  /-- The share of the common tokens among all tokens. -/
  overlap : List String → List String → F
  normalize : String → String
  sha256 : String → String
  /-- `LocalHashEmbedding.embed`: the vector and the confidence. -/
  localEmbed : ℕ → String → List F × F
  /-- The score of `LocalReranker.rerank`, from the query, the content, the semantic score, the
  authority, the importance, the time of creation and the time. -/
  localScore : String → String → F → String → F → String → String → F
  isfinite : F → Bool

variable {F : Type} [Host F]

instance hostDecidableLE : DecidableLE F :=
  Host.decidableLE

instance hostDecidableLT : DecidableLT F :=
  Host.decidableLT

/-! ## Memories -/

inductive Classification where
  | «public»
  | internal
  | restricted
  | confidential
deriving DecidableEq

def Classification.rank : Classification → ℕ
  | «public» => 0
  | internal => 1
  | restricted => 2
  | confidential => 3

inductive IndexState where
  | pending
  | indexed
  | failed
  | deletePending
  | deleted
deriving DecidableEq

/-- The columns of a memory that the service shows. -/
structure Memory (F : Type) where
  (id content project environment : String)
  classification : Classification
  (category kind tier : String)
  allowedRoles : List String
  (sourceType sourceUri sourceRef sourceAuthority authorityStatus metadata : String)
  importance : F
  validFrom : String
  (validUntil invalidatedAt invalidReason staleAt supersedesId supersededById : Option String)
  reviewed : Bool
  (createdBy createdAt updatedAt : String)
  qdrantState : IndexState

/-- A row of `memories`. No statement writes the rank without the classification. -/
structure Row (F : Type) extends Memory F where
  classificationRank : ℕ
  ranked : classificationRank = classification.rank
  (contentHash dedupKey vectorModel : String)
  vector : List F
  qdrantError : Option String

abbrev Table (F : Type) : Type :=
  List (Row F)

/-- The memory has been invalidated or superseded. -/
def Memory.retired (r : Memory F) : Bool :=
  r.invalidatedAt ≠ none ∨ r.supersededById ≠ none

def Memory.isCurrent (r : Memory F) (now : String) : Bool :=
  r.invalidatedAt = none ∧ r.supersededById = none ∧ r.validFrom ≤ now ∧
    ∀ x ∈ r.validUntil, now < x

/-! ## Requests -/

structure IngestRequest (F : Type) where
  (actor content project environment : String)
  classification : Classification
  (category kind tier : String)
  allowedRoles : List String
  (sourceType sourceUri sourceRef sourceAuthority metadata : String)
  importance : F
  validFrom : String
  (validUntil supersedesId : Option String)
  (reviewed promote : Bool)

structure SearchRequest where
  (actor query project environment : String)
  maxClassification : Classification
  categories : List String := []
  kinds : List String := []
  topK : ℕ := 5
  candidateLimit : ℕ := 20
  important : Bool := false
  allowApi : Bool := false

/-! ## Exceptions -/

inductive Exc where
  | authentication (message : String)
  | authorization (message : String)
  | validation (message : String)
  | notFound (message : String)
  | conflict (message : String)
  | backendUnavailable (message : String)
  | sqlite (message : String)
  /-- `TypeError` and `ValueError`. -/
  | value (message : String)
  | other (message : String)
deriving DecidableEq

/-! ## Statements -/

inductive CatalogTx (F : Type) where
  | ingest (request : IngestRequest F) (vector : List F)
      (vectorModel authorityStatus now recordId : String)
  | get (recordId : String)
  | getMany (ids : List String)
  | markQdrant (recordId : String) (state : IndexState) (error : Option String) (now : String)
  | invalidate (recordId reason now : String)
  /-- The statement of `fallback_candidates`. -/
  | fallback (request : SearchRequest) (scanLimit : ℕ) (now : String)
  | pendingForReindex (limit : ℕ)
  | pendingDeletions (limit : ℕ)
  | consolidateLifecycle (now staleBefore : String)

def CatalogTx.Reply : CatalogTx F → Type
  | ingest _ _ _ _ _ _ => Row F × Bool × Option String
  | get _ => Row F
  | getMany _ => List (Row F)
  | markQdrant _ _ _ _ => Unit
  | invalidate _ _ _ => Row F
  | fallback _ _ _ => List (Row F)
  | pendingForReindex _ => List (Row F)
  | pendingDeletions _ => List (Row F)
  | consolidateLifecycle _ _ => ℕ × ℕ

/-- `_dedup_key`: the hash of the content, and the key. -/
def dedupKey (request : IngestRequest F) : String × String :=
  let contentHash := Host.sha256 F (Host.normalize F request.content)
  let roles := ",".intercalate (request.allowedRoles.insertionSort fun a b => a ≤ b)
  (contentHash, Host.sha256 F ("\x1f".intercalate [request.project, request.environment,
    match request.classification with
      | .public => "public" | .internal => "internal" | .restricted => "restricted"
      | .confidential => "confidential",
    request.category, request.kind, request.tier, roles, contentHash]))

def findRow (id : String) (rows : Table F) : Option (Row F) :=
  row (fun r => r.id) id rows

def updateRow (id : String) (f : Row F → Row F) (rows : Table F) : Table F :=
  update (fun r => r.id = id) f rows

/-! ### Updates of a row -/

def Row.supersede (successor now : String) (r : Row F) : Row F :=
  { r with supersededById := some successor, qdrantState := .deletePending, updatedAt := now }

def Row.invalidate (now reason : String) (r : Row F) : Row F :=
  { r with
    invalidatedAt := some now, invalidReason := some reason, qdrantState := .deletePending,
    updatedAt := now }

def Row.mark (state : IndexState) (error : Option String) (now : String) (r : Row F) : Row F :=
  { r with
    qdrantState := state
    qdrantError := error.map fun e => (e.take 512).toString
    updatedAt := now }

def Row.age (now : String) (r : Row F) : Row F :=
  { r with staleAt := some now, updatedAt := now }

@[simp] theorem Row.supersede_id (successor now : String) (r : Row F) :
    (r.supersede successor now).id = r.id := rfl

@[simp] theorem Row.invalidate_id (now reason : String) (r : Row F) :
    (r.invalidate now reason).id = r.id := rfl

@[simp] theorem Row.mark_id (state : IndexState) (error : Option String) (now : String)
    (r : Row F) : (r.mark state error now).id = r.id := rfl

@[simp] theorem Row.age_id (now : String) (r : Row F) : (r.age now).id = r.id := rfl

@[simp] theorem Row.supersede_retired (successor now : String) (r : Row F) :
    (r.supersede successor now).retired = true := by
  simp [Row.supersede, Memory.retired]

@[simp] theorem Row.invalidate_retired (now reason : String) (r : Row F) :
    (r.invalidate now reason).retired = true := by
  simp [Row.invalidate, Memory.retired]

@[simp] theorem Row.mark_retired (state : IndexState) (error : Option String) (now : String)
    (r : Row F) : (r.mark state error now).retired = r.retired := rfl

@[simp] theorem Row.age_retired (now : String) (r : Row F) : (r.age now).retired = r.retired :=
  rfl

/-! ### Statements -/

def newRow (request : IngestRequest F) (vector : List F)
    (vectorModel authorityStatus now recordId : String) : Row F where
  id := recordId
  content := request.content
  project := request.project
  environment := request.environment
  classification := request.classification
  category := request.category
  kind := request.kind
  tier := request.tier
  allowedRoles := request.allowedRoles
  sourceType := request.sourceType
  sourceUri := request.sourceUri
  sourceRef := request.sourceRef
  sourceAuthority := request.sourceAuthority
  authorityStatus := authorityStatus
  metadata := request.metadata
  importance := request.importance
  validFrom := request.validFrom
  validUntil := request.validUntil
  invalidatedAt := none
  invalidReason := none
  staleAt := none
  supersedesId := request.supersedesId
  supersededById := none
  reviewed := request.reviewed
  createdBy := request.actor
  createdAt := now
  updatedAt := now
  qdrantState := .pending
  classificationRank := request.classification.rank
  ranked := rfl
  contentHash := (dedupKey request).1
  dedupKey := (dedupKey request).2
  vectorModel := vectorModel
  vector := vector
  qdrantError := none

/-- The latest current row of the same content and scope. -/
def duplicateOf (request : IngestRequest F) (now : String) (rows : Table F) : Option (Row F) :=
  ((rows.filter fun r => r.dedupKey = (dedupKey request).2 ∧ r.isCurrent now).insertionSort
    fun a b => b.createdAt ≤ a.createdAt).head?

/-- Insert a row. An identifier that is taken violates the primary key. -/
def insertRow (r : Row F) (rows : Table F) : Except Exc (Table F) :=
  match findRow r.id rows with
  | some _ => .error (.sqlite "UNIQUE constraint failed: memories.id")
  | none => .ok (rows ++ [r])

/-- `MemoryCatalog.ingest`: the record, whether it is a duplicate, and what it supersedes. -/
def ingestTx (request : IngestRequest F) (vector : List F)
    (vectorModel authorityStatus now recordId : String) (rows : Table F) :
    Except Exc ((Row F × Bool × Option String) × Table F) :=
  let record := newRow request vector vectorModel authorityStatus now recordId
  match request.supersedesId with
  | none =>
    match duplicateOf request now rows with
    | some duplicate => .ok ((duplicate, true, none), rows)
    | none => (insertRow record rows).map fun rows => ((record, false, none), rows)
  | some id =>
    match findRow id rows with
    | none => .error (.notFound "superseded memory does not exist")
    | some old =>
      if old.project ≠ request.project ∨ old.environment ≠ request.environment then
        .error (.conflict "supersession cannot cross project or environment")
      else if old.retired then .error (.conflict "superseded memory is not current")
      else (insertRow record rows).map fun rows => ((record, false, some old.id),
        updateRow old.id (Row.supersede recordId now) rows)

def getTx (id : String) (rows : Table F) : Except Exc (Row F × Table F) :=
  match findRow id rows with
  | some r => .ok (r, rows)
  | none => .error (.notFound "memory does not exist")

def getMany (ids : List String) (rows : Table F) : List (Row F) :=
  ids.filterMap fun id => findRow id rows

/-- `MemoryCatalog.mark_qdrant`. -/
def mark (id : String) (state : IndexState) (error : Option String) (now : String)
    (rows : Table F) : Table F :=
  updateRow id (Row.mark state error now) rows

def invalidateTx (id reason now : String) (rows : Table F) :
    Except Exc (Row F × Table F) :=
  match findRow id rows with
  | none => .error (.notFound "memory does not exist")
  | some r =>
    if r.invalidatedAt = none then
      .ok (r.invalidate now reason, updateRow id (Row.invalidate now reason) rows)
    else .ok (r, rows)

/-- The rows that `fallback_candidates` selects. -/
def fallbackRows (request : SearchRequest) (scanLimit : ℕ) (now : String) (rows : Table F) :
    List (Row F) :=
  ((rows.filter fun r => r.project = request.project ∧ r.environment = request.environment ∧
    r.classificationRank ≤ request.maxClassification.rank ∧ r.isCurrent now ∧
    (request.categories = [] ∨ r.category ∈ request.categories) ∧
    (request.kinds = [] ∨ r.kind ∈ request.kinds)).insertionSort
      fun a b => b.updatedAt ≤ a.updatedAt).take scanLimit

def pendingForReindex (limit : ℕ) (rows : Table F) : List (Row F) :=
  ((rows.filter fun r => (r.qdrantState = .pending ∨ r.qdrantState = .failed) ∧
    r.retired = false).insertionSort fun a b => a.updatedAt ≤ b.updatedAt).take limit

def pendingDeletions (limit : ℕ) (rows : Table F) : List (Row F) :=
  ((rows.filter fun r => r.qdrantState = .deletePending).insertionSort
    fun a b => a.updatedAt ≤ b.updatedAt).take limit

def Row.expired (now : String) (r : Row F) : Bool :=
  r.invalidatedAt = none ∧ ∃ x ∈ r.validUntil, x ≤ now

/-- The row has not been touched for long. -/
def Row.ages (staleBefore : String) (r : Row F) : Bool :=
  r.updatedAt < staleBefore ∧ r.staleAt = none ∧ r.retired = false ∧
    r.kind ∈ ["observation", "information", "incident", "summary"]

def expire (now : String) (rows : Table F) : Table F :=
  update (Row.expired now) (Row.invalidate now "validity_expired") rows

/-- `MemoryCatalog.consolidate_lifecycle`: how many expired and how many became stale. -/
def consolidateTx (now staleBefore : String) (rows : Table F) : (ℕ × ℕ) × Table F :=
  let swept := expire now rows
  ((rows.countP (Row.expired now), swept.countP (Row.ages staleBefore)),
    update (Row.ages staleBefore) (Row.age now) swept)

def CatalogTx.run (rows : Table F) : (t : CatalogTx F) → Except Exc (t.Reply × Table F)
  | ingest request vector model authority now id =>
    ingestTx request vector model authority now id rows
  | get id => getTx id rows
  | getMany ids => .ok (OpsMemory.getMany ids rows, rows)
  | markQdrant id state error now => .ok ((), mark id state error now rows)
  | invalidate id reason now => invalidateTx id reason now rows
  | fallback request scanLimit now => .ok (fallbackRows request scanLimit now rows, rows)
  | pendingForReindex limit => .ok (OpsMemory.pendingForReindex limit rows, rows)
  | pendingDeletions limit => .ok (OpsMemory.pendingDeletions limit rows, rows)
  | consolidateLifecycle now staleBefore => .ok (consolidateTx now staleBefore rows)

end OpsMemory
