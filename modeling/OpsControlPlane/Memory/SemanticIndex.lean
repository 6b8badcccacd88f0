import OpsControlPlane.Memory.System
import OpsControlPlane.Lib.CrashLogic

/-!
# The semantic index

The table `api_vectors` beside the catalogue, and the methods of the service over both. The
vectors of an embedding API are kept by space and memory, with the hash of the content that was
embedded. The lock of the index serialises its calls. What the providers answer, whether a write
fails and whether a call is killed is up to the environment.
-/

namespace OpsMemory

open Calls

variable {F : Type} [Host F]

/-! ## The store -/

/-- An embedding space, a memory and the hash of a content. -/
structure VectorKey where
  space : String
  memoryId : String
  contentHash : String
deriving DecidableEq

structure ApiVector (F : Type) where
  key : VectorKey
  vector : List F

/-- A point that the vector store accepted. -/
structure IndexPoint (F : Type) where
  collection : Collection
  id : String
  vector : List F

/-- The catalogue with the vectors, the points, and what was paid for. -/
structure SemanticStore (F : Type) where
  rows : Table F
  vectors : List (ApiVector F)
  points : List (IndexPoint F)
  wanted : Option VectorKey
  paid : List VectorKey
  unstored : List VectorKey

/-- `SELECT vector_json FROM api_vectors`. -/
def findVector (key : VectorKey) (vectors : List (ApiVector F)) : Option (List F) :=
  (vectors.find? fun v => v.key = key).map ApiVector.vector

/-- `INSERT OR REPLACE INTO api_vectors`, of which the space and the memory are the primary
key. -/
def putVector (v : ApiVector F) (vectors : List (ApiVector F)) : List (ApiVector F) :=
  vectors.filter (fun w => ¬ (w.key.space = v.key.space ∧ w.key.memoryId = v.key.memoryId)) ++ [v]

/-! ## Operations -/

/-- What the environment chooses when an operation is performed. -/
structure SemanticChoice (F : Type) where
  /-- The statement on the catalogue fails. -/
  fault : Option String
  /-- How the vector store answers. -/
  reply : Except Exc Unit
  answer : (o : EnvOp F) → Except Exc o.Reply

/-- The answer of what is asked of the environment. An embedding that the API returns is paid
for. -/
def askSemantic : (o : EnvOp F) → SemanticChoice F → SemanticStore F →
    Except Exc o.Reply × SemanticStore F
  | .cachedVector space id hash, x, st =>
    match x.fault with
    | some message => (.error (.sqlite message), st)
    | none =>
      (.ok (findVector ⟨space, id, hash⟩ st.vectors), { st with wanted := some ⟨space, id, hash⟩ })
  | .cacheVector space id hash vector, x, st =>
    match x.fault with
    | some message => (.error (.sqlite message), st)
    | none =>
      (.ok (), { st with
        vectors := putVector ⟨⟨space, id, hash⟩, vector⟩ st.vectors
        unstored := st.unstored.erase ⟨space, id, hash⟩ })
  | .apiEmbed text inputType, x, st =>
    match x.answer (.apiEmbed text inputType) with
    | .ok r =>
      (.ok r, { st with
        paid := st.paid ++ st.wanted.toList
        unstored := st.unstored ++ st.wanted.toList })
    | .error e => (.error e, st)
  | o, x, st => (x.answer o, st)

def performSemantic : (o : MemoryOp F) → SemanticChoice F → SemanticStore F →
    Except Exc o.Reply × SemanticStore F
  | .tx t, x, st =>
    match x.fault with
    | some message => (.error (.sqlite message), st)
    | none =>
      match t.run st.rows with
      | .ok (r, rows) => (.ok r, { st with rows := rows })
      | .error e => (.error e, st)
  | .ensure _, x, st => (x.reply, st)
  | .upsert c record vector, x, st =>
    match x.reply with
    | .ok _ => (.ok (), { st with points := st.points ++ [⟨c, record.id, vector⟩] })
    | .error e => (.error e, st)
  | .delete _ _, x, st => (x.reply, st)
  | .env o, x, st => askSemantic o x st

/-! ## Histories -/

/-- What may happen to the store: a transaction of any process on the catalogue, or a call of
`reindex_api`, whatever it comes to and wherever it is killed. -/
inductive SemanticStep (st : SemanticStore F) : SemanticStore F → Prop
  | catalog (t : CatalogTx F) (reply : t.Reply) (rows : Table F)
      (h : t.run st.rows = .ok (reply, rows)) : SemanticStep st { st with rows := rows }
  | reindex (cfg : Config F) (actor : String) (uid : ℕ) (ids : List String)
      (r : Except Exc ReindexReply) (st' : SemanticStore F)
      (h : Prog.Finishes performSemantic (reindexApi cfg actor uid ids) st r st') :
      SemanticStep st st'
  | killed (cfg : Config F) (actor : String) (uid : ℕ) (ids : List String) (st' : SemanticStore F)
      (h : Prog.Reaches performSemantic (reindexApi cfg actor uid ids) st st') :
      SemanticStep st st'

/-- A store after any number of transactions and calls. -/
abbrev SemanticHistory : SemanticStore F → SemanticStore F → Prop :=
  Relation.ReflTransGen SemanticStep

/-- Nothing was paid for yet, and the identifiers are the primary key of the memories. The
vectors may be any. -/
structure SemanticStore.Unpaid (st : SemanticStore F) : Prop where
  nodup : (st.rows.map fun r => r.id).Nodup
  paid : st.paid = []
  unstored : st.unstored = []

end OpsMemory
