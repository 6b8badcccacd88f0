import OpsControlPlane.Memory.Search

/-!
# The processes of the service

Any number of calls of the memory service, of any processes and configurations, over one
catalogue and one vector store. The store keeps the writes that the vector store received, in
their order, with whether each took effect.
-/

namespace OpsMemory

open Calls

variable {F : Type} [Host F]

/-! ## The store -/

inductive Write where
  | upsert
  | delete
deriving DecidableEq

/-- A write that the vector store received. -/
structure VectorCall where
  write : Write
  collection : Collection
  id : String
  applied : Bool
deriving DecidableEq

/-- The catalogue, and the writes that the vector store received. -/
structure Store (F : Type) where
  rows : Table F
  writes : List VectorCall

/-- The last write of the point that took effect. -/
def lastWrite (writes : List VectorCall) (c : Collection) (id : String) : Option Write :=
  ((writes.filter fun w => w.collection = c ∧ w.id = id ∧ w.applied = true).getLast?).map
    VectorCall.write

def Holds (st : Store F) (c : Collection) (id : String) : Prop :=
  lastWrite st.writes c id = some .upsert

instance (st : Store F) (c : Collection) (id : String) : Decidable (Holds st c id) :=
  inferInstanceAs (Decidable (_ = _))

/-! ## Operations -/

/-- What the environment chooses when an operation is performed. -/
structure MemoryChoice (F : Type) where
  fault : Option String
  /-- How the vector store answers. -/
  reply : Except Exc Unit
  /-- A write that raises took effect nonetheless. -/
  applied : Bool
  answer : (o : EnvOp F) → Except Exc o.Reply

/-- A write took effect. -/
def MemoryChoice.takes (x : MemoryChoice F) : Bool :=
  x.reply.toBool || x.applied

def performMemory : (o : MemoryOp F) → MemoryChoice F → Store F → Except Exc o.Reply × Store F
  | .tx t, x, st =>
    match x.fault with
    | some message => (.error (.sqlite message), st)
    | none =>
      match t.run st.rows with
      | .ok (r, rows) => (.ok r, { st with rows := rows })
      | .error e => (.error e, st)
  | .ensure _, x, st => (x.reply, st)
  | .upsert c record _, x, st =>
    (x.reply, { st with writes := st.writes ++ [⟨.upsert, c, record.id, x.takes⟩] })
  | .delete c id, x, st =>
    (x.reply, { st with writes := st.writes ++ [⟨.delete, c, id, x.takes⟩] })
  | .env o, x, st => (x.answer o, st)

/-! ## Requests -/

inductive Task (F : Type) where
  | ingest (request : IngestRequest F)
  | reindexApi (actor : String) (ids : List String)
  | search (request : SearchRequest)
  | invalidate (actor id reason : String)
  | maintain (actor : String)

/-- A request to a process of the service, with the configuration of the process. -/
structure Request (F : Type) where
  config : Config F
  peerUid : ℕ
  task : Task F

inductive Reply (F : Type) where
  | ingested (reply : IngestReply F)
  | reindexed (reply : ReindexReply)
  | found (reply : SearchReply F)
  | invalidated (record : PublicRecord F)
  | maintained (reply : MaintainReply)

def serve (r : Request F) : Method F (Reply F) :=
  match r.task with
  | .ingest request => do
    let reply ← ingest r.config request r.peerUid
    return .ingested reply
  | .reindexApi actor ids => do
    let reply ← reindexApi r.config actor r.peerUid ids
    return .reindexed reply
  | .search request => do
    let reply ← search r.config request r.peerUid
    return .found reply
  | .invalidate actor id reason => do
    let record ← invalidate r.config actor r.peerUid id reason
    return .invalidated record
  | .maintain actor => do
    let reply ← maintain r.config actor r.peerUid
    return .maintained reply

/-- The calls of the service over its store. -/
abbrev memorySystem (F : Type) [Host F] : System where
  I := memoryInterface F
  Err := Exc
  Res := Reply F
  Store := Store F
  Request := Request F
  Choice := MemoryChoice F
  program := serve
  perform := performMemory

/-- A service without calls over a store. -/
def idle (st : Store F) : State (memorySystem F) :=
  ⟨st, []⟩

/-- The store of before the first call. -/
def emptyStore : Store F :=
  ⟨[], []⟩

end OpsMemory
