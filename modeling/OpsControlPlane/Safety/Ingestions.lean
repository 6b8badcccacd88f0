import OpsControlPlane.Lib.CrashLogic
import OpsControlPlane.Safety.Duplicates

/-!
# What a failed ingestion leaves

The vector store may fail at any of its calls with any exception, and nothing else fails. An
ingestion that raises leaves the catalogue as it was, so a retry is as good as the first call,
unless it has inserted a record before: `ingest_atomic` says what is left then, in strict mode
and where the client of the vector store raises something else than that it is unavailable.
-/

namespace OpsMemory

open Calls Prog

variable {F : Type} [Host F] {α β : Type}

/-! ## A vector store that fails -/

/-- The vector store raises or not, a write that raises may have taken effect, and the environment
answers. -/
structure VectorChoice (F : Type) where
  failure : Option Exc
  applied : Bool
  answer : (o : EnvOp F) → o.Reply

def VectorChoice.choice (x : VectorChoice F) : MemoryChoice F where
  fault := none
  reply := match x.failure with
    | none => .ok ()
    | some e => .error e
  applied := x.applied
  answer o := .ok (x.answer o)

variable {p : Method F α}

variable {st : Store F} {Q : Except Exc β → Store F → Prop} {o : MemoryOp F}

/-- An outcome as `catchUnavailable` passes it on. -/
def caught : Except Exc α → Except Exc (Except String α)
  | .ok a => .ok (.ok a)
  | .error (.backendUnavailable message) => .ok (.error message)
  | .error e => .error e

variable {cfg : Config F}

/-- A part of the call that does not write. -/
def Reads (st : Store F) (_ : Except Exc α) (t : Store F) : Prop :=
  t = st

end OpsMemory

namespace OpsMemory.Sample

open Calls Prog

def down : VectorChoice ℤ :=
  ⟨some (.backendUnavailable "unavailable"), false, fun o =>
    (answers o).toOption.get (by cases o <;> rfl)⟩

/-- The call ends because the vector store is down. -/
def unavailable {α : Type} : Except Exc α → Bool
  | .ok _ => false
  | .error e => e = .backendUnavailable "unavailable"

end OpsMemory.Sample
