import OpsControlPlane.Orchestrator.Models
import OpsControlPlane.Lib.AsciiJson
import OpsControlPlane.Lib.Calls
import OpsControlPlane.Lib.HashChain

/-!
# The model trace

`ModelTrace` over its table: `append` writes the next event of a mission behind the last one,
`verify` recomputes the hashes of the events of a mission. `F` is the type of the finite
floats, of which a `REAL` column keeps all but the negative zero (`realColumn`); the callers of
`append` check theirs to lie between zero and one, as the negative zero does.

`verify_iff` reads the check as a chain in the sense of `HashChain`.
-/

namespace OpsOrchestrator

open Text JsonText Calls HashChain

variable {F : Type} [FloatText F]

/-! ## Events -/

structure TraceRow (F : Type) where
  (eventId missionId routeId : String)
  sequence : ℤ
  (createdAt eventType : String)
  (role providerId model location : Option String)
  (reason risk : String)
  (complexity impact : F)
  (confidenceIn confidenceOut : Option F)
  (inputTokens outputTokens costMicrousd : ℤ)
  (previousHash eventHash : String)
deriving DecidableEq

/-- The negative zero, which a request may give for a number between zero and one. -/
def isNegativeZero (x : F) : Prop :=
  FloatText.repr x = ['-', '0', '.', '0']

instance (x : F) : Decidable (isNegativeZero x) :=
  inferInstanceAs (Decidable (_ = _))

/-- What a `REAL` column gives back of a float. -/
def realColumn (x : F) : F :=
  if isNegativeZero x then FloatText.ofText ['0', '.', '0'] else x

def TraceRow.stored (r : TraceRow F) : TraceRow F :=
  { r with
    complexity := realColumn r.complexity
    impact := realColumn r.impact
    confidenceIn := r.confidenceIn.map realColumn
    confidenceOut := r.confidenceOut.map realColumn }

def TraceTable (F : Type) [FloatText F] : Type :=
  { rows : List (TraceRow F) // ∀ r ∈ rows, r.stored = r }

/-- The arguments of `append`. -/
structure TraceDraft (F : Type) where
  (missionId routeId eventType reason risk : String)
  (complexity impact : F)
  role : Option String := none
  providerId : Option String := none
  model : Option String := none
  location : Option String := none
  confidenceIn : Option F := none
  confidenceOut : Option F := none
  inputTokens : ℤ := 0
  outputTokens : ℤ := 0
  costMicrousd : ℤ := 0

def zeroHash : String :=
  ofChars (List.replicate 64 '0')

/-- The event types that `append` takes. -/
def traceEventTypes : List String :=
  ["ROUTE", "MODEL_START", "MODEL_RESULT", "MODEL_FAILURE", "BUDGET_BLOCK", "ESCALATION",
    "CAPABILITY_REJECT", "RETURN_LOCAL", "RETURN_CONTROL_PLANE", "HUMAN_ESCALATION",
    "DETERMINISTIC", "VERIFICATION_START", "VERIFICATION_RESULT", "VERIFICATION_FAILURE"]

def textOrNull : Option String → Json F
  | some s => .str s
  | none => .null

def floatOrNull : Option F → Json F
  | some x => .float x
  | none => .null

def traceCanonical (r : TraceRow F) (previousHash : String) : Json F :=
  .obj [("event_id", .str r.eventId), ("mission_id", .str r.missionId),
    ("route_id", .str r.routeId), ("sequence", .int r.sequence),
    ("created_at", .str r.createdAt), ("event_type", .str r.eventType),
    ("role", textOrNull r.role), ("provider_id", textOrNull r.providerId),
    ("model", textOrNull r.model), ("location", textOrNull r.location),
    ("reason", .str r.reason), ("risk", .str r.risk), ("complexity", .float r.complexity),
    ("impact", .float r.impact), ("confidence_in", floatOrNull r.confidenceIn),
    ("confidence_out", floatOrNull r.confidenceOut), ("input_tokens", .int r.inputTokens),
    ("output_tokens", .int r.outputTokens), ("cost_microusd", .int r.costMicrousd),
    ("previous_hash", .str previousHash)]

section host

variable (sha256 : String → String)

def traceHash (r : TraceRow F) (previousHash : String) : String :=
  sha256 (asciiCanonical (traceCanonical r previousHash))

def missionRows (rows : List (TraceRow F)) (missionId : String) : List (TraceRow F) :=
  (rows.filter fun r => r.missionId = missionId).insertionSort fun a b => a.sequence ≤ b.sequence

/-! ## Appending -/

/-- The row of a draft behind the last event of its mission, still without its hash. -/
def TraceDraft.row (d : TraceDraft F) (eventId createdAt : String)
    (previous : Option (TraceRow F)) : TraceRow F where
  eventId := eventId
  missionId := d.missionId
  routeId := d.routeId
  sequence := match previous with | some r => r.sequence + 1 | none => 1
  createdAt := createdAt
  eventType := d.eventType
  role := d.role
  providerId := d.providerId
  model := d.model
  location := d.location
  reason := ofChars ((toChars d.reason).take 1000)
  risk := d.risk
  complexity := d.complexity
  impact := d.impact
  confidenceIn := d.confidenceIn
  confidenceOut := d.confidenceOut
  inputTokens := d.inputTokens
  outputTokens := d.outputTokens
  costMicrousd := d.costMicrousd
  previousHash := match previous with | some r => r.eventHash | none => zeroHash
  eventHash := ""

def TraceRow.sealed (r : TraceRow F) : TraceRow F :=
  { r with eventHash := traceHash sha256 r r.previousHash }

/-- The row that `append` inserts. Its hash is of the floats that were given. -/
def nextRow (rows : List (TraceRow F)) (eventId createdAt : String) (d : TraceDraft F) :
    TraceRow F :=
  (d.row eventId createdAt (missionRows rows d.missionId).getLast?).sealed sha256

/-- A key of the table is taken already. -/
def traceViolates (r : TraceRow F) (rows : List (TraceRow F)) : Bool :=
  rows.any fun q => q.eventId = r.eventId ∨ q.missionId = r.missionId ∧ q.sequence = r.sequence

/-- The transaction of `append`. The database may fail, and then nothing is written. -/
def appendTx (fault : Option Exc) (eventId createdAt : String) (d : TraceDraft F)
    (rows : List (TraceRow F)) : Except Exc ℤ × List (TraceRow F) :=
  let r := nextRow sha256 rows eventId createdAt d
  match fault with
  | some e => (.error e, rows)
  | none =>
    if traceViolates r rows then (.error (.other "IntegrityError" "UNIQUE constraint failed"), rows)
    else (.ok r.sequence, rows ++ [r.stored])

/-- The operations of `append`. -/
inductive TraceOp (F : Type) where
  | uuid4
  | now
  | tx (eventId createdAt : String) (d : TraceDraft F)

def TraceOp.Ans : TraceOp F → Type
  | uuid4 => String
  | now => String
  | tx _ _ _ => Except Exc ℤ

abbrev traceInterface (F : Type) : Interface :=
  ⟨TraceOp F, TraceOp.Ans⟩

def appendTrace (d : TraceDraft F) : Prog (traceInterface F) Exc ℤ :=
  if d.eventType ∉ traceEventTypes then .fail (.other "ValueError" "unsupported trace event type")
  else do
    let eventId ← Prog.perform (I := traceInterface F) .uuid4
    let createdAt ← Prog.perform (I := traceInterface F) .now
    let r ← Prog.perform (I := traceInterface F) (.tx eventId createdAt d)
    Prog.ofExcept r

/-- What the environment chooses when an operation is performed. -/
structure TraceChoice where
  uuid : String := ""
  time : String := ""
  fault : Option Exc := none

/-- The answer of an operation and the table after it. -/
def performTrace : (o : TraceOp F) → TraceChoice → List (TraceRow F) →
    o.Ans × List (TraceRow F)
  | .uuid4, x, rows => (x.uuid, rows)
  | .now, x, rows => (x.time, rows)
  | .tx eventId createdAt d, x, rows => appendTx sha256 x.fault eventId createdAt d rows

/-- Calls of `append` over one table. -/
abbrev traceSystem : System where
  I := traceInterface F
  Err := Exc
  Res := ℤ
  Store := List (TraceRow F)
  Request := TraceDraft F
  Choice := TraceChoice
  program := appendTrace
  perform := performTrace sha256

def emptyTrace : State (traceSystem (F := F) sha256) :=
  ⟨[], []⟩

/-! ## Verifying -/

/-- The events in turn, each checked behind the hash of its predecessor. -/
def verifyTrace : String → List (TraceRow F) → Bool
  | _, [] => true
  | previousHash, r :: rows =>
    let calculated := traceHash sha256 r previousHash
    if r.previousHash ≠ previousHash ∨ r.eventHash ≠ calculated then false
    else verifyTrace calculated rows

def verify (rows : List (TraceRow F)) (missionId : String) : Bool :=
  verifyTrace sha256 zeroHash (missionRows rows missionId)

/-- The events of a mission as a chain: a good event stores its hash. -/
def traceChain : Chain (TraceRow F) String where
  prev := TraceRow.previousHash
  own := TraceRow.eventHash
  Good _ r := r.eventHash = traceHash sha256 r r.previousHash

variable {rows : List (TraceRow F)}

theorem verifyTrace_iff {h : String} {n : ℕ} :
    verifyTrace sha256 h rows = true ↔ Linked (traceChain sha256) n h rows := by
  induction rows generalizing h n with
  | nil => simp [verifyTrace, Linked]
  | cons r rows ih =>
    rw [verifyTrace, Linked]
    by_cases hprev : r.previousHash = h
    · subst hprev
      by_cases hown : r.eventHash = traceHash sha256 r r.previousHash
      · simp only [hown, ne_eq, not_true_eq_false, or_self, if_false]
        rw [← hown, ih (n := n + 1)]
        simp [traceChain, hown]
      · simp [traceChain, hown]
    · simp [traceChain, hprev]

theorem verify_iff {missionId : String} {n : ℕ} : verify sha256 rows missionId = true ↔
      Linked (traceChain sha256) n zeroHash (missionRows rows missionId) :=
  verifyTrace_iff sha256

end host

end OpsOrchestrator
