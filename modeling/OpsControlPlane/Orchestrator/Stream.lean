import OpsControlPlane.Lib.JsonText
import OpsControlPlane.Orchestrator.Ledger

/-!
# Streamed completions

`_AccountedSSEStream`: server-sent events of a model provider, read line by line, checked,
and passed on one by one. The stream settles its reservation when `[DONE]` is read, when it
fails and when it is closed.

A stream is given the lines that the provider sends, or the exceptions that reading them
raises. `json.loads`, `json.dumps` and the decoder are parameters.
-/

namespace OpsOrchestrator

namespace Hermes

open JsonText Text Calls

variable {F : Type}

/-! ## Exceptions -/

def failure (message : String) : Exc :=
  .other "UpstreamFailure" message

/-- `except (sqlite3.Error, RuntimeError)` catches it. -/
def isLedgerError (e : Exc) : Bool :=
  e.typeName ∈ ["RuntimeError", "Error", "DatabaseError", "OperationalError", "IntegrityError",
    "InternalError", "ProgrammingError", "NotSupportedError", "DataError", "InterfaceError",
    "NotImplementedError", "RecursionError", "UpstreamFailure"]

/-- Raise a failure unless a condition holds. -/
def require (p : Prop) [Decidable p] (message : String) : Except Exc Unit :=
  if p then .ok () else .error (failure message)

/-! ## Texts -/

abbrev Bytes : Type :=
  List UInt8

def ascii (s : String) : Bytes :=
  (toChars s).map fun c => UInt8.ofNat c.toNat

structure Coding (F : Type) where
  /-- `json.loads` of the decoded bytes, without the constants that are no JSON. None if it
  raises. -/
  loads : Bytes → Option (Json F)
  /-- The encoded text of `json.dumps`. None if it cannot be encoded. -/
  dumps : Json F → Option Bytes
  /-- `bytes.decode("utf-8", errors="strict")` succeeds. -/
  decodes : Bytes → Bool
  isfinite : F → Bool
  isZero : F → Bool

/-- `HermesFacadeLimits`, with the limits that streams read. -/
structure StreamLimits where
  (maxResponseBytes maxJsonDepth maxJsonNodes : ℕ)
deriving DecidableEq

variable (c : Coding F)

mutual
/-- How many items `_validate_json_tree` visits. -/
def nodes : Json F → ℕ
  | .arr xs => nodesElems xs + 1
  | .obj kvs => nodesPairs kvs + 1
  | .null => 1
  | .bool _ => 1
  | .int _ => 1
  | .float _ => 1
  | .str _ => 1

def nodesElems : List (Json F) → ℕ
  | [] => 0
  | x :: xs => nodes x + nodesElems xs

def nodesPairs : List (String × Json F) → ℕ
  | [] => 0
  | (_, v) :: kvs => nodes v + nodesPairs kvs
end

mutual
/-- Every item is bounded, and lies at most so many levels below. -/
def bounded : ℕ → Json F → Bool
  | _, .null => true
  | _, .bool _ => true
  | _, .str _ => true
  | _, .int n => n.natAbs ≤ 2 ^ 63 - 1
  | _, .float x => c.isfinite x
  | n, .arr xs => boundedElems n xs
  | n, .obj kvs => boundedPairs n kvs

def boundedElems : ℕ → List (Json F) → Bool
  | _, [] => true
  | 0, _ :: _ => false
  | n + 1, x :: xs => bounded n x && boundedElems (n + 1) xs

def boundedPairs : ℕ → List (String × Json F) → Bool
  | _, [] => true
  | 0, _ :: _ => false
  | n + 1, (k, v) :: kvs => decide (k.length ≤ 256) && bounded n v && boundedPairs (n + 1) kvs
end

abbrev Document (F : Type) : Type :=
  List (String × Json F)

def strictUpstreamJson (limits : StreamLimits) (data : Bytes) : Except Exc (Document F) :=
  match c.loads data with
  | none => .error (failure "invalid_upstream_json")
  | some value =>
    if nodes value ≤ limits.maxJsonNodes ∧ bounded c limits.maxJsonDepth value then
      match value with
      | .obj kvs => .ok kvs
      | _ => .error (failure "upstream response root is invalid")
    else .error (failure "invalid_upstream_json")

/-- Prompt tokens and completion tokens. -/
abbrev Usage : Type :=
  ℤ × ℤ

def usageOf (document : Document F) : Except Exc (Option Usage) :=
  match document.lookup "usage" with
  | none => .ok none
  | some .null => .ok none
  | some (.obj value) =>
    match value.lookup "prompt_tokens", value.lookup "completion_tokens" with
    | some (.int prompt), some (.int completion) =>
      if 0 ≤ prompt ∧ 0 ≤ completion then .ok (some (prompt, completion))
      else .error (failure "invalid_upstream_usage")
    | _, _ => .error (failure "invalid_upstream_usage")
  | some _ => .error (failure "invalid_upstream_usage")

/-! ## Events -/

/-- Every member of the object is one of these. -/
def membersIn (allowed : List String) (kvs : Document F) : Bool :=
  kvs.all fun kv => kv.1 ∈ allowed

def optionalText (bound : ℕ) (message : String) : Option (Json F) → Except Exc Unit
  | none => .ok ()
  | some (.str s) => require (1 ≤ s.length ∧ s.length ≤ bound) message
  | some _ => .error (failure message)

def optionalWord (word message : String) : Option (Json F) → Except Exc Unit
  | none => .ok ()
  | some (.str s) => require (s = word) message
  | some _ => .error (failure message)

def nullableText (message : String) : Option (Json F) → Except Exc Unit
  | none => .ok ()
  | some .null => .ok ()
  | some (.str _) => .ok ()
  | some _ => .error (failure message)

def validateArguments : Option (Json F) → Except Exc Unit
  | none => .ok ()
  | some (.str _) => .ok ()
  | some _ => .error (failure "invalid_upstream_sse_tool_call_arguments")

def validateFunction : Option (Json F) → Except Exc Unit
  | none => .ok ()
  | some (.obj function) => do
    require (function ≠ [] ∧ membersIn ["name", "arguments"] function)
      "invalid_upstream_sse_tool_call_function"
    optionalText 128 "invalid_upstream_sse_tool_call_name" (function.lookup "name")
    validateArguments (function.lookup "arguments")
  | some _ => .error (failure "invalid_upstream_sse_tool_call_function")

/-- The loop of `_validate_stream_tool_call_deltas`, over the indexes seen before. -/
def validateToolCalls : List (Json F) → List ℤ → Except Exc Unit
  | [], _ => .ok ()
  | .obj call :: calls, seen => do
    require (membersIn ["index", "id", "type", "function"] call) "invalid_upstream_sse_tool_call"
    match call.lookup "index" with
    | some (.int index) => do
      require (0 ≤ index ∧ index < 64 ∧ index ∉ seen) "invalid_upstream_sse_tool_call_index"
      require (membersIn ["index"] call = false) "empty_upstream_sse_tool_call"
      optionalText 256 "invalid_upstream_sse_tool_call_id" (call.lookup "id")
      optionalWord "function" "invalid_upstream_sse_tool_call_type" (call.lookup "type")
      validateFunction (call.lookup "function")
      validateToolCalls calls (index :: seen)
    | _ => .error (failure "invalid_upstream_sse_tool_call_index")
  | _ :: _, _ => .error (failure "invalid_upstream_sse_tool_call")

def validateToolCallDeltas : Option (Json F) → Except Exc Unit
  | none => .ok ()
  | some (.arr calls) => do
    require (1 ≤ calls.length ∧ calls.length ≤ 64) "invalid_upstream_sse_tool_calls"
    validateToolCalls calls []
  | some _ => .error (failure "invalid_upstream_sse_tool_calls")

def validateDelta : Option (Json F) → Except Exc Unit
  | some (.obj delta) => do
    require (membersIn ["role", "content", "refusal", "reasoning_content", "tool_calls"] delta)
      "invalid_upstream_sse_delta"
    optionalWord "assistant" "invalid_upstream_sse_delta_role" (delta.lookup "role")
    nullableText "invalid_upstream_sse_delta_content" (delta.lookup "content")
    nullableText "invalid_upstream_sse_delta_content" (delta.lookup "refusal")
    nullableText "invalid_upstream_sse_delta_content" (delta.lookup "reasoning_content")
    validateToolCallDeltas (delta.lookup "tool_calls")
  | _ => .error (failure "invalid_upstream_sse_delta")

/-- The finish reason of a choice. A list or an object cannot be looked up in a set. -/
def validateFinishReason : Option (Json F) → Except Exc Unit
  | none => .ok ()
  | some .null => .ok ()
  | some (.str s) => require (s ∈ ["stop", "length", "tool_calls", "content_filter"])
      "invalid_upstream_sse_finish_reason"
  | some (.arr _) => .error (.other "TypeError" "unhashable type: 'list'")
  | some (.obj _) => .error (.other "TypeError" "unhashable type: 'dict'")
  | some _ => .error (failure "invalid_upstream_sse_finish_reason")

def isIndexZero : Option (Json F) → Bool
  | some (.int n) => n = 0
  | some (.float x) => c.isZero x
  | _ => false

/-- The log probabilities of a choice. -/
def validateLogprobs : Option (Json F) → Except Exc Unit
  | none => .ok ()
  | some .null => .ok ()
  | some (.obj _) => .ok ()
  | some _ => .error (failure "invalid_upstream_sse_logprobs")

def validateChoice (choice : Document F) : Except Exc Unit := do
  require (membersIn ["index", "delta", "finish_reason", "logprobs"] choice)
    "invalid_upstream_sse_choice"
  require (isIndexZero c (choice.lookup "index")) "invalid_upstream_sse_choice_index"
  validateDelta (choice.lookup "delta")
  validateFinishReason (choice.lookup "finish_reason")
  validateLogprobs (choice.lookup "logprobs")

def validateStreamChunk (document : Document F) : Except Exc Unit :=
  match document.lookup "choices" with
  | some (.arr []) => do
    let usage ← usageOf document
    require (usage.isSome = true) "empty_upstream_sse_event"
  | some (.arr [.obj choice]) => validateChoice c choice
  | some (.arr [_]) => .error (failure "invalid_upstream_sse_choice")
  | _ => .error (failure "invalid_upstream_sse_choices")

def readChunk (limits : StreamLimits) (data : Bytes) : Except Exc (Document F × Option Usage) := do
  let document ← strictUpstreamJson c limits data
  validateStreamChunk c document
  let observed ← usageOf document
  return (document, observed)

/-! ## Lines -/

abbrev Line : Type :=
  Except Exc Bytes

def chomp (line : Bytes) : Bytes :=
  if line.getLast? = some 10 then
    if line.dropLast.getLast? = some 13 then line.dropLast.dropLast else line.dropLast
  else line

inductive Field where
  | data (value : Bytes)
  | skip
  | bad (message : String)

def fieldValue (line : Bytes) : Bytes :=
  match line.dropWhile fun b => b ≠ 58 with
  | 58 :: 32 :: value => value
  | _ :: value => value
  | [] => []

def readField (line : Bytes) : Field :=
  let field := line.takeWhile fun b => b ≠ 58
  let value := fieldValue line
  if line.head? = some 58 then .skip
  else if field = ascii "data" then .data value
  else if field = ascii "event" ∨ field = ascii "id" then
    if 1024 < value.length ∨ 0 ∈ value ∨ c.decodes value = false then
      .bad "invalid_upstream_sse_metadata"
    else .skip
  else if field = ascii "retry" then
    if value ≠ [] ∧ (value.all fun b => 48 ≤ b ∧ b ≤ 57) ∧ value.length ≤ 10 then .skip
    else .bad "invalid_upstream_sse_retry"
  else .skip

/-- `_read_event_data`: the data of the next event, the lines that are left, and the number of
bytes that were read. After the last line the stream has ended. -/
def readEventData (limits : StreamLimits) :
    List Line → List Bytes → ℕ → Except Exc Bytes × List Line × ℕ
  | [], _, bytesRead => (.error (failure "upstream_sse_ended_without_done"), [], bytesRead)
  | .error e :: lines, _, bytesRead => (.error e, lines, bytesRead)
  | .ok line :: lines, dataLines, bytesRead =>
    if line = [] then (.error (failure "upstream_sse_ended_without_done"), lines, bytesRead)
    else if limits.maxResponseBytes < bytesRead + line.length then
      (.error (failure "upstream_sse_exceeds_byte_limit"), lines, bytesRead + line.length)
    else if chomp line = [] then
      if dataLines = [] then readEventData limits lines [] (bytesRead + line.length)
      else (.ok (List.intercalate [10] dataLines), lines, bytesRead + line.length)
    else
      match readField c (chomp line) with
      | .data value =>
        readEventData limits lines (dataLines ++ [value]) (bytesRead + line.length)
      | .skip => readEventData limits lines dataLines (bytesRead + line.length)
      | .bad message => (.error (failure message), lines, bytesRead + line.length)

/-! ## The stream -/

/-- `price_resolver`: prices for a number of input tokens. They are not negative, and what it
raises is a `ConfigurationError` or a `ValueError`. -/
structure PriceResolver where
  resolve : ℤ → Except Exc Prices
  nonneg : ∀ {n : ℤ} {p : Prices}, resolve n = .ok p → 0 ≤ p.1 ∧ 0 ≤ p.2
  raises : ∀ {n : ℤ} {e : Exc}, resolve n = .error e →
    e.typeName = "ConfigurationError" ∨ e.typeName = "ValueError"

/-- What a stream is made with. The reservation was granted by the ledger. -/
structure Opening where
  reservation : Reservation
  limits : StreamLimits
  prices : PriceResolver
  stored : reservation.Stored

/-- The state of a stream: the lines to come and its attributes. -/
structure Stream where
  upstream : List Line
  usage : Option Usage := none
  bytesRead : ℕ := 0
  bytesEmitted : ℕ := 0
  finalized : Bool := false
  closed : Bool := false

variable (q : Opening)

def reservationPrices : Prices :=
  match q.prices.resolve (max 1 q.reservation.reservedInputTokens) with
  | .ok prices => prices
  | .error _ => (0, 0)

def usagePrices (usage : Usage) : Prices :=
  match q.prices.resolve (max 1 usage.1) with
  | .ok prices => prices
  | .error _ => reservationPrices q

def uncertain (code : String) (usage : Option Usage) (s : Stream) :
    LedgerMethod (Except Exc Bool × Stream) :=
  if s.finalized then return (.ok true, s)
  else do
    let r ← (markUncertain q.reservation code (usage.map Prod.fst) (usage.map Prod.snd)
      (usage.map (usagePrices q))).attempt
    match r with
    | .ok _ => return (.ok true, { s with finalized := true })
    | .error e => return (if isLedgerError e then .ok false else .error e, s)

def finish (s : Stream) : LedgerMethod (Except Exc Unit × Stream) :=
  match s.usage with
  | none => do
    let (r, s) ← uncertain q "usage_missing" none s
    return (r.bind fun ok => require (ok = true) "budget_ledger_unavailable", s)
  | some usage =>
    if q.reservation.reservedInputTokens < usage.1 ∨
        q.reservation.reservedOutputTokens < usage.2 then do
      let (r, s) ← uncertain q "usage_exceeded_reservation" (some usage) s
      return (r.bind fun _ => .error (failure "upstream usage exceeded reservation"), s)
    else
      match q.prices.resolve (max 1 usage.1) with
      | .error e => return (.error e, s)
      | .ok prices => do
        let r ← (complete q.reservation usage.1 usage.2 prices).attempt
        match r with
        | .ok _ => return (.ok (), { s with finalized := true })
        | .error e =>
          if isLedgerError e then do
            let (r, s) ← uncertain q "budget_ledger_failure" (some usage) s
            return (r.bind fun _ => .error (failure "budget_ledger_unavailable"), s)
          else return (.error e, s)

/-- `close`. The upstream is left in any case. -/
def close (s : Stream) : LedgerMethod (Except Exc Unit × Stream) :=
  if s.closed then return (.ok (), s)
  else if s.finalized then return (.ok (), { s with closed := true })
  else do
    let (r, s) ← uncertain q "client_disconnect" s.usage { s with closed := true }
    return (r.map fun _ => (), s)

/-- The data of the last event. -/
def done : Bytes :=
  ascii "[DONE]"

def clientModelAlias : String :=
  "qwen-coordinator"

def frame (text : Bytes) : Bytes :=
  ascii "data: " ++ text ++ [10, 10]

def observe (usage observed : Option Usage) : Except Exc (Option Usage) :=
  match usage, observed with
  | usage, none => .ok usage
  | none, some u => .ok (some u)
  | some v, some u =>
    if u = v then .ok (some v) else .error (failure "inconsistent_upstream_usage")

/-- Pass an event on, if it fits. -/
def emit (outgoing : Bytes) (s : Stream) : Except Exc Bytes × Stream :=
  if q.limits.maxResponseBytes < s.bytesEmitted + outgoing.length then
    (.error (failure "normalized_upstream_sse_exceeds_byte_limit"), s)
  else (.ok outgoing, { s with bytesEmitted := s.bytesEmitted + outgoing.length })

def forward (data : Bytes) (s : Stream) : Except Exc Bytes × Stream :=
  match readChunk c q.limits data with
  | .error e => (.error e, s)
  | .ok (document, observed) =>
    match observe s.usage observed with
    | .error e => (.error e, s)
    | .ok usage =>
      match c.dumps (.obj (setKey "model" (.str clientModelAlias) document)) with
      | none => (.error (.other "UnicodeEncodeError" "surrogates not allowed"),
          { s with usage := usage })
      | some text => emit q (frame text) { s with usage := usage }

def conclude (s : Stream) : LedgerMethod (Except Exc Bytes × Stream) :=
  if q.limits.maxResponseBytes < s.bytesEmitted + (frame done).length then
    return (.error (failure "normalized_upstream_sse_exceeds_byte_limit"), s)
  else do
    let (r, s) ← finish q s
    match r with
    | .error e => return (.error e, s)
    | .ok _ => do
      let (r, s) ← close q s
      return (r.map fun _ => frame done,
        { s with bytesEmitted := s.bytesEmitted + (frame done).length })

/-- The body of `__next__`, in its `try`. -/
def advance (s : Stream) : LedgerMethod (Except Exc Bytes × Stream) :=
  match readEventData c q.limits s.upstream [] s.bytesRead with
  | (.error e, lines, bytesRead) =>
    return (.error e, { s with upstream := lines, bytesRead := bytesRead })
  | (.ok data, lines, bytesRead) =>
    if data = done then conclude q { s with upstream := lines, bytesRead := bytesRead }
    else return forward c q data { s with upstream := lines, bytesRead := bytesRead }

/-- `__next__`. None is `StopIteration`. -/
def next (s : Stream) : LedgerMethod (Except Exc (Option Bytes) × Stream) :=
  if s.closed then return (.ok none, s)
  else do
    let (r, s) ← advance c q s
    match r with
    | .ok outgoing => return (.ok (some outgoing), s)
    | .error e =>
      if e.typeName = "StopIteration" then return (.error e, s)
      else do
        let (r, s) ← uncertain q e.typeName s.usage s
        match r with
        | .error e => return (.error e, s)
        | .ok _ => do
          let (r, s) ← close q s
          return (r.bind fun _ => .error e, s)

/-! ## Consumers -/

inductive Action where
  | next
  | close
deriving DecidableEq

def consume : List Action → Stream → LedgerMethod Stream
  | [], s => do
    let (_, s) ← close q s
    return s
  | .next :: actions, s => do
    let (_, s) ← next c q s
    consume actions s
  | .close :: actions, s => do
    let (_, s) ← close q s
    consume actions s

structure StreamRequest where
  opening : Opening
  upstream : List Line
  actions : List Action

abbrev streamSystem (c : Coding F) (budgets : List (String × ProviderAccountBudget)) :
    System where
  I := ledgerInterface
  Err := Exc
  Res := Stream
  Store := Ledger
  Request := StreamRequest
  Choice := LedgerChoice
  program r := consume c r.opening r.actions { upstream := r.upstream }
  perform := performLedger budgets

end Hermes

end OpsOrchestrator
