import OpsControlPlane.Broker.Util
import OpsControlPlane.Orchestrator.Stream

/-!
# The coordinator pool

`MultiProviderHermesFacade.dispatch` and `HermesFacade._invoke`, over the ledger, the upstream
transport and the private files. What leaves the process goes through the operation `open`.
The checks of a request read the request, the configuration and private files only; what they
say is up to the environment.
-/

namespace OpsOrchestrator

namespace Hermes

open JsonText Text Calls

variable {F : Type}

/-! ## Requests and responses -/

/-- `HermesFacade`, with what `_invoke` reads. -/
structure Facade where
  provider : ProviderConfig
  limits : StreamLimits
  providerTimeoutSeconds : ℕ
deriving DecidableEq

structure PreparedRequest where
  body : Bytes
  stream : Bool
  (estimatedInputTokens maximumOutputTokens : ℤ)
  prices : Prices
  (providerUrl providerKey providerModel : String)
deriving DecidableEq

/-- What `prepare` raises. -/
inductive Refusal where
  | validation (status : ℕ) (code message : String)
  | other (e : Exc)

structure UpstreamRequest where
  url : String
  headers : List (String × String)
  body : Bytes
  timeout : ℕ

/-- The head of an `UpstreamResponse`. -/
structure UpstreamResponse where
  status : ℤ
  headers : List (String × String)

inductive Body where
  | error (code message : String)
  | json (document : Bytes)
  /-- An `_AccountedSSEStream` over the reservation. -/
  | stream (reservation : Reservation)

structure FacadeResponse where
  status : ℕ
  body : Body

def openaiError (status : ℕ) (code message : String) : FacadeResponse :=
  ⟨status, .error code message⟩

/-! ## Operations -/

inductive FacadeOp where
  | ledger (o : LedgerOp)
  | privateToken (path : String)
  | prepare (facade : Facade) (rawBody : Bytes)
  /-- `_identity`: a route and a mission. -/
  | identity (facade : Facade)
  /-- `transport.open` and the entry of its context. -/
  | openUpstream (facade : Facade) (request : UpstreamRequest)
  | readBody (bound : ℕ)
  | providerPrices (facade : Facade) (inputTokens : ℤ)
  /-- The exit of the context, whose exceptions are dropped. -/
  | leave

def FacadeOp.Ans : FacadeOp → Type
  | ledger o => o.Ans
  | privateToken _ => Except Exc String
  | prepare _ _ => Except Refusal PreparedRequest
  | identity _ => String × String
  | openUpstream _ _ => Except Exc UpstreamResponse
  | readBody _ => Except Exc Bytes
  | providerPrices _ _ => Except Exc Prices
  | leave => Unit

abbrev facadeInterface : Interface :=
  ⟨FacadeOp, FacadeOp.Ans⟩

abbrev FacadeMethod (α : Type) : Type :=
  Prog facadeInterface Exc α

def ask (o : FacadeOp) : FacadeMethod o.Ans :=
  Prog.perform (I := facadeInterface) o

def ledger {α : Type} (p : LedgerMethod α) : FacadeMethod α :=
  p.interpret fun o => ask (.ledger o)

/-! ## Credentials -/

/-- `str.strip` keeps the text. -/
def isStripped (text : List Char) : Bool :=
  !(text.head?.any OpsControlPlane.isSpace) && !(text.getLast?.any OpsControlPlane.isSpace)

/-- `authorized`. `hmac.compare_digest` raises for texts that are not ASCII. -/
def authorized (clientTokenPath : String) (authorization : Option String) : FacadeMethod Bool :=
  match authorization with
  | none => return false
  | some text =>
    if "Bearer ".isPrefixOf text = false then return false
    else
      let candidate := (toChars text).drop 7
      if candidate = [] ∨ 512 < candidate.length ∨ isStripped candidate = false then return false
      else do
        let token : Except Exc String ← ask (.privateToken clientTokenPath)
        match token with
        | .error e => .fail e
        | .ok token =>
          if (candidate.all fun ch => ch.toNat < 128) = false then
            .fail (.other "TypeError" "comparing strings with non-ASCII characters")
          else return decide (candidate = toChars token)

/-! ## One provider -/

def reserveFor (f : Facade) (p : PreparedRequest) : FacadeMethod Reservation := do
  let names : String × String ← ask (.identity f)
  ledger (reserve
    { routeId := names.1
      missionId := names.2
      provider := f.provider
      model := p.providerModel
      reason := "Hermes coordinator chat completion"
      inputTokens := p.estimatedInputTokens
      maxOutputTokens := p.maximumOutputTokens
      requestedMaxCost := none
      prices := p.prices })

def markFor (reservation : Reservation) (code : String) (usage : Option Usage) (prices : Prices) :
    FacadeMethod Bool := do
  let r ← (ledger (markUncertain reservation code (usage.map Prod.fst) (usage.map Prod.snd)
    (some prices))).attempt
  match r with
  | .ok _ => return true
  | .error e => if isLedgerError e then return false else .fail e

def ledgerUnavailable : FacadeResponse :=
  openaiError 503 "budget_ledger_unavailable" "coordinator budget ledger is unavailable"

def afterMark (accounted : Bool) (code message : String) : FacadeResponse :=
  if accounted then openaiError 502 code message else ledgerUnavailable

def header (headers : List (String × String)) (name : String) : String :=
  ((headers.find? fun kv => kv.1.toLower = name.toLower).map Prod.snd).getD ""

/-- The media type of a response, in lower case. -/
def mediaType (headers : List (String × String)) : List Char :=
  let text := (toChars (header headers "Content-Type")).takeWhile fun ch => ch ≠ ';'
  let text := (text.dropWhile OpsControlPlane.isSpace).reverse
  ((text.dropWhile OpsControlPlane.isSpace).reverse).map Char.toLower

def validateMessageCalls : List (Json F) → List ℤ → Bool
  | [], _ => true
  | .obj call :: calls, seen =>
    membersIn ["id", "type", "function", "index"] call &&
    (match call.lookup "type", call.lookup "id" with
      | some (.str "function"), some (.str id) => 1 ≤ id.length && id.length ≤ 256
      | _, _ => false) &&
    (match call.lookup "function" with
      | some (.obj function) => membersIn ["name", "arguments"] function &&
        (match function.lookup "name", function.lookup "arguments" with
          | some (.str name), some (.str _) => 1 ≤ name.length && name.length ≤ 128
          | _, _ => false)
      | _ => false) &&
    (match call.lookup "index" with
      | none => validateMessageCalls calls seen
      | some (.int index) => decide (0 ≤ index ∧ index < 64 ∧ index ∉ seen) &&
        validateMessageCalls calls (index :: seen)
      | some _ => false)
  | _ :: _, _ => false

/-- The checks of a message: its tool calls, and that it is not empty. -/
def validateMessage (message : Document F) : Except Exc Unit :=
  match message.lookup "tool_calls" with
  | some (.arr calls) =>
    if calls.length ≤ 64 ∧ validateMessageCalls calls [] then
      match message.lookup "content" with
      | none => require (calls ≠ []) "upstream message is empty"
      | some .null => require (calls ≠ []) "upstream message is empty"
      | some _ => .ok ()
    else .error (.other "FacadeValidationError" "assistant tool_calls is invalid")
  | some _ => .error (.other "FacadeValidationError" "assistant tool_calls is invalid")
  | none =>
    match message.lookup "content" with
    | none => .error (failure "upstream message is empty")
    | some .null => .error (failure "upstream message is empty")
    | some _ => .ok ()

def readCompletion (c : Coding F) (limits : StreamLimits) (body : Bytes) :
    Except Exc (Option Usage × Bytes) := do
  require (body.length ≤ limits.maxResponseBytes) "upstream response exceeds byte limit"
  let document ← strictUpstreamJson c limits body
  match document.lookup "choices" with
  | some (.arr [.obj choice]) =>
    match choice.lookup "message" with
    | some (.obj message) => do
      validateMessage message
      let usage ← usageOf document
      match c.dumps (.obj (setKey "model" (.str clientModelAlias) document)) with
      | none => .error (.other "UnicodeEncodeError" "surrogates not allowed")
      | some normalized => do
        require (normalized.length ≤ limits.maxResponseBytes)
          "normalized upstream response exceeds byte limit"
        return (usage, normalized)
    | _ => .error (failure "upstream message is invalid")
  | _ => .error (failure "upstream choices are invalid")

def completeFor (f : Facade) (p : PreparedRequest) (reservation : Reservation) (usage : Usage)
    (normalized : Bytes) : FacadeMethod FacadeResponse := do
  let prices : Except Exc Prices ← ask (.providerPrices f (max 1 usage.1))
  match prices with
  | .error e =>
    if isLedgerError e then do
      let _ ← markFor reservation "budget_ledger_failure" (some usage) p.prices
      return ledgerUnavailable
    else .fail e
  | .ok prices => do
    let r ← (ledger (complete reservation usage.1 usage.2 prices)).attempt
    match r with
    | .ok _ => return ⟨200, .json normalized⟩
    | .error e =>
      if isLedgerError e then do
        let _ ← markFor reservation "budget_ledger_failure" (some usage) p.prices
        return ledgerUnavailable
      else .fail e

/-- `except (ConfigurationError, ValueError)` catches it. -/
def isPriceError (e : Exc) : Bool :=
  e.typeName ∈ ["ConfigurationError", "ValueError"]

def exceedFor (f : Facade) (p : PreparedRequest) (reservation : Reservation) (usage : Usage) :
    FacadeMethod FacadeResponse := do
  let prices : Except Exc Prices ← ask (.providerPrices f (max 1 usage.1))
  match prices with
  | .ok prices => do
    let accounted ← markFor reservation "usage_exceeded_reservation" (some usage) prices
    return afterMark accounted "upstream_usage_invalid"
      "model provider usage exceeded its reservation"
  | .error e =>
    if isPriceError e then do
      let accounted ← markFor reservation "usage_exceeded_reservation" (some usage) p.prices
      return afterMark accounted "upstream_usage_invalid"
        "model provider usage exceeded its reservation"
    else .fail e

/-- The completion that is read at once, in its `try`. -/
def settleFor (c : Coding F) (f : Facade) (p : PreparedRequest) (reservation : Reservation) :
    FacadeMethod FacadeResponse := do
  let body : Except Exc Bytes ← ask (.readBody (f.limits.maxResponseBytes + 1))
  let body ← Prog.ofExcept body
  let completion ← Prog.ofExcept (readCompletion c f.limits body)
  match completion with
  | (none, normalized) => do
    let accounted ← markFor reservation "usage_missing" none p.prices
    return if accounted then ⟨200, .json normalized⟩ else ledgerUnavailable
  | (some usage, normalized) =>
    if reservation.reservedInputTokens < usage.1 ∨ reservation.reservedOutputTokens < usage.2 then
      exceedFor f p reservation usage
    else completeFor f p reservation usage normalized

def isSqliteError (e : Exc) : Bool :=
  e.typeName ∈ ["Error", "DatabaseError", "OperationalError", "IntegrityError", "InternalError",
    "ProgrammingError", "NotSupportedError", "DataError", "InterfaceError"]

/-- A completion that is read at once. The upstream is left in any case. -/
def readFor (c : Coding F) (f : Facade) (p : PreparedRequest) (reservation : Reservation) :
    FacadeMethod FacadeResponse := do
  let r ← (settleFor c f p reservation).attempt
  match r with
  | .ok response => do
    ask .leave
    return response
  | .error e => do
    let r ← (markFor reservation e.typeName none p.prices).attempt
    ask .leave
    match r with
    | .error e' => .fail e'
    | .ok accounted =>
      return afterMark (accounted && !isSqliteError e) "upstream_error"
        "model provider response is invalid"

/-- Account for a response that is not read, and leave the upstream. -/
def rejectFor (p : PreparedRequest) (reservation : Reservation) (code message : String) :
    FacadeMethod FacadeResponse := do
  let accounted ← markFor reservation code none p.prices
  ask .leave
  return afterMark accounted "upstream_error" message

def receiveFor (c : Coding F) (f : Facade) (p : PreparedRequest) (reservation : Reservation)
    (response : UpstreamResponse) : FacadeMethod FacadeResponse :=
  if response.status < 200 ∨ 300 ≤ response.status then
    rejectFor p reservation "upstream_http_status" "model provider rejected the request"
  else if mediaType response.headers ≠
      toChars (if p.stream then "text/event-stream" else "application/json") then
    rejectFor p reservation "upstream_content_type" "model provider response type is invalid"
  else if p.stream then return ⟨200, .stream reservation⟩
  else readFor c f p reservation

def upstreamRequest (f : Facade) (p : PreparedRequest) : UpstreamRequest where
  url := p.providerUrl
  headers := [("Authorization", "Bearer " ++ p.providerKey), ("Content-Type", "application/json"),
    ("Accept", if p.stream then "text/event-stream" else "application/json"),
    ("User-Agent", "ops-orchestrator-hermes-facade/1")]
  body := p.body
  timeout := f.providerTimeoutSeconds

def sendFor (c : Coding F) (f : Facade) (p : PreparedRequest) (reservation : Reservation) :
    FacadeMethod FacadeResponse := do
  let response : Except Exc UpstreamResponse ← ask (.openUpstream f (upstreamRequest f p))
  match response with
  | .error e => do
    let accounted ← markFor reservation e.typeName none p.prices
    return afterMark accounted "upstream_unavailable" "model provider is unavailable"
  | .ok response => receiveFor c f p reservation response

def invoke (c : Coding F) (f : Facade) (p : PreparedRequest) : FacadeMethod FacadeResponse := do
  let r ← (reserveFor f p).attempt
  match r with
  | .error (.budgetExceeded _ _ _) =>
    return openaiError 429 "budget_exceeded" "coordinator budget is exhausted"
  | .error e => if isLedgerError e then return ledgerUnavailable else .fail e
  | .ok reservation => sendFor c f p reservation

/-! ## The pool -/

/-- A provider that accepts a request, with its reserved cost and its place in the
configuration. -/
structure Candidate where
  cost : ℤ
  order : ℕ
  facade : Facade
  prepared : PreparedRequest
deriving DecidableEq

def candidateOf (order : ℕ) (f : Facade) (p : PreparedRequest) : Candidate :=
  ⟨estimatedCostMicrousd p.estimatedInputTokens p.maximumOutputTokens p.prices, order, f, p⟩

def Candidate.before (a b : Candidate) : Prop :=
  a.cost < b.cost ∨ a.cost = b.cost ∧ a.order ≤ b.order

instance : DecidableRel Candidate.before :=
  fun a b => inferInstanceAs (Decidable (a.cost < b.cost ∨ a.cost = b.cost ∧ a.order ≤ b.order))

/-- `except (ConfigurationError, ProviderUnavailable, ValueError)` catches it. -/
def isUnavailable (e : Exc) : Bool :=
  e.typeName ∈ ["ConfigurationError", "ProviderUnavailable", "ValueError", "UnicodeError",
    "UnicodeEncodeError", "UnicodeDecodeError", "JSONDecodeError"]

/-- The loop over the facades: the candidates, or the response to a refused request. -/
def collect (rawBody : Bytes) :
    List Facade → ℕ → List Candidate → FacadeMethod (Except FacadeResponse (List Candidate))
  | [], _, candidates => return .ok candidates
  | f :: fs, order, candidates => do
    let r : Except Refusal PreparedRequest ← ask (.prepare f rawBody)
    match r with
    | .error (.validation status code message) =>
      return .error (openaiError status code message)
    | .error (.other e) =>
      if isUnavailable e then collect rawBody fs (order + 1) candidates else .fail e
    | .ok p => collect rawBody fs (order + 1) (candidates ++ [candidateOf order f p])

/-- The loop over the sorted candidates. -/
def tryCandidates (c : Coding F) :
    List Candidate → Option FacadeResponse → FacadeMethod FacadeResponse
  | [], last => return last.getD (openaiError 429 "budget_exceeded"
      "all coordinator provider budgets are exhausted")
  | candidate :: candidates, _ => do
    let response ← invoke c candidate.facade candidate.prepared
    if response.status ≠ 429 then return response
    else tryCandidates c candidates (some response)

/-- `MultiProviderHermesFacade`: from one to 32 providers, without duplicates. -/
structure Pool where
  facades : List Facade
  clientTokenPath : String
  size : 1 ≤ facades.length ∧ facades.length ≤ 32
  distinct : (facades.map fun f => f.provider.providerId).Nodup

def dispatch (c : Coding F) (pool : Pool) (authorization : Option String) (rawBody : Bytes) :
    FacadeMethod FacadeResponse := do
  let allowed ← (authorized pool.clientTokenPath authorization).attempt
  match allowed with
  | .error (.configuration _) =>
    return openaiError 503 "facade_unavailable" "facade authentication is unavailable"
  | .error e => .fail e
  | .ok false => return openaiError 401 "invalid_api_key" "invalid bearer credential"
  | .ok true => do
    let candidates ← collect rawBody pool.facades 0 []
    match candidates with
    | .error response => return response
    | .ok [] =>
      return openaiError 503 "provider_unavailable" "no configured provider is locally available"
    | .ok candidates => tryCandidates c (candidates.insertionSort Candidate.before) none

/-! ## The system -/

structure DispatchRequest where
  pool : Pool
  authorization : Option String
  rawBody : Bytes

/-- What the environment chooses when an operation is performed. -/
structure FacadeChoice where
  ledger : LedgerChoice
  answer : (o : FacadeOp) → o.Ans

def performFacade (budgets : List (String × ProviderAccountBudget)) :
    (o : FacadeOp) → FacadeChoice → Ledger → o.Ans × Ledger
  | .ledger o, x, rows => performLedger budgets o x.ledger rows
  | o, x, rows => (x.answer o, rows)

/-- Dispatches over the ledger. -/
abbrev facadeSystem (c : Coding F) (budgets : List (String × ProviderAccountBudget)) : System where
  I := facadeInterface
  Err := Exc
  Res := FacadeResponse
  Store := Ledger
  Request := DispatchRequest
  Choice := FacadeChoice
  program r := dispatch c r.pool r.authorization r.rawBody
  perform := performFacade budgets

end Hermes

end OpsOrchestrator
