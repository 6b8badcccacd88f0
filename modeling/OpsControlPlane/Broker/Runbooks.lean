import OpsControlPlane.Broker.Policy

/-!
# Runbooks

The registry of `runbooks.py`: parameter schemas, argument templates and budgets. A
`Runbook` carries what the loader checks of it, and a `RunbookRegistry` that no identifier
occurs twice.
-/

namespace OpsControlPlane

open Text JsonText Regex

variable [Platform]

/-- `_IDENTIFIER.fullmatch`. -/
def isRunbookId (s : String) : Bool :=
  leads lowerAlnum (fun c => lowerAlnum c || c = '.' || c = '-') 1 127 (toChars s)

/-- The name in a template argument that is a placeholder, `_PLACEHOLDER`. -/
def placeholder (item : String) : Option String :=
  match toChars item with
  | '{' :: s =>
    if s.getLast? = some '}' ∧
        leads (fun c => c.isAlpha || c = '_') (fun c => c.isAlphanum || c = '_') 0
          s.length s.dropLast then
      some (ofChars s.dropLast)
    else none
  | _ => none

/-- `ParameterSpec`: the kind of a parameter with its bounds. -/
inductive ParameterSpec where
  | enum (values : List String)
  | uuid
  | string (maxLength : ℕ)
  | integer (minimum maximum : Option ℤ)
  | boolean

def isArgvEnumValue (s : String) : Bool :=
  leads asciiAlnum (fun c => asciiAlnum c || c = ':' || c = '.' || c = '_' || c = '@' || c = '/' ||
    c = '+' || c = ',' || c = '-') 0 255 (toChars s)

def ParameterSpec.Safe : ParameterSpec → Prop
  | .enum values => ∀ v ∈ values, isArgvEnumValue v = true
  | _ => True

/-- The kind of a parameter is free text. -/
def ParameterSpec.isString : ParameterSpec → Bool
  | .string _ => true
  | _ => false

def isAbsolute (path : String) : Bool :=
  (toChars path).head? = some '/'

def invalidParameter (name rest : String) : PyError :=
  .invalid "invalid_parameters" (name ++ rest)

/-- `_ACTOR_SAFE_VALUE.fullmatch`. -/
def isSafeValue (s : String) : Bool :=
  1 ≤ s.length && s.length ≤ 4096 && (toChars s).all fun c => c ≠ '\x00' && c ≠ '\r' && c ≠ '\n'

def ParameterSpec.validate (name : String) : ParameterSpec → Value → Except PyError Value
  | enum values, .str s =>
    if s ∈ values then .ok (.str s)
    else .error (invalidParameter name " is not an allowed value")
  | enum _, _ => .error (invalidParameter name " is not an allowed value")
  | uuid, .str s =>
    match normalizedUuid s with
    | some u => .ok (.str u)
    | none => .error (invalidParameter name " must be a UUID")
  | uuid, _ => .error (invalidParameter name " must be a UUID")
  | string maxLength, .str s =>
    if ¬isSafeValue s then .error (invalidParameter name " must be a bounded text string")
    else if maxLength < s.length then .error (invalidParameter name " is too long")
    else .ok (.str s)
  | string _, _ => .error (invalidParameter name " must be a bounded text string")
  | integer minimum maximum, .int n =>
    if ∃ m ∈ minimum, n < m then .error (invalidParameter name " is below its minimum")
    else if ∃ m ∈ maximum, m < n then .error (invalidParameter name " is above its maximum")
    else .ok (.int n)
  | integer _ _, _ => .error (invalidParameter name " must be an integer")
  | boolean, .bool b => .ok (.bool b)
  | boolean, _ => .error (invalidParameter name " must be a boolean")

/-- A piece of a budget key template, as `string.Formatter().parse` splits it. -/
inductive KeyPiece where
  | literal (s : String)
  | field (name : String)

structure BudgetSpec where
  keyTemplate : List KeyPiece
  (maxAttempts windowSeconds : ℕ)

/-- `Runbook`, with what `_load_runbook` checks of it. -/
structure Runbook where
  id : String
  version : ℕ
  project : String
  actionClass : ActionClass
  description : String
  timeoutSeconds : ℕ
  argvTemplate : Option (List String)
  parameters : List (String × ParameterSpec)
  budget : Option BudgetSpec
  outputMaxBytes : ℕ
  id_shape : isRunbookId id = true
  project_shape : isProjectId project = true
  description_bounds : 1 ≤ description.length ∧ description.length ≤ 500
  parameters_nodup : (keys parameters).Nodup
  parameters_names : ∀ p ∈ keys parameters, containsSensitiveName p = false
  parameters_safe : ∀ p ∈ parameters, p.2.Safe
  argv_or_c : argvTemplate.isSome ∨ actionClass = .c
  argv_absolute : ∀ argv ∈ argvTemplate, ∃ executable rest, argv = executable :: rest ∧
    isAbsolute executable = true
  argv_placeholders : ∀ argv ∈ argvTemplate, ∀ item ∈ argv, ∀ name ∈ placeholder item,
    ∃ spec ∈ parameters.lookup name, spec.isString = false
  budget_iff : budget.isSome ↔ actionClass = .b
  budget_fields : ∀ b ∈ budget, ∀ name, .field name ∈ b.keyTemplate → name ∈ keys parameters
  budget_bounds : ∀ b ∈ budget, (1 ≤ b.maxAttempts ∧ b.maxAttempts ≤ 10) ∧
    1 ≤ b.windowSeconds ∧ b.windowSeconds ≤ 86400

def parameterText : Value → String
  | .str s => s
  | .int n => ofChars (dumpsInt n)
  | .bool true => "True"
  | .bool false => "False"
  | _ => ""

def sortedTexts (l : List String) : List String :=
  l.insertionSort (· ≤ ·)

def validateAll (supplied : List (String × Value)) :
    List (String × ParameterSpec) → Except PyError (List (String × Value))
  | [] => .ok []
  | (name, spec) :: specs =>
    match supplied.lookup name with
    | none => .error .keyError
    | some value =>
      match spec.validate name value with
      | .error e => .error e
      | .ok value =>
        match validateAll supplied specs with
        | .error e => .error e
        | .ok values => .ok ((name, value) :: values)

namespace Runbook

variable (r : Runbook)

def validateParameters (supplied : Value) : Except PyError (List (String × Value)) :=
  match supplied with
  | .obj supplied =>
    let missing := (keys r.parameters).filter fun k => k ∉ keys supplied
    let unknown := (keys supplied).filter fun k => k ∉ keys r.parameters
    if missing ≠ [] ∨ unknown ≠ [] then
      .error (.broker "invalid_parameters" "parameter names do not match the runbook schema" 422
        [("missing", .arr ((sortedTexts missing).map .str)),
          ("unknown", .arr ((sortedTexts unknown).map .str))])
    else validateAll supplied r.parameters
  | _ => .error (.invalid "invalid_parameters" "parameters must be an object")

def parameter (parameters : List (String × Value)) (name : String) : Except PyError String :=
  match parameters.lookup name with
  | some v => .ok (parameterText v)
  | none => .error .keyError

/-- One argument of the template with its placeholder filled in. -/
def renderItem (parameters : List (String × Value)) (item : String) : Except PyError String :=
  match placeholder item with
  | some name => do
    let value ← parameter parameters name
    if (toChars value).head? = some '-' ∨ '\x00' ∈ toChars value ∨ '\n' ∈ toChars value ∨
        '\r' ∈ toChars value then
      .error (.invalid "invalid_parameters" "parameter is unsafe in argv")
    else .ok value
  | none => .ok item

def renderArgv (parameters : List (String × Value)) : Except PyError (Option (List String)) :=
  match r.argvTemplate with
  | none => .ok none
  | some argv => do
    let rendered ← argv.mapM (renderItem parameters)
    return some rendered

def renderPiece (parameters : List (String × Value)) : KeyPiece → Except PyError String
  | .literal s => .ok s
  | .field name => parameter parameters name

def budgetKey (parameters : List (String × Value)) : Except PyError (Option String) :=
  match r.budget with
  | none => .ok none
  | some b => do
    let rendered ← b.keyTemplate.mapM (renderPiece parameters)
    return some (r.id ++ ":" ++ String.join rendered)

end Runbook

structure RunbookRegistry where
  runbooks : List Runbook
  nodup : (runbooks.map Runbook.id).Nodup

def RunbookRegistry.get (r : RunbookRegistry) (runbookId : String) : Except PyError Runbook :=
  match r.runbooks.find? fun b => b.id = runbookId with
  | some b => .ok b
  | none => .error (.notFound "runbook")

theorem RunbookRegistry.get_ok {r : RunbookRegistry} {id : String} {b : Runbook}
    (h : r.get id = .ok b) : b ∈ r.runbooks ∧ b.id = id := by
  unfold get at h
  split at h
  · next b' hb =>
    obtain rfl := Except.ok.inj h
    exact ⟨List.mem_of_find?_eq_some hb, by simpa using List.find?_some hb⟩
  · cases h

end OpsControlPlane
