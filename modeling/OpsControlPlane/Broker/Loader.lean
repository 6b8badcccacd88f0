import OpsControlPlane.Broker.Runbooks
import OpsControlPlane.Lib.Assoc
import OpsControlPlane.Lib.Calls

/-!
# The loader of runbooks

`ExecutablePolicy.load` and `_load_runbook` of `runbooks.py`, from the value that the YAML reader
has made of a file. Each part of a runbook is checked into a structure that carries what was
checked: the header, the parameters, the command and the budget.
-/

set_option linter.unusedSectionVars false

namespace OpsControlPlane

open Text JsonText Regex Calls

/-- A value of `yaml.safe_load`. A float stands for a number, unless it is infinite or not a
number. -/
inductive Yaml where
  | null
  | bool (b : Bool)
  | int (n : ℤ)
  | float (x : Option ℚ)
  | str (s : String)
  | seq (items : List Yaml)
  | map (items : List (Yaml × Yaml))
  | other

/-- A file that is refused: `RunbookValidationError`, with its message or with the keys that it
lists, a value of a type that cannot be looked up, or a key template that cannot be split or has
format options. -/
inductive LoadError where
  | validation (message : String)
  | unsupportedKeys (location : String) (extra : List Yaml)
  | typeError
  | format

namespace Yaml

def isText (key : String) : Yaml → Bool
  | str s => s = key
  | _ => false

def isOne : Yaml → Bool
  | int n => n = 1
  | bool b => b
  | float x => x = some 1
  | _ => false

def text : Yaml → Option String
  | str s => some s
  | _ => none

def texts : Yaml → Option (List String)
  | seq items => items.mapM text
  | _ => none

/-- The integer of a value that is no boolean, in its bounds. -/
def intIn (lo : ℤ) (hi : Option ℤ) : Yaml → Option ℤ
  | int n => if lo ≤ n ∧ ∀ h ∈ hi, n ≤ h then some n else none
  | _ => none

def get? (raw : List (Yaml × Yaml)) (key : String) : Option Yaml :=
  (raw.find? fun p => p.1.isText key).map Prod.snd

/-- `dict.get`, with `None` for a key that is missing. -/
def get (raw : List (Yaml × Yaml)) (key : String) : Yaml :=
  (get? raw key).getD null

def mapping (value : Yaml) (location : String) : Except LoadError (List (Yaml × Yaml)) :=
  match value with
  | map items => .ok items
  | _ => .error (.validation (location ++ " must be a mapping"))

def onlyKeys (raw : List (Yaml × Yaml)) (allowed : List String) (location : String) :
    Except LoadError Unit :=
  let extra := (raw.map Prod.fst).filter fun k => !allowed.any fun a => k.isText a
  if extra = [] then .ok () else .error (.unsupportedKeys location extra)

end Yaml

def given {α : Type} (value : Option α) (message : String) : Except LoadError α :=
  match value with
  | some a => .ok a
  | none => .error (.validation message)

def required (p : Prop) [Decidable p] (message : String) : Except LoadError (PLift p) :=
  if h : p then .ok ⟨h⟩ else .error (.validation message)

/-! ## Executables -/

def shellExecutables : List String :=
  ["/bin/bash", "/bin/dash", "/bin/sh", "/bin/zsh", "/usr/bin/bash", "/usr/bin/env",
    "/usr/bin/fish", "/usr/bin/sh", "/usr/bin/zsh"]

structure ExecutablePolicy where
  executables : List String
  sudoExecutable : Option String
  (sudoRequiredPrefix sudoHelpers : List String)

namespace ExecutablePolicy

/-- `sudo_executable`, unless it is empty. -/
def sudoPath (p : ExecutablePolicy) : Option String :=
  p.sudoExecutable.filter fun s => s ≠ ""

def validatePath (path : String) : Except LoadError Unit := do
  let _ ← required (isAbsolute path = true) ("allowlisted executable is not absolute: " ++ path)
  let _ ← required (path ∉ shellExecutables) ("shell executables cannot be allowlisted: " ++ path)

/-- `_validate_paths`. The source visits the paths in the order of a set. -/
def validatePaths (p : ExecutablePolicy) : Except LoadError Unit := do
  (p.executables ++ p.sudoHelpers ++ p.sudoPath.toList).forM validatePath
  let _ ← required (p.sudoPath.isSome → p.sudoRequiredPrefix = ["-n"])
    "V0 requires sudo's exact non-interactive -n prefix"

/-- The section `sudo` of the file. -/
def loadSudo (path : String) (executables : List String) (value : Yaml) :
    Except LoadError ExecutablePolicy :=
  match value with
  | .null => .ok ⟨executables, none, ["-n"], []⟩
  | value => do
    let raw ← value.mapping (path ++ ":sudo")
    Yaml.onlyKeys raw ["executable", "required_prefix", "allowed_helpers"] (path ++ ":sudo")
    let executable ← given (Yaml.get raw "executable").text
      (path ++ ": sudo.executable must be a string")
    let requiredPrefix ← given ((Yaml.get? raw "required_prefix").elim (some ["-n"]) Yaml.texts)
      (path ++ ": sudo.required_prefix must be a string list")
    let helpers ← given ((Yaml.get? raw "allowed_helpers").elim (some []) Yaml.texts)
      (path ++ ": sudo.allowed_helpers must be a string list")
    return ⟨executables, some executable, requiredPrefix, helpers⟩

def load (path : String) (value : Yaml) : Except LoadError ExecutablePolicy := do
  let raw ← value.mapping path
  Yaml.onlyKeys raw ["version", "executables", "sudo"] path
  let _ ← required ((Yaml.get raw "version").isOne = true) (path ++ " has an unsupported version")
  let executables ← given (Yaml.get raw "executables").texts
    (path ++ ": executables must be a string list")
  let policy ← loadSudo path executables (Yaml.get raw "sudo")
  policy.validatePaths
  return policy

def validateArgvTemplate (p : ExecutablePolicy) (executable : String) (rest : List String)
    (location : String) : Except LoadError Unit := do
  let _ ← required (executable ∉ shellExecutables) (location ++ ": shell execution is forbidden")
  if p.sudoPath = some executable then do
    let n := p.sudoRequiredPrefix.length
    let _ ← required (rest.take n = p.sudoRequiredPrefix)
      (location ++ ": sudo must use the required fixed prefix")
    let _ ← required (∃ helper ∈ rest[n]?, helper ∈ p.sudoHelpers)
      (location ++ ": sudo helper is not allowlisted")
  else do
    let _ ← required (executable ∈ p.executables)
      (location ++ ": executable is not allowlisted: " ++ executable)

end ExecutablePolicy

variable [Platform]

/-! ## Parameters -/

def loadBound (name location : String) : Yaml → Except LoadError (Option ℤ)
  | .null => .ok none
  | .int n => .ok (some n)
  | _ => .error (.validation (location ++ ": " ++ name ++ " must be an integer"))

def loadSpec (kind : String) (raw : List (Yaml × Yaml)) (location : String) :
    Except LoadError (Subtype ParameterSpec.Safe) := do
  if kind = "enum" then do
    let values ← given ((Yaml.get raw "values").texts.filter fun l => l ≠ [])
      (location ++ ": enum values must be a non-empty string list")
    let h ← required (∀ v ∈ values, isArgvEnumValue v = true)
      (location ++ ": enum contains an unsafe argv value")
    return ⟨.enum values, h.down⟩
  else if kind = "string" then do
    let maxLength ← given ((Yaml.get raw "max_length").intIn 1 (some 4096))
      (location ++ ": string max_length must be between 1 and 4096")
    return ⟨.string maxLength.toNat, trivial⟩
  else if kind = "integer" then do
    let minimum ← loadBound "minimum" location (Yaml.get raw "minimum")
    let maximum ← loadBound "maximum" location (Yaml.get raw "maximum")
    let _ ← required (∀ m ∈ minimum, ∀ n ∈ maximum, m ≤ n)
      (location ++ ": minimum exceeds maximum")
    return ⟨.integer minimum maximum, trivial⟩
  else if kind = "uuid" then return ⟨.uuid, trivial⟩
  else if kind = "boolean" then return ⟨.boolean, trivial⟩
  else .error (.validation (location ++ ": unsupported parameter type"))

/-- A parameter, with what `_parameter_spec` checks of it. -/
structure Parameter where
  name : String
  spec : ParameterSpec
  name_plain : containsSensitiveName name = false
  spec_safe : spec.Safe

/-- `_parameter_spec`. A type that is a list or a mapping cannot be looked up. -/
def parameterSpec (name : String) (value : Yaml) (location : String) :
    Except LoadError Parameter := do
  let hname ← required (containsSensitiveName name = false)
    (location ++ ": secret-like parameter names are forbidden")
  let raw ← value.mapping location
  Yaml.onlyKeys raw ["type", "values", "max_length", "minimum", "maximum"] location
  match Yaml.get raw "type" with
  | .str kind => do
    let spec ← loadSpec kind raw location
    return ⟨name, spec.1, hname.down, spec.2⟩
  | .seq _ => .error .typeError
  | .map _ => .error .typeError
  | _ => .error (.validation (location ++ ": unsupported parameter type"))

/-- The parameters whose names are texts. -/
def parameterSpecs (path : String) : List (Yaml × Yaml) → Except LoadError (List Parameter)
  | [] => .ok []
  | (.str name, value) :: rest => do
    let p ← parameterSpec name value (path ++ ":parameters." ++ name)
    let ps ← parameterSpecs path rest
    return p :: ps
  | _ :: rest => parameterSpecs path rest

structure Parameters where
  all : List Parameter
  nodup : (all.map Parameter.name).Nodup

def Parameters.specs (ps : Parameters) : List (String × ParameterSpec) :=
  ps.all.map fun p => (p.name, p.spec)

theorem Parameters.keys_specs (ps : Parameters) : keys ps.specs = ps.all.map Parameter.name := by
  simp [keys, specs, Function.comp_def]

def loadParameters (path : String) (raw : List (Yaml × Yaml)) : Except LoadError Parameters := do
  let items ← ((Yaml.get? raw "parameters").getD (.map [])).mapping (path ++ ":parameters")
  let all ← parameterSpecs path items
  let h ← required (all.length = items.length ∧ (all.map Parameter.name).Nodup)
    (path ++ ": parameter names must be strings")
  return ⟨all, h.down.2⟩

/-! ## The command -/

/-- An argument that is no control line of its own. -/
def isPlainItem (item : String) : Bool :=
  item ≠ "" && (toChars item).all fun c => c ≠ '\x00' && c ≠ '\n' && c ≠ '\r'

def hasBrace (item : String) : Bool :=
  (toChars item).any fun c => c = '{' || c = '}'

/-- An argument of a template: without braces, or a placeholder of a parameter that is no free
text. -/
structure ItemOk (specs : List (String × ParameterSpec)) (item : String) : Prop where
  plain : isPlainItem item = true
  known : hasBrace item = true → ∃ name ∈ placeholder item, ∃ spec ∈ specs.lookup name,
    spec.isString = false

def checkItem (path : String) (specs : List (String × ParameterSpec)) (index : ℕ) (item : String) :
    Except LoadError Unit := do
  let _ ← required (isPlainItem item = true) (path ++ ": argv[" ++ toString index ++ "] is unsafe")
  if hasBrace item then
    match (placeholder item).bind fun name => specs.lookup name with
    | none => .error (.validation (path ++ ": argv placeholders must occupy a full argument"))
    | some spec => do
      let _ ← required (spec.isString = false)
        (path ++ ": free text cannot be interpolated into argv")

def checkItems (path : String) (specs : List (String × ParameterSpec)) :
    ℕ → List String → Except LoadError Unit
  | _, [] => .ok ()
  | index, item :: rest => do
    checkItem path specs index item
    checkItems path specs (index + 1) rest

def attested : (r : Except LoadError Unit) → Except LoadError (PLift (r = .ok ()))
  | .ok () => .ok ⟨rfl⟩
  | .error e => .error e

variable {specs : List (String × ParameterSpec)} {path : String} {index : ℕ}

theorem checkItem_ok {item : String} (h : checkItem path specs index item = .ok ()) :
    ItemOk specs item := by
  obtain ⟨hplain, -, h⟩ := bind_eq_ok.1 h
  refine ⟨hplain.down, fun hbrace => ?_⟩
  rw [if_pos hbrace] at h
  split at h
  · cases h
  · next spec hspec =>
    obtain ⟨hfree, -, -⟩ := bind_eq_ok.1 h
    obtain ⟨name, hname, hlookup⟩ := Option.bind_eq_some_iff.1 hspec
    exact ⟨name, hname, spec, hlookup, hfree.down⟩

theorem checkItems_ok {items : List String} (h : checkItems path specs index items = .ok ()) :
    ∀ item ∈ items, ItemOk specs item := by
  induction items generalizing index with
  | nil => exact fun _ hno => absurd hno List.not_mem_nil
  | cons item rest ih =>
    obtain ⟨_, hitem, hrest⟩ := bind_eq_ok.1 h
    exact List.forall_mem_cons.2 ⟨checkItem_ok hitem, ih hrest⟩

/-- The policy allows the command: one of its executables, or one of its helpers through `sudo`. -/
def ExecutablePolicy.Allows (p : ExecutablePolicy) (executable : String) (rest : List String) :
    Prop :=
  executable ∉ shellExecutables ∧
    (p.sudoPath = some executable → rest.take p.sudoRequiredPrefix.length = p.sudoRequiredPrefix ∧
      ∃ helper ∈ rest[p.sudoRequiredPrefix.length]?, helper ∈ p.sudoHelpers) ∧
    (p.sudoPath ≠ some executable → executable ∈ p.executables)

variable {p policy : ExecutablePolicy}

theorem validateArgvTemplate_ok {executable : String} {rest : List String} {location : String}
    (h : p.validateArgvTemplate executable rest location = .ok ()) : p.Allows executable rest := by
  obtain ⟨hshell, -, h⟩ := bind_eq_ok.1 h
  refine ⟨hshell.down, fun hsudo => ?_, fun hsudo => ?_⟩
  · rw [if_pos hsudo] at h
    obtain ⟨hbegins, -, h⟩ := bind_eq_ok.1 h
    obtain ⟨hhelper, -, -⟩ := bind_eq_ok.1 h
    exact ⟨hbegins.down, hhelper.down⟩
  · rw [if_neg hsudo] at h
    obtain ⟨hmem, -, -⟩ := bind_eq_ok.1 h
    exact hmem.down

structure TemplateOk (policy : ExecutablePolicy) (specs : List (String × ParameterSpec))
    (template : List String) : Prop where
  items : ∀ item ∈ template, ItemOk specs item
  command : ∃ executable rest, template = executable :: rest ∧ isAbsolute executable = true ∧
    policy.Allows executable rest

structure Command (policy : ExecutablePolicy) (actionClass : ActionClass)
    (specs : List (String × ParameterSpec)) where
  argv : Option (List String)
  some_or_c : argv.isSome ∨ actionClass = .c
  checked : ∀ template ∈ argv, TemplateOk policy specs template

def loadCommand (policy : ExecutablePolicy) (path : String) (actionClass : ActionClass)
    (specs : List (String × ParameterSpec)) (value : Yaml) :
    Except LoadError (Command policy actionClass specs) :=
  match value with
  | .null => do
    let h ← required (actionClass = .c) (path ++ ": only class C may omit a command")
    return ⟨none, .inr h.down, by simp⟩
  | value => do
    let command ← value.mapping (path ++ ":command")
    Yaml.onlyKeys command ["argv"] (path ++ ":command")
    match (Yaml.get command "argv").texts with
    | some (executable :: rest) => do
      let hitems ← attested (checkItems path specs 0 (executable :: rest))
      let habsolute ← required (isAbsolute executable = true)
        (path ++ ": argv executable must be absolute")
      let hallows ← attested (policy.validateArgvTemplate executable rest path)
      return ⟨some (executable :: rest), .inl rfl, by
        rintro _ ⟨⟩
        exact ⟨checkItems_ok hitems.down, executable, rest, rfl, habsolute.down,
          validateArgvTemplate_ok hallows.down⟩⟩
    | _ => .error (.validation (path ++ ": command.argv must be a non-empty string list"))

/-! ## The budget -/

/-- The name of a field, up to its end, and the rest of the template: `parse_field` without format
options, which the loader refuses. A bracket hides the characters up to the closing one. -/
def fieldName : Bool → List Char → List Char → Option (List Char × List Char)
  | _, [], _ => none
  | true, c :: s, acc => fieldName (c ≠ ']') s (c :: acc)
  | false, '}' :: s, acc => some (acc.reverse, s)
  | false, ':' :: '}' :: s, acc => some (acc.reverse, s)
  | false, c :: s, acc =>
    if c = '{' ∨ c = ':' ∨ c = '!' then none else fieldName (c = '[') s (c :: acc)

/-- `string.Formatter().parse`, for so many pieces at most: literals, each with the field that
follows it. A doubled brace is a brace. -/
def parsePieces : ℕ → List Char → List Char → Option (List KeyPiece)
  | 0, _, _ => none
  | _ + 1, [], [] => some []
  | _ + 1, [], acc => some [.literal (ofChars acc.reverse)]
  | fuel + 1, c :: s, acc =>
    if c = '{' ∨ c = '}' then
      if s.head? = some c then
        (parsePieces fuel s.tail []).map (.literal (ofChars (c :: acc).reverse) :: ·)
      else if c = '}' then none
      else
        (fieldName false s []).bind fun r => (parsePieces fuel r.2 []).map fun pieces =>
          .literal (ofChars acc.reverse) :: .field (ofChars r.1) :: pieces
    else parsePieces fuel s (c :: acc)

def formatterParse (template : String) : Option (List KeyPiece) :=
  parsePieces ((toChars template).length + 1) (toChars template) []

structure Budget (actionClass : ActionClass) (specs : List (String × ParameterSpec)) where
  budget : Option BudgetSpec
  iff : budget.isSome ↔ actionClass = .b
  fields : ∀ b ∈ budget, ∀ name, .field name ∈ b.keyTemplate → name ∈ keys specs
  bounds : ∀ b ∈ budget, (1 ≤ b.maxAttempts ∧ b.maxAttempts ≤ 10) ∧
    1 ≤ b.windowSeconds ∧ b.windowSeconds ≤ 86400

def unknownField (specs : List (String × ParameterSpec)) : List KeyPiece → Option String
  | [] => none
  | .literal _ :: rest => unknownField specs rest
  | .field name :: rest => if name ∈ keys specs then unknownField specs rest else some name

theorem unknownField_none {pieces : List KeyPiece} (h : unknownField specs pieces = none) :
    ∀ name, .field name ∈ pieces → name ∈ keys specs := by
  induction pieces with
  | nil => exact fun _ hno => absurd hno List.not_mem_nil
  | cons piece rest ih =>
    cases piece with
    | literal s =>
      intro name hmem
      exact ih h name ((List.mem_cons.1 hmem).resolve_left KeyPiece.noConfusion)
    | field first =>
      rw [unknownField] at h
      split_ifs at h with hfirst
      intro name hmem
      rcases List.mem_cons.1 hmem with heq | hmem
      · exact KeyPiece.field.inj heq ▸ hfirst
      · exact ih h name hmem

def boundedInt (value : Yaml) (lo hi : ℕ) (message : String) :
    Except LoadError {n : ℕ // lo ≤ n ∧ n ≤ hi} := do
  let n ← given (value.intIn lo (some hi)) message
  let h ← required (lo ≤ n.toNat ∧ n.toNat ≤ hi) message
  return ⟨n.toNat, h.down⟩

def loadBudget (path : String) (actionClass : ActionClass) (specs : List (String × ParameterSpec))
    (value : Yaml) : Except LoadError (Budget actionClass specs) :=
  if hclass : actionClass = .b then do
    let raw ← value.mapping (path ++ ":budget")
    Yaml.onlyKeys raw ["key", "max_attempts", "window_seconds"] (path ++ ":budget")
    let template ← given ((Yaml.get raw "key").text.filter fun s => 1 ≤ s.length ∧ s.length ≤ 256)
      (path ++ ": invalid budget key")
    match formatterParse template with
    | none => .error .format
    | some pieces => do
      let hfields ← required (unknownField specs pieces = none)
        (path ++ ": unknown budget placeholder: " ++ (unknownField specs pieces).getD "")
      let attempts ← boundedInt (Yaml.get raw "max_attempts") 1 10
        (path ++ ": invalid max_attempts")
      let window ← boundedInt (Yaml.get raw "window_seconds") 1 86400
        (path ++ ": invalid window_seconds")
      return ⟨some ⟨pieces, attempts.1, window.1⟩, by simp [hclass],
        by rintro _ ⟨⟩; exact unknownField_none hfields.down,
        by rintro _ ⟨⟩; exact ⟨attempts.2, window.2⟩⟩
  else
    match value with
    | .null => .ok ⟨none, by simp [hclass], by simp, by simp⟩
    | _ => .error (.validation (path ++ ": budgets are only valid for class B"))

/-! ## The runbook -/

structure Header where
  (id project : String)
  version : ℕ
  actionClass : ActionClass
  description : String
  timeoutSeconds : ℕ
  id_shape : isRunbookId id = true
  project_shape : isProjectId project = true
  description_bounds : 1 ≤ description.length ∧ description.length ≤ 500

def actionClassOf : Yaml → Option ActionClass
  | .str "A" => some .a
  | .str "B" => some .b
  | .str "C" => some .c
  | _ => none

/-- The fields of a runbook outside its sections. -/
def loadHeader (path : String) (raw : List (Yaml × Yaml)) : Except LoadError Header := do
  let id ← given (Yaml.get raw "id").text (path ++ ": invalid id")
  let hid ← required (isRunbookId id = true) (path ++ ": invalid id")
  let project ← given (Yaml.get raw "project").text (path ++ ": invalid project")
  let hproject ← required (isProjectId project = true) (path ++ ": invalid project")
  let version ← given ((Yaml.get raw "version").intIn 1 none) (path ++ ": invalid version")
  let actionClass ← match Yaml.get raw "action_class" with
    | .seq _ => .error .typeError
    | .map _ => .error .typeError
    | value => given (actionClassOf value) (path ++ ": action_class must be A, B or C")
  let description ← given (Yaml.get raw "description").text
    (path ++ ": description must be bounded text")
  let hdescription ← required (1 ≤ description.length ∧ description.length ≤ 500)
    (path ++ ": description must be bounded text")
  let timeout ← boundedInt (Yaml.get raw "timeout_seconds") 1 300
    (path ++ ": timeout_seconds must be between 1 and 300")
  return ⟨id, project, version.toNat, actionClass, description, timeout.1, hid.down, hproject.down,
    hdescription.down⟩

def loadOutput (path : String) (value : Yaml) : Except LoadError ℕ := do
  let raw ← value.mapping (path ++ ":output")
  Yaml.onlyKeys raw ["max_bytes", "redact"] (path ++ ":output")
  let maxBytes ← boundedInt (Yaml.get raw "max_bytes") 1 65536
    (path ++ ": output.max_bytes must be between 1 and 65536")
  match Yaml.get raw "redact" with
  | .bool true => return maxBytes.1
  | _ => .error (.validation (path ++ ": output.redact must be true"))

theorem TemplateOk.placeholders {template : List String} (h : TemplateOk policy specs template) :
    ∀ item ∈ template, ∀ name ∈ placeholder item,
      ∃ spec ∈ specs.lookup name, spec.isString = false := by
  intro item hitem name hname
  have hbrace : hasBrace item = true := by
    unfold placeholder at hname
    split at hname
    · next s hs => simp [hasBrace, hs]
    · cases hname
  obtain ⟨name', hname', hspec⟩ := (h.items item hitem).known hbrace
  obtain rfl := Option.some.inj (hname.symm.trans hname')
  exact hspec

def Runbook.ofParts {policy : ExecutablePolicy} (header : Header) (parameters : Parameters)
    (command : Command policy header.actionClass parameters.specs)
    (budget : Budget header.actionClass parameters.specs) (maxBytes : ℕ) : Runbook where
  id := header.id
  version := header.version
  project := header.project
  actionClass := header.actionClass
  description := header.description
  timeoutSeconds := header.timeoutSeconds
  argvTemplate := command.argv
  parameters := parameters.specs
  budget := budget.budget
  outputMaxBytes := maxBytes
  id_shape := header.id_shape
  project_shape := header.project_shape
  description_bounds := header.description_bounds
  parameters_nodup := parameters.keys_specs ▸ parameters.nodup
  parameters_names := by
    rw [parameters.keys_specs]
    simp only [List.mem_map]
    rintro _ ⟨p, -, rfl⟩
    exact p.name_plain
  parameters_safe := by
    rintro _ hp
    obtain ⟨q, -, rfl⟩ := List.mem_map.1 hp
    exact q.spec_safe
  argv_or_c := command.some_or_c
  argv_absolute argv hargv := by
    obtain ⟨executable, rest, rfl, habsolute, -⟩ := (command.checked argv hargv).command
    exact ⟨executable, rest, rfl, habsolute⟩
  argv_placeholders argv hargv := (command.checked argv hargv).placeholders
  budget_iff := budget.iff
  budget_fields := budget.fields
  budget_bounds := budget.bounds

def loadRunbook (policy : ExecutablePolicy) (path : String) (value : Yaml) :
    Except LoadError Runbook := do
  let raw ← value.mapping path
  Yaml.onlyKeys raw ["id", "version", "project", "action_class", "description", "timeout_seconds",
    "budget", "command", "parameters", "output"] path
  let header ← loadHeader path raw
  let parameters ← loadParameters path raw
  let command ← loadCommand policy path header.actionClass parameters.specs (Yaml.get raw "command")
  let budget ← loadBudget path header.actionClass parameters.specs (Yaml.get raw "budget")
  let maxBytes ← loadOutput path (Yaml.get raw "output")
  return .ofParts header parameters command budget maxBytes

structure Runbook.Checked (policy : ExecutablePolicy) (r : Runbook) : Prop where
  parameters : ∀ p ∈ r.parameters, p.2.Safe
  template : ∀ template ∈ r.argvTemplate, TemplateOk policy r.parameters template

theorem loadRunbook_ok {value : Yaml} {r : Runbook} (h : loadRunbook policy path value = .ok r) :
    r.Checked policy := by
  obtain ⟨raw, -, h⟩ := bind_eq_ok.1 h
  obtain ⟨-, -, h⟩ := bind_eq_ok.1 h
  obtain ⟨header, -, h⟩ := bind_eq_ok.1 h
  obtain ⟨parameters, -, h⟩ := bind_eq_ok.1 h
  obtain ⟨command, -, h⟩ := bind_eq_ok.1 h
  obtain ⟨budget, -, h⟩ := bind_eq_ok.1 h
  obtain ⟨maxBytes, -, h⟩ := bind_eq_ok.1 h
  obtain rfl := Except.ok.inj h
  exact ⟨Runbook.parameters_safe _, command.checked⟩

/-- A policy that was loaded: the paths are absolute and no shells, and `sudo` takes one flag. -/
structure ExecutablePolicy.Checked (p : ExecutablePolicy) : Prop where
  executables : ∀ path ∈ p.executables, isAbsolute path = true ∧ path ∉ shellExecutables
  helpers : ∀ path ∈ p.sudoHelpers, isAbsolute path = true ∧ path ∉ shellExecutables
  sudo_absolute : ∀ path ∈ p.sudoPath, isAbsolute path = true ∧ path ∉ shellExecutables
  sudo_prefix : p.sudoPath.isSome → p.sudoRequiredPrefix = ["-n"]

theorem forM_ok {α : Type} {f : α → Except LoadError Unit} {l : List α}
    (h : l.forM f = .ok ()) : ∀ a ∈ l, f a = .ok () := by
  induction l with
  | nil => exact fun _ hno => absurd hno List.not_mem_nil
  | cons a l ih =>
    have hcons : (f a >>= fun _ => l.forM f) = .ok () := h
    obtain ⟨_, ha, hl⟩ := bind_eq_ok.1 hcons
    exact List.forall_mem_cons.2 ⟨ha, ih hl⟩

theorem validatePaths_ok (h : p.validatePaths = .ok ()) : p.Checked := by
  obtain ⟨_, hpaths, h⟩ := bind_eq_ok.1 h
  obtain ⟨hbegins, -, -⟩ := bind_eq_ok.1 h
  have hpath : ∀ path ∈ p.executables ++ p.sudoHelpers ++ p.sudoPath.toList,
      isAbsolute path = true ∧ path ∉ shellExecutables := by
    intro path hmem
    obtain ⟨habsolute, -, h⟩ := bind_eq_ok.1 (forM_ok hpaths path hmem)
    obtain ⟨hshell, -, -⟩ := bind_eq_ok.1 h
    exact ⟨habsolute.down, hshell.down⟩
  simp only [List.mem_append, Option.mem_toList] at hpath
  exact ⟨fun path hp => hpath path (.inl (.inl hp)), fun path hp => hpath path (.inl (.inr hp)),
    fun path hp => hpath path (.inr hp), hbegins.down⟩

theorem ExecutablePolicy.load_ok {value : Yaml} (h : load path value = .ok p) : p.Checked := by
  obtain ⟨raw, -, h⟩ := bind_eq_ok.1 h
  obtain ⟨-, -, h⟩ := bind_eq_ok.1 h
  obtain ⟨-, -, h⟩ := bind_eq_ok.1 h
  obtain ⟨executables, -, h⟩ := bind_eq_ok.1 h
  obtain ⟨policy, -, h⟩ := bind_eq_ok.1 h
  obtain ⟨_, hpaths, h⟩ := bind_eq_ok.1 h
  obtain rfl := Except.ok.inj h
  exact validatePaths_ok hpaths

end OpsControlPlane
