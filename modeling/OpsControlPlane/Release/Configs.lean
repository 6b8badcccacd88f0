import Mathlib.Data.List.DropRight
import OpsControlPlane.Lib.Lines

/-!
# Configuration diffs

`configDiff` compares a configuration with a candidate for it, and shows what is left of both once
`redactConfig` has taken the secrets out.
-/

namespace OpsConfigs

open Lines

abbrev Text : Type :=
  List Char

def text (s : String) : Text :=
  s.toList

/-! ## Redaction -/

/-- A character in the sense of `(?i)`. -/
def foldCase (c : Char) : Char :=
  if c = 'ſ' then 's'
  else if c = Char.ofNat 0x212a then 'k'
  else if c = 'İ' ∨ c = 'ı' then 'i'
  else c.toLower

def secretNames : List Text :=
  [text "password", text "passwd", text "secret", text "token", text "privatekey",
    text "private_key", text "private key", text "private-key", text "apikey", text "api_key",
    text "api key", text "api-key", text "credential", text "authorization"]

def SecretName (key : Text) : Prop :=
  ∃ name ∈ secretNames, name <:+: key.map foldCase

instance (key : Text) : Decidable (SecretName key) := by
  unfold SecretName
  infer_instance

def Begins (l : Line) : Prop :=
  text "-----BEGIN" <:+: l ∧ text "PRIVATE KEY-----" <:+: l

instance (l : Line) : Decidable (Begins l) := by
  unfold Begins
  infer_instance

def Ends (l : Line) : Prop :=
  text "-----END" <:+: l ∧ text "PRIVATE KEY-----" <:+: l

instance (l : Line) : Decidable (Ends l) := by
  unfold Ends
  infer_instance

/-- `line.rstrip('\r\n')`. -/
def stripped (l : Line) : Line :=
  l.rdropWhile fun c => c = '\r' ∨ c = '\n'

/-- A character in front of the separator. -/
def InKey (c : Char) : Prop :=
  c ≠ '=' ∧ c ≠ ':'

instance (c : Char) : Decidable (InKey c) := by
  unfold InKey
  infer_instance

def keyOf (l : Line) : Text :=
  (stripped l).takeWhile fun c => InKey c

def separatorOf (l : Line) : Option Char :=
  ((stripped l).dropWhile fun c => InKey c).head?

def suffixOf (l : Line) : Text :=
  if l.getLast? = some '\n' then ['\n'] else []

/-- The text that is left, the number of redacted lines, and whether a private key has begun. -/
structure Redacted where
  text : Text
  count : ℕ
  insidePrivateKey : Bool
deriving DecidableEq

def redactLine (insidePrivateKey : Bool) (l : Line) : Redacted :=
  if Begins l then ⟨text "<private-key-redacted>\n", 1, true⟩
  else if insidePrivateKey then ⟨[], 1, !decide (Ends l)⟩
  else match separatorOf l with
    | some separator =>
      if SecretName (keyOf l) then
        ⟨keyOf l ++ separator :: (text " <redacted>" ++ suffixOf l), 1, false⟩
      else ⟨l, 0, false⟩
    | none => ⟨l, 0, false⟩

def Redacted.append (r s : Redacted) : Redacted :=
  ⟨r.text ++ s.text, r.count + s.count, s.insidePrivateKey⟩

def redactFrom (insidePrivateKey : Bool) : List Line → Redacted
  | [] => ⟨[], 0, insidePrivateKey⟩
  | l :: ls =>
    (redactLine insidePrivateKey l).append
      (redactFrom (redactLine insidePrivateKey l).insidePrivateKey ls)

def redactConfig (s : Text) : Text × ℕ :=
  ((redactFrom false (splitlines s)).text, (redactFrom false (splitlines s)).count)

/-! ## The comparison -/

inductive Validator where
  | text | json
deriving DecidableEq

/-- A target of the registry, in the fields that a comparison reads. -/
structure ConfigTarget where
  id : String
  enabled : Bool
  (project resourceId currentPath candidateRoot : String)
  validator : Validator
  maxBytes : ℕ

structure OpsError where
  (code message : String)
deriving DecidableEq

/-- A file of the host. Its content is the text in UTF-8, if it is one. -/
structure File where
  (isSymlink isFile : Bool)
  size : ℕ
  content : Option Text

/-- The files of the host, and `ensure_under`. -/
structure Host where
  file : String → File
  under (root path : String) : Except OpsError String

/-- `json`, `hashlib` and `difflib`. -/
class Library where
  jsonError : Text → Option ℕ
  sha256 : Text → String
  unifiedDiff (a b : List Line) (fromfile tofile : Text) (n : ℕ) : List Line

/-- `path.read_text`, which makes one line feed of each end of a line. -/
def universal : Text → Text
  | [] => []
  | '\r' :: '\n' :: cs => '\n' :: universal cs
  | '\r' :: cs => '\n' :: universal cs
  | c :: cs => c :: universal cs

def readConfig (h : Host) (path : String) (maximum : ℕ) : Except OpsError Text :=
  if (h.file path).isSymlink = true ∨ (h.file path).isFile = false then
    .error ⟨"file_missing", "configuration is not a regular non-symlink file: " ++ path⟩
  else if maximum < (h.file path).size then
    .error ⟨"file_too_large", "configuration exceeds " ++ toString maximum ++ " bytes"⟩
  else match (h.file path).content with
    | none => .error ⟨"invalid_config", "configuration must be UTF-8 text"⟩
    | some s => .ok (universal s)

structure ConfigDiff where
  (targetId resourceId project currentSha256 candidateSha256 : String)
  changed : Bool
  validator : String
  redactedLines : ℕ
  diff : Text

def byteSize (s : Text) : ℕ :=
  s.foldr (fun c size => c.utf8Size + size) 0

section library

variable [Library]

/-- What `difflib` says of the texts that are left. -/
def shownDiff (target : ConfigTarget) (current candidate : Text) : Text :=
  (Library.unifiedDiff (splitlines (redactConfig current).1)
    (splitlines (redactConfig candidate).1) (text (target.id ++ ":before"))
    (text (target.id ++ ":candidate")) 3).flatten

def validate (target : ConfigTarget) (candidate : Text) : Except OpsError String :=
  match target.validator with
  | .text => .ok "text-ok"
  | .json =>
    match Library.jsonError candidate with
    | some lineno => .error ⟨"validation_failed",
        "candidate JSON is invalid at line " ++ toString lineno⟩
    | none => .ok "json-ok"

/-- `config_diff`, once both texts are read. -/
def compareTexts (target : ConfigTarget) (current candidate : Text) :
    Except OpsError ConfigDiff := do
  let validation ← validate target candidate
  let diff := shownDiff target current candidate
  if 512 * 1024 < byteSize diff then
    throw ⟨"output_too_large", "configuration diff exceeded the bounded output size"⟩
  return {
    targetId := target.id
    resourceId := target.resourceId
    project := target.project
    currentSha256 := Library.sha256 current
    candidateSha256 := Library.sha256 candidate
    changed := decide (current ≠ candidate)
    validator := validation
    redactedLines := (redactConfig current).2 + (redactConfig candidate).2
    diff := diff }

def Identifier (s : String) : Prop :=
  let other (c : Char) : Bool := c.isAlphanum || c == '.' || c == '_' || c == '-'
  s.length ≤ 128 ∧ s.toList.head?.any Char.isAlphanum = true ∧ s.toList.all other = true

instance (s : String) : Decidable (Identifier s) :=
  inferInstanceAs (Decidable (s.length ≤ 128 ∧ _ = true ∧ _ = true))

def findTarget (targets : List ConfigTarget) (targetId : String) : Except OpsError ConfigTarget :=
  if ¬Identifier targetId then
    .error ⟨"invalid_identifier", "target_id is not a safe identifier"⟩
  else match targets.find? fun t => t.id = targetId with
  | none => .error ⟨"unknown_target", "configuration target is not registered"⟩
  | some target =>
    if target.enabled then .ok target
    else .error ⟨"target_disabled", "configuration target is disabled"⟩

def readTexts (h : Host) (target : ConfigTarget) (candidatePath : String) :
    Except OpsError (Text × Text) := do
  let candidate ← h.under target.candidateRoot candidatePath
  let current ← readConfig h target.currentPath target.maxBytes
  let candidate ← readConfig h candidate target.maxBytes
  return (current, candidate)

/-- `config_diff`, of the registry as it is loaded. -/
def configDiff (h : Host) (targets : List ConfigTarget) (targetId candidatePath : String) :
    Except OpsError ConfigDiff := do
  let target ← findTarget targets targetId
  let (current, candidate) ← readTexts h target candidatePath
  compareTexts target current candidate

end library

end OpsConfigs
