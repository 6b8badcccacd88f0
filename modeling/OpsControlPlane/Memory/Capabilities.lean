import Mathlib.Data.List.Infix
import Mathlib.Data.String.Basic
import Mathlib.Data.Rat.Defs

/-!
# The memory capabilities

`desired` enables the two memory APIs of a configuration whose credentials are ready, and disables
those whose credentials are not. It decides by what `tomllib` reads and changes the text. A text
is the list of its lines.
-/

namespace OpsCapabilities

abbrev Line : Type :=
  List Char

abbrev Text : Type :=
  List Line

def line (s : String) : Line :=
  s.toList

/-! ## Configurations -/

inductive Value where
  | bool (b : Bool)
  | str (s : Line)
  | number (q : ℚ)
  /-- Dates, arrays and inline tables. -/
  | other (token : Line)
deriving DecidableEq

/-- A section: its name in the header and its keys. -/
structure Section where
  name : Line
  entries : List (Line × Value)
deriving DecidableEq

abbrev Config : Type :=
  List Section

inductive Item where
  | header (name : Line)
  | entry (key : Line) (value : Value)
  | blank
deriving DecidableEq

def Bare (c : Char) : Prop :=
  c.isAlphanum = true ∨ c = '_' ∨ c = '-'

instance (c : Char) : Decidable (Bare c) := by
  unfold Bare
  infer_instance

def Blank (c : Char) : Prop :=
  c = ' ' ∨ c = '\t'

instance (c : Char) : Decidable (Blank c) := by
  unfold Blank
  infer_instance

def Ends (l : Line) : Prop :=
  ((l.dropWhile fun c => Blank c).head?.all fun c => c == '#') = true

instance (l : Line) : Decidable (Ends l) := by
  unfold Ends
  infer_instance

def enabled : Line :=
  line "enabled"

def EnabledLine (l : Line) : Prop :=
  enabled <+: l ∧ ((l.drop enabled.length).dropWhile fun c => c.isWhitespace).head? = some '='

instance (l : Line) : Decidable (EnabledLine l) := by
  unfold EnabledLine
  infer_instance

/-- `'enabled = ' + str(ready).lower()`. -/
def enabledLine (ready : Bool) : Line :=
  line "enabled = " ++ if ready then line "true" else line "false"

/-- `tomllib` on a line that does not start with a bracket: a key with its value, or nothing. -/
class Tomllib where
  item : Line → Option Item
  not_header (l name : Line) : item l ≠ some (.header name)
  /-- `enabled` and an equals sign begin the line of this key. -/
  item_enabled {l : Line} {i : Item} (hl : EnabledLine l) (hi : item l = some i) :
    ∃ v, i = .entry enabled v
  item_enabledLine (ready : Bool) : item (enabledLine ready) = some (.entry enabled (.bool ready))

/-- The rest of a header line, after the bracket. -/
def readHeader (r : Line) : Option Item :=
  let name := r.takeWhile fun c => Bare c ∨ c = '.'
  match r.dropWhile fun c => Bare c ∨ c = '.' with
  | ']' :: rest => if name ≠ [] ∧ Ends rest then some (.header name) else none
  | _ => none

section read

variable [Tomllib]

def readLine (l : Line) : Option Item :=
  if l.head? = some '[' then readHeader l.tail else Tomllib.item l

/-- The keys before the first header, and the sections. -/
def loadsFrom : Text → Option (List (Line × Value) × Config)
  | [] => some ([], [])
  | l :: ls => (loadsFrom ls).bind fun r => (readLine l).bind fun item => match item with
    | .blank => some r
    | .entry k v => if k ∈ r.1.map Prod.fst then none else some ((k, v) :: r.1, r.2)
    | .header n =>
      if n ∈ r.2.map Section.name then none else some ([], ⟨n, r.1⟩ :: r.2)

/-- `tomllib.loads`, of a text that is made of sections. Each has a header at the start of a line,
and each of its keys has a line. -/
def loads (text : Text) : Option Config :=
  match loadsFrom text with
  | some ([], sections) => some sections
  | _ => none

end read

/-! ## Readiness -/

structure Credential where
  (isFile isSymlink : Bool)
  size : ℕ

inductive Managed where
  | none
  | all (ready : Bool)
  | providers (ready : Line → Bool)

structure Credentials where
  store : Line → Credential
  managed : Managed

inductive Preset where
  | embedding | reranker
deriving DecidableEq

def Preset.name : Preset → Line
  | .embedding => line "embedding"
  | .reranker => line "reranker"

def Preset.sectionName (p : Preset) : Line :=
  p.name ++ line ".api"

/-- `name + '-api-token'`. -/
def Preset.token (p : Preset) : Line :=
  p.name ++ line "-api-token"

def Preset.urls : Preset → List Line
  | .embedding => [line "https://api.jina.ai/v1/embeddings",
    line "https://api.siliconflow.com/v1/embeddings", line "https://api.voyageai.com/v1/embeddings"]
  | .reranker => [line "https://api.jina.ai/v1/rerank",
    line "https://api.siliconflow.com/v1/rerank", line "https://api.cohere.com/v2/rerank"]

def Managed.allows (m : Managed) (p : Preset) : Bool :=
  match m with
  | .none => true
  | .all ready => ready
  | .providers ready => ready p.name

def Credentials.ready (k : Credentials) (p : Preset) : Bool :=
  let credential := k.store p.token
  credential.isFile && !credential.isSymlink && decide (0 < credential.size) && k.managed.allows p

def get (key : Line) (entries : List (Line × Value)) : Option Value :=
  (entries.find? fun e => e.1 = key).map Prod.snd

def entriesOf (c : Config) (name : Line) : Option (List (Line × Value)) :=
  (c.find? fun s => s.name = name).map Section.entries

def api (c : Config) (p : Preset) : Option (List (Line × Value)) :=
  entriesOf c p.sectionName

def Owned (p : Preset) (entries : List (Line × Value)) : Prop :=
  (∃ url ∈ p.urls, get (line "url") entries = some (.str url)) ∧
    get (line "credential_credential") entries = some (.str p.token)

instance (p : Preset) (entries : List (Line × Value)) : Decidable (Owned p entries) := by
  unfold Owned
  infer_instance

/-- `ready == value`. A number may be equal to a Boolean. -/
def Value.Says (ready : Bool) : Value → Prop
  | .bool b => b = ready
  | .number q => q = if ready then 1 else 0
  | _ => False

instance (ready : Bool) (v : Value) : Decidable (v.Says ready) := by
  unfold Value.Says
  split <;> infer_instance

/-! ## The text -/

/-- `'[' + name + '.api]'`. -/
def Preset.marker (p : Preset) : Line :=
  '[' :: (p.sectionName ++ [']'])

/-- The lines up to the next one that starts with a bracket, those of `enabled` replaced. -/
def substitute (ready : Bool) : Text → Text
  | [] => []
  | l :: ls =>
    if l.head? = some '[' then l :: ls
    else (if EnabledLine l then enabledLine ready else l) :: substitute ready ls

/-- The block that begins at the first occurrence of the marker is replaced. The first part of it is
the rest of a line, which starts with the marker. -/
def rewrite (marker : Line) (ready : Bool) : Text → Text
  | [] => []
  | l :: ls => if marker <:+: l then l :: substitute ready ls else l :: rewrite marker ready ls

/-- The errors of `desired`. -/
inductive Failure where
  | keyError | valueError | tomlDecodeError
deriving DecidableEq

def Differs (k : Credentials) (p : Preset) (entries : List (Line × Value)) : Prop :=
  Owned p entries ∧ ¬∃ v ∈ get enabled entries, v.Says (k.ready p)

instance (k : Credentials) (p : Preset) (entries : List (Line × Value)) :
    Decidable (Differs k p entries) := by
  unfold Differs
  infer_instance

def reconcileOne (c : Config) (k : Credentials) (p : Preset) (r : Text × Bool) :
    Except Failure (Text × Bool) :=
  match api c p with
  | none => .error .keyError
  | some entries =>
    if Differs k p entries then
      if ∃ l ∈ r.1, p.marker <:+: l then .ok (rewrite p.marker (k.ready p) r.1, true)
      else .error .valueError
    else .ok r

def desired [Tomllib] (text : Text) (k : Credentials) : Except Failure (Text × Bool) :=
  match loads text with
  | none => .error .tomlDecodeError
  | some c => do
    let r ← reconcileOne c k .embedding (text, false)
    reconcileOne c k .reranker r

end OpsCapabilities
