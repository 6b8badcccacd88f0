import OpsControlPlane.Sync.Collector
import OpsControlPlane.Broker.Util
import OpsControlPlane.Lib.SpacedJson

/-!
# What is copied of an item

Three filters stand between a text of the broker and the memory: the broker redacts what it
stores (`redactText`), `payload` skips what looks like a secret (`suspect`), and the memory
refuses what looks like a secret (`checkForSecrets`), which `payload` asks as well. The patterns
of the three are not the same.
-/

namespace OpsSync

open Text JsonText Regex OpsControlPlane OpsMemory

variable [Platform]

/-! ## Patterns -/

def anyChar (c : Char) : Bool :=
  c ≠ '\n'

def suspect : Re :=
  Re.alts (wordI ['p', 'a', 's', 's', 'w', 'o', 'r'] 'd')
    [wordI ['p', 'a', 's', 's', 'w'] 'd',
      wordI ['m', 'o', 't', ' ', 'd', 'e', ' ', 'p', 'a', 's', 's'] 'e',
      Re.seqs [wordI ['a', 'p'] 'i', .opt anyChar] (wordI ['k', 'e'] 'y'),
      Re.seqs [wordI ['a', 'p'] 'i', .opt anyChar] (wordI ['t', 'o', 'k', 'e'] 'n'),
      .seq (wordI ['b', 'e', 'a', 'r', 'e'] 'r') (.chr isSpace),
      Re.seqs [wordI ['p', 'r', 'i', 'v', 'a', 't'] 'e', .chr anyChar] (wordI ['k', 'e'] 'y'),
      wordI ['a', 'g', 'e', '-', 's', 'e', 'c', 'r', 'e', 't', '-', 'k', 'e'] 'y',
      wordI ['-', '-', '-', '-', '-', 'b', 'e', 'g', 'i'] 'n',
      Re.seqs [.boundary isWord, wordI ['s', 'k'] '-']
        (.chr fun c => c.isAlphanum || foldsToLetter c),
      Re.seqs [.boundary isWord, wordI ['g'] 'h',
        .chr fun c => letter 'p' c || letter 'o' c || letter 'u' c || letter 's' c ||
          letter 'r' c] (.chr (· = '_'))]

def privateKey : Re :=
  wordI ['p', 'r', 'i', 'v', 'a', 't', 'e', ' ', 'k', 'e', 'y', '-', '-', '-', '-'] '-'

/-- `-----BEGIN (?:RSA |EC |OPENSSH )?PRIVATE KEY-----`. -/
def keyHeader : Re :=
  .seq (wordI ['-', '-', '-', '-', '-', 'b', 'e', 'g', 'i', 'n'] ' ')
    (Re.alts (.seq (wordI ['r', 's', 'a'] ' ') privateKey)
      [.seq (wordI ['e', 'c'] ' ') privateKey,
        .seq (wordI ['o', 'p', 'e', 'n', 's', 's', 'h'] ' ') privateKey, privateKey])

/-- `\b(?:password|passwd|secret|api[_-]?key|access[_-]?token)\s*[:=]\s*[^\s,;]{8,}`. -/
def assignedSecret : Re :=
  Re.seqs [.boundary isWord,
    Re.alts (wordI ['p', 'a', 's', 's', 'w', 'o', 'r'] 'd')
      [wordI ['p', 'a', 's', 's', 'w'] 'd', wordI ['s', 'e', 'c', 'r', 'e'] 't',
        Re.seqs [wordI ['a', 'p'] 'i', dash] (wordI ['k', 'e'] 'y'),
        Re.seqs [wordI ['a', 'c', 'c', 'e', 's'] 's', dash] (wordI ['t', 'o', 'k', 'e'] 'n')],
    .greedy isSpace 0, .chr fun c => c = ':' || c = '=', .greedy isSpace 0]
    (.greedy (fun c => !(isSpace c || c = ',' || c = ';')) 8)

/-- `Bearer`, blanks and at least 16 characters of a token. -/
def bearerSecret : Re :=
  Re.seqs [.boundary isWord, wordI ['b', 'e', 'a', 'r', 'e'] 'r', .greedy isSpace 1,
    .greedy (fun c => c.isAlphanum || foldsToLetter c || c = '.' || c = '_' || c = '~' ||
      c = '+' || c = '/' || c = '-') 16]
    (.greedy (· = '=') 0)

/-- `\b(?:sk|ghp|glpat)-[A-Za-z0-9_-]{16,}\b`. -/
def issuedToken : Re :=
  Re.seqs [.boundary isWord,
    Re.alts (wordI ['s'] 'k') [wordI ['g', 'h'] 'p', wordI ['g', 'l', 'p', 'a'] 't'],
    .chr (· = '-'),
    .greedy (fun c => c.isAlphanum || foldsToLetter c || c = '_' || c = '-') 16]
    (.boundary isWord)

def secretPatterns : List Re :=
  [keyHeader, assignedSecret, bearerSecret, issuedToken]

/-- `check_for_secrets`, of a text and of the JSON text of the metadata: no pattern is found. -/
def checkForSecrets (content metadata : List Char) : Bool :=
  !secretPatterns.any fun p => p.search none (content ++ '\n' :: metadata)

/-! ## Payloads -/

/-- What the broker answers about a record, an action or a mission. -/
abbrev Item : Type :=
  List (String × OpsControlPlane.Value)

inductive ItemType where
  | record
  | action
  | mission
deriving DecidableEq

def ItemType.name : ItemType → String
  | .record => "record"
  | .action => "action"
  | .mission => "mission"

def ItemType.fields : ItemType → List String
  | .record => ["id", "kind", "content", "evidence", "created_at"]
  | .action =>
    ["id", "runbook_id", "runbook_version", "action_class", "status", "created_at", "updated_at"]
  | .mission =>
    ["id", "status", "objective", "summary", "plan", "current_step", "remaining_steps",
      "next_action", "updated_at"]

/-- `{k: item[k] for k in fields if k in item}`. -/
def select (fields : List String) (item : Item) : Item :=
  fields.filterMap fun k => (item.lookup k).map fun v => (k, v)

def projectRoles : List (String × List String) :=
  [("infra-shared", ["hermes-coordinator", "infra-shared", "security-ops"]),
    ("minecraft", ["hermes-coordinator", "minecraft-ops"]),
    ("network-shared", ["hermes-coordinator", "network-shared"]),
    ("monitoring-shared", ["hermes-coordinator", "monitoring-shared"]),
    ("backup-shared", ["hermes-coordinator", "backup-shared"])]

def projects : List String :=
  projectRoles.map Prod.fst

inductive PayloadError where
  | unknownProject
  | mismatchedScope
  | secret
  /-- A `KeyError`, `TypeError`, `AttributeError` or `ValueError` about a field. -/
  | malformed
deriving DecidableEq

/-- `str(e).startswith('zulip-source:')`. Only a string starts so. -/
def isZulipSource : OpsControlPlane.Value → Bool
  | .str s => "zulip-source:".toList.isPrefixOf (toChars s)
  | _ => false

/-- `any(... for e in item.get('evidence', []))`. A number or a null is not iterable, and the
characters of a text are too short. -/
def zulipSourced (item : Item) : Except PayloadError Bool :=
  match item.lookup "evidence" with
  | none => .ok false
  | some (.arr xs) => .ok (xs.any isZulipSource)
  | some (.obj kvs) => .ok (kvs.any fun kv => isZulipSource (.str kv.1))
  | some (.str _) => .ok false
  | some _ => .error .malformed

def itemId (item : Item) : Except PayloadError String :=
  match item.lookup "id" with
  | some (.str s) =>
    match normalizedUuid s with
    | some id => .ok id
    | none => .error .malformed
  | _ => .error .malformed

def hasText (item : Item) (k t : String) : Bool :=
  match item.lookup k with
  | some (.str s) => s = t
  | _ => false

def inScope (project missionId : String) (item : Item) : ItemType → Bool
  | .mission => hasText item "id" missionId && hasText item "project_id" project
  | _ => true

def bodyOf (itemType : ItemType) (item : Item) : List Char :=
  dumpsSorted (.obj (select itemType.fields item))

/-- The text is too long or it looks like a secret: the item is skipped. -/
def tooSensitive (body : List Char) : Bool :=
  24000 < utf8Length body || suspect.search none body

/-- `payload`. An item that is skipped has none. -/
def payload (F : Type) [Host F] (project missionId : String) (item : Item) (itemType : ItemType) :
    Except PayloadError (Option Value) := do
  let some allowedRoles := projectRoles.lookup project | throw .unknownProject
  if !inScope project missionId item itemType then throw .mismatchedScope
  let sourced ← if itemType = .record then zulipSourced item else .ok false
  if sourced then return none
  else
    let body := bodyOf itemType item
    if tooSensitive body then return none
    else
      if !checkForSecrets body ['{', '}'] then throw .secret
      let id ← itemId item
      return some (valueOf F project allowedRoles ⟨missionId, itemType.name, id⟩ (ofChars body))

/-! ## The memory -/

def metadataOf (v : Value) : OpsControlPlane.Value :=
  .obj [("mission_id", .str v.source.missionId),
    ("tags", .arr [.str "historical", .str "automatic-capture"])]

/-- The text of a value in which the memory looks for secrets. -/
def scanned (v : Value) : List Char :=
  toChars (v.content ++ "\nagent-observation\n" ++ v.source.uri ++ "\n" ++ v.sourceRef ++
    "\nops-broker")

/-- The memory accepts the value: `ingest` looks for secrets in it. -/
def accepts (v : Value) : Bool :=
  checkForSecrets (scanned v) (dumpsSorted (metadataOf v))

end OpsSync
