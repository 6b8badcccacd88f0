import OpsControlPlane.Lib.JsonText
import OpsControlPlane.Lib.Regex
import OpsControlPlane.Lib.Calendar

/-!
# Helpers shared by persistence and execution

What the broker takes from its host (`Platform`), the exceptions it raises, and the
helpers of `util.py`: canonical JSON, timestamps, the redaction of texts and the
scrubbing of payloads. UUIDs are read and printed as the standard library does.

`wf_scrubPayload` says that scrubbing keeps a payload well formed, so that its canonical
text reads back; `parseTimestamp_isoformat` that a printed timestamp parses.
-/

namespace OpsControlPlane

open Text JsonText Regex Calendar

/-- What the broker takes from its host. -/
class Platform where
  Flt : Type
  [text : FloatText Flt]
  [decEq : DecidableEq Flt]
  /-- `float` of an integer. None if the integer is too large. -/
  floatOfInt : ℤ → Option Flt
  inUnit : Flt → Bool
  /-- The hexadecimal SHA-256 digest of the UTF-8 bytes of a text. -/
  sha256 : String → String
  /-- `str.isalnum` of a character outside ASCII. -/
  isAlnum : Char → Bool
  /-- `unicodedata.category(c).startswith("C")`. -/
  isControl : Char → Bool
  /-- The value of a decimal digit outside ASCII. -/
  decimal : Char → Option ℕ
  /-- `datetime.fromisoformat(value.replace("Z", "+00:00")).astimezone(UTC)` of a text that
  is not in the form `isoformat` prints. -/
  fromIsoformat : String → Option DateTime

variable [Platform]

abbrev Flt : Type := Platform.Flt

instance : FloatText Flt := Platform.text

instance : DecidableEq Flt := Platform.decEq

abbrev Value : Type := Json Flt

/-! ## Exceptions -/

/-- What a call of the broker raises. -/
inductive PyError where
  /-- A `BrokerError`: code, message, HTTP status and details. -/
  | broker (code message : String) (status : ℕ) (details : List (String × Value))
  /-- `sqlite3.IntegrityError`. -/
  | integrity
  | typeError
  | valueError
  | keyError
  | overflow
  | assertion
  | runtime (message : String)

namespace PyError

def authorizationDenied (message : String) : PyError :=
  .broker "authorization_denied" message 403 []

def notFound (resource : String) : PyError :=
  .broker "not_found" (resource ++ " was not found") 404 []

def conflict (message : String) : PyError :=
  .broker "conflict" message 409 []

def approvalRequired (message : String) : PyError :=
  .broker "approval_required" message 409 []

def budgetExceeded (actionId : String) : PyError :=
  .broker "budget_exhausted" "the bounded-action budget is exhausted; escalation is required" 429
    [("action_id", .str actionId), ("decision", .str "escalate")]

/-- A `BrokerError` of status 422. -/
def invalid (code message : String) : PyError :=
  .broker code message 422 []

end PyError

/-! ## Characters -/

/-- `\s` of a Unicode pattern, and `str.isspace`. -/
def isSpace (c : Char) : Bool :=
  let n := c.toNat
  (9 ≤ n && n ≤ 13) || (28 ≤ n && n ≤ 32) || n = 133 || n = 160 || n = 5760 ||
    (8192 ≤ n && n ≤ 8202) || n = 8232 || n = 8233 || n = 8239 || n = 8287 || n = 12288

/-- `\w` of a Unicode pattern. -/
def isWord (c : Char) : Bool :=
  c.isAlphanum || c = '_' || (128 ≤ c.toNat && Platform.isAlnum c)

/-- A lower case ASCII letter under `re.IGNORECASE`: the letter in both cases, and the
characters outside ASCII that the engine folds to it. -/
def letter (l c : Char) : Bool :=
  c = l || c = l.toUpper || (l = 'i' && (c.toNat = 304 || c.toNat = 305)) ||
    (l = 's' && c.toNat = 383) || (l = 'k' && c.toNat = 8490)

/-- The characters outside ASCII that the engine folds to a letter of `A-Za-z`. -/
def foldsToLetter (c : Char) : Bool :=
  c.toNat = 304 || c.toNat = 305 || c.toNat = 383 || c.toNat = 8490

/-! ## Redaction -/

def chars (cs : List (Char → Bool)) (last : Re) : Re :=
  Re.seqs (cs.map Re.chr) last

/-- A word under `re.IGNORECASE`, in front of its last letter. -/
def wordI (cs : List Char) (last : Char) : Re :=
  chars (cs.map letter) (.chr (letter last))

def dash : Re :=
  .opt fun c => c = '_' || c = '-'

def sensitiveName : Re :=
  Re.alts (wordI ['p', 'a', 's', 's', 'w', 'o', 'r'] 'd')
    [wordI ['p', 'a', 's', 's', 'w'] 'd', wordI ['p', 'w'] 'd', wordI ['t', 'o', 'k', 'e'] 'n',
      wordI ['s', 'e', 'c', 'r', 'e'] 't',
      wordI ['c', 'r', 'e', 'd', 'e', 'n', 't', 'i', 'a'] 'l',
      wordI ['a', 'u', 't', 'h', 'o', 'r', 'i', 'z', 'a', 't', 'i', 'o'] 'n',
      Re.seqs [wordI ['a', 'p'] 'i', dash] (wordI ['k', 'e'] 'y'),
      Re.seqs [wordI ['p', 'r', 'i', 'v', 'a', 't'] 'e', dash] (wordI ['k', 'e'] 'y')]

/-- `_SENSITIVE_KEY.search`, also `contains_sensitive_name`. -/
def containsSensitiveName (value : String) : Bool :=
  sensitiveName.search none (toChars value)

def assignment : Re :=
  Re.seqs [.boundary isWord, .group 1 sensitiveName,
    .group 2 (Re.seqs [.greedy isSpace 0, .chr fun c => c = ':' || c = '=']
      (.greedy isSpace 0))]
    (.group 3 (.greedy (fun c => !(isSpace c || c = ',' || c = ';')) 1))

def bearer : Re :=
  Re.seqs [.boundary isWord, wordI ['b', 'e', 'a', 'r', 'e'] 'r', .greedy isSpace 1]
    (.greedy (fun c => c.isAlphanum || foldsToLetter c || c = '.' || c = '_' || c = '~' ||
      c = '+' || c = '/' || c = '-') 8)

/-- `[A-Za-z0-9_-]{8,}`. -/
def jwtPart : Re :=
  .greedy (fun c => c.isAlphanum || c = '_' || c = '-') 8

def jwt : Re :=
  Re.seqs [.boundary isWord, chars [(· = 'e'), (· = 'y')] (.chr (· = 'J')), jwtPart,
    .chr (· = '.'), jwtPart, .chr (· = '.'), jwtPart] (.boundary isWord)

/-- The characters of a text, each as its class. -/
def literally (cs : List Char) (last : Re) : Re :=
  chars (cs.map fun c d => d = c) last

/-- ` [^-]*PRIVATE KEY-----` behind the given word. -/
def pemLine (word : List Char) : Re :=
  literally (['-', '-', '-', '-', '-'] ++ word ++ [' ']) (.seq (.greedy (fun c => c ≠ '-') 0)
    (literally ['P', 'R', 'I', 'V', 'A', 'T', 'E', ' ', 'K', 'E', 'Y', '-', '-', '-', '-']
      (.chr (· = '-'))))

def pem : Re :=
  Re.seqs [pemLine ['B', 'E', 'G', 'I', 'N'], .lazy fun _ => true] (pemLine ['E', 'N', 'D'])

/-- `redact_text`, on the characters of a text. -/
def redactChars (value : List Char) : List Char :=
  let value := pem.sub (fun _ => toChars "[PRIVATE_KEY_REDACTED]") value
  let value := bearer.sub (fun _ => toChars "Bearer [REDACTED]") value
  let value := jwt.sub (fun _ => toChars "[JWT_REDACTED]") value
  assignment.sub (fun m => m.group 1 ++ m.group 2 ++ toChars "[REDACTED]") value

def redactText (value : String) : String :=
  ofChars (redactChars (toChars value))

mutual
/-- `scrub_payload`: no value under a secret-like key, and no secret in a text. -/
def scrubPayload : Value → Value
  | .obj kvs => .obj (scrubPairs kvs)
  | .arr xs => .arr (scrubElems xs)
  | .str s => .str (redactText s)
  | .null => .null
  | .bool b => .bool b
  | .int n => .int n
  | .float x => .float x

/-- `scrub_payload` of the items of a list. -/
def scrubElems : List Value → List Value
  | [] => []
  | x :: xs => scrubPayload x :: scrubElems xs

/-- `scrub_payload` of the items of a dict. -/
def scrubPairs : List (String × Value) → List (String × Value)
  | [] => []
  | (k, v) :: kvs =>
    (k, if containsSensitiveName k then .str "[REDACTED]" else scrubPayload v) :: scrubPairs kvs
end

theorem keys_scrubPairs (kvs : List (String × Value)) : keys (scrubPairs kvs) = keys kvs := by
  induction kvs with
  | nil => rfl
  | cons kv kvs ih => exact congrArg (kv.1 :: ·) ih

mutual
/-- A scrubbed payload is well formed. -/
theorem wf_scrubPayload (v : Value) (hv : Wf v) : Wf (scrubPayload v) := by
  match v, hv with
  | .null, _ => trivial
  | .bool _, _ => trivial
  | .int _, _ => trivial
  | .float _, _ => trivial
  | .str _, _ => trivial
  | .arr xs, hv => exact wf_scrubElems xs hv
  | .obj kvs, hv =>
    refine ⟨?_, wf_scrubPairs kvs hv.2⟩
    rw [keys_scrubPairs]
    exact hv.1

theorem wf_scrubElems (xs : List Value) (hv : WfElems xs) : WfElems (scrubElems xs) := by
  match xs, hv with
  | [], _ => trivial
  | x :: xs, hv => exact ⟨wf_scrubPayload x hv.1, wf_scrubElems xs hv.2⟩

theorem wf_scrubPairs (kvs : List (String × Value)) (hv : WfPairs kvs) :
    WfPairs (scrubPairs kvs) := by
  match kvs, hv with
  | [], _ => trivial
  | (k, v) :: kvs, hv =>
    refine ⟨?_, wf_scrubPairs kvs hv.2⟩
    split_ifs
    · trivial
    · exact wf_scrubPayload v hv.1
end

def canonicalJson (value : Value) : String :=
  canonical value

/-- The number of UTF-8 bytes of a text. -/
def utf8Length (s : List Char) : ℕ :=
  Re.weight Char.utf8Size s

/-- `text.encode()[:n].decode(errors="ignore")`: the characters that fit into `n` bytes. -/
def utf8Take : ℕ → List Char → List Char
  | _, [] => []
  | n, c :: s => if c.utf8Size ≤ n then c :: utf8Take (n - c.utf8Size) s else []

def clip (n : ℕ) (s : String) : String :=
  ofChars ((toChars s).take n)

/-! ## Timestamps -/

/-- `parse_timestamp`. None where it raises `ValueError` or `OverflowError`. -/
def parseTimestamp (value : String) : Option DateTime :=
  match readIso value with
  | some t => some t
  | none => Platform.fromIsoformat value

@[simp] theorem parseTimestamp_isoformat (t : DateTime) :
    parseTimestamp (isoformat t) = some t := by
  rw [parseTimestamp, readIso_isoformat]

/-! ## UUIDs -/

/-- The last `w` hexadecimal digits of a number. -/
def hexDigits : ℕ → ℕ → List Char
  | 0, _ => []
  | w + 1, n => hexDigits w (n / 16) ++ [hexDigit (n % 16)]

/-- `str(uuid.UUID(int=n))`. -/
def uuidText (n : ℕ) : List Char :=
  let h := hexDigits 32 n
  h.take 8 ++ '-' :: (h.drop 8).take 4 ++ '-' :: (h.drop 12).take 4 ++ '-' ::
    (h.drop 16).take 4 ++ '-' :: h.drop 20

/-- The integer of a UUID of version 4 that has the other bits of `n`. -/
def version4 (n : ℕ) : ℕ :=
  n / 2 ^ 80 % 2 ^ 48 * 2 ^ 80 + 4 * 2 ^ 76 + n / 2 ^ 64 % 2 ^ 12 * 2 ^ 64 + 2 * 2 ^ 62 +
    n % 2 ^ 62

/-- `str(uuid.uuid4())`, the random bits being `n`. -/
def uuid4 (n : ℕ) : String :=
  ofChars (uuidText (version4 n))

/-- The value of a digit of `int(text, 16)`. -/
def hexDigitValue (c : Char) : Option ℕ :=
  if c.toNat < 128 then hexVal c else Platform.decimal c

/-- Digits with single underscores between them, behind the digits of `acc`. -/
def readHex : Option ℕ → List Char → Option ℕ
  | acc, [] => acc
  | acc, c :: s =>
    if c = '_' then
      match acc, s with
      | some a, d :: s' => (hexDigitValue d).bind fun v => readHex (some (16 * a + v)) s'
      | _, _ => none
    else (hexDigitValue c).bind fun v => readHex (some (16 * acc.getD 0 + v)) s

/-- `int(text, 16)` of a text without a minus sign. -/
def intBase16 (s : List Char) : Option ℕ :=
  let s := ((s.dropWhile isSpace).reverse.dropWhile isSpace).reverse
  let s' := match s with
    | '+' :: s => s
    | s => s
  match s' with
  | '0' :: x :: s'' =>
    if x = 'x' || x = 'X' then
      match s'' with
      | '_' :: s'' => readHex none s''
      | s'' => readHex none s''
    else readHex none s'
  | _ => readHex none s'

/-- The text without the occurrences of a word, the last letter of the word apart. -/
def without (word : List Char) (last : Char) (s : List Char) : List Char :=
  (literally word (.chr (· = last))).sub (fun _ => []) s

def stripBraces (s : List Char) : List Char :=
  let brace := fun c : Char => c = '{' || c = '}'
  ((s.dropWhile brace).reverse.dropWhile brace).reverse

/-- `uuid.UUID(text)`, its integer. None where it raises `ValueError`. -/
def uuidOf (s : String) : Option ℕ :=
  let hex := (stripBraces (without ['u', 'u', 'i', 'd'] ':' (without ['u', 'r', 'n'] ':'
    (toChars s)))).filter fun c => c ≠ '-'
  if hex.length = 32 then (intBase16 hex).filter fun n => n < 2 ^ 128 else none

def normalizedUuid (s : String) : Option String :=
  (uuidOf s).map fun n => ofChars (uuidText n)

/-- `str(uuid.UUID(text, version=4))`. -/
def normalizedUuid4 (s : String) : Option String :=
  (uuidOf s).map fun n => ofChars (uuidText (version4 n))

/-! ## Checks of arguments -/

/-- `[A-Za-z0-9]`. -/
def asciiAlnum (c : Char) : Bool :=
  c.isAlphanum

def lowerAlnum (c : Char) : Bool :=
  c.isLower || c.isDigit

def isActorId (s : String) : Bool :=
  leads asciiAlnum (fun c => asciiAlnum c || c = ':' || c = '.' || c = '_' || c = '-') 0 127
    (toChars s)

def isProjectId (s : String) : Bool :=
  leads lowerAlnum (fun c => lowerAlnum c || c = '-') 1 63 (toChars s)

def validateActor (actorId : String) : Except PyError Unit :=
  if isActorId actorId then .ok () else .error (.authorizationDenied "actor id is malformed")

def validateRequestId (requestId : String) : Except PyError String :=
  match normalizedUuid requestId with
  | some id => .ok id
  | none => .error (.invalid "invalid_request_id" "request_id must be a UUID")

def boundedText (value name : String) (minimum maximum : ℕ) : Except PyError String :=
  if minimum ≤ value.length ∧ value.length ≤ maximum ∧ '\x00' ∉ toChars value then
    .ok (redactText value)
  else .error (.invalid "invalid_request" (name ++ " must be bounded text"))

end OpsControlPlane
