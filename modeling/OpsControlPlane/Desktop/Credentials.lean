import Mathlib.Data.List.DropRight
import Mathlib.Data.Nat.Notation
import Mathlib.Algebra.Group.Nat.Defs

/-!
# Credentials given to the key helper

The desktop application writes a password and an API key to the standard input of the helper, as
one frame (`security.rs`). The helper reads the frame as the pipe gives it, and decodes it
(`ops-model-key-manager`).
-/

namespace OpsKeys

/-- What passes through the pipe. -/
abbrev Bytes : Type :=
  List UInt8

def utf8 (value : String) : Bytes :=
  value.toList.flatMap String.utf8EncodeChar

/-- The text without the characters that satisfy the predicate at its ends. -/
def trimBy (p : Char → Bool) (value : String) : String :=
  String.ofList ((value.toList.dropWhile p).rdropWhile p)

/-- General category `Cc`. -/
def isControl (c : Char) : Bool :=
  c.toNat < 0x20 || 0x7f ≤ c.toNat && c.toNat < 0xa0

/-- The spaces of Unicode above the control characters. -/
def isHighSpace (c : Char) : Bool :=
  c.toNat = 0xa0 || c.toNat = 0x1680 || 0x2000 ≤ c.toNat && c.toNat ≤ 0x200a ||
    c.toNat = 0x2028 || c.toNat = 0x2029 || c.toNat = 0x202f || c.toNat = 0x205f ||
    c.toNat = 0x3000

/-! ## The application -/

structure CommandError where
  (code message : String)
deriving DecidableEq

def isWhitespace (c : Char) : Bool :=
  0x09 ≤ c.toNat && c.toNat ≤ 0x0d || c.toNat = 0x20 || c.toNat = 0x85 || isHighSpace c

def validOpenbaoPassword (value : String) : Bool :=
  14 ≤ value.length && value.length ≤ 100 && value = trimBy isWhitespace value &&
    !value.toList.any isControl

def validApiKey (value : String) : Bool :=
  8 ≤ (utf8 value).length && (utf8 value).length ≤ 4096 &&
    (utf8 value).all fun byte => 0x21 ≤ byte && byte ≤ 0x7e

def toBeBytes (n : ℕ) : Bytes :=
  [.ofNat (n / 2 ^ 24), .ofNat (n / 2 ^ 16), .ofNat (n / 2 ^ 8), .ofNat n]

def appendKeyFrame (output value : Bytes) : Except CommandError Bytes :=
  if value.length < 2 ^ 32 then .ok (output ++ toBeBytes value.length ++ value)
  else .error ⟨"credential_invalid",
    "Les identifiants saisis ne respectent pas les limites locales."⟩

/-- `STDIN_MAGIC`, `ATLASKEY1` and a line feed. -/
def stdinMagic : Bytes :=
  [65, 84, 76, 65, 83, 75, 69, 89, 49, 10]

def buildKeyFrame (openbaoPassword apiKey : String) : Except CommandError Bytes := do
  let frame ← appendKeyFrame stdinMagic (utf8 openbaoPassword)
  appendKeyFrame frame (utf8 apiKey)

/-! ## The pipe -/

/-- What the helper finds when it waits for the pipe. -/
inductive Arrival where
  | bytes (first : UInt8) (rest : Bytes)
  /-- Nothing before the deadline. -/
  | late
  /-- `select` or `read` raises. -/
  | failed

/-- What comes through the pipe, before its end. -/
abbrev Pipe : Type :=
  List Arrival

/-- The bytes that come through the pipe, when it is closed in time. -/
def Pipe.stream : Pipe → Option Bytes
  | [] => some []
  | .bytes first rest :: pipe => (Pipe.stream pipe).map (first :: rest ++ ·)
  | .late :: _ => none
  | .failed :: _ => none

/-- The standard input of the helper, as `fstat`, `fcntl` and `isatty` describe it. -/
structure Stdin where
  fifo : Bool
  (uid mode nlink : ℕ)
  (readOnly tty : Bool)
  pipe : Pipe

def piped (uid : ℕ) (pipe : Pipe) : Stdin :=
  ⟨true, uid, 0o600, 1, true, false, pipe⟩

/-! ## The helper -/

structure KeyManagerError where
  message : String
deriving DecidableEq

def maxPasswordBytes : ℕ :=
  400

def maxApiKeyBytes : ℕ :=
  4096

/-- `_validate_private_stdin_pipe`, in a process of the user. -/
def validatePrivateStdinPipe (uid : ℕ) (stdin : Stdin) : Except KeyManagerError Unit :=
  if stdin.fifo = false ∨ stdin.uid ≠ uid ∨ stdin.mode ≠ 0o600 ∨ stdin.nlink ≠ 1 ∨
      stdin.readOnly = false ∨ stdin.tty = true then
    .error ⟨"The Atlas credential input is not a private pipe."⟩
  else .ok ()

/-- The loop of `_read_stdin_exact`, with the number of bytes still missing: a read takes no more
than these of what has arrived. -/
def readMissing : ℕ → Pipe → Except KeyManagerError (Bytes × Pipe)
  | 0, pipe => .ok ([], pipe)
  | _ + 1, [] => .error ⟨"The Atlas credential frame is incomplete."⟩
  | _ + 1, .late :: _ => .error ⟨"The Atlas credential frame timed out."⟩
  | _ + 1, .failed :: _ => .error ⟨"The Atlas credential pipe failed."⟩
  | missing + 1, .bytes first rest :: pipe =>
    match rest.drop missing with
    | next :: later => .ok (first :: rest.take missing, .bytes next later :: pipe)
    | [] => do
      let (value, pipe) ← readMissing (missing - rest.length) pipe
      return (first :: rest ++ value, pipe)

def readStdinExact (size : ℕ) (pipe : Pipe) : Except KeyManagerError (Bytes × Pipe) :=
  if max maxPasswordBytes maxApiKeyBytes < size then
    .error ⟨"The Atlas credential frame is oversized."⟩
  else readMissing size pipe

/-- `int.from_bytes`, big-endian. -/
def fromBytes (encoded : Bytes) : ℕ :=
  encoded.foldl (fun n byte => n * 256 + byte.toNat) 0

def readStdinLength (maximum : ℕ) (pipe : Pipe) : Except KeyManagerError (ℕ × Pipe) := do
  let (encoded, pipe) ← readStdinExact 4 pipe
  let value := fromBytes encoded
  if value = 0 ∨ maximum < value then .error ⟨"The Atlas credential length is invalid."⟩
  else return (value, pipe)

/-- The end of `_read_stdin_credentials`. -/
def requireEnd : Pipe → Except KeyManagerError Unit
  | [] => .ok ()
  | .late :: _ => .error ⟨"Atlas did not close the credential pipe."⟩
  | .failed :: _ => .error ⟨"The Atlas credential pipe failed."⟩
  | .bytes _ _ :: _ => .error ⟨"The Atlas credential frame has trailing data."⟩

/-- The part of `_read_stdin_credentials` after the magic. -/
def readFields (pipe : Pipe) : Except KeyManagerError (Bytes × Bytes) := do
  let (passwordLength, pipe) ← readStdinLength maxPasswordBytes pipe
  let (password, pipe) ← readStdinExact passwordLength pipe
  let (apiKeyLength, pipe) ← readStdinLength maxApiKeyBytes pipe
  let (apiKey, pipe) ← readStdinExact apiKeyLength pipe
  requireEnd pipe
  return (password, apiKey)

/-- `_read_stdin_credentials`, in a process of the user. -/
def readStdinCredentials (uid : ℕ) (stdin : Stdin) : Except KeyManagerError (Bytes × Bytes) := do
  validatePrivateStdinPipe uid stdin
  let (magic, pipe) ← readStdinExact stdinMagic.length stdin.pipe
  if magic ≠ stdinMagic then .error ⟨"The Atlas credential framing is invalid."⟩
  else readFields pipe

/-- `bytes.decode("utf-8", errors="strict")`. -/
def decodeUtf8 (value : Bytes) : Option String :=
  value.toByteArray.utf8Decode?.map fun cs => String.ofList cs.toList

/-- `bytes.decode("ascii", errors="strict")`. -/
def decodeAscii (value : Bytes) : Option String :=
  if value.all fun byte => byte < 0x80 then
    some (String.ofList (value.map fun byte => Char.ofNat byte.toNat))
  else none

/-- `str.isspace` of one character. -/
def isspace (c : Char) : Bool :=
  0x09 ≤ c.toNat && c.toNat ≤ 0x0d || 0x1c ≤ c.toNat && c.toNat ≤ 0x20 || c.toNat = 0x85 ||
    isHighSpace c

def decodePassword (value : Bytes) : Except KeyManagerError String :=
  match decodeUtf8 value with
  | none => .error ⟨"The OpenBao password is invalid."⟩
  | some decoded =>
    if 14 ≤ decoded.length ∧ decoded.length ≤ 100 ∧ decoded = trimBy isspace decoded ∧
        decoded.toList.any isControl = false then
      .ok decoded
    else .error ⟨"The OpenBao password is invalid."⟩

def decodeApiKey (value : Bytes) : Except KeyManagerError String :=
  match decodeAscii value with
  | none => .error ⟨"The provider API key is invalid."⟩
  | some decoded =>
    if decoded.length < 8 ∨
        decoded.toList.any (fun c => c.toNat < 0x21 || 0x7e < c.toNat) = true then
      .error ⟨"The provider API key is invalid."⟩
    else .ok decoded

/-- `_rotate_from_stdin`, up to the rotation: the password and the key. -/
def credentialsFromStdin (uid : ℕ) (stdin : Stdin) : Except KeyManagerError (String × String) := do
  let (password, apiKey) ← readStdinCredentials uid stdin
  let decodedPassword ← decodePassword password
  let decodedKey ← decodeApiKey apiKey
  return (decodedPassword, decodedKey)

end OpsKeys
