import OpsControlPlane.Lib.Segments

/-!
# Responses of providers

`_read_http_response` reads the status line and the headers of a response, and the body that they
frame: by its length, in chunks, or up to the end of the stream.

A text is the list of its Latin-1 bytes. The deadline of the connection is left out.
-/

namespace OpsDiscovery

open Segments

/-- `DiscoveryFailure`, and the `ValueError` of `int` on a text of too many digits. -/
inductive Failure where
  | discovery (code message : String)
  | valueError
deriving DecidableEq

def Failure.code : Failure → String
  | discovery code _ => code
  | valueError => "ValueError"

def invalidResponse (message : String) : Failure :=
  .discovery "invalid_response" message

def responseTooLarge : Failure :=
  .discovery "response_too_large" "provider response exceeds the byte limit"

def readerFaults : Faults Failure where
  long := invalidResponse "provider response line exceeds the byte limit"
  incomplete := invalidResponse "provider response line is incomplete"
  truncated := invalidResponse "provider response body is incomplete"
  tooLarge := responseTooLarge

def maxResponseHeaderBytes : ℕ :=
  64 * 1024

def maxChunkLineBytes : ℕ :=
  256

def maxTrailerBytes : ℕ :=
  16 * 1024

/-! ## Texts -/

def ascii (s : String) : Bytes :=
  s.toList.map fun c => UInt8.ofNat c.toNat

def isDigit (b : UInt8) : Bool :=
  48 ≤ b && b ≤ 57

def digitsValue (digits : Bytes) : ℕ :=
  digits.foldl (fun n b => 10 * n + (b.toNat - 48)) 0

def intOf (digits : Bytes) : Except Failure ℕ :=
  if 4300 < digits.length then .error .valueError else .ok (digitsValue digits)

/-- `re.fullmatch(r"HTTP/1\.[01] ([0-9]{3})(?: [\x20-\x7e]*)?", …)`, the number of the group. -/
def statusOf (line : Bytes) : Option ℕ :=
  if line.take 7 = ascii "HTTP/1." then
    match line.drop 7 with
    | version :: space :: a :: b :: c :: reason =>
      if (version = 48 ∨ version = 49) ∧ space = 32 ∧ isDigit a ∧ isDigit b ∧ isDigit c ∧
          (reason = [] ∨ reason.head? = some 32 ∧ reason.all fun d => 32 ≤ d && d ≤ 126) then
        some (digitsValue [a, b, c])
      else none
    | _ => none
  else none

/-- `str.isspace` of a Latin-1 character. -/
def isSpace (b : UInt8) : Bool :=
  (9 ≤ b && b ≤ 13) || (28 ≤ b && b ≤ 32) || b = 133 || b = 160

def strip (s : Bytes) : Bytes :=
  ((s.dropWhile isSpace).reverse.dropWhile isSpace).reverse

/-- `str.lower`, on Latin-1 characters. -/
def lower (s : Bytes) : Bytes :=
  s.map fun b => if (65 ≤ b && b ≤ 90) || (192 ≤ b && b ≤ 222 && b ≠ 215) then b + 32 else b

def isHeaderName (name : Bytes) : Bool :=
  1 ≤ name.length && name.length ≤ 64 && name.all fun b =>
    b ∈ ascii "!#$%&'*+.^_\x60|~-" || isDigit b || (65 ≤ b && b ≤ 90) || (97 ≤ b && b ≤ 122)

def malformed (line : Bytes) : Bool :=
  line.head? = some 32 || line.head? = some 9 || 58 ∉ line

def malformedHeaders : Failure :=
  invalidResponse "provider returned malformed HTTP headers"

/-- A header: its name in lower case, and its value. -/
abbrev Header : Type :=
  Bytes × Bytes

def headerOf (line : Bytes) : Except Failure Header :=
  if malformed line then .error malformedHeaders
  else
    let name := line.takeWhile (· ≠ 58)
    let value := strip ((line.dropWhile (· ≠ 58)).drop 1)
    if ¬isHeaderName name ∨ value.any (fun b => b < 32 && b ≠ 9) ∨ 127 ∈ value then
      .error malformedHeaders
    else .ok (lower name, value)

/-- `response_headers.get(name, [])`. -/
def values (headers : List Header) (name : Bytes) : List Bytes :=
  (headers.filter fun h => h.1 = name).map Prod.snd

/-! ## Framing -/

inductive Framing where
  | length (n : ℕ)
  | chunked
  | close
deriving DecidableEq

def parsedLength (maximum : ℕ) (headers : List Header) : Except Failure (Option ℕ) :=
  match values headers (ascii "content-length") with
  | [] => .ok none
  | first :: others =>
    if others.any (· ≠ first) ∨ first = [] ∨ ¬first.all isDigit then
      .error (invalidResponse "provider returned an invalid content length")
    else do
      let n ← intOf first
      if maximum < n then .error responseTooLarge else .ok (some n)

/-- `",".join(transfer_values).lower().replace(" ", "")`. -/
def transferOf (values : List Bytes) : Bytes :=
  (lower (List.intercalate [44] values)).filter (· ≠ 32)

def framingOf (maximum : ℕ) (headers : List Header) : Except Failure Framing := do
  let length ← parsedLength maximum headers
  match values headers (ascii "transfer-encoding"), length with
  | [], some n => .ok (.length n)
  | [], none => .ok .close
  | _ :: _, some _ => .error (invalidResponse "provider response framing is ambiguous")
  | transfer :: others, none =>
    if transferOf (transfer :: others) = ascii "chunked" then .ok .chunked
    else .error (invalidResponse "provider response transfer encoding is unsupported")

def checkStatus (status : ℕ) : Except Failure Unit :=
  if 300 ≤ status ∧ status < 400 then
    .error (.discovery "redirect_refused" "provider redirect was refused")
  else if status ≠ 200 then
    .error (.discovery "provider_http_error" "provider returned a non-success HTTP status")
  else .ok ()

def hexValue (b : UInt8) : Option ℕ :=
  if isDigit b then some (b.toNat - 48)
  else if 65 ≤ b && b ≤ 70 then some (b.toNat - 55)
  else if 97 ≤ b && b ≤ 102 then some (b.toNat - 87)
  else none

def chunkSize (line : Bytes) : Option ℕ :=
  let text := line.takeWhile (· ≠ 59)
  if 1 ≤ text.length ∧ text.length ≤ 16 ∧ text.all fun b => (hexValue b).isSome then
    some (text.foldl (fun n b => 16 * n + (hexValue b).getD 0) 0)
  else none

/-! ## Reading -/

abbrev Read (α : Type) : Type :=
  Reading Failure α

/-- The header lines up to the empty one. The first argument bounds the number of lines, each of
which counts two bytes of the limit at least. -/
def readHeaders : ℕ → ℕ → List Header → Read (List Header)
  | 0, _, _ => .fail (invalidResponse "provider response headers exceed the byte limit")
  | n + 1, headerBytes, headers => do
    let line ← .read (.line maxResponseHeaderBytes)
    if maxResponseHeaderBytes < headerBytes + (line.length + 2) then
      .fail (invalidResponse "provider response headers exceed the byte limit")
    else if line = [] then return headers
    else do
      let header ← .ofExcept (headerOf line)
      readHeaders n (headerBytes + (line.length + 2)) (headers ++ [header])

def readTrailers (body : Bytes) : ℕ → ℕ → Read Bytes
  | 0, _ => .fail (invalidResponse "provider response trailers exceed the byte limit")
  | n + 1, trailerBytes => do
    let trailer ← .read (.line maxTrailerBytes)
    if maxTrailerBytes < trailerBytes + (trailer.length + 2) then
      .fail (invalidResponse "provider response trailers exceed the byte limit")
    else if trailer = [] then return body
    else if malformed trailer then
      .fail (invalidResponse "provider response trailers are malformed")
    else readTrailers body n (trailerBytes + (trailer.length + 2))

/-- The chunks behind what there is of the body. The first argument bounds the number of chunks,
each of which has one byte at least. -/
def readChunks (maximum : ℕ) : ℕ → Bytes → Read Bytes
  | 0, _ => .fail responseTooLarge
  | n + 1, body => do
    let line ← .read (.line maxChunkLineBytes)
    match chunkSize line with
    | none => .fail (invalidResponse "provider returned invalid chunk framing")
    | some 0 => readTrailers body (maxTrailerBytes + 1) 0
    | some size =>
      if maximum < body.length + size then .fail responseTooLarge
      else do
        let data ← .read (.exact size)
        let ending ← .read (.exact 2)
        if ending ≠ [13, 10] then
          .fail (invalidResponse "provider returned invalid chunk framing")
        else readChunks maximum n (body ++ data)

def readChunkedBody (maximum : ℕ) : Read Bytes :=
  readChunks maximum (maximum + 1) []

def readBody (maximum : ℕ) : Framing → Read Bytes
  | .chunked => readChunkedBody maximum
  | .length n => .read (.exact n)
  | .close => .read (.toEof maximum)

structure Response where
  status : ℕ
  (contentType body : Bytes)
deriving DecidableEq

def readHttpResponse (maximum : ℕ) : Read Response := do
  let line ← .read (.line maxResponseHeaderBytes)
  match statusOf line with
  | none => .fail (invalidResponse "provider returned an invalid HTTP status")
  | some status => do
    let headers ← readHeaders (maxResponseHeaderBytes + 1) (line.length + 2) []
    .ofExcept (checkStatus status)
    let framing ← .ofExcept (framingOf maximum headers)
    let body ← readBody maximum framing
    return ⟨status, (values headers (ascii "content-type")).getLast?.getD [], body⟩

def receive (maximum : ℕ) (segments : List Bytes) : Except Failure Response :=
  (readHttpResponse maximum).run (ReaderOp.read readerFaults) ⟨[], segments⟩

end OpsDiscovery
