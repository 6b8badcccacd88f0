import OpsControlPlane.Recovery.Bundle

/-!
# Shipping and restoring a bundle

The copier packs the newest bundle with its report, `receive` publishes it at a destination, and
the restore drill reads the decrypted bundle. Each of the three has limits of its own.
-/

namespace OpsRecovery

open JsonText Text

variable {β τ : Type} [Medium β τ]

structure ShippingError where
  message : String
deriving DecidableEq

/-- `LIMIT`, also the limit of the copier. -/
def bundleLimit : ℕ := 256 * 1024 * 1024

def manifestLimit : ℕ := 16384

def quota : ℕ := 20 * 1024 * 1024 * 1024

/-! ## The copier -/

def isBundleName (name : String) : Bool :=
  (toChars ".tar.age").isSuffixOf (toChars name) &&
    isStamp ((toChars name).take ((toChars name).length - 8))

inductive Part (β τ : Type) where
  | bundle (content : β)
  | manifest (report : Report τ)

def Part.name : Part β τ → String
  | .bundle _ => "bundle.tar.age"
  | .manifest _ => "manifest.json"

def Part.size : Part β τ → ℕ
  | .bundle content => Medium.size τ content
  | .manifest report => report.text.length

/-- The copier packs the bundle of `latest.json` with the report. -/
def copyBundle (now : τ) (p : Published β τ) : Except ShippingError (List (Part β τ)) :=
  if !isBundleName p.report.bundle then .error ⟨"name"⟩
  else if !within (β := β) 30 now p.report.createdAt then .error ⟨"created_at"⟩
  else if Medium.size τ p.bundle = 0 ∨ bundleLimit < Medium.size τ p.bundle then .error ⟨"size"⟩
  else if Medium.sha256 τ p.bundle ≠ p.report.sha256 ∨ Medium.size τ p.bundle ≠ p.report.bytes then
    .error ⟨"digest"⟩
  else .ok [.bundle p.bundle, .manifest p.report]

/-! ## The destination -/

structure Copy (β τ : Type) where
  digest : String
  /-- The directory and the files are private and regular. -/
  safe : Bool
  bundle : β
  report : Report τ

/-- The destination. The space is what is free when the member of the name is received. -/
structure Destination (β τ : Type) where
  free : String → ℕ
  copies : List (Copy β τ)

structure Stage (β τ : Type) where
  bundle : Option β
  report : Option (Report τ)

/-- A member has its name once. -/
def Stage.has (st : Stage β τ) : Part β τ → Bool
  | .bundle _ => st.bundle.isSome
  | .manifest _ => st.report.isSome

def Stage.write (st : Stage β τ) : Part β τ → Stage β τ
  | .bundle content => { st with bundle := some content }
  | .manifest report => { st with report := some report }

/-- The largest size of the member. -/
def Part.maximum : Part β τ → ℕ
  | .bundle _ => bundleLimit
  | .manifest _ => manifestLimit

def receivePart (d : Destination β τ) (st : Stage β τ) (p : Part β τ) :
    Except ShippingError (Stage β τ) :=
  if st.has p ∨ p.size = 0 ∨ p.maximum < p.size then .error ⟨"Invalid archive member"⟩
  else if d.free p.name < p.size + 512 * 1024 * 1024 then
    .error ⟨"Insufficient destination space"⟩
  else .ok (st.write p)

def isDigest (s : String) : Bool :=
  (toChars s).length = 64 ∧ (toChars s).all fun c => c.isDigit || ('a' ≤ c ∧ c ≤ 'f')

def Copy.same (c : Copy β τ) (bundle : β) (report : Report τ) : Bool :=
  c.safe && Medium.size τ c.bundle = Medium.size τ bundle &&
    Medium.sha256 τ c.bundle = Medium.sha256 τ bundle && c.report.text = report.text

def receive (d : Destination β τ) (stream : List (Part β τ)) :
    Except ShippingError (Destination β τ) := do
  let st ← stream.foldlM (receivePart d) ⟨none, none⟩
  match st.bundle, st.report with
  | some bundle, some report =>
    if !isDigest report.sha256 then .error ⟨"Invalid digest"⟩
    else if !Medium.aged τ bundle then .error ⟨"Ciphertext required"⟩
    else if Medium.sha256 τ bundle ≠ report.sha256 ∨ Medium.size τ bundle ≠ report.bytes then
      .error ⟨"Bundle verification failed"⟩
    else
      match d.copies.find? fun c => c.digest = report.sha256 with
      | some c => if c.same bundle report then .ok d else .error ⟨"Conflicting existing copy"⟩
      | none =>
        if d.copies.any fun c => !c.safe then .error ⟨"Unsafe existing backup"⟩
        else if quota <
            (d.copies.map fun c => Medium.size τ c.bundle).sum + Medium.size τ bundle then
          .error ⟨"Daily recovery quota reached; no deletion performed"⟩
        else .ok { d with copies := d.copies ++ [⟨report.sha256, true, bundle, report⟩] }
  | _, _ => .error ⟨"Incomplete recovery bundle"⟩

/-! ## The restore drill -/

def expected : List String :=
  ["pwa/session.key", "pwa/webpush.pem", "pwa/sessions.sqlite3", "broker/state.db",
    "clients/cli-pilot.sqlite3", "clients/memory-sync.sqlite3", "clients/workflows.sqlite3",
    "memory/manifest.json", "memory/memory.sqlite3", "memory/qdrant.snapshot",
    "native/approvals.sqlite3", "native/manifest.json", "native/pilot.sqlite3",
    "openbao/manifest.json", "openbao/snapshot.age", "openbao/unseal-shares.age",
    "zulip/bundle.tar.age"]

/-- The text between the prefix and the suffix. -/
def between (first last s : List Char) : Option (List Char) :=
  if first.isPrefixOf s ∧ last.isSuffixOf s ∧ first.length + last.length ≤ s.length then
    some ((s.drop first.length).take (s.length - first.length - last.length))
  else none

def archiveStem (name : String) : Option (List Char) :=
  between (toChars "telemetry/") (toChars ".sqlite3.age") (toChars name)

def manifestStem (name : String) : Option (List Char) :=
  between (toChars "telemetry/") (toChars ".json") (toChars name)

def isTelemetry (name : String) : Bool :=
  (archiveStem name).any isStem || (manifestStem name).any isStem

/-- `name.removesuffix('.sqlite3.age') + '.json'`. -/
def manifestOf (name : String) : String :=
  ofChars ((toChars name).take ((toChars name).length - 12)) ++ ".json"

def isArchive (name : String) : Bool :=
  (toChars ".sqlite3.age").isSuffixOf (toChars name)

def extraOf (names : List String) : List String :=
  names.filter fun n => n ∉ expected

def bundleMembers (members : List (String × β)) : Except ShippingError (List String) :=
  let names := members.map Prod.fst
  if ¬names.Nodup ∨ 10000 < names.length then .error ⟨"Duplicate or excessive members"⟩
  else if expected.any (· ∉ names) ∨
      (extraOf names).any (fun n => n ≠ "telemetry/status.json" ∧ !isTelemetry n) then
    .error ⟨"Unexpected component scope"⟩
  else if (extraOf names).any fun n => isArchive n ∧ manifestOf n ∉ extraOf names then
    .error ⟨"Missing telemetry manifest"⟩
  else .ok names

/-- `extract`, with the bounds on the sizes. -/
def extract (τ : Type) [Medium β τ] (members : List (String × β)) :
    Except ShippingError (List (String × β)) :=
  if 2 * 1024 ^ 3 < (members.map fun m => Medium.size τ m.2).sum then .error ⟨"Oversized archive"⟩
  else if members.any fun m => 512 * 1024 ^ 2 < Medium.size τ m.2 then
    .error ⟨"Unsafe archive member"⟩
  else .ok members

/-- `Path(name).name` of a member of the telemetry. -/
def fileName (name : String) : String :=
  ofChars ((toChars name).drop (toChars "telemetry/").length)

def checkArchive (τ : Type) [Medium β τ] (parts : List (String × β)) (name : String) :
    Except ShippingError Unit :=
  match parts.lookup name, (parts.lookup (manifestOf name)).bind (Medium.entryOf (τ := τ)) with
  | some content, some entry =>
    if entry.file ≠ fileName name ∨ entry.sha256 ≠ Medium.sha256 τ content ∨
        entry.bytes ≠ Medium.size τ content then
      .error ⟨"Telemetry manifest mismatch"⟩
    else if !Medium.expands entry content then .error ⟨"Expanded telemetry digest differs"⟩
    else .ok ()
  | _, _ => .error ⟨"KeyError"⟩

/-- The stages of the restore drill up to the telemetry: the number of archives. -/
def drill (τ : Type) [Medium β τ] (bundle : β) : Except ShippingError ℕ := do
  match Medium.decrypt τ bundle with
  | none => .error ⟨"Recovery decryption failed"⟩
  | some members =>
    let names ← bundleMembers members
    let parts ← extract τ members
    let archives := inOrder ((extraOf names).filter isArchive |>.map fun n => (n, ()))
    archives.forM fun n => checkArchive τ parts n.1
    return archives.length

end OpsRecovery
