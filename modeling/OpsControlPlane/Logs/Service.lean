import OpsControlPlane.Lib.AsciiJson
import Mathlib.Data.Prod.Lex
import Mathlib.Data.List.Sort
import Mathlib.Data.String.Basic

/-!
# The archive of the logs

`handle` answers a query of the archive by pages of 300 entries, and `respond` writes the answer in
one line of at most one mebibyte. A client follows `next_cursor` while
entries are added.
-/

namespace OpsLogs

open JsonText

/-- Times: floating-point numbers, and how they compare to integers. -/
class LogTime (F : Type) extends LinearOrder F, FloatText F where
  notBefore : ℤ → F → Bool
  notAfter : ℤ → F → Bool

variable {F : Type} [LogTime F]

/-! ## The archive -/

structure Entry (F : Type) where
  (host id : String)
  t : F
  (source service level message : String)

/-- A row of `entry_scopes`. -/
structure Scope where
  (host id source service : String)
deriving DecidableEq

structure Archive (F : Type) where
  entries : List (Entry F)
  scopes : List Scope
  nodup : (entries.map fun e => (e.host, e.id)).Nodup

structure Query where
  host : String
  since : ℤ
  «until» : ℤ
  (source service : String)

def hosts : List String :=
  ["dell-control", "nas", "prod", "edge-vps", "gamebox"]

def Selects (archive : Archive F) (q : Query) (e : Entry F) : Prop :=
  e.host = q.host ∧ LogTime.notBefore q.since e.t = true ∧ LogTime.notAfter q.until e.t = true ∧
    (q.source ≠ "" → e.source = q.source) ∧
    (q.service ≠ "" → e.service = q.service ∨ ∃ s ∈ archive.scopes, s.host = e.host ∧
      s.id = e.id ∧ s.source = e.source ∧ s.service = q.service)

instance (archive : Archive F) (q : Query) (e : Entry F) : Decidable (Selects archive q e) := by
  unfold Selects
  infer_instance

/-- The time and the identifier of the last entry of a page. -/
abbrev Cursor (F : Type) : Type :=
  F × String

structure Page (F : Type) where
  records : List (Entry F)
  truncated : Bool
  nextCursor : Option (Cursor F)

def rows (archive : Archive F) (q : Query) (before : Option (Cursor F)) : List (Entry F) :=
  ((archive.entries.filter fun e => Selects archive q e ∧
    ∀ c ∈ before, e.t < c.1 ∨ e.t = c.1 ∧ e.id < c.2).insertionSort fun e e' =>
      e'.t < e.t ∨ e'.t = e.t ∧ e'.id ≤ e.id).take 301

def page (archive : Archive F) (q : Query) (before : Option (Cursor F)) : Page F :=
  let rows := rows archive q before
  { records := rows.take 300
    truncated := 300 < rows.length
    nextCursor := if 300 < rows.length then (rows[299]?).map fun e => (e.t, e.id) else none }

def handle (archive : Archive F) (q : Query) (before : Option (Cursor F)) :
    Except String (Page F) :=
  if q.host ∉ hosts then .error "Machine invalide"
  else if ¬(0 ≤ q.since ∧ q.since < q.until) then .error "Période invalide"
  else if ∃ c ∈ before, 128 < c.2.length then .error "Page invalide"
  -- an integer that the database cannot take
  else if 9223372036854775808 ≤ q.until then .error "Journaux indisponibles"
  else .ok (page archive q before)

/-! ## The answer -/

def Entry.json (e : Entry F) : Json F :=
  .obj [("id", .str e.id), ("t", .float e.t), ("source", .str e.source),
    ("service", .str e.service), ("level", .str e.level), ("message", .str e.message)]

def cursorJson : Option (Cursor F) → Json F
  | none => .null
  | some c => .arr [.float c.1, .str c.2]

def Page.json (p : Page F) (host : String) (checkedAt : F) : Json F :=
  .obj [("schema_version", .int 1), ("host", .str host),
    ("records", .arr (p.records.map Entry.json)), ("truncated", .bool p.truncated),
    ("next_cursor", cursorJson p.nextCursor), ("archived", .bool true), ("redacted", .bool true),
    ("checked_at", .float checkedAt)]

/-- The number of bytes of an answer. -/
def size (p : Page F) (host : String) (checkedAt : F) : ℕ :=
  (toAscii (dumps (p.json host checkedAt))).length

def limit : ℕ :=
  1024 * 1024

/-! ## A client -/

/-- What a client meets: the archive and the time at each of its requests, and how long the line is
in which it asks for a page. -/
structure Session (F : Type) where
  archive : ℕ → Archive F
  entries_subset : ∀ i, (archive i).entries ⊆ (archive (i + 1)).entries
  scopes_subset : ∀ i, (archive i).scopes ⊆ (archive (i + 1)).scopes
  checkedAt : ℕ → F
  line : Option (Cursor F) → ℕ

/-- `Handler.handle`. -/
def respond (s : Session F) (q : Query) (i : ℕ) (before : Option (Cursor F)) :
    Except String (Page F) :=
  if 4096 < s.line before then .error "Demande trop volumineuse"
  else do
    let page ← handle (s.archive i) q before
    if limit < size page q.host (s.checkedAt i) then .error "Resultat trop volumineux"
    else return page

/-- The client follows `next_cursor` for some pages. It tells whether it came to the last one. -/
def follow (s : Session F) (q : Query) :
    ℕ → ℕ → Option (Cursor F) → Except String (List (Entry F) × Bool)
  | 0, _, _ => .ok ([], false)
  | m + 1, i, before => do
    let page ← respond s q i before
    match page.nextCursor with
    | none => return (page.records, true)
    | some c => do
      let r ← follow s q m (i + 1) (some c)
      return (page.records ++ r.1, r.2)

end OpsLogs
