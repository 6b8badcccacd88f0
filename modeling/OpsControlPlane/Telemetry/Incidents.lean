import OpsControlPlane.Lib.SpacedJson
import Mathlib.Algebra.Order.Ring.Rat

/-!
# Incidents of the telemetry

`observe` reads the alerts of Prometheus and the file of the remote watch, and keeps the table of
incidents in step with both. A feed that cannot be read is reported as unavailable; the alerts of
the watch file are collected while it is read, and stay collected when the reading fails half-way.

A call that raises is rolled back, since the process ends with its transaction open. The values of
the JSON texts are those of the parser, whose objects have each key once.
-/

namespace OpsTelemetry

open JsonText Text

/-- The arithmetic of times on the floating-point numbers of the feeds. -/
class FloatClock (F : Type) where
  /-- `now - x < 1200`. -/
  recent : ℚ → F → Bool

variable {F : Type}

inductive Source where
  | prometheus
  | services
deriving DecidableEq

structure Alert (F : Type) where
  identity : String
  (host title severity : Json F)

structure Incident (F : Type) where
  id : ℕ
  source : Source
  identity : String
  (host title severity : Json F)
  (opened lastSeen : ℚ)
  resolved : Option ℚ

/-! ## Feeds -/

def field (k : String) : Json F → Option (Json F)
  | .obj kvs => kvs.lookup k
  | _ => none

def isText (t : String) : Json F → Bool
  | .str s => s = t
  | _ => false

/-- What a loop over the value goes through. -/
def iterate : Json F → Option (List (Json F))
  | .arr xs => some xs
  | .str s => some (s.toList.map fun c => .str (String.singleton c))
  | .obj kvs => some (kvs.map fun kv => .str kv.1)
  | _ => none

section prometheus

variable [FloatText F]

def prometheusAlert (a : Json F) : Option (Option (Alert F)) := do
  let state ← field "state" a
  if isText "firing" state then
    match ← field "labels" a with
    | .obj labels =>
      let instance_ := (labels.lookup "instance").getD (.str "local")
      return some {
        identity := ofChars (dumpsAscii (sortKeys (.obj labels)))
        host := (labels.lookup "host").getD instance_
        title := (labels.lookup "alertname").getD (.str "Alerte")
        severity := (labels.lookup "severity").getD (.str "warning") }
    | _ => none
  else return none

/-- The firing alerts of a reply, none if an exception is raised. -/
def prometheusFeed (v : Json F) : Option (List (Alert F)) := do
  let status ← field "status" v
  if isText "success" status then
    let data ← field "data" v
    let alerts ← field "alerts" data
    let entries ← iterate alerts
    let found ← entries.mapM prometheusAlert
    return found.reduceOption
  else none

end prometheus

def floatBound : ℕ :=
  2 ^ 1024 - 2 ^ 970

/-- `now - watch['checked_at'] < 1200`, false also if an exception is raised. -/
def recentWatch [FloatClock F] (now : ℚ) (watch : Json F) : Bool :=
  match field "checked_at" watch with
  | some (.int n) => n.natAbs < floatBound ∧ now - n < 1200
  | some (.bool b) => now - (if b then 1 else 0) < 1200
  | some (.float x) => FloatClock.recent now x
  | _ => false

/-- The alerts of the problems of a host up to one that is not a text, and whether there is none. -/
def issueAlerts (host : String) : List (Json F) → List (Alert F) × Bool
  | [] => ([], true)
  | .str issue :: issues =>
    let (alerts, whole) := issueAlerts host issues
    (⟨host ++ ":" ++ issue, .str host, .str issue, .str "warning"⟩ :: alerts, whole)
  | _ :: _ => ([], false)

def resourceAlerts (host : String) : Json F → List (Alert F) × Bool
  | .obj item =>
    match iterate ((item.lookup "problems").getD (.arr [])) with
    | some issues => issueAlerts host issues
    | none => ([], false)
  | _ => ([], false)

/-- The alerts of the resources up to one that raises an exception, and whether there is none. -/
def resourcesAlerts : List (String × Json F) → List (Alert F) × Bool
  | [] => ([], true)
  | (host, item) :: rest =>
    let (alerts, whole) := resourceAlerts host item
    if whole then
      let (others, whole') := resourcesAlerts rest
      (alerts ++ others, whole')
    else (alerts, false)

/-- `feeds['services']` after the watch file was read, and whether no exception was raised. -/
def servicesFeed [FloatClock F] (now : ℚ) (watch : Option (Json F)) :
    Option (List (Alert F)) × Bool :=
  match watch.filter (recentWatch now) with
  | none => (none, false)
  | some watch =>
    -- The feed is there from here on, empty at first.
    match field "resources" watch with
    | some (.obj items) => ((resourcesAlerts items).1, (resourcesAlerts items).2)
    | _ => (some [], false)

/-! ## The table -/

def Incident.isOpen (source : Source) (identity : String) (r : Incident F) : Bool :=
  r.source = source ∧ r.identity = identity ∧ r.resolved = none

/-- The value can be bound to a statement. -/
def bindable : Json F → Bool
  | .arr _ => false
  | .obj _ => false
  | .int n => -2 ^ 63 ≤ n ∧ n < 2 ^ 63
  | _ => true

def nextId (rows : List (Incident F)) : ℕ :=
  (rows.map Incident.id).foldr max 0 + 1

/-- The incident of an alert is seen again, or opened. None if an exception is raised. -/
def note (now : ℚ) (source : Source) (a : Alert F) (rows : List (Incident F)) :
    Option (List (Incident F)) :=
  match rows.find? (Incident.isOpen source a.identity) with
  | some row => some (rows.map fun r => if r.id = row.id then { r with lastSeen := now } else r)
  | none =>
    if bindable a.host ∧ bindable a.title ∧ bindable a.severity then
      some (rows ++ [⟨nextId rows, source, a.identity, a.host, a.title, a.severity, now,
        now, none⟩])
    else none

def resolveUnseen (now : ℚ) (source : Source) (seen : List String) (rows : List (Incident F)) :
    List (Incident F) :=
  rows.map fun r =>
    if r.source = source ∧ r.resolved = none ∧ r.identity ∉ seen then
      { r with resolved := some now }
    else r

def reconcile (now : ℚ) (source : Source) (alerts : List (Alert F)) (rows : List (Incident F)) :
    Option (List (Incident F)) :=
  (alerts.foldlM (fun rows a => note now source a rows) rows).map
    (resolveUnseen now source (alerts.map Alert.identity))

def reconcileFeed (now : ℚ) (source : Source) (feed : Option (List (Alert F)))
    (rows : List (Incident F)) : Option (List (Incident F)) :=
  match feed with
  | none => some rows
  | some alerts => reconcile now source alerts rows

/-- What `observe` returns: the sources that are reported as ok, what it says of the services, and
the newest incidents. -/
structure Report (F : Type) where
  ok : Source → Bool
  services : Option (Json F × Json F)
  (active history : List (Incident F))

/-- `ORDER BY opened DESC LIMIT 100`. -/
def newest (rows : List (Incident F)) : List (Incident F) :=
  (rows.mergeSort fun a b => b.opened ≤ a.opened).take 100

def watchSaid [FloatClock F] (now : ℚ) (watch : Option (Json F)) : Option (Json F × Json F) := do
  let watch ← watch.filter (recentWatch now)
  return (← field "checked_at" watch, ← field "resources" watch)

/-- `observe` on the reply of Prometheus and the watch file, none where there is no JSON text. None
if an exception is raised. -/
def observe [FloatText F] [FloatClock F] (now : ℚ) (reply watch : Option (Json F))
    (rows : List (Incident F)) : Option (Report F × List (Incident F)) := do
  let alerts := reply.bind prometheusFeed
  let (found, whole) := servicesFeed now watch
  let rows ← reconcileFeed now .prometheus alerts rows
  let rows ← reconcileFeed now .services found rows
  return (⟨fun source => match source with
      | .prometheus => alerts.isSome
      | .services => whole, watchSaid now watch, newest (rows.filter fun r => r.resolved.isNone),
    newest rows⟩, rows)

/-! ## What is claimed -/

def WholeResource (item : Json F) : Prop :=
  ∃ fields issues, item = .obj fields ∧
    iterate ((fields.lookup "problems").getD (.arr [])) = some issues ∧
      ∀ issue ∈ issues, ∃ text, issue = .str text

/-- A recent watch file is well formed to its end. -/
def WholeWatch [FloatClock F] (now : ℚ) (watch : Option (Json F)) : Prop :=
  ∀ w, watch = some w → recentWatch now w = true →
    ∃ items, field "resources" w = some (.obj items) ∧ ∀ kv ∈ items, WholeResource kv.2

def present [FloatText F] [FloatClock F] (now : ℚ) (reply watch : Option (Json F)) :
    Source → List String
  | .prometheus => ((reply.bind prometheusFeed).getD []).map Alert.identity
  | .services => ((servicesFeed now watch).1.getD []).map Alert.identity

def Opened (rows : List (Incident F)) (source : Source) (identity : String) : Prop :=
  ∃ r ∈ rows, r.isOpen source identity = true

def ofSource (rows : List (Incident F)) (source : Source) : List (Incident F) :=
  rows.filter fun r => r.source = source

/-- No two rows have one identifier, and no two open incidents have one identity. -/
structure Distinct (rows : List (Incident F)) : Prop where
  ids : (rows.map Incident.id).Nodup
  opened : ∀ source identity, rows.countP (Incident.isOpen source identity) ≤ 1

structure Mirrors [FloatText F] [FloatClock F] (now : ℚ) (reply watch : Option (Json F))
    (rows : List (Incident F)) (report : Report F) (rows' : List (Incident F)) : Prop where
  unavailable : ∀ source, report.ok source = false → ofSource rows' source = ofSource rows source
  ok : ∀ source, report.ok source = true → ∀ identity,
    Opened rows' source identity ↔ identity ∈ present now reply watch source
  distinct : Distinct rows'
  resolved : ∀ r ∈ rows, r.resolved ≠ none → r ∈ rows'

/-- The tables after calls on whole watch files. -/
inductive Observed [FloatText F] [FloatClock F] : List (Incident F) → Prop where
  | start : Observed []
  | observe {rows rows' : List (Incident F)} {report : Report F} {now : ℚ}
      {reply watch : Option (Json F)} (h : Observed rows) (hw : WholeWatch now watch)
      (ho : observe now reply watch rows = some (report, rows')) : Observed rows'

end OpsTelemetry
