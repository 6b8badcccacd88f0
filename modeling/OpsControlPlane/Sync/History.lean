import OpsControlPlane.Sync.Payload
import OpsControlPlane.Lib.Paging

/-!
# The synchronisation

One call of `sync` reads the history of each project page by page, discovers the missions, and
reads the state and the actions of each. The broker and the memory service answer every call;
an item that is refused by `payload` or by the memory is a failure of its page.
-/

namespace OpsSync

open Calls Transaction OpsMemory OpsControlPlane Paging

variable [Platform]

/-! ## The broker -/

/-- A mission, with what the broker answers about its state and its actions, the newest first. -/
structure Mission where
  rowid : ℕ
  (id project : String)
  state : Item
  actions : List Item

structure Record where
  rowid : ℕ
  missionId : String
  fields : Item

/-- The missions and the records that the broker keeps. The rows have numbers that grow, and no
two of them have one identifier. -/
structure History where
  missions : List Mission
  records : List Record
  missions_sorted : missions.Pairwise fun a b => a.rowid < b.rowid
  missions_positive : ∀ m ∈ missions, 0 < m.rowid
  missions_ids : (missions.map Mission.id).Nodup
  records_sorted : records.Pairwise fun a b => a.rowid < b.rowid
  records_positive : ∀ r ∈ records, 0 < r.rowid
  records_ids : (records.map fun r => itemId r.fields).Nodup
  records_missions : ∀ r ∈ records, r.missionId ∈ missions.map Mission.id
  actions_ids : ∀ m ∈ missions, (m.actions.map itemId).Nodup

def History.mission (h : History) (id : String) : Option Mission :=
  row Mission.id id h.missions

def History.recordsOf (h : History) (project : String) : List Record :=
  h.records.filter fun r => (h.mission r.missionId).any fun m => m.project = project

def History.missionsOf (h : History) (project : String) : List Mission :=
  h.missions.filter fun m => m.project = project

def History.listMemoryHistory (h : History) (project : String) (after limit : ℕ) :
    List Record × ℕ :=
  page Record.rowid (h.recordsOf project) after limit

def History.listMemoryMissions (h : History) (project : String) (after limit : ℕ) :
    List Mission × ℕ :=
  page Mission.rowid (h.missionsOf project) after limit

inductive BrokerFault where
  | notFound
  | invalidOffset
deriving DecidableEq

def History.getMissionState (h : History) (id : String) : Except BrokerFault Item :=
  match h.mission id with
  | none => .error .notFound
  | some m => .ok m.state

def History.listActionsForMission (h : History) (id : String) (limit offset : ℕ) :
    Except BrokerFault (List Item) :=
  match h.mission id with
  | none => .error .notFound
  | some m =>
    if 1000000 < offset then .error .invalidOffset else .ok ((m.actions.drop offset).take limit)

/-! ## The file of the collector -/

/-- `state.sqlite3`. A cursor without a row is zero. -/
structure Folder where
  captured : List Captured
  projected : List (Source × String)
  missionStates : List MissionState
  missions : List (String × String)
  (historyCursor missionCursor actionOffset : String → ℕ)
  migrated : Bool

/-- A file without a row. -/
def Folder.empty : Folder :=
  ⟨[], [], [], [], fun _ => 0, fun _ => 0, fun _ => 0, false⟩

/-- The records are replayed once, for the second version of the file. -/
def Folder.migrate (f : Folder) : Folder :=
  if f.migrated then f else { f with historyCursor := fun _ => 0, migrated := true }

/-- `INSERT OR IGNORE INTO missions`. -/
def Folder.discover (id project : String) (f : Folder) : Folder :=
  if id ∈ f.missions.map Prod.fst then f else { f with missions := f.missions ++ [(id, project)] }

instance lawfulBEq_projected : LawfulBEq (Source × String) :=
  inferInstance

/-- What the file and the memory answer. The memory gives the record that it stores the identifier
`recordId`. -/
def Folder.perform (recordId : Value → String) : (o : SyncOp) → Folder →
    Except SyncError o.Reply × Folder
  | .existing source ref, f =>
    (.ok (row (fun c => (c.source, c.sourceRef)) (source, ref) f.captured), f)
  | .projected source ref, f => (.ok (decide ((source, ref) ∈ f.projected)), f)
  | .missionState source, f => (.ok (row MissionState.source source f.missionStates), f)
  | .ingest _ v, f =>
    (if accepts v then .ok (recordId v)
      else .error (.memory "Memory did not confirm persistence"), f)
  | .commit c, f =>
    (.ok (), { f with
      captured := replace (fun c => (c.source, c.sourceRef)) c f.captured
      projected := if (c.source, c.sourceRef) ∈ f.projected then f.projected
        else f.projected ++ [(c.source, c.sourceRef)] })
  | .commitMission c state, f =>
    (.ok (), { f with
      captured := replace (fun c => (c.source, c.sourceRef)) c f.captured
      missionStates := replace MissionState.source state f.missionStates })

/-! ## One call -/

inductive Outcome where
  | stored
  | present
  | skipped
  | failed
deriving DecidableEq

structure Entry where
  missionId : String
  itemType : ItemType
  item : Item
  outcome : Outcome

/-- The report of a call. Its counters are the numbers of the entries of each outcome. -/
structure Report where
  entries : List Entry
  boundedWindows : List String

/-- A call of `sync`: the file and the report. -/
structure Session where
  folder : Folder
  report : Report

/-- Add an entry to the report. -/
def Session.note (missionId : String) (itemType : ItemType) (item : Item) (outcome : Outcome)
    (s : Session) : Session :=
  { s with report := { s.report with
    entries := s.report.entries ++ [⟨missionId, itemType, item, outcome⟩] } }

def Session.bounded (window : String) (s : Session) : Session :=
  { s with report := { s.report with boundedWindows := s.report.boundedWindows ++ [window] } }

def Session.write (g : Folder → Folder) (s : Session) : Session :=
  { s with folder := g s.folder }

variable (F : Type) [Host F] (recordId : Value → String) (h : History)

/-- `capture_mission` of a state of a mission, `capture` of another item. -/
def captureItem (itemType : ItemType) (v : Value) : Sync Bool :=
  if itemType = .mission then captureMission F v else capture v

/-- Whether the value was stored, and the file. None if the memory refuses. -/
def store (itemType : ItemType) (v : Value) (f : Folder) : Option (Bool × Folder) :=
  (captureItem F itemType v).run (fun o (_ : Unit) f => f.perform recordId o) () f

/-- The payload of an item is captured. The flag says that this failed. -/
def collect (project missionId : String) (itemType : ItemType) (item : Item) (s : Session) :
    Session × Bool :=
  match payload F project missionId item itemType with
  | .error _ => (s.note missionId itemType item .failed, true)
  | .ok none => (s.note missionId itemType item .skipped, false)
  | .ok (some v) =>
    match store F recordId itemType v s.folder with
    | none => (s.note missionId itemType item .failed, true)
    | some (stored, folder) =>
      (Session.note missionId itemType item (if stored then .stored else .present)
        { s with folder := folder }, false)

/-- A record, behind the discovery of its mission. -/
def collectRecord (project : String) (r : Record) (s : Session) : Session × Bool :=
  collect F recordId project r.missionId .record r.fields
    (s.write (Folder.discover r.missionId project))

def discoverMission (project : String) (m : Mission) (s : Session) : Session × Bool :=
  (s.write (Folder.discover m.id project), false)

def setHistory (project : String) (position : ℕ) : Session → Session :=
  Session.write fun f =>
    { f with historyCursor := Function.update f.historyCursor project position }

def setMissions (project : String) (position : ℕ) : Session → Session :=
  Session.write fun f =>
    { f with missionCursor := Function.update f.missionCursor project position }

def setActions (missionId : String) (offset : ℕ) : Session → Session :=
  Session.write fun f =>
    { f with actionOffset := Function.update f.actionOffset missionId offset }

def syncHistory (project : String) (s : Session) : Session :=
  cursorPages 50 (fun after => h.listMemoryHistory project after 50)
    (collectRecord F recordId project) (setHistory project)
    (Session.bounded (project ++ ":history_backlog")) 10 (s.folder.historyCursor project) s

def syncMissions (project : String) (s : Session) : Session :=
  cursorPages 50 (fun after => h.listMemoryMissions project after 50)
    (discoverMission project) (setMissions project)
    (Session.bounded (project ++ ":mission_backlog")) 10 (s.folder.missionCursor project) s

def syncProject (s : Session) (project : String) : Except BrokerFault Session :=
  .ok (syncMissions h project (syncHistory F recordId h project s))

def syncState (project missionId : String) (s : Session) : Session :=
  match h.getMissionState missionId with
  | .error _ => s.note missionId .mission [] .failed
  | .ok state => (collect F recordId project missionId .mission state s).1

def syncActions (project missionId : String) (s : Session) : Except BrokerFault Session :=
  offsetPages 50 (h.listActionsForMission missionId 50)
    (collect F recordId project missionId .action) (setActions missionId)
    (Session.bounded (missionId ++ ":action_backlog")) 10 (s.folder.actionOffset missionId) s

def syncMission (s : Session) (mission : String × String) : Except BrokerFault Session :=
  syncActions F recordId h mission.2 mission.1 (syncState F recordId h mission.2 mission.1 s)

def sync (f : Folder) : Except BrokerFault Session := do
  let s ← projects.foldlM (syncProject F recordId h) ⟨f.migrate, ⟨[], []⟩⟩
  s.folder.missions.foldlM (syncMission F recordId h) s

/-- The file after some calls, and the entries of their reports. A call that raises ends them. -/
def syncs : ℕ → Except BrokerFault (Folder × List Entry)
  | 0 => .ok (Folder.empty, [])
  | n + 1 => do
    let w ← syncs n
    let s ← sync F recordId h w.1
    return (s.folder, w.2 ++ s.report.entries)

end OpsSync
