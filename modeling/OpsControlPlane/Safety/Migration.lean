import OpsControlPlane.Broker.Migration
import OpsControlPlane.Broker.System

/-!
# What opening an old database keeps

`Migrated` says that a file was opened with all its missions, incidents, actions and approvals,
that every mission has a row of the queue that agrees with its status, and that opening it
again changes nothing. `migrated_iff` says for which files of version 1 or 2 this holds.
-/

namespace OpsControlPlane

open Transaction

variable [Platform] {f f' : DbFile}

def DbFile.currentMissions (f : DbFile) : List StoredMission :=
  if f.version = 1 then f.missions.map renamed else f.missions

/-- A file of version 1 or 2 whose rows satisfy the constraints of its tables. -/
structure DbFile.WellFormed (f : DbFile) : Prop where
  version : f.version = 1 ∨ f.version = 2
  missions : missionsValid f.currentMissions
  incidents : incidentsValid f.incidents
  keys : f.keysHold = true
  runtime : (f.linked.missionRuntime.map RuntimeRow.missionId).Nodup

def Agrees (status : String) (r : RuntimeRow) : Prop :=
  ∃ s : MissionStatus, s.text = status ∧ r.queueState = s.queueState

/-- The file was opened as `f'`, with its rows kept and its queue coupled to the missions. -/
structure Migrated (f f' : DbFile) : Prop where
  missions : f'.missions = f.currentMissions
  incidents : f'.incidents = f.incidents
  actions : f'.linked.actions = f.linked.actions
  approvals : f'.linked.approvals = f.linked.approvals
  coupled : ∀ m ∈ f'.missions, ∃ r,
    row RuntimeRow.missionId m.id f'.linked.missionRuntime = some r ∧ Agrees m.status r
  again : initializeStore f' = .ok f'

/-- The row of the queue that the mission has agrees with its status, and a mission without
one is open. -/
def QueueReady (t : List RuntimeRow) (m : StoredMission) : Prop :=
  match row RuntimeRow.missionId m.id t with
  | some r => Agrees m.status r
  | none => m.status = "open"

theorem keysHold_renamed (f : DbFile) (version : ℤ) :
    DbFile.keysHold { f with version := version, missions := f.missions.map renamed } =
      f.keysHold := by
  have hids : (f.missions.map renamed).map StoredMission.id = f.missions.map StoredMission.id := by
    rw [List.map_map]
    rfl
  simp only [DbFile.keysHold, DbFile.references, hids]

theorem initializeStore_wellFormed (h : f.WellFormed) : ∃ g : DbFile,
    initializeStore f = .ok (applySchema g) ∧ g.missions = f.currentMissions ∧
      g.incidents = f.incidents ∧ g.linked = f.linked := by
  rcases h.version with hv | hv
  · have hmissions : f.currentMissions = f.missions.map renamed := if_pos hv
    refine ⟨{ f with version := 2, missions := f.missions.map renamed }, ?_, hmissions.symm,
      rfl, rfl⟩
    have hvalid : missionsValid (f.missions.map renamed) ∧ incidentsValid f.incidents :=
      ⟨hmissions ▸ h.missions, h.incidents⟩
    have hmigrate : migrateV1 f =
        .ok { f with version := 2, missions := f.missions.map renamed } := by
      unfold migrateV1
      rw [if_neg (not_not.2 hvalid), if_neg]
      rw [keysHold_renamed, h.keys]
      decide
    unfold initializeStore
    rw [if_neg (by simp [hv]), if_neg (by simp [hv]), if_pos hv, hmigrate]
    rfl
  · have hmissions : f.currentMissions = f.missions := if_neg (by simp [hv])
    refine ⟨f, ?_, hmissions.symm, rfl, rfl⟩
    unfold initializeStore
    rw [if_neg (by simp [hv]), if_neg (by simp [hv]), if_neg (by simp [hv])]

theorem initializeStore_applySchema (g : DbFile) :
    initializeStore (applySchema g) = .ok (applySchema g) := by
  have hv : (applySchema g).version = schemaVersion := rfl
  unfold initializeStore
  rw [if_neg (by simp [hv]), if_neg (by simp [hv, schemaVersion]),
    if_neg (by simp [hv, schemaVersion]), applySchema_applySchema]

/-- After the schema was applied the row of a mission agrees with its status exactly if it did
before, or if there was none and the mission is open. -/
theorem agrees_applySchema {g : DbFile} {m : StoredMission} (hm : m ∈ g.missions) :
    (∃ r, row RuntimeRow.missionId m.id (applySchema g).linked.missionRuntime = some r ∧
      Agrees m.status r) ↔ QueueReady g.linked.missionRuntime m := by
  have hrows : (applySchema g).linked.missionRuntime = backfill RuntimeRow.missionId
      defaultRuntime (g.missions.map fun m => (m.id, m.updatedAt)) g.linked.missionRuntime := rfl
  rw [hrows]
  unfold QueueReady
  cases hrow : row RuntimeRow.missionId m.id g.linked.missionRuntime with
  | some r =>
    rw [row_backfill_of_some hrow]
    simp
  | none =>
    rw [row_backfill_of_none (fun _ _ => rfl) hrow]
    -- the mission itself is an entity with its key
    have hfound : ((g.missions.map fun m => (m.id, m.updatedAt)).find?
        fun e => e.1 = m.id).isSome = true := by
      rw [List.find?_isSome]
      exact ⟨(m.id, m.updatedAt), List.mem_map.2 ⟨m, hm, rfl⟩, by simp⟩
    obtain ⟨e, he⟩ := Option.isSome_iff_exists.1 hfound
    rw [he, Option.map_some]
    have hqueued : ∀ s : MissionStatus, (defaultRuntime e.1 e.2).queueState = s.queueState ↔
        s = .opened := by
      intro s
      cases s <;> simp [defaultRuntime, MissionStatus.queueState]
    constructor
    · rintro ⟨r, hr, s, hs, hq⟩
      obtain rfl := Option.some.inj hr
      obtain rfl := (hqueued s).1 hq
      exact hs.symm
    · intro hopen
      exact ⟨_, rfl, .opened, hopen.symm, (hqueued _).2 rfl⟩

/-- Opening a well-formed file of version 1 or 2 keeps its rows and couples its queue to the
missions exactly if each row of the queue agreed before, and each mission without one is
open. -/
theorem migrated_iff (h : f.WellFormed) :
    (∃ f', initializeStore f = .ok f' ∧ Migrated f f') ↔
      ∀ m ∈ f.currentMissions, QueueReady f.linked.missionRuntime m := by
  obtain ⟨g, hopen, hmissions, hincidents, hlinked⟩ := initializeStore_wellFormed h
  rw [← hmissions, ← hlinked]
  constructor
  · rintro ⟨f', hf', hmigrated⟩ m hm
    obtain rfl := Except.ok.inj (hopen.symm.trans hf')
    exact (agrees_applySchema hm).1 (hmigrated.coupled m hm)
  · intro hready
    exact ⟨applySchema g, hopen, {
      missions := hmissions
      incidents := hincidents
      actions := show g.linked.actions = f.linked.actions by rw [hlinked]
      approvals := show g.linked.approvals = f.linked.approvals by rw [hlinked]
      coupled := fun m hm => (agrees_applySchema (g := g) hm).2 (hready m hm)
      again := initializeStore_applySchema g }⟩

end OpsControlPlane

/-! ## A file of version 1 -/

namespace OpsControlPlane.Sample

open Transaction

def legacy (status : String) : DbFile where
  version := 1
  userTables := true
  missions := [⟨"mission-1", "request-1", "infra", "legacy", status, "operator",
    "2026-09-03T00:00:00Z", "2026-09-03T00:00:00Z"⟩]
  incidents := []
  linked := {}

theorem wellFormed_legacy {status : String} (h : status = "open" ∨ status = "closed") :
    (legacy status).WellFormed where
  version := Or.inl rfl
  missions := by rcases h with rfl | rfl <;> decide
  incidents := ⟨by simp [legacy], by simp [legacy], by simp [legacy]⟩
  keys := by rcases h with rfl | rfl <;> rfl
  runtime := List.nodup_nil

/-- A closed mission is completed by the migration, and its row of the queue is queued. -/
theorem closed_mission_queued : ∃ f : DbFile, f.WellFormed ∧
    ¬ ∃ f', initializeStore f = .ok f' ∧ Migrated f f' := by
  refine ⟨legacy "closed", wellFormed_legacy (Or.inr rfl), ?_⟩
  rintro ⟨f', hf', hmigrated⟩
  obtain rfl : applySchema { legacy "closed" with
      version := 2, missions := (legacy "closed").missions.map renamed } = f' :=
    Except.ok.inj hf'
  obtain ⟨r, hr, s, hs, hq⟩ := hmigrated.coupled _ List.mem_cons_self
  obtain rfl : defaultRuntime "mission-1" "2026-09-03T00:00:00Z" = r := Option.some.inj hr
  cases s with
  | opened => exact absurd hs (by decide)
  | paused => exact absurd hs (by decide)
  | completed => cases hq

theorem migrated_iff_sample : (legacy "open").WellFormed ∧
    ((∃ f', initializeStore (legacy "open") = .ok f' ∧ Migrated (legacy "open") f') ↔
      ∀ m ∈ (legacy "open").currentMissions,
        QueueReady (legacy "open").linked.missionRuntime m) :=
  ⟨wellFormed_legacy (Or.inl rfl), migrated_iff (wellFormed_legacy (Or.inl rfl))⟩

end OpsControlPlane.Sample
