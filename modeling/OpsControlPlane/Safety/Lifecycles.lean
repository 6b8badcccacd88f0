import OpsControlPlane.Broker.Trails
import OpsControlPlane.Broker.Writes
import OpsControlPlane.Lib.StatusLog

/-!
# Lifecycles of missions and incidents

The rows of a table of status changes are the log of the statuses of its entities, and a committed
transaction does to both what a step of a log may (`Tx.statusStep`). So in every run the rows of an
entity lead from the status of its creation to the current one (`lifecycles_chain`).
-/

set_option linter.unusedSectionVars false

namespace OpsControlPlane

open JsonText Calendar Transaction Calls StatusLog

variable [Platform]

/-! ## The log of an entity -/

section entity

variable {σ : Type} (e : StatusEntity σ)

def StatusChangeRow.entry (r : StatusChangeRow σ) : Entry String σ :=
  ⟨r.entityId, r.previousStatus, r.newStatus⟩

def StatusEntity.log (db : Db) : Log String σ :=
  ⟨fun id => (e.find db id).map Prod.snd, (e.changes db).map StatusChangeRow.entry⟩

def StatusEntity.Moves (s t : σ) : Prop :=
  t = s ∨ t ∈ e.transitions s

end entity

structure StatusTables where
  missions : List MissionRow
  missionChanges : List (StatusChangeRow MissionStatus)
  incidents : List IncidentRow
  incidentChanges : List (StatusChangeRow IncidentStatus)

def Db.statusTables (db : Db) : StatusTables :=
  ⟨db.missions, db.missionStatusChanges, db.incidents, db.incidentStatusChanges⟩

theorem missionLog_eq (db : Db) : missionEntity.log db =
    ⟨fun id => (row MissionRow.id id db.missions).map MissionRow.status,
      db.missionStatusChanges.map StatusChangeRow.entry⟩ := by
  simp [StatusEntity.log, missionEntity, Function.comp_def]

theorem incidentLog_eq (db : Db) : incidentEntity.log db =
    ⟨fun id => (row IncidentRow.id id db.incidents).map IncidentRow.status,
      db.incidentStatusChanges.map StatusChangeRow.entry⟩ := by
  simp [StatusEntity.log, incidentEntity, Function.comp_def]

variable {db db' : Db}

theorem logs_congr (h : db'.statusTables = db.statusTables) :
    missionEntity.log db' = missionEntity.log db ∧
      incidentEntity.log db' = incidentEntity.log db := by
  obtain ⟨hmissions, hmission, hincidents, hincident⟩ := StatusTables.mk.inj h
  rw [missionLog_eq, missionLog_eq, incidentLog_eq, incidentLog_eq, hmissions, hmission, hincidents,
    hincident]
  exact ⟨rfl, rfl⟩

variable {x : TxEnv} {c c' : Conn}

theorem Logs.statusTables {ds : List AuditDraft} (h : Logs x c ds c') :
    c'.db.statusTables = c.db.statusTables := by
  rw [h.data]
  rfl

def Tx.KeepsStatuses : Tx → Prop
  | createMission _ | createIncident _ | setMissionStatus _ | setIncidentStatus _ => False
  | _ => True

variable {b : Broker} {t : Tx}

theorem Tx.keeps_statuses {r : t.Reply} (h : t.commit b x db = (.ok r, db'))
    (ht : t.KeepsStatuses) : db'.statusTables = db.statusTables := by
  obtain ⟨db₁, ds, c, hw, hl, rfl⟩ := Tx.writes h
  rw [hl.statusTables]
  cases hw with
  | mission => exact ht.elim
  | incident => exact ht.elim
  | missionStatus => exact ht.elim
  | incidentStatus => exact ht.elim
  | lease a r h => cases h <;> rfl
  | lock a r projectId v h => cases h <;> rfl
  | _ => rfl

/-! ## What a transaction does -/

theorem log_ext {σ : Type} (l : Log String σ) (status : String → Option σ) (id : String)
    (s : Option σ) (hself : status id = s) (hother : ∀ j, j ≠ id → status j = l.status j) :
    status = Function.update l.status id s := by
  funext j
  by_cases hj : j = id
  · rw [hj, Function.update_self, hself]
  · rw [Function.update_of_ne hj, hother j hj]

variable {R α : Type} {r : R} {key : R → String}

theorem row_append_ne {k : String} {t : List R} (h : k ≠ key r) :
    row key k (t ++ [r]) = row key k t := by
  have hnone : row key k [r] = none := by
    rw [row_cons, if_neg h.symm]
    rfl
  rw [row_append, hnone, Option.or_none]

theorem created_step {σ : Type} {allowed : σ → σ → Prop} (status : R → σ)
    {entries : List (Entry String σ)} {t : List R} (r : R) (h : row key (key r) t = none) :
    Log.Step allowed (status r) ⟨fun id => (row key id t).map status, entries⟩
      ⟨fun id => (row key id (t ++ [r])).map status, entries⟩ := by
  have hstep : Log.Step allowed (status r) ⟨fun id => (row key id t).map status, entries⟩ _ :=
    .create (key r) (by simp only [h, Option.map_none])
  have hstatus := log_ext ⟨fun id => (row key id t).map status, entries⟩
    (fun id => (row key id (t ++ [r])).map status) (key r) (some (status r))
    (by simp only [row_append_new h, Option.map_some])
    fun j hj => by simp only [row_append_ne hj]
  rwa [← hstatus] at hstep

theorem changed_step {σ : Type} {allowed : σ → σ → Prop} {initial : σ} {status : R → σ} {f : R → R}
    {entries : List (Entry String σ)} {t : List R} {e : Entry String σ}
    (h : row key e.entity t = some r) (hprevious : e.previous = status r)
    (hallowed : allowed e.previous e.next) (hkey : ∀ r, key (f r) = key r)
    (hstatus : ∀ r, status (f r) = e.next) :
    Log.Step allowed initial ⟨fun id => (row key id t).map status, entries⟩
      ⟨fun id => (row key id (update (fun r => key r = e.entity) f t)).map status,
        entries ++ [e]⟩ := by
  have hstep : Log.Step allowed initial ⟨fun id => (row key id t).map status, entries⟩ _ :=
    .change e (by simp only [h, Option.map_some, hprevious]) hallowed
  have heq := log_ext ⟨fun id => (row key id t).map status, entries⟩
    (fun id => (row key id (update (fun r => key r = e.entity) f t)).map status) e.entity
    (some e.next)
    (by
      have hr : key r = e.entity := (row_some h).2
      simp only [row_update hkey, h, Option.map_some, hr, decide_true, if_true, hstatus])
    fun j hj => by
      simp only [row_update hkey, Option.map_map]
      refine Option.map_congr fun q hq => ?_
      have hne : ¬key q = e.entity := fun heq => hj ((row_some hq).2.symm.trans heq)
      simp only [Function.comp_apply, hne, decide_false, Bool.false_eq_true, if_false]
  rwa [← heq] at hstep

structure Db.Distinct (db : Db) : Prop where
  missions : (db.missions.map MissionRow.id).Nodup
  incidents : (db.incidents.map IncidentRow.id).Nodup

structure StatusSteps (db db' : Db) : Prop where
  distinct : db.Distinct → db'.Distinct
  mission : Log.Step missionEntity.Moves .opened (missionEntity.log db) (missionEntity.log db')
  incident : Log.Step incidentEntity.Moves .opened (incidentEntity.log db) (incidentEntity.log db')

theorem StatusSteps.of_eq (h : db'.statusTables = db.statusTables) : StatusSteps db db' := by
  obtain ⟨hmission, hincident⟩ := logs_congr h
  obtain ⟨hmissions, -, hincidents, -⟩ := StatusTables.mk.inj h
  refine ⟨fun hd => ⟨?_, ?_⟩, ?_, ?_⟩
  · rw [hmissions]
    exact hd.missions
  · rw [hincidents]
    exact hd.incidents
  · rw [hmission]
    exact .keep
  · rw [hincident]
    exact .keep

theorem StatusSteps.congr {db'' : Db} (h : StatusSteps db db')
    (heq : db''.statusTables = db'.statusTables) : StatusSteps db db'' := by
  obtain ⟨hmission, hincident⟩ := logs_congr heq
  refine ⟨fun hd => (StatusSteps.of_eq heq).distinct (h.distinct hd), ?_, ?_⟩
  · rw [hmission]
    exact h.mission
  · rw [hincident]
    exact h.incident

theorem createMission_steps (a : NewMission) (h : row MissionRow.id a.id db.missions = none) :
    StatusSteps db (db.addMission a.row) := by
  refine ⟨fun hd => ⟨nodup_insert (r := a.row) hd.missions h, hd.incidents⟩, ?_, ?_⟩
  · rw [missionLog_eq, missionLog_eq]
    exact created_step MissionRow.status a.row h
  · rw [incidentLog_eq, incidentLog_eq]
    exact .keep

theorem createIncident_steps (a : NewIncident) (h : row IncidentRow.id a.id db.incidents = none) :
    StatusSteps db (db.addIncident a.row) := by
  refine ⟨fun hd => ⟨hd.missions, nodup_insert (r := a.row) hd.incidents h⟩, ?_, ?_⟩
  · rw [missionLog_eq, missionLog_eq]
    exact .keep
  · rw [incidentLog_eq, incidentLog_eq]
    exact created_step IncidentRow.status a.row h

/-- A change of status that is recorded, and carried out unless the status stays the same. -/
theorem recorded_step {σ : Type} [DecidableEq σ] (e : StatusEntity σ) (initial : σ)
    (key : R → String) (status : R → σ) (f : R → R) (rows : List (StatusChangeRow σ)) {t : List R}
    (a : StatusChange σ) (now : String) (h : row key a.entityId t = some r)
    (hmove : status r = a.status ∨ a.status ∈ e.transitions (status r))
    (hkey : ∀ r, key (f r) = key r) (hstatus : ∀ r, status (f r) = a.status) :
    Log.Step e.Moves initial ⟨fun id => (row key id t).map status, rows.map StatusChangeRow.entry⟩
      ⟨fun id => (row key id (if status r ≠ a.status then
        update (fun r => key r = a.entityId) f t else t)).map status,
        (rows ++ [a.row (status r) now]).map StatusChangeRow.entry⟩ := by
  have hentry : (a.row (status r) now).entry = ⟨a.entityId, status r, a.status⟩ := rfl
  rw [List.map_append, List.map_singleton, hentry]
  split_ifs with hne
  · exact changed_step (e := ⟨a.entityId, status r, a.status⟩) h rfl (.inr (hmove.resolve_left hne))
      hkey hstatus
  · have hsame := not_not.1 hne
    have hstep : Log.Step e.Moves initial
        ⟨fun id => (row key id t).map status, rows.map StatusChangeRow.entry⟩ _ :=
      .change ⟨a.entityId, status r, a.status⟩ (by simp only [h, Option.map_some]) (.inl hsame.symm)
    have hlookup : Function.update (fun id => (row key id t).map status) a.entityId
        (some a.status) = fun id => (row key id t).map status := by
      refine Function.update_eq_self_iff.2 ?_
      rw [h, Option.map_some, hsame]
    rwa [hlookup] at hstep

variable {m : MissionRow}

theorem setMissionStatus_steps (a : StatusChange MissionStatus) (now : String)
    (hm : row MissionRow.id a.entityId db.missions = some m)
    (hmove : m.status = a.status ∨ a.status ∈ m.status.transitions) :
    StatusSteps db
      (a.carried missionEntity (followedMission a.entityId a.status) m.status now db) := by
  have hstep := recorded_step missionEntity .opened MissionRow.id MissionRow.status
    (fun r => { r with status := a.status, updatedAt := now }) db.missionStatusChanges a now hm
    hmove (fun _ => rfl) fun _ => rfl
  refine ⟨fun hd => ?_, ?_, ?_⟩
  · rw [StatusChange.carried]
    split_ifs
    · refine ⟨?_, hd.incidents⟩
      exact (congrArg List.Nodup (map_update (g := MissionRow.id) (p := fun r => r.id = a.entityId)
        (f := fun r => { r with status := a.status, updatedAt := now }) (fun _ => rfl)
        db.missions)).mpr hd.missions
    · exact ⟨hd.missions, hd.incidents⟩
  · rw [missionLog_eq, missionLog_eq, StatusChange.carried]
    split_ifs at hstep ⊢ <;> exact hstep
  · rw [incidentLog_eq, incidentLog_eq, StatusChange.carried]
    split_ifs <;> exact .keep

variable {i : IncidentRow}

theorem setIncidentStatus_steps (a : StatusChange IncidentStatus) (now : String)
    (hi : row IncidentRow.id a.entityId db.incidents = some i)
    (hmove : i.status = a.status ∨ a.status ∈ i.status.transitions) :
    StatusSteps db (a.carried incidentEntity (fun _ db => db) i.status now db) := by
  have hstep := recorded_step incidentEntity .opened IncidentRow.id IncidentRow.status
    (fun r => { r with status := a.status, updatedAt := now }) db.incidentStatusChanges a now hi
    hmove (fun _ => rfl) fun _ => rfl
  refine ⟨fun hd => ?_, ?_, ?_⟩
  · rw [StatusChange.carried]
    split_ifs
    · refine ⟨hd.missions, ?_⟩
      exact (congrArg List.Nodup (map_update (g := IncidentRow.id) (p := fun r => r.id = a.entityId)
        (f := fun r => { r with status := a.status, updatedAt := now }) (fun _ => rfl)
        db.incidents)).mpr hd.incidents
    · exact ⟨hd.missions, hd.incidents⟩
  · rw [missionLog_eq, missionLog_eq, StatusChange.carried]
    split_ifs <;> exact .keep
  · rw [incidentLog_eq, incidentLog_eq, StatusChange.carried]
    split_ifs at hstep ⊢ <;> exact hstep

variable {L : String → Db → List AuditDraft} {D : String → Db → Db}

theorem carried_changes {σ : Type} [DecidableEq σ] {e : StatusEntity σ} {a : StatusChange σ}
    (he : e.Lawful a D L) (previous : σ) (now : String) (db : Db) :
    e.changes (a.carried e D previous now db) =
      e.changes db ++ [a.row previous now] := by
  rw [StatusChange.carried]
  split_ifs
  · rw [he.changes_follow, he.changes_status, he.changes_set]
  · rw [he.changes_set]

theorem setEntityStatus_rows {σ : Type} [DecidableEq σ] {e : StatusEntity σ} {a : StatusChange σ}
    (he : e.Lawful a D L) {r : StatusReply σ} (h : setEntityStatus e a x c = .ok (r, c')) :
    r.change ≠ none ∧ (r.replayed = true → c' = c) ∧
      (r.replayed = false → e.changes c'.db = e.changes c.db ++ r.change.toList) := by
  obtain ⟨project, st, hfind, ⟨existing, -, -, rfl, rfl⟩ | ⟨-, -, rfl, hl⟩⟩ :=
    (setEntityStatus_spec he x c).ok h
  · exact ⟨by simp, fun _ => rfl, fun hno => (by cases hno)⟩
  · refine ⟨by simp, fun hno => (by cases hno), fun _ => ?_⟩
    rw [he.changes_logs _ _ _ _ hl, carried_changes he]
    rfl

/-- A committed transaction takes a step in each log. -/
theorem Tx.statusSteps {r : t.Reply} (h : t.commit b x db = (.ok r, db')) : StatusSteps db db' := by
  by_cases ht : t.KeepsStatuses
  · exact .of_eq (Tx.keeps_statuses h ht)
  obtain ⟨c, hrun, rfl, -⟩ := Tx.commit_ok h
  cases t with
  | createMission a =>
    obtain ⟨-, hid, hl⟩ := (createMission_spec a x ⟨db, 0⟩).ok hrun
    exact (createMission_steps a hid.1).congr hl.statusTables
  | createIncident a =>
    obtain ⟨-, hid, hl⟩ := (createIncident_spec a x ⟨db, 0⟩).ok hrun
    exact (createIncident_steps a hid.1).congr hl.statusTables
  | setMissionStatus a =>
    obtain ⟨project, st, hfind, ⟨_, -, -, -, rfl⟩ | ⟨-, hmove, -, hl⟩⟩ :=
      (setEntityStatus_spec (missionEntity_lawful a) x ⟨db, 0⟩).ok hrun
    · exact .of_eq rfl
    · obtain ⟨m, hm, hst⟩ := Option.map_eq_some_iff.1 hfind
      obtain rfl : m.status = st := congrArg Prod.snd hst
      exact (setMissionStatus_steps a (isoformat x.time) hm hmove).congr hl.statusTables
  | setIncidentStatus a =>
    obtain ⟨project, st, hfind, ⟨_, -, -, -, rfl⟩ | ⟨-, hmove, -, hl⟩⟩ :=
      (setEntityStatus_spec (incidentEntity_lawful a) x ⟨db, 0⟩).ok hrun
    · exact .of_eq rfl
    · obtain ⟨i, hi, hst⟩ := Option.map_eq_some_iff.1 hfind
      obtain rfl : i.status = st := congrArg Prod.snd hst
      exact (setIncidentStatus_steps a (isoformat x.time) hi hmove).congr hl.statusTables
  | _ => exact (ht trivial).elim

/-! ## Calls that fail -/

/-- A change of status that was answered has no row. -/
structure Rowless (a : Said) : Prop where
  mission : ∀ t r, a = Said.tx (.setMissionStatus t) (.ok r) → r.change = none
  incident : ∀ t r, a = Said.tx (.setIncidentStatus t) (.ok r) → r.change = none

def Db.statusChanges (db : Db) :
    List (StatusChangeRow MissionStatus) × List (StatusChangeRow IncidentStatus) :=
  (db.missionStatusChanges, db.incidentStatusChanges)

/-- An operation adds no row, or it answers with one. -/
theorem perform_rowless {o : Op} {x : Choice} (h : Rowless ⟨o, (perform b o x db).1⟩) :
    (perform b o x db).2.statusChanges = db.statusChanges := by
  cases o with
  | tx t =>
    change Rowless (Said.tx t (t.commit b x.env db).1) at h
    change (t.commit b x.env db).2.statusChanges = _
    rcases hcommit : t.commit b x.env db with ⟨r, db'⟩
    rw [hcommit] at h
    cases r with
    | error e => rw [Tx.commit_error hcommit]
    | ok r =>
      by_cases ht : t.KeepsStatuses
      · have htables := StatusTables.mk.inj (Tx.keeps_statuses hcommit ht)
        exact Prod.ext htables.2.1 htables.2.2.2
      obtain ⟨c, hrun, rfl, -⟩ := Tx.commit_ok hcommit
      cases t with
      | createMission a =>
        obtain ⟨-, -, hl⟩ := (createMission_spec a x.env ⟨db, 0⟩).ok hrun
        have htables := StatusTables.mk.inj hl.statusTables
        exact Prod.ext htables.2.1 htables.2.2.2
      | createIncident a =>
        obtain ⟨-, -, hl⟩ := (createIncident_spec a x.env ⟨db, 0⟩).ok hrun
        have htables := StatusTables.mk.inj hl.statusTables
        exact Prod.ext htables.2.1 htables.2.2.2
      | setMissionStatus a =>
        exact absurd (h.mission a r rfl)
          (setEntityStatus_rows (missionEntity_lawful a) hrun).1
      | setIncidentStatus a =>
        exact absurd (h.incident a r rfl)
          (setEntityStatus_rows (incidentEntity_lawful a) hrun).1
      | _ => exact (ht trivial).elim
  | _ => rfl

def Request.SetsStatus : Request → Prop
  | setMissionStatus _ | setIncidentStatus _ => True
  | _ => False

/-- All that was said so far added no row. -/
def Quiet (h : List Said) : Prop :=
  ∀ a ∈ h, Rowless a

variable {h : List Said}

theorem Quiet.snoc {a : Said} (hh : Quiet h) (ha : Rowless a) : Quiet (h ++ [a]) := by
  intro b hb
  rcases List.mem_append.1 hb with hb | hb
  · exact hh b hb
  · rw [List.mem_singleton.1 hb]
    exact ha

theorem rowless_now (t : DateTime) : Rowless (Said.now t) :=
  ⟨fun _ _ h => (by cases h), fun _ _ h => (by cases h)⟩

theorem rowless_read (db : Db) : Rowless (Said.read db) :=
  ⟨fun _ _ h => (by cases h), fun _ _ h => (by cases h)⟩

theorem rowless_denial (d : Denial) (r : Except PyError Unit) :
    Rowless (Said.tx (.auditDenial d) r) :=
  ⟨fun _ _ h => (by cases h), fun _ _ h => (by cases h)⟩

variable {P : List Said → Op → Prop}

theorem trail_auditing_quiet {Q : List Said → α → Prop} (hP : ∀ h o, P h o) (r : Except PyError α)
    (denial : String → DateTime → Denial) (hh : Quiet h) (hQ : ∀ a, Q h a) :
    (auditing r denial).Trail P Q (fun h _ => Quiet h) h := by
  rcases r with (⟨code, message, status, details⟩ | _) | a
  · rw [auditing, Prog.trail_bind, trail_now]
    refine ⟨hP _ _, fun t => ?_⟩
    have hnow := hh.snoc (rowless_now t)
    exact trail_transact_bind.2
      ⟨hP _ _, fun _ => hnow.snoc (rowless_denial _ _), fun _ => hnow.snoc (rowless_denial _ _)⟩
  all_goals first | exact hQ a | exact hh

variable {entityKey id : String}

/-- The end of a method that sets a status, once its transaction has answered. -/
theorem trail_reply_quiet {σ : Type} [DecidableEq σ] {text : σ → String}
    {f : t.Reply → StatusReply σ} (hP : ∀ h o, P h o) (hh : Quiet h)
    (herror : ∀ e, Rowless (Said.tx t (.error e)))
    (hok : ∀ r, (f r).change = none → Rowless (Said.tx t (.ok r))) :
    (transact t >>= fun r =>
      (.ofExcept (statusReplyPublic text entityKey (f r)) : Method Value)).Trail
      P (fun _ _ => True) (fun h _ => Quiet h) h := by
  refine trail_transact_bind.2 ⟨hP _ _, fun r => ?_, fun e => hh.snoc (herror e)⟩
  refine (Prog.trail_ofExcept _ _).2 ⟨fun _ _ => trivial, fun e he => hh.snoc (hok r ?_)⟩
  rw [statusReplyPublic] at he
  split at he
  · cases he
  · next hnone => exact hnone

/-- A method that sets a status fails before a row is added. -/
theorem trail_setStatus_quiet {σ ρ : Type} [DecidableEq σ] {text : σ → String}
    {v : Except PyError (StatusChange σ)} {find : Db → Option ρ} {missing : PyError}
    {allowed : ρ → Except PyError Unit} {denial : StatusChange σ → String → DateTime → Denial}
    {t : StatusChange σ → Tx} {f : ∀ a, (t a).Reply → StatusReply σ}
    (herror : ∀ a e, Rowless (Said.tx (t a) (.error e)))
    (hok : ∀ a r, (f a r).change = none → Rowless (Said.tx (t a) (.ok r))) : (do
      let a ← .ofExcept v
      let db ← snapshot
      let entity ← expect (find db) missing
      auditing (allowed entity) (denial a)
      let r ← transact (t a)
      .ofExcept (statusReplyPublic text entityKey (f a r)) : Method Value).Trail
        (fun _ _ => True) (fun _ _ => True) (fun h _ => Quiet h) [] := by
  have hnil : Quiet [] := fun a ha => absurd ha List.not_mem_nil
  rw [Prog.trail_bind, Prog.trail_ofExcept]
  refine ⟨fun a _ => ?_, fun _ _ => hnil⟩
  rw [Prog.trail_bind, trail_snapshot]
  refine ⟨trivial, fun db => ?_⟩
  have hread := hnil.snoc (rowless_read db)
  rw [Prog.trail_bind, trail_expect]
  refine ⟨fun entity _ => ?_, fun _ => hread⟩
  rw [Prog.trail_bind]
  exact trail_auditing_quiet (fun _ _ => trivial) _ _ hread fun _ =>
    trail_reply_quiet (fun _ _ => trivial) hread (herror a) (hok a)

theorem setsStatus_fails (b : Broker) (r : Request) (h : r.SetsStatus) : (r.program b).Trail
    (fun _ _ => True) (fun _ _ => True) (fun h _ => Quiet h) [] := by
  cases r with
  | setMissionStatus q =>
    exact trail_setStatus_quiet (t := .setMissionStatus) (f := fun _ r => r)
      (fun _ _ => ⟨fun _ _ h => (by cases h), fun _ _ h => (by cases h)⟩)
      fun _ _ hr => ⟨fun _ _ h => (by cases h; exact hr), fun _ _ h => (by cases h)⟩
  | setIncidentStatus q =>
    exact trail_setStatus_quiet (t := .setIncidentStatus) (f := fun _ r => r)
      (fun _ _ => ⟨fun _ _ h => (by cases h), fun _ _ h => (by cases h)⟩)
      fun _ _ hr => ⟨fun _ _ h => (by cases h), fun _ _ h => (by cases h; exact hr)⟩
  | _ => exact h.elim

/-! ## Runs -/

variable {S : System}

/-- What a call was told it keeps. -/
theorem step_said {s s' : State S} {m : Move S} (h : s.step m = some s') {i : ℕ} {c : Call S}
    (hc : s.calls[i]? = some c) : ∃ c', s'.calls[i]? = some c' ∧ c.said ⊆ c'.said := by
  have hset : ∀ (j : ℕ) (d d' : Call S), s.calls[j]? = some d → d.said ⊆ d'.said →
      ∃ c', (s.calls.set j d')[i]? = some c' ∧ c.said ⊆ c'.said := by
    intro j d d' hd hsub
    have hlt : i < s.calls.length := (List.getElem?_eq_some_iff.1 hc).1
    by_cases hij : j = i
    · subst hij
      obtain rfl := Option.some.inj (hd.symm.trans hc)
      exact ⟨d', List.getElem?_set_self hlt, hsub⟩
    · exact ⟨c, (List.getElem?_set_ne hij).trans hc, List.Subset.refl _⟩
  rcases step_cases h with ⟨r, -, rfl⟩ | ⟨j, x, d, o, k, -, hd, -, rfl⟩ | ⟨j, d, -, hd, rfl⟩
  · refine ⟨c, ?_, List.Subset.refl _⟩
    exact (List.getElem?_append_left (List.getElem?_eq_some_iff.1 hc).1).trans hc
  · exact hset j d _ hd (List.subset_append_left _ _)
  · exact hset j d _ hd (List.Subset.refl _)

theorem run_answered {s₀ s : State S} {ms : List (Moment S)} (hr : Run s₀ ms s) :
    ∀ m ∈ ms, ∀ i x, m.move = .act i x → ∃ c, s.calls[i]? = some c ∧ ∃ a ∈ c.said,
      S.perform a.1 x m.before.store = (a.2, m.after.store) := by
  induction hr with
  | start => exact fun m hm => absurd hm List.not_mem_nil
  | @step ms s s' mv hr h ih =>
    intro m hm i x hmove
    rcases List.mem_append.1 hm with hm | hm
    · obtain ⟨c, hc, a, ha, hperform⟩ := ih m hm i x hmove
      obtain ⟨c', hc', hsub⟩ := step_said h hc
      exact ⟨c', hc', a, hsub ha, hperform⟩
    · obtain rfl := List.mem_singleton.1 hm
      obtain rfl : mv = .act i x := hmove
      rcases step_cases h with ⟨r, hno, -⟩ | ⟨j, y, c, o, k, hact, hc, ho, rfl⟩ | ⟨j, c, hno, -, -⟩
      · cases hno
      · cases hact
        have hlt : i < s.calls.length := (List.getElem?_eq_some_iff.1 hc).1
        exact ⟨_, List.getElem?_set_self hlt, ⟨o, (S.perform o x s.store).1⟩,
          List.mem_append_right _ (List.mem_singleton.2 rfl), rfl⟩
      · cases hno

/-- The identifiers are distinct, and each history leads to the current status. -/
structure Chained (db : Db) : Prop where
  distinct : db.Distinct
  mission : (missionEntity.log db).Coherent missionEntity.Moves .opened
  incident : (incidentEntity.log db).Coherent incidentEntity.Moves .opened

theorem Chained.fresh : Chained Db.fresh :=
  ⟨⟨List.nodup_nil, List.nodup_nil⟩, .empty, .empty⟩

theorem perform_steps (o : Op) (x : Choice) (db : Db) : StatusSteps db (perform b o x db).2 := by
  cases o with
  | tx t =>
    change StatusSteps db (t.commit b x.env db).2
    rcases hcommit : t.commit b x.env db with ⟨r, db'⟩
    cases r with
    | error e =>
      rw [Tx.commit_error hcommit]
      exact .of_eq rfl
    | ok r => exact Tx.statusSteps hcommit
  | _ => exact .of_eq rfl

theorem Chained.step (h : Chained db) (hs : StatusSteps db db') : Chained db' :=
  ⟨hs.distinct h.distinct, hs.mission.coherent h.mission, hs.incident.coherent h.incident⟩

variable {ms : List (Moment (brokerSystem b))}

theorem Chained.of_run {s t : State (brokerSystem b)} (hs : Chained s.store) (hr : Run s ms t) :
    Chained t.store :=
  hr.store hs fun o x db h => h.step (perform_steps o x db)

theorem Chained.missionStatus (h : Chained db) (hm : m ∈ db.missions) :
    (missionEntity.log db).status m.id = some m.status := by
  rw [missionLog_eq]
  change (row MissionRow.id m.id db.missions).map MissionRow.status = _
  rw [row_of_mem h.distinct.missions hm, Option.map_some]

theorem Chained.incidentStatus (h : Chained db) (hi : i ∈ db.incidents) :
    (incidentEntity.log db).status i.id = some i.status := by
  rw [incidentLog_eq]
  change (row IncidentRow.id i.id db.incidents).map IncidentRow.status = _
  rw [row_of_mem h.distinct.incidents hi, Option.map_some]

theorem completed_final (t : MissionStatus) (h : missionEntity.Moves .completed t) :
    t = .completed :=
  h.resolve_right List.not_mem_nil

theorem resolved_final (t : IncidentStatus) (h : incidentEntity.Moves .resolved t) :
    t = .resolved :=
  h.resolve_right List.not_mem_nil

theorem completed_stays {s t : State (brokerSystem b)} (hr : Run s ms t)
    (h : (missionEntity.log s.store).status id = some .completed) :
    (missionEntity.log t.store).status id = some .completed :=
  hr.store (K := fun db => (missionEntity.log db).status id = some .completed) h fun o x db h =>
    (perform_steps o x db).mission.final completed_final h

theorem resolved_stays {s t : State (brokerSystem b)} (hr : Run s ms t)
    (h : (incidentEntity.log s.store).status id = some .resolved) :
    (incidentEntity.log t.store).status id = some .resolved :=
  hr.store (K := fun db => (incidentEntity.log db).status id = some .resolved) h fun o x db h =>
    (perform_steps o x db).incident.final resolved_final h

theorem replayed_unchanged {m : Moment (brokerSystem b)} {c : Call (brokerSystem b)} :
    (∀ a r, m.Performs c (.tx (.setMissionStatus a)) (.ok r) → r.replayed = true →
      m.after.store = m.before.store) ∧
    ∀ a r, m.Performs c (.tx (.setIncidentStatus a)) (.ok r) → r.replayed = true →
      m.after.store = m.before.store := by
  refine ⟨fun a r hp hreplayed => ?_, fun a r hp hreplayed => ?_⟩
  · obtain ⟨i, x, k, -, -, -, hperform⟩ := hp
    obtain ⟨c', hrun, hdb, -⟩ := Tx.commit_ok (b := b) (t := .setMissionStatus a) hperform
    rw [← hdb, (setEntityStatus_rows (missionEntity_lawful a) hrun).2.1 hreplayed]
  · obtain ⟨i, x, k, -, -, -, hperform⟩ := hp
    obtain ⟨c', hrun, hdb, -⟩ := Tx.commit_ok (b := b) (t := .setIncidentStatus a) hperform
    rw [← hdb, (setEntityStatus_rows (incidentEntity_lawful a) hrun).2.1 hreplayed]

theorem trail_trivial {I : Interface} {ε : Type} (p : Prog I ε α) (h : List (Prog.Said I)) :
    p.Trail (fun _ _ => True) (fun _ _ => True) (fun _ _ => True) h := by
  induction p generalizing h with
  | ret a => trivial
  | fail e => trivial
  | ask o k ih => exact ⟨trivial, fun a => ih a _⟩

theorem failed_unchanged {s : State (brokerSystem b)} (hr : Run (freshState b) ms s) {i : ℕ}
    {c : Call (brokerSystem b)} {e : PyError} (hc : s.calls[i]? = some c)
    (hsets : Request.SetsStatus c.request) (hfail : c.prog = some (.fail e)) :
    ∀ m ∈ ms, ∀ x, m.move = .act i x →
      m.after.store.statusChanges = m.before.store.statusChanges := by
  have htrail := hr.trail (P := fun _ _ _ => True) (Q := fun _ _ _ => True)
    (E := fun r h _ => Request.SetsStatus r → Quiet h) rfl (fun r => ?_) c (List.mem_of_getElem? hc)
  · have hquiet : Quiet c.said := htrail.2 _ hfail hsets
    intro m hm x hmove
    obtain ⟨c', hc', a, ha, hperform⟩ := run_answered hr m hm i x hmove
    obtain rfl := Option.some.inj (hc'.symm.trans hc)
    change perform b a.1 x m.before.store = (a.2, m.after.store) at hperform
    have hsaid : Rowless ⟨a.1, (perform b a.1 x m.before.store).1⟩ := by
      rw [hperform]
      exact hquiet a ha
    have hrowless := perform_rowless hsaid
    rwa [hperform] at hrowless
  · by_cases h : Request.SetsStatus r
    · exact (setsStatus_fails b r h).mono (fun _ _ _ => trivial) (fun _ _ _ => trivial)
        fun _ _ hquiet _ => hquiet
    · exact (trail_trivial (r.program b) []).mono (fun _ _ _ => trivial) (fun _ _ _ => trivial)
        fun _ _ _ hsets => absurd hsets h

/-- In every run the rows of an entity lead from the first status to the current one, each by an
allowed transition or without a change. A mission that is completed stays so, and so does an
incident that is resolved; a replay changes nothing, and a request that fails adds no row. -/
theorem lifecycles_chain {b : Broker} {s : State (brokerSystem b)}
    {ms : List (Moment (brokerSystem b))} (hr : Run (freshState b) ms s) :
    (∀ m ∈ s.store.missions,
      Leads missionEntity.Moves .opened ((missionEntity.log s.store).history m.id) m.status) ∧
    (∀ i ∈ s.store.incidents,
      Leads incidentEntity.Moves .opened ((incidentEntity.log s.store).history i.id) i.status) ∧
    (∀ ms' t, Run s ms' t →
      (∀ m ∈ s.store.missions, m.status = .completed →
        (missionEntity.log t.store).status m.id = some .completed) ∧
      ∀ i ∈ s.store.incidents, i.status = .resolved →
        (incidentEntity.log t.store).status i.id = some .resolved) ∧
    (∀ m ∈ ms, ∀ c,
      (∀ a r, m.Performs c (.tx (.setMissionStatus a)) (.ok r) → r.replayed = true →
        m.after.store = m.before.store) ∧
      ∀ a r, m.Performs c (.tx (.setIncidentStatus a)) (.ok r) → r.replayed = true →
        m.after.store = m.before.store) ∧
    ∀ i c e, s.calls[i]? = some c → Request.SetsStatus c.request → c.prog = some (.fail e) →
      ∀ m ∈ ms, ∀ x, m.move = .act i x →
        m.after.store.statusChanges = m.before.store.statusChanges := by
  have hchained : Chained s.store := Chained.fresh.of_run hr
  refine ⟨fun m hm => hchained.mission.leads _ _ (hchained.missionStatus hm),
    fun i hi => hchained.incident.leads _ _ (hchained.incidentStatus hi),
    fun ms' t ht => ⟨fun m hm hst => completed_stays ht ?_, fun i hi hst => resolved_stays ht ?_⟩,
    fun m _ c => replayed_unchanged, fun i c e hc hsets hfail => failed_unchanged hr hc hsets hfail⟩
  · rw [hchained.missionStatus hm, hst]
  · rw [hchained.incidentStatus hi, hst]

end OpsControlPlane

namespace OpsControlPlane.Sample

open Calls StatusLog

def sameStatus : List (Move (brokerSystem broker)) :=
  .spawn (.setMissionStatus ⟨"alice", uuid 2, mission, "open"⟩) :: goOn 1 2 110 200

theorem same_status_recorded : ∃ ms s, Run (freshState broker) ms s ∧ ∃ m ∈ s.store.missions,
    ∃ e es, (missionEntity.log s.store).history m.id = e :: es ∧
      e.next ∉ missionEntity.transitions .opened := by
  have hday : ∃ s ∈ (freshState broker).exec (opening ++ sameStatus), ∃ m ∈ s.store.missions,
      ∃ e ∈ ((missionEntity.log s.store).history m.id).head?, e.next ∉
        missionEntity.transitions .opened := by
    decide +kernel
  obtain ⟨s, hs, m, hm, e, he, hno⟩ := hday
  obtain ⟨ms, hr, -⟩ := Run.of_exec hs
  obtain ⟨es, hes⟩ := List.head?_eq_some_iff.1 he
  exact ⟨ms, s, hr, m, hm, e, es, hes, hno⟩

/-- The rows are no chain of transitions. -/
theorem unchanged_status_recorded : ∃ ms s, Run (freshState broker) ms s ∧
    ∃ m ∈ s.store.missions, ¬Leads (fun s t => t ∈ missionEntity.transitions s) .opened
      ((missionEntity.log s.store).history m.id) m.status := by
  obtain ⟨ms, s, hr, m, hm, e, es, hes, hno⟩ := same_status_recorded
  refine ⟨ms, s, hr, m, hm, fun hleads => ?_⟩
  rw [hes] at hleads
  exact hno hleads.2.1

theorem lifecycles_chain_sample : ∃ ms s, Run (freshState broker) ms s ∧
    ∃ m ∈ s.store.missions, (missionEntity.log s.store).history m.id ≠ [] ∧
      Leads missionEntity.Moves .opened ((missionEntity.log s.store).history m.id) m.status := by
  obtain ⟨ms, s, hr, m, hm, e, es, hes, -⟩ := same_status_recorded
  exact ⟨ms, s, hr, m, hm, hes ▸ List.cons_ne_nil e es, (lifecycles_chain hr).1 m hm⟩

end OpsControlPlane.Sample
