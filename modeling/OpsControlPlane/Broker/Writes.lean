import OpsControlPlane.Broker.System

/-!
# What the transactions write

`Tx.Writes` lists the tables that a committed transaction can touch before it appends its events,
without the conditions it has checked, and `Tx.writes` says that there is nothing else. So a table
that none of its cases touches is kept, and one that only grows keeps its rows.
-/

namespace OpsControlPlane

open JsonText Calendar Transaction Calls

variable [Platform]

def Tx.RewritesActions : Tx → Prop
  | expirePending _ | expireApproved _ | startAction _ _ | finishAction _ _
  | decideApproval _ => True
  | _ => False

inductive Tx.Writes : Tx → Db → Db → Prop
  | nothing (t : Tx) (db : Db) : Writes t db db
  | mission (a : NewMission) (db : Db) : Writes (.createMission a) db (db.addMission a.row)
  | incident (a : NewIncident) (db : Db) : Writes (.createIncident a) db (db.addIncident a.row)
  | missionStatus (a : StatusChange MissionStatus) (previous : MissionStatus) (now : String)
      (db : Db) : Writes (.setMissionStatus a) db
        (a.carried missionEntity (followedMission a.entityId a.status) previous now db)
  | incidentStatus (a : StatusChange IncidentStatus) (previous : IncidentStatus) (now : String)
      (db : Db) : Writes (.setIncidentStatus a) db
        (a.carried incidentEntity (fun _ db => db) previous now db)
  | action (a : NewAction) (r : ActionRow) (db : Db) :
      Writes (.insertAction a) db (db.addAction r)
  | usage (a : NewAction) (r : ActionRow) (u : BudgetRow) (db : Db) :
      Writes (.insertAction a) db ((db.addAction r).addUsage u)
  | actions (t : Tx) (p : ActionRow → Bool) (f : ActionRow → ActionRow) (db : Db)
      (ht : t.RewritesActions) : Writes t db (db.updateActions p f)
  | decide (a : DecideArgs) (expiresAt : String) (db : Db) :
      Writes (.decideApproval a) db (db.decide a expiresAt)
  | context (a : UpdateArgs) (p : MissionPatch) (db : Db) :
      Writes (.updateMissionState a p) db (db.updateContext a p)
  | checkpoint (a : NewCheckpoint) (db : Db) :
      Writes (.createCheckpoint a) db (db.addCheckpoint a)
  | record (a : NewRecord) (db : Db) : Writes (.addRecord a) db
      { db with missionRecords := db.missionRecords ++ [a.row] }
  | noClaim (a : ClaimArgs) (r : ClaimOperationRow) (db : Db) :
      Writes (.claimNext a) db (db.addClaimOperation r)
  | claim (a : ClaimArgs) (r : ClaimOperationRow) (missionId : String) (db : Db) :
      Writes (.claimNext a) db ((db.updateRuntime missionId a.claim).addClaimOperation r)
  | lease (a : LeaseArgs) (r : ClaimOperationRow) {db db' : Db} (h : Leases a db db') :
      Writes (.missionLease a) db (db'.addClaimOperation r)
  | lock (a : LockArgs) (r : LockOperationRow) (projectId : String) (v : Value) {db db' : Db}
      (h : LockEffect a projectId db db' v) :
      Writes (.resourceLock a) db (db'.addLockOperation r)
  | trace (a : NewTrace) (db : Db) : Writes (.recordModelTrace a) db (db.addTrace a)
  | details (a : UpdateArgs) (p : IncidentPatch) (db : Db) :
      Writes (.updateIncidentDetails a p) db (db.updateDetails a p)
  | artifacts (a : UpdateArgs) (p : ArtifactsPatch) (db : Db) :
      Writes (.recordActionArtifacts a p) db (db.recordArtifacts a p)
  | recover (actorId : String) (now : DateTime) (db : Db) :
      Writes (.recoverAfterRestart actorId now) db (db.recover now)

variable {x : TxEnv}

theorem Keyed.wrote {R α : Type} {found : Option R} {same : R → Prop} {A : R → α → Prop}
    {N : α → Conn → Prop} {c c' : Conn} {r : α} {t : Tx} (h : Keyed found same A N c r c')
    (hN : N r c' → ∃ db' ds, t.Writes c.db db' ∧ Logs x ⟨db', c.drawn⟩ ds c') :
    ∃ db' ds, t.Writes c.db db' ∧ Logs x ⟨db', c.drawn⟩ ds c' := by
  rcases h with ⟨prior, -, -, -, rfl⟩ | ⟨-, h⟩
  · exact ⟨c'.db, [], .nothing t c'.db, .nil c'⟩
  · exact hN h

/-- A committed transaction writes what `Tx.Writes` says, and appends its events. -/
theorem Tx.writes {b : Broker} {t : Tx} {db db' : Db} {r : t.Reply}
    (h : t.commit b x db = (.ok r, db')) :
    ∃ db₁ ds c, t.Writes db db₁ ∧ Logs x ⟨db₁, 0⟩ ds c ∧ c.db = db' := by
  obtain ⟨c, hrun, hdb, -⟩ := Tx.commit_ok h
  suffices hwrote : ∃ db₁ ds, t.Writes db db₁ ∧ Logs x ⟨db₁, 0⟩ ds c from
    hwrote.elim fun db₁ ⟨ds, hw, hl⟩ => ⟨db₁, ds, c, hw, hl, hdb⟩
  cases t with
  | auditDenial d => exact ⟨db, _, .nothing _ db, (auditDenial_spec d x ⟨db, 0⟩).ok hrun⟩
  | createMission a =>
    obtain ⟨-, -, hl⟩ := (createMission_spec a x ⟨db, 0⟩).ok hrun
    exact ⟨_, _, .mission a db, hl⟩
  | createIncident a =>
    obtain ⟨-, -, hl⟩ := (createIncident_spec a x ⟨db, 0⟩).ok hrun
    exact ⟨_, _, .incident a db, hl⟩
  | setMissionStatus a =>
    obtain ⟨_, st, -, ⟨_, -, -, -, rfl⟩ | ⟨-, -, -, hl⟩⟩ :=
      (setEntityStatus_spec (missionEntity_lawful a) x ⟨db, 0⟩).ok hrun
    · exact ⟨db, [], .nothing _ db, .nil _⟩
    · exact ⟨_, _, .missionStatus a st _ db, hl⟩
  | setIncidentStatus a =>
    obtain ⟨_, st, -, ⟨_, -, -, -, rfl⟩ | ⟨-, -, -, hl⟩⟩ :=
      (setEntityStatus_spec (incidentEntity_lawful a) x ⟨db, 0⟩).ok hrun
    · exact ⟨db, [], .nothing _ db, .nil _⟩
    · exact ⟨_, _, .incidentStatus a st _ db, hl⟩
  | insertAction a =>
    obtain ⟨-, ⟨-, -, hl⟩ | ⟨-, _, key, _, -, ⟨-, -, hl⟩ | ⟨-, -, -, hl⟩⟩⟩ :=
      (insertAction_spec a x ⟨db, 0⟩).ok hrun
    · exact ⟨_, _, .action a _ db, hl⟩
    · exact ⟨_, _, .action a _ db, hl⟩
    · exact ⟨_, _, .usage a _ _ db, hl⟩
  | expirePending a =>
    exact ⟨_, _, .actions _ _ _ db trivial, (expirePending_spec a x ⟨db, 0⟩).ok hrun⟩
  | expireApproved a =>
    exact ⟨_, _, .actions _ _ _ db trivial, (expireApproved_spec a x ⟨db, 0⟩).ok hrun⟩
  | startAction a runbookId =>
    exact ⟨_, _, .actions _ _ _ db trivial, ((startAction_spec a x ⟨db, 0⟩ runbookId).ok hrun).2⟩
  | finishAction a result =>
    exact ⟨_, _, .actions _ _ _ db trivial, ((finishAction_spec a x ⟨db, 0⟩ result).ok hrun).2⟩
  | decideApproval a =>
    obtain ⟨action, -, ⟨_, -, -, -, rfl⟩ | ⟨_, _, _, _, -, -, hl⟩ | ⟨-, rfl⟩ | ⟨-, -, hl⟩ |
      ⟨-, expiresAt, _, -, -, -, -, -, -, hl⟩⟩ := (decideApproval_spec b.policy a x ⟨db, 0⟩).ok hrun
    · exact ⟨db, [], .nothing _ db, .nil _⟩
    · exact ⟨db, _, .nothing _ db, hl⟩
    · exact ⟨db, [], .nothing _ db, .nil _⟩
    · exact ⟨_, _, .actions _ _ _ db trivial, hl⟩
    · exact ⟨_, _, .decide a expiresAt db, hl⟩
  | updateMissionState a p =>
    obtain ⟨v, -, hk⟩ := (updateMissionState_spec b.rbac a p x ⟨db, 0⟩).ok hrun
    exact hk.wrote fun h => ⟨_, _, .context a p db, h.2.2⟩
  | createCheckpoint a =>
    obtain ⟨v, -, hk⟩ := (createCheckpoint_spec b.rbac a x ⟨db, 0⟩).ok hrun
    exact hk.wrote fun h => ⟨_, _, .checkpoint a db, h.2⟩
  | addRecord a =>
    obtain ⟨v, -, -, hk⟩ := (addRecord_spec b.rbac a x ⟨db, 0⟩).ok hrun
    exact hk.wrote fun h => ⟨_, _, .record a db, h.2⟩
  | claimNext a =>
    obtain ⟨_, _, -, -, -, rfl⟩ | ⟨-, ⟨-, -, rfl⟩ | ⟨v, w, _, _, -, -, hl⟩⟩ :=
      (claimNext_spec b.rbac a x ⟨db, 0⟩).ok hrun
    · exact ⟨db, [], .nothing _ db, .nil _⟩
    · exact ⟨_, [], .noClaim a _ db, .nil _⟩
    · exact ⟨_, _, .claim a _ _ db, hl⟩
  | missionLease a =>
    obtain ⟨v, -, hk⟩ := (missionLease_spec b.rbac a x ⟨db, 0⟩).ok hrun
    exact hk.wrote fun ⟨_, _, _, _, hlease, _, _, _, hl⟩ => ⟨_, _, .lease a _ hlease, hl⟩
  | resourceLock a =>
    obtain ⟨v, -, hk⟩ := (resourceLock_spec b.rbac a x ⟨db, 0⟩).ok hrun
    exact hk.wrote fun ⟨_, _, heff, _, hl⟩ => ⟨_, _, .lock a _ _ _ heff, hl⟩
  | recordModelTrace a =>
    obtain ⟨v, -, hk⟩ := (recordModelTrace_spec b.rbac a x ⟨db, 0⟩).ok hrun
    exact hk.wrote fun h => ⟨_, _, .trace a db, h.2.2⟩
  | updateIncidentDetails a p =>
    obtain ⟨i, -, -, hk⟩ := (updateIncidentDetails_spec b.rbac a p x ⟨db, 0⟩).ok hrun
    exact hk.wrote fun h => ⟨_, _, .details a p db, h.2⟩
  | recordActionArtifacts a p =>
    obtain ⟨i, -, hk⟩ := (recordActionArtifacts_spec b.rbac a p x ⟨db, 0⟩).ok hrun
    exact hk.wrote fun h => ⟨_, _, .artifacts a p db, h.2.2⟩
  | recoverAfterRestart actorId now =>
    exact ⟨_, _, .recover actorId now db,
      ((recoverAfterRestart_spec actorId now x ⟨db, 0⟩).ok hrun).2⟩

end OpsControlPlane
