import OpsControlPlane.Lib.Calls
import OpsControlPlane.Broker.Details

/-!
# What a call of the broker can ask

A method of the broker samples the clock, draws UUIDs, reads the database, commits a
transaction or runs a command. `Op` lists these operations, `Tx` the transactions, and
`perform` says what each operation answers and does to the database. A read is a
snapshot, and a transaction commits what it returned or leaves the database as it was
(`Tx.commit_cases`).

A `Broker` carries what the constructor of `BrokerService` checks.
-/

set_option linter.unusedSectionVars false

namespace OpsControlPlane

open JsonText Calendar Transaction

variable [Platform]

/-- `BrokerService`: its configuration, with the budgets of class B under the policy. -/
structure Broker where
  registry : RunbookRegistry
  rbac : RBACPolicy
  policy : ActionPolicy
  budgets : ∀ r ∈ registry.runbooks, ∀ b ∈ r.budget,
    policy.validRunbookBudget b.maxAttempts b.windowSeconds

/-! ## Transactions -/

inductive Tx where
  | auditDenial (d : Denial)
  | createMission (a : NewMission)
  | createIncident (a : NewIncident)
  | setMissionStatus (a : StatusChange MissionStatus)
  | setIncidentStatus (a : StatusChange IncidentStatus)
  | insertAction (a : NewAction)
  | expirePending (a : ActionWrite)
  | expireApproved (a : ActionWrite)
  | startAction (a : ActionWrite) (runbookId : String)
  | finishAction (a : ActionWrite) (result : ExecutionResult)
  | decideApproval (a : DecideArgs)
  | updateMissionState (a : UpdateArgs) (p : MissionPatch)
  | createCheckpoint (a : NewCheckpoint)
  | addRecord (a : NewRecord)
  | claimNext (a : ClaimArgs)
  | missionLease (a : LeaseArgs)
  | resourceLock (a : LockArgs)
  | recordModelTrace (a : NewTrace)
  | updateIncidentDetails (a : UpdateArgs) (p : IncidentPatch)
  | recordActionArtifacts (a : UpdateArgs) (p : ArtifactsPatch)
  | recoverAfterRestart (actorId : String) (now : DateTime)

namespace Tx

/-- What a transaction hands on to its method. -/
def Reply : Tx → Type
  | auditDenial _ => Unit
  | createMission _ => Option MissionRow
  | createIncident _ => Option IncidentRow
  | setMissionStatus _ => StatusReply MissionStatus
  | setIncidentStatus _ => StatusReply IncidentStatus
  | insertAction _ => Bool × Option ActionRow
  | expirePending _ => Unit
  | expireApproved _ => Unit
  | startAction _ _ => Unit
  | finishAction _ _ => Option ActionRow
  | decideApproval _ => DecideReply
  | updateMissionState _ _ => MissionView × Bool
  | createCheckpoint _ => Option CheckpointRow × Bool
  | addRecord _ => Option RecordRow × Bool
  | claimNext _ => Option Value
  | missionLease _ => Value
  | resourceLock _ => Value
  | recordModelTrace _ => Option TraceRow × Bool
  | updateIncidentDetails _ _ => Option IncidentView × Bool
  | recordActionArtifacts _ _ => Option ArtifactsRow × Bool
  | recoverAfterRestart _ _ => RecoveryReport

variable (b : Broker)

def run : (t : Tx) → BrokerTxn t.Reply
  | auditDenial d => OpsControlPlane.auditDenial d
  | createMission a => OpsControlPlane.createMission a
  | createIncident a => OpsControlPlane.createIncident a
  | setMissionStatus a => setEntityStatus missionEntity a
  | setIncidentStatus a => setEntityStatus incidentEntity a
  | insertAction a => OpsControlPlane.insertAction a
  | expirePending a => OpsControlPlane.expirePending a
  | expireApproved a => OpsControlPlane.expireApproved a
  | startAction a runbookId => OpsControlPlane.startAction a runbookId
  | finishAction a result => OpsControlPlane.finishAction a result
  | decideApproval a => OpsControlPlane.decideApproval b.policy a
  | updateMissionState a p => OpsControlPlane.updateMissionState b.rbac a p
  | createCheckpoint a => OpsControlPlane.createCheckpoint b.rbac a
  | addRecord a => OpsControlPlane.addRecord b.rbac a
  | claimNext a => OpsControlPlane.claimNext b.rbac a
  | missionLease a => OpsControlPlane.missionLease b.rbac a
  | resourceLock a => OpsControlPlane.resourceLock b.rbac a
  | recordModelTrace a => OpsControlPlane.recordModelTrace b.rbac a
  | updateIncidentDetails a p => OpsControlPlane.updateIncidentDetails b.rbac a p
  | recordActionArtifacts a p => OpsControlPlane.recordActionArtifacts b.rbac a p
  | recoverAfterRestart actorId now => OpsControlPlane.recoverAfterRestart actorId now

/-- The answer of a transaction and the database after it. -/
def commit (t : Tx) (x : TxEnv) (db : Db) : Except PyError t.Reply × Db :=
  (((t.run b).commit x ⟨db, 0⟩).1, ((t.run b).commit x ⟨db, 0⟩).2.db)

def appended (t : Tx) (x : TxEnv) (db : Db) : ℕ :=
  ((t.run b).commit x ⟨db, 0⟩).2.drawn

variable {b}

theorem commit_cases (t : Tx) (x : TxEnv) (db : Db) :
    (∃ r c, t.run b x ⟨db, 0⟩ = .ok (r, c) ∧ t.commit b x db = (.ok r, c.db) ∧
      t.appended b x db = c.drawn) ∨
    ∃ e, t.run b x ⟨db, 0⟩ = .error e ∧ t.commit b x db = (.error e, db) ∧
      t.appended b x db = 0 := by
  rcases Txn.commit_cases (t.run b) x ⟨db, 0⟩ with ⟨r, c, hm, hc⟩ | ⟨e, hm, hc⟩
  · exact Or.inl ⟨r, c, hm, by rw [commit, hc], by rw [appended, hc]⟩
  · exact Or.inr ⟨e, hm, by rw [commit, hc], by rw [appended, hc]⟩

variable {x : TxEnv} {db db' : Db}

theorem commit_ok {t : Tx} {r : t.Reply} (h : t.commit b x db = (.ok r, db')) :
    ∃ c, t.run b x ⟨db, 0⟩ = .ok (r, c) ∧ c.db = db' ∧ t.appended b x db = c.drawn := by
  rcases commit_cases (b := b) t x db with ⟨r', c, hm, hc, ha⟩ | ⟨e, -, hc, -⟩
  · obtain ⟨hr, hdb⟩ := Prod.mk.inj (hc.symm.trans h)
    obtain rfl := Except.ok.inj hr
    exact ⟨c, hm, hdb, ha⟩
  · cases (Prod.mk.inj (hc.symm.trans h)).1

theorem commit_error {t : Tx} {e : PyError} (h : t.commit b x db = (.error e, db')) : db' = db := by
  rcases commit_cases (b := b) t x db with ⟨r', c, -, hc, -⟩ | ⟨e', -, hc, -⟩
  · cases (Prod.mk.inj (hc.symm.trans h)).1
  · exact (Prod.mk.inj (hc.symm.trans h)).2.symm

end Tx

/-! ## Operations -/

/-- The operations of a call. The command of an action is run under the identifier of the
action. -/
inductive Op where
  /-- `self.clock()`. -/
  | now
  | uuid4
  | read
  | tx (t : Tx)
  /-- `self.executor.execute(...)`. -/
  | execute (actionId : String) (argv : List String) (timeoutSeconds outputMaxBytes : ℕ)

/-- The answer of an operation. The executor answers nothing if it raises. -/
def Op.Ans : Op → Type
  | now => DateTime
  | uuid4 => String
  | read => Db
  | tx t => Except PyError t.Reply
  | execute _ _ _ _ => Option ExecutionResult

/-- What the environment chooses when an operation is performed. -/
structure Choice where
  time : DateTime
  bits : ℕ → ℕ
  outcome : Option ExecutionResult

def Choice.env (x : Choice) : TxEnv :=
  ⟨x.time, x.bits⟩

/-- The answer of an operation and the database after it. -/
def perform (b : Broker) : (o : Op) → Choice → Db → o.Ans × Db
  | .now, x, db => (x.time, db)
  | .uuid4, x, db => (OpsControlPlane.uuid4 (x.bits 0), db)
  | .read, _, db => (db, db)
  | .tx t, x, db => t.commit b x.env db
  | .execute _ _ _ _, x, db => (x.outcome, db)

abbrev brokerInterface : Calls.Interface :=
  ⟨Op, Op.Ans⟩

abbrev Method (α : Type) : Type :=
  Calls.Prog brokerInterface PyError α

def now : Method DateTime :=
  Calls.Prog.perform (I := brokerInterface) .now

def newUuid : Method String :=
  Calls.Prog.perform (I := brokerInterface) .uuid4

/-- `with self.database.read()`. -/
def snapshot : Method Db :=
  Calls.Prog.perform (I := brokerInterface) .read

/-- `with self.database.transaction()`. An exception leaves the method. -/
def transact (t : Tx) : Method t.Reply := do
  let r ← Calls.Prog.perform (I := brokerInterface) (.tx t)
  Calls.Prog.ofExcept r

/-- `self.executor.execute(...)`. -/
def execute (actionId : String) (argv : List String) (timeoutSeconds outputMaxBytes : ℕ) :
    Method (Option ExecutionResult) :=
  Calls.Prog.perform (I := brokerInterface)
    (.execute actionId argv timeoutSeconds outputMaxBytes)

/-- The value, or the exception if there is none. -/
def expect {α : Type} (a : Option α) (e : PyError) : Method α :=
  match a with
  | some a => pure a
  | none => .fail e

/-- The exception unless the condition holds. -/
def demand (c : Prop) [Decidable c] (e : PyError) : Method Unit :=
  if c then pure () else .fail e

section rules

open Calls.Prog

abbrev Said : Type :=
  Calls.Prog.Said brokerInterface

def Said.now (t : DateTime) : Said :=
  ⟨.now, t⟩

def Said.uuid (u : String) : Said :=
  ⟨.uuid4, u⟩

def Said.read (db : Db) : Said :=
  ⟨.read, db⟩

/-- A transaction was asked for, with its outcome. -/
def Said.tx (t : Tx) (r : Except PyError t.Reply) : Said :=
  ⟨.tx t, r⟩

/-- A command was run, with its outcome. -/
def Said.execute (actionId : String) (argv : List String) (timeoutSeconds outputMaxBytes : ℕ)
    (r : Option ExecutionResult) : Said :=
  ⟨.execute actionId argv timeoutSeconds outputMaxBytes, r⟩

variable {α : Type} {P : List Said → Op → Prop} {E : List Said → PyError → Prop}
  {h : List Said}

@[simp] theorem trail_now {Q : List Said → DateTime → Prop} :
    Trail P Q E now h ↔ P h .now ∧ ∀ t, Q (h ++ [Said.now t]) t :=
  Iff.rfl

@[simp] theorem trail_newUuid {Q : List Said → String → Prop} :
    Trail P Q E newUuid h ↔ P h .uuid4 ∧ ∀ u, Q (h ++ [Said.uuid u]) u :=
  Iff.rfl

@[simp] theorem trail_snapshot {Q : List Said → Db → Prop} :
    Trail P Q E snapshot h ↔ P h .read ∧ ∀ db, Q (h ++ [Said.read db]) db :=
  Iff.rfl

theorem trail_transact {t : Tx} {Q : List Said → t.Reply → Prop} :
    Trail P Q E (transact t) h ↔ P h (.tx t) ∧ (∀ r, Q (h ++ [Said.tx t (.ok r)]) r) ∧
      ∀ e, E (h ++ [Said.tx t (.error e)]) e := by
  refine (trail_bind _ _ h).trans (and_congr Iff.rfl ⟨fun hall => ⟨fun r => hall (.ok r),
    fun e => hall (.error e)⟩, fun hall r => ?_⟩)
  cases r with
  | ok r => exact hall.1 r
  | error e => exact hall.2 e

variable {Q : List Said → α → Prop}

theorem trail_transact_bind {t : Tx} {f : t.Reply → Method α} :
    Trail P Q E (transact t >>= f) h ↔ P h (.tx t) ∧
      (∀ r, Trail P Q E (f r) (h ++ [Said.tx t (.ok r)])) ∧
      ∀ e, E (h ++ [Said.tx t (.error e)]) e :=
  (trail_bind _ _ h).trans trail_transact

@[simp] theorem trail_execute {actionId : String} {argv : List String}
    {timeoutSeconds outputMaxBytes : ℕ} {Q : List Said → Option ExecutionResult → Prop} :
    Trail P Q E (execute actionId argv timeoutSeconds outputMaxBytes) h ↔
      P h (.execute actionId argv timeoutSeconds outputMaxBytes) ∧
        ∀ r, Q (h ++ [Said.execute actionId argv timeoutSeconds outputMaxBytes r]) r :=
  Iff.rfl

@[simp] theorem trail_expect (a : Option α) (e : PyError) :
    Trail P Q E (expect a e) h ↔ (∀ b, a = some b → Q h b) ∧ (a = none → E h e) := by
  cases a <;> simp [expect]

@[simp] theorem trail_demand {Q : List Said → Unit → Prop} (c : Prop) [Decidable c]
    (e : PyError) : Trail P Q E (demand c e) h ↔ (c → Q h ()) ∧ (¬c → E h e) := by
  unfold demand
  split_ifs with hc <;> simp [hc]

end rules

end OpsControlPlane
