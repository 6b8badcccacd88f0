import OpsControlPlane.Lib.Undisturbed
import Mathlib.Data.Nat.Notation

/-!
# Releases and rollbacks

`applyRelease` and `applyRollback` stop the units of a target, switch its current link, start the
units and check their health. Both are modelled from the reading of the current link on, under the
lock of the resource.

One operation of a run may fail, as `Fault` says: after how many others, whether it had its
effect, and with which exception. The operations after it succeed.
-/

namespace OpsRelease

open Calls

/-- What is raised: `OpsError` with its code, or an exception of another class. -/
inductive ReleaseError where
  | ops (code : String)
  | other (className : String)
deriving DecidableEq

def ReleaseError.className : ReleaseError → String
  | .ops _ => "OpsError"
  | .other className => className

def ReleaseError.tag : ReleaseError → String
  | .ops code => code
  | .other className => className

structure ReleaseTarget where
  id : String
  serviceUnits : List String
  /-- The registry refuses a repeated unit. -/
  nodup : serviceUnits.Nodup
  healthChecks : List String
  rollbackAutomatic : Bool

abbrev HealthResult : Type :=
  String × String

/-- What an event tells of the run. -/
inductive Outcome where
  | started (approvalId : String)
  /-- The error, what became of the previous release, and the class of the error of the
  restoration. -/
  | failed (error restored : String) (restoreError : Option String)
  | succeeded (previous : Option String) (health : List HealthResult)
deriving DecidableEq

structure AuditEvent where
  (event targetId releaseId planHash : String)
  outcome : Outcome
deriving DecidableEq

structure Fault where
  /-- How many operations succeed before it. -/
  after : ℕ
  /-- It fails once it has had its effect. -/
  effect : Bool
  error : ReleaseError

/-- The units that run, the current link and the audit log. -/
structure Host where
  running : String → Bool
  current : Option String
  log : List AuditEvent
  fault : Option Fault

inductive Verb where
  | start
  | stop
deriving DecidableEq

/-- What a run asks of the host. -/
inductive ReleaseOp where
  | currentRelease
  | append (e : AuditEvent)
  | stage
  | systemctl (verb : Verb) (unit : String)
  /-- The checks at the start of `_switch_current`. -/
  | checkLink
  | ensureUnder (release : String)
  | unlinkTemporary
  | symlink (release : String)
  /-- The temporary link takes the place of the current one. -/
  | replaceLink (release : String)
  | unlinkCurrent
  | probe (check : String)

abbrev ReleaseOp.Reply : ReleaseOp → Type
  | .currentRelease => Option String
  | _ => Unit

abbrev releaseInterface : Interface :=
  ⟨ReleaseOp, fun o => Except ReleaseError o.Reply⟩

abbrev ReleaseProg (α : Type) : Type :=
  Prog releaseInterface ReleaseError α

/-- Ask an operation, and fail as it fails. -/
def releaseOp (o : ReleaseOp) : ReleaseProg o.Reply := do
  let r : Except ReleaseError o.Reply ← Prog.perform (I := releaseInterface) o
  Prog.ofExcept r

def ReleaseOp.effect (h : Host) : ReleaseOp → Host
  | .append e => { h with log := h.log ++ [e] }
  | .systemctl verb unit =>
    { h with running := fun u => if u = unit then verb = .start else h.running u }
  | .replaceLink release => { h with current := some release }
  | .unlinkCurrent => { h with current := none }
  | _ => h

def ReleaseOp.answer (h : Host) : (o : ReleaseOp) → o.Reply
  | .currentRelease => h.current
  | .append _ => ()
  | .stage => ()
  | .systemctl _ _ => ()
  | .checkLink => ()
  | .ensureUnder _ => ()
  | .unlinkTemporary => ()
  | .symlink _ => ()
  | .replaceLink _ => ()
  | .unlinkCurrent => ()
  | .probe _ => ()

def performRelease (o : ReleaseOp) (_ : Unit) (h : Host) : Except ReleaseError o.Reply × Host :=
  match h.fault with
  | none => (.ok (o.answer h), o.effect h)
  | some f =>
    match f.after with
    | 0 => (.error f.error, if f.effect then o.effect { h with fault := none }
        else { h with fault := none })
    | n + 1 => (.ok (o.answer h), o.effect { h with fault := some { f with after := n } })

def controlServices (verb : Verb) : List String → ReleaseProg Unit
  | [] => return ()
  | unit :: units => do
    let _ : Unit ← releaseOp (.systemctl verb unit)
    controlServices verb units

def switchCurrent : Option String → ReleaseProg Unit
  | none => do
    let _ : Unit ← releaseOp .checkLink
    releaseOp .unlinkCurrent
  | some release => do
    let _ : Unit ← releaseOp .checkLink
    let _ : Unit ← releaseOp (.ensureUnder release)
    let _ : Unit ← releaseOp .unlinkTemporary
    let replaced ← Prog.attempt (do
      let _ : Unit ← releaseOp (.symlink release)
      releaseOp (.replaceLink release))
    let _ : Unit ← releaseOp .unlinkTemporary
    Prog.ofExcept replaced

def releaseHealth : List String → ReleaseProg (List HealthResult)
  | [] => return []
  | check :: checks => do
    match ← Prog.attempt (releaseOp (.probe check)) with
    | .ok _ => do
      let results ← releaseHealth checks
      return (check, "ok") :: results
    | .error (.ops _) => do
      let results ← releaseHealth checks
      return (check, "error") :: results
    | .error (.other className) => .fail (.other className)

/-- The body of the `try` up to the switch. -/
def stopAndSwitch (target : ReleaseTarget) (release : String) : ReleaseProg Unit := do
  controlServices .stop target.serviceUnits
  switchCurrent (some release)

/-- The body of the `try` from the switch on. -/
def startAndCheck (target : ReleaseTarget) : ReleaseProg (List HealthResult) := do
  controlServices .start target.serviceUnits
  let health ← releaseHealth target.healthChecks
  if health.any fun result => result.2 ≠ "ok" then .fail (.ops "health_failed")
  else return health

def restorePrevious (target : ReleaseTarget) (previous : Option String) : ReleaseProg Unit := do
  controlServices .stop target.serviceUnits
  switchCurrent previous
  controlServices .start target.serviceUnits

/-- What a run is about: its target, its release and its plan. -/
structure Order where
  target : ReleaseTarget
  (release planHash approvalId : String)

def Order.event (o : Order) (event : String) (outcome : Outcome) : AuditEvent :=
  ⟨event, o.target.id, o.release, o.planHash, outcome⟩

/-- The end of the handler of `apply_release`. -/
def failRelease (o : Order) (exc : ReleaseError) (rollback : String)
    (rollbackError : Option String) : ReleaseProg Unit := do
  let _ : Unit ← releaseOp
    (.append (o.event "release_apply_failed" (.failed exc.tag rollback rollbackError)))
  match rollbackError, exc with
  | some _, _ => .fail (.ops "rollback_failed")
  | none, .ops code => .fail (.ops code)
  | none, .other _ => .fail (.ops "deploy_failed")

/-- The `try` of `apply_release`, its handler, and what follows. -/
def deployRelease (o : Order) (previous : Option String) : ReleaseProg Unit := do
  match ← Prog.attempt (stopAndSwitch o.target o.release) with
  | .error exc => failRelease o exc "not-needed" none
  | .ok _ => do
    match ← Prog.attempt (startAndCheck o.target) with
    | .error exc =>
      if o.target.rollbackAutomatic then do
        match ← Prog.attempt (restorePrevious o.target previous) with
        | .ok _ => failRelease o exc "completed" none
        | .error restoreExc => failRelease o exc "failed" (some restoreExc.className)
      else failRelease o exc "approval-required" none
    | .ok health =>
      releaseOp (.append (o.event "release_apply_succeeded" (.succeeded previous health)))

/-- `apply_release`, from the reading of the current link on. -/
def applyRelease (o : Order) : ReleaseProg Unit := do
  let previous : Option String ← releaseOp .currentRelease
  let _ : Unit ← releaseOp (.append (o.event "release_apply_started" (.started o.approvalId)))
  let _ : Unit ← releaseOp .stage
  deployRelease o previous

/-- The end of the handler of `apply_rollback`. -/
def failRollback (o : Order) (exc : ReleaseError) (restore : String) : ReleaseProg Unit := do
  let _ : Unit ← releaseOp
    (.append (o.event "release_rollback_failed" (.failed exc.tag restore none)))
  match exc with
  | .ops code => .fail (.ops code)
  | .other _ => .fail (.ops "rollback_failed")

def failRestore (o : Order) (exc restoreExc : ReleaseError) : ReleaseProg Unit := do
  let _ : Unit ← releaseOp (.append (o.event "release_rollback_failed"
    (.failed exc.className "failed" (some restoreExc.className))))
  .fail (.ops "rollback_failed")

/-- The `try` of `apply_rollback`, its handler, and what follows. -/
def deployRollback (o : Order) (previous : Option String) : ReleaseProg Unit := do
  match ← Prog.attempt (stopAndSwitch o.target o.release) with
  | .error exc => failRollback o exc "not-switched"
  | .ok _ => do
    match ← Prog.attempt (startAndCheck o.target) with
    | .error exc => do
      match ← Prog.attempt (restorePrevious o.target previous) with
      | .ok _ => failRollback o exc "previous-restored"
      | .error restoreExc => failRestore o exc restoreExc
    | .ok health =>
      releaseOp (.append (o.event "release_rollback_succeeded" (.succeeded previous health)))

/-- `apply_rollback`, from the reading of the current link on. -/
def applyRollback (o : Order) : ReleaseProg Unit := do
  let previous : Option String ← releaseOp .currentRelease
  if previous = some o.release then do
    let health ← releaseHealth o.target.healthChecks
    if health.any fun result => result.2 ≠ "ok" then .fail (.ops "health_failed")
    else return ()
  else do
    let _ : Unit ← releaseOp
      (.append (o.event "release_rollback_started" (.started o.approvalId)))
    deployRollback o previous

end OpsRelease
