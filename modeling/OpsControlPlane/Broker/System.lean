import OpsControlPlane.Broker.Api

/-!
# The broker as a system of calls

A `Request` is a call of a method or of an endpoint with its arguments. `brokerSystem` is
the pool of such calls over one database: any number of callers and of broker processes,
in any interleaving of their operations, with crashes between any two of them. A process
that restarts is a call of `recover_after_restart`.
-/

namespace OpsControlPlane

open Calls

variable [Platform]

inductive Request where
  | createMission (q : CreateMission)
  | createIncident (q : CreateIncident)
  | setMissionStatus (q : SetStatus)
  | setIncidentStatus (q : SetStatus)
  | requestAction (q : RequestAction)
  | executeAction (q : ExecuteAction)
  | decideApproval (q : DecideApproval)
  | updateMissionState (q : UpdateMission)
  | createCheckpoint (q : CreateCheckpoint)
  | addRecord (q : AddRecord)
  | claimNext (q : ClaimNext)
  | missionLease (q : MissionLease)
  | acquireResourceLock (q : LockLease)
  | resourceLockLease (q : LockLease)
  | recordModelTrace (q : RecordTrace)
  | updateIncidentDetails (q : UpdateIncident)
  | recordActionArtifacts (q : RecordArtifacts)
  | recoverAfterRestart (actorId : String)
  | zulipPending (header : String) (limit offset : ℤ)
  | zulipCreate (header requestId projectId title : String)
  | zulipStatus (header missionId : String)
  | zulipResume (header missionId requestId : String)
  | zulipDecide (header : String) (q : DecideApproval)

def Request.program (b : Broker) : Request → Method Value
  | createMission q => createMissionMethod b q
  | createIncident q => createIncidentMethod b q
  | setMissionStatus q => setMissionStatusMethod b q
  | setIncidentStatus q => setIncidentStatusMethod b q
  | requestAction q => requestActionMethod b q
  | executeAction q => executeActionMethod b q
  | decideApproval q => decideApprovalMethod q
  | updateMissionState q => updateMissionStateMethod q
  | createCheckpoint q => createCheckpointMethod q
  | addRecord q => addRecordMethod q
  | claimNext q => claimNextMethod b q
  | missionLease q => missionLeaseMethod q
  | acquireResourceLock q => acquireResourceLockMethod q
  | resourceLockLease q => resourceLockLeaseMethod q
  | recordModelTrace q => recordModelTraceMethod q
  | updateIncidentDetails q => updateIncidentDetailsMethod q
  | recordActionArtifacts q => recordActionArtifactsMethod q
  | recoverAfterRestart actorId => recoverAfterRestartMethod actorId
  | zulipPending header limit offset => OpsControlPlane.zulipPending b header limit offset
  | zulipCreate header requestId projectId title =>
    OpsControlPlane.zulipCreate b header requestId projectId title
  | zulipStatus header missionId => OpsControlPlane.zulipStatus b header missionId
  | zulipResume header missionId requestId =>
    OpsControlPlane.zulipResume b header missionId requestId
  | zulipDecide header q => OpsControlPlane.zulipDecide header q

/-- The broker: its calls over its database. -/
abbrev brokerSystem (b : Broker) : System where
  I := brokerInterface
  Err := PyError
  Res := Value
  Store := Db
  Request := Request
  Choice := Choice
  program := Request.program b
  perform := perform b

def freshState (b : Broker) : State (brokerSystem b) :=
  ⟨Db.fresh, []⟩

end OpsControlPlane

/-! ## A sample broker

A host with few floats and a short digest, and a broker with one runbook of each class and
two actors, one of which may approve. -/

namespace OpsControlPlane.Sample

open Calls

/-- A digest of a text: a checksum of its bytes. -/
def digest (s : String) : String :=
  toString (s.toByteArray.data.toList.foldl (fun h b => (31 * h + b.toNat) % 2 ^ 61) 7)

@[reducible] def platformWith (digest : String → String) : Platform where
  Flt := Unit
  text := ⟨fun _ => ['0', '.', '0'], fun _ => ()⟩
  floatOfInt _ := some ()
  inUnit _ := true
  sha256 := digest
  isAlnum _ := false
  isControl c := c.toNat < 32
  decimal _ := none
  fromIsoformat _ := none

scoped instance platform : Platform :=
  platformWith digest

def runbook (id : String) (actionClass : ActionClass) (budget : Option BudgetSpec)
    (hid : isRunbookId id = true) (hiff : budget.isSome ↔ actionClass = .b)
    (hbudget : ∀ b ∈ budget, b.keyTemplate = [] ∧ (1 ≤ b.maxAttempts ∧ b.maxAttempts ≤ 10) ∧
      1 ≤ b.windowSeconds ∧ b.windowSeconds ≤ 86400) : Runbook where
  id := id
  version := 1
  project := "web"
  actionClass := actionClass
  description := "sample"
  timeoutSeconds := 60
  argvTemplate := some ["/usr/bin/run"]
  parameters := []
  budget := budget
  outputMaxBytes := 100
  id_shape := hid
  project_shape := by decide
  description_bounds := by decide
  parameters_nodup := by simp [JsonText.keys]
  parameters_names := by simp [JsonText.keys]
  parameters_safe := by simp
  argv_or_c := by simp
  argv_absolute _ hargv := by
    obtain rfl := Option.mem_some_iff.1 hargv
    exact ⟨_, _, rfl, by decide⟩
  argv_placeholders := by
    rintro argv hargv item hitem name hname
    obtain rfl := Option.mem_some_iff.1 hargv
    obtain rfl := List.mem_singleton.1 hitem
    cases hname
  budget_iff := hiff
  budget_fields b hb name hname := by
    rw [(hbudget b hb).1] at hname
    cases hname
  budget_bounds b hb := (hbudget b hb).2

def inspect : Runbook :=
  runbook "inspect" .a none (by decide) (by decide) (by simp)

def restart : Runbook :=
  runbook "restart" .b (some ⟨[], 1, 600⟩) (by decide) (by decide) (by simp)

def deploy : Runbook :=
  runbook "deploy" .c none (by decide) (by decide) (by simp)

def broker : Broker where
  registry := ⟨[inspect, restart, deploy], by decide⟩
  rbac :=
    { actors := [("alice", ["ops"]), ("bob", ["ops"])]
      roles := [("ops", ⟨["web"], ["inspect", "restart", "deploy"], [.a, .b, .c],
        lifecycleCapabilities⟩)]
      roles_known := by decide }
  policy :=
    { maxAttempts := 1
      windowSeconds := 600
      approvalTtlSeconds := 60
      approvalActorIds := ["bob"]
      maxAttempts_pos := le_rfl
      windowSeconds_pos := by decide
      ttl_bounds := by decide }
  budgets := by
    rintro r hr b hb
    simp only [List.mem_cons, List.not_mem_nil, or_false] at hr
    rcases hr with rfl | rfl | rfl
    · cases hb
    · obtain rfl := Option.mem_some_iff.1 hb
      exact ⟨le_rfl, le_rfl⟩
    · cases hb

def instant (seconds : ℕ) : Calendar.DateTime :=
  ⟨seconds * 1000000 % Calendar.maxMicros, Nat.mod_lt _ (by decide)⟩

/-- The choice of a time, and of the bits from `n` on. The command succeeds. -/
def choice (seconds n : ℕ) : Choice :=
  ⟨instant seconds, fun k => n + k, some ⟨0, "", "", false, false⟩⟩

def uuid (n : ℕ) : String :=
  uuid4 n

/-- The call goes on for so many operations, at the same time, with fresh bits. -/
def goOn (i operations seconds n : ℕ) : List (Move (brokerSystem broker)) :=
  (List.range operations).map fun k => .act i (choice seconds (n + 10 * k))

def request (actorId runbookId requestId : String) : Request :=
  .requestAction ⟨actorId, requestId, runbookId, .obj [], "sample", none, none⟩

def mission : String :=
  uuid 110

/-- Alice creates the mission. -/
def opening : List (Move (brokerSystem broker)) :=
  .spawn (.createMission ⟨"alice", uuid 1, "web", "a"⟩) :: goOn 0 4 100 100

def quiet (s : State (brokerSystem broker)) : Move (brokerSystem broker) → Bool
  | .act i _ => match s.next i with
    | some (.tx _) => false
    | _ => true
  | _ => true

def setOpen (i seconds n : ℕ) : List (Move (brokerSystem broker)) :=
  .spawn (.setMissionStatus ⟨"alice", uuid 2, mission, "open"⟩) :: goOn i 2 seconds n

def outcome (s : State (brokerSystem broker)) : Move (brokerSystem broker) → Option (Tx × Bool)
  | .act i x => match s.next i with
    | some (.tx t) => some (t, (t.commit broker x.env s.store).1.toOption.isSome)
    | _ => none
  | _ => none

theorem performs_of_outcome {s s' : State (brokerSystem broker)} {m : Move (brokerSystem broker)}
    {p : Tx × Bool} (h : s.step m = some s') (hp : outcome s m = some p) :
    ∃ c o, Moment.Performs ⟨s, m, s'⟩ c (.tx p.1) o ∧ o.toOption.isSome = p.2 := by
  unfold outcome at hp
  split at hp
  · split at hp
    · rename_i hnext
      obtain ⟨c, hperf⟩ := Moment.Performs.of_next h hnext
      obtain rfl := Option.some.inj hp
      exact ⟨c, _, hperf, rfl⟩
    · cases hp
  · cases hp

def reaches (moves : List (Move (brokerSystem broker))) : Option (State (brokerSystem broker)) :=
  (freshState broker).exec moves

end OpsControlPlane.Sample
