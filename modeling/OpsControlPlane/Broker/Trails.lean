import OpsControlPlane.Broker.ActionSteps

/-!
# What the calls ask

`Asked` says what holds when a call asks for an operation that decides about an action: a
new action is what its runbook and the policy make of the request, a start follows the
check of the approval by the same call, and a command is run right after the start that
the same call has committed. `Request.trail` says that every call of the broker asks only
so, whatever it is answered.
-/

namespace OpsControlPlane

open JsonText Calendar Transaction Calls Calls.Prog

variable [Platform]

/-- A new action is what its runbook and the policy make of the request. -/
structure Planned (b : Broker) (a : NewAction) : Prop where
  runbook_mem : a.runbook ∈ b.registry.runbooks
  opening : RequestAction.opening b.policy a.runbook a.now = .ok (a.status, a.approvalDeadline)
  key : ∃ validated, a.runbook.budgetKey validated = .ok a.budgetKey

theorem Planned.status {b : Broker} {a : NewAction} (h : Planned b a) :
    a.status = .pendingApproval ∧ a.runbook.actionClass = .c ∨
      a.status = .authorized ∧ a.runbook.actionClass ≠ .c := by
  have ho := h.opening
  unfold RequestAction.opening at ho
  split_ifs at ho with hc
  · split at ho
    · exact Or.inl ⟨(Prod.mk.inj (Except.ok.inj ho)).1.symm, hc⟩
    · cases ho
  · exact Or.inr ⟨(Prod.mk.inj (Except.ok.inj ho)).1.symm, hc⟩

/-- The call has last sampled the clock and then read an approval of the action, which
expires after the sample. -/
def Approved (h : List Said) (actionId : String) : Prop :=
  ∃ l t db p expiresAt, h = l ++ [Said.now t, Said.read db] ∧
    latestApproval actionId db = some p ∧ parseTimestamp p.expiresAt = some expiresAt ∧
    t < expiresAt

/-- The call has read the action, and checked its approval if it is of class C. -/
def Cleared (h : List Said) (actionId : String) : Prop :=
  ∃ db r, Said.read db ∈ h ∧ row ActionRow.id actionId db.actions = some r ∧
    (r.actionClass = .c → Approved h actionId)

def Said.starts (actionId : String) : Said → Bool
  | ⟨.tx (.startAction a _), Except.ok _⟩ => a.actionId = actionId
  | _ => false

def Said.executes (actionId : String) : Said → Bool
  | ⟨.execute id _ _ _, _⟩ => id = actionId
  | _ => false

def Asked (b : Broker) (h : List Said) : Op → Prop
  | .tx (.insertAction a) => Planned b a
  | .tx (.startAction a _) => ∃ h', h = h' ++ [Said.now a.now] ∧ Cleared h' a.actionId
  | .execute actionId _ _ _ => h.getLast?.any (Said.starts actionId) = true
  | _ => True

def Obeys {α : Type} (b : Broker) (Q : List Said → α → Prop) (p : Method α)
    (h : List Said) : Prop :=
  Trail (Asked b) Q (fun _ _ => True) p h

section parts

variable {b : Broker} {α : Type} {Q : List Said → α → Prop} {h : List Said}

theorem obeys_auditing {r : Except PyError α} {d : String → DateTime → Denial}
    (hQ : ∀ a, r = .ok a → Q h a) : Obeys b Q (auditing r d) h := by
  unfold auditing
  split
  · exact hQ _ rfl
  · exact ⟨trivial, fun t => trail_transact_bind.2 ⟨trivial, fun _ => trivial, fun _ => trivial⟩⟩
  · exact trivial

end parts

/-! ## Execution -/

section execution

variable {b : Broker} (q : ExecuteAction) (h : List Said)

theorem checkPending_obeys (r : ActionRow) :
    Obeys b (fun _ _ => True) (q.checkPending r) h := by
  unfold ExecuteAction.checkPending Obeys
  rw [trail_bind, trail_now]
  refine ⟨trivial, fun t => ?_⟩
  split
  · exact trivial
  · rw [trail_bind, trail_expect]
    refine ⟨fun deadline _ => ?_, fun _ => trivial⟩
    split_ifs
    · exact trail_transact_bind.2 ⟨trivial, fun _ => trivial, fun _ => trivial⟩
    · exact trivial

/-- The check of the approval leaves what the call was told, and an approval that has not
expired. -/
theorem checkApproval_obeys : Obeys b (fun h' _ => (∀ a ∈ h, a ∈ h') ∧ Approved h' q.actionId)
    q.checkApproval h := by
  unfold ExecuteAction.checkApproval Obeys
  simp only [trail_bind, trail_now, trail_snapshot, trail_expect]
  refine ⟨trivial, fun t => ⟨trivial, fun db => ⟨fun p hp => ⟨fun expiresAt hexp => ?_,
    fun _ => trivial⟩, fun _ => trivial⟩⟩⟩
  split_ifs with hle
  · exact trail_transact_bind.2 ⟨trivial, fun _ => trivial, fun _ => trivial⟩
  · exact ⟨fun a ha => by simp [ha], h, t, db, p, expiresAt, by simp, hp, hexp, not_le.1 hle⟩

/-- The command runs right after the start. -/
theorem launch_obeys (runbook : Runbook) (argv : Option (List String))
    (hc : Cleared h q.actionId) :
    Obeys b (fun _ _ => True) (q.launch runbook argv) h := by
  unfold ExecuteAction.launch Obeys
  rw [trail_bind, trail_now]
  refine ⟨trivial, fun t => trail_transact_bind.2 ⟨⟨h, rfl, hc⟩, fun _ => ?_,
    fun _ => trivial⟩⟩
  simp only [trail_bind, trail_execute, trail_now]
  refine ⟨by simp [Asked, Said.starts, Said.tx], fun outcome => ⟨trivial, fun t' =>
    trail_transact.2 ⟨trivial, fun r => (trail_expect _ _).2 ⟨fun r _ => ?_, fun _ => trivial⟩,
      fun _ => trivial⟩⟩⟩
  rw [trail_ofExcept]
  exact ⟨fun _ _ => trivial, fun _ _ => trivial⟩

theorem clear_obeys {r : ActionRow} {db : Db} (hdb : Said.read db ∈ h)
    (hr : row ActionRow.id q.actionId db.actions = some r) :
    Obeys b (fun h' _ => Cleared h' q.actionId) (q.clear r) h := by
  unfold ExecuteAction.clear
  split_ifs with hclass
  · exact (checkApproval_obeys q h).mono (fun _ _ hP => hP)
      (fun h' _ hh => ⟨db, r, hh.1 _ hdb, hr, fun _ => hh.2⟩) fun _ _ hE => hE
  · exact ⟨db, r, hdb, hr, fun hc => absurd hc hclass⟩

theorem proceed_obeys (r : ActionRow) (runbook : Runbook) (argv : Option (List String))
    {db : Db} (hdb : Said.read db ∈ h) (hr : row ActionRow.id q.actionId db.actions = some r) :
    Obeys b (fun _ _ => True) (q.proceed r runbook argv) h := by
  unfold ExecuteAction.proceed
  split_ifs with hp
  · exact checkPending_obeys q h r
  · split
    · exact trivial
    · unfold Obeys
      rw [trail_bind]
      exact (clear_obeys q h hdb hr).mono (fun _ _ hP => hP)
        (fun h' _ hc => launch_obeys q h' runbook argv hc) fun _ _ hE => hE

theorem executeAction_obeys : Obeys b (fun _ _ => True) (executeActionMethod b q) h := by
  unfold executeActionMethod Obeys
  rw [trail_bind, trail_ofExcept]
  refine ⟨fun _ _ => ?_, fun _ _ => trivial⟩
  simp only [trail_bind, trail_snapshot, trail_expect]
  refine ⟨trivial, fun db => ⟨fun r hr => ?_, fun _ => trivial⟩⟩
  refine obeys_auditing fun _ _ => ?_
  rw [trail_ofExcept]
  refine ⟨fun runbook _ => ?_, fun _ _ => trivial⟩
  refine obeys_auditing fun _ _ => ?_
  split_ifs
  · rw [trail_ofExcept]
    exact ⟨fun _ _ => trivial, fun _ _ => trivial⟩
  · rw [trail_bind]
    exact obeys_auditing fun argv _ => proceed_obeys q _ r runbook argv (by simp) hr

end execution

/-! ## Requests of actions -/

section requests

variable {b : Broker} (q : RequestAction) (h : List Said) {p : ActionPlan}

theorem create_obeys (hp : p.runbook ∈ b.registry.runbooks) (requestId reason : String)
    (incidentId : Option String) :
    Obeys b (fun _ _ => True) (q.create b p requestId reason incidentId) h := by
  unfold RequestAction.create Obeys
  simp only [trail_bind, trail_newUuid, trail_now, trail_ofExcept]
  refine ⟨trivial, fun id => ⟨trivial, fun t => ⟨fun opening ho => ⟨fun key hk =>
    trail_transact.2 ⟨⟨hp, ho, p.validated, hk⟩, ?_, fun _ => trivial⟩, fun _ _ => trivial⟩,
    fun _ _ => trivial⟩⟩⟩
  rintro ⟨exhausted, r⟩
  simp only [trail_bind, trail_demand, trail_expect]
  refine ⟨fun _ => ⟨fun r _ => ?_, fun _ => trivial⟩, fun _ => trivial⟩
  unfold RequestAction.follow
  split_ifs
  · rw [trail_ofExcept]
    exact ⟨fun _ _ => trivial, fun _ _ => trivial⟩
  · exact executeAction_obeys _ _

theorem plan_mem (hp : q.plan b = .ok p) : p.runbook ∈ b.registry.runbooks := by
  simp only [RequestAction.plan, bind_eq_ok] at hp
  obtain ⟨runbook, hget, validated, -, -, -, argv, -, hp⟩ := hp
  cases hp
  exact (RunbookRegistry.get_ok hget).1

theorem requestAction_obeys : Obeys b (fun _ _ => True) (requestActionMethod b q) h := by
  unfold requestActionMethod Obeys
  rw [trail_bind, trail_ofExcept]
  refine ⟨fun v _ => ?_, fun _ _ => trivial⟩
  rw [trail_bind]
  refine obeys_auditing fun p hp => ?_
  rw [trail_bind, trail_ofExcept]
  refine ⟨fun incidentId _ => ?_, fun _ _ => trivial⟩
  simp only [trail_bind, trail_snapshot]
  refine ⟨trivial, fun linked => obeys_auditing fun _ _ => ⟨trivial, fun db => ?_⟩⟩
  split
  · simp only [trail_bind, trail_demand, trail_ofExcept]
    exact ⟨fun _ => ⟨fun _ => ⟨fun _ _ => trivial, fun _ _ => trivial⟩, fun _ => trivial⟩,
      fun _ => trivial⟩
  · exact create_obeys q _ (plan_mem q hp) _ _ _

end requests

/-! ## The other methods

Their operations decide about no action, so a method obeys whatever it is answered. -/

section others

variable {b : Broker} {α β : Type} {h : List Said}

/-- Nothing is claimed of what a method returns. -/
def Harmless (b : Broker) (p : Method α) : Prop :=
  ∀ h, Obeys b (fun _ _ => True) p h

namespace Harmless

theorem seq {p : Method α} {f : α → Method β} (hp : Harmless b p)
    (hf : ∀ a, Harmless b (f a)) : Harmless b (p >>= f) := by
  intro h
  unfold Obeys
  rw [trail_bind]
  exact (hp h).mono (fun _ _ hP => hP) (fun h' a _ => hf a h') fun _ _ hE => hE

theorem pure (a : α) : Harmless b (Pure.pure a) := fun _ => trivial

theorem fail (e : PyError) : Harmless b (Prog.fail e : Method α) := fun _ => trivial

theorem ofExcept (r : Except PyError α) : Harmless b (Prog.ofExcept r) := by
  intro h
  cases r <;> trivial

theorem expect (a : Option α) (e : PyError) : Harmless b (expect a e) := by
  intro h
  cases a <;> trivial

theorem demand (c : Prop) [Decidable c] (e : PyError) : Harmless b (demand c e) := by
  intro h
  unfold OpsControlPlane.demand
  split_ifs <;> trivial

theorem now : Harmless b now := fun _ => ⟨trivial, fun _ => trivial⟩

theorem newUuid : Harmless b newUuid := fun _ => ⟨trivial, fun _ => trivial⟩

theorem snapshot : Harmless b snapshot := fun _ => ⟨trivial, fun _ => trivial⟩

theorem auditing (r : Except PyError α) (d : String → DateTime → Denial) :
    Harmless b (auditing r d) :=
  fun _ => obeys_auditing fun _ _ => trivial

theorem transact {t : Tx} (ht : ∀ h, Asked b h (.tx t)) : Harmless b (transact t) :=
  fun h => trail_transact.2 ⟨ht h, fun _ => trivial, fun _ => trivial⟩

end Harmless

theorem createMission_harmless (q : CreateMission) : Harmless b (createMissionMethod b q) := by
  refine .seq (.ofExcept _) fun v => .seq (.auditing _ _) fun _ => .seq .snapshot fun db => ?_
  split
  · exact .seq (.demand _ _) fun _ => .pure _
  · exact .seq .newUuid fun id => .seq .now fun t => .seq (.transact fun _ => trivial) fun r =>
      .seq (.expect _ _) fun _ => .pure _

theorem createIncident_harmless (q : CreateIncident) :
    Harmless b (createIncidentMethod b q) := by
  refine .seq (.ofExcept _) fun v => .seq (.auditing _ _) fun _ => .seq .snapshot fun db => ?_
  split
  · exact .seq (.demand _ _) fun _ => .pure _
  · exact .seq .newUuid fun id => .seq .now fun t => .seq (.transact fun _ => trivial) fun r =>
      .seq (.expect _ _) fun _ => .pure _

theorem setMissionStatus_harmless (q : SetStatus) : Harmless b (setMissionStatusMethod b q) :=
  .seq (.ofExcept _) fun _ => .seq .snapshot fun _ => .seq (.expect _ _) fun _ =>
    .seq (.auditing _ _) fun _ => .seq (.transact fun _ => trivial) fun _ => .ofExcept _

theorem setIncidentStatus_harmless (q : SetStatus) : Harmless b (setIncidentStatusMethod b q) :=
  .seq (.ofExcept _) fun _ => .seq .snapshot fun _ => .seq (.expect _ _) fun _ =>
    .seq (.auditing _ _) fun _ => .seq (.transact fun _ => trivial) fun _ => .ofExcept _

theorem decideApproval_harmless (q : DecideApproval) : Harmless b (decideApprovalMethod q) := by
  refine .seq (.ofExcept _) fun _ => .seq .now fun _ => .seq .newUuid fun _ =>
    .seq (.transact fun _ => trivial) fun r => ?_
  cases r with
  | duplicate r => exact .pure _
  | denied e => exact .fail _
  | expired => exact .fail _
  | decided r => exact .seq (.expect _ _) fun _ => .pure _

theorem updateMissionState_harmless (q : UpdateMission) :
    Harmless b (updateMissionStateMethod q) :=
  .seq (.ofExcept _) fun _ => .seq .now fun _ => .seq (.transact fun _ => trivial) fun _ =>
    .ofExcept _

theorem createCheckpoint_harmless (q : CreateCheckpoint) :
    Harmless b (createCheckpointMethod q) :=
  .seq (.ofExcept _) fun _ => .seq .newUuid fun _ => .seq .now fun _ =>
    .seq (.transact fun _ => trivial) fun _ => .seq (.expect _ _) fun _ => .ofExcept _

theorem addRecord_harmless (q : AddRecord) : Harmless b (addRecordMethod q) :=
  .seq (.ofExcept _) fun _ => .seq .newUuid fun _ => .seq .now fun _ =>
    .seq (.transact fun _ => trivial) fun _ => .seq (.expect _ _) fun _ => .ofExcept _

theorem claimNext_harmless (q : ClaimNext) : Harmless b (claimNextMethod b q) := by
  refine .seq (.ofExcept _) fun v => ?_
  dsimp only
  split_ifs
  · exact .pure _
  · exact .seq .now fun _ => .seq (.expect _ _) fun _ => .seq (.transact fun _ => trivial) fun _ =>
      .pure _

theorem missionLease_harmless (q : MissionLease) : Harmless b (missionLeaseMethod q) :=
  .seq (.ofExcept _) fun _ => .seq .now fun _ => .transact fun _ => trivial

theorem resourceLock_harmless (q : ResourceLock) : Harmless b (resourceLockMethod q) :=
  .seq (.ofExcept _) fun _ => .seq .now fun _ => .seq (.expect _ _) fun _ =>
    .transact fun _ => trivial

theorem resourceLockLease_harmless (q : LockLease) : Harmless b (resourceLockLeaseMethod q) := by
  unfold resourceLockLeaseMethod
  split
  · exact .fail _
  · exact resourceLock_harmless _

theorem recordModelTrace_harmless (q : RecordTrace) : Harmless b (recordModelTraceMethod q) :=
  .seq (.ofExcept _) fun _ => .seq .newUuid fun _ => .seq .now fun _ =>
    .seq (.transact fun _ => trivial) fun _ => .seq (.expect _ _) fun _ => .pure _

theorem updateIncidentDetails_harmless (q : UpdateIncident) :
    Harmless b (updateIncidentDetailsMethod q) :=
  .seq (.ofExcept _) fun _ => .seq .now fun _ => .seq (.transact fun _ => trivial) fun _ =>
    .seq (.expect _ _) fun _ => .ofExcept _

theorem recordActionArtifacts_harmless (q : RecordArtifacts) :
    Harmless b (recordActionArtifactsMethod q) :=
  .seq (.ofExcept _) fun _ => .seq .now fun _ => .seq (.transact fun _ => trivial) fun _ =>
    .seq (.expect _ _) fun _ => .ofExcept _

theorem recoverAfterRestart_harmless (actorId : String) :
    Harmless b (recoverAfterRestartMethod actorId) :=
  .seq (.ofExcept _) fun _ => .seq .now fun _ => .seq (.transact fun _ => trivial) fun _ => .pure _

theorem getMission_harmless (actorId missionId : String) :
    Harmless b (getMission b actorId missionId) :=
  .seq (.ofExcept _) fun _ => .seq .snapshot fun _ => .seq (.expect _ _) fun _ =>
    .seq (.ofExcept _) fun _ => .pure _

theorem getMissionState_harmless (actorId missionId : String) :
    Harmless b (getMissionState b actorId missionId) :=
  .seq (.ofExcept _) fun _ => .seq .snapshot fun _ => .seq (.expect _ _) fun _ =>
    .seq (.ofExcept _) fun _ => .ofExcept _

theorem zulipPending_harmless (header : String) (limit offset : ℤ) :
    Harmless b (zulipPending b header limit offset) :=
  .seq (.demand _ _) fun _ => .seq (.seq (.ofExcept _) fun _ => .seq (.ofExcept _) fun _ =>
    .seq .now fun _ => .seq .snapshot fun _ => .pure _) fun _ => .pure _

theorem zulipCreate_harmless (header requestId projectId title : String) :
    Harmless b (zulipCreate b header requestId projectId title) :=
  .seq (.demand _ _) fun _ => .seq (.demand _ _) fun _ => .seq (createMission_harmless _) fun _ =>
    .seq (.ofExcept _) fun _ => .pure _

theorem zulipStatus_harmless (header missionId : String) :
    Harmless b (zulipStatus b header missionId) :=
  .seq (.demand _ _) fun _ => .seq (getMission_harmless _ _) fun _ =>
    .seq (getMissionState_harmless _ _) fun _ => .seq (.ofExcept _) fun _ =>
      .seq (.ofExcept _) fun _ => .seq (.ofExcept _) fun _ => .pure _

theorem zulipResume_harmless (header missionId requestId : String) :
    Harmless b (zulipResume b header missionId requestId) := by
  refine .seq (.demand _ _) fun _ => .seq (getMission_harmless _ _) fun mission =>
    .seq (.seq (.ofExcept _) fun status => ?_) fun _ => zulipStatus_harmless _ _
  split
  · exact .fail _
  · exact .seq (setMissionStatus_harmless _) fun _ => .pure _
  · exact .pure _

end others

/-- Every call asks only what `Asked` allows. -/
theorem Request.trail (b : Broker) (q : Request) :
    Trail (Asked b) (fun _ _ => True) (fun _ _ => True) (q.program b) [] := by
  cases q with
  | createMission q => exact createMission_harmless q []
  | createIncident q => exact createIncident_harmless q []
  | setMissionStatus q => exact setMissionStatus_harmless q []
  | setIncidentStatus q => exact setIncidentStatus_harmless q []
  | requestAction q => exact requestAction_obeys q []
  | executeAction q => exact executeAction_obeys q []
  | decideApproval q => exact decideApproval_harmless q []
  | updateMissionState q => exact updateMissionState_harmless q []
  | createCheckpoint q => exact createCheckpoint_harmless q []
  | addRecord q => exact addRecord_harmless q []
  | claimNext q => exact claimNext_harmless q []
  | missionLease q => exact missionLease_harmless q []
  | acquireResourceLock q => exact resourceLock_harmless _ []
  | resourceLockLease q => exact resourceLockLease_harmless q []
  | recordModelTrace q => exact recordModelTrace_harmless q []
  | updateIncidentDetails q => exact updateIncidentDetails_harmless q []
  | recordActionArtifacts q => exact recordActionArtifacts_harmless q []
  | recoverAfterRestart actorId => exact recoverAfterRestart_harmless actorId []
  | zulipPending header limit offset => exact zulipPending_harmless header limit offset []
  | zulipCreate header requestId projectId title =>
    exact zulipCreate_harmless header requestId projectId title []
  | zulipStatus header missionId => exact zulipStatus_harmless header missionId []
  | zulipResume header missionId requestId =>
    exact zulipResume_harmless header missionId requestId []
  | zulipDecide header q => exact (Harmless.seq (.demand _ _) fun _ => decideApproval_harmless q) []

/-! ## Runs -/

/-- The commits of the broker keep the invariant `K` of the database, and what `R` relates
to a database that a call has read stays so. -/
structure Carried (b : Broker) (K : Db → Prop) (R : Db → Db → Prop) : Prop where
  fresh : K Db.fresh
  refl : ∀ db, R db db
  trans : ∀ db db' db'', R db db' → R db' db'' → R db db''
  step : ∀ h t x db db' r, K db → (∀ d, Said.read d ∈ h → R d db) → Asked b h (.tx t) →
    t.commit b x db = (.ok r, db') → K db' ∧ R db db'

section runs

variable {b : Broker} {ms : List (Moment (brokerSystem b))} {s : State (brokerSystem b)}

theorem perform_cases (o : Op) (x : Choice) (db : Db) : (perform b o x db).2 = db ∨
    ∃ t r, o = .tx t ∧ t.commit b x.env db = (.ok r, (perform b o x db).2) := by
  cases o with
  | tx t =>
    rcases Tx.commit_cases (b := b) t x.env db with ⟨r, c, -, hc, -⟩ | ⟨e, -, hc, -⟩
    · exact Or.inr ⟨t, r, rfl, hc.trans (congrArg (fun d => (Except.ok r, d))
        (congrArg Prod.snd hc).symm)⟩
    · exact Or.inl (congrArg Prod.snd hc)
  | _ => exact Or.inl rfl

variable {R : Db → Db → Prop} {K : Db → Prop}

theorem Carried.run (hc : Carried b K R) (hr : Run (freshState b) ms s) :
    K s.store ∧ ∀ c ∈ s.calls, ∀ d, Said.read d ∈ c.said → R d s.store := by
  have h := hr.sound (K := K) (T := fun a db => ∀ d, a = Said.read d → R d db) rfl hc.fresh
    (Request.trail b) ?_
  · exact ⟨h.1, fun c hcall d hd => h.2 c hcall _ hd d rfl⟩
  rintro - h o x db hK hT hP
  have hstep : K (perform b o x db).2 ∧ R db (perform b o x db).2 := by
    rcases perform_cases (b := b) o x db with heq | ⟨t, r, rfl, hcommit⟩
    · exact ⟨by rw [heq]; exact hK, by rw [heq]; exact hc.refl db⟩
    · exact hc.step h t x.env db _ r hK (fun d hd => hT _ hd d rfl) hP hcommit
  refine ⟨hstep.1, ?_, fun a ha d hd => hc.trans _ _ _ (ha d hd) hstep.2⟩
  intro d hd
  cases o with
  | read =>
    obtain rfl : db = d := eq_of_heq (Sigma.mk.inj hd).2
    exact hc.refl db
  | _ => cases (Sigma.mk.inj hd).1

variable {m : Moment (brokerSystem b)}

/-- A commit in a moment of a run is one that `Asked` allows, from a database of which the
invariant and what was read hold. -/
theorem Carried.moment (hc : Carried b K R) (hr : Run (freshState b) ms s) (hm : m ∈ ms)
    {c : Call (brokerSystem b)} {o : Op} {a : o.Ans} (hp : m.Performs c o a) :
    K m.before.store ∧ (∀ d, Said.read d ∈ c.said → R d m.before.store) ∧ Asked b c.said o := by
  obtain ⟨ms₁, ms₂, -, hr₁, -⟩ := hr.of_mem hm
  obtain ⟨i, x, k, -, hget, hprog, -⟩ := hp
  obtain ⟨hK, hR⟩ := hc.run hr₁
  exact ⟨hK, hR c (List.mem_of_getElem? hget), hr₁.asked rfl (Request.trail b) hget hprog⟩

theorem commit_of_mem (hr : Run (freshState b) ms s) (hm : m ∈ ms) :
    m.after.store = m.before.store ∨ ∃ c t r, ∃ x : TxEnv,
      m.Performs c (.tx t) (.ok r) ∧
      t.commit b x m.before.store = (.ok r, m.after.store) := by
  obtain ⟨-, -, -, -, hstep⟩ := hr.of_mem hm
  rcases moment_cases hstep with h | ⟨c, o, a, hp⟩
  · exact Or.inl h
  · obtain ⟨i, x, k, hmove, hget, hprog, hperf⟩ := hp
    have hdb : (perform b o x m.before.store).2 = m.after.store := congrArg Prod.snd hperf
    rcases perform_cases (b := b) o x m.before.store with heq | ⟨t, r, rfl, hcommit⟩
    · exact Or.inl (hdb.symm.trans heq)
    · rw [hdb] at hcommit
      have ha : a = .ok r := (congrArg Prod.fst hperf).symm.trans (congrArg Prod.fst hcommit)
      rw [ha] at hperf
      exact Or.inr ⟨c, t, r, x.env, ⟨i, x, k, hmove, hget, hprog, hperf⟩, hcommit⟩

end runs

end OpsControlPlane
