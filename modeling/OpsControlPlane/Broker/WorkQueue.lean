import OpsControlPlane.Broker.MissionContext

/-!
# The transactions of mission control: leases

What the methods of `mission_control.py` that lease something do inside a transaction: the
work queue, the locks of resources, and the recovery after a restart, which ends the
leases that ran out. As in `Service`, the values a method computes before its transaction
are the arguments, and each transaction is followed by its rule.
-/

set_option linter.unusedSectionVars false

namespace OpsControlPlane

open JsonText Calendar Transaction

variable [Platform]

/-! ## The work queue -/

/-- The arguments of the transaction of `claim_next`. -/
structure ClaimArgs where
  (actorId requestId : String)
  projects : List String
  (now leaseUntil : DateTime)

namespace ClaimArgs

variable (a : ClaimArgs)

def candidate (v : MissionView) : Bool :=
  v.mission.status = .opened ∧ v.mission.projectId ∈ a.projects ∧
    (v.runtime.queueState = .queued ∨ v.runtime.queueState = .claimed ∧
      ∃ l ∈ v.runtime.leaseUntil, l ≤ isoformat a.now)

def claim (r : RuntimeRow) : RuntimeRow :=
  { r with
    queueState := .claimed
    claimedBy := some a.actorId
    claimedAt := some (isoformat a.now)
    heartbeatAt := some (isoformat a.now)
    leaseUntil := some (isoformat a.leaseUntil)
    updatedAt := isoformat a.now }

def operationRow (missionId : Option String) (resultJson : String) : ClaimOperationRow where
  requestId := a.requestId
  missionId := missionId
  actorId := a.actorId
  operation := "claim"
  resultJson := resultJson
  createdAt := isoformat a.now

def draft (missionId : String) : AuditDraft where
  occurredAt := isoformat a.now
  eventType := "mission.claimed"
  actorId := a.actorId
  entityType := "mission"
  entityId := missionId
  payload := [("request_id", .str a.requestId), ("lease_until", .str (isoformat a.leaseUntil))]

end ClaimArgs

def queueOrder (v w : MissionView) : Prop :=
  w.runtime.priority < v.runtime.priority ∨ v.runtime.priority = w.runtime.priority ∧
    (v.mission.createdAt < w.mission.createdAt ∨ v.mission.createdAt = w.mission.createdAt ∧
      v.mission.id ≤ w.mission.id)

instance (v w : MissionView) : Decidable (queueOrder v w) :=
  inferInstanceAs (Decidable (_ ∨ _))

/-- The first candidate in the order of the queue. -/
def nextCandidate (a : ClaimArgs) (db : Db) : Option MissionView :=
  (((missionViews db).filter a.candidate).insertionSort queueOrder).head?

/-- The answer of an operation that was recorded, marked as replayed. -/
def replayResult (resultJson : String) : Except PyError Value := do
  let result ← loadsJson resultJson
  markReplayed result

def Db.addClaimOperation (db : Db) (r : ClaimOperationRow) : Db :=
  { db with missionClaimOperations := db.missionClaimOperations ++ [r] }

def claimNext (rbac : RBACPolicy) (a : ClaimArgs) : BrokerTxn (Option Value) := do
  let prior ← select fun db => row ClaimOperationRow.requestId a.requestId
    db.missionClaimOperations
  match prior with
  | some prior =>
    let result ← Txn.ofExcept (replayResult prior.resultJson)
    return some result
  | none =>
    let candidate ← select (nextCandidate a)
    match candidate with
    | none =>
      write fun db => db.addClaimOperation (a.operationRow none "null")
      return none
    | some v =>
      Txn.ofExcept (rbac.requireLifecycle a.actorId v.mission.projectId "mission.queue.claim")
      write fun db => db.updateRuntime v.mission.id a.claim
      let claimed ← fetchMission v.mission.id
      let result ← Txn.ofExcept (runtimePublic claimed (some false))
      let resultJson ← Txn.ofExcept (jsonText result "claim result")
      write fun db => db.addClaimOperation (a.operationRow (some v.mission.id) resultJson)
      let _ ← appendEvent (a.draft v.mission.id)
      return some result

/-- A claim that finds its mission: the mission, its row of after, and the answer. -/
structure Claims (a : ClaimArgs) (rbac : RBACPolicy) (db : Db) (v w : MissionView)
    (result : Value) (resultJson : String) : Prop where
  next : nextCandidate a db = some v
  allowed : rbac.requireLifecycle a.actorId v.mission.projectId "mission.queue.claim" = .ok ()
  claimed : missionView v.mission.id (db.updateRuntime v.mission.id a.claim) = some w
  shown : runtimePublic w (some false) = .ok result
  encoded : jsonText result "claim result" = .ok resultJson

/-- What a commit of `claim_next` does: nothing if the request was used before, a row
without an event if there is no candidate, or the claim. -/
theorem claimNext_spec (rbac : RBACPolicy) (a : ClaimArgs) (x : TxEnv) (c : Conn) :
    (claimNext rbac a).wp x c
      (fun r c' =>
        (∃ prior result, row ClaimOperationRow.requestId a.requestId
            c.db.missionClaimOperations = some prior ∧
          replayResult prior.resultJson = .ok result ∧ r = some result ∧ c' = c) ∨
        (row ClaimOperationRow.requestId a.requestId c.db.missionClaimOperations = none ∧
          ((nextCandidate a c.db = none ∧ r = none ∧
              c' = ⟨c.db.addClaimOperation (a.operationRow none "null"), c.drawn⟩) ∨
            ∃ v w result resultJson, Claims a rbac c.db v w result resultJson ∧
              r = some result ∧
              Logs x ⟨(c.db.updateRuntime v.mission.id a.claim).addClaimOperation
                (a.operationRow (some v.mission.id) resultJson), c.drawn⟩
                [a.draft v.mission.id] c')))
      fun e => ∀ prior, row ClaimOperationRow.requestId a.requestId
        c.db.missionClaimOperations = some prior → replayResult prior.resultJson = .error e := by
  simp only [claimNext, Txn.wp_bind, wp_select]
  cases hp : row ClaimOperationRow.requestId a.requestId c.db.missionClaimOperations with
  | some prior =>
    simp only [Txn.wp_bind, Txn.wp_ofExcept, Txn.wp_pure]
    refine ⟨fun result hr => Or.inl ⟨prior, result, rfl, hr, rfl, trivial⟩, fun e he p hp => ?_⟩
    obtain rfl := Option.some.inj hp
    exact he
  | none =>
    have hno : ∀ e : PyError, ∀ prior : ClaimOperationRow, none = some prior →
        replayResult prior.resultJson = .error e := by
      rintro e prior h
      cases h
    simp only [Txn.wp_bind, wp_select]
    cases hn : nextCandidate a c.db with
    | none => exact Or.inr ⟨trivial, Or.inl ⟨rfl, rfl, rfl⟩⟩
    | some v =>
      simp only [Txn.wp_bind, Txn.wp_ofExcept, wp_write, wp_fetchMission, Txn.wp_pure]
      refine ⟨fun _ hauth => ⟨fun w hw => ⟨fun result hres => ⟨fun resultJson hjson => ?_,
        fun e _ => hno e⟩, fun e _ => hno e⟩, fun _ => hno _⟩, fun e _ => hno e⟩
      refine wp_appendEvent (fun head hh => ?_) hno
      exact Or.inr ⟨trivial, Or.inr ⟨v, w, result, resultJson, ⟨hn, hauth, hw, hres, hjson⟩,
        rfl, .single _ hh⟩⟩

inductive LeaseOperation where
  | heartbeat
  | release
deriving DecidableEq

def LeaseOperation.text : LeaseOperation → String
  | heartbeat => "heartbeat"
  | release => "release"

/-- The arguments of the transaction of `mission_lease`. -/
structure LeaseArgs where
  (actorId requestId missionId : String)
  operation : LeaseOperation
  leaseSeconds : ℤ
  now : DateTime

namespace LeaseArgs

variable (a : LeaseArgs)

def operationRow (resultJson : String) : ClaimOperationRow where
  requestId := a.requestId
  missionId := some a.missionId
  actorId := a.actorId
  operation := a.operation.text
  resultJson := resultJson
  createdAt := isoformat a.now

def same (r : ClaimOperationRow) : Prop :=
  r.missionId = some a.missionId ∧ r.actorId = a.actorId ∧ r.operation = a.operation.text

instance (r : ClaimOperationRow) : Decidable (a.same r) :=
  inferInstanceAs (Decidable (_ ∧ _))

/-- The row of the queue after a heartbeat. -/
def beat (leaseUntil : DateTime) (r : RuntimeRow) : RuntimeRow :=
  { r with
    heartbeatAt := some (isoformat a.now)
    leaseUntil := some (isoformat leaseUntil)
    updatedAt := isoformat a.now }

def releasedState (db : Db) : QueueState :=
  if (row MissionRow.id a.missionId db.missions).map MissionRow.status = some .completed then
    .done
  else .queued

def draft : AuditDraft where
  occurredAt := isoformat a.now
  eventType := "mission." ++ a.operation.text
  actorId := a.actorId
  entityType := "mission"
  entityId := a.missionId
  payload := [("request_id", .str a.requestId)]

end LeaseArgs

def leaseQueue (a : LeaseArgs) : BrokerTxn Unit :=
  match a.operation with
  | .heartbeat => do
    let leaseUntil ← Txn.expect (a.now.addSeconds a.leaseSeconds) .overflow
    write fun db => db.updateRuntime a.missionId (a.beat leaseUntil)
  | .release =>
    write fun db => db.updateRuntime a.missionId fun r =>
      r.release (a.releasedState db) (isoformat a.now)

def missionLease (rbac : RBACPolicy) (a : LeaseArgs) : BrokerTxn Value := do
  let v ← fetchMission a.missionId
  Txn.ofExcept (rbac.requireLifecycle a.actorId v.mission.projectId "mission.queue.claim")
  let prior ← select fun db => row ClaimOperationRow.requestId a.requestId
    db.missionClaimOperations
  match prior with
  | some prior =>
    Txn.demand (a.same prior)
      (.conflict "request_id was already used for another lease operation")
    Txn.ofExcept (replayResult prior.resultJson)
  | none =>
    Txn.demand (v.runtime.queueState = .claimed ∧ v.runtime.claimedBy = some a.actorId)
      (.conflict "mission is not claimed by this actor")
    leaseQueue a
    let updated ← fetchMission a.missionId
    let result ← Txn.ofExcept (runtimePublic updated (some false))
    let resultJson ← Txn.ofExcept (jsonText result "lease result")
    write fun db => db.addClaimOperation (a.operationRow resultJson)
    let _ ← appendEvent a.draft
    return result

inductive Leases (a : LeaseArgs) (db : Db) : Db → Prop
  | heartbeat (leaseUntil : DateTime) (ho : a.operation = .heartbeat)
      (hl : a.now.addSeconds a.leaseSeconds = some leaseUntil) :
      Leases a db (db.updateRuntime a.missionId (a.beat leaseUntil))
  | release (ho : a.operation = .release) :
      Leases a db (db.updateRuntime a.missionId fun r =>
        r.release (a.releasedState db) (isoformat a.now))

theorem leaseQueue_spec (a : LeaseArgs) (x : TxEnv) (c : Conn) :
    (leaseQueue a).wp x c (fun _ c' => Leases a c.db c'.db ∧ c'.drawn = c.drawn)
      fun _ => True := by
  unfold leaseQueue
  cases ho : a.operation with
  | heartbeat =>
    simp only [Txn.wp_bind, Txn.wp_expect, wp_write]
    exact ⟨fun leaseUntil hl => ⟨.heartbeat leaseUntil ho hl, trivial⟩, fun _ => trivial⟩
  | release => exact ⟨.release ho, rfl⟩

theorem missionLease_spec (rbac : RBACPolicy) (a : LeaseArgs) (x : TxEnv) (c : Conn) :
    (missionLease rbac a).wp x c
      (fun r c' => ∃ v, MayDo rbac a.actorId a.missionId "mission.queue.claim" c v ∧
        Keyed (row ClaimOperationRow.requestId a.requestId c.db.missionClaimOperations) a.same
          (fun prior r => replayResult prior.resultJson = .ok r)
          (fun r c' => (v.runtime.queueState = .claimed ∧
              v.runtime.claimedBy = some a.actorId) ∧
            ∃ db w resultJson, Leases a c.db db ∧ missionView a.missionId db = some w ∧
              runtimePublic w (some false) = .ok r ∧
              jsonText r "lease result" = .ok resultJson ∧
              Logs x ⟨db.addClaimOperation (a.operationRow resultJson), c.drawn⟩
                [a.draft] c') c r c')
      fun e => ∀ v, MayDo rbac a.actorId a.missionId "mission.queue.claim" c v →
        Refuses (row ClaimOperationRow.requestId a.requestId c.db.missionClaimOperations) a.same
          "request_id was already used for another lease operation"
          (fun prior e => replayResult prior.resultJson = .error e) e := by
  refine wp_mayDo fun v hv => ?_
  simp only [Txn.wp_bind, wp_select]
  cases hp : row ClaimOperationRow.requestId a.requestId c.db.missionClaimOperations with
  | some prior =>
    refine wp_replay rfl ?_
    rw [Txn.wp_ofExcept]
    exact ⟨fun r hr => ⟨hr, rfl⟩, fun e he => he⟩
  | none =>
    simp only [Txn.wp_bind, Txn.wp_demand]
    refine ⟨fun hclaimed => ?_, fun _ => refuses_none _ _ _ _⟩
    refine (leaseQueue_spec a x c).mono ?_ fun e _ => refuses_none _ _ _ _
    rintro _ ⟨db, drawn⟩ ⟨hl, hd⟩
    obtain rfl : drawn = c.drawn := hd
    simp only [wp_fetchMission, Txn.wp_ofExcept, wp_write, Txn.wp_pure]
    refine ⟨fun w hw => ⟨fun r hr => ⟨fun resultJson hjson => ?_,
      fun _ _ => refuses_none _ _ _ _⟩, fun _ _ => refuses_none _ _ _ _⟩,
      fun _ => refuses_none _ _ _ _⟩
    refine wp_appendEvent (fun head hh => ?_) (refuses_none _ _ _)
    exact Or.inr ⟨rfl, hclaimed, db, w, resultJson, hl, hw, hr, hjson, .single _ hh⟩

/-! ## Locks of resources -/

inductive LockOperation where
  | acquire
  | renew
  | release
deriving DecidableEq

def LockOperation.text : LockOperation → String
  | acquire => "acquire"
  | renew => "renew"
  | release => "release"

/-- The arguments of the transaction of `_resource_lock_operation`. -/
structure LockArgs where
  (actorId requestId missionId resourceId : String)
  operation : LockOperation
  (now leaseUntil : DateTime)

namespace LockArgs

variable (a : LockArgs)

def operationRow (resultJson : String) : LockOperationRow where
  requestId := a.requestId
  resourceId := a.resourceId
  missionId := a.missionId
  actorId := a.actorId
  operation := a.operation.text
  resultJson := resultJson
  createdAt := isoformat a.now

def same (r : LockOperationRow) : Prop :=
  r.resourceId = a.resourceId ∧ r.missionId = a.missionId ∧ r.actorId = a.actorId ∧
    r.operation = a.operation.text

instance (r : LockOperationRow) : Decidable (a.same r) :=
  inferInstanceAs (Decidable (_ ∧ _))

def mine (l : LockRow) : Prop :=
  l.missionId = a.missionId ∧ l.holderActorId = a.actorId

instance (l : LockRow) : Decidable (a.mine l) :=
  inferInstanceAs (Decidable (_ ∧ _))

def token : Option LockRow → ℕ
  | none => 1
  | some l => if a.mine l then l.fencingToken else l.fencingToken + 1

def lockRow (projectId : String) (token : ℕ) : LockRow where
  resourceId := a.resourceId
  projectId := projectId
  missionId := a.missionId
  holderActorId := a.actorId
  fencingToken := token
  acquiredAt := isoformat a.now
  heartbeatAt := isoformat a.now
  leaseUntil := isoformat a.leaseUntil

def renew (l : LockRow) : LockRow :=
  { l with heartbeatAt := isoformat a.now, leaseUntil := isoformat a.leaseUntil }

def draft : AuditDraft where
  occurredAt := isoformat a.now
  eventType := "resource_lock." ++ a.operation.text
  actorId := a.actorId
  entityType := "resource"
  entityId := a.resourceId
  payload := [("mission_id", .str a.missionId), ("request_id", .str a.requestId)]

end LockArgs

/-- `_lock_public`, with the keys that follow it. -/
def lockPublic (r : LockRow) (replayed : Bool) (rest : List (String × Value)) : Value :=
  .obj ([
    ("resource_id", .str (clip 192 r.resourceId)),
    ("project_id", .str (clip 64 r.projectId)),
    ("mission_id", .str (clip 36 r.missionId)),
    ("holder_actor_id", .str (clip 128 r.holderActorId)),
    ("fencing_token", .int r.fencingToken),
    ("acquired_at", .str (clip 40 r.acquiredAt)),
    ("heartbeat_at", .str (clip 40 r.heartbeatAt)),
    ("lease_until", .str (clip 40 r.leaseUntil)),
    ("replayed", .bool replayed)] ++ rest)

/-- `INSERT ... ON CONFLICT(resource_id) DO UPDATE`. -/
def upsertLock (l : LockRow) (t : List LockRow) : List LockRow :=
  if (row LockRow.resourceId l.resourceId t).isSome then
    update (fun r => r.resourceId = l.resourceId) (fun _ => l) t
  else t ++ [l]

def Db.setLocks (db : Db) (t : List LockRow) : Db :=
  { db with resourceLocks := t }

def Db.addLockOperation (db : Db) (r : LockOperationRow) : Db :=
  { db with resourceLockOperations := db.resourceLockOperations ++ [r] }

/-- The acquisition of a lock: its public form. -/
def acquireLock (a : LockArgs) (projectId : String) (lock : Option LockRow) :
    BrokerTxn Value := do
  match lock with
  | none => pure ()
  | some l =>
    let leaseUntil ← Txn.expect (parseTimestamp l.leaseUntil) .valueError
    Txn.demand (¬(a.now < leaseUntil ∧ ¬a.mine l))
      (.conflict "resource is locked by another mission")
  write fun db => db.setLocks (upsertLock (a.lockRow projectId (a.token lock)) db.resourceLocks)
  let l ← select fun db => row LockRow.resourceId a.resourceId db.resourceLocks
  let l ← Txn.expect l .assertion
  return lockPublic l false []

/-- The renewal or the release of a lock: its public form. -/
def holdLock (a : LockArgs) (lock : Option LockRow) : BrokerTxn Value := do
  let l ← Txn.expect lock (.notFound "resource lock")
  Txn.demand (a.mine l)
    (.authorizationDenied "resource lock belongs to another mission or actor")
  if a.operation = .renew then
    write fun db => db.setLocks
      (update (fun r => r.resourceId = a.resourceId) a.renew db.resourceLocks)
    let l ← select fun db => row LockRow.resourceId a.resourceId db.resourceLocks
    let l ← Txn.expect l .assertion
    return lockPublic l false []
  else
    write fun db => db.setLocks (db.resourceLocks.filter fun r => r.resourceId ≠ a.resourceId)
    return lockPublic l false [("released", .bool true)]

/-- The operation on the lock: its public form. -/
def operateLock (a : LockArgs) (projectId : String) (lock : Option LockRow) : BrokerTxn Value :=
  if a.operation = .acquire then acquireLock a projectId lock else holdLock a lock

/-- The transaction of `_resource_lock_operation`. -/
def resourceLock (rbac : RBACPolicy) (a : LockArgs) : BrokerTxn Value := do
  let v ← fetchMission a.missionId
  Txn.ofExcept (rbac.requireLifecycle a.actorId v.mission.projectId "resource.lock")
  let prior ← select fun db => row LockOperationRow.requestId a.requestId
    db.resourceLockOperations
  match prior with
  | some prior =>
    Txn.demand (a.same prior)
      (.conflict "request_id was already used for another lock operation")
    Txn.ofExcept (replayResult prior.resultJson)
  | none =>
    let lock ← select fun db => row LockRow.resourceId a.resourceId db.resourceLocks
    let result ← operateLock a v.mission.projectId lock
    let resultJson ← Txn.ofExcept (jsonText result "lock result")
    write fun db => db.addLockOperation (a.operationRow resultJson)
    let _ ← appendEvent a.draft
    return result

/-- What a lock operation does to the database, and its public form. -/
inductive LockEffect (a : LockArgs) (projectId : String) (db : Db) : Db → Value → Prop
  | acquire (ho : a.operation = .acquire)
      (free : ∀ l, row LockRow.resourceId a.resourceId db.resourceLocks = some l →
        a.mine l ∨ ∃ leaseUntil, parseTimestamp l.leaseUntil = some leaseUntil ∧
          leaseUntil ≤ a.now) :
      LockEffect a projectId db
        (db.setLocks (upsertLock (a.lockRow projectId
          (a.token (row LockRow.resourceId a.resourceId db.resourceLocks))) db.resourceLocks))
        (lockPublic (a.lockRow projectId
          (a.token (row LockRow.resourceId a.resourceId db.resourceLocks))) false [])
  | renew (l : LockRow) (ho : a.operation = .renew)
      (held : row LockRow.resourceId a.resourceId db.resourceLocks = some l) (mine : a.mine l) :
      LockEffect a projectId db
        (db.setLocks (update (fun r => r.resourceId = a.resourceId) a.renew db.resourceLocks))
        (lockPublic (a.renew l) false [])
  | release (l : LockRow) (ho : a.operation = .release)
      (held : row LockRow.resourceId a.resourceId db.resourceLocks = some l) (mine : a.mine l) :
      LockEffect a projectId db
        (db.setLocks (db.resourceLocks.filter fun r => r.resourceId ≠ a.resourceId))
        (lockPublic l false [("released", .bool true)])

theorem row_upsertLock (l : LockRow) (t : List LockRow) :
    row LockRow.resourceId l.resourceId (upsertLock l t) = some l := by
  unfold upsertLock
  split_ifs with h
  · obtain ⟨r, hr⟩ := Option.isSome_iff_exists.1 h
    induction t with
    | nil => simp [row] at hr
    | cons b t ih =>
      rw [row_cons] at hr
      by_cases hb : b.resourceId = l.resourceId
      · simp [update, row_cons, hb]
      · rw [if_neg hb] at hr
        simpa [update, row_cons, hb] using ih (by simp [hr]) hr
  · exact row_append_new (by simpa using h)

theorem acquireLock_spec (a : LockArgs) (projectId : String) (x : TxEnv) (c : Conn)
    (ho : a.operation = .acquire) :
    (acquireLock a projectId (row LockRow.resourceId a.resourceId c.db.resourceLocks)).wp x c
      (fun r c' => LockEffect a projectId c.db c'.db r ∧ c'.drawn = c.drawn) fun _ => True := by
  have hrow : ∀ n, row LockRow.resourceId a.resourceId
      (upsertLock (a.lockRow projectId n) c.db.resourceLocks) = some (a.lockRow projectId n) :=
    fun n => row_upsertLock (a.lockRow projectId n) _
  unfold acquireLock
  cases hl : row LockRow.resourceId a.resourceId c.db.resourceLocks with
  | none =>
    have heff : LockEffect a projectId c.db _ _ := .acquire ho fun l h => by
      cases hl.symm.trans h
    rw [hl] at heff
    simp only [Txn.wp_bind, Txn.wp_pure, wp_write, wp_select, Txn.wp_expect]
    refine ⟨fun l h => ?_, fun _ => trivial⟩
    obtain rfl := Option.some.inj ((hrow _).symm.trans h)
    exact ⟨heff, trivial⟩
  | some held =>
    simp only [Txn.wp_bind, Txn.wp_pure, wp_write, wp_select, Txn.wp_expect, Txn.wp_demand]
    refine ⟨fun leaseUntil hparse => ⟨fun hfree => ⟨fun l h => ?_, fun _ => trivial⟩,
      fun _ => trivial⟩, fun _ => trivial⟩
    have heff : LockEffect a projectId c.db _ _ := .acquire ho fun l h => by
      obtain rfl := Option.some.inj (hl.symm.trans h)
      by_cases hm : a.mine held
      · exact Or.inl hm
      · exact Or.inr ⟨leaseUntil, hparse, not_lt.1 fun hlt => hfree ⟨hlt, hm⟩⟩
    rw [hl] at heff
    obtain rfl := Option.some.inj ((hrow _).symm.trans h)
    exact ⟨heff, trivial⟩

theorem holdLock_spec (a : LockArgs) (projectId : String) (x : TxEnv) (c : Conn)
    (ho : a.operation ≠ .acquire) :
    (holdLock a (row LockRow.resourceId a.resourceId c.db.resourceLocks)).wp x c
      (fun r c' => LockEffect a projectId c.db c'.db r ∧ c'.drawn = c.drawn) fun _ => True := by
  simp only [holdLock, Txn.wp_bind, Txn.wp_expect, Txn.wp_demand, Txn.wp_ite, wp_write,
    wp_select, Txn.wp_pure]
  refine ⟨fun l hl => ⟨fun hm => ⟨fun hr => ⟨fun l' hl' => ?_, fun _ => trivial⟩,
    fun hr => ?_⟩, fun _ => trivial⟩, fun _ => trivial⟩
  · have hrow := row_update (g := LockRow.resourceId) (p := fun r => r.resourceId = a.resourceId)
      (f := a.renew) (fun _ => rfl) a.resourceId c.db.resourceLocks
    have hid : l.resourceId = a.resourceId := (row_some hl).2
    rw [hl, Option.map_some, if_pos (by simpa using hid)] at hrow
    obtain rfl := Option.some.inj (hrow.symm.trans hl')
    exact ⟨.renew l hr hl hm, trivial⟩
  · have hrel : a.operation = .release := by
      cases h : a.operation <;> simp_all
    exact ⟨.release l hrel hl hm, trivial⟩

theorem operateLock_spec (a : LockArgs) (projectId : String) (x : TxEnv) (c : Conn) :
    (operateLock a projectId (row LockRow.resourceId a.resourceId c.db.resourceLocks)).wp x c
      (fun r c' => LockEffect a projectId c.db c'.db r ∧ c'.drawn = c.drawn) fun _ => True := by
  unfold operateLock
  split_ifs with ho
  · exact acquireLock_spec a projectId x c ho
  · exact holdLock_spec a projectId x c ho

theorem resourceLock_spec (rbac : RBACPolicy) (a : LockArgs) (x : TxEnv) (c : Conn) :
    (resourceLock rbac a).wp x c
      (fun r c' => ∃ v, MayDo rbac a.actorId a.missionId "resource.lock" c v ∧
        Keyed (row LockOperationRow.requestId a.requestId c.db.resourceLockOperations) a.same
          (fun prior r => replayResult prior.resultJson = .ok r)
          (fun r c' => ∃ db resultJson, LockEffect a v.mission.projectId c.db db r ∧
            jsonText r "lock result" = .ok resultJson ∧
            Logs x ⟨db.addLockOperation (a.operationRow resultJson), c.drawn⟩ [a.draft] c')
          c r c')
      fun e => ∀ v, MayDo rbac a.actorId a.missionId "resource.lock" c v →
        Refuses (row LockOperationRow.requestId a.requestId c.db.resourceLockOperations) a.same
          "request_id was already used for another lock operation"
          (fun prior e => replayResult prior.resultJson = .error e) e := by
  refine wp_mayDo fun v hv => ?_
  simp only [Txn.wp_bind, wp_select]
  cases hp : row LockOperationRow.requestId a.requestId c.db.resourceLockOperations with
  | some prior =>
    refine wp_replay rfl ?_
    rw [Txn.wp_ofExcept]
    exact ⟨fun r hr => ⟨hr, rfl⟩, fun e he => he⟩
  | none =>
    simp only [Txn.wp_bind, wp_select]
    refine (operateLock_spec a v.mission.projectId x c).mono ?_ fun e _ => refuses_none _ _ _ _
    rintro r ⟨db, drawn⟩ ⟨he, hd⟩
    obtain rfl : drawn = c.drawn := hd
    simp only [Txn.wp_ofExcept, wp_write, Txn.wp_pure]
    refine ⟨fun resultJson hjson => ?_, fun _ _ => refuses_none _ _ _ _⟩
    refine wp_appendEvent (fun head hh => ?_) (refuses_none _ _ _)
    exact Or.inr ⟨rfl, db, resultJson, he, hjson, .single _ hh⟩

/-! ## Recovery after a restart -/

def writeEach (g : String → Db → Db) (d : String → AuditDraft) : List String → BrokerTxn Unit
  | [] => pure ()
  | id :: ids => do
    write (g id)
    let _ ← appendEvent (d id)
    writeEach g d ids

def interruptedJson : String :=
  canonicalJson (.obj [("return_code", .int (-1)), ("stdout", .str ""),
    ("stderr", .str "interrupted by control-plane restart; state requires verification"),
    ("timed_out", .bool false), ("truncated", .bool false), ("interrupted", .bool true)])

def ActionRow.interrupt (now : String) (r : ActionRow) : ActionRow :=
  { r with status := .failed, resultJson := some interruptedJson, updatedAt := now }

def recoveryDraft (actorId : String) (now : DateTime) (eventType entityType key value : String)
    (entityId : String) : AuditDraft where
  occurredAt := isoformat now
  eventType := eventType
  actorId := actorId
  entityType := entityType
  entityId := entityId
  payload := [(key, .str value)]

def failInterrupted (now : DateTime) (id : String) (db : Db) : Db :=
  db.updateActions (fun r => r.id = id) (ActionRow.interrupt (isoformat now))

def interruptedDraft (actorId : String) (now : DateTime) : String → AuditDraft :=
  recoveryDraft actorId now "action.interrupted" "action" "decision" "stop_and_verify"

/-- Requeue a mission whose claim ran out. -/
def requeueExpired (now : DateTime) (id : String) (db : Db) : Db :=
  db.updateRuntime id fun r => r.release .queued (isoformat now)

def requeuedDraft (actorId : String) (now : DateTime) : String → AuditDraft :=
  recoveryDraft actorId now "mission.requeued_after_restart" "mission" "reason" "expired_lease"

def deleteExpired (id : String) (db : Db) : Db :=
  db.setLocks (db.resourceLocks.filter fun r => r.resourceId ≠ id)

/-- The event of a lock that ran out. -/
def deletedDraft (actorId : String) (now : DateTime) : String → AuditDraft :=
  recoveryDraft actorId now "resource_lock.expired" "resource" "reason" "expired_lease"

def runningActions (db : Db) : List String :=
  sortedTexts ((db.actions.filter fun r => r.status = .running).map ActionRow.id)

def expiredClaims (now : String) (db : Db) : List String :=
  sortedTexts ((db.missionRuntime.filter fun r =>
    r.queueState = .claimed ∧ ∃ l ∈ r.leaseUntil, l ≤ now).map RuntimeRow.missionId)

def expiredLocks (now : String) (db : Db) : List String :=
  sortedTexts ((db.resourceLocks.filter fun r => r.leaseUntil ≤ now).map LockRow.resourceId)

/-- The report of `recover_after_restart`. -/
structure RecoveryReport where
  (interruptedActions requeuedMissions expiredResourceLocks : ℕ)

def recoverAfterRestart (actorId : String) (now : DateTime) : BrokerTxn RecoveryReport := do
  let running ← select runningActions
  writeEach (failInterrupted now) (interruptedDraft actorId now) running
  let claims ← select (expiredClaims (isoformat now))
  writeEach (requeueExpired now) (requeuedDraft actorId now) claims
  let locks ← select (expiredLocks (isoformat now))
  writeEach deleteExpired (deletedDraft actorId now) locks
  return ⟨running.length, claims.length, locks.length⟩

theorem wp_writeEach {Q : Unit → Conn → Prop} {E : PyError → Prop} {x : TxEnv} {c : Conn}
    {g : String → Db → Db} {d : String → AuditDraft} {ids : List String}
    (hg : ∀ id db r, g id (db.logEvent r) = (g id db).logEvent r)
    (hh : ∀ id db, (g id db).auditHead = db.auditHead)
    (hQ : ∀ c', Logs x ⟨ids.foldl (fun db id => g id db) c.db, c.drawn⟩ (ids.map d) c' → Q () c')
    (hE : ∀ e, E e) : (writeEach g d ids).wp x c Q E := by
  induction ids generalizing c with
  | nil => exact hQ c (.nil c)
  | cons id ids ih =>
    simp only [writeEach, Txn.wp_bind, wp_write]
    refine wp_appendEvent (fun head hhead => ih fun c' h => hQ c' ?_) hE
    -- the later writes commute with the event
    have hfold : ∀ ids : List String, ∀ db r, ids.foldl (fun db id => g id db) (db.logEvent r) =
        (ids.foldl (fun db id => g id db) db).logEvent r := by
      intro ids
      induction ids with
      | nil => exact fun db r => rfl
      | cons id ids ih => exact fun db r => by rw [List.foldl_cons, hg, ih, List.foldl_cons]
    have hfoldHead : ∀ ids : List String, ∀ db,
        (ids.foldl (fun db id => g id db) db).auditHead = db.auditHead := by
      intro ids
      induction ids with
      | nil => exact fun db => rfl
      | cons id ids ih => exact fun db => (ih _).trans (hh _ _)
    rw [List.foldl_cons, List.map_cons]
    refine .cons ((hfoldHead ids _).trans hhead) ?_
    have hlog : Conn.logged x ⟨ids.foldl (fun db id => g id db) (g id c.db), c.drawn⟩ head
        (d id) = ⟨ids.foldl (fun db id => g id db) (Conn.logged x ⟨g id c.db, c.drawn⟩ head
          (d id)).db, c.drawn + 1⟩ := by
      simp only [Conn.logged, hfold]
    rw [hlog]
    exact h

/-- The database after a recovery. -/
def Db.recover (db : Db) (now : DateTime) : Db :=
  { db with
    actions := update (fun r => r.id ∈ runningActions db) (ActionRow.interrupt (isoformat now))
      db.actions
    missionRuntime := update (fun r => r.missionId ∈ expiredClaims (isoformat now) db)
      (fun r => r.release .queued (isoformat now)) db.missionRuntime
    resourceLocks := db.resourceLocks.filter fun r =>
      r.resourceId ∉ expiredLocks (isoformat now) db }

def recoveryDrafts (actorId : String) (now : DateTime) (db : Db) : List AuditDraft :=
  (runningActions db).map (interruptedDraft actorId now) ++
    (expiredClaims (isoformat now) db).map (requeuedDraft actorId now) ++
    (expiredLocks (isoformat now) db).map (deletedDraft actorId now)

theorem foldl_failInterrupted (now : DateTime) (ids : List String) (db : Db) :
    ids.foldl (fun db id => failInterrupted now id db) db =
      db.updateActions (fun r => r.id ∈ ids) (ActionRow.interrupt (isoformat now)) := by
  induction ids generalizing db with
  | nil => exact congrArg (fun t => { db with actions := t }) (update_mem_nil ActionRow.id _ _).symm
  | cons id ids ih =>
    rw [List.foldl_cons, ih]
    exact congrArg (fun t => { db with actions := t })
      (update_mem_cons (g := ActionRow.id) (f := ActionRow.interrupt (isoformat now))
        (fun _ => rfl) (fun _ => rfl) id ids db.actions)

theorem foldl_requeueExpired (now : DateTime) (ids : List String) (db : Db) :
    ids.foldl (fun db id => requeueExpired now id db) db =
      db.setRuntime (update (fun r => r.missionId ∈ ids)
        (fun r => r.release .queued (isoformat now)) db.missionRuntime) := by
  induction ids generalizing db with
  | nil => exact congrArg db.setRuntime (update_mem_nil RuntimeRow.missionId _ _).symm
  | cons id ids ih =>
    rw [List.foldl_cons, ih]
    exact congrArg db.setRuntime
      (update_mem_cons (g := RuntimeRow.missionId)
        (f := fun r => r.release .queued (isoformat now)) (fun _ => rfl) (fun _ => rfl) id ids
        db.missionRuntime)

theorem foldl_deleteExpired (ids : List String) (db : Db) :
    ids.foldl (fun db id => deleteExpired id db) db =
      db.setLocks (db.resourceLocks.filter fun r => r.resourceId ∉ ids) := by
  induction ids generalizing db with
  | nil => simp [Db.setLocks]
  | cons id ids ih =>
    rw [List.foldl_cons, ih]
    exact congrArg db.setLocks (filter_notMem_cons LockRow.resourceId id ids db.resourceLocks)

/-- A recovery fails the running actions, requeues the claims that ran out and deletes the
locks that ran out, with one event for each. -/
theorem recoverAfterRestart_spec (actorId : String) (now : DateTime) (x : TxEnv) (c : Conn) :
    (recoverAfterRestart actorId now).wp x c (fun r c' =>
      r = ⟨(runningActions c.db).length, (expiredClaims (isoformat now) c.db).length,
        (expiredLocks (isoformat now) c.db).length⟩ ∧
      Logs x ⟨c.db.recover now, c.drawn⟩ (recoveryDrafts actorId now c.db) c') fun _ => True := by
  simp only [recoverAfterRestart, Txn.wp_bind, wp_select]
  refine wp_writeEach (fun _ _ _ => rfl) (fun _ _ => rfl) (fun c₁ h₁ => ?_) fun _ => trivial
  rw [foldl_failInterrupted] at h₁
  have hclaims : expiredClaims (isoformat now) c₁.db = expiredClaims (isoformat now) c.db := by
    unfold expiredClaims
    rw [h₁.missionRuntime]
    rfl
  rw [hclaims]
  refine wp_writeEach (fun _ _ _ => rfl) (fun _ _ => rfl) (fun c₂ h₂ => ?_) fun _ => trivial
  rw [foldl_requeueExpired] at h₂
  have hlocks : expiredLocks (isoformat now) c₂.db = expiredLocks (isoformat now) c.db := by
    unfold expiredLocks
    rw [h₂.resourceLocks]
    exact congrArg (fun t => sortedTexts ((t.filter fun r => r.leaseUntil ≤ isoformat now).map
      LockRow.resourceId)) h₁.resourceLocks
  rw [hlocks]
  refine wp_writeEach (fun _ _ _ => rfl) (fun _ _ => rfl) (fun c₃ h₃ => ?_) fun _ => trivial
  rw [foldl_deleteExpired] at h₃
  rw [Txn.wp_pure]
  refine ⟨rfl, ?_⟩
  -- the writes of the later parts commute with the events of the earlier ones
  have h₁ := h₁.map (f := fun db => db.setRuntime
    (update (fun r => r.missionId ∈ expiredClaims (isoformat now) c.db)
      (fun r => r.release .queued (isoformat now)) db.missionRuntime)) (fun _ _ => rfl)
    fun _ => rfl
  have h := (h₁.append h₂).map (f := fun db => db.setLocks
    (db.resourceLocks.filter fun r => r.resourceId ∉ expiredLocks (isoformat now) c.db))
    (fun _ _ => rfl) fun _ => rfl
  exact h.append h₃

end OpsControlPlane
