import OpsControlPlane.Broker.MissionSteps

/-!
# Missions and the work queue

`MissionsOk` says that every mission has one row of the queue and that its status and this
row agree; every commit keeps it (`MissionsOk.step`), so that it holds in every reachable
state (`missions_coupled`).

`claim_exclusive` says that a mission whose lease was granted to an actor goes to another
actor only when the lease has run out, or after it was given up, shortened, or ended by a
change of status or by a recovery. `lease_needs_holder` says that a heartbeat or a release
of an actor that does not hold the mission changes nothing, and that it fails unless it
repeats an operation that succeeded before.
-/

set_option linter.unusedSectionVars false

namespace OpsControlPlane

open JsonText Calendar Transaction Calls

variable [Platform]

/-! ## Coupling -/

structure Coupled (status : MissionStatus) (r : RuntimeRow) : Prop where
  opened : status = .opened ↔ r.queueState = .queued ∨ r.queueState = .claimed
  paused : status = .paused ↔ r.queueState = .blocked
  completed : status = .completed ↔ r.queueState = .done
  claimed : r.queueState = .claimed ↔ r.claimedBy.isSome ∧ r.leaseUntil.isSome

/-- Every mission has one row of the queue, which agrees with its status. -/
structure MissionsOk (s : MissionTables) : Prop where
  nodup : (s.missions.map MissionRow.id).Nodup
  ids : s.runtime.map RuntimeRow.missionId = s.missions.map MissionRow.id
  coupled : ∀ m ∈ s.missions, ∀ r ∈ s.runtime, r.missionId = m.id → Coupled m.status r

namespace MissionsOk

variable {s s' : MissionTables}

theorem runtime_nodup (h : MissionsOk s) : (s.runtime.map RuntimeRow.missionId).Nodup := by
  rw [h.ids]
  exact h.nodup

variable {p : RuntimeRow → Bool} {locks : List LockRow} {traces : List TraceRow}

/-- The queue rewritten, the missions that it concerns still coupled. -/
theorem update (h : MissionsOk s) {f : RuntimeRow → RuntimeRow}
    (hf : ∀ r, (f r).missionId = r.missionId)
    (hc : ∀ m ∈ s.missions, ∀ r ∈ s.runtime, r.missionId = m.id → p r = true →
      Coupled m.status r → Coupled m.status (f r)) :
    MissionsOk ⟨s.missions, update p f s.runtime, locks, traces⟩ where
  nodup := h.nodup
  ids := (map_update hf s.runtime).trans h.ids
  coupled m hm r hr hid := by
    obtain ⟨q, hq, rfl⟩ := mem_update.1 hr
    split_ifs at hid ⊢ with hp
    · exact hc m hm q hq ((hf q).symm.trans hid) hp (h.coupled m hm q hq ((hf q).symm.trans hid))
    · exact h.coupled m hm q hq hid

theorem rewrite (h : MissionsOk s) {f : RuntimeRow → RuntimeRow}
    (hf : ∀ r, (f r).missionId = r.missionId ∧ (f r).queueState = r.queueState ∧
      (f r).claimedBy = r.claimedBy ∧ (f r).leaseUntil = r.leaseUntil) :
    MissionsOk ⟨s.missions, Transaction.update p f s.runtime, locks, traces⟩ := by
  refine h.update (fun r => (hf r).1) fun m _ r _ _ _ hc => ?_
  obtain ⟨-, hq, hb, hl⟩ := hf r
  exact ⟨by rw [hq]; exact hc.opened, by rw [hq]; exact hc.paused, by rw [hq]; exact hc.completed,
    by rw [hq, hb, hl]; exact hc.claimed⟩

theorem coupled_release (status : MissionStatus) (r : RuntimeRow) (now : String) :
    Coupled status (r.release status.queueState now) := by
  cases status <;> constructor <;> simp [RuntimeRow.release, MissionStatus.queueState]

theorem create (h : MissionsOk s) {a : NewMission}
    (hid : row MissionRow.id a.id s.missions = none) :
    MissionsOk { s with
      missions := s.missions ++ [a.row]
      runtime := insertRuntime a.row s.runtime } := by
  have hfresh : row RuntimeRow.missionId a.id s.runtime = none := by
    refine row_eq_none.2 fun r hr heq => ?_
    have hmem : r.missionId ∈ s.missions.map MissionRow.id := by
      rw [← h.ids]
      exact List.mem_map_of_mem hr
    obtain ⟨m, hm, hmid⟩ := List.mem_map.1 hmem
    exact row_eq_none.1 hid m hm (hmid.trans heq)
  have hins : insertRuntime a.row s.runtime =
      s.runtime ++ [defaultRuntime a.id (isoformat a.now)] := by
    simp [insertRuntime, NewMission.row, hfresh]
  rw [hins]
  refine ⟨nodup_insert (r := a.row) h.nodup hid,
    by simp [h.ids, NewMission.row, defaultRuntime], ?_⟩
  rintro m hm r hr heq
  rcases List.mem_append.1 hm with hm | hm <;> rcases List.mem_append.1 hr with hr | hr
  · exact h.coupled m hm r hr heq
  · obtain rfl := List.mem_singleton.1 hr
    exact absurd heq.symm (row_eq_none.1 hid m hm)
  · obtain rfl := List.mem_singleton.1 hm
    exact absurd heq (row_eq_none.1 hfresh r hr)
  · obtain rfl := List.mem_singleton.1 hm
    obtain rfl := List.mem_singleton.1 hr
    constructor <;> simp [NewMission.row, defaultRuntime]

theorem setStatus (h : MissionsOk s) (id now : String) (status : MissionStatus)
    (locks : List LockRow) :
    MissionsOk ⟨Transaction.update (fun r => r.id = id) (MissionRow.setStatus status now)
        s.missions,
      Transaction.update (fun r => r.missionId = id)
        (fun r => r.release status.queueState now) s.runtime, locks, s.traces⟩ := by
  have hmids := map_update (g := MissionRow.id) (p := fun r => r.id = id)
    (f := MissionRow.setStatus status now) (fun _ => rfl) s.missions
  have hrids := map_update (g := RuntimeRow.missionId) (p := fun r => r.missionId = id)
    (f := fun r => r.release status.queueState now) (fun _ => rfl) s.runtime
  refine ⟨?_, hrids.trans (h.ids.trans hmids.symm), ?_⟩
  · rw [hmids]
    exact h.nodup
  · rintro m' hm' r' hr' heq
    obtain ⟨m, hm, rfl⟩ := mem_update.1 hm'
    obtain ⟨r, hr, rfl⟩ := mem_update.1 hr'
    by_cases hmid : m.id = id
    · by_cases hrid : r.missionId = id
      · simp only [hmid, hrid, decide_true, if_true]
        exact coupled_release status r now
      · simp only [hmid, hrid, decide_true, decide_false, if_true, Bool.false_eq_true,
          if_false] at heq
        exact absurd (heq.trans hmid) hrid
    · by_cases hrid : r.missionId = id
      · simp only [hmid, hrid, decide_true, decide_false, if_true, Bool.false_eq_true,
          if_false, RuntimeRow.release] at heq
        exact absurd heq.symm hmid
      · simp only [hmid, hrid, decide_false, Bool.false_eq_true, if_false] at heq ⊢
        exact h.coupled m hm r hr heq

variable {v : MissionView}

theorem has_coupled (h : MissionsOk s) {id : String} (hv : s.Has id v) :
    Coupled v.mission.status v.runtime := by
  obtain ⟨hm, hmid⟩ := row_some hv.mission
  obtain ⟨hr, hrid⟩ := row_some hv.runtime
  exact h.coupled _ hm _ hr (hrid.trans hmid.symm)

theorem has_mission (h : MissionsOk s) {id : String} (hv : s.Has id v) {m : MissionRow}
    (hm : m ∈ s.missions) (hid : m.id = id) : m = v.mission :=
  List.inj_on_of_nodup_map h.nodup hm (row_some hv.mission).1
    (hid.trans (row_some hv.mission).2.symm)

theorem has_runtime (h : MissionsOk s) {id : String} (hv : s.Has id v) {r : RuntimeRow}
    (hr : r ∈ s.runtime) (hid : r.missionId = id) : r = v.runtime :=
  List.inj_on_of_nodup_map h.runtime_nodup hr (row_some hv.runtime).1
    (hid.trans (row_some hv.runtime).2.symm)

/-- Every commit keeps the coupling. -/
theorem step {t : Tx} (h : MissionsOk s) (hs : MissionStep s t s') : MissionsOk s' := by
  cases hs with
  | keep => exact h
  | create a hid => exact h.create hid
  | status a m now hm hne hmove => exact h.setStatus a.entityId now a.status _
  | context a p => exact h.rewrite fun _ => ⟨rfl, rfl, rfl, rfl⟩
  | checkpoint a => exact h.rewrite fun _ => ⟨rfl, rfl, rfl, rfl⟩
  | claim a v hv hc =>
    refine h.update (fun _ => rfl) fun m hm r hr hid hp _ => ?_
    have hrid : r.missionId = v.mission.id := of_decide_eq_true hp
    obtain rfl := h.has_mission hv hm (hid.symm.trans hrid)
    have hopen : v.mission.status = .opened := (of_decide_eq_true hc).1
    constructor <;> simp [ClaimArgs.claim, hopen]
  | heartbeat a v leaseUntil hv hheld ho hl =>
    refine h.update (fun _ => rfl) fun m hm r hr hid hp hcoup => ?_
    have hrid : r.missionId = a.missionId := of_decide_eq_true hp
    obtain rfl := h.has_runtime hv hr hrid
    obtain ⟨hq, hb⟩ := hheld
    exact ⟨hcoup.opened, hcoup.paused, hcoup.completed, by simp [LeaseArgs.beat, hq, hb]⟩
  | release a v hv hheld ho =>
    refine h.update (fun _ => rfl) fun m hm r hr hid hp _ => ?_
    have hrid : r.missionId = a.missionId := of_decide_eq_true hp
    obtain rfl := h.has_mission hv hm (hid.symm.trans hrid)
    have hopen : v.mission.status = .opened := (h.has_coupled hv).opened.2 (Or.inr hheld.1)
    have hrel := coupled_release .opened r (isoformat a.now)
    simpa [hopen, MissionStatus.queueState] using hrel
  | acquire => exact ⟨h.nodup, h.ids, h.coupled⟩
  | renew => exact ⟨h.nodup, h.ids, h.coupled⟩
  | unlock => exact ⟨h.nodup, h.ids, h.coupled⟩
  | trace a => exact h.rewrite fun _ => ⟨rfl, rfl, rfl, rfl⟩
  | recover actorId now claims locks hclaims =>
    refine h.update (fun _ => rfl) fun m hm r hr hid hp hcoup => ?_
    obtain ⟨q, hq, ⟨hst, -⟩, hqid⟩ := (hclaims _).1 (of_decide_eq_true hp)
    obtain rfl := List.inj_on_of_nodup_map h.runtime_nodup hq hr hqid
    have hopen : m.status = .opened := hcoup.opened.2 (Or.inr hst)
    have hrel := coupled_release .opened q (isoformat now)
    simpa [hopen, MissionStatus.queueState] using hrel

end MissionsOk

theorem missions_carried (b : Broker) :
    Carried b (fun db => MissionsOk db.missionTables) fun _ _ => True where
  fresh := by constructor <;> simp [Db.missionTables, Db.fresh]
  refl _ := trivial
  trans _ _ _ _ _ := trivial
  step _ _ _ _ _ _ hK _ _ hcommit := ⟨hK.step (Tx.missionStep hK.nodup hcommit), trivial⟩

section runs

variable {b : Broker} {ms : List (Moment (brokerSystem b))} {s : State (brokerSystem b)}

/-- In every reachable state a mission has one row of the queue, and its status agrees with
it. -/
theorem missions_coupled (hr : Run (freshState b) ms s) :
    s.store.missionRuntime.map RuntimeRow.missionId = s.store.missions.map MissionRow.id ∧
    ∀ m ∈ s.store.missions, ∀ r ∈ s.store.missionRuntime, r.missionId = m.id →
      Coupled m.status r :=
  have h := ((missions_carried b).run hr).1
  ⟨h.ids, h.coupled⟩

end runs

/-! ## Leases -/

def Held (s : MissionTables) (missionId actorId : String) (leaseUntil : DateTime) : Prop :=
  ∃ r, row RuntimeRow.missionId missionId s.runtime = some r ∧ r.queueState = .claimed ∧
    r.claimedBy = some actorId ∧ ∃ u, leaseUntil ≤ u ∧ r.leaseUntil = some (isoformat u)

structure SameQueue (r r' : RuntimeRow) : Prop where
  queueState : r'.queueState = r.queueState
  claimedBy : r'.claimedBy = r.claimedBy
  leaseUntil : r'.leaseUntil = r.leaseUntil

def Tx.KeepsQueue : Tx → Prop
  | claimNext _ | missionLease _ | setMissionStatus _ | recoverAfterRestart _ _ => False
  | _ => True

variable {f : RuntimeRow → RuntimeRow} {r : RuntimeRow}

theorem row_rewrite {p : RuntimeRow → Bool} {t : List RuntimeRow} {id : String}
    (hf : ∀ r, (f r).missionId = r.missionId) (hs : ∀ r, SameQueue r (f r))
    (hr : row RuntimeRow.missionId id t = some r) :
    ∃ r', row RuntimeRow.missionId id (update p f t) = some r' ∧ SameQueue r r' := by
  rw [row_update hf, hr, Option.map_some]
  refine ⟨_, rfl, ?_⟩
  split_ifs
  · exact hs r
  · exact ⟨rfl, rfl, rfl⟩

theorem MissionStep.queue {s s' : MissionTables} {t : Tx} (h : MissionStep s t s')
    (ht : t.KeepsQueue) {id : String} (hr : row RuntimeRow.missionId id s.runtime = some r) :
    ∃ r', row RuntimeRow.missionId id s'.runtime = some r' ∧ SameQueue r r' := by
  cases h with
  | keep => exact ⟨r, hr, rfl, rfl, rfl⟩
  | create a =>
    refine ⟨r, ?_, rfl, rfl, rfl⟩
    simp only [insertRuntime]
    split_ifs
    · exact hr
    · exact row_append_of_some hr _
  | status => exact ht.elim
  | context a p =>
    exact row_rewrite (f := p.apply (isoformat a.now)) (fun _ => rfl)
      (fun _ => ⟨rfl, rfl, rfl⟩) hr
  | checkpoint a => exact row_rewrite (f := a.apply) (fun _ => rfl) (fun _ => ⟨rfl, rfl, rfl⟩) hr
  | claim => exact ht.elim
  | heartbeat => exact ht.elim
  | release => exact ht.elim
  | acquire => exact ⟨r, hr, rfl, rfl, rfl⟩
  | renew => exact ⟨r, hr, rfl, rfl, rfl⟩
  | unlock => exact ⟨r, hr, rfl, rfl, rfl⟩
  | trace a => exact row_rewrite (f := a.apply) (fun _ => rfl) (fun _ => ⟨rfl, rfl, rfl⟩) hr
  | recover => exact ht.elim

theorem row_updateRuntime {s : MissionTables} {id : String}
    (hf : ∀ r, (f r).missionId = r.missionId)
    (hr : row RuntimeRow.missionId id s.runtime = some r) :
    row RuntimeRow.missionId id (s.updateRuntime id f).runtime = some (f r) := by
  rw [MissionTables.updateRuntime, row_update hf, hr, Option.map_some,
    if_pos (by simp [(row_some hr).2])]

theorem Held.other {s : MissionTables} {missionId actorId id : String} {leaseUntil : DateTime}
    (h : Held s missionId actorId leaseUntil) (hf : ∀ r, (f r).missionId = r.missionId)
    (hne : missionId ≠ id) : Held (s.updateRuntime id f) missionId actorId leaseUntil := by
  obtain ⟨r, hr, hrest⟩ := h
  refine ⟨r, ?_, hrest⟩
  rw [MissionTables.updateRuntime, row_update hf, hr, Option.map_some,
    if_neg (by simpa [(row_some hr).2] using hne)]

variable {x : TxEnv} {db db' : Db}

/-- A commit of `claim_next` changes nothing of the missions, or it claims the next
candidate. -/
theorem claim_cases {b : Broker} {a : ClaimArgs} {r : Option Value}
    (h : (Tx.claimNext a).commit b x db = (Except.ok r, db')) :
    db'.missionTables = db.missionTables ∨ ∃ v,
      row ClaimOperationRow.requestId a.requestId db.missionClaimOperations = none ∧
      nextCandidate a db = some v ∧ r.isSome ∧
      db'.missionTables = db.missionTables.updateRuntime v.mission.id a.claim := by
  obtain ⟨c, hrun, rfl, -⟩ := Tx.commit_ok h
  rcases (claimNext_spec b.rbac a x ⟨db, 0⟩).ok hrun with ⟨_, _, -, -, -, rfl⟩ |
    ⟨hnew, ⟨-, -, rfl⟩ | ⟨v, w, _, _, hclaims, rfl, hl⟩⟩
  · exact Or.inl rfl
  · exact Or.inl rfl
  · exact Or.inr ⟨v, hnew, hclaims.next, rfl, hl.missionTables⟩

/-- A commit of a heartbeat or a release repeats an operation of its request and changes
nothing, or the actor holds the mission and the operation is carried out. -/
theorem lease_cases {b : Broker} {a : LeaseArgs} {r : Value}
    (h : (Tx.missionLease a).commit b x db = (Except.ok r, db')) :
    (∃ prior, row ClaimOperationRow.requestId a.requestId db.missionClaimOperations =
        some prior ∧ a.same prior ∧ db' = db) ∨
    (row ClaimOperationRow.requestId a.requestId db.missionClaimOperations = none ∧
      ∃ v, db.missionTables.Has a.missionId v ∧
        (v.runtime.queueState = .claimed ∧ v.runtime.claimedBy = some a.actorId) ∧
        ∃ db₁, Leases a db db₁ ∧ db'.missionTables = db₁.missionTables) := by
  obtain ⟨c, hrun, rfl, -⟩ := Tx.commit_ok h
  obtain ⟨v, hv, ⟨prior, hp, hsame, -, rfl⟩ | ⟨hnew, hheld, db₁, w, _, hl, -, -, -, hlogs⟩⟩ :=
    (missionLease_spec b.rbac a x ⟨db, 0⟩).ok hrun
  · exact Or.inl ⟨prior, hp, hsame, rfl⟩
  · exact Or.inr ⟨hnew, v, missionView_has hv.1, hheld, db₁, hl, hlogs.missionTables⟩

section leases

variable {b : Broker} {ms : List (Moment (brokerSystem b))} {s : State (brokerSystem b)}

/-- The move claims the mission, with a request that was not used before. -/
structure Claimed (m : Moment (brokerSystem b)) (missionId : String) (a : ClaimArgs) : Prop where
  commit : ∃ c r, m.Performs c (.tx (.claimNext a)) (Except.ok (some r))
  new : row ClaimOperationRow.requestId a.requestId m.before.store.missionClaimOperations = none
  next : ∃ v, nextCandidate a m.before.store = some v ∧ v.mission.id = missionId

/-- The move is a heartbeat or a release, with a request that was not used before. -/
structure Leased (m : Moment (brokerSystem b)) (a : LeaseArgs) : Prop where
  commit : ∃ c r, m.Performs c (.tx (.missionLease a)) (Except.ok r)
  new : row ClaimOperationRow.requestId a.requestId m.before.store.missionClaimOperations = none

inductive Grants (m : Moment (brokerSystem b)) (missionId actorId : String) : DateTime → Prop
  | claim (a : ClaimArgs) (h : Claimed m missionId a) (hactor : a.actorId = actorId) :
      Grants m missionId actorId a.leaseUntil
  | heartbeat (a : LeaseArgs) (leaseUntil : DateTime) (h : Leased m a)
      (ho : a.operation = .heartbeat) (hid : a.missionId = missionId)
      (hactor : a.actorId = actorId) (hl : a.now.addSeconds a.leaseSeconds = some leaseUntil) :
      Grants m missionId actorId leaseUntil

inductive EndsLease (m : Moment (brokerSystem b)) (missionId actorId : String)
    (leaseUntil : DateTime) : Prop
  | released (a : LeaseArgs) (h : Leased m a) (ho : a.operation = .release)
      (hid : a.missionId = missionId) (hactor : a.actorId = actorId)
  | shortened (a : LeaseArgs) (u : DateTime) (h : Leased m a) (ho : a.operation = .heartbeat)
      (hid : a.missionId = missionId) (hactor : a.actorId = actorId)
      (hl : a.now.addSeconds a.leaseSeconds = some u) (hlt : u < leaseUntil)
  | passed (a : ClaimArgs) (h : Claimed m missionId a) (hle : leaseUntil ≤ a.now)
  | status (c : Call (brokerSystem b)) (a : StatusChange MissionStatus)
      (r : StatusReply MissionStatus) (hp : m.Performs c (.tx (.setMissionStatus a)) (Except.ok r))
      (hid : a.entityId = missionId)
      (hm : ∃ q, row MissionRow.id missionId m.before.store.missions = some q ∧
        q.status ≠ a.status)
  | recovered (c : Call (brokerSystem b)) (actor : String) (now : DateTime) (r : RecoveryReport)
      (hp : m.Performs c (.tx (.recoverAfterRestart actor now)) (Except.ok r))

variable {m : Moment (brokerSystem b)} {c : Call (brokerSystem b)}

theorem performs_commit {t : Tx} {a : Except PyError t.Reply} (h : m.Performs c (.tx t) a) :
    ∃ x : TxEnv, t.commit b x m.before.store = (a, m.after.store) := by
  obtain ⟨i, x, k, -, -, -, hperf⟩ := h
  exact ⟨x.env, hperf⟩

variable {a : ClaimArgs}

theorem candidate_expired {v : MissionView} (hc : a.candidate v = true) {u : DateTime}
    (hclaimed : v.runtime.queueState = .claimed) (hl : v.runtime.leaseUntil = some (isoformat u)) :
    u ≤ a.now := by
  obtain ⟨-, -, hq | ⟨-, l, hmem, hle⟩⟩ := of_decide_eq_true hc
  · cases hq.symm.trans hclaimed
  · obtain rfl := Option.some.inj (hl.symm.trans hmem)
    exact isoformat_le_iff.1 hle

variable {missionId actorId : String}

theorem Claimed.effect (hr : Run (freshState b) ms s) (hm : m ∈ ms) (h : Claimed m missionId a) :
    ∃ v, m.before.store.missionTables.Has missionId v ∧ a.candidate v = true ∧
      m.after.store.missionTables =
        m.before.store.missionTables.updateRuntime missionId a.claim := by
  obtain ⟨⟨c, r, hp⟩, hnew, v, hv, rfl⟩ := h
  obtain ⟨x, hcommit⟩ := performs_commit hp
  obtain ⟨hmem, hc⟩ := nextCandidate_some hv
  have hhas := missionViews_has ((missions_carried b).moment hr hm hp).1.nodup hmem
  obtain ⟨d, hrun, hd, -⟩ := Tx.commit_ok hcommit
  rcases (claimNext_spec b.rbac a x ⟨m.before.store, 0⟩).ok hrun with ⟨_, _, hp, -, -, -⟩ |
    ⟨-, ⟨hnone, -, -⟩ | ⟨w, _, _, _, hclaims, -, hl⟩⟩
  · cases hnew.symm.trans hp
  · cases hnone.symm.trans hv
  · obtain rfl := Option.some.inj (hv.symm.trans hclaims.next)
    exact ⟨v, hhas, hc, by rw [← hd, hl.missionTables]; rfl⟩

variable {leaseUntil : DateTime}

theorem Grants.held (hr : Run (freshState b) ms s) (hm : m ∈ ms)
    (h : Grants m missionId actorId leaseUntil) :
    Held m.after.store.missionTables missionId actorId leaseUntil := by
  cases h with
  | claim a h hactor =>
    obtain ⟨v, hhas, -, heq⟩ := h.effect hr hm
    rw [heq]
    exact ⟨a.claim v.runtime, row_updateRuntime (f := a.claim) (fun _ => rfl) hhas.runtime, rfl,
      congrArg some hactor, a.leaseUntil, le_rfl, rfl⟩
  | heartbeat a leaseUntil h ho hid hactor hl =>
    obtain ⟨⟨c, r, hp⟩, hnew⟩ := h
    obtain ⟨x, hcommit⟩ := performs_commit hp
    rcases lease_cases hcommit with ⟨prior, hprior, -⟩ |
      ⟨-, v, hhas, ⟨hq, hb⟩, db₁, hleases, heq⟩
    · cases hnew.symm.trans hprior
    · rw [heq]
      cases hleases with
      | heartbeat u _ hu =>
        obtain rfl := Option.some.inj (hl.symm.trans hu)
        subst hid
        exact ⟨a.beat leaseUntil v.runtime,
          row_updateRuntime (f := a.beat leaseUntil) (fun _ => rfl) hhas.runtime, hq,
          hb.trans (congrArg some hactor), leaseUntil, le_rfl, rfl⟩
      | release ho' => cases ho.symm.trans ho'

theorem Held.keep (hr : Run (freshState b) ms s) (hm : m ∈ ms)
    (h : Held m.before.store.missionTables missionId actorId leaseUntil)
    (hend : ¬EndsLease m missionId actorId leaseUntil) :
    Held m.after.store.missionTables missionId actorId leaseUntil := by
  rcases commit_of_mem hr hm with heq | ⟨c, t, r, x, hperf, hcommit⟩
  · rw [heq]
    exact h
  have hnodup := ((missions_carried b).moment hr hm hperf).1.nodup
  have hok := ((missions_carried b).moment hr hm hperf).1
  have hother : t.KeepsQueue → Held m.after.store.missionTables missionId actorId leaseUntil := by
    intro ht
    obtain ⟨q, hq, hst, hby, u, hu, hl⟩ := h
    obtain ⟨q', hq', hsame⟩ := (Tx.missionStep hnodup hcommit).queue ht hq
    exact ⟨q', hq', hsame.queueState.trans hst, hsame.claimedBy.trans hby, u, hu,
      hsame.leaseUntil.trans hl⟩
  cases t with
  | claimNext a =>
    rcases claim_cases hcommit with heq | ⟨v, hnew, hnext, hsome, heq⟩
    · rw [heq]
      exact h
    · rw [heq]
      by_cases hid : v.mission.id = missionId
      · obtain ⟨q, hq, hst, hby, u, hu, hl⟩ := h
        obtain ⟨hmem, hc⟩ := nextCandidate_some hnext
        have hhas := missionViews_has hnodup hmem
        rw [hid] at hhas
        obtain rfl := Option.some.inj (hq.symm.trans hhas.runtime)
        have hle := candidate_expired hc hst hl
        obtain ⟨result, hresult⟩ := Option.isSome_iff_exists.1 hsome
        rw [hresult] at hperf
        exact (hend (.passed a ⟨⟨c, result, hperf⟩, hnew, v, hnext, hid⟩ (hu.trans hle))).elim
      · exact h.other (fun _ => rfl) fun heq => hid heq.symm
  | missionLease a =>
    rcases lease_cases hcommit with ⟨_, -, -, heq⟩ | ⟨hnew, v, hhas, ⟨hq, hb⟩, db₁, hl, heq⟩
    · rw [heq]
      exact h
    · rw [heq]
      by_cases hid : a.missionId = missionId
      · obtain ⟨q, hqrow, hst, hby, u, hu, hlease⟩ := h
        rw [hid] at hhas
        obtain rfl := Option.some.inj (hqrow.symm.trans hhas.runtime)
        have hactor : a.actorId = actorId := Option.some.inj (hb.symm.trans hby)
        have hleased : Leased m a := ⟨⟨c, r, hperf⟩, hnew⟩
        cases hl with
        | heartbeat u' ho hu' =>
          rcases lt_or_ge u' leaseUntil with hlt | hge
          · exact (hend (.shortened a u' hleased ho hid hactor hu' hlt)).elim
          · subst hid
            exact ⟨a.beat u' v.runtime,
              row_updateRuntime (f := a.beat u') (fun _ => rfl) hhas.runtime, hst, hby, u', hge,
              rfl⟩
        | release ho => exact (hend (.released a hleased ho hid hactor)).elim
      · cases hl with
        | heartbeat u' ho hu' => exact h.other (fun _ => rfl) fun heq => hid heq.symm
        | release ho => exact h.other (fun _ => rfl) fun heq => hid heq.symm
  | setMissionStatus a =>
    have hstep := Tx.missionStep hnodup hcommit
    generalize hs₁ : m.before.store.missionTables = s₁ at hstep h
    generalize hs₂ : m.after.store.missionTables = s₂ at hstep
    cases hstep with
    | keep => exact h
    | status _ q now hq hne hmove =>
      by_cases hid : a.entityId = missionId
      · subst hs₁
        exact (hend (.status c a r hperf hid ⟨q, hid ▸ hq, hne⟩)).elim
      · obtain ⟨w, hw, hrest⟩ := h
        refine ⟨w, ?_, hrest⟩
        have hf : ∀ r : RuntimeRow, (r.release a.status.queueState now).missionId = r.missionId :=
          fun _ => rfl
        simp only
        rw [row_update hf, hw, Option.map_some,
          if_neg (by simpa [(row_some hw).2] using fun heq => hid heq.symm)]
  | recoverAfterRestart actor now => exact (hend (.recovered c actor now r hperf)).elim
  | _ => exact hother trivial

/-- A mission that was granted to an actor until a time is claimed by another actor only at
a clock sample not before it, or after a move that ended the lease. -/
theorem claim_exclusive {l₁ l₂ l₃ : List (Moment (brokerSystem b))}
    {m₁ m₂ : Moment (brokerSystem b)} (hr : Run (freshState b) (l₁ ++ m₁ :: (l₂ ++ m₂ :: l₃)) s)
    (h₁ : Grants m₁ missionId actorId leaseUntil) (h₂ : Claimed m₂ missionId a) :
    leaseUntil ≤ a.now ∨ ∃ m ∈ l₂, EndsLease m missionId actorId leaseUntil := by
  by_contra hno
  rw [not_or] at hno
  obtain ⟨hnow, hends⟩ := hno
  obtain ⟨-, -, hr₁⟩ := hr.around
  obtain ⟨hr₂, -, -⟩ := hr₁.around
  have hheld : Held m₂.before.store.missionTables missionId actorId leaseUntil := by
    refine hr₂.keeps (J := fun s : State (brokerSystem b) =>
      Held (Db.missionTables s.store) missionId actorId leaseUntil) (h₁.held hr (by simp))
      fun m hm hh => ?_
    exact hh.keep hr (by simp [hm]) fun he => hends ⟨m, hm, he⟩
  obtain ⟨v, hhas, hc, -⟩ := h₂.effect hr (by simp)
  obtain ⟨q, hq, hst, hby, u, hu, hl⟩ := hheld
  obtain rfl := Option.some.inj (hq.symm.trans hhas.runtime)
  exact hnow (hu.trans (candidate_expired hc hst hl))

/-- A heartbeat or a release of an actor that does not hold the mission changes nothing, and
fails unless it repeats an operation that succeeded before. -/
theorem lease_needs_holder {a : LeaseArgs} {r : Except PyError Value}
    (hp : m.Performs c (.tx (.missionLease a)) r)
    (hno : ∀ q, row RuntimeRow.missionId a.missionId m.before.store.missionRuntime = some q →
      ¬(q.queueState = .claimed ∧ q.claimedBy = some a.actorId)) :
    m.after.store = m.before.store ∧ ((∃ e, r = .error e) ∨ ∃ prior,
      row ClaimOperationRow.requestId a.requestId m.before.store.missionClaimOperations =
        some prior ∧ a.same prior) := by
  obtain ⟨x, hcommit⟩ := performs_commit hp
  cases r with
  | error e => exact ⟨Tx.commit_error hcommit, Or.inl ⟨e, rfl⟩⟩
  | ok r =>
    rcases lease_cases hcommit with ⟨prior, hprior, hsame, heq⟩ | ⟨-, v, hhas, hheld, -⟩
    · exact ⟨heq, Or.inr ⟨prior, hprior, hsame⟩⟩
    · exact (hno _ hhas.runtime hheld).elim

/-- Claims of work are exclusive: a mission goes to another actor when its lease has run
out or was ended, and only its holder carries out a heartbeat or a release. -/
theorem claims_exclusive (hr : Run (freshState b) ms s) :
    (∀ l₁ m₁ l₂ m₂ l₃ missionId actorId leaseUntil a, ms = l₁ ++ m₁ :: (l₂ ++ m₂ :: l₃) →
      Grants m₁ missionId actorId leaseUntil → Claimed m₂ missionId a →
      leaseUntil ≤ a.now ∨ ∃ m ∈ l₂, EndsLease m missionId actorId leaseUntil) ∧
    ∀ m ∈ ms, ∀ c a r, m.Performs c (.tx (.missionLease a)) r →
      (∀ q, row RuntimeRow.missionId a.missionId m.before.store.missionRuntime = some q →
        ¬(q.queueState = .claimed ∧ q.claimedBy = some a.actorId)) →
      m.after.store = m.before.store ∧ ((∃ e, r = .error e) ∨ ∃ prior,
        row ClaimOperationRow.requestId a.requestId m.before.store.missionClaimOperations =
          some prior ∧ a.same prior) := by
  refine ⟨?_, fun m _ c a r hp hno => lease_needs_holder hp hno⟩
  rintro l₁ m₁ l₂ m₂ l₃ missionId actorId leaseUntil a rfl h₁ h₂
  exact claim_exclusive hr h₁ h₂

end leases

end OpsControlPlane

namespace OpsControlPlane.Sample

open Transaction Calls

def leaseWrite : Op → Option LeaseArgs
  | .tx (.missionLease a) => some a
  | _ => none

def releasing (i : ℕ) : List (Move (brokerSystem broker)) :=
  [.spawn (.missionLease ⟨"alice", uuid 3, mission, "release", 60⟩), .act i (choice 120 0)]

/-- Alice claims the mission, releases it, and sends the release once more. -/
def releasedTwice : List (Move (brokerSystem broker)) :=
  opening ++ .spawn (.claimNext ⟨"alice", uuid 2, 60, none⟩) :: goOn 1 2 110 200 ++
    releasing 2 ++ .act 2 (choice 120 300) :: releasing 3

theorem released_twice : ∃ s ∈ reaches releasedTwice,
    ∃ s' ∈ s.step (.act 3 (choice 130 400)), s.store.missions ≠ [] ∧
      ∃ a ∈ (s.next 3).bind leaseWrite,
        (∃ q ∈ row RuntimeRow.missionId a.missionId s.store.missionRuntime,
          q.queueState = .queued) ∧
        ((Tx.missionLease a).commit broker (choice 130 400).env s.store).1.toOption.isSome := by
  decide +kernel

/-- The second release is answered, although nobody holds the mission. -/
theorem released_twice_run : ∃ (ms : List (Moment (brokerSystem broker)))
    (m : Moment (brokerSystem broker)) (c : Call (brokerSystem broker)) (a : LeaseArgs)
    (r : Value) (q : RuntimeRow), Run (freshState broker) (ms ++ [m]) m.after ∧
    m.before.store.missions ≠ [] ∧ m.Performs c (.tx (.missionLease a)) (Except.ok r) ∧
    row RuntimeRow.missionId a.missionId m.before.store.missionRuntime = some q ∧
    q.queueState = .queued := by
  obtain ⟨s, hs, s', hs', hne, a, ha, ⟨q, hq, hst⟩, hok⟩ := released_twice
  obtain ⟨ms, hr, -⟩ := Run.of_exec hs
  obtain ⟨o, ho, hoa⟩ := Option.bind_eq_some_iff.1 ha
  have hwrite : o = .tx (.missionLease a) := by
    unfold leaseWrite at hoa
    split at hoa
    · rw [Option.some.inj hoa]
    · cases hoa
  rw [hwrite] at ho
  obtain ⟨c, hp⟩ := Moment.Performs.of_next hs' ho
  have hans : ((brokerSystem broker).perform (.tx (.missionLease a)) (choice 130 400) s.store).1 =
      ((Tx.missionLease a).commit broker (choice 130 400).env s.store).1 := rfl
  rw [hans] at hp
  cases hres : ((Tx.missionLease a).commit broker (choice 130 400).env s.store).1 with
  | error e =>
    rw [hres] at hok
    cases hok
  | ok r =>
    rw [hres] at hp
    exact ⟨ms, _, c, a, r, q, hr.step hs', hne, hp, hq, hst⟩

/-- A run in which there is a mission. -/
theorem missions_coupled_sample : ∃ (ms : List (Moment (brokerSystem broker)))
    (s : State (brokerSystem broker)), Run (freshState broker) ms s ∧ s.store.missions ≠ [] ∧
    ∀ q ∈ s.store.missions, ∀ r ∈ s.store.missionRuntime, r.missionId = q.id →
      Coupled q.status r := by
  obtain ⟨ms, m, c, a, r, q, hr, hne, -⟩ := released_twice_run
  have hr := hr.around.1
  exact ⟨ms, m.before, hr, hne, (missions_coupled hr).2⟩

/-- A run in which an actor that does not hold a mission releases it, and changes nothing. -/
theorem claims_exclusive_sample : ∃ (ms : List (Moment (brokerSystem broker)))
    (s : State (brokerSystem broker)), Run (freshState broker) ms s ∧ ∃ m ∈ ms, ∃ c a r,
    m.Performs c (.tx (.missionLease a)) r ∧ m.before.store.missions ≠ [] ∧
    m.after.store = m.before.store := by
  obtain ⟨ms, m, c, a, r, q, hr, hne, hp, hq, hst⟩ := released_twice_run
  refine ⟨_, _, hr, m, by simp, c, a, _, hp, hne,
    ((claims_exclusive hr).2 m (by simp) c a _ hp fun q' hq' h => ?_).1⟩
  obtain rfl := Option.some.inj (hq.symm.trans hq')
  cases hst.symm.trans h.1

/-- A release of an actor that does not hold the mission does not always fail. -/
theorem release_without_claim : ∃ (ms : List (Moment (brokerSystem broker)))
    (s : State (brokerSystem broker)), Run (freshState broker) ms s ∧ ∃ m ∈ ms, ∃ c a r,
    m.Performs c (.tx (.missionLease a)) (Except.ok r) ∧
    ∀ q, row RuntimeRow.missionId a.missionId m.before.store.missionRuntime = some q →
      ¬(q.queueState = .claimed ∧ q.claimedBy = some a.actorId) := by
  obtain ⟨ms, m, c, a, r, q, hr, hne, hp, hq, hst⟩ := released_twice_run
  refine ⟨_, _, hr, m, by simp, c, a, r, hp, fun q' hq' h => ?_⟩
  obtain rfl := Option.some.inj (hq.symm.trans hq')
  cases hst.symm.trans h.1

end OpsControlPlane.Sample
