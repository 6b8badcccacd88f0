import OpsControlPlane.Safety.WorkQueues

/-!
# Locks of resources

A lock of a resource is a row with a holder, a lease and a fencing token. `lock_exclusive`
says that a resource that was granted to a mission and an actor is granted to another pair
only after the lease was given up, cleared by a change of status or by a recovery, or found
past its `lease_until` by the clock sample of the grant.

The fencing token is kept in the row. As long as no move removes the row, a grant to
another holder has a greater token (`fencing_tokens_grow`); a row that is removed takes the
token with it, and the next grant starts at one again. A lock can be acquired for a mission
that is not open; `locks_of_open_missions` says that locks belong to open missions in the
runs in which this does not happen.
-/

set_option linter.unusedSectionVars false

namespace OpsControlPlane

open JsonText Calendar Transaction Calls

variable [Platform]

/-- A commit of a lock operation repeats an operation of its request and changes nothing, or
the operation is carried out. -/
theorem lock_cases {b : Broker} {a : LockArgs} {x : TxEnv} {db db' : Db} {r : Value}
    (h : (Tx.resourceLock a).commit b x db = (Except.ok r, db')) :
    (∃ prior, row LockOperationRow.requestId a.requestId db.resourceLockOperations =
        some prior ∧ a.same prior ∧ db' = db) ∨
    (row LockOperationRow.requestId a.requestId db.resourceLockOperations = none ∧
      ∃ v db₁, db.missionTables.Has a.missionId v ∧
        LockEffect a v.mission.projectId db db₁ r ∧
        db'.missionTables = db₁.missionTables) := by
  obtain ⟨c, hrun, rfl, -⟩ := Tx.commit_ok h
  obtain ⟨v, hv, ⟨prior, hp, hsame, -, rfl⟩ | ⟨hnew, db₁, _, heff, -, hlogs⟩⟩ :=
    (resourceLock_spec b.rbac a x ⟨db, 0⟩).ok hrun
  · exact Or.inl ⟨prior, hp, hsame, rfl⟩
  · exact Or.inr ⟨hnew, v, db₁, missionView_has hv.1, heff, hlogs.missionTables⟩

abbrev MissionTables.lock (s : MissionTables) (resourceId : String) : Option LockRow :=
  row LockRow.resourceId resourceId s.locks

variable {t : List LockRow} {l : LockRow}

theorem row_upsertLock_ne {id : String} (hne : l.resourceId ≠ id) :
    row LockRow.resourceId id (upsertLock l t) = row LockRow.resourceId id t := by
  have hupd : ∀ t : List LockRow, row LockRow.resourceId id
      (update (fun r => r.resourceId = l.resourceId) (fun _ => l) t) =
      row LockRow.resourceId id t := by
    intro t
    induction t with
    | nil => rfl
    | cons k t ih =>
      have hcons : update (fun r => r.resourceId = l.resourceId) (fun _ => l) (k :: t) =
          (if k.resourceId = l.resourceId then l else k) ::
            update (fun r => r.resourceId = l.resourceId) (fun _ => l) t := by
        simp [update]
      rw [hcons, row_cons, row_cons, ih]
      by_cases hk : k.resourceId = l.resourceId
      · rw [if_pos hk, if_neg hne, if_neg (by rw [hk]; exact hne)]
      · rw [if_neg hk]
  unfold upsertLock
  split_ifs with h
  · exact hupd t
  · rw [row_append, row_cons, if_neg hne]
    simp [row]

theorem row_filter_some {p : LockRow → Bool} {id : String}
    (h : row LockRow.resourceId id t = some l) (hp : p l = true) :
    row LockRow.resourceId id (t.filter p) = some l := by
  induction t with
  | nil => simp [row] at h
  | cons k t ih =>
    rw [row_cons] at h
    by_cases hk : k.resourceId = id
    · obtain rfl : k = l := by simpa [hk] using h
      rw [List.filter_cons_of_pos hp, row_cons, if_pos hk]
    · rw [if_neg hk] at h
      by_cases hpk : p k = true
      · rw [List.filter_cons_of_pos hpk, row_cons, if_neg hk]
        exact ih h
      · rw [List.filter_cons_of_neg hpk]
        exact ih h

theorem row_renew {a : LockArgs} {id : String} (h : row LockRow.resourceId id t = some l) :
    row LockRow.resourceId id (update (fun r => r.resourceId = a.resourceId) a.renew t) =
      some (if a.resourceId = id then a.renew l else l) := by
  rw [row_update (f := a.renew) fun _ => rfl, h, Option.map_some, (row_some h).2]
  by_cases hid : a.resourceId = id
  · rw [if_pos hid, if_pos (by simp [hid])]
  · rw [if_neg hid, if_neg (by simpa using fun h => hid h.symm)]

theorem locks_nodup_upsert (h : (t.map LockRow.resourceId).Nodup) :
    ((upsertLock l t).map LockRow.resourceId).Nodup := by
  unfold upsertLock
  split_ifs with hl
  · have hmap : (update (fun r => r.resourceId = l.resourceId) (fun _ => l) t).map
        LockRow.resourceId = t.map LockRow.resourceId := by
      rw [update, List.map_map]
      refine List.map_congr_left fun r _ => ?_
      by_cases hr : r.resourceId = l.resourceId <;> simp [hr]
    rw [hmap]
    exact h
  · exact nodup_insert h (by simpa using hl)

theorem MissionStep.locks_nodup {s s' : MissionTables} {t : Tx} (h : MissionStep s t s')
    (hn : (s.locks.map LockRow.resourceId).Nodup) :
    (s'.locks.map LockRow.resourceId).Nodup := by
  have hfilter : ∀ p : LockRow → Bool, ((s.locks.filter p).map LockRow.resourceId).Nodup :=
    fun p => hn.sublist (List.filter_sublist.map _)
  cases h with
  | status a =>
    dsimp only
    split_ifs
    · exact hfilter _
    · exact hn
  | acquire => exact locks_nodup_upsert hn
  | renew a =>
    dsimp only
    rw [map_update (g := LockRow.resourceId) (f := a.renew) fun _ => rfl]
    exact hn
  | unlock => exact hfilter _
  | recover => exact hfilter _
  | _ => exact hn

theorem locks_carried (b : Broker) : Carried b (fun db => MissionsOk db.missionTables ∧
    (db.resourceLocks.map LockRow.resourceId).Nodup) fun _ _ => True where
  fresh := ⟨(missions_carried b).fresh, by simp [Db.fresh]⟩
  refl _ := trivial
  trans _ _ _ _ _ := trivial
  step _ _ _ _ _ _ hK _ _ hcommit :=
    have hstep := Tx.missionStep hK.1.nodup hcommit
    ⟨⟨hK.1.step hstep, hstep.locks_nodup hK.2⟩, trivial⟩

section locks

variable {b : Broker} {ms : List (Moment (brokerSystem b))} {s : State (brokerSystem b)}

/-- The move is an operation on a lock, with a request that was not used before. -/
structure Locked (m : Moment (brokerSystem b)) (a : LockArgs) : Prop where
  commit : ∃ c r, m.Performs c (.tx (.resourceLock a)) (Except.ok r)
  new : row LockOperationRow.requestId a.requestId m.before.store.resourceLockOperations = none

/-- The move grants the resource, by an acquisition or a renewal, and the lock is then the
given row. -/
structure Granted (m : Moment (brokerSystem b)) (a : LockArgs) (l : LockRow) : Prop where
  locked : Locked m a
  grants : a.operation = .acquire ∨ a.operation = .renew
  after : m.after.store.missionTables.lock a.resourceId = some l

def ClearsLocks (m : Moment (brokerSystem b)) (missionId : String) : Prop :=
  ∃ (c : Call (brokerSystem b)) (a : StatusChange MissionStatus) (r : StatusReply MissionStatus)
    (q : MissionRow), m.Performs c (.tx (.setMissionStatus a)) (Except.ok r) ∧
    a.entityId = missionId ∧ row MissionRow.id missionId m.before.store.missions = some q ∧
    q.status ≠ a.status ∧ (a.status = .paused ∨ a.status = .completed)

/-- The move is a recovery that finds the lease of the lock past its end. -/
def Recovers (m : Moment (brokerSystem b)) (l : LockRow) : Prop :=
  ∃ (c : Call (brokerSystem b)) (actor : String) (now : DateTime) (r : RecoveryReport),
    m.Performs c (.tx (.recoverAfterRestart actor now)) (Except.ok r) ∧
    l.leaseUntil ≤ isoformat now

/-- The move ends the lease that a mission and an actor have on the resource: its release,
a change of status, a recovery, or a grant to another pair that finds it past its
`lease_until`. -/
inductive EndsLock (m : Moment (brokerSystem b)) (resourceId missionId actorId : String) : Prop
  | released (a : LockArgs) (h : Locked m a) (ho : a.operation = .release)
      (hid : a.resourceId = resourceId) (hpair : a.missionId = missionId ∧ a.actorId = actorId)
  | cleared (h : ClearsLocks m missionId)
  | recovered (l : LockRow) (hl : m.before.store.missionTables.lock resourceId = some l)
      (h : Recovers m l)
  | passed (a : LockArgs) (l l' : LockRow) (leaseUntil : DateTime) (h : Granted m a l')
      (hid : a.resourceId = resourceId)
      (hpair : ¬(a.missionId = missionId ∧ a.actorId = actorId))
      (hl : m.before.store.missionTables.lock resourceId = some l)
      (hheld : l.missionId = missionId ∧ l.holderActorId = actorId)
      (hparse : parseTimestamp l.leaseUntil = some leaseUntil) (hle : leaseUntil ≤ a.now)

variable {m : Moment (brokerSystem b)} {resourceId missionId actorId : String}

/-- What a move does to the lock of a resource: nothing, a grant, or its removal. -/
theorem lock_moves (hr : Run (freshState b) ms s) (hm : m ∈ ms) {l : LockRow}
    (hl : m.before.store.missionTables.lock resourceId = some l) :
    m.after.store.missionTables.lock resourceId = some l ∨
    (∃ a l', Granted m a l' ∧ a.resourceId = resourceId ∧
      ((a.mine l ∧ l'.missionId = l.missionId ∧ l'.holderActorId = l.holderActorId ∧
          l'.fencingToken = l.fencingToken) ∨
        (¬a.mine l ∧ l'.missionId = a.missionId ∧ l'.holderActorId = a.actorId ∧
          l'.fencingToken = l.fencingToken + 1 ∧ ∃ u, parseTimestamp l.leaseUntil = some u ∧
          u ≤ a.now))) ∨
    (∃ a, Locked m a ∧ a.operation = .release ∧ a.resourceId = resourceId ∧ a.mine l) ∨
    ClearsLocks m l.missionId ∨ Recovers m l := by
  rcases commit_of_mem hr hm with heq | ⟨c, t, r, x, hperf, hcommit⟩
  · exact Or.inl (by rw [heq]; exact hl)
  obtain ⟨hok, hlocks⟩ := ((locks_carried b).moment hr hm hperf).1
  have hstep := Tx.missionStep hok.nodup hcommit
  cases t with
  | resourceLock a =>
    rcases lock_cases hcommit with ⟨_, -, -, heq⟩ | ⟨hnew, v, db₁, hhas, heff, heq⟩
    · exact Or.inl (by rw [heq]; exact hl)
    have hlocked : Locked m a := ⟨⟨c, r, hperf⟩, hnew⟩
    by_cases hid : a.resourceId = resourceId
    · subst hid
      cases heff with
      | acquire ho free =>
        have hafter : m.after.store.missionTables.lock a.resourceId =
            some (a.lockRow v.mission.projectId (a.token (some l))) := by
          have hrow := row_upsertLock (a.lockRow v.mission.projectId (a.token (some l)))
            m.before.store.resourceLocks
          have hlock : row LockRow.resourceId a.resourceId m.before.store.resourceLocks =
            some l := hl
          rw [heq, hlock]
          exact hrow
        refine Or.inr (Or.inl ⟨a, _, ⟨hlocked, Or.inl ho, hafter⟩, rfl, ?_⟩)
        by_cases hmine : a.mine l
        · exact Or.inl ⟨hmine, hmine.1.symm, hmine.2.symm, by simp [LockArgs.lockRow,
            LockArgs.token, hmine]⟩
        · refine Or.inr ⟨hmine, rfl, rfl, by simp [LockArgs.lockRow, LockArgs.token, hmine], ?_⟩
          exact (free l hl).resolve_left hmine
      | renew l₀ ho held mine =>
        obtain rfl := Option.some.inj (hl.symm.trans held)
        have hafter : m.after.store.missionTables.lock a.resourceId = some (a.renew l) := by
          rw [heq]
          exact (row_renew hl).trans (by rw [if_pos rfl])
        exact Or.inr (Or.inl ⟨a, _, ⟨hlocked, Or.inr ho, hafter⟩, rfl,
          Or.inl ⟨mine, rfl, rfl, rfl⟩⟩)
      | release l₀ ho held mine =>
        obtain rfl := Option.some.inj (hl.symm.trans held)
        exact Or.inr (Or.inr (Or.inl ⟨a, hlocked, ho, rfl, mine⟩))
    · refine Or.inl ?_
      rw [heq]
      cases heff with
      | acquire ho free =>
        exact (row_upsertLock_ne (l := a.lockRow v.mission.projectId _) hid).trans hl
      | renew l₀ ho held mine =>
        exact (row_renew hl).trans (by rw [if_neg hid])
      | release l₀ ho held mine =>
        exact row_filter_some hl (by simpa [(row_some hl).2] using fun h => hid h.symm)
  | setMissionStatus a =>
    generalize hs₁ : m.before.store.missionTables = s₁ at hstep hl
    generalize hs₂ : m.after.store.missionTables = s₂ at hstep
    cases hstep with
    | keep => exact Or.inl hl
    | status _ q now hq hne hmove =>
      by_cases hcl : (a.status = .paused ∨ a.status = .completed) ∧ a.entityId = l.missionId
      · subst hs₁
        exact Or.inr (Or.inr (Or.inr (Or.inl ⟨c, a, r, q, hperf, hcl.2, hcl.2 ▸ hq, hne,
          hcl.1⟩)))
      · refine Or.inl ?_
        dsimp only [MissionTables.lock]
        split_ifs with hst
        · exact row_filter_some hl (by simpa using fun h => hcl ⟨hst, h.symm⟩)
        · exact hl
  | recoverAfterRestart actor now =>
    by_cases hle : l.leaseUntil ≤ isoformat now
    · exact Or.inr (Or.inr (Or.inr (Or.inr ⟨c, actor, now, r, hperf, hle⟩)))
    · refine Or.inl ?_
      have hlocks : (m.before.store.missionTables.locks.map LockRow.resourceId).Nodup := hlocks
      generalize hs₁ : m.before.store.missionTables = s₁ at hstep hl hlocks
      generalize hs₂ : m.after.store.missionTables = s₂ at hstep
      cases hstep with
      | keep _ h => exact h.elim
      | recover _ _ claims locks hclaims hexpired =>
        refine row_filter_some hl (decide_eq_true fun hmem => hle ?_)
        obtain ⟨k, hk, hkle, hkid⟩ := (hexpired _).1 hmem
        obtain rfl := List.inj_on_of_nodup_map hlocks hk (row_some hl).1 hkid
        exact hkle
  | _ =>
    refine Or.inl ?_
    generalize hs₁ : m.before.store.missionTables = s₁ at hstep hl
    generalize hs₂ : m.after.store.missionTables = s₂ at hstep
    cases hstep <;> exact hl

variable {a : LockArgs}

theorem Locked.of_step {s s' : State (brokerSystem b)} {i : ℕ} {x : Choice}
    (h : s.step (.act i x) = some s') (hn : s.next i = some (.tx (.resourceLock a)))
    (hnew : row LockOperationRow.requestId a.requestId s.store.resourceLockOperations = none)
    (hdone : row LockOperationRow.requestId a.requestId s'.store.resourceLockOperations ≠ none) :
    Locked ⟨s, .act i x, s'⟩ a := by
  obtain ⟨c, hp⟩ := Moment.Performs.of_next h hn
  refine ⟨?_, hnew⟩
  generalize ((brokerSystem b).perform (.tx (.resourceLock a)) x s.store).1 = r at hp
  cases r with
  | ok r => exact ⟨c, r, hp⟩
  | error e =>
    obtain ⟨y, hcommit⟩ := performs_commit hp
    exact absurd hnew (by rw [← Tx.commit_error hcommit]; exact hdone)

theorem Locked.unique {a' : LockArgs} (h : Locked m a) (h' : Locked m a') : a = a' := by
  obtain ⟨⟨c, r, hp⟩, -⟩ := h
  obtain ⟨⟨c', r', hp'⟩, -⟩ := h'
  exact Tx.resourceLock.inj (Op.tx.inj (hp.unique hp'))

theorem Granted.keeps {l k : LockRow} (h : Granted m a l) :
    (∀ a', Locked m a' → a'.operation ≠ .release) ∧
      (∀ id, ¬ClearsLocks m id) ∧ ¬Recovers m k := by
  obtain ⟨c, r, hp⟩ := h.locked.commit
  refine ⟨fun a' h' ho => ?_, fun id hc => ?_, fun hrec => ?_⟩
  · rw [← h.locked.unique h'] at ho
    rcases h.grants with hg | hg <;> cases hg.symm.trans ho
  · obtain ⟨_, _, _, _, hp', -⟩ := hc
    cases Op.tx.inj (hp.unique hp')
  · obtain ⟨_, _, _, _, hp', -⟩ := hrec
    cases Op.tx.inj (hp.unique hp')

theorem Granted.pair {l : LockRow} (h : Granted m a l) :
    l.missionId = a.missionId ∧ l.holderActorId = a.actorId := by
  obtain ⟨⟨⟨c, r, hp⟩, hnew⟩, hgrants, hafter⟩ := h
  obtain ⟨x, hcommit⟩ := performs_commit hp
  rcases lock_cases hcommit with ⟨_, hprior, -, -⟩ | ⟨-, v, db₁, hhas, heff, heq⟩
  · cases hnew.symm.trans hprior
  rw [heq] at hafter
  cases heff with
  | acquire ho free =>
    have hrow := row_upsertLock (a.lockRow v.mission.projectId
      (a.token (row LockRow.resourceId a.resourceId m.before.store.resourceLocks)))
      m.before.store.resourceLocks
    obtain rfl := Option.some.inj (hrow.symm.trans hafter)
    exact ⟨rfl, rfl⟩
  | renew l₀ ho held mine =>
    have hrow := (row_renew (a := a) held).symm.trans hafter
    rw [if_pos rfl] at hrow
    obtain rfl := Option.some.inj hrow
    exact mine
  | release l₀ ho held mine =>
    rcases hgrants with hg | hg <;> cases hg.symm.trans ho

def LockedBy (s : MissionTables) (resourceId missionId actorId : String) : Prop :=
  ∃ l, s.lock resourceId = some l ∧ l.missionId = missionId ∧ l.holderActorId = actorId

theorem LockedBy.keep (hr : Run (freshState b) ms s) (hm : m ∈ ms)
    (h : LockedBy m.before.store.missionTables resourceId missionId actorId)
    (hend : ¬EndsLock m resourceId missionId actorId) :
    LockedBy m.after.store.missionTables resourceId missionId actorId := by
  obtain ⟨l, hl, rfl, rfl⟩ := h
  rcases lock_moves hr hm hl with hsame | ⟨a, l', hg, rfl, hcases⟩ | ⟨a, hlocked, ho, hid, hmine⟩ |
    hclear | hrec
  · exact ⟨l, hsame, rfl, rfl⟩
  · rcases hcases with ⟨-, hmid, hact, -⟩ | ⟨hmine, -, -, -, u, hu, hle⟩
    · exact ⟨l', hg.after, hmid, hact⟩
    · exact (hend (.passed a l l' u hg rfl (fun h => hmine ⟨h.1.symm, h.2.symm⟩) hl ⟨rfl, rfl⟩ hu
        hle)).elim
  · exact (hend (.released a hlocked ho hid ⟨hmine.1.symm, hmine.2.symm⟩)).elim
  · exact (hend (.cleared hclear)).elim
  · exact (hend (.recovered l hl hrec)).elim

/-- A resource that was granted to a mission and an actor is granted to another pair only
after, or by, a move that ends the lease. -/
theorem lock_exclusive {l₁ l₂ l₃ : List (Moment (brokerSystem b))}
    {m₁ m₂ : Moment (brokerSystem b)} {a₁ a₂ : LockArgs} {k₁ k₂ : LockRow}
    (hr : Run (freshState b) (l₁ ++ m₁ :: (l₂ ++ m₂ :: l₃)) s)
    (h₁ : Granted m₁ a₁ k₁) (h₂ : Granted m₂ a₂ k₂) (hres : a₂.resourceId = a₁.resourceId)
    (hne : ¬(a₂.missionId = a₁.missionId ∧ a₂.actorId = a₁.actorId)) :
    ∃ m ∈ l₂ ++ [m₂], EndsLock m a₁.resourceId a₁.missionId a₁.actorId := by
  by_contra hno
  have hends : ∀ m ∈ l₂ ++ [m₂], ¬EndsLock m a₁.resourceId a₁.missionId a₁.actorId :=
    fun m hm he => hno ⟨m, hm, he⟩
  obtain ⟨-, -, hr₁⟩ := hr.around
  obtain ⟨hr₂, -, -⟩ := hr₁.around
  have hheld : LockedBy m₂.before.store.missionTables a₁.resourceId a₁.missionId a₁.actorId := by
    refine hr₂.keeps (J := fun s : State (brokerSystem b) =>
      LockedBy (Db.missionTables s.store) a₁.resourceId a₁.missionId a₁.actorId)
      ⟨k₁, h₁.after, h₁.pair⟩ fun m hm hh => ?_
    exact hh.keep hr (by simp [hm]) (hends m (by simp [hm]))
  obtain ⟨l, hl, hpair⟩ := hheld.keep hr (by simp) (hends m₂ (by simp))
  rw [← hres] at hl
  obtain rfl := Option.some.inj (hl.symm.trans h₂.after)
  obtain ⟨hm, ha⟩ := h₂.pair
  exact hne ⟨hm.symm.trans hpair.1, ha.symm.trans hpair.2⟩

/-! ## Fencing tokens -/

/-- The move removes the lock of the resource: its release, a change of status of its
mission, or a recovery that finds it past its lease. -/
inductive DropsLock (m : Moment (brokerSystem b)) (resourceId : String) : Prop
  | released (a : LockArgs) (h : Locked m a) (ho : a.operation = .release)
      (hid : a.resourceId = resourceId)
  | cleared (l : LockRow) (hl : m.before.store.missionTables.lock resourceId = some l)
      (h : ClearsLocks m l.missionId)
  | recovered (l : LockRow) (hl : m.before.store.missionTables.lock resourceId = some l)
      (h : Recovers m l)

def Fenced (s : MissionTables) (resourceId missionId actorId : String) (token : ℕ) : Prop :=
  ∃ l, s.lock resourceId = some l ∧
    (l.missionId = missionId ∧ l.holderActorId = actorId ∧ token ≤ l.fencingToken ∨
      token < l.fencingToken)

theorem Fenced.keep (hr : Run (freshState b) ms s) (hm : m ∈ ms) {token : ℕ}
    (h : Fenced m.before.store.missionTables resourceId missionId actorId token)
    (hdrop : ¬DropsLock m resourceId) :
    Fenced m.after.store.missionTables resourceId missionId actorId token := by
  obtain ⟨l, hl, htoken⟩ := h
  rcases lock_moves hr hm hl with hsame | ⟨a, l', hg, rfl, hcases⟩ | ⟨a, hlocked, ho, hid, -⟩ |
    hclear | hrec
  · exact ⟨l, hsame, htoken⟩
  · refine ⟨l', hg.after, ?_⟩
    rcases hcases with ⟨-, hmid, hact, htok⟩ | ⟨-, -, -, htok, -⟩
    · rw [hmid, hact, htok]
      exact htoken
    · rw [htok]
      rcases htoken with ⟨-, -, hle⟩ | hlt
      · exact Or.inr (Nat.lt_succ_of_le hle)
      · exact Or.inr (Nat.lt_succ_of_lt hlt)
  · exact (hdrop (.released a hlocked ho hid)).elim
  · exact (hdrop (.cleared l hl hclear)).elim
  · exact (hdrop (.recovered l hl hrec)).elim

/-- As long as no move removes the lock, a later grant of the resource to another holder has
a greater token. -/
theorem fencing_tokens_grow {l₁ l₂ l₃ : List (Moment (brokerSystem b))}
    {m₁ m₂ : Moment (brokerSystem b)} {a₁ a₂ : LockArgs} {k₁ k₂ : LockRow}
    (hr : Run (freshState b) (l₁ ++ m₁ :: (l₂ ++ m₂ :: l₃)) s)
    (h₁ : Granted m₁ a₁ k₁) (h₂ : Granted m₂ a₂ k₂) (hres : a₂.resourceId = a₁.resourceId)
    (hne : ¬(a₂.missionId = a₁.missionId ∧ a₂.actorId = a₁.actorId))
    (hkeep : ∀ m ∈ l₂, ¬DropsLock m a₁.resourceId) : k₁.fencingToken < k₂.fencingToken := by
  obtain ⟨-, -, hr₁⟩ := hr.around
  obtain ⟨hr₂, -, -⟩ := hr₁.around
  have hfenced : Fenced m₂.before.store.missionTables a₁.resourceId a₁.missionId a₁.actorId
      k₁.fencingToken := by
    refine hr₂.keeps (J := fun s : State (brokerSystem b) => Fenced (Db.missionTables s.store)
      a₁.resourceId a₁.missionId a₁.actorId k₁.fencingToken)
      ⟨k₁, h₁.after, Or.inl ⟨h₁.pair.1, h₁.pair.2, le_rfl⟩⟩ fun m hm hh => ?_
    exact hh.keep hr (by simp [hm]) (hkeep m hm)
  have hgrant : ¬DropsLock m₂ a₁.resourceId := by
    rintro (⟨a, h, ho, -⟩ | ⟨l, -, h⟩ | ⟨l, -, h⟩)
    · exact (h₂.keeps (k := k₁)).1 a h ho
    · exact (h₂.keeps (k := k₁)).2.1 _ h
    · exact (h₂.keeps (k := l)).2.2 h
  obtain ⟨l, hl, htoken⟩ := hfenced.keep hr (by simp) hgrant
  rw [← hres] at hl
  obtain rfl := Option.some.inj (hl.symm.trans h₂.after)
  obtain ⟨hm, ha⟩ := h₂.pair
  rcases htoken with ⟨hmid, hact, -⟩ | hlt
  · exact (hne ⟨hm.symm.trans hmid, ha.symm.trans hact⟩).elim
  · exact hlt

/-! ## Locks and missions -/

def LocksOpen (s : MissionTables) : Prop :=
  ∀ l ∈ s.locks, ∃ q ∈ s.missions, q.id = l.missionId ∧ q.status = .opened

theorem mem_upsertLock {l r : LockRow} {t : List LockRow} (h : r ∈ upsertLock l t) :
    r = l ∨ r ∈ t := by
  unfold upsertLock at h
  split_ifs at h
  · obtain ⟨q, hq, rfl⟩ := mem_update.1 h
    split_ifs
    · exact Or.inl rfl
    · exact Or.inr hq
  · rcases List.mem_append.1 h with h | h
    · exact Or.inr h
    · exact Or.inl (List.mem_singleton.1 h)

/-- A commit keeps the locks with open missions, if an acquisition finds its mission open. -/
theorem LocksOpen.step {s s' : MissionTables} {t : Tx} (h : LocksOpen s) (hs : MissionStep s t s')
    (hopen : ∀ a, t = .resourceLock a → a.operation = .acquire → s' = s ∨
      ∃ q, row MissionRow.id a.missionId s.missions = some q ∧ q.status = .opened) :
    LocksOpen s' := by
  cases hs with
  | create a =>
    intro l hl
    obtain ⟨q, hq, hrest⟩ := h l hl
    exact ⟨q, List.mem_append_left _ hq, hrest⟩
  | status a m now hm hne hmove =>
    intro l hl
    have hmem : l ∈ s.locks ∧
        (l.missionId = a.entityId → ¬(a.status = .paused ∨ a.status = .completed)) := by
      dsimp only at hl
      split_ifs at hl with hst
      · exact ⟨List.mem_of_mem_filter hl,
          fun heq => absurd heq (by simpa using List.of_mem_filter hl)⟩
      · exact ⟨hl, fun _ => hst⟩
    obtain ⟨q, hq, hid, hqst⟩ := h l hmem.1
    refine ⟨_, List.mem_map_of_mem hq, ?_⟩
    by_cases hqid : q.id = a.entityId
    · rw [if_pos (by simpa using hqid)]
      have hnot := hmem.2 (hid.symm.trans hqid)
      refine ⟨hid, ?_⟩
      cases hst : a.status <;> simp_all [MissionRow.setStatus]
    · rw [if_neg (by simpa using hqid)]
      exact ⟨hid, hqst⟩
  | acquire a v hv ho hfree =>
    rcases hopen a rfl ho with heq | ⟨q, hq, hst⟩
    · rw [heq]
      exact h
    intro l hl
    rcases mem_upsertLock hl with rfl | hl
    · exact ⟨q, (row_some hq).1, (row_some hq).2, hst⟩
    · exact h l hl
  | renew a =>
    intro l hl
    obtain ⟨k, hk, rfl⟩ := mem_update.1 hl
    split_ifs
    · exact h k hk
    · exact h k hk
  | unlock => exact fun l hl => h l (List.mem_of_mem_filter hl)
  | recover => exact fun l hl => h l (List.mem_of_mem_filter hl)
  | _ => exact h

/-- In a run in which every acquisition of a lock finds its mission open, every lock belongs
to an open mission. -/
theorem locks_of_open_missions (hr : Run (freshState b) ms s)
    (hopen : ∀ m ∈ ms, ∀ a, Locked m a → a.operation = .acquire →
      ∃ q, row MissionRow.id a.missionId m.before.store.missions = some q ∧
        q.status = .opened) :
    ∀ l ∈ s.store.resourceLocks, ∃ q ∈ s.store.missions,
      q.id = l.missionId ∧ q.status = .opened := by
  refine hr.keeps (J := fun s : State (brokerSystem b) => LocksOpen (Db.missionTables s.store))
    (by simp [LocksOpen, Db.missionTables, freshState, Db.fresh]) fun m hm h => ?_
  rcases commit_of_mem hr hm with heq | ⟨c, t, r, x, hperf, hcommit⟩
  · rw [heq]
    exact h
  refine h.step (Tx.missionStep ((missions_carried b).moment hr hm hperf).1.nodup hcommit) ?_
  rintro a rfl ho
  rcases lock_cases hcommit with ⟨_, -, -, heq⟩ | ⟨hnew, -⟩
  · exact Or.inl (congrArg Db.missionTables heq)
  · exact Or.inr (hopen m hm a ⟨⟨c, r, hperf⟩, hnew⟩ ho)

end locks

end OpsControlPlane

namespace OpsControlPlane.Sample

open Transaction Calls

def lockWrite : Op → Option LockArgs
  | .tx (.resourceLock a) => some a
  | _ => none

/-- The acquisition that the move carries out, and the lock that it leaves. -/
def granting (s s' : State (brokerSystem broker)) (i : ℕ) : Option (LockArgs × LockRow) := do
  let a ← (s.next i).bind lockWrite
  let k ← s'.store.missionTables.lock a.resourceId
  if a.operation = .acquire ∧
      row LockOperationRow.requestId a.requestId s.store.resourceLockOperations = none ∧
      (row LockOperationRow.requestId a.requestId s'.store.resourceLockOperations).isSome then
    some (a, k)
  else none

theorem granted_of_granting {s s' : State (brokerSystem broker)} {i : ℕ} {x : Choice}
    {p : LockArgs × LockRow} (h : s.step (.act i x) = some s') (hp : granting s s' i = some p) :
    Granted ⟨s, .act i x, s'⟩ p.1 p.2 := by
  obtain ⟨a, ha, hp⟩ := Option.bind_eq_some_iff.1 hp
  obtain ⟨k, hk, hp⟩ := Option.bind_eq_some_iff.1 hp
  split_ifs at hp with hif
  obtain rfl := Option.some.inj hp
  obtain ⟨hacq, hnew, hdone⟩ := hif
  obtain ⟨o, ho, hoa⟩ := Option.bind_eq_some_iff.1 ha
  have hwrite : o = .tx (.resourceLock a) := by
    unfold lockWrite at hoa
    split at hoa
    · rw [Option.some.inj hoa]
    · cases hoa
  rw [hwrite] at ho
  refine ⟨.of_step h ho hnew (by rw [← Option.isSome_iff_ne_none]; exact hdone), Or.inl hacq, hk⟩

def acquiresOpen (s : State (brokerSystem broker)) : Move (brokerSystem broker) → Bool
  | .act i _ => ((s.next i).bind lockWrite).all fun a => a.operation ≠ .acquire ∨
      (row MissionRow.id a.missionId s.store.missions).any fun q => q.status = .opened
  | _ => true

def acquiring (i : ℕ) (actorId : String) (rid seconds : ℕ) :
    List (Move (brokerSystem broker)) :=
  [.spawn (.acquireResourceLock ⟨actorId, uuid rid, mission, "db", "acquire", 30⟩),
    .act i (choice seconds 0)]

def pausing (i rid seconds : ℕ) : List (Move (brokerSystem broker)) :=
  .spawn (.setMissionStatus ⟨"alice", uuid rid, mission, "paused"⟩) :: goOn i 2 seconds 500

/-- A lock is granted three times: to Alice, to Bob with a token that is not greater, and
to Alice again. The lock of Bob belongs to a mission that is not open. -/
def LockDay (s₁ s₂ s₃ s₄ s₅ s₆ : State (brokerSystem broker)) : Prop :=
  ∃ p₁ ∈ granting s₁ s₂ 1, ∃ p₂ ∈ granting s₃ s₄ 3, ∃ p₃ ∈ granting s₅ s₆ 4,
    (p₂.1.resourceId = p₁.1.resourceId ∧ p₂.1.actorId ≠ p₁.1.actorId ∧
      p₂.2.fencingToken ≤ p₁.2.fencingToken) ∧
    (p₃.1.resourceId = p₂.1.resourceId ∧ p₃.1.actorId ≠ p₂.1.actorId) ∧
    s₂.store.resourceLocks ≠ [] ∧
    ∃ l ∈ s₄.store.resourceLocks, ∃ q ∈ s₄.store.missions,
      q.id = l.missionId ∧ q.status ≠ .opened

instance (s₁ s₂ s₃ s₄ s₅ s₆ : State (brokerSystem broker)) :
    Decidable (LockDay s₁ s₂ s₃ s₄ s₅ s₆) :=
  inferInstanceAs (Decidable (∃ _ ∈ _, _))

/-- Alice is granted the lock, the mission is paused, and Bob is granted the lock of the
paused mission. When his lease has run out, she is granted it again. -/
theorem lock_day :
    ∃ s₁ ∈ (freshState broker).execWhile acquiresOpen (opening ++ acquiring 1 "alice" 2 110),
    ∃ s₂ ∈ s₁.execWhile acquiresOpen [.act 1 (choice 110 200)],
    ∃ s₃ ∈ s₂.exec (pausing 2 3 120 ++ acquiring 3 "bob" 4 130),
    ∃ s₄ ∈ s₃.step (.act 3 (choice 130 300)),
    ∃ s₅ ∈ s₄.execWhile quiet (acquiring 4 "alice" 5 200),
    ∃ s₆ ∈ s₅.step (.act 4 (choice 200 400)), LockDay s₁ s₂ s₃ s₄ s₅ s₆ := by
  decide +kernel

theorem lock_day_run : ∃ (l₁ l₂ l₃ : List (Moment (brokerSystem broker)))
    (m₁ m₂ m₃ : Moment (brokerSystem broker)) (p₁ p₂ p₃ : LockArgs × LockRow),
    Run (freshState broker) (l₁ ++ m₁ :: (l₂ ++ m₂ :: (l₃ ++ [m₃]))) m₃.after ∧
    (∀ m ∈ l₁ ++ [m₁], acquiresOpen m.before m.move = true) ∧
    (∀ m ∈ l₃, quiet m.before m.move = true) ∧
    Granted m₁ p₁.1 p₁.2 ∧ Granted m₂ p₂.1 p₂.2 ∧ Granted m₃ p₃.1 p₃.2 ∧
    (p₂.1.resourceId = p₁.1.resourceId ∧ p₂.1.actorId ≠ p₁.1.actorId ∧
      p₂.2.fencingToken ≤ p₁.2.fencingToken) ∧
    (p₃.1.resourceId = p₂.1.resourceId ∧ p₃.1.actorId ≠ p₂.1.actorId) ∧
    m₁.after.store.resourceLocks ≠ [] ∧
    ∃ l ∈ m₂.after.store.resourceLocks, ∃ q ∈ m₂.after.store.missions,
      q.id = l.missionId ∧ q.status ≠ .opened := by
  obtain ⟨s₁, h₁, s₂, h₂, s₃, h₃, s₄, h₄, s₅, h₅, s₆, h₆, p₁, hp₁, p₂, hp₂, p₃, hp₃, hday⟩ :=
    lock_day
  obtain ⟨l₁, hr₁, ha₁⟩ := Run.of_execWhile h₁
  obtain ⟨l₂, hr₂, -⟩ := Run.of_exec h₃
  obtain ⟨l₃, hr₃, hq₃⟩ := Run.of_execWhile h₅
  rw [Option.mem_def, State.execWhile] at h₂
  split_ifs at h₂ with hopen
  obtain ⟨t, ht, heq⟩ := Option.bind_eq_some_iff.1 h₂
  obtain rfl := Option.some.inj heq
  have hr := ((hr₁.step ht).trans ((hr₂.step h₄).trans (hr₃.step h₆)))
  refine ⟨l₁, l₂, l₃, _, _, _, p₁, p₂, p₃, by simpa using hr, ?_, hq₃,
    granted_of_granting ht hp₁, granted_of_granting h₄ hp₂, granted_of_granting h₆ hp₃, hday⟩
  rintro m hm
  rcases List.mem_append.1 hm with hm | hm
  · exact ha₁ m hm
  · obtain rfl := List.mem_singleton.1 hm
    exact hopen

/-- A grant of the resource to another holder, after the lease of the first has ended. -/
theorem lock_exclusive_sample : ∃ (l₁ l₂ : List (Moment (brokerSystem broker)))
    (m₁ m₂ : Moment (brokerSystem broker)) (a₁ a₂ : LockArgs) (k₁ k₂ : LockRow),
    Run (freshState broker) (l₁ ++ m₁ :: (l₂ ++ [m₂])) m₂.after ∧ Granted m₁ a₁ k₁ ∧
    Granted m₂ a₂ k₂ ∧ a₂.actorId ≠ a₁.actorId ∧
    ∃ m ∈ l₂ ++ [m₂], EndsLock m a₁.resourceId a₁.missionId a₁.actorId := by
  obtain ⟨l₁, l₂, l₃, m₁, m₂, m₃, p₁, p₂, p₃, hr, -, -, -, h₂, h₃, -, ⟨hres, hne⟩, -⟩ :=
    lock_day_run
  have hr : Run (freshState broker) ((l₁ ++ m₁ :: l₂) ++ m₂ :: (l₃ ++ m₃ :: [])) m₃.after := by
    simpa using hr
  exact ⟨_, l₃, m₂, m₃, p₂.1, p₃.1, _, _, hr, h₂, h₃, hne,
    lock_exclusive hr h₂ h₃ hres fun h => hne h.2⟩

theorem not_dropsLock_of_quiet {m : Moment (brokerSystem broker)}
    (h : quiet m.before m.move = true) (resourceId : String) : ¬DropsLock m resourceId := by
  have hno : ∀ (c : Call (brokerSystem broker)) (t : Tx) (r : Except PyError t.Reply),
      ¬m.Performs c (.tx t) r := by
    rintro c t r hp
    obtain ⟨i, x, k, hm, -⟩ := id hp
    rw [hm] at h
    simp only [quiet, hp.next hm] at h
    cases h
  rintro (⟨a, ⟨⟨c, r, hp⟩, -⟩, -⟩ | ⟨l, -, c, a, r, q, hp, -⟩ | ⟨l, -, c, actor, now, r, hp, -⟩)
  · exact hno _ _ _ hp
  · exact hno _ _ _ hp
  · exact hno _ _ _ hp

/-- Two grants of a resource to two holders, with no removal of the lock between them. -/
theorem fencing_tokens_grow_sample : ∃ (l₁ l₂ : List (Moment (brokerSystem broker)))
    (m₁ m₂ : Moment (brokerSystem broker)) (a₁ a₂ : LockArgs) (k₁ k₂ : LockRow),
    Run (freshState broker) (l₁ ++ m₁ :: (l₂ ++ [m₂])) m₂.after ∧ Granted m₁ a₁ k₁ ∧
    Granted m₂ a₂ k₂ ∧ a₂.actorId ≠ a₁.actorId ∧ k₁.fencingToken < k₂.fencingToken := by
  obtain ⟨l₁, l₂, l₃, m₁, m₂, m₃, p₁, p₂, p₃, hr, -, hq, -, h₂, h₃, -, ⟨hres, hne⟩, -⟩ :=
    lock_day_run
  have hr : Run (freshState broker) ((l₁ ++ m₁ :: l₂) ++ m₂ :: (l₃ ++ m₃ :: [])) m₃.after := by
    simpa using hr
  exact ⟨_, l₃, m₂, m₃, p₂.1, p₃.1, _, _, hr, h₂, h₃, hne,
    fencing_tokens_grow hr h₂ h₃ hres (fun h => hne h.2) fun m hm =>
      not_dropsLock_of_quiet (hq m hm) _⟩

/-- A change of status of the mission removes the lock, and the next holder is granted the
resource with a token that is not greater. -/
theorem fencing_token_again : ∃ (l₁ l₂ l₃ : List (Moment (brokerSystem broker)))
    (m₁ m₂ : Moment (brokerSystem broker)) (a₁ a₂ : LockArgs) (k₁ k₂ : LockRow)
    (s : State (brokerSystem broker)),
    Run (freshState broker) (l₁ ++ m₁ :: (l₂ ++ m₂ :: l₃)) s ∧
    Granted m₁ a₁ k₁ ∧ Granted m₂ a₂ k₂ ∧ a₂.resourceId = a₁.resourceId ∧
    ¬(a₂.missionId = a₁.missionId ∧ a₂.actorId = a₁.actorId) ∧
    ¬k₁.fencingToken < k₂.fencingToken := by
  obtain ⟨l₁, l₂, l₃, m₁, m₂, m₃, p₁, p₂, p₃, hr, -, -, h₁, h₂, -, ⟨hres, hne, hle⟩, -⟩ :=
    lock_day_run
  exact ⟨l₁, l₂, _, m₁, m₂, _, _, _, _, _, hr, h₁, h₂, hres, fun h => hne h.2, hle.not_gt⟩

/-- A lock that was acquired for an open mission. -/
theorem locks_of_open_missions_sample : ∃ (ms : List (Moment (brokerSystem broker)))
    (s : State (brokerSystem broker)), Run (freshState broker) ms s ∧
    ∃ l ∈ s.store.resourceLocks, ∃ q ∈ s.store.missions,
      q.id = l.missionId ∧ q.status = .opened := by
  obtain ⟨l₁, l₂, l₃, m₁, m₂, m₃, p₁, p₂, p₃, hr, hopen, -, -, -, -, -, -, hne, -⟩ := lock_day_run
  obtain ⟨-, hstep, -⟩ := hr.around
  have hr : Run (freshState broker) (l₁ ++ [m₁]) m₁.after := hr.around.1.step hstep
  obtain ⟨l, hl⟩ := List.exists_mem_of_ne_nil _ hne
  refine ⟨_, m₁.after, hr, l, hl, locks_of_open_missions hr (fun m hm a ha hacq => ?_) l hl⟩
  obtain ⟨⟨c, r, hp⟩, -⟩ := ha
  obtain ⟨i, x, k, hmove, -⟩ := id hp
  have htest := hopen m hm
  rw [hmove] at htest
  simp only [acquiresOpen, hp.next hmove, Option.bind_some, lockWrite, Option.all_some, hacq,
    ne_eq, not_true_eq_false, false_or, decide_eq_true_eq, Option.any_eq_true] at htest
  obtain ⟨q, hq, hst⟩ := htest
  exact ⟨q, hq, hst⟩

/-- A lock can be acquired for a mission that is not open. -/
theorem lock_of_paused_mission : ∃ (ms : List (Moment (brokerSystem broker)))
    (s : State (brokerSystem broker)), Run (freshState broker) ms s ∧
    ∃ l ∈ s.store.resourceLocks, ∃ q ∈ s.store.missions,
      q.id = l.missionId ∧ q.status ≠ .opened := by
  obtain ⟨l₁, l₂, l₃, m₁, m₂, m₃, p₁, p₂, p₃, hr, -, -, -, -, -, -, -, -, hlock⟩ := lock_day_run
  obtain ⟨-, -, hr₂⟩ := hr.around
  obtain ⟨hr₂, hstep, -⟩ := hr₂.around
  obtain ⟨hr₁, hstep₁, -⟩ := hr.around
  exact ⟨_, m₂.after, (hr₁.step hstep₁).trans (hr₂.step hstep), hlock⟩

end OpsControlPlane.Sample
