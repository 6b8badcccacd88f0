import OpsControlPlane.Broker.Writes
import OpsControlPlane.Lib.Undisturbed
import OpsControlPlane.Safety.WorkQueues

/-!
# The next mission

`claim_next` takes the first claimable mission of all projects of the actor, and asks for the right
to claim it afterwards. `claim_next_picks_iff` says when it gives the actor the first mission that
the actor may claim: when this is the first one of all, and its public view can be stored.
-/

set_option linter.unusedSectionVars false

namespace OpsControlPlane

open JsonText Calendar Transaction Calls

variable [Platform]

/-! ## What a claim is for -/

/-- The mission waits, or its claim has expired. -/
def Claimable (now : String) (r : RuntimeRow) : Prop :=
  r.queueState = .queued ∨ r.queueState = .claimed ∧ ∃ l ∈ r.leaseUntil, l ≤ now

/-- A claimable mission of the project that is asked for, if there is one, that the actor may
claim. -/
structure Permitted (b : Broker) (q : ClaimNext) (now : DateTime) (db : Db) (v : MissionView) :
    Prop where
  mission : v ∈ missionViews db
  claimable : Claimable (isoformat now) v.runtime
  wanted : ∀ projectId ∈ q.projectId, v.mission.projectId = projectId
  allowed : b.rbac.requireLifecycle q.actorId v.mission.projectId "mission.queue.claim" = .ok ()

def ClaimArgs.claimed (a : ClaimArgs) (v : MissionView) : MissionView :=
  ⟨v.mission, a.claim v.runtime⟩

/-- If there are missions that the actor may claim, one of them is returned, no other has a greater
priority, and none of its priority is older. -/
def Picks (b : Broker) (q : ClaimNext) (a : ClaimArgs) (db : Db) (answer : Except PyError Value) :
    Prop :=
  (∃ v, Permitted b q a.now db v) → ∃ v result, Permitted b q a.now db v ∧
    (∀ u, Permitted b q a.now db u → u.runtime.priority < v.runtime.priority ∨
      u.runtime.priority = v.runtime.priority ∧ v.mission.createdAt ≤ u.mission.createdAt) ∧
    runtimePublic (a.claimed v) (some false) = .ok result ∧ answer = .ok result

/-- The public view of a mission can be stored as the result of a claim. -/
def Storable (v : MissionView) : Prop :=
  ∃ result resultJson, runtimePublic v (some false) = .ok result ∧
    jsonText result "claim result" = .ok resultJson

/-- If there are missions that the actor may claim, the first one of all the projects is one of
them, and its view can be stored. -/
def Unblocked (b : Broker) (q : ClaimNext) (a : ClaimArgs) (db : Db) : Prop :=
  (∃ v, Permitted b q a.now db v) → ∃ v, nextCandidate a db = some v ∧
    b.rbac.requireLifecycle q.actorId v.mission.projectId "mission.queue.claim" = .ok () ∧
    Storable (a.claimed v)

def FreshEvent (x : TxEnv) (a : ClaimArgs) (db : Db) : Prop :=
  ∀ head ∈ db.auditHead, ∀ v ∈ nextCandidate a db,
    eventViolates (nextEvent head (uuid4 (x.bits 0)) (a.draft v.mission.id)) db = false

/-! ## The order of the queue -/

theorem queueOrder_total (v w : MissionView) : queueOrder v w ∨ queueOrder w v := by
  unfold queueOrder
  rcases lt_trichotomy v.runtime.priority w.runtime.priority with h | h | h
  · exact .inr (.inl h)
  · rcases lt_trichotomy v.mission.createdAt w.mission.createdAt with hc | hc | hc
    · exact .inl (.inr ⟨h, .inl hc⟩)
    · exact (le_total v.mission.id w.mission.id).imp (fun hid => .inr ⟨h, .inr ⟨hc, hid⟩⟩)
        fun hid => .inr ⟨h.symm, .inr ⟨hc.symm, hid⟩⟩
    · exact .inr (.inr ⟨h.symm, .inl hc⟩)
  · exact .inl (.inl h)

theorem queueOrder_trans {u v w : MissionView} (huv : queueOrder u v) (hvw : queueOrder v w) :
    queueOrder u w := by
  unfold queueOrder at *
  rcases huv with h | ⟨h, hc⟩
  · exact .inl (hvw.elim (fun h' => h'.trans h) fun h' => h'.1 ▸ h)
  · rcases hvw with h' | ⟨h', hc'⟩
    · exact .inl (h ▸ h')
    · refine .inr ⟨h.trans h', ?_⟩
      rcases hc with hc | ⟨hc, hid⟩
      · exact .inl (hc'.elim (fun h'' => hc.trans h'') fun h'' => h''.1 ▸ hc)
      · rcases hc' with hc' | ⟨hc', hid'⟩
        · exact .inl (hc ▸ hc')
        · exact .inr ⟨hc.trans hc', hid.trans hid'⟩

instance queueOrder_isTotal : Std.Total queueOrder :=
  ⟨queueOrder_total⟩

instance queueOrder_isTrans : IsTrans MissionView queueOrder :=
  ⟨fun _ _ _ => queueOrder_trans⟩

theorem nextCandidate_first {a : ClaimArgs} {db : Db} {v u : MissionView}
    (hv : nextCandidate a db = some v) (hu : u ∈ missionViews db) (hc : a.candidate u = true) :
    queueOrder v u := by
  have hmem : u ∈ ((missionViews db).filter a.candidate).insertionSort queueOrder :=
    (List.mem_insertionSort _).2 (List.mem_filter.2 ⟨hu, hc⟩)
  have hsorted := List.pairwise_insertionSort queueOrder ((missionViews db).filter a.candidate)
  unfold nextCandidate at hv
  cases hl : ((missionViews db).filter a.candidate).insertionSort queueOrder with
  | nil =>
    rw [hl] at hv
    cases hv
  | cons w l =>
    rw [hl] at hv hmem hsorted
    obtain rfl := Option.some.inj hv
    rcases List.mem_cons.1 hmem with rfl | hmem
    · exact (queueOrder_total u u).elim id id
    · exact List.rel_of_pairwise_cons hsorted hmem

theorem nextCandidate_isSome {a : ClaimArgs} {db : Db} {u : MissionView}
    (hu : u ∈ missionViews db) (hc : a.candidate u = true) : ∃ v, nextCandidate a db = some v := by
  have hmem : u ∈ ((missionViews db).filter a.candidate).insertionSort queueOrder :=
    (List.mem_insertionSort _).2 (List.mem_filter.2 ⟨hu, hc⟩)
  obtain ⟨v, l, hl⟩ := List.exists_cons_of_ne_nil (List.ne_nil_of_mem hmem)
  exact ⟨v, by rw [nextCandidate, hl, List.head?_cons]⟩

/-! ## The projects of a call -/

variable {b : Broker} {q : ClaimNext} {requestId : String} {projects : List String}

theorem mem_projectsForActor {rbac : RBACPolicy} {actorId project capability : String}
    {projects : List String}
    (h : rbac.requireLifecycle actorId project capability = .ok ())
    (hp : rbac.projectsForActor actorId = .ok projects) : project ∈ projects := by
  unfold RBACPolicy.requireLifecycle at h
  split_ifs at h
  obtain ⟨_, hproject, -⟩ := bind_eq_ok.1 h
  unfold RBACPolicy.requireProject RBACPolicy.requireGrant at hproject
  unfold RBACPolicy.projectsForActor at hp
  cases hg : rbac.grants actorId with
  | none =>
    rw [hg] at hp
    cases hp
  | some grants =>
    rw [hg] at hproject hp
    obtain rfl := Except.ok.inj hp
    dsimp only at hproject
    split_ifs at hproject with hany
    obtain ⟨g, hgm, hgp⟩ := List.any_eq_true.1 hany
    exact List.mem_flatMap.2 ⟨g, hgm, of_decide_eq_true hgp⟩

theorem projects_of_validate (hq : q.validate b = .ok (requestId, projects)) :
    (q.projectId = none ∧ b.rbac.projectsForActor q.actorId = .ok projects) ∨
      ∃ projectId, q.projectId = some projectId ∧ projects = [projectId] := by
  unfold ClaimNext.validate at hq
  obtain ⟨_, -, hq⟩ := bind_eq_ok.1 hq
  obtain ⟨_, -, hq⟩ := bind_eq_ok.1 hq
  obtain ⟨ps, hps, hq⟩ := bind_eq_ok.1 hq
  split at hq
  · next hnone =>
    obtain ⟨-, rfl⟩ := Prod.mk.inj (Except.ok.inj hq)
    exact .inl ⟨hnone, hps⟩
  · next projectId hsome =>
    obtain ⟨_, -, hq⟩ := bind_eq_ok.1 hq
    obtain ⟨-, rfl⟩ := Prod.mk.inj (Except.ok.inj hq)
    exact .inr ⟨projectId, hsome, rfl⟩

section call

variable {a : ClaimArgs} {db : Db} {v : MissionView}

theorem Permitted.candidate (hok : MissionsOk db.missionTables)
    (hq : q.validate b = .ok (requestId, projects)) (ha : a.projects = projects)
    (hv : Permitted b q a.now db v) : a.candidate v = true := by
  have hhas := missionViews_has hok.nodup hv.mission
  have hopened : v.mission.status = .opened :=
    (hok.has_coupled hhas).opened.2 (hv.claimable.imp_right And.left)
  have hproject : v.mission.projectId ∈ a.projects := by
    rw [ha]
    rcases projects_of_validate hq with ⟨-, hp⟩ | ⟨projectId, hsome, rfl⟩
    · exact mem_projectsForActor hv.allowed hp
    · exact List.mem_singleton.2 (hv.wanted projectId hsome)
  exact decide_eq_true ⟨hopened, hproject, hv.claimable⟩

theorem permitted_next (hq : q.validate b = .ok (requestId, projects))
    (ha : a.projects = projects) (hv : nextCandidate a db = some v)
    (hallowed : b.rbac.requireLifecycle q.actorId v.mission.projectId "mission.queue.claim" =
      .ok ()) : Permitted b q a.now db v := by
  obtain ⟨hmem, hc⟩ := nextCandidate_some hv
  obtain ⟨-, hproject, hclaimable⟩ := of_decide_eq_true hc
  refine ⟨hmem, hclaimable, fun projectId hsome => ?_, hallowed⟩
  rcases projects_of_validate hq with ⟨hnone, -⟩ | ⟨projectId', hsome', rfl⟩
  · rw [hnone] at hsome
    cases hsome
  · rw [ha] at hproject
    obtain rfl := Option.some.inj (hsome'.symm.trans hsome)
    exact List.mem_singleton.1 hproject

theorem missionView_claim (hok : MissionsOk db.missionTables) (hv : v ∈ missionViews db) :
    missionView v.mission.id (db.updateRuntime v.mission.id a.claim) = some (a.claimed v) := by
  have hhas := missionViews_has hok.nodup hv
  have hruntime : row RuntimeRow.missionId v.mission.id
      (update (fun r => r.missionId = v.mission.id) a.claim db.missionRuntime) =
        some (a.claim v.runtime) := by
    rw [row_update (f := a.claim) fun _ => rfl,
      show row RuntimeRow.missionId v.mission.id db.missionRuntime =
      some v.runtime from hhas.runtime, Option.map_some,
      if_pos (decide_eq_true (row_some hhas.runtime).2)]
  have hmission : row MissionRow.id v.mission.id db.missions = some v.mission := hhas.mission
  change ((row MissionRow.id v.mission.id db.missions).bind fun m =>
    (row RuntimeRow.missionId v.mission.id (update (fun r => r.missionId = v.mission.id) a.claim
      db.missionRuntime)).map fun r => (⟨m, r⟩ : MissionView)) = _
  rw [hmission, Option.bind_some, hruntime, Option.map_some]
  rfl

/-- A new claim of the next candidate commits, if the actor may claim it and its view can be
stored. -/
theorem claimNext_commits {x : TxEnv} (hok : MissionsOk db.missionTables)
    (hhead : db.auditHead.isSome)
    (hnew : row ClaimOperationRow.requestId a.requestId db.missionClaimOperations = none)
    (hfresh : FreshEvent x a db) (hv : nextCandidate a db = some v)
    (hallowed : b.rbac.requireLifecycle a.actorId v.mission.projectId "mission.queue.claim" =
      .ok ()) {result : Value} {resultJson : String}
    (hshown : runtimePublic (a.claimed v) (some false) = .ok result)
    (hjson : jsonText result "claim result" = .ok resultJson) :
    ((Tx.claimNext a).commit b x db).1 = .ok (some result) := by
  have hwp : (claimNext b.rbac a).wp x ⟨db, 0⟩ (fun r _ => r = some result) fun _ => False := by
    have hview := missionView_claim (a := a) hok (nextCandidate_some hv).1
    simp only [claimNext, Txn.wp_bind, wp_select, hnew, hv, Txn.wp_ofExcept, wp_write,
      wp_fetchMission, appendEvent, Txn.wp_expect, wp_drawUuid, wp_insert, Txn.wp_pure]
    refine ⟨fun _ _ => ⟨fun w hw => ?_, fun hnone => ?_⟩, fun e he => ?_⟩
    · obtain rfl := Option.some.inj (hview.symm.trans hw)
      refine ⟨fun r hr => ?_, fun e he => ?_⟩
      · obtain rfl := Except.ok.inj (hshown.symm.trans hr)
        refine ⟨fun _ _ => ⟨fun head hh => ⟨fun _ => rfl, fun hviolates => ?_⟩, fun hnone => ?_⟩,
          fun e he => ?_⟩
        · have hno := hfresh head hh v hv
          exact Bool.false_ne_true (hno.symm.trans hviolates)
        · exact absurd (show db.auditHead = none from hnone) (Option.isSome_iff_ne_none.1 hhead)
        · cases hjson.symm.trans he
      · cases hshown.symm.trans he
    · cases hview.symm.trans hnone
    · cases hallowed.symm.trans he
  rcases Tx.commit_cases (b := b) (.claimNext a) x db with ⟨r, c, hrun, hcommit, -⟩ |
    ⟨e, hrun, -, -⟩
  · rw [hcommit, hwp.ok hrun]
  · exact (hwp.error hrun).elim

end call

/-! ## A call -/

section run

variable {ms : List (Moment (brokerSystem b))} {s : State (brokerSystem b)}

theorem Tx.Writes.auditHead {t : Tx} {db db' : Db} (h : t.Writes db db') :
    db'.auditHead = db.auditHead := by
  cases h with
  | missionStatus a previous now =>
    unfold StatusChange.carried
    dsimp only
    split_ifs <;> rfl
  | incidentStatus a previous now =>
    unfold StatusChange.carried
    dsimp only
    split_ifs <;> rfl
  | lease a r h => cases h <;> rfl
  | lock a r projectId v h => cases h <;> rfl
  | _ => rfl

theorem Logs.head_isSome {x : TxEnv} {c c' : Conn} {ds : List AuditDraft} (h : Logs x c ds c')
    (hc : c.db.auditHead.isSome) : c'.db.auditHead.isSome := by
  induction h with
  | nil => exact hc
  | cons _ _ ih => exact ih rfl

theorem head_carried (b : Broker) : Carried b (fun db => db.auditHead.isSome) fun _ _ => True where
  fresh := rfl
  refl _ := trivial
  trans _ _ _ _ _ := trivial
  step _ _ _ _ _ _ hK _ _ hcommit := by
    obtain ⟨_, _, _, hw, hl, rfl⟩ := Tx.writes hcommit
    exact ⟨hl.head_isSome (by rw [hw.auditHead]; exact hK), trivial⟩

theorem exec_transact (t : Tx) (x : Choice) (db : Db) :
    Prog.exec (perform b) x (transact t) db = t.commit b x.env db := by
  have hperform : Prog.exec (perform b) x (Prog.perform (I := brokerInterface) (.tx t) : Method _)
      db = (.ok (t.commit b x.env db).1, (t.commit b x.env db).2) := rfl
  rw [transact, Prog.exec_bind_ok hperform]
  rcases t.commit b x.env db with ⟨_ | _, _⟩
  · rfl
  · rfl

theorem exec_claimNext {x : Choice} {db : Db} {leaseUntil : DateTime}
    (hq : q.validate b = .ok (requestId, projects)) (hne : projects ≠ [])
    (hlease : x.time.addSeconds q.leaseSeconds = some leaseUntil) :
    (Prog.exec (perform b) x (claimNextMethod b q) db).1 =
      (((Tx.claimNext ⟨q.actorId, requestId, projects, x.time, leaseUntil⟩).commit b x.env
        db).1.map fun r => Option.getD r .null) := by
  have hvalidate : Prog.exec (perform b) x (Prog.ofExcept (q.validate b) : Method _) db =
      (.ok (requestId, projects), db) := by
    rw [hq]
    rfl
  have hexpect : Prog.exec (perform b) x
      (expect (x.time.addSeconds q.leaseSeconds) .overflow : Method DateTime) db =
        (.ok leaseUntil, db) := by
    rw [hlease]
    rfl
  rw [claimNextMethod, Prog.exec_bind_ok hvalidate]
  dsimp only
  rw [if_neg hne, Prog.exec_bind_ok (a := x.time) (t := db) rfl, Prog.exec_bind_ok hexpect,
    Prog.exec_bind, exec_transact]
  rcases (Tx.claimNext ⟨q.actorId, requestId, projects, x.time, leaseUntil⟩).commit b x.env db
    with ⟨_ | _, _⟩
  · rfl
  · rfl

/-- A new call of `claim_next` in a reachable state picks the next mission that the actor may claim
if and only if nothing is in front of it and its view can be stored. -/
theorem claim_next_picks_iff (hr : Run (freshState b) ms s) (x : Choice) {leaseUntil : DateTime}
    (hq : q.validate b = .ok (requestId, projects))
    (hlease : x.time.addSeconds q.leaseSeconds = some leaseUntil)
    (hnew : row ClaimOperationRow.requestId requestId s.store.missionClaimOperations = none)
    (hfresh : FreshEvent x.env ⟨q.actorId, requestId, projects, x.time, leaseUntil⟩ s.store) :
    Picks b q ⟨q.actorId, requestId, projects, x.time, leaseUntil⟩ s.store
        (Prog.exec (perform b) x (claimNextMethod b q) s.store).1 ↔
      Unblocked b q ⟨q.actorId, requestId, projects, x.time, leaseUntil⟩ s.store := by
  have hok : MissionsOk s.store.missionTables := ((missions_carried b).run hr).1
  have hhead : s.store.auditHead.isSome := ((head_carried b).run hr).1
  generalize ha : (⟨q.actorId, requestId, projects, x.time, leaseUntil⟩ : ClaimArgs) = a at *
  have hactor : a.actorId = q.actorId := ha ▸ rfl
  have hprojects : a.projects = projects := ha ▸ rfl
  have hnow : a.now = x.time := ha ▸ rfl
  have hexec : (∃ v, Permitted b q a.now s.store v) →
      (Prog.exec (perform b) x (claimNextMethod b q) s.store).1 =
        (((Tx.claimNext a).commit b x.env s.store).1.map fun r => Option.getD r .null) := by
    rintro ⟨u, hu⟩
    have hmem := (of_decide_eq_true (hu.candidate hok hq hprojects)).2.1
    rw [hprojects] at hmem
    rw [exec_claimNext hq (List.ne_nil_of_mem hmem) hlease, ha]
  have hrequest : row ClaimOperationRow.requestId a.requestId s.store.missionClaimOperations =
      none := ha ▸ hnew
  constructor
  · intro hpicks hsome
    obtain ⟨v, result, hv, -, hshown, hanswer⟩ := hpicks hsome
    rw [hexec hsome] at hanswer
    rcases hcommit : (Tx.claimNext a).commit b x.env s.store with ⟨e | r, db'⟩
    · rw [hcommit] at hanswer
      cases hanswer
    · rw [hcommit] at hanswer
      have hr' : Option.getD r .null = result := Except.ok.inj hanswer
      obtain ⟨c, hrun, -, -⟩ := Tx.commit_ok hcommit
      rcases (claimNext_spec b.rbac a x.env ⟨s.store, 0⟩).ok hrun with
        ⟨prior, _, hprior, -, -, -⟩ | ⟨-, ⟨hnone, rfl, -⟩ | ⟨v', w, res, resJson, hc, rfl, -⟩⟩
      · cases hrequest.symm.trans hprior
      · obtain ⟨u, hu⟩ := hsome
        obtain ⟨v', hv'⟩ := nextCandidate_isSome hu.mission (hu.candidate hok hq hprojects)
        cases hnone.symm.trans hv'
      · have hview := missionView_claim (a := a) hok (nextCandidate_some hc.next).1
        obtain rfl := Option.some.inj (hview.symm.trans hc.claimed)
        exact ⟨v', hc.next, hactor ▸ hc.allowed, res, resJson, hc.shown, hc.encoded⟩
  · intro hclear hsome
    obtain ⟨v, hnext, hallowed, result, resultJson, hshown, hjson⟩ := hclear hsome
    have hv := permitted_next hq hprojects hnext hallowed
    refine ⟨v, result, hv, fun u hu => ?_, hshown, ?_⟩
    · have horder := nextCandidate_first hnext hu.mission (hu.candidate hok hq hprojects)
      rcases horder with h | ⟨h, hc⟩
      · exact .inl h
      · exact .inr ⟨h.symm, hc.elim le_of_lt fun h' => h'.1.le⟩
    · rw [hexec hsome, claimNext_commits hok hhead hrequest hfresh hnext (hactor ▸ hallowed) hshown
        hjson]
      rfl

end run

end OpsControlPlane

namespace OpsControlPlane.Sample

open Transaction Calls

/-- A broker with an actor that may claim missions in one of its two projects only. -/
def narrow : Broker :=
  { broker with
    rbac :=
      { actors := [("alice", ["ops", "guest"])]
        roles := [("ops", ⟨["web"], [], [], lifecycleCapabilities⟩),
          ("guest", ⟨["db"], [], [], []⟩)]
        roles_known := by decide } }

/-- Alice creates a mission in the other project, and then one in the project. -/
def twoMissions : List (Move (brokerSystem narrow)) :=
  .spawn (.createMission ⟨"alice", uuid 1, "db", "a"⟩) ::
    (List.range 4).map (fun k => .act 0 (choice 100 (100 + 10 * k))) ++
  .spawn (.createMission ⟨"alice", uuid 2, "web", "b"⟩) ::
    (List.range 4).map fun k => .act 1 (choice 110 (200 + 10 * k))

def asking : ClaimNext :=
  ⟨"alice", uuid 3, 60, none⟩

theorem twoMissions_denied : ∃ s ∈ (freshState narrow).exec twoMissions,
    (∃ v ∈ missionViews s.store, v.mission.projectId = "web" ∧ v.runtime.queueState = .queued) ∧
      (Prog.exec (perform narrow) (choice 120 300) (claimNextMethod narrow asking)
        s.store).1.toOption.isNone := by
  decide +kernel

/-- The mission in front of the queue, which the actor may not claim, keeps the actor from the one
that it may claim. -/
theorem claim_next_denied : ∃ (ms : List (Moment (brokerSystem narrow)))
    (s : State (brokerSystem narrow)), Run (freshState narrow) ms s ∧
    ¬Picks narrow asking ⟨"alice", uuid 3, ["web", "db"], instant 120, instant 180⟩ s.store
      (Prog.exec (perform narrow) (choice 120 300) (claimNextMethod narrow asking) s.store).1 := by
  obtain ⟨s, hs, ⟨v, hv, hweb, hqueued⟩, herror⟩ := twoMissions_denied
  obtain ⟨ms, hr, -⟩ := Run.of_exec hs
  refine ⟨ms, s, hr, fun hpicks => ?_⟩
  have hallowed : narrow.rbac.requireLifecycle "alice" "web" "mission.queue.claim" = .ok () := rfl
  obtain ⟨-, result, -, -, -, hanswer⟩ := hpicks
    ⟨v, hv, .inl hqueued, fun p (h : p ∈ (none : Option String)) => (by cases h), hweb ▸ hallowed⟩
  rw [hanswer] at herror
  cases herror

/-- Alice creates three missions, and raises the priority of the last one. -/
def threeMissions : List (Move (brokerSystem broker)) :=
  opening ++ .spawn (.createMission ⟨"alice", uuid 2, "web", "b"⟩) :: goOn 1 4 110 200 ++
    .spawn (.createMission ⟨"alice", uuid 4, "web", "c"⟩) :: goOn 2 4 120 300 ++
    .spawn (.updateMissionState ⟨"alice", uuid 5, uuid 310, none, some 90, none, none, none, none,
      none, none, none, none, none, none, none, none, none, none, none⟩) :: goOn 3 2 130 400

def asked : ClaimArgs :=
  ⟨"alice", uuid 3, ["web"], instant 140, instant 200⟩

theorem threeMissions_asked : ∃ s ∈ reaches threeMissions,
    (∃ v ∈ missionViews s.store, v.mission.projectId = "web" ∧ v.runtime.queueState = .queued) ∧
      (missionViews s.store).map (fun v => v.runtime.priority) = [50, 50, 90] ∧
      (nextCandidate asked s.store).map (fun v => v.mission.id) = some (uuid 310) ∧
      row ClaimOperationRow.requestId (uuid 3) s.store.missionClaimOperations = none ∧
      ∀ head ∈ s.store.auditHead, ∀ v ∈ nextCandidate asked s.store,
        eventViolates (nextEvent head (uuid4 ((choice 140 500).env.bits 0))
          (ClaimArgs.draft asked v.mission.id)) s.store = false := by
  decide +kernel

/-- Alice picks the last mission, which is in front, if nothing refuses it. -/
theorem claim_next_picks_iff_sample : ∃ (ms : List (Moment (brokerSystem broker)))
    (s : State (brokerSystem broker)), Run (freshState broker) ms s ∧
    (∃ v, Permitted broker asking (instant 140) s.store v) ∧
    (missionViews s.store).map (fun v => v.runtime.priority) = [50, 50, 90] ∧
    (nextCandidate asked s.store).map (fun v => v.mission.id) = some (uuid 310) ∧
    (Picks broker asking asked s.store
        (Prog.exec (perform broker) (choice 140 500) (claimNextMethod broker asking) s.store).1 ↔
      Unblocked broker asking asked s.store) := by
  obtain ⟨s, hs, ⟨v, hv, hweb, hqueued⟩, hpriorities, hfirst, hnew, hfresh⟩ := threeMissions_asked
  obtain ⟨ms, hr, -⟩ := Run.of_exec hs
  have hallowed : broker.rbac.requireLifecycle "alice" "web" "mission.queue.claim" = .ok () := rfl
  exact ⟨ms, s, hr, ⟨v, hv, .inl hqueued, fun p (h : p ∈ (none : Option String)) => (by cases h),
    hweb ▸ hallowed⟩, hpriorities, hfirst,
    claim_next_picks_iff hr (choice 140 500) rfl rfl hnew hfresh⟩

end OpsControlPlane.Sample
