import OpsControlPlane.Safety.Executions

/-!
# The audit log of a run

A fixed head determines the log that the snapshot check accepts (`audit_unique`), so that no
row of an accepted log can be changed, added, dropped or moved.

`Tx.Logged` says what a committed transaction does to the log: it appends at least one
event, or changes nothing, or records that no mission could be claimed. Only this last
record comes without an event. `audit_sound` adds it up over a run: the log is accepted, and
it has as many rows as the committed transactions appended.
-/

namespace OpsControlPlane

open JsonText Calendar HashChain Transaction Calls

variable [Platform]

/-! ## Tamper evidence -/

/-- At most one log is accepted under a head. -/
theorem audit_unique [LawfulFloatText Flt] (hsha : Function.Injective Platform.sha256)
    {rows rows' : List EventRow} {head : Option AuditHead}
    (h : (verifySnapshot rows head).valid = true)
    (h' : (verifySnapshot rows' head).valid = true) : rows = rows' := by
  obtain ⟨hl, hhead⟩ := verifySnapshot_iff.1 h
  obtain ⟨hl', hhead'⟩ := verifySnapshot_iff.1 h'
  obtain ⟨hlen, htip⟩ := AuditHead.mk.inj (Option.some.inj (hhead.symm.trans hhead'))
  exact linked_unique (auditChain_binding hsha) hl hl' (by exact_mod_cast hlen) htip

/-! ## The events of a transaction -/

/-- What a committed transaction leaves of the log. -/
inductive Tx.Logged (t : Tx) (x : TxEnv) (db : Db) : Conn → Prop
  | same : Logged t x db ⟨db, 0⟩
  | idle (a : ClaimArgs) (ht : t = .claimNext a) (hnone : nextCandidate a db = none) :
      Logged t x db ⟨db.addClaimOperation (a.operationRow none "null"), 0⟩
  | events (db₁ : Db) (d : AuditDraft) (ds : List AuditDraft) (c : Conn)
      (hevents : db₁.events = db.events) (hhead : db₁.auditHead = db.auditHead)
      (h : Logs x ⟨db₁, 0⟩ (d :: ds) c) : Logged t x db c

section logged

variable {b : Broker} {t : Tx} {x : TxEnv} {db : Db} {c : Conn}

/-- A transaction that rewrote something and appended the events, if there are any, of the
drafts. -/
theorem Tx.Logged.of_logs {db₁ : Db} {ds : List AuditDraft} (h : Logs x ⟨db₁, 0⟩ ds c)
    (hevents : db₁.events = db.events) (hhead : db₁.auditHead = db.auditHead)
    (hnil : ds = [] → db₁ = db) : t.Logged x db c := by
  cases ds with
  | nil =>
    cases h
    obtain rfl := hnil rfl
    exact .same
  | cons d ds => exact .events db₁ d ds c hevents hhead h

/-- A transaction that answers a request that was made before, or appends an event. -/
theorem Tx.Logged.of_keyed {R α : Type} {found : Option R} {same : R → Prop}
    {again : R → α → Prop} {new : α → Conn → Prop} {r : α}
    (h : Keyed found same again new ⟨db, 0⟩ r c) (hnew : new r c → t.Logged x db c) :
    t.Logged x db c := by
  rcases h with ⟨_, -, -, -, rfl⟩ | ⟨-, h⟩
  · exact .same
  · exact hnew h

theorem recover_eq_self {actorId : String} {now : DateTime}
    (h : recoveryDrafts actorId now db = []) : db.recover now = db := by
  simp only [recoveryDrafts, List.append_eq_nil_iff, List.map_eq_nil_iff] at h
  obtain ⟨⟨hrun, hclaims⟩, hlocks⟩ := h
  simp only [Db.recover, hrun, hclaims, hlocks, update_mem_nil]
  simp

/-- A committed transaction leaves of the log what `Tx.Logged` says. -/
theorem Tx.logged {r : t.Reply} (hids : (db.actions.map ActionRow.id).Nodup)
    (hrun : t.run b x ⟨db, 0⟩ = .ok (r, c)) : t.Logged x db c := by
  have one : ∀ {db₁ : Db} {d : AuditDraft} {ds : List AuditDraft}, Logs x ⟨db₁, 0⟩ (d :: ds) c →
      db₁.events = db.events → db₁.auditHead = db.auditHead → t.Logged x db c :=
    fun h hevents hhead => .events _ _ _ _ hevents hhead h
  cases t with
  | auditDenial d => exact one ((auditDenial_spec d x ⟨db, 0⟩).ok hrun) rfl rfl
  | createMission a => exact one ((createMission_spec a x ⟨db, 0⟩).ok hrun).2.2 rfl rfl
  | createIncident a => exact one ((createIncident_spec a x ⟨db, 0⟩).ok hrun).2.2 rfl rfl
  | setMissionStatus a =>
    obtain ⟨project, st, -, ⟨_, -, -, -, rfl⟩ | ⟨-, -, -, hl⟩⟩ :=
      (setEntityStatus_spec (missionEntity_lawful a) x ⟨db, 0⟩).ok hrun
    · exact .same
    · refine .of_logs hl ?_ ?_ fun h => by simp [StatusChange.drafts] at h
      all_goals
        simp only [StatusChange.carried]
        split_ifs <;> rfl
  | setIncidentStatus a =>
    obtain ⟨project, st, -, ⟨_, -, -, -, rfl⟩ | ⟨-, -, -, hl⟩⟩ :=
      (setEntityStatus_spec (incidentEntity_lawful a) x ⟨db, 0⟩).ok hrun
    · exact .same
    · refine .of_logs hl ?_ ?_ fun h => by simp [StatusChange.drafts] at h
      all_goals
        simp only [StatusChange.carried]
        split_ifs <;> rfl
  | insertAction a =>
    obtain ⟨-, hcases⟩ := (insertAction_spec a x ⟨db, 0⟩).ok hrun
    rcases hcases with ⟨-, -, hl⟩ | ⟨-, _, _, _, -, ⟨-, -, hl⟩ | ⟨-, -, -, hl⟩⟩ <;>
      exact one hl rfl rfl
  | expirePending a =>
    have hl := (expirePending_spec a x ⟨db, 0⟩).ok hrun
    refine .of_logs hl rfl rfl fun hnil => ?_
    have hnone : ∀ r ∈ db.actions,
        decide (r.id = a.actionId ∧ r.status = .pendingApproval) = false := by
      intro r hr
      refine decide_eq_false fun hp => ?_
      have hone := countP_key hids (p := fun r => r.id = a.actionId ∧ r.status = .pendingApproval)
        hr (decide_eq_true hp) fun q hq => (of_decide_eq_true hq).1.trans hp.1.symm
      rw [if_pos hone] at hnil
      cases hnil
    exact congrArg (fun l => { db with actions := l }) (update_eq_self hnone _)
  | expireApproved a => exact one ((expireApproved_spec a x ⟨db, 0⟩).ok hrun) rfl rfl
  | startAction a runbookId =>
    exact one ((startAction_spec a x ⟨db, 0⟩ runbookId).ok hrun).2 rfl rfl
  | finishAction a result => exact one ((finishAction_spec a x ⟨db, 0⟩ result).ok hrun).2 rfl rfl
  | decideApproval a =>
    obtain ⟨action, -, hcases⟩ := (decideApproval_spec b.policy a x ⟨db, 0⟩).ok hrun
    rcases hcases with ⟨_, -, -, -, rfl⟩ | ⟨_, _, _, _, -, -, hl⟩ | ⟨-, rfl⟩ | ⟨-, -, hl⟩ |
      ⟨-, _, _, -, -, -, -, -, -, hl⟩
    · exact .same
    · exact one hl rfl rfl
    · exact .same
    · exact one hl rfl rfl
    · exact one hl rfl rfl
  | updateMissionState a p =>
    obtain ⟨v, -, hk⟩ := (updateMissionState_spec b.rbac a p x ⟨db, 0⟩).ok hrun
    exact .of_keyed hk fun h => one h.2.2 rfl rfl
  | createCheckpoint a =>
    obtain ⟨v, -, hk⟩ := (createCheckpoint_spec b.rbac a x ⟨db, 0⟩).ok hrun
    exact .of_keyed hk fun h => one h.2 rfl rfl
  | addRecord a =>
    obtain ⟨v, -, -, hk⟩ := (addRecord_spec b.rbac a x ⟨db, 0⟩).ok hrun
    exact .of_keyed hk fun h => one h.2 rfl rfl
  | claimNext a =>
    rcases (claimNext_spec b.rbac a x ⟨db, 0⟩).ok hrun with ⟨_, _, -, -, -, rfl⟩ |
      ⟨-, ⟨hnone, -, rfl⟩ | ⟨v, w, _, _, -, -, hl⟩⟩
    · exact .same
    · exact .idle a rfl hnone
    · exact one hl rfl rfl
  | missionLease a =>
    obtain ⟨v, -, hk⟩ := (missionLease_spec b.rbac a x ⟨db, 0⟩).ok hrun
    refine .of_keyed hk fun h => ?_
    obtain ⟨-, db', w, resultJson, hlease, -, -, -, hl⟩ := h
    cases hlease <;> exact one hl rfl rfl
  | resourceLock a =>
    obtain ⟨v, -, hk⟩ := (resourceLock_spec b.rbac a x ⟨db, 0⟩).ok hrun
    refine .of_keyed hk fun h => ?_
    obtain ⟨db', resultJson, heff, -, hl⟩ := h
    cases heff <;> exact one hl rfl rfl
  | recordModelTrace a =>
    obtain ⟨v, -, hk⟩ := (recordModelTrace_spec b.rbac a x ⟨db, 0⟩).ok hrun
    exact .of_keyed hk fun h => one h.2.2 rfl rfl
  | updateIncidentDetails a p =>
    obtain ⟨i, -, -, hk⟩ := (updateIncidentDetails_spec b.rbac a p x ⟨db, 0⟩).ok hrun
    exact .of_keyed hk fun h => one h.2 rfl rfl
  | recordActionArtifacts a p =>
    obtain ⟨i, -, hk⟩ := (recordActionArtifacts_spec b.rbac a p x ⟨db, 0⟩).ok hrun
    exact .of_keyed hk fun h => one h.2.2 rfl rfl
  | recoverAfterRestart actorId now =>
    exact .of_logs ((recoverAfterRestart_spec actorId now x ⟨db, 0⟩).ok hrun).2 rfl rfl
      recover_eq_self

end logged

/-! ## The log of a run -/

/-- The check of a stored payload: its canonical JSON is the stored text, and the material
with it has the stored hash. -/
def EventRow.Rehashed (r : EventRow) : Prop :=
  ∃ payload, (loads r.payloadJson : Option Value) = some payload ∧
    canonicalJson payload = r.payloadJson ∧ rowHash r payload = r.eventHash

section run

variable {b : Broker} {ms : List (Moment (brokerSystem b))} {s : State (brokerSystem b)}

/-- The events that the transaction of a move appends, if it carries out one. -/
def appended (m : Moment (brokerSystem b)) : ℕ :=
  match m.move with
  | .act i x => match m.before.next i with
    | some (.tx t) => t.appended b x.env m.before.store
    | _ => 0
  | _ => 0

variable {mv : Move (brokerSystem b)}

/-- A move commits a transaction, or it changes nothing and appends nothing. -/
theorem appended_cases {s s' : State (brokerSystem b)} (h : s.step mv = some s') :
    (s'.store = s.store ∧ appended ⟨s, mv, s'⟩ = 0) ∨
      ∃ c t r, ∃ x : TxEnv, Moment.Performs ⟨s, mv, s'⟩ c (.tx t) (.ok r) ∧
        t.run b x ⟨s.store, 0⟩ = .ok (r, ⟨s'.store, appended ⟨s, mv, s'⟩⟩) := by
  rcases step_cases h with ⟨q, rfl, rfl⟩ | ⟨i, x, c, o, k, rfl, hc, ho, rfl⟩ | ⟨i, c, rfl, -, rfl⟩
  · exact Or.inl ⟨rfl, rfl⟩
  · have hnext : s.next i = some o := by rw [State.next, hc, Option.bind_some, Call.next, ho]
    cases o with
    | tx t =>
      rcases Tx.commit_cases (b := b) t x.env s.store with ⟨r, c', hrun, hcommit, happ⟩ |
        ⟨e, -, hcommit, happ⟩
      · refine Or.inr ⟨c, t, r, x.env, ⟨i, x, k, rfl, hc, ho, ?_⟩, ?_⟩
        · have hfst : (perform b (.tx t) x s.store).1 = .ok r := congrArg Prod.fst hcommit
          exact Prod.ext hfst rfl
        · rw [hrun]
          simp only [appended, hnext, happ]
          rw [show perform b (.tx t) x s.store = t.commit b x.env s.store from rfl, hcommit]
      · refine Or.inl ⟨congrArg Prod.snd hcommit, ?_⟩
        simp only [appended, hnext, happ]
    | _ => exact Or.inl ⟨rfl, by simp only [appended, hnext]⟩
  · exact Or.inl ⟨rfl, rfl⟩

theorem logged_of_step {s s' : State (brokerSystem b)} (hr : Run (freshState b) ms s)
    (h : s.step mv = some s') : (s'.store = s.store ∧ appended ⟨s, mv, s'⟩ = 0) ∨
      ∃ c t r, ∃ x : TxEnv, Moment.Performs ⟨s, mv, s'⟩ c (.tx t) (.ok r) ∧
        t.Logged x s.store ⟨s'.store, appended ⟨s, mv, s'⟩⟩ := by
  rcases appended_cases h with heq | ⟨c, t, r, x, hp, hrun⟩
  · exact Or.inl heq
  · exact Or.inr ⟨c, t, r, x, hp, Tx.logged ((approvals_carried b).run hr).1.ids hrun⟩

theorem Tx.Logged.grows [LawfulFloatText Flt] {t : Tx} {x : TxEnv} {db : Db} {c : Conn}
    (h : t.Logged x db c) (hok : AuditOk db) : AuditOk c.db ∧
      ∃ es, c.db.events = db.events ++ es ∧ es.length = c.drawn := by
  cases h with
  | same => exact ⟨hok, [], by simp, rfl⟩
  | idle a => exact ⟨hok, [], by simp [Db.addClaimOperation], rfl⟩
  | events db₁ d ds c hevents hhead hl =>
    have hok₁ : AuditOk db₁ := by rwa [AuditOk, hevents, hhead]
    obtain ⟨es, hes, hall⟩ := hl.events
    refine ⟨hl.auditOk hok₁, es, hes.trans (by rw [hevents]), ?_⟩
    rw [hl.drawn, hall.length_eq, zero_add]

/-- The log of a run is accepted, and each move extends it by what its transaction
appended. -/
theorem log_grows [LawfulFloatText Flt] (hr : Run (freshState b) ms s) :
    AuditOk s.store ∧ s.store.events.length = (ms.map appended).sum ∧
    ∀ m ∈ ms, ∃ es, m.after.store.events = m.before.store.events ++ es ∧
      es.length = appended m := by
  induction hr with
  | start => exact ⟨auditOk_fresh, rfl, by simp⟩
  | @step ms s s' mv hr h ih =>
    obtain ⟨hok, hlen, hall⟩ := ih
    have hnew : AuditOk s'.store ∧ ∃ es, s'.store.events = s.store.events ++ es ∧
        es.length = appended ⟨s, mv, s'⟩ := by
      rcases logged_of_step hr h with ⟨hst, h0⟩ | ⟨-, t, -, x, -, hl⟩
      · exact ⟨hst ▸ hok, [], by rw [hst, List.append_nil], h0.symm⟩
      · exact hl.grows hok
    obtain ⟨hok', es, hes, heslen⟩ := hnew
    refine ⟨hok', ?_, fun m hm => ?_⟩
    · rw [hes, List.length_append, heslen, hlen]
      simp
    · rcases List.mem_append.1 hm with hm | hm
      · exact hall m hm
      · obtain rfl := List.mem_singleton.1 hm
        exact ⟨es, hes, heslen⟩

/-- Audit soundness: the check accepts the log of a run, which has as many events as the
committed transactions appended. A move that changes the database appends an event, unless it
records that no mission could be claimed, and a transaction that fails leaves everything as it
was. Every payload that can be appended passes the check of its hash. -/
theorem audit_sound [LawfulFloatText Flt] (hr : Run (freshState b) ms s) :
    (verifySnapshot s.store.events s.store.auditHead).valid = true ∧
    (verifySnapshot s.store.events s.store.auditHead).eventCount = (ms.map appended).sum ∧
    (∀ m ∈ ms, ∃ es, m.after.store.events = m.before.store.events ++ es ∧
      es.length = appended m) ∧
    (∀ m ∈ ms, m.after.store ≠ m.before.store → 0 < appended m ∨
      ∃ c a r, m.Performs c (.tx (.claimNext a)) (.ok r) ∧
        nextCandidate a m.before.store = none ∧
        m.after.store = m.before.store.addClaimOperation (a.operationRow none "null")) ∧
    (∀ m ∈ ms, ∀ c t e, m.Performs c (.tx t) (.error e) →
      m.after.store = m.before.store ∧ appended m = 0) ∧
    ∀ head eventId d, (nextEvent head eventId d).Rehashed := by
  obtain ⟨hok, hlen, hall⟩ := log_grows hr
  refine ⟨hok, (verifySnapshot_eventCount _ _).trans hlen, hall, fun m hm hne => ?_,
    fun m hm c t e hp => ?_, fun head eventId d => ?_⟩
  · obtain ⟨ms₁, -, -, hr₁, hstep⟩ := hr.of_mem hm
    rcases logged_of_step hr₁ hstep with ⟨heq, -⟩ | ⟨c, t, r, x, hp, hl⟩
    · exact absurd heq hne
    · generalize hc : (⟨m.after.store, appended m⟩ : Conn) = conn at hl
      cases hl with
      | same => exact absurd (congrArg Conn.db hc) hne
      | idle a ht hnone =>
        subst ht
        exact Or.inr ⟨c, a, r, hp, hnone, congrArg Conn.db hc⟩
      | events db₁ d ds _ _ _ hlogs =>
        have hdrawn : appended m = conn.drawn := congrArg Conn.drawn hc
        rw [hdrawn, hlogs.drawn, List.length_cons]
        exact Or.inl (by omega)
  · obtain ⟨ms₁, -, -, -, hstep⟩ := hr.of_mem hm
    rcases appended_cases hstep with heq | ⟨c', t', r, x, hp', -⟩
    · exact heq
    · obtain ⟨i, x, k, hmove, -, -, hperf⟩ := id hp
      obtain ⟨j, y, k', hmove', -, -, hperf'⟩ := id hp'
      cases hmove.symm.trans hmove'
      obtain rfl : t = t' := by cases hp.unique hp'; rfl
      cases (congrArg Prod.fst (hperf.symm.trans hperf'))
  · exact rehash_nextEvent head eventId d

end run

end OpsControlPlane

namespace OpsControlPlane.Sample

open JsonText Transaction Calls

theorem lawfulFloatText_platformWith (digest : String → String) :
    @LawfulFloatText (platformWith digest).Flt (platformWith digest).text where
  shape _ := Or.inl ⟨⟨[], ['0'], ['.', '0'], []⟩, ⟨Or.inl rfl, Or.inl rfl,
    Or.inr ⟨['0'], rfl, by simp, by simp⟩, Or.inl rfl⟩, by simp, rfl⟩
  ofText_repr _ := rfl

scoped instance : LawfulFloatText Flt :=
  lawfulFloatText_platformWith digest

/-- An event about a mission. -/
def openedDraft [Platform] : AuditDraft where
  occurredAt := "now"
  eventType := "mission.created"
  actorId := "alice"
  entityType := "mission"
  entityId := "a"
  payload := []

/-- An accepted log in which the actor of an event is changed afterwards. -/
theorem audit_unique_sample : ∃ P : Platform, ∃ (rows rows' : List EventRow)
    (head : Option AuditHead), Function.Injective P.sha256 ∧
    (@verifySnapshot P rows head).valid = true ∧ rows'.map EventRow.actorId = ["mallory"] ∧
    ¬(@verifySnapshot P rows' head).valid = true := by
  let _ : Platform := platformWith id
  have : LawfulFloatText Flt := lawfulFloatText_platformWith id
  have hhead : Db.fresh.auditHead = some ⟨0, genesisHash⟩ := rfl
  have hok := auditOk_fresh.logEvent hhead (uuid 1) openedDraft
  generalize hrow : nextEvent ⟨0, genesisHash⟩ (uuid 1) openedDraft = e at hok
  refine ⟨platformWith id, [e], [{ e with actorId := "mallory" }], _, Function.injective_id, hok,
    rfl, fun h => ?_⟩
  have hrows := audit_unique Function.injective_id hok h
  have hactor : e.actorId = "mallory" := by
    have heq := congrArg (List.map EventRow.actorId) hrows
    simpa [Db.logEvent, Db.fresh] using heq
  rw [← hrow] at hactor
  revert hactor
  decide

/-- Alice asks for a mission when there is none. -/
def idleClaim : List (Move (brokerSystem broker)) :=
  [.spawn (.claimNext ⟨"alice", uuid 1, 60, none⟩), .act 0 (choice 100 100)]

theorem idle_claim : ∃ s ∈ reaches idleClaim, ∃ s' ∈ s.step (.act 0 (choice 100 110)),
    s.store.missionClaimOperations.length = 0 ∧ s'.store.missionClaimOperations.length = 1 ∧
      s'.store.events.length = s.store.events.length := by
  decide +kernel

/-- Two calls under one request, the first of which begins before the second commits. -/
def rivals : List (Move (brokerSystem broker)) :=
  .spawn (.createMission ⟨"alice", uuid 1, "web", "b"⟩) :: .act 0 (choice 90 90) ::
    .spawn (.createMission ⟨"alice", uuid 1, "web", "a"⟩) :: goOn 1 4 100 100 ++ goOn 0 2 110 300

theorem rivals_day : ∃ s ∈ reaches rivals, ∃ s' ∈ s.step (.act 0 (choice 110 400)),
    (∃ p ∈ outcome s (.act 0 (choice 110 400)), p.2 = false) ∧
      ∃ t ∈ s'.exec (setOpen 2 120 500 ++ setOpen 3 130 600), t.store.events.length = 2 := by
  decide +kernel

/-- A transaction fails between the two that append an event. -/
theorem audit_sound_sample : ∃ (ms : List (Moment (brokerSystem broker)))
    (s : State (brokerSystem broker)), Run (freshState broker) ms s ∧
    (∃ m ∈ ms, ∃ c t e, m.Performs c (.tx t) (.error e) ∧ appended m = 0) ∧
    (verifySnapshot s.store.events s.store.auditHead).valid = true ∧
    (verifySnapshot s.store.events s.store.auditHead).eventCount = 2 ∧
    (ms.map appended).sum = 2 := by
  obtain ⟨s, hs, s', hs', ⟨p, hp, hfails⟩, t, ht, htwo⟩ := rivals_day
  obtain ⟨ms, hr, -⟩ := Run.of_exec hs
  obtain ⟨ms', hr', -⟩ := Run.of_exec ht
  have hrun := (hr.step hs').trans hr'
  obtain ⟨hvalid, hcount, -, -, hfailed, -⟩ := audit_sound hrun
  have htwo' := (verifySnapshot_eventCount t.store.events t.store.auditHead).trans
    (congrArg Nat.cast htwo)
  refine ⟨_, t, hrun, ?_, hvalid, htwo', ?_⟩
  · obtain ⟨c, o, hperf, ho⟩ := performs_of_outcome hs' hp
    have hm := List.mem_append_left ms' (List.mem_append_right ms (List.mem_singleton_self
      (⟨s, .act 0 (choice 110 400), s'⟩ : Moment (brokerSystem broker))))
    cases o with
    | ok r => cases (show true = false from ho.trans hfails)
    | error e => exact ⟨_, hm, c, p.1, e, hperf, (hfailed _ hm c p.1 e hperf).2⟩
  · exact_mod_cast hcount.symm.trans htwo'

/-- Not every committed transaction that changes the database appends an event. -/
theorem unlogged_claim : ∃ (ms : List (Moment (brokerSystem broker)))
    (s : State (brokerSystem broker)), Run (freshState broker) ms s ∧ ∃ m ∈ ms,
    m.after.store ≠ m.before.store ∧
    m.after.store.events.length = m.before.store.events.length := by
  obtain ⟨ms, s, s', hr, hnone, hone, hevents⟩ := Run.of_exec_step idle_claim
  refine ⟨_, s', hr, _, List.mem_append_right _ (List.mem_singleton_self _), fun heq => ?_,
    hevents⟩
  rw [show s'.store = s.store from heq, hnone] at hone
  cases hone

end OpsControlPlane.Sample
