import OpsControlPlane.Broker.Trails

/-!
# Approvals of class C

`ApprovalsOk` relates the actions of class C to the decisions about them: a decision is
the only one of its action, made by a listed approver that is not the requester and before
the deadline, and an action is approved only by such a decision. Every commit keeps it
(`ApprovalsOk.step`).

`class_c_starts_approved` is the safety of class C over every run: an action of class C
that starts has one decision, an approval, and the call that starts it has found its expiry
ahead when it sampled the clock for the check. The start samples the clock again, and at
this second sample the expiry may have passed (`start_after_expiry`).
-/

namespace OpsControlPlane

open JsonText Calendar Transaction Calls

variable [Platform]

/-- A decision about an action of class C by a listed approver that is not the requester,
before the deadline of the action. -/
structure Decided (b : Broker) (r : ActionRow) (p : ApprovalRow) : Prop where
  class_c : r.actionClass = .c
  approver : p.actorId ∈ b.policy.approvalActorIds
  other : p.actorId ≠ r.requestedBy
  deadline : r.approvalDeadline = some p.expiresAt
  before : ∃ created expiry, p.createdAt = isoformat created ∧
    parseTimestamp p.expiresAt = some expiry ∧ created < expiry

theorem decided_terms {b : Broker} {r : ActionRow} {p : ApprovalRow} :
    Decided b r.terms p ↔ Decided b r p :=
  ⟨fun h => ⟨h.class_c, h.approver, h.other, h.deadline, h.before⟩,
    fun h => ⟨h.class_c, h.approver, h.other, h.deadline, h.before⟩⟩

structure ApprovalsOk (b : Broker) (s : ActionTables) : Prop where
  ids : (s.actions.map ActionRow.id).Nodup
  once : (s.approvals.map ApprovalRow.actionId).Nodup
  decided : ∀ p ∈ s.approvals, ∃ r ∈ s.actions.map ActionRow.terms,
    r.id = p.actionId ∧ Decided b r p
  pending : ∀ r ∈ s.actions, r.status = .pendingApproval →
    ∀ p ∈ s.approvals, p.actionId ≠ r.id
  authorized : ∀ r ∈ s.actions, r.status = .authorized → r.actionClass ≠ .c
  approved : ∀ r ∈ s.actions, r.status = .approved →
    ∃ p ∈ s.approvals, p.actionId = r.id ∧ p.decision = .approve

namespace ApprovalsOk

variable {b : Broker} {s s' : ActionTables}

/-- A row whose status is left to no decision and to no start. -/
def Settled (r : ActionRow) : Prop :=
  r.status ≠ .pendingApproval ∧ r.status ≠ .authorized ∧ r.status ≠ .approved

/-- Rewriting actions to a settled status. -/
theorem update (h : ApprovalsOk b s) {p : ActionRow → Bool} {f : ActionRow → ActionRow}
    (hf : ∀ r, (f r).terms = r.terms) (hs : ∀ r, Settled (f r)) :
    ApprovalsOk b (s.updateActions p f) where
  ids := by
    rw [ActionTables.updateActions, map_id_update hf]
    exact h.ids
  once := h.once
  decided := by
    rw [ActionTables.updateActions, map_update hf]
    exact h.decided
  pending r hr hst := by
    obtain ⟨q, hq, rfl⟩ := mem_update.1 hr
    split_ifs at hst ⊢
    · exact absurd hst (hs q).1
    · exact h.pending q hq hst
  authorized r hr hst := by
    obtain ⟨q, hq, rfl⟩ := mem_update.1 hr
    split_ifs at hst ⊢
    · exact absurd hst (hs q).2.1
    · exact h.authorized q hq hst
  approved r hr hst := by
    obtain ⟨q, hq, rfl⟩ := mem_update.1 hr
    split_ifs at hst ⊢
    · exact absurd hst (hs q).2.2
    · exact h.approved q hq hst

variable {r : ActionRow}

/-- A new action that is approved by nobody. -/
theorem insert (h : ApprovalsOk b s) {u : List BudgetRow}
    (hid : row ActionRow.id r.id s.actions = none) (hne : r.status ≠ .approved)
    (hc : r.status = .authorized → r.actionClass ≠ .c) :
    ApprovalsOk b ⟨s.actions ++ [r], s.approvals, u⟩ where
  ids := nodup_insert h.ids hid
  once := h.once
  decided p hp := by
    obtain ⟨q, hq, hdec⟩ := h.decided p hp
    exact ⟨q, by simpa using Or.inl (List.mem_map.1 hq), hdec⟩
  pending q hq hst p hp := by
    rcases List.mem_append.1 hq with hq | hq
    · exact h.pending q hq hst p hp
    · obtain rfl := List.mem_singleton.1 hq
      obtain ⟨a, ha, heq, -⟩ := h.decided p hp
      obtain ⟨a, hmem, rfl⟩ := List.mem_map.1 ha
      exact fun hp => row_eq_none.1 hid a hmem (heq.trans hp)
  authorized q hq hst := by
    rcases List.mem_append.1 hq with hq | hq
    · exact h.authorized q hq hst
    · obtain rfl := List.mem_singleton.1 hq
      exact hc hst
  approved q hq hst := by
    rcases List.mem_append.1 hq with hq | hq
    · exact h.approved q hq hst
    · obtain rfl := List.mem_singleton.1 hq
      exact absurd hst hne

variable {d : DecideArgs}

theorem check_ok {policy : ActionPolicy} (h : d.check policy r = .ok ()) :
    d.actorId ∈ policy.approvalActorIds ∧
      d.actorId ≠ r.requestedBy ∧ r.actionClass = .c ∧ r.status = .pendingApproval := by
  simp only [DecideArgs.check, bind_eq_ok, ActionPolicy.requireApprovalActor] at h
  obtain ⟨⟨⟩, hactor, h⟩ := h
  split_ifs at hactor with h1 h2
  split_ifs at h with h3 h4 h5
  exact ⟨h2, h3, not_not.1 h4, not_not.1 h5⟩

/-- A decision about an action that waits for one. -/
theorem decide (h : ApprovalsOk b s) {expiresAt : String} {deadline : DateTime}
    (hrow : row ActionRow.id d.actionId s.actions = some r) (hcheck : d.check b.policy r = .ok ())
    (hdl : r.approvalDeadline = some expiresAt) (hparse : parseTimestamp expiresAt = some deadline)
    (hlt : d.now < deadline) : ApprovalsOk b
      ⟨Transaction.update (fun r => r.id = d.actionId ∧ r.status = .pendingApproval)
          (ActionRow.setStatus d.status (isoformat d.now)) s.actions,
        s.approvals ++ [d.row expiresAt], s.budgetUsage⟩ := by
  obtain ⟨hmem, hid⟩ := row_some hrow
  obtain ⟨hactor, hother, hclass, hpending⟩ := check_ok hcheck
  have hfresh : ∀ p ∈ s.approvals, p.actionId ≠ d.actionId := by
    intro p hp heq
    exact h.pending r hmem hpending p hp (heq.trans hid.symm)
  have hnew : Decided b r.terms (d.row expiresAt) :=
    ⟨hclass, hactor, hother, hdl, d.now, deadline, rfl, hparse, hlt⟩
  have hst : d.status ≠ .pendingApproval ∧ d.status ≠ .authorized ∧
      (d.status = .approved → d.decision = .approve) := by
    unfold DecideArgs.status
    cases d.decision <;> simp
  refine ⟨?_, ?_, ?_, ?_, ?_, ?_⟩
  · rw [map_id_update (terms_setStatus _ _)]
    exact h.ids
  · exact nodup_insert h.once (row_eq_none.2 hfresh)
  · rw [map_update (terms_setStatus _ _)]
    rintro p hp
    rcases List.mem_append.1 hp with hp | hp
    · exact h.decided p hp
    · obtain rfl := List.mem_singleton.1 hp
      exact ⟨r.terms, List.mem_map_of_mem hmem, hid, hnew⟩
  · rintro q' hq' hqst p hp
    obtain ⟨q, hq, rfl⟩ := mem_update.1 hq'
    split_ifs at hqst ⊢ with hif
    · exact absurd hqst hst.1
    · have hne : q.id ≠ d.actionId := fun hqid => hif (by simp [hqid, hqst])
      rcases List.mem_append.1 hp with hp | hp
      · exact h.pending q hq hqst p hp
      · obtain rfl := List.mem_singleton.1 hp
        exact hne.symm
  · rintro q' hq' hqst
    obtain ⟨q, hq, rfl⟩ := mem_update.1 hq'
    split_ifs at hqst ⊢
    · exact absurd hqst hst.2.1
    · exact h.authorized q hq hqst
  · rintro q' hq' hqst
    obtain ⟨q, hq, rfl⟩ := mem_update.1 hq'
    split_ifs at hqst ⊢ with hif
    · obtain ⟨hqid, -⟩ := of_decide_eq_true hif
      exact ⟨d.row expiresAt, by simp, hqid.symm, hst.2.2 hqst⟩
    · obtain ⟨p, hp, heq⟩ := h.approved q hq hqst
      exact ⟨p, List.mem_append_left _ hp, heq⟩

end ApprovalsOk

/-- Every commit keeps the decisions in order. -/
theorem ApprovalsOk.step {b : Broker} {s s' : ActionTables} {t : Tx} (h : ApprovalsOk b s)
    (hs : ActionStep b s t s') (hp : ∀ a, t = .insertAction a → Planned b a) :
    ApprovalsOk b s' := by
  have settled : ∀ (st : ActionStatus) (now : String), st ≠ .pendingApproval → st ≠ .authorized →
      st ≠ .approved → ∀ r : ActionRow, Settled (r.setStatus st now) :=
    fun st now h1 h2 h3 r => ⟨h1, h2, h3⟩
  have hnew : ∀ a, t = .insertAction a →
      a.status ≠ .approved ∧ (a.status = .authorized → a.runbook.actionClass ≠ .c) := by
    intro a ha
    rcases (hp a ha).status with ⟨hst, -⟩ | ⟨hst, hc⟩
    · simp [hst]
    · simp [hst, hc]
  cases hs with
  | keep => exact h
  | request a hid => exact h.insert (r := a.row) hid (hnew a rfl).1 (hnew a rfl).2
  | exhaust a hid =>
    exact h.insert (r := a.row.setStatus .budgetExhausted (isoformat a.now)) hid
      (by simp [ActionRow.setStatus]) (by simp [ActionRow.setStatus])
  | reserve a budget key cutoff hid =>
    exact h.insert (r := a.row) hid (hnew a rfl).1 (hnew a rfl).2
  | expirePending a =>
    exact h.update (terms_setStatus _ _) (settled _ _ (by simp) (by simp) (by simp))
  | expireApproved a =>
    exact h.update (terms_setStatus _ _) (settled _ _ (by simp) (by simp) (by simp))
  | start a =>
    exact h.update (terms_setStatus _ _) (settled _ _ (by simp) (by simp) (by simp))
  | finish a result =>
    refine h.update (terms_finish _ _) fun r => ?_
    simp only [Settled, ExecutionResult.finish, ExecutionResult.status]
    split_ifs <;> simp
  | expireRequest d =>
    exact h.update (terms_setStatus _ _) (settled _ _ (by simp) (by simp) (by simp))
  | decide d action expiresAt deadline hrow hcheck hdl hparse hlt =>
    exact h.decide hrow hcheck hdl hparse hlt
  | recover => exact h.update (terms_interrupt _) fun r => by simp [Settled, ActionRow.interrupt]

/-- The decisions are in order throughout, and nothing that was read of the action tables is
gone. -/
theorem approvals_carried (b : Broker) : Carried b (fun db => ApprovalsOk b db.actionTables)
    fun db db' => db.actionTables.Grows db'.actionTables where
  fresh := by constructor <;> simp [Db.actionTables, Db.fresh]
  refl db := .refl _
  trans _ _ _ := .trans
  step h t x db db' r hK hR hA hcommit := by
    have hstep := Tx.actionStep hcommit
    refine ⟨hK.step hstep ?_, hstep.grows⟩
    rintro a rfl
    exact hA

/-! ## Starts -/

/-- Only the start of an action makes it run. -/
theorem ActionStep.running {b : Broker} {s s' : ActionTables} {t : Tx} (h : ActionStep b s t s')
    (hp : ∀ a, t = .insertAction a → Planned b a) {r : ActionRow} (hr : r ∈ s'.actions)
    (hrun : r.status = .running) : r ∈ s.actions ∨ ∃ a runbookId,
      t = .startAction a runbookId ∧ r.id = a.actionId := by
  have hnew : ∀ a, t = .insertAction a → r ∈ s.actions ++ [a.row] → r ∈ s.actions := by
    rintro a ha hmem
    rcases List.mem_append.1 hmem with hmem | hmem
    · exact hmem
    · obtain rfl := List.mem_singleton.1 hmem
      have hst : a.status = .running := hrun
      rcases (hp a ha).status with ⟨h, -⟩ | ⟨h, -⟩ <;> rw [h] at hst <;> cases hst
  have hupd : ∀ (p : ActionRow → Bool) (f : ActionRow → ActionRow),
      (∀ q, (f q).status ≠ .running) → r ∈ update p f s.actions → r ∈ s.actions := by
    rintro p f hf hmem
    obtain ⟨q, hq, rfl⟩ := mem_update.1 hmem
    split_ifs at hrun ⊢
    · exact absurd hrun (hf q)
    · exact hq
  cases h with
  | keep => exact Or.inl hr
  | request a => exact Or.inl (hnew a rfl hr)
  | exhaust a =>
    refine Or.inl ((List.mem_append.1 hr).resolve_right fun hmem => ?_)
    obtain rfl := List.mem_singleton.1 hmem
    cases hrun
  | reserve a => exact Or.inl (hnew a rfl hr)
  | expirePending => exact Or.inl (hupd _ _ (by simp [ActionRow.setStatus]) hr)
  | expireApproved => exact Or.inl (hupd _ _ (by simp [ActionRow.setStatus]) hr)
  | start a runbookId =>
    obtain ⟨q, hq, rfl⟩ := mem_update.1 hr
    split_ifs with hif
    · exact Or.inr ⟨a, runbookId, rfl, (of_decide_eq_true hif).1⟩
    · exact Or.inl hq
  | finish a result =>
    refine Or.inl (hupd _ _ (fun q => ?_) hr)
    simp only [ExecutionResult.finish, ExecutionResult.status]
    split_ifs <;> simp
  | expireRequest => exact Or.inl (hupd _ _ (by simp [ActionRow.setStatus]) hr)
  | decide d =>
    refine Or.inl (hupd _ _ (fun q => ?_) hr)
    simp only [ActionRow.setStatus, DecideArgs.status]
    split <;> simp
  | recover => exact Or.inl (hupd _ _ (by simp [ActionRow.interrupt]) hr)

section starts

variable {b : Broker} {ms : List (Moment (brokerSystem b))} {s : State (brokerSystem b)}

/-- The move makes the action run. -/
def Starts (m : Moment (brokerSystem b)) (r : ActionRow) : Prop :=
  r ∈ m.before.store.actions ∧ r.status ≠ .running ∧
    ∃ r' ∈ m.after.store.actions, r'.id = r.id ∧ r'.status = .running

/-- The action has one decision, which approves it, and its start is the one of a call that
has sampled the clock before the expiry of the approval, then read the approval and sampled
the clock again. -/
structure ApprovedStart (m : Moment (brokerSystem b)) (r : ActionRow) (p : ApprovalRow) :
    Prop where
  only : m.before.store.approvals.filter (fun p => p.actionId = r.id) = [p]
  approves : p.decision = .approve
  decided : Decided b r p
  cleared : ∃ c a runbookId l t db expiry, m.Performs c (.tx (.startAction a runbookId))
    (Except.ok ()) ∧ a.actionId = r.id ∧
    c.said = (l ++ [Said.now t, Said.read db, Said.now a.now] : List Said) ∧
    parseTimestamp p.expiresAt = some expiry ∧ t < expiry

theorem latestApproval_some {actionId : String} {db : Db} {p : ApprovalRow}
    (h : latestApproval actionId db = some p) :
    p ∈ db.approvals ∧ p.actionId = actionId ∧ p.decision = .approve := by
  have hmem := List.mem_of_mem_head? h
  rw [List.mem_insertionSort, List.mem_filter] at hmem
  exact ⟨hmem.1, of_decide_eq_true hmem.2⟩

theorem Starts.commit (hr : Run (freshState b) ms s) {m : Moment (brokerSystem b)}
    (hm : m ∈ ms) {r : ActionRow} (hs : Starts m r) : ∃ c a runbookId,
      m.Performs c (.tx (.startAction a runbookId)) (Except.ok ()) ∧ a.actionId = r.id := by
  obtain ⟨hmem, hne, r', hmem', hid, hrun⟩ := hs
  have hcarried := approvals_carried b
  have hunchanged : ApprovalsOk b m.before.store.actionTables →
      r' ∉ m.before.store.actions := by
    rintro hK h'
    obtain rfl := List.inj_on_of_nodup_map hK.ids h' hmem hid
    exact hne hrun
  rcases commit_of_mem hr hm with heq | ⟨c, t, a, x, hperf, hcommit⟩
  · obtain ⟨ms₁, -, -, hr₁, -⟩ := hr.of_mem hm
    rw [heq] at hmem'
    exact absurd hmem' (hunchanged (hcarried.run hr₁).1)
  · obtain ⟨hK, -, hasked⟩ := hcarried.moment hr hm hperf
    have hstep := Tx.actionStep hcommit
    rcases hstep.running (by rintro a rfl; exact hasked) hmem' hrun with h' | ⟨w, rb, rfl, hw⟩
    · exact absurd h' (hunchanged hK)
    · exact ⟨c, w, rb, hperf, hw.symm.trans hid⟩

/-- Approval safety of class C: no action has two decisions, and an action of class C
starts approved. -/
theorem class_c_starts_approved (hr : Run (freshState b) ms s) :
    (s.store.approvals.map ApprovalRow.actionId).Nodup ∧
    ∀ m ∈ ms, ∀ r, Starts m r → r.actionClass = .c → ∃ p, ApprovedStart m r p := by
  refine ⟨((approvals_carried b).run hr).1.once, fun m hm r hs hc => ?_⟩
  obtain ⟨c, a, runbookId, hperf, haid⟩ := hs.commit hr hm
  obtain ⟨hK, hread, h', hsaid, db₀, r₀, hdb₀, hrow₀, happroved⟩ :=
    (approvals_carried b).moment hr hm hperf
  have hsub : ∀ d, Said.read d ∈ h' → d.actionTables.Grows m.before.store.actionTables :=
    fun d hd => hread d (by rw [hsaid]; exact List.mem_append_left _ hd)
  obtain ⟨hmem₀, hid₀⟩ := row_some hrow₀
  obtain ⟨r₁, hr₁, hterms⟩ := (hsub db₀ hdb₀).action hmem₀
  obtain rfl : r₁ = r := List.inj_on_of_nodup_map hK.ids hr₁ hs.1
    ((congrArg ActionRow.id hterms).trans (hid₀.trans haid))
  have hclass₀ : r₀.actionClass = .c := (congrArg ActionRow.actionClass hterms).symm.trans hc
  obtain ⟨l, t, db, p, expiry, rfl, hp, hexp, hlt⟩ := happroved hclass₀
  obtain ⟨hpmem, hpid, happrove⟩ := latestApproval_some hp
  have hpmem : p ∈ m.before.store.approvals :=
    (hsub db (by simp)).approvals.subset hpmem
  have hpid : p.actionId = r₁.id := hpid.trans haid
  refine ⟨p, ?_, happrove, ?_, c, a, runbookId, l, t, db, expiry, hperf, haid, ?_, hexp, hlt⟩
  · rw [← hpid]
    exact filter_key hK.once hpmem
  · obtain ⟨q, hq, hqid, hdec⟩ := hK.decided p hpmem
    obtain ⟨q, hqmem, rfl⟩ := List.mem_map.1 hq
    obtain rfl : q = r₁ := List.inj_on_of_nodup_map hK.ids hqmem hs.1 (hqid.trans hpid)
    exact decided_terms.1 hdec
  · exact hsaid.trans (List.append_assoc _ _ _)

end starts

end OpsControlPlane

namespace OpsControlPlane.Sample

open Transaction Calls

/-- A deployment is requested and approved. A call executes it, checks the approval before
its expiry, and samples the clock for the start after it. -/
def lateStart : List (Move (brokerSystem broker)) :=
  .spawn (request "alice" "deploy" (uuid 1)) :: goOn 0 5 100 100 ++
  .spawn (.decideApproval ⟨"bob", uuid 2, uuid 120, "approve", "cli", none, "fine"⟩) ::
    goOn 1 3 110 200 ++
  .spawn (.executeAction ⟨"alice", uuid 120⟩) :: goOn 2 3 120 300 ++ goOn 2 1 500 400

def startWrite : Op → Option ActionWrite
  | .tx (.startAction a _) => some a
  | _ => none

theorem lateStart_reached : ∃ s ∈ (freshState broker).exec lateStart,
    ∃ s' ∈ s.step (.act 2 (choice 500 500)), ∃ r ∈ s.store.actions,
      (r.status ≠ .running ∧ r.actionClass = .c ∧
        ∃ r' ∈ s'.store.actions, r'.id = r.id ∧ r'.status = .running) ∧
      ∃ p ∈ s.store.approvals, p.actionId = r.id ∧ ∃ expiry ∈ parseTimestamp p.expiresAt,
        ∃ a ∈ (s.next 2).bind startWrite, expiry ≤ a.now := by
  decide +kernel

/-- An action of class C starts in a run of the sample broker. -/
theorem class_c_starts_approved_sample : ∃ ms s m r p, Run (freshState broker) ms s ∧ m ∈ ms ∧
    Starts m r ∧ r.actionClass = .c ∧ ApprovedStart m r p := by
  obtain ⟨ms, s, s', hr, r, hmem, ⟨hne, hc, hrun⟩, -⟩ := Run.of_exec_step lateStart_reached
  have hs : Starts ⟨s, .act 2 (choice 500 500), s'⟩ r := ⟨hmem, hne, hrun⟩
  obtain ⟨p, hp⟩ := (class_c_starts_approved hr).2 _ (by simp) r hs hc
  exact ⟨_, s', _, r, p, hr, by simp, hs, hc, hp⟩

/-- At the clock sample of its start, the approval of an action may have expired. -/
theorem start_after_expiry : ∃ ms s m r p c a runbookId expiry,
    Run (freshState broker) ms s ∧ m ∈ ms ∧ Starts m r ∧ r.actionClass = .c ∧
    p ∈ m.before.store.approvals ∧ p.actionId = r.id ∧
    m.Performs c (.tx (.startAction a runbookId)) (Except.ok ()) ∧
    parseTimestamp p.expiresAt = some expiry ∧ expiry ≤ a.now := by
  obtain ⟨ms, s, s', hr, r, hmem, ⟨hne, hc, hrun⟩, p, hp, hpid, expiry, hexp, a, ha, hle⟩ :=
    Run.of_exec_step lateStart_reached
  have hs : Starts ⟨s, .act 2 (choice 500 500), s'⟩ r := ⟨hmem, hne, hrun⟩
  obtain ⟨c, w, runbookId, hperf, -⟩ := hs.commit hr (by simp)
  have hnext : s.next 2 = some (.tx (.startAction w runbookId)) := hperf.next rfl
  rw [hnext] at ha
  obtain rfl : w = a := Option.some.inj ha
  exact ⟨_, s', _, r, p, c, w, runbookId, expiry, hr, by simp, hs, hc, hp, hpid, hperf, hexp,
    hle⟩

end OpsControlPlane.Sample
