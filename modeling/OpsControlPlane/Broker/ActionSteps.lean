import OpsControlPlane.Broker.Writes

/-!
# What the transactions do to actions

`ActionStep` lists what a committed transaction can do to the actions, their approvals and
the used budgets, with the conditions it has checked. `Tx.actionStep` says that there is
nothing else, so that an invariant of these tables needs one case for each constructor.
-/

set_option linter.unusedSectionVars false

namespace OpsControlPlane

open JsonText Calendar Transaction

variable [Platform]

structure ActionTables where
  actions : List ActionRow
  approvals : List ApprovalRow
  budgetUsage : List BudgetRow

def Db.actionTables (db : Db) : ActionTables :=
  ⟨db.actions, db.approvals, db.budgetUsage⟩

def ActionTables.updateActions (s : ActionTables) (p : ActionRow → Bool)
    (f : ActionRow → ActionRow) : ActionTables :=
  { s with actions := update p f s.actions }

/-- A transaction that can commit without a change of the action tables. -/
def Tx.KeepsActions : Tx → Prop
  | insertAction _ | expirePending _ | expireApproved _ | startAction _ _ | finishAction _ _
  | recoverAfterRestart _ _ => False
  | _ => True

inductive ActionStep (b : Broker) (s : ActionTables) : Tx → ActionTables → Prop
  | keep (t : Tx) (h : t.KeepsActions) : ActionStep b s t s
  | request (a : NewAction) (hid : row ActionRow.id a.id s.actions = none)
      (hclass : a.runbook.actionClass ≠ .b) :
      ActionStep b s (.insertAction a) { s with actions := s.actions ++ [a.row] }
  | exhaust (a : NewAction) (hid : row ActionRow.id a.id s.actions = none)
      (hclass : a.runbook.actionClass = .b) :
      ActionStep b s (.insertAction a)
        { s with actions := s.actions ++ [a.row.setStatus .budgetExhausted (isoformat a.now)] }
  | reserve (a : NewAction) (budget : BudgetSpec) (key : String) (cutoff : DateTime)
      (hid : row ActionRow.id a.id s.actions = none) (hclass : a.runbook.actionClass = .b)
      (hres : Reserves a budget key cutoff)
      (hlt : usedSince key (isoformat cutoff) s.budgetUsage < budget.maxAttempts)
      (hu : row BudgetRow.actionId a.id s.budgetUsage = none) :
      ActionStep b s (.insertAction a)
        { s with
          actions := s.actions ++ [a.row]
          budgetUsage := s.budgetUsage ++ [a.usage key] }
  | expirePending (a : ActionWrite) :
      ActionStep b s (.expirePending a)
        (s.updateActions (fun r => r.id = a.actionId ∧ r.status = .pendingApproval)
          (ActionRow.setStatus .approvalExpired (isoformat a.now)))
  | expireApproved (a : ActionWrite) :
      ActionStep b s (.expireApproved a) (s.updateActions (fun r => r.id = a.actionId)
        (ActionRow.setStatus .approvalExpired (isoformat a.now)))
  | start (a : ActionWrite) (runbookId : String)
      (hcount : s.actions.countP (executable a.actionId) = 1) :
      ActionStep b s (.startAction a runbookId) (s.updateActions (executable a.actionId)
        (ActionRow.setStatus .running (isoformat a.now)))
  | finish (a : ActionWrite) (result : ExecutionResult) :
      ActionStep b s (.finishAction a result) (s.updateActions (fun r => r.id = a.actionId)
        (result.finish (isoformat a.now)))
  /-- A decision after the deadline. -/
  | expireRequest (d : DecideArgs) (action : ActionRow)
      (hrow : row ActionRow.id d.actionId s.actions = some action)
      (hcheck : d.check b.policy action = .ok ()) :
      ActionStep b s (.decideApproval d) (s.updateActions (fun r => r.id = d.actionId)
        (ActionRow.setStatus .approvalExpired (isoformat d.now)))
  | decide (d : DecideArgs) (action : ActionRow) (expiresAt : String) (deadline : DateTime)
      (hrow : row ActionRow.id d.actionId s.actions = some action)
      (hcheck : d.check b.policy action = .ok ())
      (hdl : action.approvalDeadline = some expiresAt)
      (hparse : parseTimestamp expiresAt = some deadline) (hlt : d.now < deadline)
      (hfresh : row ApprovalRow.id d.approvalId s.approvals = none) :
      ActionStep b s (.decideApproval d)
        { s.updateActions (fun r => r.id = d.actionId ∧ r.status = .pendingApproval)
            (ActionRow.setStatus d.status (isoformat d.now)) with
          approvals := s.approvals ++ [d.row expiresAt] }
  | recover (actorId : String) (now : DateTime) (ids : List String)
      (hids : ∀ id, id ∈ ids ↔ ∃ r ∈ s.actions, r.status = .running ∧ r.id = id) :
      ActionStep b s (.recoverAfterRestart actorId now)
        (s.updateActions (fun r => r.id ∈ ids) (ActionRow.interrupt (isoformat now)))

variable {b : Broker}

theorem ActionStep.start_inv {s s' : ActionTables} {a : ActionWrite} {runbookId : String}
    (h : ActionStep b s (.startAction a runbookId) s') :
    s.actions.countP (executable a.actionId) = 1 ∧
      s' = s.updateActions (executable a.actionId)
        (ActionRow.setStatus .running (isoformat a.now)) := by
  cases h with
  | keep _ h => exact h.elim
  | start _ _ hcount => exact ⟨hcount, rfl⟩

/-! ## What never changes -/

/-- The row of an action with all that may change left out: the status, the result and the
time of the last write. -/
def ActionRow.terms (r : ActionRow) : ActionRow :=
  { r with status := .authorized, resultJson := none, updatedAt := r.createdAt }

@[simp] theorem terms_setStatus (st : ActionStatus) (now : String) (r : ActionRow) :
    (r.setStatus st now).terms = r.terms :=
  rfl

@[simp] theorem terms_interrupt (now : String) (r : ActionRow) :
    (r.interrupt now).terms = r.terms :=
  rfl

@[simp] theorem terms_finish (result : ExecutionResult) (now : String) (r : ActionRow) :
    (result.finish now r).terms = r.terms :=
  rfl

@[simp] theorem id_terms (r : ActionRow) : r.terms.id = r.id :=
  rfl

theorem map_id_update {f : ActionRow → ActionRow} (hf : ∀ r, (f r).terms = r.terms)
    (p : ActionRow → Bool) (t : List ActionRow) :
    (update p f t).map ActionRow.id = t.map ActionRow.id := by
  have hid : ∀ r, (f r).id = r.id := by
    intro r
    rw [← id_terms, hf, id_terms]
  exact map_update hid t

/-- The tables have grown: rows were added, and nothing has changed but the status, the
result and the time of the last write of an action. -/
structure ActionTables.Grows (s s' : ActionTables) : Prop where
  actions : s.actions.map ActionRow.terms <+: s'.actions.map ActionRow.terms
  approvals : s.approvals <+: s'.approvals
  budgetUsage : s.budgetUsage <+: s'.budgetUsage

namespace ActionTables.Grows

variable {s s' s'' : ActionTables}

theorem refl (s : ActionTables) : s.Grows s :=
  ⟨List.prefix_rfl, List.prefix_rfl, List.prefix_rfl⟩

theorem trans (h : s.Grows s') (h' : s'.Grows s'') : s.Grows s'' :=
  ⟨h.actions.trans h'.actions, h.approvals.trans h'.approvals,
    h.budgetUsage.trans h'.budgetUsage⟩

theorem update {f : ActionRow → ActionRow} (hf : ∀ r, (f r).terms = r.terms)
    (s : ActionTables) (p : ActionRow → Bool) : s.Grows (s.updateActions p f) :=
  ⟨by rw [updateActions, map_update hf], List.prefix_rfl, List.prefix_rfl⟩

theorem action (h : s.Grows s') {r : ActionRow} (hr : r ∈ s.actions) :
    ∃ r' ∈ s'.actions, r'.terms = r.terms :=
  List.mem_map.1 (h.actions.subset (List.mem_map_of_mem hr))

end ActionTables.Grows

theorem ActionStep.grows {s s' : ActionTables} {t : Tx} (h : ActionStep b s t s') : s.Grows s' := by
  cases h with
  | keep => exact .refl s
  | request a =>
    exact ⟨by simp, List.prefix_rfl, List.prefix_rfl⟩
  | exhaust a =>
    exact ⟨by simp, List.prefix_rfl, List.prefix_rfl⟩
  | reserve a budget key cutoff =>
    exact ⟨by simp, List.prefix_rfl, by simp⟩
  | expirePending => exact .update (terms_setStatus _ _) s _
  | expireApproved => exact .update (terms_setStatus _ _) s _
  | start => exact .update (terms_setStatus _ _) s _
  | finish => exact .update (terms_finish _ _) s _
  | expireRequest => exact .update (terms_setStatus _ _) s _
  | decide d action expiresAt deadline =>
    have hs := ActionTables.Grows.update (terms_setStatus d.status (isoformat d.now)) s
      (fun r => r.id = d.actionId ∧ r.status = .pendingApproval)
    exact ⟨hs.actions, by simp, List.prefix_rfl⟩
  | recover => exact .update (terms_interrupt _) s _

/-! ## Nothing else -/

variable {x : TxEnv} {c c' : Conn}

theorem Logs.actionTables {ds : List AuditDraft} (h : Logs x c ds c') :
    c'.db.actionTables = c.db.actionTables := by
  rw [h.data]
  rfl

variable {db db' : Db}

theorem Leases.actionTables {a : LeaseArgs} (h : Leases a db db') :
    db'.actionTables = db.actionTables := by
  cases h <;> rfl

theorem LockEffect.actionTables {a : LockArgs} {projectId : String} {v : Value}
    (h : LockEffect a projectId db db' v) : db'.actionTables = db.actionTables := by
  cases h <;> rfl

theorem mem_runningActions {id : String} :
    id ∈ runningActions db ↔ ∃ r ∈ db.actions, r.status = .running ∧ r.id = id := by
  simp [runningActions, sortedTexts, and_assoc]

def Tx.LeavesActions : Tx → Prop
  | insertAction _ | expirePending _ | expireApproved _ | startAction _ _ | finishAction _ _
  | decideApproval _ | recoverAfterRestart _ _ => False
  | _ => True

theorem Tx.Writes.actionTables {t : Tx} (h : t.Writes db db') (ht : t.LeavesActions) :
    db'.actionTables = db.actionTables := by
  cases h with
  | missionStatus | incidentStatus =>
    simp only [StatusChange.carried]
    split_ifs <;> rfl
  | action | usage | decide | recover => exact ht.elim
  | actions _ _ _ _ hrewrites =>
    cases t <;> first | exact ht.elim | exact hrewrites.elim
  | lease _ _ hlease => exact hlease.actionTables
  | lock _ _ _ _ heffect => exact heffect.actionTables
  | _ => rfl

/-- A committed transaction does to the action tables what `ActionStep` says. -/
theorem Tx.actionStep {t : Tx} {r : t.Reply} (h : t.commit b x db = (.ok r, db')) :
    ActionStep b db.actionTables t db'.actionTables := by
  have leaves : t.LeavesActions → t.KeepsActions →
      ActionStep b db.actionTables t db'.actionTables := by
    intro ht hkeeps
    obtain ⟨db₁, ds, c, hw, hl, rfl⟩ := Tx.writes h
    rw [hl.actionTables, hw.actionTables ht]
    exact .keep t hkeeps
  obtain ⟨c, hrun, rfl, -⟩ := Tx.commit_ok h
  have keep : ∀ t : Tx, t.KeepsActions → c.db.actionTables = db.actionTables →
      ActionStep b db.actionTables t c.db.actionTables := by
    rintro t ht heq
    rw [heq]
    exact .keep t ht
  cases t with
  | insertAction a =>
    obtain ⟨⟨hid, -⟩, hcases⟩ := (insertAction_spec a x ⟨db, 0⟩).ok hrun
    rcases hcases with ⟨hb, -, hl⟩ | ⟨hb, budget, key, cutoff, hres, ⟨-, -, hl⟩ | ⟨hlt, hu, -, hl⟩⟩
    · rw [hl.actionTables]
      exact .request a hid hb
    · rw [hl.actionTables]
      exact .exhaust a hid hb
    · rw [hl.actionTables]
      exact .reserve a budget key cutoff hid hb hres hlt hu
  | expirePending a =>
    rw [((expirePending_spec a x ⟨db, 0⟩).ok hrun).actionTables]
    exact .expirePending a
  | expireApproved a =>
    rw [((expireApproved_spec a x ⟨db, 0⟩).ok hrun).actionTables]
    exact .expireApproved a
  | startAction a runbookId =>
    obtain ⟨hcount, hl⟩ := (startAction_spec a x ⟨db, 0⟩ runbookId).ok hrun
    rw [hl.actionTables]
    exact .start a runbookId hcount
  | finishAction a result =>
    obtain ⟨-, hl⟩ := (finishAction_spec a x ⟨db, 0⟩ result).ok hrun
    rw [hl.actionTables]
    exact .finish a result
  | decideApproval a =>
    obtain ⟨action, hrow, hcases⟩ := (decideApproval_spec b.policy a x ⟨db, 0⟩).ok hrun
    rcases hcases with ⟨_, -, -, -, rfl⟩ | ⟨_, _, _, _, -, -, hl⟩ | ⟨-, rfl⟩ | ⟨hcheck, -, hl⟩ |
      ⟨hcheck, expiresAt, deadline, hdl, hparse, hlt, hfresh, -, -, hl⟩
    · exact keep _ trivial rfl
    · exact keep _ trivial hl.actionTables
    · exact keep _ trivial rfl
    · rw [hl.actionTables]
      exact .expireRequest a action hrow hcheck
    · rw [hl.actionTables]
      exact .decide a action expiresAt deadline hrow hcheck hdl hparse hlt hfresh
  | recoverAfterRestart actorId now =>
    obtain ⟨-, hl⟩ := (recoverAfterRestart_spec actorId now x ⟨db, 0⟩).ok hrun
    rw [hl.actionTables]
    exact .recover actorId now (runningActions db) fun id => mem_runningActions
  | _ => exact leaves trivial trivial

end OpsControlPlane
