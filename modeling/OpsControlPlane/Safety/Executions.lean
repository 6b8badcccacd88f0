import OpsControlPlane.Safety.Approvals

/-!
# Executions of actions

A command runs right after the start of its action that the same call has committed, and
an action is started once: a start needs an action that can be started, and no commit makes
a settled action one that can be. `executed_at_most_once` counts the commands over all calls
of a run, crashed ones included.

An action with a terminal status keeps it, and its result, in the runs in which every end of
an execution finds its action running and every expiry of an approval finds its action
unfinished (`terminal_final`). The source does not check this: an execution that a recovery
has declared interrupted writes its result all the same.
-/

namespace OpsControlPlane

open JsonText Calendar Transaction Calls

variable [Platform]

/-! ## At most one execution -/

theorem ActionStep.settled {b : Broker} {s s' : ActionTables} {t : Tx} (h : ActionStep b s t s')
    {r : ActionRow} (hr : r ∈ s.actions) (hs : ApprovalsOk.Settled r) :
    ∃ r' ∈ s'.actions, r'.id = r.id ∧ ApprovalsOk.Settled r' := by
  have hupd : ∀ {p : ActionRow → Bool} {f : ActionRow → ActionRow},
      (p r = true → (f r).id = r.id ∧ ApprovalsOk.Settled (f r)) →
      ∃ r' ∈ update p f s.actions, r'.id = r.id ∧ ApprovalsOk.Settled r' := by
    intro p f hf
    refine ⟨_, mem_update.2 ⟨r, hr, rfl⟩, ?_⟩
    split_ifs with hp
    · exact hf hp
    · exact ⟨rfl, hs⟩
  have hset : ∀ (st : ActionStatus) (now : String), st ≠ .pendingApproval → st ≠ .authorized →
      st ≠ .approved → (r.setStatus st now).id = r.id ∧
        ApprovalsOk.Settled (r.setStatus st now) := fun st now h1 h2 h3 => ⟨rfl, h1, h2, h3⟩
  cases h with
  | keep => exact ⟨r, hr, rfl, hs⟩
  | request => exact ⟨r, List.mem_append_left _ hr, rfl, hs⟩
  | exhaust => exact ⟨r, List.mem_append_left _ hr, rfl, hs⟩
  | reserve => exact ⟨r, List.mem_append_left _ hr, rfl, hs⟩
  | expirePending => exact hupd fun _ => hset _ _ (by simp) (by simp) (by simp)
  | expireApproved => exact hupd fun _ => hset _ _ (by simp) (by simp) (by simp)
  | start => exact hupd fun _ => hset _ _ (by simp) (by simp) (by simp)
  | finish a result =>
    refine hupd fun _ => ⟨rfl, ?_⟩
    simp only [ApprovalsOk.Settled, ExecutionResult.finish, ExecutionResult.status]
    split_ifs <;> simp
  | expireRequest => exact hupd fun _ => hset _ _ (by simp) (by simp) (by simp)
  | decide d =>
    -- a decision is about an action that waits for one
    exact hupd fun hp => absurd (of_decide_eq_true hp).2 hs.1
  | recover => exact hupd fun _ => ⟨rfl, by simp [ApprovalsOk.Settled, ActionRow.interrupt]⟩

theorem ActionStep.start_settles {b : Broker} {s s' : ActionTables} {a : ActionWrite}
    {runbookId : String} (h : ActionStep b s (.startAction a runbookId) s') :
    (∃ r ∈ s.actions, r.id = a.actionId ∧ ¬ApprovalsOk.Settled r) ∧
      ∃ r ∈ s'.actions, r.id = a.actionId ∧ ApprovalsOk.Settled r := by
  obtain ⟨hcount, rfl⟩ := h.start_inv
  obtain ⟨r, hr, hex⟩ := List.countP_pos_iff.1 (hcount.symm ▸ Nat.one_pos :
    0 < s.actions.countP (executable a.actionId))
  obtain ⟨hid, hst⟩ := of_decide_eq_true hex
  refine ⟨⟨r, hr, hid, fun hs => ?_⟩, _, mem_update.2 ⟨r, hr, rfl⟩, ?_⟩
  · rcases hst with hst | hst
    · exact hs.2.1 hst
    · exact hs.2.2 hst
  · rw [if_pos hex]
    exact ⟨hid, by simp [ApprovalsOk.Settled, ActionRow.setStatus]⟩

section executions

variable {b : Broker} {ms : List (Moment (brokerSystem b))} {s : State (brokerSystem b)}

theorem starts_eq {actionId : String} {o : Op} {a : o.Ans}
    (h : Said.starts actionId ⟨o, a⟩ = true) :
    ∃ w runbookId, o = .tx (.startAction w runbookId) ∧ w.actionId = actionId := by
  unfold Said.starts at h
  split at h
  · next w runbookId r heq =>
    exact ⟨w, runbookId, congrArg Sigma.fst heq, of_decide_eq_true h⟩
  · cases h

/-- An action has not been started, or it has been started once and is settled. -/
theorem started_once (hr : Run (freshState b) ms s) (actionId : String) :
    Run.count (Said.starts actionId) s = 0 ∨
      Run.count (Said.starts actionId) s = 1 ∧
        ∃ r ∈ s.store.actions, r.id = actionId ∧ ApprovalsOk.Settled r := by
  induction hr with
  | start => exact Or.inl rfl
  | @step ms s s' m hr h ih =>
    have hrun := hr.step h
    have hkeep : Run.count (Said.starts actionId) s' = Run.count (Said.starts actionId) s →
        Run.count (Said.starts actionId) s' = 0 ∨
          Run.count (Said.starts actionId) s' = 1 ∧
            ∃ r ∈ s'.store.actions, r.id = actionId ∧ ApprovalsOk.Settled r := by
      intro heq
      rcases ih with h0 | ⟨h1, r, hmem, hid, hset⟩
      · exact Or.inl (heq.trans h0)
      · refine Or.inr ⟨heq.trans h1, ?_⟩
        rcases commit_of_mem hrun (m := ⟨s, m, s'⟩) (by simp) with hst | ⟨c, t, a, x, hp, hcommit⟩
        · have hst : s'.store = s.store := hst
          exact ⟨r, hst ▸ hmem, hid, hset⟩
        · obtain ⟨r', hmem', hid', hset'⟩ := (Tx.actionStep hcommit).settled hmem hset
          exact ⟨r', hmem', hid'.trans hid, hset'⟩
    rcases Run.count_step (p := Said.starts actionId) h with ⟨heq, -⟩ |
      ⟨i, x, c, o, k, hm, hc, ho, hst, heq⟩
    · exact hkeep heq
    split_ifs at heq with hstart
    · obtain ⟨w, runbookId, rfl, hw⟩ := starts_eq hstart
      -- the commit of a start : it finds the action not settled
      cases hans : ((brokerSystem b).perform (.tx (.startAction w runbookId)) x s.store).1 with
      | error e =>
        rw [hans] at hstart
        cases hstart
      | ok r =>
        have hcommit : (Tx.startAction w runbookId).commit b x.env s.store =
            (.ok r, s'.store) := Prod.ext hans hst.symm
        obtain ⟨⟨q, hq, hqid, hno⟩, r', hr', hid', hset'⟩ :=
          (Tx.actionStep hcommit).start_settles
        rcases ih with h0 | ⟨-, q', hq', hqid', hset⟩
        · exact Or.inr ⟨by omega, r', hr', hid'.trans hw, hset'⟩
        · have hids := ((approvals_carried b).run hr).1.ids
          obtain rfl := List.inj_on_of_nodup_map hids hq hq' ((hqid.trans hw).trans hqid'.symm)
          exact absurd hset hno
    · exact hkeep (by omega)

/-- The command of an action is run at most once in a run. -/
theorem executed_at_most_once (hr : Run (freshState b) ms s) (actionId : String) :
    Run.count (Said.executes actionId) s ≤ 1 := by
  have hle : Run.count (Said.executes actionId) s ≤ Run.count (Said.starts actionId) s := by
    refine hr.count_le rfl ?_ (Request.trail b) ?_
    · rintro ⟨o, a⟩ ha
      unfold Said.executes at ha
      split at ha
      · next heq =>
        rw [heq]
        rfl
      · cases ha
    · rintro - h o hP a ha
      unfold Said.executes at ha
      split at ha
      · next id argv timeout bound outcome heq =>
        obtain ⟨rfl, -⟩ := Sigma.mk.inj heq
        rw [← of_decide_eq_true ha]
        exact hP
      · cases ha
  rcases started_once hr actionId with h | ⟨h, -⟩ <;> omega

/-! ## Terminal statuses -/

def ActionRow.Terminal (r : ActionRow) : Prop :=
  r.status = .succeeded ∨ r.status = .failed ∨ r.status = .rejected ∨
    r.status = .approvalExpired ∨ r.status = .budgetExhausted

/-- The move does not end an execution of an action that is not running, and lets no approval
of a finished action expire. -/
structure Guarded (m : Moment (brokerSystem b)) : Prop where
  finish : ∀ c a result r, m.Performs c (.tx (.finishAction a result)) (Except.ok r) →
    ∀ q ∈ m.before.store.actions, q.id = a.actionId → q.status = .running
  expire : ∀ c a r, m.Performs c (.tx (.expireApproved a)) (Except.ok r) →
    ∀ q ∈ m.before.store.actions, q.id = a.actionId → ¬q.Terminal

/-- A guarded commit keeps a finished action as it is. -/
theorem ActionStep.terminal {s s' : ActionTables} {t : Tx} (h : ActionStep b s t s')
    (hids : (s.actions.map ActionRow.id).Nodup)
    (hfinish : ∀ a result, t = .finishAction a result → ∀ q ∈ s.actions, q.id = a.actionId →
      q.status = .running)
    (hexpire : ∀ a, t = .expireApproved a → ∀ q ∈ s.actions, q.id = a.actionId → ¬q.Terminal)
    {r : ActionRow} (hr : r ∈ s.actions) (ht : r.Terminal) : r ∈ s'.actions := by
  have hupd : ∀ {p : ActionRow → Bool} {f : ActionRow → ActionRow}, p r = false →
      r ∈ update p f s.actions := by
    intro p f hp
    exact mem_update.2 ⟨r, hr, by rw [hp]; rfl⟩
  have hst : r.status ≠ .pendingApproval ∧ r.status ≠ .authorized ∧ r.status ≠ .approved ∧
      r.status ≠ .running := by
    rcases ht with h | h | h | h | h <;> simp [h]
  cases h with
  | keep => exact hr
  | request => exact List.mem_append_left _ hr
  | exhaust => exact List.mem_append_left _ hr
  | reserve => exact List.mem_append_left _ hr
  | expirePending => exact hupd (decide_eq_false fun h => hst.1 h.2)
  | expireApproved a => exact hupd (decide_eq_false fun h => hexpire a rfl r hr h ht)
  | start a =>
    exact hupd (decide_eq_false fun h => h.2.elim hst.2.1 hst.2.2.1)
  | finish a result =>
    exact hupd (decide_eq_false fun h => hst.2.2.2 (hfinish a result rfl r hr h))
  | expireRequest d action hrow hcheck =>
    refine hupd (decide_eq_false fun h => ?_)
    obtain ⟨hmem, hid⟩ := row_some hrow
    obtain rfl := List.inj_on_of_nodup_map hids hmem hr (hid.trans h.symm)
    exact hst.1 (ApprovalsOk.check_ok hcheck).2.2.2
  | decide => exact hupd (decide_eq_false fun h => hst.1 h.2)
  | recover actorId now ids hmem =>
    refine hupd (decide_eq_false fun h => ?_)
    obtain ⟨q, hq, hrun, hqid⟩ := (hmem _).1 h
    obtain rfl := List.inj_on_of_nodup_map hids hq hr hqid
    exact hst.2.2.2 hrun

/-- In a run whose moves are all guarded, an action with a terminal status keeps it and its
result. -/
theorem terminal_final {l₁ l₂ : List (Moment (brokerSystem b))} {t : State (brokerSystem b)}
    (hr₁ : Run (freshState b) l₁ t) (hr₂ : Run t l₂ s) (hguard : ∀ m ∈ l₂, Guarded m)
    {r : ActionRow} (hr : r ∈ t.store.actions) (ht : r.Terminal) : r ∈ s.store.actions := by
  refine hr₂.keeps (J := fun s : State (brokerSystem b) => r ∈ s.store.actions) hr
    fun m hm hmem => ?_
  have hrun := hr₁.trans hr₂
  have hmem' : m ∈ l₁ ++ l₂ := List.mem_append_right _ hm
  rcases commit_of_mem hrun hmem' with heq | ⟨c, w, a, x, hp, hcommit⟩
  · rw [heq]
    exact hmem
  · have hids := ((approvals_carried b).moment hrun hmem' hp).1.ids
    refine (Tx.actionStep hcommit).terminal hids ?_ ?_ hmem ht
    · rintro d result rfl
      exact (hguard m hm).finish c d result _ hp
    · rintro d rfl
      exact (hguard m hm).expire c d _ hp

end executions

end OpsControlPlane

namespace OpsControlPlane.Sample

open Transaction Calls

/-- Alice requests an inspection. The command has been run, and its result is not written. -/
def inspecting : List (Move (brokerSystem broker)) :=
  .spawn (request "alice" "inspect" (uuid 1)) :: goOn 0 10 100 100

def recovering : List (Move (brokerSystem broker)) :=
  .spawn (.recoverAfterRestart "alice") :: goOn 1 2 110 500

def finishing : Move (brokerSystem broker) :=
  .act 0 (choice 120 700)

/-- The move ends no execution, and lets no approval expire. -/
def endsNothing (s : State (brokerSystem broker)) : Move (brokerSystem broker) → Bool
  | .act i _ => match s.next i with
    | some (.tx (.finishAction _ _)) | some (.tx (.expireApproved _)) => false
    | _ => true
  | _ => true

theorem recovered_then_finished : ∃ s ∈ reaches (inspecting ++ recovering),
    ∃ s' ∈ s.step finishing, ∃ r ∈ s.store.actions, r.status = .failed ∧
      ∃ r' ∈ s'.store.actions, r'.id = r.id ∧ r'.status = .succeeded := by
  decide +kernel

theorem finished_then_recovered : ∃ s ∈ reaches (inspecting ++ [finishing]),
    Run.count (Said.executes (uuid 120)) s = 1 ∧ (∃ r ∈ s.store.actions, r.status = .succeeded) ∧
    ∃ s' ∈ s.execWhile endsNothing recovering, s'.calls.length = 2 := by
  decide +kernel

/-- A run in which a command is run. -/
theorem executed_at_most_once_sample : ∃ (ms : List (Moment (brokerSystem broker)))
    (s : State (brokerSystem broker)) (actionId : String), Run (freshState broker) ms s ∧
    Run.count (Said.executes actionId) s = 1 ∧ Run.count (Said.executes actionId) s ≤ 1 := by
  obtain ⟨s, hs, hcount, -⟩ := finished_then_recovered
  obtain ⟨ms, hr, -⟩ := Run.of_exec hs
  exact ⟨ms, s, _, hr, hcount, executed_at_most_once hr _⟩

theorem guarded_of_endsNothing {m : Moment (brokerSystem broker)}
    (h : endsNothing m.before m.move = true) : Guarded m := by
  constructor
  · rintro c a result r hp
    obtain ⟨i, x, k, hm, -⟩ := id hp
    rw [hm] at h
    simp [endsNothing, hp.next hm] at h
  · rintro c a r hp
    obtain ⟨i, x, k, hm, -⟩ := id hp
    rw [hm] at h
    simp [endsNothing, hp.next hm] at h

/-- A run in which a finished action stays as it is. -/
theorem terminal_final_sample : ∃ (l₁ l₂ : List (Moment (brokerSystem broker)))
    (t s : State (brokerSystem broker)) (r : ActionRow), Run (freshState broker) l₁ t ∧
    Run t l₂ s ∧ r ∈ t.store.actions ∧ r.Terminal ∧ r ∈ s.store.actions := by
  obtain ⟨t, ht, -, ⟨r, hr, hst⟩, s, hs, -⟩ := finished_then_recovered
  obtain ⟨l₁, hr₁, -⟩ := Run.of_exec ht
  obtain ⟨l₂, hr₂, htest⟩ := Run.of_execWhile hs
  have hterm : r.Terminal := Or.inl hst
  exact ⟨l₁, l₂, t, s, r, hr₁, hr₂, hr, hterm,
    terminal_final hr₁ hr₂ (fun m hm => guarded_of_endsNothing (htest m hm)) hr hterm⟩

/-- A finished action does not always stay as it is. -/
theorem terminal_changes : ∃ (l₁ l₂ : List (Moment (brokerSystem broker)))
    (t s : State (brokerSystem broker)) (r r' : ActionRow), Run (freshState broker) l₁ t ∧
    Run t l₂ s ∧ r ∈ t.store.actions ∧ r.Terminal ∧ r' ∈ s.store.actions ∧ r'.id = r.id ∧
    r'.status ≠ r.status := by
  obtain ⟨t, ht, s, hs, r, hr, hst, r', hr', hid, hst'⟩ := recovered_then_finished
  obtain ⟨l₁, hr₁, -⟩ := Run.of_exec ht
  exact ⟨l₁, _, t, s, r, r', hr₁, Run.start.step hs, hr, Or.inr (Or.inl hst), hr', hid,
    by simp [hst, hst']⟩

end OpsControlPlane.Sample
