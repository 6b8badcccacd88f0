import OpsControlPlane.Native.Workflow

/-!
# Workflows that are resumed

`Recorded` relates the rows of a run to the requests and the actions of the broker, and every
operation of a call keeps it (`settles_run`). So it holds wherever calls are interrupted, however
often they are resumed (`workflow_resumes`).
-/

namespace OpsWorkflow

open Calls

section runs

variable [Library] {s t : State} {c c' : Call} {step : Step} {x : Choice} {rows : List StepRow}
  {d : String}

/-! ## Rows -/

theorem rowOf_cons (row : StepRow) (rows : List StepRow) (d : String) :
    rowOf (row :: rows) d = if row.stepId = d then some row else rowOf rows d := by
  rw [rowOf, List.find?_cons]
  by_cases h : row.stepId = d
  · rw [if_pos h, decide_eq_true h]
  · rw [if_neg h, decide_eq_false h]
    rfl

theorem rowOf_isSome : (rowOf rows d).isSome = true ↔ d ∈ rows.map StepRow.stepId := by
  rw [rowOf, List.find?_isSome]
  simp

variable {f : StepRow → StepRow}

theorem stepIds_changeRow (hf : ∀ row, (f row).stepId = row.stepId) (rows : List StepRow) :
    (changeRow d f rows).map StepRow.stepId = rows.map StepRow.stepId := by
  rw [changeRow, List.map_map]
  refine List.map_congr_left fun row _ => ?_
  change (if row.stepId = d then f row else row).stepId = row.stepId
  split
  · exact hf row
  · rfl

theorem rowOf_changeRow (hf : ∀ row, (f row).stepId = row.stepId) (rows : List StepRow)
    (e : String) : rowOf (changeRow d f rows) e =
      if e = d then (rowOf rows e).map f else rowOf rows e := by
  induction rows with
  | nil => simp [changeRow, rowOf]
  | cons row rows ih =>
    rw [changeRow, List.map_cons, ← changeRow, rowOf_cons, rowOf_cons, ih]
    by_cases hrow : row.stepId = d
    · rw [if_pos hrow, hf]
      by_cases he : row.stepId = e
      · rw [if_pos he, if_pos he, if_pos (he ▸ hrow)]
        rfl
      · rw [if_neg he, if_neg he]
    · rw [if_neg hrow]
      by_cases he : row.stepId = e
      · rw [if_pos he, if_pos he, if_neg (he ▸ hrow)]
      · rw [if_neg he, if_neg he]

def Done (rows : List StepRow) (d : String) : Prop :=
  ∃ row, rowOf rows d = some row ∧ row.phase = .succeeded

instance (rows : List StepRow) (d : String) : Decidable (Done rows d) :=
  decidable_of_iff ((rowOf rows d).any (fun row => row.phase = .succeeded) = true)
    (by simp [Done, Option.any_eq_true])

theorem Done.changeRow {e : String} (hf : ∀ row, (f row).stepId = row.stepId) (h : Done rows e)
    (hd : ¬Done rows d) : Done (changeRow d f rows) e := by
  obtain ⟨row, hrow, hphase⟩ := h
  have hne : e ≠ d := by
    rintro rfl
    exact hd ⟨row, hrow, hphase⟩
  refine ⟨row, ?_, hphase⟩
  rw [rowOf_changeRow hf, if_neg hne, hrow]

theorem done_of_waits {ds : List String} (h : waits rows ds = .ok false) :
    ∀ d ∈ ds, Done rows d := by
  induction ds with
  | nil => exact fun d hd => (by cases hd)
  | cons d ds ih =>
    rw [waits] at h
    cases hrow : rowOf rows d with
    | none =>
      rw [hrow] at h
      cases h
    | some row =>
      rw [hrow] at h
      dsimp only at h
      split at h
      · cases h
      · next hphase => exact List.forall_mem_cons.2 ⟨⟨row, hrow, not_not.1 hphase⟩, ih h⟩

/-! ## The invariant -/

/-- A definition: its steps have identifiers of their own. -/
def Call.Valid (c : Call) : Prop :=
  (c.steps.map StepOf.id).Nodup

/-- Definitions with steps of their own, that their fingerprints tell apart. -/
structure Definitions (D : Set (List Step)) : Prop where
  nodup : ∀ steps ∈ D, (steps.map StepOf.id).Nodup
  fingerprint : Set.InjOn Library.fingerprint D

structure Action.Achieves (a : Action) (c : Call) (step : Step) : Prop where
  missionId : a.missionId = c.missionId
  runbookId : a.runbookId = step.runbook
  parameters : a.parameters = step.parameters
  good : Good step a

/-- The rows of a recorded run, the requests that were made for it and the actions. -/
structure Recorded (c : Call) (s : State) : Prop where
  run : s.run = some c.row
  rows : s.rows.map StepRow.stepId = c.steps.map StepOf.id
  requested : ∀ step ∈ c.steps, .action step.id ∈ s.requested → ∀ d ∈ step.after, Done s.rows d
  succeeded : ∀ step ∈ c.steps, ∀ row, rowOf s.rows step.id = some row → row.phase = .succeeded →
    ∃ a ∈ s.actions, row.actionId = some a.id ∧ a.Achieves c step

structure Booked (s : State) : Prop where
  nodup : (s.actions.map Action.requestId).Nodup
  requested : ∀ a ∈ s.actions, ∀ d, a.requestId = .action d → .action d ∈ s.requested

theorem Booked.advance (h : Booked s) (x : Choice) : Booked (s.advance x) := by
  have hrequest (a : Action) : (a.advance x.progress).requestId = a.requestId := by
    rw [Action.advance]
    split <;> rfl
  refine ⟨?_, fun a ha d hd => ?_⟩
  · have hmap : (s.advance x).actions.map Action.requestId = s.actions.map Action.requestId := by
      rw [State.advance, List.map_map]
      exact List.map_congr_left fun a _ => hrequest a
    rw [hmap]
    exact h.nodup
  · obtain ⟨b, hb, rfl⟩ := List.mem_map.1 ha
    exact h.requested b hb d ((hrequest b).symm.trans hd)

variable {a : Action}

theorem mem_advance (h : a ∈ s.actions) (hgood : a.status = .succeeded) (x : Choice) :
    a ∈ (s.advance x).actions :=
  List.mem_map.2 ⟨a, h, if_pos hgood⟩

theorem Recorded.advance (h : Recorded c s) (x : Choice) : Recorded c (s.advance x) := by
  refine ⟨h.run, h.rows, h.requested, fun step hstep row hrow hphase => ?_⟩
  obtain ⟨a, ha, hid, hachieves⟩ := h.succeeded step hstep row hrow hphase
  exact ⟨a, mem_advance ha hachieves.good.1 x, hid, hachieves⟩

/-- Nothing is recorded yet. -/
structure Fresh (s : State) : Prop where
  run : s.run = none
  rows : s.rows = []
  requested : ∀ d, .action d ∉ s.requested

/-! ## Operations -/

/-- A recorded run and what the broker has of it. -/
def Kept (c : Call) (s : State) : Prop :=
  Recorded c s ∧ Booked s

theorem Kept.advance (h : Kept c s) (x : Choice) : Kept c (s.advance x) :=
  ⟨h.1.advance x, h.2.advance x⟩

variable {C : State → Prop}

/-- An operation, by what it does when it does not raise. -/
theorem settles_perform {o : Op} {R : o.Reply → State → Prop} (hC : C s)
    (h : ∀ x, C ((s.advance x).note o) ∧ C (perform x ((s.advance x).note o) o).2 ∧
      ∀ a, (perform x ((s.advance x).note o) o).1 = .ok a →
        R a (perform x ((s.advance x).note o) o).2) :
    Prog.Settles act C (fun _ => True) (op o) R s := by
  refine Prog.settles_op hC fun x => ?_
  obtain ⟨hnoted, hdone, hanswer⟩ := h x
  rw [act]
  cases x.outcome with
  | done => exact ⟨hdone, hanswer, fun _ _ => trivial⟩
  | refused => exact ⟨hnoted, fun a ha => (by cases ha), fun _ _ => trivial⟩
  | late => exact ⟨hdone, fun a ha => (by cases ha), fun _ _ => trivial⟩

variable {P : State → Prop}

theorem settles_quiet {o : Op} (hP : ∀ t, P t → C t) (hadvance : ∀ t x, P t → P (t.advance x))
    (hquiet : ∀ t x, t.note o = t ∧ (perform x t o).2 = t) (h : P s) :
    Prog.Settles act C (fun _ => True) (op o) (fun _ => P) s := by
  refine settles_perform (hP s h) fun x => ?_
  rw [(hquiet _ x).1, (hquiet _ x).2]
  exact ⟨hP _ (hadvance s x h), hP _ (hadvance s x h), fun _ _ => hadvance s x h⟩

theorem settles_refuse {condition : Prop} [Decidable condition] {e : Fault}
    {R : Unit → State → Prop}
    (hC : C s) (h : ¬condition → R () s) :
    Prog.Settles act C (fun _ => True) (refuse condition e) R s :=
  Prog.settles_ite (fun _ => Prog.settles_fail hC trivial) fun hnot => Prog.settles_pure hC (h hnot)

theorem Call.Valid.eq_of_id (hc : c.Valid) {step step' : Step} (h : step ∈ c.steps)
    (h' : step' ∈ c.steps) (hid : step'.id = step.id) : step' = step :=
  List.inj_on_of_nodup_map hc h' h hid

theorem Recorded.changeRow (h : Recorded c s) (hnot : ¬Done s.rows d)
    (hf : ∀ row, (f row).stepId = row.stepId)
    (hphase : ∀ step ∈ c.steps, step.id = d → ∀ row, (f row).phase = .succeeded →
      ∃ a ∈ s.actions, (f row).actionId = some a.id ∧ a.Achieves c step) :
    Recorded c { s with rows := changeRow d f s.rows } := by
  refine ⟨h.run, (stepIds_changeRow hf _).trans h.rows,
    fun step hstep hrequested e he => (h.requested step hstep hrequested e he).changeRow hf hnot,
    fun step hstep row hrow hsucceeded => ?_⟩
  rw [rowOf_changeRow hf] at hrow
  split at hrow
  · next hd =>
    obtain ⟨old, -, rfl⟩ := Option.map_eq_some_iff.1 hrow
    exact hphase step hstep hd old hsucceeded
  · exact h.succeeded step hstep row hrow hsucceeded

structure Due (c : Call) (step : Step) (s : State) : Prop where
  kept : Kept c s
  after : ∀ d ∈ step.after, Done s.rows d
  not_done : ¬Done s.rows step.id

theorem Due.advance (h : Due c step s) (x : Choice) : Due c step (s.advance x) :=
  ⟨h.kept.advance x, h.after, h.not_done⟩

theorem settles_requesting (h : Due c step s) :
    Prog.Settles act (Kept c) (fun _ => True) (requesting step.id) (fun _ t => Due c step t) s := by
  refine settles_perform h.kept fun x => ⟨(h.advance x).kept, ?_⟩
  obtain ⟨⟨hrecorded, hbooked⟩, hafter, hnot⟩ := h.advance x
  have hf : ∀ row : StepRow, ({ row with phase := .requesting } : StepRow).stepId = row.stepId :=
    fun _ => rfl
  have hkept : Kept c (perform x (s.advance x) (.requesting step.id)).2 :=
    ⟨hrecorded.changeRow hnot hf fun _ _ _ _ hphase => (by cases hphase),
      hbooked.nodup, hbooked.requested⟩
  refine ⟨hkept, fun _ _ => ⟨hkept, fun d hd => (hafter d hd).changeRow hf hnot, ?_⟩⟩
  rintro ⟨row, hrow, hphase⟩
  change rowOf (OpsWorkflow.changeRow step.id _ s.rows) step.id = some row at hrow
  rw [rowOf_changeRow hf, if_pos rfl] at hrow
  obtain ⟨old, -, rfl⟩ := Option.map_eq_some_iff.1 hrow
  cases hphase

theorem settles_getAction (id : String) (h : Due c step s) :
    Prog.Settles act (Kept c) (fun _ => True) (getAction id)
      (fun a t => Due c step t ∧ a ∈ t.actions) s := by
  refine settles_perform h.kept fun x => ?_
  have hdue := h.advance x
  generalize s.advance x = u at hdue ⊢
  have hnote : u.note (.getAction id) = u := rfl
  rw [hnote]
  cases hfind : u.actions.find? fun a => a.id = id with
  | none =>
    have hperform : perform x u (.getAction id) = (.error .raised, u) := by rw [perform, hfind]
    rw [hperform]
    exact ⟨hdue.kept, hdue.kept, fun a ha => (by cases ha)⟩
  | some a =>
    have hperform : perform x u (.getAction id) = (.ok a, u) := by rw [perform, hfind]
    rw [hperform]
    refine ⟨hdue.kept, hdue.kept, fun b hb => ?_⟩
    cases hb
    exact ⟨hdue, List.mem_of_find?_eq_some hfind⟩

theorem Due.note (hc : c.Valid) (hstep : step ∈ c.steps) (h : Due c step s)
    (missionId runbookId : String) (parameters : Parameters) :
    Due c step (s.note (.requestAction (.action step.id) missionId runbookId parameters)) := by
  obtain ⟨⟨hrecorded, hbooked⟩, hafter, hnot⟩ := h
  refine ⟨⟨⟨hrecorded.run, hrecorded.rows, fun step' hstep' hrequested => ?_, hrecorded.succeeded⟩,
    hbooked.nodup, fun a ha d hd => List.mem_cons_of_mem _ (hbooked.requested a ha d hd)⟩,
    hafter, hnot⟩
  rcases List.mem_cons.1 hrequested with heq | hmem
  · rw [hc.eq_of_id hstep hstep' (RequestId.action.inj heq)]
    exact hafter
  · exact hrecorded.requested step' hstep' hmem

theorem Due.append (h : Due c step s) (hid : a.requestId = .action step.id)
    (hrequested : .action step.id ∈ s.requested)
    (hnew : ∀ b ∈ s.actions, b.requestId ≠ .action step.id) :
    Due c step { s with actions := s.actions ++ [a] } := by
  obtain ⟨⟨hrecorded, hbooked⟩, hafter, hnot⟩ := h
  refine ⟨⟨⟨hrecorded.run, hrecorded.rows, hrecorded.requested,
    fun step' hstep' row hrow hphase => ?_⟩, ?_, fun b hb d hd => ?_⟩, hafter, hnot⟩
  · obtain ⟨b, hb, hachieves⟩ := hrecorded.succeeded step' hstep' row hrow hphase
    exact ⟨b, List.mem_append_left _ hb, hachieves⟩
  · change ((s.actions ++ [a]).map Action.requestId).Nodup
    rw [List.map_append, List.map_cons, List.map_nil, List.nodup_append]
    refine ⟨hbooked.nodup, List.nodup_singleton _, fun i hi j hj hij => ?_⟩
    obtain ⟨b, hb, rfl⟩ := List.mem_map.1 hi
    rw [List.mem_singleton.1 hj, hid] at hij
    exact hnew b hb hij
  · rcases List.mem_append.1 hb with hb | hb
    · exact hbooked.requested b hb d hd
    · rw [List.mem_singleton.1 hb, hid] at hd
      exact hd ▸ hrequested

theorem settles_requestAction (hc : c.Valid) (hstep : step ∈ c.steps) (h : Due c step s) :
    Prog.Settles act (Kept c) (fun _ => True)
      (requestAction (.action step.id) c.missionId step.runbook step.parameters)
      (fun a t => Due c step t ∧ a ∈ t.actions) s := by
  refine settles_perform h.kept fun x => ?_
  have hdue := (h.advance x).note hc hstep c.missionId step.runbook step.parameters
  have hrequested : .action step.id ∈ ((s.advance x).note
      (.requestAction (.action step.id) c.missionId step.runbook step.parameters)).requested :=
    List.mem_cons_self
  generalize (s.advance x).note
    (.requestAction (.action step.id) c.missionId step.runbook step.parameters) = u
    at hdue hrequested ⊢
  cases hfind : u.actions.find? fun a => a.requestId = .action step.id with
  | some a =>
    have hperform : perform x u
        (.requestAction (.action step.id) c.missionId step.runbook step.parameters) =
        if a.missionId = c.missionId ∧ a.runbookId = step.runbook ∧
          a.parameters = Library.stored step.parameters then (.ok a, u)
            else (.error .raised, u) := by
      rw [perform, hfind]
    rw [hperform]
    split
    · refine ⟨hdue.kept, hdue.kept, fun b hb => ?_⟩
      cases hb
      exact ⟨hdue, List.mem_of_find?_eq_some hfind⟩
    · exact ⟨hdue.kept, hdue.kept, fun b hb => (by cases hb)⟩
  | none =>
    have hnew : ∀ b ∈ u.actions, b.requestId ≠ .action step.id := fun b hb =>
      of_decide_eq_false (Bool.eq_false_iff.2 (List.find?_eq_none.1 hfind b hb))
    rw [perform, hfind]
    dsimp only
    split
    · exact ⟨hdue.kept, hdue.kept, fun b hb => (by cases hb)⟩
    · have happend := hdue.append (a := ⟨x.actionId, .action step.id, c.missionId, step.runbook,
        Library.stored step.parameters, x.status, x.result⟩) rfl hrequested hnew
      refine ⟨hdue.kept, happend.kept, fun b hb => ?_⟩
      cases hb
      exact ⟨happend, List.mem_append_right _ List.mem_cons_self⟩

theorem settles_actionOf (hc : c.Valid) (hstep : step ∈ c.steps) (h : Due c step s)
    (actionId : Option String) :
    Prog.Settles act (Kept c) (fun _ => True) (actionOf c step actionId)
      (fun a t => Due c step t ∧ a ∈ t.actions) s := by
  cases actionId with
  | none => exact settles_requestAction hc hstep h
  | some id => exact settles_getAction id h

theorem settles_addMissionRecord (hP : ∀ t, P t → C t) (hadvance : ∀ t x, P t → P (t.advance x))
    (h : P s) : Prog.Settles act C (fun _ => True) addMissionRecord (fun _ => P) s :=
  settles_quiet hP hadvance (fun _ _ => ⟨rfl, rfl⟩) h

theorem good_of_outcome (h : outcome a step = .succeeded) : Good step a := by
  rw [outcome] at h
  split at h
  · cases h
  · split at h
    · next hgood => exact hgood
    · cases h

theorem settles_settle (hc : c.Valid) (hstep : step ∈ c.steps) (h : Due c step s)
    (ha : Good step a → a ∈ s.actions)
    (hmatches : a.missionId = c.missionId ∧ a.runbookId = step.runbook ∧
      a.parameters = step.parameters) :
    Prog.Settles act (Kept c) (fun _ => True) (settle step.id a.id (outcome a step))
      (fun _ t => Kept c t) s := by
  refine settles_perform h.kept fun x => ?_
  obtain ⟨⟨hrecorded, hbooked⟩, hafter, hnot⟩ := h.advance x
  have hf : ∀ row : StepRow, ({ row with actionId := some a.id, phase := outcome a step } :
    StepRow).stepId = row.stepId := fun _ => rfl
  have hkept : Kept c (perform x (s.advance x) (.settle step.id a.id (outcome a step))).2 := by
    refine ⟨hrecorded.changeRow hnot hf fun step' hstep' hid row hphase => ?_,
      hbooked.nodup, hbooked.requested⟩
    obtain rfl := hc.eq_of_id hstep hstep' hid
    have hgood := good_of_outcome hphase
    exact ⟨a, mem_advance (ha hgood) hgood.1 x, rfl,
      hmatches.1, hmatches.2.1, hmatches.2.2, hgood⟩
  exact ⟨⟨hrecorded, hbooked⟩, hkept, fun _ _ => hkept⟩

/-! ## The loop -/

theorem settles_performStep (hc : c.Valid) (hstep : step ∈ c.steps) (h : Due c step s)
    (row : StepRow) :
    Prog.Settles act (Kept c) (fun _ => True) (performStep c step row) (fun _ t => Kept c t) s := by
  refine (settles_requesting h).then fun _ t _ ht => ?_
  refine (settles_actionOf hc hstep ht row.actionId).then fun a t _ ⟨ht, ha⟩ => ?_
  have hmatch : Prog.Settles act (Kept c) (fun _ => True)
      (refuse (a.missionId ≠ c.missionId ∨ a.runbookId ≠ step.runbook ∨
        a.parameters ≠ step.parameters)
          (.valueError "Broker action does not match the workflow step"))
      (fun _ t => (Due c step t ∧ (Good step a → a ∈ t.actions)) ∧ a.missionId = c.missionId ∧
        a.runbookId = step.runbook ∧ a.parameters = step.parameters) t :=
    settles_refuse ht.kept fun hnot => by
      simp only [not_or, not_not] at hnot
      exact ⟨⟨ht, fun _ => ha⟩, hnot⟩
  refine hmatch.then fun _ t _ ⟨ht, hmatches⟩ => ?_
  refine (settles_addMissionRecord (P := fun t => Due c step t ∧ (Good step a → a ∈ t.actions))
    (fun t ht => ht.1.kept) (fun t x ht => ⟨ht.1.advance x, fun hgood =>
      mem_advance (ht.2 hgood) hgood.1 x⟩) ht).then fun _ t _ ht => ?_
  exact settles_settle hc hstep ht.1 ht.2 hmatches

theorem settles_readRows (h : Kept c s) :
    Prog.Settles act (Kept c) (fun _ => True) readRows (fun rows t => Kept c t ∧ rows = t.rows) s :=
  settles_perform h fun x => ⟨h.advance x, h.advance x, fun rows hrows => by
    cases hrows
    exact ⟨h.advance x, rfl⟩⟩

theorem settles_runStep (hc : c.Valid) (hstep : step ∈ c.steps) (h : Kept c s) :
    Prog.Settles act (Kept c) (fun _ => True) (runStep c step) (fun _ t => Kept c t) s := by
  refine (settles_readRows h).then fun rows t _ ⟨ht, hrows⟩ => ?_
  subst hrows
  cases hrow : rowOf t.rows step.id with
  | none => exact Prog.settles_fail ht trivial
  | some row =>
    refine Prog.settles_ite (fun _ => Prog.settles_pure ht ht) fun hphase => ?_
    have hnot : ¬Done t.rows step.id := by
      rintro ⟨r, hr, hsucceeded⟩
      rw [hrow] at hr
      cases hr
      exact hphase (.inl hsucceeded)
    refine Prog.settles_bind ?_
    cases hwaits : waits t.rows step.after with
    | error e => exact Prog.settles_fail ht trivial
    | ok waiting =>
      refine Prog.settles_pure ht (Prog.settles_ite (fun _ =>
        Prog.settles_pure ht ht) fun hwaiting => ?_)
      rw [Bool.not_eq_true] at hwaiting
      exact settles_performStep hc hstep ⟨ht, done_of_waits (hwaiting ▸ hwaits), hnot⟩ row

theorem settles_runSteps (hc : c.Valid) {steps : List Step}
    (hsteps : ∀ step ∈ steps, step ∈ c.steps)
    (h : Kept c s) :
    Prog.Settles act (Kept c) (fun _ => True) (runSteps c steps) (fun _ t => Kept c t) s := by
  induction steps generalizing s with
  | nil => exact Prog.settles_pure h h
  | cons step steps ih =>
    obtain ⟨hstep, hsteps⟩ := List.forall_mem_cons.1 hsteps
    exact (settles_runStep hc hstep h).then fun _ t _ ht => ih hsteps ht

/-! ## The record of a run -/

variable {ids : List String}

theorem addRows_of_mem (h : ∀ id ∈ ids, id ∈ rows.map StepRow.stepId) :
    addRows rows ids = rows := by
  induction ids with
  | nil => rfl
  | cons id ids ih =>
    obtain ⟨hid, hids⟩ := List.forall_mem_cons.1 h
    rw [addRows, List.foldl_cons, if_pos hid, ← addRows, ih hids]

theorem addRows_of_nodup (hnodup : ids.Nodup) (h : ∀ id ∈ ids, id ∉ rows.map StepRow.stepId) :
    addRows rows ids = rows ++ ids.map fun id => ⟨id, none, .pending⟩ := by
  induction ids generalizing rows with
  | nil => rw [List.map_nil, List.append_nil]; rfl
  | cons id ids ih =>
    obtain ⟨hid, hids⟩ := List.forall_mem_cons.1 h
    obtain ⟨hnot, hnodup⟩ := List.nodup_cons.1 hnodup
    rw [addRows, List.foldl_cons, if_neg hid, ← addRows, ih hnodup fun id' hid' hmem => ?_,
      List.map_cons, List.append_assoc]
    · rfl
    · rw [List.map_append, List.map_cons, List.map_nil] at hmem
      rcases List.mem_append.1 hmem with hmem | hmem
      · exact hids id' hid' hmem
      · rw [List.mem_singleton.1 hmem] at hid'
        exact hnot hid'

def Ready (c : Call) (s : State) : Prop :=
  Booked s ∧ (Fresh s ∨ Recorded c s)

def Resumable (D : Set (List Step)) (s : State) : Prop :=
  Booked s ∧ (Fresh s ∨ ∃ c : Call, c.steps ∈ D ∧ Recorded c s)

variable {D : Set (List Step)}

theorem Ready.resumable (hc : c.steps ∈ D) (h : Ready c s) : Resumable D s :=
  ⟨h.1, h.2.imp_right fun hrecorded => ⟨c, hc, hrecorded⟩⟩

theorem Kept.resumable (hc : c.steps ∈ D) (h : Kept c s) : Resumable D s :=
  ⟨h.2, .inr ⟨c, hc, h.1⟩⟩

theorem Fresh.advance (h : Fresh s) (x : Choice) : Fresh (s.advance x) :=
  ⟨h.run, h.rows, h.requested⟩

theorem Ready.advance (h : Ready c s) (x : Choice) : Ready c (s.advance x) :=
  ⟨h.1.advance x, h.2.imp (·.advance x) (·.advance x)⟩

theorem Resumable.advance (h : Resumable D s) (x : Choice) : Resumable D (s.advance x) :=
  ⟨h.1.advance x, h.2.imp (·.advance x) fun ⟨c, hc, hrecorded⟩ => ⟨c, hc, hrecorded.advance x⟩⟩

/-- A call that records its run, or finds it recorded. -/
theorem Ready.begin (hc : c.Valid) (h : Ready c s) :
    Kept c (({ s with
      run := some (s.run.getD c.row)
      rows := addRows s.rows (c.steps.map StepOf.id) } : State)) := by
  obtain ⟨hbooked, hfresh | hrecorded⟩ := h
  · have hrows : addRows s.rows (c.steps.map StepOf.id) =
        (c.steps.map StepOf.id).map fun id => ⟨id, none, .pending⟩ := by
      rw [hfresh.rows, addRows_of_nodup hc fun id _ => List.not_mem_nil, List.nil_append]
    refine ⟨⟨?_, ?_, fun step _ hrequested => absurd hrequested (hfresh.requested _),
      fun step _ row hrow hphase => ?_⟩, hbooked.nodup, hbooked.requested⟩
    · rw [hfresh.run, Option.getD_none]
    · change (addRows s.rows _).map StepRow.stepId = _
      rw [hrows, List.map_map]
      exact List.map_id _
    · change rowOf (addRows s.rows _) step.id = some row at hrow
      rw [hrows] at hrow
      obtain ⟨id, -, rfl⟩ := List.mem_map.1 (List.mem_of_find?_eq_some hrow)
      cases hphase
  · have hrows : addRows s.rows (c.steps.map StepOf.id) = s.rows :=
      addRows_of_mem fun id hid => by rwa [hrecorded.rows]
    have hsame : ({ s with
        run := some (s.run.getD c.row)
        rows := addRows s.rows (c.steps.map StepOf.id) } : State) = s := by
      rw [hrows, hrecorded.run, Option.getD_some, ← hrecorded.run]
    rw [hsame]
    exact ⟨hrecorded, hbooked⟩

theorem settles_begin (hD : Definitions D) (hc : c.steps ∈ D) (h : Ready c s) :
    Prog.Settles act (Resumable D) (fun _ => True) (begin c.row (c.steps.map StepOf.id))
      (fun _ t => Kept c t) s :=
  settles_perform (h.resumable hc) fun x =>
    have hkept := (h.advance x).begin (hD.nodup _ hc)
    ⟨(h.advance x).resumable hc, hkept.resumable hc, fun _ _ => hkept⟩

theorem Definitions.eq (hD : Definitions D) (hc : c.steps ∈ D) (hc' : c'.steps ∈ D)
    (hrow : c'.row = c.row) : c' = c := by
  obtain ⟨name, steps, missionId⟩ := c
  obtain ⟨name', steps', missionId'⟩ := c'
  obtain ⟨rfl, hdigest, rfl⟩ := RunRow.mk.inj hrow
  obtain rfl := hD.fingerprint hc' hc hdigest
  rfl

theorem settles_check (hD : Definitions D) (hc : c.steps ∈ D) (h : Resumable D s) :
    Prog.Settles act (Resumable D) (fun _ => True) (check c) (fun _ t => Ready c t) s := by
  refine (settles_quiet (P := Resumable D) (fun _ ht => ht) (fun _ x ht => ht.advance x)
    (fun _ _ => ⟨rfl, rfl⟩) h).then fun mission t _ ht => ?_
  refine (settles_refuse (R := fun _ => Resumable D) ht fun _ => ht).then fun _ t _ ht => ?_
  have hread : Prog.Settles act (Resumable D) (fun _ => True) readRun
      (fun existing t => Resumable D t ∧ existing = t.run) t :=
    settles_perform ht fun x => ⟨ht.advance x, ht.advance x, fun existing hexisting => by
      cases hexisting
      exact ⟨ht.advance x, rfl⟩⟩
  refine hread.then fun existing t _ ⟨ht, hexisting⟩ => ?_
  refine (settles_refuse (R := fun _ => fun t => Resumable D t ∧ Ready c t) ht fun hsame => ?_).then
    fun _ t _ ht => ?_
  · refine ⟨ht, ht.1, ht.2.imp_right fun ⟨c', hc', hrecorded⟩ => ?_⟩
    have hrow : c'.row = c.row := by
      by_contra hne
      exact hsame ⟨c'.row, hexisting.trans hrecorded.run, hne⟩
    exact hD.eq hc hc' hrow ▸ hrecorded
  refine (settles_quiet (P := fun t => Resumable D t ∧ Ready c t) (fun _ ht => ht.1)
    (fun _ x ht => ⟨ht.1.advance x, ht.2.advance x⟩) (fun _ _ => ⟨rfl, rfl⟩) ht).then
    fun registry t _ ht => ?_
  exact settles_refuse ht.1 fun _ => ht.2

theorem settles_run (hD : Definitions D) (hc : c.steps ∈ D) (h : Resumable D s) :
    Prog.Settles act (Resumable D) (fun _ => True) (run c)
      (fun report t => Kept c t ∧ report.steps = t.rows ∧
        report.succeeded = t.rows.all fun row => row.phase = .succeeded) s := by
  refine (settles_check hD hc h).then fun _ t _ ht => ?_
  refine (settles_begin hD hc ht).then fun _ t _ ht => ?_
  have hresumable : ∀ t, Kept c t → Resumable D t := fun t ht => ht.resumable hc
  refine (settles_addMissionRecord (P := Kept c) hresumable (fun _ x ht => ht.advance x) ht).then
    fun _ t _ ht => ?_
  refine ((settles_runSteps (hD.nodup _ hc) (fun _ hstep => hstep) ht).weaken hresumable).then
    fun _ t _ ⟨ht, _⟩ => ?_
  refine ((settles_readRows ht).weaken hresumable).then fun rows t _ ⟨_, ht, hrows⟩ => ?_
  exact Prog.settles_pure (hresumable t ht) ⟨ht, hrows, by rw [hrows]⟩

/-! ## Resumption -/

/-- Calls with these definitions, one after another, any of which may have been interrupted. -/
inductive Resumed (D : Set (List Step)) (s : State) : State → Prop
  | start : Resumed D s s
  | call {t u : State} (c : Call) (hc : c.steps ∈ D) (ht : Resumed D s t)
      (hr : (run c).Reaches act t u) : Resumed D s u

theorem Resumed.resumable (hD : Definitions D) (hs : Resumable D s) (h : Resumed D s t) :
    Resumable D t := by
  induction h with
  | start => exact hs
  | call c hc _ hr ih => exact (settles_run hD hc ih).crash hr

/-- What a call leaves as it is when the run is recorded otherwise. -/
structure Unchanged (s t : State) : Prop where
  run : t.run = s.run
  rows : t.rows = s.rows
  requested : t.requested = s.requested
  actions : t.actions.map Action.id = s.actions.map Action.id

theorem Unchanged.advance (h : Unchanged s t) (x : Choice) : Unchanged s (t.advance x) := by
  refine ⟨h.run, h.rows, h.requested, ?_⟩
  rw [State.advance, List.map_map, ← h.actions]
  refine List.map_congr_left fun a _ => ?_
  change (a.advance x.progress).id = a.id
  rw [Action.advance]
  split <;> rfl

/-- A call that would change the record of the run fails. -/
theorem settles_refused {row : RunRow} (hrow : s.run = some row) (hne : row ≠ c.row) :
    Prog.Settles act (Unchanged s) (fun _ => True) (run c) (fun _ _ => False) s := by
  have hquiet : ∀ t x, Unchanged s t → Unchanged s (t.advance x) := fun t x ht => ht.advance x
  have hself : Unchanged s s := ⟨rfl, rfl, rfl, rfl⟩
  have hcheck : Prog.Settles act (Unchanged s) (fun _ => True) (check c) (fun _ _ => False) s := by
    refine (settles_quiet (P := Unchanged s) (fun _ ht => ht) hquiet
      (fun _ _ => ⟨rfl, rfl⟩) hself).then fun mission t _ ht => ?_
    refine (settles_refuse (R := fun _ => Unchanged s) ht fun _ => ht).then fun _ t _ ht => ?_
    have hread : Prog.Settles act (Unchanged s) (fun _ => True) readRun
        (fun existing t => existing = some row) t :=
      settles_perform ht fun x => ⟨ht.advance x, ht.advance x, fun existing hexisting => by
        cases hexisting
        exact ht.run.trans hrow⟩
    refine hread.then fun existing t hC hexisting => ?_
    have hrefuse : ∃ r ∈ existing, r ≠ c.row := ⟨row, hexisting, hne⟩
    exact (settles_refuse (R := fun _ _ => False) hC fun hnot => hnot hrefuse).then
      fun _ _ _ hfalse => hfalse.elim
  exact hcheck.then fun _ _ _ hfalse => hfalse.elim

theorem rowOf_of_mem (hnodup : (rows.map StepRow.stepId).Nodup) {row : StepRow} (h : row ∈ rows) :
    rowOf rows row.stepId = some row := by
  induction rows with
  | nil => cases h
  | cons first rows ih =>
    rw [List.map_cons, List.nodup_cons] at hnodup
    rw [rowOf_cons]
    rcases List.mem_cons.1 h with rfl | h
    · exact if_pos rfl
    · have hne : first.stepId ≠ row.stepId := fun heq => by
        rw [heq] at hnodup
        exact hnodup.1 (List.mem_map_of_mem h)
      rw [if_neg hne]
      exact ih hnodup.2 h

theorem Recorded.all_succeeded (h : Recorded c s) (hc : c.Valid) :
    (s.rows.all fun row => row.phase = .succeeded) = true ↔
      ∀ step ∈ c.steps, Done s.rows step.id := by
  have hnodup : (s.rows.map StepRow.stepId).Nodup := by rwa [h.rows]
  rw [List.all_eq_true]
  refine ⟨fun hall step hstep => ?_, fun hdone row hrow => ?_⟩
  · obtain ⟨row, hrow⟩ := Option.isSome_iff_exists.1 (rowOf_isSome.2
      (h.rows ▸ List.mem_map_of_mem hstep : step.id ∈ s.rows.map StepRow.stepId))
    exact ⟨row, hrow, of_decide_eq_true (hall row (List.mem_of_find?_eq_some hrow))⟩
  · have hid : row.stepId ∈ c.steps.map StepOf.id := h.rows ▸ List.mem_map_of_mem hrow
    obtain ⟨step, hstep, hid⟩ := List.mem_map.1 hid
    obtain ⟨row', hrow', hphase⟩ := hdone step hstep
    rw [hid, rowOf_of_mem hnodup hrow] at hrow'
    cases hrow'
    exact decide_eq_true hphase

theorem Recorded.achieved (h : Recorded c s) (hstep : step ∈ c.steps)
    (hdone : Done s.rows step.id) :
    ∃ row a, rowOf s.rows step.id = some row ∧ a ∈ s.actions ∧ row.actionId = some a.id ∧
      a.Achieves c step := by
  obtain ⟨row, hrow, hphase⟩ := hdone
  obtain ⟨a, ha, hid, hachieves⟩ := h.succeeded step hstep row hrow hphase
  exact ⟨row, a, hrow, ha, hid, hachieves⟩

/-- Wherever the calls were interrupted, a request has one action at most. Of the run that is
recorded, a step is requested after those it depends on, one that is done has its action, and a call
with another name, definition or mission only fails. A call reports success if its steps are
done. -/
theorem workflow_resumes (hD : Definitions D) (hbooked : Booked s) (hfresh : Fresh s)
    (h : Resumed D s t) :
    (t.actions.map Action.requestId).Nodup ∧
    ((t.run = none ∧ ∀ d, RequestId.action d ∉ t.requested) ∨
      ∃ c : Call, c.steps ∈ D ∧ t.run = some c.row ∧
        (∀ step ∈ c.steps,
          (RequestId.action step.id ∈ t.requested → ∀ d ∈ step.after, Done t.rows d) ∧
          (Done t.rows step.id → ∃ row a, rowOf t.rows step.id = some row ∧ a ∈ t.actions ∧
            row.actionId = some a.id ∧ a.Achieves c step)) ∧
        ∀ c' : Call, c'.steps ∈ D → c' ≠ c →
          Prog.Settles act (Unchanged t) (fun _ => True) (run c') (fun _ _ => False) t) ∧
    ∀ c : Call, c.steps ∈ D →
      Prog.Settles act (fun _ => True) (fun _ => True) (run c) (fun report u =>
        report.succeeded = true ↔ ∀ step ∈ c.steps, Done u.rows step.id) t := by
  have hresumable := h.resumable hD ⟨hbooked, .inl hfresh⟩
  refine ⟨hresumable.1.nodup, ?_, fun c hc => ?_⟩
  · obtain ⟨-, hfresh | ⟨c, hc, hrecorded⟩⟩ := hresumable
    · exact .inl ⟨hfresh.run, hfresh.requested⟩
    · refine .inr ⟨c, hc, hrecorded.run, fun step hstep =>
        ⟨hrecorded.requested step hstep, hrecorded.achieved hstep⟩, fun c' hc' hne => ?_⟩
      exact settles_refused hrecorded.run fun hrow => hne (hD.eq hc hc' hrow.symm)
  · refine ((settles_run hD hc hresumable).weaken fun _ _ => trivial).mono
      fun report u _ ⟨_, hkept, _, hsucceeded⟩ => ?_
    rw [hsucceeded]
    exact hkept.1.all_succeeded (hD.nodup _ hc)

end runs

namespace Sample

instance library : Library where
  Parameters := List (String × String)
  Value := String
  stored parameters := parameters
  readObject _ := none
  fingerprint steps := steps.foldl (fun text step =>
    text ++ step.id ++ "/" ++ step.runbook ++ ";") ""

def control : Step :=
  ⟨"control", "local.health.v1", [], [], []⟩

def vault : Step :=
  ⟨"vault", "local.service-status.v1", [("service", "openbao.service")], ["control"], []⟩

def missionId : String :=
  "e5f6b4a0-5c35-4d5e-9d0e-2b1f0f6c7a11"

def readiness : Call :=
  ⟨"local-readiness", [control, vault], missionId⟩

/-- Two steps of one identifier. -/
def repeated : Call :=
  ⟨"local-readiness", [control, { vault with id := "control", after := [] }], missionId⟩

def empty : State :=
  ⟨none, [], [], []⟩

/-- An operation, and the action it makes if it makes one, that succeeds at once. -/
def choice (outcome : Outcome) (actionId : String) : Choice where
  outcome := outcome
  progress a := (a.status, a.result)
  mission := ⟨"infra-shared", "active"⟩
  registry := [("local.health.v1", "A"), ("local.service-status.v1", "A")]
  actionId := actionId
  status := .succeeded
  result := some ⟨some 0, false, false, ""⟩

theorem empty_booked : Booked empty :=
  ⟨List.nodup_nil, fun _ ha => by cases ha⟩

theorem empty_fresh : Fresh empty :=
  ⟨rfl, rfl, fun _ hd => by cases hd⟩

/-- One of two steps of one identifier is passed over. -/
theorem repeated_step_passed_over : ∃ t : State, Booked empty ∧ Fresh empty ∧
    Resumed {repeated.steps} empty t ∧ t.run = some repeated.row ∧
    ∃ step ∈ repeated.steps, Done t.rows step.id ∧ ∀ a ∈ t.actions, a.runbookId ≠ step.runbook := by
  have hplay : (Prog.play act (run repeated) (List.replicate 20 (choice .done "1")) empty).any
      fun r => r.2.run = some repeated.row ∧ ∃ step ∈ repeated.steps, Done r.2.rows step.id ∧
        ∀ a ∈ r.2.actions, a.runbookId ≠ step.runbook := by
    decide +kernel
  obtain ⟨⟨r, t⟩, hplay, hend⟩ := (Option.any_eq_true _ _).1 hplay
  exact ⟨t, empty_booked, empty_fresh, .call repeated rfl .start
    (Prog.reaches_of_finishes (Prog.finishes_of_play hplay)), of_decide_eq_true hend⟩

/-- A call that is interrupted when its first action was made, and one that resumes it. -/
theorem readiness_resumes : ∃ t : State, Resumed {readiness.steps} empty t ∧
    (∀ step ∈ readiness.steps, Done t.rows step.id) ∧
    (t.actions.map Action.requestId).Nodup ∧
    ((t.run = none ∧ ∀ d, RequestId.action d ∉ t.requested) ∨
      ∃ c : Call, c.steps ∈ ({readiness.steps} : Set (List Step)) ∧ t.run = some c.row ∧
        (∀ step ∈ c.steps,
          (RequestId.action step.id ∈ t.requested → ∀ d ∈ step.after, Done t.rows d) ∧
          (Done t.rows step.id → ∃ row a, rowOf t.rows step.id = some row ∧ a ∈ t.actions ∧
            row.actionId = some a.id ∧ a.Achieves c step)) ∧
        ∀ c' : Call, c'.steps ∈ ({readiness.steps} : Set (List Step)) → c' ≠ c →
          Prog.Settles act (Unchanged t) (fun _ => True) (run c') (fun _ _ => False) t) ∧
    ∀ c : Call, c.steps ∈ ({readiness.steps} : Set (List Step)) →
      Prog.Settles act (fun _ => True) (fun _ => True) (run c) (fun report u =>
        report.succeeded = true ↔ ∀ step ∈ c.steps, Done u.rows step.id) t := by
  have hplay : (Prog.play act (run readiness)
      (List.replicate 7 (choice .done "1") ++ [choice .late "1"]) empty).any fun r =>
      (Prog.play act (run readiness)
        (List.replicate 10 (choice .done "2") ++ List.replicate 6 (choice .done "3")) r.2).any
        fun r' => ∀ step ∈ readiness.steps, Done r'.2.rows step.id := by
    decide +kernel
  obtain ⟨⟨r, t⟩, hplay, hthen⟩ := (Option.any_eq_true _ _).1 hplay
  obtain ⟨⟨r', u⟩, hplay', hdone⟩ := (Option.any_eq_true _ _).1 hthen
  have hresumed : Resumed {readiness.steps} empty u :=
    .call readiness rfl (.call readiness rfl .start
      (Prog.reaches_of_finishes (Prog.finishes_of_play hplay)))
      (Prog.reaches_of_finishes (Prog.finishes_of_play hplay'))
  have hdefinitions : Definitions ({readiness.steps} : Set (List Step)) :=
    ⟨fun steps hsteps => by rw [Set.mem_singleton_iff.1 hsteps]; decide, Set.injOn_singleton _ _⟩
  exact ⟨u, hresumed, of_decide_eq_true hdone,
    workflow_resumes hdefinitions empty_booked empty_fresh hresumed⟩

end Sample

end OpsWorkflow
