import OpsControlPlane.Safety.WorkQueues

/-!
# Counters of model traces

A mission counts its iterations and its API calls in its row of the queue, and keeps one row
for each model trace. `TracesOk` says that the counters are the numbers of these rows; every
commit keeps it. A trace is added below the limit of iterations, and below the limit of API
calls if its model is remote, so that no counter passes the greatest limit that the mission
ever had (`trace_counters`). A local trace does not look at the limit of API calls.
-/

namespace OpsControlPlane

open JsonText Calendar Transaction Calls

variable [Platform]

/-- The model was called over the network. -/
def TraceRow.remote (t : TraceRow) : Prop :=
  t.provider ∉ ["local", "ollama", "deterministic"]

instance (t : TraceRow) : Decidable t.remote :=
  inferInstanceAs (Decidable (_ ∉ _))

structure Counted (traces : List TraceRow) (r : RuntimeRow) : Prop where
  iterations : r.iterationCount = (traces.countP fun t => t.missionId = r.missionId : ℕ)
  apiCalls : r.apiCallCount =
    (traces.countP fun t => t.missionId = r.missionId ∧ t.remote : ℕ)

/-- The counters are right, and every trace belongs to a mission of the queue. -/
structure TracesOk (s : MissionTables) : Prop where
  counted : ∀ r ∈ s.runtime, Counted s.traces r
  owned : ∀ t ∈ s.traces, ∃ r ∈ s.runtime, r.missionId = t.missionId

namespace TracesOk

variable {s s' : MissionTables}

theorem rewrite (h : TracesOk s) {missions : List MissionRow} {p : RuntimeRow → Bool}
    {f : RuntimeRow → RuntimeRow} {locks : List LockRow}
    (hf : ∀ r, (f r).missionId = r.missionId ∧ (f r).iterationCount = r.iterationCount ∧
      (f r).apiCallCount = r.apiCallCount) :
    TracesOk ⟨missions, update p f s.runtime, locks, s.traces⟩ where
  counted r hr := by
    obtain ⟨q, hq, rfl⟩ := mem_update.1 hr
    split_ifs
    · obtain ⟨hid, hiter, hapi⟩ := hf q
      have hc := h.counted q hq
      exact ⟨by rw [hid, hiter]; exact hc.iterations, by rw [hid, hapi]; exact hc.apiCalls⟩
    · exact h.counted q hq
  owned t ht := by
    obtain ⟨r, hr, hid⟩ := h.owned t ht
    refine ⟨_, mem_update.2 ⟨r, hr, rfl⟩, ?_⟩
    split_ifs
    · exact (hf r).1.trans hid
    · exact hid

theorem counted_default {traces : List TraceRow} {id now : String}
    (h : ∀ t ∈ traces, t.missionId ≠ id) : Counted traces (defaultRuntime id now) := by
  have hzero : ∀ p : TraceRow → Bool, (∀ t, p t = true → t.missionId = id) →
      traces.countP p = 0 := by
    intro p hp
    exact List.countP_eq_zero.2 fun t ht hpt => h t ht (hp t hpt)
  have hid : (defaultRuntime id now).missionId = id := rfl
  constructor
  · rw [hid, hzero _ fun t ht => of_decide_eq_true ht]
    rfl
  · rw [hid, hzero _ fun t ht => (of_decide_eq_true ht).1]
    rfl

theorem create (h : TracesOk s) (hm : MissionsOk s) {a : NewMission}
    (hid : row MissionRow.id a.id s.missions = none) :
    TracesOk { s with
      missions := s.missions ++ [a.row]
      runtime := insertRuntime a.row s.runtime } := by
  have hfresh : ∀ r ∈ s.runtime, r.missionId ≠ a.id := by
    intro r hr heq
    have hmem : r.missionId ∈ s.missions.map MissionRow.id := by
      rw [← hm.ids]
      exact List.mem_map_of_mem hr
    obtain ⟨m, hmem, hmid⟩ := List.mem_map.1 hmem
    exact row_eq_none.1 hid m hmem (hmid.trans heq)
  have hins : insertRuntime a.row s.runtime =
      s.runtime ++ [defaultRuntime a.id (isoformat a.now)] := by
    simp [insertRuntime, NewMission.row, row_eq_none.2 hfresh]
  rw [hins]
  constructor
  · intro r hr
    rcases List.mem_append.1 hr with hr | hr
    · exact h.counted r hr
    · obtain rfl := List.mem_singleton.1 hr
      refine counted_default fun t ht heq => ?_
      obtain ⟨r, hr, hrid⟩ := h.owned t ht
      exact hfresh r hr (hrid.trans heq)
  · intro t ht
    obtain ⟨r, hr, hrid⟩ := h.owned t ht
    exact ⟨r, List.mem_append_left _ hr, hrid⟩

theorem trace (h : TracesOk s) {a : NewTrace} {v : MissionView} (hv : s.Has a.missionId v) :
    TracesOk { s.updateRuntime a.missionId a.apply with traces := s.traces ++ [a.row] } := by
  constructor
  · intro r hr
    obtain ⟨q, hq, rfl⟩ := mem_update.1 hr
    have hc := h.counted q hq
    by_cases hid : q.missionId = a.missionId
    · rw [if_pos (decide_eq_true hid)]
      constructor
      · rw [List.countP_append, List.countP_singleton, if_pos (by simp [NewTrace.row,
          NewTrace.apply, hid])]
        simp [NewTrace.apply, hc.iterations]
      · have hrow : a.row.remote ↔ a.remote := Iff.rfl
        have hmid : a.row.missionId = a.missionId := rfl
        rw [List.countP_append, List.countP_singleton]
        by_cases hrem : a.remote <;> simp [NewTrace.apply, hc.apiCalls, hrow, hrem, hid, hmid]
    · rw [if_neg (by simpa using hid)]
      have hne : a.row.missionId ≠ q.missionId := fun heq => hid heq.symm
      constructor
      · rw [List.countP_append, List.countP_singleton, if_neg (by simpa using hne)]
        simpa using hc.iterations
      · rw [List.countP_append, List.countP_singleton, if_neg (by simp [hne])]
        simpa using hc.apiCalls
  · intro t ht
    have hkeep : ∀ r ∈ s.runtime, ∃ q ∈ update (fun r => r.missionId = a.missionId) a.apply
        s.runtime, q.missionId = r.missionId := by
      intro r hr
      refine ⟨_, mem_update.2 ⟨r, hr, rfl⟩, ?_⟩
      split_ifs <;> rfl
    rcases List.mem_append.1 ht with ht | ht
    · obtain ⟨r, hr, hid⟩ := h.owned t ht
      obtain ⟨q, hq, hqid⟩ := hkeep r hr
      exact ⟨q, hq, hqid.trans hid⟩
    · obtain rfl := List.mem_singleton.1 ht
      obtain ⟨q, hq, hqid⟩ := hkeep _ (row_some hv.runtime).1
      exact ⟨q, hq, hqid.trans (row_some hv.runtime).2⟩

/-- Every commit keeps the counters right. -/
theorem step {t : Tx} (h : TracesOk s) (hm : MissionsOk s) (hs : MissionStep s t s') :
    TracesOk s' := by
  have hsame : ∀ (missions : List MissionRow) (locks : List LockRow),
      TracesOk ⟨missions, s.runtime, locks, s.traces⟩ := fun _ _ => ⟨h.counted, h.owned⟩
  cases hs with
  | keep => exact h
  | create a hid => exact h.create hm hid
  | status => exact h.rewrite fun _ => ⟨rfl, rfl, rfl⟩
  | context a p => exact h.rewrite (f := p.apply (isoformat a.now)) fun _ => ⟨rfl, rfl, rfl⟩
  | checkpoint a => exact h.rewrite (f := a.apply) fun _ => ⟨rfl, rfl, rfl⟩
  | claim a => exact h.rewrite (f := a.claim) fun _ => ⟨rfl, rfl, rfl⟩
  | heartbeat a v leaseUntil =>
    exact h.rewrite (f := a.beat leaseUntil) fun _ => ⟨rfl, rfl, rfl⟩
  | release a v => exact h.rewrite fun _ => ⟨rfl, rfl, rfl⟩
  | acquire => exact hsame _ _
  | renew => exact hsame _ _
  | unlock => exact hsame _ _
  | trace a v hv => exact h.trace hv
  | recover actorId now => exact h.rewrite fun _ => ⟨rfl, rfl, rfl⟩

end TracesOk

/-- Where the counters of a row come from: they are those of a new row, or those of the row
before, or were below its limits. -/
theorem MissionStep.counters {s s' : MissionTables} {t : Tx} (hm : MissionsOk s)
    (hs : MissionStep s t s') {r : RuntimeRow} (hr : r ∈ s'.runtime) :
    (∃ id now, r = defaultRuntime id now) ∨ ∃ q ∈ s.runtime, q.missionId = r.missionId ∧
      (r.iterationCount = q.iterationCount ∨ r.iterationCount ≤ q.maxIterations) ∧
      (r.apiCallCount = q.apiCallCount ∨ r.apiCallCount ≤ q.maxApiCalls) := by
  have hsame : r ∈ s.runtime → ∃ q ∈ s.runtime, q.missionId = r.missionId ∧
      (r.iterationCount = q.iterationCount ∨ r.iterationCount ≤ q.maxIterations) ∧
      (r.apiCallCount = q.apiCallCount ∨ r.apiCallCount ≤ q.maxApiCalls) :=
    fun h => ⟨r, h, rfl, Or.inl rfl, Or.inl rfl⟩
  have hupd : ∀ {p : RuntimeRow → Bool} {f : RuntimeRow → RuntimeRow},
      r ∈ update p f s.runtime → (∀ q, (f q).missionId = q.missionId ∧
        (f q).iterationCount = q.iterationCount ∧ (f q).apiCallCount = q.apiCallCount) →
      ∃ q ∈ s.runtime, q.missionId = r.missionId ∧
        (r.iterationCount = q.iterationCount ∨ r.iterationCount ≤ q.maxIterations) ∧
        (r.apiCallCount = q.apiCallCount ∨ r.apiCallCount ≤ q.maxApiCalls) := by
    rintro p f hmem hf
    obtain ⟨q, hq, rfl⟩ := mem_update.1 hmem
    split_ifs
    · exact ⟨q, hq, (hf q).1.symm, Or.inl (hf q).2.1, Or.inl (hf q).2.2⟩
    · exact ⟨q, hq, rfl, Or.inl rfl, Or.inl rfl⟩
  cases hs with
  | keep => exact Or.inr (hsame hr)
  | create a =>
    simp only [insertRuntime] at hr
    split_ifs at hr
    · exact Or.inr (hsame hr)
    · rcases List.mem_append.1 hr with hr | hr
      · exact Or.inr (hsame hr)
      · exact Or.inl ⟨_, _, List.mem_singleton.1 hr⟩
  | status => exact Or.inr (hupd hr fun _ => ⟨rfl, rfl, rfl⟩)
  | context => exact Or.inr (hupd hr fun _ => ⟨rfl, rfl, rfl⟩)
  | checkpoint => exact Or.inr (hupd hr fun _ => ⟨rfl, rfl, rfl⟩)
  | claim => exact Or.inr (hupd hr fun _ => ⟨rfl, rfl, rfl⟩)
  | heartbeat => exact Or.inr (hupd hr fun _ => ⟨rfl, rfl, rfl⟩)
  | release => exact Or.inr (hupd hr fun _ => ⟨rfl, rfl, rfl⟩)
  | acquire => exact Or.inr (hsame hr)
  | renew => exact Or.inr (hsame hr)
  | unlock => exact Or.inr (hsame hr)
  | trace a v hv hiter hcalls =>
    obtain ⟨q, hq, rfl⟩ := mem_update.1 hr
    by_cases hid : q.missionId = a.missionId
    · obtain rfl := hm.has_runtime hv hq hid
      rw [if_pos (decide_eq_true hid)]
      refine Or.inr ⟨_, hq, rfl, Or.inr (Int.add_one_le_of_lt hiter), ?_⟩
      by_cases hrem : a.remote
      · refine Or.inr ?_
        simp only [NewTrace.apply, if_pos hrem]
        exact Int.add_one_le_of_lt (hcalls hrem)
      · exact Or.inl (by simp [NewTrace.apply, hrem])
    · rw [if_neg (by simpa using hid)]
      exact Or.inr ⟨q, hq, rfl, Or.inl rfl, Or.inl rfl⟩
  | recover => exact Or.inr (hupd hr fun _ => ⟨rfl, rfl, rfl⟩)

theorem MissionStep.below {s s' : MissionTables} {t : Tx} (hs : MissionStep s t s')
    {w : TraceRow} (hw : w ∈ s'.traces) (hnew : w ∉ s.traces) :
    ∃ r ∈ s.runtime, r.missionId = w.missionId ∧ r.iterationCount < r.maxIterations ∧
      (w.remote → r.apiCallCount < r.maxApiCalls) := by
  cases hs with
  | trace a v hv hiter hcalls =>
    rcases List.mem_append.1 hw with hw | hw
    · exact absurd hw hnew
    · obtain rfl := List.mem_singleton.1 hw
      exact ⟨v.runtime, (row_some hv.runtime).1, (row_some hv.runtime).2, hiter, hcalls⟩
  | _ => exact absurd hw hnew

theorem traces_carried (b : Broker) : Carried b (fun db => MissionsOk db.missionTables ∧
    TracesOk db.missionTables) fun _ _ => True where
  fresh := ⟨(missions_carried b).fresh, by simp [Db.missionTables, Db.fresh],
    by simp [Db.missionTables, Db.fresh]⟩
  refl _ := trivial
  trans _ _ _ _ _ := trivial
  step _ _ _ _ _ _ hK _ _ hcommit :=
    have hstep := Tx.missionStep hK.1.nodup hcommit
    ⟨⟨hK.1.step hstep, hK.2.step hK.1 hstep⟩, trivial⟩

section counters

variable {b : Broker} {ms : List (Moment (brokerSystem b))} {s : State (brokerSystem b)}

def Had (ms : List (Moment (brokerSystem b))) (s : State (brokerSystem b)) (r : RuntimeRow) :
    Prop :=
  r ∈ s.store.missionRuntime ∨ ∃ m ∈ ms, r ∈ m.before.store.missionRuntime

/-- No counter of the row passes the greatest limit that its mission had. -/
structure Bounded (ms : List (Moment (brokerSystem b))) (s : State (brokerSystem b))
    (r : RuntimeRow) : Prop where
  iterations : ∃ q, Had ms s q ∧ q.missionId = r.missionId ∧ r.iterationCount ≤ q.maxIterations
  apiCalls : ∃ q, Had ms s q ∧ q.missionId = r.missionId ∧ r.apiCallCount ≤ q.maxApiCalls

theorem Had.step {m : Moment (brokerSystem b)} {q : RuntimeRow} (h : Had ms m.before q) :
    Had (ms ++ [m]) m.after q := by
  rcases h with h | ⟨m', hm', h⟩
  · exact Or.inr ⟨m, by simp, h⟩
  · exact Or.inr ⟨m', by simp [hm'], h⟩

/-- Counters stay below a limit that the mission had. -/
theorem counters_bounded (hr : Run (freshState b) ms s) :
    ∀ r ∈ s.store.missionRuntime, Bounded ms s r := by
  induction hr with
  | start => simp [freshState, Db.fresh]
  | @step ms s s' m hr h ih =>
    have hrun := hr.step h
    rintro r hmem
    have hold : (∃ q ∈ s.store.missionRuntime, q.missionId = r.missionId ∧
        (r.iterationCount = q.iterationCount ∨ r.iterationCount ≤ q.maxIterations) ∧
        (r.apiCallCount = q.apiCallCount ∨ r.apiCallCount ≤ q.maxApiCalls)) →
        Bounded (ms ++ [⟨s, m, s'⟩]) s' r := by
      rintro ⟨q, hq, hid, hiter, hapi⟩
      have hhad : Had (ms ++ [⟨s, m, s'⟩]) s' q := Or.inr ⟨⟨s, m, s'⟩, by simp, hq⟩
      obtain ⟨⟨q₁, hq₁, hid₁, hle₁⟩, ⟨q₂, hq₂, hid₂, hle₂⟩⟩ := ih q hq
      constructor
      · rcases hiter with heq | hle
        · exact ⟨q₁, Had.step (m := ⟨s, m, s'⟩) hq₁, hid₁.trans hid, heq ▸ hle₁⟩
        · exact ⟨q, hhad, hid, hle⟩
      · rcases hapi with heq | hle
        · exact ⟨q₂, Had.step (m := ⟨s, m, s'⟩) hq₂, hid₂.trans hid, heq ▸ hle₂⟩
        · exact ⟨q, hhad, hid, hle⟩
    rcases commit_of_mem hrun (m := ⟨s, m, s'⟩) (by simp) with heq | ⟨c, t, a, x, hperf, hcommit⟩
    · have heq : s'.store = s.store := heq
      rw [heq] at hmem
      exact hold ⟨r, hmem, rfl, Or.inl rfl, Or.inl rfl⟩
    · have hok := ((missions_carried b).moment hrun (by simp) hperf).1
      rcases MissionStep.counters hok (Tx.missionStep hok.nodup hcommit) hmem with
        ⟨id, now, rfl⟩ | h
      · exact ⟨⟨_, Or.inl hmem, rfl, by simp [defaultRuntime]⟩,
          ⟨_, Or.inl hmem, rfl, by simp [defaultRuntime]⟩⟩
      · exact hold h

/-- The counters of a mission are the numbers of its traces and of its remote traces. A trace
is added below the limit of iterations, and below that of API calls if it is remote, and no
counter passes the greatest limit that the mission had. -/
theorem trace_counters (hr : Run (freshState b) ms s) :
    (∀ r ∈ s.store.missionRuntime, Counted s.store.modelTraces r) ∧
    (∀ m ∈ ms, ∀ w ∈ m.after.store.modelTraces, w ∉ m.before.store.modelTraces →
      ∃ r ∈ m.before.store.missionRuntime, r.missionId = w.missionId ∧
        r.iterationCount < r.maxIterations ∧ (w.remote → r.apiCallCount < r.maxApiCalls)) ∧
    ∀ r ∈ s.store.missionRuntime, Bounded ms s r := by
  refine ⟨((traces_carried b).run hr).1.2.counted, fun m hm w hw hnew => ?_,
    counters_bounded hr⟩
  rcases commit_of_mem hr hm with heq | ⟨c, t, a, x, hperf, hcommit⟩
  · rw [heq] at hw
    exact absurd hw hnew
  · have hok := ((missions_carried b).moment hr hm hperf).1
    exact (Tx.missionStep hok.nodup hcommit).below hw hnew

end counters

end OpsControlPlane

namespace OpsControlPlane.Sample

open Transaction Calls

/-- The mission may make no API call, and a local model works on it. -/
def localTrace : List (Move (brokerSystem broker)) :=
  opening ++
  .spawn (.updateMissionState ⟨"alice", uuid 2, mission, none, none, none, none, none, none,
    none, none, none, none, none, none, none, none, none, some 0, none⟩) :: goOn 1 2 110 200 ++
  .spawn (.recordModelTrace ⟨"alice", uuid 3, mission, "ROLE_TINY", "local", "m", "r",
    "succeeded", none, 0, 0, 0, none, none⟩) :: goOn 2 2 120 300

theorem local_trace : ∃ s ∈ reaches localTrace, ∃ s' ∈ s.step (.act 2 (choice 120 400)),
    s.store.modelTraces.length = 0 ∧ ∃ w ∈ s'.store.modelTraces,
      ∃ r ∈ s.store.missionRuntime, r.missionId = w.missionId ∧ r.maxApiCalls ≤ r.apiCallCount := by
  decide +kernel

/-- A run with a trace. -/
theorem trace_counters_sample : ∃ (ms : List (Moment (brokerSystem broker)))
    (s : State (brokerSystem broker)), Run (freshState broker) ms s ∧ s.store.modelTraces ≠ [] ∧
    ∀ r ∈ s.store.missionRuntime, Counted s.store.modelTraces r ∧ Bounded ms s r := by
  obtain ⟨ms, s, s', hr, -, w, hw, -⟩ := Run.of_exec_step local_trace
  obtain ⟨hcounted, -, hbounded⟩ := trace_counters hr
  exact ⟨_, s', hr, List.ne_nil_of_mem hw, fun r hmem => ⟨hcounted r hmem, hbounded r hmem⟩⟩

/-- A trace can be added when the counter of API calls is not below its limit. -/
theorem trace_at_limit : ∃ (ms : List (Moment (brokerSystem broker)))
    (s : State (brokerSystem broker)), Run (freshState broker) ms s ∧ ∃ m ∈ ms,
    ∃ w ∈ m.after.store.modelTraces, w ∉ m.before.store.modelTraces ∧
    ∃ r ∈ m.before.store.missionRuntime, r.missionId = w.missionId ∧
      ¬r.apiCallCount < r.maxApiCalls := by
  obtain ⟨ms, s, s', hr, hnone, w, hw, r, hmem, hid, hle⟩ := Run.of_exec_step local_trace
  refine ⟨_, s', hr, _, List.mem_append_right _ (List.mem_singleton_self _), w, hw, ?_, r, hmem,
    hid, hle.not_gt⟩
  rw [List.length_eq_zero_iff] at hnone
  exact hnone ▸ List.not_mem_nil

end OpsControlPlane.Sample
