import OpsControlPlane.Native.Worker

/-!
# Deliveries

A process of the worker may be interrupted between any two operations, and the next one starts
with the repair. `Guard` is what holds wherever it is interrupted: phases do not go back, so a
message is generated and delivered at most once, and an action is executed right after its
follow-up left the phase in which it waits.

`one_delivery` is what holds in every state of every history.
-/

namespace OpsNative

open Transaction Calls Prog

/-! ## What was asked -/

/-- The attempts that Hermes was asked for a job. -/
def explains (log : List Event) (sourceId : ℕ) : List Bool :=
  log.filterMap fun
    | .explain i advanced => if i = sourceId then some advanced else none
    | _ => none

/-- How often a response was sent for a job. -/
def sends (log : List Event) (sourceId : ℕ) : ℕ :=
  log.countP fun e => e = .sendJob sourceId

/-- How often a response was sent for a follow-up. -/
def followupSends (log : List Event) (actionId : String) : ℕ :=
  log.countP fun e => e = .sendFollowup actionId

def moves (log : List Event) (sourceId : ℕ) : List (Phase × Phase) :=
  log.filterMap fun
    | .jobPhase i before after => if i = sourceId then some (before, after) else none
    | _ => none

/-- The event changes the phase of the follow-up or executes its action. -/
def Event.concerns (actionId : String) : Event → Bool
  | .followupPhase i _ _ => i = actionId
  | .execute i => i = actionId
  | _ => false

/-- Each execution comes right after the follow-up stopped waiting for it. -/
def Preceded (actionId : String) (log : List Event) : Prop :=
  ∀ l l', log.filter (Event.concerns actionId) = l ++ .execute actionId :: l' →
    ∃ l₀, l = l₀ ++ [.followupPhase actionId .waiting .executing]

/-! ## Phases -/

/-- How far a job is: nothing asked, a generation begun, a delivery begun. -/
def Phase.rank : Phase → ℕ
  | .received | .prepared => 0
  | .generating | .ready => 1
  | .sending | .delivered | .needsReview => 2

def Phase.final (p : Phase) : Prop :=
  p = .delivered ∨ p = .needsReview

instance (p : Phase) : Decidable p.final :=
  inferInstanceAs (Decidable (_ ∨ _))

def FollowupPhase.rank : FollowupPhase → ℕ
  | .waiting | .executing | .ready => 0
  | .sending | .delivered | .needsReview => 1

theorem FollowupPhase.rank_le (p : FollowupPhase) : p.rank ≤ 1 := by
  cases p <;> decide

structure Asked (rank : ℕ) (l : List Bool) (n : ℕ) : Prop where
  attempts : l <+: [false, true]
  unasked : rank = 0 → l = []
  once : n ≤ 1
  unsent : rank ≤ 1 → n = 0

theorem Asked.mono {n m k : ℕ} {l : List Bool} (h : Asked n l k) (hnm : n ≤ m) : Asked m l k :=
  ⟨h.attempts, fun hm => h.unasked (by omega), h.once, fun hm => h.unsent (by omega)⟩

/-- A job that was over at any moment stays as it was: no later change takes it elsewhere, and
the phase that it is in now is that one. -/
structure Lasting (l : List (Phase × Phase)) (now : Option Phase) : Prop where
  kept : ∀ m ∈ l, m.1.final → m.2 = m.1
  stays : l.Pairwise fun m m' => m.2.final → m'.2 = m.2
  ended : ∀ m ∈ l, m.2.final → now = some m.2

/-- A job that is being treated has a mission, and a response when it is ready. -/
structure Job.Sound (j : Job) : Prop where
  mission : j.missionId = none → j.phase = .received ∨ j.phase.final
  response : j.phase = .ready → j.response ≠ none

def Store.jobRank (s : Store) (sourceId : ℕ) : ℕ :=
  ((s.job sourceId).map fun j => j.phase.rank).getD 0

def Store.jobPhase (s : Store) (sourceId : ℕ) : Option Phase :=
  (s.job sourceId).map Job.phase

def Store.followupRank (s : Store) (actionId : String) : ℕ :=
  ((s.followup actionId).map fun f => f.phase.rank).getD 0

structure Fine (s : Store) : Prop where
  jobsNodup : (s.jobs.map Job.sourceId).Nodup
  followupsNodup : (s.followups.map Followup.actionId).Nodup
  asked : ∀ i, Asked (s.jobRank i) (explains s.log i) (sends s.log i)
  answered : ∀ a, followupSends s.log a ≤ 1 ∧ (s.followupRank a = 0 → followupSends s.log a = 0)
  executed : ∀ a, Preceded a s.log
  lasting : ∀ i, Lasting (moves s.log i) (s.jobPhase i)
  sound : ∀ i j, s.job i = some j → j.Sound

theorem fine_empty : Fine .empty := by
  refine ⟨List.nodup_nil, List.nodup_nil, fun i => ?_, fun a => ?_, fun a l l' h => ?_,
    fun i => ⟨fun m hm => (by cases hm), List.Pairwise.nil, fun m hm => (by cases hm)⟩,
    fun i j h => by cases h⟩
  · exact ⟨List.nil_prefix, fun _ => rfl, Nat.zero_le 1, fun _ => rfl⟩
  · exact ⟨Nat.zero_le 1, fun _ => rfl⟩
  · simp [Store.empty] at h

/-- A job that was there is still there, and in the same phase if it was over. -/
def Keeps (s t : Store) : Prop :=
  ∀ i j, s.job i = some j → ∃ j', t.job i = some j' ∧ (j.phase.final → j'.phase = j.phase)

theorem Keeps.refl (s : Store) : Keeps s s :=
  fun _ j hj => ⟨j, hj, fun _ => rfl⟩

theorem Keeps.trans {s t u : Store} (h : Keeps s t) (h' : Keeps t u) : Keeps s u := by
  intro i j hj
  obtain ⟨j', hj', hphase⟩ := h i j hj
  obtain ⟨j'', hj'', hphase'⟩ := h' i j' hj'
  refine ⟨j'', hj'', fun hfinal => ?_⟩
  have hsame := hphase hfinal
  rw [hphase' (by rw [hsame]; exact hfinal), hsame]

/-- What holds wherever the process may be interrupted, while it still has to take up some jobs
and follow-ups as it has read them. -/
structure Guard (s₀ : Store) (js : List Job) (fs : List Followup) (s : Store) : Prop where
  fine : Fine s
  keeps : Keeps s₀ s
  jobs : ∀ j ∈ js, s.job j.sourceId = some j
  followups : ∀ f ∈ fs, s.followup f.actionId = some f

/-! ## Events -/

@[simp] theorem explains_append (l l' : List Event) (i : ℕ) :
    explains (l ++ l') i = explains l i ++ explains l' i :=
  List.filterMap_append

@[simp] theorem sends_append (l l' : List Event) (i : ℕ) :
    sends (l ++ l') i = sends l i + sends l' i :=
  List.countP_append

@[simp] theorem followupSends_append (l l' : List Event) (a : String) :
    followupSends (l ++ l') a = followupSends l a + followupSends l' a :=
  List.countP_append

@[simp] theorem moves_append (l l' : List Event) (i : ℕ) :
    moves (l ++ l') i = moves l i ++ moves l' i :=
  List.filterMap_append

theorem mem_moves {l : List Event} {i : ℕ} {m : Phase × Phase} (h : m ∈ moves l i) :
    .jobPhase i m.1 m.2 ∈ l := by
  obtain ⟨e, he, hm⟩ := List.mem_filterMap.1 h
  cases e with
  | jobPhase sourceId before after =>
    obtain ⟨rfl, heq⟩ := Option.ite_none_right_eq_some.1 hm
    obtain rfl := Option.some.inj heq
    exact he
  | _ => cases hm

/-- An event that asks Hermes nothing and sends nothing. -/
def Event.quiet : Event → Prop
  | .explain _ _ | .sendJob _ | .sendFollowup _ | .execute _ => False
  | _ => True

variable {l log : List Event}

theorem explains_quiet (h : ∀ e ∈ l, e.quiet) (i : ℕ) : explains l i = [] := by
  refine List.filterMap_eq_nil_iff.2 fun e he => ?_
  have hquiet := h e he
  cases e <;> first | exact hquiet.elim | rfl

theorem sends_quiet (h : ∀ e ∈ l, e.quiet) (i : ℕ) : sends l i = 0 := by
  refine List.countP_eq_zero.2 fun e he heq => ?_
  obtain rfl := of_decide_eq_true heq
  exact h _ he

theorem followupSends_quiet (h : ∀ e ∈ l, e.quiet) (a : String) : followupSends l a = 0 := by
  refine List.countP_eq_zero.2 fun e he heq => ?_
  obtain rfl := of_decide_eq_true heq
  exact h _ he

variable {a : String}

theorem Preceded.append (h : Preceded a log) (hl : .execute a ∉ l) : Preceded a (log ++ l) := by
  intro l₁ l₂ heq
  rw [List.filter_append] at heq
  have hno : .execute a ∉ l.filter (Event.concerns a) := fun hmem => hl (List.mem_filter.1 hmem).1
  rcases List.append_eq_append_iff.1 heq with ⟨m, -, hm⟩ | ⟨m, hm, hrest⟩
  · refine absurd ?_ hno
    rw [hm]
    exact List.mem_append_right _ List.mem_cons_self
  · cases m with
    | nil =>
      refine absurd ?_ hno
      have hhead : .execute a :: l₂ = l.filter (Event.concerns a) := hrest
      rw [← hhead]
      exact List.mem_cons_self
    | cons e m =>
      obtain ⟨rfl, -⟩ := List.cons.inj hrest
      exact h l₁ m hm

/-- An execution right after the follow-up stopped waiting. -/
theorem Preceded.execute (h : Preceded a log)
    (hlast : log.filter (Event.concerns a) = l ++ [.followupPhase a .waiting .executing]) :
    Preceded a (log ++ [.execute a]) := by
  intro l₁ l₂ heq
  have hself : [Event.execute a].filter (Event.concerns a) = [.execute a] := by
    simp [Event.concerns]
  rw [List.filter_append, hself] at heq
  rcases List.eq_nil_or_concat l₂ with rfl | ⟨l₂, e, rfl⟩
  · obtain ⟨hl, -⟩ := List.append_inj' heq rfl
    exact ⟨l, hl.symm.trans hlast⟩
  · rw [List.concat_eq_append, ← List.cons_append, ← List.append_assoc] at heq
    exact h l₁ l₂ (List.append_inj' heq rfl).1

/-! ## Transactions -/

section transactions

variable {s₀ s s' : Store} {js : List Job} {fs : List Followup} {sourceId : ℕ} {row j : Job}

theorem set_spec (patch : JobPatch) (hn : (s.jobs.map Job.sourceId).Nodup)
    (hrow : s.job sourceId = some row) :
    let s' := s.updateJobs (fun j => j.sourceId = sourceId) patch.apply
    (∀ i, s'.job i = if i = sourceId then some (patch.apply row) else s.job i) ∧
      s'.log = s.log ++ [.jobPhase sourceId row.phase (patch.apply row).phase] ∧
      s'.followups = s.followups ∧ (s'.jobs.map Job.sourceId) = s.jobs.map Job.sourceId := by
  obtain ⟨hmem, rfl⟩ := row_some (show Transaction.row Job.sourceId sourceId s.jobs = _ from hrow)
  have hid : ∀ j : Job, (patch.apply j).sourceId = j.sourceId := fun _ => rfl
  refine ⟨fun i => ?_, ?_, rfl, map_update hid _⟩
  · change Transaction.row Job.sourceId i (update _ _ s.jobs) = _
    rw [row_update hid]
    split_ifs with hi
    · subst hi
      rw [show Transaction.row Job.sourceId row.sourceId s.jobs = some row from hrow,
        Option.map_some, if_pos (by simp)]
    · change _ = Transaction.row Job.sourceId i s.jobs
      cases hj : Transaction.row Job.sourceId i s.jobs with
      | none => rfl
      | some j =>
        rw [Option.map_some, if_neg (by simpa [(row_some hj).2] using hi)]
  · change s.log ++ _ = _
    rw [filter_key hn hmem]
    rfl

def Moves (p q : Phase) : Prop :=
  p.rank ≤ q.rank ∧ (p.final → q = p)

theorem Job.Sound.mission_ne {p : Phase} (h : j.Sound) (hphase : j.phase = p)
    (hp : p ≠ .received ∧ ¬ p.final) : j.missionId ≠ none := by
  intro hnone
  rw [← hphase] at hp
  exact (h.mission hnone).elim hp.1 hp.2

theorem sound_of_mission (hmission : j.missionId ≠ none)
    (hresponse : j.phase = .ready → j.response ≠ none) : j.Sound :=
  ⟨fun hnone => absurd hnone hmission, hresponse⟩

theorem sound_review (h : j.phase = .needsReview) : j.Sound :=
  ⟨fun _ => .inr (.inr h), fun hready => by rw [h] at hready; cases hready⟩

theorem moves_of_live {p q : Phase} (hp : ¬ p.final) (hrank : p.rank ≤ q.rank) : Moves p q :=
  ⟨hrank, fun hfinal => absurd hfinal hp⟩

variable {l : List Event}

theorem Guard.events (h : Guard s₀ js fs s)
    (hasked : ∀ i, Asked (s.jobRank i) (explains s.log i ++ explains l i)
      (sends s.log i + sends l i)) (hanswered : ∀ a, followupSends s.log a + followupSends l a ≤ 1 ∧
      (s.followupRank a = 0 → followupSends s.log a + followupSends l a = 0))
    (hexecuted : ∀ a, Preceded a (s.log ++ l)) (hmoves : ∀ i, moves l i = []) :
    Guard s₀ js fs { s with log := s.log ++ l } := by
  refine ⟨⟨h.fine.jobsNodup, h.fine.followupsNodup, fun i => ?_, fun a => ?_, hexecuted,
    fun i => ?_, h.fine.sound⟩, h.keeps, h.jobs, h.followups⟩
  · rw [explains_append, sends_append]
    exact hasked i
  · rw [followupSends_append]
    exact hanswered a
  · rw [moves_append, hmoves, List.append_nil]
    exact h.fine.lasting i

theorem Guard.note (h : Guard s₀ js fs s) (hl : ∀ e ∈ l, e.quiet) (hmoves : ∀ i, moves l i = []) :
    Guard s₀ js fs { s with log := s.log ++ l } := by
  refine h.events (fun i => ?_) (fun a => ?_)
    (fun a => (h.fine.executed a).append fun hmem => hl _ hmem) hmoves
  · rw [explains_quiet hl, sends_quiet hl, List.append_nil]
    exact h.fine.asked i
  · rw [followupSends_quiet hl]
    exact h.fine.answered a

/-- Jobs that move on stay as they are once they are over. -/
theorem Fine.lasting_update (h : Fine s) {p : Job → Bool} {f : Job → Job}
    (hjob : s'.job sourceId = (s.job sourceId).map fun j => if p j then f j else j)
    (hlog : s'.log = s.log ++ (s.jobs.filter p).map fun j =>
      Event.jobPhase j.sourceId j.phase (f j).phase)
    (hmoves : ∀ j ∈ s.jobs, p j → Moves j.phase (f j).phase) :
    Lasting (moves s'.log sourceId) (s'.jobPhase sourceId) := by
  have hold := h.lasting sourceId
  set l := (s.jobs.filter p).map fun j => Event.jobPhase j.sourceId j.phase (f j).phase with hl
  have hnew : ∀ m ∈ moves l sourceId, ∃ j, s.job sourceId = some j ∧ j ∈ s.jobs ∧
      p j = true ∧ m = (j.phase, (f j).phase) := by
    intro m hm
    obtain ⟨j, hj, heq⟩ := List.mem_map.1 (mem_moves hm)
    obtain ⟨hmem, hp⟩ := List.mem_filter.1 hj
    injection heq with hid hbefore hafter
    subst hid
    exact ⟨j, row_of_mem h.jobsNodup hmem, hmem, hp, Prod.ext hbefore.symm hafter.symm⟩
  have hnow : ∀ j, s.job sourceId = some j →
      s'.jobPhase sourceId = some (if p j then f j else j).phase := by
    intro j hj
    rw [Store.jobPhase, hjob, hj]
    rfl
  rw [hlog, moves_append]
  refine ⟨fun m hm hfinal => ?_, List.pairwise_append.2 ⟨hold.stays,
    List.pairwise_of_forall_mem_list fun m hm m' hm' _ => ?_, fun m hm m' hm' hfinal => ?_⟩,
    fun m hm hfinal => ?_⟩
  · rcases List.mem_append.1 hm with hm | hm
    · exact hold.kept m hm hfinal
    · obtain ⟨j, -, hmem, hp, rfl⟩ := hnew m hm
      exact (hmoves j hmem hp).2 hfinal
  · obtain ⟨j, hj, -, -, rfl⟩ := hnew m hm
    obtain ⟨j', hj', -, -, rfl⟩ := hnew m' hm'
    obtain rfl := Option.some.inj (hj.symm.trans hj')
    rfl
  · obtain ⟨j, hj, hmem, hp, rfl⟩ := hnew m' hm'
    have hphase : j.phase = m.2 := by
      have hended := hold.ended m hm hfinal
      rw [Store.jobPhase, hj] at hended
      exact Option.some.inj hended
    rw [← hphase]
    exact (hmoves j hmem hp).2 (by rw [hphase]; exact hfinal)
  · rcases List.mem_append.1 hm with hm | hm
    · obtain ⟨j, hj, hphase⟩ := Option.map_eq_some_iff.1 (hold.ended m hm hfinal)
      rw [hnow j hj]
      split_ifs with hp
      · rw [(hmoves j (row_some hj).1 hp).2 (by rw [hphase]; exact hfinal), hphase]
      · rw [hphase]
    · obtain ⟨j, hj, -, hp, rfl⟩ := hnew m hm
      rw [hnow j hj, if_pos hp]

theorem Guard.updateJobs (h : Guard s₀ js fs s) {p : Job → Bool} {f : Job → Job}
    (hf : ∀ j, (f j).sourceId = j.sourceId) (hjs : ∀ j ∈ js, ¬ p j)
    (hmoves : ∀ j ∈ s.jobs, p j → Moves j.phase (f j).phase)
    (hsound : ∀ j ∈ s.jobs, p j → j.Sound → (f j).Sound) :
    Guard s₀ js fs (s.updateJobs p f) := by
  set l := (s.jobs.filter p).map fun j => Event.jobPhase j.sourceId j.phase (f j).phase with hl
  have hquiet : ∀ e ∈ l, e.quiet := by
    intro e he
    obtain ⟨j, -, rfl⟩ := List.mem_map.1 he
    trivial
  have hasked : ∀ i, Asked (s.jobRank i) (explains (s.log ++ l) i) (sends (s.log ++ l) i) := by
    intro i
    rw [explains_append, sends_append, explains_quiet hquiet, sends_quiet hquiet, List.append_nil]
    exact h.fine.asked i
  have hjob : ∀ i, (s.updateJobs p f).job i =
      (s.job i).map fun j => if p j then f j else j := fun i => row_update hf i s.jobs
  have hrank : ∀ i, s.jobRank i ≤ (s.updateJobs p f).jobRank i := by
    intro i
    unfold Store.jobRank
    rw [hjob]
    cases hi : s.job i with
    | none => exact le_rfl
    | some j =>
      change j.phase.rank ≤ (if p j then f j else j).phase.rank
      split_ifs with hp
      · exact (hmoves j (row_some hi).1 hp).1
      · exact le_rfl
  refine ⟨⟨?_, h.fine.followupsNodup, fun i => (hasked i).mono (hrank i), fun a => ?_,
    fun a => (h.fine.executed a).append fun hmem => hquiet _ hmem,
    fun i => h.fine.lasting_update (hjob i) rfl hmoves, fun i j hj => ?_⟩,
    fun i j hj => ?_, fun j hj => ?_, h.followups⟩
  · have hids : (s.updateJobs p f).jobs.map Job.sourceId = s.jobs.map Job.sourceId :=
      map_update hf _
    rw [hids]
    exact h.fine.jobsNodup
  · change followupSends (s.log ++ l) a ≤ 1 ∧
      (s.followupRank a = 0 → followupSends (s.log ++ l) a = 0)
    rw [followupSends_append, followupSends_quiet hquiet]
    exact h.fine.answered a
  · rw [hjob] at hj
    obtain ⟨j₀, hj₀, rfl⟩ := Option.map_eq_some_iff.1 hj
    split_ifs with hp
    · exact hsound j₀ (row_some hj₀).1 hp (h.fine.sound i j₀ hj₀)
    · exact h.fine.sound i j₀ hj₀
  · obtain ⟨j', hj', hphase⟩ := h.keeps i j hj
    refine ⟨_, by rw [hjob, hj', Option.map_some], fun hfinal => ?_⟩
    have hsame := hphase hfinal
    split_ifs with hp
    · rw [(hmoves j' (row_some hj').1 hp).2 (by rw [hsame]; exact hfinal), hsame]
    · exact hsame
  · rw [hjob, h.jobs j hj, Option.map_some, if_neg (hjs j hj)]

theorem Guard.set (h : Guard s₀ js fs s) {patch : JobPatch} (hrow : s.job sourceId = some row)
    (hjs : ∀ j ∈ js, j.sourceId ≠ sourceId) (hmoves : Moves row.phase (patch.apply row).phase)
    (hsound : row.Sound → (patch.apply row).Sound) :
    Guard s₀ js fs (s.updateJobs (fun j => j.sourceId = sourceId) patch.apply) := by
  have hself : ∀ j ∈ s.jobs, decide (j.sourceId = sourceId) = true → j = row := by
    intro j hj hp
    obtain rfl : j.sourceId = sourceId := of_decide_eq_true hp
    exact Option.some.inj ((row_of_mem h.fine.jobsNodup hj).symm.trans hrow)
  refine h.updateJobs (fun _ => rfl) (fun j hj => by simpa using hjs j hj) (fun j hj hp => ?_)
    fun j hj hp => ?_
  · rw [hself j hj hp]
    exact hmoves
  · rw [hself j hj hp]
    exact hsound

variable {actionId : String}

theorem setApproval_spec (patch : FollowupPatch) {row : Followup}
    (hn : (s.followups.map Followup.actionId).Nodup) (hrow : s.followup actionId = some row) :
    let s' := s.updateFollowups (fun f => f.actionId = actionId) patch.apply
    (∀ a, s'.followup a = if a = actionId then some (patch.apply row) else s.followup a) ∧
      s'.log = s.log ++ [.followupPhase actionId row.phase patch.phase] ∧
      s'.jobs = s.jobs ∧
      (s'.followups.map Followup.actionId) = s.followups.map Followup.actionId := by
  obtain ⟨hmem, rfl⟩ :=
    row_some (show Transaction.row Followup.actionId actionId s.followups = _ from hrow)
  have hid : ∀ f : Followup, (patch.apply f).actionId = f.actionId := fun _ => rfl
  refine ⟨fun a => ?_, ?_, rfl, map_update hid _⟩
  · change Transaction.row Followup.actionId a (update _ _ s.followups) = _
    rw [row_update hid]
    split_ifs with ha
    · subst ha
      rw [show Transaction.row Followup.actionId row.actionId s.followups = some row from hrow,
        Option.map_some, if_pos (by simp)]
    · change _ = Transaction.row Followup.actionId a s.followups
      cases hf : Transaction.row Followup.actionId a s.followups with
      | none => rfl
      | some f =>
        rw [Option.map_some, if_neg (by simpa [(row_some hf).2] using ha)]
  · change s.log ++ _ = _
    rw [filter_key hn hmem]
    rfl

/-- Follow-ups that move on keep what holds. -/
theorem Guard.updateFollowups (h : Guard s₀ js fs s) {p : Followup → Bool}
    {g : Followup → Followup} (hg : ∀ f, (g f).actionId = f.actionId) (hfs : ∀ f ∈ fs, ¬ p f)
    (hrank : ∀ f ∈ s.followups, p f → f.phase.rank ≤ (g f).phase.rank) :
    Guard s₀ js fs (s.updateFollowups p g) := by
  set l := (s.followups.filter p).map fun f =>
    Event.followupPhase f.actionId f.phase (g f).phase with hl
  have hquiet : ∀ e ∈ l, e.quiet := by
    intro e he
    obtain ⟨f, -, rfl⟩ := List.mem_map.1 he
    trivial
  have hnoted := (h.note hquiet fun i => List.eq_nil_iff_forall_not_mem.2 fun m hm => by
    obtain ⟨f, -, heq⟩ := List.mem_map.1 (mem_moves hm)
    cases heq).fine
  have hfollowup : ∀ a, (s.updateFollowups p g).followup a =
      (s.followup a).map fun f => if p f then g f else f := fun a =>
    row_update hg a s.followups
  refine ⟨⟨h.fine.jobsNodup, ?_, hnoted.asked, fun a => ?_, hnoted.executed, hnoted.lasting,
    h.fine.sound⟩, h.keeps, h.jobs, fun f hf => ?_⟩
  · have hids : (s.updateFollowups p g).followups.map Followup.actionId =
        s.followups.map Followup.actionId := map_update hg _
    rw [hids]
    exact h.fine.followupsNodup
  · refine ⟨(hnoted.answered a).1, fun hzero => (hnoted.answered a).2 ?_⟩
    change s.followupRank a = 0
    unfold Store.followupRank at hzero ⊢
    rw [hfollowup] at hzero
    cases ha : s.followup a with
    | none => rfl
    | some f =>
      rw [ha] at hzero
      have hzero' : (if p f then g f else f).phase.rank = 0 := hzero
      change f.phase.rank = 0
      split_ifs at hzero' with hp
      · have := hrank f (row_some ha).1 hp
        omega
      · exact hzero'
  · rw [hfollowup, h.followups f hf, Option.map_some, if_neg (hfs f hf)]

/-- A follow-up that moves on keeps what holds. -/
theorem Guard.setApproval (h : Guard s₀ js fs s) (patch : FollowupPatch) {row : Followup}
    (hrow : s.followup actionId = some row) (hfs : ∀ f ∈ fs, f.actionId ≠ actionId)
    (hrank : row.phase.rank ≤ patch.phase.rank) :
    Guard s₀ js fs (s.updateFollowups (fun f => f.actionId = actionId) patch.apply) := by
  refine h.updateFollowups (fun _ => rfl) (fun f hf => by simpa using hfs f hf) fun f hf hp => ?_
  obtain rfl : f.actionId = actionId := of_decide_eq_true hp
  have hself : s.followup f.actionId = some f := row_of_mem h.fine.followupsNodup hf
  obtain rfl := Option.some.inj (hself.symm.trans hrow)
  exact hrank

theorem Guard.repair (h : Guard s₀ [] [] s) : Guard s₀ [] [] s.repair := by
  have hfollowups := h.updateFollowups (p := fun f => f.phase = .executing ∨ f.phase = .sending)
    (g := fun f => { f with phase := .needsReview }) (fun _ => rfl) (by simp)
    fun f _ _ => f.phase.rank_le
  refine hfollowups.updateJobs (fun _ => rfl) (by simp) (fun j _ hp => ?_)
    fun _ _ _ _ => sound_review rfl
  have hphase : j.phase = .generating := of_decide_eq_true hp
  change Moves j.phase .needsReview
  rw [hphase]
  exact moves_of_live (by decide) (by decide)

/-- A follow-up that is new keeps what holds. -/
theorem Guard.watch (h : Guard s₀ js fs s) {r : Unit}
    (hrun : watchApproval sourceId actionId s = .ok (r, s')) :
    Guard s₀ js fs s' ∧ s'.jobs = s.jobs ∧ s'.log = s.log := by
  unfold watchApproval at hrun
  split at hrun
  · obtain ⟨-, rfl⟩ := Prod.mk.inj (Except.ok.inj hrun)
    exact ⟨h, rfl, rfl⟩
  · next hnone =>
    obtain ⟨-, rfl⟩ := Prod.mk.inj (Except.ok.inj hrun)
    have hfollowup : ∀ a, Store.followup { s with followups := s.followups ++
        [⟨actionId, sourceId, .waiting, none, none⟩] } a =
        (s.followup a).or (if actionId = a then
          some ⟨actionId, sourceId, .waiting, none, none⟩ else none) := by
      intro a
      change Transaction.row Followup.actionId a (s.followups ++ _) = _
      rw [row_append, row_cons]
      rfl
    refine ⟨⟨⟨h.fine.jobsNodup, ?_, h.fine.asked, fun a => ?_, h.fine.executed, h.fine.lasting,
      h.fine.sound⟩, h.keeps, h.jobs, fun f hf => ?_⟩, rfl, rfl⟩
    · exact nodup_insert h.fine.followupsNodup hnone
    · refine ⟨(h.fine.answered a).1, fun hzero => (h.fine.answered a).2 ?_⟩
      unfold Store.followupRank at hzero ⊢
      rw [hfollowup] at hzero
      cases hf : s.followup a with
      | none => rfl
      | some f =>
        rw [hf] at hzero
        exact hzero
    · rw [hfollowup, h.followups f hf]
      rfl

/-- Hermes is asked for a job that is being generated. -/
theorem Guard.explain (h : Guard s₀ js fs s) (advanced : Bool) (hrow : s.job sourceId = some row)
    (hphase : row.phase = .generating)
    (hattempts : explains s.log sourceId ++ [advanced] <+: [false, true]) :
    Guard s₀ js fs { s with log := s.log ++ [.explain sourceId advanced] } := by
  refine h.events (fun i => ?_) h.fine.answered (fun a => (h.fine.executed a).append (by simp))
    fun _ => rfl
  change Asked (s.jobRank i) _ (sends s.log i)
  have hasked := h.fine.asked i
  by_cases hi : i = sourceId
  · subst hi
    have hexplains : explains [.explain i advanced] i = [advanced] := by simp [explains]
    have hrank : s.jobRank i = 1 := by
      unfold Store.jobRank
      rw [hrow, Option.map_some, hphase]
      rfl
    rw [hexplains]
    refine ⟨hattempts, fun hzero => ?_, hasked.once, hasked.unsent⟩
    omega
  · have hexplains : explains [.explain sourceId advanced] i = [] := by
      simp [explains, Ne.symm hi]
    rw [hexplains, List.append_nil]
    exact hasked

theorem Guard.sendJob (h : Guard s₀ js fs s) (hrow : s.job sourceId = some row)
    (hphase : row.phase = .sending) (hunsent : sends s.log sourceId = 0) :
    Guard s₀ js fs { s with log := s.log ++ [.sendJob sourceId] } := by
  refine h.events (fun i => ?_) h.fine.answered (fun a => (h.fine.executed a).append (by simp))
    fun _ => rfl
  change Asked (s.jobRank i) (explains s.log i ++ []) _
  rw [List.append_nil]
  have hasked := h.fine.asked i
  by_cases hi : i = sourceId
  · subst hi
    have hsends : sends [.sendJob i] i = 1 := by simp [sends]
    have hrank : s.jobRank i = 2 := by
      unfold Store.jobRank
      rw [hrow, Option.map_some, hphase]
      rfl
    rw [hsends, hunsent]
    refine ⟨hasked.attempts, fun hzero => ?_, le_rfl, fun hone => ?_⟩ <;> omega
  · have hsends : sends [.sendJob sourceId] i = 0 := by simp [sends, Ne.symm hi]
    rw [hsends]
    exact hasked

/-- The response to a follow-up is sent for the first time. -/
theorem Guard.sendFollowup (h : Guard s₀ js fs s) {row : Followup}
    (hrow : s.followup actionId = some row) (hphase : row.phase = .sending)
    (hunsent : followupSends s.log actionId = 0) :
    Guard s₀ js fs { s with log := s.log ++ [.sendFollowup actionId] } := by
  refine h.events (fun i => ?_) (fun a => ?_) (fun a => (h.fine.executed a).append (by simp))
    fun _ => rfl
  · change Asked (s.jobRank i) (explains s.log i ++ []) (sends s.log i)
    rw [List.append_nil]
    exact h.fine.asked i
  · by_cases ha : a = actionId
    · subst ha
      have hsends : followupSends [.sendFollowup a] a = 1 := by simp [followupSends]
      have hrank : s.followupRank a = 1 := by
        unfold Store.followupRank
        rw [hrow, Option.map_some, hphase]
        rfl
      rw [hsends, hunsent]
      exact ⟨le_rfl, fun hzero => by omega⟩
    · have hsends : followupSends [.sendFollowup actionId] a = 0 := by
        simp [followupSends, Ne.symm ha]
      rw [hsends]
      exact h.fine.answered a

theorem Guard.execute (h : Guard s₀ js fs s) (hlast : s.log.filter (Event.concerns actionId) =
      l ++ [.followupPhase actionId .waiting .executing]) :
    Guard s₀ js fs { s with log := s.log ++ [.execute actionId] } := by
  refine h.events (fun i => ?_) h.fine.answered (fun a => ?_) fun _ => rfl
  · change Asked (s.jobRank i) (explains s.log i ++ []) (sends s.log i)
    rw [List.append_nil]
    exact h.fine.asked i
  · by_cases ha : a = actionId
    · subst ha
      exact (h.fine.executed a).execute hlast
    · exact (h.fine.executed a).append (by simp [ha])

end transactions

/-! ## Operations -/

section operations

variable {α : Type} {s₀ s : Store} {js : List Job} {fs : List Followup} {C : Store → Prop}

abbrev noted (o : ExtOp) (s : Store) : Store :=
  { s with log := s.log ++ o.event.toList }

variable {o : ExtOp}

theorem noted_silent (ho : o.event = none) : noted o s = s := by
  unfold noted
  rw [ho, Option.toList_none, List.append_nil]

theorem wp_tx {t : Tx} {Q : Except Exc t.Reply → Store → Prop} (hC : C s)
    (herr : ∀ e, Q (.error e) s)
    (hok : ∀ r s', t.run s = .ok (r, s') → C s' ∧ Q (.ok r) s') :
    Wp (I := nativeInterface) performNative C (tx t) Q s := by
  refine ⟨hC, fun x => ?_⟩
  change Wp (I := nativeInterface) performNative C
    (Prog.ofExcept (performNative (.tx t) x s).1) Q (performNative (.tx t) x s).2
  cases hx : x.fault with
  | some message =>
    have heq : performNative (.tx t) x s = (.error (.sqlite message), s) := by
      simp only [performNative, hx]
    rw [heq]
    exact ⟨hC, herr _⟩
  | none =>
    cases hrun : t.run s with
    | error e =>
      have heq : performNative (.tx t) x s = (.error e, s) := by
        simp only [performNative, hx, hrun]
      rw [heq]
      exact ⟨hC, herr e⟩
    | ok p =>
      have heq : performNative (.tx t) x s = (.ok p.1, p.2) := by
        simp only [performNative, hx, hrun]
      rw [heq]
      exact hok p.1 p.2 hrun

variable {Q : Except Exc o.Reply → Store → Prop}

theorem wp_ext (hC : C s) (h : ∀ r, C (noted o s) ∧ Q r (noted o s)) :
    Wp (I := nativeInterface) performNative C (ext o) Q s :=
  ⟨hC, fun x => wp_ofExcept (h (x.answer o)).1 (h (x.answer o)).2⟩

theorem wp_silent (hC : C s) (ho : o.event = none) (h : ∀ r, Q r s) :
    Wp (I := nativeInterface) performNative C (ext o) Q s := by
  refine wp_ext hC fun r => ?_
  rw [noted_silent ho]
  exact ⟨hC, h r⟩

abbrev Safe (s₀ : Store) (js : List Job) (fs : List Followup) (p : Native α)
    (Q : Except Exc α → Store → Prop) (s : Store) : Prop :=
  Wp (I := nativeInterface) performNative (Guard s₀ js fs) p Q s

variable {sourceId : ℕ} {row : Job}

theorem safe_set {patch : JobPatch} {Q : Except Exc Unit → Store → Prop} (h : Guard s₀ js fs s)
    (hrow : s.job sourceId = some row) (hjs : ∀ j ∈ js, j.sourceId ≠ sourceId)
    (hmoves : Moves row.phase (patch.apply row).phase)
    (hsound : row.Sound → (patch.apply row).Sound) (herr : ∀ e, Q (.error e) s)
    (hok : ∀ s', s'.job sourceId = some (patch.apply row) →
      (∀ i, explains s'.log i = explains s.log i ∧ sends s'.log i = sends s.log i) →
      Guard s₀ js fs s' → Q (.ok ()) s') : Safe s₀ js fs (tx (.set sourceId patch)) Q s := by
  refine wp_tx h herr fun r s' hrun => ?_
  obtain ⟨-, rfl⟩ := Prod.mk.inj (Except.ok.inj hrun)
  obtain ⟨hjob, hlog, -, -⟩ := set_spec patch h.fine.jobsNodup hrow
  have hguard := h.set hrow hjs hmoves hsound
  refine ⟨hguard, hok _ (by rw [hjob, if_pos rfl]) (fun i => ?_) hguard⟩
  rw [hlog, explains_append, sends_append]
  exact ⟨List.append_nil _, rfl⟩

theorem safe_reload {Q : Except Exc Job → Store → Prop} (h : Guard s₀ js fs s)
    (hrow : s.job sourceId = some row) (herr : ∀ e, Q (.error e) s) (hok : Q (.ok row) s) :
    Safe s₀ js fs (reload sourceId) Q s := by
  refine wp_bind (wp_tx h (fun e => herr e) fun r s' hrun => ⟨?_, ?_⟩)
  · obtain ⟨-, rfl⟩ := Prod.mk.inj (Except.ok.inj hrun)
    exact h
  · obtain ⟨rfl, rfl⟩ := Prod.mk.inj (Except.ok.inj hrun)
    simp only [hrow]
    exact ⟨h, hok⟩

theorem safe_watchAll {settings : Settings} {actions : List Action} (h : Guard s₀ js fs s) :
    Safe s₀ js fs (watchAll settings sourceId actions)
      (fun _ t => t.jobs = s.jobs ∧ t.log = s.log) s := by
  suffices ∀ t, Guard s₀ js fs t → t.jobs = s.jobs ∧ t.log = s.log →
      Safe s₀ js fs (watchAll settings sourceId actions)
        (fun _ t => t.jobs = s.jobs ∧ t.log = s.log) t from this s h ⟨rfl, rfl⟩
  clear h
  induction actions with
  | nil => exact fun t h hsame => ⟨h, hsame⟩
  | cons action actions ih =>
    intro t h hsame
    refine wp_bind (wp_ofExcept h ?_)
    cases settings.canonicalUuid action.id with
    | error e => exact hsame
    | ok actionId =>
      refine wp_bind (wp_tx h (fun _ => hsame) fun r t' hrun => ?_)
      obtain ⟨h', hjobs, hlog⟩ := h.watch hrun
      exact ⟨h', ih t' h' ⟨hjobs.trans hsame.1, hlog.trans hsame.2⟩⟩

end operations

/-! ## Jobs -/

section jobs

variable {s₀ s : Store} {js : List Job} {fs : List Followup} {settings : Settings} {job row : Job}

def Held (sourceId : ℕ) : Except Exc Job → Store → Prop
  | .ok job, t => job.sourceId = sourceId ∧ t.job sourceId = some job
  | .error _, _ => True

def Stands (sourceId : ℕ) (t : Store) : Prop :=
  ∃ row, t.job sourceId = some row

variable {sourceId : ℕ}

theorem sourceId_of_job (h : s.job sourceId = some row) : row.sourceId = sourceId :=
  (row_some (show Transaction.row Job.sourceId sourceId s.jobs = _ from h)).2

theorem safe_reload_held (h : Guard s₀ js fs s) (hrow : s.job sourceId = some row) :
    Safe s₀ js fs (reload sourceId) (Held sourceId) s :=
  safe_reload h hrow (fun _ => trivial) ⟨sourceId_of_job hrow, hrow⟩

theorem safe_prepare (h : Guard s₀ js fs s) (hjob : s.job job.sourceId = some job)
    (hjs : ∀ j ∈ js, j.sourceId ≠ job.sourceId) :
    Safe s₀ js fs (prepare settings job) (Held job.sourceId) s := by
  unfold prepare
  split_ifs with hphase
  · refine wp_bind (wp_silent h rfl fun r => ?_)
    cases r with
    | error e => trivial
    | ok mission =>
      refine wp_bind (safe_set h hjob hjs ?_ (fun _ => sound_of_mission (by simp [JobPatch.apply])
        nofun) (fun _ => trivial) fun t hrow _ ht => ?_)
      · change Moves job.phase .prepared
        rw [hphase]
        exact moves_of_live (by decide) le_rfl
      · exact safe_reload_held ht hrow
  · exact ⟨h, rfl, hjob⟩

theorem content_of_answers {r : Record} (h : r.answers job = true) : ∃ c, r.content = some c := by
  have hany := (of_decide_eq_true h).2.2.2
  obtain ⟨hsome, -⟩ := (Option.any_eq_true_iff_get _ _).1 hany
  exact ⟨_, (Option.some_get hsome).symm⟩

theorem safe_acceptHandoff (h : Guard s₀ js fs s) (hjob : s.job job.sourceId = some job)
    (hjs : ∀ j ∈ js, j.sourceId ≠ job.sourceId) :
    Safe s₀ js fs (acceptHandoff settings job) (fun _ t => Stands job.sourceId t) s := by
  unfold acceptHandoff
  split_ifs with hphase
  · exact ⟨h, job, hjob⟩
  · rw [not_not] at hphase
    refine wp_bind (wp_silent h rfl fun r => ?_)
    cases r with
    | error e => exact ⟨job, hjob⟩
    | ok records =>
      simp only
      split
      · exact ⟨h, job, hjob⟩
      · next record heq =>
        refine wp_bind (wp_silent h rfl fun r => ?_)
        cases r with
        | error e => exact ⟨job, hjob⟩
        | ok actions =>
          refine wp_bind ((safe_watchAll h).mono fun r t ht hsame => ?_)
          have hrow : t.job job.sourceId = some job := by
            unfold Store.job
            rw [hsame.1]
            exact hjob
          cases r with
          | error e => exact ⟨job, hrow⟩
          | ok _ =>
            have hsound : job.Sound → (JobPatch.apply
                { phase := some .ready, response := record.content } job).Sound := by
              intro hjob
              refine sound_of_mission (hjob.mission_ne hphase (by decide)) fun _ => ?_
              have hanswers := (List.mem_filter.1 (heq ▸ List.mem_singleton.2 rfl)).2
              obtain ⟨content, hcontent⟩ := content_of_answers hanswers
              simp [JobPatch.apply, hcontent]
            refine wp_bind (safe_set ht hrow hjs ?_ hsound (fun _ => ⟨job, hrow⟩)
              fun u hu _ hguard => ⟨hguard, _, hu⟩)
            change Moves job.phase .ready
            rw [hphase]
            exact moves_of_live (by decide) (by decide)
      · refine wp_bind (safe_set h hjob hjs ?_ (fun _ => sound_review rfl) (fun _ => ⟨job, hjob⟩)
          fun u hu _ hguard => ⟨hguard, _, hu⟩)
        change Moves job.phase .needsReview
        rw [hphase]
        exact moves_of_live (by decide) (by decide)

theorem safe_record (h : Guard s₀ js fs s) (hjob : s.job job.sourceId = some job)
    (hjs : ∀ j ∈ js, j.sourceId ≠ job.sourceId) :
    Safe s₀ js fs (record settings job) (Held job.sourceId) s := by
  unfold record
  split_ifs with hphase
  · split
    · exact ⟨h, trivial⟩
    · refine wp_bind (wp_silent h rfl fun r => ?_)
      cases r with
      | error e => trivial
      | ok _ =>
        refine wp_bind (wp_silent h rfl fun r => ?_)
        cases r with
        | error e => trivial
        | ok _ =>
          refine wp_bind ((safe_acceptHandoff h hjob hjs).mono fun r t ht hstands => ?_)
          obtain ⟨row, hrow⟩ := hstands
          cases r with
          | error e => trivial
          | ok _ => exact safe_reload_held ht hrow
  · exact ⟨h, rfl, hjob⟩

theorem safe_refuse (h : Guard s₀ js fs s) (hjob : s.job job.sourceId = some job)
    (hjs : ∀ j ∈ js, j.sourceId ≠ job.sourceId) :
    Safe s₀ js fs (refuse job) (Held job.sourceId) s := by
  unfold refuse
  split_ifs with hphase
  · refine wp_bind (safe_set h hjob hjs ?_ (fun hsound => sound_of_mission
      (hsound.mission_ne hphase.1 (by decide)) (by simp [JobPatch.apply])) (fun _ => trivial)
      fun t hrow _ ht => safe_reload_held ht hrow)
    change Moves job.phase .ready
    rw [hphase.1]
    exact moves_of_live (by decide) (by decide)
  · exact ⟨h, rfl, hjob⟩

/-- Hermes is asked once, and once more with the advanced reasoning. -/
theorem safe_askHermes (h : Guard s₀ js fs s) (hrow : s.job job.sourceId = some row)
    (hphase : row.phase = .generating) (hnone : explains s.log job.sourceId = []) :
    Safe s₀ js fs (askHermes settings job) (fun _ t => t.jobs = s.jobs) s := by
  have hfirst := h.explain false hrow hphase (by rw [hnone]; exact ⟨[true], rfl⟩)
  refine wp_bind (wp_ext h fun r => ⟨hfirst, ?_⟩)
  cases r with
  | error e => rfl
  | ok raw =>
    refine wp_bind (wp_ofExcept hfirst ?_)
    cases settings.parseAnswer raw with
    | error e => rfl
    | ok answer =>
      simp only
      split_ifs
      · have hsecond := Guard.explain
          (s := { s with log := s.log ++ [.explain job.sourceId false] }) hfirst true hrow hphase
          (by
            change explains (s.log ++ [.explain job.sourceId false]) job.sourceId ++ [true] <+: _
            rw [explains_append, hnone]
            simp [explains])
        refine wp_bind (wp_ext hfirst fun r => ⟨hsecond, ?_⟩)
        cases r with
        | error e => rfl
        | ok raw =>
          refine wp_bind (wp_ofExcept hsecond ?_)
          cases settings.parseAnswer raw with
          | error e => rfl
          | ok answer =>
            simp only
            split_ifs
            · exact ⟨hsecond, rfl⟩
            · exact ⟨hsecond, rfl⟩
      · exact ⟨hfirst, rfl⟩

def InPhase (sourceId : ℕ) (p : Phase) (t : Store) : Prop :=
  ∃ row, t.job sourceId = some row ∧ row.phase = p

theorem InPhase.of_jobs {p : Phase} {t : Store} (h : InPhase sourceId p s)
    (hjobs : t.jobs = s.jobs) : InPhase sourceId p t := by
  obtain ⟨row, hrow, hphase⟩ := h
  refine ⟨row, ?_, hphase⟩
  unfold Store.job
  rw [hjobs]
  exact hrow

/-- A generation that succeeds leaves the job ready, and one that fails leaves it where it is. -/
theorem safe_generate (h : Guard s₀ js fs s) (hjs : ∀ j ∈ js, j.sourceId ≠ job.sourceId)
    (hrow : InPhase job.sourceId .generating s) (hnone : explains s.log job.sourceId = []) :
    Safe s₀ js fs (generate settings job) (fun r t => match r with
      | .ok _ => Stands job.sourceId t
      | .error _ => InPhase job.sourceId .generating t) s := by
  obtain ⟨row, hrow', hphase⟩ := id hrow
  refine wp_bind ((safe_askHermes h hrow' hphase hnone).mono fun r t ht hjobs => ?_)
  have hin := hrow.of_jobs hjobs
  cases r with
  | error e => exact hin
  | ok answer =>
    refine wp_bind (wp_silent ht rfl fun r => ?_)
    cases r with
    | error e => exact hin
    | ok actions =>
      refine wp_bind ((safe_watchAll ht).mono fun r u hu hsame => ?_)
      have hin' := hin.of_jobs hsame.1
      cases r with
      | error e => exact hin'
      | ok _ =>
        simp only
        split_ifs
        · exact ⟨hu, hin'⟩
        · refine wp_bind (wp_silent hu rfl fun r => ?_)
          cases r with
          | error e => exact hin'
          | ok _ =>
            obtain ⟨row', hrow'', hphase'⟩ := id hin'
            refine wp_bind (safe_set hu hrow'' hjs ?_ (fun hsound => sound_of_mission
              (hsound.mission_ne hphase' (by decide)) (by simp [JobPatch.apply])) (fun _ => hin')
              fun v hv _ hguard => ⟨hguard, _, hv⟩)
            change Moves row'.phase .ready
            rw [hphase']
            exact moves_of_live (by decide) (by decide)

theorem safe_begin (h : Guard s₀ js fs s) (hjob : s.job job.sourceId = some job)
    (hjs : ∀ j ∈ js, j.sourceId ≠ job.sourceId) (hphase : job.phase = .prepared) :
    Safe s₀ js fs (tx (.set job.sourceId { phase := some .generating })) (fun r t => r = .ok () →
      InPhase job.sourceId .generating t ∧ explains t.log job.sourceId = []) s := by
  have hmoves : Moves job.phase .generating := by
    rw [hphase]
    exact moves_of_live (by decide) (by decide)
  refine safe_set h hjob hjs hmoves (fun hsound => sound_of_mission
    (hsound.mission_ne hphase (by decide)) nofun) nofun fun t hrow hlog _ _ => ⟨⟨_, hrow, rfl⟩, ?_⟩
  rw [(hlog job.sourceId).1]
  refine (h.fine.asked job.sourceId).unasked ?_
  unfold Store.jobRank
  rw [hjob, Option.map_some, hphase]
  rfl

theorem safe_respond (h : Guard s₀ js fs s) (hjob : s.job job.sourceId = some job)
    (hjs : ∀ j ∈ js, j.sourceId ≠ job.sourceId) :
    Safe s₀ js fs (respond settings job) (fun r t => ∀ job', r = .ok (some job') →
      Held job.sourceId (.ok job') t) s := by
  unfold respond
  split_ifs with hphase
  · refine wp_bind ((safe_begin h hjob hjs hphase).mono fun r t ht hbegun => ?_)
    cases r with
    | error e =>
      intro job' hr
      cases hr
    | ok _ =>
    obtain ⟨hin, hnone⟩ := hbegun rfl
    refine wp_bind (wp_attempt ((safe_generate ht hjs hin hnone).mono fun r u hu hpost => ?_))
    cases r with
    | ok _ =>
      obtain ⟨row', hrow'⟩ := hpost
      refine wp_bind ((safe_reload_held hu hrow').mono fun r v hv hheld => ?_)
      cases r with
      | error e =>
        intro job' hr
        cases hr
      | ok job'' =>
        refine ⟨hv, fun job' hr => ?_⟩
        obtain rfl := Option.some.inj (Except.ok.inj hr)
        exact hheld
    | error e =>
      obtain ⟨row', hrow', hphase'⟩ := hpost
      refine wp_bind (safe_set hu hrow' hjs ?_ (fun _ => sound_review rfl)
        (fun _ _ hr => by cases hr) fun v _ _ hv => ⟨hv, fun job' hr => by cases Except.ok.inj hr⟩)
      change Moves row'.phase .needsReview
      rw [hphase']
      exact moves_of_live (by decide) (by decide)
  · refine ⟨h, fun job' hr => ?_⟩
    obtain rfl := Option.some.inj (Except.ok.inj hr)
    exact ⟨rfl, hjob⟩

theorem safe_beginDelivery (h : Guard s₀ js fs s) (hjob : s.job job.sourceId = some job)
    (hjs : ∀ j ∈ js, j.sourceId ≠ job.sourceId) (hphase : job.phase = .ready) :
    Safe s₀ js fs (tx (.set job.sourceId { phase := some .sending })) (fun r t => r = .ok () →
      ∃ row, t.job job.sourceId = some row ∧ row.phase = .sending ∧
        sends t.log job.sourceId = 0) s := by
  have hmoves : Moves job.phase .sending := by
    rw [hphase]
    exact moves_of_live (by decide) (by decide)
  refine safe_set h hjob hjs hmoves (fun hsound => sound_of_mission
    (hsound.mission_ne hphase (by decide)) nofun) nofun fun t hrow hlog _ _ => ⟨_, hrow, rfl, ?_⟩
  rw [(hlog job.sourceId).2]
  refine (h.fine.asked job.sourceId).unsent ?_
  unfold Store.jobRank
  rw [hjob, Option.map_some, hphase]
  exact le_rfl

theorem safe_deliver (h : Guard s₀ js fs s) (hjob : s.job job.sourceId = some job)
    (hjs : ∀ j ∈ js, j.sourceId ≠ job.sourceId) :
    Safe s₀ js fs (deliver settings job) (fun _ _ => True) s := by
  unfold deliver
  by_cases hphase : job.phase = .ready ∨ job.phase = .sending
  · rw [if_pos hphase]
    cases job.missionId with
    | none => exact ⟨h, trivial⟩
    | some mission =>
      by_cases hsending : job.phase = .sending
      · simp only [if_pos hsending]
        refine wp_bind (safe_set h hjob hjs ?_ (fun _ => sound_review rfl) (fun _ => trivial)
          fun t _ _ ht => ⟨ht, trivial⟩)
        change Moves job.phase .needsReview
        rw [hsending]
        exact moves_of_live (by decide) (by decide)
      · simp only [if_neg hsending]
        have hready : job.phase = .ready := hphase.resolve_right hsending
        refine wp_bind ((safe_beginDelivery h hjob hjs hready).mono fun r t ht hbegun => ?_)
        cases r with
        | error e => trivial
        | ok _ =>
        obtain ⟨row, hrow, hrowPhase, hunsent⟩ := hbegun rfl
        cases job.response with
        | none => exact ⟨ht, trivial⟩
        | some response =>
          have hsent := ht.sendJob hrow hrowPhase hunsent
          refine wp_bind (wp_ext ht fun r => ⟨hsent, ?_⟩)
          cases r with
          | error e => trivial
          | ok delivery =>
            refine wp_bind (safe_set (s := noted _ t) hsent hrow hjs ?_
              (fun _ => ⟨fun _ => .inr (.inl rfl), nofun⟩) (fun _ => trivial)
              fun u _ _ hu => ?_)
            · change Moves row.phase .delivered
              rw [hrowPhase]
              exact moves_of_live (by decide) (by decide)
            · refine wp_bind (wp_silent hu rfl fun r => ?_)
              cases r with
              | error e => trivial
              | ok _ => exact ⟨hu, trivial⟩
  · rw [if_neg hphase]
    exact ⟨h, trivial⟩

theorem safe_process (h : Guard s₀ js fs s) (hjob : s.job job.sourceId = some job)
    (hjs : ∀ j ∈ js, j.sourceId ≠ job.sourceId) :
    Safe s₀ js fs (process settings job) (fun _ _ => True) s := by
  unfold process
  refine wp_bind ((safe_prepare h hjob hjs).mono fun r t ht hheld => ?_)
  cases r with
  | error e => trivial
  | ok job₁ =>
    obtain ⟨hid, hjob₁⟩ := hheld
    rw [← hid] at hjob₁ hjs
    refine wp_bind ((safe_respond ht hjob₁ hjs).mono fun r u hu hheld => ?_)
    cases r with
    | error e => trivial
    | ok answered =>
      cases answered with
      | none => exact ⟨hu, trivial⟩
      | some job₂ =>
        obtain ⟨hid₂, hjob₂⟩ := hheld job₂ rfl
        rw [← hid₂] at hjob₂ hjs
        exact safe_deliver hu hjob₂ hjs

theorem safe_dispatch (h : Guard s₀ js fs s) (hjob : s.job job.sourceId = some job)
    (hjs : ∀ j ∈ js, j.sourceId ≠ job.sourceId) :
    Safe s₀ js fs (dispatch settings job) (fun r t => ∀ job', r = .ok (some job') →
      Held job.sourceId (.ok job') t) s := by
  unfold dispatch
  split
  · refine ⟨h, fun job' hr => ?_⟩
    obtain rfl := Option.some.inj (Except.ok.inj hr)
    exact ⟨rfl, hjob⟩
  · refine wp_bind (wp_silent h rfl fun r => ?_)
    cases r with
    | error e =>
      intro job' hr
      cases hr
    | ok mode =>
      refine wp_bind (wp_silent h rfl fun r => ?_)
      cases r with
      | error e =>
        intro job' hr
        cases hr
      | ok tools =>
        simp only
        split
        · refine ⟨h, fun job' hr => by cases Except.ok.inj hr⟩
        · refine wp_bind (safe_set h hjob hjs ⟨le_rfl, fun _ => rfl⟩
            (fun h => ⟨h.mission, h.response⟩) (fun _ _ hr => by cases hr)
            fun t hrow _ ht => ?_)
          refine wp_bind ((safe_reload_held ht hrow).mono fun r u hu hheld => ?_)
          cases r with
          | error e =>
            intro job' hr
            cases hr
          | ok job'' =>
            refine ⟨hu, fun job' hr => ?_⟩
            obtain rfl := Option.some.inj (Except.ok.inj hr)
            exact hheld

theorem safe_mayProcess (h : Guard s₀ js fs s) :
    Safe s₀ js fs (mayProcess settings job) (fun _ t => t = s) s := by
  unfold mayProcess
  split_ifs
  · refine wp_bind (wp_silent h rfl fun r => ?_)
    cases r with
    | error e => rfl
    | ok _ => exact ⟨h, rfl⟩
  · exact ⟨h, rfl⟩

theorem safe_handleJob (h : Guard s₀ js fs s) (hjob : s.job job.sourceId = some job)
    (hjs : ∀ j ∈ js, j.sourceId ≠ job.sourceId) :
    Safe s₀ js fs (handleJob settings job) (fun _ _ => True) s := by
  unfold handleJob
  have hnoted : Guard s₀ js fs (noted (.examine job.sourceId) s) := h.note (by
    intro e he
    obtain rfl := List.mem_singleton.1 he
    trivial) fun _ => rfl
  refine wp_bind (wp_ext h fun r => ⟨hnoted, ?_⟩)
  cases r with
  | error e => trivial
  | ok _ =>
    refine wp_bind ((safe_dispatch hnoted hjob hjs).mono fun r t ht hheld => ?_)
    cases r with
    | error e => trivial
    | ok dispatched =>
      cases dispatched with
      | none => exact ⟨ht, trivial⟩
      | some job₁ =>
        obtain ⟨hid₁, hjob₁⟩ := hheld job₁ rfl
        rw [← hid₁] at hjob₁ hjs
        refine wp_bind ((safe_prepare ht hjob₁ hjs).mono fun r u hu hheld => ?_)
        cases r with
        | error e => trivial
        | ok job₂ =>
          obtain ⟨hid₂, hjob₂⟩ := hheld
          rw [← hid₂] at hjob₂ hjs
          refine wp_bind ((safe_record hu hjob₂ hjs).mono fun r v hv hheld => ?_)
          cases r with
          | error e => trivial
          | ok job₃ =>
            obtain ⟨hid₃, hjob₃⟩ := hheld
            rw [← hid₃] at hjob₃ hjs
            refine wp_bind ((safe_refuse hv hjob₃ hjs).mono fun r w hw hheld => ?_)
            cases r with
            | error e => trivial
            | ok job₄ =>
              obtain ⟨hid₄, hjob₄⟩ := hheld
              rw [← hid₄] at hjob₄ hjs
              refine wp_bind ((safe_mayProcess hw).mono fun r x _ hx => ?_)
              subst hx
              cases r with
              | error e => trivial
              | ok may =>
                simp only
                split_ifs
                · exact safe_process hw hjob₄ hjs
                · exact ⟨hw, trivial⟩

variable {jobs : List Job}

theorem guard_cons (h : Guard s₀ (job :: jobs) fs s)
    (hnodup : ((job :: jobs).map Job.sourceId).Nodup) :
    (∀ j ∈ jobs, j.sourceId ≠ job.sourceId) ∧ Guard s₀ jobs fs s ∧
      s.job job.sourceId = some job ∧ (jobs.map Job.sourceId).Nodup := by
  obtain ⟨hnew, hnodup⟩ := List.nodup_cons.1 hnodup
  refine ⟨fun j hj heq => hnew ?_, ⟨h.fine, h.keeps, fun j hj => ?_, h.followups⟩,
    h.jobs job List.mem_cons_self, hnodup⟩
  · exact List.mem_map.2 ⟨j, hj, heq⟩
  · exact h.jobs j (List.mem_cons_of_mem _ hj)

theorem safe_handleJobs (h : Guard s₀ jobs fs s) (hnodup : (jobs.map Job.sourceId).Nodup) :
    Safe s₀ [] fs (handleJobs settings jobs) (fun _ _ => True) s := by
  induction jobs generalizing s with
  | nil => exact ⟨h, trivial⟩
  | cons job jobs ih =>
    obtain ⟨hjs, hrest, hjob, hnodup⟩ := guard_cons h hnodup
    have hone := (safe_handleJob hrest hjob hjs : Safe s₀ jobs fs
      (handleJob settings job) _ s).weaken (D := Guard s₀ [] fs) fun t ht =>
        ⟨ht.fine, ht.keeps, by simp, ht.followups⟩
    refine wp_bind (hone.mono fun r t _ hpost => ?_)
    cases r with
    | error e => trivial
    | ok _ => exact ih hpost.1 hnodup

theorem guard_pending (h : Guard s₀ [] fs s) : Guard s₀ (pending s) fs s := by
  refine ⟨h.fine, h.keeps, fun j hj => ?_, h.followups⟩
  have hmem : j ∈ s.jobs := by
    have hsorted := List.mem_of_mem_take hj
    rw [List.mem_insertionSort] at hsorted
    exact List.mem_of_mem_filter hsorted
  exact row_of_mem h.fine.jobsNodup hmem

theorem nodup_pending (h : (s.jobs.map Job.sourceId).Nodup) :
    ((pending s).map Job.sourceId).Nodup := by
  have hlive : ((s.jobs.filter fun j => j.phase ∈ [.received, .prepared, .ready, .sending]).map
      Job.sourceId).Nodup := h.sublist (List.filter_sublist.map _)
  have hsorted := ((List.perm_insertionSort (fun a b : Job => a.sourceId ≤ b.sourceId) _).map
    Job.sourceId).nodup_iff.2 hlive
  exact hsorted.sublist ((List.take_sublist _ _).map _)

end jobs

/-! ## Follow-ups of approvals -/

section followups

variable {s₀ s : Store} {js : List Job} {fs : List Followup} {settings : Settings}
  {job : ApprovalJob} {actionId : String} {row : Followup}

theorem safe_setApproval {patch : FollowupPatch} {Q : Except Exc Unit → Store → Prop}
    (h : Guard s₀ js fs s) (hrow : s.followup actionId = some row)
    (hfs : ∀ f ∈ fs, f.actionId ≠ actionId) (hrank : row.phase.rank ≤ patch.phase.rank)
    (herr : ∀ e, Q (.error e) s)
    (hok : ∀ s', s'.followup actionId = some (patch.apply row) →
      s'.log = s.log ++ [.followupPhase actionId row.phase patch.phase] →
      Guard s₀ js fs s' → Q (.ok ()) s') :
    Safe s₀ js fs (tx (.setApproval actionId patch)) Q s := by
  refine wp_tx h herr fun r s' hrun => ?_
  obtain ⟨-, rfl⟩ := Prod.mk.inj (Except.ok.inj hrun)
  obtain ⟨hfollowup, hlog, -, -⟩ := setApproval_spec patch h.fine.followupsNodup hrow
  have hguard := h.setApproval patch hrow hfs hrank
  exact ⟨hguard, hok _ (by rw [hfollowup, if_pos rfl]) hlog hguard⟩

def Followed (actionId : String) (t : Store) : Prop :=
  ∃ row, t.followup actionId = some row

/-- A follow-up that nothing was sent for is sent once. -/
theorem safe_publishFollowup {topic : String} {response : Option String} (h : Guard s₀ js fs s)
    (hrow : s.followup actionId = some row) (hfs : ∀ f ∈ fs, f.actionId ≠ actionId)
    (hrank : row.phase.rank = 0) :
    Safe s₀ js fs (publishFollowup actionId topic response) (fun _ t => Followed actionId t) s := by
  refine wp_bind (safe_setApproval h hrow hfs (by omega) (fun _ => ⟨row, hrow⟩)
    fun t ht hlog hguard => ?_)
  have hunsent : followupSends t.log actionId = 0 := by
    rw [hlog, followupSends_append]
    refine (h.fine.answered actionId).2 ?_
    unfold Store.followupRank
    rw [hrow]
    exact hrank
  have hsent := hguard.sendFollowup ht rfl hunsent
  refine wp_bind (wp_ext hguard fun r => ⟨hsent, ?_⟩)
  cases r with
  | error e => exact ⟨_, ht⟩
  | ok delivery =>
    exact wp_bind (safe_setApproval (s := noted _ t) hsent ht hfs le_rfl (fun _ => ⟨_, ht⟩)
      fun u hu _ hguard' => ⟨hguard', _, hu⟩)

theorem safe_settleFollowup {status : String} (h : Guard s₀ js fs s)
    (hrow : s.followup job.followup.actionId = some row)
    (hfs : ∀ f ∈ fs, f.actionId ≠ job.followup.actionId) (hrank : row.phase.rank = 0) :
    Safe s₀ js fs (settleFollowup job status)
      (fun _ t => Followed job.followup.actionId t) s := by
  unfold settleFollowup
  simp only
  split
  · exact safe_setApproval h hrow hfs (by omega) (fun _ => ⟨row, hrow⟩) fun t ht _ _ => ⟨_, ht⟩
  · split
    · exact safe_setApproval h hrow hfs (by have := row.phase.rank_le; omega)
        (fun _ => ⟨row, hrow⟩) fun t ht _ _ => ⟨_, ht⟩
    · exact ⟨h, row, hrow⟩
    · refine wp_bind (safe_setApproval h hrow hfs (by omega) (fun _ => ⟨row, hrow⟩)
        fun t ht _ hguard => ?_)
      exact safe_publishFollowup hguard ht hfs rfl

/-- An action is executed right after its follow-up stopped waiting. -/
theorem safe_awaitAction (h : Guard s₀ js fs s)
    (hrow : s.followup job.followup.actionId = some job.followup)
    (hfs : ∀ f ∈ fs, f.actionId ≠ job.followup.actionId)
    (hwaiting : job.followup.phase = .waiting) :
    Safe s₀ js fs (awaitAction job) (fun _ t => Followed job.followup.actionId t) s := by
  have hrank : job.followup.phase.rank = 0 := by
    rw [hwaiting]
    rfl
  have hreview : Safe s₀ js fs (tx (.setApproval job.followup.actionId { phase := .needsReview }))
      (fun _ t => Followed job.followup.actionId t) s :=
    safe_setApproval h hrow hfs (by have := job.followup.phase.rank_le; omega)
      (fun _ => ⟨_, hrow⟩) fun t ht _ _ => ⟨_, ht⟩
  unfold awaitAction
  refine wp_bind (wp_silent h rfl fun r => ?_)
  cases r with
  | error e => exact ⟨_, hrow⟩
  | ok summaries =>
    simp only
    split
    · exact hreview
    · split_ifs
      · exact hreview
      · refine wp_bind (wp_silent h rfl fun r => ?_)
        cases r with
        | error e => exact ⟨_, hrow⟩
        | ok allowed =>
          cases allowed with
          | false => exact safe_settleFollowup h hrow hfs hrank
          | true =>
            refine wp_bind (safe_setApproval h hrow hfs (by omega) (fun _ => ⟨_, hrow⟩)
              fun t ht hlog hguard => ?_)
            -- Nothing comes between the end of the waiting and the execution.
            have hlast : t.log.filter (Event.concerns job.followup.actionId) =
                s.log.filter (Event.concerns job.followup.actionId) ++
                  [.followupPhase job.followup.actionId .waiting .executing] := by
              rw [hlog, List.filter_append, hwaiting]
              simp [Event.concerns]
            have hexecuted := hguard.execute hlast
            refine wp_bind (wp_ext hguard fun r => ⟨hexecuted, ?_⟩)
            cases r with
            | error e => exact ⟨_, ht⟩
            | ok action => exact safe_settleFollowup (s := noted _ t) hexecuted ht hfs rfl
      · exact safe_settleFollowup h hrow hfs hrank

theorem safe_followUp (h : Guard s₀ js fs s)
    (hrow : s.followup job.followup.actionId = some job.followup)
    (hfs : ∀ f ∈ fs, f.actionId ≠ job.followup.actionId)
    (hphase : job.followup.phase = .waiting ∨ job.followup.phase = .ready) :
    Safe s₀ js fs (followUp job) (fun _ _ => True) s := by
  have hbody : Safe s₀ js fs (if job.followup.phase = .waiting then awaitAction job
      else publishFollowup job.followup.actionId job.topic job.followup.response)
      (fun _ t => Followed job.followup.actionId t) s := by
    split_ifs with hwaiting
    · exact safe_awaitAction h hrow hfs hwaiting
    · have hready := hphase.resolve_left hwaiting
      exact safe_publishFollowup h hrow hfs (by rw [hready]; rfl)
  refine wp_bind (wp_attempt (hbody.mono fun r t ht hfollowed => ?_))
  obtain ⟨row, hrow'⟩ := hfollowed
  cases r with
  | ok _ => exact ⟨ht, trivial⟩
  | error e =>
    exact safe_setApproval ht hrow' hfs (by have := row.phase.rank_le; exact this)
      (fun _ => trivial) fun _ _ _ _ => trivial

/-- The follow-ups that were read are taken up one after the other. -/
theorem safe_followUpAll {jobs : List ApprovalJob}
    (h : Guard s₀ [] (jobs.map ApprovalJob.followup) s)
    (hnodup : (jobs.map fun j => j.followup.actionId).Nodup)
    (hphase : ∀ j ∈ jobs, j.followup.phase = .waiting ∨ j.followup.phase = .ready) :
    Safe s₀ [] [] (followUpAll jobs) (fun _ _ => True) s := by
  induction jobs generalizing s with
  | nil => exact ⟨h, trivial⟩
  | cons job jobs ih =>
    obtain ⟨hnew, hnodup⟩ := List.nodup_cons.1 hnodup
    have hfs : ∀ f ∈ jobs.map ApprovalJob.followup, f.actionId ≠ job.followup.actionId := by
      intro f hf heq
      obtain ⟨j, hj, rfl⟩ := List.mem_map.1 hf
      exact hnew (List.mem_map.2 ⟨j, hj, heq⟩)
    have hrest : Guard s₀ [] (jobs.map ApprovalJob.followup) s :=
      ⟨h.fine, h.keeps, by simp, fun f hf => h.followups f (List.mem_cons_of_mem _ hf)⟩
    have hone := (safe_followUp hrest (h.followups _ List.mem_cons_self) hfs
      (hphase job List.mem_cons_self)).weaken (D := Guard s₀ [] [])
        fun t ht => ⟨ht.fine, ht.keeps, by simp, by simp⟩
    refine wp_bind (hone.mono fun r t _ hpost => ?_)
    cases r with
    | error e => trivial
    | ok _ => exact ih hpost.1 hnodup fun j hj => hphase j (List.mem_cons_of_mem _ hj)

theorem followups_joined (s : Store) (l : List Followup) :
    ((l.filterMap fun f => (s.job f.sourceId).map fun j =>
      (⟨f, j.missionId, j.topic⟩ : ApprovalJob)).map ApprovalJob.followup).Sublist l := by
  induction l with
  | nil => exact List.Sublist.slnil
  | cons f l ih =>
    cases hjob : s.job f.sourceId with
    | none =>
      rw [List.filterMap_cons_none (by rw [hjob]; rfl)]
      exact ih.cons f
    | some j =>
      rw [List.filterMap_cons_some (by rw [hjob]; rfl)]
      exact ih.cons_cons f

theorem approvalJobs_sublist (s : Store) : ((approvalJobs s).map ApprovalJob.followup).Sublist
    (s.followups.filter fun f => f.phase = .waiting ∨ f.phase = .ready) :=
  ((List.take_sublist _ _).map _).trans (followups_joined s _)

theorem safe_approvalFollowups (h : Guard s₀ [] [] s) :
    Safe s₀ [] [] (approvalFollowups settings) (fun _ _ => True) s := by
  have hnoted : Guard s₀ [] [] (noted .followups s) := h.note (by
    intro e he
    obtain rfl := List.mem_singleton.1 he
    trivial) fun _ => rfl
  refine wp_bind (wp_ext h fun r => ⟨hnoted, ?_⟩)
  cases r with
  | error e => trivial
  | ok _ =>
    simp only
    split_ifs
    · refine wp_bind (wp_tx hnoted (fun _ => trivial) fun jobs t hrun => ?_)
      obtain ⟨rfl, rfl⟩ := Prod.mk.inj (Except.ok.inj hrun)
      have hsub := approvalJobs_sublist (noted .followups s)
      have hmem : ∀ f ∈ (approvalJobs (noted .followups s)).map ApprovalJob.followup,
          f ∈ s.followups ∧ (f.phase = .waiting ∨ f.phase = .ready) := by
        intro f hf
        have hfilter := hsub.subset hf
        exact ⟨List.mem_of_mem_filter hfilter, by simpa using (List.mem_filter.1 hfilter).2⟩
      refine ⟨hnoted, safe_followUpAll ⟨hnoted.fine, hnoted.keeps, by simp, fun f hf => ?_⟩ ?_
        fun j hj => ?_⟩
      · exact row_of_mem hnoted.fine.followupsNodup (hmem f hf).1
      · have hids := (hsub.trans List.filter_sublist).map Followup.actionId
        rw [List.map_map] at hids
        exact hnoted.fine.followupsNodup.sublist hids
      · exact (hmem _ (List.mem_map_of_mem hj)).2
    · exact ⟨hnoted, trivial⟩

end followups

/-! ## Passes -/

section passes

variable {s₀ s s' : Store} {settings : Settings} {topic content projectId : String} {sourceId : ℕ}

/-- A job that is new keeps what holds, and the job of the message stands. -/
theorem Guard.accept {r : Unit} (h : Guard s₀ [] [] s)
    (hrun : OpsNative.accept sourceId topic content projectId s = .ok (r, s')) :
    Guard s₀ [] [] s' ∧ Stands sourceId s' := by
  unfold OpsNative.accept at hrun
  split_ifs at hrun
  cases hjob : s.job sourceId with
  | some row =>
    simp only [hjob] at hrun
    obtain ⟨-, rfl⟩ := Prod.mk.inj (Except.ok.inj hrun)
    exact ⟨h, row, hjob⟩
  | none =>
    simp only [hjob] at hrun
    obtain ⟨-, rfl⟩ := Prod.mk.inj (Except.ok.inj hrun)
    set new : Job :=
      ⟨sourceId, topic, content, none, .received, none, none, none, none, projectId⟩ with hnew
    have hjobs : ∀ i, Store.job { s with jobs := s.jobs ++ [new] } i =
        (s.job i).or (if sourceId = i then some new else none) := by
      intro i
      change Transaction.row Job.sourceId i (s.jobs ++ _) = _
      rw [row_append, row_cons]
      rfl
    refine ⟨⟨⟨?_, h.fine.followupsNodup, fun i => ?_, h.fine.answered, h.fine.executed,
        fun i => ?_, fun i j hj => ?_⟩, fun i j hj => ?_, by simp, by simp⟩, new, ?_⟩
    · exact nodup_insert h.fine.jobsNodup hjob
    · have hrank : Store.jobRank { s with jobs := s.jobs ++ [new] } i = s.jobRank i := by
        unfold Store.jobRank
        rw [hjobs]
        cases hi : s.job i with
        | some j => rfl
        | none =>
          rw [Option.none_or]
          split_ifs <;> rfl
      rw [hrank]
      exact h.fine.asked i
    · refine ⟨(h.fine.lasting i).kept, (h.fine.lasting i).stays, fun m hm hfinal => ?_⟩
      obtain ⟨j, hj, hphase⟩ := Option.map_eq_some_iff.1 ((h.fine.lasting i).ended m hm hfinal)
      rw [Store.jobPhase, hjobs, hj, ← hphase]
      rfl
    · rw [hjobs] at hj
      cases hi : s.job i with
      | some j' =>
        rw [hi, Option.some_or] at hj
        obtain rfl := Option.some.inj hj
        exact h.fine.sound i j' hi
      | none =>
        rw [hi, Option.none_or] at hj
        split_ifs at hj
        obtain rfl := Option.some.inj hj
        exact ⟨fun _ => .inl rfl, fun hready => by cases hready⟩
    · obtain ⟨j', hj', hphase⟩ := h.keeps i j hj
      refine ⟨j', ?_, hphase⟩
      rw [hjobs, hj']
      rfl
    · rw [hjobs, hjob, if_pos rfl]
      rfl

theorem Guard.setCursor (h : Guard s₀ [] [] s) (value : ℕ) :
    Guard s₀ [] [] { s with cursor := some value } :=
  ⟨⟨h.fine.jobsNodup, h.fine.followupsNodup, h.fine.asked, h.fine.answered, h.fine.executed,
    h.fine.lasting, h.fine.sound⟩, h.keeps, by simp, by simp⟩

theorem safe_accept (h : Guard s₀ [] [] s) :
    Safe s₀ [] [] (tx (.accept sourceId topic content projectId))
      (fun r t => r = .ok () → Stands sourceId t) s := by
  refine wp_tx h (fun _ hr => by cases hr) fun r t hrun => ?_
  obtain ⟨hguard, hstands⟩ := h.accept hrun
  exact ⟨hguard, fun _ => hstands⟩

variable {message : Incoming}

theorem safe_acceptMessage (h : Guard s₀ [] [] s) :
    Safe s₀ [] [] (acceptMessage settings message content) (fun _ _ => True) s := by
  unfold acceptMessage
  refine wp_bind (wp_attempt (wp_bind (wp_ofExcept h ?_)))
  have hunknown : ∀ t, Guard s₀ [] [] t → Safe s₀ [] [] (do
      let _ : Unit ← tx (.accept message.id message.subject content "infra-shared")
      tx (.set message.id { backend := some .manual, error := some "unknown_project" }))
      (fun _ _ => True) t := by
    intro t ht
    refine wp_bind ((safe_accept ht).mono fun r u hu hstands => ?_)
    cases r with
    | error e => trivial
    | ok _ =>
      obtain ⟨row, hrow⟩ := hstands rfl
      exact safe_set hu hrow (by simp) ⟨le_rfl, fun _ => rfl⟩
        (fun h => ⟨h.mission, h.response⟩) (fun _ => trivial) fun _ _ _ _ => trivial
  cases settings.selectProject message.subject with
  | error e =>
    cases e with
    | value _ => exact hunknown s h
    | _ => exact ⟨h, trivial⟩
  | ok project =>
    refine (safe_accept h).mono fun r t ht _ => ?_
    cases r with
    | ok _ => exact ⟨ht, trivial⟩
    | error e =>
      cases e with
      | value _ => exact hunknown t ht
      | _ => exact ⟨ht, trivial⟩

theorem safe_admitMessage {trusted : Bool} (h : Guard s₀ [] [] s) :
    Safe s₀ [] [] (admitMessage settings message trusted) (fun _ _ => True) s := by
  unfold admitMessage
  split
  · exact ⟨h, trivial⟩
  · split_ifs
    · exact safe_acceptMessage h
    · exact ⟨h, trivial⟩

theorem safe_intake {cursor : ℕ} {messages : List Incoming} (h : Guard s₀ [] [] s) :
    Safe s₀ [] [] (intake settings cursor messages) (fun _ _ => True) s := by
  induction messages generalizing s with
  | nil => exact ⟨h, trivial⟩
  | cons message messages ih =>
    unfold intake
    split_ifs
    · exact ih h
    · have hnext : ∀ t, Guard s₀ [] [] t → Safe s₀ [] [] (do
          let _ : Unit ← tx (.setCursor message.id)
          intake settings cursor messages) (fun _ _ => True) t := by
        intro t ht
        refine wp_bind (wp_tx ht (fun _ => trivial) fun r u hrun => ?_)
        obtain ⟨-, rfl⟩ := Prod.mk.inj (Except.ok.inj hrun)
        exact ⟨ht.setCursor _, ih (ht.setCursor _)⟩
      refine wp_bind (wp_silent h rfl fun r => ?_)
      cases r with
      | error e => trivial
      | ok trusted =>
        refine wp_bind ((safe_admitMessage h).mono fun r t ht _ => ?_)
        cases r with
        | error e => trivial
        | ok _ => exact hnext t ht

theorem safe_treat (h : Guard s₀ [] [] s) :
    Safe s₀ [] [] (treat settings) (fun _ _ => True) s := by
  refine wp_bind (wp_tx h (fun _ => trivial) fun jobs t hrun => ?_)
  obtain ⟨rfl, rfl⟩ := Prod.mk.inj (Except.ok.inj hrun)
  refine ⟨h, wp_bind ((safe_handleJobs (guard_pending h) (nodup_pending h.fine.jobsNodup)).mono
    fun r t ht _ => ?_)⟩
  cases r with
  | error e => trivial
  | ok _ => exact safe_approvalFollowups ht

theorem safe_pass (h : Guard s₀ [] [] s) :
    Safe s₀ [] [] (pass settings) (fun _ _ => True) s := by
  unfold pass
  refine wp_bind (wp_attempt (wp_bind (wp_tx h (fun _ => ⟨h, trivial⟩) fun cursor t hrun => ?_)))
  obtain ⟨rfl, rfl⟩ := Prod.mk.inj (Except.ok.inj hrun)
  refine ⟨h, ?_⟩
  cases s.cursor with
  | none => exact ⟨h, h, trivial⟩
  | some cursor =>
    refine wp_bind (wp_silent h rfl fun r => ?_)
    cases r with
    | error e => exact ⟨h, trivial⟩
    | ok messages =>
      refine wp_bind ((safe_intake h).mono fun r t ht _ => ?_)
      cases r with
      | error e => exact ⟨ht, trivial⟩
      | ok _ => exact (safe_treat ht).mono fun r u hu _ => ⟨hu, trivial⟩

theorem safe_start (h : Guard s₀ [] [] s) : Safe s₀ [] [] start (fun _ _ => True) s := by
  refine wp_bind (wp_tx h (fun _ => trivial) fun _ t hrun => ?_)
  obtain ⟨-, rfl⟩ := Prod.mk.inj (Except.ok.inj hrun)
  have hrepaired := h.repair
  refine ⟨hrepaired, wp_bind (wp_tx hrepaired (fun _ => trivial) fun cursor t hrun => ?_)⟩
  obtain ⟨rfl, rfl⟩ := Prod.mk.inj (Except.ok.inj hrun)
  refine ⟨hrepaired, ?_⟩
  cases s.repair.cursor with
  | some _ => exact ⟨hrepaired, trivial⟩
  | none =>
    refine wp_bind (wp_silent hrepaired rfl fun r => ?_)
    cases r with
    | error e => trivial
    | ok messages =>
      refine wp_tx hrepaired (fun _ => trivial) fun _ t hrun => ?_
      obtain ⟨-, rfl⟩ := Prod.mk.inj (Except.ok.inj hrun)
      exact ⟨hrepaired.setCursor _, trivial⟩

end passes

/-! ## Histories -/

/-- The file, and whether a process runs on it. -/
structure World where
  running : Bool
  store : Store

/-- A process starts or makes a pass, and it may be interrupted wherever it is. -/
inductive Turn : World → World → Prop where
  | start {s t : Store}
      (h : Finishes (I := nativeInterface) performNative start s (.ok ()) t) :
      Turn ⟨false, s⟩ ⟨true, t⟩
  | startInterrupted {s t : Store} (h : Reaches (I := nativeInterface) performNative start s t) :
      Turn ⟨false, s⟩ ⟨false, t⟩
  | pass {s t : Store} {r : Except Exc Unit} (settings : Settings)
      (h : Finishes (I := nativeInterface) performNative (pass settings) s r t) :
      Turn ⟨true, s⟩ ⟨true, t⟩
  | passInterrupted {s t : Store} (settings : Settings)
      (h : Reaches (I := nativeInterface) performNative (pass settings) s t) :
      Turn ⟨true, s⟩ ⟨false, t⟩

/-- What follows, one turn after the other. -/
abbrev History : World → World → Prop :=
  Relation.ReflTransGen Turn

theorem guard_start {s : Store} (h : Fine s) : Guard s [] [] s :=
  ⟨h, Keeps.refl s, by simp, by simp⟩

variable {w w' : World}

theorem turn_guard (h : Fine w.store) (hturn : Turn w w') : Guard w.store [] [] w'.store := by
  have hguard := guard_start h
  cases hturn with
  | start hf => exact (safe_start hguard).crash (reaches_of_finishes hf)
  | startInterrupted hr => exact (safe_start hguard).crash hr
  | pass settings hf => exact (safe_pass hguard).crash (reaches_of_finishes hf)
  | passInterrupted settings hr => exact (safe_pass hguard).crash hr

theorem history_guard (h : Fine w.store) (hhistory : History w w') :
    Guard w.store [] [] w'.store := by
  induction hhistory with
  | refl => exact guard_start h
  | tail _ hturn ih =>
    have hlast := turn_guard ih.fine hturn
    exact ⟨hlast.fine, ih.keeps.trans hlast.keeps, by simp, by simp⟩

/-- Whenever the worker is interrupted, a message has one job at most, for which Hermes is asked
once, and once more with the advanced reasoning; a response is sent once; an action is executed
right after its follow-up stopped waiting; and a job that is over stays so, from one operation to
the next and in every later state. -/
theorem one_delivery {w w' : World} (h : History ⟨false, .empty⟩ w) (h' : History w w') :
    (w.store.jobs.map Job.sourceId).Nodup ∧
      (∀ i, explains w.store.log i <+: [false, true] ∧ sends w.store.log i ≤ 1) ∧
      (∀ a, followupSends w.store.log a ≤ 1 ∧ Preceded a w.store.log) ∧
      (∀ i, Lasting (moves w.store.log i) (w.store.jobPhase i)) ∧ Keeps w.store w'.store := by
  have hguard := history_guard fine_empty h
  have hfine := hguard.fine
  exact ⟨hfine.jobsNodup, fun i => ⟨(hfine.asked i).attempts, (hfine.asked i).once⟩,
    fun a => ⟨(hfine.answered a).1, hfine.executed a⟩, hfine.lasting,
      (history_guard hfine h').keeps⟩

namespace Sample

/-- Every project is the same, and each job goes to the API. -/
def settings : Settings where
  generationEnabled := true
  operations := true
  parseAnswer _ := .ok ⟨.done, "all is well"⟩
  canonicalUuid := .ok
  requestId sourceId operation := toString sourceId ++ operation
  selectProject _ := .ok "infra-shared"
  selectBackend _ _ _ := some .api

/-- One message came in, and what is asked succeeds. -/
def calm : NativeChoice where
  fault := none
  answer
    | .messages _ => .ok [⟨1, "ops", some "check"⟩]
    | .trusted _ => .ok true
    | .executionMode => .ok .api
    | .availableCli => .ok []
    | .apiAllowed => .ok true
    | .createMission _ _ _ => .ok "m"
    | .listRecords _ => .ok []
    | .listActions _ _ => .ok [⟨"a", some "m", some "hermes-native", some "A", "succeeded"⟩]
    | .explain _ _ _ _ => .ok "{}"
    | .sendJob _ _ _ => .ok 7
    | .sendFollowup _ _ _ => .ok 8
    | .execute _ _ => .ok ⟨"a", some "m", some "hermes-native", some "A", "succeeded"⟩
    | .addRecord .. | .updateMission .. | .examine _ | .followups => .ok ()

def begun : Store :=
  { Store.empty with cursor := some 0 }

def delivered : Option Store :=
  ((pass settings).run performNative calm begun).map Prod.snd

theorem delivered_history : ∃ s, History ⟨false, .empty⟩ ⟨true, begun⟩ ∧
    History ⟨true, begun⟩ ⟨true, s⟩ ∧ InPhase 1 .delivered s := by
  have hstart : start.run performNative ⟨none, fun o => match o with
      | .messages _ => .ok []
      | o => calm.answer o⟩ .empty = some ((), begun) := rfl
  have hpass : ∃ s ∈ delivered, ((s.job 1).any fun j => j.phase = .delivered) = true := by
    decide +kernel
  obtain ⟨s, hs, hphase⟩ := hpass
  obtain ⟨⟨_, _⟩, hrun, rfl⟩ := Option.map_eq_some_iff.1 (Option.mem_def.1 hs)
  obtain ⟨hsome, hphase⟩ := (Option.any_eq_true_iff_get _ _).1 hphase
  exact ⟨_, .single (.start (finishes_of_run hstart)),
    .single (.pass settings (finishes_of_run hrun)), _, (Option.some_get hsome).symm,
    of_decide_eq_true hphase⟩

/-- The message was answered once. -/
theorem one_delivery_sample : ∃ s, InPhase 1 .delivered s ∧ (s.jobs.map Job.sourceId).Nodup ∧
    (∀ i, explains s.log i <+: [false, true] ∧ sends s.log i ≤ 1) ∧
    (∀ a, followupSends s.log a ≤ 1 ∧ Preceded a s.log) ∧
    (∀ i, Lasting (moves s.log i) (s.jobPhase i)) ∧ Keeps s s := by
  obtain ⟨s, hstart, hpass, hdelivered⟩ := delivered_history
  exact ⟨s, hdelivered, one_delivery (hstart.trans hpass) .refl⟩

end Sample

end OpsNative
