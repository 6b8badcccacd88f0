import OpsControlPlane.Safety.Deliveries

/-!
# Passes

A pass takes up the first twenty pending jobs, all of them in one try, and then the follow-ups.
`Course` is what a pass comes to until the follow-ups: the jobs that it takes up, and the one
for which a call raised where nothing but the pass catches it.

`served_iff` says when a pass takes up every job and the follow-ups, whatever the environment
answers.
-/

namespace OpsNative

open Transaction Calls Prog

/-! ## The course of a pass -/

/-- The call is made within the try of a generation. -/
def ExtOp.guarded : ExtOp → Bool
  | .explain _ _ _ _ => true
  | .listActions _ limit => limit = 20
  | .addRecord _ _ kind _ _ => kind = "analysis"
  | _ => false

structure Course where
  examined : List ℕ
  raised : Option ℕ
  followed : Bool

/-- The course after a call, which may have failed, until the follow-ups. -/
def Course.next (c : Course) (o : ExtOp) (failed : Bool) : Course :=
  if c.followed then c
  else
    match o with
    | .examine sourceId => { c with examined := c.examined ++ [sourceId] }
    | .followups => { c with followed := true }
    | o => if failed && !o.guarded then { c with raised := some (c.examined.getLastD 0) } else c

def Course.start : Course :=
  ⟨[], none, false⟩

/-- The answers of the environment: the actions of the broker have identifiers, and the marks of
a pass do not fail. -/
structure Weather (settings : Settings) where
  answer : (o : ExtOp) → Except Exc o.Reply
  identified : ∀ missionId limit actions, answer (.listActions missionId limit) = .ok actions →
    ∀ a ∈ actions, ∃ id, settings.canonicalUuid a.id = .ok id
  examine : ∀ sourceId, answer (.examine sourceId) = .ok ()
  followups : answer .followups = .ok ()

def Weather.choice {settings : Settings} (x : Weather settings) : NativeChoice :=
  ⟨none, x.answer⟩

def performWatched (settings : Settings) (o : NativeOp) (x : Weather settings)
    (u : Store × Course) : Except Exc o.Reply × (Store × Course) :=
  let (answer, s) := performNative o x.choice u.1
  match o with
  | .tx _ => (answer, s, u.2)
  | .ext o => (answer, s, u.2.next o (!(x.answer o).isOk))

def Store.live (s : Store) : List Job :=
  s.jobs.filter fun j => j.phase ∈ [.received, .prepared, .ready, .sending]

/-- Every job but the one for which a call raised is taken up, and so are the follow-ups. -/
def Course.Served (c : Course) (s : Store) : Prop :=
  (∀ j ∈ s.live, c.raised ≠ some j.sourceId → j.sourceId ∈ c.examined) ∧ c.followed = true

/-! ## Rules -/

section rules

variable {α β : Type} {settings : Settings} {s s' s₀ : Store} {c c' : Course} {js : List Job}
  {fs : List Followup} {R : α → Store → Prop} {R' : β → Store → Prop}

/-- What holds when the program ends, whatever the environment answers. -/
abbrev Watch (settings : Settings) (p : Native α) (Q : Except Exc α → Store × Course → Prop)
    (u : Store × Course) : Prop :=
  Wp (I := nativeInterface) (performWatched settings) (fun _ => True) p Q u

/-- The program returns and leaves the course, or a call has raised. -/
def Steady (c : Course) (R : α → Store → Prop) : Except Exc α → Store × Course → Prop
  | .ok a, u => u.2 = c ∧ R a u.1
  | .error _, u => u.2.raised ≠ none ∧ u.2.followed = false

variable {p : Native α} {P : Except Exc α → Store → Prop}

theorem watch_safe {Q : Except Exc α → Store × Course → Prop} (hp : Safe s₀ js fs p P s)
    (h : Watch settings p Q (s, c)) :
    Watch settings p (fun r u => (Guard s₀ js fs u.1 ∧ P r u.1) ∧ Q r u) (s, c) := by
  have hlift : Wp (I := nativeInterface) (performWatched settings)
      (fun u => Guard s₀ js fs u.1) p (fun r u => P r u.1) (s, c) := by
    refine Wp.lift (f := Prod.fst) (g := Weather.choice) (fun o x u => ?_) hp
    cases o with
    | tx t => exact ⟨rfl, rfl⟩
    | ext o => exact ⟨rfl, rfl⟩
  have hguard := hlift.weaken (D := fun _ => True) fun _ _ => trivial
  exact ((hguard.and h).weaken fun _ _ => trivial).mono fun _ _ _ hpost => hpost.2

variable {f : α → Native β}

theorem steady_bind (hp : Watch settings p (Steady c R) (s, c))
    (hf : ∀ a t, R a t → Watch settings (f a) (Steady c' R') (t, c)) :
    Watch settings (p >>= f) (Steady c' R') (s, c) := by
  refine wp_bind (hp.mono fun r u _ hr => ?_)
  cases r with
  | error e => exact hr
  | ok a =>
    obtain ⟨t, c⟩ := u
    obtain ⟨rfl, ha⟩ := hr
    exact hf a t ha

theorem steady_bind_safe (hsafe : Safe s₀ js fs p P s) (hp : Watch settings p (Steady c R) (s, c))
    (hf : ∀ a t, Guard s₀ js fs t → P (.ok a) t → R a t →
      Watch settings (f a) (Steady c' R') (t, c)) :
    Watch settings (p >>= f) (Steady c' R') (s, c) := by
  refine wp_bind ((watch_safe hsafe hp).mono fun r u _ hr => ?_)
  cases r with
  | error e => exact hr.2
  | ok a =>
    obtain ⟨t, c⟩ := u
    obtain ⟨⟨hguard, hP⟩, rfl, ha⟩ := hr
    exact hf a t hguard hP ha

theorem steady_pure {a : α} (h : R a s) :
    Watch settings (pure a : Native α) (Steady c R) (s, c) :=
  ⟨trivial, rfl, h⟩

theorem watch_tx {t : Tx} {r : t.Reply} {Q : Except Exc t.Reply → Store × Course → Prop}
    (hrun : t.run s = .ok (r, s')) (h : Q (.ok r) (s', c)) :
    Watch settings (tx t) Q (s, c) := by
  refine ⟨trivial, fun x => wp_ofExcept trivial ?_⟩
  have heq : performNative (.tx t) x.choice s = (.ok r, s') := by
    simp only [performNative, Weather.choice, hrun]
  change Q (performNative (.tx t) x.choice s).1 ((performNative (.tx t) x.choice s).2, c)
  rw [heq]
  exact h

variable {sourceId : ℕ} {row : Job}

theorem steady_set {patch : JobPatch} {R : Unit → Store → Prop} (h : Guard s₀ js fs s)
    (hrow : s.job sourceId = some row)
    (hR : ∀ t, t.job sourceId = some (patch.apply row) → R () t) :
    Watch settings (tx (.set sourceId patch)) (Steady c R) (s, c) := by
  obtain ⟨hjob, -, -, -⟩ := set_spec patch h.fine.jobsNodup hrow
  exact watch_tx rfl ⟨rfl, hR _ (by rw [hjob, if_pos rfl])⟩

theorem steady_reload {R : Job → Store → Prop} (hrow : s.job sourceId = some row) (hR : R row s) :
    Watch settings (reload sourceId) (Steady c R) (s, c) := by
  refine wp_bind (watch_tx rfl ?_)
  simp only [hrow]
  exact ⟨trivial, rfl, hR⟩

/-- A call that the pass alone would catch. -/
def ExtOp.plain : ExtOp → Bool
  | .examine _ | .followups => false
  | o => !o.guarded

variable {o : ExtOp}

theorem next_plain (hc : c.followed = false) (ho : o.plain = true) (failed : Bool) :
    c.next o failed = if failed then { c with raised := some (c.examined.getLastD 0) } else c := by
  unfold Course.next
  rw [hc]
  cases o <;> simp_all [ExtOp.plain]

theorem next_guarded (ho : o.guarded = true) (failed : Bool) : c.next o failed = c := by
  unfold Course.next
  split_ifs
  · rfl
  · cases o <;> simp_all [ExtOp.guarded]

theorem steady_ext {R : o.Reply → Store → Prop} (hc : c.followed = false) (ho : o.plain = true)
    (h : ∀ (x : Weather settings) a, x.answer o = .ok a → R a (noted o s)) :
    Watch settings (ext o) (Steady c R) (s, c) := by
  refine ⟨trivial, fun x => wp_ofExcept trivial ?_⟩
  change Steady c R (x.answer o) (noted o s, c.next o (!(x.answer o).isOk))
  rw [next_plain hc ho]
  cases ha : x.answer o with
  | error e => exact ⟨Option.some_ne_none _, hc⟩
  | ok a => exact ⟨rfl, h x a ha⟩

theorem steady_silent {R : o.Reply → Store → Prop} (hc : c.followed = false) (ho : o.plain = true)
    (hevent : o.event = none) (h : ∀ (x : Weather settings) a, x.answer o = .ok a → R a s) :
    Watch settings (ext o) (Steady c R) (s, c) := by
  refine steady_ext hc ho fun x a ha => ?_
  rw [noted_silent hevent]
  exact h x a ha

theorem watch_guarded (ho : o.guarded = true) :
    Watch settings (ext o) (fun _ u => u.2 = c) (s, c) := by
  refine ⟨trivial, fun x => wp_ofExcept trivial ?_⟩
  exact next_guarded ho _

/-- After the follow-ups are taken up the course does not change. -/
theorem watch_followed (p : Native α) (hc : c.followed = true) :
    Watch settings p (fun _ u => u.2 = c) (s, c) := by
  induction p generalizing s with
  | ret a => exact ⟨trivial, rfl⟩
  | fail e => exact ⟨trivial, rfl⟩
  | ask o k ih =>
    refine ⟨trivial, fun x => ?_⟩
    have hcourse : (performWatched settings o x (s, c)).2 =
        ((performNative o x.choice s).2, c) := by
      cases o with
      | tx t => rfl
      | ext o =>
        have hnext : c.next o (!(x.answer o).isOk) = c := by
          unfold Course.next
          rw [if_pos hc]
        exact Prod.ext rfl hnext
    rw [hcourse]
    exact ih _

theorem leaves_bind (hp : ∀ s, Watch settings p (fun _ u => u.2 = c) (s, c))
    (hf : ∀ a s, Watch settings (f a) (fun _ u => u.2 = c) (s, c)) (s : Store) :
    Watch settings (p >>= f) (fun _ u => u.2 = c) (s, c) := by
  refine wp_bind ((hp s).mono fun r u _ hr => ?_)
  cases r with
  | error e => exact hr
  | ok a =>
    obtain ⟨t, c⟩ := u
    obtain rfl : c = _ := hr
    exact hf a t

theorem leaves_tx (t : Tx) (s : Store) : Watch settings (tx t) (fun _ u => u.2 = c) (s, c) :=
  ⟨trivial, fun _ => wp_ofExcept trivial rfl⟩

theorem leaves_ofExcept (r : Except Exc α) (s : Store) :
    Watch settings (Prog.ofExcept r) (fun _ u => u.2 = c) (s, c) :=
  wp_ofExcept trivial rfl

end rules

/-! ## One job -/

section jobs

variable {settings : Settings} {s s₀ : Store} {c : Course} {js : List Job} {fs : List Followup}
  {job : Job}

theorem leaves_watchAll (sourceId : ℕ) (actions : List Action) (s : Store) :
    Watch settings (watchAll settings sourceId actions) (fun _ u => u.2 = c) (s, c) := by
  induction actions generalizing s with
  | nil => exact ⟨trivial, rfl⟩
  | cons action actions ih =>
    exact leaves_bind (leaves_ofExcept _) (fun actionId => leaves_bind (leaves_tx _)
      fun _ => ih) s

/-- Nothing that a generation does is the raise of a pass. -/
theorem leaves_generate (job : Job) (s : Store) :
    Watch settings (generate settings job) (fun _ u => u.2 = c) (s, c) := by
  have hask : ∀ s, Watch settings (askHermes settings job) (fun _ u => u.2 = c) (s, c) := by
    refine leaves_bind (fun s => watch_guarded rfl) fun raw => leaves_bind (leaves_ofExcept _)
      fun answer => ?_
    intro s
    split_ifs
    · refine leaves_bind (fun s => watch_guarded rfl) (fun raw => leaves_bind (leaves_ofExcept _)
        fun answer s => ?_) s
      split_ifs
      · exact ⟨trivial, rfl⟩
      · exact ⟨trivial, rfl⟩
    · exact ⟨trivial, rfl⟩
  refine leaves_bind hask (fun answer => leaves_bind (fun s => watch_guarded rfl) fun actions =>
    leaves_bind (leaves_watchAll _ _) fun _ s => ?_) s
  simp only
  split_ifs
  · exact ⟨trivial, rfl⟩
  · exact leaves_bind (fun s => watch_guarded rfl) (fun _ => leaves_bind (leaves_tx _)
      fun _ s => wp_pure trivial rfl) s

theorem steady_prepare (h : Guard s₀ js fs s) (hjob : s.job job.sourceId = some job)
    (hc : c.followed = false) : Watch settings (prepare settings job)
      (Steady c fun j _ => j.backend = job.backend) (s, c) := by
  unfold prepare
  split_ifs
  · refine steady_bind (steady_silent (R := fun _ t => t = s) hc rfl rfl fun _ _ _ => rfl)
      fun mission t ht => ?_
    subst ht
    refine steady_bind (steady_set h hjob fun t ht => ht) fun _ t ht => steady_reload ht ?_
    rfl
  · exact steady_pure rfl

theorem steady_watchAll {sourceId : ℕ} {actions : List Action}
    (hids : ∀ a ∈ actions, ∃ id, settings.canonicalUuid a.id = .ok id) :
    Watch settings (watchAll settings sourceId actions) (Steady c fun _ _ => True) (s, c) := by
  induction actions generalizing s with
  | nil => exact steady_pure trivial
  | cons action actions ih =>
    obtain ⟨actionId, hid⟩ := hids action List.mem_cons_self
    refine wp_bind (wp_ofExcept trivial ?_)
    rw [hid]
    have hrun : ∃ t, (Tx.watchApproval sourceId actionId).run s = .ok ((), t) := by
      change ∃ t, watchApproval sourceId actionId s = _
      unfold watchApproval
      split
      · exact ⟨_, rfl⟩
      · exact ⟨_, rfl⟩
    obtain ⟨t, hrun⟩ := hrun
    refine steady_bind (R := fun _ _ => True) (watch_tx hrun ⟨rfl, trivial⟩) fun _ t _ => ?_
    exact ih fun a ha => hids a (List.mem_cons_of_mem _ ha)

theorem steady_dispatch (h : Guard s₀ js fs s) (hjob : s.job job.sourceId = some job)
    (hc : c.followed = false) : Watch settings (dispatch settings job)
      (Steady c fun o _ => ∀ j, o = some j → j.backend ≠ none) (s, c) := by
  unfold dispatch
  split
  · next backend hbackend =>
    refine steady_pure fun j hj => ?_
    obtain rfl := Option.some.inj hj
    rw [hbackend]
    exact Option.some_ne_none _
  · refine steady_bind (steady_silent (R := fun _ t => t = s) hc rfl rfl fun _ _ _ => rfl)
      fun mode t ht => ?_
    subst ht
    refine steady_bind (steady_silent (R := fun _ u => u = t) hc rfl rfl fun _ _ _ => rfl)
      fun tools u hu => ?_
    subst hu
    split
    · exact steady_pure fun _ hj => (by cases hj)
    · refine steady_bind (steady_set h hjob fun t ht => ht) fun _ t ht =>
        steady_bind (steady_reload (R := fun j _ => j.backend ≠ none) ht ?_) fun j t hj => ?_
      · simp [JobPatch.apply]
      · refine steady_pure fun j' hj' => ?_
        obtain rfl := Option.some.inj hj'
        exact hj

theorem steady_acceptHandoff (h : Guard s₀ js fs s) (hjob : s.job job.sourceId = some job)
    (hc : c.followed = false) :
    Watch settings (acceptHandoff settings job) (Steady c fun _ _ => True) (s, c) := by
  unfold acceptHandoff
  split_ifs
  · exact steady_pure trivial
  · refine steady_bind (steady_silent (R := fun _ t => t = s) hc rfl rfl fun _ _ _ => rfl)
      fun records t ht => ?_
    subst ht
    split
    · exact steady_pure trivial
    · refine steady_bind (steady_silent (R := fun actions u => u = t ∧
        ∀ a ∈ actions, ∃ id, settings.canonicalUuid a.id = .ok id) hc rfl rfl
        fun x actions hactions => ⟨rfl, x.identified _ _ _ hactions⟩) fun actions u hu => ?_
      obtain ⟨rfl, hids⟩ := hu
      refine steady_bind_safe (safe_watchAll h) (steady_watchAll fun a ha =>
        hids a (List.mem_of_mem_filter ha)) fun _ v hv hsame _ => ?_
      have hrow : v.job job.sourceId = some job := by
        unfold Store.job
        rw [hsame.1]
        exact hjob
      exact steady_bind (steady_set (R := fun _ _ => True) hv hrow fun _ _ => trivial)
        fun _ _ _ => steady_pure trivial
    · exact steady_bind (steady_set (R := fun _ _ => True) h hjob fun _ _ => trivial)
        fun _ _ _ => steady_pure trivial

theorem steady_record (h : Guard s₀ js fs s) (hjob : s.job job.sourceId = some job)
    (hjs : ∀ j ∈ js, j.sourceId ≠ job.sourceId) (hbackend : job.backend ≠ none)
    (hc : c.followed = false) :
    Watch settings (record settings job) (Steady c fun _ _ => True) (s, c) := by
  unfold record
  split_ifs
  · split
    · next hnone => exact absurd hnone hbackend
    · refine steady_bind (steady_silent (R := fun _ t => t = s) hc rfl rfl fun _ _ _ => rfl)
        fun _ t ht => ?_
      subst ht
      refine steady_bind (steady_silent (R := fun _ u => u = t) hc rfl rfl fun _ _ _ => rfl)
        fun _ u hu => ?_
      subst hu
      refine steady_bind_safe (safe_acceptHandoff h hjob hjs) (steady_acceptHandoff h hjob hc)
        fun _ v _ hstands _ => ?_
      obtain ⟨row, hrow⟩ := hstands
      exact steady_reload hrow trivial
  · exact steady_pure trivial

theorem steady_refuse (h : Guard s₀ js fs s) (hjob : s.job job.sourceId = some job) :
    Watch settings (refuse job) (Steady c fun _ _ => True) (s, c) := by
  unfold refuse
  split_ifs
  · exact steady_bind (steady_set h hjob fun t ht => ht) fun _ t ht => steady_reload ht trivial
  · exact steady_pure trivial

theorem steady_mayProcess (hc : c.followed = false) :
    Watch settings (mayProcess settings job) (Steady c fun _ _ => True) (s, c) := by
  unfold mayProcess
  split_ifs
  · exact steady_bind (steady_silent (R := fun _ _ => True) hc rfl rfl fun _ _ _ => trivial)
      fun _ _ _ => steady_pure trivial
  · exact steady_pure trivial

/-- A generation may fail, and the response is then none. -/
theorem steady_respond (h : Guard s₀ js fs s) (hjob : s.job job.sourceId = some job)
    (hjs : ∀ j ∈ js, j.sourceId ≠ job.sourceId) :
    Watch settings (respond settings job) (Steady c fun _ _ => True) (s, c) := by
  unfold respond
  split_ifs with hphase
  · refine steady_bind_safe (safe_begin h hjob hjs hphase)
      (steady_set (R := fun _ _ => True) h hjob fun _ _ => trivial) fun _ t ht hbegun _ => ?_
    obtain ⟨hin, hnone⟩ := hbegun rfl
    refine wp_bind (wp_attempt ((watch_safe (safe_generate ht hjs hin hnone)
      (leaves_generate job t)).mono fun r u _ hr => ?_))
    obtain ⟨u, c'⟩ := u
    obtain ⟨⟨hu, hpost⟩, hcourse⟩ := hr
    obtain rfl : c' = c := hcourse
    cases r with
    | ok _ =>
      obtain ⟨row, hrow⟩ := hpost
      exact steady_bind (steady_reload (R := fun _ _ => True) hrow trivial)
        fun _ _ _ => steady_pure trivial
    | error e =>
      obtain ⟨row, hrow, -⟩ := hpost
      exact steady_bind (steady_set (R := fun _ _ => True) hu hrow fun _ _ => trivial)
        fun _ _ _ => steady_pure trivial
  · exact steady_pure trivial

theorem steady_deliver (h : Guard s₀ js fs s) (hjob : s.job job.sourceId = some job)
    (hjs : ∀ j ∈ js, j.sourceId ≠ job.sourceId) (hc : c.followed = false) :
    Watch settings (deliver settings job) (Steady c fun _ _ => True) (s, c) := by
  have hsound := h.fine.sound _ job hjob
  unfold deliver
  by_cases hphase : job.phase = .ready ∨ job.phase = .sending
  · rw [if_pos hphase]
    cases hmission : job.missionId with
    | none =>
      rcases hsound.mission hmission with hreceived | hfinal
      · rw [hreceived] at hphase
        exact absurd hphase (by decide)
      · unfold Phase.final at hfinal
        rcases hphase with hready | hready <;> simp [hready] at hfinal
    | some mission =>
      by_cases hsending : job.phase = .sending
      · simp only [if_pos hsending]
        exact steady_bind (steady_set (R := fun _ _ => True) h hjob fun _ _ => trivial)
          fun _ _ _ => steady_pure trivial
      · simp only [if_neg hsending]
        have hready := hphase.resolve_right hsending
        refine steady_bind_safe (safe_beginDelivery h hjob hjs hready)
          (steady_set (R := fun _ _ => True) h hjob fun _ _ => trivial) fun _ t ht hbegun _ => ?_
        obtain ⟨row, hrow, hrowPhase, hunsent⟩ := hbegun rfl
        cases hresponse : job.response with
        | none => exact absurd hresponse (hsound.response hready)
        | some response =>
          have hsent := ht.sendJob hrow hrowPhase hunsent
          refine steady_bind (steady_ext (R := fun _ u => u = noted (.sendJob job.sourceId job.topic
            _) t) hc rfl fun _ _ _ => rfl) fun delivery u hu => ?_
          subst hu
          refine steady_bind (steady_set (R := fun _ _ => True) hsent hrow fun _ _ => trivial)
            fun _ v _ => ?_
          exact steady_bind (steady_silent (R := fun _ _ => True) hc rfl rfl
            fun _ _ _ => trivial) fun _ _ _ => steady_pure trivial
  · rw [if_neg hphase]
    exact steady_pure trivial

theorem steady_process (h : Guard s₀ js fs s) (hjob : s.job job.sourceId = some job)
    (hjs : ∀ j ∈ js, j.sourceId ≠ job.sourceId) (hc : c.followed = false) :
    Watch settings (process settings job) (Steady c fun _ _ => True) (s, c) := by
  unfold process
  refine steady_bind_safe (safe_prepare h hjob hjs) (steady_prepare h hjob hc)
    fun job₁ t ht hheld _ => ?_
  obtain ⟨hid₁, hjob₁⟩ := hheld
  rw [← hid₁] at hjob₁ hjs
  refine steady_bind_safe (safe_respond ht hjob₁ hjs) (steady_respond ht hjob₁ hjs)
    fun answered u hu hheld _ => ?_
  cases answered with
  | none => exact steady_pure trivial
  | some job₂ =>
    obtain ⟨hid₂, hjob₂⟩ := hheld job₂ rfl
    rw [← hid₂] at hjob₂ hjs
    exact steady_deliver hu hjob₂ hjs hc

/-- A job is taken up, and all that is done for it goes through unless a call raises. -/
theorem steady_handleJob (h : Guard s₀ js fs s) (hjob : s.job job.sourceId = some job)
    (hjs : ∀ j ∈ js, j.sourceId ≠ job.sourceId) (hc : c.followed = false) :
    Watch settings (handleJob settings job)
      (Steady { c with examined := c.examined ++ [job.sourceId] } fun _ _ => True) (s, c) := by
  set c' : Course := { c with examined := c.examined ++ [job.sourceId] } with hc'
  have hexamine : Watch settings (ext (.examine job.sourceId))
      (Steady c' fun _ t => t = noted (.examine job.sourceId) s) (s, c) := by
    refine ⟨trivial, fun x => wp_ofExcept trivial ?_⟩
    have hnext (failed : Bool) : c.next (.examine job.sourceId) failed = c' := by
      unfold Course.next
      rw [if_neg (by simp [hc])]
    change Steady c' _ (x.answer (.examine job.sourceId)) (_, c.next _ _)
    rw [hnext, x.examine]
    exact ⟨rfl, rfl⟩
  have hnoted : Guard s₀ js fs (noted (.examine job.sourceId) s) := h.note (by
    intro e he
    obtain rfl := List.mem_singleton.1 he
    trivial) fun _ => rfl
  refine wp_bind (hexamine.mono fun r u _ hr => ?_)
  cases r with
  | error e => exact hr
  | ok _ =>
    obtain ⟨t, d⟩ := u
    obtain ⟨rfl, rfl⟩ := hr
    refine steady_bind_safe (safe_dispatch hnoted hjob hjs) (steady_dispatch hnoted hjob hc)
      fun dispatched t ht hheld hbackend => ?_
    cases dispatched with
    | none => exact steady_pure trivial
    | some job₁ =>
      have hbackend₁ := hbackend job₁ rfl
      obtain ⟨hid₁, hjob₁⟩ := hheld job₁ rfl
      rw [← hid₁] at hjob₁ hjs
      refine steady_bind_safe (safe_prepare ht hjob₁ hjs) (steady_prepare ht hjob₁ hc)
        fun job₂ u hu hheld hbackend₂ => ?_
      obtain ⟨hid₂, hjob₂⟩ := hheld
      rw [← hid₂] at hjob₂ hjs
      refine steady_bind_safe (safe_record hu hjob₂ hjs) (steady_record hu hjob₂ hjs
        (by rw [hbackend₂]; exact hbackend₁) hc) fun job₃ v hv hheld _ => ?_
      obtain ⟨hid₃, hjob₃⟩ := hheld
      rw [← hid₃] at hjob₃ hjs
      refine steady_bind_safe (safe_refuse hv hjob₃ hjs) (steady_refuse hv hjob₃)
        fun job₄ w hw hheld _ => ?_
      obtain ⟨hid₄, hjob₄⟩ := hheld
      rw [← hid₄] at hjob₄ hjs
      refine steady_bind_safe (safe_mayProcess hw) (steady_mayProcess hc) fun may x hx hsame _ => ?_
      subst hsame
      split_ifs
      · exact steady_process hw hjob₄ hjs hc
      · exact steady_pure trivial

/-- The jobs are taken up in their order unless a call raises. -/
theorem steady_handleJobs {jobs : List Job} (h : Guard s₀ jobs fs s)
    (hnodup : (jobs.map Job.sourceId).Nodup) (hc : c.followed = false) :
    Watch settings (handleJobs settings jobs)
      (Steady { c with examined := c.examined ++ jobs.map Job.sourceId } fun _ _ => True)
      (s, c) := by
  induction jobs generalizing s c with
  | nil =>
    rw [List.map_nil, List.append_nil]
    exact steady_pure trivial
  | cons job jobs ih =>
    obtain ⟨hjs, hrest, hjob, hnodup⟩ := guard_cons h hnodup
    refine wp_bind ((watch_safe (safe_handleJob hrest hjob hjs)
      (steady_handleJob hrest hjob hjs hc)).mono fun r u _ hr => ?_)
    cases r with
    | error e => exact hr.2
    | ok _ =>
      obtain ⟨t, d⟩ := u
      obtain ⟨⟨ht, -⟩, rfl, -⟩ := hr
      have hlast := ih ht hnodup (c := { c with examined := c.examined ++ [job.sourceId] }) hc
      rw [List.append_assoc] at hlast
      exact hlast

end jobs

/-! ## The jobs of a pass -/

section passes

variable {settings : Settings} {s : Store}

theorem watch_followups {examined : List ℕ} : Watch settings (ext .followups)
    (fun r u => r = .ok () ∧ u.2 = ⟨examined, none, true⟩) (s, ⟨examined, none, false⟩) :=
  ⟨trivial, fun x => wp_ofExcept trivial ⟨x.followups, rfl⟩⟩

/-- What a pass comes to: it takes up the jobs that are pending and then the follow-ups, or a
call raises and it does not come to the follow-ups. -/
theorem watch_treat (h : Fine s) : Watch settings (treat settings) (fun _ u =>
    u.2 = ⟨(pending s).map Job.sourceId, none, true⟩ ∨
      u.2.raised ≠ none ∧ u.2.followed = false) (s, .start) := by
  refine wp_bind (watch_tx (r := pending s) rfl (wp_bind ((steady_handleJobs
    (guard_pending (guard_start h)) (nodup_pending h.jobsNodup) rfl).mono fun r u _ hr => ?_)))
  cases r with
  | error e => exact .inr hr
  | ok _ =>
    obtain ⟨t, d⟩ := u
    obtain ⟨rfl, -⟩ := hr
    refine wp_bind (watch_followups.mono fun r u _ hr => ?_)
    obtain ⟨t, d⟩ := u
    obtain ⟨rfl, rfl⟩ := hr
    exact (watch_followed _ rfl).mono fun r u _ hu => .inl hu

theorem pending_perm (h : s.live.length ≤ 20) : (pending s).Perm s.live := by
  have hperm := List.perm_insertionSort (fun a b : Job => a.sourceId ≤ b.sourceId) s.live
  have htake : pending s = s.live.insertionSort fun a b => a.sourceId ≤ b.sourceId :=
    List.take_of_length_le (hperm.length_eq.le.trans h)
  rw [htake]
  exact hperm

theorem served_of_fine (h : Fine s) {t : Store} {c : Course} {r : Except Exc Unit}
    (hrun : Finishes (I := nativeInterface) (performWatched settings) (treat settings) (s, .start)
      r (t, c)) :
    c.Served s ↔ s.live.length ≤ 20 ∧ c.raised = none := by
  rcases (watch_treat h).finish hrun with hc | ⟨hraised, hfollowed⟩
  · obtain rfl : c = _ := hc
    constructor
    · rintro ⟨hserved, -⟩
      have hnodup : (s.live.map Job.sourceId).Nodup :=
        h.jobsNodup.sublist (List.filter_sublist.map _)
      have hsub : s.live.map Job.sourceId ⊆ (pending s).map Job.sourceId := by
        intro i hi
        obtain ⟨j, hj, rfl⟩ := List.mem_map.1 hi
        exact hserved j hj nofun
      have hlength := (hnodup.subperm hsub).length_le
      rw [List.length_map, List.length_map] at hlength
      exact ⟨hlength.trans (List.length_take_le _ _), rfl⟩
    · rintro ⟨hlive, -⟩
      exact ⟨fun j hj _ => List.mem_map_of_mem ((pending_perm hlive).mem_iff.2 hj), rfl⟩
  · constructor
    · rintro ⟨-, htrue⟩
      rw [show c.followed = false from hfollowed] at htrue
      cases htrue
    · rintro ⟨-, hnone⟩
      exact absurd hnone hraised

/-- A pass takes up every job and the follow-ups exactly when no more than twenty jobs are live
and no call raises outside a generation. -/
theorem served_iff {b : Bool} {t : Store} {c : Course} {r : Except Exc Unit}
    (h : History ⟨false, .empty⟩ ⟨b, s⟩)
    (hrun : Finishes (I := nativeInterface) (performWatched settings) (treat settings) (s, .start)
      r (t, c)) :
    c.Served s ↔ s.live.length ≤ 20 ∧ c.raised = none :=
  served_of_fine (history_guard fine_empty h).fine hrun

end passes

namespace Sample

def waiting : Settings :=
  { settings with selectBackend := fun _ _ _ => none }

/-- Twenty-one messages came in. -/
def crowd : Weather waiting where
  answer
    | .messages _ => .ok ((List.range 21).map fun i => ⟨i + 1, "ops", some "check"⟩)
    | .listActions _ _ => .ok []
    | o => calm.answer o
  identified := by
    intro missionId limit actions hactions a ha
    obtain rfl := Except.ok.inj hactions
    cases ha
  examine _ := rfl
  followups := rfl

/-- The store after a pass with the messages. -/
def crowded : Option Store :=
  ((pass waiting).run performNative crowd.choice begun).map Prod.snd

theorem crowded_history : ∃ s t c, History ⟨false, .empty⟩ ⟨true, s⟩ ∧
    Finishes (I := nativeInterface) (performWatched waiting) (treat waiting) (s, .start)
      (.ok ()) (t, c) ∧ s.live.length = 21 ∧ c.raised = none := by
  have hstart : start.run performNative ⟨none, fun o => match o with
      | .messages _ => .ok []
      | o => calm.answer o⟩ .empty = some ((), begun) := rfl
  have hpass : ∃ s ∈ crowded, s.live.length = 21 ∧
      ((treat waiting).run (performWatched waiting) crowd (s, .start)).any
        (fun u => u.2.2.raised = none) = true := by
    decide +kernel
  obtain ⟨s, hs, hlive, htreat⟩ := hpass
  obtain ⟨⟨_, _⟩, hrun, rfl⟩ := Option.map_eq_some_iff.1 (Option.mem_def.1 hs)
  obtain ⟨hsome, hraised⟩ := (Option.any_eq_true_iff_get _ _).1 htreat
  exact ⟨_, _, _, (Relation.ReflTransGen.single (.start (finishes_of_run hstart))).tail
    (.pass waiting (finishes_of_run hrun)), finishes_of_run (Option.some_get hsome).symm, hlive,
    of_decide_eq_true hraised⟩

/-- The first twenty of twenty-one jobs wait for a backend, and the last one is not taken up. -/
theorem last_unserved : ∃ s t c, History ⟨false, .empty⟩ ⟨true, s⟩ ∧
    Finishes (I := nativeInterface) (performWatched waiting) (treat waiting) (s, .start)
      (.ok ()) (t, c) ∧ c.raised = none ∧ ¬ c.Served s := by
  obtain ⟨s, t, c, hhistory, hrun, hlive, hraised⟩ := crowded_history
  refine ⟨s, t, c, hhistory, hrun, hraised, fun hserved => ?_⟩
  have hfine := (history_guard fine_empty hhistory).fine
  have hfew : s.live.length ≤ 20 := ((served_of_fine hfine hrun).1 hserved).1
  omega

theorem served_iff_sample : ∃ s t c, History ⟨false, .empty⟩ ⟨true, s⟩ ∧
    Finishes (I := nativeInterface) (performWatched waiting) (treat waiting) (s, .start)
      (.ok ()) (t, c) ∧ (c.Served s ↔ s.live.length ≤ 20 ∧ c.raised = none) := by
  obtain ⟨s, t, c, hhistory, hrun, -, -⟩ := crowded_history
  exact ⟨s, t, c, hhistory, hrun, served_iff hhistory hrun⟩

end Sample

end OpsNative
