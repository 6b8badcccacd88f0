import OpsControlPlane.Orchestrator.Service

/-!
# Reservations and verifications of a route

`phase` reads off what a route has said which reservation it holds, and `Allowed` says what it
may ask then: a reservation when it holds none, a call of the provider that it has just
reserved for, the end of the reservation that it holds, and the end of the route when it holds
none. `routeRequest_obeys` shows that every route keeps to this, and what it returns.
-/

namespace OpsOrchestrator

open Transaction Calls

variable {F : Type} [Host F]

/-! ## Phases -/

abbrev Said (F : Type) [Host F] : Type :=
  Prog.Said (routeInterface F)

inductive Phase (F : Type) where
  | idle
  | holds (provider : ProviderConfig) (callId : String) (used : Bool)
  | finished (status : String) (decision : RouteDecision F)

def Phase.use : Phase F → Phase F
  | .idle => .idle
  | .holds p id _ => .holds p id true
  | .finished status d => .finished status d

def Phase.step (ph : Phase F) : Said F → Phase F
  | ⟨.ledger (.tx (.reserve a)), Except.ok r⟩ => .holds a.provider (Reservation.callId r) false
  | ⟨.ledger (.tx (.complete _)), Except.ok _⟩ => .idle
  | ⟨.ledger (.tx (.markUncertain _)), Except.ok _⟩ => .idle
  | ⟨.env (.invoke _ _ _), _⟩ => ph.use
  | ⟨.env (.finishRun _ status d _), Except.ok _⟩ => .finished status d
  | _ => ph

def phase (h : List (Said F)) : Phase F :=
  h.foldl Phase.step .idle

theorem phase_append (h : List (Said F)) (a : Said F) : phase (h ++ [a]) = (phase h).step a := by
  rw [phase, List.foldl_append]
  rfl

def Allowed (h : List (Said F)) : RouteOp F → Prop
  | .ledger (.tx (.reserve _)) => phase h = .idle
  | .ledger (.tx (.complete a)) => ∃ p used, phase h = .holds p a.callId used
  | .ledger (.tx (.markUncertain a)) => ∀ p id used, phase h = .holds p id used → a.callId = id
  | .env (.invoke p _ _) => ∃ id, phase h = .holds p id false
  | .env (.finishRun _ _ _ _) => phase h = .idle
  | _ => True

/-- The operation leaves the phase as it is. -/
def Neutral : RouteOp F → Prop
  | .ledger (.tx _) => False
  | .env (.invoke _ _ _) => False
  | .env (.finishRun _ _ _ _) => False
  | _ => True

theorem Neutral.step {o : RouteOp F} (h : Neutral o) (ph : Phase F) (x : o.Ans) :
    ph.step ⟨o, x⟩ = ph := by
  cases o with
  | ledger o =>
    cases o with
    | tx t => cases h
    | now => rfl
    | uuid4 => rfl
  | env o =>
    cases o with
    | invoke p q n => cases h
    | finishRun id status d ms => cases h
    | _ => rfl

theorem Neutral.allowed {o : RouteOp F} (ho : Neutral o) (h : List (Said F)) : Allowed h o := by
  cases o with
  | ledger o =>
    cases o with
    | tx t => cases ho
    | now => trivial
    | uuid4 => trivial
  | env o =>
    cases o with
    | invoke p q n => cases ho
    | finishRun id status d ms => cases ho
    | _ => trivial

/-! ## Rules -/

section rules

variable {α β : Type} {h : List (Said F)}

/-- The program asks what is allowed, and returns what `Q` says. -/
abbrev Obeys (p : RouteMethod F α) (Q : List (Said F) → α → Prop) (h : List (Said F)) : Prop :=
  Prog.Trail Allowed Q (fun _ _ => True) p h

/-- The program leaves the phase as it is, and returns what `R` says. -/
def Quiet (p : RouteMethod F α) (R : α → Prop) : Prop :=
  ∀ h, Prog.Trail (fun _ o => Neutral o) (fun _ a => R a) (fun _ _ => True) p h

variable {p : RouteMethod F α}

variable {R : α → Prop}

theorem Quiet.bind {f : α → RouteMethod F β} {Q : β → Prop} (hp : Quiet p R)
    (hf : ∀ a, R a → Quiet (f a) Q) : Quiet (p >>= f) Q := by
  intro h
  rw [Prog.trail_bind]
  exact (hp h).mono (fun _ _ h => h) (fun h' a ha => hf a ha h') fun _ _ h => h

theorem quiet_pure {a : α} (ha : R a) : Quiet (pure a : RouteMethod F α) R :=
  fun _ => ha

theorem Quiet.mono {R' : α → Prop} (hp : Quiet p R) (hR : ∀ a, R a → R' a) : Quiet p R' :=
  fun h => (hp h).mono (fun _ _ h => h) (fun _ a ha => hR a ha) fun _ _ h => h

theorem quiet_ask {o : EnvOp F} (ho : Neutral (.env o)) : Quiet (ask o) fun _ => True := by
  intro h
  rw [ask, Prog.trail_bind]
  refine ⟨ho, fun r => ?_⟩
  exact (Prog.trail_ofExcept (r : Except Exc o.Reply) _).2
    ⟨fun _ _ => trivial, fun _ _ => trivial⟩

theorem Quiet.attempt (hp : Quiet p R) : Quiet p.attempt fun r => ∀ a, r = .ok a → R a := by
  intro h
  rw [Prog.trail_attempt]
  refine (hp h).mono (fun _ _ h => h) (fun _ a ha b hb => ?_) fun _ e _ b hb => ?_
  · obtain rfl := Except.ok.inj hb
    exact ha
  · cases hb

theorem Quiet.catchConfiguration (hp : Quiet p R) :
    Quiet (catchConfiguration p) fun r => ∀ a, r = .ok a → R a := by
  refine hp.attempt.bind fun r hr => ?_
  split
  · exact quiet_pure fun b hb => hr b (congrArg Except.ok (Except.ok.inj hb))
  · exact quiet_pure fun a ha => by cases ha
  · exact fun _ => trivial

theorem Quiet.obeys (hp : Quiet p R) (h : List (Said F)) :
    Obeys p (fun h' a => phase h' = phase h ∧ R a) h := by
  suffices ∀ h', phase h' = phase h →
      Prog.Trail (fun _ o => Neutral o) (fun _ a => R a) (fun _ _ => True) p h' →
      Obeys p (fun h' a => phase h' = phase h ∧ R a) h' from this h rfl (hp h)
  clear hp
  induction p with
  | ret a => exact fun h' hph hR => ⟨hph, hR⟩
  | fail e => exact fun _ _ _ => trivial
  | ask o k ih =>
    intro h' hph ht
    refine ⟨ht.1.allowed h', fun x => ih x _ ?_ (ht.2 x)⟩
    rw [phase_append, ht.1.step, hph]

end rules

/-! ## The ledger -/

section ledger

variable {h : List (Said F)}

/-- The rule of a transaction of the ledger. -/
theorem commitTx_obeys {t : LedgerTx} {Q : List (Said F) → Except Exc t.Reply → Prop}
    (ha : Allowed h (.ledger (.tx t)))
    (hok : ∀ r, Q (h ++ [⟨.ledger (.tx t), Except.ok r⟩]) (.ok r))
    (herr : ∀ e, Q (h ++ [⟨.ledger (.tx t), Except.error e⟩]) (.error e)) :
    Obeys (ledger (commitTx t)).attempt Q h := by
  refine ⟨ha, fun x => ?_⟩
  have hx : ∀ x : Except Exc t.Reply, Obeys (Prog.ofExcept x : RouteMethod F t.Reply).attempt Q
      (h ++ [⟨.ledger (.tx t), x⟩]) := by
    intro x
    cases x with
    | ok r => exact hok r
    | error e => exact herr e
  have hx := hx x
  cases (x : Except Exc t.Reply) with
  | ok r => exact hx
  | error e => exact hx

/-- A route that holds no reservation holds the one that it is granted. -/
theorem reserve_obeys {q : ReserveCall} (hidle : phase h = .idle) :
    Obeys (ledger (reserve q)).attempt (fun h' r =>
      (∀ reservation, r = .ok reservation →
        phase h' = .holds q.provider reservation.callId false) ∧
      ∀ e, r = .error e → phase h' = .idle) h := by
  unfold reserve
  split_ifs with hrole
  · exact ⟨fun _ hr => (by cases hr), fun _ _ => hidle⟩
  · refine ⟨trivial, fun now => ⟨trivial, fun callId => ?_⟩⟩
    have hidle' : phase (h ++ [⟨.ledger .now, now⟩] ++ [⟨.ledger .uuid4, callId⟩]) = .idle := by
      rw [phase_append, phase_append, hidle]
      rfl
    refine commitTx_obeys hidle' (fun r => ⟨fun reservation hr => ?_, fun e he => ?_⟩)
      fun e => ⟨fun reservation hr => ?_, fun _ _ => ?_⟩
    · obtain rfl := Except.ok.inj hr
      rw [phase_append]
      rfl
    · cases he
    · cases hr
    · rw [phase_append, hidle']
      rfl

variable {reservation : Reservation}

/-- The end of a call that was made under its reservation. -/
theorem complete_obeys {inputTokens outputTokens : ℤ} {prices : Prices} {p : ProviderConfig}
    {used : Bool} (hph : phase h = .holds p reservation.callId used) :
    Obeys (ledger (complete reservation inputTokens outputTokens prices)).attempt (fun h' r =>
      (∀ cost, r = .ok cost → phase h' = .idle) ∧
      ∀ e, r = .error e → phase h' = .holds p reservation.callId used) h := by
  unfold complete
  split_ifs with hneg
  · exact ⟨fun _ hr => (by cases hr), fun _ _ => hph⟩
  · refine ⟨⟨p, used, hph⟩, fun x => ?_⟩
    cases (x : Except Exc Unit) with
    | ok r =>
      refine ⟨fun cost _ => ?_, fun e he => (by cases he)⟩
      rw [phase_append]
      rfl
    | error e =>
      refine ⟨fun cost hr => (by cases hr), fun _ _ => ?_⟩
      rw [phase_append, hph]
      rfl

theorem markUncertain_obeys {errorCode : String} {inputTokens outputTokens : Option ℤ}
    {prices : Option Prices}
    (hph : ∀ p id used, phase h = .holds p id used → reservation.callId = id) :
    Obeys (ledger (markUncertain reservation errorCode inputTokens outputTokens prices))
      (fun h' _ => phase h' = .idle) h := by
  refine ⟨hph, fun x => ?_⟩
  cases (x : Except Exc Unit) with
  | ok r =>
    show phase _ = _
    rw [phase_append]
    rfl
  | error e => trivial

end ledger

/-! ## Calls of providers -/

section calls

variable {cfg : Config F} {c : CallPlan F} {h h' : List (Said F)}

/-- How a call leaves the reservation that it was made under. -/
def Ran (c : CallPlan F) (n : ℤ) (h : List (Said F)) (t : Trial F) : Prop :=
  match t.outcome with
  | .ok (result, _) => phase h = .idle ∧
    (⟨.env (.invoke c.provider c.request n), Except.ok result⟩ : Said F) ∈ h
  | .error _ => ∀ p id used, phase h = .holds p id used → c.reservation.callId = id

variable {t : Trial F}

theorem Ran.keep {n : ℤ} (hr : Ran c n h t) (hph : phase h' = phase h) (hpre : h <+: h') :
    Ran c n h' t := by
  unfold Ran at hr ⊢
  split at hr
  · exact ⟨hph.trans hr.1, hpre.subset hr.2⟩
  · rw [hph]
    exact hr

variable (cfg) in
/-- A call of the provider that was reserved for is made once, and completes the reservation
or keeps it. -/
theorem runCall_obeys (hph : phase h = .holds c.provider c.reservation.callId false) :
    Obeys (runCall cfg c) (Ran c cfg.limits.maxOutputTokens) h := by
  have hheld : ∀ (h' : List (Said F)) (t : Trial F) (e : Exc) (used : Bool), t.outcome = .error e →
      phase h' = .holds c.provider c.reservation.callId used →
      Ran c cfg.limits.maxOutputTokens h' t := by
    intro h' t e used ht hph'
    rw [Ran, ht]
    intro p id used' heq
    rw [hph'] at heq
    exact (Phase.holds.inj heq).2.1
  have hinvoke : Obeys (ask (.invoke c.provider c.request cfg.limits.maxOutputTokens)).attempt
      (fun h' r => phase h' = .holds c.provider c.reservation.callId true ∧
        ∀ result, r = .ok result → (⟨.env (.invoke c.provider c.request
          cfg.limits.maxOutputTokens), Except.ok result⟩ : Said F) ∈ h') h := by
    refine ⟨⟨_, hph⟩, fun x => ?_⟩
    have hstep : phase
        (h ++ [⟨.env (.invoke c.provider c.request cfg.limits.maxOutputTokens), x⟩]) =
        .holds c.provider c.reservation.callId true := by
      rw [phase_append, hph]
      rfl
    cases (x : Except Exc (ProviderResult F)) with
    | ok result =>
      refine ⟨hstep, fun result' heq => ?_⟩
      obtain rfl := Except.ok.inj heq
      exact List.mem_append_right _ (List.mem_singleton.2 rfl)
    | error e => exact ⟨hstep, fun _ heq => (by cases heq)⟩
  unfold runCall
  refine hinvoke.bind fun h₁ r _ hr => ?_
  obtain ⟨hph₁, hmem⟩ := hr
  cases r with
  | error e => exact hheld h₁ _ e true rfl hph₁
  | ok result =>
    have hmem := hmem result rfl
    cases hrej : c.reject result with
    | some e =>
      simp only [hrej]
      exact hheld h₁ ⟨some result, c.prices, .error e⟩ e true rfl hph₁
    | none =>
      simp only [hrej]
      have hprice : Quiet (ask (.price c.provider result.inputTokens) : RouteMethod F Prices)
        fun _ => True := quiet_ask trivial
      refine (hprice.attempt.obeys h₁).bind fun h₂ r hpre₂ hr => ?_
      have hph₂ := hr.1.trans hph₁
      split
      · exact hheld h₂ _ _ true rfl hph₂
      · exact hheld h₂ _ _ true rfl hph₂
      · next prices =>
        split_ifs with hover
        · exact hheld h₂ _ _ true rfl hph₂
        · refine (complete_obeys hph₂).bind fun h₃ r hpre₃ hr => ?_
          cases r with
          | ok cost => exact ⟨hr.1 cost rfl, hpre₃.subset (hpre₂.subset hmem)⟩
          | error e => exact hheld h₃ _ e true rfl (hr.2 e rfl)

theorem reconcile_obeys {e : Exc}
    (hph : ∀ p id used, phase h = .holds p id used → c.reservation.callId = id) :
    Obeys (reconcile c t e) (fun h' _ => phase h' = .idle) h := by
  unfold reconcile
  split_ifs
  · exact markUncertain_obeys hph
  · trivial

theorem quiet_releaseIf (acquired : Bool) : Quiet (releaseIf acquired : RouteMethod F Unit)
    fun _ => True := by
  cases acquired with
  | true => exact quiet_ask trivial
  | false => exact quiet_pure trivial

theorem releaseAfter_obeys {acquired : Bool} {n : ℤ} (ht : Ran c n h t) :
    Obeys (releaseAfter acquired t) (Ran c n) h := by
  unfold releaseAfter
  refine ((quiet_releaseIf acquired).attempt.obeys h).bind fun h₁ r hpre hr => ?_
  cases r with
  | ok _ => exact ht.keep hr.1 hpre
  | error e =>
    show Ran c n h₁ { t with outcome := .error e }
    intro p id used hph
    rw [hr.1] at hph
    unfold Ran at ht
    split at ht
    · rw [ht.1] at hph
      cases hph
    · exact ht p id used hph

end calls

/-! ## Reports -/

section reports

variable {h : List (Said F)}

theorem quiet_trace (routeId : String) (request : RouteRequest F) (entry : TraceEntry F) :
    Quiet (trace routeId request entry) fun _ => True :=
  quiet_ask trivial

theorem quiet_increment (name : String) (labels : List (String × String)) :
    Quiet (increment name labels : RouteMethod F Unit) fun _ => True :=
  quiet_ask trivial

theorem reserveOrReport_obeys {routeId role : String} {request : RouteRequest F}
    {q : ReserveCall} {acquired : Bool} (hidle : phase h = .idle) :
    Obeys (reserveOrReport routeId request role q acquired) (fun h' r =>
      (∀ reservation, r = .ok reservation →
        phase h' = .holds q.provider reservation.callId false) ∧
      ∀ e, r = .error e → phase h' = .idle) h := by
  unfold reserveOrReport
  refine (reserve_obeys hidle).bind fun h₁ r _ hr => ?_
  split
  · next reservation =>
    exact ⟨fun reservation' heq => by
      obtain rfl := Except.ok.inj heq
      exact hr.1 _ rfl, fun _ heq => (by cases heq)⟩
  · next owner period limit =>
    have hph₁ := hr.2 _ rfl
    have hq : Quiet (do
        releaseIf acquired
        increment "budget_blocked" [("provider", owner), ("period", period)]
        let _ ← trace routeId request (providerEntry "BUDGET_BLOCK"
          (Exc.budgetExceeded owner period limit).text role q.provider (some q.model)
          request.confidence)
        return .error (Exc.budgetExceeded owner period limit).text :
        RouteMethod F (Except String Reservation)) fun r => ∀ reservation, r ≠ .ok reservation := by
      refine (quiet_releaseIf acquired).bind fun _ _ => ?_
      refine (quiet_increment _ _).bind fun _ _ => ?_
      exact (quiet_trace _ _ _).bind fun _ _ => quiet_pure fun _ heq => (by cases heq)
    refine (hq.obeys h₁).mono (fun _ _ h => h) (fun h₂ r hr₂ => ?_) fun _ _ h => h
    exact ⟨fun reservation heq => absurd heq (hr₂.2 reservation), fun _ _ => hr₂.1.trans hph₁⟩
  · have hq : Quiet (do
        releaseIf acquired
        .fail ‹Exc› : RouteMethod F (Except String Reservation)) fun _ => False :=
      (quiet_releaseIf acquired).bind fun _ _ _ => trivial
    exact (hq.obeys h₁).mono (fun _ _ h => h) (fun _ _ hr₂ => hr₂.2.elim) fun _ _ h => h

theorem quiet_verificationFailure (routeId : String) (request : RouteRequest F)
    (status reason : String) (candidate : Option Candidate) (model : Option String)
    (confidence : Option F) (summary : Option String) :
    Quiet (verificationFailure routeId request status reason candidate model confidence summary)
      fun o => o.status = status :=
  (quiet_trace _ _ _).bind fun _ _ => quiet_pure rfl

theorem quiet_estimate (request : RouteRequest F) (p : ProviderConfig) (outputTokens : ℤ) :
    Quiet (estimate request p outputTokens) fun _ => True := by
  unfold estimate
  have hq : Quiet (do
      let model ← ask (.resolvedModel p)
      let estimatedInput ← ask (.inputTokens request p.kind)
      let prices ← ask (.price p estimatedInput)
      return (model, estimatedCostMicrousd estimatedInput outputTokens prices) :
      RouteMethod F (String × ℤ)) fun _ => True :=
    (quiet_ask (by trivial)).bind fun _ _ => (quiet_ask (by trivial)).bind fun _ _ =>
      (quiet_ask (by trivial)).bind fun _ _ => quiet_pure trivial
  refine hq.catchConfiguration.bind fun r _ => ?_
  cases r <;> exact quiet_pure trivial

theorem quiet_prepare (request : RouteRequest F) (p : ProviderConfig) :
    Quiet (prepare request p) fun _ => True := by
  have hq : Quiet (do
      let model ← ask (.resolvedModel p)
      let estimatedInput ← ask (.inputTokens request p.kind)
      let prices ← ask (.price p estimatedInput)
      return (model, estimatedInput, prices) : RouteMethod F (String × ℤ × Prices))
      fun _ => True :=
    (quiet_ask (by trivial)).bind fun _ _ => (quiet_ask (by trivial)).bind fun _ _ =>
      (quiet_ask (by trivial)).bind fun _ _ => quiet_pure trivial
  exact hq.catchConfiguration.mono fun _ _ => trivial

theorem quiet_rank (routeId : String) (request : RouteRequest F) (outputTokens : ℤ)
    (usageRole rejection : String) (cs : List Candidate) (index : ℕ) :
    Quiet (rank routeId request outputTokens usageRole rejection cs index)
      fun ranked => ∀ x ∈ ranked, x.candidate ∈ cs := by
  induction cs generalizing index with
  | nil => exact quiet_pure (by simp)
  | cons c cs ih =>
    obtain ⟨role, p⟩ := c
    have hmore : ∀ {ranked : List Ranked}, (∀ x ∈ ranked, x.candidate ∈ cs) →
        ∀ x ∈ ranked, x.candidate ∈ (role, p) :: cs :=
      fun h x hx => List.mem_cons_of_mem _ (h x hx)
    unfold rank
    refine (quiet_ask (by trivial)).bind fun c _ => ?_
    split_ifs
    · refine (quiet_trace _ _ _).bind fun _ _ => ?_
      exact (ih index).mono fun _ => hmore
    · refine (quiet_estimate _ _ _).bind fun e _ => ?_
      refine (quiet_ask (by trivial)).bind fun sc _ => ?_
      refine (ih (index + 1)).bind fun rest hrest => quiet_pure ?_
      intro x hx
      rcases List.mem_cons.1 hx with rfl | hx
      · exact List.mem_cons_self
      · exact hmore hrest x hx

theorem quiet_sorted (routeId : String) (request : RouteRequest F) (usageRole : String)
    (ranked : List Ranked) : Quiet (sorted routeId request usageRole ranked)
      fun cs => ∀ c ∈ cs, ∃ x ∈ ranked, x.candidate = c := by
  unfold sorted
  simp only
  split_ifs
  · exact quiet_pure (by simp)
  · refine (quiet_ask (by trivial)).bind fun _ _ => quiet_pure ?_
    intro c hc
    obtain ⟨x, hx, rfl⟩ := List.mem_map.1 hc
    exact ⟨x, (List.mem_insertionSort _).1 hx, rfl⟩

theorem quiet_providersByEstimatedCost (cfg : Config F) (routeId : String) (role : Role)
    (request : RouteRequest F) : Quiet (providersByEstimatedCost cfg routeId role request)
      fun _ => True :=
  (quiet_rank _ _ _ _ _ _ _).bind fun _ _ => (quiet_sorted _ _ _ _).mono fun _ _ => trivial

theorem quiet_verificationCandidates (cfg : Config F) (routeId : String)
    (request : RouteRequest F) (executor : ExecutorResult F) :
    Quiet (verificationCandidates cfg routeId request executor) fun cs => ∀ c ∈ cs,
      c.2 ∈ cfg.providersByRole c.1 ∧ independent executor c.2 = true := by
  refine (quiet_rank _ _ _ _ _ _ _).bind fun ranked hranked => ?_
  refine (quiet_sorted _ _ _ _).mono fun cs hcs c hc => ?_
  obtain ⟨x, hx, rfl⟩ := hcs c hc
  obtain ⟨hmem, hind⟩ := List.mem_filter.1 (hranked x hx)
  obtain ⟨role, -, hrole⟩ := List.mem_flatMap.1 hmem
  obtain ⟨p, hp, heq⟩ := List.mem_map.1 hrole
  rw [← heq] at hind ⊢
  exact ⟨hp, hind⟩

end reports

/-! ## Verifications -/

section verifications

variable {cfg : Config F} {h h' : List (Said F)}

/-- A configured provider, independent of the executor, has been called and agrees. -/
structure VerifiedBy (cfg : Config F) (executor : ExecutorResult F) (h : List (Said F))
    (o : VerificationOutcome F) (role : Role) (p : ProviderConfig) (result : ProviderResult F) :
    Prop where
  configured : p ∈ cfg.providersByRole role
  independent : independent executor p = true
  called : ∃ q n, (⟨.env (.invoke p q n), Except.ok result⟩ : Said F) ∈ h
  agrees : agrees cfg result
  role : o.verifierRole = some role
  providerId : o.providerId = some p.providerId
  account : o.providerAccountId = p.accountId
  family : o.chatFamily = p.chatFamily
  confidence : o.confidence = some result.confidence

variable {executor : ExecutorResult F} {o : VerificationOutcome F} {result : ProviderResult F}
  {role : Role} {p : ProviderConfig}

theorem VerifiedBy.mono (hv : VerifiedBy cfg executor h o role p result) (hpre : h <+: h') :
    VerifiedBy cfg executor h' o role p result := by
  obtain ⟨q, n, hmem⟩ := hv.called
  exact { hv with called := ⟨q, n, hpre.subset hmem⟩ }

def Sound (cfg : Config F) (executor : ExecutorResult F) (h : List (Said F))
    (o : VerificationOutcome F) : Prop :=
  o.status = "agreed" → ∃ role p result, VerifiedBy cfg executor h o role p result

theorem sound_of_ne (hne : o.status ≠ "agreed") : Sound cfg executor h o :=
  fun heq => absurd heq hne

variable {v : Verification F}

theorem judge_obeys {model : String} {cost : ℤ} (hp : p ∈ cfg.providersByRole role)
    (hind : independent v.executor p = true)
    (hcalled : ∃ q n, (⟨.env (.invoke p q n), Except.ok result⟩ : Said F) ∈ h) :
    Obeys (judge cfg v role p model result cost) (fun h' o => phase h' = phase h ∧
      Sound cfg v.executor h' o) h := by
  have hq : Quiet (judge cfg v role p model result cost) fun o =>
      ∀ h', (∃ q n, (⟨.env (.invoke p q n), Except.ok result⟩ : Said F) ∈ h') →
        Sound cfg v.executor h' o := by
    unfold judge
    refine (quiet_increment _ _).bind fun _ _ => (quiet_trace _ _ _).bind fun _ _ => ?_
    by_cases hagrees : agrees cfg result
    · rw [if_pos hagrees]
      exact quiet_pure fun h' hc _ =>
        ⟨role, p, result, hp, hind, hc, hagrees, rfl, rfl, rfl, rfl, rfl⟩
    · rw [if_neg hagrees]
      refine (quiet_verificationFailure _ _ _ _ _ _ _ _).mono fun o ho h' _ => sound_of_ne ?_
      rw [ho]
      split_ifs <;> decide
  refine (hq.obeys h).extends.mono (fun _ _ h => h) (fun h' o ho => ?_) fun _ _ h => h
  obtain ⟨q, n, hmem⟩ := hcalled
  exact ⟨ho.2.1, ho.2.2 h' ⟨q, n, ho.1.subset hmem⟩⟩

def reportFailure (v : Verification F) (a : Attempts F) (status reason : String) :
    RouteMethod F (VerificationOutcome F × Bool) :=
  match a.lastFailure with
  | some failure => return (failure, a.degraded)
  | none => do
    let failure ← verificationFailure v.routeId v.request status reason none none none none
    return (failure, a.degraded)

/-- The loop over the verifiers calls each under its own reservation, and says agreed only of
one that agrees. -/
theorem verifyWith_obeys {cs : List Candidate} {a : Attempts F}
    (hcs : ∀ c ∈ cs, c.2 ∈ cfg.providersByRole c.1 ∧ independent v.executor c.2 = true)
    (ha : ∀ f ∈ a.lastFailure, f.status ≠ "agreed") (hidle : phase h = .idle) :
    Obeys (verifyWith cfg v cs a) (fun h' o => phase h' = .idle ∧ Sound cfg v.executor h' o.1)
      h := by
  have hfail : ∀ (h : List (Said F)) (a : Attempts F) (status reason : String),
      (∀ f ∈ a.lastFailure, f.status ≠ "agreed") → status ≠ "agreed" → phase h = .idle →
      Obeys (reportFailure v a status reason)
        (fun h' o => phase h' = .idle ∧ Sound cfg v.executor h' o.1) h := by
    intro h a status reason ha hne hidle
    unfold reportFailure
    cases hl : a.lastFailure with
    | some failure => exact ⟨hidle, sound_of_ne (ha failure hl)⟩
    | none =>
      refine ((quiet_verificationFailure _ _ _ _ _ _ _ _).obeys h).bind fun h₁ o _ ho => ?_
      exact ⟨ho.1.trans hidle, sound_of_ne (by rw [ho.2]; exact hne)⟩
  induction cs generalizing a h with
  | nil =>
    unfold verifyWith
    exact hfail h a _ _ ha (by decide) hidle
  | cons c cs ih =>
    obtain ⟨role, p⟩ := c
    obtain ⟨hp, hind⟩ := hcs (role, p) List.mem_cons_self
    have hcs' : ∀ c ∈ cs, c.2 ∈ cfg.providersByRole c.1 ∧ independent v.executor c.2 = true :=
      fun c hc => hcs c (List.mem_cons_of_mem _ hc)
    unfold verifyWith
    split_ifs with hremote hlimit
    · exact ih hcs' ha hidle
    · exact hfail h a _ _ ha (by decide) hidle
    · refine ((quiet_ask (by trivial)).obeys h).bind fun h₁ available _ hr₁ => ?_
      have hidle₁ := hr₁.1.trans hidle
      split_ifs with havailable
      · exact ih hcs' ha hidle₁
      refine ((quiet_prepare _ _).obeys h₁).bind fun h₂ prepared _ hr₂ => ?_
      have hidle₂ := hr₂.1.trans hidle₁
      split
      · exact ih hcs' ha hidle₂
      · next model estimatedInput prices =>
        refine (reserveOrReport_obeys hidle₂).bind fun h₃ reserved _ hr₃ => ?_
        split
        · exact ih hcs' ha (hr₃.2 _ rfl)
        · next reservation =>
          have hholds := hr₃.1 reservation rfl
          refine ((quiet_trace _ _ _).obeys h₃).bind fun h₄ _ _ hr₄ => ?_
          have hholds₄ := hr₄.1.trans hholds
          have hrun := runCall_obeys cfg (h := h₄)
            (c := verifierCall cfg v p reservation estimatedInput prices) hholds₄
          refine hrun.bind fun h₅ t _ hran => ?_
          cases ht : t.outcome with
          | ok ran =>
            obtain ⟨result, cost⟩ := ran
            rw [Ran, ht] at hran
            refine (judge_obeys hp hind ⟨_, _, hran.2⟩).bind fun h₆ o _ ho => ?_
            exact ⟨ho.1.trans hran.1, ho.2⟩
          | error e =>
            rw [Ran, ht] at hran
            refine (reconcile_obeys hran).bind fun h₆ _ _ hidle₆ => ?_
            refine ((quiet_increment _ _).obeys h₆).bind fun h₇ _ _ hr₇ => ?_
            refine ((quiet_verificationFailure _ _ _ _ _ _ _ _).obeys h₇).bind
              fun h₈ failure _ hr₈ => ?_
            refine ih hcs' (fun f hf => ?_) (hr₈.1.trans (hr₇.1.trans hidle₆))
            obtain rfl := Option.mem_some_iff.1 hf
            rw [hr₈.2]
            decide

theorem verifyExecutorResult_obeys {routeId : String} {request : RouteRequest F}
    {callCount iterationCount : ℕ} {costLimit : Option ℤ} (hidle : phase h = .idle) :
    Obeys (verifyExecutorResult cfg routeId request executor callCount iterationCount costLimit)
      (fun h' o => phase h' = .idle ∧ Sound cfg executor h' o.1) h := by
  have hrefuse : ∀ status reason, status ≠ "agreed" →
      Obeys (refuse routeId request status reason)
        (fun h' o => phase h' = .idle ∧ Sound cfg executor h' o.1) h := by
    intro status reason hne
    refine ((quiet_verificationFailure _ _ _ _ _ _ _ _).obeys h).bind fun h₁ o _ ho => ?_
    exact ⟨ho.1.trans hidle, sound_of_ne (by rw [ho.2]; exact hne)⟩
  unfold verifyExecutorResult
  split_ifs
  · exact hrefuse _ _ (by decide)
  · exact hrefuse _ _ (by decide)
  · exact hrefuse _ _ (by decide)
  · split
    · exact hrefuse _ _ (by decide)
    · next vr _ =>
      refine ((quiet_verificationCandidates _ _ _ _).obeys h).bind fun h₁ cs _ hcs => ?_
      exact verifyWith_obeys (v := ⟨routeId, request, vr, executor, callCount, iterationCount,
        costLimit⟩) hcs.2 (by simp) (hcs.1.trans hidle)

end verifications

/-! ## Decisions -/

section decisions

variable {cfg : Config F} {h h' : List (Said F)} {r : Route F}

structure Verified (cfg : Config F) (h : List (Said F)) (d : RouteDecision F)
    (executor verifier : ProviderConfig) (answer verdict : ProviderResult F)
    (o : VerificationOutcome F) : Prop where
  answered : ∃ q n, (⟨.env (.invoke executor q n), Except.ok answer⟩ : Said F) ∈ h
  returned : d.selectedProvider = some executor.providerId ∧ d.summary = answer.summary ∧
    d.plan = answer.plan ∧ d.proposal = answer.proposal
  called : ∃ q n, (⟨.env (.invoke verifier q n), Except.ok verdict⟩ : Said F) ∈ h
  configured : ∃ role, verifier ∈ cfg.providersByRole role
  account : verifier.accountId ≠ executor.accountId
  family : verifier.chatFamily ≠ executor.chatFamily
  agrees : verdict.status = "ok" ∧ verdict.verification = some "agree"
  confidence : cfg.thresholds.minimumProviderConfidence ≤ verdict.confidence
  carried : d.verification = some o
  agreed : o.status = "agreed"
  attributed : o.providerId = some verifier.providerId ∧
    o.providerAccountId = verifier.accountId ∧ o.chatFamily = verifier.chatFamily ∧
    o.confidence = some verdict.confidence

/-- The decision of a request without a deterministic tool is recorded as routed, and verified
if the task is important, or it is an escalation to a human. -/
def Decided (cfg : Config F) (request : RouteRequest F) (h : List (Said F))
    (d : RouteDecision F) : Prop :=
  (phase h = .finished "routed" d ∧ (importantTask request →
    ∃ executor verifier answer verdict o, Verified cfg h d executor verifier answer verdict o)) ∨
  (phase h = .finished "escalated" d ∧ d.disposition = "human_escalation_required")

variable {routeId reason : String}

theorem finish_obeys {status : String} {d : RouteDecision F} (hidle : phase h = .idle) :
    Obeys (finish routeId status d) (fun h' _ => phase h' = .finished status d) h := by
  unfold finish
  refine ((quiet_ask (by trivial)).obeys h).bind fun h₁ ms _ hr₁ => ?_
  have hrecord : Obeys (ask (.finishRun routeId status d ms))
      (fun h' _ => phase h' = .finished status d) h₁ := by
    refine ⟨hr₁.1.trans hidle, fun x => ?_⟩
    cases (x : Except Exc Unit) with
    | ok _ =>
      show phase _ = _
      rw [phase_append]
      rfl
    | error e => trivial
  refine hrecord.bind fun h₂ _ _ hph₂ => ?_
  refine ((quiet_increment _ _).obeys h₂).bind fun h₃ _ _ hr₃ => ?_
  refine ((quiet_ask (by trivial)).obeys h₃).mono (fun _ _ h => h) (fun h₄ _ hr₄ => ?_)
    fun _ _ h => h
  exact hr₄.1.trans (hr₃.1.trans hph₂)

variable {degraded : Bool}

theorem humanEscalation_obeys {request : RouteRequest F} {executor : Option (ExecutorResult F)}
    {verification : Option (VerificationOutcome F)} (hidle : phase h = .idle) :
    Obeys (humanEscalation routeId request reason degraded executor verification)
      (Decided cfg request) h := by
  unfold humanEscalation
  refine ((quiet_trace _ _ _).obeys h).bind fun h₁ sequence _ hr₁ => ?_
  refine ((quiet_increment _ _).obeys h₁).bind fun h₂ _ _ hr₂ => ?_
  refine (finish_obeys (hr₂.1.trans (hr₁.1.trans hidle))).bind fun h₃ _ _ hph₃ => ?_
  exact Or.inr ⟨hph₃, rfl⟩

theorem quiet_successfulDecision (routeId : String) (request : RouteRequest F) (role : Role)
    (p : ProviderConfig) (model : String) (result : ProviderResult F) (reason : String)
    (degraded : Bool) (sequence : ℤ) (executor : ExecutorResult F)
    (verification : VerificationOutcome F) :
    Quiet (successfulDecision routeId request role p model result reason degraded sequence
      executor verification) fun d => d.verification = some verification ∧
        d.selectedProvider = some p.providerId ∧ d.summary = result.summary ∧
          d.plan = result.plan ∧ d.proposal = result.proposal := by
  unfold successfulDecision
  simp only
  split_ifs
  · exact (quiet_trace _ _ _).bind fun _ _ => quiet_pure ⟨rfl, rfl, rfl, rfl, rfl⟩
  · exact quiet_pure ⟨rfl, rfl, rfl, rfl, rfl⟩

variable {model : String} {role : Role} {p : ProviderConfig} {result : ProviderResult F}
  {sequence : ℤ}

theorem returnResult_obeys {verification : VerificationOutcome F} (hidle : phase h = .idle) :
    Obeys (returnResult r role p model result degraded sequence verification)
      (fun h' d => phase h' = .finished "routed" d ∧ d.verification = some verification ∧
        d.selectedProvider = some p.providerId ∧ d.summary = result.summary ∧
          d.plan = result.plan ∧ d.proposal = result.proposal) h := by
  unfold returnResult
  refine ((quiet_successfulDecision _ _ _ _ _ _ _ _ _ _ _).obeys h).bind fun h₁ d _ hr₁ => ?_
  exact (finish_obeys (hr₁.1.trans hidle)).bind fun h₂ _ _ hph₂ => ⟨hph₂, hr₁.2⟩

variable {iteration : ℕ} {s : PlanState}

/-- An important result is returned only with an independent verification. -/
theorem settle_obeys (hidle : phase h = .idle)
    (hanswer : ∃ q n, (⟨.env (.invoke p q n), Except.ok result⟩ : Said F) ∈ h) :
    Obeys (settle cfg r role iteration p model result sequence s) (Decided cfg r.request) h := by
  unfold settle
  split_ifs with himportant
  · refine (verifyExecutorResult_obeys hidle).bind fun h₁ o hpre₁ ho => ?_
    obtain ⟨hidle₁, hsound⟩ := ho
    simp only
    split_ifs with hagreed
    · refine (returnResult_obeys hidle₁).extends.mono (fun _ _ h => h)
        (fun h₂ d ⟨hpre₂, hph₂, hv, hreturned⟩ => ?_) fun _ _ h => h
      obtain ⟨role', verifier, verdict, hby⟩ := hsound hagreed
      have hby := hby.mono hpre₂
      obtain ⟨q, n, hmem⟩ := hanswer
      have hind := of_decide_eq_true hby.independent
      refine Or.inl ⟨hph₂, fun _ => ⟨p, verifier, result, verdict, o.1, ?_⟩⟩
      exact {
        answered := ⟨q, n, hpre₂.subset (hpre₁.subset hmem)⟩
        returned := hreturned
        called := hby.called
        configured := ⟨role', hby.configured⟩
        account := hind.2.2.2.1
        family := hind.2.2.2.2
        agrees := hby.agrees.1
        confidence := hby.agrees.2
        carried := hv
        agreed := hagreed
        attributed := ⟨hby.providerId, hby.account, hby.family, hby.confidence⟩ }
    · exact humanEscalation_obeys hidle₁
  · refine (returnResult_obeys hidle).mono (fun _ _ h => h) (fun h₁ d hd => ?_) fun _ _ h => h
    exact Or.inl ⟨hd.1, fun himp => absurd himp himportant⟩

def Tried (cfg : Config F) (request : RouteRequest F) (h : List (Said F)) : Attempt F → Prop
  | .done d => Decided cfg request h d
  | .next _ => phase h = .idle
  | .stop _ => phase h = .idle

theorem conclude_obeys {cost : ℤ} (hidle : phase h = .idle)
    (hanswer : ∃ q n, (⟨.env (.invoke p q n), Except.ok result⟩ : Said F) ∈ h) :
    Obeys (conclude cfg r role iteration p model result cost s) (Tried cfg r.request) h := by
  unfold conclude
  refine ((quiet_increment _ _).obeys h).bind fun h₁ _ hpre₁ hr₁ => ?_
  refine ((quiet_trace _ _ _).obeys h₁).bind fun h₂ sequence hpre₂ hr₂ => ?_
  have hidle₂ := hr₂.1.trans (hr₁.1.trans hidle)
  obtain ⟨q, n, hmem⟩ := hanswer
  split_ifs with hrefuse hescalate
  · exact (humanEscalation_obeys hidle₂).bind fun _ _ _ hd => hd
  · refine ((quiet_increment _ _).obeys h₂).bind fun h₃ _ _ hr₃ => ?_
    refine ((quiet_trace _ _ _).obeys h₃).bind fun h₄ _ _ hr₄ => ?_
    exact hr₄.1.trans (hr₃.1.trans hidle₂)
  · refine (settle_obeys hidle₂ ⟨q, n, ?_⟩).bind fun _ _ _ hd => hd
    exact hpre₂.subset (hpre₁.subset hmem)

/-- A provider is called under its own reservation, which is ended. -/
theorem execute_obeys {effective : RouteRequest F} {estimatedInput : ℤ} {prices : Prices}
    {lockAcquired : Bool} (hidle : phase h = .idle) :
    Obeys (execute cfg r role iteration p model effective estimatedInput prices lockAcquired s)
      (Tried cfg r.request) h := by
  unfold execute
  refine (reserveOrReport_obeys hidle).bind fun h₁ reserved _ hr₁ => ?_
  split
  · exact hr₁.2 _ rfl
  · next reservation =>
    have hholds := hr₁.1 reservation rfl
    refine ((quiet_trace _ _ _).obeys h₁).bind fun h₂ _ _ hr₂ => ?_
    have hrun := runCall_obeys cfg (h := h₂)
      (c := executorCall cfg role p effective reservation estimatedInput prices)
      (hr₂.1.trans hholds)
    refine hrun.bind fun h₃ t _ hran => ?_
    refine (releaseAfter_obeys hran).bind fun h₄ t _ hran => ?_
    cases ht : t.outcome with
    | ok ran =>
      obtain ⟨result, cost⟩ := ran
      rw [Ran, ht] at hran
      exact conclude_obeys hran.1 ⟨_, _, hran.2⟩
    | error e =>
      rw [Ran, ht] at hran
      refine (reconcile_obeys hran).bind fun h₅ _ _ hidle₅ => ?_
      refine ((quiet_increment _ _).obeys h₅).bind fun h₆ _ _ hr₆ => ?_
      refine ((quiet_trace _ _ _).obeys h₆).bind fun h₇ _ _ hr₇ => ?_
      exact hr₇.1.trans (hr₆.1.trans hidle₅)

theorem passOver_obeys {model : Option String} (hidle : phase h = .idle) :
    Obeys (passOver r role p model reason s) (Tried cfg r.request) h :=
  ((quiet_trace _ _ _).obeys h).bind fun _ _ _ hr => hr.1.trans hidle

theorem launch_obeys (hidle : phase h = .idle) :
    Obeys (launch cfg r role iteration p s) (Tried cfg r.request) h := by
  unfold launch
  refine (((quiet_ask (by trivial)).catchConfiguration).obeys h).bind fun h₁ resolved _ hr₁ => ?_
  have hidle₁ := hr₁.1.trans hidle
  split
  · exact hidle₁
  · refine ((quiet_ask (by trivial)).obeys h₁).bind fun h₂ estimatedInput _ hr₂ => ?_
    refine (((quiet_ask (by trivial)).catchConfiguration).obeys h₂).bind
      fun h₃ priced _ hr₃ => ?_
    have hidle₃ := hr₃.1.trans (hr₂.1.trans hidle₁)
    split
    · exact hidle₃
    · split_ifs with hhost
      · refine ((quiet_ask (by trivial)).obeys h₃).bind fun h₄ acquired _ hr₄ => ?_
        have hidle₄ := hr₄.1.trans hidle₃
        split_ifs with hacquired
        · exact passOver_obeys hidle₄
        · exact execute_obeys hidle₄
      · exact execute_obeys hidle₃

theorem tryProvider_obeys (hidle : phase h = .idle) :
    Obeys (tryProvider cfg r role iteration p s) (Tried cfg r.request) h := by
  unfold tryProvider
  by_cases hremote : p.location = .remote ∧ r.request.remoteAllowed = false
  · rw [if_pos hremote]
    exact passOver_obeys hidle
  · rw [if_neg hremote]
    refine ((quiet_ask (by trivial)).obeys h).bind fun h₁ available _ hr₁ => ?_
    have hidle₁ := hr₁.1.trans hidle
    split_ifs with havailable hlimit
    · exact passOver_obeys hidle₁
    · exact hidle₁
    · exact launch_obeys hidle₁

theorem tryProviders_obeys {ps : List Candidate} (hidle : phase h = .idle) :
    Obeys (tryProviders cfg r role iteration ps s) (fun h' outcome => match outcome with
      | .inl d => Decided cfg r.request h' d
      | .inr _ => phase h' = .idle) h := by
  induction ps generalizing s h with
  | nil => exact hidle
  | cons c ps ih =>
    unfold tryProviders
    refine (tryProvider_obeys hidle).bind fun h₁ a _ ha => ?_
    cases a with
    | done d => exact ha
    | next s => exact ih ha
    | stop s => exact ha

theorem quiet_reportEscalation (r : Route F) (previous : Option Role) (role : Role)
    (reason : String) : Quiet (reportEscalation r previous role reason) fun _ => True := by
  cases previous with
  | none => exact quiet_pure trivial
  | some before =>
    exact (quiet_increment _ _).bind fun _ _ => (quiet_trace _ _ _).bind fun _ _ =>
      quiet_pure trivial

variable (cfg) in
/-- The loop over the roles of the plan. -/
theorem tryRoles_obeys {roles : List Role} {count : ℕ} {previous : Option Role}
    (hidle : phase h = .idle) :
    Obeys (tryRoles cfg r roles count previous s) (Decided cfg r.request) h := by
  induction roles generalizing count previous s h with
  | nil => exact humanEscalation_obeys hidle
  | cons role roles ih =>
    unfold tryRoles
    split_ifs with hlimit
    · exact humanEscalation_obeys hidle
    · refine ((quiet_reportEscalation _ _ _ _).obeys h).bind fun h₁ _ _ hr₁ => ?_
      refine ((quiet_providersByEstimatedCost _ _ _ _).obeys h₁).bind fun h₂ ps _ hr₂ => ?_
      refine (tryProviders_obeys (hr₂.1.trans (hr₁.1.trans hidle))).bind fun h₃ a _ ha => ?_
      cases a with
      | inl d => exact ha
      | inr s => exact ih ha

/-- A route asks what is allowed, and its decision is recorded. A request without a
deterministic tool is decided. -/
theorem routeRequest_obeys (cfg : Config F) (request : RouteRequest F) :
    Obeys (routeRequest cfg request) (fun h d =>
      (∃ status, phase h = .finished status d) ∧
      (request.deterministicAvailable = false → Decided cfg request h d)) [] := by
  unfold routeRequest
  refine ⟨trivial, fun routeId => ?_⟩
  have hidle : phase ([] ++ [⟨.ledger .uuid4, routeId⟩] : List (Said F)) = .idle := rfl
  refine ((quiet_ask (by trivial)).obeys _).bind fun h₁ _ _ hr₁ => ?_
  refine ((quiet_increment _ _).obeys h₁).bind fun h₂ _ _ hr₂ => ?_
  refine ((quiet_trace _ _ _).obeys h₂).bind fun h₃ _ _ hr₃ => ?_
  have hidle₃ := hr₃.1.trans (hr₂.1.trans (hr₁.1.trans hidle))
  split_ifs with hdet
  · rw [plan_deterministic] at hdet
    refine ((quiet_trace _ _ _).obeys h₃).bind fun h₄ sequence _ hr₄ => ?_
    refine (finish_obeys (hr₄.1.trans hidle₃)).bind fun h₅ _ _ hph₅ => ?_
    exact ⟨⟨_, hph₅⟩, fun hnot => absurd (hdet.symm.trans hnot) (by decide)⟩
  · unfold invokePlan
    cases Host.costLimit F request.requestedMaxCostUsd with
    | error e => trivial
    | ok costLimit =>
      refine (tryRoles_obeys cfg hidle₃).mono (fun _ _ h => h) (fun h₄ d hd => ?_)
        fun _ _ h => h
      exact ⟨hd.elim (fun hd => ⟨_, hd.1⟩) fun hd => ⟨_, hd.1⟩, fun _ => hd⟩

end decisions

end OpsOrchestrator
