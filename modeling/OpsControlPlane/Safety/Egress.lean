import OpsControlPlane.Safety.Reservations

/-!
# The bound on calls and egress

A route counts the calls of its executors, and the verification counts its own on top of them.
`routeRequest_within` says that each call of a provider is made below the limit of the
configuration, and a call of a remote one only if the request allows it. `egress_bound` says
what follows for every call of the service.
-/

namespace OpsOrchestrator

set_option linter.unusedSectionVars false

open Transaction Calls

variable {F : Type} [Host F]

/-! ## Calls that are made -/

def invokes : Said F → Bool
  | ⟨.env (.invoke _ _ _), _⟩ => true
  | _ => false

/-- The number of calls of providers. -/
def spent (h : List (Said F)) : ℕ :=
  h.countP invokes

/-- A provider is called below the limit, and a remote one only if it is allowed. -/
def Within (cfg : Config F) (remoteAllowed : Bool) (h : List (Said F)) : RouteOp F → Prop
  | .env (.invoke p _ _) => spent h < cfg.limits.maxProviderCalls ∧
      (p.location = .remote → remoteAllowed = true)
  | _ => True

/-- The operation calls no provider. -/
def Mute : RouteOp F → Prop
  | .env (.invoke _ _ _) => False
  | _ => True

theorem spent_append (h : List (Said F)) (a : Said F) :
    spent (h ++ [a]) = spent h + if invokes a then 1 else 0 := by
  rw [spent, List.countP_append, List.countP_singleton]
  rfl

variable {o : RouteOp F}

theorem Mute.spent (ho : Mute o) (h : List (Said F)) (x : o.Ans) :
    spent (h ++ [⟨o, x⟩]) = spent h := by
  rw [spent_append, if_neg]
  · rfl
  · intro hinv
    cases o with
    | ledger o => cases hinv
    | env o =>
      cases o with
      | invoke p q n => exact ho
      | _ => cases hinv

theorem Mute.within (ho : Mute o) (cfg : Config F) (b : Bool) (h : List (Said F)) :
    Within cfg b h o := by
  cases o with
  | ledger o => trivial
  | env o =>
    cases o with
    | invoke p q n => exact ho.elim
    | _ => trivial

theorem Neutral.mute (ho : Neutral o) : Mute o := by
  cases o with
  | ledger o => trivial
  | env o =>
    cases o with
    | invoke p q n => exact ho
    | _ => trivial

/-! ## Rules -/

section rules

variable {α β : Type} {cfg : Config F} {b : Bool} {h : List (Said F)}

/-- The program calls providers within the limits, and returns what `Q` says. -/
abbrev Bounded (cfg : Config F) (b : Bool) (p : RouteMethod F α)
    (Q : List (Said F) → α → Prop) (h : List (Said F)) : Prop :=
  Prog.Trail (Within cfg b) Q (fun _ _ => True) p h

/-- The program calls no provider. -/
abbrev Still (p : RouteMethod F α) : Prop :=
  Prog.Asks Mute p

variable {p : RouteMethod F α}

theorem Bounded.bind {f : α → RouteMethod F β} {R : List (Said F) → α → Prop}
    {Q : List (Said F) → β → Prop} (hp : Bounded cfg b p R h)
    (hf : ∀ h' a, R h' a → Bounded cfg b (f a) Q h') : Bounded cfg b (p >>= f) Q h := by
  rw [Bounded, Prog.trail_bind]
  exact hp.mono (fun _ _ h => h) (fun h' a ha => hf h' a ha) fun _ _ h => h

theorem Quiet.still {R : α → Prop} (hp : Quiet p R) : Still p :=
  fun h => (hp h).mono (fun _ _ ho => ho.mute) (fun _ _ _ => trivial) fun _ _ h => h

theorem still_ask {o : EnvOp F} (ho : Mute (.env o)) : Still (ask o) := by
  intro h
  rw [ask, Prog.trail_bind]
  refine ⟨ho, fun r => ?_⟩
  exact (Prog.trail_ofExcept (r : Except Exc o.Reply) _).2
    ⟨fun _ _ => trivial, fun _ _ => trivial⟩

theorem still_ledger (p : LedgerMethod α) : Still (ledger p : RouteMethod F α) := by
  induction p with
  | ret a => exact Prog.asks_pure a
  | fail e => exact Prog.asks_fail e
  | ask o k ih => exact fun h => ⟨trivial, fun x => ih x _⟩

/-- A program without calls leaves their number as it is. -/
theorem Still.bounded (hp : Still p) (h : List (Said F)) :
    Bounded cfg b p (fun h' _ => spent h' = spent h) h := by
  suffices ∀ h', spent h' = spent h →
      Prog.Trail (fun _ o => Mute o) (fun _ _ => True) (fun _ _ => True) p h' →
      Bounded cfg b p (fun h' _ => spent h' = spent h) h' from this h rfl (hp h)
  clear hp
  induction p with
  | ret a => exact fun h' heq _ => heq
  | fail e => exact fun _ _ _ => trivial
  | ask o k ih =>
    intro h' heq ht
    exact ⟨ht.1.within cfg b h', fun x => ih x _ ((ht.1.spent h' x).trans heq) (ht.2 x)⟩

end rules

/-! ## Methods without calls -/

section still

theorem still_trace (routeId : String) (request : RouteRequest F) (entry : TraceEntry F) :
    Still (trace routeId request entry) :=
  (quiet_trace _ _ _).still

theorem still_increment (name : String) (labels : List (String × String)) :
    Still (increment name labels : RouteMethod F Unit) :=
  (quiet_increment _ _).still

theorem still_verificationFailure (routeId : String) (request : RouteRequest F)
    (status reason : String) (candidate : Option Candidate) (model : Option String)
    (confidence : Option F) (summary : Option String) :
    Still (verificationFailure routeId request status reason candidate model confidence summary) :=
  (quiet_verificationFailure _ _ _ _ _ _ _ _).still

theorem still_finish (routeId status : String) (d : RouteDecision F) :
    Still (finish routeId status d) := by
  unfold finish
  refine (still_ask (by trivial)).bind fun ms => (still_ask (by trivial)).bind fun _ => ?_
  exact (still_increment _ _).bind fun _ => still_ask (by trivial)

theorem still_humanEscalation (routeId reason : String) (request : RouteRequest F)
    (degraded : Bool) (executor : Option (ExecutorResult F))
    (verification : Option (VerificationOutcome F)) :
    Still (humanEscalation routeId request reason degraded executor verification) := by
  unfold humanEscalation
  refine (still_trace _ _ _).bind fun sequence => (still_increment _ _).bind fun _ => ?_
  exact (still_finish _ _ _).bind fun _ => Prog.asks_pure _

theorem still_returnResult (r : Route F) (role : Role) (p : ProviderConfig) (model : String)
    (result : ProviderResult F) (degraded : Bool) (sequence : ℤ)
    (verification : VerificationOutcome F) :
    Still (returnResult r role p model result degraded sequence verification) := by
  unfold returnResult
  refine (quiet_successfulDecision _ _ _ _ _ _ _ _ _ _ _).still.bind fun d => ?_
  exact (still_finish _ _ _).bind fun _ => Prog.asks_pure _

theorem still_releaseIf (acquired : Bool) : Still (releaseIf acquired : RouteMethod F Unit) :=
  (quiet_releaseIf acquired).still

theorem still_releaseAfter (acquired : Bool) (t : Trial F) : Still (releaseAfter acquired t) := by
  unfold releaseAfter
  refine (still_releaseIf acquired).attempt.bind fun r => ?_
  cases r <;> exact Prog.asks_pure _

theorem still_reserveOrReport (routeId role : String) (request : RouteRequest F)
    (q : ReserveCall) (acquired : Bool) :
    Still (reserveOrReport routeId request role q acquired) := by
  unfold reserveOrReport
  refine (still_ledger _).attempt.bind fun r => ?_
  split
  · exact Prog.asks_pure _
  · refine (still_releaseIf _).bind fun _ => (still_increment _ _).bind fun _ => ?_
    exact (still_trace _ _ _).bind fun _ => Prog.asks_pure _
  · exact (still_releaseIf _).bind fun _ => Prog.asks_fail _

theorem still_reconcile (c : CallPlan F) (t : Trial F) (e : Exc) : Still (reconcile c t e) := by
  unfold reconcile
  split_ifs
  · exact still_ledger _
  · exact Prog.asks_fail e

theorem still_judge (cfg : Config F) (v : Verification F) (role : Role) (p : ProviderConfig)
    (model : String) (result : ProviderResult F) (cost : ℤ) :
    Still (judge cfg v role p model result cost) := by
  unfold judge
  refine (still_increment _ _).bind fun _ => (still_trace _ _ _).bind fun _ => ?_
  split_ifs
  · exact Prog.asks_pure _
  · exact still_verificationFailure _ _ _ _ _ _ _ _
  · exact still_verificationFailure _ _ _ _ _ _ _ _

end still

/-! ## Methods that call providers -/

section calls

variable {cfg : Config F} {b : Bool} {h : List (Said F)} {r : Route F}

theorem runCall_within {c : CallPlan F} (hlt : spent h < cfg.limits.maxProviderCalls)
    (hremote : c.provider.location = .remote → b = true) :
    Bounded cfg b (runCall cfg c) (fun h' _ => spent h' = spent h + 1) h := by
  have hinvoke : Bounded cfg b
      (ask (.invoke c.provider c.request cfg.limits.maxOutputTokens)).attempt
      (fun h' _ => spent h' = spent h + 1) h := by
    refine ⟨⟨hlt, hremote⟩, fun x => ?_⟩
    have hone := spent_append h ⟨.env (.invoke c.provider c.request cfg.limits.maxOutputTokens), x⟩
    cases (x : Except Exc (ProviderResult F)) with
    | ok result => exact hone
    | error e => exact hone
  have hstill : ∀ {h' : List (Said F)} {p : RouteMethod F (Trial F)}, spent h' = spent h + 1 →
      Still p → Bounded cfg b p (fun h' _ => spent h' = spent h + 1) h' := by
    intro h' p heq hp
    exact (hp.bounded h').mono (fun _ _ h => h) (fun _ _ hs => hs.trans heq) fun _ _ h => h
  unfold runCall
  refine hinvoke.bind fun h₁ r hr => hstill hr ?_
  split
  · exact Prog.asks_pure _
  · split
    · exact Prog.asks_pure _
    · refine (still_ask (by trivial)).attempt.bind fun r => ?_
      split
      · exact Prog.asks_pure _
      · exact Prog.asks_pure _
      · split_ifs
        · exact Prog.asks_pure _
        · exact (still_ledger _).attempt.bind fun _ => Prog.asks_pure _

/-- The loop over the verifiers makes its calls on top of those of the executors. -/
theorem verifyWith_within {v : Verification F} {cs : List Candidate} {a : Attempts F}
    (hspent : spent h ≤ v.callCount + a.calls) :
    Bounded cfg v.request.remoteAllowed (verifyWith cfg v cs a) (fun _ _ => True) h := by
  have hstill : ∀ {α : Type} {h : List (Said F)} {p : RouteMethod F α}, Still p →
      Bounded cfg v.request.remoteAllowed p (fun _ _ => True) h :=
    fun hp => (hp.bounded _).mono (fun _ _ h => h) (fun _ _ _ => trivial) fun _ _ h => h
  have hfail : ∀ (a : Attempts F) (status reason : String),
      Still (reportFailure v a status reason) := by
    intro a status reason
    unfold reportFailure
    cases a.lastFailure with
    | some failure => exact Prog.asks_pure _
    | none => exact (still_verificationFailure _ _ _ _ _ _ _ _).bind fun _ => Prog.asks_pure _
  induction cs generalizing a h with
  | nil =>
    unfold verifyWith
    exact hstill (hfail a _ _)
  | cons c cs ih =>
    obtain ⟨role, p⟩ := c
    unfold verifyWith
    split_ifs with hremote hlimit
    · exact ih hspent
    · exact hstill (hfail a _ _)
    · have hallowed : v.request.remoteAllowed = true := by simpa using hremote
      have hlt : spent h < cfg.limits.maxProviderCalls := by omega
      refine ((still_ask (by trivial)).bounded h).bind fun h₁ available heq₁ => ?_
      split_ifs with havailable
      · exact ih (heq₁.trans_le hspent)
      refine ((quiet_prepare _ _).still.bounded h₁).bind fun h₂ prepared heq₂ => ?_
      have heq₂ := heq₂.trans heq₁
      split
      · exact ih (heq₂.trans_le hspent)
      · refine ((still_reserveOrReport _ _ _ _ _).bounded h₂).bind fun h₃ reserved heq₃ => ?_
        have heq₃ := heq₃.trans heq₂
        split
        · exact ih (heq₃.trans_le hspent)
        · refine ((still_trace _ _ _).bounded h₃).bind fun h₄ _ heq₄ => ?_
          have heq₄ := heq₄.trans heq₃
          refine (runCall_within (heq₄.trans_lt hlt) fun _ => hallowed).bind fun h₅ t heq₅ => ?_
          split
          · exact hstill ((still_judge _ _ _ _ _ _ _).bind fun _ => Prog.asks_pure _)
          · refine ((still_reconcile _ _ _).bounded h₅).bind fun h₆ _ heq₆ => ?_
            refine ((still_increment _ _).bounded h₆).bind fun h₇ _ heq₇ => ?_
            refine ((still_verificationFailure _ _ _ _ _ _ _ _).bounded h₇).bind
              fun h₈ failure heq₈ => ?_
            refine ih ?_
            show spent h₈ ≤ v.callCount + (a.calls + 1)
            omega

theorem verifyExecutorResult_within {routeId : String} {request : RouteRequest F}
    {executor : ExecutorResult F} {callCount iterationCount : ℕ} {costLimit : Option ℤ}
    (hspent : spent h ≤ callCount) :
    Bounded cfg request.remoteAllowed (verifyExecutorResult cfg routeId request executor callCount
      iterationCount costLimit) (fun _ _ => True) h := by
  have hrefuse : ∀ status reason, Bounded cfg request.remoteAllowed
      (refuse routeId request status reason) (fun _ _ => True) h := by
    intro status reason
    have hstill : Still (refuse routeId request status reason) :=
      (still_verificationFailure _ _ _ _ _ _ _ _).bind fun _ => Prog.asks_pure _
    exact (hstill.bounded h).mono (fun _ _ h => h) (fun _ _ _ => trivial) fun _ _ h => h
  unfold verifyExecutorResult
  split_ifs
  · exact hrefuse _ _
  · exact hrefuse _ _
  · exact hrefuse _ _
  · split
    · exact hrefuse _ _
    · next vr _ =>
      refine ((quiet_verificationCandidates _ _ _ _).still.bounded h).bind fun h₁ cs heq₁ => ?_
      exact verifyWith_within (v := ⟨routeId, request, vr, executor, callCount, iterationCount,
        costLimit⟩) (heq₁.trans_le hspent)

/-- The calls that the loops have counted are all that were made, unless the route has ended. -/
def Counted (h : List (Said F)) : Attempt F → Prop
  | .done _ => True
  | .next s => spent h ≤ s.callCount
  | .stop s => spent h ≤ s.callCount

variable {iteration : ℕ} {role : Role} {p : ProviderConfig} {s : PlanState} {model : String}

theorem conclude_within {result : ProviderResult F} {cost : ℤ} (hspent : spent h ≤ s.callCount) :
    Bounded cfg r.request.remoteAllowed (conclude cfg r role iteration p model result cost s)
      Counted h := by
  have hdone : ∀ {h : List (Said F)} {m : RouteMethod F (RouteDecision F)},
      Bounded cfg r.request.remoteAllowed m (fun _ _ => True) h →
      Bounded cfg r.request.remoteAllowed (do
        let d ← m
        return Attempt.done d) Counted h :=
    fun hm => hm.bind fun _ _ _ => trivial
  unfold conclude
  refine ((still_increment _ _).bounded h).bind fun h₁ _ heq₁ => ?_
  refine ((still_trace _ _ _).bounded h₁).bind fun h₂ sequence heq₂ => ?_
  have heq₂ := heq₂.trans heq₁
  split_ifs with hrefuse hescalate
  · refine hdone (((still_humanEscalation _ _ _ _ _ _).bounded h₂).mono (fun _ _ h => h)
      (fun _ _ _ => trivial) fun _ _ h => h)
  · refine ((still_increment _ _).bounded h₂).bind fun h₃ _ heq₃ => ?_
    refine ((still_trace _ _ _).bounded h₃).bind fun h₄ _ heq₄ => ?_
    exact (heq₄.trans (heq₃.trans heq₂)).trans_le hspent
  · refine hdone ?_
    unfold settle
    split_ifs with himportant
    · refine (verifyExecutorResult_within (heq₂.trans_le hspent)).bind fun h₃ o _ => ?_
      simp only
      split_ifs
      · exact ((still_returnResult _ _ _ _ _ _ _ _).bounded h₃).mono (fun _ _ h => h)
          (fun _ _ _ => trivial) fun _ _ h => h
      · exact ((still_humanEscalation _ _ _ _ _ _).bounded h₃).mono (fun _ _ h => h)
          (fun _ _ _ => trivial) fun _ _ h => h
    · exact ((still_returnResult _ _ _ _ _ _ _ _).bounded h₂).mono (fun _ _ h => h)
        (fun _ _ _ => trivial) fun _ _ h => h

/-- An executor is called once, and the call is counted. -/
theorem execute_within {effective : RouteRequest F} {estimatedInput : ℤ} {prices : Prices}
    {lockAcquired : Bool} (hspent : spent h ≤ s.callCount)
    (hlimit : s.callCount < cfg.limits.maxProviderCalls)
    (hremote : p.location = .remote → r.request.remoteAllowed = true) :
    Bounded cfg r.request.remoteAllowed
      (execute cfg r role iteration p model effective estimatedInput prices lockAcquired s)
      Counted h := by
  unfold execute
  refine ((still_reserveOrReport _ _ _ _ _).bounded h).bind fun h₁ reserved heq₁ => ?_
  split
  · exact heq₁.trans_le hspent
  · refine ((still_trace _ _ _).bounded h₁).bind fun h₂ _ heq₂ => ?_
    have heq₂ := heq₂.trans heq₁
    refine (runCall_within (by omega) hremote).bind fun h₃ t heq₃ => ?_
    refine ((still_releaseAfter _ _).bounded h₃).bind fun h₄ t heq₄ => ?_
    have hspent₄ : spent h₄ ≤ s.callCount + 1 := by omega
    split
    · exact conclude_within hspent₄
    · refine ((still_reconcile _ _ _).bounded h₄).bind fun h₅ _ heq₅ => ?_
      refine ((still_increment _ _).bounded h₅).bind fun h₆ _ heq₆ => ?_
      refine ((still_trace _ _ _).bounded h₆).bind fun h₇ _ heq₇ => ?_
      exact (heq₇.trans (heq₆.trans heq₅)).trans_le hspent₄

theorem passOver_within {model : Option String} {reason : String} (hspent : spent h ≤ s.callCount) :
    Bounded cfg r.request.remoteAllowed (passOver r role p model reason s) Counted h :=
  ((still_trace _ _ _).bounded h).bind fun _ _ heq => heq.trans_le hspent

theorem launch_within (hspent : spent h ≤ s.callCount)
    (hlimit : s.callCount < cfg.limits.maxProviderCalls)
    (hremote : p.location = .remote → r.request.remoteAllowed = true) :
    Bounded cfg r.request.remoteAllowed (launch cfg r role iteration p s) Counted h := by
  unfold launch
  refine ((quiet_ask (by trivial)).catchConfiguration.still.bounded h).bind
    fun h₁ resolved heq₁ => ?_
  split
  · exact heq₁.trans_le hspent
  · refine ((still_ask (by trivial)).bounded h₁).bind fun h₂ estimatedInput heq₂ => ?_
    refine ((quiet_ask (by trivial)).catchConfiguration.still.bounded h₂).bind
      fun h₃ priced heq₃ => ?_
    have heq₃ := heq₃.trans (heq₂.trans heq₁)
    split
    · exact heq₃.trans_le hspent
    · split_ifs with hhost
      · refine ((still_ask (by trivial)).bounded h₃).bind fun h₄ acquired heq₄ => ?_
        have hspent₄ := (heq₄.trans heq₃).trans_le hspent
        split_ifs with hacquired
        · exact passOver_within hspent₄
        · exact execute_within hspent₄ hlimit hremote
      · exact execute_within (heq₃.trans_le hspent) hlimit hremote

theorem tryProvider_within (hspent : spent h ≤ s.callCount) :
    Bounded cfg r.request.remoteAllowed (tryProvider cfg r role iteration p s) Counted h := by
  unfold tryProvider
  by_cases hremote : p.location = .remote ∧ r.request.remoteAllowed = false
  · rw [if_pos hremote]
    exact passOver_within hspent
  · rw [if_neg hremote]
    refine ((still_ask (by trivial)).bounded h).bind fun h₁ available heq₁ => ?_
    have hspent₁ := heq₁.trans_le hspent
    split_ifs with havailable hlimit
    · exact passOver_within hspent₁
    · exact hspent₁
    · refine launch_within hspent₁ (not_le.1 hlimit) fun hloc => ?_
      by_contra hnot
      exact hremote ⟨hloc, Bool.not_eq_true _ ▸ hnot⟩

theorem tryProviders_within {ps : List Candidate} (hspent : spent h ≤ s.callCount) :
    Bounded cfg r.request.remoteAllowed (tryProviders cfg r role iteration ps s)
      (fun h' outcome => ∀ s', outcome = .inr s' → spent h' ≤ s'.callCount) h := by
  induction ps generalizing s h with
  | nil =>
    rintro s' ⟨⟩
    exact hspent
  | cons c ps ih =>
    unfold tryProviders
    refine (tryProvider_within hspent).bind fun h₁ a ha => ?_
    cases a with
    | done d => exact fun s' heq => (by cases heq)
    | next s => exact ih ha
    | stop s =>
      rintro s' ⟨⟩
      exact ha

/-- The loop over the roles of the plan. -/
theorem tryRoles_within {roles : List Role} {count : ℕ} {previous : Option Role}
    (hspent : spent h ≤ s.callCount) :
    Bounded cfg r.request.remoteAllowed (tryRoles cfg r roles count previous s)
      (fun _ _ => True) h := by
  have hescalate : ∀ (h : List (Said F)) (reason : String) (degraded : Bool),
      Bounded cfg r.request.remoteAllowed (humanEscalation r.routeId r.request reason degraded
        none none) (fun _ _ => True) h := fun h reason degraded =>
    ((still_humanEscalation _ _ _ _ _ _).bounded h).mono (fun _ _ h => h)
      (fun _ _ _ => trivial) fun _ _ h => h
  induction roles generalizing count previous s h with
  | nil => exact hescalate h _ _
  | cons role roles ih =>
    unfold tryRoles
    split_ifs with hlimit
    · exact hescalate h _ _
    · refine ((quiet_reportEscalation _ _ _ _).still.bounded h).bind fun h₁ _ heq₁ => ?_
      refine ((quiet_providersByEstimatedCost _ _ _ _).still.bounded h₁).bind
        fun h₂ ps heq₂ => ?_
      refine (tryProviders_within ((heq₂.trans heq₁).trans_le hspent)).bind fun h₃ a ha => ?_
      cases a with
      | inl d => trivial
      | inr s => exact ih (ha s rfl)

theorem routeRequest_within (cfg : Config F) (request : RouteRequest F) :
    Bounded cfg request.remoteAllowed (routeRequest cfg request) (fun _ _ => True) [] := by
  unfold routeRequest
  refine ⟨trivial, fun routeId => ?_⟩
  have hspent : spent ([] ++ [⟨.ledger .uuid4, routeId⟩] : List (Said F)) = 0 := rfl
  refine ((still_ask (by trivial)).bounded _).bind fun h₁ _ heq₁ => ?_
  refine ((still_increment _ _).bounded h₁).bind fun h₂ _ heq₂ => ?_
  refine ((still_trace _ _ _).bounded h₂).bind fun h₃ _ heq₃ => ?_
  have heq₃ := heq₃.trans (heq₂.trans (heq₁.trans hspent))
  split_ifs with hdet
  · refine ((still_trace _ _ _).bounded h₃).bind fun h₄ sequence _ => ?_
    exact ((still_finish _ _ _).bounded h₄).bind fun _ _ _ => trivial
  · unfold invokePlan
    cases Host.costLimit F request.requestedMaxCostUsd with
    | error e => trivial
    | ok costLimit =>
      exact tryRoles_within (r := ⟨_, request, _, costLimit⟩) heq₃.le

end calls

/-! ## Runs -/

section runs

variable {cfg : Config F} {rows : Ledger} {ms : List (Moment (routeSystem cfg))}
  {s : State (routeSystem cfg)}

/-- What is called below a limit stays within it. -/
theorem spent_le_of_kept {l : List (Said F)} {b : Bool}
    (hk : Run.Kept (S := routeSystem cfg) (Within cfg b) l) :
    spent l ≤ cfg.limits.maxProviderCalls := by
  induction l using List.reverseRecOn with
  | nil => exact Nat.zero_le _
  | append_singleton l a ih =>
    have hl : spent l ≤ cfg.limits.maxProviderCalls :=
      ih fun l₁ c l₂ heq => hk l₁ c (l₂ ++ [a]) (by rw [heq]; simp)
    rw [spent_append]
    split_ifs with hinv
    · have ha := hk l a [] rfl
      obtain ⟨o, x⟩ := a
      cases o with
      | ledger o => cases hinv
      | env o =>
        cases o with
        | invoke p q n => exact ha.1
        | _ => cases hinv
    · exact hl

/-- A call of the service makes at most as many calls of providers as the configuration
allows, and calls a remote provider only if the request, and the grant that it was authorized
by, allow it. -/
theorem egress_bound (hr : Run (idleService cfg rows) ms s) {c : Call (routeSystem cfg)}
    (hc : c ∈ s.calls) :
    spent c.said ≤ cfg.limits.maxProviderCalls ∧
    (∀ p q n x, (⟨.env (.invoke p q n), x⟩ : Said F) ∈ c.said → p.location = .remote →
      c.request.remoteAllowed = true ∧
      ∀ grants username request, authorizedRoute grants username request = some c.request →
        request.remoteAllowed = true ∧
          ∃ g, routeGrant grants username request.projectId = some g ∧
            g.remoteAllowed = true) := by
  have hk := (hr.trail (P := fun (q : RouteRequest F) => Within cfg q.remoteAllowed)
    (Q := fun _ _ _ => True) (E := fun _ _ _ => True) rfl (routeRequest_within cfg) c hc).1
  refine ⟨spent_le_of_kept hk, fun p q n x hmem hloc => ?_⟩
  obtain ⟨l₁, l₂, heq⟩ := List.mem_iff_append.1 hmem
  have hallowed := (hk l₁ _ l₂ heq).2 hloc
  refine ⟨hallowed, fun grants username request hauth => ?_⟩
  obtain ⟨g, hg, hreq⟩ := Option.map_eq_some_iff.1 hauth
  rw [← hreq] at hallowed
  obtain ⟨hasked, hgranted⟩ := Bool.and_eq_true_iff.1 hallowed
  exact ⟨hasked, g, hg, hgranted⟩

end runs

namespace Sample

theorem egress_bound_sample : ∃ (ms : List (Moment (routeSystem config)))
    (s : State (routeSystem config)) (c : Call (routeSystem config)),
    Run (idleService config []) ms s ∧ c ∈ s.calls ∧ spent c.said ≤ 3 ∧
    ∀ p q n x, (⟨.env (.invoke p q n), x⟩ : Said ℤ) ∈ c.said → p.location = .remote →
      c.request.remoteAllowed = true := by
  obtain ⟨ms, s, c, d, hr, hc, -⟩ := route_returns
  obtain ⟨hspent, hremote⟩ := egress_bound hr hc
  exact ⟨ms, s, c, hr, hc, hspent, fun p q n x hmem hloc => (hremote p q n x hmem hloc).1⟩

end Sample

end OpsOrchestrator
