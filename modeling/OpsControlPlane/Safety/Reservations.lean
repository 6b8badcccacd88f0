import OpsControlPlane.Safety.Routes

/-!
# Routes over the ledger

Any number of routes, in any interleaving and with crashes, over one table of reservations.
`reservation_accounting` says that each call of a provider has its own reservation, that a
reservation ends once, and that a route that returned has left none open.
`verification_gate` says what a route returns for an important request.
-/

namespace OpsOrchestrator

open Calendar Transaction Calls

variable {F : Type} [Host F]

/-! ## The system -/

/-- What the environment chooses when an operation is performed. -/
structure RouteChoice (F : Type) where
  ledger : LedgerChoice
  answer : (o : EnvOp F) → Except Exc o.Reply

/-- The answer of an operation and the table after it. -/
def performRoute (cfg : Config F) : (o : RouteOp F) → RouteChoice F → Ledger → o.Ans × Ledger
  | .ledger o, x, rows => performLedger cfg.accountBudgets o x.ledger rows
  | .env o, x, rows => (x.answer o, rows)

/-- The routes of a service over its table. -/
abbrev routeSystem (cfg : Config F) : System where
  I := routeInterface F
  Err := Exc
  Res := RouteDecision F
  Store := Ledger
  Request := RouteRequest F
  Choice := RouteChoice F
  program := routeRequest cfg
  perform := performRoute cfg

/-! ## What the table keeps -/

def Listed (rows : Ledger) (callId : String) : Prop :=
  ∃ r ∈ rows, r.callId = callId

def Ended (rows : Ledger) (callId : String) : Prop :=
  Listed rows callId ∧ ∀ r ∈ rows, r.callId = callId → r.status ≠ .reserved

inductive Changes (rows : Ledger) : Ledger → Prop
  | none : Changes rows rows
  | grant (a : ReserveArgs) (x : DateTime) (hfresh : ∀ r ∈ rows, r.callId ≠ a.callId) :
    Changes rows (rows ++ [a.row x])
  | finish (callId : String) (f : ReservationRow → ReservationRow)
    (hid : ∀ r, (f r).callId = r.callId) (hst : ∀ r, (f r).status ≠ .reserved) :
    Changes rows (update (openCall callId) f rows)

variable {rows rows' : Ledger} {callId : String}

theorem Listed.keep (h : Listed rows callId) (hc : Changes rows rows') :
    Listed rows' callId := by
  obtain ⟨r, hr, hcall⟩ := h
  cases hc with
  | none => exact ⟨r, hr, hcall⟩
  | grant a x => exact ⟨r, List.mem_append_left _ hr, hcall⟩
  | finish id f hid =>
    refine ⟨_, mem_update.2 ⟨r, hr, rfl⟩, ?_⟩
    split_ifs
    · exact (hid r).trans hcall
    · exact hcall

theorem Ended.keep (h : Ended rows callId) (hc : Changes rows rows') : Ended rows' callId := by
  refine ⟨h.1.keep hc, fun r hr hcall => ?_⟩
  cases hc with
  | none => exact h.2 r hr hcall
  | grant a x hfresh =>
    rcases List.mem_append.1 hr with hr | hr
    · exact h.2 r hr hcall
    · obtain rfl := List.mem_singleton.1 hr
      obtain ⟨q, hq, hid⟩ := h.1
      exact absurd (hid.trans hcall.symm) (hfresh q hq)
  | finish id f hid hst =>
    obtain ⟨q, hq, rfl⟩ := mem_update.1 hr
    split_ifs at hcall ⊢
    · exact hst q
    · exact h.2 q hq hcall

theorem ended_of_finish {f : ReservationRow → ReservationRow}
    (hid : ∀ r, (f r).callId = r.callId) (hst : ∀ r, (f r).status ≠ .reserved)
    (hone : rows.countP (openCall callId) = 1) :
    Ended (update (openCall callId) f rows) callId := by
  constructor
  · obtain ⟨r, hr, hopen⟩ := List.countP_pos_iff.1 (hone ▸ Nat.one_pos)
    refine ⟨_, mem_update.2 ⟨r, hr, rfl⟩, ?_⟩
    rw [if_pos hopen, hid]
    exact (of_decide_eq_true hopen).1
  · intro r hr hcall
    obtain ⟨q, hq, rfl⟩ := mem_update.1 hr
    split_ifs at hcall ⊢ with hopen
    · exact hst q
    · exact fun hres => hopen (decide_eq_true ⟨hcall, hres⟩)

/-- What is known of the table from an answer. -/
def Told : Said F → Ledger → Prop
  | ⟨.ledger (.tx (.reserve _)), Except.ok r⟩, rows => Listed rows (Reservation.callId r)
  | ⟨.ledger (.tx (.complete a)), Except.ok _⟩, rows => Ended rows a.callId
  | ⟨.ledger (.tx (.markUncertain a)), Except.ok _⟩, rows => Ended rows a.callId
  | _, _ => True

theorem Told.keep {a : Said F} (h : Told a rows) (hc : Changes rows rows') : Told a rows' := by
  unfold Told at h ⊢
  split at h
  · exact h.keep hc
  · exact h.keep hc
  · exact h.keep hc
  · trivial

/-- An operation changes the table in one of these ways, and its answer is true of it. -/
theorem performRoute_spec (cfg : Config F) (o : RouteOp F) (x : RouteChoice F) (rows : Ledger) :
    Changes rows (performRoute cfg o x rows).2 ∧
      Told ⟨o, (performRoute cfg o x rows).1⟩ (performRoute cfg o x rows).2 := by
  cases o with
  | env o => exact ⟨.none, trivial⟩
  | ledger o =>
    cases o with
    | now => exact ⟨.none, trivial⟩
    | uuid4 => exact ⟨.none, trivial⟩
    | tx t =>
      have hans : performRoute cfg (.ledger (.tx t)) x rows =
        t.commit cfg.accountBudgets x.ledger.fault x.ledger.time rows := rfl
      rw [hans]
      rcases hcommit : t.commit cfg.accountBudgets x.ledger.fault x.ledger.time rows with ⟨r, rows'⟩
      cases r with
      | error e =>
        obtain rfl := LedgerTx.commit_error hcommit
        refine ⟨.none, ?_⟩
        cases t <;> trivial
      | ok r =>
        have hrun := LedgerTx.commit_ok hcommit
        cases t with
        | reserve a =>
          obtain ⟨hchecked, rfl, rfl⟩ := (reserveTx_spec a).ok hrun
          exact ⟨.grant a _ hchecked.fresh, a.row _,
            List.mem_append_right _ (List.mem_singleton.2 rfl), rfl⟩
        | complete a =>
          obtain ⟨hone, rfl⟩ := (completeTx_spec a).ok hrun
          have hst : ∀ r, (a.apply x.ledger.time r).status ≠ .reserved :=
            fun _ => by simp [CompleteArgs.apply]
          exact ⟨.finish _ _ (fun _ => rfl) hst, ended_of_finish (fun _ => rfl) hst hone⟩
        | markUncertain a =>
          obtain ⟨hone, rfl⟩ := (uncertainTx_spec a).ok hrun
          have hst : ∀ r, (a.apply x.ledger.time r).status ≠ .reserved :=
            fun _ => by simp [UncertainArgs.apply]
          exact ⟨.finish _ _ (fun _ => rfl) hst, ended_of_finish (fun _ => rfl) hst hone⟩

/-! ## What a route was told -/

section told

variable {h : List (Said F)}

def Granted (p : ProviderConfig) (id : String) (a : Said F) : Prop :=
  ∃ q r, a = ⟨.ledger (.tx (.reserve q)), Except.ok r⟩ ∧ q.provider = p ∧
    Reservation.callId r = id

def Invokes (a : Said F) : Prop :=
  ∃ p q n x, a = ⟨.env (.invoke p q n), x⟩

def Ends (id : String) (a : Said F) : Prop :=
  (∃ q x, a = ⟨.ledger (.tx (.complete q)), Except.ok x⟩ ∧ q.callId = id) ∨
  ∃ q x, a = ⟨.ledger (.tx (.markUncertain q)), Except.ok x⟩ ∧ q.callId = id

variable {p : ProviderConfig}

/-- An unused reservation was granted after the last call of a provider. -/
theorem granted_of_holds {id : String} (hph : phase h = .holds p id false) :
    ∃ l₁ a l₂, h = l₁ ++ a :: l₂ ∧ Granted p id a ∧
      ∀ b ∈ l₂, ¬ Invokes b := by
  induction h using List.reverseRecOn with
  | nil => cases hph
  | append_singleton l a ih =>
    rw [phase_append] at hph
    -- the phase was there before, and the answer is not that of a provider
    have hback : phase l = .holds p id false → ¬ Invokes a → ∃ l₁ b l₂, l ++ [a] = l₁ ++ b :: l₂ ∧
        Granted p id b ∧ ∀ b ∈ l₂, ¬ Invokes b := by
      intro hl ha
      obtain ⟨l₁, b, l₂, rfl, hb, hl₂⟩ := ih hl
      refine ⟨l₁, b, l₂ ++ [a], by simp, hb, fun c hc => ?_⟩
      rcases List.mem_append.1 hc with hc | hc
      · exact hl₂ c hc
      · obtain rfl := List.mem_singleton.1 hc
        exact ha
    unfold Phase.step at hph
    split at hph
    · next q r =>
      obtain ⟨hp, hid, -⟩ := Phase.holds.inj hph
      exact ⟨l, _, [], rfl, ⟨q, r, rfl, hp, hid⟩, by simp⟩
    · cases hph
    · cases hph
    · unfold Phase.use at hph
      split at hph <;> cases hph
    · cases hph
    · next hne _ =>
      refine hback hph ?_
      rintro ⟨p, q, n, x, rfl⟩
      exact hne _ _ _ _ rfl

variable {a : Said F}

/-- The end of the reservation that is held, or no change of what is held. -/
theorem holds_step {id : String} {used : Bool} (ha : Allowed h a.1)
    (hph : phase h = .holds p id used) :
    (∃ p used, phase (h ++ [a]) = .holds p id used) ∨ Ends id a := by
  rw [phase_append]
  obtain ⟨o, x⟩ := a
  cases o with
  | env o =>
    cases o with
    | invoke p' q n => exact Or.inl ⟨p, true, by rw [hph]; rfl⟩
    | finishRun route status d ms => exact absurd (hph.symm.trans ha) (by simp)
    | _ => exact Or.inl ⟨p, used, hph⟩
  | ledger o =>
    cases o with
    | now => exact Or.inl ⟨p, used, hph⟩
    | uuid4 => exact Or.inl ⟨p, used, hph⟩
    | tx t =>
      cases t with
      | reserve q => exact absurd (hph.symm.trans ha) (by simp)
      | complete q =>
        obtain ⟨p', used', hheld⟩ := show ∃ p used, phase h = .holds p q.callId used from ha
        have hid := (Phase.holds.inj (hheld.symm.trans hph)).2.1
        cases (x : Except Exc Unit) with
        | ok r => exact Or.inr (Or.inl ⟨q, r, rfl, hid⟩)
        | error e => exact Or.inl ⟨p, used, hph⟩
      | markUncertain q =>
        have hid := (show ∀ p id used, phase h = .holds p id used → q.callId = id from ha) p id
          used hph
        cases (x : Except Exc Unit) with
        | ok r => exact Or.inr (Or.inr ⟨q, r, rfl, hid⟩)
        | error e => exact Or.inl ⟨p, used, hph⟩

theorem ended_of_granted {cfg : Config F} {id : String}
    (hk : Run.Kept (S := routeSystem cfg) Allowed h) (ha : a ∈ h) (hg : Granted p id a) :
    (∃ p used, phase h = .holds p id used) ∨ ∃ b ∈ h, Ends id b := by
  induction h using List.reverseRecOn with
  | nil => simp at ha
  | append_singleton l b ih =>
    have hkl : Run.Kept (S := routeSystem cfg) Allowed l :=
      fun l₁ c l₂ heq => hk l₁ c (l₂ ++ [b]) (by rw [heq]; simp)
    rcases List.mem_append.1 ha with ha | ha
    · rcases ih hkl ha with ⟨p, used, hph⟩ | ⟨c, hc, hends⟩
      · rcases holds_step (hk l b [] rfl) hph with hheld | hends
        · exact Or.inl hheld
        · exact Or.inr ⟨b, List.mem_append_right _ (List.mem_singleton.2 rfl), hends⟩
      · exact Or.inr ⟨c, List.mem_append_left _ hc, hends⟩
    · obtain rfl := List.mem_singleton.1 ha
      obtain ⟨q, r, rfl, rfl, rfl⟩ := hg
      exact Or.inl ⟨q.provider, false, by rw [phase_append]; rfl⟩

end told

/-! ## Runs -/

section runs

variable {cfg : Config F} {rows : Ledger} {ms : List (Moment (routeSystem cfg))}
  {s : State (routeSystem cfg)}

def idleService (cfg : Config F) (rows : Ledger) : State (routeSystem cfg) :=
  ⟨rows, []⟩

theorem routes_obey (hr : Run (idleService cfg rows) ms s) : ∀ c ∈ s.calls,
    Run.Follows (S := routeSystem cfg) (fun _ => Allowed) (fun request h d =>
      (∃ status, phase h = .finished status d) ∧
      (request.deterministicAvailable = false → Decided cfg request h d))
      (fun _ _ _ => True) c :=
  hr.trail rfl (routeRequest_obeys cfg)

theorem routes_told (hr : Run (idleService cfg rows) ms s) :
    ∀ c ∈ s.calls, ∀ a ∈ c.said, Told a s.store :=
  (hr.sound (K := fun _ => True) rfl trivial (routeRequest_obeys cfg)
    fun _ _ o x st _ _ _ => by
      obtain ⟨hchanges, htold⟩ := performRoute_spec cfg o x st
      exact ⟨trivial, htold, fun a ha => ha.keep hchanges⟩).2

theorem changes_of_step {s s' : State (routeSystem cfg)} {m : Move (routeSystem cfg)}
    (h : s.step m = some s') : Changes s.store s'.store := by
  rcases step_store h with heq | ⟨o, x, heq⟩ <;> rw [heq]
  · exact .none
  · exact (performRoute_spec cfg o x s.store).1

def Leaves (m : Moment (routeSystem cfg)) (id : String) : Prop :=
  (∃ r ∈ m.before.store, r.callId = id ∧ r.status = .reserved) ∧
    ∀ r ∈ m.after.store, r.callId = id → r.status ≠ .reserved

theorem leaves_once (hr : Run (idleService cfg rows) ms s) {l₁ l₂ : List (Moment (routeSystem cfg))}
    {m : Moment (routeSystem cfg)} {id : String} (hms : ms = l₁ ++ m :: l₂) (hm : Leaves m id) :
    ∀ m' ∈ l₂, ¬ Leaves m' id := by
  subst hms
  obtain ⟨hbefore, hstep, hafter⟩ := hr.around
  obtain ⟨⟨r, hmem, hcall, -⟩, hnone⟩ := hm
  have hended : Ended m.after.store id :=
    ⟨Listed.keep ⟨r, hmem, hcall⟩ (changes_of_step hstep), hnone⟩
  intro m' hm' hleaves
  obtain ⟨l, l', rfl, hr', -⟩ := hafter.of_mem hm'
  have hstill : Ended m'.before.store id :=
    hr'.invariant (J := fun s => Ended s.store id) hended
      fun _ _ _ hs h => hs.keep (changes_of_step h)
  obtain ⟨⟨q, hq, hid, hres⟩, -⟩ := hleaves
  exact hstill.2 q hq hid hres

def grants (id : String) : Said F → Bool
  | ⟨.ledger (.tx (.reserve _)), Except.ok r⟩ => Reservation.callId r = id
  | _ => false

theorem grants_spec {o : RouteOp F} {x : RouteChoice F} {id : String}
    (h : grants id ⟨o, (performRoute cfg o x rows).1⟩ = true) :
    ¬ Listed rows id ∧ Listed (performRoute cfg o x rows).2 id := by
  have htold := (performRoute_spec cfg o x rows).2
  revert h htold
  cases o with
  | env o => exact fun h => (by cases h)
  | ledger o =>
    cases o with
    | now => exact fun h => (by cases h)
    | uuid4 => exact fun h => (by cases h)
    | tx t =>
      have hans : performRoute cfg (.ledger (.tx t)) x rows =
        t.commit cfg.accountBudgets x.ledger.fault x.ledger.time rows := rfl
      rw [hans]
      rcases hcommit : t.commit cfg.accountBudgets x.ledger.fault x.ledger.time rows with ⟨r, rows'⟩
      intro h htold
      cases t with
      | complete a => cases r <;> cases h
      | markUncertain a => cases r <;> cases h
      | reserve a =>
        cases r with
        | error e => cases h
        | ok r =>
          obtain rfl : Reservation.callId r = id := of_decide_eq_true h
          obtain ⟨hchecked, rfl, -⟩ := (reserveTx_spec a).ok (LedgerTx.commit_ok hcommit)
          exact ⟨fun ⟨q, hq, hid⟩ => hchecked.fresh q hq hid, htold⟩

theorem granted_once (hr : Run (idleService cfg rows) ms s) (id : String) :
    Run.count (S := routeSystem cfg) (grants id) s ≤ 1 := by
  have hinv : Run.count (S := routeSystem cfg) (grants id) s = 0 ∨
      Run.count (S := routeSystem cfg) (grants id) s = 1 ∧ Listed s.store id := by
    refine hr.invariant (J := fun s => Run.count (S := routeSystem cfg) (grants id) s = 0 ∨
        Run.count (S := routeSystem cfg) (grants id) s = 1 ∧ Listed s.store id) (Or.inl rfl)
      fun s m s' hs h => ?_
    have hkeep : Listed s.store id → Listed s'.store id := fun hl => hl.keep (changes_of_step h)
    rcases Run.count_step (p := grants id) h with
      ⟨hcount, -⟩ | ⟨i, x, c, o, k, -, -, -, hst, hcount⟩
    · rw [hcount]
      exact hs.imp_right fun hs => ⟨hs.1, hkeep hs.2⟩
    · split_ifs at hcount with hgrants
      · obtain ⟨hnew, hlisted⟩ := grants_spec hgrants
        rw [hcount, hst]
        refine Or.inr ⟨?_, hlisted⟩
        rcases hs with hs | hs
        · rw [hs]
        · exact absurd hs.2 hnew
      · rw [hcount]
        exact hs.imp_right fun hs => ⟨hs.1, hkeep hs.2⟩
  omega

/-- Each call of a provider follows a reservation of its own that was granted for it, each
reservation is granted once and stops to be reserved once, and a route that returned has no
reservation that is still reserved. -/
theorem reservation_accounting (hr : Run (idleService cfg rows) ms s) :
    (∀ c ∈ s.calls, ∀ l p q n x l', c.said = l ++ ⟨.env (.invoke p q n), x⟩ :: l' →
      ∃ id l₁ a l₂, l = l₁ ++ a :: l₂ ∧ Granted p id a ∧ ∀ b ∈ l₂, ¬ Invokes b) ∧
    (∀ id, Run.count (S := routeSystem cfg) (grants id) s ≤ 1) ∧
    (∀ id l m l', ms = l ++ m :: l' → Leaves m id → ∀ m' ∈ l', ¬ Leaves m' id) ∧
    ∀ c ∈ s.calls, ∀ d, c.prog = some (.ret d) → ∀ p id, ∀ a ∈ c.said, Granted p id a →
      (∃ r ∈ s.store, r.callId = id) ∧ ∀ r ∈ s.store, r.callId = id → r.status ≠ .reserved := by
  refine ⟨fun c hc l p q n x l' hsaid => ?_, granted_once hr,
    fun id l m l' hms hm => leaves_once hr hms hm, fun c hc d hd p id a ha hg => ?_⟩
  · obtain ⟨id, hph⟩ := (routes_obey hr c hc).1 l _ l' hsaid
    obtain ⟨l₁, a, l₂, hl, hg, hl₂⟩ := granted_of_holds hph
    exact ⟨id, l₁, a, l₂, hl, hg, hl₂⟩
  · obtain ⟨hkept, htrail⟩ := routes_obey hr c hc
    obtain ⟨⟨status, hph⟩, -⟩ := htrail _ hd
    rcases ended_of_granted hkept ha hg with ⟨p', used, hheld⟩ | ⟨b, hb, hends⟩
    · cases hheld.symm.trans hph
    · have htold := routes_told hr c hc b hb
      rcases hends with ⟨q, x, rfl, rfl⟩ | ⟨q, x, rfl, rfl⟩
      · exact htold
      · exact htold

/-- A route for an important request without a deterministic tool returns a result that an
independent provider agrees with, or escalates to a human. -/
theorem verification_gate (hr : Run (idleService cfg rows) ms s) {c : Call (routeSystem cfg)}
    (hc : c ∈ s.calls) {d : RouteDecision F} (hd : c.prog = some (.ret d))
    (hdet : c.request.deterministicAvailable = false) (himportant : importantTask c.request) :
    (phase c.said = .finished "routed" d ∧ ∃ executor verifier answer verdict o,
      Verified cfg c.said d executor verifier answer verdict o) ∨
    (phase c.said = .finished "escalated" d ∧ d.disposition = "human_escalation_required") := by
  obtain ⟨-, htrail⟩ := routes_obey hr c hc
  obtain ⟨-, hdecided⟩ := htrail _ hd
  rcases hdecided hdet with ⟨hph, hverified⟩ | hescalated
  · exact Or.inl ⟨hph, hverified himportant⟩
  · exact Or.inr hescalated

end runs

/-! ## A route that is verified -/

namespace Sample

def quoted (s : String) : String :=
  "\"" ++ s ++ "\""

/-- A host whose floats are quarters. -/
instance quarters : Host ℤ where
  decidableLE := inferInstance
  decidableLT := inferInstance
  quarter := 1
  threeQuarters := 3
  fixed3 x := if x = 4 then "1.000" else "0.000"
  strip s := s
  dumps e := "\x7b\"chat_family\":" ++ quoted (e.chatFamily.getD "") ++ ",\"confidence\":" ++
    (if e.confidence = 4 then "1.0" else "0.0") ++ ",\"model\":" ++ quoted e.model ++
    ",\"plan\":[],\"proposal\":null,\"provider_account_id\":" ++
    quoted (e.providerAccountId.getD "") ++ ",\"provider_id\":" ++ quoted e.providerId ++
    ",\"role\":" ++ quoted e.role.value ++ ",\"summary\":" ++ quoted e.summary ++ "\x7d"
  costLimit _ := .ok none

def member (id : String) (role : Role) : ProviderConfig where
  providerId := id
  accountId := some id
  capabilityProfile := "general"
  role := role
  kind := "openai_chat"
  location := .remote
  priceTiers := []
  chatFamily := some id
  budget := ⟨9, 9, 9000000, 9000000, 90, 90, 10⟩

/-- A premium provider and one for reasoning, each with its own account. -/
def config : Config ℤ where
  thresholds := ⟨2, 3, 1, 3, 3⟩
  limits := ⟨3, 3, 100, 9000, 9000, 9000⟩
  providersByRole := fun
    | .premium => [member "one" .premium]
    | .reasoning => [member "two" .reasoning]
    | _ => []
  accountBudgets := [("one", ⟨9, 9, 90000, 90000, 90, 90, 9, 9000, 90⟩),
    ("two", ⟨9, 9, 90000, 90000, 90, 90, 9, 9000, 90⟩)]

def critical : RouteRequest ℤ where
  missionId := "mission"
  projectId := "project"
  taskType := .analyze
  risk := .critical
  complexity := 1
  impact := 4
  confidence := 4
  urgency := .normal
  deterministicAvailable := false
  remoteAllowed := true
  context := { instructions := "Analyze.", mission := "Sample." }

/-- What the environment answers: every model agrees. -/
def answers : (o : EnvOp ℤ) → Except Exc o.Reply
  | .startRun _ _ _ _ => .ok ()
  | .finishRun _ _ _ _ => .ok ()
  | .increment _ _ _ => .ok ()
  | .append _ _ _ => .ok (1 : ℤ)
  | .scoreAudit _ _ _ _ => .ok ()
  | .capability _ _ => .ok ⟨true, "", 0⟩
  | .score _ _ _ _ _ => .ok ⟨0, false, 0, 0⟩
  | .available _ => .ok (true, "")
  | .resolvedModel _ => .ok "model"
  | .inputTokens _ _ => .ok (10 : ℤ)
  | .price _ _ => .ok ((0, 0) : Prices)
  | .acquireLock => .ok true
  | .releaseLock => .ok ()
  | .invoke _ q _ => .ok ⟨"ok", 4, "sample", [], none, 5, 5,
      if q.verificationMode then some "agree" else none⟩
  | .elapsed => .ok (1 : ℕ)

def step (uuid : String) : Move (routeSystem config) :=
  .act 0 ⟨⟨⟨0, by decide⟩, uuid, none⟩, answers⟩

def moves : List (Move (routeSystem config)) :=
  .spawn critical :: (List.replicate 20 (step "first") ++ List.replicate 27 (step "second"))

def returned (c : Call (routeSystem config)) : Bool :=
  match c.prog with
  | some (.ret _) => true
  | _ => false

def settled (c : Call (routeSystem config)) : Bool :=
  returned c && decide (c.request.deterministicAvailable = false ∧ importantTask c.request) &&
    decide (c.said.countP (grants "first") = 1 ∧ c.said.countP (grants "second") = 1)

set_option maxRecDepth 20000 in
theorem route_settles : ∃ s ∈ (idleService config []).exec moves, s.calls.any settled = true := by
  decide +kernel

theorem route_returns : ∃ (ms : List (Moment (routeSystem config)))
    (s : State (routeSystem config)) (c : Call (routeSystem config)) (d : RouteDecision ℤ),
    Run (idleService config []) ms s ∧ c ∈ s.calls ∧ c.prog = some (.ret d) ∧
      c.request.deterministicAvailable = false ∧ importantTask c.request := by
  obtain ⟨s, hs, hany⟩ := route_settles
  obtain ⟨ms, hr, -⟩ := Run.of_exec hs
  obtain ⟨c, hc, hsettled⟩ := List.any_eq_true.1 hany
  simp only [settled, Bool.and_eq_true, decide_eq_true_eq] at hsettled
  obtain ⟨⟨hreturned, hdet, himportant⟩, -⟩ := hsettled
  unfold returned at hreturned
  split at hreturned
  · next d hd => exact ⟨ms, s, c, d, hr, hc, hd, hdet, himportant⟩
  · cases hreturned

theorem reservation_accounting_sample : ∃ (ms : List (Moment (routeSystem config)))
    (s : State (routeSystem config)), Run (idleService config []) ms s ∧
    (∀ c ∈ s.calls, ∀ l p q n x l', c.said = l ++ ⟨.env (.invoke p q n), x⟩ :: l' →
      ∃ id l₁ a l₂, l = l₁ ++ a :: l₂ ∧ Granted p id a ∧ ∀ b ∈ l₂, ¬ Invokes b) ∧
    ∃ c ∈ s.calls, ∃ d, c.prog = some (.ret d) := by
  obtain ⟨ms, s, c, d, hr, hc, hd, -, -⟩ := route_returns
  exact ⟨ms, s, hr, (reservation_accounting hr).1, c, hc, d, hd⟩

theorem verification_gate_sample : ∃ (ms : List (Moment (routeSystem config)))
    (s : State (routeSystem config)) (c : Call (routeSystem config)) (d : RouteDecision ℤ),
    Run (idleService config []) ms s ∧ c ∈ s.calls ∧ c.prog = some (.ret d) ∧
    ((phase c.said = .finished "routed" d ∧ ∃ executor verifier answer verdict o,
      Verified config c.said d executor verifier answer verdict o) ∨
    (phase c.said = .finished "escalated" d ∧
      d.disposition = "human_escalation_required")) := by
  obtain ⟨ms, s, c, d, hr, hc, hd, hdet, himportant⟩ := route_returns
  exact ⟨ms, s, c, d, hr, hc, hd, verification_gate hr hc hd hdet himportant⟩

end Sample

end OpsOrchestrator
