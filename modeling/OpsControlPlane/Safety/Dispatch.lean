import OpsControlPlane.Orchestrator.Facade
import OpsControlPlane.Safety.Streams

/-!
# Dispatches

`dispatch_bills_once`: whatever the files, the ledger and the providers answer, a dispatch
opens at most one upstream request, it asks every facade of its pool in the order of the
configuration, it tries the candidates among them in the order of their reserved cost and of
the configuration, and it goes on to the next one only after the ledger has rejected the
reservation of the one before, with nothing sent.
-/

namespace OpsOrchestrator

namespace Hermes

open Calls

variable {F : Type} {c : Coding F}

/-! ## What a dispatch has done -/

abbrev Told : Type :=
  Prog.Said facadeInterface

def opens : Told → Bool
  | ⟨.openUpstream _ _, _⟩ => true
  | _ => false

def askedOf : Told → Option (Facade × Except Refusal PreparedRequest)
  | ⟨.prepare f _, r⟩ => some (f, r)
  | _ => none

def attemptOf : Told → Option ProviderConfig
  | ⟨.identity f, _⟩ => some f.provider
  | _ => none

def rejectionOf : Told → Option ProviderConfig
  | ⟨.ledger (.tx (.reserve args)), .error (.budgetExceeded _ _ _)⟩ => some args.provider
  | _ => none

/-- The candidates among the facades that were asked, from a place in the configuration on. -/
def candidatesFrom : ℕ → List (Facade × Except Refusal PreparedRequest) → List Candidate
  | _, [] => []
  | order, (f, .ok p) :: told => candidateOf order f p :: candidatesFrom (order + 1) told
  | order, (_, .error _) :: told => candidatesFrom (order + 1) told

def asked (h : List Told) : List Facade :=
  (h.filterMap askedOf).map Prod.fst

/-- The candidates by reserved cost, and by their place in the configuration. -/
def ranking (h : List Told) : List Candidate :=
  (candidatesFrom 0 (h.filterMap askedOf)).insertionSort Candidate.before

def Silent (h : List Told) : Prop :=
  ∀ a ∈ h, opens a = false

/-- The candidates so far were tried, and rejected before anything was sent. -/
structure Rejected (done : List Candidate) (h : List Told) : Prop where
  silent : Silent h
  attempts : h.filterMap attemptOf = done.map fun candidate => candidate.facade.provider
  rejections : h.filterMap rejectionOf = done.map fun candidate => candidate.facade.provider

/-- What a dispatch over the facades of a pool may do after what it was told. The facades are
asked in their order. Once all were asked, a candidate is tried when those before it in the
ranking were rejected, and the upstream is opened once, right after a reservation of the
candidate. -/
def Orderly (facades : List Facade) (h : List Told) : FacadeOp → Prop
  | .prepare f _ => asked h ++ [f] <+: facades ∧ Rejected [] h
  | .identity f => asked h = facades ∧ ∃ done candidate later,
      ranking h = done ++ candidate :: later ∧ candidate.facade = f ∧ Rejected done h
  | .openUpstream f _ => Silent h ∧ (h.filterMap attemptOf).getLast? = some f.provider ∧
      ∃ h' args reservation, args.provider = f.provider ∧
        h = h' ++ [⟨.ledger (.tx (.reserve args)), .ok reservation⟩]
  | _ => True

theorem candidatesFrom_append (order : ℕ) (told : List (Facade × Except Refusal PreparedRequest))
    (f : Facade) (r : Except Refusal PreparedRequest) :
    candidatesFrom order (told ++ [(f, r)]) = candidatesFrom order told ++
      match r with
      | .ok p => [candidateOf (order + told.length) f p]
      | .error _ => [] := by
  induction told generalizing order with
  | nil => cases r <;> rfl
  | cons a told ih =>
    obtain ⟨g, r'⟩ := a
    have hlength : order + (told.length + 1) = order + 1 + told.length := by omega
    cases r' with
    | ok p =>
      show candidateOf order g p :: candidatesFrom (order + 1) (told ++ [(f, r)]) = _
      rw [ih, List.length_cons, hlength]
      rfl
    | error e =>
      show candidatesFrom (order + 1) (told ++ [(f, r)]) = _
      rw [ih, List.length_cons, hlength]
      rfl

theorem filterMap_snoc {γ : Type} (f : Told → Option γ) (h : List Told) (a : Told) :
    (h ++ [a]).filterMap f = h.filterMap f ++ (f a).toList := by
  rw [List.filterMap_append]
  cases hf : f a <;> simp [hf]

theorem before_trans {a b d : Candidate} (h : a.before b) (h' : b.before d) : a.before d := by
  unfold Candidate.before at *
  omega

instance : Std.Total Candidate.before :=
  ⟨fun a b => by unfold Candidate.before; omega⟩

instance : IsTrans Candidate Candidate.before :=
  ⟨fun _ _ _ => before_trans⟩

theorem pairwise_ranking (h : List Told) : (ranking h).Pairwise Candidate.before :=
  List.pairwise_insertionSort Candidate.before _

/-! ## Rules -/

section rules

variable {α β : Type} {pool : List Facade} {h : List Told} {done : List Candidate}

/-- The program is orderly over the pool, and returns what `Q` says. -/
abbrev Orders (pool : List Facade) (p : FacadeMethod α) (Q : List Told → α → Prop)
    (h : List Told) : Prop :=
  Prog.Trail (Orderly pool) Q (fun _ _ => True) p h

variable {p : FacadeMethod α}

theorem Orders.bind {f : α → FacadeMethod β} {R : List Told → α → Prop} {Q : List Told → β → Prop}
    (hp : Orders pool p R h) (hf : ∀ h' a, R h' a → Orders pool (f a) Q h') :
    Orders pool (p >>= f) Q h :=
  (Prog.trail_bind p f h).2 (hp.mono (fun _ _ h => h) (fun h' a ha => hf h' a ha) fun _ _ h => h)

/-- The operation neither prepares nor tries a candidate, and sends nothing. -/
def Harmless : FacadeOp → Prop
  | .prepare _ _ => False
  | .identity _ => False
  | .openUpstream _ _ => False
  | _ => True

variable {o : FacadeOp}

theorem Harmless.orderly (ho : Harmless o) (h : List Told) : Orderly pool h o := by
  cases o with
  | prepare f rawBody => exact ho.elim
  | identity f => exact ho.elim
  | openUpstream f request => exact ho.elim
  | _ => trivial

/-- The program does nothing but settle, and its response is no rejection. -/
def Settles (p : FacadeMethod FacadeResponse) : Prop :=
  ∀ h, p.Trail (fun _ o => Harmless o) (fun _ r => r.status ≠ 429) (fun _ _ => True) h

theorem settles_pure {r : FacadeResponse} (hr : r.status ≠ 429) : Settles (pure r) :=
  fun _ => hr

theorem settles_fail (e : Exc) : Settles (.fail e) :=
  fun _ => trivial

theorem settles_bind {f : α → FacadeMethod FacadeResponse}
    (hp : Prog.Asks (I := facadeInterface) Harmless p) (hf : ∀ a, Settles (f a)) :
    Settles (p >>= f) := by
  intro h
  rw [Prog.trail_bind]
  exact (hp h).mono (fun _ _ h => h) (fun h' a _ => hf a h') fun _ _ h => h

theorem Settles.orders {p : FacadeMethod FacadeResponse} (hp : Settles p) (h : List Told) :
    Orders pool p (fun _ r => r.status ≠ 429) h :=
  (hp h).mono (fun h' _ ho => ho.orderly h') (fun _ _ h => h) fun _ _ h => h

theorem asks_ask (ho : Harmless o) : Prog.Asks (I := facadeInterface) Harmless (ask o) :=
  Prog.asks_perform (I := facadeInterface) ho

theorem asks_ledger (p : LedgerMethod α) :
    Prog.Asks (I := facadeInterface) Harmless (ledger p) := by
  induction p with
  | ret a => exact Prog.asks_pure a
  | fail e => exact Prog.asks_fail e
  | ask o k ih => exact fun h => ⟨trivial, fun x => ih x _⟩

theorem asks_markFor (reservation : Reservation) (code : String) (usage : Option Usage)
    (prices : Prices) :
    Prog.Asks (I := facadeInterface) Harmless (markFor reservation code usage prices) := by
  unfold markFor
  refine (asks_ledger _).attempt.bind fun r => ?_
  split
  · exact Prog.asks_pure _
  · split_ifs
    · exact Prog.asks_pure _
    · exact Prog.asks_fail _

theorem afterMark_status (accounted : Bool) (code message : String) :
    (afterMark accounted code message).status ≠ 429 := by
  unfold afterMark
  split_ifs
  · show 502 ≠ 429
    decide
  · show 503 ≠ 429
    decide

/-! ## After the reservation -/

theorem settles_rejectFor (p : PreparedRequest) (reservation : Reservation)
    (code message : String) : Settles (rejectFor p reservation code message) :=
  settles_bind (asks_markFor _ _ _ _) fun accounted =>
    settles_bind (asks_ask (o := .leave) trivial) fun _ =>
      settles_pure (afterMark_status accounted _ message)

theorem settles_completeFor (f : Facade) (p : PreparedRequest) (reservation : Reservation)
    (usage : Usage) (normalized : Bytes) :
    Settles (completeFor f p reservation usage normalized) := by
  have hfailed : Settles (do
      let _ ← markFor reservation "budget_ledger_failure" (some usage) p.prices
      return ledgerUnavailable) :=
    settles_bind (asks_markFor _ _ _ _) fun _ => settles_pure (by decide)
  refine settles_bind (asks_ask (o := .providerPrices f _) trivial) fun prices => ?_
  split
  · split_ifs
    · exact hfailed
    · exact settles_fail _
  · refine settles_bind (asks_ledger _).attempt fun r => ?_
    split
    · exact settles_pure (by show 200 ≠ 429; decide)
    · split_ifs
      · exact hfailed
      · exact settles_fail _

theorem settles_exceedFor (f : Facade) (p : PreparedRequest) (reservation : Reservation)
    (usage : Usage) : Settles (exceedFor f p reservation usage) := by
  have hmark : ∀ prices : Prices, Settles (do
      let accounted ← markFor reservation "usage_exceeded_reservation" (some usage) prices
      return afterMark accounted "upstream_usage_invalid"
        "model provider usage exceeded its reservation") :=
    fun prices => settles_bind (asks_markFor _ _ _ _) fun accounted =>
      settles_pure (afterMark_status accounted _ _)
  refine settles_bind (asks_ask (o := .providerPrices f _) trivial) fun prices => ?_
  split
  · exact hmark _
  · split_ifs
    · exact hmark _
    · exact settles_fail _

theorem settles_settleFor (f : Facade) (p : PreparedRequest) (reservation : Reservation) :
    Settles (settleFor c f p reservation) := by
  refine settles_bind (asks_ask (o := .readBody _) trivial) fun body => ?_
  refine settles_bind (Prog.asks_ofExcept (body : Except Exc Bytes)) fun body => ?_
  refine settles_bind (Prog.asks_ofExcept _) fun completion => ?_
  split
  · refine settles_bind (asks_markFor _ _ _ _) fun accounted => settles_pure ?_
    split_ifs
    · show 200 ≠ 429
      decide
    · decide
  · split_ifs
    · exact settles_exceedFor _ _ _ _
    · exact settles_completeFor _ _ _ _ _

theorem settles_readFor (f : Facade) (p : PreparedRequest) (reservation : Reservation) :
    Settles (readFor c f p reservation) := by
  intro h
  refine (Prog.trail_bind _ _ h).2 ((Prog.trail_attempt _ h).2 ?_)
  refine (settles_settleFor f p reservation h).mono (fun _ _ h => h) (fun h' response hstatus => ?_)
    fun h' e _ => ?_
  · exact ⟨trivial, fun _ => hstatus⟩
  · refine settles_bind (asks_markFor _ _ _ _).attempt (fun r => ?_) h'
    refine settles_bind (asks_ask (o := .leave) trivial) fun _ => ?_
    split
    · exact settles_fail _
    · exact settles_pure (afterMark_status _ _ _)

theorem settles_receiveFor (f : Facade) (p : PreparedRequest) (reservation : Reservation)
    (response : UpstreamResponse) : Settles (receiveFor c f p reservation response) := by
  unfold receiveFor
  by_cases hstatus : response.status < 200 ∨ 300 ≤ response.status
  · rw [if_pos hstatus]
    exact settles_rejectFor _ _ _ _
  rw [if_neg hstatus]
  by_cases htype : mediaType response.headers ≠
      Text.toChars (if p.stream then "text/event-stream" else "application/json")
  · rw [if_pos htype]
    exact settles_rejectFor _ _ _ _
  rw [if_neg htype]
  split_ifs
  · refine settles_pure ?_
    show 200 ≠ 429
    decide
  · exact settles_readFor _ _ _

/-! ## One candidate -/

/-- A reservation samples the clock, draws a call and commits a transaction. -/
theorem orders_reserve {q : ReserveCall} (hq : q.usageRole = none)
    {Q : List Told → Reservation → Prop} {E : List Told → Exc → Prop}
    (hgranted : ∀ now callId args r, args.provider = q.provider →
      Q (h ++ [⟨.ledger .now, now⟩] ++ [⟨.ledger .uuid4, callId⟩] ++
        [⟨.ledger (.tx (.reserve args)), .ok r⟩]) r)
    (hrejected : ∀ now callId args e, args.provider = q.provider →
      E (h ++ [⟨.ledger .now, now⟩] ++ [⟨.ledger .uuid4, callId⟩] ++
        [⟨.ledger (.tx (.reserve args)), .error e⟩]) e) :
    Prog.Trail (Orderly pool) Q E (ledger (reserve q)) h := by
  unfold reserve
  rw [if_neg (by simp [hq])]
  refine ⟨trivial, fun now => ⟨trivial, fun callId => ⟨trivial, fun r => ?_⟩⟩⟩
  rcases (r : Except Exc Reservation) with e | reservation
  · exact hrejected now callId _ e rfl
  · exact hgranted now callId _ reservation rfl

theorem settles_sendFor {f : Facade} {p : PreparedRequest} {reservation : Reservation}
    (hopen : ∀ request, Orderly pool h (.openUpstream f request)) :
    Orders pool (sendFor c f p reservation) (fun _ r => r.status ≠ 429) h := by
  refine ⟨hopen _, fun response => ?_⟩
  rcases (response : Except Exc UpstreamResponse) with e | response
  · exact (settles_bind (asks_markFor _ _ _ _) fun accounted =>
      settles_pure (afterMark_status accounted _ _)).orders _
  · exact (settles_receiveFor f p reservation response).orders _

/-- A candidate is tried in its turn. If the response is a rejection, its reservation was
rejected and nothing was sent. -/
theorem invoke_orders {candidate : Candidate} {later : List Candidate}
    (hasked : asked h = pool) (hranking : ranking h = done ++ candidate :: later)
    (hdone : Rejected done h) :
    Orders pool (invoke c candidate.facade candidate.prepared) (fun h' r => r.status = 429 →
      h'.filterMap askedOf = h.filterMap askedOf ∧ Rejected (done ++ [candidate]) h') h := by
  obtain ⟨hsilent, hattempts, hrejections⟩ := hdone
  have hquiet : ∀ h' : List Told, (∀ a ∈ h', opens a = false) → Silent (h ++ h') := by
    intro h' hh' a ha
    rcases List.mem_append.1 ha with ha | ha
    · exact hsilent a ha
    · exact hh' a ha
  refine (Prog.trail_bind _ _ h).2 ((Prog.trail_attempt _ h).2 ?_)
  refine ⟨⟨hasked, done, candidate, later, hranking, rfl, hsilent, hattempts, hrejections⟩,
    fun names => ?_⟩
  refine orders_reserve rfl (fun now callId args reservation hprovider => ?_)
    fun now callId args e hprovider => ?_
  · refine (settles_sendFor fun request => ⟨?_, ?_, _, args, reservation, hprovider, rfl⟩).mono
      (fun _ _ h => h) (fun h' r hstatus h429 => absurd h429 hstatus) fun _ _ h => h
    · simp only [List.append_assoc]
      exact hquiet _ (by simp [opens])
    · simp only [filterMap_snoc]
      show (h.filterMap attemptOf ++ [candidate.facade.provider] ++ [] ++ [] ++ []).getLast? = _
      simp
  · cases e with
    | budgetExceeded provider period limit =>
      refine fun _ => ⟨?_, ?_, ?_, ?_⟩
      · simp only [filterMap_snoc]
        show h.filterMap askedOf ++ [] ++ [] ++ [] ++ [] = _
        simp only [List.append_nil]
      · simp only [List.append_assoc]
        exact hquiet _ (by simp [opens])
      · simp only [filterMap_snoc, hattempts]
        show done.map _ ++ [candidate.facade.provider] ++ [] ++ [] ++ [] = _
        simp
      · simp only [filterMap_snoc, hrejections]
        show done.map _ ++ [] ++ [] ++ [] ++ [args.provider] = _
        simp [hprovider]
    | _ =>
      show Orders pool (if isLedgerError _ then pure ledgerUnavailable else .fail _) _ _
      split_ifs
      · intro h429
        cases h429
      · trivial

/-! ## The pool -/

variable {candidates : List Candidate}

theorem tryCandidates_orders (last : Option FacadeResponse)
    (hasked : asked h = pool) (hranking : ranking h = done ++ candidates)
    (hdone : Rejected done h) :
    Orders pool (tryCandidates c candidates last) (fun _ _ => True) h := by
  induction candidates generalizing h done last with
  | nil => trivial
  | cons candidate candidates ih =>
    refine (invoke_orders hasked hranking hdone).bind fun h' response hresponse => ?_
    split_ifs with hstatus
    · trivial
    · obtain ⟨hsame, hdone'⟩ := hresponse (not_not.1 hstatus)
      refine ih _ ?_ ?_ hdone'
      · rw [asked, hsame]
        exact hasked
      · rw [ranking, hsame]
        rw [List.append_assoc, List.singleton_append]
        exact hranking

theorem collect_orders (rawBody : Bytes) {facades : List Facade} {order : ℕ}
    (hpool : asked h ++ facades = pool) (hdone : Rejected [] h)
    (horder : (h.filterMap askedOf).length = order)
    (hcandidates : candidatesFrom 0 (h.filterMap askedOf) = candidates) :
    Orders pool (collect rawBody facades order candidates)
      (fun h' r => ∀ candidates, r = .ok candidates → asked h' = pool ∧
        candidatesFrom 0 (h'.filterMap askedOf) = candidates ∧ Rejected [] h') h := by
  induction facades generalizing h order candidates with
  | nil =>
    intro candidates' heq
    obtain rfl := Except.ok.inj heq
    exact ⟨(List.append_nil _).symm.trans hpool, hcandidates, hdone⟩
  | cons f facades ih =>
    have hnext : asked h ++ [f] ++ facades = pool := by
      rw [List.append_assoc]
      exact hpool
    refine ⟨⟨⟨facades, hnext⟩, hdone⟩, fun r => ?_⟩
    have hasked : (h ++ [(⟨.prepare f rawBody, r⟩ : Told)]).filterMap askedOf =
        h.filterMap askedOf ++ [((f, r) : Facade × Except Refusal PreparedRequest)] :=
      filterMap_snoc askedOf h _
    have hpool' : asked (h ++ [(⟨.prepare f rawBody, r⟩ : Told)]) ++ facades = pool := by
      rw [asked, hasked, List.map_append]
      exact hnext
    have hdone' : Rejected [] (h ++ [(⟨.prepare f rawBody, r⟩ : Told)]) := by
      refine ⟨fun a ha => ?_, ?_, ?_⟩
      · rcases List.mem_append.1 ha with ha | ha
        · exact hdone.silent a ha
        · obtain rfl := List.mem_singleton.1 ha
          rfl
      · rw [filterMap_snoc, hdone.attempts]
        rfl
      · rw [filterMap_snoc, hdone.rejections]
        rfl
    have horder' : ((h ++ [(⟨.prepare f rawBody, r⟩ : Told)]).filterMap askedOf).length =
        order + 1 := by
      rw [hasked, List.length_append, horder, List.length_singleton]
    rcases (r : Except Refusal PreparedRequest) with refusal | p
    · have hsame : candidatesFrom 0
          ((h ++ [(⟨.prepare f rawBody, .error refusal⟩ : Told)]).filterMap askedOf) =
            candidates := by
        rw [hasked, candidatesFrom_append, hcandidates, List.append_nil]
      cases refusal with
      | validation status code message =>
        intro candidates' heq
        cases heq
      | other e =>
        show Orders pool (if isUnavailable e then collect rawBody facades (order + 1) candidates
          else .fail e) _ _
        split_ifs
        · exact ih hpool' hdone' horder' hsame
        · trivial
    · refine ih hpool' hdone' horder' ?_
      rw [hasked, candidatesFrom_append, hcandidates, horder, Nat.zero_add]

theorem authorized_orders (path : String) (authorization : Option String) :
    Prog.Trail (Orderly pool) (fun h _ => Rejected [] h ∧ h.filterMap askedOf = [])
      (fun h _ => Rejected [] h ∧ h.filterMap askedOf = []) (authorized path authorization) [] := by
  have hstart : Rejected [] ([] : List Told) ∧ ([] : List Told).filterMap askedOf = [] :=
    ⟨⟨fun a ha => (by cases ha), rfl, rfl⟩, rfl⟩
  unfold authorized
  split
  · exact hstart
  · split
    · exact hstart
    · simp only
      split
      · exact hstart
      · refine ⟨trivial, fun token => ?_⟩
        have hread : Rejected [] [(⟨.privateToken path, token⟩ : Told)] ∧
            [(⟨.privateToken path, token⟩ : Told)].filterMap askedOf = [] := by
          refine ⟨⟨fun a ha => ?_, rfl, rfl⟩, rfl⟩
          obtain rfl := List.mem_singleton.1 ha
          rfl
        rcases (token : Except Exc String) with e | token
        · exact hread
        · simp only
          split
          · exact hread
          · exact hread

theorem dispatch_orders (pool : Pool) (authorization : Option String) (rawBody : Bytes) :
    Orders pool.facades (dispatch c pool authorization rawBody) (fun _ _ => True) [] := by
  unfold dispatch
  refine (Prog.trail_bind _ _ _).2 ((Prog.trail_attempt _ _).2 ?_)
  refine (authorized_orders _ _).mono (fun _ _ h => h) (fun h allowed hstart => ?_)
    fun h e hstart => ?_
  · cases allowed with
    | false => trivial
    | true =>
      refine (collect_orders rawBody (by rw [asked, hstart.2]; rfl) hstart.1
        (by rw [hstart.2, List.length_nil]) (by rw [hstart.2]; rfl)).bind fun h' r hr => ?_
      rcases r with response | candidates
      · trivial
      · obtain ⟨hasked, hcandidates, hdone⟩ := hr candidates rfl
        cases candidates with
        | nil => trivial
        | cons candidate candidates =>
          have hranking : ranking h' =
              [] ++ (candidate :: candidates).insertionSort Candidate.before := by
            rw [ranking, hcandidates, List.nil_append]
          exact tryCandidates_orders none hasked hranking hdone
  · cases e <;> trivial

end rules

/-! ## Runs -/

theorem countP_opens_le {pool : List Facade} {l : List Told}
    (hl : ∀ h a t, l = h ++ a :: t → Orderly pool h a.1) :
    l.countP opens ≤ 1 := by
  induction l using List.reverseRecOn with
  | nil => simp
  | append_singleton l a ih =>
    have hinit : l.countP opens ≤ 1 := by
      refine ih fun h b t heq => hl h b (t ++ [a]) ?_
      rw [heq, List.append_assoc, List.cons_append]
    rw [List.countP_append, List.countP_singleton]
    split_ifs with hopens
    · have hsilent : Silent l := by
        have horderly := hl l a [] rfl
        obtain ⟨o, r⟩ := a
        cases o with
        | openUpstream f request => exact horderly.1
        | _ => cases hopens
      have hzero : l.countP opens = 0 :=
        List.countP_eq_zero.2 fun b hb => by simp [hsilent b hb]
      omega
    · exact hinit

/-- A dispatch opens at most one upstream request. It asks the facades of its pool in their
order, and tries the candidates among all of them by reserved cost and by their place in the
configuration, each after the reservations of those before it were rejected, with nothing
sent. -/
theorem dispatch_bills_once {budgets : List (String × ProviderAccountBudget)} {rows : Ledger}
    {ms : List (Moment (facadeSystem c budgets))} {s : State (facadeSystem c budgets)}
    (hr : Run ⟨rows, []⟩ ms s) {call : Call (facadeSystem c budgets)} (hc : call ∈ s.calls) :
    call.said.countP opens ≤ 1 ∧ ∀ h a t, call.said = h ++ a :: t →
      Orderly call.request.pool.facades h a.1 ∧ (ranking h).Pairwise Candidate.before := by
  have hkept := (hr.trail (P := fun r : DispatchRequest => Orderly r.pool.facades)
    (Q := fun _ _ _ => True)
    (E := fun _ _ _ => True) rfl (fun r : DispatchRequest =>
      dispatch_orders r.pool r.authorization r.rawBody) call hc).1
  exact ⟨countP_opens_le hkept, fun h a t heq => ⟨hkept h a t heq, pairwise_ranking h⟩⟩

/-! ## Two providers -/

namespace Sample

open Calendar

def facade (id : String) : Facade :=
  ⟨OpsOrchestrator.Sample.provider id, ⟨1000, 8, 100⟩, 60⟩

/-- A pool of two providers. The ledger has a call of the first one, which may have no other. -/
def pool : Pool where
  facades := [facade "a", facade "b"]
  clientTokenPath := "/run/token"
  size := by decide
  distinct := by decide

def prepared : PreparedRequest :=
  ⟨ascii "body", false, 1000, 0, (10, 0), "https://host/v1/chat/completions", "key", "model"⟩

def unavailable : FacadeChoice where
  ledger := ⟨OpsOrchestrator.Sample.instant 0 1, "fresh", none⟩
  answer
    | .ledger .now => OpsOrchestrator.Sample.instant 0 1
    | .ledger .uuid4 => "fresh"
    | .ledger (.tx _) => .error (failure "ledger")
    | .privateToken _ => .ok "0123456789abcdef"
    | .prepare _ _ => .ok prepared
    | .identity _ => ("route", "hermes")
    | .openUpstream _ _ => .error (failure "upstream_transport_error")
    | .readBody _ => .error (failure "closed")
    | .providerPrices _ _ => .ok (10, 0)
    | .leave => ()

abbrev dispatches : System :=
  facadeSystem coding OpsOrchestrator.Sample.budgets

def failedOver (call : Call dispatches) : Bool :=
  match call.prog with
  | some (.ret response) => response.status = 502 &&
      decide (call.said.filterMap attemptOf =
        [OpsOrchestrator.Sample.provider "a", OpsOrchestrator.Sample.provider "b"])
  | _ => false

theorem dispatch_bills_once_sample : ∃ (ms : List (Moment dispatches)) (s : State dispatches)
    (call : Call dispatches), Run ⟨rows, []⟩ ms s ∧ call ∈ s.calls ∧
    call.said.filterMap attemptOf =
      [OpsOrchestrator.Sample.provider "a", OpsOrchestrator.Sample.provider "b"] ∧
    call.said.countP opens ≤ 1 ∧ ∀ h a t, call.said = h ++ a :: t →
      Orderly call.request.pool.facades h a.1 ∧ (ranking h).Pairwise Candidate.before := by
  have hexec : ∃ s ∈ (State.mk (S := dispatches) rows []).exec
      (.spawn ⟨pool, some "Bearer 0123456789abcdef", []⟩ ::
        List.replicate 13 (.act 0 unavailable)), s.calls.any failedOver = true := by
    decide +kernel
  obtain ⟨s, hs, hany⟩ := hexec
  obtain ⟨ms, hr, -⟩ := Run.of_exec hs
  obtain ⟨call, hc, hfailed⟩ := List.any_eq_true.1 hany
  unfold failedOver at hfailed
  split at hfailed
  · obtain ⟨-, htried⟩ := Bool.and_eq_true_iff.1 hfailed
    exact ⟨ms, s, call, hr, hc, of_decide_eq_true htried, dispatch_bills_once hr hc⟩
  · cases hfailed

end Sample

end Hermes

end OpsOrchestrator
