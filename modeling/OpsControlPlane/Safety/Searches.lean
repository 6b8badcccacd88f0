import OpsControlPlane.Lib.Schedules
import OpsControlPlane.Memory.System

/-!
# Confidentiality of searches

Whatever the vector store, the reranker and the embedding API answer, and whatever other calls
do to the catalogue meanwhile, each result of a search is a row that the call has read, was
current at a time that the call has asked for, and is one that the caller may see and has asked
for.
-/

namespace OpsMemory

open Transaction Calls

variable {F : Type} [Host F]

/-! ## What may be disclosed -/

abbrev Said (F : Type) [Host F] : Type :=
  Prog.Said (memoryInterface F)

/-- The memory is current at the time, visible to the actor, and one that was asked for. -/
structure Disclosable (actor : ActorPolicy) (request : SearchRequest) (now : String)
    (r : Memory F) : Prop where
  current : r.isCurrent now = true
  visible : actor.recordVisible r = true
  project : r.project = request.project
  environment : r.environment = request.environment
  classification : r.classification.rank ≤ request.maxClassification.rank
  category : request.categories = [] ∨ r.category ∈ request.categories
  kind : request.kinds = [] ∨ r.kind ∈ request.kinds

variable {now : String}

theorem disclosable_of_admits {actor : ActorPolicy} {request : SearchRequest} {r : Memory F}
    (hcurrent : r.isCurrent now = true) (h : admits actor request r = true) :
    Disclosable actor request now r := by
  obtain ⟨hvisible, hproject, henvironment, hrank, hcategory, hkind⟩ := of_decide_eq_true h
  exact ⟨hcurrent, hvisible, hproject, henvironment, hrank, hcategory, hkind⟩

variable {r : Row F} {rows : Table F}

/-- The statement of the fallback selects what may be disclosed to an actor with a role of the
record and the scope of the request. -/
theorem disclosable_of_fallback {actor : ActorPolicy} {request : SearchRequest} {n : ℕ}
    (h : r ∈ fallbackRows request n now rows)
    (hscope : actor.permitsScope request.project request.environment
      request.maxClassification = true) (hrole : ∃ role ∈ r.allowedRoles, role ∈ actor.roles) :
    Disclosable actor request now r.toMemory := by
  have hsel := (List.mem_filter.1 ((List.mem_insertionSort _).1 (List.mem_of_mem_take h))).2
  obtain ⟨hproject, henvironment, hrank, hcurrent, hcategory, hkind⟩ := of_decide_eq_true hsel
  obtain ⟨hpermits, hpermitted, hmax⟩ := of_decide_eq_true hscope
  rw [r.ranked] at hrank
  refine ⟨hcurrent, decide_eq_true ⟨decide_eq_true ⟨?_, ?_, hrank.trans hmax⟩, hrole,
    hrank.trans hmax⟩, hproject, henvironment, hrank, hcategory, hkind⟩
  · rw [hproject]
    exact hpermits
  · rw [henvironment]
    exact hpermitted

theorem fallbackRows_subset {request : SearchRequest} {n : ℕ}
    (h : r ∈ fallbackRows request n now rows) : r ∈ rows :=
  (List.mem_filter.1 ((List.mem_insertionSort _).1 (List.mem_of_mem_take h))).1

theorem getMany_subset {ids : List String} (h : r ∈ getMany ids rows) : r ∈ rows := by
  obtain ⟨id, -, hid⟩ := List.mem_filterMap.1 h
  exact (row_some hid).1

/-! ## What a search says -/

section trails

variable {α β : Type} {h : List (Said F)}

abbrev Returns (p : Method F α) (Q : List (Said F) → α → Prop) (h : List (Said F)) : Prop :=
  Prog.Trail (fun _ _ => True) Q (fun _ _ => True) p h

theorem returns_any (p : Method F α) (h : List (Said F)) : Returns p (fun _ _ => True) h := by
  induction p generalizing h with
  | ret a => trivial
  | fail e => trivial
  | ask o k ih => exact ⟨trivial, fun x => ih x _⟩

theorem returns_perform (o : MemoryOp F) (h : List (Said F)) :
    Returns (perform o) (fun h' r => (⟨o, .ok r⟩ : Said F) ∈ h') h := by
  rw [perform, Returns, Prog.trail_bind]
  refine ⟨trivial, fun x => ?_⟩
  refine (Prog.trail_ofExcept x _).2 ⟨fun r hr => ?_, fun _ _ => trivial⟩
  rw [hr]
  exact List.mem_append_right _ (List.mem_singleton.2 rfl)

theorem returns_catchUnavailable {p : Method F α} {Q : List (Said F) → α → Prop}
    (hp : Returns p Q h) :
    Returns (catchUnavailable p) (fun h' r => ∀ a, r = .ok a → Q h' a) h := by
  have hattempt : Returns p.attempt (fun h' r => ∀ a, r = .ok a → Q h' a) h := by
    rw [Returns, Prog.trail_attempt]
    refine hp.mono (fun _ _ h => h) (fun h' a ha b hb => ?_) fun h' e _ b hb => ?_
    · obtain rfl := Except.ok.inj hb
      exact ha
    · cases hb
  refine hattempt.bind fun h' r _ hr => ?_
  split
  · next a =>
    intro b hb
    obtain rfl := Except.ok.inj hb
    exact hr a rfl
  · intro b hb
    cases hb
  · trivial

/-- The record was read by a statement that selects it for the request, or by its identifier
and then filtered. -/
def Found (actor : ActorPolicy) (request : SearchRequest) (h : List (Said F)) (r : Row F) : Prop :=
  (∃ (ids : List String) (rows : List (Row F)) (now : String),
    (⟨.tx (.getMany ids), .ok rows⟩ : Said F) ∈ h ∧ r ∈ rows ∧
    (⟨.env .now, .ok now⟩ : Said F) ∈ h ∧ r.isCurrent now = true ∧
    admits actor request r.toMemory = true) ∨
  (∃ (n : ℕ) (now : String) (rows : List (Row F)),
    (⟨.tx (.fallback request n now), .ok rows⟩ : Said F) ∈ h ∧ r ∈ rows ∧
    (⟨.env .now, .ok now⟩ : Said F) ∈ h ∧ ∃ role ∈ r.allowedRoles, role ∈ actor.roles)

theorem Found.mono {actor : ActorPolicy} {request : SearchRequest} {h h' : List (Said F)}
    {r : Row F} (hf : Found actor request h r) (hpre : h <+: h') : Found actor request h' r := by
  rcases hf with ⟨ids, rows, now, hrows, hr, hnow, hadmits⟩ | ⟨n, now, rows, hrows, hr, hnow, hrole⟩
  · exact Or.inl ⟨ids, rows, now, hpre.subset hrows, hr, hpre.subset hnow, hadmits⟩
  · exact Or.inr ⟨n, now, rows, hpre.subset hrows, hr, hpre.subset hnow, hrole⟩

variable {cfg : Config F} {actor : ActorPolicy} {request : SearchRequest}

/-- What is kept is current at a time that was asked for. -/
theorem keepCandidates_returns (cs : List (Candidate F)) (h : List (Said F)) :
    Returns (keepCandidates actor request cs) (fun h' kept => ∀ c ∈ kept, c ∈ cs ∧
      ∃ now, (⟨.env .now, .ok now⟩ : Said F) ∈ h' ∧ c.record.isCurrent now = true ∧
        admits actor request c.record.toMemory = true) h := by
  induction cs generalizing h with
  | nil =>
    rintro c ⟨⟩
  | cons c cs ih =>
    refine (returns_perform (.env .now) h).bind fun h₁ now _ hnow => ?_
    refine (ih h₁).bind fun h₂ rest hpre hrest => ?_
    have hlater : ∀ d ∈ rest, d ∈ c :: cs ∧ ∃ now, (⟨.env .now, .ok now⟩ : Said F) ∈ h₂ ∧
        d.record.isCurrent now = true ∧ admits actor request d.record.toMemory = true :=
      fun d hd => ⟨List.mem_cons_of_mem _ (hrest d hd).1, (hrest d hd).2⟩
    split_ifs with hkeep
    · intro d hd
      rcases List.mem_cons.1 hd with rfl | hd
      · exact ⟨List.mem_cons_self, now, hpre.subset hnow, hkeep.1, hkeep.2⟩
      · exact hlater d hd
    · exact hlater

theorem vectorCandidates_returns (embedding : EmbeddingResult F) (h : List (Said F)) :
    Returns (vectorCandidates cfg actor request embedding)
      (fun h' found => ∀ c ∈ found.1, Found actor request h' c.record) h := by
  refine (returns_any (vectorHits cfg actor request embedding) h).bind fun h₁ hits _ _ => ?_
  refine (returns_perform (.tx (.getMany (hits.1.map Hit.id))) h₁).bind
    fun h₂ records _ hrecords => ?_
  refine (keepCandidates_returns _ h₂).bind fun h₃ kept hpre hkept => ?_
  intro c hc
  obtain ⟨hmem, now, hnow, hcurrent, hadmits⟩ := hkept c hc
  obtain ⟨r, hr, rfl⟩ := List.mem_map.1 hmem
  exact Or.inl ⟨_, records, now, hpre.subset hrecords, hr, hnow, hcurrent, hadmits⟩

theorem fallbackCandidates_returns (n : ℕ) (h : List (Said F)) :
    Returns (fallbackCandidates request actor.roles n)
      (fun h' cs => ∀ c ∈ cs, Found actor request h' c.record) h := by
  refine (returns_perform (.env .now) h).bind fun h₁ now _ hnow => ?_
  refine (returns_perform (.tx (.fallback request n now)) h₁).bind fun h₂ rows hpre hrows => ?_
  intro c hc
  have hc := (List.mem_insertionSort _).1 (List.mem_of_mem_take hc)
  obtain ⟨hc, hvisible⟩ := List.mem_filter.1 hc
  obtain ⟨r, hr, rfl⟩ := List.mem_map.1 hc
  exact Or.inr ⟨n, now, rows, hrows, hr, hpre.subset hnow, (of_decide_eq_true hvisible).1⟩

/-! ### Rerankers -/

variable {cs : List (Candidate F)}

theorem discount_record {c : Candidate F} (h : c ∈ discount cs) :
    ∃ d ∈ cs, d.record = c.record := by
  obtain ⟨d, hd, rfl⟩ := List.mem_map.1 h
  refine ⟨d, hd, ?_⟩
  split_ifs <;> rfl

/-- A response of the reranker lists candidates only. -/
theorem readRanking_subset {results : List (ℤ × F)} {seen : List ℤ} {ranked : List (Ranked F)}
    (h : readRanking cs results seen = some ranked) {r : Ranked F} (hr : r ∈ ranked) :
    ∃ c ∈ cs, c.record = r.record := by
  induction results generalizing seen ranked with
  | nil =>
    obtain rfl := Option.some.inj h
    cases hr
  | cons result results ih =>
    obtain ⟨index, score⟩ := result
    unfold readRanking at h
    split at h
    · cases h
    · next c hc =>
      split_ifs at h
      obtain ⟨rest, hrest, rfl⟩ := Option.map_eq_some_iff.1 h
      rcases List.mem_cons.1 hr with rfl | hr
      · refine ⟨c, ?_, rfl⟩
        split_ifs at hc
        exact List.mem_of_getElem? hc
      · exact ih hrest hr

theorem rerank_returns (cs : List (Candidate F)) (h : List (Said F)) :
    Returns (rerank cfg request cs)
      (fun _ ranked => ∀ r ∈ ranked.1, ∃ c ∈ cs, c.record = r.record) h := by
  have hlocal : ∀ h : List (Said F), Returns (do
      let ranked ← localRerank request.query cs request.topK
      return (ranked, "local") : Method F (List (Ranked F) × String))
      (fun _ ranked => ∀ r ∈ ranked.1, ∃ c ∈ cs, c.record = r.record) h := by
    intro h
    refine Prog.Trail.bind (R := fun _ ranked => ∀ r ∈ ranked, ∃ c ∈ cs, c.record = r.record) ?_
      fun _ ranked _ hr r hmem => hr r hmem
    refine (returns_perform (.env .now) h).bind fun h₁ now _ _ => ?_
    intro r hr
    obtain ⟨c, hc, rfl⟩ := List.mem_map.1 ((List.mem_insertionSort _).1 (List.mem_of_mem_take hr))
    exact ⟨c, hc, rfl⟩
  have hapi : ∀ h : List (Said F), Returns (apiRerank cfg request.query cs request.topK)
      (fun _ ranked => ∀ r ∈ ranked, ∃ c ∈ cs, c.record = r.record) h := by
    intro h
    unfold apiRerank
    split_ifs
    · trivial
    · rintro r ⟨⟩
    · trivial
    · refine (returns_perform (.env (.rerank _ _ _)) h).bind fun h₁ results _ _ => ?_
      split_ifs
      · trivial
      · split
        · trivial
        · next ranked hranked => exact fun r hr => readRanking_subset hranked hr
  unfold rerank
  simp only
  split_ifs
  · refine (returns_perform (.env (.reserveProviderCall _ _ _ _ _)) h).bind fun h₁ callId _ _ => ?_
    split
    · exact hlocal h₁
    · refine (returns_catchUnavailable (hapi h₁)).bind fun h₂ r _ hr => ?_
      split
      · refine (returns_perform (.env (.completeProviderCall _ _)) h₂).bind fun h₃ _ _ _ => ?_
        exact hlocal h₃
      · next ranked =>
        exact (returns_perform (.env (.completeProviderCall _ _)) h₂).bind
          fun _ _ _ _ => hr ranked rfl
  · exact hlocal h

/-! ### The search -/

/-- Each result shows a record that was found. -/
def Shows (cfg : Config F) (actor : ActorPolicy) (request : SearchRequest) (h : List (Said F))
    (reply : SearchReply F) : Prop :=
  ∀ result ∈ reply.results, ∃ r : Row F, result.memory = publicRecord cfg r.toMemory ∧
    Found actor request h r

theorem present_returns {backend : String} {embedding : EmbeddingResult F}
    (hcs : ∀ c ∈ cs, Found actor request h c.record) :
    Returns (present cfg request backend embedding cs) (Shows cfg actor request) h := by
  refine (rerank_returns (discount cs) h).bind fun h₁ ranked hpre₁ hranked => ?_
  refine (returns_perform (.env (.audit _)) h₁).bind fun h₂ _ hpre₂ _ => ?_
  intro result hresult
  obtain ⟨r, hr, rfl⟩ := List.mem_map.1 hresult
  obtain ⟨c, hc, hrecord⟩ := hranked r hr
  obtain ⟨d, hd, hrecord'⟩ := discount_record hc
  refine ⟨r.record, rfl, ?_⟩
  rw [← hrecord, ← hrecord']
  exact (hcs d hd).mono (hpre₁.trans hpre₂)

/-- A search is authorized, and shows what it has found. -/
theorem search_returns (cfg : Config F) (request : SearchRequest) (peerUid : ℕ) :
    Returns (search cfg request peerUid) (fun h reply => ∃ actor ∈ cfg.actors,
      actor.name = request.actor ∧ actor.permitsScope request.project request.environment
        request.maxClassification = true ∧ Shows cfg actor request h reply) [] := by
  have hauthorize : Returns (authorize cfg request.actor peerUid "read") (fun _ actor =>
      actor ∈ cfg.actors ∧ actor.name = request.actor) [] := by
    unfold authorize
    split
    · trivial
    · next actor hactor =>
      refine (returns_perform (.env (.resolvedUids actor)) []).bind fun h₁ uids _ _ => ?_
      split_ifs
      · exact ⟨List.mem_of_find?_eq_some hactor, of_decide_eq_true
          (List.find?_some (p := fun a : ActorPolicy => a.name = request.actor) hactor)⟩
      · trivial
      · trivial
  refine hauthorize.bind fun h₁ actor _ hactor => ?_
  by_cases hdenied : actor.permitsScope request.project request.environment
      request.maxClassification = false
  · rw [if_pos hdenied]
    trivial
  rw [if_neg hdenied]
  by_cases hapi : request.allowApi ∧ "api-escalate" ∉ actor.capabilities
  · rw [if_pos hapi]
    trivial
  rw [if_neg hapi]
  have hscope : actor.permitsScope request.project request.environment
      request.maxClassification = true := by simpa using hdenied
  have hpresent : ∀ {h : List (Said F)} {backend : String} {embedding : EmbeddingResult F}
      {cs : List (Candidate F)}, (∀ c ∈ cs, Found actor request h c.record) →
      Returns (present cfg request backend embedding cs) (fun h reply => ∃ actor ∈ cfg.actors,
        actor.name = request.actor ∧ actor.permitsScope request.project request.environment
          request.maxClassification = true ∧ Shows cfg actor request h reply) h := by
    intro h backend embedding cs hcs
    exact (present_returns hcs).mono (fun _ _ h => h)
      (fun _ _ hshows => ⟨actor, hactor.1, hactor.2, hscope, hshows⟩) fun _ _ h => h
  refine (returns_any (embedQuery cfg request) h₁).bind fun h₂ embedding _ _ => ?_
  refine (returns_catchUnavailable (vectorCandidates_returns embedding h₂)).bind
    fun h₃ found _ hfound => ?_
  split
  · next cs embedding => exact hpresent (hfound _ rfl)
  · split_ifs
    · exact (returns_perform (.env (.audit _)) h₃).bind fun _ _ _ _ => trivial
    · refine (fallbackCandidates_returns _ h₃).bind fun h₄ cs _ hcs => ?_
      exact hpresent fun c hc => hcs c (List.mem_of_mem_take hc)

end trails

/-! ## Runs -/

variable {st : Store F} {ms : List (Moment (memorySystem F))} {s : State (memorySystem F)}

/-- Each result of a search is a row that the call has read, a row of the catalogue at a moment
of the run, and may be disclosed at a time that the search has asked for. -/
theorem search_confidential (hr : Run (idle st) ms s) {c : Call (memorySystem F)}
    (hc : c ∈ s.calls) {request : SearchRequest} (htask : c.request.task = .search request)
    {reply : SearchReply F} (hreply : c.prog = some (.ret (.found reply))) :
    ∃ actor ∈ c.request.config.actors, actor.name = request.actor ∧
      ∀ result ∈ reply.results, ∃ r : Row F,
        result.memory = publicRecord c.request.config r.toMemory ∧
        Found actor request c.said r ∧ (∃ m ∈ ms, r ∈ m.before.store.rows) ∧
        ∃ now, (⟨.env .now, .ok now⟩ : Said F) ∈ c.said ∧
          Disclosable actor request now r.toMemory := by
  have hserve : ∀ r : Request F, (serve r).Trail (fun _ _ => True) (fun h reply =>
      ∀ request found, r.task = .search request → reply = .found found →
        ∃ actor ∈ r.config.actors, actor.name = request.actor ∧
          actor.permitsScope request.project request.environment
            request.maxClassification = true ∧ Shows r.config actor request h found)
      (fun _ _ => True) [] := by
    intro r
    unfold serve
    cases htask : r.task with
    | search request =>
      refine (search_returns r.config request r.peerUid).bind fun h reply _ hfound => ?_
      intro request' found heq hreply
      obtain rfl := Task.search.inj heq
      obtain rfl := Reply.found.inj hreply
      exact hfound
    | ingest request =>
      exact (returns_any _ _).bind fun h reply _ _ request' found heq => by cases heq
    | reindexApi actor ids =>
      exact (returns_any _ _).bind fun h reply _ _ request' found heq => by cases heq
    | invalidate actor id reason =>
      exact (returns_any _ _).bind fun h reply _ _ request' found heq => by cases heq
    | maintain actor =>
      exact (returns_any _ _).bind fun h reply _ _ request' found heq => by cases heq
  have hfollows := (hr.trail (P := fun _ _ _ => True) rfl hserve c hc).2 _ hreply
  obtain ⟨actor, hactor, hname, hscope, hshows⟩ := hfollows request reply htask rfl
  refine ⟨actor, hactor, hname, fun result hresult => ?_⟩
  obtain ⟨r, hmemory, hfound⟩ := hshows result hresult
  -- the rows that a statement returned are those of the catalogue at its moment
  have hread : ∀ (t : CatalogTx F) (answer : t.Reply),
      (⟨.tx t, .ok answer⟩ : Said F) ∈ c.said →
      ∃ m ∈ ms, ∃ rows', t.run m.before.store.rows = .ok (answer, rows') := by
    intro t answer hsaid
    obtain ⟨m, hm, x, hperform⟩ := hr.performed rfl hc hsaid
    refine ⟨m, hm, ?_⟩
    have hanswer := congrArg Prod.fst hperform
    simp only [performMemory] at hanswer
    split at hanswer
    · cases hanswer
    · split at hanswer
      · next rows' hrun =>
        cases hanswer
        exact ⟨rows', hrun⟩
      · cases hanswer
  rcases id hfound with ⟨ids, rows, now, hsaid, hmem, hnow, hcurrent, hadmits⟩ |
    ⟨n, now, rows, hsaid, hmem, hnow, hrole⟩
  · obtain ⟨m, hm, rows', hrun⟩ := hread _ _ hsaid
    obtain ⟨rfl, -⟩ := Prod.mk.inj (Except.ok.inj hrun)
    exact ⟨r, hmemory, hfound, ⟨m, hm, getMany_subset hmem⟩, now, hnow,
      disclosable_of_admits hcurrent hadmits⟩
  · obtain ⟨m, hm, rows', hrun⟩ := hread _ _ hsaid
    obtain ⟨rfl, -⟩ := Prod.mk.inj (Except.ok.inj hrun)
    exact ⟨r, hmemory, hfound, ⟨m, hm, fallbackRows_subset hmem⟩, now, hnow,
      disclosable_of_fallback hmem hscope hrole⟩

/-! ## A search -/

namespace Sample

/-- A host whose floats are whole numbers. -/
instance plain : Host ℤ where
  decidableLE := inferInstance
  decidableLT := inferInstance
  zero := 0
  one := 1
  add a b := a + b
  share _ := 1
  average x := x
  halve x := x / 2
  tokenize s := [s]
  overlap a b := if a = b then 1 else 0
  normalize s := s
  sha256 s := s
  localEmbed _ _ := ([], 1)
  localScore _ _ semantic _ _ _ _ := semantic
  isfinite _ := true

def operator : ActorPolicy where
  name := "operator"
  unixUsers := ["ops"]
  roles := ["ops"]
  grantableRoles := ["ops"]
  projects := ["project"]
  environments := ["prod"]
  maxClassification := .internal
  capabilities := ["read", "write", "invalidate", "maintenance", "api-escalate"]
  sourceTypes := ["runbook"]

def config : Config ℤ where
  actors := [operator]
  sourceTruth := []
  dimensions := 0
  apiDimensions := 0
  modelId := "hash"
  apiMinLocalConfidence := 0
  embeddingApi := ⟨true, "openai", "api", 20⟩
  space := "space"
  rerankerModelId := "lexical"
  rerankerApi := ⟨false, "openai", "", 0⟩
  resultLimit := 5
  fallbackScanLimit := 100
  allowDegradedReads := true
  allowDegradedWrites := true
  observationTtlDays := 30
  staleAfterDays := 365

def note : IngestRequest ℤ where
  actor := "operator"
  content := "restart the service"
  project := "project"
  environment := "prod"
  classification := .internal
  category := "operations"
  kind := "information"
  tier := "cold"
  allowedRoles := ["ops"]
  sourceType := "runbook"
  sourceUri := "doc:one"
  sourceRef := "one"
  sourceAuthority := "ops"
  metadata := "{}"
  importance := 1
  validFrom := "2026-01-01T00:00:00+00:00"
  validUntil := none
  supersedesId := none
  reviewed := false
  promote := false

def question : SearchRequest where
  actor := "operator"
  query := "restart"
  project := "project"
  environment := "prod"
  maxClassification := .internal

def catalogue : Store ℤ :=
  ⟨[newRow note [] "hash" "derived" "2026-01-01T00:00:00+00:00" "one"], []⟩

def answers : (o : EnvOp ℤ) → Except Exc o.Reply
  | .now => .ok "2026-06-01T00:00:00+00:00"
  | .uuid => .ok "one"
  | .expiry _ => .ok "2026-07-01T00:00:00+00:00"
  | .sweepTimes _ => .ok ("2026-06-01T00:00:00+00:00", "2025-06-01T00:00:00+00:00")
  | .resolvedUids _ => .ok [7]
  | .audit _ => .ok ()
  | .reserveProviderCall _ _ _ _ _ => .ok (some 1)
  | .completeProviderCall _ _ => .ok ()
  | .hasRecords _ => .ok true
  | .cachedVector _ _ _ => .ok none
  | .cacheVector _ _ _ _ => .ok ()
  | .apiEmbed _ _ => .ok ⟨[], "api", "api", 1⟩
  | .rerank _ _ _ => .ok []
  | .search _ _ _ _ => .ok [⟨"one", 1⟩, ⟨"two", 1⟩]
  | .recordMaintenance _ _ _ _ _ => .ok "run"

def calm : MemoryChoice ℤ :=
  ⟨none, .ok (), true, answers⟩

def ask (task : Task ℤ) : Move (memorySystem ℤ) :=
  .spawn ⟨config, 7, task⟩

def found (c : Call (memorySystem ℤ)) : Bool :=
  match c.request.task, c.prog with
  | .search _, some (.ret (.found reply)) => !reply.results.isEmpty
  | _, _ => false

theorem search_finds : ∃ s ∈ (idle catalogue).exec
    (ask (.search question) :: List.replicate 6 (.act 0 calm)), s.calls.any found = true := by
  decide

theorem search_confidential_sample : ∃ (ms : List (Moment (memorySystem ℤ)))
    (s : State (memorySystem ℤ)) (c : Call (memorySystem ℤ)) (reply : SearchReply ℤ),
    Run (idle catalogue) ms s ∧ c ∈ s.calls ∧ c.prog = some (.ret (.found reply)) ∧
    reply.results ≠ [] ∧ ∀ result ∈ reply.results, ∃ r : Row ℤ,
      result.memory = publicRecord c.request.config r.toMemory ∧
        ∃ m ∈ ms, r ∈ m.before.store.rows := by
  obtain ⟨s, hs, hany⟩ := search_finds
  obtain ⟨ms, hr, -⟩ := Run.of_exec hs
  obtain ⟨c, hc, hfound⟩ := List.any_eq_true.1 hany
  unfold found at hfound
  split at hfound
  · next request reply htask hreply =>
    obtain ⟨actor, -, -, hresults⟩ := search_confidential hr hc htask hreply
    refine ⟨ms, s, c, reply, hr, hc, hreply, by simpa using hfound, fun result hresult => ?_⟩
    obtain ⟨r, hmemory, -, hrow, -⟩ := hresults result hresult
    exact ⟨r, hmemory, hrow⟩
  · cases hfound

end Sample

end OpsMemory
