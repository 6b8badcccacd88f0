import OpsControlPlane.Orchestrator.Trace

/-!
# The chains of the model trace

The rows that calls of `append` hash form one chain for each mission (`Chained.append`), and the
table is what its columns give back of them (`hashed_run`). So `verify` accepts the table if no
append was given a negative zero (`trace_chains`). `trace_prefix` is the tamper evidence: a table
that `verify` accepts, and whose last event of a mission has the hash of an event that was
appended, holds the events of the mission up to that one, and nothing else.
-/

namespace OpsOrchestrator

set_option linter.unusedSectionVars false

open Text JsonText Calls HashChain

variable {F : Type} [FloatText F] {sha256 : String → String} {rows : List (TraceRow F)}
  {missionId : String}

/-! ## Tables of chains -/

/-- The events of each mission are numbered from one on in the order in which they were
inserted, and chained from the genesis hash. -/
def Chained (sha256 : String → String) (rows : List (TraceRow F)) : Prop :=
  ∀ missionId, ((rows.filter fun r => r.missionId = missionId).map TraceRow.sequence =
      (List.range (rows.filter fun r => r.missionId = missionId).length).map fun i : ℕ =>
        (i : ℤ) + 1) ∧
    Linked (traceChain sha256) 1 zeroHash (rows.filter fun r => r.missionId = missionId)

theorem Chained.missionRows (h : Chained sha256 rows) (missionId : String) :
    missionRows rows missionId = rows.filter fun r => r.missionId = missionId := by
  refine List.Pairwise.insertionSort_eq ?_
  have hmap : ((rows.filter fun r => r.missionId = missionId).map TraceRow.sequence).Pairwise
      (· ≤ ·) := by
    rw [(h missionId).1, List.pairwise_map]
    refine List.pairwise_lt_range.imp fun hlt => ?_
    omega
  exact List.pairwise_map.1 hmap

theorem Chained.last (h : Chained sha256 rows) {r : TraceRow F}
    (hr : (rows.filter fun r => r.missionId = missionId).getLast? = some r) :
    r.sequence = (rows.filter fun r => r.missionId = missionId).length ∧
      r.eventHash = tip (traceChain sha256) zeroHash
        (rows.filter fun r => r.missionId = missionId) := by
  obtain ⟨hseq, -⟩ := h missionId
  generalize rows.filter (fun r => r.missionId = missionId) = l at *
  obtain ⟨l, rfl⟩ := List.getLast?_eq_some_iff.1 hr
  constructor
  · have hlast := congrArg List.getLast? hseq
    simpa [List.range_succ] using hlast
  · rw [tip_append]
    rfl

/-- The next event of a mission continues its chain. -/
theorem Chained.append (h : Chained sha256 rows) (eventId createdAt : String)
    (d : TraceDraft F) : Chained sha256 (rows ++ [nextRow sha256 rows eventId createdAt d]) := by
  intro missionId
  obtain ⟨hseq, hlinked⟩ := h missionId
  rw [List.filter_append]
  by_cases hm : d.missionId = missionId
  · subst hm
    have hmem : (nextRow sha256 rows eventId createdAt d).missionId = d.missionId := rfl
    rw [List.filter_cons_of_pos (by simp [hmem]), List.filter_nil]
    have hlast : ∀ r, (rows.filter fun r => r.missionId = d.missionId).getLast? = some r →
        r.sequence = (rows.filter fun r => r.missionId = d.missionId).length ∧
          r.eventHash = tip (traceChain sha256) zeroHash
            (rows.filter fun r => r.missionId = d.missionId) := fun r hr => h.last hr
    have hrow : nextRow sha256 rows eventId createdAt d = (d.row eventId createdAt
        (rows.filter fun r => r.missionId = d.missionId).getLast?).sealed sha256 := by
      rw [nextRow, h.missionRows]
    generalize (rows.filter fun r => r.missionId = d.missionId) = l at *
    -- what the row takes from the last event
    have hnext : (nextRow sha256 rows eventId createdAt d).sequence = l.length + 1 ∧
        (nextRow sha256 rows eventId createdAt d).previousHash =
          tip (traceChain sha256) zeroHash l := by
      rw [hrow]
      cases hprev : l.getLast? with
      | none =>
        obtain rfl := List.getLast?_eq_none_iff.1 hprev
        exact ⟨rfl, rfl⟩
      | some r =>
        obtain ⟨hs, ht⟩ := hlast r hprev
        refine ⟨?_, ht⟩
        show r.sequence + 1 = _
        rw [hs]
    refine ⟨?_, linked_append.2 ⟨hlinked, ?_, hnext.2⟩⟩
    · rw [List.map_append, hseq, List.length_append, List.length_singleton, List.range_succ,
        List.map_append]
      simp [hnext.1]
    · rfl
  · have hmem : (nextRow sha256 rows eventId createdAt d).missionId = d.missionId := rfl
    rw [List.filter_cons_of_neg (by simp [hmem, hm]), List.filter_nil, List.append_nil]
    exact ⟨hseq, hlinked⟩

/-! ## What the table gives back -/

theorem missionRows_stored : missionRows (rows.map TraceRow.stored) missionId =
    (missionRows rows missionId).map TraceRow.stored := by
  have hsort := List.map_insertionSort (r := fun a b : TraceRow F => a.sequence ≤ b.sequence)
    (s := fun a b => a.sequence ≤ b.sequence) TraceRow.stored
    (rows.filter fun r => r.missionId = missionId) fun _ _ _ _ => Iff.rfl
  rw [OpsOrchestrator.missionRows, OpsOrchestrator.missionRows, hsort, List.filter_map]
  rfl

/-- The next row depends on the rows as the table gives them back. -/
theorem nextRow_stored (eventId createdAt : String) (d : TraceDraft F) :
    nextRow sha256 (rows.map TraceRow.stored) eventId createdAt d =
      nextRow sha256 rows eventId createdAt d := by
  rw [nextRow, nextRow, missionRows_stored, List.getLast?_map]
  cases (OpsOrchestrator.missionRows rows d.missionId).getLast? <;> rfl

/-- No float of the draft is a negative zero. -/
structure TraceDraft.Plain (d : TraceDraft F) : Prop where
  complexity : ¬isNegativeZero d.complexity
  impact : ¬isNegativeZero d.impact
  confidenceIn : ∀ x ∈ d.confidenceIn, ¬isNegativeZero x
  confidenceOut : ∀ x ∈ d.confidenceOut, ¬isNegativeZero x

theorem map_realColumn {o : Option F} (h : ∀ x ∈ o, ¬isNegativeZero x) :
    o.map realColumn = o := by
  cases o with
  | none => rfl
  | some x => exact congrArg some (if_neg (h x rfl))

theorem TraceDraft.Plain.stored {d : TraceDraft F} (h : d.Plain) (eventId createdAt : String) :
    (nextRow sha256 rows eventId createdAt d).stored = nextRow sha256 rows eventId createdAt d := by
  have hc : realColumn d.complexity = d.complexity := if_neg h.complexity
  have hi : realColumn d.impact = d.impact := if_neg h.impact
  simp only [TraceRow.stored, nextRow, TraceRow.sealed, TraceDraft.row, hc, hi,
    map_realColumn h.confidenceIn, map_realColumn h.confidenceOut]

/-! ## Runs -/

section runs

variable {ms : List (Moment (traceSystem (F := F) sha256))}
  {s : State (traceSystem (F := F) sha256)}

def Hashed (ms : List (Moment (traceSystem (F := F) sha256))) (u : TraceRow F) : Prop :=
  ∃ m ∈ ms, ∃ c eventId createdAt d o rows,
    m.Performs c (.tx eventId createdAt d) o ∧ u = nextRow sha256 rows eventId createdAt d

theorem hashed_run (hr : Run (emptyTrace sha256) ms s) : ∃ us,
    s.store = us.map TraceRow.stored ∧ Chained sha256 us ∧ ∀ u ∈ us, Hashed ms u := by
  induction hr with
  | start => exact ⟨[], rfl, fun _ => ⟨rfl, trivial⟩, fun _ h => absurd h List.not_mem_nil⟩
  | @step ms s s' mv hr h ih =>
    obtain ⟨us, hstore, hchained, hhashed⟩ := ih
    have hold : ∀ u ∈ us, Hashed (ms ++ [⟨s, mv, s'⟩]) u := fun u hu => by
      obtain ⟨m, hm, hrest⟩ := hhashed u hu
      exact ⟨m, List.mem_append_left _ hm, hrest⟩
    rcases moment_cases h with heq | ⟨c, o, a, hp⟩
    · exact ⟨us, heq.trans hstore, hchained, hold⟩
    obtain ⟨i, x, k, -, -, -, hperf⟩ := id hp
    have hperf := congrArg Prod.snd hperf
    cases o with
    | uuid4 | now => exact ⟨us, (hperf.symm.trans hstore :), hchained, hold⟩
    | tx eventId createdAt d =>
      have hperf : (appendTx sha256 x.fault eventId createdAt d s.store).2 = s'.store := hperf
      simp only [hstore, appendTx, nextRow_stored] at hperf
      cases hfault : x.fault with
      | some e =>
        rw [hfault] at hperf
        exact ⟨us, hperf.symm, hchained, hold⟩
      | none =>
        rw [hfault] at hperf
        simp only at hperf
        split_ifs at hperf with hviolates
        · exact ⟨us, hperf.symm, hchained, hold⟩
        refine ⟨us ++ [nextRow sha256 us eventId createdAt d], ?_,
          hchained.append eventId createdAt d, fun u hu => ?_⟩
        · rw [List.map_append, ← hperf]
          rfl
        rcases List.mem_append.1 hu with hu | hu
        · exact hold u hu
        · exact ⟨_, List.mem_append_right _ (List.mem_singleton_self _), c, eventId, createdAt, d,
            a, us, hp, List.mem_singleton.1 hu⟩

/-- The events of a mission are numbered from one on in the order in which they were appended. -/
theorem trace_sequences (hr : Run (emptyTrace sha256) ms s) (missionId : String) :
    missionRows s.store missionId = s.store.filter (fun r => r.missionId = missionId) ∧
    (missionRows s.store missionId).map TraceRow.sequence =
      (List.range (missionRows s.store missionId).length).map fun i : ℕ => (i : ℤ) + 1 := by
  obtain ⟨us, hstore, hchained, -⟩ := hashed_run hr
  rw [hstore, missionRows_stored, hchained.missionRows, List.filter_map, List.length_map,
    ← (hchained missionId).1, List.map_map]
  exact ⟨rfl, rfl⟩

/-- In every state that appends without a negative zero reach, `verify` accepts each mission, and
its events are numbered from one on in the order in which they were appended. -/
theorem trace_chains (hr : Run (emptyTrace sha256) ms s)
    (hplain : ∀ m ∈ ms, ∀ c eventId createdAt d o,
      m.Performs c (.tx eventId createdAt d) o → d.Plain) (missionId : String) :
    verify sha256 s.store missionId = true ∧
    missionRows s.store missionId = s.store.filter (fun r => r.missionId = missionId) ∧
    (missionRows s.store missionId).map TraceRow.sequence =
      (List.range (missionRows s.store missionId).length).map fun i : ℕ => (i : ℤ) + 1 := by
  refine ⟨?_, trace_sequences hr missionId⟩
  obtain ⟨us, hstore, hchained, hhashed⟩ := hashed_run hr
  have hus : us.map TraceRow.stored = us := by
    refine (List.map_congr_left fun u hu => ?_).trans (List.map_id us)
    obtain ⟨m, hm, c, e, t, d, o, rows, hp, rfl⟩ := hhashed u hu
    exact (hplain m hm c e t d o hp).stored e t
  rw [verify_iff (n := 1), hstore, hus, hchained.missionRows]
  exact (hchained missionId).2

end runs

/-! ## What the hash of an event determines -/

theorem wf_traceCanonical (r : TraceRow F) (h : String) : Wf (traceCanonical r h) := by
  have htext : ∀ o : Option String, Wf (textOrNull o : Json F) := by
    intro o
    cases o <;> trivial
  have hfloat : ∀ o : Option F, Wf (floatOrNull o) := by
    intro o
    cases o <;> trivial
  simp [traceCanonical, Wf, WfPairs, keys, htext, hfloat]

theorem textOrNull_injective {o o' : Option String}
    (h : sortKeys (textOrNull o : Json F) = sortKeys (textOrNull o')) : o = o' := by
  cases o <;> cases o' <;> simp [textOrNull, sortKeys] at h ⊢
  exact h

theorem floatOrNull_injective {o o' : Option F}
    (h : sortKeys (floatOrNull o) = sortKeys (floatOrNull o')) : o = o' := by
  cases o <;> cases o' <;> simp [floatOrNull, sortKeys] at h ⊢
  exact h

/-- The hash of a good event determines every column of it. -/
theorem traceChain_binding [LawfulFloatText F] (hsha : Function.Injective sha256) :
    BindingAnywhere (traceChain (F := F) sha256) := by
  intro m n r r' hr hr' hown
  have hr : r.eventHash = traceHash sha256 r r.previousHash := hr
  have hr' : r'.eventHash = traceHash sha256 r' r'.previousHash := hr'
  have hown : r.eventHash = r'.eventHash := hown
  have hcanonical := asciiCanonical_injective (wf_traceCanonical r r.previousHash)
    (wf_traceCanonical r' r'.previousHash) (hsha (hr.symm.trans (hown.trans hr')))
  simp only [traceCanonical, sortKeys, Json.obj.injEq] at hcanonical
  have hk : ∀ k, (sortKeysPairs _).lookup k = (sortKeysPairs _).lookup k :=
    fun k => congrArg (List.lookup k) hcanonical
  simp only [lookup_sortKeysPairs] at hk
  have h1 := hk "event_id"
  have h2 := hk "mission_id"
  have h3 := hk "route_id"
  have h4 := hk "sequence"
  have h5 := hk "created_at"
  have h6 := hk "event_type"
  have h7 := hk "role"
  have h8 := hk "provider_id"
  have h9 := hk "model"
  have h10 := hk "location"
  have h11 := hk "reason"
  have h12 := hk "risk"
  have h13 := hk "complexity"
  have h14 := hk "impact"
  have h15 := hk "confidence_in"
  have h16 := hk "confidence_out"
  have h17 := hk "input_tokens"
  have h18 := hk "output_tokens"
  have h19 := hk "cost_microusd"
  have h20 := hk "previous_hash"
  simp [lookup_pair, sortKeys] at h1 h2 h3 h4 h5 h6 h7 h8 h9 h10
  simp [lookup_pair, sortKeys] at h11 h12 h13 h14 h15 h16 h17 h18 h19 h20
  have h7 := textOrNull_injective h7
  have h8 := textOrNull_injective h8
  have h9 := textOrNull_injective h9
  have h10 := textOrNull_injective h10
  have h15 := floatOrNull_injective h15
  have h16 := floatOrNull_injective h16
  cases r
  cases r'
  rw [TraceRow.mk.injEq]
  exact ⟨h1, h2, h3, h4, h5, h6, h7, h8, h9, h10, h11, h12, h13, h14, h15, h16, h17, h18, h19,
    h20, hown⟩

theorem linked_of_append {R H : Type*} {C : Chain R H} {n : ℕ} {h : H} {l l' : List R}
    (hl : Linked C n h (l ++ l')) : Linked C n h l := by
  induction l generalizing n h with
  | nil => trivial
  | cons r l ih => exact ⟨hl.1, hl.2.1, ih hl.2.2⟩

section tampering

variable {ms : List (Moment (traceSystem (F := F) sha256))}
  {s : State (traceSystem (F := F) sha256)}

/-- A table that `verify` accepts for a mission, and whose last event of the mission has the
hash of an event that was appended to it, holds the events of the mission up to that one and no
others. -/
theorem trace_prefix [LawfulFloatText F] (hsha : Function.Injective sha256)
    (hzero : ∀ t, sha256 t ≠ zeroHash) (hr : Run (emptyTrace sha256) ms s)
    {edited : TraceTable F} (hverify : verify sha256 edited.1 missionId = true)
    {last : TraceRow F} (hlast : (missionRows edited.1 missionId).getLast? = some last)
    {original : TraceRow F} (horiginal : original ∈ missionRows s.store missionId)
    (hhash : last.eventHash = original.eventHash) :
    missionRows edited.1 missionId <+: missionRows s.store missionId := by
  obtain ⟨us, hstore, hchained, -⟩ := hashed_run hr
  have hlinked : Linked (traceChain sha256) 1 zeroHash (missionRows us missionId) := by
    rw [hchained.missionRows]
    exact (hchained missionId).2
  rw [hstore, missionRows_stored] at horiginal ⊢
  obtain ⟨u, hu, rfl⟩ := List.mem_map.1 horiginal
  obtain ⟨l, l', hsplit⟩ := List.append_of_mem hu
  obtain ⟨l₀, hedited⟩ := List.getLast?_eq_some_iff.1 hlast
  rw [List.append_cons] at hsplit
  rw [hsplit] at hlinked ⊢
  have hgenesis : ∀ n (r : TraceRow F), (traceChain sha256).Good n r →
      (traceChain sha256).own r ≠ zeroHash := by
    intro n r hgood
    have hgood : r.eventHash = traceHash sha256 r r.previousHash := hgood
    show r.eventHash ≠ zeroHash
    rw [hgood]
    exact hzero _
  have hsame : missionRows edited.1 missionId = l ++ [u] := by
    refine linked_unique_of_tip (traceChain_binding hsha) hgenesis
      ((verify_iff (n := 1) sha256).1 hverify) (linked_of_append hlinked) ?_
    rw [hedited, tip_append, tip_append]
    exact hhash
  -- the table gives back what it holds, so that no negative zero was hashed up to the event
  have hfixed : (missionRows edited.1 missionId).map TraceRow.stored =
      missionRows edited.1 missionId := by
    refine (List.map_congr_left fun r hr => edited.2 r ?_).trans (List.map_id _)
    exact (List.mem_filter.1 ((List.perm_insertionSort _ _).mem_iff.1 hr)).1
  rw [List.map_append, ← hsame, hfixed]
  exact List.prefix_append _ _

end tampering

/-! ## Three events of two missions -/

namespace Sample

scoped instance zeroText : FloatText Unit :=
  ⟨fun _ => ['0', '.', '0'], fun _ => ()⟩

theorem lawfulFloatText_zero : LawfulFloatText Unit where
  shape _ := Or.inl ⟨⟨[], ['0'], ['.', '0'], []⟩, ⟨Or.inl rfl, Or.inl rfl,
    Or.inr ⟨['0'], rfl, by simp, by simp⟩, Or.inl rfl⟩, by simp, rfl⟩
  ofText_repr _ := rfl

scoped instance signText : FloatText Bool :=
  ⟨fun negative => if negative then ['-', '0', '.', '0'] else ['0', '.', '0'],
    fun t => t.head? = some '-'⟩

theorem lawfulFloatText_sign : LawfulFloatText Bool where
  shape negative := Or.inl ⟨⟨if negative then ['-'] else [], ['0'], ['.', '0'], []⟩,
    ⟨by cases negative <;> simp, Or.inl rfl, Or.inr ⟨['0'], rfl, by simp, by simp⟩, Or.inl rfl⟩,
    by simp, by cases negative <;> rfl⟩
  ofText_repr negative := by cases negative <;> rfl

/-- An injective digest that never starts with a zero. -/
def marked (s : String) : String :=
  ofChars ('#' :: toChars s)

theorem marked_injective : Function.Injective marked := by
  intro s t h
  have h := (List.cons.inj (ofChars_injective h)).2
  rw [toChars_eq, toChars_eq] at h
  exact String.toList_injective h

theorem marked_ne_zeroHash (t : String) : marked t ≠ zeroHash := by
  intro h
  exact absurd (List.cons.inj (ofChars_injective h)).1 (by decide)

def routed (missionId : String) (complexity : Bool) : TraceDraft Bool where
  missionId := missionId
  routeId := "route"
  eventType := "ROUTE"
  reason := "sample"
  risk := "LOW"
  complexity := complexity
  impact := false

def appending (i : ℕ) (eventId missionId : String) (complexity : Bool) :
    List (Move (traceSystem (F := Bool) marked)) :=
  [.spawn (routed missionId complexity), .act i { uuid := eventId }, .act i { time := "now" },
    .act i {}]

/-- Two events of a mission, with one of another mission between them. -/
def threeEvents : List (Move (traceSystem (F := Bool) marked)) :=
  appending 0 "a" "m" false ++ appending 1 "b" "n" false ++ appending 2 "c" "m" false

/-- The move appends no float but zero. -/
def plainMove (s : State (traceSystem (F := Bool) marked)) :
    Move (traceSystem (F := Bool) marked) → Bool
  | .act i _ => match s.next i with
    | some (.tx _ _ d) => !d.complexity && !d.impact && d.confidenceIn.isNone &&
      d.confidenceOut.isNone
    | _ => true
  | _ => true

theorem threeEvents_day : ∃ s, (emptyTrace marked).execWhile plainMove threeEvents = some s ∧
    (s.store.map fun r => (r.eventId, r.sequence)) = [("a", 1), ("b", 1), ("c", 2)] := by
  decide +kernel

theorem plain_of_move {m : Moment (traceSystem (F := Bool) marked)} {c eventId createdAt d o}
    (h : plainMove m.before m.move = true) (hp : m.Performs c (.tx eventId createdAt d) o) :
    d.Plain := by
  obtain ⟨i, x, k, hm, -⟩ := id hp
  rw [hm, plainMove, hp.next hm] at h
  simp only [Bool.and_eq_true, Bool.not_eq_true', Option.isNone_iff_eq_none] at h
  obtain ⟨⟨⟨hc, hi⟩, hin⟩, hout⟩ := h
  exact ⟨hc ▸ by decide, hi ▸ by decide, by simp [hin], by simp [hout]⟩

theorem trace_chains_sample : ∃ (ms : List (Moment (traceSystem (F := Bool) marked)))
    (s : State (traceSystem (F := Bool) marked)), Run (emptyTrace marked) ms s ∧
    (s.store.map fun r => (r.eventId, r.sequence)) = [("a", 1), ("b", 1), ("c", 2)] ∧
    verify marked s.store "m" = true ∧ verify marked s.store "n" = true := by
  obtain ⟨s, hs, hevents⟩ := threeEvents_day
  obtain ⟨ms, hr, hmoves⟩ := Run.of_execWhile hs
  have hplain : ∀ m ∈ ms, ∀ c eventId createdAt d o,
      m.Performs c (.tx eventId createdAt d) o → d.Plain :=
    fun m hm _ _ _ _ _ hp => plain_of_move (hmoves m hm) hp
  exact ⟨ms, s, hr, hevents, (trace_chains hr hplain "m").1, (trace_chains hr hplain "n").1⟩

/-- An event with a complexity of minus zero is refused when it is read back. -/
theorem negative_zero_refused : ∃ (ms : List (Moment (traceSystem (F := Bool) marked)))
    (s : State (traceSystem (F := Bool) marked)), LawfulFloatText Bool ∧
    Run (emptyTrace marked) ms s ∧ verify marked s.store "m" = false := by
  have hexec : ∃ s ∈ (emptyTrace marked).exec (appending 0 "a" "m" true),
      verify marked s.store "m" = false := by
    decide +kernel
  obtain ⟨s, hs, hrefused⟩ := hexec
  obtain ⟨ms, hr, -⟩ := Run.of_exec hs
  exact ⟨ms, s, lawfulFloatText_sign, hr, hrefused⟩

/-- The last event of the mission is deleted, and the event of the other one is altered. -/
def truncated (rows : List (TraceRow Bool)) : List (TraceRow Bool) :=
  rows.dropLast.map fun r => if r.missionId = "n" then { r with risk := "HIGH" } else r

theorem truncated_day : ∃ s, (emptyTrace marked).exec threeEvents = some s ∧
    (∀ r ∈ truncated s.store, r.stored = r) ∧ (missionRows s.store "m").length = 2 ∧
    (missionRows (truncated s.store) "m") = (missionRows s.store "m").take 1 ∧
    verify marked (truncated s.store) "m" = true ∧
      verify marked (truncated s.store) "n" = false := by
  decide +kernel

/-- `verify` accepts what is left of the mission. -/
theorem truncation_accepted : ∃ (ms : List (Moment (traceSystem (F := Bool) marked)))
    (s : State (traceSystem (F := Bool) marked)) (edited : TraceTable Bool),
    LawfulFloatText Bool ∧ Function.Injective marked ∧ Run (emptyTrace marked) ms s ∧
    missionRows edited.1 "m" ≠ missionRows s.store "m" ∧ verify marked edited.1 "m" = true := by
  obtain ⟨s, hs, hstored, htwo, hone, hverify, -⟩ := truncated_day
  obtain ⟨ms, hr, -⟩ := Run.of_exec hs
  refine ⟨ms, s, ⟨_, hstored⟩, lawfulFloatText_sign, marked_injective, hr, fun heq => ?_, hverify⟩
  have hlength := congrArg List.length (hone.symm.trans heq)
  rw [List.length_take, htwo] at hlength
  cases hlength

/-- The events that are left are the first ones of the mission. -/
theorem trace_prefix_sample : ∃ (ms : List (Moment (traceSystem (F := Bool) marked)))
    (s : State (traceSystem (F := Bool) marked)) (edited : TraceTable Bool),
    Run (emptyTrace marked) ms s ∧ edited.1 = truncated s.store ∧
    (missionRows s.store "m").length = 2 ∧ (missionRows edited.1 "m").length = 1 ∧
    missionRows edited.1 "m" <+: missionRows s.store "m" := by
  have := lawfulFloatText_sign
  obtain ⟨s, hs, hstored, htwo, hone, hverify, -⟩ := truncated_day
  obtain ⟨ms, hr, -⟩ := Run.of_exec hs
  obtain ⟨r, l, hrows⟩ := List.exists_cons_of_length_eq_add_one htwo
  rw [hrows, List.take_succ_cons, List.take_zero] at hone
  exact ⟨ms, s, ⟨_, hstored⟩, hr, rfl, htwo, congrArg List.length hone,
    trace_prefix marked_injective marked_ne_zeroHash hr hverify (congrArg List.getLast? hone)
      (hrows ▸ List.mem_cons_self) rfl⟩

end Sample

end OpsOrchestrator
