import OpsControlPlane.Telemetry.Incidents
import Mathlib.Tactic

/-!
# Incidents mirror the feeds

`Step` says what an operation on the incidents of a source does: the incidents of the other source
and those that are resolved stay as they are, and no identity has two open incidents. `mirrors` is
the result over calls on whole watch files, where a source that is not reported as ok has no feed.
`torn_watch_resolves` is a call on a watch file that fails half-way.
-/

namespace OpsTelemetry

open JsonText Text

variable {F : Type} {rows rows' rows'' : List (Incident F)} {source : Source}

/-! ## Rows -/

variable {r : Incident F} {identity host : String}

theorem isOpen_iff : r.isOpen source identity = true ↔
      r.source = source ∧ r.identity = identity ∧ r.resolved = none := by
  unfold Incident.isOpen
  rw [Bool.decide_and, Bool.and_eq_true, Bool.decide_and, Bool.and_eq_true, decide_eq_true_iff,
    decide_eq_true_iff, decide_eq_true_iff]

structure Step (source : Source) (rows rows' : List (Incident F)) : Prop where
  distinct : Distinct rows'
  others : ∀ other, other ≠ source → ofSource rows' other = ofSource rows other
  resolved : ∀ r ∈ rows, r.resolved ≠ none → r ∈ rows'

theorem Step.refl (h : Distinct rows) : Step source rows rows :=
  ⟨h, fun _ _ => rfl, fun _ hr _ => hr⟩

theorem Step.trans (h : Step source rows rows') (h' : Step source rows' rows'') :
    Step source rows rows'' where
  distinct := h'.distinct
  others other hne := (h'.others other hne).trans (h.others other hne)
  resolved r hr hres := h'.resolved r (h.resolved r hr hres) hres

variable {other : Source}

theorem opened_congr (h : ofSource rows' other = ofSource rows other) (identity : String) :
    Opened rows' other identity ↔ Opened rows other identity := by
  have hmem : ∀ r : Incident F, r.isOpen other identity = true → (r ∈ rows' ↔ r ∈ rows) := by
    intro r hopen
    have hsource : decide (r.source = other) = true := decide_eq_true (isOpen_iff.1 hopen).1
    have hboth : r ∈ ofSource rows' other ↔ r ∈ ofSource rows other := by rw [h]
    unfold ofSource at hboth
    rw [List.mem_filter, List.mem_filter] at hboth
    exact ⟨fun hr => (hboth.1 ⟨hr, hsource⟩).1, fun hr => (hboth.2 ⟨hr, hsource⟩).1⟩
  exact exists_congr fun r => and_congr_left fun hopen => hmem r hopen

variable {f : Incident F → Incident F}

theorem ofSource_map (h : ∀ r ∈ rows, f r = r ∨ r.source ≠ other ∧ (f r).source ≠ other) :
    ofSource (rows.map f) other = ofSource rows other := by
  induction rows with
  | nil => rfl
  | cons r rows ih =>
    have ih := ih fun r hr => h r (List.mem_cons_of_mem _ hr)
    unfold ofSource at ih ⊢
    rw [List.map_cons]
    rcases h r List.mem_cons_self with heq | ⟨hr, hfr⟩
    · rw [heq, List.filter_cons, List.filter_cons, ih]
    · rw [List.filter_cons_of_neg (by simpa using hfr), List.filter_cons_of_neg (by simpa using hr),
        ih]

theorem countP_map_le
    (h : ∀ r ∈ rows, (f r).isOpen other identity = true → r.isOpen other identity = true) :
    (rows.map f).countP (Incident.isOpen other identity) ≤
      rows.countP (Incident.isOpen other identity) := by
  rw [List.countP_map]
  exact List.countP_mono_left h

theorem id_lt_nextId (h : r ∈ rows) : r.id < nextId rows := by
  have hle : ∀ (l : List ℕ), ∀ n ∈ l, n ≤ l.foldr max 0 := by
    intro l
    induction l with
    | nil => exact fun n hn => absurd hn List.not_mem_nil
    | cons m l ih =>
      intro n hn
      rcases List.mem_cons.1 hn with rfl | hn
      · exact le_max_left _ _
      · exact (ih n hn).trans (le_max_right _ _)
  exact Nat.lt_succ_of_le (hle _ _ (List.mem_map_of_mem h))

/-- Rows are rewritten without another identifier, source or identity, and none is opened. -/
theorem step_map (h : Distinct rows) (hid : ∀ r, (f r).id = r.id)
    (hsource : ∀ r, (f r).source = r.source)
    (hopen : ∀ r other identity, (f r).isOpen other identity = true →
      r.isOpen other identity = true)
    (hsame : ∀ r ∈ rows, f r = r ∨ r.source = source ∧ r.resolved = none) :
    Step source rows (rows.map f) where
  distinct := by
    refine ⟨?_, fun other identity =>
      (countP_map_le fun r _ => hopen r other identity).trans (h.opened other identity)⟩
    rw [List.map_map, show Incident.id ∘ f = Incident.id from funext hid]
    exact h.ids
  others other hne := by
    refine ofSource_map fun r hr => ?_
    rcases hsame r hr with heq | ⟨hs, -⟩
    · exact .inl heq
    · exact .inr ⟨fun ho => hne (ho.symm.trans hs), fun ho =>
        hne (ho.symm.trans ((hsource r).trans hs))⟩
  resolved r hr hres := by
    rcases hsame r hr with heq | ⟨-, hnone⟩
    · exact List.mem_map.2 ⟨r, hr, heq⟩
    · exact absurd hnone hres

/-! ## One alert -/

theorem eq_of_id (h : Distinct rows) {row : Incident F} (hr : r ∈ rows) (hrow : row ∈ rows)
    (hid : r.id = row.id) : r = row :=
  List.inj_on_of_nodup_map h.ids hr hrow hid

/-- An alert that is noted has an open incident, and no open incident is lost. -/
theorem step_note {now : ℚ} {a : Alert F} (h : Distinct rows)
    (hn : note now source a rows = some rows') : Step source rows rows' ∧
      ∀ identity, Opened rows' source identity ↔
        Opened rows source identity ∨ identity = a.identity := by
  unfold note at hn
  split at hn
  · next row hrow =>
    obtain rfl := Option.some.inj hn
    have hmem := List.mem_of_find?_eq_some hrow
    have hopen : row.isOpen source a.identity = true := List.find?_some hrow
    obtain ⟨hsource, hidentity, hnone⟩ := isOpen_iff.1 hopen
    have hkeeps : ∀ (r : Incident F) (other : Source) (identity : String),
        (if r.id = row.id then { r with lastSeen := now } else r).isOpen other identity =
          r.isOpen other identity := by
      intro r other identity
      split_ifs <;> rfl
    refine ⟨step_map h (fun r => by split_ifs <;> rfl) (fun r => by split_ifs <;> rfl)
      (fun r other identity => by rw [hkeeps]; exact id) fun r hr => ?_, fun identity => ?_⟩
    · by_cases hid : r.id = row.id
      · obtain rfl := eq_of_id h hr hmem hid
        exact .inr ⟨hsource, hnone⟩
      · exact .inl (if_neg hid)
    · constructor
      · rintro ⟨r', hr', hopen'⟩
        obtain ⟨r, hr, rfl⟩ := List.mem_map.1 hr'
        rw [hkeeps] at hopen'
        exact .inl ⟨r, hr, hopen'⟩
      · rintro (⟨r, hr, hopen'⟩ | rfl)
        · exact ⟨_, List.mem_map_of_mem hr, (hkeeps r _ _).trans hopen'⟩
        · exact ⟨_, List.mem_map_of_mem hmem, (hkeeps row _ _).trans hopen⟩
  · next hnone =>
    split_ifs at hn
    obtain rfl := Option.some.inj hn
    have hno : ∀ r ∈ rows, ¬r.isOpen source a.identity = true := List.find?_eq_none.1 hnone
    refine ⟨⟨⟨?_, fun other identity => ?_⟩, fun other hne => ?_, fun r hr _ =>
      List.mem_append_left _ hr⟩, fun identity => ?_⟩
    · rw [List.map_append, List.nodup_append]
      refine ⟨h.ids, List.nodup_singleton _, fun n hn m hm heq => ?_⟩
      obtain ⟨r, hr, rfl⟩ := List.mem_map.1 hn
      obtain rfl := List.mem_singleton.1 hm
      exact absurd heq (id_lt_nextId hr).ne
    · rw [List.countP_append, List.countP_singleton]
      split_ifs with hopen
      · obtain ⟨hs, hi, -⟩ := isOpen_iff.1 hopen
        dsimp only at hs hi
        subst hs hi
        rw [List.countP_eq_zero.2 hno]
      · exact h.opened other identity
    · unfold ofSource
      rw [List.filter_append, List.filter_cons_of_neg (by simpa using hne.symm)]
      exact List.append_nil _
    · constructor
      · rintro ⟨r, hr, hopen⟩
        rcases List.mem_append.1 hr with hr | hr
        · exact .inl ⟨r, hr, hopen⟩
        · obtain rfl := List.mem_singleton.1 hr
          exact .inr (isOpen_iff.1 hopen).2.1.symm
      · rintro (⟨r, hr, hopen⟩ | rfl)
        · exact ⟨r, List.mem_append_left _ hr, hopen⟩
        · exact ⟨_, List.mem_append_right _ (List.mem_singleton_self _),
            isOpen_iff.2 ⟨rfl, rfl, rfl⟩⟩

variable {alerts : List (Alert F)}

/-- The same for the alerts of a feed, one after the other. -/
theorem step_notes {now : ℚ} (h : Distinct rows)
    (hn : alerts.foldlM (fun rows a => note now source a rows) rows = some rows') :
    Step source rows rows' ∧ ∀ identity, Opened rows' source identity ↔
      Opened rows source identity ∨ identity ∈ alerts.map Alert.identity := by
  induction alerts generalizing rows with
  | nil =>
    obtain rfl := Option.some.inj hn
    exact ⟨.refl h, fun identity => (or_iff_left List.not_mem_nil).symm⟩
  | cons a alerts ih =>
    rw [List.foldlM_cons] at hn
    obtain ⟨rows₁, ha, hn⟩ := Option.bind_eq_some_iff.1 hn
    obtain ⟨hstep, hopened⟩ := step_note h ha
    obtain ⟨hrest, hothers⟩ := ih hstep.distinct hn
    refine ⟨hstep.trans hrest, fun identity => ?_⟩
    rw [hothers, hopened, List.map_cons, List.mem_cons, or_assoc]

/-! ## A feed -/

theorem isOpen_resolveUnseen {now : ℚ} {seen : List String}
    (h : (if r.source = source ∧ r.resolved = none ∧ r.identity ∉ seen then
      { r with resolved := some now } else r).isOpen other identity = true) :
    r.isOpen other identity = true ∧ (other = source → identity ∈ seen) := by
  split_ifs at h with hif
  · obtain ⟨-, -, hres⟩ := isOpen_iff.1 h
    cases hres
  · obtain ⟨hs, hi, hres⟩ := isOpen_iff.1 h
    refine ⟨h, fun heq => ?_⟩
    by_contra hseen
    exact hif ⟨hs.trans heq, hres, by rwa [hi]⟩

theorem step_resolveUnseen {now : ℚ} {seen : List String} (h : Distinct rows) :
    Step source rows (resolveUnseen now source seen rows) ∧
      ∀ identity, Opened (resolveUnseen now source seen rows) source identity ↔
        Opened rows source identity ∧ identity ∈ seen := by
  refine ⟨step_map h (fun r => by split_ifs <;> rfl) (fun r => by split_ifs <;> rfl)
    (fun r other identity hopen => (isOpen_resolveUnseen hopen).1) fun r hr => ?_,
    fun identity => ?_⟩
  · by_cases hif : r.source = source ∧ r.resolved = none ∧ r.identity ∉ seen
    · exact .inr ⟨hif.1, hif.2.1⟩
    · exact .inl (if_neg hif)
  · constructor
    · rintro ⟨r', hr', hopen⟩
      obtain ⟨r, hr, rfl⟩ := List.mem_map.1 hr'
      obtain ⟨hopen', hseen⟩ := isOpen_resolveUnseen hopen
      exact ⟨⟨r, hr, hopen'⟩, hseen rfl⟩
    · rintro ⟨⟨r, hr, hopen⟩, hseen⟩
      have hif : ¬(r.source = source ∧ r.resolved = none ∧ r.identity ∉ seen) := fun hif =>
        hif.2.2 (by rwa [(isOpen_iff.1 hopen).2.1])
      exact ⟨r, List.mem_map.2 ⟨r, hr, if_neg hif⟩, hopen⟩

theorem step_reconcile {now : ℚ} (h : Distinct rows)
    (hn : reconcile now source alerts rows = some rows') : Step source rows rows' ∧
      ∀ identity, Opened rows' source identity ↔ identity ∈ alerts.map Alert.identity := by
  obtain ⟨rows₁, hnotes, rfl⟩ := Option.map_eq_some_iff.1 hn
  obtain ⟨hstep, hopened⟩ := step_notes h hnotes
  obtain ⟨hrest, hunseen⟩ := @step_resolveUnseen _ _ source now (alerts.map Alert.identity)
    hstep.distinct
  refine ⟨hstep.trans hrest, fun identity => ?_⟩
  rw [hunseen, hopened]
  exact ⟨And.right, fun h => ⟨.inr h, h⟩⟩

theorem step_reconcileFeed {now : ℚ} {feed : Option (List (Alert F))} (h : Distinct rows)
    (hn : reconcileFeed now source feed rows = some rows') : Step source rows rows' ∧
      (feed = none → rows' = rows) ∧ (feed.isSome = true → ∀ identity,
        Opened rows' source identity ↔ identity ∈ (feed.getD []).map Alert.identity) := by
  cases feed with
  | none =>
    obtain rfl := Option.some.inj hn
    exact ⟨.refl h, fun _ => rfl, fun hsome => (by cases hsome)⟩
  | some alerts =>
    obtain ⟨hstep, hopened⟩ := step_reconcile h hn
    exact ⟨hstep, fun hnone => (by cases hnone), fun _ => hopened⟩

/-! ## The watch file -/

theorem issueAlerts_whole {issues : List (Json F)}
    (h : ∀ issue ∈ issues, ∃ text, issue = .str text) : (issueAlerts host issues).2 = true := by
  induction issues with
  | nil => rfl
  | cons issue issues ih =>
    obtain ⟨text, rfl⟩ := h issue List.mem_cons_self
    exact ih fun i hi => h i (List.mem_cons_of_mem _ hi)

theorem resourceAlerts_whole {item : Json F} (h : WholeResource item) :
    (resourceAlerts host item).2 = true := by
  obtain ⟨fields, issues, rfl, hissues, htexts⟩ := h
  have hread : resourceAlerts host (.obj fields) = issueAlerts host issues := by
    simp only [resourceAlerts, hissues]
  rw [hread]
  exact issueAlerts_whole htexts

theorem resourcesAlerts_whole {items : List (String × Json F)}
    (h : ∀ kv ∈ items, WholeResource kv.2) : (resourcesAlerts items).2 = true := by
  induction items with
  | nil => rfl
  | cons kv items ih =>
    have hfirst : (resourceAlerts kv.1 kv.2).2 = true :=
      resourceAlerts_whole (h kv List.mem_cons_self)
    have hrest := ih fun kv hkv => h kv (List.mem_cons_of_mem _ hkv)
    rw [resourcesAlerts]
    dsimp only
    rw [if_pos hfirst]
    exact hrest

theorem servicesFeed_whole [FloatClock F] {now : ℚ} {watch : Option (Json F)}
    (h : WholeWatch now watch) :
    (servicesFeed now watch).2 = (servicesFeed now watch).1.isSome := by
  unfold servicesFeed
  cases hw : watch.filter (recentWatch now) with
  | none => rfl
  | some w =>
    obtain ⟨hwatch, hrecent⟩ := Option.filter_eq_some_iff.1 hw
    obtain ⟨items, hitems, hwhole⟩ := h w hwatch hrecent
    dsimp only
    rw [hitems]
    exact resourcesAlerts_whole hwhole

theorem mem_issueAlerts {issues : List (Json F)} {identity : String}
    (h : ∀ issue ∈ issues, ∃ text, issue = .str text) :
    identity ∈ (issueAlerts host issues).1.map Alert.identity ↔
      ∃ text, .str text ∈ issues ∧ identity = host ++ ":" ++ text := by
  induction issues with
  | nil => simp [issueAlerts]
  | cons issue issues ih =>
    obtain ⟨text, rfl⟩ := h issue List.mem_cons_self
    simp only [issueAlerts, List.map_cons, List.mem_cons,
      ih fun i hi => h i (List.mem_cons_of_mem _ hi), Json.str.injEq, or_and_right, exists_or,
      exists_eq_left]

theorem mem_resourcesAlerts {items : List (String × Json F)} {identity : String}
    (h : ∀ kv ∈ items, WholeResource kv.2) :
    identity ∈ (resourcesAlerts items).1.map Alert.identity ↔
      ∃ kv ∈ items, identity ∈ (resourceAlerts kv.1 kv.2).1.map Alert.identity := by
  induction items with
  | nil => simp [resourcesAlerts]
  | cons kv items ih =>
    rw [resourcesAlerts]
    dsimp only
    rw [if_pos (resourceAlerts_whole (h kv List.mem_cons_self)), List.map_append, List.mem_append,
      ih fun kv hkv => h kv (List.mem_cons_of_mem _ hkv)]
    simp only [List.mem_cons, exists_eq_or_imp]

/-- A host has an identity for each of its problems in a recent watch file. -/
theorem mem_present_services [FloatText F] [FloatClock F] {now : ℚ} {reply : Option (Json F)}
    {w : Json F} {items : List (String × Json F)} {identity : String}
    (hrecent : recentWatch now w = true) (hitems : field "resources" w = some (.obj items))
    (hwhole : ∀ kv ∈ items, WholeResource kv.2) :
    identity ∈ present now reply (some w) .services ↔ ∃ kv ∈ items, ∃ fields issues text,
      kv.2 = .obj fields ∧ iterate ((fields.lookup "problems").getD (.arr [])) = some issues ∧
      .str text ∈ issues ∧ identity = kv.1 ++ ":" ++ text := by
  have hfeed : present now reply (some w) .services =
      (resourcesAlerts items).1.map Alert.identity := by
    simp only [present, servicesFeed, Option.filter_some, hrecent, if_true, hitems,
      Option.getD_some]
  rw [hfeed, mem_resourcesAlerts hwhole]
  refine exists_congr fun kv => and_congr_right fun hkv => ?_
  obtain ⟨fields, issues, hkv, hissues, htexts⟩ := hwhole kv hkv
  simp only [hkv, resourceAlerts, hissues, mem_issueAlerts htexts]
  constructor
  · rintro ⟨text, htext, rfl⟩
    exact ⟨fields, issues, text, rfl, hissues, htext, rfl⟩
  · rintro ⟨fields', issues', text, hfields, hissues', htext, rfl⟩
    obtain rfl := Json.obj.inj hfields
    obtain rfl := Option.some.inj (hissues.symm.trans hissues')
    exact ⟨text, htext, rfl⟩

/-! ## Calls -/

section observe

variable [FloatText F] [FloatClock F] {now : ℚ} {reply watch : Option (Json F)} {report : Report F}

/-- A call on a whole watch file. -/
theorem mirrors_of_distinct (h : Distinct rows) (hw : WholeWatch now watch)
    (ho : observe now reply watch rows = some (report, rows')) :
    Mirrors now reply watch rows report rows' := by
  obtain ⟨rows₁, hfirst, ho⟩ := Option.bind_eq_some_iff.1 ho
  obtain ⟨rows₂, hsecond, ho⟩ := Option.bind_eq_some_iff.1 ho
  obtain ⟨rfl, rfl⟩ := Prod.mk.inj (Option.some.inj ho)
  obtain ⟨hstep, hnone, hsome⟩ := step_reconcileFeed h hfirst
  obtain ⟨hstep', hnone', hsome'⟩ := step_reconcileFeed hstep.distinct hsecond
  have hfeed := servicesFeed_whole hw
  refine ⟨fun source hok => ?_, fun source hok identity => ?_, hstep'.distinct,
    (fun r hr hres => hstep'.resolved r (hstep.resolved r hr hres) hres)⟩
  · cases source with
    | prometheus =>
      have hno : reply.bind prometheusFeed = none :=
        Option.not_isSome_iff_eq_none.1 (Bool.eq_false_iff.1 hok)
      rw [hstep'.others .prometheus (by decide), hnone hno]
    | services =>
      have hno : (servicesFeed now watch).1 = none :=
        Option.not_isSome_iff_eq_none.1 (Bool.eq_false_iff.1 (hfeed.symm.trans hok))
      rw [hnone' hno, hstep.others .services (by decide)]
  · cases source with
    | prometheus =>
      rw [opened_congr (hstep'.others .prometheus (by decide))]
      exact hsome hok identity
    | services => exact hsome' (hfeed.symm.trans hok) identity

theorem Observed.distinct (h : Observed rows) : Distinct rows := by
  induction h with
  | start => exact ⟨List.nodup_nil, fun _ _ => Nat.zero_le 1⟩
  | observe h hw ho ih => exact (mirrors_of_distinct ih hw ho).distinct

/-- After calls on whole watch files, a call on a whole watch file changes no incident of a source
that it reports as unavailable, leaves those of the feed open where it reports ok, opens no identity
twice and changes no incident that is resolved. -/
theorem mirrors (h : Observed rows) (hw : WholeWatch now watch)
    (ho : observe now reply watch rows = some (report, rows')) :
    Mirrors now reply watch rows report rows' :=
  mirrors_of_distinct h.distinct hw ho

end observe

/-! ## A watch file that fails half-way -/

namespace Sample

scoped instance noFloats : FloatText Unit where
  repr := fun _ => ['0']
  ofText := fun _ => ()

scoped instance noClock : FloatClock Unit where
  recent := fun _ _ => false

def watchOf (resources : Json Unit) : Json Unit :=
  .obj [("checked_at", .int 0), ("resources", resources)]

def broken (problem : String) : Json Unit :=
  watchOf (.obj [("prod", .obj [("problems", .arr [.str problem])])])

/-- The entry of the host is not an object. -/
def torn : Json Unit :=
  watchOf (.obj [("prod", .null)])

theorem wholeWatch_broken (now : ℚ) (problem : String) :
    WholeWatch now (some (broken problem)) := by
  rintro w hw -
  obtain rfl := Option.some.inj hw
  refine ⟨_, rfl, fun kv hkv => ?_⟩
  obtain rfl := List.mem_singleton.1 hkv
  refine ⟨_, _, rfl, rfl, fun issue hissue => ?_⟩
  exact ⟨problem, List.mem_singleton.1 hissue⟩

/-- One problem follows another. -/
theorem mirrors_broken : ∃ (rows rows' : List (Incident Unit)) (report : Report Unit),
    Observed rows ∧ rows ≠ [] ∧
    observe 2 none (some (broken "memory_low")) rows = some (report, rows') ∧
    Mirrors 2 none (some (broken "memory_low")) rows report rows' := by
  have hrun : ((observe 1 none (some (broken "disk_low")) []).bind fun p =>
      (observe 2 none (some (broken "memory_low")) p.2).map fun _ => p.2.isEmpty) =
      some false := by
    decide +kernel
  obtain ⟨⟨report, rows⟩, ho, hrun⟩ := Option.bind_eq_some_iff.1 hrun
  obtain ⟨⟨report', rows'⟩, ho', hrows⟩ := Option.map_eq_some_iff.1 hrun
  have hobserved : Observed rows := .observe .start (wholeWatch_broken 1 "disk_low") ho
  exact ⟨rows, rows', report', hobserved, List.isEmpty_eq_false_iff.1 hrows, ho',
    mirrors hobserved (wholeWatch_broken 2 "memory_low") ho'⟩

/-- The services are reported as unavailable, and their incident is resolved. -/
theorem torn_watch_resolves : ∃ (rows rows' : List (Incident Unit)) (report : Report Unit),
    Observed rows ∧ observe 2 none (some torn) rows = some (report, rows') ∧
    report.ok .services = false ∧ ofSource rows' .services ≠ ofSource rows .services := by
  have hrun : ((observe 1 none (some (broken "disk_low")) []).bind fun p =>
      (observe 2 none (some torn) p.2).map fun q => (q.1.ok .services,
        (ofSource p.2 .services).map Incident.resolved,
        (ofSource q.2 .services).map Incident.resolved)) =
      some (false, [none], [some 2]) := by
    decide +kernel
  obtain ⟨⟨report, rows⟩, ho, hrun⟩ := Option.bind_eq_some_iff.1 hrun
  obtain ⟨⟨report', rows'⟩, ho', hq⟩ := Option.map_eq_some_iff.1 hrun
  obtain ⟨hok, hq⟩ := Prod.mk.inj hq
  obtain ⟨hbefore, hafter⟩ := Prod.mk.inj hq
  refine ⟨rows, rows', report', .observe .start (wholeWatch_broken 1 "disk_low") ho, ho', hok,
    fun heq => ?_⟩
  rw [heq, hbefore] at hafter
  exact absurd hafter (by decide)

end Sample

end OpsTelemetry
