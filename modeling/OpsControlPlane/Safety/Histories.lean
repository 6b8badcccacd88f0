import OpsControlPlane.Sync.History
import OpsControlPlane.Safety.Collections
import OpsControlPlane.Broker.System
import Mathlib.Order.Filter.AtTopBot.Basic
import Mathlib.Order.Filter.Finite
import Mathlib.Data.Set.Finite.Basic

/-!
# Histories

A record that `payload` or the memory refuses stops the history of its project for ever; an
action stops the older pages of its mission. `Unblocked` says that there is no such item, and
`synchronised_iff` that repeated calls of `sync` bring everything in exactly then.
-/

namespace OpsSync

open Calls Transaction OpsMemory OpsControlPlane Paging

section

variable [Platform] (F : Type) [Host F] (recordId : Value → String) (h : History)

/-! ## Items -/

/-- The item is refused: `payload` raises, or the memory finds a secret in the value. -/
def refused (project missionId : String) (itemType : ItemType) (item : Item) : Bool :=
  match payload F project missionId item itemType with
  | .error _ => true
  | .ok none => false
  | .ok (some v) => !accepts v

def Names (f : Folder) (v : Value) : Prop :=
  ∃ c ∈ f.captured, c.source = v.source ∧ c.sourceRef = v.sourceRef

/-- An item without a value was counted as skipped, and a value is captured. -/
def Served (project missionId : String) (itemType : ItemType) (item : Item) (f : Folder)
    (log : List Entry) : Prop :=
  match payload F project missionId item itemType with
  | .error _ => False
  | .ok none => ⟨missionId, itemType, item, .skipped⟩ ∈ log
  | .ok (some v) => Names f v

/-- The value is that of a record or of an action which no earlier page stops. -/
def Offered (v : Value) : Prop :=
  (∃ r ∈ h.records, ∃ m, h.mission r.missionId = some m ∧
    payload F m.project r.missionId r.fields .record = .ok (some v)) ∨
  ∃ m ∈ h.missions, ∃ i a, m.actions[i]? = some a ∧
    Open 50 m.actions (refused F m.project m.id .action) i ∧
    payload F m.project m.id a .action = .ok (some v)

variable {F h} {project : String} {itemType : ItemType} {v : Value} {missionId : String}
  {item : Item}

theorem payload_source (hp : payload F project missionId item itemType = .ok (some v)) :
    ∃ id, itemId item = .ok id ∧ v.source = ⟨missionId, itemType.name, id⟩ := by
  simp only [payload, bind, Except.bind, pure, Except.pure] at hp
  repeat' split at hp
  all_goals
    cases hp <;> exact ⟨_, by assumption, rfl⟩

variable {m : Mission}

theorem mission_eq_some {id : String} : h.mission id = some m ↔ m ∈ h.missions ∧ m.id = id := by
  constructor
  · intro hm
    exact ⟨(row_some hm).1, (row_some hm).2⟩
  · rintro ⟨hm, rfl⟩
    exact row_of_mem h.missions_ids hm

theorem offered_unique {w : Value} (hv : Offered F h v) (hw : Offered F h w)
    (hs : v.source = w.source) : v = w := by
  rcases hv with ⟨r, hr, m, hm, hv⟩ | ⟨m, hm, i, a, ha, -, hv⟩ <;>
    rcases hw with ⟨r', hr', m', hm', hw⟩ | ⟨m', hm', i', a', ha', -, hw⟩
  all_goals
    obtain ⟨id, hid, hvs⟩ := payload_source hv
    obtain ⟨id', hid', hws⟩ := payload_source hw
    rw [hvs, hws] at hs
    injection hs with hmission htype hitem
    subst hitem
  · obtain rfl : r = r' := List.inj_on_of_nodup_map h.records_ids hr hr' (hid.trans hid'.symm)
    obtain rfl := Option.some.inj (hm.symm.trans hm')
    rw [hv] at hw
    exact Option.some.inj (Except.ok.inj hw)
  · exact absurd htype (by decide)
  · exact absurd htype (by decide)
  · obtain rfl : m = m' := List.inj_on_of_nodup_map h.missions_ids hm hm' hmission
    obtain rfl : a = a' := List.inj_on_of_nodup_map (h.actions_ids m hm)
      (List.mem_of_getElem? ha) (List.mem_of_getElem? ha') (hid.trans hid'.symm)
    rw [hv] at hw
    exact Option.some.inj (Except.ok.inj hw)

/-! ## The file -/

/-- Every row of an item names a value that was offered and that the memory accepts. -/
def Traced (F : Type) [Host F] (h : History) (f : Folder) : Prop :=
  ∀ c ∈ f.captured, c.source.itemType = "mission" ∨
    ((c.source, c.sourceRef) ∈ f.projected ∧
      ∃ v, Offered F h v ∧ accepts v = true ∧ v.source = c.source)

/-- The missions of the file are missions of the projects, each once. -/
structure Known (h : History) (f : Folder) : Prop where
  missions : ∀ q ∈ f.missions, ∃ m ∈ h.missions, m.id = q.1 ∧ m.project = q.2 ∧ q.2 ∈ projects
  nodup : (f.missions.map Prod.fst).Nodup

variable {f g : Folder}

theorem Known.of_eq (hf : Known h f) (hm : g.missions = f.missions) : Known h g :=
  ⟨by rw [hm]; exact hf.missions, by rw [hm]; exact hf.nodup⟩

/-- What one file and its report keep of those before. -/
structure Later (s t : Session) : Prop where
  names : ∀ v, Names s.folder v → Names t.folder v
  entries : ∀ e ∈ s.report.entries, e ∈ t.report.entries
  discovered : ∀ q ∈ s.folder.missions, q ∈ t.folder.missions
  migrated : s.folder.migrated = true → t.folder.migrated = true

/-- The cursors of the projects and of the missions that are not moved. -/
structure Frozen (H M A : String → Prop) (s t : Session) : Prop extends Later s t where
  history : ∀ q, H q → t.folder.historyCursor q = s.folder.historyCursor q
  missions : ∀ q, M q → t.folder.missionCursor q = s.folder.missionCursor q
  actions : ∀ q, A q → t.folder.actionOffset q = s.folder.actionOffset q

abbrev keyOf (c : Captured) : Source × String :=
  (c.source, c.sourceRef)

/-- The file behind the commit of the row. -/
def Folder.commit (c : Captured) (f : Folder) : Folder :=
  { f with
    captured := replace keyOf c f.captured
    projected := if keyOf c ∈ f.projected then f.projected else f.projected ++ [keyOf c] }

theorem store_new (ht : itemType ≠ .mission)
    (hrow : row keyOf (v.source, v.sourceRef) f.captured = none) :
    store F recordId itemType v f = if accepts v then
      some (true, f.commit ⟨v.source, v.sourceRef, recordId v⟩) else none := by
  simp only [store, captureItem, if_neg ht, capture]
  by_cases ha : accepts v = true
  · simp [syncOp, Prog.perform, Prog.run, Prog.ofExcept, Folder.perform, bind, Prog.bind, pure,
      keyOf, hrow, ha, Folder.commit]
  · simp [syncOp, Prog.perform, Prog.run, Prog.ofExcept, Folder.perform, bind, Prog.bind, pure,
      keyOf, hrow, ha]

theorem store_present (ht : itemType ≠ .mission) {c : Captured}
    (hrow : row keyOf (v.source, v.sourceRef) f.captured = some c)
    (hp : (v.source, v.sourceRef) ∈ f.projected) :
    store F recordId itemType v f = some (false, f) := by
  simp only [store, captureItem, if_neg ht, capture]
  simp [syncOp, Prog.perform, Prog.run, Prog.ofExcept, Folder.perform, bind, Prog.bind, pure,
    keyOf, hrow, hp]

theorem store_mission {b : Bool} (hstore : store F recordId .mission v f = some (b, g)) :
    g = f ∨ ∃ c state, c.source = v.source ∧ g = { f with
      captured := replace keyOf c f.captured
      missionStates := replace MissionState.source state f.missionStates } := by
  simp only [store, captureItem, if_true, captureMission] at hstore
  simp only [syncOp, Prog.perform, Prog.run, Prog.ofExcept, Folder.perform, bind, Prog.bind,
    pure] at hstore
  by_cases hsame : (row MissionState.source v.source f.missionStates).any
      fun state => state.digest = v.sourceRef
  · simp [hsame, Prog.run] at hstore
    exact Or.inl hstore.2.symm
  · by_cases ha : accepts (successor F v (row MissionState.source v.source f.missionStates)) = true
    · simp [hsame, ha, Prog.run, Prog.bind, Prog.ofExcept] at hstore
      exact Or.inr ⟨_, _, rfl, hstore.2.symm⟩
    · simp [hsame, ha, Prog.run, Prog.bind, Prog.ofExcept] at hstore

theorem mem_replace_iff {R κ : Type} [DecidableEq κ] {key : R → κ} {r q : R} {rows : List R} :
    q ∈ replace key r rows ↔ (q ∈ rows ∧ key q ≠ key r) ∨ q = r := by
  simp [replace]

theorem names_replace (hv : Names f v) (c : Captured) :
    ∃ c' ∈ replace keyOf c f.captured, c'.source = v.source ∧ c'.sourceRef = v.sourceRef := by
  obtain ⟨c', hc, hs, hr⟩ := hv
  by_cases hk : keyOf c' = keyOf c
  · obtain ⟨h₁, h₂⟩ := Prod.mk.inj hk
    exact ⟨c, mem_replace_iff.2 (Or.inr rfl), h₁ ▸ hs, h₂ ▸ hr⟩
  · exact ⟨c', mem_replace_iff.2 (Or.inl ⟨hc, hk⟩), hs, hr⟩

theorem traced_commit {id : String} (hf : Traced F h f) (hv : Offered F h v)
    (ha : accepts v = true) :
    Traced F h (f.commit ⟨v.source, v.sourceRef, id⟩) := by
  intro c hc
  have hsub : ∀ k, k ∈ f.projected ∨ k = (v.source, v.sourceRef) →
      k ∈ (f.commit ⟨v.source, v.sourceRef, id⟩).projected := by
    intro k hk
    simp only [Folder.commit]
    split_ifs with hin
    · rcases hk with hk | rfl
      · exact hk
      · exact hin
    · simpa using hk
  rcases mem_replace_iff.1 hc with ⟨hc, -⟩ | rfl
  · exact (hf c hc).imp_right fun ⟨hp, hw⟩ => ⟨hsub _ (Or.inl hp), hw⟩
  · exact Or.inr ⟨hsub _ (Or.inr rfl), v, hv, ha, rfl⟩

/-! ## The items of a page -/

/-- Nothing but the captured rows and the report is changed. -/
structure Captures (s t : Session) : Prop extends
    Frozen (fun _ => True) (fun _ => True) (fun _ => True) s t where
  table : t.folder.missions = s.folder.missions

variable {s t : Session}

/-- A session whose captured rows are others and whose report has one more entry. -/
theorem captures_of {e : Entry} (hnames : ∀ v, Names s.folder v → Names t.folder v)
    (hentries : t.report.entries = s.report.entries ++ [e])
    (hmissions : t.folder.missions = s.folder.missions)
    (hhistory : t.folder.historyCursor = s.folder.historyCursor)
    (hpages : t.folder.missionCursor = s.folder.missionCursor)
    (hactions : t.folder.actionOffset = s.folder.actionOffset)
    (hmigrated : t.folder.migrated = s.folder.migrated) : Captures s t where
  names := hnames
  entries e he := by
    rw [hentries]
    exact List.mem_append_left _ he
  discovered q hq := by rwa [hmissions]
  migrated hm := by rwa [hmigrated]
  history _ _ := by rw [hhistory]
  missions _ _ := by rw [hpages]
  actions _ _ := by rw [hactions]
  table := hmissions

/-- `collect`, of a record or an action: it fails if the item is refused, and else the item is
served. -/
theorem collect_item (project missionId : String) (itemType : ItemType) (item : Item)
    (ht : itemType ≠ .mission) (hs : Traced F h s.folder)
    (hoffered : ∀ v, payload F project missionId item itemType = .ok (some v) → Offered F h v) :
    let r := collect F recordId project missionId itemType item s
    Traced F h r.1.folder ∧ Captures s r.1 ∧ r.2 = refused F project missionId itemType item ∧
      (refused F project missionId itemType item = false →
        Served F project missionId itemType item r.1.folder r.1.report.entries) := by
  intro r
  cases hp : payload F project missionId item itemType with
  | error e =>
    have hr : r = (s.note missionId itemType item .failed, true) := by
      simp only [r, collect, hp]
    have href : refused F project missionId itemType item = true := by simp only [refused, hp]
    rw [hr, href]
    exact ⟨hs, captures_of (fun _ hv => hv) rfl rfl rfl rfl rfl rfl, rfl, fun hf => (by cases hf)⟩
  | ok value =>
    cases value with
    | none =>
      have hr : r = (s.note missionId itemType item .skipped, false) := by
        simp only [r, collect, hp]
      have href : refused F project missionId itemType item = false := by simp only [refused, hp]
      rw [hr, href]
      refine ⟨hs, captures_of (fun _ hv => hv) rfl rfl rfl rfl rfl rfl, rfl, fun _ => ?_⟩
      simp [Served, hp, Session.note]
    | some v =>
      have href : refused F project missionId itemType item = !accepts v := by
        simp only [refused, hp]
      have hoff := hoffered v hp
      cases hrow : row keyOf (v.source, v.sourceRef) s.folder.captured with
      | none =>
        by_cases ha : accepts v = true
        · have hr : r = (Session.note missionId itemType item .stored { s with
              folder := s.folder.commit ⟨v.source, v.sourceRef, recordId v⟩ }, false) := by
            simp only [r, collect, hp, store_new recordId ht hrow, ha, if_true]
          rw [hr, href, ha]
          refine ⟨traced_commit hs hoff ha, captures_of ?_ rfl rfl rfl rfl rfl rfl, rfl,
            fun _ => ?_⟩
          · exact fun w hw => names_replace hw _
          · simp only [Served, hp]
            exact ⟨⟨v.source, v.sourceRef, recordId v⟩, mem_replace_iff.2 (Or.inr rfl), rfl, rfl⟩
        · have hr : r = (s.note missionId itemType item .failed, true) := by
            simp only [r, collect, hp, store_new recordId ht hrow, if_neg ha]
          rw [hr, href, Bool.eq_false_of_not_eq_true ha]
          exact ⟨hs, captures_of (fun _ hv => hv) rfl rfl rfl rfl rfl rfl, rfl, nofun⟩
      | some c =>
        obtain ⟨hc, hkey⟩ := row_some hrow
        obtain ⟨hsource, href'⟩ := Prod.mk.inj hkey
        rcases hs c hc with hm | ⟨hproj, w, hw, haw, hws⟩
        · -- a row of a state has another source
          obtain ⟨id, -, hid⟩ := payload_source hp
          rw [hsource, hid] at hm
          cases itemType
          · simp [ItemType.name] at hm
          · simp [ItemType.name] at hm
          · exact absurd rfl ht
        · obtain rfl := offered_unique hw hoff (hws.trans hsource)
          have hproj : (w.source, w.sourceRef) ∈ s.folder.projected := by
            rw [← hsource, ← href']
            exact hproj
          have hr : r = (Session.note missionId itemType item .present s, false) := by
            simp only [r, collect, hp, store_present recordId ht hrow hproj]
            rfl
          rw [hr, href, haw]
          refine ⟨hs, captures_of (fun _ hv => hv) rfl rfl rfl rfl rfl rfl, rfl, fun _ => ?_⟩
          simp only [Served, hp]
          exact ⟨c, hc, hsource, href'⟩

theorem collect_state (project missionId : String) (item : Item) (hs : Traced F h s.folder) :
    Traced F h (collect F recordId project missionId .mission item s).1.folder ∧
      Captures s (collect F recordId project missionId .mission item s).1 := by
  cases hp : payload F project missionId item .mission with
  | error e =>
    simp only [collect, hp]
    exact ⟨hs, captures_of (fun _ hv => hv) rfl rfl rfl rfl rfl rfl⟩
  | ok value =>
    cases value with
    | none =>
      simp only [collect, hp]
      exact ⟨hs, captures_of (fun _ hv => hv) rfl rfl rfl rfl rfl rfl⟩
    | some v =>
      cases hstore : store F recordId .mission v s.folder with
      | none =>
        simp only [collect, hp, hstore]
        exact ⟨hs, captures_of (fun _ hv => hv) rfl rfl rfl rfl rfl rfl⟩
      | some r =>
        simp only [collect, hp, hstore]
        rcases store_mission recordId hstore with hf | ⟨c, state, hc, hf⟩
        · rw [hf]
          exact ⟨hs, captures_of (fun _ hv => hv) rfl rfl rfl rfl rfl rfl⟩
        · rw [hf]
          refine ⟨?_, captures_of (fun w hw => names_replace hw c) rfl rfl rfl rfl rfl rfl⟩
          intro c' hc'
          rcases mem_replace_iff.1 hc' with ⟨hc', -⟩ | rfl
          · exact hs c' hc'
          · obtain ⟨id, -, hid⟩ := payload_source hp
            exact Or.inl (by rw [hc, hid]; rfl)

/-! ## The turns of the readers -/

variable {u : Session}

theorem Later.trans (h₁ : Later s t) (h₂ : Later t u) : Later s u where
  names v hv := h₂.names v (h₁.names v hv)
  entries e he := h₂.entries e (h₁.entries e he)
  discovered q hq := h₂.discovered q (h₁.discovered q hq)
  migrated hm := h₂.migrated (h₁.migrated hm)

variable {H M A : String → Prop}

theorem Frozen.refl (s : Session) : Frozen H M A s s :=
  ⟨⟨fun _ hv => hv, fun _ he => he, fun _ hq => hq, id⟩, fun _ _ => rfl, fun _ _ => rfl,
    fun _ _ => rfl⟩

theorem Frozen.trans (h₁ : Frozen H M A s t) (h₂ : Frozen H M A t u) : Frozen H M A s u where
  toLater := h₁.toLater.trans h₂.toLater
  history q hq := (h₂.history q hq).trans (h₁.history q hq)
  missions q hq := (h₂.missions q hq).trans (h₁.missions q hq)
  actions q hq := (h₂.actions q hq).trans (h₁.actions q hq)

theorem Frozen.mono {H' M' A' : String → Prop} (hf : Frozen H M A s t) (hH : ∀ q, H' q → H q)
    (hM : ∀ q, M' q → M q) (hA : ∀ q, A' q → A q) : Frozen H' M' A' s t where
  toLater := hf.toLater
  history q hq := hf.history q (hH q hq)
  missions q hq := hf.missions q (hM q hq)
  actions q hq := hf.actions q (hA q hq)

theorem served_mono {l l' : List Entry} (hs : Served F project missionId itemType item f l)
    (hn : ∀ v, Names f v → Names g v) (hl : ∀ e ∈ l, e ∈ l') :
    Served F project missionId itemType item g l' := by
  unfold Served at *
  split at hs
  · exact hs
  · exact hl _ hs
  · exact hn _ hs

def Sound (F : Type) [Host F] (h : History) (s : Session) : Prop :=
  Traced F h s.folder ∧ Known h s.folder

theorem Sound.of_eq (hs : Sound F h s) (hc : t.folder.captured = s.folder.captured)
    (hp : t.folder.projected = s.folder.projected) (hm : t.folder.missions = s.folder.missions) :
    Sound F h t := by
  refine ⟨fun c hcap => ?_, hs.2.of_eq hm⟩
  rw [hc] at hcap
  rw [hp]
  exact hs.1 c hcap

theorem discover_spec (hm : m ∈ h.missions) (hp : m.project ∈ projects) (hs : Sound F h s) :
    let t := s.write (Folder.discover m.id m.project)
    Sound F h t ∧ Frozen (fun _ => True) (fun _ => True) (fun _ => True) s t ∧
      (m.id, m.project) ∈ t.folder.missions := by
  obtain ⟨htr, hknown⟩ := hs
  simp only [Session.write, Folder.discover]
  split_ifs with hin
  · refine ⟨⟨htr, hknown⟩, Frozen.refl s, ?_⟩
    obtain ⟨q, hq, hid⟩ := List.mem_map.1 hin
    obtain ⟨m', hm', hid', hproject, -⟩ := hknown.missions q hq
    obtain rfl := List.inj_on_of_nodup_map h.missions_ids hm' hm (hid'.trans hid)
    rw [hid', hproject]
    exact hq
  · refine ⟨⟨htr, ⟨?_, ?_⟩⟩, ⟨⟨fun _ hv => hv, fun _ he => he, ?_, id⟩, fun _ _ => rfl,
      fun _ _ => rfl, fun _ _ => rfl⟩, by simp⟩
    · intro q hq
      rcases List.mem_append.1 hq with hq | hq
      · exact hknown.missions q hq
      · obtain rfl := List.mem_singleton.1 hq
        exact ⟨m, hm, rfl, rfl, hp⟩
    · rw [List.map_append, List.map_singleton]
      exact List.nodup_append.2 ⟨hknown.nodup, List.nodup_singleton _, by
        intro a ha b hb
        rintro rfl
        rw [List.mem_singleton.1 hb] at ha
        exact hin ha⟩
    · intro q hq
      exact List.mem_append_left _ hq

theorem syncHistory_turn (hp : project ∈ projects) (hs : Sound F h s) :
    CursorTurn (Sound F h) (Frozen (· ≠ project) (fun _ => True) (fun _ => True))
      (fun s => s.folder.historyCursor project)
      (fun r => refused F project r.missionId .record r.fields)
      (fun r s => Served F project r.missionId .record r.fields s.folder s.report.entries)
      (rest Record.rowid (h.recordsOf project)) 10 s (syncHistory F recordId h project s) := by
  refine cursorPages_spec (fun s : Session => s.folder.historyCursor project)
    ⟨Frozen.refl, fun _ _ _ => Frozen.trans, ?_, ?_, ?_⟩ (by norm_num)
    (h.records_sorted.filter _) ?_ 10 hs
  · intro r s t hR hd
    exact served_mono hd hR.names hR.entries
  · intro n s hs
    refine ⟨hs.of_eq rfl rfl rfl, ⟨⟨fun _ hv => hv, fun _ he => he, fun _ hq => hq, id⟩,
      fun q hq => ?_, fun _ _ => rfl,
      fun _ _ => rfl⟩, ?_⟩
    · exact Function.update_of_ne hq _ _
    · exact Function.update_self _ _ _
  · intro s hs
    exact ⟨hs, ⟨⟨fun _ hv => hv, fun _ he => he, fun _ hq => hq, id⟩, fun _ _ => rfl,
      fun _ _ => rfl, fun _ _ => rfl⟩, rfl⟩
  · intro r hr
    obtain ⟨hr, hjoin⟩ := List.mem_filter.1 hr
    obtain ⟨m, hm, hproject⟩ := (Option.any_eq_true _ _).1 hjoin
    have hproject : m.project = project := by simpa using hproject
    obtain ⟨hmem, hid⟩ := mission_eq_some.1 hm
    refine ⟨fun s hs => ?_⟩
    obtain ⟨⟨htr, hknown⟩, hfrozen, -⟩ := discover_spec hmem (hproject ▸ hp) hs
    rw [hid, hproject] at htr hknown hfrozen
    obtain ⟨ht, hcap, hflag, hserved⟩ := collect_item (F := F) recordId
      project r.missionId .record r.fields nofun htr fun v hv =>
        Or.inl ⟨r, hr, m, hm, by rw [hproject]; exact hv⟩
    refine ⟨⟨ht, ?_⟩, ?_, ?_, hflag, hserved⟩
    · exact hknown.of_eq hcap.table
    · exact (hfrozen.trans hcap.toFrozen).mono (fun _ _ => trivial) (fun _ hq => hq) fun _ hq => hq
    · exact (hcap.history project trivial).trans (hfrozen.history project trivial)

theorem syncMissions_turn (hp : project ∈ projects) (hs : Sound F h s) :
    CursorTurn (Sound F h) (Frozen (fun _ => True) (· ≠ project) (fun _ => True))
      (fun s => s.folder.missionCursor project) (fun _ => false)
      (fun m s => (m.id, m.project) ∈ s.folder.missions)
      (rest Mission.rowid (h.missionsOf project)) 10 s (syncMissions h project s) := by
  refine cursorPages_spec (fun s : Session => s.folder.missionCursor project)
    ⟨Frozen.refl, fun _ _ _ => Frozen.trans, ?_, ?_, ?_⟩ (by norm_num)
    (h.missions_sorted.filter _) ?_ 10 hs
  · intro m s t hR hd
    exact hR.discovered _ hd
  · intro n s hs
    refine ⟨hs.of_eq rfl rfl rfl, ⟨⟨fun _ hv => hv, fun _ he => he, fun _ hq => hq, id⟩,
      fun _ _ => rfl, fun q hq => ?_,
      fun _ _ => rfl⟩, ?_⟩
    · exact Function.update_of_ne hq _ _
    · exact Function.update_self _ _ _
  · intro s hs
    exact ⟨hs, ⟨⟨fun _ hv => hv, fun _ he => he, fun _ hq => hq, id⟩, fun _ _ => rfl,
      fun _ _ => rfl, fun _ _ => rfl⟩, rfl⟩
  · intro m hm
    obtain ⟨hm, hproject⟩ := List.mem_filter.1 hm
    have hproject : m.project = project := by simpa using hproject
    refine ⟨fun s hs => ?_⟩
    obtain ⟨hsound, hfrozen, hin⟩ := discover_spec hm (hproject ▸ hp) hs
    rw [hproject] at hsound hfrozen hin
    refine ⟨hsound, ?_, hfrozen.missions project trivial, rfl, fun _ => ?_⟩
    · exact hfrozen.mono (fun _ hq => hq) (fun _ _ => trivial) fun _ hq => hq
    · rw [hproject]
      exact hin

abbrev ReadUpTo (F : Type) [Host F] (m : Mission) (s : Session) : Prop :=
  Reached 50 m.actions (fun s : Session => s.folder.actionOffset m.id)
    (refused F m.project m.id .action)
    (fun a s => ∀ v, payload F m.project m.id a .action = .ok (some v) → Names s.folder v) s

theorem ReadUpTo.keep (hr : ReadUpTo F m s) (hn : ∀ v, Names s.folder v → Names t.folder v)
    (ho : t.folder.actionOffset m.id = s.folder.actionOffset m.id) : ReadUpTo F m t := by
  refine ⟨?_, ?_, ?_⟩
  · rw [ho]
    exact hr.aligned
  · rw [ho]
    exact hr.bounded
  · intro i hi a ha
    rw [ho] at hi
    obtain ⟨hb, hd⟩ := hr.handled i hi a ha
    exact ⟨hb, fun v hv => hn v (hd v hv)⟩

/-- The turn of the actions of a mission, behind its state. -/
theorem syncMission_turn (hm : m ∈ h.missions) (hs : Sound F h s) (hr : ReadUpTo F m s) :
    match syncMission F recordId h s (m.id, m.project) with
    | .error _ => Overruns 50 1000000 m.actions (refused F m.project m.id .action)
    | .ok t => OffsetTurn 50 1000000 m.actions (Sound F h)
        (Frozen (fun _ => True) (fun _ => True) (· ≠ m.id))
        (fun s => s.folder.actionOffset m.id) (refused F m.project m.id .action)
        (fun a s => ∀ v, payload F m.project m.id a .action = .ok (some v) → Names s.folder v)
        10 s t := by
  have hmission : h.mission m.id = some m := mission_eq_some.2 ⟨hm, rfl⟩
  -- the state of the mission changes neither the offset nor what is captured of the actions
  obtain ⟨htr, hcap⟩ := collect_state recordId m.project m.id m.state hs.1
  have hstate : syncState F recordId h m.project m.id s
      = (collect F recordId m.project m.id .mission m.state s).1 := by
    simp only [syncState, History.getMissionState, hmission]
  rw [← hstate] at htr hcap
  obtain ⟨s', heq⟩ : ∃ s', syncState F recordId h m.project m.id s = s' := ⟨_, rfl⟩
  rw [heq] at htr hcap
  have hs' : Sound F h s' := ⟨htr, hs.2.of_eq hcap.table⟩
  have hoff : s'.folder.actionOffset m.id = s.folder.actionOffset m.id := hcap.actions _ trivial
  have hr' : ReadUpTo F m s' := hr.keep hcap.names hoff
  have hturn := offsetPages_spec 1000000 BrokerFault.invalidOffset
    (h.listActionsForMission m.id 50) (collect F recordId m.project m.id .action)
    (setActions m.id) (Session.bounded (m.id ++ ":action_backlog"))
    (I := Sound F h) (R := Frozen (fun _ => True) (fun _ => True) (· ≠ m.id))
    ⟨Frozen.refl, fun _ _ _ => Frozen.trans, ?_, ?_, ?_⟩ (by norm_num) ?_ (by norm_num) ?_ 10
    hs' hr'
  · have hsync : syncMission F recordId h s (m.id, m.project)
        = syncActions F recordId h m.project m.id s' := by
      simp only [syncMission, heq]
    rw [hsync]
    cases hresult : syncActions F recordId h m.project m.id s' with
    | error e =>
      simp only [syncActions] at hresult
      rw [hresult] at hturn
      exact hturn
    | ok t =>
      simp only [syncActions] at hresult
      rw [hresult] at hturn
      obtain ⟨hi, hR, hreached, hgoes, hclimbs⟩ := hturn
      rw [hoff] at hgoes hclimbs
      have hfrozen : Frozen (fun _ => True) (fun _ => True) (· ≠ m.id) s s' :=
        hcap.toFrozen.mono (fun _ hq => hq) (fun _ hq => hq) fun _ _ => trivial
      exact ⟨hi, hfrozen.trans hR, hreached, hgoes, hclimbs⟩
  · intro a s t hR hd v hv
    exact hR.names v (hd v hv)
  · intro n s hs
    refine ⟨hs.of_eq rfl rfl rfl, ⟨⟨fun _ hv => hv, fun _ he => he, fun _ hq => hq, id⟩,
      fun _ _ => rfl, fun _ _ => rfl, fun q hq => ?_⟩, ?_⟩
    · exact Function.update_of_ne hq _ _
    · exact Function.update_self _ _ _
  · intro s hs
    exact ⟨hs, ⟨⟨fun _ hv => hv, fun _ he => he, fun _ hq => hq, id⟩, fun _ _ => rfl,
      fun _ _ => rfl, fun _ _ => rfl⟩, rfl⟩
  · intro o
    simp only [History.listActionsForMission, hmission]
  · intro i a ha hopen
    refine ⟨fun s hs => ?_⟩
    obtain ⟨ht, hcap, hflag, hserved⟩ := collect_item (F := F) recordId
      m.project m.id .action a nofun hs.1 fun v hv =>
        Or.inr ⟨m, hm, i, a, ha, hopen, hv⟩
    refine ⟨⟨ht, hs.2.of_eq hcap.table⟩, ?_, hcap.actions _ trivial, hflag, ?_⟩
    · exact hcap.toFrozen.mono (fun _ hq => hq) (fun _ hq => hq) fun _ _ => trivial
    · intro hb v hv
      have := hserved hb
      simpa only [Served, hv] using this

/-! ## One call -/

/-- What holds between two calls. -/
def Good (F : Type) [Host F] (h : History) (s : Session) : Prop :=
  Sound F h s ∧ ∀ m ∈ h.missions, ReadUpTo F m s

abbrev ahead (h : History) (project : String) (f : Folder) : List Record :=
  rest Record.rowid (h.recordsOf project) (f.historyCursor project)

abbrev unseen (h : History) (project : String) (f : Folder) : List Mission :=
  rest Mission.rowid (h.missionsOf project) (f.missionCursor project)

structure ProjectTurn (F : Type) [Host F] (h : History) (project : String) (s t : Session) :
    Prop where
  handled : ∀ r ∈ ahead h project s.folder, r ∈ ahead h project t.folder ∨
    Served F project r.missionId .record r.fields t.folder t.report.entries
  stuck : ∀ r ∈ ahead h project s.folder,
    refused F project r.missionId .record r.fields = true → r ∈ ahead h project t.folder
  goes : (∀ r ∈ ahead h project s.folder, refused F project r.missionId .record r.fields = false) →
    (ahead h project t.folder).length ≤ (ahead h project s.folder).length - 1
  suffix : ahead h project t.folder <:+ ahead h project s.folder
  found : ∀ m ∈ unseen h project s.folder, m ∈ unseen h project t.folder ∨
    (m.id, m.project) ∈ t.folder.missions
  finds : (unseen h project t.folder).length ≤ (unseen h project s.folder).length - 1

theorem syncProject_turn (hp : project ∈ projects) (hs : Good F h s)
    (ht : syncProject F recordId h s project = .ok t) :
    Good F h t ∧ Frozen (· ≠ project) (· ≠ project) (fun _ => True) s t ∧
      ProjectTurn F h project s t := by
  obtain rfl := Except.ok.inj ht
  obtain ⟨hsound, hread⟩ := hs
  have h₁ := syncHistory_turn recordId hp hsound
  generalize syncHistory F recordId h project s = s₁ at *
  have h₂ := syncMissions_turn hp h₁.inv
  generalize syncMissions h project s₁ = s₂ at *
  have hhist : s₂.folder.historyCursor project = s₁.folder.historyCursor project :=
    h₂.keeps.history project trivial
  have hpages : s₁.folder.missionCursor project = s.folder.missionCursor project :=
    h₁.keeps.missions project trivial
  have hfrozen : Frozen (· ≠ project) (· ≠ project) (fun _ => True) s s₂ :=
    (h₁.keeps.mono (fun _ hq => hq) (fun _ _ => trivial) fun _ hq => hq).trans
      (h₂.keeps.mono (fun _ _ => trivial) (fun _ hq => hq) fun _ hq => hq)
  refine ⟨⟨h₂.inv, fun m hm => ?_⟩, hfrozen, ?_⟩
  · exact (hread m hm).keep hfrozen.names (hfrozen.actions m.id trivial)
  · have hahead : ahead h project s₂.folder = ahead h project s₁.folder := by
      simp only [ahead, hhist]
    have hunseen : unseen h project s₁.folder = unseen h project s.folder := by
      simp only [unseen, hpages]
    refine ⟨fun r hr => ?_, fun r hr hb => ?_, fun hall => ?_, ?_, fun m hm => ?_, ?_⟩
    · rw [hahead]
      exact (h₁.handled r hr).imp_right fun hd => served_mono hd h₂.keeps.names h₂.keeps.entries
    · rw [hahead]
      exact h₁.stuck r hr hb
    · rw [hahead]
      exact h₁.goes (by norm_num) hall
    · rw [hahead]
      exact h₁.suffix
    · rw [← hunseen] at hm
      exact h₂.handled m hm
    · rw [← hunseen]
      exact h₂.goes (by norm_num) fun _ _ => rfl

/-- What one call does for a project is not undone by the other readers. -/
theorem ProjectTurn.among {s₁ s₂ : Session} (hturn : ProjectTurn F h project s₁ s₂)
    (h₁ : (s₁.folder.historyCursor project, s₁.folder.missionCursor project) =
      (s.folder.historyCursor project, s.folder.missionCursor project))
    (h₂ : (t.folder.historyCursor project, t.folder.missionCursor project) =
      (s₂.folder.historyCursor project, s₂.folder.missionCursor project)) (hl : Later s₂ t) :
    ProjectTurn F h project s t := by
  have ha₁ : ahead h project s.folder = ahead h project s₁.folder := by
    simp only [ahead, (Prod.mk.inj h₁).1]
  have ha₂ : ahead h project t.folder = ahead h project s₂.folder := by
    simp only [ahead, (Prod.mk.inj h₂).1]
  have hu₁ : unseen h project s.folder = unseen h project s₁.folder := by
    simp only [unseen, (Prod.mk.inj h₁).2]
  have hu₂ : unseen h project t.folder = unseen h project s₂.folder := by
    simp only [unseen, (Prod.mk.inj h₂).2]
  refine ⟨?_, ?_, ?_, ?_, ?_, ?_⟩
  all_goals
    first | rw [ha₁, ha₂] | rw [hu₁, hu₂]
  · exact fun r hr => (hturn.handled r hr).imp_right fun hd => served_mono hd hl.names hl.entries
  · exact hturn.stuck
  · exact hturn.goes
  · exact hturn.suffix
  · exact fun m hm => (hturn.found m hm).imp_right (hl.discovered _)
  · exact hturn.finds

structure MissionTurn (F : Type) [Host F] (m : Mission) (s t : Session) : Prop where
  goes : Complete 50 m.actions (refused F m.project m.id .action)
      (fun a s => ∀ v, payload F m.project m.id a .action = .ok (some v) → Names s.folder v) t ∨
    t.folder.actionOffset m.id = s.folder.actionOffset m.id + 500
  climbs : Overruns 50 1000000 m.actions (refused F m.project m.id .action) →
    t.folder.actionOffset m.id = s.folder.actionOffset m.id + 500

theorem syncMission_step {q : String × String} (hq : ∃ m ∈ h.missions, m.id = q.1 ∧ m.project = q.2)
    (hs : Good F h s) (ht : syncMission F recordId h s q = .ok t) :
    Good F h t ∧ Frozen (fun _ => True) (fun _ => True) (· ≠ q.1) s t ∧
      ∀ m ∈ h.missions, m.id = q.1 → MissionTurn F m s t := by
  obtain ⟨m, hm, hid, hproject⟩ := hq
  obtain rfl : (m.id, m.project) = q := Prod.ext hid hproject
  have hturn := syncMission_turn recordId hm hs.1 (hs.2 m hm)
  rw [ht] at hturn
  obtain ⟨hi, hR, hreached, hgoes, hclimbs⟩ := hturn
  refine ⟨⟨hi, fun m' hm' => ?_⟩, hR, fun m' hm' hid' => ?_⟩
  · by_cases hsame : m'.id = m.id
    · obtain rfl := List.inj_on_of_nodup_map h.missions_ids hm' hm hsame
      exact hreached
    · exact (hs.2 m' hm').keep hR.names (hR.actions m'.id hsame)
  · obtain rfl := List.inj_on_of_nodup_map h.missions_ids hm' hm hid'
    exact ⟨hgoes, hclimbs⟩

omit [Platform] in
/-- The records are replayed in front of the first call, whose cursors are zero. -/
theorem migrate_eq (hf : f.migrated = true ∨ ∀ p, f.historyCursor p = 0) :
    f.migrate = { f with migrated := true } := by
  rcases hm : f.migrated with _ | _
  · have hcursor : f.historyCursor = fun _ => 0 := by
      ext p
      exact hf.resolve_left (by simp [hm]) p
    simp [Folder.migrate, hm, hcursor]
  · simp only [Folder.migrate, hm, if_true]
    cases f
    cases hm
    rfl

/-- A session of the file, in front of everything. -/
abbrev Folder.start (f : Folder) : Session :=
  ⟨f, ⟨[], []⟩⟩

structure SyncTurn (F : Type) [Host F] (h : History) (f : Folder) (t : Session) : Prop where
  good : Good F h t.folder.start
  migrated : t.folder.migrated = true
  names : ∀ v, Names f v → Names t.folder v
  discovered : ∀ q ∈ f.missions, q ∈ t.folder.missions
  projects : ∀ p ∈ projects, ProjectTurn F h p f.start t
  missions : ∀ m ∈ h.missions, (m.id, m.project) ∈ f.missions → MissionTurn F m f.start t

theorem sync_turn (hf : Good F h f.start) (hmig : f.migrated = true ∨ ∀ p, f.historyCursor p = 0) :
    match sync F recordId h f with
    | .error _ => ∃ m ∈ h.missions, m.project ∈ projects ∧
      Overruns 50 1000000 m.actions (refused F m.project m.id .action)
    | .ok t => SyncTurn F h f t := by
  have hstart : Good F h f.migrate.start := by
    rw [migrate_eq hmig]
    exact ⟨hf.1.of_eq rfl rfl rfl, fun m hm => (hf.2 m hm).keep (fun _ hv => hv) rfl⟩
  have hproject : ∀ p ∈ projects, ∀ s t, Good F h s → syncProject F recordId h s p = .ok t →
      Good F h t ∧ Frozen (fun _ => False) (fun _ => False) (fun _ => True) s t ∧
        ∀ j ∈ projects, j ≠ p → (t.folder.historyCursor j, t.folder.missionCursor j) =
          (s.folder.historyCursor j, s.folder.missionCursor j) := by
    intro p hp s t hs ht
    obtain ⟨hg, hR, -⟩ := syncProject_turn recordId hp hs ht
    refine ⟨hg, hR.mono (fun _ hq => hq.elim) (fun _ hq => hq.elim) fun _ hq => hq, ?_⟩
    intro j _ hj
    exact Prod.ext (hR.history j hj) (hR.missions j hj)
  cases hfold : projects.foldlM (syncProject F recordId h) f.migrate.start with
  | error e =>
    obtain ⟨p, hp, s₁, -, hs₁⟩ := foldlM_error (fun p hp s t hs ht => (hproject p hp s t hs ht).1)
      hstart hfold
    cases hs₁
  | ok s =>
    have hsync : sync F recordId h f = s.folder.missions.foldlM (syncMission F recordId h) s := by
      simp only [sync]
      rw [hfold]
      rfl
    obtain ⟨hs, hR, hturns⟩ := foldlM_turn
      (fun p (s : Session) => (s.folder.historyCursor p, s.folder.missionCursor p))
      Frozen.refl (fun _ _ _ => Frozen.trans) hproject hstart hfold (by decide)
    -- the missions that the file names behind the projects
    have hknown := hs.1.2
    have hmission : ∀ q ∈ s.folder.missions, ∀ s₁ t, Good F h s₁ →
        syncMission F recordId h s₁ q = .ok t → Good F h t ∧
          Frozen (fun _ => True) (fun _ => True) (fun _ => False) s₁ t ∧
          ∀ j ∈ s.folder.missions, j ≠ q →
            t.folder.actionOffset j.1 = s₁.folder.actionOffset j.1 := by
      intro q hq s₁ t hs₁ ht
      obtain ⟨m, hm, hid, hproj, -⟩ := hknown.missions q hq
      obtain ⟨hg, hR, -⟩ := syncMission_step recordId ⟨m, hm, hid, hproj⟩ hs₁ ht
      refine ⟨hg, hR.mono (fun _ hq => hq) (fun _ hq => hq) fun _ hq => hq.elim, ?_⟩
      intro j hj hne
      refine hR.actions j.1 fun he => hne ?_
      exact List.inj_on_of_nodup_map hknown.nodup hj hq he
    rw [hsync]
    cases hfold₂ : s.folder.missions.foldlM (syncMission F recordId h) s with
    | error e =>
      obtain ⟨q, hq, s₁, hs₁, he⟩ := foldlM_error
        (fun q hq s t hs ht => (hmission q hq s t hs ht).1) hs hfold₂
      obtain ⟨m, hm, hid, hproj, hin⟩ := hknown.missions q hq
      obtain rfl : (m.id, m.project) = q := Prod.ext hid hproj
      have hturn := syncMission_turn recordId hm hs₁.1 (hs₁.2 m hm)
      rw [he] at hturn
      exact ⟨m, hm, hin, hturn⟩
    | ok t =>
      obtain ⟨ht, hR₂, hturns₂⟩ := foldlM_turn
        (fun q (s : Session) => s.folder.actionOffset q.1)
        Frozen.refl (fun _ _ _ => Frozen.trans) hmission hs hfold₂ hknown.nodup.of_map
      have hl : Later f.migrate.start t := hR.toLater.trans hR₂.toLater
      rw [migrate_eq hmig] at hl hturns hR
      refine ⟨⟨ht.1.of_eq rfl rfl rfl, fun m hm => (ht.2 m hm).keep (fun _ hv => hv) rfl⟩,
        hl.migrated rfl, hl.names, hl.discovered, fun p hp => ?_, fun m hm hin => ?_⟩
      · obtain ⟨s₁, s₂, h₁, hR₁, hc₁, hstep, hR₂', hc₂⟩ := hturns p hp
        obtain ⟨-, -, hturn⟩ := syncProject_turn recordId hp h₁ hstep
        refine hturn.among hc₁ ?_ (hR₂'.toLater.trans hR₂.toLater)
        rw [← hc₂]
        exact Prod.ext (hR₂.history p trivial) (hR₂.missions p trivial)
      · have hin' : (m.id, m.project) ∈ s.folder.missions := hR.discovered _ hin
        obtain ⟨s₁, s₂, h₁, hR₁, hc₁, hstep, hR₂', hc₂⟩ := hturns₂ _ hin'
        obtain ⟨-, -, hturn⟩ := syncMission_step recordId ⟨m, hm, rfl, rfl⟩ h₁ hstep
        have hoff : s.folder.actionOffset m.id = f.actionOffset m.id := hR.actions m.id trivial
        obtain ⟨hgoes, hclimbs⟩ := hturn m hm rfl
        have hc₁ : s₁.folder.actionOffset m.id = f.actionOffset m.id := hc₁.trans hoff
        have hc₂ : t.folder.actionOffset m.id = s₂.folder.actionOffset m.id := hc₂
        refine ⟨?_, ?_⟩
        · rcases hgoes with hgoes | hgoes
          · left
            intro i a ha hopen hb v hv
            exact hR₂'.names v (hgoes i a ha hopen hb v hv)
          · right
            rw [hc₂, hgoes, hc₁]
        · intro hov
          rw [hc₂, hclimbs hov, hc₁]

/-! ## Runs -/

def Returns (F : Type) [Host F] (recordId : Value → String) (h : History)
    (w : ℕ → Folder × List Entry) : Prop :=
  ∀ n, syncs F recordId h n = .ok (w n)

/-- What holds behind any number of calls. -/
structure Between (F : Type) [Host F] (h : History) (w : Folder × List Entry) : Prop where
  good : Good F h w.1.start
  migrated : w.1.migrated = true ∨ ∀ p, w.1.historyCursor p = 0
  served : ∀ p ∈ projects, ∀ r ∈ h.recordsOf p, r ∈ ahead h p w.1 ∨
    Served F p r.missionId .record r.fields w.1 w.2
  stuck : ∀ p ∈ projects, ∀ r ∈ h.recordsOf p,
    refused F p r.missionId .record r.fields = true → r ∈ ahead h p w.1
  found : ∀ p ∈ projects, ∀ m ∈ h.missionsOf p, m ∈ unseen h p w.1 ∨
    (m.id, m.project) ∈ w.1.missions

theorem between_empty : Between F h (Folder.empty, []) := by
  have hahead : ∀ p, ∀ r ∈ h.recordsOf p, r ∈ ahead h p Folder.empty := fun p r hr =>
    mem_rest.2 ⟨hr, h.records_positive r (List.mem_of_mem_filter hr)⟩
  refine ⟨⟨⟨?_, ?_, ?_⟩, fun m hm => ⟨dvd_zero _, Nat.zero_le _, ?_⟩⟩, Or.inr fun _ => rfl,
    fun p _ r hr => Or.inl (hahead p r hr), fun p _ r hr _ => hahead p r hr, fun p _ m hm =>
      Or.inl (mem_rest.2 ⟨hm, h.missions_positive m (List.mem_of_mem_filter hm)⟩)⟩
  · intro c hc
    exact absurd hc List.not_mem_nil
  · intro q hq
    exact absurd hq List.not_mem_nil
  · exact List.nodup_nil
  · intro i hi
    exact absurd hi (Nat.not_lt_zero i)

theorem Between.step {w : Folder × List Entry} (hw : Between F h w) (ht : SyncTurn F h w.1 t) :
    Between F h (t.folder, w.2 ++ t.report.entries) := by
  refine ⟨ht.good, Or.inl ht.migrated, fun p hp r hr => ?_, fun p hp r hr hb => ?_,
    fun p hp m hm => ?_⟩
  · rcases hw.served p hp r hr with hahead | hserved
    · refine ((ht.projects p hp).handled r hahead).imp_right fun hs => ?_
      exact served_mono hs (fun _ hv => hv) fun e he => List.mem_append_right _ he
    · exact Or.inr (served_mono hserved ht.names fun e he => List.mem_append_left _ he)
  · exact (ht.projects p hp).stuck r (hw.stuck p hp r hr hb) hb
  · rcases hw.found p hp m hm with hunseen | hin
    · exact (ht.projects p hp).found m hunseen
    · exact Or.inr (ht.discovered _ hin)

theorem returns_of_bounded (hb : ∀ m ∈ h.missions, m.project ∈ projects →
    ¬Overruns 50 1000000 m.actions (refused F m.project m.id .action)) (n : ℕ) :
    ∃ w, syncs F recordId h n = .ok w ∧ Between F h w := by
  induction n with
  | zero => exact ⟨_, rfl, between_empty⟩
  | succ n ih =>
    obtain ⟨w, hw, hbetween⟩ := ih
    have hturn := sync_turn recordId hbetween.good hbetween.migrated
    cases hs : sync F recordId h w.1 with
    | error e =>
      rw [hs] at hturn
      obtain ⟨m, hm, hp, hover⟩ := hturn
      exact absurd hover (hb m hm hp)
    | ok t =>
      rw [hs] at hturn
      refine ⟨(t.folder, w.2 ++ t.report.entries), ?_, hbetween.step hturn⟩
      simp only [syncs, hw, bind, Except.bind, hs, pure, Except.pure]

section

variable {recordId} {w : ℕ → Folder × List Entry}

theorem returns_step (hw : Returns F recordId h w) (n : ℕ) :
    ∃ t, sync F recordId h (w n).1 = .ok t ∧
      w (n + 1) = (t.folder, (w n).2 ++ t.report.entries) := by
  have hn := hw (n + 1)
  simp only [syncs, hw n, bind, Except.bind, pure, Except.pure] at hn
  split at hn
  · cases hn
  · exact ⟨_, by assumption, (Except.ok.inj hn).symm⟩

theorem returns_between (hw : Returns F recordId h w) (n : ℕ) : Between F h (w n) := by
  induction n with
  | zero =>
    have h₀ : w 0 = (Folder.empty, []) := (Except.ok.inj (hw 0)).symm
    rw [h₀]
    exact between_empty
  | succ n ih =>
    obtain ⟨t, hs, hn⟩ := returns_step hw n
    have hturn := sync_turn recordId ih.good ih.migrated
    rw [hs] at hturn
    rw [hn]
    exact ih.step hturn

theorem returns_turn (hw : Returns F recordId h w) (n : ℕ) :
    ∃ t, SyncTurn F h (w n).1 t ∧ t.folder = (w (n + 1)).1 := by
  obtain ⟨t, hs, hn⟩ := returns_step hw n
  have hbetween := returns_between hw n
  have hturn := sync_turn recordId hbetween.good hbetween.migrated
  rw [hs] at hturn
  exact ⟨t, hturn, by rw [hn]⟩

/-- A history without a record that is refused comes to its end. -/
theorem eventually_read (hw : Returns F recordId h w) {p : String} (hp : p ∈ projects)
    (hgood : ∀ r ∈ h.recordsOf p, refused F p r.missionId .record r.fields = false) :
    ∀ᶠ n in Filter.atTop, ahead h p (w n).1 = [] := by
  have hlen : ∀ n, (ahead h p (w n).1).length ≤ (h.recordsOf p).length - n := by
    intro n
    induction n with
    | zero => exact List.length_filter_le _ _
    | succ n ih =>
      obtain ⟨t, ht, hn⟩ := returns_turn hw n
      have hgoes := (ht.projects p hp).goes fun r hr => hgood r (mem_rest.1 hr).1
      rw [hn] at hgoes
      have : (ahead h p (w n).1.start.folder).length = (ahead h p (w n).1).length := rfl
      omega
  refine Filter.eventually_atTop.2 ⟨(h.recordsOf p).length, fun n hn => ?_⟩
  have := hlen n
  exact List.length_eq_zero_iff.1 (by omega)

variable {m : Mission}

theorem eventually_found (hw : Returns F recordId h w) (hm : m ∈ h.missions)
    (hp : m.project ∈ projects) : ∀ᶠ n in Filter.atTop, (m.id, m.project) ∈ (w n).1.missions := by
  have hlen : ∀ n, (unseen h m.project (w n).1).length ≤ (h.missionsOf m.project).length - n := by
    intro n
    induction n with
    | zero => exact List.length_filter_le _ _
    | succ n ih =>
      obtain ⟨t, ht, hn⟩ := returns_turn hw n
      have hfinds := (ht.projects m.project hp).finds
      rw [hn] at hfinds
      have : (unseen h m.project (w n).1.start.folder).length =
        (unseen h m.project (w n).1).length := rfl
      omega
  refine Filter.eventually_atTop.2 ⟨(h.missionsOf m.project).length, fun n hn => ?_⟩
  have hmem : m ∈ h.missionsOf m.project := List.mem_filter.2 ⟨hm, by simp⟩
  refine ((returns_between hw n).found m.project hp m hmem).resolve_left fun hin => ?_
  have := hlen n
  have := List.length_pos_of_mem hin
  omega

abbrev AllCaptured (F : Type) [Host F] (m : Mission) (f : Folder) : Prop :=
  Complete 50 m.actions (refused F m.project m.id .action)
    (fun a (f : Folder) => ∀ v, payload F m.project m.id a .action = .ok (some v) → Names f v) f

/-- From the discovery of a mission on, each call reads ten pages of its actions, until the ones
that no page stops are captured. -/
theorem actions_climb (hw : Returns F recordId h w) (hm : m ∈ h.missions) {n : ℕ}
    (hn : (m.id, m.project) ∈ (w n).1.missions) (k : ℕ) :
    (m.id, m.project) ∈ (w (n + k)).1.missions ∧
      (AllCaptured F m (w (n + k)).1 ∨
        (w (n + k)).1.actionOffset m.id = (w n).1.actionOffset m.id + 500 * k) ∧
      (Overruns 50 1000000 m.actions (refused F m.project m.id .action) →
        (w (n + k)).1.actionOffset m.id = (w n).1.actionOffset m.id + 500 * k) := by
  induction k with
  | zero => exact ⟨hn, Or.inr rfl, fun _ => rfl⟩
  | succ k ih =>
    obtain ⟨hin, hgoes, hclimbs⟩ := ih
    obtain ⟨t, ht, hnext⟩ := returns_turn hw (n + k)
    obtain ⟨tgoes, tclimbs⟩ := ht.missions m hm hin
    have hnext : t.folder = (w (n + (k + 1))).1 := hnext
    have hstart : ((w (n + k)).1.start).folder.actionOffset m.id
        = (w (n + k)).1.actionOffset m.id := rfl
    rw [hstart, hnext] at tgoes tclimbs
    refine ⟨hnext ▸ ht.discovered _ hin, ?_, fun hov => ?_⟩
    · rcases hgoes with hdone | hoff
      · left
        intro i a ha hopen hb v hv
        exact hnext ▸ ht.names v (hdone i a ha hopen hb v hv)
      · rcases tgoes with tgoes | tgoes
        · left
          intro i a ha hopen hb v hv
          exact hnext ▸ tgoes i a ha hopen hb v hv
        · right
          rw [tgoes, hoff]
          ring
    · rw [tclimbs hov, hclimbs hov]
      ring

theorem offset_le (hw : Returns F recordId h w) (hm : m ∈ h.missions) (n : ℕ) :
    (w n).1.actionOffset m.id ≤ m.actions.length :=
  ((returns_between hw n).good.2 m hm).bounded

theorem eventually_captured (hw : Returns F recordId h w) (hm : m ∈ h.missions)
    (hp : m.project ∈ projects) : ∀ᶠ n in Filter.atTop, AllCaptured F m (w n).1 := by
  obtain ⟨n, hn⟩ := Filter.eventually_atTop.1 (eventually_found hw hm hp)
  refine Filter.eventually_atTop.2 ⟨n + (m.actions.length + 1), fun N hN => ?_⟩
  obtain ⟨k, rfl⟩ := Nat.exists_eq_add_of_le (show n ≤ N by omega)
  refine (actions_climb hw hm (hn n le_rfl) k).2.1.resolve_right fun hoff => ?_
  have := offset_le hw hm (n + k)
  omega

theorem returns_bounded (hw : Returns F recordId h w) (hm : m ∈ h.missions)
    (hp : m.project ∈ projects) :
    ¬Overruns 50 1000000 m.actions (refused F m.project m.id .action) := by
  intro hover
  obtain ⟨n, hn⟩ := Filter.eventually_atTop.1 (eventually_found hw hm hp)
  have hoff := (actions_climb hw hm (hn n le_rfl) (m.actions.length + 1)).2.2 hover
  have := offset_le hw hm (n + (m.actions.length + 1))
  omega

end

/-- An action that is captured is one that no earlier page stops. -/
theorem open_of_names (hf : Traced F h f) (hm : m ∈ h.missions) {i : ℕ} {a : Item}
    (ha : m.actions[i]? = some a) (hp : payload F m.project m.id a .action = .ok (some v))
    (hn : Names f v) : Open 50 m.actions (refused F m.project m.id .action) i := by
  obtain ⟨c, hc, hsource, -⟩ := hn
  obtain ⟨id, hid, hv⟩ := payload_source hp
  rw [hv] at hsource
  rcases hf c hc with hmission | ⟨-, v', hoff, -, hv'⟩
  · rw [hsource] at hmission
    simp [ItemType.name] at hmission
  · rw [hsource] at hv'
    rcases hoff with ⟨r, -, m', -, hp'⟩ | ⟨m', hm', j, b, hb, hopen, hp'⟩
    · obtain ⟨id', -, hr⟩ := payload_source hp'
      rw [hr] at hv'
      injection hv' with _ htype _
      simp [ItemType.name] at htype
    · obtain ⟨id', hid', hr⟩ := payload_source hp'
      rw [hr] at hv'
      injection hv' with hmission _ hitem
      subst hitem
      obtain rfl := List.inj_on_of_nodup_map h.missions_ids hm' hm hmission
      obtain rfl := List.inj_on_of_nodup_map (h.actions_ids m' hm) (List.mem_of_getElem? hb)
        (List.mem_of_getElem? ha) (hid'.trans hid.symm)
      have hlt := (List.getElem?_eq_some_iff.1 ha).1
      have hnodup := (h.actions_ids m' hm).of_map
      rw [(List.getElem?_inj hlt hnodup).1 (ha.trans hb.symm)]
      exact hopen

/-! ## Synchronisation -/

/-- The cursor of every project is behind its last record, every record was counted as skipped or
it is captured, and every action that the memory accepts is captured. -/
structure Synchronised (F : Type) [Host F] (h : History) (w : Folder × List Entry) : Prop where
  records : ∀ p ∈ projects, ∀ r ∈ h.recordsOf p, r.rowid ≤ w.1.historyCursor p ∧
    Served F p r.missionId .record r.fields w.1 w.2
  actions : ∀ m ∈ h.missions, m.project ∈ projects → ∀ a ∈ m.actions, ∀ v,
    payload F m.project m.id a .action = .ok (some v) → accepts v = true → Names w.1 v

/-- No record is refused, no action that the memory accepts is behind a page with an action that is
refused, and no mission has actions beyond the last offset of the broker. -/
structure Unblocked (F : Type) [Host F] (h : History) : Prop where
  records : ∀ p ∈ projects, ∀ r ∈ h.recordsOf p,
    refused F p r.missionId .record r.fields = false
  actions : ∀ m ∈ h.missions, m.project ∈ projects → ∀ i a, m.actions[i]? = some a →
    (∃ v, payload F m.project m.id a .action = .ok (some v) ∧ accepts v = true) →
    Open 50 m.actions (refused F m.project m.id .action) i
  offsets : ∀ m ∈ h.missions, m.project ∈ projects →
    ¬Overruns 50 1000000 m.actions (refused F m.project m.id .action)

theorem cursor_lt_of_refused {recordId : Value → String} {w : ℕ → Folder × List Entry}
    (hw : Returns F recordId h w) {p : String} (hp : p ∈ projects) {r : Record}
    (hr : r ∈ h.recordsOf p) (hbad : refused F p r.missionId .record r.fields = true) (n : ℕ) :
    (w n).1.historyCursor p < r.rowid :=
  (mem_rest.1 ((returns_between hw n).stuck p hp r hr hbad)).2

/-- The calls return and bring everything in exactly when nothing is blocked. -/
theorem synchronised_iff (recordId : Value → String) (h : History) :
    (∃ w, Returns F recordId h w ∧ ∃ n, Synchronised F h (w n)) ↔ Unblocked F h := by
  constructor
  · rintro ⟨w, hw, n, hsync⟩
    have hbetween := returns_between hw n
    refine ⟨fun p hp r hr => ?_, fun m hm hp i a ha => ?_, fun m hm hp => returns_bounded hw hm hp⟩
    · by_contra hbad
      have hlt := cursor_lt_of_refused hw hp hr (by simpa using hbad) n
      have hle := (hsync.records p hp r hr).1
      omega
    · rintro ⟨v, hv, haccepts⟩
      have hnames := hsync.actions m hm hp a (List.mem_of_getElem? ha) v hv haccepts
      exact open_of_names hbetween.good.1.1 hm ha hv hnames
  · intro hun
    have hreturns : ∀ n, ∃ w, syncs F recordId h n = .ok w := fun n =>
      (returns_of_bounded recordId hun.offsets n).imp fun _ hw => hw.1
    choose w hw using hreturns
    have hread : ∀ᶠ n in Filter.atTop, ∀ p ∈ {p | p ∈ projects}, ahead h p (w n).1 = [] :=
      (Filter.eventually_all_finite (List.finite_toSet projects)).2 fun p hp =>
        eventually_read hw hp (hun.records p hp)
    have hcaptured : ∀ᶠ n in Filter.atTop, ∀ m ∈ {m | m ∈ h.missions}, m.project ∈ projects →
        AllCaptured F m (w n).1 := by
      refine (Filter.eventually_all_finite (List.finite_toSet h.missions)).2 fun m hm => ?_
      by_cases hp : m.project ∈ projects
      · exact (eventually_captured hw hm hp).mono fun n hn _ => hn
      · exact Filter.Eventually.of_forall fun n hp' => absurd hp' hp
    obtain ⟨n, hahead, hall⟩ := (hread.and hcaptured).exists
    have hbetween := returns_between hw n
    refine ⟨w, hw, n, fun p hp r hr => ?_, fun m hm hp a ha v hv haccepts => ?_⟩
    · have hnot : r ∉ ahead h p (w n).1 := by
        rw [hahead p hp]
        exact List.not_mem_nil
      refine ⟨?_, (hbetween.served p hp r hr).resolve_left hnot⟩
      by_contra hlt
      exact hnot (mem_rest.2 ⟨hr, by omega⟩)
    · obtain ⟨i, hi, rfl⟩ := List.mem_iff_getElem.1 ha
      have hrow := List.getElem?_eq_getElem hi
      have hopen := hun.actions m hm hp i _ hrow ⟨v, hv, haccepts⟩
      exact hall m hm hp i _ hrow hopen (by simp only [refused, hv, haccepts, Bool.not_true]) v hv

end

namespace Sample

open OpsControlPlane.Sample Text

theorem scanned_eq (v : Value) : scanned v = toChars heading ++ toChars v.source.missionId ++
    '\n' :: (toChars v.body ++ toChars "\nagent-observation\n" ++ toChars v.source.uri ++
      '\n' :: (toChars v.sourceRef ++ toChars "\nops-broker")) := by
  simp [scanned, toChars_eq, Value.content]

def record (rowid : ℕ) (id content : String) : Record where
  rowid := rowid
  missionId := "m"
  fields := [("id", .str id), ("mission_id", .str "m"), ("kind", .str "observation"),
    ("content", .str content), ("evidence", .arr []),
    ("created_at", .str "2026-09-11T00:00:00.000000Z")]

theorem itemId_record (rowid : ℕ) (id content : String) : itemId (record rowid id content).fields =
    match normalizedUuid id with
    | some id => .ok id
    | none => .error .malformed :=
  rfl

/-- Two records, the first with the content. -/
def history (content : String) : History where
  missions := [⟨1, "m", "minecraft", [], []⟩]
  records := [record 1 "75aea141-2759-47f4-86e8-380fa2780918" content,
    record 2 "11111111-1111-4111-8111-111111111111" "bonjour"]
  missions_sorted := by simp
  missions_positive := by simp
  missions_ids := by simp
  records_sorted := by simp [record]
  records_positive := by simp [record]
  records_ids := by
    simp only [List.map, itemId_record]
    decide
  records_missions := by simp [record]
  actions_ids := by simp

theorem mem_recordsOf {content p : String} {r : Record} (h : r ∈ (history content).recordsOf p) :
    p = "minecraft" ∧ r ∈ (history content).records := by
  obtain ⟨hr, hany⟩ := List.mem_filter.1 h
  obtain ⟨m, hm, hp⟩ := (Option.any_eq_true _ _).1 hany
  obtain rfl := List.mem_singleton.1 (row_some hm).1
  exact ⟨(of_decide_eq_true hp).symm, hr⟩

/-- Both records are brought in. -/
theorem synchronised_plain : ∃ w, Returns ℤ (fun _ => "memory") (history "bonjour") w ∧
    ∃ n, Synchronised ℤ (history "bonjour") (w n) := by
  refine (synchronised_iff _ _).2 ⟨fun p _ r hr => ?_, fun m hm _ i a ha => ?_, fun m hm _ => ?_⟩
  · obtain ⟨rfl, hr⟩ := mem_recordsOf hr
    have hall : ∀ r ∈ (history "bonjour").records,
        refused ℤ "minecraft" r.missionId .record r.fields = false := by
      simp only [refused, accepts, scanned_eq]
      decide +kernel
    exact hall r hr
  · obtain rfl := List.mem_singleton.1 hm
    cases ha
  · obtain rfl := List.mem_singleton.1 hm
    rintro ⟨o, hlow, hhigh, -⟩
    exact absurd (hlow.trans_le hhigh) (by decide)

/-- The memory takes the redacted text for a secret, which the broker has redacted. -/
theorem secret_blocks : redactText "secret: hunter2hunter2" = "secret: [REDACTED]" ∧
    ¬∃ w, Returns ℤ (fun _ => "memory") (history "secret: [REDACTED]") w ∧
      ∃ n, Synchronised ℤ (history "secret: [REDACTED]") (w n) := by
  refine ⟨by decide, ?_⟩
  rintro ⟨w, hw, n, hsync⟩
  have hin : record 1 "75aea141-2759-47f4-86e8-380fa2780918" "secret: [REDACTED]" ∈
      (history "secret: [REDACTED]").recordsOf "minecraft" := by
    simp [History.recordsOf, history, History.mission, row, record]
  have hrefused : refused ℤ "minecraft" "m" .record (record 1
      "75aea141-2759-47f4-86e8-380fa2780918" "secret: [REDACTED]").fields = true := by
    simp only [refused, accepts, scanned_eq]
    decide +kernel
  have hlt := cursor_lt_of_refused hw (by decide) hin hrefused n
  have hle := (hsync.records "minecraft" (by decide) _ hin).1
  omega

end Sample

end OpsSync
