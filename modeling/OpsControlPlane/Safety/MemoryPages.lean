import OpsControlPlane.Broker.MemoryPages
import OpsControlPlane.Broker.Writes
import OpsControlPlane.Safety.Audit
import OpsControlPlane.Lib.Paging
import OpsControlPlane.Lib.Undisturbed

/-!
# Paging of missions and records

`memory_pages_once` says that calls which follow `next_cursor` from zero return the missions and the
records of a project that were there at the first call once and in order, while others are added
between the calls, and that a page is not full at last if they are not added forever.

The pages are those of `Paging.following` (`exec_listMemoryMissions`, `exec_listMemoryHistory`), and
the rows of a project grow as it asks (`grows_missionsOf`, `grows_recordsOf`).
-/

set_option linter.unusedSectionVars false

namespace OpsControlPlane

open JsonText Calendar Calls Transaction Paging

variable [Platform]

/-! ## Databases that grow -/

/-- Rows in the order of their row ids. -/
structure Numbered (rowid : String → ℕ) (keys : List String) : Prop where
  increasing : (keys.map rowid).Pairwise (· < ·)
  bounds : ∀ key ∈ keys, 0 < rowid key ∧ rowid key < 2 ^ 63

/-- A row that `add_record` writes. -/
def Recorded (r : RecordRow) : Prop :=
  ∃ (q : AddRecord) (args : String → DateTime → NewRecord) (id : String) (t : DateTime),
    q.validate = .ok args ∧ r = (args id t).row

/-- Databases one after the other, to which missions and records are added. The other tables, and
the status of a mission, may change. -/
structure Grown (ids : RowIds) (d : ℕ → Db) : Prop where
  mission_ids : ∀ k, Numbered ids.mission ((d k).missions.map MissionRow.id)
  record_ids : ∀ k, Numbered ids.record ((d k).missionRecords.map RecordRow.id)
  missions : ∀ k, (d k).missions.map (fun m => (m.id, m.projectId)) <+:
    (d (k + 1)).missions.map fun m => (m.id, m.projectId)
  records : ∀ k, (d k).missionRecords <+: (d (k + 1)).missionRecords
  joined : ∀ k, ∀ r ∈ (d k).missionRecords, r.missionId ∈ (d k).missions.map MissionRow.id
  recorded : ∀ k, ∀ r ∈ (d k).missionRecords, Recorded r

variable {rowid : String → ℕ} {α β : Type} {key : α → String} {rows l : List α}

theorem Numbered.sorted (h : Numbered rowid (rows.map key)) (p : α → Bool) :
    (rows.filter p).Pairwise fun a b => rowid (key a) < rowid (key b) := by
  have hp := h.increasing
  rw [List.map_map] at hp
  exact (List.pairwise_map.1 hp).filter p

theorem Numbered.inj {keys : List String} (h : Numbered rowid keys) {k l : String} (hk : k ∈ keys)
    (hl : l ∈ keys) (heq : rowid k = rowid l) : k = l :=
  List.inj_on_of_nodup_map h.increasing.nodup hk hl heq

variable {ids : RowIds} {d : ℕ → Db}

theorem grows_missionsOf (h : Grown ids d) (projectId : String) :
    Grows (fun m : MissionRow => ids.mission m.id) fun k => (d k).missionsOf projectId where
  sorted k := (h.mission_ids k).sorted _
  positive k m hm :=
    ((h.mission_ids k).bounds _ (List.mem_map_of_mem (List.mem_of_mem_filter hm))).1
  later k := by
    have hmap : ∀ db : Db, (db.missionsOf projectId).map (fun m => ids.mission m.id) =
        ((db.missions.map fun m => (m.id, m.projectId)).filter
          fun p => p.2 = projectId).map fun p => ids.mission p.1 := by
      intro db
      rw [List.filter_map, List.map_map]
      rfl
    rw [hmap, hmap]
    exact ((h.missions k).filter _).map _

theorem Grown.project_later (h : Grown ids d) (projectId : String) {k : ℕ} {id : String}
    (hid : id ∈ (d k).missions.map MissionRow.id) :
    ((row MissionRow.id id (d (k + 1)).missions).any fun m => m.projectId = projectId) =
      (row MissionRow.id id (d k).missions).any fun m => m.projectId = projectId := by
  have hrow : ∀ ms : List MissionRow,
      ((row MissionRow.id id ms).any fun m => m.projectId = projectId) =
        ((ms.map fun m => (m.id, m.projectId)).find? fun p => p.1 = id).any
          fun p => p.2 = projectId := by
    intro ms
    rw [List.find?_map, Option.any_map]
    rfl
  obtain ⟨t, ht⟩ := h.missions k
  obtain ⟨m, hm, rfl⟩ := List.mem_map.1 hid
  have hsome : (((d k).missions.map fun m => (m.id, m.projectId)).find?
      fun p => p.1 = m.id).isSome := by
    rw [List.find?_isSome]
    exact ⟨_, List.mem_map_of_mem hm, by simp⟩
  rw [hrow, hrow, ← ht, List.find?_append, Option.or_of_isSome hsome]

theorem grows_recordsOf (h : Grown ids d) (projectId : String) :
    Grows (fun r : RecordRow => ids.record r.id) fun k => (d k).recordsOf projectId where
  sorted k := (h.record_ids k).sorted _
  positive k m hm :=
    ((h.record_ids k).bounds _ (List.mem_map_of_mem (List.mem_of_mem_filter hm))).1
  later k := by
    have hfilter : (d k).recordsOf projectId = (d k).missionRecords.filter fun r =>
        (row MissionRow.id r.missionId (d (k + 1)).missions).any
          fun m => m.projectId = projectId :=
      List.filter_congr fun r hr => (h.project_later projectId (h.joined k r hr)).symm
    rw [hfilter]
    exact ((h.records k).filter _).map _

/-! ## The calls -/

theorem rowsAfter_eq {rowid : α → ℕ} (hs : rows.Pairwise fun a b => rowid a < rowid b)
    (after limit : ℕ) : rowsAfter rowid after limit rows = (page rowid rows after limit).1 := by
  unfold rowsAfter
  rw [List.Pairwise.insertionSort_eq ((hs.filter _).imp fun h => h.le)]
  rfl

variable {b : Broker} {actorId projectId : String} {limit : ℤ} {n : ℕ} {x : Choice} {db : Db}
  {after : ℕ}

theorem validateCursor_ok (h : after < 2 ^ 63) (message : String) :
    validateCursor after message = .ok after := by
  unfold validateCursor
  rw [if_pos (by omega), Int.toNat_natCast]

theorem exec_listMemoryMissions (hlimit : validateLimit limit = .ok n)
    (hmay : authorizedProjectFilter b actorId projectId = .ok [projectId]) (hafter : after < 2 ^ 63)
    (hs : (db.missionsOf projectId).Pairwise fun l m => ids.mission l.id < ids.mission m.id) :
    (Prog.exec (perform b) x (listMemoryMissions b ids actorId projectId after limit) db).1 =
      .ok (.obj [("missions", .arr ((page (fun m => ids.mission m.id) (db.missionsOf projectId)
          after n).1.map missionPublic)),
        ("next_cursor", .int (page (fun m => ids.mission m.id) (db.missionsOf projectId)
          after n).2)]) := by
  rw [listMemoryMissions, hlimit, hmay, validateCursor_ok hafter, ← rowsAfter_eq hs]
  have hcursor : (page (fun m => ids.mission m.id) (db.missionsOf projectId) after n).2 =
      nextCursor (fun m => ids.mission m.id) after
        (rowsAfter (fun m => ids.mission m.id) after n (db.missionsOf projectId)) := by
    rw [rowsAfter_eq hs]
    rfl
  rw [hcursor]
  rfl

/-- A call for records answers with a page, if the records can be read. -/
theorem exec_listMemoryHistory (hlimit : validateLimit limit = .ok n)
    (hmay : authorizedProjectFilter b actorId projectId = .ok [projectId]) (hafter : after < 2 ^ 63)
    (hs : (db.recordsOf projectId).Pairwise fun r s => ids.record r.id < ids.record s.id)
    {items : List Value} (hitems : (page (fun r => ids.record r.id) (db.recordsOf projectId)
      after n).1.mapM (historyItem projectId) = .ok items) :
    (Prog.exec (perform b) x (listMemoryHistory b ids actorId projectId after limit) db).1 =
      .ok (.obj [("records", .arr items),
        ("next_cursor", .int (page (fun r => ids.record r.id) (db.recordsOf projectId)
          after n).2)]) := by
  have hcursor : (page (fun r => ids.record r.id) (db.recordsOf projectId) after n).2 =
      nextCursor (fun r => ids.record r.id) after
        (rowsAfter (fun r => ids.record r.id) after n (db.recordsOf projectId)) := by
    rw [rowsAfter_eq hs]
    rfl
  rw [← rowsAfter_eq hs] at hitems
  rw [listMemoryHistory, hlimit, hmay, validateCursor_ok hafter, hcursor]
  change (Prog.exec (perform b) x (Prog.ofExcept ((rowsAfter (fun r => ids.record r.id) after n
    (db.recordsOf projectId)).mapM (historyItem projectId)) >>= fun items =>
      (pure (.obj [("records", .arr items), ("next_cursor",
        .int (nextCursor (fun r => ids.record r.id) after (rowsAfter (fun r => ids.record r.id)
          after n (db.recordsOf projectId))))]) : Method Value)) db).1 = _
  rw [hitems]
  rfl

/-! ## Records that can be read -/

theorem wfElems_str (l : List String) : WfElems (l.map Json.str : List Value) := by
  induction l with
  | nil => trivial
  | cons s l ih => exact ⟨trivial, ih⟩

theorem scrubElems_str (l : List String) :
    scrubElems (l.map Json.str : List Value) = (l.map redactText).map Json.str := by
  induction l with
  | nil => rfl
  | cons s l ih => rw [List.map_cons, scrubElems, ih]; rfl

variable {r : RecordRow}

theorem Recorded.loads [LawfulFloatText Flt] (h : Recorded r) :
    ∃ v, loadsJson r.evidenceJson = .ok v := by
  obtain ⟨q, args, id, t, hvalid, rfl⟩ := h
  unfold AddRecord.validate at hvalid
  obtain ⟨_, -, hvalid⟩ := bind_eq_ok.1 hvalid
  obtain ⟨_, -, hvalid⟩ := bind_eq_ok.1 hvalid
  obtain ⟨_, -, hvalid⟩ := bind_eq_ok.1 hvalid
  obtain ⟨evidenceJson, hjson, hvalid⟩ := bind_eq_ok.1 hvalid
  obtain ⟨_, -, hvalid⟩ := bind_eq_ok.1 hvalid
  obtain rfl := Except.ok.inj hvalid
  obtain ⟨items, -, hjson⟩ := bind_eq_ok.1 hjson
  unfold listJson jsonText at hjson
  dsimp only at hjson
  split_ifs at hjson
  obtain rfl := Except.ok.inj hjson
  have hwf : Wf (scrubPayload (.arr (items.map .str) : Value)) := by
    rw [scrubPayload, scrubElems_str]
    exact wfElems_str _
  refine ⟨sortKeys (scrubPayload (.arr (items.map .str))), ?_⟩
  change loadsJson (canonicalJson (scrubPayload (.arr (items.map .str)))) = _
  rw [loadsJson, canonicalJson, loads_canonical hwf]

theorem Recorded.item [LawfulFloatText Flt] (h : Recorded r) (projectId : String) :
    ∃ v, historyItem projectId r = .ok v := by
  obtain ⟨v, hv⟩ := h.loads
  rw [historyItem, recordPublic, hv]
  exact ⟨_, rfl⟩

theorem mapM_ok {f : α → Except PyError β} (h : ∀ a ∈ l, ∃ v, f a = .ok v) :
    ∃ vs, l.mapM f = .ok vs ∧ List.Forall₂ (fun a v => f a = .ok v) l vs := by
  induction l with
  | nil => exact ⟨[], rfl, .nil⟩
  | cons a l ih =>
    obtain ⟨v, hv⟩ := h a List.mem_cons_self
    obtain ⟨vs, hvs, hall⟩ := ih fun a ha => h a (List.mem_cons_of_mem _ ha)
    exact ⟨v :: vs, by rw [List.mapM_cons, hv, hvs]; rfl, .cons hv hall⟩

/-! ## Page after page -/

/-- Calls that follow `next_cursor` from zero return pages of the rows, none of them twice. Up to a
page that is not full they return the rows that were there at the first call, in order, and there
is such a page if the rows are not added forever. -/
def PagedOnce {α : Type} (id : α → String) (view : α → Value → Prop) (rows : ℕ → List α)
    (limit : ℕ) (name : String) (call : ℕ → ℕ → Except PyError Value) : Prop :=
  ∃ (page : ℕ → List α) (cursor : ℕ → ℕ), cursor 0 = 0 ∧
    (∀ k, ∃ items, List.Forall₂ view (page k) items ∧ call k (cursor k) =
      .ok (.obj [(name, .arr items), ("next_cursor", .int (cursor (k + 1)))])) ∧
    (∀ k, ∀ a ∈ page k, a ∈ rows k) ∧
    (∀ k, (((List.range k).flatMap page).map id).Nodup) ∧
    (∀ k, (page k).length < limit → (((List.range (k + 1)).flatMap page).map id).filter
      (fun i => i ∈ (rows 0).map id) = (rows 0).map id) ∧
    ∀ total, (∀ k, (rows k).length ≤ total) → ∃ k ≤ total, (page k).length < limit

theorem eq_of_map_eq {f : α → β} {m : List α} (hf : ∀ a ∈ l, ∀ b ∈ m, f a = f b → a = b)
    (h : l.map f = m.map f) : l = m := by
  induction l generalizing m with
  | nil => exact (List.map_eq_nil_iff.1 h.symm).symm
  | cons a l ih =>
    obtain ⟨b, m, rfl⟩ := List.exists_cons_of_ne_nil
      (show m ≠ [] from fun hm => by rw [hm] at h; cases h)
    obtain ⟨hab, hlm⟩ := List.cons.inj h
    rw [hf a List.mem_cons_self b List.mem_cons_self hab, ih (fun a ha b hb =>
      hf a (List.mem_cons_of_mem _ ha) b (List.mem_cons_of_mem _ hb)) hlm]

/-- What holds of the numbers of the rows that are read holds of their keys. -/
theorem filter_of_filter_map {l m : List String}
    (hinj : ∀ k ∈ l, ∀ i ∈ m, rowid k = rowid i → k = i)
    (h : (l.map rowid).filter (fun n => n ∈ m.map rowid) = m.map rowid) :
    l.filter (fun k => k ∈ m) = m := by
  have hmem : ∀ k ∈ l, (rowid k ∈ m.map rowid ↔ k ∈ m) := by
    intro k hk
    refine ⟨fun hmap => ?_, List.mem_map_of_mem⟩
    obtain ⟨i, hi, heq⟩ := List.mem_map.1 hmap
    exact hinj k hk i hi heq.symm ▸ hi
  rw [List.filter_map] at h
  refine eq_of_map_eq (f := rowid) (fun k hk i hi =>
    hinj k (List.mem_of_mem_filter hk) i hi) ?_
  rw [← h]
  exact congrArg _ (List.filter_congr fun k hk => decide_eq_decide.2 (hmem k hk).symm)

theorem pagedOnce_of_grows {view : α → Value → Prop} {rows : ℕ → List α} {all : ℕ → List String}
    {n : ℕ} {name : String} {call : ℕ → ℕ → Except PyError Value}
    (h : Grows (fun a => rowid (key a)) rows) (hn : 0 < n) (hall : ∀ k, Numbered rowid (all k))
    (hsub : ∀ k, ∀ a ∈ rows k, key a ∈ all k) (hlater : ∀ k, all k ⊆ all (k + 1))
    (hcall : ∀ k after, after < 2 ^ 63 → ∃ items,
      List.Forall₂ view (page (fun a => rowid (key a)) (rows k) after n).1 items ∧
      call k after = .ok (.obj [(name, .arr items),
        ("next_cursor", .int (page (fun a => rowid (key a)) (rows k) after n).2)])) :
    PagedOnce key view rows n name call := by
  have hread : ∀ k, (List.range k).flatMap (fun k => (page (fun a => rowid (key a)) (rows k)
      (following (fun a => rowid (key a)) rows n k).2 n).1) =
        (following (fun a => rowid (key a)) rows n k).1 := by
    intro k
    induction k with
    | zero => rfl
    | succ k ih =>
      rw [List.range_succ, List.flatMap_append, ih, List.flatMap_singleton]
      rfl
  have hcursor : ∀ k, (following (fun a => rowid (key a)) rows n k).2 < 2 ^ 63 := by
    intro k
    obtain ⟨-, -, hzero | hmem, -⟩ := following_spec h hn k
    · rw [hzero]
      decide
    · obtain ⟨a, ha, heq⟩ := List.mem_map.1 hmem
      rw [← heq]
      exact ((hall k).bounds _ (hsub k a ha)).2
  have hstays : ∀ {i j : ℕ}, i ≤ j → all i ⊆ all j := by
    intro i j hij
    induction hij with
    | refl => exact List.Subset.refl _
    | step _ ih => exact fun a ha => hlater _ (ih ha)
  have hkeys : ∀ k, ∀ a ∈ (following (fun a => rowid (key a)) rows n k).1, key a ∈ all k := by
    intro k
    induction k with
    | zero => exact fun a ha => absurd ha List.not_mem_nil
    | succ k ih =>
      intro a ha
      rcases List.mem_append.1 ha with ha | ha
      · exact hlater k (ih a ha)
      · exact hlater k (hsub k a (mem_rest.1 (List.mem_of_mem_take ha)).1)
  refine ⟨_, fun k => (following (fun a => rowid (key a)) rows n k).2, rfl,
    fun k => hcall k _ (hcursor k), fun k a ha => (mem_rest.1 (List.mem_of_mem_take ha)).1,
    fun k => ?_, fun k hshort => ?_, fun total htotal => exists_short h hn htotal⟩
  · rw [hread]
    have hsorted := List.pairwise_map.2 (following_spec h hn k).1
    rw [← Function.comp_def, ← List.map_map] at hsorted
    exact hsorted.nodup.of_map
  · have hfilter := filter_following h hn hshort
    rw [hread]
    rw [← Function.comp_def, ← List.map_map, ← List.map_map] at hfilter
    refine filter_of_filter_map (fun i hi j hj heq => ?_) hfilter
    obtain ⟨a, ha, rfl⟩ := List.mem_map.1 hi
    obtain ⟨c, hc, rfl⟩ := List.mem_map.1 hj
    exact (hall (k + 1)).inj (hkeys (k + 1) a ha)
      (hstays (Nat.zero_le (k + 1)) (hsub 0 c hc)) heq

/-- Paging through the missions and through the records of a project loses and repeats nothing,
while missions and records are added. -/
theorem memory_pages_once [LawfulFloatText Flt] (b : Broker) {ids : RowIds} {d : ℕ → Db}
    (hd : Grown ids d) (x : ℕ → Choice) {actorId projectId : String} {limit : ℤ} {n : ℕ}
    (hmay : authorizedProjectFilter b actorId projectId = .ok [projectId])
    (hlimit : validateLimit limit = .ok n) :
    PagedOnce MissionRow.id (fun m v => v = missionPublic m)
        (fun k => (d k).missionsOf projectId) n "missions"
        (fun k after => (Prog.exec (perform b) (x k)
          (listMemoryMissions b ids actorId projectId after limit) (d k)).1) ∧
      PagedOnce RecordRow.id (fun r v => historyItem projectId r = .ok v)
        (fun k => (d k).recordsOf projectId) n "records"
        (fun k after => (Prog.exec (perform b) (x k)
          (listMemoryHistory b ids actorId projectId after limit) (d k)).1) := by
  have hn : 0 < n := by
    unfold validateLimit at hlimit
    split_ifs at hlimit with h
    obtain rfl := Except.ok.inj hlimit
    omega
  have hmissions := grows_missionsOf hd projectId
  have hrecords := grows_recordsOf hd projectId
  constructor
  · refine pagedOnce_of_grows hmissions hn hd.mission_ids
      (fun k m hm => List.mem_map_of_mem (List.mem_of_mem_filter hm)) (fun k id hid => ?_)
      fun k after hafter => ⟨_, ?_, exec_listMemoryMissions hlimit hmay hafter
        (hmissions.sorted k)⟩
    · obtain ⟨m, hm, rfl⟩ := List.mem_map.1 hid
      obtain ⟨m', hm', heq⟩ := List.mem_map.1
        ((hd.missions k).subset (List.mem_map_of_mem hm))
      exact List.mem_map.2 ⟨m', hm', congrArg Prod.fst heq⟩
    · exact List.forall₂_map_right_iff.2 (List.forall₂_same.2 fun _ _ => rfl)
  · refine pagedOnce_of_grows hrecords hn hd.record_ids
      (fun k r hr => List.mem_map_of_mem (List.mem_of_mem_filter hr))
      (fun k => ((hd.records k).map _).subset) fun k after hafter => ?_
    obtain ⟨items, hitems, hviews⟩ := mapM_ok (f := historyItem projectId)
      (l := (page (fun r => ids.record r.id) ((d k).recordsOf projectId) after n).1)
      fun r hr => (hd.recorded k r (List.mem_of_mem_filter
        (mem_rest.1 (List.mem_of_mem_take hr)).1)).item projectId
    exact ⟨items, hviews, exec_listMemoryHistory hlimit hmay hafter (hrecords.sorted k) hitems⟩

end OpsControlPlane

namespace OpsControlPlane.Sample

open Calls

/-- Two missions, the second one added after the first page, and a record of the first one. -/
def growing (k : ℕ) : Db :=
  { Db.fresh with
    missions := ⟨"m1", uuid 1, "web", "a", .opened, "alice", "", ""⟩ ::
      if k = 0 then [] else [⟨"m2", uuid 2, "web", "b", .opened, "alice", "", ""⟩]
    missionRecords := [⟨"r1", uuid 3, "m1", none, "alice", "analysis", "c", none, "[]", none,
      Calendar.isoformat (instant 0)⟩] }

def rowIds : RowIds :=
  ⟨fun id => if id = "m1" then 1 else 2, fun _ => 1⟩

theorem numbered_growing (k : ℕ) :
    Numbered rowIds.mission ((growing k).missions.map MissionRow.id) := by
  unfold growing
  dsimp only
  split_ifs
  · exact ⟨by decide, by decide⟩
  · exact ⟨by decide, by decide⟩

theorem grown_growing : Grown rowIds growing where
  mission_ids := numbered_growing
  record_ids k := by
    change Numbered rowIds.record ["r1"]
    exact ⟨by decide, by decide⟩
  missions k := by
    unfold growing
    dsimp only
    rw [if_neg k.succ_ne_zero]
    split_ifs <;> decide
  records _ := List.prefix_rfl
  joined _ := List.forall_mem_singleton.2 (by simp [growing])
  recorded _ := List.forall_mem_singleton.2
    ⟨⟨"alice", uuid 3, "m1", "analysis", "c", [], none, none, none⟩, _, "r1", instant 0, rfl, rfl⟩

theorem memory_pages_once_sample :
    PagedOnce MissionRow.id (fun m v => v = missionPublic m)
        (fun k => (growing k).missionsOf "web") 1 "missions"
        (fun k after => (Prog.exec (perform broker) (choice k 0)
          (listMemoryMissions broker rowIds "alice" "web" after 1) (growing k)).1) ∧
      PagedOnce RecordRow.id (fun r v => historyItem "web" r = .ok v)
        (fun k => (growing k).recordsOf "web") 1 "records"
        (fun k after => (Prog.exec (perform broker) (choice k 0)
          (listMemoryHistory broker rowIds "alice" "web" after 1) (growing k)).1) :=
  memory_pages_once broker grown_growing (fun k => choice k 0) rfl rfl

end OpsControlPlane.Sample
