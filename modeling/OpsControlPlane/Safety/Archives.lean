import OpsControlPlane.Memory.Archive
import OpsControlPlane.Safety.Chains

/-!
# Retention of the memory backups

A manifest that `createBackup` writes is one that `verifyBackup` accepts, whatever the collection
answered (`verifyBackup_ok`), so a directory is a valid backup as soon as it has its published
name. `Inv` is what every history of interrupted backups keeps.
-/

namespace OpsArchive

open Calls Prog Text JsonText
open OpsVault (strftime matchesShape isDigit)

class LawfulHost [Host] : Prop where
  [float : LawfulFloatText Flt]
  /-- A digest is 64 hexadecimal digits. -/
  isSha256_sha256 : ∀ bytes, isSha256 (Host.sha256 bytes) = true
  /-- An empty file is no catalogue. -/
  size_pos : ∀ bytes details, Host.sqliteIntegrity bytes = some details → 1 ≤ bytes.size
  /-- `fromisoformat` reads what `isoformat` writes. -/
  fromisoformat : ∀ t, Host.fromisoformat (ofChars (isoTime t ++ toChars "+00:00")) = true

section archives

variable [Host]

instance [LawfulHost] : LawfulFloatText Flt :=
  LawfulHost.float

/-! ## The destination -/

section folders

omit [Host]

theorem lookup_entry {α : Type} (k : String) (e : String × α) (l : List (String × α)) :
    (e :: l).lookup k = if k = e.1 then some e.2 else l.lookup k := by
  rw [List.lookup_cons]
  by_cases h : k = e.1
  · simp [h]
  · rw [if_neg h, beq_false_of_ne h]

variable {v : Archive}

theorem folder_eq_none {name : String} : v.folder name = none ↔ name ∉ v.names := by
  unfold Archive.folder Archive.names keys
  rw [List.lookup_eq_none_iff]
  simp only [List.mem_map, not_exists, not_and, bne_iff_ne, ne_eq]
  exact ⟨fun h e he hname => h e he hname.symm, fun h e he hname => h e he hname.symm⟩

theorem mem_names {name : String} : name ∈ v.names ↔ (v.folder name).isSome := by
  rw [← not_iff_not, ← folder_eq_none, Bool.not_eq_true, Option.isSome_eq_false_iff,
    Option.isNone_iff_eq_none]

theorem lookup_map {l : List (String × Folder)} (name n : String) (f : Folder → Folder) :
    (l.map fun e => if e.1 = name then (e.1, f e.2) else e).lookup n =
      if n = name then (l.lookup n).map f else l.lookup n := by
  induction l with
  | nil => simp
  | cons e l ih =>
    obtain ⟨m, files⟩ := e
    by_cases hm : n = m
    · subst hm
      by_cases hn : n = name <;> simp [hn]
    · by_cases hn : m = name <;> simp [hn, lookup_entry, ih, hm] <;> grind

theorem folder_update (v : Archive) (name n : String) (f : Folder → Folder) :
    (v.update name f).folder n = if n = name then (v.folder n).map f else v.folder n :=
  lookup_map name n f

theorem names_update (v : Archive) (name : String) (f : Folder → Folder) :
    (v.update name f).names = v.names := by
  unfold Archive.names Archive.update keys
  rw [List.map_map]
  refine List.map_congr_left fun e _ => ?_
  simp only [Function.comp_apply]
  split_ifs <;> rfl

theorem names_rename (v : Archive) (name final : String) :
    (v.rename name final).names = v.names.map fun n => if n = name then final else n := by
  unfold Archive.names Archive.rename keys
  rw [List.map_map, List.map_map]
  refine List.map_congr_left fun e _ => ?_
  simp only [Function.comp_apply]
  split_ifs <;> rfl

theorem nodup_rename (h : v.names.Nodup) {name final : String} (hfinal : final ∉ v.names) :
    (v.rename name final).names.Nodup := by
  rw [names_rename]
  refine h.map_on fun n hn m hm heq => ?_
  split_ifs at heq with hn' hm' hm'
  · exact hn'.trans hm'.symm
  · exact absurd (heq ▸ hm) hfinal
  · exact absurd (heq ▸ hn) hfinal
  · exact heq

theorem folder_rename (h : v.names.Nodup) (name : String) {final : String}
    (hfinal : final ∉ v.names) (n : String) : (v.rename name final).folder n =
      if n = final then v.folder name else if n = name then none else v.folder n := by
  obtain ⟨entries⟩ := v
  unfold Archive.folder Archive.rename
  unfold Archive.names at h hfinal
  dsimp only at h hfinal ⊢
  induction entries with
  | nil => simp
  | cons e l ih =>
    obtain ⟨m, files⟩ := e
    obtain ⟨hnot, hnodup⟩ := List.nodup_cons.1 h
    have hm : final ≠ m := fun heq => hfinal (heq ▸ List.mem_cons_self)
    have hl : final ∉ keys l := fun hmem => hfinal (List.mem_cons_of_mem _ hmem)
    have hrest := ih hnodup hl
    have hnone : m ∉ keys l → l.lookup m = none := fun hmem =>
      (folder_eq_none (v := ⟨l⟩)).2 hmem
    rw [List.map_cons]
    by_cases hname : m = name
    · subst hname
      rw [if_pos rfl, lookup_entry, lookup_entry, lookup_entry, hrest, hnone hnot]
      grind
    · rw [if_neg hname, lookup_entry, lookup_entry, lookup_entry, hrest]
      grind

theorem folder_remove (v : Archive) (name n : String) :
    (v.remove name).folder n = if n = name then none else v.folder n := by
  unfold Archive.folder Archive.remove
  dsimp only
  induction v.entries with
  | nil => simp
  | cons e l ih =>
    obtain ⟨m, files⟩ := e
    by_cases hm : m = name
    · rw [List.filter_cons_of_neg (by simpa using hm), ih, lookup_entry]
      grind
    · rw [List.filter_cons_of_pos (by simpa using hm), lookup_entry, lookup_entry, ih]
      grind

theorem names_remove (v : Archive) (name : String) :
    (v.remove name).names = v.names.filter (· ≠ name) := by
  unfold Archive.names Archive.remove keys
  rw [List.filter_map]
  rfl

theorem folder_mkdir {name : String} (h : name ∉ v.names) (n : String) :
    Archive.folder ⟨v.entries ++ [(name, [])]⟩ n = if n = name then some [] else v.folder n := by
  have hnone := folder_eq_none.2 h
  unfold Archive.folder at hnone ⊢
  dsimp only
  rw [List.lookup_append]
  by_cases hn : n = name
  · rw [hn, hnone]
    simp
  · rw [if_neg hn, lookup_entry]
    simp [hn]

end folders

/-! ## What is written is accepted -/

section results

omit [Host]

@[simp] theorem require_true (message : String) : require true message = .ok () :=
  rfl

@[simp] theorem demand_some {α : Type} (a : α) (message : String) :
    demand (some a) message = .ok a :=
  rfl

@[simp] theorem ok_bind {α β : Type} (a : α) (f : α → Except ArchiveError β) :
    (Except.ok a >>= f) = f a :=
  rfl

end results

structure CollectionInfo.Valid (info : CollectionInfo) : Prop where
  points : countOf info.pointsCount = some info.pointsCount
  indexed : ∀ v, info.indexedVectorsCount = some v → countOf v = some v
  status : ∀ s, info.status = some s → s.length ≤ 64

structure SnapshotDetails.Valid (details : SnapshotDetails) : Prop where
  checksum : isSha256 details.checksum = true
  creationTime : details.creationTime.length ≤ 128

theorem countOf_countOf {v w : Doc} (h : countOf v = some w) : countOf w = some w := by
  have heq : v = w := by
    unfold countOf at h
    split at h
    · split_ifs at h
      exact Option.some.inj h
    · cases h
  exact heq ▸ h

theorem bind_eq_ok' {α β : Type} {x : Except ArchiveError α} {f : α → Except ArchiveError β} {b : β}
    (h : (x >>= f) = .ok b) : ∃ a, x = .ok a ∧ f a = .ok b := by
  cases x with
  | error e => cases h
  | ok a => exact ⟨a, rfl, h⟩

theorem demand_eq_ok {α : Type} {o : Option α} {message : String} {a : α}
    (h : demand o message = .ok a) : o = some a := by
  cases o with
  | none => cases h
  | some b => rw [Except.ok.inj h]

variable {answer key : String}

theorem valid_collectionInfo {info : CollectionInfo} (h : collectionInfo answer = .ok info) :
    info.Valid := by
  obtain ⟨document, -, h⟩ := bind_eq_ok' h
  obtain ⟨result, -, h⟩ := bind_eq_ok' h
  obtain ⟨points, hpoints, h⟩ := bind_eq_ok' h
  obtain rfl := Except.ok.inj h
  refine ⟨?_, fun v hv => ?_, fun s hs => ?_⟩
  · obtain ⟨w, -, hw⟩ := Option.bind_eq_some_iff.1 (demand_eq_ok hpoints)
    exact countOf_countOf hw
  · obtain ⟨w, -, hw⟩ := Option.bind_eq_some_iff.1 hv
    exact countOf_countOf hw
  · obtain ⟨-, hlen⟩ := Option.filter_eq_some_iff.1 hs
    exact of_decide_eq_true hlen

theorem valid_createSnapshot {details : SnapshotDetails} (h : createSnapshot answer = .ok details) :
    details.Valid := by
  obtain ⟨document, -, h⟩ := bind_eq_ok' h
  obtain ⟨result, -, h⟩ := bind_eq_ok' h
  obtain ⟨name, -, h⟩ := bind_eq_ok' h
  obtain ⟨size, -, h⟩ := bind_eq_ok' h
  obtain ⟨checksum, hchecksum, h⟩ := bind_eq_ok' h
  obtain ⟨creationTime, htime, h⟩ := bind_eq_ok' h
  obtain rfl := Except.ok.inj h
  obtain ⟨-, hsha⟩ := Option.filter_eq_some_iff.1 (demand_eq_ok hchecksum)
  obtain ⟨-, hlen⟩ := Option.filter_eq_some_iff.1 (demand_eq_ok htime)
  exact ⟨hsha, of_decide_eq_true (Bool.and_eq_true_iff.1 hlen).2⟩

/-! ### Its length -/

variable {kvs : List (String × Doc)}

theorem widthPairs_le {w : ℕ} (hk : ∀ k ∈ keys kvs, k.length ≤ 40)
    (hv : ∀ kv ∈ kvs, width kv.2 ≤ w) : widthPairs kvs ≤ kvs.length * (244 + w) := by
  induction kvs with
  | nil => exact Nat.zero_le _
  | cons kv kvs ih =>
    have hkey : kv.1.length ≤ 40 := hk kv.1 List.mem_cons_self
    have hvalue := hv kv List.mem_cons_self
    have hrest := ih (fun k h => hk k (List.mem_cons_of_mem _ h))
      fun kv' h => hv kv' (List.mem_cons_of_mem _ h)
    rw [widthPairs, List.length_cons, Nat.add_mul kvs.length 1, Nat.one_mul]
    generalize kvs.length * (244 + w) = bound at hrest ⊢
    omega

theorem width_int {n : ℤ} (h : short (.int n : Doc) = true) : width (.int n : Doc) ≤ 4301 :=
  length_dumpsInt h

variable {s name n : String}

theorem width_str {n : ℕ} (h : s.length ≤ n) : width (.str s : Doc) ≤ 6 * n + 2 := by
  rw [width]
  omega

theorem width_count {v : Doc} (hv : countOf v = some v) (h : short v = true) : width v ≤ 4301 := by
  match v, hv with
  | .int n, _ => exact length_dumpsInt h
  | .bool _, _ => exact Nat.le_of_ble_eq_true rfl

theorem length_of_isSha256 (h : isSha256 s = true) : s.length = 64 := by
  unfold isSha256 at h
  have hlen := of_decide_eq_true (Bool.and_eq_true_iff.1 h).1
  rwa [toChars_eq, String.length_toList] at hlen

theorem length_of_isCollection (h : isCollection s = true) : s.length ≤ 128 := by
  unfold isCollection at h
  have hlen := of_decide_eq_true (Bool.and_eq_true_iff.1 (Bool.and_eq_true_iff.1 h).1).2
  rwa [toChars_eq, String.length_toList] at hlen

theorem length_of_isBackupName (h : isBackupName name = true) : name.length = 34 := by
  have hlen := OpsVault.length_of_matchesShape h
  rw [toChars_eq, String.length_toList] at hlen
  rw [hlen]
  unfold backupShape
  rw [toChars_eq]
  rfl

theorem length_createdAt (t : Calendar.DateTime) :
    (ofChars (isoTime t ++ ['Z'])).length ≤ 27 := by
  rw [ofChars_eq, String.length_ofList, List.length_append]
  have hle : (isoTime t).length ≤ 26 := by
    unfold isoTime
    dsimp only
    split_ifs
    · exact (List.length_take_le _ _).trans (by decide)
    · exact List.length_take_le _ _
  exact Nat.add_le_add_right hle 1

/-- The parts of a manifest: what was found of the files, and what the collection said. -/
structure Filled (c : Settings) (t : Calendar.DateTime) where
  (sqlite snapshot : ByteArray)
  details : SqliteDetails
  info : CollectionInfo
  answer : SnapshotDetails
  inspected : Host.sqliteIntegrity sqlite = some details
  version : details.schemaVersion = schemaVersion
  info_valid : info.Valid
  answer_valid : answer.Valid
  checksum : Host.sha256 snapshot = answer.checksum
  size_pos : 1 ≤ snapshot.size

variable {c : Settings} {t : Calendar.DateTime}

def Filled.sqlitePart (m : Filled c t) : List (String × Doc) :=
  sqliteManifest m.sqlite m.details

def Filled.qdrantPart (m : Filled c t) : List (String × Doc) :=
  qdrantManifest m.snapshot.size (Host.sha256 m.snapshot) m.answer c.collection m.info

def Filled.document (m : Filled c t) : List (String × Doc) :=
  manifest (backupId t) (ofChars (isoTime t ++ ['Z'])) m.sqlitePart m.qdrantPart

def Filled.files (m : Filled c t) : Folder :=
  [("memory.sqlite3", m.sqlite), ("qdrant.snapshot", m.snapshot),
    ("manifest.json", (line (.obj m.document)).toByteArray)]

theorem wf_optional {o : Option Doc} (h : ∀ v, o = some v → Wf v) : WfPairs (optional key o) := by
  cases o with
  | none => exact trivial
  | some v => exact ⟨h v rfl, trivial⟩

theorem wf_of_countOf {v w : Doc} (h : countOf v = some w) : Wf v := by
  match v, h with
  | .int n, _ => trivial
  | .bool _, _ => trivial

omit [Host] in
theorem keys_append {α : Type} (l l' : List (String × α)) : keys (l ++ l') = keys l ++ keys l' :=
  List.map_append

theorem wfPairs_append {l l' : List (String × Doc)} (h : WfPairs l) (h' : WfPairs l') :
    WfPairs (l ++ l') := by
  rw [wfPairs_iff] at *
  intro kv hkv
  rcases List.mem_append.1 hkv with hkv | hkv
  · exact h kv hkv
  · exact h' kv hkv

theorem nodup_keys_qdrantPart (m : Filled c t) : (keys m.qdrantPart).Nodup := by
  unfold Filled.qdrantPart qdrantManifest
  rw [keys_append, keys_append]
  cases m.info.indexedVectorsCount <;> cases m.info.status <;>
    simp only [optional, keys, Option.map_some, Option.map_none, List.map_cons, List.map_nil] <;>
    decide

theorem wf_document (m : Filled c t) : Wf (.obj m.document : Doc) := by
  have hqdrant : WfPairs m.qdrantPart := by
    refine wfPairs_append (wfPairs_append ?_ ?_) ?_
    · exact ⟨trivial, trivial, trivial, trivial, trivial, trivial,
        wf_of_countOf m.info_valid.points, trivial⟩
    · exact wf_optional fun v hv => wf_of_countOf (m.info_valid.indexed v hv)
    · refine wf_optional fun v hv => ?_
      obtain ⟨s, -, rfl⟩ := Option.map_eq_some_iff.1 hv
      trivial
  have hsqlite : (keys m.sqlitePart).Nodup := by
    unfold Filled.sqlitePart sqliteManifest keys
    simp only [List.map_cons, List.map_nil]
    decide
  have hconsistency : (keys (consistency : List (String × Doc))).Nodup := by
    unfold consistency keys
    simp only [List.map_cons, List.map_nil]
    decide
  have hkeys : (keys m.document).Nodup := by
    unfold Filled.document manifest keys
    simp only [List.map_cons, List.map_nil]
    decide
  exact ⟨hkeys, trivial, trivial, trivial, ⟨hconsistency, trivial, trivial, trivial, trivial⟩,
    ⟨hsqlite, trivial, trivial, trivial, trivial, trivial, trivial, trivial, trivial⟩,
    ⟨nodup_keys_qdrantPart m, hqdrant⟩, trivial⟩

theorem keys_sqlitePart (m : Filled c t) : keys m.sqlitePart = expectedSqlite :=
  rfl

theorem keys_document (m : Filled c t) : keys m.document =
    ["format", "backup_id", "created_at", "consistency", "sqlite", "qdrant"] :=
  rfl

theorem keys_qdrantPart (m : Filled c t) : keys m.qdrantPart = expectedQdrant m.qdrantPart := by
  have hkeys : keys m.qdrantPart = ["file", "bytes", "sha256", "server_checksum",
      "snapshot_creation_time", "collection", "points_count"] ++
      keys (optional "indexed_vectors_count" m.info.indexedVectorsCount) ++
      keys (optional "status" (m.info.status.map .str)) := by
    unfold Filled.qdrantPart qdrantManifest
    rw [keys_append, keys_append]
    rfl
  unfold expectedQdrant
  rw [hkeys]
  cases m.info.indexedVectorsCount <;> cases m.info.status <;>
    simp [optional, keys]

theorem length_key_of_expectedQdrant {k : String} (h : k ∈ expectedQdrant kvs) : k.length ≤ 40 := by
  have hall : ∀ k ∈ ["file", "bytes", "sha256", "server_checksum", "snapshot_creation_time",
      "collection", "points_count"] ++ ["indexed_vectors_count"] ++ ["status"],
      k.length ≤ 40 := by decide
  refine hall k ?_
  unfold expectedQdrant at h
  simp only [List.mem_append] at h ⊢
  rcases h with (h | h) | h
  · exact .inl (.inl h)
  · split_ifs at h
    · exact .inl (.inr h)
    · cases h
  · split_ifs at h
    · exact .inr h
    · cases h

/-! ### The width of its parts -/

theorem width_short (h : s.length ≤ 128) : width (.str s : Doc) ≤ 4301 :=
  (width_str h).trans (by decide)

theorem width_sha256 (h : isSha256 s = true) : width (.str s : Doc) ≤ 4301 :=
  width_short ((length_of_isSha256 h).le.trans (by decide))

section widths

variable [LawfulHost]

theorem width_sqlitePart (m : Filled c t) (hshort : shortPairs m.sqlitePart = true) :
    widthPairs m.sqlitePart ≤ 7 * (244 + 4301) := by
  refine widthPairs_le (keys_sqlitePart m ▸ by decide) fun kv hkv => ?_
  have hkv' := shortPairs_iff.1 hshort kv hkv
  simp only [Filled.sqlitePart, sqliteManifest, List.mem_cons, List.not_mem_nil, or_false] at hkv
  rcases hkv with rfl | rfl | rfl | rfl | rfl | rfl | rfl
  · exact width_short (by decide)
  · exact width_int hkv'
  · exact width_sha256 (LawfulHost.isSha256_sha256 _)
  · exact width_short (by decide)
  · exact width_short (m.version ▸ by decide)
  · exact width_int hkv'
  · exact width_int hkv'

theorem width_qdrantPart (m : Filled c t) (hshort : shortPairs m.qdrantPart = true) :
    widthPairs m.qdrantPart ≤ 9 * (244 + 4301) := by
  have hlen : m.qdrantPart.length ≤ 9 := by
    unfold Filled.qdrantPart qdrantManifest
    rw [List.length_append, List.length_append]
    cases m.info.indexedVectorsCount <;> cases m.info.status <;>
      exact Nat.le_of_ble_eq_true rfl
  refine (widthPairs_le (w := 4301) (fun k hk => ?_) fun kv hkv => ?_).trans
    (Nat.mul_le_mul_right _ hlen)
  · rw [keys_qdrantPart] at hk
    exact length_key_of_expectedQdrant hk
  have hkv' := shortPairs_iff.1 hshort kv hkv
  unfold Filled.qdrantPart qdrantManifest at hkv
  rcases List.mem_append.1 hkv with hkv | hkv
  · rcases List.mem_append.1 hkv with hkv | hkv
    · simp only [List.mem_cons, List.not_mem_nil, or_false] at hkv
      rcases hkv with rfl | rfl | rfl | rfl | rfl | rfl | rfl
      · exact width_short (by decide)
      · exact width_int hkv'
      · exact width_sha256 (LawfulHost.isSha256_sha256 _)
      · exact width_sha256 m.answer_valid.checksum
      · exact width_short m.answer_valid.creationTime
      · exact width_short (length_of_isCollection c.collection_ok)
      · exact width_count m.info_valid.points hkv'
    · cases hv : m.info.indexedVectorsCount with
      | none =>
        rw [hv] at hkv
        cases hkv
      | some v =>
        rw [hv] at hkv
        obtain rfl := List.mem_singleton.1 hkv
        exact width_count (m.info_valid.indexed v hv) hkv'
  · cases hs : m.info.status with
    | none =>
      rw [hs] at hkv
      cases hkv
    | some s =>
      rw [hs] at hkv
      obtain rfl := List.mem_singleton.1 hkv
      exact width_short ((m.info_valid.status s hs).trans (by decide))

/-- The document is short enough for `_load_manifest`. -/
theorem width_document (m : Filled c t) (hid : isBackupName (backupId t) = true)
    (hshort : shortPairs m.document = true) : width (.obj m.document : Doc) ≤ 1048575 := by
  have hall := shortPairs_iff.1 hshort
  have hsqlite := width_sqlitePart m
    (hall ("sqlite", .obj m.sqlitePart) (by simp [Filled.document, manifest]))
  have hqdrant := width_qdrantPart m
    (hall ("qdrant", .obj m.qdrantPart) (by simp [Filled.document, manifest]))
  have hconsistency : widthPairs (consistency : List (String × Doc)) ≤ 3 * (244 + 4301) := by
    have hkeys : keys (consistency : List (String × Doc)) = ["sqlite", "qdrant", "cross_store"] :=
      rfl
    refine widthPairs_le (hkeys ▸ by decide) fun kv hkv => ?_
    simp only [consistency, List.mem_cons, List.not_mem_nil, or_false] at hkv
    rcases hkv with rfl | rfl | rfl <;> exact width_short (by decide)
  have hdocument : widthPairs m.document ≤ 6 * (244 + 40907) := by
    refine widthPairs_le (keys_document m ▸ by decide) fun kv hkv => ?_
    simp only [Filled.document, manifest, List.mem_cons, List.not_mem_nil, or_false] at hkv
    have htext : ∀ s : String, s.length ≤ 128 → width (.str s : Doc) ≤ 40907 := fun s hs =>
      (width_short hs).trans (by decide)
    have hobj : ∀ kvs : List (String × Doc), widthPairs kvs ≤ 9 * (244 + 4301) →
        width (.obj kvs : Doc) ≤ 40907 := by
      intro kvs h
      rw [width]
      omega
    rcases hkv with rfl | rfl | rfl | rfl | rfl | rfl
    · exact htext _ (by decide)
    · exact htext _ ((length_of_isBackupName hid).le.trans (by decide))
    · exact htext _ ((length_createdAt t).trans (by decide))
    · exact hobj _ (hconsistency.trans (by decide))
    · exact hobj _ (hsqlite.trans (by decide))
    · exact hobj _ hqdrant
  rw [width]
  omega

end widths

/-! ### Its fields -/

@[simp] theorem asStr_sortKeys (v : Doc) : asStr (sortKeys v) = asStr v := by
  cases v <;> rfl

@[simp] theorem asInt_sortKeys (v : Doc) : asInt (sortKeys v) = asInt v := by
  cases v <;> rfl

@[simp] theorem strOf_sortKeys (v : Doc) : strOf (sortKeys v) = strOf v := by
  match v with
  | .null => rfl
  | .bool true => rfl
  | .bool false => rfl
  | .int _ => rfl
  | .float _ => rfl
  | .str _ => rfl
  | .arr _ => rfl
  | .obj _ => rfl

theorem text_sorted (kvs : List (String × Doc)) (key : String) :
    ((sortKeysPairs kvs).lookup key).bind asStr = (kvs.lookup key).bind asStr := by
  rw [lookup_sortKeysPairs]
  cases kvs.lookup key with
  | none => rfl
  | some v => exact asStr_sortKeys v

theorem holdsText_sorted (kvs : List (String × Doc)) (key text : String) :
    holdsText (sortKeysPairs kvs) key text = holdsText kvs key text := by
  unfold holdsText
  rw [text_sorted]

theorem holdsInt_sorted (kvs : List (String × Doc)) (key : String) (n : ℤ) :
    holdsInt (sortKeysPairs kvs) key n = holdsInt kvs key n := by
  unfold holdsInt
  rw [lookup_sortKeysPairs]
  cases kvs.lookup key with
  | none => rfl
  | some v => exact congrArg (fun o : Option ℤ => decide (o = some n)) (asInt_sortKeys v)

theorem obj_sorted {kvs' : List (String × Doc)} (h : kvs.lookup key = some (.obj kvs')) :
    ((sortKeysPairs kvs).lookup key).bind asObj = some (sortKeysPairs kvs') := by
  rw [lookup_sortKeysPairs, h]
  rfl

theorem sameNames_of_perm {l l' : List String} (h : l.Perm l') : sameNames l l' = true :=
  decide_eq_true (List.toFinset_eq_of_perm l l' h)

theorem sameNames_sorted (kvs : List (String × Doc)) :
    sameNames (keys (sortKeysPairs kvs)) (keys kvs) = true :=
  sameNames_of_perm (keys_sortKeysPairs kvs)

theorem expectedQdrant_sorted (kvs : List (String × Doc)) :
    expectedQdrant (sortKeysPairs kvs) = expectedQdrant kvs := by
  unfold expectedQdrant
  simp only [(keys_sortKeysPairs kvs).mem_iff]

theorem consistencyOk_document (m : Filled c t) :
    consistencyOk (sortKeysPairs m.document) = true := by
  have hlookup : m.document.lookup "consistency" = some (.obj consistency) := rfl
  unfold consistencyOk
  rw [obj_sorted hlookup]
  dsimp only
  rw [sameNames_sorted, holdsText_sorted, holdsText_sorted, holdsText_sorted]
  rfl

theorem createdAtOk_document [LawfulHost] (m : Filled c t) :
    createdAtOk (sortKeysPairs m.document) = true := by
  have hlookup : (m.document.lookup "created_at").bind asStr =
      some (ofChars (isoTime t ++ ['Z'])) := rfl
  unfold createdAtOk
  rw [text_sorted, hlookup]
  dsimp only
  rw [toChars_ofChars, List.getLast?_concat, List.dropLast_concat, LawfulHost.fromisoformat]
  rfl

theorem componentOk_sqlite [LawfulHost] (m : Filled c t) :
    componentOk (sortKeysPairs m.sqlitePart) m.sqlite = true := by
  have hsize := LawfulHost.size_pos _ _ m.inspected
  have hbytes : holdsInt m.sqlitePart "bytes" m.sqlite.size = true := decide_eq_true rfl
  have hdigest : holdsText m.sqlitePart "sha256" (Host.sha256 m.sqlite) = true :=
    decide_eq_true rfl
  have hlookup : (m.sqlitePart.lookup "sha256").bind asStr = some (Host.sha256 m.sqlite) := rfl
  unfold componentOk
  rw [holdsInt_sorted, holdsText_sorted, text_sorted, hbytes, hdigest, hlookup, Option.any_some,
    LawfulHost.isSha256_sha256, decide_eq_true hsize]
  rfl

theorem componentOk_qdrant [LawfulHost] (m : Filled c t) :
    componentOk (sortKeysPairs m.qdrantPart) m.snapshot = true := by
  have hbytes : holdsInt m.qdrantPart "bytes" m.snapshot.size = true := decide_eq_true rfl
  have hdigest : holdsText m.qdrantPart "sha256" (Host.sha256 m.snapshot) = true :=
    decide_eq_true rfl
  have hlookup : (m.qdrantPart.lookup "sha256").bind asStr = some (Host.sha256 m.snapshot) := rfl
  unfold componentOk
  rw [holdsInt_sorted, holdsText_sorted, text_sorted, hbytes, hdigest, hlookup, Option.any_some,
    LawfulHost.isSha256_sha256, decide_eq_true m.size_pos]
  rfl

theorem sqliteOk_sqlitePart (m : Filled c t) :
    sqliteOk (sortKeysPairs m.sqlitePart) m.details = true := by
  have hintegrity : holdsText m.sqlitePart "integrity" "ok" = true := decide_eq_true rfl
  have hversion : holdsText m.sqlitePart "schema_version" m.details.schemaVersion = true :=
    decide_eq_true rfl
  have hmemories : holdsInt m.sqlitePart "memories" m.details.memories = true :=
    decide_eq_true rfl
  have hpages : holdsInt m.sqlitePart "pages" m.details.pages = true := decide_eq_true rfl
  unfold sqliteOk
  rw [holdsText_sorted, holdsText_sorted, holdsInt_sorted, holdsInt_sorted, hintegrity, hversion,
    hmemories, hpages]
  rfl

theorem qdrantOk_qdrantPart (m : Filled c t) : qdrantOk (sortKeysPairs m.qdrantPart) = true := by
  have hserver : (m.qdrantPart.lookup "server_checksum").bind asStr = some m.answer.checksum := rfl
  have hdigest : (m.qdrantPart.lookup "sha256").bind asStr = some m.answer.checksum :=
    (rfl : _ = some (Host.sha256 m.snapshot)).trans (congrArg some m.checksum)
  have htime : (m.qdrantPart.lookup "snapshot_creation_time").bind asStr =
      some m.answer.creationTime := rfl
  have hcollection : m.qdrantPart.lookup "collection" = some (.str c.collection) := rfl
  have hpoints : m.qdrantPart.lookup "points_count" = some m.info.pointsCount := rfl
  have hcount : countOf (sortKeys m.info.pointsCount) = some (sortKeys m.info.pointsCount) := by
    have hvalid := m.info_valid.points
    unfold countOf at hvalid ⊢
    rw [asInt_sortKeys]
    split at hvalid
    · split_ifs at hvalid with hle
      rw [if_pos hle]
    · cases hvalid
  unfold qdrantOk
  rw [text_sorted, text_sorted, text_sorted, hserver, hdigest, htime, lookup_sortKeysPairs,
    lookup_sortKeysPairs, hcollection, hpoints, Option.any_some, m.answer_valid.checksum]
  simp only [Option.map_some, strOf_sortKeys, Option.bind_some, hcount]
  change (true && decide _ && _ && (some c.collection).any isCollection && _) = true
  rw [Option.any_some, c.collection_ok]
  simp

/-- What a backup writes is accepted under its name. -/
theorem verifyBackup_ok [LawfulHost] (m : Filled c t) (hid : isBackupName (backupId t) = true)
    (hshort : shortPairs m.document = true) :
    verifyBackup (backupId t) m.files = .ok ⟨backupId t, m.details.memories⟩ := by
  have hload : loadManifest (line (.obj m.document)).toByteArray =
      .ok (sortKeysPairs m.document) := by
    have hsize : (line (.obj m.document)).toByteArray.size ≤ 1048576 := by
      have hle := size_line (.obj m.document : Doc)
      have hwidth := width_document m hid hshort
      rw [String.size_toByteArray]
      omega
    have hdecode : String.fromUTF8? (line (.obj m.document)).toByteArray =
        some (line (.obj m.document)) := by
      unfold String.fromUTF8?
      rw [dif_pos (line (.obj m.document)).isValidUTF8]
      rfl
    have hread : loads (line (.obj m.document)) = some (.obj (sortKeysPairs m.document) : Doc) :=
      loads_line (wf_document m) (by simp [Filled.document, manifest])
    have hsorted : short (.obj (sortKeysPairs m.document) : Doc) = true :=
      (short_sortKeysPairs m.document).trans hshort
    unfold loadManifest readJson
    rw [decide_eq_true hsize, hdecode]
    simp only [require_true, demand_some, ok_bind, hread, hsorted]
    rfl
  have hnames : sameNames (keys m.files) expectedFiles = true := by
    have hkeys : keys m.files = ["memory.sqlite3", "qdrant.snapshot", "manifest.json"] := rfl
    rw [hkeys]
    decide
  have hmanifest : m.files.lookup "manifest.json" =
      some (line (.obj m.document)).toByteArray := rfl
  have hsqliteFile : m.files.lookup "memory.sqlite3" = some m.sqlite := rfl
  have hqdrantFile : m.files.lookup "qdrant.snapshot" = some m.snapshot := rfl
  have hfields : sameNames (keys (sortKeysPairs m.document))
      ["format", "backup_id", "created_at", "consistency", "sqlite", "qdrant"] = true :=
    keys_document m ▸ sameNames_sorted m.document
  have hidentity : (holdsText (sortKeysPairs m.document) "format" "ops-memory-backup-v1" &&
      holdsText (sortKeysPairs m.document) "backup_id" (backupId t)) = true := by
    have hformat : holdsText m.document "format" "ops-memory-backup-v1" = true :=
      decide_eq_true rfl
    have hname : holdsText m.document "backup_id" (backupId t) = true := decide_eq_true rfl
    rw [holdsText_sorted, holdsText_sorted, hformat, hname]
    rfl
  have hsqlite : ((sortKeysPairs m.document).lookup "sqlite").bind asObj =
      some (sortKeysPairs m.sqlitePart) := obj_sorted rfl
  have hqdrant : ((sortKeysPairs m.document).lookup "qdrant").bind asObj =
      some (sortKeysPairs m.qdrantPart) := obj_sorted rfl
  have hparts : (sameNames (keys (sortKeysPairs m.sqlitePart)) expectedSqlite &&
      sameNames (keys (sortKeysPairs m.qdrantPart))
        (expectedQdrant (sortKeysPairs m.qdrantPart))) = true := by
    rw [expectedQdrant_sorted, ← keys_qdrantPart, ← keys_sqlitePart m, sameNames_sorted,
      sameNames_sorted]
    rfl
  have hsqliteName : holdsText (sortKeysPairs m.sqlitePart) "file" "memory.sqlite3" = true :=
    (holdsText_sorted _ _ _).trans (decide_eq_true rfl)
  have hqdrantName : holdsText (sortKeysPairs m.qdrantPart) "file" "qdrant.snapshot" = true :=
    (holdsText_sorted _ _ _).trans (decide_eq_true rfl)
  unfold verifyBackup
  simp only [hid, hnames, hmanifest, hload, hfields, hidentity, createdAtOk_document,
    consistencyOk_document, hsqlite, hqdrant, hparts, hsqliteName, hqdrantName, hsqliteFile,
    hqdrantFile, componentOk_sqlite, componentOk_qdrant, m.inspected, sqliteOk_sqlitePart,
    qdrantOk_qdrantPart, Bool.and_self, require_true, demand_some, ok_bind]
  rfl

/-! ## What an operation touches -/

/-- The names whose directories an operation may change. -/
def ArchiveOp.touches : ArchiveOp → List String
  | .mkdir name => [name]
  | .create name _ => [name]
  | .copy name _ => [name]
  | .stream name _ _ => [name]
  | .write name _ _ => [name]
  | .unlink name _ => [name]
  | .rmdir name => [name]
  | .replace name final => [name, final]
  | _ => []

/-- The names stay distinct, and the other directories are what they were. -/
structure Frame (touched : String → Prop) (v w : Archive) : Prop where
  nodup : w.names.Nodup
  same : ∀ n, ¬touched n → w.folder n = v.folder n

section frames

omit [Host]

variable {touched : String → Prop} {v w : Archive}

theorem frame_refl (h : v.names.Nodup) : Frame touched v v :=
  ⟨h, fun _ _ => rfl⟩

theorem Frame.trans {u : Archive} (h : Frame touched u v) (h' : Frame touched v w) :
    Frame touched u w :=
  ⟨h'.nodup, fun n hn => (h'.same n hn).trans (h.same n hn)⟩

theorem frame_update (h : v.names.Nodup) {name : String} (f : Folder → Folder)
    (hname : touched name) : Frame touched v (v.update name f) := by
  refine ⟨names_update v name f ▸ h, fun n hn => ?_⟩
  rw [folder_update, if_neg]
  rintro rfl
  exact hn hname

end frames

theorem frame_run {touched : String → Prop} (o : ArchiveOp) (x : ArchiveChoice) {v : Archive}
    (h : v.names.Nodup) (ht : ∀ n ∈ o.touches, touched n) :
    Frame touched v (o.run x v).2 := by
  have hself : Frame touched v v := frame_refl h
  cases o with
  | prerequisites => exact hself
  | token => exact hself
  | lock => exact hself
  | lexists name => exact hself
  | mkdir name =>
    unfold ArchiveOp.run
    dsimp only
    split_ifs with hname
    · exact hself
    · refine ⟨?_, fun n hn => ?_⟩
      · change (keys (v.entries ++ [(name, [])])).Nodup
        unfold keys
        rw [List.map_append]
        refine List.nodup_append.2 ⟨h, List.nodup_singleton _, ?_⟩
        rintro a ha b hb rfl
        obtain rfl := List.mem_singleton.1 hb
        exact hname ha
      · rw [folder_mkdir hname, if_neg]
        rintro rfl
        exact hn (ht _ (List.mem_singleton.2 rfl))
  | create name file =>
    unfold ArchiveOp.run
    dsimp only
    split
    · exact hself
    · split_ifs
      · exact hself
      · exact frame_update (f := fun files => files ++ [(file, ByteArray.empty)]) h
          (ht name (List.mem_singleton.2 rfl))
  | copy name file => exact frame_update h _ (ht name (List.mem_singleton.2 rfl))
  | ask method path => exact hself
  | stream name file maximum =>
    unfold ArchiveOp.run
    dsimp only
    split_ifs
    · exact hself
    · exact frame_update h _ (ht name (List.mem_singleton.2 rfl))
    · exact frame_update h _ (ht name (List.mem_singleton.2 rfl))
  | read name file =>
    unfold ArchiveOp.run
    dsimp only
    split <;> exact hself
  | write name file bytes => exact frame_update h _ (ht name (List.mem_singleton.2 rfl))
  | fsync name => exact hself
  | replace name final =>
    unfold ArchiveOp.run
    dsimp only
    split_ifs with hnames
    · refine ⟨nodup_rename h hnames.2, fun n hn => ?_⟩
      rw [folder_rename h _ hnames.2, if_neg, if_neg]
      · rintro rfl
        exact hn (ht _ (by simp [ArchiveOp.touches]))
      · rintro rfl
        exact hn (ht _ (by simp [ArchiveOp.touches]))
    · exact hself
  | inspect name =>
    unfold ArchiveOp.run
    dsimp only
    split <;> exact hself
  | iterdir => exact hself
  | listdir name =>
    unfold ArchiveOp.run
    dsimp only
    split <;> exact hself
  | unlink name file =>
    unfold ArchiveOp.run
    dsimp only
    split
    · exact hself
    · split_ifs
      · exact frame_update h _ (ht name (List.mem_singleton.2 rfl))
      · exact hself
  | rmdir name =>
    unfold ArchiveOp.run
    dsimp only
    split
    · refine ⟨names_remove v name ▸ h.filter _, fun n hn => ?_⟩
      rw [folder_remove, if_neg]
      rintro rfl
      exact hn (ht _ (List.mem_singleton.2 rfl))
    · exact hself

theorem frame_broken {touched : String → Prop} (o : ArchiveOp) (x : ArchiveChoice) {v : Archive}
    (h : v.names.Nodup) (ht : ∀ n ∈ o.touches, touched n) :
    Frame touched v (o.broken x v) := by
  unfold ArchiveOp.broken
  split
  · exact frame_update h _ (ht _ (List.mem_singleton.2 rfl))
  · exact frame_update h _ (ht _ (List.mem_singleton.2 rfl))
  · exact frame_update h _ (ht _ (List.mem_singleton.2 rfl))
  · exact frame_refl h

theorem frame_perform {touched : String → Prop} (o : ArchiveOp) (x : ArchiveChoice) {v : Archive}
    (h : v.names.Nodup) (ht : ∀ n ∈ o.touches, touched n) :
    Frame touched v (performArchive o x v).2 := by
  unfold performArchive
  split
  · exact frame_broken o x h ht
  · exact frame_run o x h ht

/-! ## Programs that may stop anywhere -/

/-- What depends on the distinct names and on the backups only. -/
def Framed (C : Archive → Prop) : Prop :=
  ∀ v w, C v → Frame (fun n => isBackupName n = false) v w → C w

/-- The program keeps the condition wherever it stops, and if it returns the second condition
holds when the first one did. -/
def Safe {α : Type} (C P : Archive → Prop) (p : ArchiveProg α) (R : α → Archive → Prop) : Prop :=
  ∀ v, C v → P v → Wp performArchive C p (fun r t => ∀ a, r = .ok a → R a t) v

variable {α β : Type} {C P : Archive → Prop} {R : α → Archive → Prop} {R' : β → Archive → Prop}
  {p : ArchiveProg α}

theorem Safe.bind {f : α → ArchiveProg β} (hp : Safe C P p R) (hf : ∀ a, Safe C (R a) (f a) R') :
    Safe C P (p >>= f) R' := by
  intro v hv hP
  refine wp_bind ((hp v hv hP).mono fun r t ht hr => ?_)
  cases r with
  | error e => exact fun a h => by cases h
  | ok a => exact hf a t ht (hr a rfl)

theorem safe_pure {a : α} (h : ∀ v, P v → R a v) : Safe C P (pure a) R := by
  intro v hv hP
  refine wp_pure hv fun b hb => ?_
  obtain rfl := Except.ok.inj hb
  exact h v hP

theorem safe_fail (e : ArchiveError) : Safe C P (.fail e : ArchiveProg α) R := by
  intro v hv _
  exact wp_fail hv fun a h => by cases h

theorem safe_ofExcept (r : Except ArchiveError α) (h : ∀ a v, r = .ok a → P v → R a v) :
    Safe C P (Prog.ofExcept r) R := by
  intro v hv hP
  exact wp_ofExcept hv fun a ha => h a v ha hP

theorem Safe.attempt (h : Safe C P p R) :
    Safe C P (Prog.attempt p) fun r v => ∀ a, r = .ok a → R a v := by
  intro v hv hP
  refine wp_attempt ((h v hv hP).mono fun r t _ hr => ?_)
  intro b hb
  obtain rfl := Except.ok.inj hb
  exact hr

theorem Safe.mono {P' : Archive → Prop} {R' : α → Archive → Prop} (h : Safe C P p R)
    (hP : ∀ v, C v → P' v → P v) (hR : ∀ a v, C v → R a v → R' a v) : Safe C P' p R' := by
  intro v hv hP'
  exact (h v hv (hP v hv hP')).mono fun r t ht hr a ha => hR a t ht (hr a ha)

variable {o : ArchiveOp}

theorem safe_op {R : o.Reply → Archive → Prop} (hfail : ∀ x v, C v → P v → C (o.broken x v))
    (h : ∀ x v, C v → P v → C (o.run x v).2 ∧ ∀ a, (o.run x v).1 = .ok a → R a (o.run x v).2) :
    Safe C P (archiveOp o) R := by
  intro v hv hP
  refine ⟨hv, fun x => wp_ofExcept ?_ ?_⟩
  · unfold performArchive
    cases x.fault with
    | none => exact (h x v hv hP).1
    | some e => exact hfail x v hv hP
  · unfold performArchive
    cases x.fault with
    | none => exact (h x v hv hP).2
    | some e => exact fun a ha => by cases ha

theorem safe_read {R : o.Reply → Archive → Prop} (hbroken : ∀ x v, o.broken x v = v)
    (h : ∀ x v, (o.run x v).2 = v) (hR : ∀ x v a, C v → P v → (o.run x v).1 = .ok a → R a v) :
    Safe C P (archiveOp o) R := by
  refine safe_op (fun x v hv _ => (hbroken x v).symm ▸ hv) fun x v hv hP => ?_
  rw [h x v]
  exact ⟨hv, fun a ha => hR x v a hv hP ha⟩

/-- A program that touches no backup. -/
theorem wp_frame {touched : String → Prop}
    (hp : Asks (fun o : ArchiveOp => ∀ n ∈ o.touches, touched n) p) {v : Archive}
    (hv : v.names.Nodup) :
    Wp performArchive (Frame touched v) p (fun _ w => Frame touched v w) v := by
  have hall : ∀ (p : ArchiveProg α) h w, Trail (fun _ (o : ArchiveOp) => ∀ n ∈ o.touches, touched n)
      (fun _ _ => True) (fun _ _ => True) p h → Frame touched v w →
      Wp performArchive (Frame touched v) p (fun _ w => Frame touched v w) w := by
    intro p
    induction p with
    | ret a => exact fun _ _ _ hw => ⟨hw, hw⟩
    | fail e => exact fun _ _ _ hw => ⟨hw, hw⟩
    | ask o k ih =>
      exact fun h w hp hw => ⟨hw, fun x => ih _ _ _ (hp.2 _)
        (hw.trans (frame_perform o x hw.nodup hp.1))⟩
  exact hall p [] v (hp []) (frame_refl hv)

theorem safe_frame {touched : String → Prop}
    (hp : Asks (fun o : ArchiveOp => ∀ n ∈ o.touches, touched n) p)
    (hnodup : ∀ v, C v → v.names.Nodup) (hC : ∀ v w, C v → Frame touched v w → C w)
    (hP : ∀ v w, P v → Frame touched v w → P w) : Safe C P p fun _ => P := by
  intro v hv hPv
  have hwp := wp_frame hp (hnodup v hv)
  exact (hwp.weaken fun w hw => hC v w hv hw).mono fun r t _ hr _ _ => hP v t hPv hr.2

variable {γ : Type}

theorem safe_exists {P : γ → Archive → Prop} (h : ∀ g, Safe C (P g) p R) :
    Safe C (fun v => ∃ g, P g v) p R :=
  fun v hv ⟨g, hg⟩ => h g v hv hg

theorem safe_and {φ : Prop} (h : φ → Safe C P p R) : Safe C (fun v => φ ∧ P v) p R :=
  fun v hv ⟨hφ, hP⟩ => h hφ v hv hP

theorem Safe.weaken {D : Archive → Prop} (h : Safe C P p R) (hC : ∀ v, C v → D v) :
    Safe D (fun v => C v ∧ P v) p fun a v => C v ∧ R a v := by
  rintro v - ⟨hv, hP⟩
  exact ((h v hv hP).weaken hC).mono fun r t _ hr a ha => ⟨hr.1, hr.2 a ha⟩

theorem safe_always {q : ArchiveProg Unit} (hp : Safe C P p R)
    (hq : ∀ a, Safe C (R a) q fun _ => R a) (hq' : Safe C (fun _ => True) q fun _ _ => True) :
    Safe C P (always p q) R := by
  refine hp.attempt.bind fun result => ?_
  cases result with
  | error e =>
    refine (hq'.mono (fun _ _ _ => trivial) fun _ _ _ _ => trivial).bind fun _ => ?_
    exact safe_fail e
  | ok a =>
    refine ((hq a).mono (fun _ _ h => h a rfl) fun _ _ _ h => h).bind fun _ => ?_
    exact safe_pure fun _ h => h

variable {f : γ → ArchiveProg Unit}

theorem safe_eachInTurn (I : List γ → Archive → Prop) (l : List γ)
    (h : ∀ c rest, c ∈ l → Safe C (I (c :: rest)) (f c) fun _ => I rest) :
    Safe C (I l) (eachInTurn f l) fun _ => I [] := by
  induction l with
  | nil => exact safe_pure fun _ h => h
  | cons c l ih =>
    exact (h c l List.mem_cons_self).bind fun _ =>
      ih fun d rest hd => h d rest (List.mem_cons_of_mem c hd)

/-! ## What every history keeps -/

/-- The names are distinct, and each backup is accepted. -/
structure Inv (v : Archive) : Prop where
  nodup : v.names.Nodup
  accepted : ∀ n files, isBackupName n = true → v.folder n = some files →
    ∃ report, verifyBackup n files = .ok report

/-- The backups are those of an earlier moment. -/
def SameBackups (v₀ v : Archive) : Prop :=
  ∀ n, isBackupName n = true → v.folder n = v₀.folder n

/-- Every backup of the earlier moment is there, or a new one is published. -/
def Around (v₀ : Archive) (new : String) (v : Archive) : Prop :=
  Inv v ∧ (SameBackups v₀ v ∨ v₀.folder new = none ∧ (v.folder new).isSome)

/-- Nothing is published yet. -/
def Early (v₀ v : Archive) : Prop :=
  Inv v ∧ SameBackups v₀ v

/-- The new backup is published, beside those of the earlier moment. -/
structure Added (v₀ : Archive) (new : String) (v : Archive) : Prop where
  fresh : v₀.folder new = none
  present : (v.folder new).isSome
  others : ∀ n, isBackupName n = true → n ≠ new → v.folder n = v₀.folder n

def Has (name : String) (files : Folder) (v : Archive) : Prop :=
  v.folder name = some files

theorem frame_backup {v w : Archive} (h : Frame (fun n => isBackupName n = false) v w)
    (hn : isBackupName n = true) : w.folder n = v.folder n :=
  h.same n (by simp [hn])

theorem framed_inv : Framed Inv := by
  intro v w hv hw
  refine ⟨hw.nodup, fun n files hn hfiles => ?_⟩
  rw [frame_backup hw hn] at hfiles
  exact hv.accepted n files hn hfiles

theorem framed_early (v₀ : Archive) : Framed (Early v₀) := by
  intro v w hv hw
  exact ⟨framed_inv v w hv.1 hw, fun n hn => (frame_backup hw hn).trans (hv.2 n hn)⟩

theorem framed_around (v₀ : Archive) {new : String} (hnew : isBackupName new = true) :
    Framed (Around v₀ new) := by
  intro v w hv hw
  refine ⟨framed_inv v w hv.1 hw, ?_⟩
  rcases hv.2 with hsame | ⟨hfresh, hsome⟩
  · exact .inl fun n hn => (frame_backup hw hn).trans (hsame n hn)
  · exact .inr ⟨hfresh, (frame_backup hw hnew).symm ▸ hsome⟩

theorem framed_added (v₀ : Archive) {new : String} (hnew : isBackupName new = true) :
    Framed (Added v₀ new) := by
  intro v w hv hw
  exact ⟨hv.fresh, (frame_backup hw hnew).symm ▸ hv.present,
    fun n hn hne => (frame_backup hw hn).trans (hv.others n hn hne)⟩

omit [Host] in
/-! ## The steps that touch no backup -/

section aside

variable (hC : Framed C) (hnodup : ∀ v, C v → v.names.Nodup)

include hC hnodup

theorem safe_touch {o : ArchiveOp} {R : o.Reply → Archive → Prop}
    (ht : ∀ n ∈ o.touches, isBackupName n = false)
    (h : ∀ x v a, C v → P v → (o.run x v).1 = .ok a → R a (o.run x v).2) :
    Safe C P (archiveOp o) R :=
  safe_op (fun x v hv _ => hC v _ hv (frame_broken o x (hnodup v hv) ht))
    fun x v hv hP => ⟨hC v _ hv (frame_run o x (hnodup v hv) ht), fun a ha => h x v a hv hP ha⟩

theorem safe_ask {o : ArchiveOp} (ht : o.touches = []) (h : ∀ x v, (o.run x v).2 = v) :
    Safe C P (archiveOp o) fun _ => P := by
  refine safe_touch hC hnodup (fun n hn => ?_) fun x v a _ hP _ => ?_
  · rw [ht] at hn
    cases hn
  · rw [h x v]
    exact hP

theorem safe_aside {p : ArchiveProg α} (hP : Framed P)
    (hp : Asks (fun o : ArchiveOp => ∀ n ∈ o.touches, isBackupName n = false) p) :
    Safe C P p fun _ => P :=
  safe_frame hp hnodup (fun v w => hC v w) fun v w => hP v w

variable {pending : String} (hid : isBackupName pending = false)

include hid

variable {file : String} {files : Folder}

theorem safe_create : Safe C (Has pending files) (archiveOp (.create pending file)) fun _ =>
      Has pending (files ++ [(file, ByteArray.empty)]) := by
  refine safe_touch hC hnodup (fun n hn => List.mem_singleton.1 hn ▸ hid) fun x v a hv hP ha => ?_
  change v.folder pending = some files at hP
  unfold ArchiveOp.run at ha ⊢
  simp only [hP] at ha ⊢
  split_ifs at ha ⊢
  change Archive.folder _ _ = _
  rw [folder_update, if_pos rfl, hP]
  rfl

omit hid in
theorem safe_read_file (bytes : ByteArray) (hfile : files.lookup file = some bytes) :
    Safe C (Has pending files) (archiveOp (.read pending file)) fun a v =>
      a = bytes ∧ Has pending files v := by
  refine safe_touch hC hnodup (fun n hn => by cases hn) fun x v a hv hP ha => ?_
  change v.folder pending = some files at hP
  unfold ArchiveOp.run at ha ⊢
  simp only [hP, Option.bind_some, hfile] at ha ⊢
  exact ⟨(Except.ok.inj ha).symm, hP⟩

theorem safe_write (bytes : ByteArray) :
    Safe C (Has pending files) (archiveOp (.write pending file bytes)) fun _ =>
      Has pending (setBytes file bytes files) := by
  refine safe_touch hC hnodup (fun n hn => List.mem_singleton.1 hn ▸ hid) fun x v a hv hP ha => ?_
  change Archive.folder _ _ = _
  unfold ArchiveOp.run
  change (v.update _ _).folder _ = _
  rw [folder_update, if_pos rfl, hP]
  rfl

theorem safe_copy : Safe C (Has pending files) (archiveOp (.copy pending file)) fun _ v =>
      ∃ copied : CatalogueCopy, Has pending (setBytes file copied.bytes files) v := by
  refine safe_touch hC hnodup (fun n hn => List.mem_singleton.1 hn ▸ hid) fun x v a hv hP ha => ?_
  refine ⟨x.copied, ?_⟩
  change (v.update _ _).folder _ = _
  rw [folder_update, if_pos rfl, hP]
  rfl

variable {maximum : ℕ}

theorem safe_stream :
    Safe C (Has pending files) (archiveOp (.stream pending file maximum)) fun a v =>
      ∃ bytes : ByteArray, (1 ≤ bytes.size ∧ a = bytes.size) ∧
        Has pending (setBytes file bytes files) v := by
  refine safe_touch hC hnodup (fun n hn => List.mem_singleton.1 hn ▸ hid) fun x v a hv hP ha => ?_
  refine ⟨x.bytes, ?_⟩
  unfold ArchiveOp.run at ha ⊢
  dsimp only at ha ⊢
  split_ifs at ha ⊢ with hsmall hlarge
  · refine ⟨⟨by omega, (Except.ok.inj ha).symm⟩, ?_⟩
    change (v.update _ _).folder _ = _
    rw [folder_update, if_pos rfl, hP]
    rfl

/-! ## Filling the pending directory -/

theorem safe_backupSqlite : Safe C (Has pending []) (backupSqlite pending) fun details v =>
    ∃ bytes : ByteArray, (Host.sqliteIntegrity bytes = some details ∧
      details.schemaVersion = schemaVersion) ∧ Has pending [("memory.sqlite3", bytes)] v := by
  refine (safe_create hC hnodup hid).bind fun _ => (safe_copy hC hnodup hid).bind fun _ => ?_
  refine safe_exists fun copied => ?_
  refine (safe_read_file hC hnodup copied.bytes rfl).bind fun bytes => ?_
  refine safe_and fun hbytes => ?_
  subst hbytes
  refine (safe_ofExcept _ (R := fun details v => Host.sqliteIntegrity copied.bytes = some details ∧
    Has pending [("memory.sqlite3", copied.bytes)] v) fun details v h hP =>
      ⟨demand_eq_ok h, hP⟩).bind fun details => ?_
  refine safe_and fun hdetails => ?_
  refine (safe_ask hC hnodup rfl fun _ _ => rfl).bind fun _ => safe_pure fun v hP => ?_
  exact ⟨copied.bytes, ⟨hdetails, copied.version details hdetails⟩, hP⟩

def twoFiles (sqlite snapshot : ByteArray) : Folder :=
  [("memory.sqlite3", sqlite), ("qdrant.snapshot", snapshot)]

variable {sqlite : ByteArray}

theorem safe_downloadSnapshot :
    Safe C (Has pending [("memory.sqlite3", sqlite)]) (downloadSnapshot pending maximum)
      fun total v => ∃ bytes : ByteArray, (1 ≤ bytes.size ∧ total = bytes.size) ∧
        Has pending (twoFiles sqlite bytes) v := by
  refine (safe_create hC hnodup hid).bind fun _ => ?_
  refine (safe_stream hC hnodup hid).attempt.bind fun streamed => ?_
  cases streamed with
  | error e =>
    refine Safe.bind (R := fun _ _ => True) ?_ fun _ => safe_fail e
    exact safe_touch hC hnodup (fun n hn => List.mem_singleton.1 hn ▸ hid)
      fun _ _ _ _ _ _ => trivial
  | ok total => exact safe_pure fun v hP => hP total rfl

theorem safe_fetchSnapshot {c : Settings} {details : SnapshotDetails} :
    Safe C (Has pending [("memory.sqlite3", sqlite)]) (fetchSnapshot c pending details)
      fun result v => ∃ bytes : ByteArray, (1 ≤ bytes.size ∧ result.1 = bytes.size ∧
        Host.sha256 bytes = details.checksum ∧ result.2 = Host.sha256 bytes) ∧
        Has pending (twoFiles sqlite bytes) v := by
  refine (safe_downloadSnapshot hC hnodup hid).bind fun total => safe_exists fun bytes => ?_
  refine safe_and fun ⟨hpos, htotal⟩ => ?_
  refine Safe.bind
    (R := fun digest v => digest = Host.sha256 bytes ∧ Has pending (twoFiles sqlite bytes) v)
    ?_ fun digest => ?_
  · exact (safe_read_file hC hnodup bytes rfl).bind fun a =>
      safe_pure fun v hP => ⟨congrArg _ hP.1, hP.2⟩
  refine safe_and fun hdigest => ?_
  split_ifs with hne
  · exact safe_fail _
  · rw [ne_eq, not_not] at hne
    exact safe_pure fun v hP => ⟨bytes, ⟨hpos, htotal, hdigest ▸ hne, hdigest⟩, hP⟩

omit hid in
theorem safe_dropSnapshot (name : String) (P : Archive → Prop) :
    Safe C P (dropSnapshot name) fun _ => P := by
  have hremove : ∀ P, Safe C P (removeSnapshot name) fun _ => P := fun P =>
    (safe_ask hC hnodup rfl fun _ _ => rfl).bind fun _ => safe_ofExcept _ fun _ _ _ hP => hP
  refine (hremove P).attempt.bind fun first => ?_
  cases first with
  | ok a => exact safe_pure fun v hP => hP a rfl
  | error e =>
    refine Safe.bind (R := fun _ _ => True) ?_ fun second => ?_
    · exact ((hremove fun _ => True).attempt).mono (fun _ _ _ => trivial) fun _ _ _ _ => trivial
    · split
      · exact safe_fail e
      · exact safe_fail e
      · exact safe_fail _

theorem safe_writeManifest {document : List (String × Doc)} {snapshot : ByteArray} :
    Safe C (Has pending (twoFiles sqlite snapshot)) (writeManifest pending document) fun _ v =>
      shortPairs document = true ∧ Has pending (twoFiles sqlite snapshot ++
        [("manifest.json", (line (.obj document)).toByteArray)]) v := by
  unfold writeManifest
  split_ifs with hshort
  · exact safe_fail _
  · rw [Bool.not_eq_false] at hshort
    refine (safe_create hC hnodup hid).bind fun _ => (safe_write hC hnodup hid _).bind fun _ => ?_
    exact (safe_ask hC hnodup rfl fun _ _ => rfl).mono (fun _ _ h => h)
      fun _ _ _ h => ⟨hshort, h⟩

/-- A directory that is filled is a valid backup under the name. -/
theorem safe_fill (c : Settings) (t : Calendar.DateTime) :
    Safe C (Has pending []) (fill c t pending) fun _ v =>
      ∃ m : Filled c t, shortPairs m.document = true ∧ Has pending m.files v := by
  refine (safe_backupSqlite hC hnodup hid).bind fun details => safe_exists fun sqlite => ?_
  refine safe_and fun ⟨hinspected, hversion⟩ => ?_
  refine (safe_ask hC hnodup rfl fun _ _ => rfl).bind fun collection => ?_
  refine (safe_ofExcept _ (R := fun info v => info.Valid ∧
    Has pending [("memory.sqlite3", sqlite)] v) fun info v h hP =>
      ⟨valid_collectionInfo h, hP⟩).bind fun info => safe_and fun hinfo => ?_
  refine (safe_ask hC hnodup rfl fun _ _ => rfl).bind fun created => ?_
  refine (safe_ofExcept _ (R := fun answer v => answer.Valid ∧
    Has pending [("memory.sqlite3", sqlite)] v) fun answer v h hP =>
      ⟨valid_createSnapshot h, hP⟩).bind fun answer => safe_and fun hanswer => ?_
  refine (safe_always (safe_fetchSnapshot hC hnodup hid)
    (fun _ => safe_dropSnapshot hC hnodup _ _) (safe_dropSnapshot hC hnodup _ _)).bind
    fun result => safe_exists fun snapshot => ?_
  obtain ⟨downloaded, digest⟩ := result
  refine safe_and fun ⟨hpos, hdownloaded, hchecksum, hdigest⟩ => ?_
  dsimp only at hdigest hdownloaded ⊢
  subst hdigest
  refine (safe_read_file hC hnodup snapshot rfl).bind fun read =>
    safe_and fun hread => ?_
  subst hread
  split_ifs with hsize
  · exact safe_fail _
  refine (safe_read_file hC hnodup sqlite rfl).bind fun read' =>
    safe_and fun hread' => ?_
  subst hread'
  refine (safe_writeManifest hC hnodup hid).bind fun _ => safe_and fun hshort => ?_
  refine (safe_ask hC hnodup rfl fun _ _ => rfl).mono (fun _ _ h => h) fun _ v _ hP => ?_
  exact ⟨⟨read', read, details, info, answer, hinspected, hversion, hinfo, hanswer, hchecksum,
    hpos⟩, hshort, hP⟩

end aside

/-! ## Names -/

theorem isBackupName_head (h : isBackupName name = true) : ∃ rest, toChars name = 'o' :: rest := by
  unfold isBackupName at h
  have hshape : backupShape = (· == 'o') :: backupShape.tail := by
    unfold backupShape
    rw [toChars_eq]
    rfl
  rw [hshape] at h
  generalize toChars name = l at h
  cases l with
  | nil => cases h
  | cons c rest =>
    have hfirst : (c == 'o') = true := (Bool.and_eq_true_iff.1 h).1
    exact ⟨rest, by rw [beq_iff_eq.1 hfirst]⟩

theorem isBackupName_hidden (head rest : String) (h : (toChars head).head? = some '.') :
    isBackupName (head ++ rest) = false := by
  by_contra hne
  obtain ⟨rest', hrest⟩ := isBackupName_head (Bool.eq_true_of_not_eq_false hne)
  rw [toChars_eq, String.toList_append, ← toChars_eq] at hrest
  cases hl : toChars head with
  | nil =>
    rw [hl] at h
    cases h
  | cons c l =>
    rw [hl] at h hrest
    obtain rfl := Option.some.inj h
    exact absurd (List.cons.inj hrest).1 (by decide)

theorem isBackupName_pendingName (id token : String) :
    isBackupName (pendingName id token) = false := by
  unfold pendingName
  rw [String.append_assoc, String.append_assoc]
  exact isBackupName_hidden _ _ (by rw [toChars_eq]; rfl)

theorem isBackupName_quarantineName (id token : String) :
    isBackupName (quarantineName id token) = false := by
  unfold quarantineName
  rw [String.append_assoc, String.append_assoc]
  exact isBackupName_hidden _ _ (by rw [toChars_eq]; rfl)

theorem isBackupName_tombstoneName (id token : String) :
    isBackupName (tombstoneName id token) = false := by
  unfold tombstoneName
  rw [String.append_assoc, String.append_assoc]
  exact isBackupName_hidden _ _ (by rw [toChars_eq]; rfl)

theorem isPending_of_isBackupName (h : isBackupName name = true) : isPending name = false := by
  obtain ⟨rest, hrest⟩ := isBackupName_head h
  unfold isPending
  rw [hrest, toChars_eq]
  rfl

theorem ne_of_isBackupName {m : String} (hn : isBackupName n = true) (hm : isBackupName m = false) :
    n ≠ m := by
  rintro rfl
  rw [hm] at hn
  cases hn

/-! ## Publishing -/

variable {v₀ : Archive} {new : String}

theorem early_around {v : Archive} (h : Early v₀ v) : Around v₀ new v :=
  ⟨h.1, .inl h.2⟩

theorem Around.nodup {v : Archive} (h : Around v₀ new v) : v.names.Nodup :=
  h.1.nodup

/-- The filled directory gets its published name. -/
theorem safe_replace_pending [LawfulHost] {pending : String}
    (hpending : isBackupName pending = false) (hid : isBackupName (backupId t) = true)
    (m : Filled c t) (hshort : shortPairs m.document = true) :
    Safe (Around v₀ (backupId t)) (fun v => Early v₀ v ∧ Has pending m.files v)
      (archiveOp (.replace pending (backupId t))) fun _ => Added v₀ (backupId t) := by
  refine safe_op (fun x v hv _ => hv) fun x v hv hP => ?_
  obtain ⟨hearly, hfiles⟩ := hP
  unfold ArchiveOp.run
  dsimp only
  split_ifs with hnames
  · have hfresh : v₀.folder (backupId t) = none := by
      rw [← hearly.2 _ hid]
      exact folder_eq_none.2 hnames.2
    have hfolder := folder_rename hv.nodup pending hnames.2
    have hnew : (v.rename pending (backupId t)).folder (backupId t) = some m.files := by
      rw [hfolder, if_pos rfl]
      exact hfiles
    have hothers : ∀ n, isBackupName n = true → n ≠ backupId t →
        (v.rename pending (backupId t)).folder n = v.folder n := by
      intro n hn hne
      rw [hfolder, if_neg hne, if_neg (ne_of_isBackupName hn hpending)]
    have hadded : Added v₀ (backupId t) (v.rename pending (backupId t)) :=
      ⟨hfresh, hnew ▸ rfl, fun n hn hne => (hothers n hn hne).trans (hearly.2 n hn)⟩
    refine ⟨⟨⟨nodup_rename hv.nodup hnames.2, fun n files hn h => ?_⟩,
      .inr ⟨hfresh, hadded.present⟩⟩, fun _ _ => hadded⟩
    by_cases hne : n = backupId t
    · subst hne
      rw [hnew] at h
      exact ⟨_, Option.some.inj h ▸ verifyBackup_ok m hid hshort⟩
    · rw [hothers n hn hne] at h
      exact hv.1.accepted n files hn h
  · exact ⟨hv, fun a ha => by cases ha⟩

theorem safe_attempt_reading (hnew : isBackupName new = true)
    (hp : Asks (fun o : ArchiveOp => ∀ n ∈ o.touches, isBackupName n = false) p) :
    Safe (Around v₀ new) (Added v₀ new) (Prog.attempt p) fun _ => Added v₀ new :=
  safe_aside (framed_around v₀ hnew) (fun _ => Around.nodup) (framed_added v₀ hnew) hp.attempt

variable {A : ArchiveOp → Prop}

theorem asks_archiveOp (h : A o) : Asks A (archiveOp o) :=
  (asks_perform h).bind fun _ => asks_ofExcept _

theorem not_touched (h : o.touches = []) : ∀ n ∈ o.touches, isBackupName n = false := by
  rw [h]
  exact fun n hn => by cases hn

theorem rename_backup {v : Archive} (hv : Inv v) (name : String) {other : String}
    (hother : isBackupName other = false) (hnames : other ∉ v.names) :
    Inv (v.rename name other) ∧ ∀ n, isBackupName n = true →
      (v.rename name other).folder n = if n = name then none else v.folder n := by
  have hfolder : ∀ n, isBackupName n = true →
      (v.rename name other).folder n = if n = name then none else v.folder n := by
    intro n hn
    rw [folder_rename hv.nodup name hnames, if_neg (ne_of_isBackupName hn hother)]
  refine ⟨⟨nodup_rename hv.nodup hnames, fun n files hn h => ?_⟩, hfolder⟩
  rw [hfolder n hn] at h
  split_ifs at h
  exact hv.accepted n files hn h

/-- The verification leaves the backup, or moves it aside. -/
theorem safe_verifyPublished (hnew : isBackupName new = true) :
    Safe (Around v₀ new) (Added v₀ new) (verifyPublished new) fun _ => Added v₀ new := by
  have hC := framed_around v₀ hnew
  have hread : Asks (fun o : ArchiveOp => ∀ n ∈ o.touches, isBackupName n = false)
      (do
        let files : Folder ← archiveOp (.inspect new)
        Prog.ofExcept (verifyBackup new files)) :=
    (asks_archiveOp (not_touched rfl)).bind fun _ => asks_ofExcept _
  refine (safe_attempt_reading hnew hread).bind fun verified => ?_
  split
  · exact safe_pure fun _ h => h
  · exact safe_fail _
  · exact safe_fail _
  · refine (safe_ask hC (fun _ => Around.nodup) rfl fun _ _ => rfl).bind fun token => ?_
    refine Safe.bind (R := fun _ _ => True) ?_ fun _ =>
      (safe_ask hC (fun _ => Around.nodup) rfl fun _ _ => rfl).bind fun _ => safe_fail _
    refine safe_op (fun x v hv _ => hv) fun x v hv hP => ⟨?_, fun _ _ => trivial⟩
    unfold ArchiveOp.run
    dsimp only
    split_ifs with hnames
    · obtain ⟨hinv, hfolder⟩ := rename_backup hv.1 new
        (isBackupName_quarantineName new token) hnames.2
      refine ⟨hinv, .inl fun n hn => ?_⟩
      change (v.rename _ _).folder n = _
      rw [hfolder n hn]
      split_ifs with hne
      · rw [hne, hP.fresh]
      · exact hP.others n hn hne
    · exact hv

/-- The backup is filled and published: nothing else changes. -/
theorem safe_publish [LawfulHost] (c : Settings) (t : Calendar.DateTime)
    (hid : isBackupName (backupId t) = true) {pending : String}
    (hpending : isBackupName pending = false) :
    Safe (Around v₀ (backupId t)) (Early v₀) (publish c t pending) fun _ =>
      Added v₀ (backupId t) := by
  have hC := framed_around v₀ hid
  refine (safe_ask hC (fun _ => Around.nodup) rfl fun _ _ => rfl).bind fun _ => ?_
  refine (safe_ask hC (fun _ => Around.nodup) rfl fun _ _ => rfl).bind fun present => ?_
  split_ifs
  · exact safe_fail _
  have hearly := framed_early v₀
  have hnodup : ∀ v, Early v₀ v → v.names.Nodup := fun v hv => hv.1.nodup
  have hmkdir : Safe (Early v₀) (fun _ => True) (archiveOp (.mkdir pending))
      fun _ => Has pending [] := by
    refine safe_touch hearly hnodup (fun n hn => List.mem_singleton.1 hn ▸ hpending)
      fun x v a hv _ ha => ?_
    unfold ArchiveOp.run at ha ⊢
    dsimp only at ha ⊢
    split_ifs at ha ⊢ with hnames
    exact (folder_mkdir hnames pending).trans (if_pos rfl)
  refine ((hmkdir.weaken fun _ => early_around).mono (fun _ _ h => ⟨h, trivial⟩)
    fun _ _ _ h => h).bind fun _ => ?_
  refine ((safe_fill hearly hnodup hpending c t).weaken fun _ => early_around).bind fun _ => ?_
  refine Safe.bind (R := fun _ => Added v₀ (backupId t)) ?_ fun _ =>
    (safe_ask hC (fun _ => Around.nodup) rfl fun _ _ => rfl).bind fun _ =>
      safe_verifyPublished hid
  rintro v hv ⟨hv', m, hshort, hfiles⟩
  exact safe_replace_pending hpending hid m hshort v hv ⟨hv', hfiles⟩

/-! ## Pruning -/

/-- What the pruning has done: the expired backups are gone, those that it has not come to yet
apart, and the others are there. -/
structure Pruned (v₀ : Archive) (new : String) (expired rest : List String) (v : Archive) :
    Prop where
  fresh : v₀.folder new = none
  present : (v.folder new).isSome
  kept : ∀ n, isBackupName n = true → n ≠ new → n ∉ expired → v.folder n = v₀.folder n
  gone : ∀ n, isBackupName n = true → n ∈ expired → n ∉ rest → v.folder n = none

theorem framed_pruned (v₀ : Archive) {new : String} (hnew : isBackupName new = true)
    (expired rest : List String) : Framed (Pruned v₀ new expired rest) := by
  intro v w hv hw
  exact ⟨hv.fresh, (frame_backup hw hnew).symm ▸ hv.present,
    fun n hn hne hnot => (frame_backup hw hn).trans (hv.kept n hn hne hnot),
    fun n hn hmem hnot => (frame_backup hw hn).trans (hv.gone n hn hmem hnot)⟩

theorem asks_eachInTurn (l : List γ) (h : ∀ c, Asks A (f c)) : Asks A (eachInTurn f l) := by
  induction l with
  | nil => exact asks_pure ()
  | cons c l ih => exact (h c).bind fun _ => ih

theorem asks_rmtree (h : isBackupName name = false) :
    Asks (fun o : ArchiveOp => ∀ n ∈ o.touches, isBackupName n = false) (rmtree name) := by
  have hname : ∀ n ∈ [name], isBackupName n = false := fun n hn =>
    List.mem_singleton.1 hn ▸ h
  refine (asks_archiveOp (not_touched rfl)).bind fun files => ?_
  refine (asks_eachInTurn _ fun file => asks_archiveOp hname).bind fun _ => ?_
  exact asks_archiveOp hname

theorem safe_pruneOne (hnew : isBackupName new = true) {expired rest : List String}
    (hname : name ≠ new) (hmem : name ∈ expired) :
    Safe (Around v₀ new) (Pruned v₀ new expired (name :: rest)) (pruneOne name) fun _ =>
      Pruned v₀ new expired rest := by
  have hC := framed_around v₀ hnew
  refine (safe_ask hC (fun _ => Around.nodup) rfl fun _ _ => rfl).bind fun token => ?_
  have htomb := isBackupName_tombstoneName name token
  refine Safe.bind (R := fun _ => Pruned v₀ new expired rest) ?_ fun _ =>
    safe_aside hC (fun _ => Around.nodup) (framed_pruned v₀ hnew expired rest)
      (asks_rmtree htomb)
  refine safe_op (fun x v hv _ => hv) fun x v hv hP => ?_
  unfold ArchiveOp.run
  dsimp only
  split_ifs with hnames
  · obtain ⟨hinv, hfolder⟩ := rename_backup hv.1 name htomb hnames.2
    have hpresent : ((v.rename name (tombstoneName name token)).folder new).isSome := by
      rw [hfolder new hnew, if_neg hname.symm]
      exact hP.present
    refine ⟨⟨hinv, .inr ⟨hP.fresh, hpresent⟩⟩, fun _ _ => ⟨hP.fresh, hpresent,
      fun n hn hne hnot => ?_, fun n hn hin hnot => ?_⟩⟩
    · change (v.rename _ _).folder n = _
      rw [hfolder n hn, if_neg fun heq : n = name => hnot (heq ▸ hmem)]
      exact hP.kept n hn hne hnot
    · change (v.rename _ _).folder n = _
      rw [hfolder n hn]
      split_ifs with heq
      · rfl
      · exact hP.gone n hn hin fun h => (List.mem_cons.1 h).elim heq hnot
  · exact ⟨hv, fun a ha => by cases ha⟩

def Archive.published (v : Archive) : List String :=
  v.names.filter fun name => isBackupName name

theorem mem_published {v : Archive} :
    n ∈ v.published ↔ isBackupName n = true ∧ (v.folder n).isSome := by
  unfold Archive.published
  rw [List.mem_filter, mem_names, and_comm]

theorem Inv.nodup_published {v : Archive} (h : Inv v) : v.published.Nodup :=
  h.nodup.filter _

theorem perm_candidates {v : Archive} (h₀ : Inv v₀) (hv : Inv v) (hnew : isBackupName new = true)
    (h : Added v₀ new v) : (candidates v.names new).Perm v₀.published := by
  refine (List.perm_insertionSort _ _).trans ?_
  refine (List.perm_ext_iff_of_nodup (hv.nodup.filter _) h₀.nodup_published).2 fun n => ?_
  rw [mem_published, List.mem_filter, mem_names, Bool.and_eq_true, Bool.and_eq_true,
    decide_eq_true_eq, Bool.not_eq_true']
  constructor
  · rintro ⟨hsome, ⟨hne, -⟩, hn⟩
    rw [h.others n hn hne] at hsome
    exact ⟨hn, hsome⟩
  · rintro ⟨hn, hsome⟩
    have hne : n ≠ new := by
      rintro rfl
      rw [h.fresh] at hsome
      cases hsome
    exact ⟨(h.others n hn hne).symm ▸ hsome, ⟨hne, isPending_of_isBackupName hn⟩, hn⟩

/-- What a run that succeeds leaves: the new backup, and the newest of the others. -/
structure Retained (retain : ℕ) (v₀ : Archive) (new : String) (v : Archive) : Prop where
  fresh : v₀.folder new = none
  present : (v.folder new).isSome
  others : ∀ n, isBackupName n = true → n ≠ new → v.folder n =
    if n ∈ (Retention.newestFirst v₀.published).take (retain - 1) then v₀.folder n else none

theorem mem_take_newestFirst {l : List String} (h : l.Nodup) {x : String} {n : ℕ} :
    x ∈ (Retention.newestFirst l).take n ↔ x ∈ l ∧ Retention.above x l < n := by
  have hsplit : x ∈ (Retention.newestFirst l).take n ↔
      x ∈ l ∧ x ∉ (Retention.newestFirst l).drop n := by
    have hnodup := Retention.nodup_newestFirst h
    rw [← List.take_append_drop n (Retention.newestFirst l), List.nodup_append] at hnodup
    rw [← Retention.mem_newestFirst (l := l)]
    conv_rhs => rw [← List.take_append_drop n (Retention.newestFirst l), List.mem_append]
    constructor
    · intro hx
      refine ⟨.inl hx, fun hdrop => ?_⟩
      rw [List.take_append_drop] at hdrop
      exact hnodup.2.2 x hx x hdrop rfl
    · rintro ⟨hx | hx, hnot⟩
      · exact hx
      · rw [List.take_append_drop] at hnot
        exact absurd hx hnot
  rw [hsplit, Retention.mem_drop_newestFirst h]
  constructor
  · rintro ⟨hx, hnot⟩
    exact ⟨hx, by_contra fun hlt => hnot ⟨hx, Nat.le_of_not_lt hlt⟩⟩
  · rintro ⟨hx, hlt⟩
    exact ⟨hx, fun h => absurd h.2 (Nat.not_le_of_lt hlt)⟩

variable {retain : ℕ}

theorem safe_prune (hretain : 1 ≤ retain) (h₀ : Inv v₀) (hnew : isBackupName new = true) :
    Safe (Around v₀ new) (Added v₀ new) (prune retain new) fun _ => Retained retain v₀ new := by
  have hC := framed_around v₀ hnew
  have hiter : Safe (Around v₀ new) (Added v₀ new) (archiveOp .iterdir) fun names v =>
      (candidates names new).Perm v₀.published ∧ Added v₀ new v := by
    refine safe_read (fun _ _ => rfl) (fun _ _ => rfl) fun x v a hv hP ha => ?_
    obtain rfl := Except.ok.inj ha
    exact ⟨perm_candidates h₀ hv.1 hnew hP, hP⟩
  refine hiter.bind fun names => safe_and fun hperm => ?_
  dsimp only
  generalize hl : candidates names new = l at hperm
  have hsorted : l = Retention.oldestFirst v₀.published := by
    refine List.Perm.eq_of_pairwise' (r := (· ≤ ·)) ?_ (List.pairwise_insertionSort _ _)
      (hperm.trans (List.perm_insertionSort _ _).symm)
    rw [← hl]
    exact List.pairwise_insertionSort _ _
  have hexpired : ∀ n, n ∈ l.take (l.length + 1 - retain) ↔
      n ∈ v₀.published ∧ retain - 1 ≤ Retention.above n v₀.published := by
    intro n
    have hlen : l.length + 1 - retain = v₀.published.length - (retain - 1) := by
      rw [hperm.length_eq]
      omega
    rw [hlen, hsorted]
    exact Retention.mem_take_oldestFirst h₀.nodup_published
  generalize l.take (l.length + 1 - retain) = expired at hexpired
  have hne : ∀ n ∈ expired, v₀.folder new = none → n ≠ new := by
    rintro n hn hfresh rfl
    have hsome := (mem_published.1 ((hexpired n).1 hn).1).2
    rw [hfresh] at hsome
    cases hsome
  have hretained : ∀ v, Pruned v₀ new expired [] v → Retained retain v₀ new v := by
    intro v hv
    refine ⟨hv.fresh, hv.present, fun n hn hne => ?_⟩
    split_ifs with hmem
    · refine hv.kept n hn hne fun hin => ?_
      have hlt := ((mem_take_newestFirst h₀.nodup_published).1 hmem).2
      exact absurd ((hexpired n).1 hin).2 (Nat.not_le_of_lt hlt)
    · by_cases hin : n ∈ expired
      · exact hv.gone n hn hin (List.not_mem_nil)
      · rw [hv.kept n hn hne hin, folder_eq_none]
        intro hnames
        have hpub := mem_published.2 ⟨hn, mem_names.1 hnames⟩
        rw [mem_take_newestFirst h₀.nodup_published] at hmem
        rw [hexpired] at hin
        exact hin ⟨hpub, Nat.le_of_not_lt fun hlt => hmem ⟨hpub, hlt⟩⟩
  intro v hv hP
  have hloop : Safe (Around v₀ new) (Pruned v₀ new expired expired)
      (eachInTurn pruneOne expired) fun _ => Pruned v₀ new expired [] :=
    safe_eachInTurn (Pruned v₀ new expired) expired fun n rest hn =>
      safe_pruneOne hnew (hne n hn hP.fresh) hn
  have hstart : Pruned v₀ new expired expired v :=
    ⟨hP.fresh, hP.present, fun n hn hne _ => hP.others n hn hne,
      fun n _ hin hnot => absurd hin hnot⟩
  refine (hloop.bind fun _ => ?_) v hv hstart
  split_ifs
  · exact safe_pure hretained
  · exact (safe_ask hC (fun _ => Around.nodup) rfl fun _ _ => rfl).bind fun _ =>
      safe_pure hretained

/-! ## Whole runs -/

/-- A backup, wherever it stops. -/
theorem safe_createBackup [LawfulHost] (c : Settings) (t : Calendar.DateTime) (h₀ : Inv v₀) :
    Wp performArchive (fun w => Inv w ∧ (SameBackups v₀ w ∨ isBackupName (backupId t) = true ∧
        v₀.folder (backupId t) = none ∧ (w.folder (backupId t)).isSome))
      (createBackup c t) (fun r w => ∀ report, r = .ok report →
        report.backupId = backupId t ∧ isBackupName (backupId t) = true ∧
          Retained c.retentionCount v₀ (backupId t) w) v₀ := by
  have hearly : Early v₀ v₀ := ⟨h₀, fun _ _ => rfl⟩
  by_cases hid : isBackupName (backupId t) = true
  · have hC := framed_around v₀ hid
    have hmain : Safe (Around v₀ (backupId t)) (Early v₀) (createBackup c t) fun report w =>
        report.backupId = backupId t ∧ Retained c.retentionCount v₀ (backupId t) w := by
      unfold createBackup
      dsimp only
      refine (safe_ask hC (fun _ => Around.nodup) rfl fun _ _ => rfl).bind fun _ => ?_
      rw [if_neg (by rw [hid]; decide)]
      refine (safe_ask hC (fun _ => Around.nodup) rfl fun _ _ => rfl).bind fun token => ?_
      have hpending := isBackupName_pendingName (backupId t) token
      generalize pendingName (backupId t) token = pending at hpending ⊢
      refine (safe_publish c t hid hpending).attempt.bind fun published => ?_
      have hdrop : Safe (Around v₀ (backupId t)) (fun _ => True) (dropPending pending)
          fun _ _ => True := by
        refine safe_aside hC (fun _ => Around.nodup) (fun _ _ _ _ => trivial) ?_
        refine (asks_archiveOp (not_touched rfl)).bind fun present => ?_
        split_ifs
        · refine (asks_rmtree hpending).attempt.bind fun r => ?_
          split
          · exact asks_pure ()
          · exact asks_ofExcept _
        · exact asks_pure ()
      split
      · exact safe_fail _
      · exact (hdrop.mono (fun _ _ _ => trivial) fun _ _ _ h => h).bind fun _ => safe_fail _
      · rename_i verified
        refine Safe.bind (R := fun _ => Retained c.retentionCount v₀ (backupId t)) ?_ fun removed =>
          safe_pure fun w hw => ⟨rfl, hw⟩
        exact (safe_prune c.retention_pos h₀ hid).mono (fun w _ hw => hw _ rfl)
          fun _ _ _ h => h
    refine ((hmain v₀ (early_around hearly) hearly).weaken fun w hw => ?_).mono
      fun r w _ hr report hreport => ⟨(hr.2 report hreport).1, hid, (hr.2 report hreport).2⟩
    exact ⟨hw.1, hw.2.imp_right fun h => ⟨hid, h⟩⟩
  · unfold createBackup
    dsimp only
    rw [if_pos (Bool.eq_false_of_not_eq_true hid)]
    have hread : Asks (fun o : ArchiveOp => ∀ n ∈ o.touches, isBackupName n = false)
        (archiveOp .prerequisites) := asks_archiveOp (not_touched rfl)
    have hsafe : Safe (Early v₀) (fun _ => True)
        (archiveOp .prerequisites >>= fun _ : Unit =>
          (Prog.fail (.backup "generated backup identifier is invalid") :
            ArchiveProg BackupReport)) fun _ _ => False :=
      (safe_aside (framed_early v₀) (fun v hv => hv.1.nodup) (fun _ _ _ _ => trivial) hread).bind
        fun _ => safe_fail _
    refine ((hsafe v₀ hearly trivial).weaken fun w hw => ⟨hw.1, .inl hw.2⟩).mono
      fun r w _ hr report hreport => (hr.2 report hreport).elim

/-- What sequences of backups, each of which may stop anywhere, leave in the destination. -/
inductive History : Archive → Prop
  | empty : History ⟨[]⟩
  | run {v w : Archive} (c : Settings) (t : Calendar.DateTime) :
    History v → Reaches performArchive (createBackup c t) v w → History w

theorem History.inv [LawfulHost] {v : Archive} (h : History v) : Inv v := by
  induction h with
  | empty => exact ⟨List.nodup_nil, fun n files _ h => by cases h⟩
  | run c t _ hr ih => exact ((safe_createBackup c t ih).crash hr).1

/-- The backups that a run which succeeds leaves. -/
theorem Retained.published {v : Archive} (h : Retained retain v₀ new v) (h₀ : Inv v₀) (hv : Inv v)
    (hnew : isBackupName new = true) :
    v.published.Perm (new :: (Retention.newestFirst v₀.published).take (retain - 1)) := by
  have hout : new ∉ v₀.published := by
    intro hmem
    have hsome := (mem_published.1 hmem).2
    rw [h.fresh] at hsome
    cases hsome
  have htake : ∀ n ∈ (Retention.newestFirst v₀.published).take (retain - 1), n ∈ v₀.published :=
    fun n hn => Retention.mem_newestFirst.1 (List.mem_of_mem_take hn)
  refine (List.perm_ext_iff_of_nodup hv.nodup_published (List.nodup_cons.2
    ⟨fun hmem => hout (htake new hmem), (Retention.nodup_newestFirst h₀.nodup_published).sublist
      (List.take_sublist _ _)⟩)).2 fun n => ?_
  rw [mem_published, List.mem_cons]
  constructor
  · rintro ⟨hn, hsome⟩
    by_cases hne : n = new
    · exact .inl hne
    · rw [h.others n hn hne] at hsome
      split_ifs at hsome with hmem
      · exact .inr hmem
      · cases hsome
  · rintro (rfl | hmem)
    · exact ⟨hnew, h.present⟩
    · have hpub := htake n hmem
      obtain ⟨hn, hsome⟩ := mem_published.1 hpub
      have hne : n ≠ new := by
        rintro rfl
        exact hout hpub
      rw [h.others n hn hne, if_pos hmem]
      exact ⟨hn, hsome⟩

/-- After every history of interrupted backups each published directory is accepted; a run that
has not published its backup has removed none; and one that succeeds leaves its own and the
newest others, as many as the retention allows, as they were. -/
theorem backups_retained [LawfulHost] {v : Archive} (h : History v) :
    (∀ name files, isBackupName name = true → v.folder name = some files →
      ∃ report, verifyBackup name files = .ok report) ∧
    ∀ c t,
      (∀ w, Reaches performArchive (createBackup c t) v w →
        (∀ name, isBackupName name = true → w.folder name = v.folder name) ∨
          v.folder (backupId t) = none ∧ (w.folder (backupId t)).isSome) ∧
      ∀ report w, Finishes performArchive (createBackup c t) v (.ok report) w →
        w.published.length = min c.retentionCount (v.published.length + 1) ∧
        w.published.Perm (report.backupId ::
          (Retention.newestFirst v.published).take (c.retentionCount - 1)) ∧
        ∀ name ∈ (Retention.newestFirst v.published).take (c.retentionCount - 1),
          w.folder name = v.folder name := by
  have hinv := h.inv
  refine ⟨hinv.accepted, fun c t => ⟨fun w hr => ?_, fun report w hf => ?_⟩⟩
  · exact ((safe_createBackup c t hinv).crash hr).2.imp_right fun h => h.2
  · obtain ⟨hid, hname, hretained⟩ := (safe_createBackup c t hinv).finish hf report rfl
    have hw := ((safe_createBackup c t hinv).crash (reaches_of_finishes hf)).1
    have hperm := hretained.published hinv hw hname
    have hpos := c.retention_pos
    refine ⟨?_, hid ▸ hperm, fun n hn => ?_⟩
    · rw [hperm.length_eq, List.length_cons, List.length_take, Retention.length_newestFirst]
      omega
    · have hpub := Retention.mem_newestFirst.1 (List.mem_of_mem_take hn)
      obtain ⟨hbackup, hsome⟩ := mem_published.1 hpub
      have hne : n ≠ backupId t := by
        rintro rfl
        rw [hretained.fresh] at hsome
        cases hsome
      rw [hretained.others n hbackup hne, if_pos hn]

end archives

/-! ## Three backups, of which two are kept -/

namespace Sample

/-- A host with one digest, where every file but the empty one is a catalogue. -/
scoped instance fullHost : Host where
  Flt := Unit
  text := OpsOrchestrator.Sample.zeroText
  sha256 _ := "e3b0c44298fc1c149afbf4c8996fb92427ae41e4649b934ca495991b7852b855"
  sqliteIntegrity bytes := if 1 ≤ bytes.size then some ⟨"1", 3, 1⟩ else none
  fromisoformat _ := true

theorem lawfulHost_full : LawfulHost where
  float := OpsOrchestrator.Sample.lawfulFloatText_zero
  isSha256_sha256 _ := by
    change isSha256 "e3b0c44298fc1c149afbf4c8996fb92427ae41e4649b934ca495991b7852b855" = true
    unfold isSha256
    rw [toChars_eq]
    decide
  size_pos _ _ h := (Option.ite_none_right_eq_some.1 h).1
  fromisoformat _ := rfl

def settings : Settings where
  retentionCount := 2
  maxSnapshotBytes := 1048576
  collection := "ops_memory"
  retention_pos := by decide
  collection_ok := by
    unfold isCollection
    rw [toChars_eq]
    decide

def instant (n : ℕ) : Calendar.DateTime :=
  ⟨(63900000000000000 + n) % Calendar.maxMicros, Nat.mod_lt _ (by decide)⟩

def answering (answer : String) : ArchiveChoice where
  fault := none
  copied := ⟨⟨#[1]⟩, fun details h => by
    obtain rfl := Option.some.inj ((if_pos (by decide)).symm.trans h)
    rfl⟩
  bytes := ⟨#[2]⟩
  answer := answer
  token := "0badcafe"

/-- The answers to the questions of a backup: on the points, on the snapshot and on its removal. -/
def answers : List ArchiveChoice :=
  List.replicate 9 (answering
    ("\x7b\"status\":\"ok\",\"result\":\x7b\"points_count\":3,\"name\":" ++
    "\"a.snapshot\",\"size\":1,\"creation_time\":\"now\",\"checksum\":\"e3b0c44298fc1c149afb" ++
    "f4c8996fb92427ae41e4649b934ca495991b7852b855\"\x7d\x7d")) ++
  List.replicate 20 (answering "\x7b\"status\":\"ok\",\"result\":true\x7d")

def pending (n : ℕ) : String :=
  pendingName (backupId (instant n)) "0badcafe"

def filled (n : ℕ) (v : Archive) : Option Archive :=
  match play performArchive (fill settings (instant n) (pending n)) answers
      ⟨v.entries ++ [(pending n, [])]⟩ with
  | some (.ok _, w) => some w
  | _ => none

def pruned (n : ℕ) (v : Archive) : Option (ℕ × Archive) :=
  match play performArchive (prune settings.retentionCount (backupId (instant n))) answers v with
  | some (.ok removed, w) => some (removed, w)
  | _ => none

/-- The destination after the backup, if its names are new. -/
def backedUp (n : ℕ) (v : Archive) : Option (ℕ × Archive) := do
  let w ← filled n v
  if isBackupName (backupId (instant n)) = true ∧ backupId (instant n) ∉ v.names ∧
      pending n ∉ v.names ∧ pending n ∈ w.names ∧ backupId (instant n) ∉ w.names then
    pruned n (w.rename (pending n) (backupId (instant n)))
  else none

theorem finishes_op {o : ArchiveOp} {a : o.Reply} {v w : Archive} (x : String)
    (h : o.run (answering x) v = (.ok a, w)) :
    Finishes (I := archiveInterface) performArchive (archiveOp o) v (.ok a) w := by
  refine ⟨answering x, ?_⟩
  change Finishes (I := archiveInterface) performArchive (Prog.ofExcept (o.run (answering x) v).1)
    (o.run (answering x) v).2 (.ok a) w
  rw [h]
  exact ⟨rfl, rfl⟩

/-- A backup that nothing stops returns. -/
theorem finishes_backedUp {n removed : ℕ} {v w : Archive} (hv : Inv v)
    (h : backedUp n v = some (removed, w)) : ∃ report,
      Finishes performArchive (createBackup settings (instant n)) v (.ok report) w := by
  have := lawfulHost_full
  obtain ⟨w₁, hfilled, h⟩ := Option.bind_eq_some_iff.1 h
  split_ifs at h with hnames
  obtain ⟨hid, hfresh, hpending, hthere, hfree⟩ := hnames
  unfold filled at hfilled
  split at hfilled
  case h_2 => cases hfilled
  rename_i hfill
  obtain rfl := (Option.some.inj hfilled).symm
  unfold pruned at h
  split at h
  case h_2 => cases h
  rename_i hprune
  cases h
  have hfill := finishes_of_play hfill
  generalize hu : (⟨v.entries ++ [(pending n, [])]⟩ : Archive) = u at hfill
  have hmkdir : (ArchiveOp.mkdir (pending n)).run (answering "") v = (.ok (), u) :=
    hu ▸ if_neg hpending
  have hinv : Inv u := by
    have hframe : Frame (fun m => isBackupName m = false) v
        ((ArchiveOp.mkdir (pending n)).run (answering "") v).2 :=
      frame_run _ _ hv.nodup fun m hm => List.mem_singleton.1 hm ▸ isBackupName_pendingName _ _
    rw [hmkdir] at hframe
    exact framed_inv v u hv hframe
  have hhas : Has (pending n) [] u := hu ▸ (folder_mkdir hpending _).trans (if_pos rfl)
  -- the manifest that was written is accepted
  have hsafe := safe_fill (framed_early u) (fun _ h => h.1.nodup) (isBackupName_pendingName _ _)
    settings (instant n) u ⟨hinv, fun _ _ => rfl⟩ hhas
  obtain ⟨m, hshort, hfiles⟩ := hsafe.finish hfill _ rfl
  have hnodup := (hsafe.crash (reaches_of_finishes hfill)).1.nodup
  have hfolder : (w₁.rename (pending n) (backupId (instant n))).folder (backupId (instant n)) =
      some m.files := by
    rw [folder_rename hnodup _ hfree, if_pos rfl]
    exact hfiles
  have hinspect : (ArchiveOp.inspect (backupId (instant n))).run (answering "")
      (w₁.rename (pending n) (backupId (instant n))) =
        (.ok m.files, w₁.rename (pending n) (backupId (instant n))) := by
    simp only [ArchiveOp.run, hfolder]
  have hreplace : (ArchiveOp.replace (pending n) (backupId (instant n))).run (answering "") w₁ =
      (.ok (), w₁.rename (pending n) (backupId (instant n))) := if_pos ⟨hthere, hfree⟩
  have hpublish : Finishes performArchive (publish settings (instant n) (pending n)) v
      (.ok ⟨backupId (instant n), m.details.memories⟩)
      (w₁.rename (pending n) (backupId (instant n))) := by
    refine (finishes_op "" rfl).bind ((finishes_op "" rfl).bind ?_)
    rw [if_neg (by simpa using hfresh)]
    refine (finishes_op "" hmkdir).bind (hfill.bind
      ((finishes_op "" hreplace).bind ((finishes_op "" rfl).bind ?_)))
    refine Finishes.bind (Finishes.attempt (r := .ok ⟨_, m.details.memories⟩)
      ((finishes_op "" hinspect).bind ?_)) ⟨rfl, rfl⟩
    rw [verifyBackup_ok m hid hshort]
    exact ⟨rfl, rfl⟩
  refine ⟨⟨backupId (instant n), m.details.memories, removed⟩, (finishes_op "" rfl).bind ?_⟩
  rw [if_neg (by rw [hid]; decide)]
  exact (finishes_op "" rfl).bind
    (hpublish.attempt.bind ((finishes_of_play hprune).bind ⟨rfl, rfl⟩))

theorem threeBackups : ∃ p ∈ backedUp 0 ⟨[]⟩, ∃ q ∈ backedUp 1 p.2, q.2.published.length = 2 ∧
    ∃ r ∈ backedUp 2 q.2, r.1 = 1 := by
  decide +kernel

end Sample

open Sample in
/-- The third backup removes the first one. -/
theorem backups_retained_sample : ∃ v, History v ∧ v.published.length = 2 ∧ ∃ report w,
    Finishes performArchive (createBackup settings (instant 2)) v (.ok report) w ∧
      w.published.length = 2 ∧ w.published.Perm (report.backupId ::
        (Retention.newestFirst v.published).take 1) ∧
      ∀ name files, isBackupName name = true → w.folder name = some files →
        ∃ report, verifyBackup name files = .ok report := by
  have := lawfulHost_full
  obtain ⟨p, hp, q, hq, htwo, r, hr, -⟩ := threeBackups
  have hone : History p.2 := by
    obtain ⟨_, h⟩ := finishes_backedUp History.empty.inv hp
    exact .run _ _ .empty (reaches_of_finishes h)
  have htwice : History q.2 := by
    obtain ⟨_, h⟩ := finishes_backedUp hone.inv hq
    exact .run _ _ hone (reaches_of_finishes h)
  obtain ⟨report, hreport⟩ := finishes_backedUp htwice.inv hr
  obtain ⟨hcount, hperm, -⟩ := ((backups_retained htwice).2 _ _).2 report r.2 hreport
  exact ⟨q.2, htwice, htwo, report, r.2, hreport, hcount.trans (by rw [htwo]; rfl), hperm,
    (backups_retained (htwice.run _ _ (reaches_of_finishes hreport))).1⟩

end OpsArchive
