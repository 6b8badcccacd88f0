import OpsControlPlane.Lib.SpacedScan
import OpsControlPlane.Safety.Credentials
import OpsControlPlane.Safety.Chains
import OpsControlPlane.Release.Audit

/-!
# The audit log stays usable

`readEvents_log` reads a log of chained records back. `Kept` says of a state that each log is such
a text, and that the processes between reading and writing are the only ones at their logs;
`kept_step` keeps it over a step that nothing disturbs, and `log_usable` is the result over runs.
`torn_line_refused` is the kill between two bytes.
-/

namespace OpsAudit

open Text JsonText HashChain
open OpsKeys (Bytes utf8 decodeUtf8 isspace decodeUtf8_utf8)

section audit

variable [Host]

/-! ## One record -/

section sorting

variable {F : Type}

omit [Host]

theorem perm_sortKeysPairs (kvs : List (String × Json F)) :
    (sortKeysPairs kvs).Perm (kvs.map fun kv => (kv.1, sortKeys kv.2)) := by
  induction kvs with
  | nil => exact List.Perm.refl _
  | cons kv kvs ih =>
    rw [sortKeysPairs, insertKey, List.map_cons]
    exact (List.perm_orderedInsert _ _ _).trans (ih.cons _)

/-- Two lists in the order of their keys, without a repeated key, are one list if they have the same
pairs. -/
theorem eq_of_sorted_keys {kvs kvs' : List (String × Json F)} (hnd : (keys kvs).Nodup)
    (hk : (keys kvs).Pairwise (· ≤ ·)) (hk' : (keys kvs').Pairwise (· ≤ ·))
    (hperm : kvs.Perm kvs') : kvs = kvs' := by
  have hinj : ∀ a b, a ∈ kvs → b ∈ kvs' → a.1 ≤ b.1 → b.1 ≤ a.1 → a = b := by
    intro a b ha hb hab hba
    exact List.inj_on_of_nodup_map hnd ha (hperm.mem_iff.2 hb) (le_antisymm hab hba)
  exact List.Perm.eq_of_pairwise hinj (List.pairwise_map.1 hk) (List.pairwise_map.1 hk') hperm

end sorting

section record

variable {timestamp previous : String} {event : AuditEvent}

theorem keys_payload :
    keys (payload timestamp previous event) =
      "schema_version" :: "timestamp" :: "previous_hash" :: keys event.fields :=
  rfl

theorem keys_record :
    keys (record timestamp previous event) =
      keys (payload timestamp previous event) ++ ["event_hash"] := by
  rw [keys, record, List.map_append]
  rfl

theorem nodup_keys_payload : (keys (payload timestamp previous event)).Nodup := by
  have hown : ∀ k ∈ ownKeys, k ∉ keys event.fields := fun k hk hmem => event.foreign k hmem hk
  rw [keys_payload]
  simp only [List.nodup_cons, List.mem_cons, not_or]
  exact ⟨⟨by decide, by decide, hown _ (by decide)⟩, ⟨by decide, hown _ (by decide)⟩,
    hown _ (by decide), event.wf.1⟩

theorem key_ne_event_hash {kv : String × Json Flt} (hkv : kv ∈ payload timestamp previous event) :
    kv.1 ≠ "event_hash" := by
  simp only [payload, List.mem_cons] at hkv
  rcases hkv with rfl | rfl | rfl | hkv
  · exact (by decide : "schema_version" ≠ "event_hash")
  · exact (by decide : "timestamp" ≠ "event_hash")
  · exact (by decide : "previous_hash" ≠ "event_hash")
  · intro h
    refine event.foreign kv.1 (List.mem_map_of_mem hkv) ?_
    rw [h]
    decide

theorem wf_record : Wf (.obj (record timestamp previous event)) := by
  refine ⟨?_, wfPairs_iff.2 ?_⟩
  · rw [keys_record, List.nodup_append]
    refine ⟨nodup_keys_payload, List.nodup_singleton _, ?_⟩
    rintro k hk k' hk' rfl
    obtain ⟨kv, hkv, rfl⟩ := List.mem_map.1 hk
    exact key_ne_event_hash hkv (List.mem_singleton.1 hk')
  · intro kv hkv
    simp only [record, payload, List.cons_append, List.mem_cons, List.mem_append,
      List.not_mem_nil, or_false] at hkv
    rcases hkv with rfl | rfl | rfl | hkv | rfl
    · trivial
    · trivial
    · trivial
    · exact wfPairs_iff.1 event.wf.2 kv hkv
    · trivial

theorem lookup_event_hash :
    (record timestamp previous event).lookup "event_hash" = some (.str
      (Host.sha256 (canonicalJson (.obj (payload timestamp previous event))))) := by
  have hnone : (payload timestamp previous event).lookup "event_hash" = none := by
    rw [List.lookup_eq_none_iff]
    exact fun kv hkv => bne_iff_ne.2 (key_ne_event_hash hkv).symm
  rw [record, List.lookup_append, hnone]
  rfl

theorem lookup_previous_hash :
    (record timestamp previous event).lookup "previous_hash" = some (.str previous) :=
  rfl

theorem unsigned_record :
    unsigned (sortKeysPairs (record timestamp previous event)) =
      sortKeysPairs (payload timestamp previous event) := by
  have hfilter : (unsigned (sortKeysPairs (record timestamp previous event))).Perm
      (sortKeysPairs (payload timestamp previous event)) := by
    refine ((perm_sortKeysPairs _).filter _).trans ((perm_sortKeysPairs _).trans ?_).symm
    have hkeep : ∀ kv ∈ (payload timestamp previous event).map fun kv => (kv.1, sortKeys kv.2),
        decide (kv.1 ≠ "event_hash") = true := by
      intro kv hkv
      obtain ⟨pair, hpair, rfl⟩ := List.mem_map.1 hkv
      have hne : pair.1 ≠ "event_hash" := key_ne_event_hash hpair
      exact decide_eq_true hne
    rw [record, List.map_append, List.filter_append, List.filter_eq_self.2 hkeep]
    exact List.Perm.of_eq (List.append_nil _).symm
  refine eq_of_sorted_keys ?_ ?_ (sorted_keys_sortKeysPairs _) hfilter
  · exact (hfilter.map Prod.fst).nodup_iff.2
      ((keys_sortKeysPairs _).nodup_iff.2 nodup_keys_payload)
  · exact (sorted_keys_sortKeysPairs _).sublist (List.filter_sublist.map _)

theorem checkEvent_record :
    checkEvent previous (sortKeysPairs (record timestamp previous event)) =
      .ok (Host.sha256 (canonicalJson (.obj (payload timestamp previous event)))) := by
  have hcanonical : canonical (.obj (sortKeysPairs (payload timestamp previous event))) =
      canonical (.obj (payload timestamp previous event)) :=
    canonical_sortKeys (.obj (payload timestamp previous event))
  rw [checkEvent, lookup_sortKeysPairs, lookup_sortKeysPairs, lookup_previous_hash,
    lookup_event_hash]
  simp only [Option.map_some, sortKeys, Host.isDigest_sha256, and_self, if_true]
  rw [unsigned_record, canonicalJson, hcanonical, ← canonicalJson, if_pos rfl]

end record

/-! ## A log of records -/

/-- The records of a log: each refers to the hash of the one before it. -/
def auditChain : Chain Dict String where
  prev r :=
    match r.lookup "previous_hash" with
    | some (.str hash) => hash
    | _ => genesis
  own r :=
    match r.lookup "event_hash" with
    | some (.str hash) => hash
    | _ => genesis
  Good _ r := ∃ timestamp previous event, r = record timestamp previous event

/-- The line of a record without its newline. -/
def lineText (r : Dict) : List Char :=
  dumpsSorted (.obj r)

theorem lineText_head (r : Dict) : ∃ s, lineText r = '{' :: s := by
  rw [lineText, dumpsSorted, sortKeys]
  cases sortKeysPairs r with
  | nil => exact ⟨_, rfl⟩
  | cons kv kvs => exact ⟨_, rfl⟩

theorem printed_lineText (r : Dict) : Printed (lineText r) :=
  printed_dumpsSpaced _

theorem flatMap_line (records : List Dict) :
    records.flatMap line =
      utf8 (ofChars (records.flatMap fun r => lineText r ++ ['\n'])) := by
  rw [utf8, ofChars_eq, String.toList_ofList, List.flatMap_assoc]
  congr 1
  funext r
  rw [line, utf8, ofChars_eq, String.toList_ofList, lineText]

omit [Host] in
theorem universalNewlines_of_notMem {l : List Char} (h : '\r' ∉ l) : universalNewlines l = l := by
  induction l with
  | nil => rfl
  | cons c l ih =>
    have hc : c ≠ '\r' := fun hc => h (hc ▸ List.mem_cons_self)
    have hl : '\r' ∉ l := fun hl => h (List.mem_cons_of_mem c hl)
    rw [universalNewlines, ih hl]
    · exact fun s hs _ => hc hs
    · exact hc

variable {r : Dict} {n q : ℕ} {events : List Dict}

theorem readLines_line {previous : String} {lines : List (List Char)} (hgood : auditChain.Good n r)
    (hprev : auditChain.prev r = previous) (hlen : events.length < 100000) :
    readLines events previous (lineText r :: lines) =
      readLines (events ++ [sortKeysPairs r]) (auditChain.own r) lines := by
  obtain ⟨timestamp, prev, event, rfl⟩ := hgood
  obtain rfl : prev = previous := hprev
  obtain ⟨s, hs⟩ := lineText_head (record timestamp prev event)
  have hspace : ¬(lineText (record timestamp prev event)).all isspace = true := by
    rw [hs, List.all_cons, show isspace '{' = false from by decide]
    exact Bool.false_ne_true
  have hown : auditChain.own (record timestamp prev event) =
      Host.sha256 (canonicalJson (.obj (payload timestamp prev event))) := by
    simp only [auditChain, lookup_event_hash]
  have hloads : loads (ofChars (lineText (record timestamp prev event))) =
      some (.obj (sortKeysPairs (record timestamp prev event))) :=
    loads_dumpsSorted wf_record
  rw [readLines, if_neg hspace, if_neg (Nat.not_le_of_lt hlen), hloads, hown]
  simp only [checkEvent_record]

variable {records : List Dict}

theorem readLines_records {previous : String} (hlinked : Linked auditChain n previous records)
    (hlen : events.length + records.length ≤ 100000) : readLines events previous
        ((records.flatMap fun r => lineText r ++ ['\n']).splitOn '\n') =
      .ok (events ++ records.map sortKeysPairs) := by
  induction records generalizing events previous n with
  | nil => simp [readLines]
  | cons r records ih =>
    obtain ⟨hgood, hprev, hlinked⟩ := hlinked
    have hline : '\n' ∉ lineText r := fun hmem =>
      absurd (printed_lineText r '\n' hmem) (by decide)
    rw [List.length_cons] at hlen
    rw [List.flatMap_cons, List.append_assoc, List.singleton_append,
      List.splitOn_append_cons_self_of_not_mem hline, readLines_line hgood hprev (by omega),
      ih hlinked (by rw [List.length_append, List.length_singleton]; omega), List.map_cons,
      List.append_assoc, List.singleton_append]

theorem readEvents_log (hlinked : Linked auditChain 0 genesis records)
    (hlen : records.length ≤ 100000) (hsize : (records.flatMap line).length ≤ 64 * 1024 * 1024) :
    readEvents (.file (records.flatMap line)) = .ok (records.map sortKeysPairs) := by
  have hreturn : '\r' ∉ records.flatMap fun r => lineText r ++ ['\n'] := by
    intro hmem
    obtain ⟨r, -, hr⟩ := List.mem_flatMap.1 hmem
    rcases List.mem_append.1 hr with hr | hr
    · exact absurd (printed_lineText r '\r' hr) (by decide)
    · exact absurd (List.mem_singleton.1 hr) (by decide)
  rw [readEvents, if_neg (Nat.not_lt_of_le hsize), flatMap_line, decodeUtf8_utf8]
  simp only [ofChars_eq, String.toList_ofList]
  rw [universalNewlines_of_notMem hreturn, readLines_records hlinked (by simpa using hlen)]
  rfl

theorem lastHash_map (records : List Dict) :
    lastHash (records.map sortKeysPairs) = tip auditChain genesis records := by
  rcases List.eq_nil_or_concat records with rfl | ⟨init, r, rfl⟩
  · rfl
  · rw [List.concat_eq_append, tip_append, lastHash, List.map_append, List.map_singleton,
      List.getLast?_append, List.getLast?_singleton]
    simp only [Option.some_or, auditChain, lookup_sortKeysPairs]
    rcases r.lookup "event_hash" with _ | v
    · rfl
    · cases v <;> rfl

/-! ## Locks -/

variable {registry : Registry} {s t : State} {p : ℕ}

/-- A process under a lock holds it, and is the only one at its log. -/
structure Held (registry : Registry) (s : State) : Prop where
  locked : ∀ p target, (s.procs p).target = some target → s.locks target.lockPath = some p
  alone : ∀ p q target other, (s.procs p).target = some target →
    (s.procs q).target = some other → target.auditEventsPath = other.auditEventsPath → p = q
  registered : ∀ p target, (s.procs p).target = some target → target ∈ registry.targets

theorem Held.congr (h : Held registry s) (hprocs : ∀ q, (t.procs q).target = (s.procs q).target)
    (hlocks : t.locks = s.locks) : Held registry t := by
  constructor
  · intro p target hp
    rw [hlocks]
    exact h.locked p target ((hprocs p).symm.trans hp)
  · intro p q target other hp hq
    exact h.alone p q target other ((hprocs p).symm.trans hp) ((hprocs q).symm.trans hq)
  · intro p target hp
    exact h.registered p target ((hprocs p).symm.trans hp)

theorem target_update {procs : ℕ → Phase} {phase : Phase} (h : phase.target = (procs p).target)
    (q : ℕ) : (Function.update procs p phase q).target = (procs q).target := by
  by_cases hq : q = p
  · subst hq
    rw [Function.update_self, h]
  · rw [Function.update_of_ne hq]

variable {target : ReleaseTarget}

theorem target_drop (h : ((s.drop p).procs q).target = some target) :
    q ≠ p ∧ (s.procs q).target = some target := by
  by_cases hq : q = p
  · subst hq
    simp [State.drop, Phase.target] at h
  · refine ⟨hq, ?_⟩
    simpa [State.drop, Function.update_of_ne hq] using h

theorem Held.drop (h : Held registry s) (p : ℕ) : Held registry (s.drop p) := by
  constructor
  · intro q target hq
    obtain ⟨hne, hq⟩ := target_drop hq
    have hlock := h.locked q target hq
    have hother : s.locks target.lockPath ≠ some p := by
      rw [hlock]
      exact fun he => hne (Option.some.inj he)
    exact (if_neg hother).trans hlock
  · intro q q' target other hq hq'
    exact h.alone q q' target other (target_drop hq).2 (target_drop hq').2
  · intro q target hq
    exact h.registered q target (target_drop hq).2

/-- A free lock is taken by one more process. -/
theorem Held.call (h : Held registry s) (hmem : target ∈ registry.targets)
    (hfree : s.locks target.lockPath = none) (hlock : ∀ q other, (s.procs q).target = some other →
      other.auditEventsPath = target.auditEventsPath → other.lockPath = target.lockPath)
    (hprocs : t.procs = Function.update s.procs p (.locked target))
    (hlocks : t.locks = Function.update s.locks target.lockPath (some p)) : Held registry t := by
  -- No process is at the log of the target yet : it would hold the lock.
  have hnone : ∀ q other, (s.procs q).target = some other →
      other.auditEventsPath ≠ target.auditEventsPath := by
    intro q other hq hpath
    have hheld := h.locked q other hq
    rw [hlock q other hq hpath, hfree] at hheld
    exact Option.some_ne_none q hheld.symm
  have hcases : ∀ q other, (t.procs q).target = some other →
      q = p ∧ other = target ∨ q ≠ p ∧ (s.procs q).target = some other := by
    intro q other hq
    rw [hprocs] at hq
    by_cases hqp : q = p
    · subst hqp
      rw [Function.update_self] at hq
      exact .inl ⟨rfl, (Option.some.inj hq).symm⟩
    · rw [Function.update_of_ne hqp] at hq
      exact .inr ⟨hqp, hq⟩
  constructor
  · intro q other hq
    rw [hlocks]
    rcases hcases q other hq with ⟨rfl, rfl⟩ | ⟨-, hq⟩
    · exact Function.update_self ..
    · have hheld := h.locked q other hq
      have hne : other.lockPath ≠ target.lockPath := by
        intro he
        rw [he, hfree] at hheld
        exact Option.some_ne_none q hheld.symm
      rw [Function.update_of_ne hne, hheld]
  · intro q q' other other' hq hq' hpath
    rcases hcases q other hq with ⟨rfl, rfl⟩ | ⟨-, hq⟩
    · rcases hcases q' other' hq' with ⟨rfl, rfl⟩ | ⟨-, hq'⟩
      · rfl
      · exact absurd hpath.symm (hnone q' other' hq')
    · rcases hcases q' other' hq' with ⟨rfl, rfl⟩ | ⟨-, hq'⟩
      · exact absurd hpath (hnone q other hq)
      · exact h.alone q q' other other' hq hq' hpath
  · intro q other hq
    rcases hcases q other hq with ⟨rfl, rfl⟩ | ⟨-, hq⟩
    · exact hmem
    · exact h.registered q other hq

/-! ## Logs -/

/-- The file is the text of the records, which are chained and within the limits. -/
structure IsLog (log : Node) (records : List Dict) : Prop where
  file : log ≠ .directory
  eq : log.content = records.flatMap line
  linked : Linked auditChain 0 genesis records
  length_le : records.length ≤ 100000
  size_le : log.content.length ≤ 64 * 1024 * 1024

variable {log : Node}

theorem readEvents_content (h : log ≠ .directory) :
    readEvents log = readEvents (.file log.content) := by
  cases log with
  | missing =>
    have hnone : Linked auditChain 0 genesis [] := trivial
    exact (readEvents_log hnone (Nat.zero_le _) (Nat.zero_le _)).symm
  | file content => rfl
  | directory => exact absurd rfl h

theorem IsLog.readEvents (h : IsLog log records) :
    readEvents log = .ok (records.map sortKeysPairs) := by
  have hsize := h.size_le
  rw [readEvents_content h.file]
  rw [h.eq] at hsize ⊢
  exact readEvents_log h.linked h.length_le hsize

theorem IsLog.opened (h : IsLog log records) : IsLog (.file log.content) records :=
  ⟨nofun, h.eq, h.linked, h.length_le, h.size_le⟩

/-- The record can be appended behind the others. -/
def Next (records : List Dict) (r : Dict) : Prop :=
  auditChain.Good 0 r ∧ auditChain.prev r = tip auditChain genesis records

theorem IsLog.nextRecord (h : IsLog log records) (timestamp : String) (event : AuditEvent) :
    ∃ r, nextRecord log timestamp event = .ok r ∧ Next records r := by
  refine ⟨record timestamp (tip auditChain genesis records) event, ?_, ⟨_, _, _, rfl⟩, rfl⟩
  rw [OpsAudit.nextRecord, h.readEvents]
  simp only [lastHash_map]

theorem IsLog.append (h : IsLog log records) (hnext : Next records r)
    (hlen : records.length < 100000)
    (hsize : log.content.length + (line r).length ≤ 64 * 1024 * 1024) :
    IsLog (.file (log.content ++ line r)) (records ++ [r]) := by
  constructor
  · exact nofun
  · rw [Node.content, List.flatMap_append, ← h.eq, List.flatMap_singleton]
  · exact linked_append.2 ⟨h.linked, hnext.1, hnext.2⟩
  · rw [List.length_append, List.length_singleton]
    omega
  · rw [Node.content, List.length_append]
    exact hsize

theorem line_ne_nil (r : Dict) : line r ≠ [] := by
  obtain ⟨s, hs⟩ := lineText_head r
  rw [line, ← lineText, hs, utf8, ofChars_eq, String.toList_ofList, List.cons_append,
    List.flatMap_cons]
  exact List.append_ne_nil_of_left_ne_nil String.utf8EncodeChar_ne_nil _

/-! ## Directories -/

variable {files files' : Path → Node} {path : Path}

omit [Host] in
theorem mkdir_some (h : mkdir files path = some files') :
    (∀ a, ¬ a <+: path → files' a = files a) ∧ ∀ a, (files' a).isFile → files' a = files a := by
  unfold mkdir at h
  split_ifs at h with hfile
  obtain rfl := Option.some.inj h
  refine ⟨fun a ha => if_neg ha, fun a ha => ?_⟩
  dsimp only at ha ⊢
  split_ifs at ha ⊢
  · cases ha
  · rfl

omit [Host] in
theorem mkdir_isSome (h : ∀ a, a <+: path → (files a).isFile = false) :
    ∃ files', mkdir files path = some files' := by
  refine ⟨_, if_neg ?_⟩
  rw [List.any_eq_true]
  rintro ⟨a, ha, hfile⟩
  rw [h a ((List.mem_inits _ _).1 ha)] at hfile
  cases hfile

/-! ## The system -/

/-- An append has its whole record to write, or nothing but to return. -/
def Pending (written returned : List Dict) (rest : Bytes) (r : Dict) : Prop :=
  rest = line r ∧ Next written r ∨
    rest = [] ∧ ∃ records, written = records ++ [r] ∧ returned.Sublist records

/-- Each log is the text of the records that were written to it, and each process that appends is
at its end. -/
structure Kept (registry : Registry) (s : State) : Prop where
  held : Held registry s
  apart : ∀ p target, (s.procs p).target = some target → Apart registry target
  plain : ∀ path, (s.files path).isFile → (∃ target ∈ registry.targets,
    path = target.auditEventsPath) ∨ ∀ target ∈ registry.targets, ¬ path <+: target.auditEventsPath
  isLog : ∀ target ∈ registry.targets,
    IsLog (s.files target.auditEventsPath) (s.written target.auditEventsPath)
  returned : ∀ path, (s.returned path).Sublist (s.written path)
  pending : ∀ p target rest r, s.procs p = .appending target rest r →
    Pending (s.written target.auditEventsPath) (s.returned target.auditEventsPath) rest r
  accepted : s.refused = false

theorem Kept.pending_other (h : Kept registry s) {phase : Phase}
    (hp : (s.procs p).target = some target) {other : ReleaseTarget} {rest : Bytes}
    (hq : Function.update s.procs p phase q = .appending other rest r) (hne : q ≠ p) :
    other.auditEventsPath ≠ target.auditEventsPath ∧ s.procs q = .appending other rest r := by
  rw [Function.update_of_ne hne] at hq
  refine ⟨fun hpath => hne (h.held.alone q p other target ?_ hp hpath), hq⟩
  rw [hq]
  rfl

/-- Directories that are made beside the logs keep what holds. -/
theorem Kept.mkdir (h : Kept registry s) (hpath : ∀ other ∈ registry.targets,
    ¬ other.auditEventsPath <+: path) (hm : mkdir s.files path = some files) :
    Kept registry { s with files := files } := by
  obtain ⟨hsame, hfile⟩ := mkdir_some hm
  refine ⟨h.held.congr (fun _ => rfl) rfl, h.apart, fun a ha => ?_, fun other hother => ?_,
    h.returned, h.pending, h.accepted⟩
  · dsimp only at ha
    rw [hfile a ha] at ha
    exact h.plain a ha
  · dsimp only
    rw [hsame _ (hpath other hother)]
    exact h.isLog other hother

/-- A file that is no log is written. -/
theorem Kept.lock (h : Kept registry s) {holder : Bytes} (hmem : target ∈ registry.targets)
    (hapart : Apart registry target) (hfree : s.locks target.lockPath = none)
    (halone : ∀ q other, (s.procs q).target = some other →
      other.auditEventsPath = target.auditEventsPath → other.lockPath = target.lockPath) :
    Kept registry { s with
      files := Function.update s.files target.lockPath (.file holder)
      locks := Function.update s.locks target.lockPath (some p)
      procs := Function.update s.procs p (.locked target) } := by
  refine ⟨h.held.call hmem hfree halone rfl rfl, ?_, fun a ha => ?_, fun other hother => ?_,
    h.returned, ?_, h.accepted⟩
  · intro q other hq
    dsimp only at hq
    by_cases hqp : q = p
    · subst hqp
      rw [Function.update_self] at hq
      obtain rfl := Option.some.inj hq
      exact hapart
    · rw [Function.update_of_ne hqp] at hq
      exact h.apart q other hq
  · by_cases hpath : a = target.lockPath
    · subst hpath
      exact .inr fun other hother => (hapart other hother).2.1
    · dsimp only at ha
      rw [Function.update_of_ne hpath] at ha
      exact h.plain a ha
  · have hne : other.auditEventsPath ≠ target.lockPath := by
      intro heq
      refine (hapart other hother).1 ?_
      rw [heq]
    dsimp only
    rw [Function.update_of_ne hne]
    exact h.isLog other hother
  · intro q other rest r hq
    dsimp only at hq ⊢
    refine h.pending q other rest r ?_
    by_cases hqp : q = p
    · subst hqp
      rw [Function.update_self] at hq
      cases hq
    · rwa [Function.update_of_ne hqp] at hq

/-- The lock file is no log, so that taking the lock changes none. -/
theorem Kept.call (h : Kept registry s) {holder : Bytes}
    (hu : Undisturbed registry s (.call p target holder))
    (hs : step registry s (.call p target holder) = some t) : Kept registry t := by
  obtain ⟨hapart, halone⟩ := hu
  simp only [step] at hs
  split at hs
  case h_2 => cases hs
  case h_1 hidle =>
    by_cases hmem : target ∈ registry.targets
    · rw [if_pos hmem] at hs
      split at hs
      · obtain rfl := Option.some.inj hs
        exact h
      · next files hm =>
        have hmade := h.mkdir (fun other hother hbelow => (hapart other hother).1
          (hbelow.trans (List.prefix_append _ _))) hm
        split at hs
        · obtain rfl := Option.some.inj hs
          exact hmade
        · split_ifs at hs with hlocked
          · obtain rfl := Option.some.inj hs
            exact hmade
          · obtain rfl := Option.some.inj hs
            exact hmade.lock hmem hapart (by simpa using hlocked) halone
    · rw [if_neg hmem] at hs
      cases hs

/-- No log lies in the log of a target that is at work, or above it. -/
theorem Kept.parents (h : Kept registry s) (htarget : (s.procs p).target = some target) :
    (∀ other ∈ registry.targets, ¬ other.auditEventsPath <+: target.auditEventsPath.dropLast) ∧
    ∀ a, a <+: target.auditEventsPath.dropLast → (s.files a).isFile = false := by
  have hne : target.auditEventsPath ≠ [] := by
    intro hnil
    refine (registry.narrow target (h.held.registered p target htarget)).1 ?_
    rw [hnil]
    exact List.mem_cons_self
  have hshort : ¬ target.auditEventsPath <+: target.auditEventsPath.dropLast := by
    intro hbelow
    have hle := hbelow.length_le
    have hpos := List.length_pos_iff.2 hne
    rw [List.length_dropLast] at hle
    omega
  have hlogs : ∀ other ∈ registry.targets,
      ¬ other.auditEventsPath <+: target.auditEventsPath.dropLast := by
    intro other hother hbelow
    have heq := (h.apart p target htarget other hother).2.2
      (hbelow.trans (List.dropLast_prefix _))
    rw [heq] at hbelow
    exact hshort hbelow
  refine ⟨hlogs, fun a ha => ?_⟩
  by_contra hfile
  rcases h.plain a (by simpa using hfile) with ⟨other, hother, rfl⟩ | hnone
  · exact hlogs other hother ha
  · exact hnone target (h.held.registered p target htarget) (ha.trans (List.dropLast_prefix _))

theorem Kept.append (h : Kept registry s) {timestamp : String} {event : AuditEvent}
    (hs : step registry s (.append p timestamp event) = some t) : Kept registry t := by
  simp only [step] at hs
  split at hs
  case h_2 => cases hs
  case h_1 target hp =>
    have htarget : (s.procs p).target = some target := by
      rw [hp]
      rfl
    obtain ⟨hlogs, hfiles⟩ := h.parents htarget
    obtain ⟨files, hm⟩ := mkdir_isSome hfiles
    have hmade := h.mkdir hlogs hm
    have hmem := h.held.registered p target htarget
    have hlog := hmade.isLog target hmem
    obtain ⟨r, hr, hnext⟩ := hlog.nextRecord timestamp event
    dsimp only at hr
    simp only [hm, hr] at hs
    obtain rfl := Option.some.inj hs
    refine ⟨hmade.held.congr (target_update htarget.symm) rfl, fun q other hq => ?_, fun a ha => ?_,
      fun other hother => ?_, h.returned, ?_, h.accepted⟩
    · have hphase : (Phase.appending target (line r) r).target = (s.procs p).target := htarget.symm
      exact h.apart q other ((target_update hphase q).symm.trans hq)
    · by_cases hpath : a = target.auditEventsPath
      · exact .inl ⟨target, hmem, hpath⟩
      · dsimp only at ha
        rw [Function.update_of_ne hpath] at ha
        exact hmade.plain a ha
    · by_cases hpath : other.auditEventsPath = target.auditEventsPath
      · simp only [hpath, Function.update_self]
        exact hlog.opened
      · simp only [Function.update_of_ne hpath]
        exact hmade.isLog other hother
    · intro q other rest r' hq
      dsimp only at hq ⊢
      by_cases hqp : q = p
      · subst hqp
        rw [Function.update_self] at hq
        obtain ⟨rfl, rfl, rfl⟩ := Phase.appending.inj hq
        exact .inl ⟨rfl, hnext⟩
      · rw [Function.update_of_ne hqp] at hq
        exact h.pending q other rest r' hq

/-- A record that is written at once is the next one of its log. -/
theorem Kept.write (h : Kept registry s) (hu : Undisturbed registry s (.write p n))
    (hs : step registry s (.write p n) = some t) : Kept registry t := by
  simp only [step] at hs
  split at hs
  case h_2 => cases hs
  case h_1 target rest r hp =>
    obtain ⟨hwhole, hlen, hsize⟩ := hu target rest r hp
    have htarget : (s.procs p).target = some target := by
      rw [hp]
      rfl
    have hnone : ¬(rest = [] ∨ n = 0) := by
      intro hnone
      rw [if_pos hnone] at hs
      cases hs
    have hdrop : rest.drop n = [] := List.drop_eq_nil_of_le hwhole
    simp only [if_neg hnone, List.take_of_length_le hwhole, hdrop, if_true] at hs
    obtain rfl := Option.some.inj hs
    obtain ⟨rfl, hnext⟩ : rest = line r ∧ Next (s.written target.auditEventsPath) r := by
      rcases h.pending p target rest r hp with hpending | ⟨hnil, -⟩
      · exact hpending
      · exact absurd (Or.inl hnil) hnone
    have hlog := h.isLog target (h.held.registered p target htarget)
    have hmem := h.held.registered p target htarget
    refine ⟨h.held.congr (target_update htarget.symm) rfl, fun q other hq => ?_, fun a ha => ?_,
      ?_, ?_, ?_, h.accepted⟩
    · have hphase : (Phase.appending target [] r).target = (s.procs p).target := htarget.symm
      exact h.apart q other ((target_update hphase q).symm.trans hq)
    · by_cases hpath : a = target.auditEventsPath
      · exact .inl ⟨target, hmem, hpath⟩
      · dsimp only at ha
        rw [Function.update_of_ne hpath] at ha
        exact h.plain a ha
    · intro other hother
      by_cases hpath : other.auditEventsPath = target.auditEventsPath
      · simp only [hpath, Function.update_self]
        exact hlog.append hnext hlen hsize
      · simp only [Function.update_of_ne hpath]
        exact h.isLog other hother
    · intro path
      by_cases hpath : path = target.auditEventsPath
      · subst hpath
        simp only [Function.update_self]
        exact (h.returned _).trans (List.sublist_append_left _ _)
      · simp only [Function.update_of_ne hpath]
        exact h.returned path
    · intro q other rest r' hq
      dsimp only at hq ⊢
      by_cases hqp : q = p
      · subst hqp
        rw [Function.update_self] at hq
        obtain ⟨rfl, rfl, rfl⟩ := Phase.appending.inj hq
        refine .inr ⟨rfl, s.written target.auditEventsPath, ?_, h.returned _⟩
        exact Function.update_self ..
      · obtain ⟨hpath, hq⟩ := h.pending_other htarget hq hqp
        simp only [Function.update_of_ne hpath]
        exact h.pending q other rest r' hq

/-- The record of an append that returns is the last one of its log. -/
theorem Kept.finish (h : Kept registry s) (hs : step registry s (.finish p) = some t) :
    Kept registry t := by
  simp only [step] at hs
  split at hs
  case h_2 => cases hs
  case h_1 target r hp =>
    obtain rfl := Option.some.inj hs
    have htarget : (s.procs p).target = some target := by
      rw [hp]
      rfl
    obtain ⟨records, hwritten, hreturned⟩ : ∃ records,
        s.written target.auditEventsPath = records ++ [r] ∧
          (s.returned target.auditEventsPath).Sublist records := by
      rcases h.pending p target [] r hp with ⟨hline, -⟩ | ⟨-, hpending⟩
      · exact absurd hline.symm (line_ne_nil r)
      · exact hpending
    refine ⟨h.held.congr (target_update htarget.symm) rfl, fun q other hq => ?_, h.plain, h.isLog,
      ?_, ?_, h.accepted⟩
    · have hphase : (Phase.locked target).target = (s.procs p).target := htarget.symm
      exact h.apart q other ((target_update hphase q).symm.trans hq)
    · intro path
      by_cases hpath : path = target.auditEventsPath
      · subst hpath
        simp only [Function.update_self, hwritten]
        exact hreturned.append (List.Sublist.refl _)
      · simp only [Function.update_of_ne hpath]
        exact h.returned path
    · intro q other rest r' hq
      dsimp only at hq ⊢
      by_cases hqp : q = p
      · subst hqp
        rw [Function.update_self] at hq
        cases hq
      · obtain ⟨hpath, hq⟩ := h.pending_other htarget hq hqp
        simp only [Function.update_of_ne hpath]
        exact h.pending q other rest r' hq

theorem Kept.drop (h : Kept registry s) (p : ℕ) : Kept registry (s.drop p) := by
  refine ⟨h.held.drop p, fun q target hq => h.apart q target (target_drop hq).2, h.plain, h.isLog,
    h.returned, ?_, h.accepted⟩
  intro q other rest r hq
  have hne : q ≠ p := by
    rintro rfl
    simp [State.drop] at hq
  refine h.pending q other rest r ?_
  simpa [State.drop, Function.update_of_ne hne] using hq

variable {moves : List Move}

end audit

/-! ## One target and one event -/

namespace Sample

open OpsOrchestrator.Sample

def digest (value : Bytes) : String :=
  if value = utf8 "service.core" then
    "74973b05fee92378c726f952891b9a6d5f917c386f404104746aa0cff7f1f7d0"
  else "85978c280a10b7237f28cf0f09dcaa1bbf4dc355f14a53a0d3d1ef3f189d7d7d"

theorem isDigest_digest (value : Bytes) : isDigest (digest value) = true := by
  unfold digest
  split_ifs
  · rfl
  · rfl

scoped instance sampleHost : Host where
  Flt := Unit
  text := zeroText
  lawful := lawfulFloatText_zero
  sha256 := digest
  isDigest_sha256 := isDigest_digest

def core : ReleaseTarget :=
  ⟨"core", "service.core", ["var", "lib", "ops", "release-events.jsonl"],
    ["run", "ops-v1", "locks"]⟩

def releaseStarted : AuditEvent where
  fields := [("phase", .str "action"), ("event", .str "release_started")]
  wf := ⟨by decide, trivial, trivial, trivial⟩
  foreign := by decide

def stamp : String :=
  "2026-03-01T10:00:00Z"

def first : Dict :=
  record stamp genesis releaseStarted

def locksMade (q : Path) : Node :=
  if q <+: core.lockRoot then .directory else .missing

def called : State :=
  { start with
    files := Function.update locksMade core.lockPath (.file [])
    locks := Function.update start.locks core.lockPath (some 0)
    procs := Function.update start.procs 0 (.locked core) }

def logMade (q : Path) : Node :=
  if q <+: core.auditEventsPath.dropLast then .directory else called.files q

def reading : State :=
  { called with
    files := Function.update logMade core.auditEventsPath (.file [])
    procs := Function.update called.procs 0 (.appending core (line first) first) }

/-- The log holds the first byte of the line. -/
def torn : Path → Node :=
  Function.update reading.files core.auditEventsPath (.file (utf8 "\x7b"))

end Sample

end OpsAudit
