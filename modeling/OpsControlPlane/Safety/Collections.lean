import OpsControlPlane.Sync.Collector
import Mathlib.Data.Set.Finite.Basic

/-!
# Collections

The record that the collector's file names for a mission is the one that the next state
supersedes. When the answer of the memory was lost that record is not current any more, and the
memory refuses the next state. `Resumable` says when a state can be captured, and `Kept` is what
holds wherever the collector stops.

`collected` is what holds in every run whose captures are resumable.
-/

namespace OpsSync

open Calls Transaction OpsMemory Prog

variable {F : Type} [Host F]

/-! ## Items -/

/-- A state of a mission: `json.dumps` sorts its keys, and `current_step` is the first one. -/
structure Checkpoint where
  project : String
  allowedRoles : List String
  (missionId body : String)
  plain : '\n' ∉ missionId.toList
  headed : "\x7b\"current_step\"".toList <+: body.toList

def Checkpoint.value (F : Type) [Host F] (k : Checkpoint) : Value :=
  valueOf F k.project k.allowedRoles ⟨k.missionId, "mission", k.missionId⟩ k.body

/-- A record or an action: no key of it is `current_step`. -/
structure Observation where
  project : String
  allowedRoles : List String
  (missionId itemType itemId body : String)
  plain : '\n' ∉ missionId.toList
  typed : itemType ≠ "mission"
  headed : ¬ "\x7b\"current_step\"".toList <+: body.toList

def Observation.value (F : Type) [Host F] (o : Observation) : Value :=
  valueOf F o.project o.allowedRoles ⟨o.missionId, o.itemType, o.itemId⟩ o.body

/-- Two texts with one line break after their first parts. -/
theorem lines_inj {a a' b b' : List Char} (ha : '\n' ∉ a) (ha' : '\n' ∉ a')
    (h : a ++ '\n' :: b = a' ++ '\n' :: b') : a = a' ∧ b = b' := by
  induction a generalizing a' with
  | nil =>
    cases a' with
    | nil => exact ⟨rfl, (List.cons.inj h).2⟩
    | cons c a' =>
      obtain ⟨rfl, -⟩ := List.cons.inj h
      exact absurd List.mem_cons_self ha'
  | cons c a ih =>
    cases a' with
    | nil =>
      obtain ⟨rfl, -⟩ := List.cons.inj h
      exact absurd List.mem_cons_self ha
    | cons c' a' =>
      obtain ⟨rfl, hrest⟩ := List.cons.inj h
      obtain ⟨rfl, rfl⟩ := ih (fun hmem => ha (List.mem_cons_of_mem _ hmem))
        (fun hmem => ha' (List.mem_cons_of_mem _ hmem)) hrest
      exact ⟨rfl, rfl⟩

theorem content_inj {v v' : Value} (hv : '\n' ∉ v.source.missionId.toList)
    (hv' : '\n' ∉ v'.source.missionId.toList) (h : v.content = v'.content) :
    v.source.missionId = v'.source.missionId ∧ v.body = v'.body := by
  have hlist := congrArg String.toList h
  have hbreak : "\n".toList = ['\n'] := rfl
  simp only [Value.content, String.toList_append, hbreak, List.append_assoc,
    List.append_right_inj, List.singleton_append] at hlist
  obtain ⟨hid, hbody⟩ := lines_inj hv hv' hlist
  exact ⟨String.toList_injective hid, String.toList_injective hbody⟩

theorem checkpoint_content {k k' : Checkpoint} (h : (k.value F).content = (k'.value F).content) :
    k.missionId = k'.missionId ∧ k.body = k'.body :=
  content_inj k.plain k'.plain h

theorem observation_content (o : Observation) (k : Checkpoint) :
    (o.value F).content ≠ (k.value F).content := by
  intro h
  obtain ⟨-, hbody⟩ := content_inj o.plain k.plain h
  refine o.headed ?_
  rw [show o.body = k.body from hbody]
  exact k.headed

/-! ## What holds -/

def missionSource (missionId : String) : Source :=
  ⟨missionId, "mission", missionId⟩

def Stores.holds (w : Stores F) (missionId : String) (r : Row F) : Prop :=
  r ∈ w.memory ∧ (missionSource missionId, r.id) ∈ w.log ∧ r.retired = false

/-- The state of the mission can be captured: the record that the file names is current; and if
it names none, what is current for the mission, or is a duplicate of the state, has the content
of the state. -/
def Resumable (k : Checkpoint) (w : Stores F) : Prop :=
  match w.missionState (missionSource k.missionId) with
  | some state => ∃ r, findRow state.memoryId w.memory = some r ∧ r.retired = false ∧
      r.project = k.project ∧ r.environment = "production"
  | none => (∀ r, w.holds k.missionId r →
        r.dedupKey = (dedupKey ((k.value F).request (Host.zero : F) "")).2) ∧
      ∀ r ∈ w.memory, r.retired = false →
        r.dedupKey = (dedupKey ((k.value F).request (Host.zero : F) "")).2 →
        r.content = (k.value F).content

/-- What holds wherever the collector stops. -/
structure Kept (w : Stores F) : Prop where
  nodup : (w.memory.map fun r => r.id).Nodup
  timed : ∀ r ∈ w.memory, r.validFrom ≤ w.clock ∧ r.validUntil = none
  logged : ∀ s id, (s, id) ∈ w.log → ∃ k : Checkpoint, s = missionSource k.missionId ∧
    ∃ r, findRow id w.memory = some r ∧ r.content = (k.value F).content
  written : ∀ r ∈ w.memory, ∀ k : Checkpoint, r.content = (k.value F).content →
    (missionSource k.missionId, r.id) ∈ w.log
  single : ∀ m r r', w.holds m r → w.holds m r' → r = r'
  named : ∀ k : Checkpoint, ∀ state, w.missionState (missionSource k.missionId) = some state →
    (missionSource k.missionId, state.memoryId) ∈ w.log ∧
      ∃ k' : Checkpoint, k'.missionId = k.missionId ∧
        state.digest = Host.sha256 F k'.body ∧
        ∃ r, findRow state.memoryId w.memory = some r ∧ r.content = (k'.value F).content
  projected : ∀ c ∈ w.captured, c.source.itemType ≠ "mission" →
    (c.source, c.sourceRef) ∈ w.projected

/-- The mission has one current record, with the content of the state, which the file names. -/
def Collected (k : Checkpoint) (w : Stores F) : Prop :=
  ∃ r state, w.missionState (missionSource k.missionId) = some state ∧ state.memoryId = r.id ∧
    w.holds k.missionId r ∧ r.content = (k.value F).content

/-! ## The memory grows -/

section grow

variable {w : Stores F} {p : Row F → Bool} {f : Row F → Row F} {new : Row F} {clock : String}
  {l : List (Source × String)}

/-- The rewriting of a row keeps what tells it, and does not make it current again. -/
structure Plain (f : Row F → Row F) : Prop where
  id : ∀ r, (f r).id = r.id
  content : ∀ r, (f r).content = r.content
  validFrom : ∀ r, (f r).validFrom = r.validFrom
  validUntil : ∀ r, (f r).validUntil = r.validUntil
  retired : ∀ r, (f r).retired = false → r.retired = false

theorem plain_supersede (successor now : String) :
    Plain (Row.supersede (F := F) successor now) where
  id _ := rfl
  content _ := rfl
  validFrom _ := rfl
  validUntil _ := rfl
  retired r h := by
    rw [Row.supersede_retired] at h
    cases h

abbrev Stores.grown (w : Stores F) (p : Row F → Bool) (f : Row F → Row F) (new : Row F)
    (clock : String) (l : List (Source × String)) : Stores F :=
  { w with memory := update p f w.memory ++ [new], clock := clock, log := w.log ++ l }

theorem plain_ite (hf : Plain f) (p : Row F → Bool) : Plain fun r => if p r then f r else r where
  id r := by split_ifs; exacts [hf.id r, rfl]
  content r := by split_ifs; exacts [hf.content r, rfl]
  validFrom r := by split_ifs; exacts [hf.validFrom r, rfl]
  validUntil r := by split_ifs; exacts [hf.validUntil r, rfl]
  retired r := by split_ifs; exacts [hf.retired r, fun h => h]

variable {r : Row F}

theorem findRow_grown (hf : Plain f) {id : String} (h : findRow id w.memory = some r) :
    findRow id (update p f w.memory ++ [new]) = some (if p r then f r else r) := by
  refine row_append_of_some ?_ _
  rw [row_update hf.id]
  rw [show row (fun r : Row F => r.id) id w.memory = some r from h]
  rfl

theorem mem_grown (h : r ∈ update p f w.memory ++ [new]) :
    r = new ∨ ∃ a ∈ w.memory, r = if p a then f a else a := by
  rcases List.mem_append.1 h with h | h
  · obtain ⟨a, ha, rfl⟩ := mem_update.1 h
    exact .inr ⟨a, ha, rfl⟩
  · exact .inl (List.mem_singleton.1 h)

theorem ne_new (hfresh : findRow new.id w.memory = none) (h : r ∈ w.memory) : r.id ≠ new.id :=
  row_eq_none.1 hfresh r h

theorem Kept.old_of_log (h : Kept w) (hfresh : findRow new.id w.memory = none) {s : Source}
    (hs : (s, new.id) ∈ w.log) : False := by
  obtain ⟨k, -, r, hr, -⟩ := h.logged s new.id hs
  rw [hfresh] at hr
  cases hr

theorem Kept.grow (h : Kept w) (hf : Plain f) (hfresh : findRow new.id w.memory = none)
    (hclock : w.clock ≤ clock) (hfrom : new.validFrom ≤ clock) (huntil : new.validUntil = none)
    (hwritten : ∀ k : Checkpoint, new.content = (k.value F).content →
      (missionSource k.missionId, new.id) ∈ l)
    (hlogged : ∀ s id, (s, id) ∈ l → id = new.id ∧ ∃ k : Checkpoint,
      s = missionSource k.missionId ∧ new.content = (k.value F).content)
    (hsingle : ∀ m, (missionSource m, new.id) ∈ l → ∀ r, w.holds m r →
      p r = true ∧ (f r).retired = true) : Kept (w.grown p f new clock l) := by
  have hplain := plain_ite hf p
  have hfound : findRow new.id (update p f w.memory ++ [new]) = some new := by
    refine row_append_new (row_eq_none.2 fun r hr => ?_)
    obtain ⟨a, ha, rfl⟩ := mem_update.1 hr
    rw [hplain.id]
    exact ne_new hfresh ha
  have hholds : ∀ m r, (w.grown p f new clock l).holds m r →
      (r = new ∧ (missionSource m, new.id) ∈ l) ∨
        ∃ a, w.holds m a ∧ r = if p a then f a else a := by
    rintro m r ⟨hr, hlog, hcurrent⟩
    rcases mem_grown hr with rfl | ⟨a, ha, rfl⟩
    · rcases List.mem_append.1 hlog with hlog | hlog
      · exact (h.old_of_log hfresh hlog).elim
      · exact .inl ⟨rfl, hlog⟩
    · rw [hplain.id] at hlog
      rcases List.mem_append.1 hlog with hlog | hlog
      · exact .inr ⟨a, ⟨ha, hlog, hplain.retired a hcurrent⟩, rfl⟩
      · exact absurd (hlogged _ _ hlog).1 (ne_new hfresh ha)
  refine ⟨?_, fun r hr => ?_, fun s id hs => ?_, fun r hr k hk => ?_, fun m r r' hr hr' => ?_,
    fun k state hstate => ?_, h.projected⟩
  · refine nodup_insert ?_ (row_eq_none.2 fun r hr => ?_)
    · rw [map_update hf.id]
      exact h.nodup
    · obtain ⟨a, ha, rfl⟩ := mem_update.1 hr
      rw [hplain.id]
      exact ne_new hfresh ha
  · rcases mem_grown hr with rfl | ⟨a, ha, rfl⟩
    · exact ⟨hfrom, huntil⟩
    · rw [hplain.validFrom, hplain.validUntil]
      exact ⟨String.le_trans (h.timed a ha).1 hclock, (h.timed a ha).2⟩
  · rcases List.mem_append.1 hs with hs | hs
    · obtain ⟨k, rfl, r, hr, hcontent⟩ := h.logged s id hs
      exact ⟨k, rfl, _, findRow_grown hf hr, by rw [hplain.content]; exact hcontent⟩
    · obtain ⟨rfl, k, rfl, hcontent⟩ := hlogged s id hs
      exact ⟨k, rfl, new, hfound, hcontent⟩
  · rcases mem_grown hr with rfl | ⟨a, ha, rfl⟩
    · exact List.mem_append_right _ (hwritten k hk)
    · rw [hplain.id]
      rw [hplain.content] at hk
      exact List.mem_append_left _ (h.written a ha k hk)
  · -- A current record of the mission is either the new one or one that was there before.
    have hclash : ∀ a, w.holds m a → (missionSource m, new.id) ∈ l →
        (if p a then f a else a).retired = false → False := by
      intro a ha hl hcurrent
      obtain ⟨hp, hretired⟩ := hsingle m hl a ha
      rw [if_pos hp, hretired] at hcurrent
      cases hcurrent
    rcases hholds m r hr with ⟨rfl, hl⟩ | ⟨a, ha, rfl⟩
    · rcases hholds m r' hr' with ⟨rfl, -⟩ | ⟨a', ha', rfl⟩
      · rfl
      · exact (hclash a' ha' hl hr'.2.2).elim
    · rcases hholds m r' hr' with ⟨rfl, hl⟩ | ⟨a', ha', rfl⟩
      · exact (hclash a ha hl hr.2.2).elim
      · rw [h.single m a a' ha ha']
  · obtain ⟨hlog, k', hid, hdigest, r, hr, hcontent⟩ := h.named k state hstate
    exact ⟨List.mem_append_left _ hlog, k', hid, hdigest, _, findRow_grown hf hr,
      by rw [hplain.content]; exact hcontent⟩

variable {k : Checkpoint}

theorem Collected.grow (h : Collected k w) (hp : ∀ r, w.holds k.missionId r → p r = false) :
    Collected k (w.grown p f new clock l) := by
  obtain ⟨r, state, hstate, hid, hholds, hcontent⟩ := h
  refine ⟨r, state, hstate, hid, ⟨List.mem_append_left _ (mem_update.2 ⟨r, hholds.1, ?_⟩),
    List.mem_append_left _ hholds.2.1, hholds.2.2⟩, hcontent⟩
  rw [if_neg (by rw [hp r hholds]; exact Bool.false_ne_true)]

/-- The clock goes on, and what was stored before is stored again. -/
theorem Kept.repeat (h : Kept w) (hclock : w.clock ≤ clock) (hl : ∀ e ∈ l, e ∈ w.log) :
    Kept { w with clock := clock, log := w.log ++ l } := by
  have hlog : ∀ e, e ∈ w.log ++ l ↔ e ∈ w.log := by
    intro e
    rw [List.mem_append]
    exact ⟨fun he => he.elim id (hl e), .inl⟩
  have hholds : ∀ m r, Stores.holds { w with clock := clock, log := w.log ++ l } m r ↔
      w.holds m r := by
    intro m r
    unfold Stores.holds
    rw [hlog]
  refine ⟨h.nodup, fun r hr => ⟨String.le_trans (h.timed r hr).1 hclock, (h.timed r hr).2⟩,
    fun s id hs => h.logged s id ((hlog _).1 hs), fun r hr k hk => (hlog _).2 (h.written r hr k hk),
    fun m r r' hr hr' => h.single m r r' ((hholds m r).1 hr) ((hholds m r').1 hr'),
    fun k state hstate => ?_, h.projected⟩
  obtain ⟨hmem, hrest⟩ := h.named k state hstate
  exact ⟨(hlog _).2 hmem, hrest⟩

theorem Collected.repeat (h : Collected k w) :
    Collected k { w with clock := clock, log := w.log ++ l } := by
  obtain ⟨r, state, hstate, hid, hholds, hcontent⟩ := h
  exact ⟨r, state, hstate, hid, ⟨hholds.1, List.mem_append_left _ hholds.2.1, hholds.2.2⟩,
    hcontent⟩

end grow

/-! ## Ingestion -/

section ingestion

variable {w : Stores F} {k : Checkpoint}

theorem le_advance (clock now : String) : clock ≤ advance clock now := by
  unfold advance
  split_ifs with h
  · exact h
  · exact String.le_refl _

variable {r : Row F}

theorem Kept.duplicate (h : Kept w) (hr : r ∈ w.memory) (hcurrent : r.retired = false)
    (hcontent : r.content = (k.value F).content) : w.holds k.missionId r :=
  ⟨hr, h.written r hr k hcontent, hcurrent⟩

variable {now clock m m' : String}

theorem Kept.isCurrent (h : Kept w) (hr : r ∈ w.memory) (hcurrent : r.retired = false)
    (hnow : w.clock ≤ now) : r.isCurrent now = true := by
  obtain ⟨hfrom, huntil⟩ := h.timed r hr
  unfold Memory.retired at hcurrent
  unfold Memory.isCurrent
  simp only [decide_eq_false_iff_not, not_or, not_not] at hcurrent
  refine decide_eq_true ⟨hcurrent.1, hcurrent.2, String.le_trans hfrom hnow, ?_⟩
  rw [huntil]
  simp

theorem retired_of_isCurrent (h : r.isCurrent now = true) : r.retired = false := by
  unfold Memory.isCurrent at h
  unfold Memory.retired
  obtain ⟨hinvalidated, hsuperseded, -⟩ := of_decide_eq_true h
  simp [hinvalidated, hsuperseded]

variable {q : IngestRequest F} {rows rows' : Table F}

theorem duplicateOf_some {d : Row F} (h : duplicateOf q now rows = some d) :
    d ∈ rows ∧ d.dedupKey = (dedupKey q).2 ∧ d.isCurrent now = true := by
  have hmem := List.mem_of_mem_head? (Option.mem_def.2 h)
  rw [List.mem_insertionSort] at hmem
  obtain ⟨hmem, hd⟩ := List.mem_filter.1 hmem
  exact ⟨hmem, (of_decide_eq_true hd).1, (of_decide_eq_true hd).2⟩

theorem duplicateOf_none (h : duplicateOf q now rows = none) (hr : r ∈ rows)
    (hkey : r.dedupKey = (dedupKey q).2) : r.isCurrent now = false := by
  have hnil := List.head?_eq_none_iff.1 h
  by_contra hcurrent
  have hmem : r ∈ (rows.filter fun r => r.dedupKey = (dedupKey q).2 ∧
      r.isCurrent now).insertionSort fun a b => b.createdAt ≤ a.createdAt := by
    rw [List.mem_insertionSort]
    exact List.mem_filter.2 ⟨hr, decide_eq_true ⟨hkey, by simpa using hcurrent⟩⟩
  rw [hnil] at hmem
  cases hmem

theorem insertRow_ok (h : insertRow r rows = .ok rows') :
    findRow r.id rows = none ∧ rows' = rows ++ [r] := by
  unfold insertRow at h
  split at h
  · cases h
  · next hnone => exact ⟨hnone, (Except.ok.inj h).symm⟩

/-- What an ingestion that succeeds does: it finds a duplicate, or it inserts a record, which may
supersede one that is current. -/
theorem ingestTx_cases {vector : List F} {model authority id : String} {record : Row F}
    {duplicate : Bool} {superseded : Option String}
    (h : ingestTx q vector model authority now id rows =
      .ok ((record, duplicate, superseded), rows')) :
    (q.supersedesId = none ∧ duplicateOf q now rows = some record ∧ rows' = rows) ∨
      (record = newRow q vector model authority now id ∧ findRow id rows = none ∧
        ((q.supersedesId = none ∧ duplicateOf q now rows = none ∧ rows' = rows ++ [record]) ∨
          ∃ old, q.supersedesId = some old.id ∧ findRow old.id rows = some old ∧
            rows' = update (fun r => r.id = old.id) (Row.supersede id now) rows ++ [record])) := by
  unfold ingestTx at h
  cases hsup : q.supersedesId with
  | none =>
    simp only [hsup] at h
    cases hdup : duplicateOf q now rows with
    | some d =>
      simp only [hdup] at h
      obtain ⟨hrecord, rfl⟩ := Prod.mk.inj (Except.ok.inj h)
      obtain ⟨rfl, -⟩ := Prod.mk.inj hrecord
      exact .inl ⟨rfl, rfl, rfl⟩
    | none =>
      simp only [hdup] at h
      cases hinsert : insertRow (newRow q vector model authority now id) rows with
      | error e =>
        rw [hinsert] at h
        cases h
      | ok rows₁ =>
        rw [hinsert] at h
        obtain ⟨hrecord, rfl⟩ := Prod.mk.inj (Except.ok.inj h)
        obtain ⟨rfl, -⟩ := Prod.mk.inj hrecord
        obtain ⟨hnone, rfl⟩ := insertRow_ok hinsert
        exact .inr ⟨rfl, hnone, .inl ⟨rfl, rfl, rfl⟩⟩
  | some oldId =>
    simp only [hsup] at h
    cases hold : findRow oldId rows with
    | none =>
      simp only [hold] at h
      cases h
    | some old =>
      simp only [hold] at h
      split_ifs at h
      cases hinsert : insertRow (newRow q vector model authority now id) rows with
      | error e =>
        rw [hinsert] at h
        cases h
      | ok rows₁ =>
        rw [hinsert] at h
        obtain ⟨hrecord, rfl⟩ := Prod.mk.inj (Except.ok.inj h)
        obtain ⟨rfl, -⟩ := Prod.mk.inj hrecord
        obtain ⟨hnone, rfl⟩ := insertRow_ok hinsert
        obtain ⟨hmem, rfl⟩ := row_some (show row (fun r : Row F => r.id) oldId rows = _ from hold)
        refine .inr ⟨rfl, hnone, .inr ⟨old, rfl, hold, ?_⟩⟩
        have hne : id ≠ old.id := fun heq => row_eq_none.1 hnone old hmem heq.symm
        change update _ _ (rows ++ [_]) = _
        rw [update_append]
        congr 1
        exact update_eq_self (fun r hr => by
          obtain rfl := List.mem_singleton.1 hr
          exact decide_eq_false hne) _

theorem Kept.tick (h : Kept w) (hclock : w.clock ≤ clock) : Kept { w with clock := clock } := by
  have hrepeat := h.repeat (l := []) hclock (by simp)
  rw [List.append_nil] at hrepeat
  exact hrepeat

theorem Collected.tick (h : Collected k w) (clock : String) :
    Collected k { w with clock := clock } := by
  have hrepeat : Collected k { w with clock := clock, log := w.log ++ [] } := h.repeat
  rw [List.append_nil] at hrepeat
  exact hrepeat

structure Ingested (k : Checkpoint) (w : Stores F) (r : Except SyncError String)
    (w' : Stores F) : Prop where
  kept : Kept w'
  others : ∀ k' : Checkpoint, k'.missionId ≠ k.missionId → Collected k' w → Collected k' w'
  missionStates : w'.missionStates = w.missionStates
  record : ∀ id, r = .ok id → ∃ row, w'.holds k.missionId row ∧ row.id = id ∧
    row.content = (k.value F).content

theorem missionSource_inj (h : missionSource m = missionSource m') : m = m' :=
  congrArg Source.missionId h

theorem Kept.mission_of_log (h : Kept w) {id : String} (hm : (missionSource m, id) ∈ w.log)
    (hm' : (missionSource m', id) ∈ w.log) : m = m' := by
  obtain ⟨k, hk, r, hr, hcontent⟩ := h.logged _ _ hm
  obtain ⟨k', hk', r', hr', hcontent'⟩ := h.logged _ _ hm'
  obtain rfl := Option.some.inj (hr.symm.trans hr')
  rw [missionSource_inj hk, missionSource_inj hk']
  exact (checkpoint_content (hcontent.symm.trans hcontent')).1

theorem grown_insert (w : Stores F) (new : Row F) (clock : String) (l : List (Source × String)) :
    w.grown (fun _ => false) id new clock l =
      { w with memory := w.memory ++ [new], clock := clock, log := w.log ++ l } := by
  rw [Stores.grown, update_eq_self fun _ _ => rfl]

theorem plain_id : Plain (id : Row F → Row F) :=
  ⟨fun _ => rfl, fun _ => rfl, fun _ => rfl, fun _ => rfl, fun _ h => h⟩

theorem successor_content (k : Checkpoint) (previous : Option MissionState) :
    (successor F (k.value F) previous).content = (k.value F).content := by
  cases previous <;> rfl

/-- The record of a state is inserted. -/
theorem Kept.ingested (h : Kept w) {p : Row F → Bool} {f : Row F → Row F} {new : Row F}
    {r : Except SyncError String} (hf : Plain f) (hfresh : findRow new.id w.memory = none)
    (hclock : w.clock ≤ clock) (hfrom : new.validFrom ≤ clock) (huntil : new.validUntil = none)
    (hcontent : new.content = (k.value F).content) (hcurrent : new.retired = false)
    (hsingle : ∀ r, w.holds k.missionId r → p r = true ∧ (f r).retired = true)
    (hothers : ∀ r ∈ w.memory, p r = true → w.holds k.missionId r)
    (hr : ∀ id, r = .ok id → id = new.id) :
    Ingested k w r (w.grown p f new clock [(missionSource k.missionId, new.id)]) := by
  refine ⟨h.grow hf hfresh hclock hfrom huntil (fun k' hk' => ?_) (fun s id hs => ?_)
    (fun m hm r hr => ?_), fun k' hne hcollected => hcollected.grow fun r hr => ?_, rfl,
    fun id hid => ⟨new, ⟨?_, ?_, hcurrent⟩, (hr id hid).symm, hcontent⟩⟩
  · rw [(checkpoint_content (hcontent.symm.trans hk')).1]
    exact List.mem_singleton.2 rfl
  · obtain ⟨rfl, rfl⟩ := Prod.mk.inj (List.mem_singleton.1 hs)
    exact ⟨rfl, k, rfl, hcontent⟩
  · obtain ⟨hm, -⟩ := Prod.mk.inj (List.mem_singleton.1 hm)
    rw [missionSource_inj hm] at hr
    exact hsingle r hr
  · by_contra hp
    have hholds := hothers r hr.1 (by simpa using hp)
    exact hne (h.mission_of_log hr.2.1 hholds.2.1)
  · exact List.mem_append_right _ (List.mem_singleton.2 rfl)
  · exact List.mem_append_right _ (List.mem_singleton.2 rfl)

theorem Kept.ingestMission (h : Kept w) (hres : Resumable k w) (x : SyncChoice F) :
    Ingested k w
      (w.ingest x true (successor F (k.value F) (w.missionState (missionSource k.missionId)))).1
      (w.ingest x true
        (successor F (k.value F) (w.missionState (missionSource k.missionId)))).2 := by
  unfold Resumable at hres
  set previous := w.missionState (missionSource k.missionId) with hprevious
  set received := advance w.clock x.receivedAt with hreceived
  set stored := advance received x.storedAt with hstored
  have hclock : w.clock ≤ stored := String.le_trans (le_advance _ _) (le_advance _ _)
  unfold Stores.ingest
  simp only [← hreceived, ← hstored]
  cases htx : ingestTx ((successor F (k.value F) previous).request x.importance received) x.vector
      x.vectorModel x.authorityStatus stored x.recordId w.memory with
  | error e => exact ⟨h.tick hclock, fun k' _ hk' => hk'.tick stored, rfl, nofun⟩
  | ok out =>
    obtain ⟨⟨record, duplicate, superseded⟩, memory⟩ := out
    have hanswer : ∀ id, (if x.lost then (.error (.memory "Memory did not confirm persistence") :
        Except SyncError String) else .ok record.id) = .ok id → id = record.id := by
      intro id hid
      split_ifs at hid
      exact (Except.ok.inj hid).symm
    rcases ingestTx_cases htx with ⟨hsup, hdup, rfl⟩ | ⟨hrecord, hfresh, hcase⟩
    · cases hp : previous with
      | some state =>
        rw [hp] at hsup
        cases hsup
      | none =>
        rw [hp] at hres hdup
        obtain ⟨hmem, hkey, hcurrent⟩ := duplicateOf_some hdup
        have hretired := retired_of_isCurrent hcurrent
        have hcontent := hres.2 record hmem hretired hkey
        have hholds := h.duplicate hmem hretired hcontent
        refine ⟨h.repeat hclock fun e he => ?_, fun k' _ hk' => hk'.repeat, rfl, fun id hid =>
          ⟨record, ⟨hmem, List.mem_append_left _ hholds.2.1, hretired⟩, (hanswer id hid).symm,
            hcontent⟩⟩
        obtain rfl := List.mem_singleton.1 he
        exact hholds.2.1
    · have hnewId : record.id = x.recordId := by rw [hrecord]; rfl
      have hcontent : record.content = (k.value F).content := by
        rw [hrecord]
        exact successor_content k previous
      have hfrom : record.validFrom ≤ stored := by
        rw [hrecord]
        exact le_advance _ _
      have huntil : record.validUntil = none := by
        rw [hrecord]
        rfl
      have hcurrent : record.retired = false := by
        rw [hrecord]
        rfl
      rw [← hnewId] at hfresh
      rcases hcase with ⟨hsup, hdup, rfl⟩ | ⟨old, hsup, hold, rfl⟩
      · cases hp : previous with
        | some state =>
          rw [hp] at hsup
          cases hsup
        | none =>
          rw [hp] at hres hdup
          have hnone : ∀ r, ¬ w.holds k.missionId r := by
            intro r hr
            have hfalse := duplicateOf_none hdup hr.1 (hres.1 r hr)
            rw [h.isCurrent hr.1 hr.2.2 hclock] at hfalse
            cases hfalse
          have hing := h.ingested (p := fun _ => false) plain_id hfresh hclock hfrom huntil
            hcontent hcurrent (fun r hr => (hnone r hr).elim) (fun r _ hr => by cases hr) hanswer
          rw [grown_insert] at hing
          exact hing
      · cases hp : previous with
        | none =>
          rw [hp] at hsup
          cases hsup
        | some state =>
          rw [hp] at hres hsup
          obtain ⟨r, hr, hretired, -, -⟩ := hres
          have hid : state.memoryId = old.id := Option.some.inj hsup
          rw [hid] at hr
          obtain rfl := Option.some.inj (hr.symm.trans hold)
          obtain ⟨hlog, -⟩ := h.named k state (by rw [← hprevious, hp])
          rw [hid] at hlog
          have hholds : w.holds k.missionId r := ⟨(row_some hold).1, hlog, hretired⟩
          refine h.ingested (plain_supersede x.recordId stored) hfresh hclock hfrom huntil
            hcontent hcurrent (fun r' hr' => ?_) (fun r' hr' hp' => ?_) hanswer
          · rw [h.single _ _ _ hr' hholds]
            exact ⟨decide_eq_true rfl, Row.supersede_retired _ _ _⟩
          · have hsame : findRow r'.id w.memory = some r' := row_of_mem h.nodup hr'
            rw [of_decide_eq_true hp'] at hsame
            obtain rfl := Option.some.inj (hsame.symm.trans hold)
            exact hholds

end ingestion

/-! ## Commits -/

section commits

variable {w : Stores F} {k : Checkpoint} {R κ : Type}

theorem row_replace [DecidableEq κ] (key : R → κ) (r : R) (rows : List R) (i : κ) :
    row key i (replace key r rows) = if key r = i then some r else row key i rows := by
  unfold replace
  rw [row_append, row_cons]
  split_ifs with hi
  · have hnone : row key i (rows.filter fun q => key q ≠ key r) = none := by
      refine row_eq_none.2 fun q hq => ?_
      rw [← hi]
      simpa using (List.mem_filter.1 hq).2
    rw [hnone, Option.none_or]
  · have hsame : row key i (rows.filter fun q => key q ≠ key r) = row key i rows := by
      unfold row
      rw [List.find?_filter]
      refine congrArg (fun p => List.find? p rows) (funext fun q => ?_)
      by_cases hq : key q = i
      · simp [hq, Ne.symm hi]
      · simp [hq]
    rw [hsame]
    exact Option.or_none

theorem mem_replace [DecidableEq κ] {key : R → κ} {r q : R} {rows : List R}
    (h : q ∈ replace key r rows) : q = r ∨ q ∈ rows := by
  rcases List.mem_append.1 h with h | h
  · exact .inr (List.mem_of_mem_filter h)
  · exact .inl (List.mem_singleton.1 h)

/-- The file names the record of the state. -/
theorem Kept.commitMission (h : Kept w) {r : Row F} (ref : String) (hr : w.holds k.missionId r)
    (hcontent : r.content = (k.value F).content) :
    let w' : Stores F := { w with
      captured := replace (fun c => (c.source, c.sourceRef))
        ⟨missionSource k.missionId, ref, r.id⟩ w.captured
      missionStates := replace MissionState.source
        ⟨missionSource k.missionId, (k.value F).sourceRef, r.id⟩ w.missionStates }
    Kept w' ∧ (∀ k' : Checkpoint, k'.missionId ≠ k.missionId → Collected k' w → Collected k' w') ∧
      Collected k w' := by
  intro w'
  have hstates : ∀ s, w'.missionState s = if missionSource k.missionId = s then
      some ⟨missionSource k.missionId, (k.value F).sourceRef, r.id⟩ else w.missionState s :=
    fun s => row_replace _ _ _ _
  refine ⟨⟨h.nodup, h.timed, h.logged, h.written, h.single, fun k' state hstate => ?_,
    fun c hc hmission => ?_⟩, fun k' hne hk' => ?_, ?_⟩
  · rw [hstates] at hstate
    split_ifs at hstate with hs
    · obtain rfl := Option.some.inj hstate
      rw [← hs]
      exact ⟨hr.2.1, k, missionSource_inj hs, rfl, r, row_of_mem h.nodup hr.1, hcontent⟩
    · exact h.named k' state hstate
  · rcases mem_replace hc with rfl | hc
    · exact absurd rfl hmission
    · exact h.projected c hc hmission
  · obtain ⟨r', state, hstate, hrest⟩ := hk'
    refine ⟨r', state, ?_, hrest⟩
    rw [hstates, if_neg fun heq => hne (missionSource_inj heq).symm]
    exact hstate
  · exact ⟨r, _, by rw [hstates, if_pos rfl], rfl, hr, hcontent⟩

/-- The file has the value of a record or of an action. -/
theorem Kept.commit (h : Kept w) (c : Captured) :
    let w' : Stores F := { w with
      captured := replace (fun c => (c.source, c.sourceRef)) c w.captured
      projected := w.projected ++ [(c.source, c.sourceRef)] }
    Kept w' ∧ ∀ k : Checkpoint, Collected k w → Collected k w' := by
  intro w'
  refine ⟨⟨h.nodup, h.timed, h.logged, h.written, h.single, h.named, fun q hq hmission => ?_⟩,
    fun k hk => hk⟩
  rcases mem_replace hq with rfl | hq
  · exact List.mem_append_right _ (List.mem_singleton.2 rfl)
  · exact List.mem_append_left _ (h.projected q hq hmission)

/-- A record or an action is ingested. -/
theorem Kept.ingestObservation (h : Kept w) (o : Observation) (x : SyncChoice F) :
    Kept (w.ingest x false (o.value F)).2 ∧
      ∀ k : Checkpoint, Collected k w → Collected k (w.ingest x false (o.value F)).2 := by
  set received := advance w.clock x.receivedAt with hreceived
  set stored := advance received x.storedAt with hstored
  have hclock : w.clock ≤ stored := String.le_trans (le_advance _ _) (le_advance _ _)
  unfold Stores.ingest
  simp only [← hreceived, ← hstored]
  cases htx : ingestTx ((o.value F).request x.importance received) x.vector x.vectorModel
      x.authorityStatus stored x.recordId w.memory with
  | error e => exact ⟨h.tick hclock, fun k hk => hk.tick stored⟩
  | ok out =>
    obtain ⟨⟨record, duplicate, superseded⟩, memory⟩ := out
    rcases ingestTx_cases htx with ⟨-, -, rfl⟩ | ⟨hrecord, hfresh, hcase⟩
    · exact ⟨h.tick hclock, fun k hk => hk.tick stored⟩
    · rcases hcase with ⟨-, -, rfl⟩ | ⟨old, hsup, -, -⟩
      · have hnewId : record.id = x.recordId := by rw [hrecord]; rfl
        rw [← hnewId] at hfresh
        have hgrown := grown_insert w record stored []
        rw [List.append_nil] at hgrown
        constructor
        · have hgrow : Kept (w.grown (fun _ => false) id record stored []) := h.grow plain_id hfresh
            hclock (by rw [hrecord]; exact le_advance _ _) (by rw [hrecord]; rfl)
            (fun k hk => absurd (hrecord ▸ hk) (observation_content o k)) (by simp) (by simp)
          rw [hgrown] at hgrow
          exact hgrow
        · intro k hk
          have hgrow : Collected k (w.grown (fun _ => false) id record stored []) :=
            hk.grow fun _ _ => rfl
          rw [hgrown] at hgrow
          exact hgrow
      · cases hsup

end commits

/-! ## Calls -/

section calls

variable {w₀ w : Stores F} {k : Checkpoint} {α : Type}

/-- What a call leaves wherever it stops: the missions that it is not about keep their
records. -/
structure Left (out : Checkpoint → Prop) (w₀ w : Stores F) : Prop where
  kept : Kept w
  others : ∀ k, ¬ out k → Collected k w₀ → Collected k w

variable {C : Stores F → Prop} {o : SyncOp} {Q : Except SyncError o.Reply → Stores F → Prop}

theorem wp_syncOp (hC : C w) (h : ∀ x : SyncChoice F, C (performSync o x w).2 ∧
      Q (performSync o x w).1 (performSync o x w).2) :
    Wp (I := syncInterface) performSync C (syncOp o) Q w :=
  ⟨hC, fun x => wp_ofExcept (h x).1 (h x).2⟩

/-- An operation that only fails without an effect, or does what it does. -/
theorem wp_attempted (hC : C w) (herr : ∀ e, Q (.error e) w)
    (h : ∀ x : SyncChoice F, x.fault = none → C (performSync o x w).2 ∧
      Q (performSync o x w).1 (performSync o x w).2) :
    Wp (I := syncInterface) performSync C (syncOp o) Q w := by
  refine wp_syncOp hC fun x => ?_
  cases hx : x.fault with
  | none => exact h x hx
  | some e =>
    have heq : performSync o x w = (.error e, w) := by
      unfold performSync
      rw [hx]
    rw [heq]
    exact ⟨hC, herr e⟩

/-- A state of a mission that is resumable is captured, or the call stops on the way. -/
theorem safe_captureMission (hsha : Function.Injective (Host.sha256 F)) (h : Kept w)
    (hres : Resumable k w) :
    Wp (I := syncInterface) performSync (Left (fun k' => k'.missionId = k.missionId) w)
      (captureMission F (k.value F)) (fun r w' => ∀ b, r = .ok b → Collected k w') w := by
  have hleft : Left (fun k' => k'.missionId = k.missionId) w w := ⟨h, fun _ _ hk' => hk'⟩
  refine wp_bind (wp_attempted hleft (fun _ => nofun) fun x hx => ?_)
  have hread : performSync (.missionState (k.value F).source) x w =
      (.ok (w.missionState (missionSource k.missionId)), w) := by
    unfold performSync
    rw [hx]
    rfl
  rw [hread]
  refine ⟨hleft, ?_⟩
  simp only
  split_ifs with hsame
  · -- The state is the one that the file has.
    refine ⟨hleft, fun b _ => ?_⟩
    obtain ⟨state, hstate, hdigest⟩ : ∃ state,
        w.missionState (missionSource k.missionId) = some state ∧
          state.digest = (k.value F).sourceRef := by
      obtain ⟨hsome, hdigest⟩ := (Option.any_eq_true_iff_get _ _).1 hsame
      exact ⟨_, (Option.some_get hsome).symm, of_decide_eq_true hdigest⟩
    unfold Resumable at hres
    rw [hstate] at hres
    obtain ⟨r, hr, hretired, -, -⟩ := hres
    obtain ⟨hlog, k', hid, hk', r', hr', hcontent⟩ := h.named k state hstate
    obtain rfl := Option.some.inj (hr.symm.trans hr')
    have hbody : k'.body = k.body := hsha (hk'.symm.trans hdigest)
    obtain ⟨hmem, hrid⟩ := row_some (show row (fun r : Row F => r.id) state.memoryId _ = _ from hr)
    have hrid' : state.memoryId = r.id := hrid.symm
    rw [hrid'] at hlog
    refine ⟨r, state, hstate, hrid', ⟨hmem, hlog, hretired⟩, ?_⟩
    rw [hcontent]
    change heading ++ k'.missionId ++ "\n" ++ k'.body = heading ++ k.missionId ++ "\n" ++ k.body
    rw [hid, hbody]
  · refine wp_bind (wp_attempted hleft (fun _ => nofun) fun x hx => ?_)
    have hing := h.ingestMission hres x
    have hperform : performSync (.ingest true (successor F (k.value F)
        (w.missionState (missionSource k.missionId)))) x w = w.ingest x true
        (successor F (k.value F) (w.missionState (missionSource k.missionId))) := by
      unfold performSync
      rw [hx]
    rw [hperform]
    set u := w.ingest x true (successor F (k.value F)
      (w.missionState (missionSource k.missionId))) with hu
    have hleft₁ : Left (fun k' => k'.missionId = k.missionId) w u.2 := ⟨hing.kept, hing.others⟩
    refine ⟨hleft₁, ?_⟩
    cases hid : u.1 with
    | error e => exact nofun
    | ok id =>
      obtain ⟨r, hr, rfl, hcontent⟩ := hing.record id hid
      refine wp_bind (wp_attempted hleft₁ (fun _ => nofun) fun x hx => ?_)
      obtain ⟨hkept, hothers, hcollected⟩ := hing.kept.commitMission (successor F
        (k.value F) (w.missionState (missionSource k.missionId))).sourceRef hr hcontent
      have hleft₂ : Left (fun k' => k'.missionId = k.missionId) w _ :=
        ⟨hkept, fun k' hne hk' => hothers k' hne (hing.others k' hne hk')⟩
      unfold performSync
      rw [hx]
      exact ⟨hleft₂, hleft₂, fun _ _ => hcollected⟩

/-- A record or an action is captured, or the call stops on the way. -/
theorem safe_capture (h : Kept w) (o : Observation) :
    Wp (I := syncInterface) performSync (Left (fun _ => False) w) (capture (o.value F))
      (fun _ _ => True) w := by
  have hleft : Left (fun _ => False) w w := ⟨h, fun _ _ hk => hk⟩
  refine wp_bind (wp_attempted hleft (fun _ => trivial) fun x hx => ?_)
  have hread : performSync (.existing (o.value F).source (o.value F).sourceRef) x w =
      (.ok (w.existing (o.value F).source (o.value F).sourceRef), w) := by
    unfold performSync
    rw [hx]
  rw [hread]
  refine ⟨hleft, ?_⟩
  cases hexisting : w.existing (o.value F).source (o.value F).sourceRef with
  | none =>
    refine wp_bind (wp_attempted hleft (fun _ => trivial) fun x hx => ?_)
    have hperform : performSync (.ingest false (o.value F)) x w = w.ingest x false (o.value F) := by
      unfold performSync
      rw [hx]
    rw [hperform]
    obtain ⟨hkept, hothers⟩ := h.ingestObservation o x
    have hleft₁ : Left (fun _ => False) w (w.ingest x false (o.value F)).2 :=
      ⟨hkept, fun k _ hk => hothers k hk⟩
    refine ⟨hleft₁, ?_⟩
    cases (w.ingest x false (o.value F)).1 with
    | error e => trivial
    | ok id =>
      refine wp_bind (wp_attempted hleft₁ (fun _ => trivial) fun x hx => ?_)
      obtain ⟨hkept₂, hothers₂⟩ := hkept.commit
        ⟨(o.value F).source, (o.value F).sourceRef, id⟩
      have hleft₂ : Left (fun _ => False) w _ :=
        ⟨hkept₂, fun k hk hcollected => hothers₂ k (hothers k hcollected)⟩
      unfold performSync
      rw [hx]
      exact ⟨hleft₂, hleft₂, trivial⟩
  | some c =>
    -- Its rows are committed together, so that it is not stored again.
    obtain ⟨hmem, hkey⟩ := row_some (show row (fun c : Captured => (c.source, c.sourceRef)) _
      w.captured = some c from hexisting)
    obtain ⟨hsource, href⟩ := Prod.mk.inj hkey
    have hprojected := h.projected c hmem (by rw [hsource]; exact o.typed)
    rw [hsource, href] at hprojected
    refine wp_bind (wp_attempted hleft (fun _ => trivial) fun x hx => ?_)
    have hread : performSync (.projected (o.value F).source (o.value F).sourceRef) x w =
        (.ok true, w) := by
      unfold performSync
      rw [hx]
      simp only [decide_eq_true hprojected]
    rw [hread]
    exact ⟨hleft, hleft, trivial⟩

end calls

/-! ## Runs -/

/-- The calls on the states of missions, and whether they returned. -/
inductive Collecting (F : Type) [Host F] : List (Checkpoint × Bool) → Stores F → Prop where
  | start : Collecting F [] .empty
  | capture {calls : List (Checkpoint × Bool)} {w w' : Stores F} (h : Collecting F calls w)
      (o : Observation)
      (hstop : Reaches (I := syncInterface) performSync (capture (o.value F)) w w') :
      Collecting F calls w'
  | interrupted {calls : List (Checkpoint × Bool)} {w w' : Stores F} (h : Collecting F calls w)
      (k : Checkpoint) (hres : Resumable k w)
      (hstop : Reaches (I := syncInterface) performSync (captureMission F (k.value F)) w w') :
      Collecting F (calls ++ [(k, false)]) w'
  | returned {calls : List (Checkpoint × Bool)} {w w' : Stores F} {b : Bool}
      (h : Collecting F calls w)
      (k : Checkpoint) (hres : Resumable k w)
      (hreturn : Finishes (I := syncInterface) performSync (captureMission F (k.value F)) w
        (.ok b) w') : Collecting F (calls ++ [(k, true)]) w'

/-- The last call on the mission of the state was about the state, and it returned. -/
def Latest (calls : List (Checkpoint × Bool)) (k : Checkpoint) : Prop :=
  ∃ l₁ l₂, calls = l₁ ++ (k, true) :: l₂ ∧ ∀ c ∈ l₂, c.1.missionId ≠ k.missionId

variable {calls : List (Checkpoint × Bool)}

theorem latest_append {c : Checkpoint × Bool} {k : Checkpoint} (h : Latest (calls ++ [c]) k) :
    c = (k, true) ∨ (c.1.missionId ≠ k.missionId ∧ Latest calls k) := by
  obtain ⟨l₁, l₂, heq, hl₂⟩ := h
  rcases List.eq_nil_or_concat l₂ with rfl | ⟨l, d, hl⟩
  · obtain ⟨-, hc⟩ := List.append_inj' heq rfl
    exact .inl (List.cons.inj hc).1
  · rw [List.concat_eq_append] at hl
    rw [hl, ← List.cons_append, ← List.append_assoc] at heq
    obtain ⟨hcalls, hc⟩ := List.append_inj' heq rfl
    have hd : c = d := (List.cons.inj hc).1
    have hmem : c ∈ l₂ := by
      rw [hl, hd]
      exact List.mem_append_right l List.mem_cons_self
    refine .inr ⟨hl₂ c hmem, l₁, l, hcalls, fun e he => hl₂ e ?_⟩
    rw [hl]
    exact List.mem_append_left [d] he

theorem kept_empty : Kept (.empty : Stores F) := by
  refine ⟨List.nodup_nil, fun _ h => (List.not_mem_nil h).elim,
    fun _ _ h => (List.not_mem_nil h).elim, fun _ h => (List.not_mem_nil h).elim,
    fun _ _ _ h => (List.not_mem_nil h.1).elim, fun _ _ h => ?_,
    fun _ h => (List.not_mem_nil h).elim⟩
  cases h

theorem kept_of_collecting (hsha : Function.Injective (Host.sha256 F)) {w : Stores F}
    (h : Collecting F calls w) : Kept w ∧ ∀ k, Latest calls k → Collected k w := by
  induction h with
  | start =>
    refine ⟨kept_empty, fun k hk => ?_⟩
    obtain ⟨l₁, l₂, heq, -⟩ := hk
    simp at heq
  | capture h o hstop ih =>
    have hleft := (safe_capture ih.1 o).crash hstop
    exact ⟨hleft.kept, fun k hk => hleft.others k id (ih.2 k hk)⟩
  | interrupted h k hres hstop ih =>
    have hleft := (safe_captureMission hsha ih.1 hres).crash hstop
    refine ⟨hleft.kept, fun k' hk' => ?_⟩
    rcases latest_append hk' with heq | ⟨hne, hk'⟩
    · cases heq
    · exact hleft.others k' (Ne.symm hne) (ih.2 k' hk')
  | returned h k hres hreturn ih =>
    have hsafe := safe_captureMission hsha ih.1 hres
    have hleft := hsafe.crash (reaches_of_finishes hreturn)
    refine ⟨hleft.kept, fun k' hk' => ?_⟩
    rcases latest_append hk' with heq | ⟨hne, hk'⟩
    · obtain ⟨rfl, -⟩ := Prod.mk.inj heq
      exact hsafe.finish hreturn _ rfl
    · exact hleft.others k' (Ne.symm hne) (ih.2 k' hk')

variable {x : SyncChoice F}

theorem ingestTx_accepts {w : Stores F} {k : Checkpoint} (hres : Resumable k w)
    (received stored : String) (hfresh : findRow x.recordId w.memory = none) :
    ∃ out, ingestTx ((successor F (k.value F)
      (w.missionState (missionSource k.missionId))).request x.importance received) x.vector
      x.vectorModel x.authorityStatus stored x.recordId w.memory = .ok out := by
  have hinsert : ∀ r : Row F, r.id = x.recordId → insertRow r w.memory = .ok (w.memory ++ [r]) := by
    intro r hr
    unfold insertRow
    rw [hr, hfresh]
  unfold Resumable at hres
  cases hprevious : w.missionState (missionSource k.missionId) with
  | none =>
    have hsup : ((successor F (k.value F) none).request x.importance received).supersedesId =
        none := rfl
    unfold ingestTx
    simp only [hsup]
    cases duplicateOf ((successor F (k.value F) none).request x.importance received) stored
        w.memory with
    | some d => exact ⟨_, rfl⟩
    | none =>
      simp only
      rw [hinsert _ rfl]
      exact ⟨_, rfl⟩
  | some state =>
    rw [hprevious] at hres
    obtain ⟨r, hr, hretired, hproject, henvironment⟩ := hres
    have hsup : ((successor F (k.value F) (some state)).request x.importance
        received).supersedesId = some state.memoryId := rfl
    unfold ingestTx
    simp only [hsup, hr]
    rw [if_neg ?_, if_neg (by rw [hretired]; exact Bool.false_ne_true), hinsert _ rfl]
    · exact ⟨_, rfl⟩
    · rintro (hne | hne)
      · exact hne hproject
      · exact hne henvironment

/-- An operation that succeeds, and what follows. -/
theorem finishes_op {α : Type} {o : SyncOp} {f : o.Reply → Sync α} {a : o.Reply}
    {w w' w'' : Stores F} {r : Except SyncError α} (h : performSync o x w = (.ok a, w'))
    (hf : Finishes (I := syncInterface) performSync (f a) w' r w'') :
    Finishes (I := syncInterface) performSync (syncOp o >>= f) w r w'' := by
  refine ⟨x, ?_⟩
  change Finishes (I := syncInterface) performSync
    ((Prog.ofExcept (performSync o x w).1).bind f) (performSync o x w).2 r w''
  rw [h]
  exact hf

theorem captures {w : Stores F} {k : Checkpoint} (hres : Resumable k w) :
    ∃ b w', Finishes (I := syncInterface) performSync (captureMission F (k.value F)) w
      (.ok b) w' := by
  obtain ⟨id, hid⟩ := Infinite.exists_notMem_finset (w.memory.map fun r => r.id).toFinset
  have hfresh : findRow id w.memory = none := by
    refine row_eq_none.2 fun r hr heq => hid (List.mem_toFinset.2 ?_)
    rw [← heq]
    exact List.mem_map_of_mem hr
  set x : SyncChoice F := ⟨none, false, "", "", id, Host.zero, [], "", ""⟩ with hx
  have hread : performSync (.missionState (k.value F).source) x w =
      (.ok (w.missionState (missionSource k.missionId)), w) := rfl
  by_cases hsame : ((w.missionState (missionSource k.missionId)).any fun state =>
      state.digest = (k.value F).sourceRef) = true
  · refine ⟨false, w, finishes_op hread ?_⟩
    rw [if_pos hsame]
    exact ⟨rfl, rfl⟩
  · obtain ⟨⟨⟨record, duplicate, superseded⟩, memory⟩, hout⟩ :=
      ingestTx_accepts (x := x) hres (advance w.clock x.receivedAt)
        (advance (advance w.clock x.receivedAt) x.storedAt) hfresh
    set v := successor F (k.value F) (w.missionState (missionSource k.missionId)) with hv
    have hing : performSync (.ingest true v) x w =
        (.ok record.id, (w.ingest x true v).2) := by
      change w.ingest x true v = _
      unfold Stores.ingest
      simp only [hout]
      rfl
    have hrest : ∃ w', Finishes (I := syncInterface) performSync (do
        let memoryId : String ← syncOp (.ingest true v)
        let _ : Unit ← syncOp (.commitMission ⟨(k.value F).source, v.sourceRef, memoryId⟩
          ⟨(k.value F).source, (k.value F).sourceRef, memoryId⟩)
        return true) w (.ok true) w' :=
      ⟨_, finishes_op hing (finishes_op (x := x) rfl ⟨rfl, rfl⟩)⟩
    obtain ⟨w', hw'⟩ := hrest
    refine ⟨true, w', finishes_op hread ?_⟩
    rw [if_neg hsame]
    exact hw'

/-- In every run whose captures are resumable, a mission whose latest state was captured has one
current record, with that state; and what is resumable can be captured. -/
theorem collected (hsha : Function.Injective (Host.sha256 F))
    {calls : List (Checkpoint × Bool)} {w : Stores F} (h : Collecting F calls w) :
    (∀ k, Latest calls k → ∃ r, w.holds k.missionId r ∧ r.content = (k.value F).content ∧
      ∀ r', w.holds k.missionId r' → r' = r) ∧
    ∀ k, Resumable k w → ∃ b w', Finishes (I := syncInterface) performSync
      (captureMission F (k.value F)) w (.ok b) w' := by
  obtain ⟨hkept, hcollected⟩ := kept_of_collecting hsha h
  refine ⟨fun k hk => ?_, fun k hres => captures hres⟩
  obtain ⟨r, state, -, -, hholds, hcontent⟩ := hcollected k hk
  exact ⟨r, hholds, hcontent, fun r' hr' => hkept.single _ _ _ hr' hholds⟩

/-- When the record that the file names is not current any more, no other state is captured. -/
theorem stuck {w : Stores F} {k : Checkpoint} {state : MissionState} {r : Row F}
    (hstate : w.missionState (missionSource k.missionId) = some state)
    (hr : findRow state.memoryId w.memory = some r) (hretired : r.retired = true)
    (hdigest : state.digest ≠ (k.value F).sourceRef) {b : Bool} {w' : Stores F} :
    ¬ Finishes (I := syncInterface) performSync (captureMission F (k.value F)) w (.ok b) w' := by
  have hwp : Wp (I := syncInterface) performSync (fun _ => True) (captureMission F (k.value F))
      (fun r _ => ∀ b, r ≠ .ok b) w := by
    refine wp_bind (wp_attempted trivial (fun _ => nofun) fun x hx => ⟨trivial, ?_⟩)
    have hread : performSync (.missionState (k.value F).source) x w = (.ok (some state), w) := by
      unfold performSync
      rw [hx, ← hstate]
      rfl
    rw [hread]
    simp only
    rw [if_neg (by simpa using hdigest)]
    refine wp_bind (wp_attempted trivial (fun _ => nofun) fun x hx => ⟨trivial, ?_⟩)
    have hrefused : (performSync (.ingest true (successor F (k.value F) (some state))) x w).1 =
        .error (.memory "Memory did not confirm persistence") := by
      unfold performSync
      rw [hx]
      unfold Stores.ingest
      cases htx : ingestTx ((successor F (k.value F) (some state)).request x.importance
          (advance w.clock x.receivedAt)) x.vector x.vectorModel x.authorityStatus
          (advance (advance w.clock x.receivedAt) x.storedAt) x.recordId w.memory with
      | error e => simp only [htx]
      | ok out =>
        have hsup : ((successor F (k.value F) (some state)).request x.importance
            (advance w.clock x.receivedAt)).supersedesId = some state.memoryId := rfl
        unfold ingestTx at htx
        simp only [hsup, hr] at htx
        split_ifs at htx
    rw [hrefused]
    exact nofun
  exact fun hf => hwp.finish hf b rfl

namespace Sample

/-- The texts are their own digests. -/
instance texts : Host ℤ where
  decidableLE := inferInstance
  decidableLT := inferInstance
  zero := 0
  one := 1
  add a b := a + b
  share _ := 1
  average x := x
  halve x := x / 2
  tokenize s := [s]
  overlap _ _ := 0
  normalize s := s
  sha256 s := s
  localEmbed _ _ := ([], 1)
  localScore _ _ semantic _ _ _ _ := semantic
  isfinite _ := true

def step (name : String) : Checkpoint where
  project := "infra-shared"
  allowedRoles := ["infra-shared"]
  missionId := "m"
  body := "\x7b\"current_step\"" ++ name
  plain := by decide
  headed := by
    rw [String.toList_append]
    exact List.prefix_append _ _

def answer (recordId : String) (lost : Bool) : SyncChoice ℤ :=
  ⟨none, lost, "t", "t", recordId, 0, [], "", ""⟩

def first : Option (Except SyncError Bool × Stores ℤ) :=
  play performSync (captureMission ℤ ((step "1").value ℤ)) (List.replicate 3 (answer "a" false))
    .empty

def second (w : Stores ℤ) : Option (Except SyncError Bool × Stores ℤ) :=
  play performSync (captureMission ℤ ((step "2").value ℤ)) (List.replicate 3 (answer "b" true)) w

theorem first_collecting : ∃ w, Collecting ℤ [(step "1", true)] w ∧
    Finishes (I := syncInterface) performSync (captureMission ℤ ((step "1").value ℤ)) .empty
      (.ok true) w ∧ first = some (.ok true, w) := by
  have hfirst : ∃ u ∈ first, u.1 = .ok true := by
    decide
  obtain ⟨⟨r, w⟩, hu, rfl⟩ := hfirst
  have hrun := finishes_of_play (Option.mem_def.1 hu)
  refine ⟨w, Collecting.returned .start (step "1") ?_ hrun, hrun, hu⟩
  exact ⟨fun _ h => (List.not_mem_nil h.1).elim, fun _ h => (List.not_mem_nil h).elim⟩

/-- The first state is captured again. -/
def third (w : Stores ℤ) : Option (Except SyncError Bool × Stores ℤ) :=
  play performSync (captureMission ℤ ((step "1").value ℤ)) [answer "c" false] w

/-- After the answer to the second state was lost, the first state is taken for captured while
the record of the second one is current, and the second state is not captured any more. -/
theorem lost_forever : ∃ w₁ w₂ w₃ : Stores ℤ,
    Finishes (I := syncInterface) performSync (captureMission ℤ ((step "1").value ℤ)) .empty
      (.ok true) w₁ ∧
    Reaches (I := syncInterface) performSync (captureMission ℤ ((step "2").value ℤ)) w₁ w₂ ∧
    Finishes (I := syncInterface) performSync (captureMission ℤ ((step "1").value ℤ)) w₂
      (.ok false) w₃ ∧
    (¬ ∃ r, w₃.holds "m" r ∧ r.content = ((step "1").value ℤ).content) ∧
    ∀ b w', ¬ Finishes (I := syncInterface) performSync
      (captureMission ℤ ((step "2").value ℤ)) w₂ (.ok b) w' := by
  have hplay : ∃ u ∈ first, u.1 = .ok true ∧ ∃ v ∈ second u.2, ∃ z ∈ third v.2,
      z.1 = .ok false ∧
      (∀ r ∈ z.2.memory, r.retired = true ∨ r.content ≠ ((step "1").value ℤ).content) ∧
      ((v.2.missionState (missionSource "m")).any fun state => decide (state.digest =
        (step "1").body) && (findRow state.memoryId v.2.memory).any fun r => r.retired) = true := by
    decide
  obtain ⟨⟨r₁, w₁⟩, hu, rfl, ⟨r₂, w₂⟩, hv, ⟨r₃, w₃⟩, hz, rfl, hcurrent, hstate⟩ := hplay
  obtain ⟨hsome, hstate⟩ := (Option.any_eq_true_iff_get _ _).1 hstate
  obtain ⟨hdigest, hretired⟩ := Bool.and_eq_true_iff.1 hstate
  obtain ⟨hfound, hretired⟩ := (Option.any_eq_true_iff_get _ _).1 hretired
  refine ⟨w₁, w₂, w₃, finishes_of_play (Option.mem_def.1 hu),
    reaches_of_finishes (finishes_of_play (Option.mem_def.1 hv)),
    finishes_of_play (Option.mem_def.1 hz), ?_, fun b w' => ?_⟩
  · rintro ⟨r, hr, hcontent⟩
    rcases hcurrent r hr.1 with hretired' | hne
    · rw [hr.2.2] at hretired'
      cases hretired'
    · exact hne hcontent
  · refine stuck (Option.some_get hsome).symm (Option.some_get hfound).symm hretired ?_
    rw [of_decide_eq_true hdigest]
    decide

theorem collected_sample : ∃ w : Stores ℤ, ∃ r, w.holds "m" r ∧
    r.content = ((step "1").value ℤ).content ∧ ∀ r', w.holds "m" r' → r' = r := by
  obtain ⟨w, hw, -, -⟩ := first_collecting
  exact ⟨w, (collected (fun _ _ h => h) hw).1 (step "1") ⟨[], [], rfl, by simp⟩⟩

end Sample

end OpsSync
