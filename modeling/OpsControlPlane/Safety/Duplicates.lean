import OpsControlPlane.Safety.Supersessions

/-!
# Duplicates

Two records of one deduplication key may both be current at a time. A plain ingestion looks for
a record that is current now, and a supersession does not look.

`deduplicated_iff` says when a history keeps the records of a key apart: every record that is
inserted meets no record of its key that is left, at any time.
-/

namespace OpsMemory

set_option linter.unusedSectionVars false

open Transaction Calls

variable {F : Type} [Host F]

/-! ## Tables -/

/-- At every time each deduplication key has at most one current record. -/
def Deduplicated (rows : Table F) : Prop :=
  ∀ key now, rows.countP (fun r => r.dedupKey = key ∧ r.isCurrent now) ≤ 1

def Row.meets (r : Row F) (q : IngestRequest F) : Prop :=
  r.retired = false ∧ (∀ x ∈ r.validUntil, r.validFrom < x ∧ q.validFrom < x) ∧
    ∀ x ∈ q.validUntil, r.validFrom < x ∧ q.validFrom < x

variable {now model authority id : String} {r : Row F}

theorem isCurrent_iff : r.isCurrent now = true ↔
    r.retired = false ∧ r.validFrom ≤ now ∧ ∀ x ∈ r.validUntil, now < x := by
  simp only [Memory.isCurrent, Memory.retired, decide_eq_true_eq, decide_eq_false_iff_not, not_or,
    not_not, and_assoc]

variable {q : IngestRequest F} {vector : List F}

theorem meets_iff : r.meets q ↔ ∃ time, r.isCurrent time = true ∧
      (newRow q vector model authority now id).isCurrent time = true := by
  simp only [isCurrent_iff]
  constructor
  · rintro ⟨hretired, hr, hq⟩
    -- the later of the two beginnings
    rcases Std.le_total (a := r.validFrom) (b := q.validFrom) with hle | hle
    · exact ⟨q.validFrom, ⟨hretired, hle, fun x hx => (hr x hx).2⟩,
        ⟨rfl, Std.le_refl _, fun x hx => (hq x hx).2⟩⟩
    · exact ⟨r.validFrom, ⟨hretired, Std.le_refl _, fun x hx => (hr x hx).1⟩,
        ⟨rfl, hle, fun x hx => (hq x hx).1⟩⟩
  · rintro ⟨time, ⟨hretired, hr, huntil⟩, -, hq, huntil'⟩
    exact ⟨hretired,
      fun x hx => ⟨Std.lt_of_le_of_lt hr (huntil x hx), Std.lt_of_le_of_lt hq (huntil x hx)⟩,
      fun x hx => ⟨Std.lt_of_le_of_lt hr (huntil' x hx), Std.lt_of_le_of_lt hq (huntil' x hx)⟩⟩

namespace Deduplicated

variable {rows : Table F}

theorem empty : Deduplicated ([] : Table F) :=
  fun _ _ => Nat.zero_le 1

variable {f : Row F → Row F}

theorem map (h : Deduplicated rows) (hkey : ∀ r, (f r).dedupKey = r.dedupKey)
    (hcurrent : ∀ r now, (f r).isCurrent now = true → r.isCurrent now = true) :
    Deduplicated (rows.map f) := by
  intro key now
  rw [List.countP_map]
  refine (List.countP_mono_left fun r _ hr => ?_).trans (h key now)
  simp only [Function.comp_apply, decide_eq_true_eq, hkey] at hr ⊢
  exact ⟨hr.1, hcurrent r now hr.2⟩

theorem rewrite (h : Deduplicated rows) (hf : ∀ r : Row F, r.Rewritten (f r)) :
    Deduplicated (rows.map f) := by
  have hsame : ∀ r : Row F, r.Same (f r) := fun r => Row.same_of_terms (hf r).terms
  refine h.map (fun r => (hsame r).dedupKey) fun r now hcurrent => ?_
  simp only [Memory.isCurrent, decide_eq_true_eq] at hcurrent ⊢
  rw [(hf r).successor, (hsame r).validFrom, (hsame r).validUntil] at hcurrent
  exact ⟨(hf r).invalid hcurrent.1, hcurrent.2⟩

theorem append_iff (h : Deduplicated rows) (r : Row F) : Deduplicated (rows ++ [r]) ↔
    ∀ q ∈ rows, q.dedupKey = r.dedupKey →
      ¬ ∃ now, q.isCurrent now = true ∧ r.isCurrent now = true := by
  constructor
  · rintro hd q hq hkey ⟨now, hqnow, hrnow⟩
    have hle := hd r.dedupKey now
    have hpos : 0 < rows.countP fun p => p.dedupKey = r.dedupKey ∧ p.isCurrent now :=
      List.countP_pos_iff.2 ⟨q, hq, decide_eq_true ⟨hkey, hqnow⟩⟩
    rw [List.countP_append, List.countP_singleton, if_pos (decide_eq_true ⟨rfl, hrnow⟩)] at hle
    omega
  · intro hapart key now
    rw [List.countP_append, List.countP_singleton]
    split_ifs with hr
    · obtain ⟨hkey, hrnow⟩ := of_decide_eq_true hr
      have hzero : rows.countP (fun p => p.dedupKey = key ∧ p.isCurrent now) = 0 := by
        refine List.countP_eq_zero.2 fun q hq hqkey => ?_
        obtain ⟨hqkey, hqnow⟩ := of_decide_eq_true hqkey
        exact hapart q hq (hqkey.trans hkey.symm) ⟨now, hqnow, hrnow⟩
      omega
    · have hle := h key now
      omega

end Deduplicated

/-! ## Ingestions -/

def Inserts (q : IngestRequest F) (now id : String) (rows : Table F) : Prop :=
  (∀ r ∈ rows, r.id ≠ id) ∧
    match q.supersedesId with
    | none => duplicateOf q now rows = none
    | some i => ∃ old ∈ rows, old.id = i ∧ old.project = q.project ∧
        old.environment = q.environment ∧ old.retired = false

def inserted (q : IngestRequest F) (r : Row F) (now : String) (rows : Table F) : Table F :=
  match q.supersedesId with
  | none => rows ++ [r]
  | some i => updateRow i (Row.supersede r.id now) (rows ++ [r])

theorem insertRow_ok {rows : Table F} (hnew : ∀ q ∈ rows, q.id ≠ r.id) :
    insertRow r rows = .ok (rows ++ [r]) := by
  have hnone : findRow r.id rows = none := row_eq_none.2 hnew
  unfold insertRow
  rw [hnone]

theorem run_of_inserts (vector : List F) (model authority : String) {rows : Table F}
    (hnodup : (rows.map fun r => r.id).Nodup) (h : Inserts q now id rows) :
    ∃ reply, (CatalogTx.ingest q vector model authority now id).run rows =
      .ok (reply, inserted q (newRow q vector model authority now id) now rows) := by
  obtain ⟨hnew, hcase⟩ := h
  have hins := insertRow_ok (r := newRow q vector model authority now id) hnew
  change ∃ reply, ingestTx q vector model authority now id rows = _
  unfold ingestTx inserted
  simp only
  cases hsup : q.supersedesId with
  | none =>
    simp only [hsup] at hcase
    simp only [hcase, hins]
    exact ⟨_, rfl⟩
  | some i =>
    simp only [hsup] at hcase
    obtain ⟨old, hold, rfl, hproject, henvironment, hretired⟩ := hcase
    have hfind : findRow old.id rows = some old :=
      row_of_mem (g := fun r : Row F => r.id) hnodup hold
    simp only [hfind, hins]
    rw [if_neg (by simp [hproject, henvironment]), if_neg (by simp [hretired])]
    exact ⟨_, rfl⟩

/-- What a statement leaves of the rows, and whether it inserts one. -/
theorem catalogStep_inserts {rows rows' : Table F} {t : CatalogTx F} {reply : t.Reply}
    (h : CatalogStep rows t reply rows') :
    (∃ f : Row F → Row F, (∀ r : Row F, r.Rewritten (f r)) ∧ rows' = rows.map f) ∨
    ∃ q vector model authority now id, t = .ingest q vector model authority now id ∧
      Inserts q now id rows ∧
      rows' = inserted q (newRow q vector model authority now id) now rows := by
  cases h with
  | rewrite t reply f hf => exact Or.inl ⟨f, hf, rfl⟩
  | insert q vector model authority now id hsup hdup hnew =>
    refine Or.inr ⟨q, vector, model, authority, now, id, rfl, ⟨hnew, ?_⟩, ?_⟩
    · rw [hsup]
      exact hdup
    · unfold inserted
      rw [hsup]
  | supersede q vector model authority now id old hsup hold hproject henvironment hcurrent hnew =>
    refine Or.inr ⟨q, vector, model, authority, now, id, rfl, ⟨hnew, ?_⟩, ?_⟩
    · rw [hsup]
      exact ⟨old, hold, rfl, hproject, henvironment, hcurrent⟩
    · unfold inserted
      rw [hsup]
      rfl

/-- The record of the request meets no record of its key that is left. -/
def Apart (q : IngestRequest F) (rows : Table F) : Prop :=
  ∀ r ∈ rows, r.dedupKey = (dedupKey q).2 → q.supersedesId ≠ some r.id → ¬ r.meets q

/-- An ingestion leaves the keys apart if its record does. -/
theorem deduplicated_inserted {rows : Table F} (h : Deduplicated rows)
    (hi : Inserts q now id rows) :
    Deduplicated (inserted q (newRow q vector model authority now id) now rows) ↔
      Apart q rows := by
  obtain ⟨hnew, hcase⟩ := hi
  set new := newRow q vector model authority now id with hr
  unfold inserted Apart
  split at hcase
  · next hsup =>
    rw [hsup, h.append_iff]
    refine forall₂_congr fun r _ => forall_congr' fun _ => ?_
    rw [hr, ← meets_iff]
    simp
  · next i hsup =>
    obtain ⟨old, hold, rfl, -, -, -⟩ := hcase
    have hne : new.id ≠ old.id := fun heq => hnew old hold heq.symm
    rw [hsup]
    simp only [updateRow]
    have hlast : update (fun r => r.id = old.id) (Row.supersede new.id now) [new] = [new] :=
      update_eq_self (fun r hmem => by
        rw [List.mem_singleton.1 hmem]
        exact decide_eq_false hne) _
    rw [update_append, hlast]
    have hrest : Deduplicated
        (update (fun r => r.id = old.id) (Row.supersede new.id now) rows) := by
      refine h.map (fun r => ?_) fun r time hcurrent => ?_
      · split_ifs <;> rfl
      · split_ifs at hcurrent
        · simp [Memory.isCurrent, Row.supersede] at hcurrent
        · exact hcurrent
    rw [hrest.append_iff]
    constructor
    · intro hapart r hmem hkey hother hmeets
      have hid : r.id ≠ old.id := fun heq => hother (congrArg some heq.symm)
      refine hapart r (mem_update.2 ⟨r, hmem, ?_⟩) hkey (meets_iff.1 hmeets)
      rw [if_neg (by simpa using hid)]
    · rintro hapart r' hmem' hkey ⟨time, hcurrent, hcurrent'⟩
      obtain ⟨r, hmem, rfl⟩ := mem_update.1 hmem'
      split_ifs at hcurrent hkey with hid
      · simp [Memory.isCurrent, Row.supersede] at hcurrent
      · refine hapart r hmem hkey (fun heq => ?_) (meets_iff.2 ⟨time, hcurrent, hcurrent'⟩)
        exact hid (decide_eq_true (Option.some.inj heq).symm)

/-! ## Runs -/

section runs

variable {ms : List (Moment (memorySystem F))} {s s' : State (memorySystem F)}

/-- What the moment is about to insert meets no record of its key that is left. -/
def KeepsApart (m : Moment (memorySystem F)) : Prop :=
  ∀ i x q vector model authority now id, m.move = .act i x → x.fault = none →
    m.before.next i = some (.tx (.ingest q vector model authority now id)) →
    Inserts q now id m.before.store.rows → Apart q m.before.store.rows

variable {m : Move (memorySystem F)}

theorem deduplicated_idle (hd : Deduplicated s'.store.rows)
    (hnone : ∀ i x q vector model authority now id, m = .act i x → x.fault = none →
      s.next i = some (.tx (.ingest q vector model authority now id)) →
      ¬ Inserts q now id s.store.rows) : Deduplicated s'.store.rows ↔ KeepsApart ⟨s, m, s'⟩ :=
  ⟨fun _ i x q vector model authority now id hm hx hn hi =>
    absurd hi (hnone i x q vector model authority now id hm hx hn), fun _ => hd⟩

theorem perform_inserts {q : IngestRequest F} (vector : List F) (model authority : String)
    {now id : String} {x : MemoryChoice F} {st : Store F}
    (hnodup : (st.rows.map fun r => r.id).Nodup) (hx : x.fault = none)
    (hi : Inserts q now id st.rows) :
    ∃ reply, performMemory (.tx (.ingest q vector model authority now id)) x st =
      (.ok reply, { st with
        rows := inserted q (newRow q vector model authority now id) now st.rows }) := by
  obtain ⟨reply, hrun⟩ := run_of_inserts vector model authority hnodup hi
  exact ⟨reply, by simp only [performMemory, hx, hrun]⟩

/-- What one move does to the keys. -/
theorem deduplicated_step (h : s.step m = some s') (hnodup : (s.store.rows.map fun r => r.id).Nodup)
    (hd : Deduplicated s.store.rows) : Deduplicated s'.store.rows ↔ KeepsApart ⟨s, m, s'⟩ := by
  rcases step_cases h with ⟨r, rfl, rfl⟩ | ⟨i, x, c, o, k, rfl, hc, ho, rfl⟩ | ⟨i, c, rfl, hc, rfl⟩
  · exact deduplicated_idle hd fun _ _ _ _ _ _ _ _ hm => by cases hm
  · have hnext : s.next i = some o := by rw [State.next, hc, Option.bind_some, Call.next, ho]
    by_cases hins : ∃ q vector model authority now id,
        o = .tx (.ingest q vector model authority now id) ∧ x.fault = none ∧
          Inserts q now id s.store.rows
    · obtain ⟨q, vector, model, authority, now, id, rfl, hx, hi⟩ := hins
      obtain ⟨reply, heq⟩ := perform_inserts vector model authority hnodup hx hi
      change Deduplicated (performMemory _ x s.store).2.rows ↔ _
      rw [heq, deduplicated_inserted hd hi]
      constructor
      · intro hapart i' x' q' vector' model' authority' now' id' hm _ hn _
        cases hm
        cases hnext.symm.trans hn
        exact hapart
      · intro hkeeps
        exact hkeeps i x q vector model authority now id rfl hx hnext hi
    · refine deduplicated_idle ?_ fun i' x' q vector model authority now id hm hx hn hi => ?_
      · change Deduplicated (performMemory o x s.store).2.rows
        cases o with
        | tx t =>
          rcases performMemory_tx t x s.store with ⟨e, he⟩ | ⟨reply, rows', hrun, heq⟩
          · rw [he]
            exact hd
          · rw [heq]
            rcases catalogStep_inserts (catalogStep_run hrun) with ⟨f, hf, rfl⟩ |
              ⟨q, vector, model, authority, now, id, rfl, hi, -⟩
            · exact hd.rewrite hf
            · refine absurd ⟨q, vector, model, authority, now, id, rfl, ?_, hi⟩ hins
              by_contra hx
              obtain ⟨message, hx⟩ := Option.ne_none_iff_exists'.1 hx
              simp [performMemory, hx] at heq
        | _ => exact hd
      · cases hm
        exact hins ⟨q, vector, model, authority, now, id, Option.some.inj (hnext.symm.trans hn),
          hx, hi⟩
  · exact deduplicated_idle hd fun _ _ _ _ _ _ _ _ hm => by cases hm

/-- The keys have at most one current record each in every state of a history, if and only if
each record that is inserted meets no record of its key that is left. -/
theorem deduplicated_iff (hr : Run (idle emptyStore) ms s) :
    (∀ m ∈ ms, Deduplicated m.after.store.rows) ↔ ∀ m ∈ ms, KeepsApart m := by
  suffices ((∀ m ∈ ms, Deduplicated m.after.store.rows) ↔ ∀ m ∈ ms, KeepsApart m) ∧
      ((∀ m ∈ ms, Deduplicated m.after.store.rows) → Deduplicated s.store.rows) from this.1
  induction hr with
  | start => exact ⟨by simp, fun _ => Deduplicated.empty⟩
  | @step ms s s' m hr h ih =>
    obtain ⟨hiff, hlast⟩ := ih
    have hstep : Deduplicated s.store.rows →
        (Deduplicated s'.store.rows ↔ KeepsApart ⟨s, m, s'⟩) :=
      deduplicated_step h (linked_of_run hr).1.nodup
    simp only [List.forall_mem_append, List.forall_mem_singleton]
    refine ⟨?_, fun hall => hall.2⟩
    constructor
    · rintro ⟨hall, hd⟩
      exact ⟨hiff.1 hall, (hstep (hlast hall)).1 hd⟩
    · rintro ⟨hall, hkeeps⟩
      have hbefore := hiff.2 hall
      exact ⟨hbefore, (hstep (hlast hbefore)).2 hkeeps⟩

end runs

/-! ## Two announcements -/

namespace Sample

/-- A memory that is valid from next year. -/
def announcement : IngestRequest ℤ :=
  { note with validFrom := "2027-01-01T00:00:00+00:00" }

/-- Two processes store it. -/
def announced : List (Move (memorySystem ℤ)) :=
  ask (.ingest announcement) :: List.replicate 9 (.act 0 calm) ++
    ask (.ingest announcement) :: List.replicate 9 (.act 1 calmTwo)

/-- Both records are current the year after. -/
def doubled (s : State (memorySystem ℤ)) : Bool :=
  s.store.rows.countP (fun r => r.dedupKey = (dedupKey announcement).2 ∧
    r.isCurrent "2027-06-01T00:00:00+00:00") = 2

/-- A plain ingestion looks only for what is current now. -/
theorem announced_twice : ∃ (ms : List (Moment (memorySystem ℤ))) (s : State (memorySystem ℤ)),
    Run (idle emptyStore) ms s ∧ ¬ Deduplicated s.store.rows := by
  have hexec : ∃ s ∈ (idle emptyStore).exec announced, doubled s = true := by
    decide
  obtain ⟨s, hs, hdoubled⟩ := hexec
  obtain ⟨ms, hr, -⟩ := Run.of_exec hs
  refine ⟨ms, s, hr, fun hd => ?_⟩
  have hle := hd (dedupKey announcement).2 "2027-06-01T00:00:00+00:00"
  have htwo := of_decide_eq_true hdoubled
  omega

theorem deduplicated_iff_sample : ∃ (ms : List (Moment (memorySystem ℤ)))
    (s : State (memorySystem ℤ)), Run (idle emptyStore) ms s ∧ s.store.rows ≠ [] ∧
    ((∀ m ∈ ms, Deduplicated m.after.store.rows) ↔ ∀ m ∈ ms, KeepsApart m) := by
  have hexec : ∃ s ∈ (idle emptyStore).exec announced, doubled s = true := by
    decide
  obtain ⟨s, hs, hdoubled⟩ := hexec
  obtain ⟨ms, hr, -⟩ := Run.of_exec hs
  refine ⟨ms, s, hr, fun hnil => ?_, deduplicated_iff hr⟩
  unfold doubled at hdoubled
  rw [hnil] at hdoubled
  simp at hdoubled

end Sample

end OpsMemory
