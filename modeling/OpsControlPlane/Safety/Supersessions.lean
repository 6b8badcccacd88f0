import OpsControlPlane.Lib.Evolving
import OpsControlPlane.Safety.Forgetting

/-!
# Supersessions

`CatalogStep` lists what a statement can do to the rows: it rewrites rows, inserts one, or
inserts one that supersedes another. From it, `Linked.step` keeps the two links of every
supersession inverse and in the order of insertion.

`supersession_chains` is the shape of the chains in every history, and what a chain can do to
the classification and the roles when its writers may not declassify.
-/

namespace OpsMemory

set_option linter.unusedSectionVars false

open Transaction Calls

variable {F : Type} [Host F]

/-! ## Statements -/

/-- The row without what a statement may rewrite. -/
def Row.terms (r : Row F) : Row F :=
  { r with
    invalidatedAt := none, invalidReason := none, staleAt := none, supersededById := none,
    updatedAt := r.createdAt, qdrantState := .pending, qdrantError := none }

@[simp] theorem Row.terms_supersede (successor now : String) (r : Row F) :
    (r.supersede successor now).terms = r.terms := rfl

/-- Rows with the same terms agree in what is never rewritten. -/
structure Row.Same (r r' : Row F) : Prop where
  id : r'.id = r.id
  project : r'.project = r.project
  environment : r'.environment = r.environment
  classification : r'.classification = r.classification
  allowedRoles : r'.allowedRoles = r.allowedRoles
  validFrom : r'.validFrom = r.validFrom
  validUntil : r'.validUntil = r.validUntil
  supersedesId : r'.supersedesId = r.supersedesId
  createdBy : r'.createdBy = r.createdBy
  dedupKey : r'.dedupKey = r.dedupKey

variable {r r' : Row F}

theorem Row.eq_of_terms {β : Type*} (h : r'.terms = r.terms) (g : Row F → β)
    (hg : ∀ r : Row F, g r.terms = g r) : g r' = g r := by
  rw [← hg r', h, hg]

theorem Row.same_of_terms (h : r'.terms = r.terms) : r.Same r' where
  id := eq_of_terms h (fun q => q.id) fun _ => rfl
  project := eq_of_terms h (fun q => q.project) fun _ => rfl
  environment := eq_of_terms h (fun q => q.environment) fun _ => rfl
  classification := eq_of_terms h (fun q => q.classification) fun _ => rfl
  allowedRoles := eq_of_terms h (fun q => q.allowedRoles) fun _ => rfl
  validFrom := eq_of_terms h (fun q => q.validFrom) fun _ => rfl
  validUntil := eq_of_terms h (fun q => q.validUntil) fun _ => rfl
  supersedesId := eq_of_terms h (fun q => q.supersedesId) fun _ => rfl
  createdBy := eq_of_terms h (fun q => q.createdBy) fun _ => rfl
  dedupKey := eq_of_terms h (fun q => q.dedupKey) fun _ => rfl

/-- A rewriting keeps the terms and the successor, and makes no record valid again. -/
structure Row.Rewritten (r r' : Row F) : Prop where
  terms : r'.terms = r.terms
  successor : r'.supersededById = r.supersededById
  invalid : r'.invalidatedAt = none → r.invalidatedAt = none

theorem Row.Rewritten.refl (r : Row F) : r.Rewritten r :=
  ⟨rfl, rfl, id⟩

theorem Row.Rewritten.trans {r'' : Row F} (h : r.Rewritten r') (h' : r'.Rewritten r'') :
    r.Rewritten r'' :=
  ⟨h'.terms.trans h.terms, h'.successor.trans h.successor, fun hv => h.invalid (h'.invalid hv)⟩

inductive CatalogStep (rows : Table F) : (t : CatalogTx F) → t.Reply → Table F → Prop
  | rewrite (t : CatalogTx F) (reply : t.Reply) (f : Row F → Row F)
      (hf : ∀ r : Row F, r.Rewritten (f r)) : CatalogStep rows t reply (rows.map f)
  | insert (q : IngestRequest F) (vector : List F) (model authority now id : String)
      (hsup : q.supersedesId = none) (hdup : duplicateOf q now rows = none)
      (hnew : ∀ r ∈ rows, r.id ≠ id) :
      CatalogStep rows (.ingest q vector model authority now id)
        (newRow q vector model authority now id, false, none)
        (rows ++ [newRow q vector model authority now id])
  | supersede (q : IngestRequest F) (vector : List F) (model authority now id : String)
      (old : Row F) (hsup : q.supersedesId = some old.id) (hold : old ∈ rows)
      (hproject : old.project = q.project) (henvironment : old.environment = q.environment)
      (hcurrent : old.retired = false) (hnew : ∀ r ∈ rows, r.id ≠ id) :
      CatalogStep rows (.ingest q vector model authority now id)
        (newRow q vector model authority now id, false, some old.id)
        (updateRow old.id (Row.supersede id now)
          (rows ++ [newRow q vector model authority now id]))

variable {f : Row F → Row F}

theorem rewritten_ite {p : Row F → Bool} (hf : ∀ r : Row F, r.Rewritten (f r)) (r : Row F) :
    r.Rewritten (if p r then f r else r) := by
  split_ifs
  · exact hf r
  · exact .refl r

theorem catalogStep_update {rows : Table F} (t : CatalogTx F) (reply : t.Reply) {p : Row F → Bool}
    (hf : ∀ r : Row F, r.Rewritten (f r)) : CatalogStep rows t reply (update p f rows) :=
  .rewrite t reply _ (rewritten_ite hf)

theorem catalogStep_keep (rows : Table F) (t : CatalogTx F) (reply : t.Reply) :
    CatalogStep rows t reply rows := by
  have h := @CatalogStep.rewrite F _ rows t reply _ Row.Rewritten.refl
  rwa [List.map_id'] at h

theorem rewritten_invalidate (now reason : String) (r : Row F) :
    r.Rewritten (r.invalidate now reason) :=
  ⟨rfl, rfl, fun h => by simp [Row.invalidate] at h⟩

variable {t : CatalogTx F} {reply : t.Reply}

/-- A statement that returns does one of these. -/
theorem catalogStep_run {rows rows' : Table F} (h : t.run rows = .ok (reply, rows')) :
    CatalogStep rows t reply rows' := by
  cases t with
  | ingest q vector model authority now id =>
    change ingestTx q vector model authority now id rows = _ at h
    unfold ingestTx at h
    simp only at h
    cases hsup : q.supersedesId with
    | none =>
      simp only [hsup] at h
      cases hdup : duplicateOf q now rows with
      | some duplicate =>
        simp only [hdup] at h
        obtain ⟨-, rfl⟩ := Prod.mk.inj (Except.ok.inj h)
        exact catalogStep_keep rows _ _
      | none =>
        simp only [hdup] at h
        cases hins : insertRow (newRow q vector model authority now id) rows with
        | error e => simp [hins, Except.map] at h
        | ok inserted =>
          rw [hins] at h
          obtain ⟨rfl, rfl⟩ := Prod.mk.inj (Except.ok.inj h)
          obtain ⟨-, rfl, hnew⟩ := rewrites_insert hins
          exact .insert q vector model authority now id hsup hdup hnew
    | some i =>
      simp only [hsup] at h
      cases hfind : findRow i rows with
      | none =>
        simp only [hfind] at h
        cases h
      | some old =>
        simp only [hfind] at h
        obtain ⟨hold, hid⟩ := row_some hfind
        split_ifs at h with hscope hret
        cases hins : insertRow (newRow q vector model authority now id) rows with
        | error e => simp [hins, Except.map] at h
        | ok inserted =>
          rw [hins] at h
          obtain ⟨rfl, rfl⟩ := Prod.mk.inj (Except.ok.inj h)
          obtain ⟨-, rfl, hnew⟩ := rewrites_insert hins
          rw [not_or, not_not, not_not] at hscope
          have hid : old.id = i := hid
          exact .supersede q vector model authority now id old (hsup.trans (congrArg some hid.symm))
            hold hscope.1 hscope.2 (by simpa using hret) hnew
  | invalidate id reason now =>
    rcases invalidateTx_cases h with ⟨r, -, -, rfl⟩ | ⟨-, rfl⟩
    · exact catalogStep_keep _ _ _
    · exact catalogStep_update _ _ (rewritten_invalidate now reason)
  | consolidateLifecycle now staleBefore =>
    obtain ⟨-, rfl⟩ := Prod.mk.inj (Except.ok.inj h)
    have hage : ∀ r : Row F, r.Rewritten (r.age now) := fun r => ⟨rfl, rfl, fun hv => hv⟩
    -- two updates are one rewriting
    have hcompose := @CatalogStep.rewrite F _ rows
      (.consolidateLifecycle now staleBefore) reply _ fun r => (rewritten_ite (p := Row.expired now)
        (rewritten_invalidate now "validity_expired") r).trans
          (rewritten_ite (p := Row.ages staleBefore) hage _)
    unfold expire update
    rw [List.map_map]
    exact hcompose
  | markQdrant id state error now =>
    obtain ⟨-, rfl⟩ := Prod.mk.inj (Except.ok.inj h)
    exact catalogStep_update _ _ fun r => ⟨rfl, rfl, fun hv => hv⟩
  | get id =>
    change getTx id rows = _ at h
    unfold getTx at h
    split at h
    · obtain ⟨-, rfl⟩ := Prod.mk.inj (Except.ok.inj h)
      exact catalogStep_keep _ _ _
    · cases h
  | getMany ids =>
    obtain ⟨-, rfl⟩ := Prod.mk.inj (Except.ok.inj h)
    exact catalogStep_keep _ _ _
  | fallback request n now =>
    obtain ⟨-, rfl⟩ := Prod.mk.inj (Except.ok.inj h)
    exact catalogStep_keep _ _ _
  | pendingForReindex n =>
    obtain ⟨-, rfl⟩ := Prod.mk.inj (Except.ok.inj h)
    exact catalogStep_keep _ _ _
  | pendingDeletions n =>
    obtain ⟨-, rfl⟩ := Prod.mk.inj (Except.ok.inj h)
    exact catalogStep_keep _ _ _

/-! ## Links -/

/-- The first record is superseded by the second. -/
def Supersedes (rows : Table F) (old r : Row F) : Prop :=
  old ∈ rows ∧ r ∈ rows ∧ r.supersedesId = some old.id

def place (rows : Table F) (id : String) : ℕ :=
  (rows.map fun r => r.id).idxOf id

/-- The two links of a supersession are inverse, within one scope and in the order of
insertion. -/
structure Linked (rows : Table F) : Prop where
  nodup : (rows.map fun r => r.id).Nodup
  back : ∀ r ∈ rows, ∀ id ∈ r.supersedesId, ∃ old ∈ rows, old.id = id ∧
    old.supersededById = some r.id ∧ old.project = r.project ∧
    old.environment = r.environment ∧ place rows id < place rows r.id
  forth : ∀ old ∈ rows, ∀ id ∈ old.supersededById, ∃ r ∈ rows, r.id = id ∧
    r.supersedesId = some old.id

namespace Linked

variable {rows rows' : Table F}

theorem empty : Linked ([] : Table F) :=
  ⟨List.nodup_nil, by simp, by simp⟩

variable {r old : Row F}

theorem place_append {id : String} (h : ∃ q ∈ rows, q.id = id) :
    place (rows ++ [r]) id = place rows id := by
  obtain ⟨q, hq, rfl⟩ := h
  unfold place
  rw [List.map_append]
  exact List.idxOf_append_of_mem (List.mem_map_of_mem hq)

theorem place_lt {q : Row F} (hq : q ∈ rows) (hnew : ∀ p ∈ rows, p.id ≠ r.id) :
    place (rows ++ [r]) q.id < place (rows ++ [r]) r.id := by
  have hlast : place (rows ++ [r]) r.id = rows.length := by
    unfold place
    rw [List.map_append, List.idxOf_append_of_notMem, List.length_map]
    · simp
    · rintro hmem
      obtain ⟨p, hp, hid⟩ := List.mem_map.1 hmem
      exact hnew p hp hid
  rw [place_append ⟨q, hq, rfl⟩, hlast]
  have h := List.idxOf_lt_length_of_mem (List.mem_map_of_mem (f := fun r : Row F => r.id) hq)
  rwa [List.length_map] at h

variable {f : Row F → Row F}

theorem place_map (hid : ∀ r, (f r).id = r.id) (id : String) :
    place (rows.map f) id = place rows id := by
  unfold place
  rw [List.map_map]
  exact congrArg (fun l => List.idxOf id l) (List.map_congr_left fun r _ => hid r)

theorem rewrite (h : Linked rows) (hf : ∀ r : Row F, r.Rewritten (f r)) : Linked (rows.map f) := by
  have hsame : ∀ r : Row F, r.Same (f r) := fun r => Row.same_of_terms (hf r).terms
  have hid : ∀ r, (f r).id = r.id := fun r => (hsame r).id
  refine ⟨?_, ?_, ?_⟩
  · have heq : (rows.map f).map (fun r => r.id) = rows.map fun r => r.id := by
      rw [List.map_map]
      exact List.map_congr_left fun r _ => hid r
    rw [heq]
    exact h.nodup
  · intro r' hr' id hsup
    obtain ⟨r, hr, rfl⟩ := List.mem_map.1 hr'
    rw [(hsame r).supersedesId] at hsup
    obtain ⟨old, hold, holdid, hlink, hproject, henvironment, hplace⟩ := h.back r hr id hsup
    refine ⟨f old, List.mem_map_of_mem hold, (hid old).trans holdid, ?_, ?_, ?_, ?_⟩
    · rw [(hf old).successor, hid r, hlink]
    · rw [(hsame old).project, (hsame r).project, hproject]
    · rw [(hsame old).environment, (hsame r).environment, henvironment]
    · rw [place_map hid, place_map hid, hid r]
      exact hplace
  · intro old' hold' id hlink
    obtain ⟨old, hold, rfl⟩ := List.mem_map.1 hold'
    rw [(hf old).successor] at hlink
    obtain ⟨r, hr, hrid, hsup⟩ := h.forth old hold id hlink
    exact ⟨f r, List.mem_map_of_mem hr, (hid r).trans hrid,
      by rw [(hsame r).supersedesId, hsup, hid old]⟩

theorem insert (h : Linked rows) (hnew : ∀ q ∈ rows, q.id ≠ r.id) (hsup : r.supersedesId = none)
    (hlink : r.supersededById = none) : Linked (rows ++ [r]) := by
  refine ⟨nodup_insert h.nodup (row_eq_none.2 hnew), ?_, ?_⟩
  · intro q hq id hid
    rcases List.mem_append.1 hq with hq | hq
    · obtain ⟨old, hold, holdid, hl, hproject, henvironment, hplace⟩ := h.back q hq id hid
      refine ⟨old, List.mem_append_left _ hold, holdid, hl, hproject, henvironment, ?_⟩
      rw [place_append ⟨old, hold, holdid⟩, place_append ⟨q, hq, rfl⟩]
      exact hplace
    · obtain rfl := List.mem_singleton.1 hq
      rw [hsup] at hid
      cases hid
  · intro old hold id hid
    rcases List.mem_append.1 hold with hold | hold
    · obtain ⟨q, hq, hqid, hl⟩ := h.forth old hold id hid
      exact ⟨q, List.mem_append_left _ hq, hqid, hl⟩
    · obtain rfl := List.mem_singleton.1 hold
      rw [hlink] at hid
      cases hid

/-- A row that supersedes a record which has no successor. -/
theorem supersede (h : Linked rows) {now : String} (hnew : ∀ q ∈ rows, q.id ≠ r.id)
    (hold : old ∈ rows) (hsup : r.supersedesId = some old.id) (hlink : r.supersededById = none)
    (hcurrent : old.supersededById = none) (hproject : old.project = r.project)
    (henvironment : old.environment = r.environment) :
    Linked (updateRow old.id (Row.supersede r.id now) (rows ++ [r])) := by
  have hne : r.id ≠ old.id := fun heq => hnew old hold heq.symm
  have hn := nodup_insert (g := fun r : Row F => r.id) h.nodup (row_eq_none.2 hnew)
  have hplace : ∀ id, place (updateRow old.id (Row.supersede r.id now) (rows ++ [r])) id =
      place (rows ++ [r]) id := by
    intro id
    unfold place updateRow
    rw [map_update (g := fun r : Row F => r.id) (Row.supersede_id r.id now)]
  -- what the update makes of the rows
  have hother : ∀ q ∈ rows ++ [r], q.id ≠ old.id →
      q ∈ updateRow old.id (Row.supersede r.id now) (rows ++ [r]) := by
    intro q hq hid
    refine mem_update.2 ⟨q, hq, ?_⟩
    rw [if_neg (by simpa using hid)]
  have hended : old.supersede r.id now ∈
      updateRow old.id (Row.supersede r.id now) (rows ++ [r]) := by
    refine mem_update.2 ⟨old, List.mem_append_left _ hold, ?_⟩
    rw [if_pos (by simp)]
  have hlast : r ∈ updateRow old.id (Row.supersede r.id now) (rows ++ [r]) :=
    hother r (List.mem_append_right _ (List.mem_singleton.2 rfl)) hne
  refine ⟨?_, ?_, ?_⟩
  · unfold updateRow
    rw [map_update (g := fun r : Row F => r.id) (Row.supersede_id r.id now)]
    exact hn
  · intro q' hq' id hid
    obtain ⟨q, hq, rfl⟩ := mem_update.1 hq'
    -- the update changes no link to a predecessor
    have hqid : q.supersedesId = some id := by
      split_ifs at hid
      · exact hid
      · exact hid
    suffices ∃ p ∈ updateRow old.id (Row.supersede r.id now) (rows ++ [r]), p.id = id ∧
        p.supersededById = some q.id ∧ p.project = q.project ∧
        p.environment = q.environment ∧ place (rows ++ [r]) id < place (rows ++ [r]) q.id by
      rw [hplace, hplace]
      split_ifs
      · exact this
      · exact this
    rcases List.mem_append.1 hq with hq | hq
    · obtain ⟨p, hp, hpid, hl, hpr, he, hlt⟩ := h.back q hq id hqid
      have hpold : p.id ≠ old.id := by
        intro heq
        obtain rfl := List.inj_on_of_nodup_map h.nodup hp hold heq
        rw [hcurrent] at hl
        cases hl
      refine ⟨p, hother p (List.mem_append_left _ hp) hpold, hpid, hl, hpr, he, ?_⟩
      rw [place_append ⟨p, hp, hpid⟩, place_append ⟨q, hq, rfl⟩]
      exact hlt
    · obtain rfl := List.mem_singleton.1 hq
      obtain rfl := Option.some.inj (hsup.symm.trans hqid)
      exact ⟨_, hended, rfl, rfl, hproject, henvironment, place_lt hold hnew⟩
  · intro q' hq' id hid
    obtain ⟨q, hq, rfl⟩ := mem_update.1 hq'
    split_ifs at hid ⊢ with hif
    · obtain rfl := Option.some.inj hid
      have hqold : q.id = old.id := of_decide_eq_true hif
      exact ⟨r, hlast, rfl, hsup.trans (congrArg some hqold.symm)⟩
    · rcases List.mem_append.1 hq with hq | hq
      · obtain ⟨p, hp, hpid, hl⟩ := h.forth q hq id hid
        by_cases hpold : p.id = old.id
        · obtain rfl := List.inj_on_of_nodup_map h.nodup hp hold hpold
          exact ⟨_, hended, hpid, hl⟩
        · exact ⟨p, hother p (List.mem_append_left _ hp) hpold, hpid, hl⟩
      · obtain rfl := List.mem_singleton.1 hq
        rw [hlink] at hid
        cases hid

theorem step (h : Linked rows) {t : CatalogTx F} {reply : t.Reply}
    (hs : CatalogStep rows t reply rows') : Linked rows' := by
  cases hs with
  | rewrite t reply f hf => exact h.rewrite hf
  | insert q vector model authority now id hsup hdup hnew => exact h.insert hnew hsup rfl
  | supersede q vector model authority now id old hsup hold hproject henvironment hcurrent hnew =>
    have hno : old.supersededById = none := by
      simp only [Memory.retired, decide_eq_false_iff_not, not_or, not_not] at hcurrent
      exact hcurrent.2
    exact h.supersede (r := newRow q vector model authority now id) hnew hold hsup rfl hno
      hproject henvironment

theorem place_lt_of_supersedes (h : Linked rows) (hs : Relation.TransGen (Supersedes rows) old r) :
    place rows old.id < place rows r.id := by
  induction hs with
  | single hs =>
    obtain ⟨-, hr, hsup⟩ := hs
    obtain ⟨-, -, -, -, -, -, hlt⟩ := h.back _ hr _ hsup
    exact hlt
  | tail _ hs ih =>
    obtain ⟨-, hr, hsup⟩ := hs
    obtain ⟨-, -, -, -, -, -, hlt⟩ := h.back _ hr _ hsup
    exact ih.trans hlt

theorem unique (h : Linked rows) {r' : Row F} (hr : Supersedes rows old r)
    (hr' : Supersedes rows old r') : r = r' := by
  obtain ⟨hold, hmem, hsup⟩ := hr
  obtain ⟨-, hmem', hsup'⟩ := hr'
  obtain ⟨p, hp, hpid, hlink, -⟩ := h.back r hmem _ hsup
  obtain ⟨p', hp', hpid', hlink', -⟩ := h.back r' hmem' _ hsup'
  obtain rfl := List.inj_on_of_nodup_map h.nodup hp hp' (hpid.trans hpid'.symm)
  exact List.inj_on_of_nodup_map h.nodup hmem hmem' (Option.some.inj (hlink.symm.trans hlink'))

theorem inverse (h : Linked rows) (hold : old ∈ rows) (hr : r ∈ rows) :
    r.supersedesId = some old.id ↔ old.supersededById = some r.id := by
  constructor
  · intro hsup
    obtain ⟨p, hp, hpid, hlink, -⟩ := h.back r hr _ hsup
    obtain rfl := List.inj_on_of_nodup_map h.nodup hp hold hpid
    exact hlink
  · intro hlink
    obtain ⟨p, hp, hpid, hsup⟩ := h.forth old hold _ hlink
    obtain rfl := List.inj_on_of_nodup_map h.nodup hp hr hpid
    exact hsup

end Linked

/-! ## Reviews -/

theorem CatalogStep.kept {rows rows' : Table F} (h : CatalogStep rows t reply rows')
    (hr : r ∈ rows) : ∃ r' ∈ rows', r'.terms = r.terms := by
  cases h with
  | rewrite t reply f hf => exact ⟨f r, List.mem_map_of_mem hr, (hf r).terms⟩
  | insert => exact ⟨r, List.mem_append_left _ hr, rfl⟩
  | supersede =>
    refine ⟨_, mem_update.2 ⟨r, List.mem_append_left _ hr, rfl⟩, ?_⟩
    split_ifs
    · exact Row.terms_supersede _ _ r
    · rfl

def Stores : Said F → IngestRequest F → String → Prop
  | ⟨.tx (.ingest q _ _ _ _ id), .ok reply⟩, q', id' =>
    q = q' ∧ id = id' ∧ (reply : Row F × Bool × Option String).2.1 = false
  | _, _, _ => False

structure StoredFor (q : IngestRequest F) (r : Row F) : Prop where
  supersedesId : r.supersedesId = q.supersedesId
  classification : r.classification = q.classification
  allowedRoles : r.allowedRoles = q.allowedRoles
  createdBy : r.createdBy = q.actor

variable {q : IngestRequest F}

theorem storedFor_newRow {vector : List F} {model authority now id : String}
    (h : (newRow q vector model authority now id).Same r) : StoredFor q r :=
  ⟨h.supersedesId, h.classification, h.allowedRoles, h.createdBy⟩

theorem CatalogStep.origin {rows rows' : Table F} (h : CatalogStep rows t reply rows')
    (hr' : r' ∈ rows') :
    (∃ r ∈ rows, r.Same r') ∨ ∃ q, Stores ⟨.tx t, .ok reply⟩ q r'.id ∧ StoredFor q r' ∧
      ∀ r ∈ rows, r.id ≠ r'.id := by
  cases h with
  | rewrite t reply f hf =>
    obtain ⟨r, hr, rfl⟩ := List.mem_map.1 hr'
    exact Or.inl ⟨r, hr, Row.same_of_terms (hf r).terms⟩
  | insert q vector model authority now id hsup hdup hnew =>
    rcases List.mem_append.1 hr' with hr' | hr'
    · exact Or.inl ⟨r', hr', Row.same_of_terms rfl⟩
    · obtain rfl := List.mem_singleton.1 hr'
      exact Or.inr ⟨q, ⟨rfl, rfl, rfl⟩, storedFor_newRow (Row.same_of_terms rfl), hnew⟩
  | supersede q vector model authority now id old hsup hold hproject henvironment hcurrent hnew =>
    obtain ⟨r, hr, rfl⟩ := mem_update.1 hr'
    have hsame : r.Same (if decide (r.id = old.id) then Row.supersede id now r else r) := by
      split_ifs
      · exact Row.same_of_terms (Row.terms_supersede _ _ r)
      · exact Row.same_of_terms rfl
    rcases List.mem_append.1 hr with hr | hr
    · exact Or.inl ⟨r, hr, hsame⟩
    · obtain rfl := List.mem_singleton.1 hr
      refine Or.inr ⟨q, ⟨rfl, hsame.id.symm, rfl⟩, storedFor_newRow hsame, ?_⟩
      rw [hsame.id]
      exact hnew

/-- The second record is not open to more than the first. -/
def Narrows (old r : Row F) : Prop :=
  old.classification.rank ≤ r.classification.rank ∧
    ∀ role ∈ r.allowedRoles, role ∈ old.allowedRoles

theorem Narrows.trans {a b c : Row F} (h : Narrows a b) (h' : Narrows b c) : Narrows a c :=
  ⟨h.1.trans h'.1, fun role hrole => h.2 role (h'.2 role hrole)⟩

instance : IsTrans (Row F) Narrows :=
  ⟨fun _ _ _ => Narrows.trans⟩

theorem Narrows.congr {old old' : Row F} (h : Narrows old r) (hold : old.Same old')
    (hr : r.Same r') : Narrows old' r' := by
  unfold Narrows
  rw [hold.classification, hr.classification, hold.allowedRoles, hr.allowedRoles]
  exact h

theorem narrows_of_review {actor : ActorPolicy} {old : Row F}
    (h : reviewSupersession actor q old.toMemory = .ok ())
    (hclass : r.classification = q.classification) (hroles : r.allowedRoles = q.allowedRoles) :
    "declassify" ∈ actor.capabilities ∨ Narrows old r := by
  unfold reviewSupersession at h
  split_ifs at h with h1 h2 h3
  by_cases hcap : "declassify" ∈ actor.capabilities
  · exact Or.inl hcap
  · right
    have hno : ¬(q.classification.rank < old.classification.rank ∨
        ∃ role ∈ q.allowedRoles, role ∉ old.allowedRoles) := fun hw => h2 ⟨hw, hcap⟩
    rw [not_or, not_lt, not_exists] at hno
    unfold Narrows
    rw [hclass, hroles]
    refine ⟨hno.1, fun role hrole => ?_⟩
    by_contra hnot
    exact hno.2 role ⟨hrole, hnot⟩

section trails

variable {α β : Type} {h : List (Said F)}

/-- What is ingested for a request to the service was reviewed, after the record that it
supersedes was read. -/
def Reviewed (r : Request F) (h : List (Said F)) : MemoryOp F → Prop
  | .tx (.ingest q _ _ _ _ _) =>
    ∃ actor ∈ r.config.actors.find? (fun actor => actor.name = q.actor), ∀ id ∈ q.supersedesId,
      ∃ old : Row F, (⟨.tx (.get id), .ok old⟩ : Said F) ∈ h ∧
        reviewSupersession actor q old.toMemory = .ok ()
  | _ => True

theorem Ingestless.reviewed {o : MemoryOp F} (ho : Ingestless o) (r : Request F)
    (h : List (Said F)) : Reviewed r h o := by
  cases o with
  | tx t => cases t <;> first | exact ho.elim | trivial
  | _ => trivial

variable {p : Method F α}

/-- The program ingests only what was reviewed, and returns what `Q` says. -/
abbrev Reviews (r : Request F) (p : Method F α) (Q : List (Said F) → α → Prop)
    (h : List (Said F)) : Prop :=
  Prog.Trail (Reviewed r) Q (fun _ _ => True) p h

theorem Guards.reviews {Q : List (Said F) → α → Prop} (hp : Guards p Q h) (r : Request F) :
    Reviews r p Q h :=
  hp.trail fun h' _ _ ho => ho.reviewed r h'

theorem Tame.reviews (hp : Tame p) (r : Request F) (h : List (Said F)) :
    Reviews r p (fun _ _ => True) h :=
  (hp.guards h).reviews r

theorem authorize_reviews (r : Request F) (name : String) (uid : ℕ) (capability : String) :
    Reviews r (authorize r.config name uid capability)
      (fun _ actor => r.config.actors.find? (fun actor => actor.name = name) = some actor) h := by
  unfold authorize
  split
  · trivial
  · next actor hfind =>
    refine ((tame_ask _).reviews r h).bind fun h₁ uids _ _ => ?_
    split_ifs
    · exact hfind
    · trivial
    · trivial

theorem checkSupersession_reviews (r : Request F) (actor : ActorPolicy) (q : IngestRequest F) :
    Reviews r (checkSupersession actor q) (fun h' _ => ∀ id ∈ q.supersedesId,
      ∃ old : Row F, (⟨.tx (.get id), .ok old⟩ : Said F) ∈ h' ∧
        reviewSupersession actor q old.toMemory = .ok ()) h := by
  unfold checkSupersession
  split
  · next hnone =>
    intro id hid
    rw [hnone] at hid
    cases hid
  · next i hsome =>
    have hget : Reviews r (catalog (.get i) : Method F (Row F))
        (fun h' old => (⟨.tx (.get i), .ok old⟩ : Said F) ∈ h') h := by
      refine ⟨trivial, fun x => ?_⟩
      refine (Prog.trail_ofExcept (x : Except Exc (Row F)) _).2
        ⟨fun old hx => ?_, fun _ _ => trivial⟩
      rw [show x = .ok old from hx]
      exact List.mem_append_right _ (List.mem_singleton.2 rfl)
    refine hget.bind fun h₁ old _ hread => ?_
    refine (Prog.trail_ofExcept _ _).2 ⟨fun _ hreview id hid => ?_, fun _ _ => trivial⟩
    obtain rfl := Option.some.inj (hsome.symm.trans hid)
    exact ⟨old, hread, hreview⟩

theorem defaultExpiry_reviews (r : Request F) (q : IngestRequest F) :
    Reviews r (defaultExpiry r.config q) (fun _ q' => q'.actor = q.actor) h := by
  unfold defaultExpiry
  split_ifs
  · exact ((tame_ask _).reviews r h).bind fun h₁ expiry _ _ => rfl
  · exact rfl

theorem store_reviews (r : Request F) (actor : ActorPolicy) (q : IngestRequest F)
    (hfind : r.config.actors.find? (fun actor => actor.name = q.actor) = some actor)
    (hold : ∀ id ∈ q.supersedesId, ∃ old : Row F, (⟨.tx (.get id), .ok old⟩ : Said F) ∈ h ∧
      reviewSupersession actor q old.toMemory = .ok ()) :
    Reviews r (store r.config actor q) (fun _ _ => True) h := by
  refine store_trail (fun h' _ _ ho => ho.reviewed r h') _ _ _ fun h' now recordId hpre => ?_
  refine ⟨actor, hfind, fun id hid => ?_⟩
  obtain ⟨old, hread, hreview⟩ := hold id hid
  exact ⟨old, hpre.subset hread, hreview⟩

theorem ingest_reviews (r : Request F) (q : IngestRequest F) (uid : ℕ) :
    Reviews r (ingest r.config q uid) (fun _ _ => True) h := by
  unfold ingest
  refine (authorize_reviews r q.actor uid "write").bind fun h₁ actor _ hfind => ?_
  refine (Tame.reviews (Prog.asks_ofExcept _) r h₁).bind fun h₂ _ _ _ => ?_
  split_ifs
  · trivial
  · exact Tame.reviews ((tame_ask _).bind fun _ => Prog.asks_pure _) r h₂
  · refine (Tame.reviews (Prog.asks_ofExcept _) r h₂).bind fun h₃ _ _ _ => ?_
    refine (defaultExpiry_reviews r q).bind fun h₄ q' _ hactor => ?_
    split_ifs
    · trivial
    · refine (checkSupersession_reviews r actor q').bind fun h₅ _ _ hold => ?_
      rw [← hactor] at hfind
      exact store_reviews r actor q' hfind hold

theorem serve_reviews (r : Request F) : Reviews r (serve r) (fun _ _ => True) [] := by
  unfold serve
  split
  · exact (ingest_reviews r _ _).bind fun _ _ _ _ => trivial
  · exact ((tame_reindexApi _ _ _ _).reviews r _).bind fun _ _ _ _ => trivial
  · exact ((tame_search _ _ _).reviews r _).bind fun _ _ _ _ => trivial
  · exact ((invalidate_guards _ _ _ _ _ _).reviews r).bind fun _ _ _ _ => trivial
  · exact ((maintain_guards _ _ _ _).reviews r).bind fun _ _ _ _ => trivial

end trails

/-! ## Runs -/

section runs

variable {ms : List (Moment (memorySystem F))} {s s' : State (memorySystem F)}

def ReadOf : Said F → Table F → Prop
  | ⟨.tx (.get id), .ok old⟩, rows => ∃ r ∈ rows, r.id = id ∧ (old : Row F).Same r
  | _, _ => True

theorem Row.Same.trans {r r' r'' : Row F} (h : r.Same r') (h' : r'.Same r'') : r.Same r'' :=
  ⟨h'.id.trans h.id, h'.project.trans h.project, h'.environment.trans h.environment,
    h'.classification.trans h.classification, h'.allowedRoles.trans h.allowedRoles,
    h'.validFrom.trans h.validFrom, h'.validUntil.trans h.validUntil,
    h'.supersedesId.trans h.supersedesId, h'.createdBy.trans h.createdBy,
    h'.dedupKey.trans h.dedupKey⟩

variable {rows rows' : Table F}

theorem ReadOf.keep {a : Said F} {t : CatalogTx F} {reply : t.Reply} (h : ReadOf a rows)
    (hs : CatalogStep rows t reply rows') : ReadOf a rows' := by
  unfold ReadOf at h ⊢
  split at h
  · obtain ⟨r, hr, hid, hsame⟩ := h
    obtain ⟨r', hr', hterms⟩ := hs.kept hr
    have hsame' := Row.same_of_terms hterms
    exact ⟨r', hr', hsame'.id.trans hid, hsame.trans hsame'⟩
  · trivial

/-- The answer of a statement is true of what it leaves. -/
theorem readOf_run {t : CatalogTx F} {reply : t.Reply} (h : t.run rows = .ok (reply, rows')) :
    ReadOf (⟨.tx t, .ok reply⟩ : Said F) rows' := by
  cases t with
  | get id =>
    change getTx id rows = _ at h
    unfold getTx at h
    split at h
    · next r hr =>
      obtain ⟨rfl, rfl⟩ := Prod.mk.inj (Except.ok.inj h)
      exact ⟨r, (row_some hr).1, (row_some hr).2, Row.same_of_terms rfl⟩
    · cases h
  | _ => trivial

theorem readOf_error (o : MemoryOp F) (e : Exc) (rows : Table F) :
    ReadOf (⟨o, .error e⟩ : Said F) rows := by
  cases o with
  | tx t => cases t <;> trivial
  | _ => trivial

theorem readOf_perform (o : MemoryOp F) (x : MemoryChoice F) (st : Store F)
    (h : Linked st.rows) : Linked (performMemory o x st).2.rows ∧
      ReadOf ⟨o, (performMemory o x st).1⟩ (performMemory o x st).2.rows ∧
      ∀ a, ReadOf a st.rows → ReadOf a (performMemory o x st).2.rows := by
  cases o with
  | tx t =>
    rcases performMemory_tx t x st with ⟨e, he⟩ | ⟨reply, rows', hrun, heq⟩
    · rw [he]
      exact ⟨h, readOf_error _ e _, fun _ ha => ha⟩
    · rw [heq]
      have hstep := catalogStep_run hrun
      exact ⟨h.step hstep, readOf_run hrun, fun _ ha => ha.keep hstep⟩
  | _ => exact ⟨h, trivial, fun _ ha => ha⟩

theorem linked_of_run (hr : Run (idle emptyStore) ms s) : Linked s.store.rows ∧
    ∀ c ∈ s.calls, ∀ a ∈ c.said, ReadOf a s.store.rows :=
  hr.sound (K := fun st : Store F => Linked st.rows)
    (T := fun a (st : Store F) => ReadOf a st.rows) rfl .empty serve_reviews
    fun _ _ o x st hst _ _ => readOf_perform o x st hst

def Wrote (c : Call (memorySystem F)) (id : String) : Prop :=
  ∃ a ∈ c.said, ∃ q, Stores a q id

variable {m : Move (memorySystem F)}

theorem calls_step (h : s.step m = some s') : ∀ c ∈ s.calls,
    ∃ c' ∈ s'.calls, c'.request = c.request ∧ c.said <+: c'.said := by
  intro c hc
  obtain ⟨j, hj⟩ := List.mem_iff_getElem?.1 hc
  have hset : ∀ (i : ℕ) (d d' : Call (memorySystem F)), s.calls[i]? = some d →
      d'.request = d.request → d.said <+: d'.said →
      ∃ c' ∈ s.calls.set i d', c'.request = c.request ∧ c.said <+: c'.said := by
    intro i d d' hd hrequest hsaid
    by_cases hij : i = j
    · subst hij
      obtain rfl := Option.some.inj (hd.symm.trans hj)
      refine ⟨d', List.mem_iff_getElem?.2 ⟨i, ?_⟩, hrequest, hsaid⟩
      rw [List.getElem?_set_self (List.getElem?_eq_some_iff.1 hj).1]
    · refine ⟨c, List.mem_iff_getElem?.2 ⟨j, ?_⟩, rfl, List.prefix_rfl⟩
      rw [List.getElem?_set_ne hij]
      exact hj
  rcases step_cases h with ⟨r, -, rfl⟩ | ⟨i, x, d, o, k, -, hd, -, rfl⟩ | ⟨i, d, -, hd, rfl⟩
  · exact ⟨c, List.mem_append_left _ hc, rfl, List.prefix_rfl⟩
  · exact hset i d _ hd rfl (List.prefix_append _ _)
  · exact hset i d _ hd rfl List.prefix_rfl

/-- The record was stored by a process whose actor may declassify, or it narrows what it
supersedes. -/
def Justified (s : State (memorySystem F)) (old r : Row F) : Prop :=
  ∃ c ∈ s.calls, Wrote c r.id ∧
    ∃ actor ∈ c.request.config.actors.find? (fun actor => actor.name = r.createdBy),
      "declassify" ∈ actor.capabilities ∨ Narrows old r

theorem Justified.step {old r old' r' : Row F} (h : Justified s old r) (hstep : s.step m = some s')
    (hold : old.Same old') (hr : r.Same r') : Justified s' old' r' := by
  obtain ⟨c, hc, ⟨a, ha, q, hstores⟩, actor, hfind, hwide⟩ := h
  obtain ⟨c', hc', hrequest, hsaid⟩ := calls_step hstep c hc
  refine ⟨c', hc', ⟨a, hsaid.subset ha, q, ?_⟩, actor, ?_, hwide.imp id fun hn => hn.congr hold hr⟩
  · rw [hr.id]
    exact hstores
  · rw [hrequest, hr.createdBy]
    exact hfind

/-- Every supersession is justified. -/
theorem justified_of_run (hr : Run (idle emptyStore) ms s) :
    ∀ old r, Supersedes s.store.rows old r → Justified s old r := by
  induction hr with
  | start =>
    rintro old r ⟨hold, -⟩
    cases hold
  | @step ms s s' m hr h ih =>
    have hsame : ∀ r : Row F, r.Same r := fun r => Row.same_of_terms rfl
    have hkeep : s'.store.rows = s.store.rows →
        ∀ old r, Supersedes s'.store.rows old r → Justified s' old r := by
      intro heq old r hs
      rw [heq] at hs
      exact (ih old r hs).step h (hsame old) (hsame r)
    obtain ⟨hlinked, hread⟩ := linked_of_run hr
    rcases step_cases h with ⟨r, -, hs'⟩ | ⟨i, x, c, o, k, -, hc, ho, hs'⟩ | ⟨i, c, -, hc, hs'⟩
    · exact hkeep (by rw [hs'])
    · cases o with
      | tx t =>
        rcases performMemory_tx t x s.store with ⟨e, he⟩ | ⟨reply, rows', hrun, heq⟩
        · refine hkeep ?_
          rw [hs']
          exact congrArg (fun p => p.2.rows) he
        · have hrows : s'.store.rows = rows' := by
            rw [hs']
            exact congrArg (fun p => p.2.rows) heq
          have hstep := catalogStep_run hrun
          rintro old' r' ⟨hold', hr', hsup⟩
          rw [hrows] at hold' hr'
          rcases hstep.origin hr' with ⟨r, hmem, hsamer⟩ | ⟨q, hstores, hstored, hfresh⟩
          · -- an older supersession
            rw [hsamer.supersedesId] at hsup
            obtain ⟨old, hold, hid, -⟩ := hlinked.back r hmem _ hsup
            have hsameold : old.Same old' := by
              rcases hstep.origin hold' with ⟨p, hp, hsamep⟩ | ⟨-, -, -, hfresh⟩
              · obtain rfl := List.inj_on_of_nodup_map hlinked.nodup hp hold
                  (hsamep.id.symm.trans hid.symm)
                exact hsamep
              · exact absurd hid (hfresh old hold)
            exact (ih old r ⟨hold, hmem, by rw [hid]; exact hsup⟩).step h hsameold hsamer
          · -- the supersession of this statement
            have hasked := hr.asked rfl serve_reviews hc ho
            cases t with
            | ingest q' vector model authority now id =>
              obtain ⟨rfl, rfl, hflag⟩ := hstores
              obtain ⟨actor, hfind, hreview⟩ := hasked
              obtain ⟨previous, hget, hreviewed⟩ :=
                hreview old'.id (by rw [← hstored.supersedesId]; exact hsup)
              obtain ⟨p, hp, hpid, hsamep⟩ := hread c (List.mem_of_getElem? hc) _ hget
              have hsameold : p.Same old' := by
                rcases hstep.origin hold' with ⟨p', hp', hsamep'⟩ | ⟨-, -, -, hfresh'⟩
                · obtain rfl := List.inj_on_of_nodup_map hlinked.nodup hp' hp
                    (hsamep'.id.symm.trans hpid.symm)
                  exact hsamep'
                · exact absurd hpid (hfresh' p hp)
              have hj : i < s.calls.length := (List.getElem?_eq_some_iff.1 hc).1
              let a : Said F := ⟨.tx (.ingest q' vector model authority now r'.id),
                (performMemory (.tx (.ingest q' vector model authority now r'.id)) x s.store).1⟩
              have ha : a = ⟨.tx (.ingest q' vector model authority now r'.id), .ok reply⟩ := by
                change Sigma.mk _ _ = _
                rw [heq]
              have hmem : (⟨c.request, c.said ++ [a], some (k a.2)⟩ : Call (memorySystem F)) ∈
                  s'.calls := by
                rw [hs']
                refine List.mem_iff_getElem?.2 ⟨i, ?_⟩
                rw [List.getElem?_set_self hj]
              refine ⟨_, hmem, ⟨a, List.mem_append_right _ (List.mem_singleton.2 rfl), q', ?_⟩,
                actor, ?_, ?_⟩
              · rw [ha]
                exact ⟨rfl, rfl, hflag⟩
              · rw [hstored.createdBy]
                exact hfind
              · exact (narrows_of_review hreviewed hstored.classification hstored.allowedRoles).imp
                  id fun hn => hn.congr (hsamep.trans hsameold) (hsame r')
            | _ => exact hstores.elim
      | _ => exact hkeep (by rw [hs']; rfl)
    · exact hkeep (by rw [hs'])

/-- No writer of the record may declassify. -/
def Unprivileged (s : State (memorySystem F)) (r : Row F) : Prop :=
  ∀ c ∈ s.calls, Wrote c r.id →
    ∀ actor ∈ c.request.config.actors.find? (fun actor => actor.name = r.createdBy),
      "declassify" ∉ actor.capabilities

theorem narrows_chain (hr : Run (idle emptyStore) ms s) (chain : List (Row F))
    (hchain : List.IsChain (Supersedes s.store.rows) chain)
    (hwriters : ∀ r ∈ chain.tail, Unprivileged s r) : List.Pairwise Narrows chain := by
  refine List.isChain_iff_pairwise.1 ?_
  induction chain with
  | nil => exact .nil
  | cons old chain ih =>
    cases chain with
    | nil => exact .singleton _
    | cons r chain =>
      obtain ⟨hlink, hrest⟩ := List.isChain_cons_cons.1 hchain
      refine List.isChain_cons_cons.2 ⟨?_, ih hrest fun q hq => hwriters q ?_⟩
      · obtain ⟨c, hc, hwrote, actor, hfind, hwide⟩ := justified_of_run hr old r hlink
        exact hwide.resolve_left (hwriters r List.mem_cons_self c hc hwrote actor hfind)
      · exact List.mem_cons_of_mem _ hq

/-- In every history the two links of a supersession are inverse, a record is superseded once,
the relation is acyclic and stays within one project and environment, and a chain whose writers
may not declassify is open to less and less. -/
theorem supersession_chains (hr : Run (idle emptyStore) ms s) :
    (∀ r ∈ s.store.rows, ∀ id ∈ r.supersedesId, ∃ old ∈ s.store.rows, old.id = id) ∧
    (∀ old ∈ s.store.rows, ∀ id ∈ old.supersededById, ∃ r ∈ s.store.rows, r.id = id) ∧
    (∀ old ∈ s.store.rows, ∀ r ∈ s.store.rows,
      (r.supersedesId = some old.id ↔ old.supersededById = some r.id)) ∧
    (∀ old r r', Supersedes s.store.rows old r → Supersedes s.store.rows old r' → r = r') ∧
    (∀ r, ¬ Relation.TransGen (Supersedes s.store.rows) r r) ∧
    (∀ old r, Supersedes s.store.rows old r →
      old.project = r.project ∧ old.environment = r.environment) ∧
    ∀ chain : List (Row F), List.IsChain (Supersedes s.store.rows) chain →
      (∀ r ∈ chain.tail, Unprivileged s r) → List.Pairwise Narrows chain := by
  have hlinked := (linked_of_run hr).1
  refine ⟨?_, ?_, fun old hold r hr => hlinked.inverse hold hr, fun old r r' => hlinked.unique,
    fun r hcycle => ?_, ?_, narrows_chain hr⟩
  · intro r hmem id hid
    obtain ⟨old, hold, holdid, -⟩ := hlinked.back r hmem id hid
    exact ⟨old, hold, holdid⟩
  · intro old hold id hid
    obtain ⟨r, hmem, hrid, -⟩ := hlinked.forth old hold id hid
    exact ⟨r, hmem, hrid⟩
  · exact lt_irrefl _ (hlinked.place_lt_of_supersedes hcycle)
  · rintro old r ⟨hold, hmem, hsup⟩
    obtain ⟨p, hp, hpid, -, hproject, henvironment, -⟩ := hlinked.back r hmem _ hsup
    obtain rfl := List.inj_on_of_nodup_map hlinked.nodup hp hold hpid
    exact ⟨hproject, henvironment⟩

end runs

section endurance

variable {F : Type} [Host F] {rows rows' : Table F} {t : CatalogTx F} {reply : t.Reply}
  {ms : List (Moment (memorySystem F))} {s : State (memorySystem F)}

/-- A record keeps its terms and its successor, and stays invalid. -/
structure Row.Endures (r r' : Row F) : Prop where
  terms : r'.terms = r.terms
  successor : ∀ id ∈ r.supersededById, r'.supersededById = some id
  invalid : r'.invalidatedAt = none → r.invalidatedAt = none

theorem Row.Endures.refl (r : Row F) : r.Endures r :=
  ⟨rfl, fun _ h => h, id⟩

theorem Row.Endures.trans (r r' r'' : Row F) (h : r.Endures r') (h' : r'.Endures r'') :
    r.Endures r'' :=
  ⟨h'.terms.trans h.terms, fun id hid => h'.successor id (h.successor id hid),
    fun hv => h.invalid (h'.invalid hv)⟩

theorem CatalogStep.evolves (h : CatalogStep rows t reply rows') (hl : Linked rows) :
    Evolves Row.Endures rows rows' := by
  cases h with
  | rewrite t reply f hf =>
    exact .map fun r _ => ⟨(hf r).terms, fun id hid => (hf r).successor.trans hid, (hf r).invalid⟩
  | insert => exact (Evolves.refl .refl rows).append _
  | supersede q vector model authority now id old _ hold _ _ hcurrent hnew =>
    refine .trans .trans ((Evolves.refl .refl rows).append _) (.update .refl fun r hr hid => ?_)
    -- only the old record is rewritten, and it has no successor yet
    obtain rfl : r = old := by
      rcases List.mem_append.1 hr with hr | hr
      · exact List.inj_on_of_nodup_map hl.nodup hr hold (of_decide_eq_true hid)
      · obtain rfl := List.mem_singleton.1 hr
        exact absurd (of_decide_eq_true hid).symm (hnew old hold)
    simp only [Memory.retired, decide_eq_false_iff_not, not_or, not_not] at hcurrent
    refine ⟨rfl, fun id hid => ?_, fun h => h⟩
    rw [hcurrent.2] at hid
    cases hid

/-- No statement removes a record, rewrites its terms, gives it another successor or makes it valid
again. -/
theorem records_endure (hr : Run (idle emptyStore) ms s) :
    ∀ m ∈ ms, Evolves Row.Endures m.before.store.rows s.store.rows := by
  refine hr.relates (K := fun st : Store F => Linked st.rows)
    (R := fun st st' : Store F => Evolves Row.Endures st.rows st'.rows) (fun _ => .refl .refl _)
    (fun _ _ _ => .trans .trans) .empty fun o x st hl => ⟨(readOf_perform o x st hl).1, ?_⟩
  cases o with
  | tx t =>
    change Evolves Row.Endures st.rows (performMemory (.tx t) x st).2.rows
    rcases performMemory_tx t x st with ⟨e, he⟩ | ⟨reply, rows', hrun, heq⟩
    · rw [he]
      exact .refl .refl _
    · rw [heq]
      exact (catalogStep_run hrun).evolves hl
  | _ => exact .refl .refl _

end endurance

/-! ## A correction -/

namespace Sample

/-- The environment of a second process. -/
def calmTwo : MemoryChoice ℤ :=
  ⟨none, .ok (), true, fun
    | .uuid => .ok "two"
    | o => answers o⟩

def correction : IngestRequest ℤ :=
  { note with content := "reload the service", supersedesId := some "one" }

def corrected : List (Move (memorySystem ℤ)) :=
  ask (.ingest note) :: List.replicate 9 (.act 0 calm) ++
    ask (.ingest correction) :: List.replicate 12 (.act 1 calmTwo)

/-- The first record is superseded by the second, and no actor may declassify. -/
def chained (s : State (memorySystem ℤ)) : Bool :=
  (s.store.rows.map fun r => (r.id, r.supersedesId, r.supersededById)) =
    [("one", none, some "two"), ("two", some "one", none)] ∧
  s.calls.all fun c => c.request.config.actors.all fun actor =>
    !actor.capabilities.contains "declassify"

theorem supersession_chains_sample : ∃ (ms : List (Moment (memorySystem ℤ)))
    (s : State (memorySystem ℤ)) (old r : Row ℤ), Run (idle emptyStore) ms s ∧
    Supersedes s.store.rows old r ∧ Narrows old r := by
  have hexec : ∃ s ∈ (idle emptyStore).exec corrected, chained s = true := by
    decide
  obtain ⟨s, hs, hchained⟩ := hexec
  obtain ⟨ms, hr, -⟩ := Run.of_exec hs
  obtain ⟨hrows, hcalls⟩ := of_decide_eq_true hchained
  obtain ⟨old, rest, hold, hlink, hrest⟩ := List.map_eq_cons_iff.1 hrows
  obtain ⟨r, rest', rfl, hlink', hnil⟩ := List.map_eq_cons_iff.1 hrest
  have hsup : Supersedes s.store.rows old r := by
    refine ⟨by rw [hold]; exact List.mem_cons_self,
      by rw [hold]; exact List.mem_cons_of_mem _ List.mem_cons_self, ?_⟩
    rw [(Prod.mk.inj (Prod.mk.inj hlink').2).1, (Prod.mk.inj hlink).1]
  have hchains := (supersession_chains hr).2.2.2.2.2.2 [old, r]
    (List.isChain_pair.2 hsup) fun q hq c hc _ actor hactor hcap => ?_
  · exact ⟨ms, s, old, r, hr, hsup, (List.pairwise_pair.1 hchains)⟩
  · have hnone := List.all_eq_true.1 (List.all_eq_true.1 hcalls c hc) actor
      (List.mem_of_find?_eq_some hactor)
    simp [hcap] at hnone

theorem records_endure_sample : ∃ (ms : List (Moment (memorySystem ℤ)))
    (s : State (memorySystem ℤ)), Run (idle emptyStore) ms s ∧ chained s = true ∧
    ∀ m ∈ ms, Evolves Row.Endures m.before.store.rows s.store.rows := by
  have hexec : ∃ s ∈ (idle emptyStore).exec corrected, chained s = true := by
    decide
  obtain ⟨s, hs, hchained⟩ := hexec
  obtain ⟨ms, hr, -⟩ := Run.of_exec hs
  exact ⟨ms, s, hr, hchained, records_endure hr⟩

end Sample

end OpsMemory
