import OpsControlPlane.Safety.Searches

/-!
# Index states

A process marks the state of a record after its call of the vector store, and the marks are
unconditional. `retired_unindexed` says that a retired record is to be deleted, or deleted, in
every run in which a record is indexed, and marked as indexed or failed, only while it is not
retired. The sample is a run without this condition.
-/

namespace OpsMemory

set_option linter.unusedSectionVars false

open Transaction Calls

variable {F : Type} [Host F]

/-! ## Retired records -/

def Gone (rows : Table F) (id : String) : Prop :=
  (∃ r ∈ rows, r.id = id) ∧ ∀ r ∈ rows, r.id = id → r.retired = true

/-- The record is to be deleted, or deleted. -/
def IndexState.ending (s : IndexState) : Prop :=
  s = .deletePending ∨ s = .deleted

instance (s : IndexState) : Decidable s.ending :=
  inferInstanceAs (Decidable (_ ∨ _))

/-- What one statement does to the rows: it rewrites some of them, which keep their identifier
and stay retired, and inserts rows with new identifiers. -/
structure Rewrites (rows rows' : Table F) : Prop where
  kept : ∀ r ∈ rows, ∃ r' ∈ rows', r'.id = r.id
  origin : ∀ r' ∈ rows', (∃ r ∈ rows, r'.id = r.id ∧ (r.retired = true → r'.retired = true)) ∨
    ∀ r ∈ rows, r.id ≠ r'.id

theorem Rewrites.refl (rows : Table F) : Rewrites rows rows :=
  ⟨fun r hr => ⟨r, hr, rfl⟩, fun r hr => Or.inl ⟨r, hr, rfl, id⟩⟩

variable {f : Row F → Row F}

theorem rewrites_update {p : Row F → Bool} (hid : ∀ r, (f r).id = r.id)
    (hretired : ∀ r, r.retired = true → (f r).retired = true) (rows : Table F) :
    Rewrites rows (update p f rows) := by
  constructor
  · intro r hr
    refine ⟨_, mem_update.2 ⟨r, hr, rfl⟩, ?_⟩
    split_ifs
    · exact hid r
    · rfl
  · intro r' hr'
    obtain ⟨r, hr, rfl⟩ := mem_update.1 hr'
    refine Or.inl ⟨r, hr, ?_⟩
    split_ifs
    · exact ⟨hid r, hretired r⟩
    · exact ⟨rfl, id⟩

theorem rewrites_updateRow (hid : ∀ r, (f r).id = r.id)
    (hretired : ∀ r, r.retired = true → (f r).retired = true) (id : String) (rows : Table F) :
    Rewrites rows (updateRow id f rows) :=
  rewrites_update hid hretired rows

variable {rows rows' : Table F}

theorem rewrites_insert {r : Row F} (h : insertRow r rows = .ok rows') :
    Rewrites rows rows' ∧ rows' = rows ++ [r] ∧ ∀ q ∈ rows, q.id ≠ r.id := by
  unfold insertRow at h
  split at h
  · cases h
  · next hnone =>
    obtain rfl := Except.ok.inj h
    have hnew : ∀ q ∈ rows, q.id ≠ r.id := row_eq_none.1 hnone
    refine ⟨⟨fun q hq => ⟨q, List.mem_append_left _ hq, rfl⟩, fun q hq => ?_⟩, rfl, hnew⟩
    rcases List.mem_append.1 hq with hq | hq
    · exact Or.inl ⟨q, hq, rfl, id⟩
    · obtain rfl := List.mem_singleton.1 hq
      exact Or.inr hnew

theorem Rewrites.trans {rows'' : Table F} (h : Rewrites rows rows') (h' : Rewrites rows' rows'') :
    Rewrites rows rows'' := by
  constructor
  · intro r hr
    obtain ⟨r', hr', hid⟩ := h.kept r hr
    obtain ⟨r'', hr'', hid'⟩ := h'.kept r' hr'
    exact ⟨r'', hr'', hid'.trans hid⟩
  · intro r'' hr''
    rcases h'.origin r'' hr'' with ⟨r', hr', hid', hret'⟩ | hnew
    · rcases h.origin r' hr' with ⟨r, hr, hid, hret⟩ | hnew
      · exact Or.inl ⟨r, hr, hid'.trans hid, fun h => hret' (hret h)⟩
      · exact Or.inr fun r hr => hid' ▸ hnew r hr
    · refine Or.inr fun r hr heq => ?_
      obtain ⟨r', hr', hid⟩ := h.kept r hr
      exact hnew r' hr' (hid.trans heq)

theorem Gone.keep {id : String} (h : Gone rows id) (hw : Rewrites rows rows') : Gone rows' id := by
  obtain ⟨⟨r, hr, hid⟩, hall⟩ := h
  obtain ⟨r', hr', hid'⟩ := hw.kept r hr
  refine ⟨⟨r', hr', hid'.trans hid⟩, fun q hq hqid => ?_⟩
  rcases hw.origin q hq with ⟨p, hp, hpid, hret⟩ | hnew
  · exact hret (hall p hp (hpid.symm.trans hqid))
  · exact absurd (hid.trans hqid.symm) (hnew r hr)

/-! ## Transactions -/

theorem rewrites_mark (id : String) (state : IndexState) (error : Option String) (now : String)
    (rows : Table F) : Rewrites rows (mark id state error now rows) :=
  rewrites_updateRow (Row.mark_id state error now) (fun r h => by simpa using h) id rows

theorem rewrites_consolidate (now staleBefore : String) (rows : Table F) :
    Rewrites rows (consolidateTx now staleBefore rows).2 := by
  have hexpire : Rewrites rows (expire now rows) :=
    rewrites_update (Row.invalidate_id now _) (fun r _ => by simp) rows
  exact hexpire.trans (rewrites_update (Row.age_id now) (fun r h => by simpa using h) _)

/-- What a successful ingestion does to the rows. -/
theorem ingestTx_cases {request : IngestRequest F} {vector : List F}
    {model authority now id : String} {reply : Row F × Bool × Option String}
    (h : ingestTx request vector model authority now id rows = .ok (reply, rows')) :
    (rows' = rows ∧ reply.2.2 = none) ∨
    (insertRow (newRow request vector model authority now id) rows = .ok rows' ∧
      reply.2.2 = none) ∨
    ∃ old inserted, insertRow (newRow request vector model authority now id) rows =
        .ok inserted ∧ (∃ q ∈ rows, q.id = old) ∧ reply.2.2 = some old ∧
      rows' = updateRow old (Row.supersede id now) inserted := by
  unfold ingestTx at h
  simp only at h
  split at h
  · split at h
    · obtain ⟨rfl, rfl⟩ := Prod.mk.inj (Except.ok.inj h)
      exact Or.inl ⟨rfl, rfl⟩
    · cases hins : insertRow (newRow request vector model authority now id) rows with
      | error e => simp [hins, Except.map] at h
      | ok inserted =>
        rw [hins] at h
        obtain ⟨rfl, rfl⟩ := Prod.mk.inj (Except.ok.inj h)
        exact Or.inr (Or.inl ⟨rfl, rfl⟩)
  · split at h
    · cases h
    · next old hold =>
      split_ifs at h
      cases hins : insertRow (newRow request vector model authority now id) rows with
      | error e => simp [hins, Except.map] at h
      | ok inserted =>
        rw [hins] at h
        obtain ⟨rfl, rfl⟩ := Prod.mk.inj (Except.ok.inj h)
        exact Or.inr (Or.inr ⟨old.id, inserted, rfl, ⟨old, (row_some hold).1, rfl⟩, rfl, rfl⟩)

/-- What a successful invalidation does to the rows. -/
theorem invalidateTx_cases {id reason now : String} {reply : Row F}
    (h : invalidateTx id reason now rows = .ok (reply, rows')) :
    (∃ r, findRow id rows = some r ∧ r.invalidatedAt ≠ none ∧ rows' = rows) ∨
    (∃ r, findRow id rows = some r) ∧ rows' = updateRow id (Row.invalidate now reason) rows := by
  unfold invalidateTx at h
  split at h
  · cases h
  · next r hr =>
    split_ifs at h with hinv
    · obtain ⟨-, rfl⟩ := Prod.mk.inj (Except.ok.inj h)
      exact Or.inr ⟨⟨r, hr⟩, rfl⟩
    · obtain ⟨-, rfl⟩ := Prod.mk.inj (Except.ok.inj h)
      exact Or.inl ⟨r, hr, hinv, rfl⟩

/-- Every transaction rewrites or inserts rows. -/
theorem rewrites_run {t : CatalogTx F} {reply : t.Reply} (h : t.run rows = .ok (reply, rows')) :
    Rewrites rows rows' := by
  cases t with
  | ingest request vector model authority now id =>
    rcases ingestTx_cases h with ⟨rfl, -⟩ | ⟨hins, -⟩ | ⟨old, inserted, hins, -, -, rfl⟩
    · exact .refl _
    · exact (rewrites_insert hins).1
    · exact (rewrites_insert hins).1.trans
        (rewrites_updateRow (Row.supersede_id id now) (fun r _ => by simp) old _)
  | get id =>
    change getTx id rows = _ at h
    unfold getTx at h
    split at h
    · obtain ⟨-, rfl⟩ := Prod.mk.inj (Except.ok.inj h)
      exact .refl _
    · cases h
  | markQdrant id state error now =>
    obtain ⟨-, rfl⟩ := Prod.mk.inj (Except.ok.inj h)
    exact rewrites_mark id state error now rows
  | invalidate id reason now =>
    rcases invalidateTx_cases h with ⟨r, -, -, rfl⟩ | ⟨-, rfl⟩
    · exact .refl _
    · exact rewrites_updateRow (Row.invalidate_id now reason) (fun r _ => by simp) id rows
  | consolidateLifecycle now staleBefore =>
    obtain ⟨-, rfl⟩ := Prod.mk.inj (Except.ok.inj h)
    exact rewrites_consolidate now staleBefore rows
  | getMany ids =>
    obtain ⟨-, rfl⟩ := Prod.mk.inj (Except.ok.inj h)
    exact .refl _
  | fallback request n now =>
    obtain ⟨-, rfl⟩ := Prod.mk.inj (Except.ok.inj h)
    exact .refl _
  | pendingForReindex n =>
    obtain ⟨-, rfl⟩ := Prod.mk.inj (Except.ok.inj h)
    exact .refl _
  | pendingDeletions n =>
    obtain ⟨-, rfl⟩ := Prod.mk.inj (Except.ok.inj h)
    exact .refl _

/-! ## Writes -/

def lastReceived (writes : List VectorCall) (id : String) : Option Write :=
  ((writes.filter fun w => w.collection = .main ∧ w.id = id).getLast?).map VectorCall.write

/-- The last write of the memory was its deletion, and its point is not there. -/
def Deleted (st : Store F) (id : String) : Prop :=
  lastReceived st.writes id = some .delete ∧ ¬ Holds st .main id

theorem getLast?_filter_append {p : VectorCall → Bool} (writes : List VectorCall)
    (w : VectorCall) : ((writes ++ [w]).filter p).getLast? =
      if p w then some w else (writes.filter p).getLast? := by
  rw [List.filter_append, List.filter_singleton]
  cases hw : p w <;> simp

theorem lastReceived_append (writes : List VectorCall) (w : VectorCall) (id : String) :
    lastReceived (writes ++ [w]) id =
      if w.collection = .main ∧ w.id = id then some w.write else lastReceived writes id := by
  unfold lastReceived
  rw [getLast?_filter_append]
  by_cases hw : w.collection = .main ∧ w.id = id
  · rw [if_pos (decide_eq_true hw), if_pos hw, Option.map_some]
  · rw [if_neg (fun h => hw (of_decide_eq_true h)), if_neg hw]

theorem lastWrite_append (writes : List VectorCall) (w : VectorCall) (c : Collection)
    (id : String) : lastWrite (writes ++ [w]) c id =
      if w.collection = c ∧ w.id = id ∧ w.applied = true then some w.write
      else lastWrite writes c id := by
  unfold lastWrite
  rw [getLast?_filter_append]
  by_cases hw : w.collection = c ∧ w.id = id ∧ w.applied = true
  · rw [if_pos (decide_eq_true hw), if_pos hw, Option.map_some]
  · rw [if_neg (fun h => hw (of_decide_eq_true h)), if_neg hw]

theorem Deleted.append {st : Store F} {id : String} (h : Deleted st id) (w : VectorCall)
    (hw : w.collection = .main → w.id = id → w.write = .delete) :
    Deleted { st with writes := st.writes ++ [w] } id := by
  obtain ⟨hlast, hholds⟩ := h
  constructor
  · show lastReceived (st.writes ++ [w]) id = _
    rw [lastReceived_append]
    split_ifs with hsame
    · rw [hw hsame.1 hsame.2]
    · exact hlast
  · show ¬ lastWrite (st.writes ++ [w]) .main id = _
    rw [lastWrite_append]
    split_ifs with hsame
    · rw [hw hsame.1 hsame.2.1]
      simp
    · exact hholds

theorem deleted_of_delete (st : Store F) (id : String) :
    Deleted { st with writes := st.writes ++ [⟨.delete, .main, id, true⟩] } id := by
  constructor
  · show lastReceived (st.writes ++ [_]) id = _
    rw [lastReceived_append, if_pos ⟨rfl, rfl⟩]
  · show ¬ lastWrite (st.writes ++ [_]) .main id = _
    rw [lastWrite_append, if_pos ⟨rfl, rfl, rfl⟩]
    simp

/-! ## What a process may do -/

def Tells : Said F → String → Prop
  | ⟨.tx (.ingest _ _ _ _ _ _), .ok reply⟩, id =>
    (reply : Row F × Bool × Option String).2.2 = some id
  | ⟨.tx (.invalidate i _ _), .ok _⟩, id => i = id
  | ⟨.tx (.pendingDeletions _), .ok rows⟩, id => id ∈ List.map (fun r : Row F => r.id) rows
  | _, _ => False

theorem not_tells_error (o : MemoryOp F) (e : Exc) (id : String) : ¬ Tells ⟨o, .error e⟩ id := by
  cases o with
  | tx t => cases t <;> exact fun h => h
  | _ => exact fun h => h

/-- A memory is deleted, or marked for it, once the process was told that it is gone, and
marked as deleted once its deletion was answered. -/
def Careful (h : List (Said F)) : MemoryOp F → Prop
  | .delete c id => c = .main ∧ ∃ a ∈ h, Tells a id
  | .tx (.markQdrant id .deleted _ _) => (⟨.delete .main id, .ok ()⟩ : Said F) ∈ h
  | .tx (.markQdrant id .deletePending _ _) => ∃ a ∈ h, Tells a id
  | .tx (.markQdrant _ .pending _ _) => False
  | _ => True

def indexes : MemoryOp F → Option String
  | .upsert .main record _ => some record.id
  | .tx (.markQdrant id .indexed _ _) => some id
  | .tx (.markQdrant id .failed _ _) => some id
  | _ => none

/-- A memory is indexed, and marked as indexed or failed, while it is not retired. -/
def Timely (o : MemoryOp F) (st : Store F) : Prop :=
  ∀ id ∈ indexes o, ∀ r ∈ st.rows, r.id = id → r.retired = false

instance (o : MemoryOp F) (st : Store F) : Decidable (Timely o st) :=
  inferInstanceAs (Decidable (∀ id ∈ indexes o, _))

/-- What an answer goes on to say of the store. -/
def Told : Said F → Store F → Prop
  | ⟨.delete _ id, .ok _⟩, st => Gone st.rows id ∧ Deleted st id
  | a, st => ∀ id, Tells a id → Gone st.rows id

theorem told_error (o : MemoryOp F) (e : Exc) (st : Store F) : Told ⟨o, .error e⟩ st := by
  have hnot : ∀ id, Tells (⟨o, .error e⟩ : Said F) id → Gone st.rows id :=
    fun id hid => absurd hid (not_tells_error o e id)
  cases o <;> exact hnot

/-- The states of the records agree with the vector store. -/
structure Consistent (st : Store F) : Prop where
  nodup : (st.rows.map fun r => r.id).Nodup
  retired : ∀ r ∈ st.rows, r.retired = true → r.qdrantState.ending
  ending : ∀ r ∈ st.rows, r.qdrantState.ending → r.retired = true
  deleted : ∀ r ∈ st.rows, r.qdrantState = .deleted → Deleted st r.id

/-! ## What an operation keeps -/

section steps

variable {st : Store F} {x : MemoryChoice F}

/-- A successful transaction is what its statement does. -/
theorem performMemory_tx (t : CatalogTx F) (x : MemoryChoice F) (st : Store F) :
    (∃ e, performMemory (.tx t) x st = (.error e, st)) ∨
    ∃ reply rows', t.run st.rows = .ok (reply, rows') ∧
      performMemory (.tx t) x st = (.ok reply, { st with rows := rows' }) := by
  cases hx : x.fault with
  | some message => exact Or.inl ⟨.sqlite message, by simp [performMemory, hx]⟩
  | none =>
    cases hrun : t.run st.rows with
    | error e => exact Or.inl ⟨e, by simp [performMemory, hx, hrun]⟩
    | ok p => exact Or.inr ⟨p.1, p.2, rfl, by simp [performMemory, hx, hrun]⟩

theorem rewrites_perform (o : MemoryOp F) (x : MemoryChoice F) (st : Store F) :
    Rewrites st.rows (performMemory o x st).2.rows := by
  cases o with
  | tx t =>
    rcases performMemory_tx t x st with ⟨e, he⟩ | ⟨reply, rows', hrun, heq⟩
    · rw [he]
      exact .refl _
    · rw [heq]
      exact rewrites_run hrun
  | ensure c => exact .refl _
  | upsert c record vector => exact .refl _
  | delete c id => exact .refl _
  | env o => exact .refl _

variable {o : MemoryOp F}

theorem deleted_perform {id : String} (htimely : Timely o st) (hgone : Gone st.rows id)
    (hdeleted : Deleted st id) : Deleted (performMemory o x st).2 id := by
  cases o with
  | tx t =>
    rcases performMemory_tx t x st with ⟨e, he⟩ | ⟨reply, rows', -, heq⟩
    · rw [he]
      exact hdeleted
    · rw [heq]
      exact hdeleted
  | ensure c => exact hdeleted
  | upsert c record vector =>
    refine hdeleted.append ⟨.upsert, c, record.id, x.takes⟩ fun hc hid => ?_
    obtain ⟨⟨r, hr, hrid⟩, hall⟩ := hgone
    obtain rfl : c = .main := hc
    have hfresh := htimely _ rfl r hr (hrid.trans hid.symm)
    rw [hall r hr hrid] at hfresh
    cases hfresh
  | delete c id' => exact hdeleted.append ⟨.delete, c, id', x.takes⟩ fun _ _ => rfl
  | env o => exact hdeleted

theorem Told.keep {a : Said F} (h : Told a st) (htimely : Timely o st) :
    Told a (performMemory o x st).2 := by
  have hrows := rewrites_perform o x st
  unfold Told at h ⊢
  split at h
  · exact ⟨h.1.keep hrows, deleted_perform htimely h.1 h.2⟩
  · exact fun id hid => (h id hid).keep hrows

theorem gone_of_row {rows : Table F} (hn : (rows.map fun r => r.id).Nodup) {r : Row F}
    (hr : r ∈ rows) (hretired : r.retired = true) : Gone rows r.id := by
  refine ⟨⟨r, hr, rfl⟩, fun q hq hid => ?_⟩
  have hrow := row_of_mem (g := fun r : Row F => r.id) hn hq
  rw [show q.id = r.id from hid, row_of_mem (g := fun r : Row F => r.id) hn hr] at hrow
  obtain rfl := Option.some.inj hrow
  exact hretired

theorem consistent_of_rows {rows' : Table F}
    (hn : (rows'.map fun r => r.id).Nodup)
    (hrow : ∀ r' ∈ rows', (r'.retired = true ↔ r'.qdrantState.ending) ∧
      (r'.qdrantState = .deleted → Deleted st r'.id)) :
    Consistent { st with rows := rows' } where
  nodup := hn
  retired r' hr' := (hrow r' hr').1.1
  ending r' hr' := (hrow r' hr').1.2
  deleted r' hr' := (hrow r' hr').2

variable {f : Row F → Row F} {p : Row F → Bool}

theorem Consistent.update (h : Consistent st) (hid : ∀ r, (f r).id = r.id)
    (hrow : ∀ r ∈ st.rows, p r = true → ((f r).retired = true ↔ (f r).qdrantState.ending) ∧
      ((f r).qdrantState = .deleted → Deleted st r.id)) :
    Consistent { st with rows := Transaction.update p f st.rows } := by
  refine consistent_of_rows ?_ fun r' hr' => ?_
  · rw [map_update hid]
    exact h.nodup
  · obtain ⟨r, hr, rfl⟩ := mem_update.1 hr'
    split_ifs with hp
    · rw [hid]
      exact hrow r hr hp
    · exact ⟨⟨h.retired r hr, h.ending r hr⟩, h.deleted r hr⟩

theorem Consistent.retire (h : Consistent st) (hid : ∀ r, (f r).id = r.id)
    (hretired : ∀ r, (f r).retired = true) (hstate : ∀ r, (f r).qdrantState = .deletePending) :
    Consistent { st with rows := Transaction.update p f st.rows } := by
  refine h.update hid fun r _ _ => ?_
  rw [hstate]
  refine ⟨⟨fun _ => Or.inl rfl, fun _ => hretired r⟩, fun heq => ?_⟩
  cases heq

theorem Consistent.insert (h : Consistent st) {request : IngestRequest F} {vector : List F}
    {model authority now id : String} {rows' : Table F}
    (hins : insertRow (newRow request vector model authority now id) st.rows = .ok rows') :
    Consistent { st with rows := rows' } := by
  obtain ⟨-, rfl, hnew⟩ := rewrites_insert hins
  refine consistent_of_rows (nodup_insert h.nodup (row_eq_none.2 hnew)) fun r' hr' => ?_
  rcases List.mem_append.1 hr' with hr' | hr'
  · exact ⟨⟨h.retired r' hr', h.ending r' hr'⟩, h.deleted r' hr'⟩
  · obtain rfl := List.mem_singleton.1 hr'
    refine ⟨⟨fun hret => ?_, fun hend => ?_⟩, fun hdel => ?_⟩
    · simp [newRow, Memory.retired] at hret
    · rcases hend with hend | hend <;> cases hend
    · cases hdel

variable {said : List (Said F)}

/-- A transaction that a process may make, in time, keeps the records consistent. -/
theorem Consistent.run (h : Consistent st) {t : CatalogTx F} {rows' : Table F} {reply : t.Reply}
    (hsaid : ∀ a ∈ said, Told a st) (hcareful : Careful said (.tx t)) (htimely : Timely (.tx t) st)
    (hrun : t.run st.rows = .ok (reply, rows')) : Consistent { st with rows := rows' } := by
  cases t with
  | ingest request vector model authority now id =>
    rcases ingestTx_cases hrun with ⟨rfl, -⟩ | ⟨hins, -⟩ | ⟨old, inserted, hins, -, -, rfl⟩
    · exact h
    · exact h.insert hins
    · exact (h.insert hins).retire (Row.supersede_id id now) (Row.supersede_retired id now)
        fun _ => rfl
  | invalidate id reason now =>
    rcases invalidateTx_cases hrun with ⟨r, -, -, rfl⟩ | ⟨-, rfl⟩
    · exact h
    · exact h.retire (Row.invalidate_id now reason) (Row.invalidate_retired now reason)
        fun _ => rfl
  | consolidateLifecycle now staleBefore =>
    obtain ⟨-, rfl⟩ := Prod.mk.inj (Except.ok.inj hrun)
    have hswept : Consistent { st with rows := expire now st.rows } :=
      h.retire (Row.invalidate_id now _) (Row.invalidate_retired now _) fun _ => rfl
    refine hswept.update (Row.age_id now) fun r hr _ => ?_
    rw [Row.age_retired]
    exact ⟨⟨hswept.retired r hr, hswept.ending r hr⟩, hswept.deleted r hr⟩
  | markQdrant id state error now =>
    obtain ⟨-, rfl⟩ := Prod.mk.inj (Except.ok.inj hrun)
    have hmark : (∀ r ∈ st.rows, r.id = id → (r.retired = true ↔ state.ending) ∧
        (state = .deleted → Deleted st r.id)) →
        Consistent { st with rows := mark id state error now st.rows } := by
      intro hrow
      refine h.update (Row.mark_id state error now) fun r hr hid => ?_
      rw [Row.mark_retired]
      exact hrow r hr (of_decide_eq_true hid)
    have hfresh : ∀ r : Row F, ¬ state.ending → r.retired = false →
        (r.retired = true ↔ state.ending) ∧ (state = .deleted → Deleted st r.id) := by
      intro r hnot hret
      refine ⟨⟨fun h => ?_, fun h => absurd h hnot⟩, fun h => absurd (Or.inr h) hnot⟩
      rw [hret] at h
      cases h
    refine hmark fun r hr hid => ?_
    cases state with
    | pending => exact hcareful.elim
    | indexed => exact hfresh r (by simp [IndexState.ending]) (htimely id rfl r hr hid)
    | failed => exact hfresh r (by simp [IndexState.ending]) (htimely id rfl r hr hid)
    | deletePending =>
      obtain ⟨a, ha, htells⟩ := hcareful
      have hgone : Gone st.rows id := by
        have hold := hsaid a ha
        unfold Told at hold
        split at hold
        · exact htells.elim
        · exact hold id htells
      exact ⟨⟨fun _ => Or.inl rfl, fun _ => hgone.2 r hr hid⟩, fun hdel => by cases hdel⟩
    | deleted =>
      obtain ⟨hgone, hdeleted⟩ := hsaid _ hcareful
      exact ⟨⟨fun _ => Or.inr rfl, fun _ => hgone.2 r hr hid⟩, fun _ => hid ▸ hdeleted⟩
  | get id =>
    change getTx id st.rows = _ at hrun
    unfold getTx at hrun
    split at hrun
    · obtain ⟨-, rfl⟩ := Prod.mk.inj (Except.ok.inj hrun)
      exact h
    · cases hrun
  | getMany ids =>
    obtain ⟨-, rfl⟩ := Prod.mk.inj (Except.ok.inj hrun)
    exact h
  | fallback request n now =>
    obtain ⟨-, rfl⟩ := Prod.mk.inj (Except.ok.inj hrun)
    exact h
  | pendingForReindex n =>
    obtain ⟨-, rfl⟩ := Prod.mk.inj (Except.ok.inj hrun)
    exact h
  | pendingDeletions n =>
    obtain ⟨-, rfl⟩ := Prod.mk.inj (Except.ok.inj hrun)
    exact h

/-- What a process may do, in time, keeps the records consistent. -/
theorem Consistent.perform (h : Consistent st) (hsaid : ∀ a ∈ said, Told a st)
    (hcareful : Careful said o) (htimely : Timely o st) : Consistent (performMemory o x st).2 := by
  have hwrite : ∀ w : VectorCall, (w.collection = .main → w.write = .upsert →
      ∀ r ∈ st.rows, r.id = w.id → r.retired = false) →
      Consistent { st with writes := st.writes ++ [w] } := by
    intro w hw
    refine ⟨h.nodup, h.retired, h.ending, fun r hr hstate => ?_⟩
    refine (h.deleted r hr hstate).append w fun hc hid => ?_
    cases hwrite : w.write with
    | delete => rfl
    | upsert =>
      have hfresh := hw hc hwrite r hr hid.symm
      rw [h.ending r hr (Or.inr hstate)] at hfresh
      cases hfresh
  cases o with
  | tx t =>
    rcases performMemory_tx t x st with ⟨e, he⟩ |
      ⟨reply, rows', hrun, heq⟩
    · rw [he]
      exact h
    · rw [heq]
      exact h.run hsaid hcareful htimely hrun
  | ensure c => exact h
  | upsert c record vector =>
    refine hwrite ⟨.upsert, c, record.id, x.takes⟩ fun hc _ => ?_
    obtain rfl : c = .main := hc
    exact htimely _ rfl
  | delete c id => exact hwrite ⟨.delete, c, id, x.takes⟩ fun _ hw => by cases hw
  | env o => exact h

/-- An answer is true of the store that it leaves. -/
theorem told_perform (h : Consistent st) (hsaid : ∀ a ∈ said, Told a st)
    (hcareful : Careful said o) : Told ⟨o, (performMemory o x st).1⟩ (performMemory o x st).2 := by
  cases o with
  | tx t =>
    rcases performMemory_tx t x st with ⟨e, he⟩ |
      ⟨reply, rows', hrun, heq⟩
    · rw [he]
      exact told_error _ e st
    rw [heq]
    intro id htells
    have hw := rewrites_run hrun
    cases t with
    | ingest request vector model authority now newId =>
      rcases ingestTx_cases hrun with ⟨-, hnone⟩ | ⟨-, hnone⟩ |
        ⟨old, inserted, hins, ⟨q, hq, hqid⟩, hsome, rfl⟩
      · exact absurd (hnone.symm.trans htells) (by simp)
      · exact absurd (hnone.symm.trans htells) (by simp)
      · obtain rfl : old = id := Option.some.inj (hsome.symm.trans htells)
        obtain ⟨q', hq', hid⟩ := hw.kept q hq
        refine ⟨⟨q', hq', hid.trans hqid⟩, fun r hr hrid => ?_⟩
        obtain ⟨p, hp, rfl⟩ := mem_update.1 hr
        split_ifs at hrid ⊢ with hpid
        · exact Row.supersede_retired newId now p
        · exact absurd (decide_eq_true hrid) hpid
    | invalidate i reason now =>
      obtain rfl : i = id := htells
      rcases invalidateTx_cases hrun with ⟨r, hr, hinv, rfl⟩ | ⟨⟨r, hr⟩, rfl⟩
      · obtain ⟨hmem, hid⟩ := row_some hr
        have hretired : r.retired = true := decide_eq_true (Or.inl hinv)
        have hgone := gone_of_row h.nodup hmem hretired
        rwa [show r.id = i from hid] at hgone
      · obtain ⟨hmem, hid⟩ := row_some hr
        obtain ⟨q', hq', hid'⟩ := hw.kept r hmem
        refine ⟨⟨q', hq', hid'.trans hid⟩, fun q hq hqid => ?_⟩
        obtain ⟨p, hp, rfl⟩ := mem_update.1 hq
        split_ifs at hqid ⊢ with hpid
        · exact Row.invalidate_retired now reason p
        · exact absurd (decide_eq_true hqid) hpid
    | pendingDeletions n =>
      obtain ⟨rfl, rfl⟩ := Prod.mk.inj (Except.ok.inj hrun)
      obtain ⟨r, hr, rfl⟩ := List.mem_map.1 htells
      have hr := (List.mem_insertionSort _).1 (List.mem_of_mem_take hr)
      obtain ⟨hmem, hstate⟩ := List.mem_filter.1 hr
      exact gone_of_row h.nodup hmem (h.ending r hmem (Or.inl (of_decide_eq_true hstate)))
    | get id => exact htells.elim
    | getMany ids => exact htells.elim
    | markQdrant id state error now => exact htells.elim
    | fallback request n now => exact htells.elim
    | pendingForReindex n => exact htells.elim
    | consolidateLifecycle now staleBefore => exact htells.elim
  | ensure c => exact fun id hid => hid.elim
  | upsert c record vector => exact fun id hid => hid.elim
  | env o => exact fun id hid => hid.elim
  | delete c id =>
    obtain ⟨rfl, a, ha, htells⟩ := hcareful
    have hgone : Gone st.rows id := by
      have hold := hsaid a ha
      unfold Told at hold
      split at hold
      · exact htells.elim
      · exact hold id htells
    cases hreply : x.reply with
    | error e =>
      have hanswer : (performMemory (.delete .main id) x st).1 = .error e := hreply
      rw [hanswer]
      exact told_error _ e _
    | ok u =>
      have hanswer : (performMemory (.delete .main id) x st).1 = .ok u := hreply
      rw [hanswer]
      refine ⟨hgone, ?_⟩
      have htakes : x.takes = true := by simp [MemoryChoice.takes, hreply, Except.toBool]
      show Deleted { st with writes := st.writes ++ [⟨.delete, .main, id, x.takes⟩] } id
      rw [htakes]
      exact deleted_of_delete st id

end steps

/-! ## What the methods do -/

section trails

variable {α β : Type} {h : List (Said F)} {id : String}

/-- The operation needs no care, and ingests nothing. -/
def Plain : MemoryOp F → Prop
  | .delete _ _ => False
  | .tx (.ingest _ _ _ _ _ _) => False
  | .tx (.markQdrant _ .deleted _ _) => False
  | .tx (.markQdrant _ .deletePending _ _) => False
  | .tx (.markQdrant _ .pending _ _) => False
  | _ => True

variable {o : MemoryOp F}

theorem Plain.careful (ho : Plain o) (h : List (Said F)) : Careful h o := by
  cases o with
  | delete c id => exact ho.elim
  | tx t =>
    cases t with
    | markQdrant id state error now => cases state <;> first | exact ho.elim | trivial
    | _ => trivial
  | _ => trivial

/-- The operation ingests nothing. -/
def Ingestless : MemoryOp F → Prop
  | .tx (.ingest _ _ _ _ _ _) => False
  | _ => True

theorem Plain.ingestless (ho : Plain o) : Ingestless o := by
  cases o with
  | tx t => cases t <;> first | exact ho.elim | trivial
  | _ => trivial

/-- The program asks only what needs no care. -/
abbrev Tame (p : Method F α) : Prop :=
  Prog.Asks Plain p

/-- The program does what it may, and returns what `Q` says. -/
abbrev Obeys (p : Method F α) (Q : List (Said F) → α → Prop) (h : List (Said F)) : Prop :=
  Prog.Trail Careful Q (fun _ _ => True) p h

variable {p : Method F α}

variable {Q : List (Said F) → α → Prop}

/-- The program ingests nothing, does what it may, and returns what `Q` says. -/
abbrev Guards (p : Method F α) (Q : List (Said F) → α → Prop) (h : List (Said F)) : Prop :=
  Prog.Trail (fun h o => Careful h o ∧ Ingestless o) Q (fun _ _ => True) p h

variable {P : List (Said F) → MemoryOp F → Prop}

theorem Guards.trail (hp : Guards p Q h) (hP : ∀ h o, Careful h o → Ingestless o → P h o) :
    Prog.Trail (I := memoryInterface F) P Q (fun _ _ => True) p h :=
  hp.mono (fun h o ho => hP h o ho.1 ho.2) (fun _ _ h => h) fun _ _ h => h

theorem Guards.obeys (hp : Guards p Q h) : Obeys p Q h :=
  hp.trail fun _ _ ho _ => ho

theorem Guards.attempt (hp : Guards p Q h) : Guards p.attempt (fun _ _ => True) h := by
  rw [Guards, Prog.trail_attempt]
  exact hp.mono (fun _ _ h => h) (fun _ _ _ => trivial) fun _ _ _ => trivial

theorem Guards.catchUnavailable (hp : Guards p Q h) :
    Guards (catchUnavailable p) (fun _ _ => True) h := by
  refine hp.attempt.bind fun h' r _ _ => ?_
  split <;> trivial

theorem Guards.catchIndexing (hp : Guards p Q h) :
    Guards (catchIndexing p) (fun _ _ => True) h := by
  refine hp.attempt.bind fun h' r _ _ => ?_
  split <;> trivial

theorem Tame.guards (hp : Tame p) (h : List (Said F)) : Guards p (fun _ _ => True) h :=
  (hp h).mono (fun h' _ ho => ⟨ho.careful h', ho.ingestless⟩) (fun _ _ h => h) fun _ _ h => h

theorem Tame.obeys (hp : Tame p) (h : List (Said F)) : Obeys p (fun _ _ => True) h :=
  (hp.guards h).obeys

variable {A : MemoryOp F → Prop}

theorem asks_op (ho : A o) : Prog.Asks (I := memoryInterface F) A (perform o) :=
  (Prog.asks_perform (I := memoryInterface F) ho).bind fun r =>
    Prog.asks_ofExcept (r : Except Exc o.Reply)

theorem tame_ask (o : EnvOp F) : Tame (ask o) :=
  asks_op (o := .env o) trivial

theorem asks_catchUnavailable (hp : Prog.Asks A p) : Prog.Asks A (catchUnavailable p) := by
  refine hp.attempt.bind fun r => ?_
  split
  · exact Prog.asks_pure _
  · exact Prog.asks_pure _
  · exact Prog.asks_fail _

theorem Tame.catchEmbedding (hp : Tame p) : Tame (catchEmbedding p) := by
  refine hp.attempt.bind fun r => ?_
  split
  · exact Prog.asks_pure _
  · exact Prog.asks_pure _
  · exact Prog.asks_pure _
  · exact Prog.asks_fail _

theorem tame_upsertPoint (c : Collection) (n : ℕ) (r : Row F) (vector : List F) :
    Tame (upsertPoint c n r vector) := by
  unfold upsertPoint
  by_cases hlength : vector.length ≠ n
  · rw [if_pos hlength]
    exact Prog.asks_fail _
  · rw [if_neg hlength]
    exact asks_op (o := .upsert c r vector) trivial

theorem tame_markQdrant {state : IndexState} (id : String) (error : Option String)
    (hstate : state = .indexed ∨ state = .failed) :
    Tame (markQdrant id state error : Method F Unit) := by
  unfold markQdrant
  refine (tame_ask .now).bind fun now =>
    asks_op (o := .tx (.markQdrant id state error now)) ?_
  rcases hstate with rfl | rfl <;> trivial

theorem tame_authorize (cfg : Config F) (name : String) (uid : ℕ) (capability : String) :
    Tame (authorize cfg name uid capability) := by
  unfold authorize
  split
  · exact Prog.asks_fail _
  · refine (tame_ask _).bind fun uids => ?_
    split_ifs
    · exact Prog.asks_pure _
    · exact Prog.asks_fail _
    · exact Prog.asks_fail _

/-! ### Deletions -/

theorem drop_guards (htold : ∃ a ∈ h, Tells a id) :
    Guards (catchUnavailable do
      deletePoint .main id
      markQdrant id .deleted none : Method F (Except String Unit)) (fun _ _ => True) h := by
  have hdelete : Guards (deletePoint .main id) (fun h' _ =>
      (⟨.delete .main id, .ok ()⟩ : Said F) ∈ h') h := by
    refine ⟨⟨⟨rfl, htold⟩, trivial⟩, fun x => ?_⟩
    refine (Prog.trail_ofExcept (x : Except Exc Unit) _).2 ⟨fun u hu => ?_, fun _ _ => trivial⟩
    rw [show x = .ok () from hu]
    exact List.mem_append_right _ (List.mem_singleton.2 rfl)
  refine Guards.catchUnavailable (Q := fun _ _ => True) (hdelete.bind fun h₁ _ _ hsaid => ?_)
  refine ((tame_ask .now).guards h₁).bind fun h₂ now hpre _ => ?_
  refine ⟨⟨hpre.subset hsaid, trivial⟩, fun x => ?_⟩
  exact (Prog.trail_ofExcept (x : Except Exc Unit) _).2
    ⟨fun _ _ => trivial, fun _ _ => trivial⟩

theorem markPending_guards {error : Option String} (htold : ∃ a ∈ h, Tells a id) :
    Guards (markQdrant id .deletePending error : Method F Unit) (fun _ _ => True) h := by
  refine ((tame_ask .now).guards h).bind fun h₁ now hpre _ => ?_
  obtain ⟨a, ha, htells⟩ := htold
  refine ⟨⟨⟨a, hpre.subset ha, htells⟩, trivial⟩, fun x => ?_⟩
  exact (Prog.trail_ofExcept (x : Except Exc Unit) _).2
    ⟨fun _ _ => trivial, fun _ _ => trivial⟩

/-! ### Methods -/

variable {supersededId : Option String}

theorem dropSuperseded_guards (htold : ∀ id, supersededId = some id → ∃ a ∈ h, Tells a id) :
    Guards (dropSuperseded supersededId : Method F Unit) (fun _ _ => True) h := by
  unfold dropSuperseded
  split
  · trivial
  · next id =>
    obtain ⟨a, ha, htells⟩ := htold id rfl
    refine (drop_guards ⟨a, ha, htells⟩).bind fun h₁ r hpre _ => ?_
    split
    · trivial
    · exact markPending_guards ⟨a, hpre.subset ha, htells⟩

theorem indexRecord_guards {cfg : Config F} {record : Row F} {vector : List F}
    (htold : ∀ id, supersededId = some id → ∃ a ∈ h, Tells a id) :
    Guards (indexRecord cfg record vector supersededId) (fun _ _ => True) h := by
  unfold indexRecord
  refine Guards.catchUnavailable (Q := fun _ _ => True) ?_
  refine (Tame.guards (asks_op (o := .ensure .main) trivial) h).bind fun h₁ _ hpre₁ _ => ?_
  refine ((tame_upsertPoint _ _ _ _).guards h₁).bind fun h₂ _ hpre₂ _ => ?_
  refine ((tame_markQdrant record.id none (Or.inl rfl)).guards h₂).bind fun h₃ _ hpre₃ _ => ?_
  refine dropSuperseded_guards fun id hid => ?_
  obtain ⟨a, ha, htells⟩ := htold id hid
  exact ⟨a, (hpre₁.trans (hpre₂.trans hpre₃)).subset ha, htells⟩

/-- A rule that allows the ingestion, and what is careful and ingests nothing. -/
theorem store_trail (hP : ∀ h o, Careful h o → Ingestless o → P h o) (cfg : Config F)
    (actor : ActorPolicy) (request : IngestRequest F)
    (hingest : ∀ h' now recordId, h <+: h' → P h' (.tx (.ingest request
      (Host.localEmbed cfg.dimensions request.content).1 cfg.modelId
      (authorityStatus cfg actor request) now recordId))) :
    Prog.Trail (I := memoryInterface F) P (fun _ _ => True) (fun _ _ => True)
      (store cfg actor request) h := by
  unfold store
  refine (((tame_ask _).guards h).trail hP).bind fun h₁ now hpre₁ _ => ?_
  refine (((tame_ask _).guards h₁).trail hP).bind fun h₂ recordId hpre₂ _ => ?_
  have htx : Prog.Trail (I := memoryInterface F) P
      (fun h' reply => ∀ id, reply.2.2 = some id → ∃ a ∈ h', Tells a id) (fun _ _ => True)
      (catalog (.ingest request (Host.localEmbed cfg.dimensions request.content).1 cfg.modelId
        (authorityStatus cfg actor request) now recordId) :
        Method F (Row F × Bool × Option String)) h₂ := by
    refine ⟨hingest h₂ now recordId (hpre₁.trans hpre₂), fun x => ?_⟩
    refine (Prog.trail_ofExcept (x : Except Exc (Row F × Bool × Option String)) _).2
      ⟨fun reply hreply id hid => ?_, fun _ _ => trivial⟩
    rw [show x = .ok reply from hreply]
    exact ⟨_, List.mem_append_right _ (List.mem_singleton.2 rfl), hid⟩
  refine htx.bind fun h₃ reply _ htold => ?_
  obtain ⟨record, duplicate, supersededId⟩ := reply
  refine Guards.trail ?_ hP
  simp only
  split_ifs
  · exact Tame.guards ((tame_ask _).bind fun _ => Prog.asks_pure _) h₃
  · refine (indexRecord_guards htold).bind fun h₄ indexed _ _ => ?_
    split
    · exact Tame.guards ((tame_ask _).bind fun _ => Prog.asks_pure _) h₄
    · refine ((tame_markQdrant record.id _ (Or.inr rfl)).guards h₄).bind fun h₅ _ _ _ => ?_
      split_ifs
      · exact Tame.guards ((tame_ask _).bind fun _ => Prog.asks_pure _) h₅
      · exact Tame.guards ((tame_ask _).bind fun _ => Prog.asks_fail _) h₅

theorem ingest_obeys (cfg : Config F) (request : IngestRequest F) (uid : ℕ)
    (h : List (Said F)) : Obeys (ingest cfg request uid) (fun _ _ => True) h := by
  unfold ingest
  refine ((tame_authorize _ _ _ _).obeys h).bind fun h₁ actor _ _ => ?_
  refine (Tame.obeys (Prog.asks_ofExcept _) h₁).bind fun h₂ _ _ _ => ?_
  split_ifs
  · trivial
  · exact Tame.obeys ((tame_ask _).bind fun _ => Prog.asks_pure _) h₂
  · refine (Tame.obeys (Prog.asks_ofExcept _) h₂).bind fun h₃ _ _ _ => ?_
    have hexpiry : Tame (defaultExpiry cfg request) := by
      unfold defaultExpiry
      split_ifs
      · exact (tame_ask _).bind fun _ => Prog.asks_pure _
      · exact Prog.asks_pure _
    refine (hexpiry.obeys h₃).bind fun h₄ request _ _ => ?_
    split_ifs
    · trivial
    · have hcheck : Tame (checkSupersession actor request) := by
        unfold checkSupersession
        split
        · exact Prog.asks_pure _
        · exact (asks_op (o := .tx (.get _)) trivial).bind fun _ => Prog.asks_ofExcept _
      exact (hcheck.obeys h₄).bind fun h₅ _ _ _ =>
        store_trail (fun _ _ ho _ => ho) _ _ _ fun _ _ _ _ => trivial

theorem tame_reindexApi (cfg : Config F) (actorName : String) (uid : ℕ) (ids : List String) :
    Tame (reindexApi cfg actorName uid ids) := by
  have hall : ∀ (actor : ActorPolicy) (rs : List (Row F)), Tame (allAvailable actor rs) := by
    intro actor rs
    induction rs with
    | nil => exact Prog.asks_pure _
    | cons r rs ih =>
      refine (tame_ask _).bind fun now => ?_
      split_ifs
      · exact ih
      · exact Prog.asks_pure _
  have hvector : ∀ r : Row F, Tame (apiVector cfg actorName r) := by
    intro r
    unfold apiVector
    refine (tame_ask _).bind fun cached => ?_
    split
    · exact Prog.asks_pure _
    · refine (tame_ask _).bind fun callId => ?_
      split
      · exact Prog.asks_pure _
      · refine (tame_ask _).catchEmbedding.bind fun t => ?_
        split
        · exact (tame_ask _).bind fun _ => (tame_ask _).bind fun _ => Prog.asks_pure _
        · exact (tame_ask _).bind fun _ => Prog.asks_pure _
  have hloop : ∀ (rs : List (Row F)) (reply : ReindexReply),
      Tame (reindexLoop cfg actorName rs reply) := by
    intro rs
    induction rs with
    | nil => exact fun reply => Prog.asks_pure _
    | cons r rs ih =>
      rintro ⟨indexed, pending⟩
      refine (hvector r).bind fun vector => ?_
      split
      · exact Prog.asks_pure _
      · exact ih _
      · refine (asks_catchUnavailable (tame_upsertPoint _ _ _ _)).bind fun t => ?_
        split <;> exact ih _
  unfold reindexApi
  refine (tame_authorize _ _ _ _).bind fun actor => ?_
  by_cases hdenied : "api-escalate" ∉ actor.capabilities
  · rw [if_pos hdenied]
    exact Prog.asks_fail _
  rw [if_neg hdenied]
  by_cases hids : ids = [] ∨ 20 < ids.length ∨ ¬ ids.Nodup
  · rw [if_pos hids]
    exact Prog.asks_fail _
  rw [if_neg hids]
  refine (asks_op (o := .tx (.getMany ids)) trivial).bind fun records => ?_
  have havailable : Tame (batchAvailable actor ids records) := by
    unfold batchAvailable
    split
    · exact Prog.asks_pure _
    · exact hall actor records
  refine havailable.bind fun available => ?_
  split_ifs
  · exact Prog.asks_fail _
  · exact Prog.asks_fail _
  · refine (asks_op (o := .ensure (.api cfg.space)) trivial).bind fun _ => ?_
    exact (hloop _ _).bind fun reply => (tame_ask _).bind fun _ => Prog.asks_pure _

theorem tame_search (cfg : Config F) (request : SearchRequest) (uid : ℕ) :
    Tame (search cfg request uid) := by
  have hembed : Tame (embedQuery cfg request) := by
    unfold embedQuery
    simp only
    split
    · exact Prog.asks_pure _
    · refine (tame_ask _).bind fun any => ?_
      split
      · exact Prog.asks_pure _
      · refine (tame_ask _).bind fun callId => ?_
        split
        · exact Prog.asks_pure _
        · refine (tame_ask _).catchEmbedding.bind fun t => ?_
          split <;> exact (tame_ask _).bind fun _ => Prog.asks_pure _
  have hhits : ∀ (actor : ActorPolicy) (embedding : EmbeddingResult F),
      Tame (vectorHits cfg actor request embedding) := by
    intro actor embedding
    unfold vectorHits
    refine (tame_ask _).bind fun hits => ?_
    split
    · refine (asks_catchUnavailable (tame_ask _)).bind fun t => ?_
      split <;> exact Prog.asks_pure _
    · exact Prog.asks_pure _
  have hkeep : ∀ (actor : ActorPolicy) (cs : List (Candidate F)),
      Tame (keepCandidates actor request cs) := by
    intro actor cs
    induction cs with
    | nil => exact Prog.asks_pure _
    | cons c cs ih =>
      refine (tame_ask _).bind fun now => ih.bind fun rest => ?_
      split <;> exact Prog.asks_pure _
  have hlocal : ∀ cs : List (Candidate F), Tame (localRerank request.query cs request.topK) :=
    fun cs => (tame_ask .now).bind fun now => Prog.asks_pure _
  have hapi : ∀ cs : List (Candidate F),
      Tame (apiRerank cfg request.query cs request.topK) := by
    intro cs
    unfold apiRerank
    split_ifs
    · exact Prog.asks_fail _
    · exact Prog.asks_pure _
    · exact Prog.asks_fail _
    · refine (tame_ask _).bind fun results => ?_
      split
      · exact Prog.asks_fail _
      · split
        · exact Prog.asks_fail _
        · exact Prog.asks_pure _
  have hrerank : ∀ cs : List (Candidate F), Tame (rerank cfg request cs) := by
    intro cs
    unfold rerank
    simp only
    split
    · refine (tame_ask _).bind fun callId => ?_
      split
      · exact (hlocal cs).bind fun _ => Prog.asks_pure _
      · refine (asks_catchUnavailable (hapi cs)).bind fun t => ?_
        split
        · exact (tame_ask _).bind fun _ => (hlocal cs).bind fun _ => Prog.asks_pure _
        · exact (tame_ask _).bind fun _ => Prog.asks_pure _
    · exact (hlocal cs).bind fun _ => Prog.asks_pure _
  have hpresent : ∀ (backend : String) (embedding : EmbeddingResult F)
      (cs : List (Candidate F)), Tame (present cfg request backend embedding cs) :=
    fun backend embedding cs =>
      (hrerank _).bind fun _ => (tame_ask _).bind fun _ => Prog.asks_pure _
  unfold search
  refine (tame_authorize _ _ _ _).bind fun actor => ?_
  split
  · exact Prog.asks_fail _
  · split
    · exact Prog.asks_fail _
    · refine hembed.bind fun embedding => ?_
      have hcandidates : Tame (vectorCandidates cfg actor request embedding) :=
        (hhits _ _).bind fun hits => (asks_op (o := .tx (.getMany _)) trivial).bind
          fun records => (hkeep _ _).bind fun _ => Prog.asks_pure _
      refine (asks_catchUnavailable hcandidates).bind fun found => ?_
      split
      · exact hpresent _ _ _
      · split
        · exact (tame_ask _).bind fun _ => Prog.asks_fail _
        · have hfallback : Tame (fallbackCandidates (F := F) request actor.roles
              cfg.fallbackScanLimit) :=
            (tame_ask _).bind fun now => (asks_op (o := .tx (.fallback request _ now))
              trivial).bind fun rows => Prog.asks_pure _
          exact hfallback.bind fun cs => hpresent _ _ _

theorem invalidate_guards (cfg : Config F) (actorName : String) (uid : ℕ) (id reason : String)
    (h : List (Said F)) : Guards (invalidate cfg actorName uid id reason) (fun _ _ => True) h := by
  unfold invalidate
  refine ((tame_authorize _ _ _ _).guards h).bind fun h₁ actor _ _ => ?_
  refine (Tame.guards (asks_op (o := .tx (.get id)) trivial) h₁).bind fun h₂ record _ _ => ?_
  split
  · trivial
  · refine ((tame_ask .now).guards h₂).bind fun h₃ now _ _ => ?_
    have htx : Guards (catalog (.invalidate id reason now) : Method F (Row F))
        (fun h' _ => ∃ a ∈ h', Tells a id) h₃ := by
      refine ⟨⟨trivial, trivial⟩, fun x => ?_⟩
      refine (Prog.trail_ofExcept (x : Except Exc (Row F)) _).2
        ⟨fun reply hreply => ?_, fun _ _ => trivial⟩
      rw [show x = .ok reply from hreply]
      exact ⟨_, List.mem_append_right _ (List.mem_singleton.2 rfl), rfl⟩
    refine htx.bind fun h₄ result _ htold => ?_
    refine (drop_guards htold).bind fun h₅ r _ _ => ?_
    exact Tame.guards ((tame_ask _).bind fun _ => Prog.asks_pure _) h₅

theorem deletionLoop_guards {rows : List (Row F)} (htold : ∀ r ∈ rows, ∃ a ∈ h, Tells a r.id) :
    Guards (deletionLoop rows) (fun _ _ => True) h := by
  induction rows generalizing h with
  | nil => trivial
  | cons r rows ih =>
    have hr := htold r List.mem_cons_self
    refine (drop_guards hr).bind fun h₁ t hpre _ => ?_
    have hlater : ∀ q ∈ r :: rows, ∃ a ∈ h₁, Tells a q.id := by
      intro q hq
      obtain ⟨a, ha, htells⟩ := htold q hq
      exact ⟨a, hpre.subset ha, htells⟩
    split
    · exact ih fun q hq => hlater q (List.mem_cons_of_mem _ hq)
    · exact (markPending_guards (hlater r List.mem_cons_self)).bind fun _ _ _ _ => trivial

theorem indexingLoop_guards (cfg : Config F) (rows : List (Row F)) (n : ℕ) (h : List (Said F)) :
    Guards (indexingLoop cfg rows n) (fun _ _ => True) h := by
  induction rows generalizing n h with
  | nil => trivial
  | cons r rows ih =>
    have hindex : Tame (do
        upsertPoint .main cfg.dimensions r r.vector
        markQdrant r.id .indexed none) :=
      (tame_upsertPoint _ _ _ _).bind fun _ => tame_markQdrant _ _ (Or.inl rfl)
    refine (hindex.guards h).catchIndexing.bind fun h₁ t _ _ => ?_
    split
    · exact ih _ h₁
    · exact ((tame_markQdrant r.id _ (Or.inr rfl)).guards h₁).bind fun _ _ _ _ => trivial

theorem maintain_guards (cfg : Config F) (actorName : String) (uid : ℕ) (h : List (Said F)) :
    Guards (maintain cfg actorName uid) (fun _ _ => True) h := by
  unfold maintain
  refine ((tame_authorize _ _ _ _).guards h).bind fun h₁ _ _ _ => ?_
  refine ((tame_ask .now).guards h₁).bind fun h₂ started _ _ => ?_
  refine ((tame_ask (.sweepTimes _)).guards h₂).bind fun h₃ times _ _ => ?_
  refine (Tame.guards (asks_op (o := .tx (.consolidateLifecycle _ _)) trivial) h₃).bind
    fun h₄ counts _ _ => ?_
  have hreconcile : Guards (reconcileIndex cfg) (fun _ _ => True) h₄ := by
    unfold reconcileIndex
    refine (Tame.guards (asks_catchUnavailable (asks_op (o := .ensure .main) trivial)) h₄).bind
      fun h₅ ready _ _ => ?_
    split
    · trivial
    · have htx : Guards (catalog (.pendingDeletions 500) : Method F (List (Row F)))
          (fun h' (rows : List (Row F)) => ∀ r ∈ rows, ∃ a ∈ h', Tells a r.id) h₅ := by
        refine ⟨⟨trivial, trivial⟩, fun x => ?_⟩
        refine (Prog.trail_ofExcept (x : Except Exc (List (Row F))) _).2
          ⟨fun rows hrows r hr => ?_, fun _ _ => trivial⟩
        rw [show x = .ok rows from hrows]
        exact ⟨_, List.mem_append_right _ (List.mem_singleton.2 rfl), List.mem_map_of_mem hr⟩
      refine htx.bind fun h₆ rows _ htold => ?_
      refine (deletionLoop_guards htold).bind fun h₇ failures _ _ => ?_
      refine (Tame.guards (asks_op (o := .tx (.pendingForReindex 500)) trivial) h₇).bind
        fun h₈ records _ _ => ?_
      exact (indexingLoop_guards cfg records 0 h₈).bind fun _ _ _ _ => trivial
  refine hreconcile.bind fun h₅ result _ _ => ?_
  exact Tame.guards ((tame_ask _).bind fun runId => (tame_ask _).bind fun _ => Prog.asks_pure _) h₅

theorem serve_obeys (r : Request F) : Obeys (serve r) (fun _ _ => True) [] := by
  unfold serve
  split
  · exact (ingest_obeys _ _ _ _).bind fun _ _ _ _ => trivial
  · exact ((tame_reindexApi _ _ _ _).obeys _).bind fun _ _ _ _ => trivial
  · exact ((tame_search _ _ _).obeys _).bind fun _ _ _ _ => trivial
  · exact (invalidate_guards _ _ _ _ _ _).obeys.bind fun _ _ _ _ => trivial
  · exact (maintain_guards _ _ _ _).obeys.bind fun _ _ _ _ => trivial

end trails

/-! ## Runs -/

theorem consistent_empty : Consistent (emptyStore : Store F) where
  nodup := List.nodup_nil
  retired r hr := by cases hr
  ending r hr := by cases hr
  deleted r hr := by cases hr

/-- In a run in which records are indexed in time, a retired record is to be deleted or
deleted, and the last write of a deleted one was its deletion. -/
theorem retired_unindexed {ms : List (Moment (memorySystem F))} {s : State (memorySystem F)}
    (hr : Run (idle emptyStore) ms s) (htimely : Run.Under (S := memorySystem F) Timely ms) :
    ∀ r ∈ s.store.rows, r.retired = true →
      (r.qdrantState = .deletePending ∨ r.qdrantState = .deleted) ∧
      (r.qdrantState = .deleted → lastReceived s.store.writes r.id = some .delete ∧
        ¬ Holds s.store .main r.id) := by
  have hconsistent := (hr.soundUnder (K := Consistent) (T := Told) rfl consistent_empty
    serve_obeys (fun r h o x st hst hsaid hcareful htimely =>
      ⟨hst.perform hsaid hcareful htimely, told_perform hst hsaid hcareful,
        fun a ha => ha.keep htimely⟩) htimely).1
  exact fun r hrow hretired =>
    ⟨hconsistent.retired r hrow hretired, hconsistent.deleted r hrow⟩

/-! ## A slow process -/

namespace Sample

def returned (c : Call (memorySystem ℤ)) : Bool :=
  match c.prog with
  | some (.ret _) => true
  | _ => false

/-- The next move indexes in time. -/
def timely (s : State (memorySystem ℤ)) : Move (memorySystem ℤ) → Bool
  | .act i _ => (s.next i).all fun o => Timely o s.store
  | _ => true

/-- The calls have returned, and the records of the catalogue are retired and have the state. -/
def settled (state : IndexState) (s : State (memorySystem ℤ)) : Bool :=
  s.calls.all returned && s.store.rows.any fun r => r.retired && decide (r.qdrantState = state)

/-- A process stores a memory, and before it indexes it, another invalidates it. -/
def overtaken : List (Move (memorySystem ℤ)) :=
  ask (.ingest note) :: List.replicate 5 (.act 0 calm) ++
    ask (.invalidate "operator" "one" "wrong") :: List.replicate 8 (.act 1 calm) ++
    List.replicate 4 (.act 0 calm)

/-- A process stores and indexes a memory, and then another invalidates it. -/
def inTurn : List (Move (memorySystem ℤ)) :=
  ask (.ingest note) :: List.replicate 9 (.act 0 calm) ++
    ask (.invalidate "operator" "one" "wrong") :: List.replicate 8 (.act 1 calm)

/-- The slow process overwrites the state, and the point of the invalidated memory stays. -/
theorem indexed_after_invalidation : ∃ (ms : List (Moment (memorySystem ℤ)))
    (s : State (memorySystem ℤ)), Run (idle emptyStore) ms s ∧
    (∀ c ∈ s.calls, returned c = true) ∧
    ∃ r ∈ s.store.rows, r.retired = true ∧ r.qdrantState = .indexed := by
  have hexec : ∃ s ∈ (idle emptyStore).exec overtaken, settled .indexed s = true := by
    decide
  obtain ⟨s, hs, hsettled⟩ := hexec
  obtain ⟨ms, hr, -⟩ := Run.of_exec hs
  obtain ⟨hcalls, hrow⟩ := Bool.and_eq_true_iff.1 hsettled
  obtain ⟨r, hmem, hr'⟩ := List.any_eq_true.1 hrow
  obtain ⟨hretired, hstate⟩ := Bool.and_eq_true_iff.1 hr'
  exact ⟨ms, s, hr, List.all_eq_true.1 hcalls, r, hmem, hretired, of_decide_eq_true hstate⟩

theorem retired_unindexed_sample : ∃ (ms : List (Moment (memorySystem ℤ)))
    (s : State (memorySystem ℤ)), Run (idle emptyStore) ms s ∧
    ∃ r ∈ s.store.rows, r.retired = true ∧ r.qdrantState = .deleted ∧
      lastReceived s.store.writes r.id = some .delete := by
  have hexec : ∃ s ∈ (idle emptyStore).execWhile timely inTurn, settled .deleted s = true := by
    decide
  obtain ⟨s, hs, hsettled⟩ := hexec
  obtain ⟨ms, hr, htest⟩ := Run.of_execWhile hs
  obtain ⟨-, hrow⟩ := Bool.and_eq_true_iff.1 hsettled
  obtain ⟨r, hmem, hr'⟩ := List.any_eq_true.1 hrow
  obtain ⟨hretired, hstate⟩ := Bool.and_eq_true_iff.1 hr'
  have htimely : Run.Under (S := memorySystem ℤ) Timely ms := by
    intro m hm i x o hmove hnext
    have hpass := htest m hm
    rw [hmove, timely, hnext] at hpass
    exact of_decide_eq_true hpass
  have hunindexed := retired_unindexed hr htimely r hmem hretired
  exact ⟨ms, s, hr, r, hmem, hretired, of_decide_eq_true hstate,
    (hunindexed.2 (of_decide_eq_true hstate)).1⟩

end Sample

end OpsMemory
