import OpsControlPlane.Safety.IndexStates

/-!
# Forgetting

`forgotten_iff` says what a maintenance that runs alone and reports no failure leaves of a
record that has ended, after any history: no point of it remains if and only if none was ever
written to the collection of an embedding API, and its point is not in the collection of the
service or its row is among the first five hundred that are to be deleted.
-/

namespace OpsMemory

set_option linter.unusedSectionVars false

open Transaction Calls

variable {F : Type} [Host F]

/-! ## What every history keeps -/

/-- The rows have distinct identifiers, and nothing is deleted from the collections of the
embedding APIs. -/
structure Recorded (st : Store F) : Prop where
  nodup : (st.rows.map fun r => r.id).Nodup
  upserts : ∀ w ∈ st.writes, w.collection ≠ .main → w.write = .upsert

variable {rows rows' : Table F}

theorem nodup_updateRow {f : Row F → Row F} (hid : ∀ r, (f r).id = r.id) (p : Row F → Bool)
    (h : (rows.map fun r => r.id).Nodup) : ((update p f rows).map fun r => r.id).Nodup := by
  rw [map_update hid]
  exact h

theorem nodup_insertRow {r : Row F} (h : insertRow r rows = .ok rows')
    (hn : (rows.map fun r => r.id).Nodup) : (rows'.map fun r => r.id).Nodup := by
  obtain ⟨-, rfl, hnew⟩ := rewrites_insert h
  exact nodup_insert hn (row_eq_none.2 hnew)

/-- Every transaction keeps the identifiers distinct. -/
theorem nodup_run {t : CatalogTx F} {reply : t.Reply} (h : t.run rows = .ok (reply, rows'))
    (hn : (rows.map fun r => r.id).Nodup) : (rows'.map fun r => r.id).Nodup := by
  cases t with
  | ingest request vector model authority now id =>
    rcases ingestTx_cases h with ⟨rfl, -⟩ | ⟨hins, -⟩ | ⟨old, inserted, hins, -, -, rfl⟩
    · exact hn
    · exact nodup_insertRow hins hn
    · exact nodup_updateRow (Row.supersede_id id now) _ (nodup_insertRow hins hn)
  | invalidate id reason now =>
    rcases invalidateTx_cases h with ⟨r, -, -, rfl⟩ | ⟨-, rfl⟩
    · exact hn
    · exact nodup_updateRow (Row.invalidate_id now reason) _ hn
  | consolidateLifecycle now staleBefore =>
    obtain ⟨-, rfl⟩ := Prod.mk.inj (Except.ok.inj h)
    exact nodup_updateRow (Row.age_id now) _ (nodup_updateRow (Row.invalidate_id now _) _ hn)
  | markQdrant id state error now =>
    obtain ⟨-, rfl⟩ := Prod.mk.inj (Except.ok.inj h)
    exact nodup_updateRow (Row.mark_id state error now) _ hn
  | get id =>
    change getTx id rows = _ at h
    unfold getTx at h
    split at h
    · obtain ⟨-, rfl⟩ := Prod.mk.inj (Except.ok.inj h)
      exact hn
    · cases h
  | getMany ids =>
    obtain ⟨-, rfl⟩ := Prod.mk.inj (Except.ok.inj h)
    exact hn
  | fallback request n now =>
    obtain ⟨-, rfl⟩ := Prod.mk.inj (Except.ok.inj h)
    exact hn
  | pendingForReindex n =>
    obtain ⟨-, rfl⟩ := Prod.mk.inj (Except.ok.inj h)
    exact hn
  | pendingDeletions n =>
    obtain ⟨-, rfl⟩ := Prod.mk.inj (Except.ok.inj h)
    exact hn

theorem Recorded.perform {st : Store F} {o : MemoryOp F} {x : MemoryChoice F}
    {said : List (Said F)} (h : Recorded st) (hcareful : Careful said o) :
    Recorded (performMemory o x st).2 := by
  have hwrite : ∀ w : VectorCall, (w.collection ≠ .main → w.write = .upsert) →
      Recorded { st with writes := st.writes ++ [w] } := by
    intro w hw
    refine ⟨h.nodup, fun v hv hc => ?_⟩
    rcases List.mem_append.1 hv with hv | hv
    · exact h.upserts v hv hc
    · obtain rfl := List.mem_singleton.1 hv
      exact hw hc
  cases o with
  | tx t =>
    rcases performMemory_tx t x st with ⟨e, he⟩ |
      ⟨reply, rows', hrun, heq⟩
    · rw [he]
      exact h
    · rw [heq]
      exact ⟨nodup_run hrun h.nodup, h.upserts⟩
  | ensure c => exact h
  | upsert c record vector => exact hwrite ⟨.upsert, c, record.id, x.takes⟩ fun _ => rfl
  | delete c id => exact hwrite ⟨.delete, c, id, x.takes⟩ fun hc => absurd hcareful.1 hc
  | env o => exact h

theorem recorded_of_run {ms : List (Moment (memorySystem F))} {s : State (memorySystem F)}
    (hr : Run (idle emptyStore) ms s) : Recorded s.store :=
  (hr.sound (K := Recorded) (T := fun _ _ => True) rfl
    ⟨List.nodup_nil, fun w hw => by cases hw⟩ serve_obeys
    fun _ _ _ _ _ hst _ hcareful => ⟨hst.perform hcareful, trivial, fun _ _ => trivial⟩).1

/-! ## One maintenance -/

section alone

variable {α β : Type} {h : List (Said F)} {st st' : Store F}

/-- Run alone, the program leads to what `Q` says, or to what `E` says if it fails. -/
abbrev Leads (p : Method F α) (Q : List (Said F) → Store F → α → Prop) (h : List (Said F))
    (st : Store F) : Prop :=
  Prog.Alone performMemory Q (fun _ _ _ => True) p h st

variable {p : Method F α}

theorem Leads.bind {f : α → Method F β} {R : List (Said F) → Store F → α → Prop}
    {Q : List (Said F) → Store F → β → Prop} (hp : Leads p R h st)
    (hf : ∀ h' st' a, h <+: h' → R h' st' a → Leads (f a) Q h' st') : Leads (p >>= f) Q h st :=
  (Prog.alone_bind p f h st).2
    (hp.extends.mono (fun h' st' a ha => hf h' st' a ha.1 ha.2) fun _ _ _ h => h)

variable {o : MemoryOp F}

theorem leads_perform {Q : List (Said F) → Store F → o.Reply → Prop}
    (hok : ∀ x r, (performMemory o x st).1 = .ok r →
      Q (h ++ [⟨o, .ok r⟩]) (performMemory o x st).2 r) : Leads (perform o) Q h st := by
  refine (Prog.alone_bind _ _ h st).2 fun x => ?_
  refine (Prog.alone_ofExcept _ _ _).2 ⟨fun r hr => ?_, fun _ _ => trivial⟩
  have hq := hok x r hr
  rwa [← hr] at hq

theorem leads_ask (o : EnvOp F) (h : List (Said F)) (st : Store F) :
    Leads (ask o) (fun h' st' r => st' = st ∧ (⟨.env o, .ok r⟩ : Said F) ∈ h') h st :=
  leads_perform (o := .env o) fun _ _ _ =>
    ⟨rfl, List.mem_append_right _ (List.mem_singleton.2 rfl)⟩

/-- A transaction that returns has done what its statement does. -/
theorem leads_catalog (t : CatalogTx F) (h : List (Said F)) (st : Store F) :
    Leads (catalog t) (fun _ st' r => ∃ rows', t.run st.rows = .ok (r, rows') ∧
      st' = { st with rows := rows' }) h st := by
  refine leads_perform (o := .tx t) fun x r hr => ?_
  rcases performMemory_tx t x st with ⟨e, he⟩ | ⟨reply, rows', hrun, heq⟩
  · rw [he] at hr
    cases hr
  · rw [heq] at hr ⊢
    obtain rfl := Except.ok.inj hr
    exact ⟨rows', hrun, rfl⟩

theorem Leads.catchUnavailable {Q : List (Said F) → Store F → α → Prop} (hp : Leads p Q h st) :
    Leads (catchUnavailable p)
      (fun h' st' r => ∀ a, r = .ok a → Q h' st' a) h st := by
  have hattempt : Leads p.attempt (fun h' st' r => ∀ a, r = .ok a → Q h' st' a) h st := by
    refine (Prog.alone_attempt p h st).2 (hp.mono (fun h' st' a ha b hb => ?_)
      fun _ _ e _ b hb => ?_)
    · obtain rfl := Except.ok.inj hb
      exact ha
    · cases hb
  refine hattempt.bind fun h' st' r _ hr => ?_
  split
  · next a =>
    intro b hb
    obtain rfl := Except.ok.inj hb
    exact hr a rfl
  · intro b hb
    cases hb
  · trivial

theorem leads_any (p : Method F α) (h : List (Said F)) (st : Store F) :
    Leads p (fun _ _ _ => True) h st := by
  induction p generalizing h st with
  | ret a => trivial
  | fail e => trivial
  | ask o k ih => exact fun x => ih _ _ _

/-! ### Deletions -/

structure Drops (ids : List String) (st st' : Store F) : Prop where
  rewrites : Rewrites st.rows st'.rows
  writes : ∀ c id, lastWrite st'.writes c id =
    if c = .main ∧ id ∈ ids then some .delete else lastWrite st.writes c id

theorem leads_drop (id : String) (h : List (Said F)) (st : Store F) :
    Leads (catchUnavailable do
      deletePoint .main id
      markQdrant id .deleted none : Method F (Except String Unit))
      (fun _ st' r => ∀ a, r = .ok a → Drops [id] st st') h st := by
  have hdelete : Leads (deletePoint .main id) (fun _ st' _ => Drops [id] st st') h st := by
    refine leads_perform (o := .delete .main id) fun x r hr => ?_
    have hreply : x.reply = .ok r := hr
    refine ⟨.refl _, fun c i => ?_⟩
    show lastWrite (st.writes ++ [⟨.delete, .main, id, x.takes⟩]) c i = _
    rw [lastWrite_append]
    simp [MemoryChoice.takes, hreply, Except.toBool, eq_comm]
  refine Leads.catchUnavailable (Q := fun _ st' _ => Drops [id] st st') ?_
  refine hdelete.bind fun h₁ st₁ _ _ hr₁ => ?_
  refine (leads_ask .now h₁ st₁).bind fun h₂ st₂ now _ hr₂ => ?_
  obtain ⟨rfl, -⟩ := hr₂
  refine (leads_catalog (.markQdrant id .deleted none now) h₂ st₂).mono
    (fun h₃ st₃ _ hr₃ => ?_) fun _ _ _ h => h
  obtain ⟨rows', hrun, rfl⟩ := hr₃
  exact ⟨hr₁.rewrites.trans (rewrites_run hrun), hr₁.writes⟩

/-- A loop without failures deletes all that it is given. -/
theorem leads_deletionLoop (rows : List (Row F)) (h : List (Said F)) (st : Store F) :
    Leads (deletionLoop rows) (fun _ st' n =>
      n = 0 → Drops (rows.map fun r => r.id) st st') h st := by
  induction rows generalizing h st with
  | nil => exact fun _ => ⟨.refl _, fun c id => by simp⟩
  | cons r rows ih =>
    refine (leads_drop r.id h st).bind fun h₁ st₁ t _ ht => ?_
    split
    · next u =>
      have hfirst := ht u rfl
      refine (ih h₁ st₁).mono (fun h₂ st₂ n hn hzero => ?_) fun _ _ _ h => h
      have hrest := hn hzero
      refine ⟨hfirst.rewrites.trans hrest.rewrites, fun c id => ?_⟩
      rw [hrest.writes, hfirst.writes]
      by_cases hc : c = .main
      · by_cases hid : id = r.id <;> by_cases hrows : id ∈ rows.map fun r => r.id <;>
          simp [hc, hid, hrows]
      · simp [hc]
    · exact (leads_any _ h₁ st₁).bind fun _ _ _ _ _ hn => absurd hn one_ne_zero

/-! ### Indexing -/

/-- Only points of the memories in the collection of the service are written. -/
structure Touches (ids : List String) (st st' : Store F) : Prop where
  rewrites : Rewrites st.rows st'.rows
  writes : ∀ c id, (c = .main → id ∉ ids) → lastWrite st'.writes c id = lastWrite st.writes c id

def Touching (ids : List String) : MemoryOp F → Prop
  | .upsert c record _ => c = .main ∧ record.id ∈ ids
  | .delete _ _ => False
  | _ => True

variable {ids : List String}

theorem Touches.perform {x : MemoryChoice F} (h : Touches ids st st') (ho : Touching ids o) :
    Touches ids st (performMemory o x st').2 := by
  cases o with
  | tx t =>
    rcases performMemory_tx t x st' with ⟨e, he⟩ |
      ⟨reply, rows', hrun, heq⟩
    · rw [he]
      exact h
    · rw [heq]
      exact ⟨h.rewrites.trans (rewrites_run hrun), h.writes⟩
  | ensure c => exact h
  | upsert c record vector =>
    refine ⟨h.rewrites, fun c' id hid => ?_⟩
    obtain ⟨rfl, hmem⟩ := ho
    show lastWrite (st'.writes ++ [⟨.upsert, .main, record.id, x.takes⟩]) c' id = _
    rw [lastWrite_append, if_neg]
    · exact h.writes c' id hid
    · rintro ⟨hc, hsame, -⟩
      exact hid hc.symm (hsame ▸ hmem)
  | delete c id => exact ho.elim
  | env o => exact h

theorem leads_touching (hp : Prog.Asks (I := memoryInterface F) (Touching ids) p)
    (h : List (Said F)) (st : Store F) : Leads p (fun _ st' _ => Touches ids st st') h st := by
  have htouches : Touches ids st st := ⟨.refl _, fun _ _ _ => rfl⟩
  exact (hp.alone (J := Touches ids st)
    (fun o x st' ho hst => hst.perform ho) h htouches).mono (fun _ _ _ h => h)
      fun _ _ _ _ => trivial

/-- The loop over the records to index writes only their points. -/
theorem asks_indexingLoop (cfg : Config F) (ids : List String) {rows : List (Row F)}
    (hids : ∀ r ∈ rows, r.id ∈ ids) (n : ℕ) :
    Prog.Asks (I := memoryInterface F) (Touching ids) (indexingLoop cfg rows n) := by
  have hmark : ∀ (id : String) (state : IndexState) (error : Option String),
      Prog.Asks (I := memoryInterface F) (Touching ids) (markQdrant id state error) :=
    fun id state error => (asks_op (o := .env .now) trivial).bind fun now =>
      asks_op (o := .tx (.markQdrant id state error now)) trivial
  induction rows generalizing n with
  | nil => exact Prog.asks_pure _
  | cons r rows ih =>
    have hupsert : Prog.Asks (I := memoryInterface F) (Touching ids)
        (upsertPoint .main cfg.dimensions r r.vector) := by
      unfold upsertPoint
      split
      · exact Prog.asks_fail _
      · exact asks_op (o := .upsert .main r r.vector) ⟨rfl, hids r List.mem_cons_self⟩
    have hindex : Prog.Asks (I := memoryInterface F) (Touching ids) (catchIndexing do
        upsertPoint .main cfg.dimensions r r.vector
        markQdrant r.id .indexed none) := by
      refine (hupsert.bind fun _ => hmark _ _ _).attempt.bind fun t => ?_
      split
      · exact Prog.asks_pure _
      · exact Prog.asks_pure _
      · exact Prog.asks_pure _
      · exact Prog.asks_fail _
    refine hindex.bind fun t => ?_
    split
    · exact ih (fun q hq => hids q (List.mem_cons_of_mem _ hq)) _
    · exact (hmark _ _ _).bind fun _ => Prog.asks_pure _

/-! ### The maintenance -/

def swept (now staleBefore : String) (rows : Table F) : List String :=
  (pendingDeletions 500 (consolidateTx now staleBefore rows).2).map fun r => r.id

def Row.ended (now : String) (r : Row F) : Prop :=
  r.retired = true ∨ ∃ x ∈ r.validUntil, x ≤ now

theorem gone_consolidate {rows : Table F} (hn : (rows.map fun r => r.id).Nodup) {r : Row F}
    (hr : r ∈ rows) {now : String} (hended : r.ended now) (staleBefore : String) :
    Gone (consolidateTx now staleBefore rows).2 r.id := by
  by_cases hretired : r.retired = true
  · exact (gone_of_row hn hr hretired).keep (rewrites_consolidate now staleBefore rows)
  -- the row expires, and what expires is retired
  have hexpired : Row.expired now r = true := by
    have hvalid : r.invalidatedAt = none := by
      by_contra hinv
      exact hretired (decide_eq_true (Or.inl hinv))
    exact decide_eq_true ⟨hvalid, hended.resolve_left hretired⟩
  have hmem : r.invalidate now "validity_expired" ∈ expire now rows :=
    mem_update.2 ⟨r, hr, by rw [if_pos hexpired]⟩
  have hnodup : ((expire now rows).map fun r => r.id).Nodup :=
    nodup_updateRow (Row.invalidate_id now _) _ hn
  have hgone := gone_of_row hnodup hmem (Row.invalidate_retired now _ r)
  rw [Row.invalidate_id] at hgone
  exact hgone.keep
    (rewrites_update (Row.age_id now) (fun q hq => by simpa using hq) (expire now rows))

/-- Memories that are gone keep their points, but for those that are deleted. -/
def Sweeps (ids : List String) (st st' : Store F) : Prop :=
  ∀ id, Gone st.rows id → ∀ c, lastWrite st'.writes c id =
    if c = .main ∧ id ∈ ids then some .delete else lastWrite st.writes c id

theorem leads_reconcileIndex (cfg : Config F) (h : List (Said F)) (st : Store F) :
    Leads (reconcileIndex cfg) (fun _ st' n => n.2 = 0 →
      Sweeps ((pendingDeletions 500 st.rows).map fun r => r.id) st st') h st := by
  have hensure : Leads (perform (.ensure .main)) (fun _ st' _ => st' = st) h st :=
    leads_perform fun _ _ _ => rfl
  unfold reconcileIndex
  refine hensure.catchUnavailable.bind fun h₁ st₁ ready _ hready => ?_
  split
  · exact fun hzero => absurd hzero one_ne_zero
  · next u =>
    obtain rfl : st₁ = st := hready u rfl
    refine (leads_catalog (.pendingDeletions 500) h₁ st₁).bind
      fun h₂ st₂ (deletions : List (Row F)) _ hdeletions => ?_
    obtain ⟨rows', hrun, rfl⟩ := hdeletions
    obtain ⟨rfl, rfl⟩ := Prod.mk.inj (Except.ok.inj hrun)
    refine (leads_deletionLoop (pendingDeletions 500 st₁.rows) h₂ st₁).bind
      fun h₃ st₃ failures _ hdrops => ?_
    refine (leads_catalog (.pendingForReindex 500) h₃ st₃).bind
      fun h₄ st₄ (records : List (Row F)) _ hrecords => ?_
    obtain ⟨rows', hrun, rfl⟩ := hrecords
    obtain ⟨rfl, rfl⟩ := Prod.mk.inj (Except.ok.inj hrun)
    refine (leads_touching (asks_indexingLoop cfg
      ((pendingForReindex 500 st₃.rows).map fun r => r.id)
      (fun r hr => List.mem_map.2 ⟨r, hr, rfl⟩) 0) h₄ st₃).bind
      fun h₅ st₅ counts _ htouches hzero => ?_
    have hdrops := hdrops (Nat.eq_zero_of_add_eq_zero_right hzero)
    intro id hgone c
    rw [htouches.writes c id, hdrops.writes]
    -- what is indexed is not retired, so it is not gone
    intro _ hmem
    obtain ⟨r, hr, rfl⟩ := List.mem_map.1 hmem
    have hr := (List.mem_insertionSort _).1 (List.mem_of_mem_take hr)
    obtain ⟨hrow, hpending⟩ := List.mem_filter.1 hr
    have hretired := (hgone.keep hdrops.rewrites).2 r hrow rfl
    exact absurd hretired (by simp [(of_decide_eq_true hpending).2])

/-- A maintenance asks for the time, and sweeps. -/
theorem leads_maintain (cfg : Config F) (actorName : String) (uid : ℕ) (h : List (Said F))
    {st : Store F} (hn : (st.rows.map fun r => r.id).Nodup) :
    Leads (maintain cfg actorName uid) (fun h' st' reply => reply.failures = 0 →
      ∃ now staleBefore,
        (⟨.env (.sweepTimes cfg.staleAfterDays), .ok (now, staleBefore)⟩ : Said F) ∈ h' ∧
        ∀ r ∈ st.rows, r.ended now → ∀ c, lastWrite st'.writes c r.id =
          if c = .main ∧ r.id ∈ swept now staleBefore st.rows then some .delete
          else lastWrite st.writes c r.id) h st := by
  have hauthorize : Leads (authorize cfg actorName uid "maintenance")
      (fun _ st' _ => st' = st) h st := by
    unfold authorize
    split
    · trivial
    · next actor _ =>
      refine (leads_ask (.resolvedUids actor) h st).bind fun h₁ st₁ uids _ hst₁ => ?_
      split_ifs
      · exact hst₁.1
      · trivial
      · trivial
  unfold maintain
  refine hauthorize.bind fun h₁ st₁ _ _ hst₁ => ?_
  obtain rfl := hst₁
  refine (leads_ask .now h₁ st₁).bind fun h₂ st₂ started _ hst₂ => ?_
  obtain rfl := hst₂.1
  refine (leads_ask (.sweepTimes cfg.staleAfterDays) h₂ st₂).bind
    fun h₃ st₃ (times : String × String) _ htimes => ?_
  obtain ⟨rfl, hsaid⟩ := htimes
  refine (leads_catalog (.consolidateLifecycle times.1 times.2) h₃ st₃).bind
    fun h₄ st₄ (counts : ℕ × ℕ) hpre₄ hcounts => ?_
  obtain ⟨rows', hrun, rfl⟩ := hcounts
  obtain ⟨rfl, rfl⟩ := Prod.mk.inj (Except.ok.inj hrun)
  refine (leads_reconcileIndex cfg h₄ _).bind fun h₅ st₅ result hpre₅ hsweeps => ?_
  refine (leads_ask (.recordMaintenance _ _ _ _ _) h₅ st₅).bind fun h₆ st₆ runId hpre₆ hst₆ => ?_
  obtain rfl := hst₆.1
  refine (leads_ask (.audit _) h₆ st₆).bind fun h₇ st₇ _ hpre₇ hst₇ hzero => ?_
  obtain rfl := hst₇.1
  refine ⟨times.1, times.2, ?_, fun r hr hended c => ?_⟩
  · exact (((hpre₄.trans hpre₅).trans hpre₆).trans hpre₇).subset hsaid
  · exact hsweeps hzero r.id (gone_consolidate hn hr hended times.2) c

end alone

/-! ## Runs -/

/-- The memory has a point in no collection of an API if and only if none was written to one. -/
theorem Recorded.not_holds_api {st : Store F} (h : Recorded st) (id : String) :
    (∀ space, ¬ Holds st (.api space) id) ↔
      ∀ w ∈ st.writes, w.id = id → w.applied = true → w.collection = .main := by
  constructor
  · intro hnone w hw hid happlied
    by_contra hmain
    obtain ⟨space, hspace⟩ : ∃ space, w.collection = .api space := by
      cases hc : w.collection with
      | main => exact absurd hc hmain
      | api space => exact ⟨space, rfl⟩
    refine hnone space ?_
    -- the last write of the point that took effect is an upsert
    have hmem : w ∈ st.writes.filter fun w =>
        w.collection = .api space ∧ w.id = id ∧ w.applied = true :=
      List.mem_filter.2 ⟨hw, decide_eq_true ⟨hspace, hid, happlied⟩⟩
    obtain ⟨v, hv⟩ := Option.ne_none_iff_exists'.1
      (mt List.getLast?_eq_none_iff.1 (List.ne_nil_of_mem hmem))
    obtain ⟨hvw, hvp⟩ := List.mem_filter.1 (List.mem_of_getLast? hv)
    obtain ⟨hvc, -, -⟩ := of_decide_eq_true hvp
    unfold Holds lastWrite
    rw [hv, Option.map_some, h.upserts v hvw (by rw [hvc]; simp)]
  · intro hall space hholds
    unfold Holds lastWrite at hholds
    obtain ⟨w, hlast, -⟩ := Option.map_eq_some_iff.1 hholds
    obtain ⟨hw, hp⟩ := List.mem_filter.1 (List.mem_of_getLast? hlast)
    obtain ⟨hc, hid, happlied⟩ := of_decide_eq_true hp
    exact absurd ((hall w hw hid happlied).symm.trans hc) (by simp)

/-- After any history, a maintenance that runs alone and reports no failure leaves no point of
a record that has ended if and only if none was written to the collection of an API before, and
its point in the collection of the service, if there is one, is among those that it deletes. -/
theorem forgotten_iff {ms ms' : List (Moment (memorySystem F))} {s s' : State (memorySystem F)}
    (hhistory : Run (idle emptyStore) ms s) {cfg : Config F} {uid : ℕ} {actor : String}
    (hr : Run s ms' s') (hsolo : Run.Solo (S := memorySystem F) ⟨cfg, uid, .maintain actor⟩ s ms')
    {c : Call (memorySystem F)} (hc : s'.calls[s.calls.length]? = some c) {reply : MaintainReply}
    (hreply : c.prog = some (.ret (.maintained reply))) (hfailures : reply.failures = 0) :
    ∃ now staleBefore,
      (⟨.env (.sweepTimes cfg.staleAfterDays), .ok (now, staleBefore)⟩ : Said F) ∈ c.said ∧
      ∀ r ∈ s.store.rows, r.ended now → ((∀ col, ¬ Holds s'.store col r.id) ↔
        (∀ w ∈ s.store.writes, w.id = r.id → w.applied = true → w.collection = .main) ∧
        (Holds s.store .main r.id → r.id ∈ swept now staleBefore s.store.rows)) := by
  have hrecorded := recorded_of_run hhistory
  have hleads : (serve ⟨cfg, uid, .maintain actor⟩).Alone (performMemory (F := F))
      (fun h st' (a : Reply F) => ∀ reply, a = .maintained reply → reply.failures = 0 →
        ∃ now staleBefore,
          (⟨.env (.sweepTimes cfg.staleAfterDays), .ok (now, staleBefore)⟩ : Said F) ∈ h ∧
          ∀ r ∈ s.store.rows, r.ended now → ∀ c, lastWrite st'.writes c r.id =
            if c = .main ∧ r.id ∈ swept now staleBefore s.store.rows then some .delete
            else lastWrite s.store.writes c r.id) (fun _ _ _ => True) [] s.store := by
    refine (leads_maintain cfg actor uid [] hrecorded.nodup).bind
      fun h st' reply _ hsweeps reply' heq => ?_
    obtain rfl := Reply.maintained.inj heq
    exact hsweeps
  obtain ⟨d, hd, hreturns⟩ := hr.alone hleads hsolo
  obtain rfl := Option.some.inj (hd.symm.trans hc)
  obtain ⟨now, staleBefore, hsaid, hwrites⟩ := hreturns _ hreply reply rfl hfailures
  refine ⟨now, staleBefore, hsaid, fun r hrow hended => ?_⟩
  have hlast := hwrites r hrow hended
  have hapi : ∀ space, Holds s'.store (.api space) r.id ↔ Holds s.store (.api space) r.id := by
    intro space
    unfold Holds
    rw [hlast, if_neg (by simp)]
  have hmain : Holds s'.store .main r.id ↔
      Holds s.store .main r.id ∧ r.id ∉ swept now staleBefore s.store.rows := by
    unfold Holds
    rw [hlast]
    by_cases hmem : r.id ∈ swept now staleBefore s.store.rows
    · simp [hmem]
    · simp [hmem]
  rw [← hrecorded.not_holds_api r.id]
  constructor
  · intro hnone
    refine ⟨fun space hholds => hnone _ ((hapi space).2 hholds), fun hholds => ?_⟩
    by_contra hmem
    exact hnone .main (hmain.2 ⟨hholds, hmem⟩)
  · rintro ⟨hnone, hmem⟩ col hholds
    cases col with
    | main => exact (hmain.1 hholds).2 (hmem (hmain.1 hholds).1)
    | api space => exact hnone space ((hapi space).1 hholds)

/-! ## An embedding that stays -/

namespace Sample

/-- A process stores a memory, another writes it to the collection of an API, and a third
invalidates it. -/
def published : List (Move (memorySystem ℤ)) :=
  ask (.ingest note) :: List.replicate 9 (.act 0 calm) ++
    ask (.reindexApi "operator" ["one"]) :: List.replicate 11 (.act 1 calm) ++
    ask (.invalidate "operator" "one" "wrong") :: List.replicate 8 (.act 2 calm)

/-- What a maintenance does alone after that. -/
def upkeep : List (Move (memorySystem ℤ)) :=
  ask (.maintain "operator") :: List.replicate 9 (.act 3 calm)

/-- The call is a maintenance without failures. -/
def maintained (c : Call (memorySystem ℤ)) : Bool :=
  match c.prog with
  | some (.ret (.maintained reply)) => reply.failures = 0
  | _ => false

/-- The memory is invalidated, and was written to the collection of the API. -/
def exposed (s : State (memorySystem ℤ)) : Bool :=
  s.calls.all returned && decide (s.calls.length = 3) &&
    (s.store.rows.any fun r => r.retired && decide (r.id = "one")) &&
    decide (⟨.upsert, .api "space", "one", true⟩ ∈ s.store.writes)

theorem published_upkeep : ∃ s ∈ (idle emptyStore).exec published, exposed s = true ∧
    ∃ s' ∈ s.exec upkeep, s'.calls[3]?.any maintained = true ∧
      Holds s'.store (.api "space") "one" := by
  decide

theorem upkeep_solo {s : State (memorySystem ℤ)} (hlength : s.calls.length = 3)
    {ms : List (Moment (memorySystem ℤ))} (hmoves : ms.map Moment.move = upkeep) :
    Run.Solo (S := memorySystem ℤ) ⟨config, 7, .maintain "operator"⟩ s ms :=
  ⟨_, hmoves, fun _ hm => ⟨calm, by rw [hlength]; exact List.eq_of_mem_replicate hm⟩⟩

/-- The embedding of an invalidated memory stays in the collection of the API. -/
theorem embedding_stays : ∃ (ms ms' : List (Moment (memorySystem ℤ)))
    (s s' : State (memorySystem ℤ)) (c : Call (memorySystem ℤ)) (reply : MaintainReply)
    (r : Row ℤ), Run (idle emptyStore) ms s ∧ Run s ms' s' ∧
    Run.Solo (S := memorySystem ℤ) ⟨config, 7, .maintain "operator"⟩ s ms' ∧
    s'.calls[s.calls.length]? = some c ∧ c.prog = some (.ret (.maintained reply)) ∧
    reply.failures = 0 ∧ r ∈ s.store.rows ∧ r.retired = true ∧
    Holds s'.store (.api "space") r.id := by
  obtain ⟨s, hs, hexposed, s', hs', hmaintained, hholds⟩ := published_upkeep
  obtain ⟨ms, hr, -⟩ := Run.of_exec hs
  obtain ⟨ms', hr', hmoves⟩ := Run.of_exec hs'
  simp only [exposed, Bool.and_eq_true, decide_eq_true_eq, List.any_eq_true] at hexposed
  obtain ⟨⟨⟨-, hlength⟩, r, hr₁, hretired, hid⟩, -⟩ := hexposed
  obtain ⟨c, hc, hdone⟩ := (Option.any_eq_true _ _).1 hmaintained
  unfold maintained at hdone
  split at hdone
  · next reply hreply =>
    refine ⟨ms, ms', s, s', c, reply, r, hr, hr', upkeep_solo hlength hmoves, ?_, hreply,
      of_decide_eq_true hdone, hr₁, hretired, ?_⟩
    · rw [hlength]
      exact hc
    · rw [hid]
      exact hholds
  · cases hdone

theorem forgotten_iff_sample : ∃ (ms ms' : List (Moment (memorySystem ℤ)))
    (s s' : State (memorySystem ℤ)) (r : Row ℤ), Run (idle emptyStore) ms s ∧ Run s ms' s' ∧
    r ∈ s.store.rows ∧ r.retired = true ∧ ¬ ∀ col, ¬ Holds s'.store col r.id := by
  obtain ⟨s, hs, hexposed, s', hs', hmaintained, -⟩ := published_upkeep
  obtain ⟨ms, hr, -⟩ := Run.of_exec hs
  obtain ⟨ms', hr', hmoves⟩ := Run.of_exec hs'
  simp only [exposed, Bool.and_eq_true, decide_eq_true_eq, List.any_eq_true] at hexposed
  obtain ⟨⟨⟨-, hlength⟩, r, hr₁, hretired, hid⟩, hwrite⟩ := hexposed
  obtain ⟨c, hc, hdone⟩ := (Option.any_eq_true _ _).1 hmaintained
  unfold maintained at hdone
  split at hdone
  · next reply hreply =>
    rw [← hlength] at hc
    obtain ⟨now, staleBefore, -, hiff⟩ := forgotten_iff hr hr' (upkeep_solo hlength hmoves) hc
      hreply (of_decide_eq_true hdone)
    refine ⟨ms, ms', s, s', r, hr, hr', hr₁, hretired, fun hnone => ?_⟩
    have hmain := ((hiff r hr₁ (Or.inl hretired)).1 hnone).1 _ hwrite hid.symm rfl
    cases hmain
  · cases hdone

end Sample

end OpsMemory
