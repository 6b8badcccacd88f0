import OpsControlPlane.Broker.Database

/-!
# The audit log as a hash chain

`verifySnapshot_iff` reads the check of the log as a chain in the sense of `HashChain`:
every row is in its place, refers to the hash of the row before it and stores the hash of
its own material, and the head names the last row. `auditChain_binding` says that the
stored hash of a row determines every column of it, if the hash is injective.

`Logs` relates a connection to the one with the events of some drafts appended. `Logs.data`
says that nothing else differs, `Logs.auditOk` that the log stays accepted, and
`wp_appendEvent` is the rule of `append_event`.
-/

set_option linter.unusedSectionVars false

namespace OpsControlPlane

open Text JsonText HashChain Transaction

variable [Platform]

/-! ## The check as a chain -/

def rowHash (r : EventRow) (payload : Value) : String :=
  Platform.sha256 (canonicalJson (auditMaterial r.seq r.eventId r.occurredAt r.eventType r.actorId
    r.entityType r.entityId payload r.previousHash))

/-- The log as a chain: a good row is in its place, its payload is canonical JSON, and it
stores the hash of its material. -/
def auditChain : Chain EventRow String where
  prev := EventRow.previousHash
  own := EventRow.eventHash
  Good n r := r.seq = n ∧ ∃ payload, (loads r.payloadJson : Option Value) = some payload ∧
    canonicalJson payload = r.payloadJson ∧ rowHash r payload = r.eventHash

variable {rows : List EventRow}

theorem verifyRows_ok {n : ℕ} {h t : String} :
    verifyRows n h rows = .ok t ↔ Linked auditChain n h rows ∧ t = tip auditChain h rows := by
  induction rows generalizing n h with
  | nil => simp [verifyRows, Linked, tip, eq_comm]
  | cons r rows ih =>
    have ih := ih (n := n + 1) (h := r.eventHash)
    rw [Nat.cast_add, Nat.cast_one] at ih
    rw [verifyRows, Linked, tip]
    split_ifs with hseq hprev
    · simp [auditChain, hseq]
    · simp [auditChain, hprev]
    · rw [not_not] at hseq hprev
      cases hl : (loads r.payloadJson : Option Value) with
      | none => simp [auditChain, hl]
      | some payload =>
        dsimp only
        split_ifs with hcan hhash
        · simp [auditChain, hl, hcan]
        · simp [auditChain, rowHash, hl, hhash]
        · rw [not_not] at hcan hhash
          have hgood : auditChain.Good n r := ⟨hseq, payload, hl, hcan, hhash⟩
          have hback : auditChain.prev r = h := hprev
          rw [hhash, ih]
          exact and_congr_left' ⟨fun hl => ⟨hgood, hback, hl⟩, fun hl => hl.2.2⟩

/-- The snapshot check accepts a chain from the genesis hash whose length and tip the head
names, and nothing else. -/
theorem verifySnapshot_iff {head : Option AuditHead} :
    (verifySnapshot rows head).valid = true ↔ Linked auditChain 1 genesisHash rows ∧
      head = some ⟨rows.length, tip auditChain genesisHash rows⟩ := by
  have hrows := fun t => @verifyRows_ok _ rows 1 genesisHash t
  rw [Nat.cast_one] at hrows
  unfold verifySnapshot
  cases hv : verifyRows 1 genesisHash rows with
  | error e =>
    have hnot : ¬Linked auditChain 1 genesisHash rows := by
      intro hl
      have := (hrows _).2 ⟨hl, rfl⟩
      rw [hv] at this
      cases this
    simp [hnot]
  | ok t =>
    obtain ⟨hl, rfl⟩ := (hrows t).1 hv
    cases head with
    | none => simp
    | some hd =>
      obtain ⟨seq, hash⟩ := hd
      dsimp only
      split_ifs with hne
      · simp only [Option.some.injEq, AuditHead.mk.injEq, false_iff]
        tauto
      · simp only [Option.some.injEq, AuditHead.mk.injEq, true_iff]
        tauto

theorem verifySnapshot_eventCount (rows : List EventRow) (head : Option AuditHead) :
    (verifySnapshot rows head).eventCount = rows.length := by
  unfold verifySnapshot
  split
  · rfl
  · split
    · rfl
    · split_ifs <;> rfl

/-! ## What a row's hash determines -/

theorem wf_auditMaterial {payload : Value} (h : Wf payload) (seq : ℤ)
    (eventId occurredAt eventType actorId entityType entityId previousHash : String) :
    Wf (auditMaterial seq eventId occurredAt eventType actorId entityType entityId payload
      previousHash) := by
  simp [auditMaterial, Wf, WfPairs, keys, h]

/-- Two materials with one canonical text agree in every field, the payload in its sorted
form. -/
theorem auditMaterial_injective [LawfulFloatText Flt] {s s' : ℤ}
    {e e' o o' t t' a a' y y' i i' h h' : String} {p p' : Value} (hp : Wf p) (hp' : Wf p')
    (heq : canonicalJson (auditMaterial s e o t a y i p h) =
      canonicalJson (auditMaterial s' e' o' t' a' y' i' p' h')) :
    s = s' ∧ e = e' ∧ o = o' ∧ t = t' ∧ a = a' ∧ y = y' ∧ i = i' ∧
      sortKeys p = sortKeys p' ∧ h = h' := by
  have hs := dumps_injective (wf_sortKeys _ (wf_auditMaterial hp s e o t a y i h))
    (wf_sortKeys _ (wf_auditMaterial hp' s' e' o' t' a' y' i' h'))
    (ofChars_injective heq)
  simp only [auditMaterial, sortKeys, Json.obj.injEq] at hs
  have hk : ∀ k, (sortKeysPairs _).lookup k = (sortKeysPairs _).lookup k :=
    fun k => congrArg (List.lookup k) hs
  simp only [lookup_sortKeysPairs] at hk
  have h1 := hk "seq"
  have h2 := hk "event_id"
  have h3 := hk "occurred_at"
  have h4 := hk "event_type"
  have h5 := hk "actor_id"
  have h6 := hk "entity_type"
  have h7 := hk "entity_id"
  have h8 := hk "payload"
  have h9 := hk "previous_hash"
  simp [lookup_pair, sortKeys] at h1 h2 h3 h4 h5 h6 h7 h8 h9
  exact ⟨h1, h2, h3, h4, h5, h6, h7, h8, h9⟩

/-- The stored hash of a row that passes the check determines every column of the row. -/
theorem auditChain_binding [LawfulFloatText Flt]
    (hsha : Function.Injective Platform.sha256) : Binding auditChain := by
  rintro n r r' ⟨-, p, hl, hc, hh⟩ ⟨-, p', hl', hc', hh'⟩ hown
  have hmat : rowHash r p = rowHash r' p' := hh.trans (hown.trans hh'.symm)
  obtain ⟨h1, h2, h3, h4, h5, h6, h7, h8, h9⟩ :=
    auditMaterial_injective (wf_of_loads hl) (wf_of_loads hl') (hsha hmat)
  have h10 : r.payloadJson = r'.payloadJson := by
    rw [← hc, ← hc', canonicalJson, canonicalJson, canonical, canonical, h8]
  have h11 : r.eventHash = r'.eventHash := hown
  cases r
  cases r'
  simp_all

/-! ## Appending -/

/-- The log is accepted by the snapshot check. -/
def AuditOk (db : Db) : Prop :=
  (verifySnapshot db.events db.auditHead).valid = true

theorem auditOk_fresh : AuditOk Db.fresh :=
  verifySnapshot_iff.2 ⟨trivial, rfl⟩

/-- The stored payload of a draft is canonical, and its material with the payload read back has
the stored hash. -/
theorem rehash_nextEvent [LawfulFloatText Flt] (head : AuditHead) (eventId : String)
    (d : AuditDraft) : ∃ payload,
      (loads (nextEvent head eventId d).payloadJson : Option Value) = some payload ∧
      canonicalJson payload = (nextEvent head eventId d).payloadJson ∧
      rowHash (nextEvent head eventId d) payload = (nextEvent head eventId d).eventHash := by
  have hwf : Wf (scrubPayload (.obj d.payload)) := wf_scrubPayload _ d.wf
  refine ⟨sortKeys (scrubPayload (.obj d.payload)), loads_canonical hwf,
    canonical_sortKeys _, ?_⟩
  have hm : ∀ s e o t a y i h, canonicalJson (auditMaterial s e o t a y i
      (sortKeys (scrubPayload (.obj d.payload))) h) =
      canonicalJson (auditMaterial s e o t a y i (scrubPayload (.obj d.payload)) h) := by
    intro s e o t a y i h
    simp only [canonicalJson, canonical, auditMaterial, sortKeys, sortKeysPairs,
      sortKeys_sortKeys]
  rw [rowHash, hm]
  rfl

variable {head : AuditHead}

theorem good_nextEvent [LawfulFloatText Flt] {n : ℕ} (h : head.lastSeq + 1 = n) (eventId : String)
    (d : AuditDraft) : auditChain.Good n (nextEvent head eventId d) :=
  ⟨h, rehash_nextEvent head eventId d⟩

theorem AuditOk.logEvent [LawfulFloatText Flt] {db : Db} (h : AuditOk db)
    (hh : db.auditHead = some head) (eventId : String) (d : AuditDraft) :
    AuditOk (db.logEvent (nextEvent head eventId d)) := by
  obtain ⟨hl, hd⟩ := verifySnapshot_iff.1 h
  obtain rfl := Option.some.inj (hh.symm.trans hd)
  have hn : ((db.events.length : ℤ)) + 1 = ((1 + db.events.length : ℕ) : ℤ) := by
    push_cast
    ring
  refine verifySnapshot_iff.2 ⟨linked_append.2 ⟨hl, good_nextEvent hn eventId d, rfl⟩, ?_⟩
  simp only [Db.logEvent, tip_append, List.length_append, List.length_singleton, Nat.cast_add,
    Nat.cast_one]
  rfl

/-- The connection with one more event, drawn from the environment. -/
def Conn.logged (x : TxEnv) (c : Conn) (head : AuditHead) (d : AuditDraft) : Conn :=
  ⟨c.db.logEvent (nextEvent head (uuid4 (x.bits c.drawn)) d), c.drawn + 1⟩

/-- The second connection is the first one with the events of the drafts appended. -/
inductive Logs (x : TxEnv) : Conn → List AuditDraft → Conn → Prop
  | nil (c : Conn) : Logs x c [] c
  | cons {c c' : Conn} {head : AuditHead} {d : AuditDraft} {ds : List AuditDraft}
      (hh : c.db.auditHead = some head) (h : Logs x (c.logged x head d) ds c') :
      Logs x c (d :: ds) c'

/-- The rule of `append_event`: it appends the event of the draft, or the log has no head
or holds an event of the same number, identifier or hash already. -/
theorem wp_appendEvent {Q : String → Conn → Prop} {E : PyError → Prop} {x : TxEnv} {c : Conn}
    {d : AuditDraft}
    (hQ : ∀ head, c.db.auditHead = some head →
      Q (uuid4 (x.bits c.drawn)) (c.logged x head d))
    (hE : ∀ e, E e) : (appendEvent d).wp x c Q E := by
  simp only [appendEvent, Txn.wp_bind, wp_select, Txn.wp_expect, wp_drawUuid, wp_insert,
    wp_write, Txn.wp_pure]
  exact ⟨fun head hh => ⟨fun _ => hQ head hh, fun _ => hE _⟩, fun _ => hE _⟩

namespace Logs

variable {x : TxEnv} {c c' c'' : Conn} {ds ds' : List AuditDraft} {head : AuditHead}

theorem single (d : AuditDraft) (hh : c.db.auditHead = some head) :
    Logs x c [d] (c.logged x head d) :=
  .cons hh (.nil _)

theorem append (h : Logs x c ds c') (h' : Logs x c' ds' c'') : Logs x c (ds ++ ds') c'' := by
  induction h with
  | nil => exact h'
  | cons hh _ ih => exact .cons hh (ih h')

theorem snoc (h : Logs x c ds c') (d : AuditDraft) (hh : c'.db.auditHead = some head) :
    Logs x c (ds ++ [d]) (c'.logged x head d) :=
  h.append (.single d hh)

theorem data (h : Logs x c ds c') :
    c'.db = { c.db with events := c'.db.events, auditHead := c'.db.auditHead } := by
  induction h with
  | nil => rfl
  | cons _ _ ih =>
    rw [ih]
    rfl

theorem map {f : Db → Db} (hf : ∀ db r, f (db.logEvent r) = (f db).logEvent r)
    (hh : ∀ db, (f db).auditHead = db.auditHead) (h : Logs x c ds c') :
    Logs x ⟨f c.db, c.drawn⟩ ds ⟨f c'.db, c'.drawn⟩ := by
  induction h with
  | nil c => exact .nil _
  | @cons c c' head d ds hhead h ih =>
    refine .cons ((hh _).trans hhead) ?_
    have hlog : Conn.logged x ⟨f c.db, c.drawn⟩ head d =
        ⟨f (c.logged x head d).db, (c.logged x head d).drawn⟩ := by
      simp only [Conn.logged, hf]
    rw [hlog]
    exact ih

theorem actions (h : Logs x c ds c') : c'.db.actions = c.db.actions := by rw [h.data]

theorem missionRuntime (h : Logs x c ds c') : c'.db.missionRuntime = c.db.missionRuntime := by
  rw [h.data]

theorem resourceLocks (h : Logs x c ds c') : c'.db.resourceLocks = c.db.resourceLocks := by
  rw [h.data]

theorem drawn (h : Logs x c ds c') : c'.drawn = c.drawn + ds.length := by
  induction h with
  | nil => rfl
  | cons _ _ ih =>
    rw [ih, Conn.logged, List.length_cons]
    ring

theorem events (h : Logs x c ds c') : ∃ es, c'.db.events = c.db.events ++ es ∧
    List.Forall₂ (fun (e : EventRow) d => e.occurredAt = d.occurredAt ∧
      e.eventType = d.eventType ∧ e.actorId = d.actorId ∧ e.entityType = d.entityType ∧
      e.entityId = d.entityId) es ds := by
  induction h with
  | nil => exact ⟨[], by simp, .nil⟩
  | @cons c c' head d ds hh h ih =>
    obtain ⟨es, he, hes⟩ := ih
    refine ⟨nextEvent head (uuid4 (x.bits c.drawn)) d :: es, ?_,
      .cons ⟨rfl, rfl, rfl, rfl, rfl⟩ hes⟩
    simp [he, Conn.logged, Db.logEvent]

theorem auditOk [LawfulFloatText Flt] (h : Logs x c ds c') (hc : AuditOk c.db) :
    AuditOk c'.db := by
  induction h with
  | nil => exact hc
  | cons hh _ ih => exact ih (hc.logEvent hh _ _)

end Logs

end OpsControlPlane
