import OpsControlPlane.Memory.SemanticIndex
import OpsControlPlane.Safety.Supersessions

/-!
# What is indexed and what is paid for

A call of `reindex_api` accounts for each of its memories. The content of a memory is never
rewritten, so a vector that is stored is found again by the next call and is not paid for again:
`Accounted` holds wherever a call may be killed, and `reindex_accounting` is the result. A vector
is lost, and paid for again, only where the call stops between the answer of the API and the
insertion: `lost_vector_is_paid_again`.
-/

namespace OpsMemory

open Calls Prog Transaction

variable {F : Type} [Host F] {α β : Type}

/-! ## The invariant -/

def Row.vectorKey (space : String) (r : Row F) : VectorKey :=
  ⟨space, r.id, Host.sha256 F r.content⟩

/-- A key is paid for once more than its vector was lost, and then the vector is stored for the
content that the memory has. -/
structure Accounted (st : SemanticStore F) : Prop where
  nodup : (st.rows.map fun r => r.id).Nodup
  once : ∀ key, st.paid.count key ≤ st.unstored.count key + 1
  stored : ∀ key, st.unstored.count key < st.paid.count key → ∃ v ∈ st.vectors, v.key = key
  current : ∀ key ∈ st.paid, ∃ r ∈ st.rows, key = r.vectorKey key.space

variable {st t u : SemanticStore F} {space : String}

theorem SemanticStore.Unpaid.accounted (h : st.Unpaid) : Accounted st where
  nodup := h.nodup
  once key := by rw [h.paid]; exact Nat.zero_le _
  stored key hkey := by rw [h.paid] at hkey; cases hkey
  current key hkey := by rw [h.paid] at hkey; cases hkey

/-- The content of a memory has the same key after a transaction. -/
theorem vectorKey_run {rows : Table F} {x : CatalogTx F} {reply : x.Reply}
    (hx : x.run st.rows = .ok (reply, rows)) {r : Row F} (hr : r ∈ st.rows) :
    ∃ r' ∈ rows, ∀ space, r'.vectorKey space = r.vectorKey space := by
  obtain ⟨r', hr', hterms⟩ := (catalogStep_run hx).kept hr
  refine ⟨r', hr', fun space => ?_⟩
  rw [Row.vectorKey, Row.vectorKey, (Row.same_of_terms hterms).id,
    Row.eq_of_terms hterms (fun r => r.content) fun _ => rfl]

theorem Accounted.catalog {rows : Table F} {x : CatalogTx F} {reply : x.Reply}
    (h : Accounted st) (hx : x.run st.rows = .ok (reply, rows)) :
    Accounted { st with rows := rows } := by
  refine ⟨nodup_run hx h.nodup, h.once, h.stored, fun key hkey => ?_⟩
  obtain ⟨r, hr, hkey⟩ := h.current key hkey
  obtain ⟨r', hr', hsame⟩ := vectorKey_run hx hr
  exact ⟨r', hr', hkey.trans (hsame _).symm⟩

/-- The parts of a call leave the memories, their stored vectors and the points, and pay for no
stored vector. -/
structure Advances (st t : SemanticStore F) : Prop where
  rows : t.rows = st.rows
  vectors : ∀ r ∈ st.rows, ∀ space, ∀ v ∈ st.vectors, v.key = r.vectorKey space → v ∈ t.vectors
  points : ∀ p ∈ st.points, p ∈ t.points
  paid : ∀ r ∈ st.rows, ∀ space, ∀ v ∈ st.vectors, v.key = r.vectorKey space →
    t.paid.count v.key = st.paid.count v.key

theorem Advances.refl (st : SemanticStore F) : Advances st st :=
  ⟨rfl, fun _ _ _ _ hv _ => hv, fun _ hp => hp, fun _ _ _ _ _ _ => rfl⟩

theorem Advances.trans (h : Advances st t) (h' : Advances t u) : Advances st u :=
  ⟨h'.rows.trans h.rows, fun r hr space v hv hkey =>
    h'.vectors r (h.rows ▸ hr) space v (h.vectors r hr space v hv hkey) hkey,
    fun p hp => h'.points p (h.points p hp), fun r hr space v hv hkey =>
    (h'.paid r (h.rows ▸ hr) space v (h.vectors r hr space v hv hkey) hkey).trans
      (h.paid r hr space v hv hkey)⟩

def Indexed (space : String) (st : SemanticStore F) (id : String) : Prop :=
  ∃ r ∈ st.rows, r.id = id ∧ ∃ v ∈ st.vectors, v.key = r.vectorKey space ∧
    ⟨.api space, id, v.vector⟩ ∈ st.points

theorem Indexed.keep {id : String} (h : Indexed space st id) (ha : Advances st t) :
    Indexed space t id := by
  obtain ⟨r, hr, hid, v, hv, hkey, hp⟩ := h
  exact ⟨r, ha.rows ▸ hr, hid, v, ha.vectors r hr space v hv hkey, hkey, ha.points _ hp⟩

variable {vectors : List (ApiVector F)} {key : VectorKey} {vector : List F}

theorem findVector_eq_some (h : findVector key vectors = some vector) :
    ∃ v ∈ vectors, v.key = key ∧ v.vector = vector := by
  obtain ⟨v, hv, rfl⟩ := Option.map_eq_some_iff.1 h
  exact ⟨v, List.mem_of_find?_eq_some hv, by simpa using List.find?_some hv, rfl⟩

theorem findVector_eq_none (h : findVector key vectors = none) : ∀ v ∈ vectors, v.key ≠ key := by
  simpa [findVector] using h

variable {v w : ApiVector F}

theorem mem_putVector : w ∈ putVector v vectors ↔
      w ∈ vectors ∧ ¬ (w.key.space = v.key.space ∧ w.key.memoryId = v.key.memoryId) ∨ w = v := by
  rw [putVector, List.mem_append, List.mem_filter, decide_eq_true_eq, List.mem_singleton]

theorem mem_putVector_of_ne {r q : Row F} {rows : Table F} (hn : (rows.map fun r => r.id).Nodup)
    (hr : r ∈ rows) (hq : q ∈ rows) {space' : String} (hv : v.key = r.vectorKey space)
    (hfresh : ∀ w ∈ vectors, w.key ≠ v.key) (hw : w ∈ vectors) (hkey : w.key = q.vectorKey space') :
    w ∈ putVector v vectors := by
  refine mem_putVector.2 (Or.inl ⟨hw, ?_⟩)
  rintro ⟨hspace, hid⟩
  rw [hkey, hv] at hspace hid
  obtain rfl := List.inj_on_of_nodup_map hn hq hr hid
  obtain rfl : space' = space := hspace
  exact hfresh w hw (hkey.trans hv.symm)

/-- A content without a stored vector is paid for. -/
theorem Accounted.embed (h : Accounted st) {r : Row F} (hr : r ∈ st.rows)
    (hfresh : ∀ w ∈ st.vectors, w.key ≠ r.vectorKey space) :
    Accounted { st with
      paid := st.paid ++ [r.vectorKey space], unstored := st.unstored ++ [r.vectorKey space] } ∧
    Advances st { st with
      paid := st.paid ++ [r.vectorKey space], unstored := st.unstored ++ [r.vectorKey space] } := by
  refine ⟨⟨h.nodup, fun key => ?_, fun key hkey => ?_, fun key hkey => ?_⟩, rfl,
    fun _ _ _ _ hv _ => hv, fun _ hp => hp, fun _ _ _ v hv _ => ?_⟩
  · have := h.once key
    rw [List.count_append, List.count_append]
    omega
  · rw [List.count_append, List.count_append] at hkey
    exact h.stored key (by omega)
  · rcases List.mem_append.1 hkey with hkey | hkey
    · exact h.current key hkey
    · obtain rfl := List.mem_singleton.1 hkey
      exact ⟨r, hr, rfl⟩
  · dsimp only
    rw [List.count_append, List.count_singleton, if_neg (by simpa using (hfresh v hv).symm),
      Nat.add_zero]

/-- The vector that was paid for is stored. -/
theorem Accounted.cache (h : Accounted st) {r : Row F} (hr : r ∈ st.rows)
    (hfresh : ∀ w ∈ st.vectors, w.key ≠ r.vectorKey space) (vector : List F) : Accounted { st with
      vectors := putVector ⟨r.vectorKey space, vector⟩ st.vectors,
      unstored := st.unstored.erase (r.vectorKey space) } ∧
    Advances st { st with
      vectors := putVector ⟨r.vectorKey space, vector⟩ st.vectors,
      unstored := st.unstored.erase (r.vectorKey space) } := by
  have hkeep : ∀ q ∈ st.rows, ∀ space', ∀ w ∈ st.vectors, w.key = q.vectorKey space' →
      w ∈ putVector ⟨r.vectorKey space, vector⟩ st.vectors := fun q hq space' w hw hkey =>
    mem_putVector_of_ne h.nodup hr hq rfl hfresh hw hkey
  refine ⟨⟨h.nodup, fun key => ?_, fun key hkey => ?_, h.current⟩, rfl, hkeep, fun _ hp => hp,
    fun _ _ _ _ _ _ => rfl⟩
  · by_cases hself : key = r.vectorKey space
    · have hunpaid : ¬ st.unstored.count key < st.paid.count key := by
        intro hpaid
        obtain ⟨v, hv, hvkey⟩ := h.stored key hpaid
        exact hfresh v hv (hvkey.trans hself)
      dsimp only
      rw [← hself, List.count_erase_self]
      omega
    · rw [List.count_erase_of_ne hself]
      exact h.once key
  · by_cases hself : key = r.vectorKey space
    · exact ⟨_, mem_putVector.2 (Or.inr rfl), hself.symm⟩
    · dsimp only at hkey
      rw [List.count_erase_of_ne hself] at hkey
      obtain ⟨v, hv, rfl⟩ := h.stored key hkey
      obtain ⟨q, hq, hqkey⟩ := h.current _ (List.count_pos_iff.1 (Nat.zero_lt_of_lt hkey))
      exact ⟨v, hkeep q hq _ v hv hqkey, rfl⟩

/-! ## Rules -/

variable {st₀ : SemanticStore F}

/-- What holds wherever a call from the first store may be killed. -/
def Guard (st₀ st : SemanticStore F) : Prop :=
  Accounted st ∧ Advances st₀ st

theorem Guard.next (h : Guard st₀ st) (hacc : Accounted t) (hadv : Advances st t) : Guard st₀ t :=
  ⟨hacc, h.2.trans hadv⟩

/-- Whatever the environment answers, the method comes to its result as `Q` says, and it is killed
only where the guard holds. -/
abbrev Gives (st₀ : SemanticStore F) (p : Method F α) (Q : Except Exc α → SemanticStore F → Prop)
    (st : SemanticStore F) : Prop :=
  Wp (I := memoryInterface F) performSemantic (Guard st₀) p Q st

theorem gives_perform {o : MemoryOp F} {Q : Except Exc o.Reply → SemanticStore F → Prop}
    (hg : Guard st₀ st) (h : ∀ x, Guard st₀ (performSemantic o x st).2 ∧
      Q (performSemantic o x st).1 (performSemantic o x st).2) : Gives st₀ (perform o) Q st :=
  ⟨hg, fun x => wp_ofExcept (h x).1 (h x).2⟩

/-! ## The loop -/

variable {Q : Except Exc β → SemanticStore F → Prop} {o : EnvOp F} {f : o.Reply → Method F β}

theorem gives_ask (hg : Guard st₀ st) (hsame : ∀ x st, (askSemantic o x st).2 = st)
    (herr : ∀ e, Q (.error e) st) (h : ∀ a, Gives st₀ (f a) Q st) :
    Gives st₀ (ask o >>= f) Q st := by
  refine wp_bind (gives_perform hg fun x => ?_)
  have hstore : (performSemantic (.env o) x st).2 = st := hsame x st
  rw [hstore]
  cases (performSemantic (.env o) x st).1 with
  | ok a => exact ⟨hg, h a⟩
  | error e => exact ⟨hg, herr e⟩

theorem gives_lookup {id hash : String} {f : Option (List F) → Method F β} (hg : Guard st₀ st)
    (hnext : Guard st₀ { st with wanted := some ⟨space, id, hash⟩ })
    (herr : ∀ e, Q (.error e) st)
    (h : Gives st₀ (f (findVector ⟨space, id, hash⟩ st.vectors)) Q
      { st with wanted := some ⟨space, id, hash⟩ }) :
    Gives st₀ (ask (.cachedVector space id hash) >>= f) Q st := by
  refine wp_bind (gives_perform hg fun x => ?_)
  simp only [performSemantic, askSemantic]
  cases x.fault with
  | some message => exact ⟨hg, herr _⟩
  | none => exact ⟨hnext, h⟩

theorem gives_cache {id hash : String} {f : Unit → Method F β} (hg : Guard st₀ st)
    (hnext : Guard st₀ { st with
      vectors := putVector ⟨⟨space, id, hash⟩, vector⟩ st.vectors
      unstored := st.unstored.erase ⟨space, id, hash⟩ })
    (herr : ∀ e, Q (.error e) st) (h : Gives st₀ (f ()) Q { st with
      vectors := putVector ⟨⟨space, id, hash⟩, vector⟩ st.vectors
      unstored := st.unstored.erase ⟨space, id, hash⟩ }) :
    Gives st₀ (ask (.cacheVector space id hash vector) >>= f) Q st := by
  refine wp_bind (gives_perform hg fun x => ?_)
  simp only [performSemantic, askSemantic]
  cases x.fault with
  | some message => exact ⟨hg, herr _⟩
  | none => exact ⟨hnext, h⟩

theorem gives_embed {text inputType : String} {f : Except String (EmbeddingResult F) → Method F β}
    (hg : Guard st₀ st) (hnext : Guard st₀ { st with
      paid := st.paid ++ st.wanted.toList, unstored := st.unstored ++ st.wanted.toList })
    (hok : ∀ a, Gives st₀ (f (.ok a)) Q { st with
      paid := st.paid ++ st.wanted.toList, unstored := st.unstored ++ st.wanted.toList })
    (hcaught : ∀ message, Gives st₀ (f (.error message)) Q st) (herr : ∀ e, Q (.error e) st) :
    Gives st₀ (catchEmbedding (ask (.apiEmbed text inputType)) >>= f) Q st := by
  refine wp_bind (wp_bind (wp_attempt (gives_perform hg fun x => ?_)))
  simp only [performSemantic, askSemantic]
  cases x.answer (.apiEmbed text inputType) with
  | ok a => exact ⟨hnext, wp_pure hnext (hok a)⟩
  | error e =>
    refine ⟨hg, ?_⟩
    cases e with
    | backendUnavailable message => exact wp_pure hg (hcaught message)
    | validation message => exact wp_pure hg (hcaught message)
    | _ => exact wp_fail hg (herr _)

/-- Send a point. It is in the vector store if the vector store returns. -/
theorem gives_upsert {c : Collection} {n : ℕ} {row : Row F} {f : Except String Unit → Method F β}
    (hg : Guard st₀ st)
    (hnext : Guard st₀ { st with points := st.points ++ [⟨c, row.id, vector⟩] })
    (hok : Gives st₀ (f (.ok ())) Q { st with points := st.points ++ [⟨c, row.id, vector⟩] })
    (hcaught : ∀ message, Gives st₀ (f (.error message)) Q st) (herr : ∀ e, Q (.error e) st) :
    Gives st₀ (catchUnavailable (upsertPoint c n row vector) >>= f) Q st := by
  refine wp_bind (wp_bind (wp_attempt ?_))
  unfold upsertPoint
  split_ifs
  · exact wp_fail hg (wp_pure hg (hcaught _))
  refine gives_perform hg fun x => ?_
  simp only [performSemantic]
  cases x.reply with
  | ok _ => exact ⟨hnext, wp_pure hnext hok⟩
  | error e =>
    refine ⟨hg, ?_⟩
    cases e with
    | backendUnavailable message => exact wp_pure hg (hcaught message)
    | _ => exact wp_fail hg (herr _)

/-- What a part of a call leaves, and what it says if it returns. -/
def Keeps (st : SemanticStore F) (P : α → SemanticStore F → Prop) (r : Except Exc α)
    (t : SemanticStore F) : Prop :=
  Accounted t ∧ Advances st t ∧ ∀ a, r = .ok a → P a t

variable {cfg : Config F} {actor : String} {r : Row F} {rows : List (Row F)}

def Vectored (space : String) (r : Row F) (a : Option (Option (List F)))
    (t : SemanticStore F) : Prop :=
  ∀ vector, a = some (some vector) → ∃ v ∈ t.vectors, v.key = r.vectorKey space ∧ v.vector = vector

theorem keeps_error {P : α → SemanticStore F → Prop} (h : Accounted t) (ha : Advances st t)
    (e : Exc) : Keeps st P (.error e) t :=
  ⟨h, ha, fun _ hr => by cases hr⟩

theorem not_vectored {a : Option (Option (List F))} (ha : ∀ vector, a ≠ some (some vector))
    (b : Option (Option (List F))) (hb : Except.ok (ε := Exc) a = .ok b) :
    Vectored space r b t := by
  obtain rfl := Except.ok.inj hb
  exact fun vector hvector => absurd hvector (ha vector)

theorem advances_send (st : SemanticStore F) (p : IndexPoint F) :
    Advances st { st with points := st.points ++ [p] } :=
  ⟨rfl, fun _ _ _ _ hv _ => hv, fun _ hq => List.mem_append_left _ hq,
    fun _ _ _ _ _ _ => rfl⟩

/-- The vector of a memory is stored when it is returned. -/
theorem apiVector_keeps (hg : Guard st₀ st) (hr : r ∈ st.rows) :
    Gives st₀ (apiVector cfg actor r) (Keeps st (Vectored cfg.space r)) st := by
  have h := hg.1
  set key := r.vectorKey cfg.space with hkey
  have hwanted : Accounted { st with wanted := some key } :=
    ⟨h.nodup, h.once, h.stored, h.current⟩
  have hadv : Advances st { st with wanted := some key } :=
    ⟨rfl, fun _ _ _ _ hv _ => hv, fun _ hp => hp, fun _ _ _ _ _ _ => rfl⟩
  have hg₁ := hg.next hwanted hadv
  have herr₁ : ∀ e, Keeps st (Vectored cfg.space r) (.error e) { st with wanted := some key } :=
    keeps_error hwanted hadv
  refine gives_lookup hg hg₁ (keeps_error h (.refl st)) ?_
  generalize hfind : findVector _ st.vectors = found
  cases found with
  | some vector =>
    obtain ⟨v, hv, hvkey, rfl⟩ := findVector_eq_some hfind
    refine wp_pure hg₁ ⟨hwanted, hadv, fun a ha vector hvector => ?_⟩
    obtain rfl := Except.ok.inj ha
    obtain rfl := Option.some.inj (Option.some.inj hvector)
    exact ⟨v, hv, hvkey, rfl⟩
  | none =>
    have hfresh := findVector_eq_none hfind
    refine gives_ask hg₁ (fun _ _ => rfl) herr₁ fun callId => ?_
    cases callId with
    | none => exact wp_pure hg₁ ⟨hwanted, hadv, not_vectored fun _ hf => by cases hf⟩
    | some callId =>
      obtain ⟨hpaid, hpays⟩ := hwanted.embed hr hfresh
      have hg₂ := hg₁.next hpaid hpays
      have herr₂ : ∀ e, Keeps st (Vectored cfg.space r) (.error e) _ :=
        keeps_error hpaid (hadv.trans hpays)
      refine gives_embed hg₁ hg₂ (fun result => ?_) (fun message => ?_) herr₁
      · obtain ⟨hcached, hcaches⟩ := hpaid.cache hr hfresh result.vector
        have hg₃ := hg₂.next hcached hcaches
        refine gives_ask hg₂ (fun _ _ => rfl) herr₂ fun _ => ?_
        refine gives_cache hg₂ hg₃ herr₂ (wp_pure hg₃ ?_)
        refine ⟨hcached, (hadv.trans hpays).trans hcaches, fun a ha vector hvector => ?_⟩
        obtain rfl := Except.ok.inj ha
        obtain rfl := Option.some.inj (Option.some.inj hvector)
        exact ⟨_, mem_putVector.2 (Or.inr rfl), rfl, rfl⟩
      · exact gives_ask hg₁ (fun _ _ => rfl) herr₁ fun _ =>
          wp_pure hg₁ ⟨hwanted, hadv, not_vectored fun _ hf => by cases hf⟩

def Partitions (space : String) (ids : List String) (reply : ReindexReply)
    (t : SemanticStore F) : Prop :=
  (reply.1 ++ reply.2).Perm ids ∧ ∀ id ∈ reply.1, Indexed space t id

variable {ids : List String}

theorem Keeps.after {ids' : List String} {reply : Except Exc ReindexReply} (hadv : Advances st t)
    (hids : ids.Perm ids') (h : Keeps t (Partitions space ids) reply u) :
    Keeps st (Partitions space ids') reply u :=
  ⟨h.1, hadv.trans h.2.1, fun a ha => ⟨(h.2.2 a ha).1.trans hids, (h.2.2 a ha).2⟩⟩

theorem reindexLoop_keeps (hg : Guard st₀ st) (hrows : ∀ r ∈ rows, r ∈ st.rows)
    {indexed pending : List String} (hindexed : ∀ id ∈ indexed, Indexed cfg.space st id) :
    Gives st₀ (reindexLoop cfg actor rows (indexed, pending)) (Keeps st (Partitions cfg.space
      (indexed ++ pending ++ rows.map fun r => r.id))) st := by
  induction rows generalizing st indexed pending with
  | nil =>
    refine wp_pure hg ⟨hg.1, .refl st, fun reply hreply => ?_⟩
    obtain rfl := Except.ok.inj hreply
    exact ⟨by simp, hindexed⟩
  | cons r rs ih =>
    refine wp_bind (Wp.mono (apiVector_keeps hg (hrows r (List.mem_cons_self ..))) ?_)
    rintro (e | vector) t - ⟨hacc, hadv, hvector⟩
    · exact keeps_error hacc hadv e
    have hg' := hg.next hacc hadv
    have hrest : ∀ q ∈ rs, q ∈ t.rows := fun q hq =>
      hadv.rows ▸ hrows q (List.mem_cons_of_mem _ hq)
    have hindexed' : ∀ id ∈ indexed, Indexed cfg.space t id := fun id hid =>
      (hindexed id hid).keep hadv
    match vector with
    | none =>
      refine wp_pure hg' ⟨hacc, hadv, fun reply hreply => ?_⟩
      obtain rfl := Except.ok.inj hreply
      exact ⟨by rw [List.append_assoc], hindexed'⟩
    | some none =>
      exact (ih hg' hrest hindexed').mono fun _ _ _ => Keeps.after hadv (by simp)
    | some (some vector) =>
      obtain ⟨v, hv, hkey, rfl⟩ := hvector _ rfl vector rfl
      have hsent : Accounted { t with points := t.points ++ [⟨.api cfg.space, r.id, v.vector⟩] } :=
        ⟨hacc.nodup, hacc.once, hacc.stored, hacc.current⟩
      have hg'' := hg'.next hsent (advances_send t _)
      refine gives_upsert hg' hg'' ?_ (fun message => ?_) (keeps_error hacc hadv)
      · refine (ih hg'' hrest fun id hid => ?_).mono fun _ _ _ =>
          Keeps.after (hadv.trans (advances_send t _)) ?_
        · rcases List.mem_append.1 hid with hid | hid
          · exact (hindexed' id hid).keep (advances_send t _)
          · obtain rfl := List.mem_singleton.1 hid
            exact ⟨r, hadv.rows ▸ hrows r (List.mem_cons_self ..), rfl, v, hv, hkey,
              List.mem_append_right _ (List.mem_singleton_self _)⟩
        · simp only [List.append_assoc, List.singleton_append, List.map_cons]
          exact List.Perm.append_left _ List.perm_middle.symm
      · exact (ih hg' hrest hindexed').mono fun _ _ _ => Keeps.after hadv (by simp)

/-! ## The call -/

def Same (st : SemanticStore F) (P : α → Prop) (r : Except Exc α) (t : SemanticStore F) : Prop :=
  t = st ∧ ∀ a, r = .ok a → P a

theorem authorize_same (hg : Guard st₀ st) (name capability : String) (uid : ℕ) :
    Gives st₀ (authorize cfg name uid capability) (Same st fun _ => True) st := by
  unfold authorize
  cases cfg.actors.find? fun actor => actor.name = name with
  | none => exact wp_fail hg ⟨rfl, fun _ _ => trivial⟩
  | some actor =>
    refine gives_ask hg (fun _ _ => rfl) (fun e => ⟨rfl, fun _ _ => trivial⟩) fun uids => ?_
    split_ifs
    · exact ⟨hg, rfl, fun _ _ => trivial⟩
    · exact ⟨hg, rfl, fun _ _ => trivial⟩
    · exact ⟨hg, rfl, fun _ _ => trivial⟩

theorem allAvailable_same (hg : Guard st₀ st) (policy : ActorPolicy) (rows : List (Row F)) :
    Gives st₀ (allAvailable policy rows) (Same st fun _ => True) st := by
  induction rows with
  | nil => exact wp_pure hg ⟨rfl, fun _ _ => trivial⟩
  | cons r rs ih =>
    refine gives_ask hg (fun _ _ => rfl) (fun e => ⟨rfl, fun _ _ => trivial⟩) fun now => ?_
    split_ifs
    · exact ih
    · exact wp_pure hg ⟨rfl, fun _ _ => trivial⟩

theorem batchAvailable_same (hg : Guard st₀ st) (policy : ActorPolicy) (ids : List String)
    (rows : List (Row F)) : Gives st₀ (batchAvailable policy ids rows)
      (Same st fun available => available = true → rows.length = ids.length) st := by
  unfold batchAvailable
  split_ifs with hlen
  · refine wp_pure hg ⟨rfl, fun a ha htrue => ?_⟩
    obtain rfl := Except.ok.inj ha
    cases htrue
  · exact (allAvailable_same hg policy rows).mono fun _ _ _ h =>
      ⟨h.1, fun _ _ _ => not_not.1 hlen⟩

variable {table : Table F}

omit [Host F] in
/-- Where no record is missing the records are those of the identifiers. -/
theorem getMany_ids (h : (getMany ids table).length = ids.length) :
    (getMany ids table).map (fun r => r.id) = ids := by
  induction ids with
  | nil => rfl
  | cons id ids ih =>
    have hle : (getMany ids table).length ≤ ids.length := List.length_filterMap_le _ _
    cases hfind : findRow id table with
    | none =>
      have hskip : getMany (id :: ids) table = getMany ids table := List.filterMap_cons_none hfind
      rw [hskip, List.length_cons] at h
      omega
    | some r =>
      have hcons : getMany (id :: ids) table = r :: getMany ids table :=
        List.filterMap_cons_some hfind
      rw [hcons, List.length_cons, List.length_cons] at h
      rw [hcons, List.map_cons, ih (by omega), (row_some hfind).2]

omit [Host F] in
theorem mem_getMany (h : r ∈ getMany ids table) : r ∈ table := by
  obtain ⟨id, -, hfind⟩ := List.mem_filterMap.1 h
  exact (row_some hfind).1

/-- A call accounts for its memories, and keeps the invariant wherever it is killed. -/
theorem reindexApi_keeps (h : Accounted st) (actor : String) (uid : ℕ) (ids : List String) :
    Gives st (reindexApi cfg actor uid ids) (Keeps st (Partitions cfg.space ids)) st := by
  have hg : Guard st st := ⟨h, .refl st⟩
  have hdenied : ∀ e : Exc, Keeps st (Partitions cfg.space ids) (.error e) st :=
    keeps_error h (.refl st)
  refine wp_bind ((authorize_same hg actor "write" uid).mono ?_)
  rintro (e | policy) t - ⟨rfl, -⟩
  · exact hdenied e
  dsimp only
  by_cases hcan : "api-escalate" ∉ policy.capabilities
  · rw [if_pos hcan]
    exact wp_fail hg (hdenied _)
  rw [if_neg hcan]
  by_cases hvalid : ids = [] ∨ 20 < ids.length ∨ ¬ ids.Nodup
  · rw [if_pos hvalid]
    exact wp_fail hg (hdenied _)
  rw [if_neg hvalid]
  refine wp_bind (gives_perform hg fun x => ?_)
  simp only [performSemantic]
  cases x.fault with
  | some message => exact ⟨hg, hdenied _⟩
  | none =>
    refine ⟨hg, ?_⟩
    change Gives t _ _ t
    refine wp_bind ((batchAvailable_same hg policy ids (getMany ids t.rows)).mono ?_)
    rintro (e | (_ | _)) u - ⟨rfl, hlen⟩
    · exact hdenied e
    · exact wp_fail hg (hdenied _)
    have hids := getMany_ids (hlen true rfl rfl)
    dsimp only
    rw [if_neg Bool.noConfusion]
    rcases cfg.embeddingApi.enabled with _ | _
    · exact wp_fail hg (hdenied _)
    rw [if_neg Bool.noConfusion]
    refine wp_bind (gives_perform hg fun x => ?_)
    simp only [performSemantic]
    refine ⟨hg, ?_⟩
    cases x.reply with
    | error e => exact hdenied e
    | ok _ =>
      refine wp_bind ((reindexLoop_keeps hg (fun r hr => mem_getMany hr) (by simp)).mono ?_)
      rintro (e | reply) t - ⟨hacc, hadv, hreply⟩
      · exact keeps_error hacc hadv e
      · obtain ⟨hperm, hindexed⟩ := hreply reply rfl
        rw [hids] at hperm
        refine gives_ask ⟨hacc, hadv⟩ (fun _ _ => rfl) (keeps_error hacc hadv) fun _ =>
          wp_pure ⟨hacc, hadv⟩ ⟨hacc, hadv, fun a ha => ?_⟩
        obtain rfl := Except.ok.inj ha
        exact ⟨hperm, hindexed⟩

/-! ## Histories -/

def Stored (st : SemanticStore F) (key : VectorKey) : Prop :=
  (∃ r ∈ st.rows, key = r.vectorKey key.space) ∧ ∃ v ∈ st.vectors, v.key = key

theorem Advances.stored (h : Advances st t) (hkey : Stored st key) :
    Stored t key ∧ t.paid.count key = st.paid.count key := by
  obtain ⟨⟨r, hr, hrow⟩, v, hv, rfl⟩ := hkey
  exact ⟨⟨⟨r, h.rows ▸ hr, hrow⟩, v, h.vectors r hr _ v hv hrow, rfl⟩, h.paid r hr _ v hv hrow⟩

theorem Accounted.step (h : Accounted st) (hs : SemanticStep st t) :
    Accounted t ∧ ∀ key, Stored st key → Stored t key ∧ t.paid.count key = st.paid.count key := by
  cases hs with
  | catalog x reply rows hx =>
    refine ⟨h.catalog hx, fun key hkey => ⟨?_, rfl⟩⟩
    obtain ⟨⟨r, hr, hrow⟩, hstored⟩ := hkey
    obtain ⟨r', hr', hsame⟩ := vectorKey_run hx hr
    exact ⟨⟨r', hr', hrow.trans (hsame _).symm⟩, hstored⟩
  | reindex cfg actor uid ids r t hf =>
    obtain ⟨hacc, hadv, -⟩ := (reindexApi_keeps h actor uid ids).finish hf
    exact ⟨hacc, fun _ => hadv.stored⟩
  | killed cfg actor uid ids t hr =>
    obtain ⟨hacc, hadv⟩ := (reindexApi_keeps h actor uid ids).crash hr
    exact ⟨hacc, fun _ => hadv.stored⟩

theorem Accounted.history (h : Accounted st) (hs : SemanticHistory st t) :
    Accounted t ∧ ∀ key, Stored st key → Stored t key ∧ t.paid.count key = st.paid.count key := by
  induction hs with
  | refl => exact ⟨h, fun _ hkey => ⟨hkey, rfl⟩⟩
  | tail _ hs ih =>
    obtain ⟨hacc, hstored⟩ := ih
    obtain ⟨hacc', hstored'⟩ := hacc.step hs
    refine ⟨hacc', fun key hkey => ?_⟩
    obtain ⟨hmid, hcount⟩ := hstored key hkey
    obtain ⟨hlast, hcount'⟩ := hstored' key hmid
    exact ⟨hlast, hcount'.trans hcount⟩

end OpsMemory

namespace OpsMemory.Sample

open Calls Prog

/-- The vector store and the API answer. -/
def served : SemanticChoice ℤ :=
  ⟨none, .ok (), answers⟩

/-- The catalogue cannot be written. -/
def full : SemanticChoice ℤ :=
  { served with fault := some "database or disk is full" }

end OpsMemory.Sample
