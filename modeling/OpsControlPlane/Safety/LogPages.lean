import OpsControlPlane.Logs.Service
import OpsControlPlane.Lib.Keyset

/-!
# The pages of the archive

A client that follows `next_cursor` reads what matched, once and in order, if and only if each
of its requests and each block of 300 entries is small enough (`pages_complete`). A page of 300
entries need not be: `Block.pages_incomplete`.
-/

namespace OpsLogs

open JsonText

variable {F : Type} [LogTime F]

/-! ## What is claimed -/

structure Query.Accepted (q : Query) : Prop where
  host : q.host ∈ hosts
  since : 0 ≤ q.since
  until_gt : q.since < q.until
  until_lt : q.until < 9223372036854775808

/-- What a client reads that follows `next_cursor`. -/
structure Complete (s : Session F) (q : Query) : Prop where
  answered : ∀ m, ∃ r, follow s q m 0 none = .ok r
  /-- What matched at the first request is read. -/
  all : ∀ m r, follow s q m 0 none = .ok r → r.2 = true → ∀ e ∈ (s.archive 0).entries,
    Selects (s.archive 0) q e → e ∈ r.1
  /-- It is read once, in order. -/
  decreasing : ∀ m r, follow s q m 0 none = .ok r →
    r.1.Pairwise fun e e' => e'.t < e.t ∨ e'.t = e.t ∧ e'.id < e.id
  sound : ∀ m r, follow s q m 0 none = .ok r → ∀ e ∈ r.1, ∃ i, e ∈ (s.archive i).entries ∧
    Selects (s.archive i) q e
  /-- The last page is read, if entries are not added forever. -/
  ends : ∀ N, (∀ i, N ≤ i → s.archive i = s.archive N) →
    ∃ m r, follow s q m 0 none = .ok r ∧ r.2 = true

/-! ## When it holds -/

def selected (archive : Archive F) (q : Query) : List (Entry F) :=
  archive.entries.filter fun e => Selects archive q e

/-- The order of the pages: by time, then by identifier. -/
def key (e : Entry F) : F ×ₗ String :=
  toLex (e.t, e.id)

def block (archive : Archive F) (q : Query) (c : Option (F ×ₗ String)) : List (Entry F) :=
  Keyset.records key 299 c (selected archive q)

/-- The last of them, if others follow. -/
def blockEnd (archive : Archive F) (q : Query) (c : Option (F ×ₗ String)) :
    Option (F ×ₗ String) :=
  Keyset.next key 299 c (selected archive q)

def Entry.bytes (e : Entry F) : ℕ :=
  (toAscii (dumps e.json)).length + 1

/-- The request is not too long, its cursor neither, and 300 entries and what stands around them
have at most one mebibyte. -/
structure FitsAt (s : Session F) (q : Query) (i : ℕ) (c : Option (F ×ₗ String)) : Prop where
  line : s.line (c.map ofLex) ≤ 4096
  id : ∀ k ∈ c, (ofLex k).2.length ≤ 128
  bytes : ∀ k, k = blockEnd (s.archive i) q c →
    size ⟨[], k.isSome, k.map ofLex⟩ q.host (s.checkedAt i) +
      (((block (s.archive i) q c).map Entry.bytes).sum - 1) ≤ limit

/-- It holds of what follows each 300th entry. -/
def Fits (s : Session F) (q : Query) : ℕ → ℕ → Option (F ×ₗ String) → Prop
  | 0, _, _ => True
  | m + 1, i, c => FitsAt s q i c ∧
    ∀ k, blockEnd (s.archive i) q c = some k → Fits s q m (i + 1) (some k)

/-! ## The pages are pages by key -/

theorem insertionSort_congr {α : Type} {r r' : α → α → Prop} [DecidableRel r] [DecidableRel r']
    (h : ∀ a b, r a b ↔ r' a b) (l : List α) : l.insertionSort r = l.insertionSort r' := by
  obtain rfl : r = r' := funext fun a => funext fun b => propext (h a b)
  congr!

variable {e : Entry F}

theorem below_iff {before : Option (Cursor F)} : Keyset.Below key (before.map toLex) e ↔
      ∀ c ∈ before, e.t < c.1 ∨ e.t = c.1 ∧ e.id < c.2 := by
  simp only [Keyset.Below, Option.mem_map, forall_exists_index, and_imp,
    forall_apply_eq_imp_iff₂, key, Prod.Lex.toLex_lt_toLex]

theorem rows_eq (archive : Archive F) (q : Query) (before : Option (Cursor F)) :
    rows archive q before =
      (Keyset.rest key (before.map toLex) (selected archive q)).take 301 := by
  have hfilter : (archive.entries.filter fun e => Selects archive q e ∧
      ∀ c ∈ before, e.t < c.1 ∨ e.t = c.1 ∧ e.id < c.2) =
      (selected archive q).filter fun e => Keyset.Below key (before.map toLex) e := by
    rw [selected, List.filter_filter]
    refine List.filter_congr fun e _ => ?_
    rw [Bool.decide_and, Bool.and_comm, decide_eq_decide.2 below_iff]
  rw [rows, hfilter, Keyset.rest]
  congr 1
  refine insertionSort_congr (fun e e' => ?_) _
  rw [key, key, Prod.Lex.toLex_le_toLex]

theorem page_eq (archive : Archive F) (q : Query) (before : Option (Cursor F)) :
    page archive q before =
      let k := blockEnd archive q (before.map toLex)
      ⟨block archive q (before.map toLex), k.isSome, k.map ofLex⟩ := by
  unfold page
  rw [rows_eq]
  generalize hrest : Keyset.rest key (before.map toLex) (selected archive q) = rest
  have hnext : (if 300 < (rest.take 301).length then
      ((rest.take 301)[299]?).map fun e => (e.t, e.id) else none) =
      (blockEnd archive q (before.map toLex)).map ofLex := by
    rw [blockEnd, Keyset.next, hrest, List.length_take]
    by_cases hlt : 299 + 1 < rest.length
    · rw [if_pos (by omega), if_pos hlt, List.getElem?_take_of_lt (by omega), Option.map_map]
      rfl
    · rw [if_neg (by omega), if_neg hlt, Option.map_none]
  have htruncated : decide (300 < (rest.take 301).length) =
      (blockEnd archive q (before.map toLex)).isSome := by
    rw [blockEnd, Keyset.next, hrest, List.length_take]
    by_cases hlt : 299 + 1 < rest.length
    · rw [if_pos hlt, List.getElem?_eq_getElem (by omega), decide_eq_true (by omega)]
      rfl
    · rw [if_neg hlt, decide_eq_false (by omega)]
      rfl
  simp only [hnext, htruncated, block, Keyset.records, hrest, List.take_take]
  rfl

/-! ## The bytes of a page -/

theorem length_toAscii_append (l l' : List Char) :
    (toAscii (l ++ l')).length = (toAscii l).length + (toAscii l').length := by
  rw [toAscii, List.flatMap_append, List.length_append, toAscii, toAscii]

theorem length_toAscii_cons (c : Char) (l : List Char) :
    (toAscii (c :: l)).length = (asciiChar c).length + (toAscii l).length := by
  rw [toAscii, List.flatMap_cons, List.length_append, toAscii]

theorem length_dumpsElems (es : List (Entry F)) :
    (toAscii (dumpsElems (es.map Entry.json))).length = (es.map Entry.bytes).sum + 1 := by
  induction es with
  | nil => rfl
  | cons e es ih =>
    have hcomma : (asciiChar ',').length = 1 := rfl
    rw [List.map_cons, dumpsElems, length_toAscii_cons, length_toAscii_append, ih, hcomma,
      List.map_cons, List.sum_cons, Entry.bytes]
    omega

theorem length_records (es : List (Entry F)) :
    (toAscii (dumps (.arr (es.map Entry.json)))).length = 2 + ((es.map Entry.bytes).sum - 1) := by
  cases es with
  | nil => rfl
  | cons e es =>
    have hbracket : (asciiChar '[').length = 1 := rfl
    rw [List.map_cons, dumps, length_toAscii_cons, length_toAscii_append, length_dumpsElems,
      hbracket, List.map_cons, List.sum_cons, Entry.bytes]
    omega

/-- A field behind the first one stands between texts that do not depend on it. -/
theorem dumps_field (kv : String × Json F) (kvs : List (String × Json F)) (k : String)
    (kvs' : List (String × Json F)) : ∃ a b, ∀ v,
      dumps (.obj (kv :: (kvs ++ (k, v) :: kvs'))) = a ++ (dumps v ++ b) := by
  have hpairs : ∃ a b, ∀ v, dumpsPairs (kvs ++ (k, v) :: kvs') = a ++ (dumps v ++ b) := by
    induction kvs with
    | nil =>
      refine ⟨',' :: '"' :: (dumpsString (Text.toChars k) ++ [':']), dumpsPairs kvs', fun v => ?_⟩
      rw [List.nil_append, dumpsPairs, List.cons_append, List.cons_append, List.append_assoc]
      rfl
    | cons kv kvs ih =>
      obtain ⟨a, b, h⟩ := ih
      refine ⟨',' :: '"' :: (dumpsString (Text.toChars kv.1) ++ ':' :: (dumps kv.2 ++ a)), b,
        fun v => ?_⟩
      rw [List.cons_append, dumpsPairs, h]
      simp only [List.cons_append, List.append_assoc]
  obtain ⟨a, b, h⟩ := hpairs
  refine ⟨'{' :: '"' :: (dumpsString (Text.toChars kv.1) ++ ':' :: (dumps kv.2 ++ a)), b,
    fun v => ?_⟩
  rw [dumps, h]
  simp only [List.cons_append, List.append_assoc]

theorem size_eq (p : Page F) (host : String) (checkedAt : F) :
    size p host checkedAt =
      size ⟨[], p.truncated, p.nextCursor⟩ host checkedAt +
        ((p.records.map Entry.bytes).sum - 1) := by
  obtain ⟨a, b, h⟩ := dumps_field ("schema_version", (.int 1 : Json F)) [("host", .str host)]
    "records" [("truncated", .bool p.truncated),
    ("next_cursor", cursorJson p.nextCursor), ("archived", .bool true), ("redacted", .bool true),
    ("checked_at", .float checkedAt)]
  have hsize : ∀ records : List (Entry F),
    size ⟨records, p.truncated, p.nextCursor⟩ host checkedAt =
      (toAscii a).length + (2 + ((records.map Entry.bytes).sum - 1) + (toAscii b).length) := by
    intro records
    rw [← length_records, ← length_toAscii_append, ← length_toAscii_append, ← h]
    rfl
  rw [hsize [], show size p host checkedAt =
    size ⟨p.records, p.truncated, p.nextCursor⟩ host checkedAt from rfl, hsize, List.map_nil,
    List.sum_nil]
  omega

/-! ## Page after page -/

section Follow

variable {s : Session F} {q : Query} {i m : ℕ} {c : Option (F ×ₗ String)}

theorem handle_eq (hq : q.Accepted) (archive : Archive F) (before : Option (Cursor F)) :
    handle archive q before =
      if ∃ c ∈ before, 128 < c.2.length then .error "Page invalide"
      else .ok (page archive q before) := by
  have hperiod : 0 ≤ q.since ∧ q.since < q.until := ⟨hq.since, hq.until_gt⟩
  rw [handle, if_neg (not_not.2 hq.host), if_neg (not_not.2 hperiod),
    if_neg (not_le.2 hq.until_lt)]

theorem map_ofLex (c : Option (F ×ₗ String)) : (c.map ofLex).map toLex = c := by
  cases c <;> rfl

theorem respond_of_fits (hq : q.Accepted) (h : FitsAt s q i c) :
    respond s q i (c.map ofLex) = .ok (page (s.archive i) q (c.map ofLex)) := by
  have hid : ¬∃ k ∈ c.map ofLex, 128 < k.2.length := by
    rintro ⟨k, hk, hlt⟩
    obtain ⟨k', hk', rfl⟩ := Option.mem_map.1 hk
    exact absurd (h.id k' hk') (not_le.2 hlt)
  have hsize := h.bytes _ rfl
  rw [respond, if_neg (not_lt.2 h.line), handle_eq hq, if_neg hid]
  refine if_neg (not_lt.2 ?_)
  rw [size_eq, page_eq, map_ofLex]
  exact hsize

variable {p : Page F}

theorem fitsAt_of_respond (hq : q.Accepted) (h : respond s q i (c.map ofLex) = .ok p) :
    FitsAt s q i c := by
  rw [respond, handle_eq hq] at h
  split at h
  · cases h
  · next hline =>
    split at h
    · cases h
    · next hid =>
      by_cases hsize : limit < size (page (s.archive i) q (c.map ofLex)) q.host (s.checkedAt i)
      · rw [show ((Except.ok (page (s.archive i) q (c.map ofLex)) : Except String (Page F)) >>=
          fun page => if limit < size page q.host (s.checkedAt i) then
            .error "Resultat trop volumineux" else return page) = _ from if_pos hsize] at h
        cases h
      · rw [size_eq, page_eq, map_ofLex, not_lt] at hsize
        exact ⟨not_lt.1 hline, fun k hk => not_lt.1 fun hlt =>
          hid ⟨ofLex k, Option.mem_map_of_mem _ hk, hlt⟩, fun _ hnext => hnext ▸ hsize⟩

variable {before : Option (Cursor F)}

theorem follow_succ_none (h : respond s q i before = .ok p) (hnext : p.nextCursor = none) :
    follow s q (m + 1) i before = .ok (p.records, true) := by
  rw [follow, h, show (Except.ok p : Except String (Page F)) = pure p from rfl, pure_bind, hnext]
  rfl

theorem follow_succ_some {k : Cursor F} (h : respond s q i before = .ok p)
    (hnext : p.nextCursor = some k) : follow s q (m + 1) i before =
      (follow s q m (i + 1) (some k)).map fun r => (p.records ++ r.1, r.2) := by
  rw [follow, h, show (Except.ok p : Except String (Page F)) = pure p from rfl, pure_bind, hnext]
  change (follow s q m (i + 1) (some k) >>= fun r => pure (p.records ++ r.1, r.2)) = _
  cases follow s q m (i + 1) (some k) <;> rfl

theorem follow_of_fits (hq : q.Accepted) (h : Fits s q m i c) :
    follow s q m i (c.map ofLex) =
      .ok (Keyset.walk key 299 (fun i => selected (s.archive i) q) m i c) := by
  induction m generalizing i c with
  | zero => rfl
  | succ m ih =>
    have hrespond := respond_of_fits hq h.1
    rw [page_eq, map_ofLex] at hrespond
    rw [Keyset.walk, ← blockEnd]
    cases hnext : blockEnd (s.archive i) q c with
    | none =>
      rw [hnext] at hrespond
      exact follow_succ_none hrespond rfl
    | some k =>
      rw [hnext] at hrespond
      have hrest := ih (h.2 k hnext)
      rw [Option.map_some] at hrest
      rw [follow_succ_some hrespond rfl, hrest]
      rfl

theorem fits_of_follow (hq : q.Accepted) {r : List (Entry F) × Bool}
    (h : follow s q m i (c.map ofLex) = .ok r) : Fits s q m i c := by
  induction m generalizing i c r with
  | zero => trivial
  | succ m ih =>
    cases hrespond : respond s q i (c.map ofLex) with
    | error e =>
      rw [follow, hrespond] at h
      cases h
    | ok p =>
      have hfits := fitsAt_of_respond hq hrespond
      refine ⟨hfits, fun k hnext => ?_⟩
      have hpage := respond_of_fits hq hfits
      rw [page_eq, map_ofLex, hnext] at hpage
      rw [follow_succ_some hpage rfl] at h
      cases hrest : follow s q m (i + 1) (some (ofLex k)) with
      | error e =>
        rw [hrest] at h
        cases h
      | ok r' => exact ih (c := some k) hrest

end Follow

/-! ## What is read -/

theorem selected_nodup (archive : Archive F) (q : Query) :
    ((selected archive q).map key).Nodup := by
  have hsub := archive.nodup.sublist
    ((List.filter_sublist (p := fun e => Selects archive q e)).map fun e => (e.host, e.id))
  refine List.Nodup.of_map (fun k : F ×ₗ String => (q.host, (ofLex k).2)) ?_
  rw [List.map_map]
  refine List.map_congr_left (fun e he => ?_) ▸ hsub
  have hhost : Selects archive q e := of_decide_eq_true (List.mem_filter.1 he).2
  rw [hhost.1]
  rfl

theorem mem_selected {archive : Archive F} {q : Query} :
    e ∈ selected archive q ↔ e ∈ archive.entries ∧ Selects archive q e := by
  rw [selected, List.mem_filter, decide_eq_true_eq]

theorem selected_subset (s : Session F) (q : Query) (i : ℕ) :
    selected (s.archive i) q ⊆ selected (s.archive (i + 1)) q := by
  intro e he
  obtain ⟨hmem, hhost, hsince, huntil, hsource, hservice⟩ := mem_selected.1 he
  refine mem_selected.2 ⟨s.entries_subset i hmem, hhost, hsince, huntil, hsource, fun hq => ?_⟩
  obtain h | ⟨scope, hscope, h⟩ := hservice hq
  · exact .inl h
  · exact .inr ⟨scope, s.scopes_subset i hscope, h⟩

/-- A client that follows `next_cursor` reads what matched, once and in order, if and only if
each request, each cursor and each block of 300 entries is small enough. -/
theorem pages_complete (s : Session F) (q : Query) (hq : q.Accepted) :
    Complete s q ↔ ∀ m, Fits s q m 0 none := by
  refine ⟨fun h m => ?_, fun h => ?_⟩
  · obtain ⟨r, hr⟩ := h.answered m
    exact fits_of_follow (c := none) hq hr
  · have hfollow := fun m => follow_of_fits hq (h m)
    have hkeys := fun i => selected_nodup (s.archive i) q
    refine ⟨fun m => ⟨_, hfollow m⟩, fun m r hr hend e he hsel => ?_, fun m r hr => ?_,
      fun m r hr e he => ?_, fun N hN => ?_⟩
    · obtain rfl := Except.ok.inj ((hfollow m).symm.trans hr)
      exact Keyset.mem_walk hkeys (selected_subset s q) hend (mem_selected.2 ⟨he, hsel⟩)
        (fun k hk => absurd hk (Option.not_mem_none k))
    · obtain rfl := Except.ok.inj ((hfollow m).symm.trans hr)
      refine (Keyset.walk_pairwise hkeys m 0 none).imp fun {e e'} hlt => ?_
      exact Prod.Lex.toLex_lt_toLex.1 hlt
    · obtain rfl := Except.ok.inj ((hfollow m).symm.trans hr)
      obtain ⟨⟨i, -, hmem⟩, -⟩ := Keyset.mem_of_mem_walk he
      exact ⟨i, mem_selected.1 hmem⟩
    · have hends :
          ∃ m, (Keyset.walk key 299 (fun i => selected (s.archive i) q) m 0 none).2 = true :=
        Keyset.walk_ends (fun i hi => by rw [hN i hi]) 0 none
      obtain ⟨m, hm⟩ := hends
      exact ⟨m, _, hfollow m, hm⟩

/-! ## A block of 300 entries -/

theorem le_bytes (e : Entry F) : (toAscii (dumps (.str e.message : Json F))).length ≤ e.bytes := by
  obtain ⟨a, b, h⟩ := dumps_field ("id", (.str e.id : Json F)) [("t", .float e.t),
    ("source", .str e.source), ("service", .str e.service), ("level", .str e.level)] "message" []
  have hjson : dumps e.json = a ++ (dumps (.str e.message) ++ b) := h (.str e.message)
  rw [Entry.bytes, hjson, length_toAscii_append, length_toAscii_append]
  omega

theorem length_replicate {c : Char} {k : ℕ} (h : (toAscii (escape c)).length = k) (n : ℕ) :
    (toAscii (dumpsString (List.replicate n c))).length = k * n + 1 := by
  induction n with
  | zero => rfl
  | succ n ih =>
    rw [List.replicate_succ, dumpsString, length_toAscii_append, ih, h]
    ring

namespace Block

scoped instance wholeSeconds : LogTime ℤ where
  repr n := dumpsInt n ++ ['.', '0']
  ofText _ := 0
  notBefore z t := z ≤ t
  notAfter z t := t ≤ z

/-- An entry whose message is accented characters. -/
def entry (length i : ℕ) : Entry ℤ :=
  { host := "nas", id := Text.ofChars (List.replicate i 'a'), t := 5, source := "system",
    service := "backup", level := "info", message := Text.ofChars (List.replicate length 'é') }

def query : Query :=
  { host := "nas", since := 0, «until» := 10, source := "", service := "" }

theorem accepted : query.Accepted :=
  ⟨by decide, by decide, by decide, by decide⟩

variable (n length : ℕ)

theorem entries_nodup :
    (((List.range n).reverse.map (entry length)).map fun e => (e.host, e.id)).Nodup := by
  rw [List.map_map]
  refine (List.nodup_reverse.2 List.nodup_range).map fun i j h => ?_
  have hids : Text.toChars (entry length i).id = Text.toChars (entry length j).id :=
    congrArg Text.toChars (Prod.mk.inj h).2
  rw [entry, entry, Text.toChars_ofChars, Text.toChars_ofChars] at hids
  rw [← List.length_replicate (n := i) (a := 'a'), hids, List.length_replicate]

/-- `n` entries of one second. -/
def archive : Archive ℤ :=
  ⟨(List.range n).reverse.map (entry length), [], entries_nodup n length⟩

def session : Session ℤ :=
  { archive := fun _ => archive n length
    entries_subset := fun _ => List.Subset.refl _
    scopes_subset := fun _ => List.Subset.refl _
    checkedAt := fun _ => 11
    line := fun _ => 100 }

theorem session_archive (i : ℕ) : (session n length).archive i = archive n length :=
  rfl

theorem selects (i : ℕ) : Selects (archive n length) query (entry length i) :=
  ⟨rfl, rfl, rfl, fun h => absurd rfl h, fun h => absurd rfl h⟩

theorem selected_archive :
    selected (archive n length) query = (List.range n).reverse.map (entry length) := by
  refine List.filter_eq_self.2 fun e he => ?_
  obtain ⟨i, -, rfl⟩ := List.mem_map.1 he
  exact decide_eq_true (selects n length i)

theorem key_strictMono : StrictMono fun i => key (entry length i) := by
  intro i j h
  refine Prod.Lex.toLex_lt_toLex.2 (.inr ⟨rfl, Text.ofChars_lt_ofChars.2 ?_⟩)
  induction i generalizing j with
  | zero =>
    obtain ⟨k, rfl⟩ : ∃ k, j = k + 1 := ⟨j - 1, by omega⟩
    exact List.nil_lt_cons _ _
  | succ i ih =>
    obtain ⟨k, rfl⟩ : ∃ k, j = k + 1 := ⟨j - 1, by omega⟩
    exact List.cons_lt_cons_iff.2 (.inr ⟨rfl, ih (by omega)⟩)

/-- The entries are stored in the order of the pages. -/
theorem rest_archive (c : Option (ℤ ×ₗ String)) :
    Keyset.rest key c (selected (archive n length) query) =
      ((List.range n).reverse.filter fun i => Keyset.Below key c (entry length i)).map
        (entry length) := by
  rw [Keyset.rest, selected_archive, List.filter_map]
  refine List.Pairwise.insertionSort_eq (List.pairwise_map.2 ?_)
  refine List.Pairwise.sublist List.filter_sublist (List.pairwise_reverse.2 ?_)
  exact List.pairwise_lt_range.imp fun h => (key_strictMono length h).le

theorem length_block (h : n ≤ 300) : (block (archive n length) query none).length = n := by
  have hall : ((List.range n).reverse.filter fun i => Keyset.Below key none (entry length i)) =
      (List.range n).reverse :=
    List.filter_eq_self.2 fun e _ => decide_eq_true fun k hk => absurd hk (Option.not_mem_none k)
  rw [block, Keyset.records, rest_archive, hall, List.length_take, List.length_map,
    List.length_reverse, List.length_range, Nat.min_eq_right h]

theorem mem_block {c : Option (ℤ ×ₗ String)} {e : Entry ℤ}
    (h : e ∈ block (archive n length) query c) : ∃ i < n, e = entry length i := by
  have hmem := (Keyset.mem_of_mem_records h).1
  rw [selected_archive] at hmem
  obtain ⟨i, hi, rfl⟩ := List.mem_map.1 hmem
  exact ⟨i, List.mem_range.1 (List.mem_reverse.1 hi), rfl⟩

theorem le_sum_bytes (h : n ≤ 300) :
    n * (6 * length + 2) ≤ ((block (archive n length) query none).map Entry.bytes).sum := by
  have hsum := List.card_nsmul_le_sum ((block (archive n length) query none).map Entry.bytes)
    (6 * length + 2)
    fun b hb => by
      obtain ⟨e, he, rfl⟩ := List.mem_map.1 hb
      obtain ⟨i, -, rfl⟩ := mem_block n length he
      refine le_trans ?_ (le_bytes (entry length i))
      have hquote : (asciiChar '"').length = 1 := rfl
      rw [entry, dumps, Text.toChars_ofChars, length_toAscii_cons, length_replicate (k := 6) rfl,
        hquote]
      omega
  rwa [List.length_map, length_block n length h, smul_eq_mul] at hsum

theorem bytes_entry (i : ℕ) : (entry length i).bytes = (entry length 0).bytes + i := by
  have hid : ∀ i, (toAscii (dumps (.str (entry length i).id : Json ℤ))).length = i + 2 := by
    intro i
    have hquote : (asciiChar '"').length = 1 := rfl
    rw [entry, dumps, Text.toChars_ofChars, length_toAscii_cons, length_replicate (k := 1) rfl,
      hquote]
    omega
  have hjson : ∀ i, dumps (entry length i).json =
      '{' :: '"' :: (dumpsString (Text.toChars "id") ++ ':' ::
        (dumps (.str (entry length i).id : Json ℤ) ++ dumpsPairs [("t", .float (5 : ℤ)),
          ("source", .str "system"), ("service", .str "backup"), ("level", .str "info"),
          ("message", .str (Text.ofChars (List.replicate length 'é')))])) := by
    intro i
    rw [Entry.json, dumps]
    rfl
  simp only [Entry.bytes, hjson, length_toAscii_cons, length_toAscii_append, hid]
  omega

theorem sum_bytes_le (c : Option (ℤ ×ₗ String)) :
    ((block (archive n length) query c).map Entry.bytes).sum ≤
      300 * ((entry length 0).bytes + n) := by
  have hsum := List.sum_le_card_nsmul ((block (archive n length) query c).map Entry.bytes)
    ((entry length 0).bytes + n) fun b hb => by
      obtain ⟨e, he, rfl⟩ := List.mem_map.1 hb
      obtain ⟨i, hi, rfl⟩ := mem_block n length he
      rw [bytes_entry]
      omega
  refine hsum.trans ?_
  rw [smul_eq_mul, List.length_map]
  exact Nat.mul_le_mul_right _ (List.length_take_le _ _)

/-- 300 entries of one second, each message of 1024 accented characters: the page is refused. -/
theorem pages_incomplete : query.Accepted ∧ ¬Complete (session 300 1024) query := by
  refine ⟨accepted, fun h => ?_⟩
  obtain ⟨r, hr⟩ := h.answered 1
  have hblock := (fits_of_follow (c := none) accepted hr).1.bytes _ rfl
  have hsum := le_sum_bytes 300 1024 le_rfl
  rw [session_archive] at hblock
  have hlimit : limit = 1048576 := rfl
  omega

set_option maxRecDepth 8000 in
/-- A page of 301 short entries, behind a short cursor. -/
theorem fitsAt (i : ℕ) {c k : Option (ℤ ×ₗ String)}
    (hid : ∀ k ∈ c, (ofLex k).2.length ≤ 128) (hk : blockEnd (archive 301 1) query c = k)
    (hsize : size ⟨[], k.isSome, k.map ofLex⟩ query.host 11 ≤ 1000) :
    FitsAt (session 301 1) query i c := by
  refine ⟨(by decide : 100 ≤ 4096), hid, fun next h => ?_⟩
  have hbytes : (entry 1 0).bytes = 89 := by decide
  rw [h, session_archive, hk]
  calc size ⟨[], k.isSome, k.map ofLex⟩ query.host 11 +
        (((block (archive 301 1) query c).map Entry.bytes).sum - 1)
      ≤ 1000 + 300 * ((entry 1 0).bytes + 301) :=
        Nat.add_le_add hsize ((Nat.sub_le _ _).trans (sum_bytes_le 301 1 c))
    _ ≤ limit := by rw [hbytes]; decide

set_option maxRecDepth 8000 in
/-- 301 entries of one second are read in two pages. -/
theorem pages_complete_two : Complete (session 301 1) query := by
  have hall : ((List.range 301).reverse.filter fun i => Keyset.Below key none (entry 1 i)) =
      (List.range 301).reverse :=
    List.filter_eq_self.2 fun e _ => decide_eq_true fun k hk => absurd hk (Option.not_mem_none k)
  have hbelow : ∀ i, Keyset.Below key (some (key (entry 1 1))) (entry 1 i) ↔ i < 1 := fun i =>
    ⟨fun h => (key_strictMono 1).lt_iff_lt.1 (h _ rfl), fun h k hk =>
      Option.some.inj hk ▸ (key_strictMono 1) h⟩
  have hlast : ((List.range 301).reverse.filter fun i =>
      Keyset.Below key (some (key (entry 1 1))) (entry 1 i)) = [0] := by
    rw [List.filter_congr (q := fun i => decide (i < 1)) fun i _ => decide_eq_decide.2 (hbelow i)]
    decide
  have hfirst : blockEnd (archive 301 1) query none = some (key (entry 1 1)) := by
    rw [blockEnd, Keyset.next, rest_archive, hall]
    rfl
  have hsecond : blockEnd (archive 301 1) query (some (key (entry 1 1))) = none := by
    rw [blockEnd, Keyset.next, rest_archive, hlast]
    rfl
  refine (pages_complete (session 301 1) query accepted).2 fun m => ?_
  cases m with
  | zero => trivial
  | succ m =>
    refine ⟨fitsAt 0 (fun k hk => absurd hk (Option.not_mem_none k)) hfirst (by decide),
      fun k hk => ?_⟩
    obtain rfl := Option.some.inj (hfirst.symm.trans hk)
    cases m with
    | zero => trivial
    | succ m =>
      refine ⟨fitsAt 1 (fun k hk => ?_) hsecond (by decide),
        fun k hk => absurd (hsecond.symm.trans hk) (Option.some_ne_none k).symm⟩
      obtain rfl := Option.some.inj hk
      decide

end Block

end OpsLogs
