import OpsControlPlane.Memory.Capabilities

/-!
# When the memory capabilities are reconciled

`Loads` follows `loadsFrom` line by line. A rewriting that begins at the header of its section, and
finds a line of the key there, sets `enabled` in it and nothing else (`loads_rewrite`). Any other
one leaves its section as it is and changes one before it at most (`loads_rewrite_elsewhere`), and
two sections cannot each be before the other. So the text that is returned is the one that is wanted
if and only if each preset that changes is reached (`desired_exact`).
-/

namespace OpsCapabilities

variable {ls : Text} {es : List (Line × Value)} {ss : Config} {p : Preset} {b : Bool}
  {k : Credentials} {c d : Config}

/-! ## Sections and their keys -/

theorem entriesOf_cons (s : Section) (c : Config) (n : Line) :
    entriesOf (s :: c) n = if s.name = n then some s.entries else entriesOf c n := by
  rw [entriesOf, List.find?_cons]
  by_cases h : s.name = n
  · rw [if_pos h, decide_eq_true h]
    rfl
  · rw [if_neg h, decide_eq_false h]
    rfl

variable {n m : Line}

theorem entriesOf_isSome {c : Config} : (entriesOf c n).isSome = true ↔ n ∈ c.map Section.name := by
  rw [entriesOf, Option.isSome_map, List.find?_isSome]
  simp

theorem get_cons (e : Line × Value) (key : Line) :
    get key (e :: es) = if e.1 = key then some e.2 else get key es := by
  rw [get, List.find?_cons]
  by_cases h : e.1 = key
  · rw [if_pos h, decide_eq_true h]
    rfl
  · rw [if_neg h, decide_eq_false h]
    rfl

theorem get_isSome (h : enabled ∈ es.map Prod.fst) : (get enabled es).isSome = true := by
  rw [get, Option.isSome_map, List.find?_isSome]
  obtain ⟨e, he, hkey⟩ := List.mem_map.1 h
  exact ⟨e, he, decide_eq_true hkey⟩

def value (c : Config) (n key : Line) : Option Value :=
  (entriesOf c n).bind (get key)

theorem mem_names (hapi : api c p ≠ none) : p.sectionName ∈ c.map Section.name :=
  entriesOf_isSome.1 (Option.isSome_iff_ne_none.2 hapi)

/-! ## The key that is set -/

def settle (b : Bool) (es : List (Line × Value)) : List (Line × Value) :=
  es.map fun e => if e.1 = enabled then (e.1, .bool b) else e

@[simp] theorem keys_settle (b : Bool) (es : List (Line × Value)) :
    (settle b es).map Prod.fst = es.map Prod.fst := by
  rw [settle, List.map_map]
  refine List.map_congr_left fun e _ => ?_
  change (if e.1 = enabled then (e.1, Value.bool b) else e).1 = e.1
  split <;> rfl

theorem settle_of_not_mem (h : enabled ∉ es.map Prod.fst) : settle b es = es := by
  rw [settle]
  conv_rhs => rw [← List.map_id es]
  refine List.map_congr_left fun e he => if_neg fun hkey => h ?_
  exact List.mem_map.2 ⟨e, he, hkey⟩

/-- The key is set in the section of the preset. -/
def settleIn (p : Preset) (b : Bool) (c : Config) : Config :=
  c.map fun s => if s.name = p.sectionName then { s with entries := settle b s.entries } else s

@[simp] theorem names_settleIn (p : Preset) (b : Bool) (c : Config) :
    (settleIn p b c).map Section.name = c.map Section.name := by
  rw [settleIn, List.map_map]
  refine List.map_congr_left fun s _ => ?_
  change (if s.name = p.sectionName then _ else s : Section).name = s.name
  split <;> rfl

theorem settleIn_of_not_mem (h : p.sectionName ∉ ss.map Section.name) : settleIn p b ss = ss := by
  rw [settleIn]
  conv_rhs => rw [← List.map_id ss]
  refine List.map_congr_left fun s hs => if_neg fun hname => h ?_
  exact List.mem_map.2 ⟨s, hs, hname⟩

theorem get_settle (key : Line) (es : List (Line × Value)) : get key (settle b es) =
    if key = enabled then (get key es).map fun _ => .bool b else get key es := by
  induction es with
  | nil => simp [settle, get]
  | cons e es ih =>
    rw [settle, List.map_cons, ← settle, get_cons, get_cons, ih]
    by_cases he : e.1 = enabled
    · rw [if_pos he]
      by_cases hkey : e.1 = key
      · rw [if_pos hkey, if_pos hkey, if_pos (hkey ▸ he)]
        rfl
      · rw [if_neg hkey, if_neg hkey]
    · rw [if_neg he]
      by_cases hkey : e.1 = key
      · rw [if_pos hkey, if_pos hkey, if_neg (hkey ▸ he)]
      · rw [if_neg hkey, if_neg hkey]

theorem entriesOf_settleIn (c : Config) (n : Line) : entriesOf (settleIn p b c) n =
    if n = p.sectionName then (entriesOf c n).map (settle b) else entriesOf c n := by
  induction c with
  | nil => simp [settleIn, entriesOf]
  | cons s c ih =>
    rw [settleIn, List.map_cons, ← settleIn, entriesOf_cons, entriesOf_cons, ih]
    by_cases hs : s.name = p.sectionName
    · rw [if_pos hs]
      by_cases hn : s.name = n
      · rw [if_pos hn, if_pos hn, if_pos (hn ▸ hs)]
        rfl
      · rw [if_neg hn, if_neg hn]
    · rw [if_neg hs]
      by_cases hn : s.name = n
      · rw [if_pos hn, if_pos hn, if_neg (hn ▸ hs)]
      · rw [if_neg hn, if_neg hn]

theorem value_settleIn (c : Config) (n key : Line) : value (settleIn p b c) n key =
    if n = p.sectionName ∧ key = enabled then (value c n key).map fun _ => .bool b
    else value c n key := by
  rw [value, entriesOf_settleIn, value]
  by_cases hn : n = p.sectionName
  · rw [if_pos hn]
    cases entriesOf c n with
    | none => split <;> rfl
    | some entries =>
      rw [Option.map_some, Option.bind_some, Option.bind_some, get_settle]
      by_cases hkey : key = enabled
      · rw [if_pos hkey, if_pos ⟨hn, hkey⟩]
      · rw [if_neg hkey, if_neg fun h => hkey h.2]
  · rw [if_neg hn, if_neg fun h => hn h.1]

/-! ## Sections before another one -/

def Precedes (m n : Line) (names : List Line) : Prop :=
  ∃ pre post, names = pre ++ m :: post ∧ n ∈ post

variable {names : List Line}

theorem Precedes.cons {k : Line} (h : Precedes m n names) : Precedes m n (k :: names) := by
  obtain ⟨pre, post, rfl, hn⟩ := h
  exact ⟨k :: pre, post, rfl, hn⟩

theorem Precedes.asymm (hnodup : names.Nodup) (h : Precedes m n names) : ¬Precedes n m names := by
  rintro ⟨pre', post', hsplit, hm⟩
  obtain ⟨pre, post, rfl, hn⟩ := h
  have hdisjoint := List.nodup_append.1 hnodup
  have hdisjoint' := List.nodup_append.1 (hsplit ▸ hnodup)
  rcases List.append_eq_append_iff.1 hsplit with ⟨xs, rfl, hxs⟩ | ⟨xs, rfl, hxs⟩
  · cases xs with
    | nil =>
      cases hxs
      exact (List.nodup_cons.1 hdisjoint.2.1).1 hm
    | cons x xs =>
      cases hxs
      exact hdisjoint'.2.2 _ (by simp) _ (List.mem_cons_of_mem _ hm) rfl
  · cases xs with
    | nil =>
      cases hxs
      exact (List.nodup_cons.1 hdisjoint.2.1).1 hn
    | cons x xs =>
      cases hxs
      exact hdisjoint.2.2 _ (by simp) _ (List.mem_cons_of_mem _ hn) rfl

structure Before (p : Preset) (c c' : Config) : Prop where
  names : c'.map Section.name = c.map Section.name
  moved : ∃ m, Precedes m p.sectionName (c.map Section.name) ∧
    ∀ n, n ≠ m → entriesOf c' n = entriesOf c n

theorem Before.value_eq (h : Before p d c) (hnodup : (d.map Section.name).Nodup) (key : Line) :
    value c p.sectionName key = value d p.sectionName key := by
  obtain ⟨m, hm, hsame⟩ := h.moved
  have hne : p.sectionName ≠ m := by
    rintro rfl
    exact hm.asymm hnodup hm
  rw [value, hsame _ hne, value]

theorem Before.precedes_of_value_ne (h : Before p d c) {key : Line}
    (hne : value c n key ≠ value d n key) : Precedes n p.sectionName (d.map Section.name) := by
  obtain ⟨m, hm, hsame⟩ := h.moved
  by_cases hn : n = m
  · exact hn ▸ hm
  · exact absurd (by rw [value, hsame n hn, value]) hne

/-! ## What is wanted -/

def changes (k : Credentials) (c : Config) (p : Preset) : Bool :=
  (api c p).any fun entries => Differs k p entries

def after (k : Credentials) (c : Config) (p : Preset) (text : Text) : Text :=
  if changes k c p then rewrite p.marker (k.ready p) text else text

/-- The configuration after the turn of a preset that is reached. -/
def settled (k : Credentials) (c : Config) (p : Preset) (d : Config) : Config :=
  if changes k c p then settleIn p (k.ready p) d else d

@[simp] theorem names_settled :
    (settled k c p d).map Section.name = d.map Section.name := by
  rw [settled]
  split
  · exact names_settleIn ..
  · rfl

theorem value_settled (n key : Line) (h : n ≠ p.sectionName ∨ key ≠ enabled) :
    value (settled k c p d) n key = value d n key := by
  rw [settled]
  split
  · rw [value_settleIn, if_neg]
    rintro ⟨hn, hkey⟩
    exact h.elim (absurd hn) (absurd hkey)
  · rfl

theorem changes_eq_true : changes k c p = true ↔
    ∃ entries, api c p = some entries ∧ Differs k p entries := by
  rw [changes]
  cases api c p <;> simp

theorem not_says (h : changes k c p = true) :
    ¬∃ v ∈ value c p.sectionName enabled, v.Says (k.ready p) := by
  obtain ⟨entries, hentries, -, hnot⟩ := changes_eq_true.1 h
  rw [value, ← api, hentries]
  exact hnot

def Owns (c : Config) (p : Preset) : Prop :=
  ∃ entries, api c p = some entries ∧ Owned p entries

variable {c' : Config}

theorem Owns.congr (hapi : api c p ≠ none)
    (hsame : ∀ key, key ≠ enabled → value c p.sectionName key = value c' p.sectionName key)
    (h : Owns c' p) : Owns c p := by
  obtain ⟨entries', hentries', ⟨url, hurl, hget⟩, htoken⟩ := h
  obtain ⟨entries, hentries⟩ := Option.ne_none_iff_exists'.1 hapi
  have hget' (key : Line) (hkey : key ≠ enabled) : get key entries = get key entries' := by
    have hvalue := hsame key hkey
    rwa [value, value, ← api, ← api, hentries, hentries', Option.bind_some, Option.bind_some]
      at hvalue
  refine ⟨entries, hentries, ⟨url, hurl, ?_⟩, ?_⟩
  · rw [hget' _ (by decide), hget]
  · rw [hget' _ (by decide), htoken]

theorem owns_of_changes (h : changes k c p = true) : Owns c p := by
  obtain ⟨entries, hentries, howned, -⟩ := changes_eq_true.1 h
  exact ⟨entries, hentries, howned⟩

theorem says_of_not_changes (h : changes k c p = false) (howns : Owns c p) :
    ∃ v ∈ value c p.sectionName enabled, v.Says (k.ready p) := by
  obtain ⟨entries, hentries, howned⟩ := howns
  by_contra hnot
  refine Bool.eq_false_iff.1 h (changes_eq_true.2 ⟨entries, hentries, howned, ?_⟩)
  rwa [value, ← api, hentries] at hnot

theorem sectionName_ne : Preset.embedding.sectionName ≠ Preset.reranker.sectionName := by
  decide

/-- The configuration is the same, but for the presets that are reconciled, which say whether their
credentials are ready. -/
structure Reconciled (k : Credentials) (c c' : Config) : Prop where
  sections (n : Line) : n ∈ c'.map Section.name ↔ n ∈ c.map Section.name
  others (n key : Line) (h : ∀ p, Owns c p → n ≠ p.sectionName ∨ key ≠ enabled) :
    value c' n key = value c n key
  ready (p : Preset) (h : Owns c p) :
    ∃ v ∈ value c' p.sectionName enabled, v.Says (k.ready p)

theorem Reconciled.unchanged (h : Reconciled k c c') (hapi : ∀ p, api c p ≠ none) (p : Preset) :
    api c' p ≠ none ∧ changes k c' p = false := by
  have hmem := (h.sections p.sectionName).2 (mem_names (hapi p))
  refine ⟨Option.isSome_iff_ne_none.1 (entriesOf_isSome.2 hmem), ?_⟩
  refine Bool.eq_false_iff.2 fun hchanges => not_says hchanges (h.ready p ?_)
  obtain ⟨entries', hentries', howned, -⟩ := changes_eq_true.1 hchanges
  refine Owns.congr (hapi p) (fun key hkey => ?_) ⟨entries', hentries', howned⟩
  exact (h.others _ _ fun _ _ => .inr hkey).symm

/-! ## Lines of the key -/

/-- A line of the key comes before the next line that starts with a bracket. -/
def HasEnabled : Text → Prop
  | [] => False
  | l :: ls => l.head? ≠ some '[' ∧ (EnabledLine l ∨ HasEnabled ls)

instance decidableHasEnabled : (ls : Text) → Decidable (HasEnabled ls)
  | [] => inferInstanceAs (Decidable False)
  | l :: ls =>
    have := decidableHasEnabled ls
    inferInstanceAs (Decidable (l.head? ≠ some '[' ∧ (EnabledLine l ∨ HasEnabled ls)))

theorem substitute_of_not (henabled : ¬HasEnabled ls) : substitute b ls = ls := by
  induction ls with
  | nil => rfl
  | cons l ls ih =>
    rw [substitute]
    by_cases hhead : l.head? = some '['
    · rw [if_pos hhead]
    · rw [HasEnabled, not_and, not_or] at henabled
      rw [if_neg hhead, if_neg (henabled hhead).1, ih (henabled hhead).2]

section reading

variable [Tomllib] {l : Line}

/-! ## Reading -/

inductive Loads : Text → List (Line × Value) → Config → Prop
  | nil : Loads [] [] []
  | blank {l : Line} {ls : Text} {es : List (Line × Value)} {ss : Config}
    (hl : readLine l = some .blank) (hls : Loads ls es ss) : Loads (l :: ls) es ss
  | entry {l : Line} {ls : Text} {es : List (Line × Value)} {ss : Config} {k : Line} {v : Value}
    (hl : readLine l = some (.entry k v)) (hk : k ∉ es.map Prod.fst) (hls : Loads ls es ss) :
    Loads (l :: ls) ((k, v) :: es) ss
  | header {l : Line} {ls : Text} {es : List (Line × Value)} {ss : Config} {n : Line}
    (hl : readLine l = some (.header n)) (hn : n ∉ ss.map Section.name) (hls : Loads ls es ss) :
    Loads (l :: ls) [] (⟨n, es⟩ :: ss)

theorem loadsFrom_eq_some : loadsFrom ls = some (es, ss) ↔ Loads ls es ss := by
  refine ⟨fun h => ?_, fun h => ?_⟩
  · induction ls generalizing es ss with
    | nil =>
      cases h
      exact .nil
    | cons l ls ih =>
      rw [loadsFrom] at h
      obtain ⟨⟨es', ss'⟩, hls, h⟩ := Option.bind_eq_some_iff.1 h
      obtain ⟨item, hl, h⟩ := Option.bind_eq_some_iff.1 h
      cases item with
      | blank =>
        cases h
        exact .blank hl (ih hls)
      | entry k v =>
        change (if k ∈ es'.map Prod.fst then none else some ((k, v) :: es', ss')) = _ at h
        split at h
        · cases h
        · next hk =>
          cases h
          exact .entry hl hk (ih hls)
      | header n =>
        change (if n ∈ ss'.map Section.name then none else some ([], ⟨n, es'⟩ :: ss')) = _ at h
        split at h
        · cases h
        · next hn =>
          cases h
          exact .header hl hn (ih hls)
  · induction h with
    | nil => rfl
    | blank hl _ ih => rw [loadsFrom, ih, Option.bind_some, hl, Option.bind_some]
    | entry hl hk _ ih =>
      rw [loadsFrom, ih, Option.bind_some, hl, Option.bind_some]
      exact if_neg hk
    | header hl hn _ ih =>
      rw [loadsFrom, ih, Option.bind_some, hl, Option.bind_some]
      exact if_neg hn

theorem loads_eq_some {c : Config} : loads ls = some c ↔ Loads ls [] c := by
  rw [← loadsFrom_eq_some, loads]
  cases loadsFrom ls with
  | none => exact ⟨fun h => (by cases h), fun h => (by cases h)⟩
  | some r =>
    obtain ⟨_ | ⟨e, es⟩, ss⟩ := r
    · refine ⟨fun h => ?_, fun h => ?_⟩ <;> cases h <;> rfl
    · refine ⟨fun h => ?_, fun h => ?_⟩ <;> cases h

theorem loads_unique {c c' : Config} (h : Loads ls [] c) (h' : Loads ls [] c') : c = c' :=
  Option.some.inj ((loads_eq_some.2 h).symm.trans (loads_eq_some.2 h'))

theorem names_nodup (h : Loads ls es ss) : (ss.map Section.name).Nodup := by
  induction h with
  | nil => exact List.nodup_nil
  | blank _ _ ih => exact ih
  | entry _ _ _ ih => exact ih
  | header _ hn _ ih => exact List.nodup_cons.2 ⟨hn, ih⟩

theorem readLine_header {n : Line} (h : readLine l = some (.header n)) :
    l.head? = some '[' ∧ '[' :: (n ++ [']']) <+: l := by
  rw [readLine] at h
  split at h
  · next hhead =>
    obtain ⟨r, rfl⟩ := List.head?_eq_some_iff.1 hhead
    refine ⟨rfl, ?_⟩
    rw [List.tail_cons, readHeader] at h
    have hsplit := List.takeWhile_append_dropWhile (p := fun c => Bare c ∨ c = '.') (l := r)
    split at h
    · next rest hrest =>
      obtain ⟨-, h⟩ := Option.ite_none_right_eq_some.1 h
      cases h
      rw [hrest] at hsplit
      exact ⟨rest, by rw [List.cons_append, List.append_assoc]; exact congrArg _ hsplit⟩
    · cases h
  · exact absurd h (Tomllib.not_header l n)

variable {v : Value}

theorem readLine_entry {k : Line} (h : readLine l = some (.entry k v)) :
    l.head? ≠ some '[' ∧ Tomllib.item l = some (.entry k v) := by
  rw [readLine] at h
  split at h
  · rw [readHeader] at h
    split at h
    · obtain ⟨-, h⟩ := Option.ite_none_right_eq_some.1 h
      cases h
    · cases h
  · next hhead => exact ⟨hhead, h⟩

theorem readLine_blank (h : readLine l = some .blank) :
    l.head? ≠ some '[' ∧ Tomllib.item l = some .blank := by
  rw [readLine] at h
  split at h
  · rw [readHeader] at h
    split at h
    · obtain ⟨-, h⟩ := Option.ite_none_right_eq_some.1 h
      cases h
    · cases h
  · next hhead => exact ⟨hhead, h⟩

theorem not_enabledLine_of_blank (h : readLine l = some .blank) : ¬EnabledLine l := by
  intro hl
  obtain ⟨v, hv⟩ := Tomllib.item_enabled hl (readLine_blank h).2
  cases hv

theorem key_of_enabledLine {k : Line} (h : readLine l = some (.entry k v)) (hl : EnabledLine l) :
    k = enabled := by
  obtain ⟨v', hv⟩ := Tomllib.item_enabled hl (readLine_entry h).2
  cases hv
  rfl

theorem readLine_enabledLine (b : Bool) :
    readLine (enabledLine b) = some (.entry enabled (.bool b)) := by
  rw [readLine, if_neg (by cases b <;> decide)]
  exact Tomllib.item_enabledLine b

theorem marker_mem (h : Loads ls es ss) (hmem : p.sectionName ∈ ss.map Section.name) :
    ∃ l ∈ ls, p.marker <:+: l := by
  induction h with
  | nil => exact absurd hmem List.not_mem_nil
  | blank _ _ ih =>
    obtain ⟨l, hl, hmarker⟩ := ih hmem
    exact ⟨l, List.mem_cons_of_mem _ hl, hmarker⟩
  | entry _ _ _ ih =>
    obtain ⟨l, hl, hmarker⟩ := ih hmem
    exact ⟨l, List.mem_cons_of_mem _ hl, hmarker⟩
  | @header l ls es ss n hline _ _ ih =>
    rcases List.mem_cons.1 hmem with hname | hmem
    · refine ⟨l, List.mem_cons_self, ?_⟩
      rw [Preset.marker, hname]
      exact (readLine_header hline).2.isInfix
    · obtain ⟨l, hl, hmarker⟩ := ih hmem
      exact ⟨l, List.mem_cons_of_mem _ hl, hmarker⟩

/-! ## A rewriting -/

theorem enabled_mem (h : Loads ls es ss) (henabled : HasEnabled ls) :
    enabled ∈ es.map Prod.fst := by
  induction h with
  | nil => exact henabled.elim
  | blank hl hls ih =>
    exact ih (henabled.2.resolve_left (not_enabledLine_of_blank hl))
  | entry hl hk hls ih =>
    rcases henabled.2 with henabled | henabled
    · rw [key_of_enabledLine hl henabled]
      exact List.mem_cons_self
    · exact List.mem_cons_of_mem _ (ih henabled)
  | header hl hn hls ih => exact absurd (readLine_header hl).1 henabled.1

theorem loads_substitute (h : Loads ls es ss) (henabled : HasEnabled ls) :
    Loads (substitute b ls) (settle b es) ss := by
  induction h with
  | nil => exact henabled.elim
  | blank hl hls ih =>
    have hnot := not_enabledLine_of_blank hl
    rw [substitute, if_neg henabled.1, if_neg hnot]
    exact .blank hl (ih (henabled.2.resolve_left hnot))
  | @entry l ls es ss k v hl hk hls ih =>
    rw [substitute, if_neg henabled.1]
    by_cases hline : EnabledLine l
    · -- the key is not there a second time
      have hkey := key_of_enabledLine hl hline
      have hsettle : settle b ((k, v) :: es) = (enabled, .bool b) :: es := by
        rw [settle, List.map_cons, if_pos hkey, hkey, ← settle, settle_of_not_mem (hkey ▸ hk)]
      have hrest : ¬HasEnabled ls := fun hrest => hk (hkey ▸ enabled_mem hls hrest)
      rw [if_pos hline, hsettle, substitute_of_not hrest]
      exact .entry (readLine_enabledLine b) (hkey ▸ hk) hls
    · have hrest := henabled.2.resolve_left hline
      have hkey : k ≠ enabled := fun hkey => hk (hkey ▸ enabled_mem hls hrest)
      have hsettle : settle b ((k, v) :: es) = (k, v) :: settle b es := by
        rw [settle, List.map_cons, if_neg hkey, ← settle]
      rw [if_neg hline, hsettle]
      exact .entry hl (by rwa [keys_settle]) (ih hrest)
  | header hl hn hls ih => exact absurd (readLine_header hl).1 henabled.1

theorem loads_within (h : Loads ls es ss) :
    ∃ es', Loads (substitute b ls) es' ss ∧ es'.map Prod.fst = es.map Prod.fst := by
  by_cases henabled : HasEnabled ls
  · exact ⟨_, loads_substitute h henabled, keys_settle b es⟩
  · rw [substitute_of_not henabled]
    exact ⟨es, h, rfl⟩

/-- The first line that mentions the marker is the header of the section, and the section has a line
of the key. -/
def Reaches (p : Preset) : Text → Prop
  | [] => False
  | l :: ls =>
    if p.marker <:+: l then readLine l = some (.header p.sectionName) ∧ HasEnabled ls
    else Reaches p ls

instance decidableReaches (p : Preset) : (ls : Text) → Decidable (Reaches p ls)
  | [] => inferInstanceAs (Decidable False)
  | l :: ls =>
    have := decidableReaches p ls
    inferInstanceAs (Decidable (if p.marker <:+: l then
      readLine l = some (.header p.sectionName) ∧ HasEnabled ls else Reaches p ls))

/-- A rewriting that reaches the key sets it. -/
theorem loads_rewrite (h : Loads ls es ss) (hreach : Reaches p ls) :
    Loads (rewrite p.marker b ls) es (settleIn p b ss) := by
  induction h with
  | nil => exact hreach.elim
  | @blank l ls es ss hl hls ih =>
    rw [Reaches] at hreach
    split at hreach
    · rw [hl] at hreach
      cases hreach.1
    · next hnot =>
      rw [rewrite, if_neg hnot]
      exact .blank hl (ih hreach)
  | @entry l ls es ss k v hl hk hls ih =>
    rw [Reaches] at hreach
    split at hreach
    · rw [hl] at hreach
      cases hreach.1
    · next hnot =>
      rw [rewrite, if_neg hnot]
      exact .entry hl hk (ih hreach)
  | @header l ls es ss n hl hn hls ih =>
    rw [Reaches] at hreach
    split at hreach
    · next hmarker =>
      -- the header of the section
      obtain rfl : n = p.sectionName := by
        rw [hl] at hreach
        cases hreach.1
        rfl
      have hsettle : settleIn p b (⟨p.sectionName, es⟩ :: ss) =
          ⟨p.sectionName, settle b es⟩ :: ss := by
        rw [settleIn, List.map_cons, ← settleIn, settleIn_of_not_mem hn, if_pos rfl]
      rw [rewrite, if_pos hmarker, hsettle]
      exact .header hl hn (loads_substitute hls hreach.2)
    · next hnot =>
      have hname : n ≠ p.sectionName := by
        rintro rfl
        exact hnot (readLine_header hl).2.isInfix
      have hsettle : settleIn p b (⟨n, es⟩ :: ss) = ⟨n, es⟩ :: settleIn p b ss := by
        rw [settleIn, List.map_cons, if_neg hname, ← settleIn]
      rw [rewrite, if_neg hnot, hsettle]
      exact .header hl (by rwa [names_settleIn]) (ih hreach)

/-- Any other rewriting leaves the section as it is, and changes one before it at most. -/
theorem loads_rewrite_elsewhere (h : Loads ls es ss) (hreach : ¬Reaches p ls)
    (hmem : p.sectionName ∈ ss.map Section.name) : ∃ es' ss',
      Loads (rewrite p.marker b ls) es' ss' ∧ es'.map Prod.fst = es.map Prod.fst ∧
        (ss' = ss ∨ es' = es ∧ Before p ss ss') := by
  induction h with
  | nil => exact absurd hmem List.not_mem_nil
  | @blank l ls es ss hl hls ih =>
    rw [Reaches] at hreach
    rw [rewrite]
    split at hreach
    · next hmarker =>
      rw [if_pos hmarker]
      obtain ⟨es', hls', hkeys⟩ := loads_within (b := b) hls
      exact ⟨es', ss, .blank hl hls', hkeys, .inl rfl⟩
    · next hnot =>
      rw [if_neg hnot]
      obtain ⟨es', ss', hls', hkeys, hss⟩ := ih hreach hmem
      exact ⟨es', ss', .blank hl hls', hkeys, hss⟩
  | @entry l ls es ss k v hl hk hls ih =>
    rw [Reaches] at hreach
    rw [rewrite]
    split at hreach
    · next hmarker =>
      rw [if_pos hmarker]
      obtain ⟨es', hls', hkeys⟩ := loads_within (b := b) hls
      refine ⟨_, ss, .entry hl (by rwa [hkeys]) hls', ?_, .inl rfl⟩
      rw [List.map_cons, hkeys, List.map_cons]
    · next hnot =>
      rw [if_neg hnot]
      obtain ⟨es', ss', hls', hkeys, hss⟩ := ih hreach hmem
      refine ⟨_, ss', .entry hl (by rwa [hkeys]) hls', by rw [List.map_cons, hkeys, List.map_cons],
        ?_⟩
      rcases hss with rfl | ⟨rfl, hbefore⟩
      · exact .inl rfl
      · exact .inr ⟨rfl, hbefore⟩
  | @header l ls es ss n hl hn hls ih =>
    rw [Reaches] at hreach
    rw [rewrite]
    by_cases hname : n = p.sectionName
    · -- the header of the section, and no line of the key behind it
      have hmarker : p.marker <:+: l := by
        rw [Preset.marker, ← hname]
        exact (readLine_header hl).2.isInfix
      rw [if_pos hmarker, hl, hname] at hreach
      rw [if_pos hmarker, substitute_of_not fun henabled => hreach ⟨rfl, henabled⟩]
      exact ⟨_, _, .header hl hn hls, rfl, .inl rfl⟩
    · have hmem' : p.sectionName ∈ ss.map Section.name := by
        rw [List.map_cons] at hmem
        exact (List.mem_cons.1 hmem).resolve_left (Ne.symm hname)
      have hfirst (es' : List (Line × Value)) : Before p (⟨n, es⟩ :: ss) (⟨n, es'⟩ :: ss) := by
        refine ⟨rfl, n, ⟨[], _, rfl, hmem'⟩, fun m hm => ?_⟩
        rw [entriesOf_cons, entriesOf_cons, if_neg hm.symm, if_neg hm.symm]
      split at hreach
      · next hmarker =>
        rw [if_pos hmarker]
        obtain ⟨es', hls', -⟩ := loads_within (b := b) hls
        exact ⟨_, _, .header hl hn hls', rfl, .inr ⟨rfl, hfirst es'⟩⟩
      · next hnot =>
        rw [if_neg hnot]
        obtain ⟨es', ss', hls', -, hss⟩ := ih hreach hmem'
        rcases hss with rfl | ⟨rfl, hbefore⟩
        · exact ⟨_, _, .header hl hn hls', rfl, .inr ⟨rfl, hfirst es'⟩⟩
        · obtain ⟨m, hm, hsame⟩ := hbefore.moved
          refine ⟨_, _, .header hl (by rwa [hbefore.names]) hls', rfl,
            .inr ⟨rfl, ?_, m, hm.cons, ?_⟩⟩
          · rw [List.map_cons, hbefore.names, List.map_cons]
          · intro k hk
            rw [entriesOf_cons, entriesOf_cons, hsame k hk]

/-- A section that a rewriting reaches has the key. -/
theorem value_isSome_of_reaches (h : Loads ls es ss) (hreach : Reaches p ls) :
    (value ss p.sectionName enabled).isSome = true := by
  induction h with
  | nil => exact hreach.elim
  | blank hl hls ih =>
    rw [Reaches] at hreach
    split at hreach
    · rw [hl] at hreach
      cases hreach.1
    · exact ih hreach
  | entry hl hk hls ih =>
    rw [Reaches] at hreach
    split at hreach
    · rw [hl] at hreach
      cases hreach.1
    · exact ih hreach
  | @header l ls es ss n hl hn hls ih =>
    rw [value, entriesOf_cons]
    by_cases hname : n = p.sectionName
    · have hmarker : p.marker <:+: l := by
        rw [Preset.marker, ← hname]
        exact (readLine_header hl).2.isInfix
      rw [Reaches, if_pos hmarker] at hreach
      rw [if_pos hname]
      exact get_isSome (enabled_mem hls hreach.2)
    · rw [if_neg hname]
      rw [Reaches] at hreach
      split at hreach
      · rw [hl] at hreach
        cases hreach.1
        exact absurd rfl hname
      · exact ih hreach

/-! ## The turns -/

theorem reconcileOne_eq (hd : Loads ls [] d) (hnames : d.map Section.name = c.map Section.name)
    (hapi : api c p ≠ none) (f : Bool) :
    reconcileOne c k p (ls, f) = .ok (after k c p ls, f || changes k c p) := by
  obtain ⟨entries, hentries⟩ := Option.ne_none_iff_exists'.1 hapi
  have hchanges : changes k c p = decide (Differs k p entries) := by
    rw [changes, hentries]
    rfl
  rw [reconcileOne, hentries, after, hchanges]
  dsimp only
  by_cases hdiffers : Differs k p entries
  · have hmem : p.sectionName ∈ d.map Section.name := by
      rw [hnames]
      refine entriesOf_isSome.1 ?_
      rw [← api, hentries]
      rfl
    rw [if_pos hdiffers, if_pos (marker_mem hd hmem), decide_eq_true hdiffers, if_pos rfl,
      Bool.or_true]
  · rw [if_neg hdiffers, decide_eq_false hdiffers, if_neg Bool.false_ne_true, Bool.or_false]

theorem loads_after (hd : Loads ls [] d) (hreach : changes k c p = true → Reaches p ls) :
    Loads (after k c p ls) [] (settled k c p d) := by
  rw [after, settled]
  split
  · next hchanges => exact loads_rewrite hd (hreach hchanges)
  · exact hd

theorem loads_after_elsewhere (hd : Loads ls [] d) (hmem : p.sectionName ∈ d.map Section.name)
    (hreach : ¬Reaches p ls) :
    ∃ d', Loads (after k c p ls) [] d' ∧ (d' = d ∨ Before p d d') := by
  rw [after]
  split
  · obtain ⟨es', d', hd', hkeys, hss⟩ :=
      loads_rewrite_elsewhere (b := k.ready p) hd hreach hmem
    obtain rfl : es' = [] := List.map_eq_nil_iff.1 hkeys
    exact ⟨d', hd', hss.imp_right And.right⟩
  · exact ⟨d, hd, .inl rfl⟩

theorem loads_after_names (hd : Loads ls [] d) (hmem : p.sectionName ∈ d.map Section.name) :
    ∃ d', Loads (after k c p ls) [] d' ∧ d'.map Section.name = d.map Section.name := by
  by_cases hreach : Reaches p ls
  · exact ⟨_, loads_after hd fun _ => hreach, names_settled⟩
  · obtain ⟨d', hd', rfl | hbefore⟩ := loads_after_elsewhere (k := k) (c := c) hd hmem hreach
    · exact ⟨d', hd', rfl⟩
    · exact ⟨d', hd', hbefore.names⟩

theorem desired_eq (h : loads ls = some c) (hapi : ∀ p, api c p ≠ none) :
    desired ls k = .ok (after k c .reranker (after k c .embedding ls),
      changes k c .embedding || changes k c .reranker) := by
  have hc := loads_eq_some.1 h
  obtain ⟨d, hd, hnames⟩ := loads_after_names (k := k) (c := c) hc (mem_names (hapi .embedding))
  rw [desired, h]
  change (do
    let r ← reconcileOne c k .embedding (ls, false)
    reconcileOne c k .reranker r) = _
  rw [reconcileOne_eq hc rfl (hapi .embedding), Bool.false_or]
  exact reconcileOne_eq hd hnames (hapi .reranker) _

/-! ## When the reconciliation is exact -/

/-- `desired` gives the configuration that is wanted, says whether it is another one, and has
nothing to change in it. -/
def Exact (k : Credentials) (text : Text) : Prop :=
  ∃ c text' changed c', loads text = some c ∧ desired text k = .ok (text', changed) ∧
    loads text' = some c' ∧ Reconciled k c c' ∧ (changed = true ↔ c' ≠ c) ∧
    desired text' k = .ok (text', false)

/-- If the preset changes, its key is reached. -/
def Writable (k : Credentials) (c : Config) (p : Preset) (text : Text) : Prop :=
  changes k c p = true → Reaches p text

theorem says_settled (hd : Loads ls [] d) (hwritable : Writable k c p ls) (howns : Owns c p)
    (hsame : value d p.sectionName enabled = value c p.sectionName enabled) :
    ∃ v ∈ value (settled k c p d) p.sectionName enabled, v.Says (k.ready p) := by
  cases hchanges : changes k c p with
  | false =>
    rw [settled, hchanges, if_neg Bool.false_ne_true, hsame]
    exact says_of_not_changes hchanges howns
  | true =>
    obtain ⟨v, hv⟩ := Option.isSome_iff_exists.1
      (value_isSome_of_reaches hd (hwritable hchanges))
    rw [settled, hchanges, if_pos rfl, value_settleIn, if_pos ⟨rfl, rfl⟩, hv]
    exact ⟨.bool (k.ready p), rfl, rfl⟩

theorem exact_of_writable (h : loads ls = some c) (hapi : ∀ p, api c p ≠ none)
    (hembedding : Writable k c .embedding ls)
    (hreranker : Writable k c .reranker (after k c .embedding ls)) : Exact k ls := by
  have hc := loads_eq_some.1 h
  have hd := loads_after (k := k) (c := c) hc hembedding
  have hc' := loads_after (k := k) (c := c) hd hreranker
  have hrec : Reconciled k c (settled k c .reranker (settled k c .embedding c)) := by
    refine ⟨fun n => by rw [names_settled, names_settled], fun n key hothers => ?_,
      fun p howns => ?_⟩
    · -- a preset that is not reconciled does not change
      have hvalue (p : Preset) (d : Config) : value (settled k c p d) n key = value d n key := by
        cases hchanges : changes k c p with
        | false => rw [settled, hchanges, if_neg Bool.false_ne_true]
        | true => exact value_settled n key (hothers p (owns_of_changes hchanges))
      rw [hvalue, hvalue]
    · cases p with
      | embedding =>
        rw [value_settled _ _ (.inl sectionName_ne)]
        exact says_settled hc hembedding howns rfl
      | reranker =>
        exact says_settled hd hreranker howns (value_settled _ _ (.inl sectionName_ne.symm))
  refine ⟨c, _, _, _, h, desired_eq h hapi, loads_eq_some.2 hc', hrec, ⟨?_, ?_⟩, ?_⟩
  · -- what says the readiness now did not before
    intro hchanged heq
    rw [heq] at hrec
    obtain hchanges | hchanges := Bool.or_eq_true_iff.1 hchanged <;>
      exact not_says hchanges (hrec.ready _ (owns_of_changes hchanges))
  · intro hne
    by_contra hnot
    obtain ⟨he, hr⟩ := Bool.or_eq_false_iff.1 (Bool.eq_false_iff.2 hnot)
    refine hne ?_
    rw [settled, hr, if_neg Bool.false_ne_true, settled, he, if_neg Bool.false_ne_true]
  · have hunchanged := hrec.unchanged hapi
    rw [desired_eq (loads_eq_some.2 hc') fun p => (hunchanged p).1, after,
      (hunchanged .reranker).2, if_neg Bool.false_ne_true, after, (hunchanged .embedding).2,
      if_neg Bool.false_ne_true]
    rfl

theorem writable_of_exact (h : loads ls = some c) (hapi : ∀ p, api c p ≠ none)
    (hexact : Exact k ls) :
    Writable k c .embedding ls ∧ Writable k c .reranker (after k c .embedding ls) := by
  obtain ⟨c₀, text', changed, c', h₀, hdesired, hc', hrec, -, -⟩ := hexact
  obtain rfl : c = c₀ := Option.some.inj (h.symm.trans h₀)
  have hc := loads_eq_some.1 h
  have hnodup := names_nodup hc
  have hmem (p : Preset) := mem_names (hapi p)
  rw [desired_eq h hapi] at hdesired
  cases hdesired
  have hread := loads_eq_some.1 hc'
  have hembedding : Writable k c .embedding ls := by
    intro hchanges
    by_contra hreach
    obtain ⟨d, hd, hbefore⟩ := loads_after_elsewhere (k := k) (c := c) hc (hmem _) hreach
    have hnames : d.map Section.name = c.map Section.name := by
      rcases hbefore with rfl | hbefore
      · rfl
      · exact hbefore.names
    have hvalue : value d Preset.embedding.sectionName enabled =
        value c Preset.embedding.sectionName enabled := by
      rcases hbefore with rfl | hbefore
      · rfl
      · exact hbefore.value_eq hnodup _
    -- the turn of the reranker would have to write the key of the embedding
    have hwritten : value c' Preset.embedding.sectionName enabled ≠
        value d Preset.embedding.sectionName enabled := by
      intro heq
      refine not_says hchanges ?_
      rw [← hvalue, ← heq]
      exact hrec.ready _ (owns_of_changes hchanges)
    have hreach' : ¬(changes k c .reranker = true →
      Reaches .reranker (after k c .embedding ls)) := by
      intro hreach'
      rw [← loads_unique (loads_after hd hreach') hread] at hwritten
      exact hwritten (value_settled _ _ (.inl sectionName_ne))
    obtain ⟨hchanges', hreach'⟩ := Classical.not_imp.1 hreach'
    obtain ⟨d', hd', hbefore'⟩ := loads_after_elsewhere (k := k) (c := c) hd
      (by rw [hnames]; exact hmem _) hreach'
    obtain rfl : d' = c' := loads_unique hd' hread
    have hwritten' : value d Preset.reranker.sectionName enabled ≠
        value c Preset.reranker.sectionName enabled := by
      intro heq
      refine not_says hchanges' ?_
      have hvalue' : value d' Preset.reranker.sectionName enabled =
          value d Preset.reranker.sectionName enabled := by
        rcases hbefore' with rfl | hbefore'
        · rfl
        · exact hbefore'.value_eq (by rwa [hnames]) _
      rw [← heq, ← hvalue']
      exact hrec.ready _ (owns_of_changes hchanges')
    -- each section would come before the other one
    rcases hbefore with rfl | hbefore
    · exact hwritten' rfl
    rcases hbefore' with rfl | hbefore'
    · exact hwritten rfl
    have hfirst := hbefore.precedes_of_value_ne hwritten'
    have hsecond := hbefore'.precedes_of_value_ne hwritten
    rw [hnames] at hsecond
    exact hfirst.asymm hnodup hsecond
  refine ⟨hembedding, fun hchanges => ?_⟩
  by_contra hreach
  have hd := loads_after (k := k) (c := c) hc hembedding
  obtain ⟨d', hd', hbefore⟩ := loads_after_elsewhere (k := k) (c := c) hd
    (by rw [names_settled]; exact hmem _) hreach
  obtain rfl : d' = c' := loads_unique hd' hread
  refine not_says hchanges ?_
  have hvalue : value d' Preset.reranker.sectionName enabled =
      value c Preset.reranker.sectionName enabled := by
    rw [← value_settled (k := k) (c := c) (p := .embedding) (d := c) _ _ (.inl sectionName_ne.symm)]
    rcases hbefore with rfl | hbefore
    · rfl
    · exact hbefore.value_eq (by rwa [names_settled]) _
  rw [← hvalue]
  exact hrec.ready _ (owns_of_changes hchanges)

/-- In a text with both sections, `desired` is exact if and only if it reaches the key of each
preset that changes, that of the reranker in the text which the turn of the embedding leaves. -/
theorem desired_exact (h : loads ls = some c) (hapi : ∀ p, api c p ≠ none) :
    Exact k ls ↔
      Writable k c .embedding ls ∧ Writable k c .reranker (after k c .embedding ls) :=
  ⟨writable_of_exact h hapi, fun hwritable => exact_of_writable h hapi hwritable.1 hwritable.2⟩

end reading

/-! ## Plain lines -/

namespace Plain

/-- A string without escapes, or a Boolean. -/
def readValue (l : Line) : Option Value :=
  match l.dropWhile fun c => Blank c with
  | '"' :: r =>
    match r.dropWhile fun c => c ≠ '"' with
    | _ :: rest => if Ends rest then some (.str (r.takeWhile fun c => c ≠ '"')) else none
    | [] => none
  | r => if r = line "true" then some (.bool true)
    else if r = line "false" then some (.bool false) else none

def keyOf (l : Line) : Line :=
  l.takeWhile fun c => Bare c

/-- What follows the key of a line and the spaces behind it. -/
def restOf (l : Line) : Line :=
  (l.dropWhile fun c => Bare c).dropWhile fun c => Blank c

def item (l : Line) : Option Item :=
  if Ends l then some .blank
  else if (restOf l).head? = some '=' then
    (readValue (restOf l).tail).map fun v => .entry (keyOf l) v
  else none

theorem not_bare_of_isWhitespace {c : Char} (h : c.isWhitespace = true) : ¬Bare c := by
  rw [Char.isWhitespace] at h
  simp only [Bool.or_eq_true, decide_eq_true_eq] at h
  rcases h with ((rfl | rfl) | rfl) | rfl <;> decide

theorem keyOf_enabledLine {l : Line} (h : EnabledLine l) : keyOf l = enabled := by
  obtain ⟨⟨t, rfl⟩, heq⟩ := h
  rw [List.drop_left] at heq
  have hbare : (enabled.all fun c => Bare c) = true := by decide
  rw [keyOf, List.takeWhile_append_of_pos (List.all_eq_true.1 hbare)]
  cases t with
  | nil => rfl
  | cons c t =>
    have hc : ¬Bare c := by
      by_cases hspace : c.isWhitespace = true
      · exact not_bare_of_isWhitespace hspace
      · rw [List.dropWhile_cons, if_neg hspace] at heq
        obtain rfl : c = '=' := Option.some.inj heq
        decide
    rw [List.takeWhile_cons, if_neg (by simpa using hc), List.append_nil]

instance reader : Tomllib where
  item := item
  not_header l name h := by
    rw [item] at h
    split at h
    · cases h
    · split at h
      · obtain ⟨v, -, hv⟩ := Option.map_eq_some_iff.1 h
        cases hv
      · cases h
  item_enabled hl hi := by
    have hends : ∀ t, ¬Ends (enabled ++ t) := fun t => by
      change ¬((some 'e').all fun c => c == '#') = true
      decide
    obtain ⟨t, ht⟩ := hl.1
    rw [item, if_neg (ht ▸ hends t)] at hi
    split at hi
    · obtain ⟨v, -, hv⟩ := Option.map_eq_some_iff.1 hi
      exact ⟨v, by rw [← hv, keyOf_enabledLine hl]⟩
    · cases hi
  item_enabledLine ready := by cases ready <;> rfl

def credentials : Credentials where
  store _ := ⟨true, false, 1⟩
  managed := .none

def url (p : Preset) : Line :=
  line "url = \"" ++ p.urls.head (by cases p <;> decide) ++ line "\""

def credential (p : Preset) : Line :=
  line "credential_credential = \"" ++ p.token ++ line "\""

/-- A section of a preset, with these lines. -/
def api (p : Preset) (ls : Text) : Text :=
  p.marker :: url p :: credential p :: ls

def disabled : Text :=
  api .embedding [enabledLine true] ++ api .reranker [enabledLine false]

/-- The embedding does not say whether it is enabled. -/
def silent : Text :=
  api .embedding [] ++ api .reranker [enabledLine true]

def entries (p : Preset) (es : List (Line × Value)) : Section :=
  ⟨p.sectionName, (line "url", .str (p.urls.head (by cases p <;> decide))) ::
    (line "credential_credential", .str p.token) :: es⟩

def disabledConfig : Config :=
  [entries .embedding [(enabled, .bool true)], entries .reranker [(enabled, .bool false)]]

theorem loads_disabled : loads disabled = some disabledConfig := by
  decide

theorem reaches_disabled : Reaches .reranker disabled := by
  decide

/-- The reranker is enabled. -/
theorem desired_exact_disabled : Exact credentials disabled := by
  refine (desired_exact loads_disabled fun p => by cases p <;> decide).2 ⟨fun h => ?_, fun _ => ?_⟩
  · exact absurd h (by decide)
  · exact reaches_disabled

def silentConfig : Config :=
  [entries .embedding [], entries .reranker [(enabled, .bool true)]]

theorem loads_silent : loads silent = some silentConfig := by
  decide

/-- A text without the key is to be changed and stays as it is. -/
example : desired silent credentials = .ok (silent, true) := by
  rfl

theorem desired_inexact : ¬∀ (k : Credentials) (text : Text) (c : Config), loads text = some c →
    (∀ p, OpsCapabilities.api c p ≠ none) → Exact k text := by
  intro hexact
  have hwritable := writable_of_exact loads_silent (fun p => by cases p <;> decide)
    (hexact credentials silent silentConfig loads_silent fun p => by cases p <;> decide)
  exact absurd (hwritable.1 (by decide)) (by decide)

end Plain

end OpsCapabilities
