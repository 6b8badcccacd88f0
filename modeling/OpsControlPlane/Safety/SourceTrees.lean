import Mathlib
import OpsControlPlane.Deploy.SourceTree
import OpsControlPlane.Lib.Separated

/-!
# What the digest of a source tree identifies

`Contains` and `Included` say which files are in a release, whatever the order of the listings and
of the roots. The walk yields them once each (`iterSourcePaths_spec`), and the text that is hashed
determines them (`hashed_inj`), so that the digest does (`tree_digest_identifies`).
-/

namespace OpsSourceTree

/-! ## What is in a release -/

/-- The files below a directory, those excluded and those behind links left out. -/
inductive Contains : Node → Path → File → Prop
  | file {children : List (Str × Node)} {dir : Path} {name : Str} {executable : Bool}
    {content : List UInt8} (hchild : child? name children = some (.file executable content))
    (hkept : ¬Excluded (dir ++ [name])) :
    Contains (.dir children) dir ⟨dir ++ [name], executable, content⟩
  | dir {children : List (Str × Node)} {dir : Path} {name : Str} {n : Node} {f : File}
    (hchild : child? name children = some n) (hkept : ¬Excluded (dir ++ [name]))
    (hbelow : Contains n (dir ++ [name]) f) : Contains (.dir children) dir f

def RootContains (n : Node) (root : Path) (f : File) : Prop :=
  (n = .file f.executable f.content ∧ f.path = root ∧ ¬Excluded root) ∨ Contains n root f

def Included (source : Source) (roots : List Str) (f : File) : Prop :=
  ∃ raw ∈ roots, ∃ root n, relativePath raw (str "source.roots") = .ok root ∧
    lstat (.dir source.children) root = some n ∧ RootContains n root f

def At (t : Node) (f : File) : Prop :=
  lstat t f.path = some (.file f.executable f.content)

variable {t n : Node} {f : File}

theorem At.eq {f' : File} (h : At t f) (h' : At t f') (hpath : f.path = f'.path) : f = f' := by
  rw [At, hpath, h'] at h
  obtain ⟨path, executable, content⟩ := f
  obtain ⟨path', executable', content'⟩ := f'
  cases h
  cases hpath
  rfl

variable {name s : Str}

theorem lstat_append {dir : Path} {children : List (Str × Node)}
    (h : lstat t dir = some (.dir children)) : lstat t (dir ++ [name]) = child? name children := by
  induction dir generalizing t with
  | nil =>
    obtain rfl := Option.some.inj h
    rw [List.nil_append, lstat, Node.follow]
    change (child? name children).bind (fun m => lstat m []) = child? name children
    cases child? name children <;> rfl
  | cons part dir ih =>
    rw [List.cons_append, lstat]
    rw [lstat] at h
    split at h
    · next cs hcs =>
      obtain ⟨m, hm, hdir⟩ := Option.bind_eq_some_iff.1 h
      rw [hm, Option.bind_some]
      exact ih hdir
    · cases h

/-! ## The walk -/

/-- What was yielded: files of the tree, once each, with names that can be in a line. -/
structure Seen (t : Node) (seen : List File) : Prop where
  at_ : ∀ f ∈ seen, At t f
  nodup : (seen.map File.path).Nodup
  plain : ∀ f ∈ seen, ¬Control (asPosix f.path)

def Yields (t : Node) (w : Walk) (p : File → Prop) : Prop :=
  ∀ seen seen', Seen t seen → w seen = .ok seen' →
    Seen t seen' ∧ ∀ f, f ∈ seen' ↔ f ∈ seen ∨ p f

theorem Seen.append {seen : List File} (h : Seen t seen) (hat : At t f)
    (hnew : f.path ∉ seen.map File.path) (hplain : ¬Control (asPosix f.path)) :
    Seen t (seen ++ [f]) := by
  refine ⟨fun f' hf' => ?_, ?_, fun f' hf' => ?_⟩
  · rcases List.mem_append.1 hf' with hf' | hf'
    · exact h.at_ f' hf'
    · rwa [List.mem_singleton.1 hf']
  · rw [List.map_append, List.map_singleton]
    exact List.nodup_append.2 ⟨h.nodup, List.nodup_singleton _, fun p hp p' hp' heq =>
      hnew (List.mem_singleton.1 hp' ▸ heq ▸ hp)⟩
  · rcases List.mem_append.1 hf' with hf' | hf'
    · exact h.plain f' hf'
    · rwa [List.mem_singleton.1 hf']

theorem Seen.mem {seen : List File} (h : Seen t seen) (hat : At t f)
    (hpath : f.path ∈ seen.map File.path) : f ∈ seen := by
  obtain ⟨f', hf', heq⟩ := List.mem_map.1 hpath
  rwa [← (h.at_ f' hf').eq hat heq]

theorem Yields.foldlM {α : Type} {w : α → Walk} {p : α → File → Prop} {l : List α}
    (h : ∀ a ∈ l, Yields t (w a) (p a)) :
    Yields t (fun seen => l.foldlM (fun seen a => w a seen) seen) fun f => ∃ a ∈ l, p a f := by
  induction l with
  | nil =>
    intro seen seen' hseen hok
    cases hok
    exact ⟨hseen, fun f => by simp⟩
  | cons a l ih =>
    intro seen seen' hseen hok
    simp only [List.foldlM_cons] at hok
    cases hfirst : w a seen with
    | error e =>
      rw [hfirst] at hok
      cases hok
    | ok mid =>
      rw [hfirst] at hok
      obtain ⟨hmid, hmem⟩ := h a List.mem_cons_self seen mid hseen hfirst
      obtain ⟨hlast, hmem'⟩ := ih (fun b hb => h b (List.mem_cons_of_mem _ hb)) mid seen' hmid hok
      refine ⟨hlast, fun f => ?_⟩
      simp only [hmem', hmem, List.exists_mem_cons_iff, or_assoc]

theorem keptDirectories_spec {dir : Path} {es kept : List Entry}
    (h : keptDirectories dir es = .ok kept) :
    kept = es.filter (fun e => ¬Excluded (dir ++ [e.name])) ∧
      ∀ e ∈ es, ∃ children, e.node = .dir children := by
  induction es generalizing kept with
  | nil =>
    cases h
    exact ⟨rfl, fun e he => absurd he List.not_mem_nil⟩
  | cons e es ih =>
    rw [keptDirectories] at h
    split at h
    · cases h
    · split at h
      · cases h
      · next children hnode =>
        cases hrest : keptDirectories dir es with
        | error fault =>
          rw [hrest] at h
          cases h
        | ok rest =>
          rw [hrest] at h
          obtain ⟨rfl, hdirs⟩ := ih hrest
          refine ⟨?_, List.forall_mem_cons.2 ⟨⟨children, hnode⟩, hdirs⟩⟩
          rw [← Except.ok.inj h]
          by_cases hexcluded : Excluded (dir ++ [e.name])
          · simp [hexcluded]
          · simp [hexcluded]
      · cases h

theorem yieldFiles_spec {dir : Path} {es : List Entry}
    (hat : ∀ e ∈ es, lstat t (dir ++ [e.name]) = some e.node) :
    Yields t (yieldFiles dir es) fun f => ∃ e ∈ es, ¬Excluded (dir ++ [e.name]) ∧
      e.node = .file f.executable f.content ∧ f.path = dir ++ [e.name] := by
  induction es with
  | nil =>
    intro seen seen' hseen hok
    cases hok
    exact ⟨hseen, fun f => by simp⟩
  | cons e es ih =>
    intro seen seen' hseen hok
    have ih := ih fun e' he' => hat e' (List.mem_cons_of_mem _ he')
    have hate := hat e List.mem_cons_self
    rw [yieldFiles] at hok
    split at hok
    · cases hok
    · next hplain =>
      split at hok
      · next hexcluded =>
        obtain ⟨hseen', hmem⟩ := ih seen seen' hseen hok
        refine ⟨hseen', fun f => ?_⟩
        simp only [hmem, List.exists_mem_cons_iff]
        exact or_congr_right (or_iff_right fun h => h.1 hexcluded).symm
      · next hkept =>
        split at hok
        · next executable content hnode =>
          -- the file of this name
          have hfile : ∀ f : File, (¬Excluded (dir ++ [e.name]) ∧
              e.node = .file f.executable f.content ∧ f.path = dir ++ [e.name]) ↔
              f = ⟨dir ++ [e.name], executable, content⟩ := by
            rintro ⟨path, executable', content'⟩
            refine ⟨?_, fun h => ?_⟩
            · rintro ⟨-, hn, rfl⟩
              cases hnode.symm.trans hn
              rfl
            · cases h
              exact ⟨hkept, hnode, rfl⟩
          have hatf : At t ⟨dir ++ [e.name], executable, content⟩ :=
            hate.trans (congrArg some hnode)
          split at hok
          · next hpath =>
            obtain ⟨hseen', hmem⟩ := ih seen seen' hseen hok
            refine ⟨hseen', fun f => ?_⟩
            have hold := hseen.mem hatf hpath
            simp only [hmem, List.exists_mem_cons_iff, hfile]
            refine ⟨fun h => h.imp_right Or.inr, ?_⟩
            rintro (h | rfl | h)
            · exact .inl h
            · exact .inl hold
            · exact .inr h
          · next hpath =>
            obtain ⟨hseen', hmem⟩ := ih _ seen' (hseen.append hatf hpath hplain) hok
            refine ⟨hseen', fun f => ?_⟩
            simp only [hmem, List.exists_mem_cons_iff, hfile, List.mem_append, List.mem_singleton,
              or_assoc]
        · cases hok

variable {cs : List (Str × Node)}

theorem mem_entries {dir : Path} {e : Entry} :
    e ∈ entries cs dir ↔ ∃ c ∈ cs, e = ⟨c.1, c.2, walk c.2 (dir ++ [c.1])⟩ := by
  induction cs with
  | nil => simp [entries]
  | cons c cs ih => rw [entries, List.mem_cons, ih, List.exists_mem_cons_iff]

theorem child?_eq_some (hnodup : (cs.map Prod.fst).Nodup) :
    child? name cs = some n ↔ (name, n) ∈ cs := by
  induction cs with
  | nil => simp [child?]
  | cons c cs ih =>
    obtain ⟨hnew, hnodup⟩ := List.nodup_cons.1 hnodup
    by_cases hname : c.1 = name
    · rw [child?, List.find?_cons_of_pos (by simpa using hname), Option.map_some, List.mem_cons]
      refine ⟨fun h => .inl (Prod.ext hname.symm (Option.some.inj h).symm), fun h => ?_⟩
      rcases h with rfl | h
      · rfl
      · exact absurd (List.mem_map_of_mem (f := Prod.fst) h) (hname ▸ hnew)
    · rw [child?, List.find?_cons_of_neg (by simpa using hname), ← child?, ih hnodup, List.mem_cons,
        or_iff_right]
      rintro rfl
      exact hname rfl

theorem mem_entries_of_child? (hnodup : (cs.map Prod.fst).Nodup) (h : child? name cs = some n)
    (dir : Path) : ⟨name, n, walk n (dir ++ [name])⟩ ∈ entries cs dir :=
  mem_entries.2 ⟨(name, n), (child?_eq_some hnodup).1 h, rfl⟩

theorem Contains.dir_of {dir : Path} (h : Contains n dir f) : ∃ children, n = .dir children := by
  cases h <;> exact ⟨_, rfl⟩

theorem wf_of_mem (h : WfAll cs) {c : Str × Node} (hc : c ∈ cs) : ValidName c.1 ∧ c.2.Wf := by
  induction cs with
  | nil => exact absurd hc List.not_mem_nil
  | cons c' cs ih =>
    obtain ⟨name, n⟩ := c'
    rw [WfAll] at h
    rcases List.mem_cons.1 hc with rfl | hc
    · exact ⟨h.1, h.2.1⟩
    · exact ih h.2.2 hc

theorem walk_spec (n : Node) {dir : Path} (hwf : n.Wf) (hn : lstat t dir = some n) :
    Yields t (walk n dir) (Contains n dir) := by
  match n with
  | .file _ _ | .link _ | .broken | .special =>
    intro seen seen' hseen hok
    rw [walk] at hok
    cases hok
    exact ⟨hseen, fun f => ⟨Or.inl, fun h => h.elim id fun h => nomatch h⟩⟩
  | .dir cs =>
    rw [Node.Wf] at hwf
    have hentry : ∀ e ∈ entries cs dir, child? e.name cs = some e.node ∧
        lstat t (dir ++ [e.name]) = some e.node := by
      intro e he
      obtain ⟨c, hc, rfl⟩ := mem_entries.1 he
      have hchild := (child?_eq_some hwf.1).2 hc
      exact ⟨hchild, (lstat_append hn).trans hchild⟩
    have ih : ∀ c ∈ cs, ∀ dir', lstat t dir' = some c.2 →
        Yields t (walk c.2 dir') (Contains c.2 dir') := fun c hc dir' hdir' =>
      walk_spec c.2 (wf_of_mem hwf.2 hc).2 hdir'
    have hwalk : ∀ e ∈ entries cs dir, Yields t e.walk (Contains e.node (dir ++ [e.name])) := by
      intro e he
      have hat := (hentry e he).2
      obtain ⟨c, hc, rfl⟩ := mem_entries.1 he
      exact ih c hc _ hat
    intro seen seen' hseen hok
    rw [walk, walkEntries] at hok
    generalize hsorted : (entries cs dir).insertionSort (fun e e' => e.name ≤ e'.name) = sorted
      at hok
    have hmem : ∀ e, e ∈ sorted ↔ e ∈ entries cs dir := fun e => by
      rw [← hsorted, (List.perm_insertionSort ..).mem_iff]
    split at hok
    · cases hok
    · next kept hkept =>
      obtain ⟨rfl, hdirs⟩ := keptDirectories_spec hkept
      cases hfiles : yieldFiles dir (sorted.filter fun e => !e.isDirectory) seen with
      | error e =>
        rw [hfiles] at hok
        cases hok
      | ok mid =>
        rw [hfiles] at hok
        obtain ⟨hmid, hfilesMem⟩ := yieldFiles_spec
          (fun e he => (hentry e ((hmem e).1 (List.mem_filter.1 he).1)).2) seen mid hseen hfiles
        obtain ⟨hlast, hdirsMem⟩ := Yields.foldlM (w := fun e : Entry => e.walk)
          (fun e he => hwalk e ((hmem e).1 (List.mem_filter.1 (List.mem_filter.1 he).1).1))
          mid seen' hmid hok
        refine ⟨hlast, fun f => ?_⟩
        rw [hdirsMem, hfilesMem, or_assoc]
        refine or_congr_right ⟨?_, fun h => ?_⟩
        · rintro (⟨e, he, hkept, hnode, hpath⟩ | ⟨e, he, hbelow⟩)
          · have hchild := (hentry e ((hmem e).1 (List.mem_filter.1 he).1)).1
            obtain ⟨path, executable, content⟩ := f
            cases hpath
            exact .file (hchild.trans (congrArg some hnode)) hkept
          · obtain ⟨he, hkept⟩ := List.mem_filter.1 he
            have hchild := (hentry e ((hmem e).1 (List.mem_filter.1 he).1)).1
            exact .dir hchild (of_decide_eq_true hkept) hbelow
        · cases h with
          | file hchild hkept =>
            have he := mem_entries_of_child? hwf.1 hchild dir
            exact .inl ⟨_, List.mem_filter.2 ⟨(hmem _).2 he, rfl⟩, hkept, rfl, rfl⟩
          | dir hchild hkept hbelow =>
            have he := mem_entries_of_child? hwf.1 hchild dir
            obtain ⟨cs', rfl⟩ := hbelow.dir_of
            exact .inr ⟨_, List.mem_filter.2 ⟨List.mem_filter.2 ⟨(hmem _).2 he, rfl⟩,
              decide_eq_true hkept⟩, hbelow⟩
termination_by sizeOf n
decreasing_by
  have := List.sizeOf_lt_of_mem hc
  obtain ⟨a, b⟩ := c
  simp at this ⊢
  omega

theorem wf_follow (h : n.Wf) : n.follow.Wf := by
  induction n using Node.follow.induct with
  | case1 target ih => exact ih h
  | case2 _ _ => exact h
  | case3 _ => exact h
  | case4 => exact h
  | case5 => exact h

theorem wf_lstat {path : Path} (hwf : t.Wf) (h : lstat t path = some n) :
    n.Wf ∧ ∀ name ∈ path, ValidName name := by
  induction path generalizing t with
  | nil => exact ⟨Option.some.inj h ▸ hwf, fun name hname => absurd hname List.not_mem_nil⟩
  | cons name path ih =>
    rw [lstat] at h
    split at h
    · next cs hcs =>
      obtain ⟨m, hm, hpath⟩ := Option.bind_eq_some_iff.1 h
      have hwf' := wf_follow hwf
      rw [hcs, Node.Wf] at hwf'
      obtain ⟨hname, hmwf⟩ := wf_of_mem hwf'.2 ((child?_eq_some hwf'.1).1 hm)
      obtain ⟨hn, hvalid⟩ := ih hmwf hpath
      exact ⟨hn, List.forall_mem_cons.2 ⟨hname, hvalid⟩⟩
    · cases h

theorem walkRoot_spec (source : Source) (raw : Str) :
    Yields (.dir source.children) (walkRoot source raw) fun f => ∃ root n,
      relativePath raw (str "source.roots") = .ok root ∧
        lstat (.dir source.children) root = some n ∧ RootContains n root f := by
  intro seen seen' hseen hok
  rw [walkRoot] at hok
  split at hok
  · cases hok
  · next root hroot =>
    -- the root and what it stands for are determined
    have hiff : ∀ {n : Node} {f : File}, lstat (.dir source.children) root = some n →
        ((∃ root' n', relativePath raw (str "source.roots") = .ok root' ∧
          lstat (.dir source.children) root' = some n' ∧ RootContains n' root' f) ↔
        RootContains n root f) := by
      intro n f hn
      refine ⟨?_, fun h => ⟨root, n, hroot, hn, h⟩⟩
      rintro ⟨root', n', hroot', hn', h⟩
      cases hroot.symm.trans hroot'
      cases hn.symm.trans hn'
      exact h
    split at hok
    · cases hok
    · cases hok
    · cases hok
    · next executable content hn =>
      have hfile : ∀ f : File, RootContains (.file executable content) root f ↔
          f = ⟨root, executable, content⟩ ∧ ¬Excluded root := by
        rintro ⟨path, executable', content'⟩
        refine ⟨?_, ?_⟩
        · rintro (⟨hnode, rfl, hkept⟩ | h)
          · cases hnode
            exact ⟨rfl, hkept⟩
          · obtain ⟨cs, hcs⟩ := h.dir_of
            cases hcs
        · rintro ⟨hf, hkept⟩
          cases hf
          exact .inl ⟨rfl, rfl, hkept⟩
      have hat : At (.dir source.children) ⟨root, executable, content⟩ := hn
      split at hok
      · next hnew =>
        split at hok
        · cases hok
        · next hplain =>
          cases hok
          refine ⟨hseen.append hat hnew.1 hplain, fun f => ?_⟩
          simp only [hiff hn, hfile, List.mem_append, List.mem_singleton, hnew.2, not_false_eq_true,
            and_true]
      · next hold =>
        cases hok
        refine ⟨hseen, fun f => ?_⟩
        simp only [hiff hn, hfile]
        refine ⟨Or.inl, ?_⟩
        rintro (h | ⟨rfl, hkept⟩)
        · exact h
        · exact hseen.mem hat (not_not.1 fun hnew => hold ⟨hnew, hkept⟩)
    · cases hok
    · next children hn =>
      obtain ⟨hseen', hmem⟩ := walk_spec _ (wf_lstat source.wf hn).1 hn seen seen' hseen hok
      refine ⟨hseen', fun f => ?_⟩
      simp only [hiff hn, hmem]
      refine or_congr_right ⟨Or.inr, ?_⟩
      rintro (⟨hnode, -⟩ | h)
      · cases hnode
      · exact h

/-- The walk yields the files of the release, once each. -/
theorem iterSourcePaths_spec {source : Source} {roots : List Str} {seen : List File}
    (h : iterSourcePaths source roots = .ok seen) :
    Seen (.dir source.children) seen ∧ ∀ f, f ∈ seen ↔ Included source roots f := by
  rw [iterSourcePaths] at h
  cases hwalk : (roots.insertionSort fun r r' => r ≤ r').foldlM
      (fun seen raw => walkRoot source raw seen) [] with
  | error e =>
    rw [hwalk] at h
    cases h
  | ok all =>
    rw [hwalk] at h
    have hall : all = seen := by
      change (if all = [] then _ else _) = _ at h
      split at h
      · cases h
      · exact Except.ok.inj h
    obtain rfl := hall
    have hnil : Seen (.dir source.children) [] :=
      ⟨fun f hf => absurd hf List.not_mem_nil, List.nodup_nil,
        fun f hf => absurd hf List.not_mem_nil⟩
    obtain ⟨hseen, hmem⟩ := Yields.foldlM (fun raw _ => walkRoot_spec source raw) [] all hnil hwalk
    refine ⟨hseen, fun f => ?_⟩
    rw [hmem, or_iff_right List.not_mem_nil]
    refine exists_congr fun raw => and_congr_left fun _ => ?_
    rw [(List.perm_insertionSort ..).mem_iff]

/-! ## The text that is hashed -/

variable {c : ℕ}

theorem char?_eq_some {ch : Char} (h : char? c = some ch) : ch.toNat = c := by
  rw [char?] at h
  split at h
  · next hvalid =>
    obtain rfl := Option.some.inj h
    rfl
  · cases h

theorem map_toNat_of_mapM {cs : List Char} (h : s.mapM char? = some cs) :
    cs.map Char.toNat = s := by
  induction s generalizing cs with
  | nil =>
    cases h
    rfl
  | cons c s ih =>
    rw [List.mapM_cons] at h
    obtain ⟨ch, hch, h⟩ := Option.bind_eq_some_iff.1 h
    obtain ⟨cs', hcs', h⟩ := Option.bind_eq_some_iff.1 h
    obtain rfl := Option.some.inj h
    rw [List.map_cons, char?_eq_some hch, ih hcs']

theorem encode_inj {s' : Str} {b : List UInt8} (h : encode s = .ok b) (h' : encode s' = .ok b) :
    s = s' := by
  rw [encode] at h h'
  split at h
  · cases h
  · next cs hcs =>
    split at h'
    · cases h'
    · next cs' hcs' =>
      have hbytes := (Except.ok.inj h).trans (Except.ok.inj h').symm
      have hdecode : ∀ l : List Char,
          (l.flatMap String.utf8EncodeChar).toByteArray.utf8Decode? = some l.toArray :=
        fun _ => List.utf8Decode?_utf8Encode
      have harrays := hdecode cs
      rw [hbytes, hdecode cs'] at harrays
      have hlists : cs' = cs := by
        simpa using Option.some.inj harrays
      rw [← map_toNat_of_mapM hcs, ← map_toNat_of_mapM hcs', hlists]

theorem not_mem_digits {base n : ℕ} (hbase : 0 < base) (hle : base ≤ 10) (hc : c < 48) :
    c ∉ digits base n := by
  intro hmem
  obtain ⟨ch, hch, rfl⟩ := List.mem_map.1 hmem
  have hdigit := Nat.isDigit_of_mem_toDigits hbase hle hch
  rw [Char.isDigit, Bool.and_eq_true, decide_eq_true_eq] at hdigit
  have hle : 48 ≤ ch.toNat := hdigit.1
  omega

theorem asPosix_inj {path path' : Path} (hne : path ≠ []) (hne' : path' ≠ [])
    (h : ∀ name ∈ path, ValidName name) (h' : ∀ name ∈ path', ValidName name)
    (heq : asPosix path = asPosix path') : path = path' :=
  Separated.intercalate_inj hne hne' (fun name hname => (h name hname).2.1)
    (fun name hname => (h' name hname).2.1) heq

theorem not_mem_of_plain (h : ¬Control s) (hc : c < 32) : c ∉ s :=
  fun hmem => h ⟨c, hmem, .inl hc⟩

theorem At.path {source : Source} (h : At (.dir source.children) f) :
    f.path ≠ [] ∧ ∀ name ∈ f.path, ValidName name := by
  refine ⟨fun hnil => ?_, (wf_lstat source.wf h).2⟩
  rw [At, hnil, lstat] at h
  cases h

section Digest

variable {sha256 : List UInt8 → Str} {source source' : Source} {seen seen' : List File}

def Readable (f : File) : Prop :=
  f.content.length ≤ maxSourceFileBytes ∧
    ¬(asPosix f.path ∈ sourceInstallerEntrypoints ∧ f.executable = false)

theorem digestFiles_eq_ok {fs : List File} {total : ℕ} {ds : List Digested}
    (htotal : total ≤ maxSourceTreeBytes) : digestFiles sha256 fs total = .ok ds ↔
      (∀ f ∈ fs, Readable f) ∧
        total + (fs.flatMap File.content).length ≤ maxSourceTreeBytes ∧
        ds = fs.map (File.digested sha256) := by
  induction fs generalizing total ds with
  | nil =>
    refine ⟨fun h => ?_, fun h => ?_⟩
    · cases h
      exact ⟨fun f hf => absurd hf List.not_mem_nil, htotal, rfl⟩
    · rw [h.2.2]
      rfl
  | cons f fs ih =>
    rw [digestFiles, List.forall_mem_cons, List.flatMap_cons, List.length_append, List.map_cons]
    split_ifs with hsize hinstaller hsum
    · refine ⟨fun h => ?_, fun h => absurd h.1.1.1 (not_le.2 hsize)⟩
      cases h
    · refine ⟨fun h => ?_, fun h => absurd hinstaller h.1.1.2⟩
      cases h
    · refine ⟨fun h => ?_, fun h => absurd h.2.1 (by omega)⟩
      cases h
    · have hfile : Readable f := ⟨not_lt.1 hsize, hinstaller⟩
      rw [← Nat.add_assoc]
      cases hrest : digestFiles sha256 fs (total + f.content.length) with
      | error fault =>
        refine ⟨fun h => ?_, fun h => ?_⟩
        · cases h
        · have hok := (ih (not_lt.1 hsum)).2 ⟨h.1.2, h.2.1, rfl⟩
          cases hrest.symm.trans hok
      | ok rest =>
        obtain ⟨hreadable, hbound, rfl⟩ := (ih (not_lt.1 hsum)).1 hrest
        refine ⟨fun h => ?_, fun h => ?_⟩
        · cases h
          exact ⟨⟨hfile, hreadable⟩, hbound, rfl⟩
        · rw [h.2.2]
          rfl

theorem line_inj (hinjective : Function.Injective sha256) {f f' : File}
    (hf : At (.dir source.children) f) (hf' : At (.dir source'.children) f')
    (hplain : ¬Control (asPosix f.path)) (hplain' : ¬Control (asPosix f'.path))
    (h : (f.digested sha256).line = (f'.digested sha256).line) : f = f' := by
  have hpath := fun {f : File} (h : ¬Control (asPosix f.path)) =>
    not_mem_of_plain h (show 0 < 32 by decide)
  have hdigits := fun base n (hbase : 0 < base) (hle : base ≤ 10) =>
    not_mem_digits (n := n) hbase hle (show 0 < 48 by decide)
  rw [Digested.line, Digested.line] at h
  obtain ⟨hposix, h⟩ := Separated.append_cons_inj (hpath hplain) (hpath hplain') h
  obtain ⟨hmode, h⟩ := Separated.append_cons_inj (hdigits 8 _ (by decide) (by decide))
    (hdigits 8 _ (by decide) (by decide)) h
  obtain ⟨-, hdigest⟩ := Separated.append_cons_inj (hdigits 10 _ (by decide) (by decide))
    (hdigits 10 _ (by decide) (by decide)) h
  obtain ⟨path, executable, content⟩ := f
  obtain ⟨path', executable', content'⟩ := f'
  obtain rfl : content = content' := hinjective hdigest
  obtain rfl : path = path' :=
    asPosix_inj hf.path.1 hf'.path.1 hf.path.2 hf'.path.2 hposix
  have hexecutable : executable = executable' := by
    have hmodes : ∀ x x' : Bool,
        digits 8 (normalizedFileMode x) = digits 8 (normalizedFileMode x') → x = x' := by decide
    exact hmodes _ _ hmode
  rw [hexecutable]

def treeText (sha256 : List UInt8 → Str) (seen : List File) : Str :=
  ((seen.map (File.digested sha256)).insertionSort fun d d' =>
    asPosix d.relative ≤ asPosix d'.relative).flatMap fun d => d.line ++ [10]

theorem sourceTreeDigest_eq_ok {roots : List Str} {d : Str}
    (h : iterSourcePaths source roots = .ok seen) : sourceTreeDigest sha256 source roots = .ok d ↔
      (∀ f ∈ seen, Readable f) ∧
        (seen.flatMap File.content).length ≤ maxSourceTreeBytes ∧
        ∃ bytes, encode (treeText sha256 seen) = .ok bytes ∧ d = sha256 bytes := by
  have hdigest : sourceTreeDigest sha256 source roots =
      (digestFiles sha256 seen 0 >>= fun ds => canonicalTreeHash sha256 ds) := by
    rw [sourceTreeDigest, h]
  rw [hdigest]
  cases hfiles : digestFiles sha256 seen 0 with
  | error fault =>
    refine ⟨fun h => ?_, fun h => ?_⟩
    · cases h
    · have hok : digestFiles sha256 seen 0 = .ok (seen.map (File.digested sha256)) :=
        (digestFiles_eq_ok (Nat.zero_le _)).2 ⟨h.1, by rw [Nat.zero_add]; exact h.2.1, rfl⟩
      cases hfiles.symm.trans hok
  | ok ds =>
    obtain ⟨hreadable, hbound, rfl⟩ := (digestFiles_eq_ok (Nat.zero_le _)).1 hfiles
    rw [Nat.zero_add] at hbound
    change canonicalTreeHash sha256 (seen.map (File.digested sha256)) = _ ↔ _
    rw [canonicalTreeHash, ← treeText]
    cases encode (treeText sha256 seen) with
    | error fault =>
      refine ⟨fun h => ?_, fun h => ?_⟩
      · cases h
      · obtain ⟨-, -, _, hbytes, -⟩ := h
        cases hbytes
    | ok bytes =>
      refine ⟨fun h => ⟨hreadable, hbound, bytes, rfl, (Except.ok.inj h).symm⟩, ?_⟩
      rintro ⟨-, -, _, hbytes, rfl⟩
      cases hbytes
      rfl

theorem Seen.perm {t t' : Node} (h : Seen t seen) (h' : Seen t' seen')
    (hmem : ∀ f, f ∈ seen ↔ f ∈ seen') : seen.Perm seen' :=
  (List.perm_ext_iff_of_nodup h.nodup.of_map h'.nodup.of_map).2 hmem

theorem treeText_congr (h : Seen (.dir source.children) seen)
    (hperm : seen.Perm seen') : treeText sha256 seen = treeText sha256 seen' := by
  have hsorted : ∀ l : List Digested,
      (l.insertionSort fun d d' => asPosix d.relative ≤ asPosix d'.relative).Pairwise
        fun d d' => asPosix d.relative ≤ asPosix d'.relative := fun l =>
    List.pairwise_insertionSort (fun d d' => asPosix d.relative ≤ asPosix d'.relative) l
  have hds := hperm.map (File.digested sha256)
  rw [treeText, treeText, List.Perm.eq_of_pairwise ?_ (hsorted _) (hsorted _)
    ((List.perm_insertionSort ..).trans (hds.trans (List.perm_insertionSort ..).symm))]
  intro d d' hd hd' hle hle'
  rw [List.mem_insertionSort] at hd hd'
  obtain ⟨f, hf, rfl⟩ := List.mem_map.1 hd
  obtain ⟨f', hf', rfl⟩ := List.mem_map.1 (hds.mem_iff.2 hd')
  have hat := h.at_ f hf
  have hat' := h.at_ f' hf'
  have hpath := asPosix_inj hat.path.1 hat'.path.1 hat.path.2 hat'.path.2 (le_antisymm hle hle')
  rw [hat.eq hat' hpath]

theorem mem_of_treeText (hinjective : Function.Injective sha256) (hline : ∀ b, 10 ∉ sha256 b)
    (h : Seen (.dir source.children) seen) (h' : Seen (.dir source'.children) seen')
    (heq : treeText sha256 seen = treeText sha256 seen') {f : File} (hf : f ∈ seen) :
    f ∈ seen' := by
  have hplain : ∀ {t : Node} {l : List File}, Seen t l →
      ∀ x ∈ ((l.map (File.digested sha256)).insertionSort
        fun d d' => asPosix d.relative ≤ asPosix d'.relative).map Digested.line, 10 ∉ x := by
    intro t l hl x hx
    obtain ⟨d, hd, rfl⟩ := List.mem_map.1 hx
    rw [List.mem_insertionSort] at hd
    obtain ⟨f, hf, rfl⟩ := List.mem_map.1 hd
    have hdigits := fun base n (hbase : 0 < base) (hle : base ≤ 10) =>
      not_mem_digits (n := n) hbase hle (show 10 < 48 by decide)
    have hposix := not_mem_of_plain (hl.plain f hf) (show 10 < 32 by decide)
    rw [Digested.line]
    simp only [List.mem_append, List.mem_cons, not_or]
    exact ⟨hposix, by decide, hdigits 8 _ (by decide) (by decide), by decide,
      hdigits 10 _ (by decide) (by decide), by decide, hline _⟩
  have hlines := Separated.terminated_inj (hplain h) (hplain h')
    (by rw [List.flatMap_map, List.flatMap_map]; exact heq)
  have hmem : (f.digested sha256).line ∈ ((seen.map (File.digested sha256)).insertionSort
      fun d d' => asPosix d.relative ≤ asPosix d'.relative).map Digested.line :=
    List.mem_map_of_mem ((List.mem_insertionSort _).2 (List.mem_map_of_mem hf))
  rw [hlines] at hmem
  obtain ⟨d, hd, hdline⟩ := List.mem_map.1 hmem
  rw [List.mem_insertionSort] at hd
  obtain ⟨f', hf', rfl⟩ := List.mem_map.1 hd
  rwa [line_inj hinjective (h.at_ f hf) (h'.at_ f' hf') (h.plain f hf) (h'.plain f' hf')
    hdline.symm]

end Digest

/-! ## The order of the listings -/

mutual
def Node.listed : Node → Node
  | .file executable content => .file executable content
  | .dir children => .dir ((listedAll children).insertionSort fun c c' => c.1 ≤ c'.1)
  | .link target => .link target.listed
  | .broken => .broken
  | .special => .special

def listedAll : List (Str × Node) → List (Str × Node)
  | [] => []
  | (name, n) :: rest => (name, n.listed) :: listedAll rest
end

/-- The same directory, listed in some other order. -/
def Source.Same (source source' : Source) : Prop :=
  (Node.dir source.children).listed = (Node.dir source'.children).listed

theorem listedAll_eq (cs : List (Str × Node)) :
    listedAll cs = cs.map fun c => (c.1, c.2.listed) := by
  induction cs with
  | nil => rfl
  | cons c cs ih => rw [listedAll, ih, List.map_cons]

theorem child?_listed (hnodup : (cs.map Prod.fst).Nodup) (name : Str) :
    child? name ((listedAll cs).insertionSort fun c c' => c.1 ≤ c'.1) =
      (child? name cs).map Node.listed := by
  have hperm := List.perm_insertionSort (fun c c' : Str × Node => c.1 ≤ c'.1) (listedAll cs)
  have hnames : (((listedAll cs).insertionSort fun c c' => c.1 ≤ c'.1).map Prod.fst).Nodup := by
    rw [(hperm.map Prod.fst).nodup_iff, listedAll_eq, List.map_map]
    exact hnodup
  ext n
  rw [child?_eq_some hnames, hperm.mem_iff, listedAll_eq, List.mem_map, Option.map_eq_some_iff]
  refine ⟨?_, ?_⟩
  · rintro ⟨c, hc, heq⟩
    cases heq
    exact ⟨c.2, (child?_eq_some hnodup).2 hc, rfl⟩
  · rintro ⟨m, hm, rfl⟩
    exact ⟨(name, m), (child?_eq_some hnodup).1 hm, rfl⟩

theorem follow_listed (n : Node) : n.listed.follow = n.follow.listed := by
  induction n using Node.follow.induct with
  | case1 target ih => exact ih
  | case2 _ _ => rfl
  | case3 _ => rfl
  | case4 => rfl
  | case5 => rfl

theorem wf_child? (h : (Node.dir cs).Wf) (hn : child? name cs = some n) : n.Wf := by
  rw [Node.Wf] at h
  exact (wf_of_mem h.2 ((child?_eq_some h.1).1 hn)).2

theorem lstat_listed (hwf : t.Wf) (path : Path) :
    lstat t.listed path = (lstat t path).map Node.listed := by
  induction path generalizing t with
  | nil => rfl
  | cons name path ih =>
    have hfollow := wf_follow hwf
    rw [lstat, lstat, follow_listed]
    cases hnode : t.follow with
    | dir cs =>
      rw [hnode] at hfollow
      have hnodup := hfollow
      rw [Node.Wf] at hnodup
      simp only [Node.listed, child?_listed hnodup.1]
      cases hchild : child? name cs with
      | none => rfl
      | some n => exact ih (wf_child? hfollow hchild)
    | file _ _ | link _ | broken | special => rfl

theorem Contains.listed {dir : Path} (h : Contains n dir f) (hwf : n.Wf) :
    Contains n.listed dir f := by
  induction h with
  | file hchild hkept =>
    rw [Node.Wf] at hwf
    exact .file (by rw [child?_listed hwf.1, hchild]; rfl) hkept
  | dir hchild hkept _ ih =>
    have ih := ih (wf_child? hwf hchild)
    rw [Node.Wf] at hwf
    exact .dir (by rw [child?_listed hwf.1, hchild]; rfl) hkept ih

theorem listed_eq_file {executable : Bool} {content : List UInt8} :
    n.listed = .file executable content ↔ n = .file executable content := by
  cases n <;> simp [Node.listed]

theorem Contains.of_listed {m : Node} {dir : Path} (h : Contains m dir f) (hm : m = n.listed)
    (hwf : n.Wf) : Contains n dir f := by
  induction h generalizing n with
  | file hchild hkept =>
    cases n with
    | dir cs =>
      cases hm
      have hnodup := hwf
      rw [Node.Wf] at hnodup
      rw [child?_listed hnodup.1] at hchild
      obtain ⟨k, hk, hfile⟩ := Option.map_eq_some_iff.1 hchild
      obtain rfl := listed_eq_file.1 hfile
      exact .file hk hkept
    | file _ _ | link _ | broken | special => cases hm
  | dir hchild hkept _ ih =>
    cases n with
    | dir cs =>
      cases hm
      have hnodup := hwf
      rw [Node.Wf] at hnodup
      rw [child?_listed hnodup.1] at hchild
      obtain ⟨k, hk, rfl⟩ := Option.map_eq_some_iff.1 hchild
      exact .dir hk hkept (ih rfl (wf_child? hwf hk))
    | file _ _ | link _ | broken | special => cases hm

theorem rootContains_listed (hwf : n.Wf) {root : Path} :
    RootContains n.listed root f ↔ RootContains n root f :=
  or_congr (and_congr_left fun _ => listed_eq_file)
    ⟨fun h => h.of_listed rfl hwf, fun h => h.listed hwf⟩

theorem included_iff (source : Source) (roots : List Str) (f : File) : Included source roots f ↔
    ∃ raw ∈ roots, ∃ root n, relativePath raw (str "source.roots") = .ok root ∧
      lstat (Node.dir source.children).listed root = some n ∧ RootContains n root f := by
  refine exists_congr fun raw => and_congr_right fun _ => exists_congr fun root => ?_
  refine ⟨?_, ?_⟩
  · rintro ⟨n, hroot, hn, h⟩
    refine ⟨n.listed, hroot, ?_, (rootContains_listed (wf_lstat source.wf hn).1).2 h⟩
    rw [lstat_listed source.wf, hn, Option.map_some]
  · rintro ⟨m, hroot, hm, h⟩
    rw [lstat_listed source.wf] at hm
    obtain ⟨n, hn, rfl⟩ := Option.map_eq_some_iff.1 hm
    exact ⟨n, hroot, hn, (rootContains_listed (wf_lstat source.wf hn).1).1 h⟩

theorem Source.Same.included {source source' : Source} (h : source.Same source')
    {roots roots' : List Str} (hroots : ∀ raw, raw ∈ roots ↔ raw ∈ roots') (f : File) :
    Included source roots f ↔ Included source' roots' f := by
  rw [included_iff, included_iff, h]
  exact exists_congr fun raw => and_congr_left fun _ => hroots raw

/-! ## The digest -/

section Identifies

variable {sha256 : List UInt8 → Str}

/-- Two releases that are walked have the same digest if and only if they have the same files. It
does not depend on the order of the listings, nor on the order of the roots. -/
theorem tree_digest_identifies (hinjective : Function.Injective sha256)
    (hline : ∀ b, 10 ∉ sha256 b) {source source' : Source} {roots roots' : List Str}
    {seen seen' : List File} (h : iterSourcePaths source roots = .ok seen)
    (h' : iterSourcePaths source' roots' = .ok seen') {d : Str}
    (hd : sourceTreeDigest sha256 source roots = .ok d) :
    (sourceTreeDigest sha256 source' roots' = .ok d ↔
      ∀ f, Included source roots f ↔ Included source' roots' f) ∧
    (source.Same source' → (∀ raw, raw ∈ roots ↔ raw ∈ roots') →
      sourceTreeDigest sha256 source' roots' = .ok d) := by
  obtain ⟨hseen, hmem⟩ := iterSourcePaths_spec h
  obtain ⟨hseen', hmem'⟩ := iterSourcePaths_spec h'
  obtain ⟨hreadable, hbound, bytes, hbytes, rfl⟩ := (sourceTreeDigest_eq_ok h).1 hd
  have hiff : sourceTreeDigest sha256 source' roots' = .ok (sha256 bytes) ↔
      ∀ f, Included source roots f ↔ Included source' roots' f := by
    rw [sourceTreeDigest_eq_ok h']
    refine ⟨?_, fun hsame => ?_⟩
    · rintro ⟨-, -, bytes', hbytes', heq⟩ f
      obtain rfl := hinjective heq
      have htext := encode_inj hbytes hbytes'
      rw [← hmem, ← hmem']
      exact ⟨mem_of_treeText hinjective hline hseen hseen' htext,
        mem_of_treeText hinjective hline hseen' hseen htext.symm⟩
    · have hperm := hseen.perm hseen' fun f => by rw [hmem, hmem', hsame]
      refine ⟨fun f hf => hreadable f (hperm.mem_iff.2 hf), ?_, bytes, ?_, rfl⟩
      · rwa [← (hperm.flatMap_right File.content).length_eq]
      · rwa [← treeText_congr hseen hperm]
  exact ⟨hiff, fun hsame hroots => hiff.2 (hsame.included hroots)⟩

end Identifies

namespace Relisted

def hexDigest (bytes : List UInt8) : Str :=
  let digit (n : ℕ) : ℕ := if n < 10 then 48 + n else 87 + n
  bytes.flatMap fun byte => [digit (byte.toNat / 16), digit (byte.toNat % 16)]

theorem hexDigest_injective : Function.Injective hexDigest := by
  intro b b' h
  induction b generalizing b' with
  | nil =>
    cases b' with
    | nil => rfl
    | cons byte' b' => cases h
  | cons byte b ih =>
    cases b' with
    | nil => cases h
    | cons byte' b' =>
      obtain ⟨hhigh, h⟩ := List.cons.inj h
      obtain ⟨hlow, h⟩ := List.cons.inj h
      have hlt := byte.toNat_lt
      have hlt' := byte'.toNat_lt
      have hbyte : byte.toNat = byte'.toNat := by
        simp only at hhigh hlow
        split_ifs at hhigh hlow <;> omega
      rw [UInt8.toNat_inj.1 hbyte, ih h]

theorem not_mem_hexDigest (bytes : List UInt8) : 10 ∉ hexDigest bytes := by
  intro h
  obtain ⟨byte, -, hmem⟩ := List.mem_flatMap.1 h
  simp only [List.mem_cons, List.not_mem_nil, or_false] at hmem
  rcases hmem with hmem | hmem <;> split_ifs at hmem <;> omega

def source : Source where
  children := [(str "run.sh", .file true [1, 2]),
    (str "lib", .dir [(str "a.pyc", .file false []), (str "a.py", .file false [3])])]
  wf := by
    simp only [Node.Wf, WfAll, ValidName]
    decide

def source' : Source where
  children := [(str "lib", .dir [(str "a.py", .file false [3]), (str "a.pyc", .file false [])]),
    (str "run.sh", .file true [1, 2])]
  wf := by
    simp only [Node.Wf, WfAll, ValidName]
    decide

def files : List File :=
  [⟨[str "lib", str "a.py"], false, [3]⟩, ⟨[str "run.sh"], true, [1, 2]⟩]

theorem same : source.Same source' := by
  rfl

theorem iter : iterSourcePaths source [str "run.sh", str "lib"] = .ok files := by
  rfl

theorem iter' : iterSourcePaths source' [str "lib", str "run.sh", str "run.sh"] = .ok files := by
  rfl

/-- The digest of both. -/
theorem tree_digest_identifies_relisted : ∃ d,
    sourceTreeDigest hexDigest source [str "run.sh", str "lib"] = .ok d ∧
      sourceTreeDigest hexDigest source' [str "lib", str "run.sh", str "run.sh"] = .ok d := by
  obtain ⟨d, hd⟩ : ∃ d, sourceTreeDigest hexDigest source [str "run.sh", str "lib"] = .ok d := by
    exact ⟨_, rfl⟩
  refine ⟨d, hd, ?_⟩
  exact (tree_digest_identifies hexDigest_injective not_mem_hexDigest iter iter' hd).2 same
    fun raw => by simp only [List.mem_cons, List.not_mem_nil, or_false, or_self]; exact or_comm

end Relisted

end OpsSourceTree
