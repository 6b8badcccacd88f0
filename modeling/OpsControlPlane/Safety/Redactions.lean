import OpsControlPlane.Release.Configs
import OpsControlPlane.Lib.Calls

/-!
# When configuration diffs hide secrets

Texts are the same but for their secrets when their lines are (`Alike`). `redactConfig` goes through
the parts of each line, for `splitlines` splits the lines further (`splitlines_eq_flatMap`). It
hides what it should as long as the lines which begin a private key, and those with a secret, are
one part each (`redactFrom_alike`). Then the diffs are the same (`diff_hides_secrets`).
-/

namespace OpsConfigs

open Lines

variable {b inside : Bool} {l l' : Line} {ls ls' : List Line}

/-! ## What texts may differ in -/

/-- Lines that are the same but for what follows the separator of a secret, and for the lines inside
private keys. The first argument says whether a private key has begun. -/
inductive Alike : Bool → List Line → List Line → Prop
  | nil {b : Bool} : Alike b [] []
  | begins {b : Bool} {l : Line} {ls ls' : List Line} (hl : Begins l) (h : Alike true ls ls') :
    Alike b (l :: ls) (l :: ls')
  | secret {key value value' suffix : Text} {separator : Char} {ls ls' : List Line}
    (hkey : ∀ c ∈ key, InKey c) (hseparator : ¬InKey separator) (hname : SecretName key)
    (hvalue : '\n' ∉ value) (hvalue' : '\n' ∉ value') (hsuffix : suffix = [] ∨ suffix = ['\n'])
    (hl : ¬Begins (key ++ separator :: (value ++ suffix)) ∧
      ¬Ends (key ++ separator :: (value ++ suffix)))
    (hl' : ¬Begins (key ++ separator :: (value' ++ suffix)) ∧
      ¬Ends (key ++ separator :: (value' ++ suffix)))
    (h : Alike false ls ls') :
    Alike false ((key ++ separator :: (value ++ suffix)) :: ls)
      ((key ++ separator :: (value' ++ suffix)) :: ls')
  | plain {l : Line} {ls ls' : List Line} (hl : ¬Begins l) (h : Alike false ls ls') :
    Alike false (l :: ls) (l :: ls')
  | ends {l : Line} {ls ls' : List Line} (hl : ¬Begins l) (hends : Ends l)
    (h : Alike false ls ls') : Alike true (l :: ls) (l :: ls')
  | inner {l l' : Line} {ls ls' : List Line} (hl : ¬Begins l ∧ ¬Ends l)
    (hl' : ¬Begins l' ∧ ¬Ends l') (h : Alike true ls ls') : Alike true (l :: ls) (l' :: ls')

def Whole (l : Line) : Prop :=
  splitlines l = [l]

instance (l : Line) : Decidable (Whole l) := by
  unfold Whole
  infer_instance

/-- The part before the separator is the name of a secret. -/
def Secret (l : Line) : Prop :=
  separatorOf l ≠ none ∧ SecretName (keyOf l)

instance (l : Line) : Decidable (Secret l) := by
  unfold Secret
  infer_instance

/-- The lines that begin a private key, and those with a secret, are one part each. -/
def Unbroken : Bool → List Line → Prop
  | _, [] => True
  | inside, l :: ls =>
    if Begins l then Whole l ∧ Unbroken true ls
    else if inside then Unbroken (!decide (Ends l)) ls
    else (Secret l → Whole l) ∧ Unbroken false ls

instance decidableUnbroken : (inside : Bool) → (ls : List Line) → Decidable (Unbroken inside ls)
  | _, [] => inferInstanceAs (Decidable True)
  | inside, l :: ls =>
    have := decidableUnbroken true ls
    have := decidableUnbroken (!decide (Ends l)) ls
    have := decidableUnbroken false ls
    inferInstanceAs (Decidable (if Begins l then Whole l ∧ Unbroken true ls
      else if inside then Unbroken (!decide (Ends l)) ls
      else (Secret l → Whole l) ∧ Unbroken false ls))

/-! ## The parts of a line -/

@[simp] theorem append_text (r s : Redacted) : (r.append s).text = r.text ++ s.text :=
  rfl

theorem redactFrom_append (inside : Bool) (ls ls' : List Line) :
    redactFrom inside (ls ++ ls') = (redactFrom inside ls).append
      (redactFrom (redactFrom inside ls).insidePrivateKey ls') := by
  induction ls generalizing inside with
  | nil => simp [redactFrom, Redacted.append]
  | cons l ls ih =>
    rw [List.cons_append, redactFrom, ih]
    simp [redactFrom, Redacted.append, Nat.add_assoc]

theorem redactFrom_singleton (inside : Bool) (l : Line) :
    redactFrom inside [l] = redactLine inside l := by
  simp [redactFrom, Redacted.append]

theorem Begins.mono (h : l <:+: l') (hl : Begins l) : Begins l' :=
  ⟨hl.1.trans h, hl.2.trans h⟩

theorem Ends.mono (h : l <:+: l') (hl : Ends l) : Ends l' :=
  ⟨hl.1.trans h, hl.2.trans h⟩

theorem redactFrom_inner (h : ∀ l ∈ ls, ¬Begins l ∧ ¬Ends l) :
    (redactFrom true ls).text = [] ∧ (redactFrom true ls).insidePrivateKey = true := by
  induction ls with
  | nil => exact ⟨rfl, rfl⟩
  | cons l ls ih =>
    obtain ⟨hl, hls⟩ := List.forall_mem_cons.1 h
    have hline : redactLine true l = ⟨[], 1, true⟩ := by
      rw [redactLine, if_neg hl.1, if_pos rfl, decide_eq_false hl.2]
      rfl
    rw [redactFrom, hline]
    exact ih hls

/-! ## The line of a secret -/

section secret

variable {key value suffix : Text} {separator : Char}

theorem rdropWhile_append_cons {p : Char → Bool} {c : Char} (hc : p c = false) (s t : Text) :
    (s ++ c :: t).rdropWhile p = s ++ c :: t.rdropWhile p := by
  have hcons : (c :: s.reverse).dropWhile p = c :: s.reverse := by
    rw [List.dropWhile_cons, if_neg (by rw [hc]; exact Bool.false_ne_true)]
  have hreverse : (s ++ c :: t).reverse = t.reverse ++ c :: s.reverse := by simp
  rw [List.rdropWhile, hreverse, List.dropWhile_append, hcons, List.rdropWhile]
  split
  · next hempty =>
    rw [List.isEmpty_iff.1 hempty]
    simp
  · simp

theorem not_feed_of_not_inKey (h : ¬InKey separator) : separator = '=' ∨ separator = ':' := by
  rw [InKey, not_and_or, not_not, not_not] at h
  exact h

theorem stripped_secret (h : ¬InKey separator) (t : Text) :
    stripped (key ++ separator :: t) = key ++ separator :: stripped t := by
  refine rdropWhile_append_cons ?_ key t
  rcases not_feed_of_not_inKey h with rfl | rfl <;> rfl

theorem keyOf_secret (hkey : ∀ c ∈ key, InKey c) (h : ¬InKey separator) (t : Text) :
    keyOf (key ++ separator :: t) = key := by
  rw [keyOf, stripped_secret h, List.takeWhile_append_of_pos fun c hc => decide_eq_true (hkey c hc),
    List.takeWhile_cons, if_neg (by simpa using h), List.append_nil]

theorem separatorOf_secret (hkey : ∀ c ∈ key, InKey c) (h : ¬InKey separator) (t : Text) :
    separatorOf (key ++ separator :: t) = some separator := by
  rw [separatorOf, stripped_secret h,
    List.dropWhile_append_of_pos fun c hc => decide_eq_true (hkey c hc), List.dropWhile_cons,
    if_neg (by simpa using h), List.head?_cons]

theorem suffixOf_secret (h : ¬InKey separator) (hvalue : '\n' ∉ value)
    (hsuffix : suffix = [] ∨ suffix = ['\n']) :
    suffixOf (key ++ separator :: (value ++ suffix)) = suffix := by
  rcases hsuffix with rfl | rfl
  · refine if_neg fun hlast => ?_
    have hmem : '\n' ∈ separator :: value := by
      rw [List.append_nil, List.getLast?_append_cons] at hlast
      exact List.mem_of_getLast? hlast
    rcases List.mem_cons.1 hmem with hfeed | hmem
    · rcases not_feed_of_not_inKey h with rfl | rfl <;> cases hfeed
    · exact hvalue hmem
  · refine if_pos ?_
    rw [← List.cons_append, ← List.append_assoc, List.getLast?_append_cons]
    rfl

theorem secret_line (hkey : ∀ c ∈ key, InKey c) (h : ¬InKey separator) (hname : SecretName key)
    (t : Text) : Secret (key ++ separator :: t) := by
  refine ⟨?_, by rwa [keyOf_secret hkey h]⟩
  rw [separatorOf_secret hkey h]
  exact Option.some_ne_none _

/-- What follows the separator is left out. -/
theorem redactLine_secret (hkey : ∀ c ∈ key, InKey c) (h : ¬InKey separator)
    (hname : SecretName key) (hvalue : '\n' ∉ value) (hsuffix : suffix = [] ∨ suffix = ['\n'])
    (hl : ¬Begins (key ++ separator :: (value ++ suffix)) ∧
      ¬Ends (key ++ separator :: (value ++ suffix))) (inside : Bool) :
    redactLine inside (key ++ separator :: (value ++ suffix)) =
      if inside then ⟨[], 1, true⟩
      else ⟨key ++ separator :: (text " <redacted>" ++ suffix), 1, false⟩ := by
  rw [redactLine, if_neg hl.1]
  cases inside with
  | true =>
    rw [if_pos rfl, if_pos rfl, decide_eq_false hl.2]
    rfl
  | false =>
    rw [if_neg Bool.false_ne_true, if_neg Bool.false_ne_true, separatorOf_secret hkey h]
    dsimp only
    rw [keyOf_secret hkey h, if_pos hname, suffixOf_secret h hvalue hsuffix]

end secret

/-! ## Redaction -/

theorem redactFrom_flatMap_cons (inside : Bool) (l : Line) (ls : List Line) :
    redactFrom inside ((l :: ls).flatMap splitlines) = (redactFrom inside (splitlines l)).append
      (redactFrom (redactFrom inside (splitlines l)).insidePrivateKey
        (ls.flatMap splitlines)) := by
  rw [List.flatMap_cons, redactFrom_append]

theorem redactFrom_whole (hl : Whole l) (inside : Bool) :
    redactFrom inside (splitlines l) = redactLine inside l := by
  rw [Whole] at hl
  rw [hl, redactFrom_singleton]

/-- Lines that are the same but for their secrets are redacted to the same text. Wherever a private
key has begun, the loop has seen it. -/
theorem redactFrom_alike (h : Alike b ls ls') (hls : Unbroken b ls) (hls' : Unbroken b ls')
    (hinside : b = true → inside = true) :
    (redactFrom inside (ls.flatMap splitlines)).text =
      (redactFrom inside (ls'.flatMap splitlines)).text := by
  induction h generalizing inside with
  | nil => rfl
  | @begins b l ls ls' hl _ ih =>
    rw [Unbroken, if_pos hl] at hls hls'
    rw [redactFrom_flatMap_cons, redactFrom_flatMap_cons, redactFrom_whole hls.1, append_text,
      append_text]
    refine congrArg _ (ih hls.2 hls'.2 fun _ => ?_)
    rw [redactLine, if_pos hl]
  | @secret key value value' suffix separator ls ls' hkey hsep hname hvalue hvalue' hsuffix hl hl' _
      ih =>
    rw [Unbroken, if_neg hl.1, if_neg Bool.false_ne_true] at hls
    rw [Unbroken, if_neg hl'.1, if_neg Bool.false_ne_true] at hls'
    rw [redactFrom_flatMap_cons, redactFrom_flatMap_cons,
      redactFrom_whole (hls.1 (secret_line hkey hsep hname _)),
      redactFrom_whole (hls'.1 (secret_line hkey hsep hname _)),
      redactLine_secret hkey hsep hname hvalue hsuffix hl,
      redactLine_secret hkey hsep hname hvalue' hsuffix hl', append_text, append_text]
    exact congrArg _ (ih hls.2 hls'.2 fun h => absurd h Bool.false_ne_true)
  | @plain l ls ls' hl _ ih =>
    rw [Unbroken, if_neg hl, if_neg Bool.false_ne_true] at hls hls'
    rw [redactFrom_flatMap_cons, redactFrom_flatMap_cons, append_text, append_text]
    exact congrArg _ (ih hls.2 hls'.2 fun h => absurd h Bool.false_ne_true)
  | @ends l ls ls' hl hends _ ih =>
    rw [Unbroken, if_neg hl, if_pos rfl, decide_eq_true hends] at hls hls'
    rw [redactFrom_flatMap_cons, redactFrom_flatMap_cons, append_text, append_text]
    exact congrArg _ (ih hls hls' fun h => absurd h Bool.false_ne_true)
  | @inner l l' ls ls' hl hl' _ ih =>
    rw [Unbroken, if_neg hl.1, if_pos rfl, decide_eq_false hl.2] at hls
    rw [Unbroken, if_neg hl'.1, if_pos rfl, decide_eq_false hl'.2] at hls'
    have hparts (l : Line) (hl : ¬Begins l ∧ ¬Ends l) : ∀ p ∈ splitlines l, ¬Begins p ∧ ¬Ends p :=
      fun p hp => ⟨fun h => hl.1 (h.mono (infix_of_mem_splitlines hp)),
        fun h => hl.2 (h.mono (infix_of_mem_splitlines hp))⟩
    have hline := redactFrom_inner (hparts l hl)
    have hline' := redactFrom_inner (hparts l' hl')
    rw [hinside rfl, redactFrom_flatMap_cons, redactFrom_flatMap_cons, append_text, append_text,
      hline.1, hline'.1, hline.2, hline'.2]
    exact congrArg _ (ih hls hls' fun _ => rfl)

/-! ## The diff -/

def SameButSecrets (s t : Text) : Prop :=
  Alike false (lines s) (lines t)

/-- No line that begins a private key and no line with a secret is broken up. -/
def Sound (s : Text) : Prop :=
  Unbroken false (lines s)

instance (s : Text) : Decidable (Sound s) :=
  inferInstanceAs (Decidable (Unbroken false (lines s)))

theorem redactConfig_same {s t : Text} (h : SameButSecrets s t) (hs : Sound s) (ht : Sound t) :
    (redactConfig s).1 = (redactConfig t).1 := by
  rw [redactConfig, redactConfig, splitlines_eq_flatMap, splitlines_eq_flatMap t]
  exact redactFrom_alike h hs ht id

section diff

variable [Library] {h h' : Host} {targets : List ConfigTarget} {targetId path path' : String}
  {current candidate current' candidate' : Text} {r r' : ConfigDiff}

/-- `config_diff` reads these texts and accepts them. -/
structure Accepts (h : Host) (targets : List ConfigTarget) (targetId path : String)
    (current candidate : Text) (r : ConfigDiff) : Prop where
  reads : ∃ target, findTarget targets targetId = .ok target ∧
    readTexts h target path = .ok (current, candidate)
  returns : configDiff h targets targetId path = .ok r

theorem compareTexts_diff {target : ConfigTarget}
    (h : compareTexts target current candidate = .ok r) :
    r.diff = shownDiff target current candidate := by
  rw [compareTexts] at h
  obtain ⟨validation, -, h⟩ := Calls.bind_eq_ok.1 h
  dsimp only at h
  split at h
  · cases h
  · cases h
    rfl

theorem Accepts.diff_eq (hr : Accepts h targets targetId path current candidate r) :
    ∃ target, findTarget targets targetId = .ok target ∧
      r.diff = shownDiff target current candidate := by
  obtain ⟨target, htarget, hreads⟩ := hr.reads
  refine ⟨target, htarget, ?_⟩
  have hreturns := hr.returns
  rw [configDiff, htarget] at hreturns
  change (readTexts h target path).bind _ = _ at hreturns
  rw [hreads] at hreturns
  exact compareTexts_diff hreturns

/-- Two pairs of texts that are the same but for their secrets have the same diff, if their lines
are not broken up. -/
theorem diff_hides_secrets (hr : Accepts h targets targetId path current candidate r)
    (hr' : Accepts h' targets targetId path' current' candidate' r')
    (hcurrent : SameButSecrets current current')
    (hcandidate : SameButSecrets candidate candidate')
    (hsound : Sound current ∧ Sound candidate ∧ Sound current' ∧ Sound candidate') :
    r.diff = r'.diff := by
  obtain ⟨target, htarget, hdiff⟩ := hr.diff_eq
  obtain ⟨target', htarget', hdiff'⟩ := hr'.diff_eq
  obtain rfl : target = target' := Except.ok.inj (htarget.symm.trans htarget')
  obtain ⟨hs, ht, hs', ht'⟩ := hsound
  rw [hdiff, hdiff', shownDiff, shownDiff, redactConfig_same hcurrent hs hs',
    redactConfig_same hcandidate ht ht']

end diff

/-! ## A text that is broken up -/

namespace Sample

def unifiedDiff (a b : List Line) (fromfile tofile : Text) (_ : ℕ) : List Line :=
  if a = b then []
  else [text "--- " ++ fromfile ++ ['\n'], text "+++ " ++ tofile ++ ['\n'],
      text ("@@ -1," ++ toString a.length ++ " +1," ++ toString b.length ++ " @@\n")] ++
    a.map (List.cons '-') ++ b.map (List.cons '+')

instance library : Library where
  jsonError _ := none
  sha256 _ := "digest"
  unifiedDiff := unifiedDiff

def target : ConfigTarget where
  id := "app-config"
  enabled := true
  project := "infra-shared"
  resourceId := "node-1"
  currentPath := "/etc/app.conf"
  candidateRoot := "/srv/candidates"
  validator := .text
  maxBytes := 4096

def current : Text :=
  text "workers=2\ntoken=old\n"

def candidate (password : Text) : Text :=
  text "workers=4\npassword=" ++ password ++ text "\nport=1\n"

def host (password : Text) : Host where
  file path := if path = "/etc/app.conf" then ⟨false, true, byteSize current, some current⟩
    else ⟨false, true, byteSize (candidate password), some (candidate password)⟩
  under _ path := .ok path

def result (password : Text) : ConfigDiff where
  targetId := "app-config"
  resourceId := "node-1"
  project := "infra-shared"
  currentSha256 := "digest"
  candidateSha256 := "digest"
  changed := decide (current ≠ candidate password)
  validator := "text-ok"
  redactedLines := (redactConfig current).2 + (redactConfig (candidate password)).2
  diff := shownDiff target current (candidate password)

theorem inKey_password : ∀ c ∈ text "password", InKey c := fun c hc =>
  of_decide_eq_true (List.all_eq_true.1
    (show ((text "password").all fun c => InKey c) = true by decide) c hc)

theorem lines_candidate {password : Text} (h : '\n' ∉ password) :
    lines (candidate password) = [text "workers=4\n",
      text "password" ++ '=' :: (password ++ ['\n']),
      text "port=1\n"] := by
  have hline : '\n' ∉ text "password=" ++ password := by
    intro hmem
    exact (List.mem_append.1 hmem).elim (by decide) h
  have hsplit : candidate password =
      text "workers=4" ++ '\n' :: (text "password=" ++ password ++ '\n' :: text "port=1\n") := by
    simp [candidate, text]
  rw [hsplit, lines_line (by decide), lines_line hline]
  have hlast : lines (text "port=1\n") = [text "port=1\n"] := by decide
  rw [hlast]
  simp [text]

variable {p s : Text}

theorem sameButSecrets {p' : Text} (h : '\n' ∉ p) (h' : '\n' ∉ p')
    (hl : ¬Begins (text "password" ++ '=' :: (p ++ ['\n'])) ∧
      ¬Ends (text "password" ++ '=' :: (p ++ ['\n'])))
    (hl' : ¬Begins (text "password" ++ '=' :: (p' ++ ['\n'])) ∧
      ¬Ends (text "password" ++ '=' :: (p' ++ ['\n']))) :
    SameButSecrets (candidate p) (candidate p') := by
  rw [SameButSecrets, lines_candidate h, lines_candidate h']
  refine .plain (by decide)
    (.secret inKey_password (by decide) (by decide) h h' (.inr rfl) hl hl' ?_)
  exact .plain (by decide) .nil

theorem current_same : SameButSecrets current current := by
  have hlines : lines current = [text "workers=2\n", text "token=old\n"] := by decide
  rw [SameButSecrets, hlines]
  exact .plain (by decide) (.plain (by decide) .nil)

/-- Two passwords without a line feed, with one of the other ends of a line. -/
def broken (rest : String) : Text :=
  Char.ofNat 0x0b :: text rest

theorem universal_of_not_mem (h : '\r' ∉ s) : universal s = s := by
  induction s with
  | nil => rfl
  | cons c s ih =>
    obtain ⟨hc, hs⟩ := not_or.1 (mt List.mem_cons.2 h)
    rw [universal, ih hs]
    · rintro s rfl rfl
      exact hc rfl
    · rintro rfl
      exact hc rfl

theorem readConfig_eq {h : Host} {path : String} {maximum n : ℕ}
    (hfile : h.file path = ⟨false, true, n, some s⟩) (hn : n ≤ maximum) (hs : '\r' ∉ s) :
    readConfig h path maximum = .ok s := by
  rw [readConfig, hfile, if_neg (by simp), if_neg (not_lt.2 hn)]
  exact congrArg Except.ok (universal_of_not_mem hs)

theorem reads (hp : '\r' ∉ p) (hbytes : byteSize (candidate p) ≤ 4096) :
    readTexts (host p) target "/srv/candidates/next.conf" = .ok (current, candidate p) := by
  have hcandidate : '\r' ∉ candidate p := by
    intro hmem
    rcases List.mem_append.1 hmem with hmem | hmem
    · exact (List.mem_append.1 hmem).elim (by decide) hp
    · revert hmem
      decide
  have hcurrentRead : readConfig (host p) target.currentPath target.maxBytes = .ok current :=
    readConfig_eq (n := byteSize current) (by simp [host, target]) (by decide) (by decide)
  have hcandidateRead : readConfig (host p) "/srv/candidates/next.conf" target.maxBytes =
      .ok (candidate p) :=
    readConfig_eq (n := byteSize (candidate p)) (by simp [host]) hbytes hcandidate
  have hunder : (host p).under target.candidateRoot "/srv/candidates/next.conf" =
      .ok "/srv/candidates/next.conf" := rfl
  rw [readTexts, hunder]
  simp only [bind, Except.bind, hcurrentRead, hcandidateRead]
  rfl

theorem compares (hsize : byteSize (shownDiff target current (candidate p)) ≤ 512 * 1024) :
    compareTexts target current (candidate p) = .ok (result p) := by
  have hvalidate : validate target (candidate p) = .ok "text-ok" := rfl
  rw [compareTexts, hvalidate, result]
  generalize shownDiff target current (candidate p) = diff at hsize ⊢
  change (if 512 * 1024 < byteSize diff then _ else _) = _
  rw [if_neg (not_lt.2 hsize)]
  rfl

theorem accepts (hp : '\r' ∉ p) (hbytes : byteSize (candidate p) ≤ 4096)
    (hsize : byteSize (shownDiff target current (candidate p)) ≤ 512 * 1024) :
    Accepts (host p) [target] "app-config" "/srv/candidates/next.conf" current (candidate p)
      (result p) := by
  have htarget : findTarget [target] "app-config" = .ok target := rfl
  refine ⟨⟨target, htarget, reads hp hbytes⟩, ?_⟩
  rw [configDiff, htarget]
  simp only [bind, Except.bind, reads hp hbytes]
  exact compares hsize

set_option maxRecDepth 20000 in
/-- Two passwords are hidden. -/
theorem diff_hides_passwords : (result (text "new")).diff = (result (text "newer")).diff :=
  diff_hides_secrets (accepts (by decide) (by decide) (by decide))
    (accepts (by decide) (by decide) (by decide)) current_same
    (sameButSecrets (by decide) (by decide) (by decide) (by decide))
    ⟨by decide, by decide, by decide, by decide⟩

set_option maxRecDepth 20000 in
/-- What follows a vertical tabulation in a password is shown. -/
theorem diff_shows_secrets : ∃ p p' : Text,
    Accepts (host p) [target] "app-config" "/srv/candidates/next.conf" current (candidate p)
      (result p) ∧
    Accepts (host p') [target] "app-config" "/srv/candidates/next.conf" current (candidate p')
      (result p') ∧
    SameButSecrets current current ∧ SameButSecrets (candidate p) (candidate p') ∧
    (result p).diff ≠ (result p').diff :=
  ⟨broken "one", broken "two", accepts (by decide) (by decide) (by decide),
    accepts (by decide) (by decide) (by decide), current_same,
      sameButSecrets (by decide) (by decide) (by decide) (by decide), by decide⟩

end Sample

end OpsConfigs
