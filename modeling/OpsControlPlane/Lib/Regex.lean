import Mathlib.Data.List.Basic
import Mathlib.Tactic

/-!
# Backtracking regular expressions

Patterns over characters and their matches in the order a backtracking engine tries
them: the left alternative first, a greedy run from the longest, a lazy run from the
shortest. A pattern sees the character in front of it, for word boundaries.

`runs_split` says that a match is a prefix of the text and `runs_minLength` bounds its
length from below. `sub` replaces every match from left to right; `sub_ne_nil` says that nothing
is replaced by the empty text unless a replacement is empty, `sub_all` keeps what holds of
every character, and `not_infix_sub` says that a text that always matches is gone.
-/

namespace Regex

/-- A match: the text it takes, the groups it captures, what is left. -/
structure Found where
  text : List Char
  groups : List (ℕ × List Char)
  rest : List Char

/-- The text of the first group with the number `i`. -/
def Found.group (m : Found) (i : ℕ) : List Char :=
  ((m.groups.find? fun g => g.1 = i).map Prod.snd).getD []

inductive Re where
  | chr (p : Char → Bool)
  | seq (r s : Re)
  /-- The first one, or else the second one. -/
  | alt (r s : Re)
  /-- At least `lo` characters of a class, as many as possible. -/
  | greedy (p : Char → Bool) (lo : ℕ)
  /-- Characters of a class, as few as possible. -/
  | lazy (p : Char → Bool)
  | opt (p : Char → Bool)
  | group (i : ℕ) (r : Re)
  /-- Between a word character and one that is none, or an end of the text. -/
  | boundary (word : Char → Bool)

namespace Re

/-- The class of a character between two alternatives of a word boundary. -/
def isWordAt (word : Char → Bool) : Option Char → Bool
  | some c => word c
  | none => false

/-- The character in front of what follows `text`. -/
def lastOf (prev : Option Char) (text : List Char) : Option Char :=
  text.getLast?.or prev

def prefixes (s : List Char) (ns : List ℕ) : List Found :=
  ns.map fun n => ⟨s.take n, [], s.drop n⟩

/-- The matches at the start of a text, in the order in which they are tried. -/
def runs : Re → Option Char → List Char → List Found
  | chr p, _, s => prefixes s (if (s.takeWhile p).length = 0 then [] else [1])
  | seq r t, prev, s =>
    (runs r prev s).flatMap fun m =>
      (runs t (lastOf prev m.text) m.rest).map fun n =>
        ⟨m.text ++ n.text, m.groups ++ n.groups, n.rest⟩
  | alt r t, prev, s => runs r prev s ++ runs t prev s
  | greedy p lo, _, s =>
    prefixes s ((List.range' lo ((s.takeWhile p).length + 1 - lo)).reverse)
  | lazy p, _, s => prefixes s (List.range ((s.takeWhile p).length + 1))
  | opt p, _, s => prefixes s (if (s.takeWhile p).length = 0 then [0] else [1, 0])
  | group i r, prev, s =>
    (runs r prev s).map fun m => ⟨m.text, (i, m.text) :: m.groups, m.rest⟩
  | boundary word, prev, s =>
    if isWordAt word prev = isWordAt word s.head? then [] else [⟨[], [], s⟩]

def minLength : Re → ℕ
  | chr _ => 1
  | seq r t => minLength r + minLength t
  | alt r t => min (minLength r) (minLength t)
  | greedy _ lo => lo
  | lazy _ => 0
  | opt _ => 0
  | group _ r => minLength r
  | boundary _ => 0

def fullmatch (r : Re) (s : List Char) : Bool :=
  (r.runs none s).any fun m => m.rest = []

/-- Some suffix of the text starts with a match. -/
def search (r : Re) : Option Char → List Char → Bool
  | prev, [] => !(r.runs prev []).isEmpty
  | prev, c :: s => !(r.runs prev (c :: s)).isEmpty || search r (some c) s

/-- Every match, from left to right, replaced by `f`. A match takes at least one
character here. The first argument bounds the number of steps. -/
def subFrom (r : Re) (f : Found → List Char) : ℕ → Option Char → List Char → List Char
  | 0, _, s => s
  | _ + 1, _, [] => []
  | n + 1, prev, c :: s =>
    match (r.runs prev (c :: s)).head? with
    | some m =>
      if m.text = [] then c :: subFrom r f n (some c) s
      else f m ++ subFrom r f n (lastOf prev m.text) m.rest
    | none => c :: subFrom r f n (some c) s

/-- The text with every match replaced. -/
def sub (r : Re) (f : Found → List Char) (s : List Char) : List Char :=
  subFrom r f s.length none s

/-- One after the other, the first ones in front of the last. -/
def seqs : List Re → Re → Re
  | [], last => last
  | r :: rs, last => seq r (seqs rs last)

/-- The first of the alternatives that matches. -/
def alts : Re → List Re → Re
  | r, [] => r
  | r, t :: ts => alt r (alts t ts)

/-! ## Matches -/

variable {s t l : List Char} {m : Found} {ns : List ℕ}

theorem mem_prefixes (h : m ∈ prefixes s ns) : ∃ n ∈ ns, m = ⟨s.take n, [], s.drop n⟩ := by
  obtain ⟨n, hn, rfl⟩ := List.mem_map.1 h
  exact ⟨n, hn, rfl⟩

theorem split_of_mem_prefixes (h : m ∈ prefixes s ns) : m.text ++ m.rest = s := by
  obtain ⟨n, -, rfl⟩ := mem_prefixes h
  exact List.take_append_drop n s

variable {r : Re} {prev : Option Char}

/-- A match is a prefix of the text, and what it leaves is the rest. -/
theorem runs_split (h : m ∈ r.runs prev s) : m.text ++ m.rest = s := by
  induction r generalizing prev s m with
  | chr p => exact split_of_mem_prefixes h
  | seq r t ihr iht =>
    obtain ⟨a, ha, hm⟩ := List.mem_flatMap.1 h
    obtain ⟨b, hb, rfl⟩ := List.mem_map.1 hm
    have h1 := ihr ha
    have h2 := iht hb
    simp only [List.append_assoc, h2, h1]
  | alt r t ihr iht =>
    rcases List.mem_append.1 h with h | h
    · exact ihr h
    · exact iht h
  | greedy p lo => exact split_of_mem_prefixes h
  | lazy p => exact split_of_mem_prefixes h
  | opt p => exact split_of_mem_prefixes h
  | group i r ih =>
    obtain ⟨a, ha, rfl⟩ := List.mem_map.1 h
    exact ih (m := a) ha
  | boundary word =>
    unfold runs at h
    split_ifs at h
    · simp at h
    · obtain rfl := List.mem_singleton.1 h
      rfl

theorem length_takeWhile_le (p : Char → Bool) (s : List Char) :
    (s.takeWhile p).length ≤ s.length :=
  (List.takeWhile_prefix p).length_le

/-- A match is at least as long as the pattern asks for. -/
theorem runs_minLength (h : m ∈ r.runs prev s) : r.minLength ≤ m.text.length := by
  induction r generalizing prev s m with
  | chr p =>
    have hs := length_takeWhile_le p s
    obtain ⟨n, hn, rfl⟩ := mem_prefixes h
    split_ifs at hn with h0
    · simp at hn
    · obtain rfl := List.mem_singleton.1 hn
      simp only [minLength, List.length_take]
      omega
  | seq r t ihr iht =>
    obtain ⟨a, ha, hm⟩ := List.mem_flatMap.1 h
    obtain ⟨b, hb, rfl⟩ := List.mem_map.1 hm
    have h1 := ihr ha
    have h2 := iht hb
    simp only [minLength, List.length_append]
    omega
  | alt r t ihr iht =>
    rcases List.mem_append.1 h with h | h
    · exact (min_le_left _ _).trans (ihr h)
    · exact (min_le_right _ _).trans (iht h)
  | greedy p lo =>
    have hs := length_takeWhile_le p s
    obtain ⟨n, hn, rfl⟩ := mem_prefixes h
    have hn := List.mem_range'_1.1 (List.mem_reverse.1 hn)
    simp only [minLength, List.length_take]
    omega
  | lazy p => exact Nat.zero_le _
  | opt p => exact Nat.zero_le _
  | group i r ih =>
    obtain ⟨a, ha, rfl⟩ := List.mem_map.1 h
    exact ih (m := a) ha
  | boundary word => exact Nat.zero_le _

/-! ## Substitution -/

def weight (w : Char → ℕ) (s : List Char) : ℕ :=
  (s.map w).sum

variable {f : Found → List Char}

/-- A text that is not empty does not become empty. -/
theorem sub_ne_nil (hf : ∀ prev s, ∀ m ∈ r.runs prev s, f m ≠ []) (hs : s ≠ []) :
    r.sub f s ≠ [] := by
  cases s with
  | nil => exact absurd rfl hs
  | cons c s =>
    rw [sub, List.length_cons, subFrom]
    split
    · next m hm =>
      split_ifs
      · simp
      · simp [hf _ _ m (List.mem_of_head? hm)]
    · simp

/-! ## A text that is taken out -/

/-- Neither of two texts starts with the other. -/
def Apart (u t : List Char) : Prop :=
  ¬u <+: t ∧ ¬t <+: u

instance (u t : List Char) : Decidable (Apart u t) :=
  inferInstanceAs (Decidable (_ ∧ _))

variable {u : List Char}

theorem not_prefix_append (h : Apart u t) (s : List Char) : ¬u <+: t ++ s :=
  fun hu => (List.prefix_or_prefix_of_prefix hu (List.prefix_append t s)).elim h.1 h.2

theorem infix_of_infix_append (ht : ∀ u ∈ t.tails, u ≠ [] → Apart l u) (h : l <:+: t ++ s) :
    l <:+: s := by
  induction t with
  | nil => exact h
  | cons c t ih =>
    rw [List.cons_append] at h
    rcases List.infix_cons_iff.1 h with hp | hi
    · rw [← List.cons_append] at hp
      exact absurd hp (not_prefix_append (ht _ (by simp) (by simp)) s)
    · refine ih (fun u hu => ht u ?_) hi
      rw [List.tails_cons]
      exact List.mem_cons_of_mem _ hu

/-- An end of `l` at the start of the text with the matches replaced is one of the text, if the
replacement does not overlap `l`. -/
theorem prefix_of_prefix_subFrom (hl : ∀ u ∈ l.tails, u ≠ [] → Apart u t) (n : ℕ)
    (prev : Option Char) (s u : List Char) (hu : u ∈ l.tails)
    (h : u <+: subFrom r (fun _ => t) n prev s) : u <+: s := by
  induction n generalizing prev s u with
  | zero => exact h
  | succ n ih =>
    have hskip : ∀ c s', u <+: c :: subFrom r (fun _ => t) n (some c) s' → u <+: c :: s' := by
      intro c s' h
      cases u with
      | nil => exact List.nil_prefix
      | cons d u =>
        obtain ⟨rfl, h⟩ := List.cons_prefix_cons.1 h
        exact List.cons_prefix_cons.2 ⟨rfl, ih _ _ u (by
          rw [List.mem_tails] at hu ⊢
          exact (List.suffix_cons d u).trans hu) h⟩
    cases s with
    | nil => exact h
    | cons c s =>
      unfold subFrom at h
      split at h
      · next m hm =>
        split_ifs at h
        · exact hskip c s h
        · by_cases hnil : u = []
          · rw [hnil]
            exact List.nil_prefix
          · exact absurd h (not_prefix_append (hl u hu hnil) _)
      · exact hskip c s h

/-- A text at whose every place there is a match is nowhere when the matches are replaced by a
text that does not overlap it. -/
theorem not_infix_sub (hr : 0 < r.minLength) (hm : ∀ prev s, l <+: s → r.runs prev s ≠ [])
    (hl : ∀ u ∈ l.tails, u ≠ [] → Apart u t) (ht : ∀ u ∈ t.tails, u ≠ [] → Apart l u)
    (hnil : l ≠ []) (s : List Char) : ¬l <:+: r.sub (fun _ => t) s := by
  have key : ∀ n prev s, s.length ≤ n → ¬l <:+: subFrom r (fun _ => t) n prev s := by
    intro n
    induction n with
    | zero =>
      intro prev s hs h
      rw [List.length_eq_zero_iff.1 (Nat.le_zero.1 hs), subFrom, List.infix_nil] at h
      exact hnil h
    | succ n ih =>
      intro prev s hs h
      have hbegins := prefix_of_prefix_subFrom (r := r) hl (n + 1) prev s l
        ((List.mem_tails _ _).2 List.suffix_rfl)
      cases s with
      | nil =>
        rw [subFrom, List.infix_nil] at h
        exact hnil h
      | cons c s =>
        rw [List.length_cons] at hs
        unfold subFrom at h hbegins
        split at h
        · next m hsome =>
          have hpos : m.text ≠ [] := by
            have := runs_minLength (List.mem_of_head? hsome)
            exact List.ne_nil_of_length_pos (by omega)
          rw [if_neg hpos] at h
          refine ih _ _ ?_ (infix_of_infix_append ht h)
          have hlen := congrArg List.length (runs_split (List.mem_of_head? hsome))
          rw [List.length_append, List.length_cons] at hlen
          have := List.length_pos_iff.2 hpos
          omega
        · next hnone =>
          rw [hnone] at hbegins
          rcases List.infix_cons_iff.1 h with hp | hi
          · exact hm prev _ (hbegins hp) (List.head?_eq_none_iff.1 hnone)
          · exact ih _ _ (by omega) hi
  exact key _ _ _ le_rfl

/-- The characters of classes, in front of what follows, are a match. -/
theorem mem_runs_chars {ps : List (Char → Bool)} {p : Char → Bool} {c : Char}
    (hu : List.Forall₂ (fun p c => p c = true) ps u) (hc : p c = true) (prev : Option Char)
    (s : List Char) : (⟨u ++ [c], [], s⟩ : Found) ∈
      (seqs (ps.map chr) (.chr p)).runs prev (u ++ c :: s) := by
  have hchr : ∀ (p : Char → Bool) (c : Char) prev s, p c = true →
      (⟨[c], [], s⟩ : Found) ∈ (chr p).runs prev (c :: s) := by
    intro p c prev s hc
    simp only [runs, prefixes, List.takeWhile_cons, hc, if_true, List.length_cons,
      Nat.succ_ne_zero, if_false, List.map_cons, List.map_nil, List.take_succ_cons,
      List.take_zero, List.drop_succ_cons, List.drop_zero, List.mem_singleton]
  induction hu generalizing prev with
  | nil => exact hchr p c prev s hc
  | @cons q d ps u hd hu ih =>
    exact List.mem_flatMap.2 ⟨_, hchr q d prev (u ++ c :: s) hd,
      List.mem_map.2 ⟨_, ih _, rfl⟩⟩

/-- Every match of the pattern has a character of the class. -/
def Needs (q : Char → Bool) : Re → Prop
  | chr p => ∀ c, p c = true → q c = true
  | seq r t => Needs q r ∨ Needs q t
  | alt r t => Needs q r ∧ Needs q t
  | group _ r => Needs q r
  | _ => False

variable {q : Char → Bool}

theorem exists_of_needs (h : r.Needs q) (hm : m ∈ r.runs prev s) : ∃ c ∈ s, q c = true := by
  induction r generalizing prev s m with
  | chr p =>
    obtain ⟨n, hn, -⟩ := mem_prefixes hm
    cases s with
    | nil => simp at hn
    | cons c s =>
      cases hc : p c with
      | true => exact ⟨c, List.mem_cons_self, h c hc⟩
      | false => simp [hc] at hn
  | seq r t ihr iht =>
    obtain ⟨a, ha, hm⟩ := List.mem_flatMap.1 hm
    rcases h with h | h
    · exact ihr h ha
    · obtain ⟨b, hb, -⟩ := List.mem_map.1 hm
      obtain ⟨c, hc, hq⟩ := iht h hb
      exact ⟨c, runs_split ha ▸ List.mem_append_right _ hc, hq⟩
  | alt r t ihr iht => exact (List.mem_append.1 hm).elim (ihr h.1) (iht h.2)
  | group i r ih =>
    obtain ⟨a, ha, -⟩ := List.mem_map.1 hm
    exact ih h ha
  | _ => exact h.elim

theorem needs_seqs {last : Re} (h : last.Needs q) (rs : List Re) : (seqs rs last).Needs q := by
  induction rs with
  | nil => exact h
  | cons r rs ih => exact .inr ih

theorem group_subset (hm : m ∈ r.runs prev s) : ∀ g ∈ m.groups, g.2 ⊆ m.text := by
  induction r generalizing prev s m with
  | seq r t ihr iht =>
    obtain ⟨a, ha, hm⟩ := List.mem_flatMap.1 hm
    obtain ⟨b, hb, rfl⟩ := List.mem_map.1 hm
    intro g hg
    rcases List.mem_append.1 hg with hg | hg
    · exact fun c hc => List.mem_append_left _ (ihr ha g hg hc)
    · exact fun c hc => List.mem_append_right _ (iht hb g hg hc)
  | alt r t ihr iht => exact (List.mem_append.1 hm).elim ihr iht
  | group i r ih =>
    obtain ⟨a, ha, rfl⟩ := List.mem_map.1 hm
    intro g hg
    rcases List.mem_cons.1 hg with rfl | hg
    · exact fun c hc => hc
    · exact ih ha g hg
  | boundary word =>
    rw [runs] at hm
    split_ifs at hm
    · cases hm
    · obtain rfl := List.mem_singleton.1 hm
      exact fun g hg => absurd hg List.not_mem_nil
  | _ =>
    obtain ⟨n, -, rfl⟩ := mem_prefixes hm
    exact fun g hg => absurd hg List.not_mem_nil

theorem mem_of_mem_group (hm : m ∈ r.runs prev s) {i : ℕ} {c : Char} (hc : c ∈ m.group i) :
    c ∈ s := by
  unfold Found.group at hc
  cases hfind : m.groups.find? (fun g => g.1 = i) with
  | none =>
    rw [hfind] at hc
    exact absurd hc List.not_mem_nil
  | some g =>
    rw [hfind] at hc
    exact runs_split hm ▸ List.mem_append_left _
      (group_subset hm g (List.mem_of_find?_eq_some hfind) hc)

/-- What holds of the characters of a text and of the replacements holds of the result. -/
theorem sub_all {S : Char → Prop}
    (hf : ∀ prev u, (∀ c ∈ u, S c) → ∀ m ∈ r.runs prev u, ∀ c ∈ f m, S c) (hs : ∀ c ∈ s, S c) :
    ∀ c ∈ r.sub f s, S c := by
  have key : ∀ n prev u, (∀ c ∈ u, S c) → ∀ c ∈ subFrom r f n prev u, S c := by
    intro n
    induction n with
    | zero => exact fun _ _ hu => hu
    | succ n ih =>
      intro prev u hu
      cases u with
      | nil => exact hu
      | cons d u =>
        have hskip : ∀ c ∈ d :: subFrom r f n (some d) u, S c := by
          intro c hc
          rcases List.mem_cons.1 hc with rfl | hc
          · exact hu c List.mem_cons_self
          · exact ih _ u (fun c hc => hu c (List.mem_cons_of_mem _ hc)) c hc
        rw [subFrom]
        split
        · next m hm =>
          have hrun := List.mem_of_head? hm
          split_ifs
          · exact hskip
          · intro c hc
            rcases List.mem_append.1 hc with hc | hc
            · exact hf prev _ hu m hrun c hc
            · refine ih _ _ (fun c hc => hu c ?_) c hc
              exact runs_split hrun ▸ List.mem_append_right _ hc
        · exact hskip
  exact key _ _ s hs

theorem sub_of_no_match (h : ∀ prev u, u <:+ s → r.runs prev u = []) : r.sub f s = s := by
  have key : ∀ n prev u, u <:+ s → subFrom r f n prev u = u := by
    intro n
    induction n with
    | zero => exact fun _ _ _ => rfl
    | succ n ih =>
      intro prev u hu
      cases u with
      | nil => rfl
      | cons c u =>
        rw [subFrom, h prev _ hu, List.head?_nil]
        exact congrArg _ (ih _ u ((List.suffix_cons c u).trans hu))
  exact key _ _ s List.suffix_rfl

end Re

/-- A leading character of one class, and `lo` to `hi` characters of another. -/
def leads (first rest : Char → Bool) (lo hi : ℕ) : List Char → Bool
  | [] => false
  | c :: s => first c && decide (lo ≤ s.length) && decide (s.length ≤ hi) && s.all rest

theorem leads_iff {first rest : Char → Bool} {lo hi : ℕ} {s : List Char} :
    leads first rest lo hi s = true ↔ ∃ c t, s = c :: t ∧ first c = true ∧
      (lo ≤ t.length ∧ t.length ≤ hi) ∧ ∀ d ∈ t, rest d = true := by
  cases s with
  | nil => simp [leads]
  | cons c t => simp [leads, and_assoc]

end Regex
