import Mathlib.Data.List.Infix

/-!
# The lines of a text

`lines` ends a line at each line feed, `splitlines` at each of the characters that end a line in
Unicode as well. Both keep what ends a line. The second one splits the lines of the first one
further (`splitlines_eq_flatMap`).
-/

namespace Lines

abbrev Line : Type :=
  List Char

/-- Each line ends at a line feed, which is kept. -/
def lines : List Char → List Line
  | [] => []
  | c :: cs =>
    if c = '\n' then ['\n'] :: lines cs
    else match lines cs with
      | [] => [[c]]
      | l :: ls => (c :: l) :: ls

def Ending (c : Char) : Prop :=
  c ∈ ['\n', '\r', Char.ofNat 0x0b, Char.ofNat 0x0c, Char.ofNat 0x1c, Char.ofNat 0x1d,
    Char.ofNat 0x1e, Char.ofNat 0x85, Char.ofNat 0x2028, Char.ofNat 0x2029]

instance (c : Char) : Decidable (Ending c) := by
  unfold Ending
  infer_instance

/-- `str.splitlines(keepends=True)`. -/
def splitlines : List Char → List Line
  | [] => []
  | '\r' :: '\n' :: cs => ['\r', '\n'] :: splitlines cs
  | c :: cs =>
    if Ending c then [c] :: splitlines cs
    else match splitlines cs with
      | [] => [[c]]
      | l :: ls => (c :: l) :: ls

variable {c : Char} {l rest s : List Char}

theorem lines_induction {P : List Char → Prop} (last : ∀ l, '\n' ∉ l → P l)
    (line : ∀ l rest, '\n' ∉ l → P rest → P (l ++ '\n' :: rest)) (s : List Char) : P s := by
  suffices h : ∀ l, '\n' ∉ l → P (l ++ s) from h [] List.not_mem_nil
  induction s with
  | nil =>
    intro l hl
    rw [List.append_nil]
    exact last l hl
  | cons c s ih =>
    intro l hl
    by_cases hc : c = '\n'
    · rw [hc]
      exact line l s hl (ih [] List.not_mem_nil)
    · rw [List.append_cons]
      refine ih _ fun hmem => ?_
      rcases List.mem_append.1 hmem with hmem | hmem
      · exact hl hmem
      · exact hc (List.mem_singleton.1 hmem).symm

theorem lines_line (hl : '\n' ∉ l) : lines (l ++ '\n' :: rest) = (l ++ ['\n']) :: lines rest := by
  induction l with
  | nil => rfl
  | cons c l ih =>
    obtain ⟨hc, hl⟩ := not_or.1 (mt List.mem_cons.2 hl)
    rw [List.cons_append, lines, if_neg (Ne.symm hc), ih hl]
    rfl

theorem lines_last (hl : '\n' ∉ l) (hne : l ≠ []) : lines l = [l] := by
  induction l with
  | nil => exact absurd rfl hne
  | cons c l ih =>
    obtain ⟨hc, hl⟩ := not_or.1 (mt List.mem_cons.2 hl)
    rw [lines, if_neg (Ne.symm hc)]
    cases l with
    | nil => rfl
    | cons d l => rw [ih hl (List.cons_ne_nil d l)]

theorem splitlines_cons (hpair : ¬(c = '\r' ∧ s.head? = some '\n')) : splitlines (c :: s) =
    if Ending c then [c] :: splitlines s
    else match splitlines s with
      | [] => [[c]]
      | l :: ls => (c :: l) :: ls := by
  rw [splitlines]
  intro cs hc hs
  exact hpair ⟨hc, by rw [hs]; rfl⟩

theorem splitlines_ne_nil (h : s ≠ []) : splitlines s ≠ [] := by
  cases s with
  | nil => exact absurd rfl h
  | cons c s =>
    by_cases hpair : c = '\r' ∧ s.head? = some '\n'
    · obtain ⟨rfl, hs⟩ := hpair
      obtain ⟨s, rfl⟩ := List.head?_eq_some_iff.1 hs
      exact List.cons_ne_nil _ _
    · rw [splitlines_cons hpair]
      split
      · exact List.cons_ne_nil _ _
      · split <;> exact List.cons_ne_nil _ _

/-- A line feed ends a line. -/
theorem splitlines_append (l rest : List Char) :
    splitlines (l ++ '\n' :: rest) = splitlines (l ++ ['\n']) ++ splitlines rest := by
  induction hn : l.length using Nat.strong_induction_on generalizing l with
  | _ n ih =>
    subst hn
    cases l with
    | nil => rfl
    | cons c l =>
      by_cases hpair : c = '\r' ∧ (l ++ ['\n']).head? = some '\n'
      · obtain ⟨rfl, hl⟩ := hpair
        cases l with
        | nil => rfl
        | cons d l =>
          obtain rfl : d = '\n' := Option.some.inj hl
          have hrest := ih l.length (by simp only [List.length_cons]; omega) l rfl
          change ['\r', '\n'] :: splitlines (l ++ '\n' :: rest) =
            ['\r', '\n'] :: splitlines (l ++ ['\n']) ++ splitlines rest
          rw [hrest, List.cons_append]
      · have hpair' : ¬(c = '\r' ∧ (l ++ '\n' :: rest).head? = some '\n') := by
          cases l with
          | nil => exact hpair
          | cons d l => exact hpair
        rw [List.cons_append, List.cons_append, splitlines_cons hpair, splitlines_cons hpair',
          ih l.length (by simp) l rfl]
        by_cases hc : Ending c
        · rw [if_pos hc, if_pos hc, List.cons_append]
        · rw [if_neg hc, if_neg hc]
          cases hsplit : splitlines (l ++ ['\n']) with
          | nil => exact absurd hsplit (splitlines_ne_nil (by simp))
          | cons p ps => rfl

theorem splitlines_eq_flatMap (s : List Char) : splitlines s = (lines s).flatMap splitlines := by
  induction s using lines_induction with
  | last l hl =>
    cases l with
    | nil => rfl
    | cons c l =>
      rw [lines_last hl (List.cons_ne_nil c l), List.flatMap_cons, List.flatMap_nil,
        List.append_nil]
  | line l rest hl ih => rw [splitlines_append, lines_line hl, List.flatMap_cons, ih]

theorem flatten_splitlines (s : List Char) : (splitlines s).flatten = s := by
  induction hn : s.length using Nat.strong_induction_on generalizing s with
  | _ n ih =>
    subst hn
    cases s with
    | nil => rfl
    | cons c s =>
      by_cases hpair : c = '\r' ∧ s.head? = some '\n'
      · obtain ⟨rfl, hs⟩ := hpair
        obtain ⟨s, rfl⟩ := List.head?_eq_some_iff.1 hs
        rw [splitlines, List.flatten_cons,
          ih s.length (by simp only [List.length_cons]; omega) s rfl]
        rfl
      · have hs := ih s.length (by simp) s rfl
        rw [splitlines_cons hpair]
        split
        · rw [List.flatten_cons, hs]
          rfl
        · cases hsplit : splitlines s with
          | nil =>
            rw [hsplit] at hs
            rw [← hs]
            rfl
          | cons p ps =>
            rw [hsplit, List.flatten_cons] at hs
            rw [List.flatten_cons, List.cons_append, hs]

theorem infix_of_mem_splitlines (h : l ∈ splitlines s) : l <:+: s := by
  have hflatten := flatten_splitlines s
  rw [← hflatten]
  exact List.infix_of_mem_flatten h

end Lines
