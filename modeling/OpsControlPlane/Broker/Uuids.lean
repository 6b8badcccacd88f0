import OpsControlPlane.Broker.Util

/-!
# The text of a UUID

The text that `uuid.UUID` prints: its groups and its characters, and that `uuid.UUID` reads it
back (`uuidOf_uuidText`).
-/

set_option linter.unusedSectionVars false

namespace OpsControlPlane

open Text JsonText Regex

variable [Platform]

theorem hexDigits_append (a b n : ℕ) :
    hexDigits (a + b) n = hexDigits a (n / 16 ^ b) ++ hexDigits b n := by
  induction b generalizing n with
  | zero => rw [Nat.pow_zero, Nat.div_one, Nat.add_zero, hexDigits, List.append_nil]
  | succ b ih =>
    rw [← Nat.add_assoc, hexDigits, ih, hexDigits, List.append_assoc, Nat.div_div_eq_div_mul,
      Nat.pow_succ, Nat.mul_comm 16]

theorem length_hexDigits (w n : ℕ) : (hexDigits w n).length = w := by
  induction w generalizing n with
  | zero => rfl
  | succ w ih => rw [hexDigits, List.length_append, ih, List.length_singleton]

theorem uuidText_eq (n : ℕ) : uuidText n = hexDigits 8 (n / 16 ^ 24) ++ '-' ::
    (hexDigits 4 (n / 16 ^ 20) ++ '-' :: (hexDigits 4 (n / 16 ^ 16) ++ '-' ::
      (hexDigits 4 (n / 16 ^ 12) ++ '-' :: hexDigits 12 n))) := by
  have h20 := hexDigits_append 20 12 n
  have h16 := hexDigits_append 16 4 (n / 16 ^ 12)
  have h12 := hexDigits_append 12 4 (n / 16 ^ 16)
  have h8 := hexDigits_append 8 4 (n / 16 ^ 20)
  rw [Nat.div_div_eq_div_mul, ← Nat.pow_add] at h16 h12 h8
  have hall : hexDigits 32 n = hexDigits 8 (n / 16 ^ 24) ++ (hexDigits 4 (n / 16 ^ 20) ++
      (hexDigits 4 (n / 16 ^ 16) ++ (hexDigits 4 (n / 16 ^ 12) ++ hexDigits 12 n))) := by
    rw [h20, h16, h12, h8]
    simp only [List.append_assoc]
  have htake : ∀ (w k : ℕ) t, (hexDigits w k ++ t).take w = hexDigits w k := fun w k t => by
    rw [List.take_left' (length_hexDigits w k)]
  have hdrop : ∀ (w i k : ℕ) t, (hexDigits w k ++ t).drop (w + i) = t.drop i := fun w i k t => by
    rw [← List.drop_drop, List.drop_left' (length_hexDigits w k)]
  unfold uuidText
  dsimp only
  rw [hall, htake, hdrop 8 0, hdrop 8 4, hdrop 4 0, hdrop 8 8, hdrop 4 4, hdrop 4 0,
    hdrop 8 12, hdrop 4 8, hdrop 4 4, hdrop 4 0]
  simp only [List.drop_zero, htake, List.append_assoc, List.cons_append]

variable {n : ℕ} {c : Char}

theorem mem_hexDigits {w : ℕ} (h : c ∈ hexDigits w n) : ∃ d < 16, c = hexDigit d := by
  induction w generalizing n with
  | zero => exact absurd h List.not_mem_nil
  | succ w ih =>
    rcases List.mem_append.1 h with h | h
    · exact ih h
    · exact ⟨n % 16, Nat.mod_lt _ (by decide), List.mem_singleton.1 h⟩

theorem mem_uuidText (h : c ∈ uuidText n) : c = '-' ∨ ∃ d < 16, c = hexDigit d := by
  rw [uuidText_eq] at h
  simp only [List.mem_append, List.mem_cons] at h
  rcases h with h | h | h | h | h | h | h | h | h
  all_goals first | exact .inl h | exact .inr (mem_hexDigits h)

theorem readHex_cons {acc : Option ℕ} {s : List Char} (hc : c ≠ '_') : readHex acc (c :: s) =
      (hexDigitValue c).bind fun v => readHex (some (16 * acc.getD 0 + v)) s := by
  rw [readHex.eq_def]
  dsimp only
  rw [if_neg hc]

theorem readHex_hexDigits (w a n : ℕ) (t : List Char) :
    readHex (some a) (hexDigits w n ++ t) = readHex (some (a * 16 ^ w + n % 16 ^ w)) t := by
  induction w generalizing n t with
  | zero => simp [hexDigits, Nat.mod_one]
  | succ w ih =>
    have hlt : n % 16 < 16 := Nat.mod_lt _ (by decide)
    have hchar : ∀ d < 16, hexDigit d ≠ '_' ∧ (hexDigit d).toNat < 128 := by decide
    have hval : 16 * (a * 16 ^ w + n / 16 % 16 ^ w) + n % 16 =
        a * 16 ^ (w + 1) + n % 16 ^ (w + 1) := by
      rw [Nat.pow_succ, Nat.mul_comm (16 ^ w) 16, Nat.mod_mul]
      ring
    rw [hexDigits, List.append_assoc, ih, List.singleton_append, readHex_cons (hchar _ hlt).1,
      hexDigitValue, if_pos (hchar _ hlt).2, hexVal_hexDigit _ hlt, Option.bind_some,
      Option.getD_some, hval]

/-- The hexadecimal digits of a number are read back. -/
theorem intBase16_hexDigits (hn : n < 2 ^ 128) : intBase16 (hexDigits 32 n) = some n := by
  obtain ⟨c, s, hcs⟩ : ∃ c s, hexDigits 32 n = c :: s :=
    List.exists_cons_of_length_pos (by rw [length_hexDigits]; decide)
  have hspace : ∀ c ∈ hexDigits 32 n, ¬isSpace c = true := by
    intro c hc
    obtain ⟨d, hd, rfl⟩ := mem_hexDigits hc
    have hall : ∀ d < 16, ¬isSpace (hexDigit d) = true := by decide
    exact hall d hd
  have htrim : ∀ l : List Char, (∀ c ∈ l, ¬isSpace c = true) → l.dropWhile isSpace = l := by
    intro l hl
    cases l with
    | nil => rfl
    | cons c l => exact List.dropWhile_cons_of_neg (hl c List.mem_cons_self)
  have hread : readHex none (hexDigits 32 n) = some n := by
    have h := readHex_hexDigits 32 0 n []
    rw [List.append_nil, Nat.zero_mul, Nat.zero_add,
      Nat.mod_eq_of_lt (hn.trans_le (by norm_num)), show readHex (some n) [] = some n from rfl] at h
    obtain ⟨d, hd, rfl⟩ := mem_hexDigits (hcs ▸ List.mem_cons_self : c ∈ hexDigits 32 n)
    have hall : ∀ d < 16, hexDigit d ≠ '_' := by decide
    rw [← h, hcs, readHex_cons (hall d hd), readHex_cons (hall d hd), Option.getD_none,
      Option.getD_some]
  have hall : ∀ d < 16, hexDigit d ≠ '+' ∧ hexDigit d ≠ 'x' ∧ hexDigit d ≠ 'X' := by decide
  unfold intBase16
  dsimp only
  rw [htrim _ hspace, htrim _ (fun c hc => hspace c (List.mem_reverse.1 hc)),
    List.reverse_reverse]
  have hc : ∀ c ∈ hexDigits 32 n, c ≠ '+' ∧ c ≠ 'x' ∧ c ≠ 'X' := by
    intro c hc
    obtain ⟨d, hd, rfl⟩ := mem_hexDigits hc
    exact hall d hd
  generalize hexDigits 32 n = l at hread hc
  have hplus : ∀ s, l ≠ '+' :: s := fun s hs => (hc '+' (hs ▸ List.mem_cons_self)).1 rfl
  split
  · next s' x s'' heq =>
    split at heq
    · exact absurd rfl (hplus _)
    · subst heq
      have h := hc x (by simp)
      simp only [h.2.1, h.2.2, decide_false, Bool.or_false, Bool.false_eq_true, if_false]
      exact hread
  · split
    · exact absurd rfl (hplus _)
    · exact hread

theorem version4_lt (n : ℕ) : version4 n < 2 ^ 128 := by
  unfold version4
  omega

theorem uuidOf_uuidText (hn : n < 2 ^ 128) : uuidOf (ofChars (uuidText n)) = some n := by
  have hchar : ∀ c ∈ uuidText n, c ≠ ':' ∧ c ≠ '\x7b' ∧ c ≠ '\x7d' := by
    intro c hc
    have hall : ∀ d < 16, hexDigit d ≠ ':' ∧ hexDigit d ≠ '\x7b' ∧ hexDigit d ≠ '\x7d' := by
      decide
    rcases mem_uuidText hc with rfl | ⟨d, hd, rfl⟩
    · decide
    · exact hall d hd
  have hwithout : ∀ word, without word ':' (uuidText n) = uuidText n := by
    refine fun word => Re.sub_of_no_match fun prev u hu => ?_
    rw [List.eq_nil_iff_forall_not_mem]
    intro m hm
    have hcolon : Re.Needs (fun c => c = ':') (.chr fun c => c = ':') := fun _ h => h
    obtain ⟨c, hc, hp⟩ := Re.exists_of_needs (Re.needs_seqs hcolon _) hm
    exact (hchar c (hu.subset hc)).1 (of_decide_eq_true hp)
  have hstrip : stripBraces (uuidText n) = uuidText n := by
    have hdrop : ∀ l : List Char, (∀ c ∈ l, c ≠ '\x7b' ∧ c ≠ '\x7d') →
        l.dropWhile (fun c => c = '\x7b' || c = '\x7d') = l := by
      intro l hl
      cases l with
      | nil => rfl
      | cons c l =>
        have h := hl c List.mem_cons_self
        exact List.dropWhile_cons_of_neg (by simp [h.1, h.2])
    unfold stripBraces
    dsimp only
    rw [hdrop _ (fun c hc => (hchar c hc).2),
      hdrop _ (fun c hc => (hchar c (List.mem_reverse.1 hc)).2), List.reverse_reverse]
  have hfilter : (uuidText n).filter (fun c => c ≠ '-') = hexDigits 32 n := by
    have hkeep : ∀ w k, (hexDigits w k).filter (fun c => c ≠ '-') = hexDigits w k := by
      intro w k
      refine List.filter_eq_self.2 fun c hc => ?_
      obtain ⟨d, hd, rfl⟩ := mem_hexDigits hc
      have hall : ∀ d < 16, decide (hexDigit d ≠ '-') = true := by decide
      exact hall d hd
    have h20 := hexDigits_append 20 12 n
    have h16 := hexDigits_append 16 4 (n / 16 ^ 12)
    have h12 := hexDigits_append 12 4 (n / 16 ^ 16)
    have h8 := hexDigits_append 8 4 (n / 16 ^ 20)
    rw [Nat.div_div_eq_div_mul, ← Nat.pow_add] at h16 h12 h8
    rw [uuidText_eq, h20, h16, h12, h8]
    simp only [List.filter_append, List.filter_cons, hkeep, ne_eq, not_true_eq_false,
      decide_false, Bool.false_eq_true, if_false, List.append_assoc]
  unfold uuidOf
  dsimp only
  rw [toChars_ofChars, hwithout, hwithout, hstrip, hfilter, if_pos (length_hexDigits 32 n),
    intBase16_hexDigits hn, Option.filter_some, if_pos (by simpa using hn)]

theorem uuidOf_lt {s : String} (h : uuidOf s = some n) : n < 2 ^ 128 := by
  unfold uuidOf at h
  dsimp only at h
  split_ifs at h
  exact of_decide_eq_true (Option.filter_eq_some_iff.1 h).2

end OpsControlPlane
