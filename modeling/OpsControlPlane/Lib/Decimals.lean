import Mathlib.Data.List.DropRight
import Mathlib.Algebra.Order.Ring.Nat
import Mathlib.Tactic.Ring
import OpsControlPlane.Lib.JsonText
import OpsControlPlane.Lib.Calendar

/-!
# Decimal numbers and their texts

A decimal number is a sign, a coefficient and an exponent of ten. `ofText` reads the texts the
`Decimal` constructor of the host reads, `fixed` writes a number without an exponent, and
`trimmed` drops the zeros at its end. `Plain` is the shape of an amount: digits without a
needless zero in front, with at most twelve digits behind a point. `plain_trimmed` says that the
trimmed text of an amount with twelve digits behind the point has the shape.
-/

namespace Decimals

open Text JsonText

/-- What the host knows of characters outside ASCII: a decimal digit has its value in ASCII, a
space is a space. -/
structure Unicode where
  plain : Char → Char
  ascii : ∀ c, c.toNat < 128 → plain c = c

/-- A number of the `decimal` module. -/
inductive Decimal where
  | finite (neg : Bool) (coeff : ℕ) (exp : ℤ)
  | infinite (neg : Bool)
  | nan
deriving DecidableEq

/-! ## Reading -/

/-- `str.isspace` of an ASCII character. -/
def isSpace (c : Char) : Bool :=
  c.toNat = 32 || (9 ≤ c.toNat && c.toNat ≤ 13) || (28 ≤ c.toNat && c.toNat ≤ 31)

def strip (s : List Char) : List Char :=
  (s.dropWhile isSpace).rdropWhile isSpace

def digitsText (s : List Char) : Bool :=
  !s.isEmpty && s.all Char.isDigit

/-- The exponent behind the digits of a number. -/
def exponent : List Char → Option ℤ
  | [] => some 0
  | c :: s =>
    if c = 'e' ∨ c = 'E' then
      match s with
      | '-' :: ds => if digitsText ds then some (-(Nat.ofDigitChars 10 ds 0 : ℤ)) else none
      | '+' :: ds => if digitsText ds then some (Nat.ofDigitChars 10 ds 0) else none
      | ds => if digitsText ds then some (Nat.ofDigitChars 10 ds 0) else none
    else none

/-- The digits behind the point, and what follows them. -/
def fraction : List Char → List Char × List Char
  | '.' :: s => (s.takeWhile Char.isDigit, s.dropWhile Char.isDigit)
  | s => ([], s)

/-- A number without its sign. -/
def unsigned (neg : Bool) (s : List Char) : Option Decimal :=
  let int := s.takeWhile Char.isDigit
  let tail := fraction (s.dropWhile Char.isDigit)
  (exponent tail.2).bind fun e =>
    -- the exponents of the module have at most eighteen digits
    if int ++ tail.1 ≠ [] ∧ e.natAbs < 10 ^ 18 then
      some (.finite neg (Nat.ofDigitChars 10 (int ++ tail.1) 0) (e - tail.1.length))
    else none

/-- A number behind its sign, or one of the words for what is no number. -/
def magnitude (neg : Bool) (s : List Char) : Option Decimal :=
  let word := s.map Char.toLower
  if word = ['i', 'n', 'f'] ∨ word = ['i', 'n', 'f', 'i', 'n', 'i', 't', 'y'] then
    some (.infinite neg)
  else if (word.take 3 = ['n', 'a', 'n'] ∧ (word.drop 3).all Char.isDigit) ∨
      (word.take 4 = ['s', 'n', 'a', 'n'] ∧ (word.drop 4).all Char.isDigit) then some .nan
  else unsigned neg s

def signed : List Char → Option Decimal
  | '-' :: s => magnitude true s
  | '+' :: s => magnitude false s
  | s => magnitude false s

def ofText (u : Unicode) (s : String) : Option Decimal :=
  signed ((strip ((toChars s).map u.plain)).filter fun c => c ≠ '_')

/-! ## Writing -/

def fixedMagnitude (coeff : ℕ) (exp : ℤ) : List Char :=
  if 0 ≤ exp then
    if coeff = 0 then ['0'] else Nat.toDigits 10 (coeff * 10 ^ exp.toNat)
  else Nat.toDigits 10 (coeff / 10 ^ exp.natAbs) ++
    '.' :: Calendar.digits exp.natAbs (coeff % 10 ^ exp.natAbs)

/-- `format(amount, "f")` of a finite number. -/
def fixed (neg : Bool) (coeff : ℕ) (exp : ℤ) : List Char :=
  (if neg then ['-'] else []) ++ fixedMagnitude coeff exp

/-- Without the zeros behind the point, and without a point at the end. -/
def trimmed (s : List Char) : List Char :=
  if '.' ∈ s then (s.rdropWhile (· = '0')).rdropWhile (· = '.') else s

def above (n coeff : ℕ) (exp : ℤ) : Prop :=
  n * 10 ^ (-exp).toNat < coeff * 10 ^ exp.toNat

instance (n coeff : ℕ) (exp : ℤ) : Decidable (above n coeff exp) := by
  unfold above
  infer_instance

/-! ## Amounts -/

/-- Digits without a needless zero in front. -/
def intText (s : List Char) : Bool :=
  s = ['0'] || (digitsText s && s.head? != some '0')

/-- Nothing, or a point and up to twelve digits. -/
def fracText : List Char → Bool
  | [] => true
  | c :: s => c = '.' && digitsText s && decide (s.length ≤ 12)

/-- `(?:0|[1-9][0-9]*)(?:\.[0-9]{1,12})?`, with as many digits in front as `fits` allows. -/
def amountText (fits : ℕ → Bool) (s : List Char) : Bool :=
  intText (s.takeWhile Char.isDigit) && fits (s.takeWhile Char.isDigit).length &&
    fracText (s.dropWhile Char.isDigit)

/-- The text of an amount of at least `q` and less than `q + 1`. -/
inductive Plain (q : ℕ) : List Char → Prop
  | whole : Plain q (Nat.toDigits 10 q)
  | frac {ds : List Char} (hne : ds ≠ []) (hds : ∀ c ∈ ds, c.isDigit = true)
    (hlen : ds.length ≤ 12) : Plain q (Nat.toDigits 10 q ++ '.' :: ds)

/-! ### Trimming -/

variable {α : Type*} {p : α → Bool}

theorem rdropWhile_append (l r : List α) : (l ++ r).rdropWhile p =
      if r.rdropWhile p = [] then l.rdropWhile p else l ++ r.rdropWhile p := by
  unfold List.rdropWhile
  rw [List.reverse_append, List.dropWhile_append]
  simp only [List.isEmpty_iff, List.reverse_eq_nil_iff]
  split_ifs <;> simp

theorem rdropWhile_eq_self {l : List α} (h : ∀ a ∈ l, p a = false) : l.rdropWhile p = l :=
  List.rdropWhile_eq_self_iff.2 fun hl => by simp [h _ (List.getLast_mem hl)]

/-- The zeros behind a point go, and the point with them when nothing else follows it. -/
theorem trimmed_point {l ds : List Char} (hl : ∀ c ∈ l, c ≠ '.') (hds : ∀ c ∈ ds, c ≠ '.') :
    trimmed (l ++ '.' :: ds) =
      if ds.rdropWhile (· = '0') = [] then l else l ++ '.' :: ds.rdropWhile (· = '0') := by
  have hmem : '.' ∈ l ++ '.' :: ds := by simp
  have hzeros : (l ++ '.' :: ds).rdropWhile (· = '0') =
      l ++ '.' :: ds.rdropWhile (· = '0') := by
    have hpoint : ('.' :: ds).rdropWhile (· = '0') = '.' :: ds.rdropWhile (· = '0') := by
      rw [← List.singleton_append, rdropWhile_append]
      split_ifs with hnil
      · rw [hnil]
        rfl
      · rfl
    rw [rdropWhile_append, hpoint, if_neg (List.cons_ne_nil _ _)]
  rw [trimmed, if_pos hmem, hzeros, ← List.singleton_append, rdropWhile_append]
  have hrest : ∀ c ∈ ds.rdropWhile (· = '0'), decide (c = '.') = false := fun c hc => by
    simpa using hds c ((List.rdropWhile_prefix _ _).subset hc)
  split_ifs with h1 h2 h2
  · exact rdropWhile_eq_self fun c hc => by simpa using hl c hc
  · rw [rdropWhile_append, rdropWhile_eq_self hrest, if_neg h2] at h1
    simp at h1
  · rw [rdropWhile_append, h2] at h1
    simp at h1
  · rw [rdropWhile_append, rdropWhile_eq_self hrest, if_neg h2]

variable {s : List Char}

theorem trimmed_of_not_mem (h : '.' ∉ s) : trimmed s = s := by
  rw [trimmed, if_neg h]

variable {c : Char}

theorem isDigit_ne_point (h : c.isDigit = true) : c ≠ '.' :=
  digit_ne h (by decide)

variable {n coeff q : ℕ}

theorem isDigit_toDigits (h : c ∈ Nat.toDigits 10 n) : c.isDigit = true :=
  Nat.isDigit_of_mem_toDigits (by decide) (by decide) h

theorem isDigit_digits {w : ℕ} (h : c ∈ Calendar.digits w n) : c.isDigit = true := by
  induction w generalizing n with
  | zero => simp [Calendar.digits] at h
  | succ w ih =>
    rcases List.mem_append.1 h with h | h
    · exact ih h
    · rw [List.mem_singleton.1 h]
      have hlt : n % 10 < 10 := Nat.mod_lt _ (by decide)
      interval_cases n % 10 <;> decide

theorem digits_zero (w : ℕ) : Calendar.digits w 0 = List.replicate w '0' := by
  induction w with
  | zero => rfl
  | succ w ih => rw [Calendar.digits, Nat.zero_div, ih, List.replicate_succ']; rfl

variable {exp : ℤ}

theorem fixedMagnitude_whole (h : 0 ≤ exp) :
    fixedMagnitude coeff exp = Nat.toDigits 10 (coeff * 10 ^ exp.toNat) := by
  rw [fixedMagnitude, if_pos h]
  split_ifs with hzero
  · rw [hzero, Nat.zero_mul]
    rfl
  · rfl

theorem fixedMagnitude_point {k : ℕ} (h : 0 < k) : fixedMagnitude coeff (-(k : ℤ)) =
      Nat.toDigits 10 (coeff / 10 ^ k) ++ '.' :: Calendar.digits k (coeff % 10 ^ k) := by
  rw [fixedMagnitude, if_neg (by omega), Int.natAbs_neg, Int.natAbs_natCast]

/-- An amount with at most twelve digits behind the point, up to `n`. -/
theorem plain_trimmed (hexp : -12 ≤ exp) (h : ¬above n coeff exp) :
    ∃ q, Plain q (trimmed (fixedMagnitude coeff exp)) ∧
      (q < n ∨ trimmed (fixedMagnitude coeff exp) = Nat.toDigits 10 n) := by
  unfold above at h
  have hnopoint : ∀ q, '.' ∉ Nat.toDigits 10 q :=
    fun q hq => isDigit_ne_point (isDigit_toDigits hq) rfl
  rcases le_or_gt 0 exp with he | he
  · have hq : coeff * 10 ^ exp.toNat ≤ n := by
      simpa [Int.toNat_of_nonpos (neg_nonpos.2 he)] using h
    rw [fixedMagnitude_whole he, trimmed_of_not_mem (hnopoint _)]
    refine ⟨_, .whole, ?_⟩
    rcases hq.lt_or_eq with hq | hq
    · exact Or.inl hq
    · exact Or.inr (by rw [hq])
  · obtain ⟨k, rfl⟩ : ∃ k : ℕ, exp = -(k : ℤ) := ⟨exp.natAbs, by omega⟩
    have hle : coeff ≤ n * 10 ^ k := by
      simpa [Int.toNat_of_nonpos he.le] using h
    rw [fixedMagnitude_point (by omega),
      trimmed_point (fun c hc => isDigit_ne_point (isDigit_toDigits hc))
      fun c hc => isDigit_ne_point (isDigit_digits hc)]
    have hpos : 0 < 10 ^ k := by positivity
    have hq : coeff / 10 ^ k ≤ n := Nat.div_le_of_le_mul (by rwa [Nat.mul_comm])
    split_ifs with hnil
    · refine ⟨_, .whole, ?_⟩
      rcases hq.lt_or_eq with hq | hq
      · exact Or.inl hq
      · exact Or.inr (by rw [hq])
    · refine ⟨coeff / 10 ^ k, .frac hnil (fun c hc => isDigit_digits
        ((List.rdropWhile_prefix _ _).subset hc)) ?_, Or.inl (lt_of_le_of_ne hq fun heq => hnil ?_)⟩
      · have hlen := (List.rdropWhile_prefix (fun c => decide (c = '0'))
          (Calendar.digits k (coeff % 10 ^ k))).length_le
        rw [Calendar.length_digits] at hlen
        omega
      · -- at the bound nothing is left behind the point
        have hmod : coeff % 10 ^ k = 0 := by
          have := Nat.div_add_mod coeff (10 ^ k)
          rw [heq, Nat.mul_comm] at this
          omega
        rw [hmod, digits_zero]
        exact List.rdropWhile_eq_nil_iff.2 fun c hc => by simp [List.eq_of_mem_replicate hc]

theorem trimmed_negative_zero (exp : ℤ) : trimmed (fixed true 0 exp) = ['-', '0'] := by
  rw [fixed, if_pos rfl]
  rcases le_or_gt 0 exp with he | he
  · rw [fixedMagnitude_whole he, Nat.zero_mul]
    decide
  · obtain ⟨k, rfl⟩ : ∃ k : ℕ, exp = -(k : ℤ) := ⟨exp.natAbs, by omega⟩
    rw [fixedMagnitude_point (by omega), Nat.zero_div, Nat.zero_mod, digits_zero]
    have hzero : ['-'] ++ (Nat.toDigits 10 0 ++ '.' :: List.replicate k '0') =
        ['-', '0'] ++ '.' :: List.replicate k '0' := rfl
    rw [hzero, trimmed_point (by simp) fun c hc => by simp [List.eq_of_mem_replicate hc],
      if_pos (List.rdropWhile_eq_nil_iff.2 fun c hc => by simp [List.eq_of_mem_replicate hc])]

/-! ### The shape -/

theorem Plain.parts (h : Plain q s) :
    ∃ tail, s.takeWhile Char.isDigit = Nat.toDigits 10 q ∧ s.dropWhile Char.isDigit = tail ∧
      fracText tail = true := by
  cases h with
  | whole =>
    obtain ⟨h1, h2⟩ := span_append (p := Char.isDigit) (l := Nat.toDigits 10 q) (r := [])
      (fun c hc => isDigit_toDigits hc) (by simp)
    rw [List.append_nil] at h1 h2
    exact ⟨[], h1, h2, rfl⟩
  | @frac ds hne hds hlen =>
    obtain ⟨h1, h2⟩ := span_append (p := Char.isDigit) (l := Nat.toDigits 10 q) (r := '.' :: ds)
      (fun c hc => isDigit_toDigits hc) (by simp)
    refine ⟨_, h1, h2, ?_⟩
    simp [fracText, digitsText, hne, hlen, List.all_eq_true.2 hds]

theorem amountText_of_plain {fits : ℕ → Bool} (h : Plain q s)
    (hfits : fits (Nat.toDigits 10 q).length = true) : amountText fits s = true := by
  obtain ⟨tail, h1, h2, h3⟩ := h.parts
  have hint : intText (Nat.toDigits 10 q) = true := by
    rcases int_toDigits q with h0 | ⟨c, ds, hds, hc, -, hdigits⟩
    · simp [intText, h0]
    · rw [hds]
      simp [intText, digitsText, hc, List.all_eq_true.2 hdigits]
  rw [amountText, h1, h2, h3, hint, hfits]
  rfl

theorem Plain.ne_nil (h : Plain q s) : s ≠ [] := by
  cases h with
  | whole => exact Nat.toDigits_ne_nil
  | frac => simp

theorem Plain.length_le {k : ℕ} (h : Plain q s) (hk : 0 < k) (hq : q < 10 ^ k) :
    s.length ≤ k + 13 := by
  have hint := (Nat.length_toDigits_le_iff (by decide : 1 < 10) hk).2 hq
  cases h with
  | whole => omega
  | frac _ _ hlen =>
    rw [List.length_append, List.length_cons]
    omega

/-! ### Reading the shape -/

def isPlain (c : Char) : Bool :=
  c.isDigit || c = '.'

theorem Plain.chars (h : Plain q s) : ∀ c ∈ s, isPlain c = true := by
  intro c hc
  cases h with
  | whole => simp [isPlain, isDigit_toDigits hc]
  | frac _ hds _ =>
    rcases List.mem_append.1 hc with hc | hc
    · simp [isPlain, isDigit_toDigits hc]
    · rcases List.mem_cons.1 hc with rfl | hc
      · rfl
      · simp [isPlain, hds c hc]

theorem digit_code (h : c.isDigit = true) : 48 ≤ c.toNat ∧ c.toNat ≤ 57 :=
  Char.isDigit_iff_toNat.1 h

theorem isPlain_cases (h : isPlain c = true) :
    c.toNat < 127 ∧ isSpace c = false ∧ c ≠ '_' ∧ c ≠ '"' ∧ c ≠ '\\' ∧ ¬c.toNat < 32 := by
  have hc : c.toNat = 46 ∨ (48 ≤ c.toNat ∧ c.toNat ≤ 57) := by
    rw [isPlain, Bool.or_eq_true] at h
    rcases h with hd | hp
    · exact Or.inr (digit_code hd)
    · rw [of_decide_eq_true hp]
      exact Or.inl rfl
  have hne : ∀ d : Char, d.toNat ≠ 46 → ¬(48 ≤ d.toNat ∧ d.toNat ≤ 57) → c ≠ d := by
    rintro d h1 h2 rfl
    exact hc.elim h1 h2
  refine ⟨by omega, ?_, hne _ (by decide) (by decide), hne _ (by decide) (by decide),
    hne _ (by decide) (by decide), by omega⟩
  simp only [isSpace, Bool.or_eq_false_iff, Bool.and_eq_false_iff, decide_eq_false_iff_not]
  omega

theorem strip_eq_self (h : ∀ c ∈ s, isSpace c = false) : strip s = s := by
  have hdrop : s.dropWhile isSpace = s := by
    cases s with
    | nil => rfl
    | cons c s => rw [List.dropWhile_cons_of_neg (by simp [h c])]
  rw [strip, hdrop, rdropWhile_eq_self h]

theorem toLower_digit (h : c.isDigit = true) : c.toLower = c := by
  have hcode := digit_code h
  refine dif_neg ?_
  rintro ⟨hupper, -⟩
  have hupper : 65 ≤ c.toNat := hupper
  omega

theorem signed_digit (hc : c.isDigit = true) : signed (c :: s) = unsigned false (c :: s) := by
  have hne : ∀ d : Char, d.isDigit = false → c ≠ d := fun d hd => digit_ne hc hd
  have hsigned : signed (c :: s) = magnitude false (c :: s) := by
    unfold signed
    split
    · next heq => exact absurd (List.cons.inj heq).1 (hne _ (by decide))
    · next heq => exact absurd (List.cons.inj heq).1 (hne _ (by decide))
    · rfl
  rw [hsigned, magnitude]
  simp [toLower_digit hc, hne 'i' (by decide), hne 'n' (by decide), hne 's' (by decide)]

theorem ofDigitChars_lt {ds : List Char} (h : ∀ c ∈ ds, c.isDigit = true) :
    Nat.ofDigitChars 10 ds 0 < 10 ^ ds.length := by
  induction ds using List.reverseRecOn with
  | nil => simp
  | append_singleton ds c ih =>
    have hc := digit_code (h c (by simp))
    have hds := ih fun d hd => h d (by simp [hd])
    rw [Nat.ofDigitChars_append, Nat.ofDigitChars_cons, Nat.ofDigitChars_nil, List.length_append,
      List.length_singleton, pow_succ]
    have hzero : '0'.toNat = 48 := rfl
    omega

/-- A plain amount reads as a number without a sign, not above the bounds it keeps. -/
theorem ofText_plain {u : Unicode} (h : Plain q s) (hq : q < n) :
    ∃ coeff exp, ofText u (ofChars s) = some (.finite false coeff exp) ∧ ¬above n coeff exp := by
  have hmap : s.map u.plain = s := by
    refine (List.map_congr_left fun c hc => ?_).trans (List.map_id s)
    exact u.ascii c (by have := (isPlain_cases (h.chars c hc)).1; omega)
  have hfilter : s.filter (fun c => c ≠ '_') = s := by
    refine List.filter_eq_self.2 fun c hc => ?_
    simpa using (isPlain_cases (h.chars c hc)).2.2.1
  have htext : ofText u (ofChars s) = signed s := by
    rw [ofText, toChars_ofChars, hmap, strip_eq_self fun c hc => (isPlain_cases (h.chars c hc)).2.1,
      hfilter]
  obtain ⟨c, t, hs, hc⟩ : ∃ c t, s = c :: t ∧ c.isDigit = true := by
    obtain ⟨c, ds, hds⟩ := List.exists_cons_of_ne_nil (Nat.toDigits_ne_nil (n := q) (b := 10))
    have hc : c.isDigit = true := isDigit_toDigits (n := q) (by rw [hds]; simp)
    cases h with
    | whole => exact ⟨c, ds, hds, hc⟩
    | @frac rest => exact ⟨c, ds ++ '.' :: rest, by rw [hds]; rfl, hc⟩
  rw [htext, hs, signed_digit hc, ← hs, unsigned]
  obtain ⟨tail, h1, h2, -⟩ := h.parts
  rw [h1, h2]
  cases h with
  | whole =>
    rw [List.dropWhile_eq_nil_iff.2 fun c hc => isDigit_toDigits hc] at h2
    subst h2
    refine ⟨q, 0, ?_, ?_⟩
    · simp [fraction, exponent, Nat.toDigits_ne_nil]
    · simp only [above, Int.toNat_zero, neg_zero, pow_zero, mul_one]
      omega
  | @frac ds hne hds hlen =>
    obtain ⟨-, hrest⟩ := span_append (p := Char.isDigit) (l := Nat.toDigits 10 q) (r := '.' :: ds)
      (fun c hc => isDigit_toDigits hc) (by simp)
    obtain ⟨hd1, hd2⟩ := span_append (p := Char.isDigit) (l := ds) (r := []) hds (by simp)
    rw [List.append_nil] at hd1 hd2
    rw [hrest] at h2
    subst h2
    refine ⟨Nat.ofDigitChars 10 (Nat.toDigits 10 q ++ ds) 0, -(ds.length : ℤ), ?_, ?_⟩
    · simp [fraction, exponent, hd1, hd2, Nat.toDigits_ne_nil]
    · have hlt := ofDigitChars_lt hds
      rw [above, Nat.ofDigitChars_append, Nat.ofDigitChars_eq_ofDigitChars_zero,
        Nat.ofDigitChars_ten_toDigits, neg_neg, Int.toNat_natCast,
        Int.toNat_of_nonpos (by omega), pow_zero, mul_one]
      have hmul : 10 ^ ds.length * q + 10 ^ ds.length ≤ n * 10 ^ ds.length := by
        have := Nat.mul_le_mul_left (10 ^ ds.length) (Nat.succ_le_of_lt hq)
        rw [Nat.mul_succ] at this
        rwa [Nat.mul_comm n]
      omega

end Decimals
