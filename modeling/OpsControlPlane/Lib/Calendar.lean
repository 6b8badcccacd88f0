import OpsControlPlane.Lib.Text
import Mathlib.Data.String.Basic
import Mathlib.Tactic

/-!
# Calendar

Instants of the proleptic Gregorian calendar to the microsecond, from year 1 to year
9999, and their ISO 8601 text in UTC with six digits of a second. An instant is its
number of microseconds since 0001-01-01, and it carries the bound.

`isoformat_lt` says that the texts are in the order of the instants, so a comparison of
two texts is a comparison of two instants (`isoformat_le_iff`), and `readIso_isoformat`
that a text reads back as its instant. Both rest on `dayIndex_ord2ymd`, the inverse of
the split of a day into year, month and day, and on `dayIndex_lt`, which says that the
days of the calendar are in lexicographic order.
-/

namespace Calendar

open Text

/-! ## Days -/

def isLeap (y : ℕ) : Bool :=
  y % 4 = 0 ∧ (y % 100 ≠ 0 ∨ y % 400 = 0)

def daysBeforeYear (y : ℕ) : ℕ :=
  (y - 1) * 365 + (y - 1) / 4 - (y - 1) / 100 + (y - 1) / 400

/-- Days of the year before the month, out of a leap year. -/
def monthStart : ℕ → ℕ
  | 1 => 0
  | 2 => 31
  | 3 => 59
  | 4 => 90
  | 5 => 120
  | 6 => 151
  | 7 => 181
  | 8 => 212
  | 9 => 243
  | 10 => 273
  | 11 => 304
  | 12 => 334
  | _ => 365

def daysBeforeMonth (leap : Bool) (m : ℕ) : ℕ :=
  monthStart m + if 2 < m ∧ leap = true then 1 else 0

def daysInMonth (leap : Bool) (m : ℕ) : ℕ :=
  daysBeforeMonth leap (m + 1) - daysBeforeMonth leap m

/-- The number of a day, January 1st of year 1 being 0. -/
def dayIndex (y m d : ℕ) : ℕ :=
  daysBeforeYear y + daysBeforeMonth (isLeap y) m + (d - 1)

def validYmd (y m d : ℕ) : Prop :=
  1 ≤ y ∧ (1 ≤ m ∧ m ≤ 12) ∧ 1 ≤ d ∧ d ≤ daysInMonth (isLeap y) m

instance (y m d : ℕ) : Decidable (validYmd y m d) :=
  inferInstanceAs (Decidable (_ ∧ _))

/-- The month and the day of the `n`-th day of a year, counted from 0. -/
def monthDay (leap : Bool) (n : ℕ) : ℕ × ℕ :=
  if daysBeforeMonth leap ((n + 50) / 32) > n then
    ((n + 50) / 32 - 1, n - daysBeforeMonth leap ((n + 50) / 32 - 1) + 1)
  else ((n + 50) / 32, n - daysBeforeMonth leap ((n + 50) / 32) + 1)

def yearDay (n : ℕ) : ℕ × ℕ :=
  let n400 := n / 146097
  let n100 := n % 146097 / 36524
  let n4 := n % 146097 % 36524 / 1461
  let n1 := n % 146097 % 36524 % 1461 / 365
  let year := n400 * 400 + n100 * 100 + n4 * 4 + n1 + 1
  if n1 = 4 ∨ n100 = 4 then (year - 1, 365) else (year, n % 146097 % 36524 % 1461 % 365)

/-- Year, month and day of a day. -/
def ord2ymd (n : ℕ) : ℕ × ℕ × ℕ :=
  ((yearDay n).1, monthDay (isLeap (yearDay n).1) (yearDay n).2)

def yearLength (y : ℕ) : ℕ :=
  if isLeap y then 366 else 365

theorem monthDay_spec (leap : Bool) : ∀ n < if leap then 366 else 365,
    (1 ≤ (monthDay leap n).1 ∧ (monthDay leap n).1 ≤ 12) ∧
    (1 ≤ (monthDay leap n).2 ∧ (monthDay leap n).2 ≤ daysInMonth leap (monthDay leap n).1) ∧
    daysBeforeMonth leap (monthDay leap n).1 + ((monthDay leap n).2 - 1) = n := by
  cases leap <;> decide +kernel

variable {y c d m w n : ℕ}

theorem isLeap_iff : isLeap y = true ↔ y % 4 = 0 ∧ (y % 100 ≠ 0 ∨ y % 400 = 0) := by
  simp [isLeap]

theorem yearLength_eq (y : ℕ) : yearLength y =
    if y % 4 = 0 ∧ (y % 100 ≠ 0 ∨ y % 400 = 0) then 366 else 365 := by
  simp only [yearLength, isLeap_iff]

theorem daysBeforeYear_cycles {a b : ℕ} (hb : b < 4) (hc : c < 25) (hd : d < 4) :
    daysBeforeYear (400 * a + 100 * b + 4 * c + d + 1) =
      146097 * a + 36524 * b + 1461 * c + 365 * d := by
  have h4 : (400 * a + 100 * b + 4 * c + d) / 4 = 100 * a + 25 * b + c := by omega
  have h100 : (400 * a + 100 * b + 4 * c + d) / 100 = 4 * a + b := by omega
  have h400 : (400 * a + 100 * b + 4 * c + d) / 400 = a := by omega
  rw [daysBeforeYear, Nat.add_sub_cancel, h4, h100, h400]
  omega

theorem yearLength_cycles {a b : ℕ} (hb : b < 4) (hc : c < 25) (hd : d < 4) :
    yearLength (400 * a + 100 * b + 4 * c + d + 1) =
      if d = 3 ∧ (c ≠ 24 ∨ b = 3) then 366 else 365 := by
  have h : ((400 * a + 100 * b + 4 * c + d + 1) % 4 = 0 ∧
      ((400 * a + 100 * b + 4 * c + d + 1) % 100 ≠ 0 ∨
        (400 * a + 100 * b + 4 * c + d + 1) % 400 = 0)) ↔ d = 3 ∧ (c ≠ 24 ∨ b = 3) := by
    omega
  rw [yearLength_eq]
  simp only [h]

theorem yearDay_spec (n : ℕ) : 1 ≤ (yearDay n).1 ∧ (yearDay n).2 < yearLength (yearDay n).1 ∧
    daysBeforeYear (yearDay n).1 + (yearDay n).2 = n := by
  have key : ∃ a b c d r, b < 4 ∧ c < 25 ∧ d < 4 ∧
      yearDay n = (400 * a + 100 * b + 4 * c + d + 1, r) ∧
      n = 146097 * a + 36524 * b + 1461 * c + 365 * d + r ∧
      (r < 365 ∨ r = 365 ∧ d = 3 ∧ (c ≠ 24 ∨ b = 3)) := by
    unfold yearDay
    dsimp only
    split_ifs with h
    · rcases h with h1 | h100
      · exact ⟨n / 146097, n % 146097 / 36524, n % 146097 % 36524 / 1461, 3, 365, by omega,
          by omega, by omega, Prod.ext (by simp only; omega) rfl, by omega, by omega⟩
      · exact ⟨n / 146097, 3, 24, 3, 365, by omega, by omega, by omega,
          Prod.ext (by simp only; omega) rfl, by omega, by omega⟩
    · exact ⟨n / 146097, n % 146097 / 36524, n % 146097 % 36524 / 1461,
        n % 146097 % 36524 % 1461 / 365, _, by omega, by omega, by omega,
        Prod.ext (by simp only; omega) rfl, by omega, by omega⟩
  obtain ⟨a, b, c, d, r, hb, hc, hd, hy, hn, hr⟩ := key
  rw [hy, yearLength_cycles hb hc hd, daysBeforeYear_cycles hb hc hd]
  refine ⟨by omega, ?_, hn.symm⟩
  split_ifs <;> omega

theorem validYmd_ord2ymd (n : ℕ) :
    validYmd (ord2ymd n).1 (ord2ymd n).2.1 (ord2ymd n).2.2 := by
  obtain ⟨hy, hn, -⟩ := yearDay_spec n
  obtain ⟨hm, hd, -⟩ := monthDay_spec (isLeap (yearDay n).1) (yearDay n).2 hn
  exact ⟨hy, hm, hd⟩

theorem dayIndex_ord2ymd (n : ℕ) :
    dayIndex (ord2ymd n).1 (ord2ymd n).2.1 (ord2ymd n).2.2 = n := by
  obtain ⟨-, hn, hsum⟩ := yearDay_spec n
  obtain ⟨-, -, hmd⟩ := monthDay_spec (isLeap (yearDay n).1) (yearDay n).2 hn
  simp only [dayIndex, ord2ymd]
  omega

theorem daysBeforeYear_succ (hy : 1 ≤ y) :
    daysBeforeYear (y + 1) = daysBeforeYear y + yearLength y := by
  obtain ⟨x, rfl⟩ : ∃ x, y = x + 1 := ⟨y - 1, by omega⟩
  have hle : x / 100 ≤ x / 4 := Nat.div_le_div_left (by decide) (by decide)
  rw [yearLength_eq, daysBeforeYear, daysBeforeYear]
  simp only [Nat.add_sub_cancel, Nat.succ_div, Nat.dvd_iff_mod_eq_zero]
  split_ifs <;> omega

theorem daysBeforeYear_le {z : ℕ} (hy : 1 ≤ y) (h : y < z) :
    daysBeforeYear y + yearLength y ≤ daysBeforeYear z := by
  induction z, h using Nat.le_induction with
  | base => exact (daysBeforeYear_succ hy).ge
  | succ z hz ih =>
    have := daysBeforeYear_succ (hy.trans (Nat.le_of_succ_le hz))
    omega

theorem month_fits (leap : Bool) : ∀ m ≤ 12, 1 ≤ m →
    daysBeforeMonth leap m + daysInMonth leap m ≤ if leap then 366 else 365 := by
  cases leap <;> decide

theorem month_step (leap : Bool) : ∀ k ≤ 12, ∀ m < k, 1 ≤ m →
    daysBeforeMonth leap m + daysInMonth leap m ≤ daysBeforeMonth leap k := by
  cases leap <;> decide

theorem dayIndex_lt {y' m' d' : ℕ} (h : validYmd y m d) (h' : validYmd y' m' d')
    (hlt : y < y' ∨ y = y' ∧ (m < m' ∨ m = m' ∧ d < d')) : dayIndex y m d < dayIndex y' m' d' := by
  obtain ⟨hy, ⟨hm1, hm2⟩, hd1, hd2⟩ := h
  obtain ⟨-, ⟨-, hm2'⟩, hd1', -⟩ := h'
  have hfit : daysBeforeMonth (isLeap y) m + daysInMonth (isLeap y) m ≤ yearLength y :=
    month_fits (isLeap y) m hm2 hm1
  unfold dayIndex
  rcases hlt with hlt | ⟨rfl, hlt | ⟨rfl, hlt⟩⟩
  · have := daysBeforeYear_le hy hlt
    omega
  · have := month_step (isLeap y) m' hm2' m hlt hm1
    omega
  · omega

/-! ## Instants -/

/-- Microseconds from year 1 to year 9999, 3652059 days. -/
abbrev maxMicros : ℕ := 315537897600000000

structure DateTime where
  micros : ℕ
  lt_max : micros < maxMicros
deriving DecidableEq

instance : LinearOrder DateTime :=
  LinearOrder.lift' DateTime.micros fun a b h => by cases a; cases b; simpa using h

variable {a b : DateTime}

theorem DateTime.le_iff : a ≤ b ↔ a.micros ≤ b.micros :=
  Iff.rfl

theorem DateTime.lt_iff : a < b ↔ a.micros < b.micros :=
  lt_iff_lt_of_le_iff_le DateTime.le_iff

/-- The instant `δ` microseconds later. None if it leaves the calendar. -/
def DateTime.shift (t : DateTime) (δ : ℤ) : Option DateTime :=
  if h : 0 ≤ (t.micros : ℤ) + δ ∧ ((t.micros : ℤ) + δ).toNat < maxMicros then
    some ⟨((t.micros : ℤ) + δ).toNat, h.2⟩
  else none

/-- The instant `s` seconds later. -/
def DateTime.addSeconds (t : DateTime) (s : ℤ) : Option DateTime :=
  t.shift (s * 1000000)

theorem DateTime.micros_addSeconds {t u : DateTime} {s : ℤ} (h : t.addSeconds s = some u) :
    (u.micros : ℤ) = t.micros + s * 1000000 := by
  unfold addSeconds shift at h
  split_ifs at h with hb
  obtain rfl := Option.some.inj h
  simp only
  omega

def DateTime.day (t : DateTime) : ℕ :=
  t.micros / 86400000000

/-- Microseconds since the start of the day. -/
def DateTime.inDay (t : DateTime) : ℕ :=
  t.micros % 86400000000

theorem DateTime.day_lt (t : DateTime) : t.day < 3652059 := by
  have h : t.micros < 315537897600000000 := t.lt_max
  simp only [day]
  omega

theorem DateTime.inDay_lt (t : DateTime) : t.inDay < 86400000000 :=
  Nat.mod_lt _ (by decide)

theorem DateTime.micros_eq (t : DateTime) : t.micros = 86400000000 * t.day + t.inDay :=
  (Nat.div_add_mod _ _).symm

/-- Year, month, day, hour, minute, second and microsecond. -/
def DateTime.fields (t : DateTime) : List ℕ :=
  [(ord2ymd t.day).1, (ord2ymd t.day).2.1, (ord2ymd t.day).2.2, t.inDay / 3600000000,
    t.inDay / 60000000 % 60, t.inDay / 1000000 % 60, t.inDay % 1000000]

/-- Earlier instants have lexicographically smaller fields. -/
theorem DateTime.fields_lt (h : a < b) : a.fields < b.fields := by
  rw [lt_iff, a.micros_eq, b.micros_eq] at h
  have hda := dayIndex_ord2ymd a.day
  have hdb := dayIndex_ord2ymd b.day
  have hva := validYmd_ord2ymd a.day
  have hvb := validYmd_ord2ymd b.day
  have hia := a.inDay_lt
  have hib := b.inDay_lt
  simp only [fields]
  generalize ord2ymd a.day = p at *
  generalize ord2ymd b.day = q at *
  simp only [List.cons_lt_cons_iff]
  have htri : (p.1 < q.1 ∨ p.1 = q.1 ∧ (p.2.1 < q.2.1 ∨ p.2.1 = q.2.1 ∧ p.2.2 < q.2.2)) ∨
      (q.1 < p.1 ∨ q.1 = p.1 ∧ (q.2.1 < p.2.1 ∨ q.2.1 = p.2.1 ∧ q.2.2 < p.2.2)) ∨
      (p.1 = q.1 ∧ p.2.1 = q.2.1 ∧ p.2.2 = q.2.2) := by
    omega
  rcases htri with hlt | hgt | ⟨h1, h2, h3⟩
  · rcases hlt with h1 | ⟨h1, h2 | ⟨h2, h3⟩⟩
    · exact Or.inl h1
    · exact Or.inr ⟨h1, Or.inl h2⟩
    · exact Or.inr ⟨h1, Or.inr ⟨h2, Or.inl h3⟩⟩
  · have := dayIndex_lt hvb hva hgt
    omega
  · have hday : a.day = b.day := by rw [← hda, ← hdb, h1, h2, h3]
    refine Or.inr ⟨h1, Or.inr ⟨h2, Or.inr ⟨h3, ?_⟩⟩⟩
    simp only [List.not_lt_nil, and_false, or_false]
    omega

/-! ## Text -/

/-- The last `w` decimal digits of a number. -/
def digits : ℕ → ℕ → List Char
  | 0, _ => []
  | w + 1, n => digits w (n / 10) ++ [Nat.digitChar (n % 10)]

/-- The fields, each with its width and the separator behind it. -/
def render : List (ℕ × Char) → List ℕ → List Char
  | (w, sep) :: ws, f :: fs => digits w f ++ sep :: render ws fs
  | _, _ => []

/-- Widths and separators of ISO 8601 with microseconds, in UTC. -/
def isoShape : List (ℕ × Char) :=
  [(4, '-'), (2, '-'), (2, 'T'), (2, ':'), (2, ':'), (2, '.'), (6, 'Z')]

/-- ISO 8601 text in UTC with microseconds. -/
def isoformat (t : DateTime) : String :=
  ofChars (render isoShape t.fields)

theorem length_digits (w n : ℕ) : (digits w n).length = w := by
  induction w generalizing n with
  | zero => rfl
  | succ w ih => simp [digits, ih]

theorem digitChar_lt : ∀ n < 10, ∀ m < n, Nat.digitChar m < Nat.digitChar n := by
  decide

theorem digits_lt (hn : n < 10 ^ w) (h : m < n) (s t : List Char) :
    digits w m ++ s < digits w n ++ t := by
  induction w generalizing m n s t with
  | zero => omega
  | succ w ih =>
    simp only [digits, List.append_assoc]
    rcases Nat.lt_or_ge (m / 10) (n / 10) with hlt | hge
    · exact ih (by omega) hlt _ _
    · have heq : m / 10 = n / 10 := by omega
      rw [heq]
      refine List.append_left_lt (List.cons_lt_cons_iff.2 (Or.inl ?_))
      exact digitChar_lt _ (Nat.mod_lt _ (by decide)) _ (by omega)

inductive Fits : List (ℕ × Char) → List ℕ → Prop
  | nil : Fits [] []
  | cons {w f : ℕ} {sep : Char} {ws : List (ℕ × Char)} {fs : List ℕ} (h : f < 10 ^ w)
      (hs : Fits ws fs) : Fits ((w, sep) :: ws) (f :: fs)

variable {ws : List (ℕ × Char)}

theorem render_lt {fs gs : List ℕ} (hg : Fits ws gs) (hf : Fits ws fs) (h : fs < gs) :
    render ws fs < render ws gs := by
  induction hg generalizing fs with
  | nil =>
    cases hf
    exact absurd h (List.lt_irrefl _)
  | cons hb hs ih =>
    cases hf with
    | cons hb' hs' =>
      rcases List.cons_lt_cons_iff.1 h with hlt | ⟨rfl, hlt⟩
      · exact digits_lt hb hlt _ _
      · exact List.append_left_lt (List.cons_lt_cons_iff.2 (Or.inr ⟨rfl, ih hs' hlt⟩))

theorem year_lt (t : DateTime) : (ord2ymd t.day).1 < 10000 := by
  have hd := dayIndex_ord2ymd t.day
  have hv := validYmd_ord2ymd t.day
  have hlt := t.day_lt
  by_contra hge
  have h9999 : validYmd 9999 12 31 := by unfold validYmd; decide
  have h := dayIndex_lt h9999 hv (Or.inl (by omega))
  rw [hd, show dayIndex 9999 12 31 = 3652058 from by decide] at h
  omega

theorem daysInMonth_le (leap : Bool) : ∀ m ≤ 12, 1 ≤ m → daysInMonth leap m ≤ 31 := by
  cases leap <;> decide

theorem fits_fields (t : DateTime) : Fits isoShape t.fields := by
  have hy := year_lt t
  obtain ⟨-, ⟨hm1, hm2⟩, -, hd⟩ := validYmd_ord2ymd t.day
  have hd31 := daysInMonth_le (isLeap (ord2ymd t.day).1) _ hm2 hm1
  have hs := t.inDay_lt
  unfold isoShape DateTime.fields
  generalize ord2ymd t.day = p at *
  exact .cons hy (.cons (by omega) (.cons (by omega) (.cons (by omega) (.cons (by omega)
    (.cons (by omega) (.cons (by omega) .nil))))))

theorem isoformat_lt (h : a < b) : isoformat a < isoformat b :=
  ofChars_lt_ofChars.2 (render_lt (fits_fields b) (fits_fields a) (DateTime.fields_lt h))

theorem isoformat_strictMono : StrictMono isoformat :=
  fun _ _ h => isoformat_lt h

theorem isoformat_le_iff : isoformat a ≤ isoformat b ↔ a ≤ b :=
  isoformat_strictMono.le_iff_le

theorem isoformat_lt_iff : isoformat a < isoformat b ↔ a < b :=
  isoformat_strictMono.lt_iff_lt

/-! ## Reading a text -/

/-- The value of `w` decimal digits behind the digits of `acc`, and what follows them. -/
def readDigits : ℕ → ℕ → List Char → Option (ℕ × List Char)
  | 0, acc, s => some (acc, s)
  | _ + 1, _, [] => none
  | w + 1, acc, c :: s =>
    if c.isDigit then readDigits w (10 * acc + (c.toNat - 48)) s else none

/-- The fields, each of its width and in front of its separator, and what follows. -/
def readFields : List (ℕ × Char) → List Char → Option (List ℕ × List Char)
  | [], s => some ([], s)
  | (w, sep) :: ws, s =>
    match readDigits w 0 s with
    | some (f, c :: r) =>
      if c = sep then (readFields ws r).map fun (fs, r) => (f :: fs, r) else none
    | _ => none

def ofFields : List ℕ → Option DateTime
  | [y, m, d, hour, minute, second, μs] =>
    let n := 86400000000 * dayIndex y m d + 3600000000 * hour + 60000000 * minute +
      1000000 * second + μs
    if h : n < maxMicros then
      if validYmd y m d ∧ hour < 24 ∧ minute < 60 ∧ second < 60 then some ⟨n, h⟩ else none
    else none
  | _ => none

def readIso (s : String) : Option DateTime :=
  match readFields isoShape (toChars s) with
  | some (fs, []) => ofFields fs
  | _ => none

theorem readDigits_succ (w acc : ℕ) (s : List Char) :
    readDigits (w + 1) acc s = (readDigits w acc s).bind fun p => readDigits 1 p.1 p.2 := by
  induction w generalizing acc s with
  | zero => rfl
  | succ w ih =>
    cases s with
    | nil => rfl
    | cons c s =>
      rw [readDigits, readDigits]
      split_ifs
      · exact ih _ s
      · rfl

theorem digitChar_value : ∀ n < 10, (Nat.digitChar n).isDigit = true ∧
    (Nat.digitChar n).toNat - 48 = n := by
  decide

theorem readDigits_digits (h : n < 10 ^ w) (acc : ℕ) (s : List Char) :
    readDigits w acc (digits w n ++ s) = some (10 ^ w * acc + n, s) := by
  induction w generalizing n s with
  | zero =>
    obtain rfl : n = 0 := by omega
    simp [digits, readDigits]
  | succ w ih =>
    obtain ⟨h1, h2⟩ := digitChar_value (n % 10) (Nat.mod_lt _ (by decide))
    have hn : 10 * (10 ^ w * acc + n / 10) + n % 10 = 10 ^ (w + 1) * acc + n := by
      have hp : 10 ^ (w + 1) * acc = 10 * (10 ^ w * acc) := by ring
      omega
    rw [readDigits_succ, digits, List.append_assoc, ih (by omega), Option.bind_some,
      List.singleton_append, readDigits, if_pos h1, readDigits, h2, hn]

theorem readFields_render {fs : List ℕ} (h : Fits ws fs) :
    readFields ws (render ws fs) = some (fs, []) := by
  induction h with
  | nil => rfl
  | cons hf _ ih =>
    rw [render, readFields, readDigits_digits hf]
    simp [ih]

theorem ofFields_fields (t : DateTime) : ofFields t.fields = some t := by
  have hd := dayIndex_ord2ymd t.day
  have hv := validYmd_ord2ymd t.day
  have hi := t.inDay_lt
  have ht := t.micros_eq
  unfold DateTime.fields ofFields
  have hn : 86400000000 * dayIndex (ord2ymd t.day).1 (ord2ymd t.day).2.1 (ord2ymd t.day).2.2 +
      3600000000 * (t.inDay / 3600000000) + 60000000 * (t.inDay / 60000000 % 60) +
      1000000 * (t.inDay / 1000000 % 60) + t.inDay % 1000000 = t.micros := by
    rw [hd]
    omega
  simp only [hn, t.lt_max, dif_pos]
  rw [if_pos ⟨hv, by omega, by omega, by omega⟩]

theorem readIso_isoformat (t : DateTime) : readIso (isoformat t) = some t := by
  rw [readIso, isoformat, toChars_ofChars, readFields_render (fits_fields t)]
  exact ofFields_fields t

theorem length_isoformat (t : DateTime) : (isoformat t).length = 27 := by
  rw [isoformat, length_ofChars]
  simp [isoShape, DateTime.fields, render, length_digits]

end Calendar
