import OpsControlPlane.Lib.JsonText

/-!
# JSON texts in ASCII

`toAscii` writes each character of a JSON text outside the printable ASCII range as `\uXXXX`,
one beyond the basic plane as a surrogate pair. In a JSON text a backslash only starts an
escape (`Escaped`, `escaped_dumps`), so `readAscii` undoes it, and the ASCII text of a value
determines the value (`asciiCanonical_injective`).
-/

namespace JsonText

open Text

/-! ## Writing -/

/-- `\uXXXX` of a code unit. -/
def unitText (n : ℕ) : List Char :=
  ['\\', 'u', hexDigit (n / 4096), hexDigit (n / 256 % 16), hexDigit (n / 16 % 16),
    hexDigit (n % 16)]

def asciiChar (c : Char) : List Char :=
  if c.toNat < 127 then [c]
  else if c.toNat < 65536 then unitText c.toNat
  else unitText (55296 + (c.toNat - 65536) / 1024) ++ unitText (56320 + (c.toNat - 65536) % 1024)

def toAscii (l : List Char) : List Char :=
  l.flatMap asciiChar

/-! ## Reading -/

def readAscii : List Char → List Char
  | '\\' :: 'u' :: a :: b :: c :: d :: '\\' :: 'u' :: e :: f :: g :: h :: r =>
    let n := (hex4 a b c d).getD 0
    let m := (hex4 e f g h).getD 0
    if surrogates n m then (charOf (surrogatePoint n m)).getD 'u' :: readAscii r
    else if n < 127 then
      '\\' :: 'u' :: a :: b :: c :: d :: readAscii ('\\' :: 'u' :: e :: f :: g :: h :: r)
    else (charOf n).getD 'u' :: readAscii ('\\' :: 'u' :: e :: f :: g :: h :: r)
  | '\\' :: 'u' :: a :: b :: c :: d :: r =>
    let n := (hex4 a b c d).getD 0
    if n < 127 then '\\' :: 'u' :: a :: b :: c :: d :: readAscii r
    else (charOf n).getD 'u' :: readAscii r
  | '\\' :: c :: r => '\\' :: c :: readAscii r
  | c :: r => c :: readAscii r
  | [] => []

/-- A text in which a backslash only starts an escape of an ASCII character. -/
inductive Escaped : List Char → Prop
  | nil : Escaped []
  | plain {c : Char} {l : List Char} (hc : c ≠ '\\') (h : Escaped l) : Escaped (c :: l)
  | short {c : Char} {l : List Char} (hc : c ≠ 'u') (hlt : c.toNat < 127) (h : Escaped l) :
    Escaped ('\\' :: c :: l)
  | control {n : ℕ} {l : List Char} (hn : n < 32) (h : Escaped l) :
    Escaped ('\\' :: 'u' :: '0' :: '0' :: hexDigit (n / 16) :: hexDigit (n % 16) :: l)

theorem hex4_unit {n : ℕ} (hn : n < 65536) :
    hex4 (hexDigit (n / 4096)) (hexDigit (n / 256 % 16)) (hexDigit (n / 16 % 16))
      (hexDigit (n % 16)) = some n := by
  rw [hex4, hexVal_hexDigit _ (by omega), hexVal_hexDigit _ (by omega),
    hexVal_hexDigit _ (by omega), hexVal_hexDigit _ (by omega)]
  simp only [Option.bind_eq_bind, Option.bind_some, Option.pure_def, Option.some.injEq]
  omega

/-! ## Reading what was written -/

variable {a b c d : Char} {n : ℕ} {r : List Char}

/-- An escape of a character that is no high surrogate is read on its own. -/
theorem readAscii_unit (hn : hex4 a b c d = some n) (hs : n < 55296 ∨ 56320 ≤ n) :
    readAscii ('\\' :: 'u' :: a :: b :: c :: d :: r) =
      if n < 127 then '\\' :: 'u' :: a :: b :: c :: d :: readAscii r
      else (charOf n).getD 'u' :: readAscii r := by
  rw [readAscii.eq_def]
  split
  · next heq =>
    simp only [List.cons.injEq, true_and] at heq
    obtain ⟨rfl, rfl, rfl, rfl, rfl⟩ := heq
    have hnot : ∀ m, ¬ surrogates n m := by
      rintro m ⟨⟨h1, h2⟩, -⟩
      omega
    simp only [hn, Option.getD_some, if_neg (hnot _)]
  · next heq =>
    simp only [List.cons.injEq, true_and] at heq
    obtain ⟨rfl, rfl, rfl, rfl, rfl⟩ := heq
    simp only [hn, Option.getD_some]
  · next hne heq =>
    simp only [List.cons.injEq, true_and] at heq
    obtain ⟨rfl, rfl⟩ := heq
    exact (hne _ _ _ _ _ rfl rfl).elim
  · next hne heq =>
    simp only [List.cons.injEq] at heq
    obtain ⟨rfl, rfl⟩ := heq
    exact absurd rfl (hne _ _ rfl)
  · next heq => cases heq

theorem readAscii_pair {e f g h : Char} {m : ℕ} (hn : hex4 a b c d = some n)
    (hm : hex4 e f g h = some m) (hs : surrogates n m) :
    readAscii ('\\' :: 'u' :: a :: b :: c :: d :: '\\' :: 'u' :: e :: f :: g :: h :: r) =
      (charOf (surrogatePoint n m)).getD 'u' :: readAscii r := by
  rw [readAscii.eq_def]
  simp only [hn, hm, Option.getD_some, if_pos hs]

theorem readAscii_plain (hc : c ≠ '\\') : readAscii (c :: r) = c :: readAscii r := by
  rw [readAscii.eq_def]
  split
  · next heq => exact absurd (List.cons.inj heq).1 hc
  · next heq => exact absurd (List.cons.inj heq).1 hc
  · next heq => exact absurd (List.cons.inj heq).1 hc
  · next heq =>
    obtain ⟨rfl, rfl⟩ := List.cons.inj heq
    rfl
  · next heq => cases heq

theorem readAscii_short (hc : c ≠ 'u') : readAscii ('\\' :: c :: r) = '\\' :: c :: readAscii r := by
  rw [readAscii.eq_def]
  split
  · next heq => exact absurd (List.cons.inj (List.cons.inj heq).2).1 hc
  · next heq => exact absurd (List.cons.inj (List.cons.inj heq).2).1 hc
  · next heq =>
    obtain ⟨-, heq⟩ := List.cons.inj heq
    obtain ⟨rfl, rfl⟩ := List.cons.inj heq
    rfl
  · next hne heq =>
    obtain ⟨rfl, rfl⟩ := List.cons.inj heq
    exact absurd rfl (hne _ _ rfl)
  · next heq => cases heq

theorem readAscii_asciiChar (hc : c ≠ '\\') : readAscii (asciiChar c ++ r) = c :: readAscii r := by
  unfold asciiChar
  have hvalid : c.toNat < 55296 ∨ 57343 < c.toNat ∧ c.toNat < 1114112 := c.valid
  split_ifs with h1 h2
  · exact readAscii_plain hc
  · have hunit := readAscii_unit (r := r) (hex4_unit h2) (by omega)
    rw [if_neg h1, charOf_toNat] at hunit
    exact hunit
  · have hhi : 55296 + (c.toNat - 65536) / 1024 < 65536 := by omega
    have hlo : 56320 + (c.toNat - 65536) % 1024 < 65536 := by omega
    have hpair := readAscii_pair (r := r) (hex4_unit hhi) (hex4_unit hlo)
      ⟨⟨by omega, by omega⟩, by omega, by omega⟩
    have hpoint : surrogatePoint (55296 + (c.toNat - 65536) / 1024)
        (56320 + (c.toNat - 65536) % 1024) = c.toNat := by
      unfold surrogatePoint
      omega
    rw [hpoint, charOf_toNat] at hpair
    exact hpair

theorem asciiChar_of_lt (h : c.toNat < 127) : asciiChar c = [c] :=
  if_pos h

variable {l : List Char}

theorem readAscii_toAscii (h : Escaped l) : readAscii (toAscii l) = l := by
  have hcons : ∀ (c : Char) (l : List Char), toAscii (c :: l) = asciiChar c ++ toAscii l :=
    fun _ _ => List.flatMap_cons
  induction h with
  | nil => rfl
  | plain hc h ih => rw [hcons, readAscii_asciiChar hc, ih]
  | @short c l hc hlt h ih =>
    rw [hcons, hcons, asciiChar_of_lt hlt, asciiChar_of_lt (by decide)]
    exact (readAscii_short hc).trans (congrArg (fun l => '\\' :: c :: l) ih)
  | @control n l hn h ih =>
    have hdigit : ∀ m < 16, (hexDigit m).toNat < 127 := by decide
    have hhex : hex4 '0' '0' (hexDigit (n / 16)) (hexDigit (n % 16)) = some n := by
      have h := hex4_unit (n := n) (by omega)
      rwa [show n / 4096 = 0 by omega, show n / 256 % 16 = 0 by omega,
        show n / 16 % 16 = n / 16 by omega] at h
    have hunit := readAscii_unit (r := toAscii l) hhex (by omega)
    rw [if_pos (by omega), ih] at hunit
    rw [hcons, hcons, hcons, hcons, hcons, hcons, asciiChar_of_lt (by decide),
      asciiChar_of_lt (by decide), asciiChar_of_lt (by decide),
      asciiChar_of_lt (hdigit _ (by omega)), asciiChar_of_lt (hdigit _ (by omega))]
    exact hunit

/-! ## Texts of values -/

theorem Escaped.append {l' : List Char} (h : Escaped l) (h' : Escaped l') : Escaped (l ++ l') := by
  induction h with
  | nil => exact h'
  | plain hc _ ih => exact .plain hc ih
  | short hc hlt _ ih => exact .short hc hlt ih
  | control hn _ ih => exact .control hn ih

theorem escaped_of_plain (h : ∀ c ∈ l, c ≠ '\\') : Escaped l := by
  induction l with
  | nil => exact .nil
  | cons c l ih => exact .plain (h c List.mem_cons_self) (ih fun d hd => h d (by simp [hd]))

theorem escaped_escape (c : Char) : Escaped (escape c) := by
  have hletter : ∀ d : Char, d ≠ 'u' ∧ d.toNat < 127 → Escaped ['\\', d] :=
    fun d hd => .short hd.1 hd.2 .nil
  unfold escape
  split_ifs with h1 h2 h3 h4 h5 h6 h7 h8
  · exact hletter _ (by decide)
  · exact hletter _ (by decide)
  · exact hletter _ (by decide)
  · exact hletter _ (by decide)
  · exact hletter _ (by decide)
  · exact hletter _ (by decide)
  · exact hletter _ (by decide)
  · exact .control h8 .nil
  · exact .plain h2 .nil

theorem escaped_dumpsString (cs : List Char) : Escaped (dumpsString cs) := by
  induction cs with
  | nil => exact .plain (by decide) .nil
  | cons c cs ih => exact (escaped_escape c).append ih

theorem NumberText.Shape.plain {t : NumberText} (h : t.Shape) : ∀ c ∈ t.text, c ≠ '\\' := by
  have hdigits : ∀ {ds : List Char}, (∀ c ∈ ds, c.isDigit = true) → ∀ c ∈ ds, c ≠ '\\' :=
    fun hds c hc => digit_ne (hds c hc) (by decide)
  intro c hc
  simp only [NumberText.text, List.mem_append] at hc
  rcases hc with ((hc | hc) | hc) | hc
  · rcases h.sign with hs | hs <;> rw [hs] at hc <;> simp_all
  · rcases h.int with hi | ⟨d, ds, hi, -, -, hds⟩ <;> rw [hi] at hc
    · simp_all
    · exact hdigits hds c hc
  · rcases h.frac with hf | ⟨ds, hf, -, hds⟩ <;> rw [hf] at hc
    · simp at hc
    · rcases List.mem_cons.1 hc with rfl | hc
      · decide
      · exact hdigits hds c hc
  · rcases h.exp with he | ⟨d, sg, ds, he, hd, hsg, -, hds⟩ <;> rw [he] at hc
    · simp at hc
    · rcases List.mem_cons.1 hc with rfl | hc
      · rcases hd with rfl | rfl <;> decide
      · rcases List.mem_append.1 hc with hc | hc
        · rcases hsg with rfl | rfl | rfl <;> simp_all
        · exact hdigits hds c hc

variable {F : Type} [FloatText F]

theorem escaped_repr [LawfulFloatText F] (x : F) : Escaped (FloatText.repr x) := by
  rcases LawfulFloatText.shape x with ⟨t, ht, -, h⟩ | h | h | h <;> rw [h]
  · exact escaped_of_plain ht.plain
  all_goals exact escaped_of_plain (by simp)

theorem escaped_dumpsInt (n : ℤ) : Escaped (dumpsInt n) := by
  rw [← text_intText]
  exact escaped_of_plain (shape_intText n).plain

mutual
/-- In the text of a value a backslash only starts an escape. -/
theorem escaped_dumps [LawfulFloatText F] (v : Json F) : Escaped (dumps v) := by
  match v with
  | .null => exact escaped_of_plain (by simp [dumps])
  | .bool true => exact escaped_of_plain (by simp [dumps])
  | .bool false => exact escaped_of_plain (by simp [dumps])
  | .int n => exact escaped_dumpsInt n
  | .float x => exact escaped_repr x
  | .str s => exact .plain (by decide) (escaped_dumpsString _)
  | .arr [] => exact escaped_of_plain (by simp [dumps])
  | .arr (x :: xs) => exact .plain (by decide) ((escaped_dumps x).append (escaped_dumpsElems xs))
  | .obj [] => exact escaped_of_plain (by simp [dumps])
  | .obj ((k, v) :: kvs) =>
    exact .plain (by decide) (.plain (by decide) ((escaped_dumpsString _).append
      (.plain (by decide) ((escaped_dumps v).append (escaped_dumpsPairs kvs)))))

theorem escaped_dumpsElems [LawfulFloatText F] (xs : List (Json F)) :
    Escaped (dumpsElems xs) := by
  match xs with
  | [] => exact .plain (by decide) .nil
  | x :: xs => exact .plain (by decide) ((escaped_dumps x).append (escaped_dumpsElems xs))

theorem escaped_dumpsPairs [LawfulFloatText F] (kvs : List (String × Json F)) :
    Escaped (dumpsPairs kvs) := by
  match kvs with
  | [] => exact .plain (by decide) .nil
  | (k, v) :: kvs =>
    exact .plain (by decide) (.plain (by decide) ((escaped_dumpsString _).append
      (.plain (by decide) ((escaped_dumps v).append (escaped_dumpsPairs kvs)))))
end

/-- Canonical JSON in ASCII: compact, keys sorted. -/
def asciiCanonical (v : Json F) : String :=
  ofChars (toAscii (dumps (sortKeys v)))

theorem asciiCanonical_injective [LawfulFloatText F] {v w : Json F} (hv : Wf v) (hw : Wf w)
    (h : asciiCanonical v = asciiCanonical w) : sortKeys v = sortKeys w := by
  have htext : toAscii (dumps (sortKeys v)) = toAscii (dumps (sortKeys w)) := ofChars_injective h
  have hdumps := congrArg readAscii htext
  rw [readAscii_toAscii (escaped_dumps _), readAscii_toAscii (escaped_dumps _)] at hdumps
  exact dumps_injective (wf_sortKeys v hv) (wf_sortKeys w hw) hdumps

end JsonText
