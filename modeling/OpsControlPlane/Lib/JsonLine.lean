import OpsControlPlane.Lib.JsonText

/-!
# JSON documents on a line of their own

A script writes a document as its canonical text and a newline. `loads_line` reads it back, and
`size_line` bounds its bytes by `width`, which looks at the lengths of the strings and of the
integers only. `Short` says of a value that the host language converts its integers.
-/

namespace JsonText

open Text

variable {F : Type}

/-! ## Integers of a limited length -/

/-- The integer has at most 4300 digits: the host language refuses to read or print a longer
one. -/
def shortInt (n : ℤ) : Bool :=
  (Nat.toDigits 10 n.natAbs).length ≤ 4300

mutual
def short : Json F → Bool
  | .int n => shortInt n
  | .arr xs => shortElems xs
  | .obj kvs => shortPairs kvs
  | .null => true
  | .bool _ => true
  | .float _ => true
  | .str _ => true

def shortElems : List (Json F) → Bool
  | [] => true
  | x :: xs => short x && shortElems xs

def shortPairs : List (String × Json F) → Bool
  | [] => true
  | (_, v) :: kvs => short v && shortPairs kvs
end

variable {kvs : List (String × Json F)}

theorem shortPairs_iff : shortPairs kvs = true ↔ ∀ kv ∈ kvs, short kv.2 = true := by
  induction kvs with
  | nil => simp [shortPairs]
  | cons kv kvs ih => simp [shortPairs, ih]

variable {k : String} {v : Json F}

theorem shortPairs_insertKey : shortPairs (insertKey k v kvs) = (short v && shortPairs kvs) := by
  rw [Bool.eq_iff_iff, Bool.and_eq_true, shortPairs_iff, shortPairs_iff]
  unfold insertKey
  have hperm := List.perm_orderedInsert (fun a b : String × Json F => a.1 ≤ b.1) (k, v) kvs
  constructor
  · intro h
    exact ⟨h (k, v) (hperm.mem_iff.2 List.mem_cons_self),
      fun kv hkv => h kv (hperm.mem_iff.2 (List.mem_cons_of_mem _ hkv))⟩
  · rintro ⟨hv, h⟩ kv hkv
    rcases List.mem_cons.1 (hperm.mem_iff.1 hkv) with rfl | hkv
    · exact hv
    · exact h kv hkv

mutual
theorem short_sortKeys (v : Json F) : short (sortKeys v) = short v := by
  match v with
  | .null => rfl
  | .bool _ => rfl
  | .int _ => rfl
  | .float _ => rfl
  | .str _ => rfl
  | .arr xs => exact short_sortKeysElems xs
  | .obj kvs => exact short_sortKeysPairs kvs

theorem short_sortKeysElems (xs : List (Json F)) :
    shortElems (sortKeysElems xs) = shortElems xs := by
  match xs with
  | [] => rfl
  | x :: xs =>
    rw [sortKeysElems, shortElems, shortElems, short_sortKeys x, short_sortKeysElems xs]

theorem short_sortKeysPairs (kvs : List (String × Json F)) :
    shortPairs (sortKeysPairs kvs) = shortPairs kvs := by
  match kvs with
  | [] => rfl
  | (k, v) :: kvs =>
    rw [sortKeysPairs, shortPairs_insertKey, shortPairs, short_sortKeys v,
      short_sortKeysPairs kvs]
end

/-! ## Bytes -/

def byteCount (l : List Char) : ℕ :=
  (l.map Char.utf8Size).sum

@[simp] theorem byteCount_nil : byteCount [] = 0 :=
  rfl

@[simp] theorem byteCount_cons (c : Char) (l : List Char) :
    byteCount (c :: l) = c.utf8Size + byteCount l := by
  simp [byteCount]

@[simp] theorem byteCount_append (l l' : List Char) :
    byteCount (l ++ l') = byteCount l + byteCount l' := by
  simp [byteCount]

theorem utf8ByteSize_ofChars (l : List Char) : (ofChars l).utf8ByteSize = byteCount l := by
  rw [ofChars_eq]
  induction l with
  | nil => rfl
  | cons c l ih =>
    rw [byteCount_cons, ← ih, ← List.singleton_append, String.ofList_append,
      String.utf8ByteSize_append]
    congr 1
    exact String.utf8ByteSize_singleton

variable [FloatText F]

mutual
/-- A bound on the bytes of the text of a value, for any characters of its strings. -/
def width : Json F → ℕ
  | .null => 4
  | .bool _ => 5
  | .int n => (dumpsInt n).length
  | .float x => byteCount (FloatText.repr x)
  | .str s => 6 * s.length + 2
  | .arr xs => 2 + widthElems xs
  | .obj kvs => 2 + widthPairs kvs

def widthElems : List (Json F) → ℕ
  | [] => 0
  | x :: xs => width x + 1 + widthElems xs

def widthPairs : List (String × Json F) → ℕ
  | [] => 0
  | (k, v) :: kvs => 6 * k.length + 4 + width v + widthPairs kvs
end

theorem widthPairs_eq (kvs : List (String × Json F)) :
    widthPairs kvs = (kvs.map fun kv => 6 * kv.1.length + 4 + width kv.2).sum := by
  induction kvs with
  | nil => rfl
  | cons kv kvs ih => rw [widthPairs, ih, List.map_cons, List.sum_cons]

theorem widthPairs_insertKey (k : String) (v : Json F) (kvs : List (String × Json F)) :
    widthPairs (insertKey k v kvs) = 6 * k.length + 4 + width v + widthPairs kvs := by
  have hperm := List.perm_orderedInsert (fun a b : String × Json F => a.1 ≤ b.1) (k, v) kvs
  rw [widthPairs_eq, widthPairs_eq, insertKey, (hperm.map _).sum_eq]
  rfl

mutual
theorem width_sortKeys (v : Json F) : width (sortKeys v) = width v := by
  match v with
  | .null => rfl
  | .bool _ => rfl
  | .int _ => rfl
  | .float _ => rfl
  | .str _ => rfl
  | .arr xs => rw [sortKeys, width, width, width_sortKeysElems xs]
  | .obj kvs => rw [sortKeys, width, width, width_sortKeysPairs kvs]

theorem width_sortKeysElems (xs : List (Json F)) :
    widthElems (sortKeysElems xs) = widthElems xs := by
  match xs with
  | [] => rfl
  | x :: xs =>
    rw [sortKeysElems, widthElems, widthElems, width_sortKeys x, width_sortKeysElems xs]

theorem width_sortKeysPairs (kvs : List (String × Json F)) :
    widthPairs (sortKeysPairs kvs) = widthPairs kvs := by
  match kvs with
  | [] => rfl
  | (k, v) :: kvs =>
    rw [sortKeysPairs, widthPairs_insertKey, widthPairs, width_sortKeys v,
      width_sortKeysPairs kvs]
end

theorem utf8Size_of_lt {c : Char} (h : c.toNat < 128) : c.utf8Size = 1 := by
  unfold Char.utf8Size
  rw [if_pos]
  rw [UInt32.le_iff_toNat_le]
  exact Nat.le_of_lt_succ h

theorem toNat_hexDigit : ∀ n < 16, (hexDigit n).toNat < 128 := by
  decide

theorem byteCount_escape (c : Char) : byteCount (escape c) ≤ 6 := by
  unfold escape
  split_ifs with h₁ h₂ h₃ h₄ h₅ h₆ h₇ hlt
  iterate 7 decide
  · have hone : ∀ n < 16, (hexDigit n).utf8Size = 1 := fun n hn =>
      utf8Size_of_lt (toNat_hexDigit n hn)
    have hhigh := hone (c.toNat / 16) (by omega)
    have hlow := hone (c.toNat % 16) (by omega)
    have hplain : '\\'.utf8Size = 1 ∧ 'u'.utf8Size = 1 ∧ '0'.utf8Size = 1 := by decide
    simp only [byteCount_cons, byteCount_nil, hhigh, hlow, hplain]
    decide
  · have hle := c.utf8Size_le_four
    simp only [byteCount_cons, byteCount_nil]
    omega

theorem byteCount_dumpsString (l : List Char) : byteCount (dumpsString l) ≤ 6 * l.length + 1 := by
  induction l with
  | nil => decide
  | cons c l ih =>
    have hc := byteCount_escape c
    rw [dumpsString, byteCount_append, List.length_cons]
    omega

theorem byteCount_of_ascii {l : List Char} (h : ∀ c ∈ l, c.toNat < 128) :
    byteCount l = l.length := by
  induction l with
  | nil => rfl
  | cons c l ih =>
    rw [byteCount_cons, utf8Size_of_lt (h c List.mem_cons_self),
      ih fun d hd => h d (List.mem_cons_of_mem _ hd), List.length_cons, Nat.add_comm]

theorem byteCount_dumpsInt (n : ℤ) : byteCount (dumpsInt n) = (dumpsInt n).length := by
  have hdigits : ∀ c ∈ Nat.toDigits 10 n.natAbs, c.toNat < 128 := by
    intro c hc
    have hdigit := Nat.isDigit_of_mem_toDigits (b := 10) (by decide) (by decide) hc
    simp only [Char.isDigit, Bool.and_eq_true, decide_eq_true_eq, ge_iff_le,
      UInt32.le_iff_toNat_le] at hdigit
    exact lt_of_le_of_lt hdigit.2 (by decide)
  unfold dumpsInt
  split_ifs
  · refine byteCount_of_ascii fun c hc => ?_
    rcases List.mem_cons.1 hc with rfl | hc
    · decide
    · exact hdigits c hc
  · exact byteCount_of_ascii hdigits

mutual
theorem byteCount_dumps (v : Json F) : byteCount (dumps v) ≤ width v := by
  match v with
  | .null => exact Nat.le_of_ble_eq_true rfl
  | .bool true => exact Nat.le_of_ble_eq_true rfl
  | .bool false => exact Nat.le_of_ble_eq_true rfl
  | .int n => exact (byteCount_dumpsInt n).le
  | .float x => exact le_refl _
  | .str s =>
    have hs := byteCount_dumpsString (toChars s)
    rw [toChars_eq, String.length_toList] at hs
    have hq : '"'.utf8Size = 1 := by decide
    rw [dumps, byteCount_cons, width, toChars_eq, hq]
    omega
  | .arr [] => exact Nat.le_of_ble_eq_true rfl
  | .arr (x :: xs) =>
    have hx := byteCount_dumps x
    have hxs := byteCount_dumpsElems xs
    have hq : '['.utf8Size = 1 := by decide
    rw [dumps, byteCount_cons, byteCount_append, width, widthElems, hq]
    omega
  | .obj [] => exact Nat.le_of_ble_eq_true rfl
  | .obj ((k, v) :: kvs) =>
    have hk := byteCount_dumpsString (toChars k)
    have hv := byteCount_dumps v
    have hkvs := byteCount_dumpsPairs kvs
    rw [toChars_eq, String.length_toList] at hk
    have hq : '"'.utf8Size = 1 ∧ ':'.utf8Size = 1 ∧ '{'.utf8Size = 1 := by decide
    simp only [dumps, byteCount_cons, byteCount_append, width, widthPairs, hq, toChars_eq]
    omega

theorem byteCount_dumpsElems (xs : List (Json F)) :
    byteCount (dumpsElems xs) ≤ widthElems xs + 1 := by
  match xs with
  | [] => exact Nat.le_of_ble_eq_true rfl
  | x :: xs =>
    have hx := byteCount_dumps x
    have hxs := byteCount_dumpsElems xs
    have hq : ','.utf8Size = 1 := by decide
    rw [dumpsElems, byteCount_cons, byteCount_append, widthElems, hq]
    omega

theorem byteCount_dumpsPairs (kvs : List (String × Json F)) :
    byteCount (dumpsPairs kvs) ≤ widthPairs kvs + 1 := by
  match kvs with
  | [] => exact Nat.le_of_ble_eq_true rfl
  | (k, v) :: kvs =>
    have hk := byteCount_dumpsString (toChars k)
    have hv := byteCount_dumps v
    have hkvs := byteCount_dumpsPairs kvs
    rw [toChars_eq, String.length_toList] at hk
    have hq : '"'.utf8Size = 1 ∧ ':'.utf8Size = 1 ∧ ','.utf8Size = 1 := by decide
    simp only [dumpsPairs, byteCount_cons, byteCount_append, widthPairs, hq, toChars_eq]
    omega
end

theorem length_dumpsInt {n : ℤ} (h : shortInt n = true) : (dumpsInt n).length ≤ 4301 := by
  have hlen : (Nat.toDigits 10 n.natAbs).length ≤ 4300 := of_decide_eq_true h
  unfold dumpsInt
  split_ifs
  · rw [List.length_cons]
    omega
  · omega

/-! ## The line -/

/-- The canonical text of a value, and a newline. -/
def line (v : Json F) : String :=
  ofChars (dumps (sortKeys v) ++ ['\n'])

theorem size_line (v : Json F) : (line v).utf8ByteSize ≤ width v + 1 := by
  have hle := byteCount_dumps (sortKeys v)
  rw [width_sortKeys] at hle
  have hq : '\n'.utf8Size = 1 := by decide
  rw [line, utf8ByteSize_ofChars, byteCount_append, byteCount_cons, byteCount_nil, hq]
  omega

/-- The scanner reads an object whatever follows it. -/
theorem scanValue_dumps_obj [LawfulFloatText F] (hv : Wf (.obj ((k, v) :: kvs))) {n : ℕ}
    (hn : (dumps (.obj ((k, v) :: kvs))).length ≤ n) (r : List Char) :
    scanValue n (dumps (.obj ((k, v) :: kvs)) ++ r) = some (.obj ((k, v) :: kvs), r) := by
  simp only [dumps, List.length_cons, List.length_append] at hn
  obtain ⟨n, rfl⟩ : ∃ m, n = m + 2 := ⟨n - 2, by omega⟩
  have hx := scanValue_dumps v hv.2.1 (n := n) (by omega) (ends_dumpsPairs kvs r)
  have hkvs := scanPairs_dumps kvs hv.2.2 (n := n + 1) (by omega) r
  have h := scanValue_obj (scanPair_dumps (k := k) hx) hkvs hv.1
  simpa [dumps] using h

theorem loads_line [LawfulFloatText F] (hv : Wf (.obj kvs)) (hne : kvs ≠ []) :
    loads (line (.obj kvs)) = some (.obj (sortKeysPairs kvs)) := by
  have hwf := wf_sortKeys _ hv
  have hcons : sortKeysPairs kvs ≠ [] := by
    intro hnil
    have hkeys := (keys_sortKeysPairs kvs).length_eq
    rw [hnil] at hkeys
    exact hne (List.map_eq_nil_iff.1 (List.length_eq_zero_iff.1 hkeys.symm))
  rw [sortKeys] at hwf
  rw [line, sortKeys]
  generalize sortKeysPairs kvs = sorted at hwf hcons
  match sorted, hcons with
  | (k, v) :: rest, _ =>
    have hscan := scanValue_dumps_obj hwf
      (n := 2 * (dumps (.obj ((k, v) :: rest)) ++ ['\n']).length + 2)
      (by rw [List.length_append]; omega) ['\n']
    have hskip := skipWs_dumps (.obj ((k, v) :: rest)) ['\n']
    rw [loads, toChars_ofChars, hskip, hscan]
    rfl

end JsonText
