import OpsControlPlane.Lib.Text
import Mathlib.Data.List.Sort
import Mathlib.Data.String.Basic
import Mathlib.Data.List.Nodup
import Mathlib.Tactic

/-!
# JSON text

JSON values, the compact printer, and the scanner that reads a text back. Strings
are printed with non-ASCII characters kept and control characters escaped; objects
are association lists in insertion order. `canonical` prints the value with the keys
of every object sorted.

`scanValue_dumps` is the round trip: in front of a delimiter the scanner reads
exactly the printed value and stops after it. `loads_dumps` is the closed form, and
`dumps_injective` follows. `loads_canonical` and `canonical_sortKeys` say that a
canonical text is read as a value whose canonical text is the text itself. A read
value is well formed, that is no object repeats a key (`wf_of_loads`).

Floats are a parameter: a type with the text the host prints for a float and the
float it reads from a text. `LawfulFloatText` says that the printed text is a JSON
number with a fraction or an exponent, or one of the three constants, and reads back
as the same float.
-/

namespace JsonText

open Text

/-- Floats of the host language: what it prints for one, and what it reads. -/
class FloatText (F : Type) where
  repr : F → List Char
  ofText : List Char → F

/-- JSON values. Objects keep the order in which their keys were inserted. -/
inductive Json (F : Type) where
  | null
  | bool (b : Bool)
  | int (n : ℤ)
  | float (x : F)
  | str (s : String)
  | arr (xs : List (Json F))
  | obj (kvs : List (String × Json F))

variable {F : Type}

/-! ## Objects -/

def keys {α : Type*} (kvs : List (String × α)) : List String :=
  kvs.map Prod.fst

mutual
/-- No object repeats a key. -/
def Wf : Json F → Prop
  | .arr xs => WfElems xs
  | .obj kvs => (keys kvs).Nodup ∧ WfPairs kvs
  | .null => True
  | .bool _ => True
  | .int _ => True
  | .float _ => True
  | .str _ => True

def WfElems : List (Json F) → Prop
  | [] => True
  | x :: xs => Wf x ∧ WfElems xs

def WfPairs : List (String × Json F) → Prop
  | [] => True
  | (_, v) :: kvs => Wf v ∧ WfPairs kvs
end

def setKey (k : String) (v : Json F) : List (String × Json F) → List (String × Json F)
  | [] => [(k, v)]
  | (k', v') :: kvs => if k' = k then (k, v) :: kvs else (k', v') :: setKey k v kvs

/-- The object of the scanned pairs. A later pair replaces an earlier one of the same key. -/
def objOf (kvs : List (String × Json F)) : List (String × Json F) :=
  kvs.foldl (fun acc kv => setKey kv.1 kv.2 acc) []

variable {k : String} {kvs : List (String × Json F)}

theorem setKey_append (v : Json F) (h : k ∉ keys kvs) : setKey k v kvs = kvs ++ [(k, v)] := by
  induction kvs with
  | nil => rfl
  | cons kv kvs ih =>
    have hk : kv.1 ≠ k := fun he => h (by simp [keys, he])
    have ih := ih fun hm => h (by simp [keys] at hm ⊢; exact Or.inr hm)
    rw [setKey, if_neg hk, ih, List.cons_append]

theorem foldl_setKey {acc : List (String × Json F)} (h : (keys (acc ++ kvs)).Nodup) :
    kvs.foldl (fun acc kv => setKey kv.1 kv.2 acc) acc = acc ++ kvs := by
  induction kvs generalizing acc with
  | nil => simp
  | cons kv kvs ih =>
    have hk : kv.1 ∉ keys acc := by
      intro hm
      simp only [keys, List.map_append, List.map_cons, List.nodup_append] at h
      exact h.2.2 _ hm _ (by simp) rfl
    rw [List.foldl_cons, setKey_append kv.2 hk, ih (by simpa using h)]
    simp

theorem objOf_eq (h : (keys kvs).Nodup) : objOf kvs = kvs := by
  rw [objOf, foldl_setKey (by simpa using h), List.nil_append]

/-! ## Canonical form -/

def insertKey (k : String) (v : Json F) (kvs : List (String × Json F)) : List (String × Json F) :=
  kvs.orderedInsert (fun a b => a.1 ≤ b.1) (k, v)

mutual
/-- The value with the keys of every object sorted. -/
def sortKeys : Json F → Json F
  | .arr xs => .arr (sortKeysElems xs)
  | .obj kvs => .obj (sortKeysPairs kvs)
  | .null => .null
  | .bool b => .bool b
  | .int n => .int n
  | .float x => .float x
  | .str s => .str s

/-- `sortKeys` on each element. -/
def sortKeysElems : List (Json F) → List (Json F)
  | [] => []
  | x :: xs => sortKeys x :: sortKeysElems xs

/-- `sortKeys` on each value, the pairs in the order of their keys. -/
def sortKeysPairs : List (String × Json F) → List (String × Json F)
  | [] => []
  | (k, v) :: kvs => insertKey k (sortKeys v) (sortKeysPairs kvs)
end

theorem keys_insertKey (k : String) (v : Json F) (kvs : List (String × Json F)) :
    (keys (insertKey k v kvs)).Perm (k :: keys kvs) :=
  (List.perm_orderedInsert _ _ _).map Prod.fst

theorem wfPairs_iff : WfPairs kvs ↔ ∀ kv ∈ kvs, Wf kv.2 := by
  induction kvs with
  | nil => simp [WfPairs]
  | cons kv kvs ih => simp [WfPairs, ih]

variable {v : Json F}

theorem wfPairs_insertKey : WfPairs (insertKey k v kvs) ↔ Wf v ∧ WfPairs kvs := by
  simp only [wfPairs_iff, insertKey, List.mem_orderedInsert]
  constructor
  · exact fun h => ⟨h (k, v) (Or.inl rfl), fun kv hkv => h kv (Or.inr hkv)⟩
  · rintro ⟨hv, h⟩ kv (rfl | hkv)
    · exact hv
    · exact h kv hkv

theorem keys_sortKeysPairs (kvs : List (String × Json F)) :
    (keys (sortKeysPairs kvs)).Perm (keys kvs) := by
  induction kvs with
  | nil => rfl
  | cons kv kvs ih => exact (keys_insertKey _ _ _).trans (ih.cons kv.1)

mutual
/-- Sorting the keys keeps a value well formed. -/
theorem wf_sortKeys (v : Json F) (hv : Wf v) : Wf (sortKeys v) := by
  match v, hv with
  | .null, _ => trivial
  | .bool _, _ => trivial
  | .int _, _ => trivial
  | .float _, _ => trivial
  | .str _, _ => trivial
  | .arr xs, hv => exact wf_sortKeysElems xs hv
  | .obj kvs, hv => exact ⟨(keys_sortKeysPairs kvs).nodup_iff.2 hv.1, wf_sortKeysPairs kvs hv.2⟩

theorem wf_sortKeysElems (xs : List (Json F)) (hv : WfElems xs) : WfElems (sortKeysElems xs) := by
  match xs, hv with
  | [], _ => trivial
  | x :: xs, hv => exact ⟨wf_sortKeys x hv.1, wf_sortKeysElems xs hv.2⟩

theorem wf_sortKeysPairs (kvs : List (String × Json F)) (hv : WfPairs kvs) :
    WfPairs (sortKeysPairs kvs) := by
  match kvs, hv with
  | [], _ => trivial
  | (k, v) :: kvs, hv =>
    exact wfPairs_insertKey.2 ⟨wf_sortKeys v hv.1, wf_sortKeysPairs kvs hv.2⟩
end

mutual
/-- The keys of every object are in order. -/
def Sorted : Json F → Prop
  | .arr xs => SortedElems xs
  | .obj kvs => (keys kvs).Pairwise (· ≤ ·) ∧ SortedPairs kvs
  | .null => True
  | .bool _ => True
  | .int _ => True
  | .float _ => True
  | .str _ => True

def SortedElems : List (Json F) → Prop
  | [] => True
  | x :: xs => Sorted x ∧ SortedElems xs

def SortedPairs : List (String × Json F) → Prop
  | [] => True
  | (_, v) :: kvs => Sorted v ∧ SortedPairs kvs
end

theorem sorted_keys_insertKey (h : (keys kvs).Pairwise (· ≤ ·)) :
    (keys (insertKey k v kvs)).Pairwise (· ≤ ·) := by
  have hm := List.map_orderedInsert (fun a b : String × Json F => a.1 ≤ b.1)
    (· ≤ ·) Prod.fst kvs (k, v) (fun _ _ => Iff.rfl) (fun _ _ => Iff.rfl)
  rw [keys, insertKey, hm]
  exact List.Pairwise.orderedInsert k _ h

theorem sortedPairs_iff : SortedPairs kvs ↔ ∀ kv ∈ kvs, Sorted kv.2 := by
  induction kvs with
  | nil => simp [SortedPairs]
  | cons kv kvs ih => simp [SortedPairs, ih]

theorem sortedPairs_insertKey : SortedPairs (insertKey k v kvs) ↔ Sorted v ∧ SortedPairs kvs := by
  simp [sortedPairs_iff, insertKey, List.mem_orderedInsert]

theorem sorted_keys_sortKeysPairs (kvs : List (String × Json F)) :
    (keys (sortKeysPairs kvs)).Pairwise (· ≤ ·) := by
  induction kvs with
  | nil => exact List.Pairwise.nil
  | cons kv kvs ih => exact sorted_keys_insertKey ih

mutual
theorem sorted_sortKeys (v : Json F) : Sorted (sortKeys v) := by
  match v with
  | .null => trivial
  | .bool _ => trivial
  | .int _ => trivial
  | .float _ => trivial
  | .str _ => trivial
  | .arr xs => exact sorted_sortKeysElems xs
  | .obj kvs => exact ⟨sorted_keys_sortKeysPairs kvs, sorted_sortKeysPairs kvs⟩

theorem sorted_sortKeysElems (xs : List (Json F)) : SortedElems (sortKeysElems xs) := by
  match xs with
  | [] => trivial
  | x :: xs => exact ⟨sorted_sortKeys x, sorted_sortKeysElems xs⟩

theorem sorted_sortKeysPairs (kvs : List (String × Json F)) : SortedPairs (sortKeysPairs kvs) := by
  match kvs with
  | [] => trivial
  | (k, v) :: kvs => exact sortedPairs_insertKey.2 ⟨sorted_sortKeys v, sorted_sortKeysPairs kvs⟩
end

theorem insertKey_of_le (h : (keys ((k, v) :: kvs)).Pairwise (· ≤ ·)) :
    insertKey k v kvs = (k, v) :: kvs := by
  cases kvs with
  | nil => rfl
  | cons kv kvs =>
    have hle : k ≤ kv.1 := by
      rw [keys, List.map_cons, List.pairwise_cons] at h
      exact h.1 kv.1 (by simp)
    exact List.orderedInsert_cons_of_le (fun a b : String × Json F => a.1 ≤ b.1) kvs hle

mutual
/-- Sorting changes nothing in a value whose keys are in order. -/
theorem sortKeys_of_sorted (v : Json F) (h : Sorted v) : sortKeys v = v := by
  match v, h with
  | .null, _ => rfl
  | .bool _, _ => rfl
  | .int _, _ => rfl
  | .float _, _ => rfl
  | .str _, _ => rfl
  | .arr xs, h => rw [sortKeys, sortKeysElems_of_sorted xs h]
  | .obj kvs, h => rw [sortKeys, sortKeysPairs_of_sorted kvs h.1 h.2]

theorem sortKeysElems_of_sorted (xs : List (Json F)) (h : SortedElems xs) :
    sortKeysElems xs = xs := by
  match xs, h with
  | [], _ => rfl
  | x :: xs, h => rw [sortKeysElems, sortKeys_of_sorted x h.1, sortKeysElems_of_sorted xs h.2]

theorem sortKeysPairs_of_sorted (kvs : List (String × Json F))
    (hk : (keys kvs).Pairwise (· ≤ ·)) (h : SortedPairs kvs) : sortKeysPairs kvs = kvs := by
  match kvs, hk, h with
  | [], _, _ => rfl
  | (k, v) :: kvs, hk, h =>
    rw [sortKeysPairs, sortKeys_of_sorted v h.1, sortKeysPairs_of_sorted kvs hk.of_cons h.2,
      insertKey_of_le hk]
end

theorem lookup_pair (k : String) (kv : String × Json F) (kvs : List (String × Json F)) :
    (kv :: kvs).lookup k = if k = kv.1 then some kv.2 else kvs.lookup k := by
  rw [List.lookup_cons]
  by_cases h : k = kv.1
  · simp [h]
  · rw [if_neg h, beq_false_of_ne h]

theorem lookup_insertKey (k k' : String) (v : Json F) (kvs : List (String × Json F)) :
    (insertKey k v kvs).lookup k' = if k' = k then some v else kvs.lookup k' := by
  induction kvs with
  | nil => exact lookup_pair k' (k, v) []
  | cons kv kvs ih =>
    have hr := List.orderedInsert_cons (fun a b : String × Json F => a.1 ≤ b.1) (k, v) kv kvs
    rw [insertKey] at ih ⊢
    rw [hr]
    by_cases hle : k ≤ kv.1
    · rw [if_pos hle, lookup_pair]
    · rw [if_neg hle, lookup_pair, ih, lookup_pair]
      by_cases h : k' = k
      · have hne : k' ≠ kv.1 := fun he => hle (h ▸ he.le)
        rw [if_neg hne, if_pos h, if_pos h]
      · rw [if_neg h, if_neg h]

theorem lookup_sortKeysPairs (k : String) (kvs : List (String × Json F)) :
    (sortKeysPairs kvs).lookup k = (kvs.lookup k).map sortKeys := by
  induction kvs with
  | nil => rfl
  | cons kv kvs ih =>
    rw [sortKeysPairs, lookup_insertKey, ih, lookup_pair]
    split_ifs <;> rfl

theorem sortKeys_sortKeys (v : Json F) : sortKeys (sortKeys v) = sortKeys v :=
  sortKeys_of_sorted _ (sorted_sortKeys v)

/-! ## Printing -/

/-- A hexadecimal digit in lower case. -/
def hexDigit (n : ℕ) : Char :=
  if n < 10 then Char.ofNat (48 + n) else Char.ofNat (87 + n)

/-- One character inside a JSON string. -/
def escape (c : Char) : List Char :=
  if c = '"' then ['\\', '"']
  else if c = '\\' then ['\\', '\\']
  else if c = '\n' then ['\\', 'n']
  else if c = '\r' then ['\\', 'r']
  else if c = '\t' then ['\\', 't']
  else if c = '\x0c' then ['\\', 'f']
  else if c = '\x08' then ['\\', 'b']
  else if c.toNat < 32 then
    ['\\', 'u', '0', '0', hexDigit (c.toNat / 16), hexDigit (c.toNat % 16)]
  else [c]

/-- The text of a string after its opening quote, closing quote included. -/
def dumpsString : List Char → List Char
  | [] => ['"']
  | c :: cs => escape c ++ dumpsString cs

def dumpsInt (n : ℤ) : List Char :=
  if n < 0 then '-' :: Nat.toDigits 10 n.natAbs else Nat.toDigits 10 n.natAbs

variable [FloatText F]

mutual
/-- Compact JSON text of a value, keys in insertion order. -/
def dumps : Json F → List Char
  | .null => ['n', 'u', 'l', 'l']
  | .bool true => ['t', 'r', 'u', 'e']
  | .bool false => ['f', 'a', 'l', 's', 'e']
  | .int n => dumpsInt n
  | .float x => FloatText.repr x
  | .str s => '"' :: dumpsString (toChars s)
  | .arr [] => ['[', ']']
  | .arr (x :: xs) => '[' :: (dumps x ++ dumpsElems xs)
  | .obj [] => ['{', '}']
  | .obj ((k, v) :: kvs) =>
    '{' :: '"' :: (dumpsString (toChars k) ++ ':' :: (dumps v ++ dumpsPairs kvs))

/-- The elements after the first one, each behind its comma, and the closing bracket. -/
def dumpsElems : List (Json F) → List Char
  | [] => [']']
  | x :: xs => ',' :: (dumps x ++ dumpsElems xs)

/-- The pairs after the first one, each behind its comma, and the closing brace. -/
def dumpsPairs : List (String × Json F) → List Char
  | [] => ['}']
  | (k, v) :: kvs => ',' :: '"' :: (dumpsString (toChars k) ++ ':' :: (dumps v ++ dumpsPairs kvs))
end

/-- Canonical JSON text: compact, keys sorted. -/
def canonical (v : Json F) : String :=
  ofChars (dumps (sortKeys v))

/-! ## Scanning -/

def skipWs (s : List Char) : List Char :=
  s.dropWhile fun c => c = ' ' || c = '\t' || c = '\n' || c = '\r'

/-- Value of a hexadecimal digit. -/
def hexVal (c : Char) : Option ℕ :=
  if '0' ≤ c ∧ c ≤ '9' then some (c.toNat - 48)
  else if 'a' ≤ c ∧ c ≤ 'f' then some (c.toNat - 87)
  else if 'A' ≤ c ∧ c ≤ 'F' then some (c.toNat - 55)
  else none

/-- Four hexadecimal digits. -/
def hex4 (a b c d : Char) : Option ℕ := do
  let a ← hexVal a
  let b ← hexVal b
  let c ← hexVal c
  let d ← hexVal d
  return 4096 * a + 256 * b + 16 * c + d

def unescape (c : Char) : Option Char :=
  if c = '"' then some '"'
  else if c = '\\' then some '\\'
  else if c = '/' then some '/'
  else if c = 'b' then some '\x08'
  else if c = 'f' then some '\x0c'
  else if c = 'n' then some '\n'
  else if c = 'r' then some '\r'
  else if c = 't' then some '\t'
  else none

/-- The character of a code point. A lone surrogate is none. -/
def charOf (n : ℕ) : Option Char :=
  if n.isValidChar then some (Char.ofNat n) else none

/-- A code unit in front of the code units of the rest. -/
def consUnit : Option ℕ → Option (List ℕ × List Char) → Option (List ℕ × List Char)
  | some u, some (us, r) => some (u :: us, r)
  | _, _ => none

/-- A string after its opening quote: its code units and what follows its closing
quote. Raw control characters are refused. -/
def scanUnits : List Char → Option (List ℕ × List Char)
  | [] => none
  | c :: r =>
    if c = '"' then some ([], r)
    else if c = '\\' then
      match r with
      | [] => none
      | e :: r =>
        if e = 'u' then
          match r with
          | h₁ :: h₂ :: h₃ :: h₄ :: r => consUnit (hex4 h₁ h₂ h₃ h₄) (scanUnits r)
          | _ => none
        else consUnit ((unescape e).map Char.toNat) (scanUnits r)
    else if c.toNat < 32 then none
    else consUnit (some c.toNat) (scanUnits r)

/-- A high surrogate in front of a low one. -/
def surrogates (u v : ℕ) : Prop :=
  (55296 ≤ u ∧ u < 56320) ∧ 56320 ≤ v ∧ v < 57344

instance (u v : ℕ) : Decidable (surrogates u v) :=
  inferInstanceAs (Decidable (_ ∧ _))

/-- The code point of a high and a low surrogate. -/
def surrogatePoint (u v : ℕ) : ℕ :=
  65536 + (u - 55296) * 1024 + (v - 56320)

/-- A character in front of the characters of the rest. -/
def consChar : Option Char → Option (List Char) → Option (List Char)
  | some c, some cs => some (c :: cs)
  | _, _ => none

/-- The characters of code units. A high surrogate joins the low one behind it. -/
def joinUnits : List ℕ → Option (List Char)
  | [] => some []
  | u :: us =>
    match us with
    | [] => consChar (charOf u) (some [])
    | v :: vs =>
      if surrogates u v then consChar (charOf (surrogatePoint u v)) (joinUnits vs)
      else consChar (charOf u) (joinUnits (v :: vs))

/-- A string after its opening quote: its characters and what follows its closing quote. -/
def scanString (s : List Char) : Option (List Char × List Char) :=
  match scanUnits s with
  | some (us, r) => (joinUnits us).map fun cs => (cs, r)
  | none => none

/-- An integer part: `0`, or digits that do not start with `0`. -/
def scanInt : List Char → Option (List Char × List Char)
  | [] => none
  | c :: r =>
    if c = '0' then some (['0'], r)
    else if c.isDigit then some (c :: r.takeWhile Char.isDigit, r.dropWhile Char.isDigit)
    else none

/-- A fraction, empty if there is none. -/
def scanFrac : List Char → List Char × List Char
  | [] => ([], [])
  | c :: r =>
    if c = '.' ∧ r.takeWhile Char.isDigit ≠ [] then
      ('.' :: r.takeWhile Char.isDigit, r.dropWhile Char.isDigit)
    else ([], c :: r)

def scanSign : List Char → List Char × List Char
  | [] => ([], [])
  | c :: r => if c = '+' ∨ c = '-' then ([c], r) else ([], c :: r)

/-- An exponent, empty if there is none. -/
def scanExp : List Char → List Char × List Char
  | [] => ([], [])
  | c :: r =>
    if (c = 'e' ∨ c = 'E') ∧ (scanSign r).2.takeWhile Char.isDigit ≠ [] then
      (c :: ((scanSign r).1 ++ (scanSign r).2.takeWhile Char.isDigit),
        (scanSign r).2.dropWhile Char.isDigit)
    else ([], c :: r)

/-- A minus sign, empty if there is none. -/
def scanMinus : List Char → List Char × List Char
  | [] => ([], [])
  | c :: r => if c = '-' then (['-'], r) else ([], c :: r)

/-- The four parts of a number's text. -/
structure NumberText where
  (sign int frac exp : List Char)

/-- The parts put together again. -/
def NumberText.text (t : NumberText) : List Char :=
  t.sign ++ t.int ++ t.frac ++ t.exp

def scanNumber (s : List Char) : Option (NumberText × List Char) :=
  (scanInt (scanMinus s).2).map fun (int, r) =>
    (⟨(scanMinus s).1, int, (scanFrac r).1, (scanExp (scanFrac r).2).1⟩, (scanExp (scanFrac r).2).2)

/-- An integer when there is neither fraction nor exponent, else a float. -/
def NumberText.value (t : NumberText) : Json F :=
  if t.frac = [] ∧ t.exp = [] then
    if t.sign = [] then .int (Nat.ofDigitChars 10 t.int 0)
      else .int (-(Nat.ofDigitChars 10 t.int 0))
  else .float (FloatText.ofText t.text)

/-- What follows the word `w`, if the text starts with it. -/
def afterWord (w s : List Char) : Option (List Char) :=
  if w.isPrefixOf s then some (s.drop w.length) else none

/-- The words a value can be, tried in order, then the numbers. -/
def scanAtom (s : List Char) : Option (Json F × List Char) :=
  match afterWord ['n', 'u', 'l', 'l'] s, afterWord ['t', 'r', 'u', 'e'] s,
    afterWord ['f', 'a', 'l', 's', 'e'] s with
  | some r, _, _ => some (.null, r)
  | _, some r, _ => some (.bool true, r)
  | _, _, some r => some (.bool false, r)
  | none, none, none =>
    match scanNumber s with
    | some (t, r) => some (t.value, r)
    | none =>
      match afterWord ['N', 'a', 'N'] s, afterWord ['I', 'n', 'f', 'i', 'n', 'i', 't', 'y'] s,
        afterWord ['-', 'I', 'n', 'f', 'i', 'n', 'i', 't', 'y'] s with
      | some r, _, _ => some (.float (FloatText.ofText ['N', 'a', 'N']), r)
      | _, some r, _ =>
        some (.float (FloatText.ofText ['I', 'n', 'f', 'i', 'n', 'i', 't', 'y']), r)
      | _, _, some r =>
        some (.float (FloatText.ofText ['-', 'I', 'n', 'f', 'i', 'n', 'i', 't', 'y']), r)
      | none, none, none => none

mutual
/-- A value at the start of a text, and what follows it. The first argument bounds the
nesting and the number of elements. -/
def scanValue : ℕ → List Char → Option (Json F × List Char)
  | 0, _ => none
  | _ + 1, [] => none
  | n + 1, c :: r =>
    if c = '"' then (scanString r).map fun (cs, r') => (.str (ofChars cs), r')
    else if c = '{' then
      match skipWs r with
      | '}' :: r' => some (.obj [], r')
      | r' =>
        match scanPair n r' with
        | some (kv, r') => (scanPairs n r').map fun (kvs, r') => (.obj (objOf (kv :: kvs)), r')
        | none => none
    else if c = '[' then
      match skipWs r with
      | ']' :: r' => some (.arr [], r')
      | r' =>
        match scanValue n r' with
        | some (x, r') => (scanElems n r').map fun (xs, r') => (.arr (x :: xs), r')
        | none => none
    else scanAtom (c :: r)

/-- The elements after the first one, up to the closing bracket. -/
def scanElems : ℕ → List Char → Option (List (Json F) × List Char)
  | 0, _ => none
  | n + 1, s =>
    match skipWs s with
    | ']' :: r => some ([], r)
    | ',' :: r =>
      match scanValue n (skipWs r) with
      | some (x, r') => (scanElems n r').map fun (xs, r') => (x :: xs, r')
      | none => none
    | _ => none

/-- A key, its colon and its value. -/
def scanPair : ℕ → List Char → Option ((String × Json F) × List Char)
  | 0, _ => none
  | n + 1, s =>
    match s with
    | '"' :: r =>
      match scanString r with
      | some (k, r') =>
        match skipWs r' with
        | ':' :: r' => (scanValue n (skipWs r')).map fun (v, r') => ((ofChars k, v), r')
        | _ => none
      | none => none
    | _ => none

/-- The pairs after the first one, up to the closing brace. -/
def scanPairs : ℕ → List Char → Option (List (String × Json F) × List Char)
  | 0, _ => none
  | n + 1, s =>
    match skipWs s with
    | '}' :: r => some ([], r)
    | ',' :: r =>
      match scanPair n (skipWs r) with
      | some (kv, r') => (scanPairs n r').map fun (kvs, r') => (kv :: kvs, r')
      | none => none
    | _ => none
end

/-- Read a whole text: one value with whitespace around it. -/
def loads (s : String) : Option (Json F) :=
  match scanValue (2 * (toChars s).length + 2) (skipWs (toChars s)) with
  | some (v, r) => if skipWs r = [] then some v else none
  | none => none

/-! ## Reading a number back -/

/-- The text ends, or goes on with a comma or a closing bracket. -/
def Ends (r : List Char) : Prop :=
  ∀ c, r.head? = some c → c = ',' ∨ c = ']' ∨ c = '}'

theorem ends_nil : Ends [] := by
  simp [Ends]

variable {r s : List Char} {c : Char}

theorem ends_cons (h : c = ',' ∨ c = ']' ∨ c = '}') : Ends (c :: r) := by
  simpa [Ends] using h

theorem span_append {α : Type*} {p : α → Bool} {l r : List α} (hl : ∀ a ∈ l, p a = true)
    (hr : ∀ a, r.head? = some a → p a = false) :
    (l ++ r).takeWhile p = l ∧ (l ++ r).dropWhile p = r := by
  induction l with
  | nil =>
    cases r with
    | nil => simp
    | cons a r => simp [hr a rfl]
  | cons a l ih =>
    have ⟨h1, h2⟩ := ih fun b hb => hl b (by simp [hb])
    simp [hl a (by simp), h1, h2]

def Digits (ds : List Char) : Prop :=
  ds ≠ [] ∧ ∀ c ∈ ds, c.isDigit = true

structure NumberText.Shape (t : NumberText) : Prop where
  sign : t.sign = [] ∨ t.sign = ['-']
  int : t.int = ['0'] ∨ ∃ c ds, t.int = c :: ds ∧ c ≠ '0' ∧ Digits (c :: ds)
  frac : t.frac = [] ∨ ∃ ds, t.frac = '.' :: ds ∧ Digits ds
  exp : t.exp = [] ∨ ∃ c sg ds, t.exp = c :: (sg ++ ds) ∧ (c = 'e' ∨ c = 'E') ∧
    (sg = [] ∨ sg = ['+'] ∨ sg = ['-']) ∧ Digits ds

def NoDigit (r : List Char) : Prop :=
  ∀ c, r.head? = some c → c.isDigit = false

theorem Ends.noDigit (h : Ends r) : NoDigit r := by
  intro c hc
  rcases h c hc with rfl | rfl | rfl <;> decide

theorem digit_ne {d : Char} (hc : c.isDigit = true) (hd : d.isDigit = false) : c ≠ d := by
  rintro rfl
  simp [hc] at hd

variable {int frac exp r' : List Char}

theorem scanInt_append (h : int = ['0'] ∨ ∃ c ds, int = c :: ds ∧ c ≠ '0' ∧ Digits (c :: ds))
    (hr : NoDigit r) : scanInt (int ++ r) = some (int, r) := by
  rcases h with rfl | ⟨c, ds, rfl, hc, -, hds⟩
  · rfl
  · have hds' : ∀ a ∈ ds, a.isDigit = true := fun a ha => hds a (by simp [ha])
    obtain ⟨h1, h2⟩ := span_append hds' hr
    simp [scanInt, hc, hds c (by simp), h1, h2]

theorem scanFrac_append (h : frac = [] ∨ ∃ ds, frac = '.' :: ds ∧ Digits ds) (hr : NoDigit r)
    (hdot : r.head? ≠ some '.') : scanFrac (frac ++ r) = (frac, r) := by
  rcases h with rfl | ⟨ds, rfl, hne, hds⟩
  · cases r with
    | nil => rfl
    | cons c r =>
      have hc : c ≠ '.' := by simpa using hdot
      simp [scanFrac, hc]
  · obtain ⟨h1, h2⟩ := span_append hds hr
    simp [scanFrac, h1, h2, hne]

theorem scanSign_append {sg ds : List Char} (h : sg = [] ∨ sg = ['+'] ∨ sg = ['-'])
    (hds : Digits ds) : scanSign (sg ++ (ds ++ r)) = (sg, ds ++ r) := by
  rcases h with rfl | rfl | rfl
  · cases ds with
    | nil => exact absurd rfl hds.1
    | cons c ds =>
      have hc := hds.2 c (by simp)
      have h1 : c ≠ '+' := digit_ne hc (by decide)
      have h2 : c ≠ '-' := digit_ne hc (by decide)
      simp [scanSign, h1, h2]
  · simp [scanSign]
  · simp [scanSign]

theorem scanExp_append (h : exp = [] ∨ ∃ c sg ds, exp = c :: (sg ++ ds) ∧ (c = 'e' ∨ c = 'E') ∧
      (sg = [] ∨ sg = ['+'] ∨ sg = ['-']) ∧ Digits ds) (hr : Ends r) :
    scanExp (exp ++ r) = (exp, r) := by
  rcases h with rfl | ⟨c, sg, ds, rfl, hc, hsg, hds⟩
  · cases r with
    | nil => rfl
    | cons c r =>
      have hc : ¬(c = 'e' ∨ c = 'E') := by
        rcases hr c rfl with rfl | rfl | rfl <;> decide
      simp [scanExp, hc]
  · obtain ⟨h1, h2⟩ := span_append hds.2 hr.noDigit
    have hs := scanSign_append (r := r) hsg hds
    simp [scanExp, hc, hs, h1, h2, hds.1]

theorem scanMinus_append {sign : List Char} (h : sign = [] ∨ sign = ['-'])
    (hr : r.head? ≠ some '-') : scanMinus (sign ++ r) = (sign, r) := by
  rcases h with rfl | rfl
  · cases r with
    | nil => rfl
    | cons c r =>
      have hc : c ≠ '-' := by simpa using hr
      simp [scanMinus, hc]
  · rfl

theorem exp_head (h : exp = [] ∨ ∃ c sg ds, exp = c :: (sg ++ ds) ∧ (c = 'e' ∨ c = 'E') ∧
      (sg = [] ∨ sg = ['+'] ∨ sg = ['-']) ∧ Digits ds) (hr : Ends r)
    (hc : (exp ++ r).head? = some c) : c.isDigit = false ∧ c ≠ '.' := by
  rcases h with rfl | ⟨e, sg, ds, rfl, he, -, -⟩
  · rcases hr c hc with rfl | rfl | rfl <;> decide
  · obtain rfl : e = c := by simpa using hc
    rcases he with rfl | rfl <;> decide

theorem frac_head (h : frac = [] ∨ ∃ ds, frac = '.' :: ds ∧ Digits ds)
    (hs : ∀ c, s.head? = some c → c.isDigit = false ∧ c ≠ '.') (hc : (frac ++ s).head? = some c) :
    c.isDigit = false := by
  rcases h with rfl | ⟨ds, rfl, -⟩
  · exact (hs c hc).1
  · obtain rfl : '.' = c := by simpa using hc
    decide

theorem int_head (h : int = ['0'] ∨ ∃ c ds, int = c :: ds ∧ c ≠ '0' ∧ Digits (c :: ds)) :
    ∃ c, (int ++ s).head? = some c ∧ c.isDigit = true := by
  rcases h with rfl | ⟨c, ds, rfl, -, -, hds⟩
  · exact ⟨'0', rfl, by decide⟩
  · exact ⟨c, rfl, hds c (by simp)⟩

variable {t : NumberText}

theorem scanNumber_text (h : t.Shape) (hr : Ends r) : scanNumber (t.text ++ r) = some (t, r) := by
  have hexp : ∀ c, (t.exp ++ r).head? = some c → c.isDigit = false ∧ c ≠ '.' :=
    fun c hc => exp_head h.exp hr hc
  have hfrac : NoDigit (t.frac ++ (t.exp ++ r)) := fun c hc => frac_head h.frac hexp hc
  have hminus : (t.int ++ (t.frac ++ (t.exp ++ r))).head? ≠ some '-' := by
    obtain ⟨c, hc, hd⟩ := int_head (s := t.frac ++ (t.exp ++ r)) h.int
    rw [hc]
    simpa using digit_ne hd (by decide)
  have h1 := scanMinus_append h.sign hminus
  have h2 := scanInt_append h.int hfrac
  have h3 := scanFrac_append h.frac (fun c hc => (hexp c hc).1) fun hc => (hexp _ hc).2 rfl
  have h4 := scanExp_append h.exp hr
  simp only [NumberText.text, List.append_assoc, scanNumber, h1, h2, h3, h4, Option.map_some]

theorem toDigits_head (n : ℕ) :
    Nat.toDigits 10 n = ['0'] ∨ ∃ c ds, Nat.toDigits 10 n = c :: ds ∧ c ≠ '0' := by
  induction n using Nat.strong_induction_on with
  | _ n ih =>
    rcases Nat.lt_or_ge n 10 with h | h
    · rw [Nat.toDigits_of_lt_base h]
      interval_cases n <;> simp [Nat.digitChar]
    · rw [Nat.toDigits_of_base_le (by decide) h]
      rcases ih (n / 10) (Nat.div_lt_self (by omega) (by decide)) with h0 | ⟨c, ds, hds, hc⟩
      · have hz : Nat.ofDigitChars 10 (Nat.toDigits 10 (n / 10)) 0 = 0 := by rw [h0]; rfl
        rw [Nat.ofDigitChars_ten_toDigits] at hz
        omega
      · exact Or.inr ⟨c, ds ++ [(n % 10).digitChar], by rw [hds]; rfl, hc⟩

theorem int_toDigits (n : ℕ) :
    Nat.toDigits 10 n = ['0'] ∨
      ∃ c ds, Nat.toDigits 10 n = c :: ds ∧ c ≠ '0' ∧ Digits (c :: ds) := by
  rcases toDigits_head n with h | ⟨c, ds, h, hc⟩
  · exact Or.inl h
  · refine Or.inr ⟨c, ds, h, hc, by simp, fun d hd => ?_⟩
    rw [← h] at hd
    exact Nat.isDigit_of_mem_toDigits (by decide) (by decide) hd

def intText (n : ℤ) : NumberText :=
  ⟨if n < 0 then ['-'] else [], Nat.toDigits 10 n.natAbs, [], []⟩

theorem text_intText (n : ℤ) : (intText n).text = dumpsInt n := by
  unfold intText NumberText.text dumpsInt
  split <;> simp

theorem shape_intText (n : ℤ) : (intText n).Shape := by
  refine ⟨?_, int_toDigits _, Or.inl rfl, Or.inl rfl⟩
  unfold intText
  split <;> simp

theorem value_intText (n : ℤ) : (intText n).value = (.int n : Json F) := by
  unfold NumberText.value intText
  rw [if_pos ⟨rfl, rfl⟩, Nat.ofDigitChars_ten_toDigits]
  by_cases h : n < 0
  · simp only [h, if_true, List.cons_ne_nil, if_false]
    congr 1
    omega
  · simp only [h, if_false, if_true]
    congr 1
    omega

/-! ## Reading a string back -/

theorem hexVal_hexDigit : ∀ n < 16, hexVal (hexDigit n) = some n := by
  decide

theorem charOf_toNat (c : Char) : charOf c.toNat = some c := by
  have h : Nat.isValidChar c.toNat := c.valid
  rw [charOf, if_pos h, Char.ofNat_toNat]

theorem scanUnits_quote (s : List Char) : scanUnits ('"' :: s) = some ([], s) := by
  rw [scanUnits.eq_def]
  simp

theorem scanUnits_letter {e x : Char} (he : unescape e = some x) (s : List Char) :
    scanUnits ('\\' :: e :: s) = consUnit (some x.toNat) (scanUnits s) := by
  have hu : e ≠ 'u' := by
    rintro rfl
    simp [unescape] at he
  rw [scanUnits.eq_def]
  simp [hu, he]

theorem scanUnits_hex {h₁ h₂ h₃ h₄ : Char} (s : List Char) :
    scanUnits ('\\' :: 'u' :: h₁ :: h₂ :: h₃ :: h₄ :: s) =
      consUnit (hex4 h₁ h₂ h₃ h₄) (scanUnits s) := by
  rw [scanUnits.eq_def]
  simp

theorem scanUnits_raw (hq : c ≠ '"') (hb : c ≠ '\\') (hc : ¬c.toNat < 32) (s : List Char) :
    scanUnits (c :: s) = consUnit (some c.toNat) (scanUnits s) := by
  rw [scanUnits.eq_def]
  simp only [hq, hb, hc, if_false]

theorem scanUnits_escape (c : Char) (s : List Char) :
    scanUnits (escape c ++ s) = consUnit (some c.toNat) (scanUnits s) := by
  unfold escape
  split_ifs with h1 h2 h3 h4 h5 h6 h7 h8
  · subst h1; exact scanUnits_letter rfl s
  · subst h2; exact scanUnits_letter rfl s
  · subst h3; exact scanUnits_letter rfl s
  · subst h4; exact scanUnits_letter rfl s
  · subst h5; exact scanUnits_letter rfl s
  · subst h6; exact scanUnits_letter rfl s
  · subst h7; exact scanUnits_letter rfl s
  · have hhi := hexVal_hexDigit (c.toNat / 16) (by omega)
    have hlo := hexVal_hexDigit (c.toNat % 16) (by omega)
    have h0 : hexVal '0' = some 0 := by decide
    have hc : 16 * (c.toNat / 16) + c.toNat % 16 = c.toNat := by omega
    rw [List.cons_append, List.cons_append, List.cons_append, List.cons_append,
      List.cons_append, List.cons_append, List.nil_append, scanUnits_hex]
    simp [hex4, h0, hhi, hlo, hc]
  · exact scanUnits_raw h1 h2 h8 s

theorem scanUnits_dumpsString (cs r : List Char) :
    scanUnits (dumpsString cs ++ r) = some (cs.map Char.toNat, r) := by
  induction cs with
  | nil => exact scanUnits_quote r
  | cons c cs ih =>
    rw [dumpsString, List.append_assoc, scanUnits_escape, ih]
    rfl

theorem not_surrogates (c : Char) (v : ℕ) : ¬surrogates c.toNat v := by
  unfold surrogates
  have h : Nat.isValidChar c.toNat := c.valid
  unfold Nat.isValidChar at h
  omega

theorem joinUnits_map (cs : List Char) : joinUnits (cs.map Char.toNat) = some cs := by
  induction cs with
  | nil => rfl
  | cons c cs ih =>
    cases cs with
    | nil => rw [List.map_cons, List.map_nil, joinUnits, charOf_toNat, consChar]
    | cons d cs =>
      rw [List.map_cons] at ih
      rw [List.map_cons, List.map_cons, joinUnits, if_neg (not_surrogates c d.toNat),
        charOf_toNat, ih, consChar]

theorem scanString_dumpsString (cs r : List Char) :
    scanString (dumpsString cs ++ r) = some (cs, r) := by
  rw [scanString, scanUnits_dumpsString]
  simp [joinUnits_map]

/-! ## Reading a value back -/

/-- What a host prints for a float: a number with a fraction or an exponent, or one of
the three constants. It reads back as the same float. -/
class LawfulFloatText (F : Type) [FloatText F] : Prop where
  shape : ∀ x : F,
    (∃ t : NumberText, t.Shape ∧ (t.frac ≠ [] ∨ t.exp ≠ []) ∧ FloatText.repr x = t.text) ∨
    FloatText.repr x = ['N', 'a', 'N'] ∨
    FloatText.repr x = ['I', 'n', 'f', 'i', 'n', 'i', 't', 'y'] ∨
    FloatText.repr x = ['-', 'I', 'n', 'f', 'i', 'n', 'i', 't', 'y']
  ofText_repr : ∀ x : F, FloatText.ofText (FloatText.repr x) = x

/-- The characters a value's text can start with. -/
def Starts (c : Char) : Prop :=
  c.isDigit = true ∨ c = '-' ∨ c = 'n' ∨ c = 't' ∨ c = 'f' ∨ c = 'N' ∨ c = 'I' ∨ c = '"' ∨
    c = '[' ∨ c = '{'

instance (c : Char) : Decidable (Starts c) :=
  inferInstanceAs (Decidable (_ ∨ _))

theorem skipWs_cons (h : c ≠ ' ' ∧ c ≠ '\t' ∧ c ≠ '\n' ∧ c ≠ '\r') : skipWs (c :: s) = c :: s := by
  simp [skipWs, h.1, h.2.1, h.2.2.1, h.2.2.2]

theorem Starts.skipWs (h : Starts c) (s : List Char) : skipWs (c :: s) = c :: s := by
  refine skipWs_cons ?_
  rcases h with h | h
  · exact ⟨digit_ne h (by decide), digit_ne h (by decide), digit_ne h (by decide),
      digit_ne h (by decide)⟩
  · rcases h with rfl | rfl | rfl | rfl | rfl | rfl | rfl | rfl | rfl <;> decide

theorem afterWord_ne {d : Char} (h : c ≠ d) (w s : List Char) :
    afterWord (c :: w) (d :: s) = none := by
  simp [afterWord, h]

theorem NumberText.Shape.head (h : t.Shape) :
    ∃ c s, t.text = c :: s ∧ (c.isDigit = true ∨ c = '-') := by
  obtain ⟨d, hd, hdig⟩ := int_head (s := t.frac ++ t.exp) h.int
  obtain ⟨s, hs⟩ : ∃ s, t.int ++ (t.frac ++ t.exp) = d :: s := by
    cases hi : t.int ++ (t.frac ++ t.exp) with
    | nil => simp [hi] at hd
    | cons e s => exact ⟨s, by rw [hi] at hd; simpa using hd⟩
  rcases h.sign with hsg | hsg
  · exact ⟨d, s, by simpa [NumberText.text, hsg] using hs, Or.inl hdig⟩
  · exact ⟨'-', d :: s, by simpa [NumberText.text, hsg] using hs, Or.inr rfl⟩

theorem scanAtom_number (h : t.Shape) (hr : Ends r) :
    scanAtom (t.text ++ r) = some ((t.value : Json F), r) := by
  obtain ⟨c, s, hs, hc⟩ := h.head
  have hne : ∀ d : Char, d.isDigit = false → d ≠ '-' → d ≠ c := by
    intro d hd hm hdc
    rcases hc with hc | hc
    · exact digit_ne hc hd hdc.symm
    · exact hm (hdc.trans hc)
  have hn := scanNumber_text h hr
  rw [hs, List.cons_append] at hn ⊢
  simp only [scanAtom, afterWord_ne (hne 'n' (by decide) (by decide)),
    afterWord_ne (hne 't' (by decide) (by decide)), afterWord_ne (hne 'f' (by decide) (by decide)),
    hn]

theorem scanAtom_int (n : ℤ) (hr : Ends r) :
    scanAtom (dumpsInt n ++ r) = some ((.int n : Json F), r) := by
  rw [← text_intText, scanAtom_number (shape_intText n) hr, value_intText]

theorem scanAtom_float [LawfulFloatText F] (x : F) (hr : Ends r) :
    scanAtom (FloatText.repr x ++ r) = some (.float x, r) := by
  have hx := LawfulFloatText.ofText_repr x
  rcases LawfulFloatText.shape x with ⟨t, ht, hf, h⟩ | h | h | h
  · have hv : (t.value : Json F) = .float x := by
      rw [NumberText.value, if_neg fun hc => hf.elim (· hc.1) (· hc.2), ← h, hx]
    rw [h, scanAtom_number ht hr, hv]
  · rw [h] at hx ⊢
    simp [scanAtom, afterWord, scanNumber, scanMinus, scanInt, hx]
  · rw [h] at hx ⊢
    simp [scanAtom, afterWord, scanNumber, scanMinus, scanInt, hx]
  · rw [h] at hx ⊢
    simp [scanAtom, afterWord, scanNumber, scanMinus, scanInt, hx]

theorem repr_head [LawfulFloatText F] (x : F) : ∃ c s, FloatText.repr x = c :: s ∧
    (c.isDigit = true ∨ c = '-' ∨ c = 'N' ∨ c = 'I') := by
  rcases LawfulFloatText.shape x with ⟨t, ht, -, h⟩ | h | h | h
  · obtain ⟨c, s, hs, hc⟩ := ht.head
    exact ⟨c, s, h.trans hs, hc.imp_right Or.inl⟩
  · exact ⟨_, _, h, by decide⟩
  · exact ⟨_, _, h, by decide⟩
  · exact ⟨_, _, h, by decide⟩

theorem dumpsInt_head (n : ℤ) : ∃ c s, dumpsInt n = c :: s ∧ (c.isDigit = true ∨ c = '-') := by
  rw [← text_intText]
  exact (shape_intText n).head

theorem scanValue_atom (n : ℕ) (hq : c ≠ '"') (hb : c ≠ '{') (ha : c ≠ '[') :
    scanValue (n + 1) (c :: s) = (scanAtom (c :: s) : Option (Json F × _)) := by
  rw [scanValue, if_neg hq, if_neg hb, if_neg ha]

theorem dumps_head [LawfulFloatText F] (v : Json F) : ∃ c s, dumps v = c :: s ∧ Starts c := by
  cases v with
  | null => exact ⟨_, _, rfl, by decide⟩
  | bool b => cases b <;> exact ⟨_, _, rfl, by decide⟩
  | int n =>
    obtain ⟨c, s, h, hc⟩ := dumpsInt_head n
    exact ⟨c, s, h, hc.imp_right Or.inl⟩
  | float x =>
    obtain ⟨c, s, h, hc⟩ := repr_head x
    refine ⟨c, s, h, ?_⟩
    rcases hc with hc | hc | hc | hc <;> simp [Starts, hc]
  | str s => exact ⟨_, _, rfl, by decide⟩
  | arr xs => cases xs <;> exact ⟨_, _, rfl, by decide⟩
  | obj kvs => cases kvs <;> exact ⟨_, _, rfl, by decide⟩

theorem skipWs_dumps [LawfulFloatText F] (v : Json F) (r : List Char) :
    skipWs (dumps v ++ r) = dumps v ++ r := by
  obtain ⟨c, s, h, hc⟩ := dumps_head v
  rw [h, List.cons_append, hc.skipWs]

theorem scanValue_str (s : String) (n : ℕ) (r : List Char) :
    scanValue (n + 1) ('"' :: (dumpsString (toChars s) ++ r)) = some ((.str s : Json F), r) := by
  rw [scanValue, if_pos rfl, scanString_dumpsString, Option.map_some]
  simp

theorem scanPair_dumps [LawfulFloatText F] {n : ℕ} (h : scanValue n (dumps v ++ r) = some (v, r)) :
    scanPair (n + 1) ('"' :: (dumpsString (toChars k) ++ ':' :: (dumps v ++ r))) =
      some ((k, v), r) := by
  have hc : skipWs (':' :: (dumps v ++ r)) = ':' :: (dumps v ++ r) := skipWs_cons (by decide)
  simp only [scanPair, scanString_dumpsString, hc, skipWs_dumps, h, Option.map_some,
    ofChars_toChars]

theorem ends_dumpsElems (xs : List (Json F)) (r : List Char) : Ends (dumpsElems xs ++ r) := by
  cases xs with
  | nil => exact ends_cons (Or.inr (Or.inl rfl))
  | cons x xs => exact ends_cons (Or.inl rfl)

theorem ends_dumpsPairs (kvs : List (String × Json F)) (r : List Char) :
    Ends (dumpsPairs kvs ++ r) := by
  cases kvs with
  | nil => exact ends_cons (Or.inr (Or.inr rfl))
  | cons kv kvs => exact ends_cons (Or.inl rfl)

theorem scanValue_arr {n : ℕ} {x : Json F} {xs : List (Json F)} (hc : Starts c)
    (hx : scanValue n (c :: s) = some (x, r')) (hxs : scanElems n r' = some (xs, r)) :
    scanValue (n + 1) ('[' :: c :: s) = some (.arr (x :: xs), r) := by
  have hne : c ≠ ']' := by
    rintro rfl
    exact absurd hc (by decide)
  rw [scanValue, if_neg (by decide), if_neg (by decide), if_pos rfl, hc.skipWs]
  simp [hne, hx, hxs]

variable {kv : String × Json F}

theorem scanValue_obj {n : ℕ} (hkv : scanPair n ('"' :: s) = some (kv, r'))
    (hkvs : scanPairs n r' = some (kvs, r)) (hnd : (keys (kv :: kvs)).Nodup) :
    scanValue (n + 1) ('{' :: '"' :: s) = some (.obj (kv :: kvs), r) := by
  have hq : skipWs ('"' :: s) = '"' :: s := skipWs_cons (by decide)
  rw [scanValue, if_neg (by decide), if_pos rfl, hq]
  simp [hkv, hkvs, objOf_eq hnd]

mutual
/-- The scanner reads a printed value and stops after it. -/
theorem scanValue_dumps [LawfulFloatText F] (v : Json F) (hv : Wf v) {n : ℕ}
    (hn : (dumps v).length ≤ n) {r : List Char} (hr : Ends r) :
    scanValue n (dumps v ++ r) = some (v, r) := by
  cases n with
  | zero =>
    obtain ⟨c, s, h, -⟩ := dumps_head v
    simp [h] at hn
  | succ n =>
    match v, hv with
    | .null, _ => exact scanValue_atom n (by decide) (by decide) (by decide)
    | .bool true, _ => exact scanValue_atom n (by decide) (by decide) (by decide)
    | .bool false, _ => exact scanValue_atom n (by decide) (by decide) (by decide)
    | .int i, _ =>
      obtain ⟨c, s, h, hc⟩ := dumpsInt_head i
      have ha := scanAtom_int (F := F) i hr
      have hne : c ≠ '"' ∧ c ≠ '{' ∧ c ≠ '[' := by
        rcases hc with hc | rfl
        · exact ⟨digit_ne hc (by decide), digit_ne hc (by decide), digit_ne hc (by decide)⟩
        · decide
      rw [dumps, h, List.cons_append] at *
      rw [scanValue_atom n hne.1 hne.2.1 hne.2.2, ha]
    | .float x, _ =>
      obtain ⟨c, s, h, hc⟩ := repr_head x
      have ha := scanAtom_float x hr
      have hne : c ≠ '"' ∧ c ≠ '{' ∧ c ≠ '[' := by
        rcases hc with hc | rfl | rfl | rfl
        · exact ⟨digit_ne hc (by decide), digit_ne hc (by decide), digit_ne hc (by decide)⟩
        all_goals decide
      rw [dumps, h, List.cons_append] at *
      rw [scanValue_atom n hne.1 hne.2.1 hne.2.2, ha]
    | .str s, _ => exact scanValue_str s n r
    | .arr [], _ => rfl
    | .arr (x :: xs), hv =>
      simp only [dumps, List.length_cons, List.length_append] at hn
      have hx := scanValue_dumps x hv.1 (n := n) (by omega) (ends_dumpsElems xs r)
      have hxs := scanElems_dumps xs hv.2 (n := n) (by omega) r
      obtain ⟨c, s, h, hc⟩ := dumps_head x
      rw [h, List.cons_append] at hx
      rw [dumps, h, List.cons_append, List.cons_append, List.cons_append, List.append_assoc]
      exact scanValue_arr hc hx hxs
    | .obj [], _ => rfl
    | .obj ((k, v) :: kvs), hv =>
      simp only [dumps, List.length_cons, List.length_append] at hn
      obtain ⟨n, rfl⟩ : ∃ m, n = m + 1 := ⟨n - 1, by omega⟩
      have hx := scanValue_dumps v hv.2.1 (n := n) (by omega) (ends_dumpsPairs kvs r)
      have hkv := scanPair_dumps (k := k) hx
      have hkvs := scanPairs_dumps kvs hv.2.2 (n := n + 1) (by omega) r
      have h := scanValue_obj hkv hkvs hv.1
      simpa [dumps] using h

theorem scanElems_dumps [LawfulFloatText F] (xs : List (Json F)) (hv : WfElems xs) {n : ℕ}
    (hn : (dumpsElems xs).length ≤ n) (r : List Char) :
    scanElems n (dumpsElems xs ++ r) = some (xs, r) := by
  cases n with
  | zero => cases xs <;> simp [dumpsElems] at hn
  | succ n =>
    match xs, hv with
    | [], _ => rfl
    | x :: xs, hv =>
      simp only [dumpsElems, List.length_cons, List.length_append] at hn
      have hx := scanValue_dumps x hv.1 (n := n) (by omega) (ends_dumpsElems xs r)
      have hxs := scanElems_dumps xs hv.2 (n := n) (by omega) r
      have hw : skipWs (',' :: (dumps x ++ (dumpsElems xs ++ r))) =
          ',' :: (dumps x ++ (dumpsElems xs ++ r)) := skipWs_cons (by decide)
      simp only [dumpsElems, List.cons_append, List.append_assoc, scanElems, hw, skipWs_dumps, hx,
        hxs, Option.map_some]

theorem scanPairs_dumps [LawfulFloatText F] (kvs : List (String × Json F)) (hv : WfPairs kvs)
    {n : ℕ} (hn : (dumpsPairs kvs).length ≤ n) (r : List Char) :
    scanPairs n (dumpsPairs kvs ++ r) = some (kvs, r) := by
  cases n with
  | zero => cases kvs <;> simp [dumpsPairs] at hn
  | succ n =>
    match kvs, hv with
    | [], _ => rfl
    | (k, v) :: kvs, hv =>
      simp only [dumpsPairs, List.length_cons, List.length_append] at hn
      obtain ⟨n, rfl⟩ : ∃ m, n = m + 1 := ⟨n - 1, by omega⟩
      have hx := scanValue_dumps v hv.1 (n := n) (by omega) (ends_dumpsPairs kvs r)
      have hkv := scanPair_dumps (k := k) hx
      have hkvs := scanPairs_dumps kvs hv.2 (n := n + 1) (by omega) r
      have hw : ∀ s, skipWs (',' :: s) = ',' :: s := fun s => skipWs_cons (by decide)
      have hq : ∀ s, skipWs ('"' :: s) = '"' :: s := fun s => skipWs_cons (by decide)
      simp only [dumpsPairs, List.cons_append, List.append_assoc]
      rw [scanPairs, hw]
      simp only [hq, hkv, hkvs, Option.map_some]
end

theorem loads_dumps [LawfulFloatText F] (hv : Wf v) : loads (ofChars (dumps v)) = some v := by
  have h := scanValue_dumps v hv (n := 2 * (dumps v).length + 2) (by omega) ends_nil
  have hs := skipWs_dumps v []
  rw [List.append_nil] at h hs
  rw [loads, toChars_ofChars, hs, h]
  rfl

theorem dumps_injective [LawfulFloatText F] {w : Json F} (hv : Wf v) (hw : Wf w)
    (h : dumps v = dumps w) : v = w := by
  have hv := loads_dumps hv
  rw [h, loads_dumps hw] at hv
  exact (Option.some.inj hv).symm

theorem canonical_sortKeys (v : Json F) : canonical (sortKeys v) = canonical v := by
  rw [canonical, sortKeys_sortKeys, canonical]

theorem loads_canonical [LawfulFloatText F] (hv : Wf v) : loads (canonical v) = some (sortKeys v) :=
  loads_dumps (wf_sortKeys v hv)

/-! ## What is read is well formed -/

omit [FloatText F] in
theorem mem_setKey (h : kv ∈ setKey k v kvs) : kv = (k, v) ∨ kv ∈ kvs := by
  induction kvs with
  | nil => exact Or.inl (by simpa [setKey] using h)
  | cons p kvs ih =>
    rw [setKey] at h
    split_ifs at h with hp
    · exact (List.mem_cons.1 h).imp id (List.mem_cons_of_mem p)
    · rcases List.mem_cons.1 h with h | h
      · exact Or.inr (by simp [h])
      · exact (ih h).imp id (List.mem_cons_of_mem p)

omit [FloatText F] in
theorem nodup_setKey (h : (keys kvs).Nodup) : (keys (setKey k v kvs)).Nodup := by
  induction kvs with
  | nil => simp [setKey, keys]
  | cons p kvs ih =>
    rw [keys, List.map_cons, List.nodup_cons] at h
    rw [setKey]
    split_ifs with hp
    · rw [keys, List.map_cons, List.nodup_cons]
      exact ⟨by rw [← hp]; exact h.1, h.2⟩
    · rw [keys, List.map_cons, List.nodup_cons]
      refine ⟨fun hm => ?_, ih h.2⟩
      obtain ⟨q, hq, hqp⟩ := List.mem_map.1 hm
      rcases mem_setKey hq with rfl | hq
      · exact hp hqp.symm
      · exact h.1 (hqp ▸ List.mem_map_of_mem hq)

omit [FloatText F] in
/-- The object of any well-formed pairs is well formed. -/
theorem wf_objOf (h : WfPairs kvs) : Wf (.obj (objOf kvs)) := by
  suffices ∀ acc, (keys acc).Nodup → WfPairs acc →
      Wf (.obj (kvs.foldl (fun acc kv => setKey kv.1 kv.2 acc) acc)) from
    this [] (by simp [keys]) trivial
  induction kvs with
  | nil => exact fun acc hn hw => ⟨hn, hw⟩
  | cons kv kvs ih =>
    intro acc hn hw
    refine ih h.2 _ (nodup_setKey hn) (wfPairs_iff.2 fun p hp => ?_)
    rcases mem_setKey hp with rfl | hp
    · exact h.1
    · exact wfPairs_iff.1 hw p hp

theorem wf_scanAtom (h : scanAtom s = some (v, r)) : Wf v := by
  unfold scanAtom at h
  split at h
  · obtain rfl := (Prod.mk.inj (Option.some.inj h)).1; trivial
  · obtain rfl := (Prod.mk.inj (Option.some.inj h)).1; trivial
  · obtain rfl := (Prod.mk.inj (Option.some.inj h)).1; trivial
  · split at h
    · obtain rfl := (Prod.mk.inj (Option.some.inj h)).1
      unfold NumberText.value
      split_ifs <;> trivial
    · split at h
      · obtain rfl := (Prod.mk.inj (Option.some.inj h)).1; trivial
      · obtain rfl := (Prod.mk.inj (Option.some.inj h)).1; trivial
      · obtain rfl := (Prod.mk.inj (Option.some.inj h)).1; trivial
      · simp at h

/-- What the four scanners read with a bound `n` is well formed. -/
theorem wf_scan (n : ℕ) :
    (∀ s (v : Json F) r, scanValue n s = some (v, r) → Wf v) ∧
    (∀ s (xs : List (Json F)) r, scanElems n s = some (xs, r) → WfElems xs) ∧
    (∀ s (kv : String × Json F) r, scanPair n s = some (kv, r) → Wf kv.2) ∧
    (∀ s (kvs : List (String × Json F)) r, scanPairs n s = some (kvs, r) → WfPairs kvs) := by
  induction n with
  | zero => simp [scanValue, scanElems, scanPair, scanPairs]
  | succ n ih =>
    obtain ⟨ihv, ihe, ihp, ihps⟩ := ih
    refine ⟨fun s v r h => ?_, fun s xs r h => ?_, fun s kv r h => ?_, fun s kvs r h => ?_⟩
    · cases s with
      | nil => simp [scanValue] at h
      | cons c s =>
        rw [scanValue] at h
        split_ifs at h with hq hb ha
        · obtain ⟨p, -, hp⟩ := Option.map_eq_some_iff.1 h
          obtain rfl := (Prod.mk.inj hp).1
          trivial
        · split at h
          · obtain rfl := (Prod.mk.inj (Option.some.inj h)).1
            exact ⟨by simp [keys], trivial⟩
          · split at h
            · next kv r' hkv =>
              obtain ⟨p, hps, hp⟩ := Option.map_eq_some_iff.1 h
              obtain rfl := (Prod.mk.inj hp).1
              exact wf_objOf ⟨ihp _ _ _ hkv, ihps _ _ _ hps⟩
            · simp at h
        · split at h
          · obtain rfl := (Prod.mk.inj (Option.some.inj h)).1
            trivial
          · split at h
            · next x r' hx =>
              obtain ⟨p, hxs, hp⟩ := Option.map_eq_some_iff.1 h
              obtain rfl := (Prod.mk.inj hp).1
              exact ⟨ihv _ _ _ hx, ihe _ _ _ hxs⟩
            · simp at h
        · exact wf_scanAtom h
    · rw [scanElems] at h
      split at h
      · obtain rfl := (Prod.mk.inj (Option.some.inj h)).1
        trivial
      · split at h
        · next x r' hx =>
          obtain ⟨p, hxs, hp⟩ := Option.map_eq_some_iff.1 h
          obtain rfl := (Prod.mk.inj hp).1
          exact ⟨ihv _ _ _ hx, ihe _ _ _ hxs⟩
        · simp at h
      · simp at h
    · rw [scanPair.eq_def] at h
      dsimp only at h
      split at h
      · split at h
        · split at h
          · obtain ⟨p, hv, hp⟩ := Option.map_eq_some_iff.1 h
            obtain rfl := (Prod.mk.inj hp).1
            exact ihv _ _ _ hv
          · simp at h
        · simp at h
      · simp at h
    · rw [scanPairs] at h
      split at h
      · obtain rfl := (Prod.mk.inj (Option.some.inj h)).1
        trivial
      · split at h
        · next kv r' hkv =>
          obtain ⟨p, hps, hp⟩ := Option.map_eq_some_iff.1 h
          obtain rfl := (Prod.mk.inj hp).1
          exact ⟨ihp _ _ _ hkv, ihps _ _ _ hps⟩
        · simp at h
      · simp at h

theorem wf_of_loads {s : String} (h : loads s = some v) : Wf v := by
  unfold loads at h
  split at h
  · next w r hw =>
    split_ifs at h with hr
    obtain rfl := Option.some.inj h
    exact (wf_scan _).1 _ _ _ hw
  · simp at h

end JsonText
