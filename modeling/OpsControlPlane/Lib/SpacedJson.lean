import OpsControlPlane.Lib.AsciiJson

/-!
# JSON texts with blanks

The text of a value as `json.dumps` writes it without separators of its own: a blank behind each
comma and each colon, and the characters of the texts as they are. `toAscii` of it is the text
with `ensure_ascii`.
-/

namespace JsonText

open Text

variable {F : Type} [FloatText F]

mutual
/-- `json.dumps(value, ensure_ascii=False)`, keys in insertion order. -/
def dumpsSpaced : Json F → List Char
  | .arr [] => ['[', ']']
  | .arr (x :: xs) => '[' :: (dumpsSpaced x ++ dumpsItems xs)
  | .obj [] => ['{', '}']
  | .obj ((k, v) :: kvs) =>
    '{' :: '"' :: (dumpsString (toChars k) ++ ':' :: ' ' :: (dumpsSpaced v ++ dumpsFields kvs))
  | .str s => '"' :: dumpsString (toChars s)
  | .null => ['n', 'u', 'l', 'l']
  | .bool true => ['t', 'r', 'u', 'e']
  | .bool false => ['f', 'a', 'l', 's', 'e']
  | .int n => dumpsInt n
  | .float x => FloatText.repr x

/-- The elements after the first one, each behind its comma, and the closing bracket. -/
def dumpsItems : List (Json F) → List Char
  | [] => [']']
  | x :: xs => ',' :: ' ' :: (dumpsSpaced x ++ dumpsItems xs)

/-- The pairs after the first one, each behind its comma, and the closing brace. -/
def dumpsFields : List (String × Json F) → List Char
  | [] => ['}']
  | (k, v) :: kvs =>
    ',' :: ' ' :: '"' :: (dumpsString (toChars k) ++ ':' :: ' ' ::
      (dumpsSpaced v ++ dumpsFields kvs))
end

/-- `json.dumps(value, ensure_ascii=False, sort_keys=True)`. -/
def dumpsSorted (v : Json F) : List Char :=
  dumpsSpaced (sortKeys v)

def dumpsAscii (v : Json F) : List Char :=
  toAscii (dumpsSpaced v)

theorem length_le_toAscii (l : List Char) : l.length ≤ (toAscii l).length := by
  induction l with
  | nil => exact le_rfl
  | cons c l ih =>
    have hc : 1 ≤ (asciiChar c).length := by
      unfold asciiChar
      split_ifs <;> simp [unitText]
    simp only [toAscii, List.flatMap_cons, List.length_append, List.length_cons] at ih ⊢
    omega

theorem one_le_dumpsString (cs : List Char) : 1 ≤ (dumpsString cs).length := by
  induction cs with
  | nil => exact le_rfl
  | cons c cs ih =>
    simp only [dumpsString, List.length_append]
    omega

theorem length_dumpsItems (names : List String) :
    4 * names.length ≤ (dumpsItems (names.map (Json.str (F := F)))).length := by
  induction names with
  | nil => exact Nat.zero_le _
  | cons s names ih =>
    have hs := one_le_dumpsString (toChars s)
    simp only [List.map_cons, dumpsItems, dumpsSpaced, List.length_cons, List.length_append]
    omega

theorem length_dumpsSpaced_arr (names : List String) :
    4 * names.length ≤ (dumpsSpaced (.arr (names.map (Json.str (F := F))))).length + 1 := by
  cases names with
  | nil => exact Nat.zero_le _
  | cons s names =>
    have hs := one_le_dumpsString (toChars s)
    have := length_dumpsItems (F := F) names
    simp only [List.map_cons, dumpsSpaced, List.length_cons, List.length_append]
    omega

variable {kvs : List (String × Json F)} {kv : String × Json F}

theorem length_dumpsFields (h : kv ∈ kvs) :
    (dumpsSpaced kv.2).length ≤ (dumpsFields kvs).length := by
  induction kvs with
  | nil => exact absurd h List.not_mem_nil
  | cons p kvs ih =>
    simp only [dumpsFields, List.length_cons, List.length_append]
    rcases List.mem_cons.1 h with rfl | h
    · omega
    · have := ih h
      omega

theorem length_dumpsSpaced_obj (h : kv ∈ kvs) :
    (dumpsSpaced kv.2).length ≤ (dumpsSpaced (.obj kvs)).length := by
  cases kvs with
  | nil => exact absurd h List.not_mem_nil
  | cons p kvs =>
    simp only [dumpsSpaced, List.length_cons, List.length_append]
    rcases List.mem_cons.1 h with rfl | h
    · omega
    · have := length_dumpsFields h
      omega

end JsonText
