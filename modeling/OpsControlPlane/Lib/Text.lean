import Mathlib.Data.String.Basic
import Mathlib.Tactic

/-!
# Texts as lists of characters

`toChars` and `ofChars` are `String.toList` and `String.ofList`, on the bytes of a text:
`toChars_eq` and `ofChars_eq` say so. They evaluate in a time that is linear in the length of
an ASCII text.
-/

namespace Text

/-- A byte that is a character of its own. -/
def isAscii (b : UInt8) : Bool :=
  b.toNat < 128

def toChars (s : String) : List Char :=
  if s.toByteArray.data.toList.all isAscii then
    s.toByteArray.data.toList.map fun b => Char.ofNat b.toNat
  else s.toList

def ofChars (l : List Char) : String :=
  ⟨⟨⟨l.flatMap String.utf8EncodeChar⟩⟩,
    .intro l (ByteArray.ext (List.data_toByteArray (l := l.flatMap String.utf8EncodeChar)).symm)⟩

theorem map_utf8EncodeChar {c : Char} (h : (String.utf8EncodeChar c).all isAscii = true) :
    (String.utf8EncodeChar c).map (fun b => Char.ofNat b.toNat) = [c] := by
  have hbyte : ∀ x y : ℕ, 128 ≤ y → x + y < 256 → isAscii (UInt8.ofNat (x + y)) = false := by
    intro x y hy hxy
    simp only [isAscii, UInt8.toNat_ofNat']
    simp only [decide_eq_false_iff_not, not_lt]
    omega
  unfold String.utf8EncodeChar at h ⊢
  simp only at h ⊢
  split_ifs at h ⊢ with h1 h2 h3
  · simp only [List.map_cons, List.map_nil, UInt8.toNat_ofNat']
    rw [Nat.mod_eq_of_lt (by omega)]
    exact congrArg (· :: []) (Char.ofNat_toNat c)
  all_goals
    rw [List.all_cons, hbyte _ _ (by norm_num) (by omega)] at h
    cases h

theorem toChars_eq (s : String) : toChars s = s.toList := by
  unfold toChars
  split_ifs with h
  · have hbytes : s.toByteArray.data.toList = s.toList.flatMap String.utf8EncodeChar := by
      conv_lhs => rw [← String.ofList_toList (s := s)]
      rw [String.toByteArray_ofList, List.utf8Encode, List.toList_data_toByteArray]
    rw [hbytes] at h ⊢
    generalize s.toList = l at h
    induction l with
    | nil => rfl
    | cons c l ih =>
      rw [List.flatMap_cons, List.all_append, Bool.and_eq_true] at h
      rw [List.flatMap_cons, List.map_append, map_utf8EncodeChar h.1, ih h.2]
      rfl
  · rfl

theorem ofChars_eq (l : List Char) : ofChars l = String.ofList l := by
  refine String.toByteArray_inj.1 (ByteArray.ext ?_)
  rw [String.toByteArray_ofList, List.utf8Encode, List.data_toByteArray]
  rfl

@[simp] theorem toChars_ofChars (l : List Char) : toChars (ofChars l) = l := by
  rw [toChars_eq, ofChars_eq, String.toList_ofList]

@[simp] theorem ofChars_toChars (s : String) : ofChars (toChars s) = s := by
  rw [toChars_eq, ofChars_eq, String.ofList_toList]

theorem ofChars_injective : Function.Injective ofChars :=
  Function.LeftInverse.injective toChars_ofChars

@[simp] theorem length_ofChars (l : List Char) : (ofChars l).length = l.length := by
  rw [ofChars_eq, String.length_ofList]

theorem ofChars_lt_ofChars {s t : List Char} : ofChars s < ofChars t ↔ s < t := by
  rw [ofChars_eq, ofChars_eq, String.lt_iff_toList_lt, String.toList_ofList,
    String.toList_ofList]

end Text
