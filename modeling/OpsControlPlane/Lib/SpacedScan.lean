import OpsControlPlane.Lib.SpacedJson

/-!
# Reading JSON texts with blanks

`scanValue_spaced` is the reading of a value that was written with a blank behind each comma and
each colon, and `printed_dumpsSpaced` says that its text has no control character: it stays on one
line.
-/

namespace JsonText

open Text

/-! ## No control characters -/

/-- No character is a control character. -/
def Printed (l : List Char) : Prop :=
  ∀ c ∈ l, 32 ≤ c.toNat

@[simp] theorem printed_nil : Printed [] :=
  List.forall_mem_nil _

@[simp] theorem printed_cons {c : Char} {l : List Char} :
    Printed (c :: l) ↔ 32 ≤ c.toNat ∧ Printed l :=
  List.forall_mem_cons

@[simp] theorem printed_append {l l' : List Char} :
    Printed (l ++ l') ↔ Printed l ∧ Printed l' :=
  List.forall_mem_append

theorem Digits.printed {ds : List Char} (h : Digits ds) : Printed ds := by
  intro c hc
  have hdigit := h.2 c hc
  simp only [Char.isDigit, Bool.and_eq_true, decide_eq_true_eq, ge_iff_le,
    UInt32.le_iff_toNat_le] at hdigit
  exact le_trans (by decide) hdigit.1

theorem NumberText.Shape.printed {t : NumberText} (h : t.Shape) : Printed t.text := by
  have hsign : Printed t.sign := by
    rcases h.sign with hs | hs <;> rw [hs]
    · exact printed_nil
    · exact List.forall_mem_singleton.2 (by decide)
  have hint : Printed t.int := by
    rcases h.int with hi | ⟨c, ds, hi, -, hds⟩ <;> rw [hi]
    · exact List.forall_mem_singleton.2 (by decide)
    · exact hds.printed
  have hfrac : Printed t.frac := by
    rcases h.frac with hf | ⟨ds, hf, hds⟩ <;> rw [hf]
    · exact printed_nil
    · exact printed_cons.2 ⟨by decide, hds.printed⟩
  have hexp : Printed t.exp := by
    rcases h.exp with he | ⟨c, sg, ds, he, hc, hsg, hds⟩ <;> rw [he]
    · exact printed_nil
    · refine printed_cons.2 ⟨?_, printed_append.2 ⟨?_, hds.printed⟩⟩
      · rcases hc with rfl | rfl <;> decide
      · rcases hsg with rfl | rfl | rfl
        · exact printed_nil
        · exact List.forall_mem_singleton.2 (by decide)
        · exact List.forall_mem_singleton.2 (by decide)
  rw [NumberText.text]
  simp only [printed_append]
  exact ⟨⟨⟨hsign, hint⟩, hfrac⟩, hexp⟩

theorem printed_hexDigit : ∀ n < 16, 32 ≤ (hexDigit n).toNat := by
  decide

theorem printed_escape (c : Char) : Printed (escape c) := by
  unfold escape
  split_ifs with h₁ h₂ h₃ h₄ h₅ h₆ h₇ hlt
  iterate 7 exact List.forall_mem_cons.2 ⟨by decide, List.forall_mem_singleton.2 (by decide)⟩
  · have hhigh := printed_hexDigit (c.toNat / 16) (by omega)
    have hlow := printed_hexDigit (c.toNat % 16) (by omega)
    simp only [printed_cons, printed_nil, and_true]
    exact ⟨by decide, by decide, by decide, by decide, hhigh, hlow⟩
  · exact List.forall_mem_singleton.2 (Nat.le_of_not_lt hlt)

theorem printed_dumpsString (l : List Char) : Printed (dumpsString l) := by
  induction l with
  | nil => exact List.forall_mem_singleton.2 (by decide)
  | cons c l ih => exact printed_append.2 ⟨printed_escape c, ih⟩

variable {F : Type} [FloatText F] [LawfulFloatText F]

theorem printed_repr (x : F) : Printed (FloatText.repr x) := by
  rcases LawfulFloatText.shape x with ⟨t, ht, -, h⟩ | h | h | h <;> rw [h]
  · exact ht.printed
  all_goals simp only [printed_cons, printed_nil, and_true]; decide

mutual
theorem printed_dumpsSpaced (v : Json F) : Printed (dumpsSpaced v) := by
  match v with
  | .null => simp only [dumpsSpaced, printed_cons, printed_nil, and_true]; decide
  | .bool true => simp only [dumpsSpaced, printed_cons, printed_nil, and_true]; decide
  | .bool false => simp only [dumpsSpaced, printed_cons, printed_nil, and_true]; decide
  | .int n =>
    rw [dumpsSpaced, ← text_intText]
    exact (shape_intText n).printed
  | .float x => exact printed_repr x
  | .str s => exact printed_cons.2 ⟨by decide, printed_dumpsString _⟩
  | .arr [] => simp only [dumpsSpaced, printed_cons, printed_nil, and_true]; decide
  | .arr (x :: xs) =>
    exact printed_cons.2 ⟨by decide,
      printed_append.2 ⟨printed_dumpsSpaced x, printed_dumpsItems xs⟩⟩
  | .obj [] => simp only [dumpsSpaced, printed_cons, printed_nil, and_true]; decide
  | .obj ((k, v) :: kvs) =>
    simp only [dumpsSpaced, printed_cons, printed_append]
    exact ⟨by decide, by decide, printed_dumpsString _, by decide, by decide,
      printed_dumpsSpaced v, printed_dumpsFields kvs⟩

theorem printed_dumpsItems (xs : List (Json F)) : Printed (dumpsItems xs) := by
  match xs with
  | [] => exact List.forall_mem_singleton.2 (by decide)
  | x :: xs =>
    simp only [dumpsItems, printed_cons, printed_append]
    exact ⟨by decide, by decide, printed_dumpsSpaced x, printed_dumpsItems xs⟩

theorem printed_dumpsFields (kvs : List (String × Json F)) : Printed (dumpsFields kvs) := by
  match kvs with
  | [] => exact List.forall_mem_singleton.2 (by decide)
  | (k, v) :: kvs =>
    simp only [dumpsFields, printed_cons, printed_append]
    exact ⟨by decide, by decide, by decide, printed_dumpsString _, by decide, by decide,
      printed_dumpsSpaced v, printed_dumpsFields kvs⟩
end

/-! ## Reading back -/

theorem dumpsSpaced_head (v : Json F) : ∃ c s, dumpsSpaced v = c :: s ∧ Starts c := by
  cases v with
  | arr xs => cases xs <;> exact ⟨_, _, rfl, by decide⟩
  | obj kvs => cases kvs <;> exact ⟨_, _, rfl, by decide⟩
  | null => exact dumps_head (.null : Json F)
  | bool b => cases b <;> exact ⟨_, _, rfl, by decide⟩
  | int n => exact dumps_head (.int n : Json F)
  | float x => exact dumps_head (.float x)
  | str s => exact dumps_head (.str s : Json F)

theorem skipWs_dumpsSpaced (v : Json F) (r : List Char) :
    skipWs (dumpsSpaced v ++ r) = dumpsSpaced v ++ r := by
  obtain ⟨c, s, h, hc⟩ := dumpsSpaced_head v
  rw [h, List.cons_append, hc.skipWs]

theorem skipWs_blank (s : List Char) : skipWs (' ' :: s) = skipWs s :=
  rfl

omit [LawfulFloatText F] in
theorem ends_dumpsItems (xs : List (Json F)) (r : List Char) : Ends (dumpsItems xs ++ r) := by
  cases xs with
  | nil => exact ends_cons (Or.inr (Or.inl rfl))
  | cons x xs => exact ends_cons (Or.inl rfl)

omit [LawfulFloatText F] in
theorem ends_dumpsFields (kvs : List (String × Json F)) (r : List Char) :
    Ends (dumpsFields kvs ++ r) := by
  cases kvs with
  | nil => exact ends_cons (Or.inr (Or.inr rfl))
  | cons kv kvs => exact ends_cons (Or.inl rfl)

variable {v : Json F}

theorem scanPair_spaced {k : String} {n : ℕ} {r : List Char}
    (h : scanValue n (dumpsSpaced v ++ r) = some (v, r)) :
    scanPair (n + 1) ('"' :: (dumpsString (toChars k) ++ ':' :: ' ' :: (dumpsSpaced v ++ r))) =
      some ((k, v), r) := by
  have hc : ∀ s, skipWs (':' :: s) = ':' :: s := fun s => skipWs_cons (by decide)
  simp only [scanPair, scanString_dumpsString, hc, skipWs_blank, skipWs_dumpsSpaced, h,
    Option.map_some, ofChars_toChars]

mutual
/-- The scanner reads a value that was written with blanks, and stops after it. -/
theorem scanValue_spaced (v : Json F) (hv : Wf v) {n : ℕ} (hn : (dumpsSpaced v).length ≤ n)
    {r : List Char} (hr : Ends r) : scanValue n (dumpsSpaced v ++ r) = some (v, r) := by
  cases n with
  | zero =>
    obtain ⟨c, s, h, -⟩ := dumpsSpaced_head v
    simp [h] at hn
  | succ n =>
    match v, hv with
    | .null, hv => exact scanValue_dumps .null hv hn hr
    | .bool true, hv => exact scanValue_dumps (.bool true) hv hn hr
    | .bool false, hv => exact scanValue_dumps (.bool false) hv hn hr
    | .int i, hv =>
      rw [dumpsSpaced] at *
      exact scanValue_dumps (.int i) hv hn hr
    | .float x, hv =>
      rw [dumpsSpaced] at *
      exact scanValue_dumps (.float x) hv hn hr
    | .str s, _ => exact scanValue_str s n r
    | .arr [], _ => rfl
    | .arr (x :: xs), hv =>
      simp only [dumpsSpaced, List.length_cons, List.length_append] at hn
      have hx := scanValue_spaced x hv.1 (n := n) (by omega) (ends_dumpsItems xs r)
      have hxs := scanItems_spaced xs hv.2 (n := n) (by omega) r
      obtain ⟨c, s, h, hc⟩ := dumpsSpaced_head x
      rw [h, List.cons_append] at hx
      rw [dumpsSpaced, h, List.cons_append, List.cons_append, List.cons_append,
        List.append_assoc]
      exact scanValue_arr hc hx hxs
    | .obj [], _ => rfl
    | .obj ((k, v) :: kvs), hv =>
      simp only [dumpsSpaced, List.length_cons, List.length_append] at hn
      obtain ⟨n, rfl⟩ : ∃ m, n = m + 1 := ⟨n - 1, by omega⟩
      have hx := scanValue_spaced v hv.2.1 (n := n) (by omega) (ends_dumpsFields kvs r)
      have hkv := scanPair_spaced (k := k) hx
      have hkvs := scanFields_spaced kvs hv.2.2 (n := n + 1) (by omega) r
      have h := scanValue_obj hkv hkvs hv.1
      simpa [dumpsSpaced] using h

theorem scanItems_spaced (xs : List (Json F)) (hv : WfElems xs) {n : ℕ}
    (hn : (dumpsItems xs).length ≤ n) (r : List Char) :
    scanElems n (dumpsItems xs ++ r) = some (xs, r) := by
  cases n with
  | zero => cases xs <;> simp [dumpsItems] at hn
  | succ n =>
    match xs, hv with
    | [], _ => rfl
    | x :: xs, hv =>
      simp only [dumpsItems, List.length_cons, List.length_append] at hn
      have hx := scanValue_spaced x hv.1 (n := n) (by omega) (ends_dumpsItems xs r)
      have hxs := scanItems_spaced xs hv.2 (n := n) (by omega) r
      have hw : ∀ s, skipWs (',' :: s) = ',' :: s := fun s => skipWs_cons (by decide)
      simp only [dumpsItems, List.cons_append, List.append_assoc, scanElems, hw, skipWs_blank,
        skipWs_dumpsSpaced, hx, hxs, Option.map_some]

theorem scanFields_spaced (kvs : List (String × Json F)) (hv : WfPairs kvs) {n : ℕ}
    (hn : (dumpsFields kvs).length ≤ n) (r : List Char) :
    scanPairs n (dumpsFields kvs ++ r) = some (kvs, r) := by
  cases n with
  | zero => cases kvs <;> simp [dumpsFields] at hn
  | succ n =>
    match kvs, hv with
    | [], _ => rfl
    | (k, v) :: kvs, hv =>
      simp only [dumpsFields, List.length_cons, List.length_append] at hn
      obtain ⟨n, rfl⟩ : ∃ m, n = m + 1 := ⟨n - 1, by omega⟩
      have hx := scanValue_spaced v hv.1 (n := n) (by omega) (ends_dumpsFields kvs r)
      have hkv := scanPair_spaced (k := k) hx
      have hkvs := scanFields_spaced kvs hv.2 (n := n + 1) (by omega) r
      have hw : ∀ s, skipWs (',' :: s) = ',' :: s := fun s => skipWs_cons (by decide)
      have hq : ∀ s, skipWs ('"' :: s) = '"' :: s := fun s => skipWs_cons (by decide)
      simp only [dumpsFields, List.cons_append, List.append_assoc]
      rw [scanPairs, hw]
      simp only [skipWs_blank, hq, hkv, hkvs, Option.map_some]
end

theorem loads_dumpsSpaced (hv : Wf v) : loads (ofChars (dumpsSpaced v)) = some v := by
  have h := scanValue_spaced v hv (n := 2 * (dumpsSpaced v).length + 2) (by omega) ends_nil
  have hs := skipWs_dumpsSpaced v []
  rw [List.append_nil] at h hs
  rw [loads, toChars_ofChars, hs, h]
  rfl

theorem loads_dumpsSorted (hv : Wf v) : loads (ofChars (dumpsSorted v)) = some (sortKeys v) :=
  loads_dumpsSpaced (wf_sortKeys v hv)

end JsonText
