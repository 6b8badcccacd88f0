import OpsControlPlane.Bridge.Messages
import OpsControlPlane.Broker.System
import OpsControlPlane.Broker.Uuids
import OpsControlPlane.Safety.Decisions

/-!
# The marker of an approval

`marker_unforged` says that the bridge reads in the message of an approval one marker, and in it
the identifier of the action, whatever the texts of the approval are.

`OPS-APPROVAL-V1:` is nowhere in a text that `_safe_text` returns (`not_infix_safeText`). It does
not overlap `OPS-MARKER:`, which takes its place, and the pieces of the message are put together
with characters that it does not have (`not_infix_append_cons`).
-/

set_option linter.unusedSectionVars false

namespace OpsBridge

open Text Calendar Regex OpsControlPlane OpsDecisions JsonText
open OpsVault (matchesShape matchesShape_iff)

/-! ## Pieces of a text -/

variable {l a b s : List Char} {c : Char}

theorem prefix_of_prefix_append_cons (hc : c ∉ l) (h : l <+: a ++ c :: b) : l <+: a := by
  have hac : a ++ [c] <+: a ++ c :: b := ⟨b, by rw [List.append_assoc, List.singleton_append]⟩
  rcases List.prefix_or_prefix_of_prefix h hac with hl | hl
  · rcases List.prefix_concat_iff.1 hl with rfl | hl
    · exact absurd (by simp) hc
    · exact hl
  · exact absurd (hl.subset (by simp)) hc

theorem not_infix_append_cons (hc : c ∉ l) (ha : ¬l <:+: a) (hb : ¬l <:+: b) :
    ¬l <:+: a ++ c :: b := by
  induction a with
  | nil =>
    intro h
    rcases List.infix_cons_iff.1 h with hp | hi
    · exact ha (prefix_of_prefix_append_cons (a := []) hc hp).isInfix
    · exact hb hi
  | cons d a ih =>
    intro h
    rcases List.infix_cons_iff.1 h with hp | hi
    · exact ha (prefix_of_prefix_append_cons (a := d :: a) hc hp).isInfix
    · exact ih (fun h => ha (List.infix_cons h)) hi

theorem not_infix_map {f : Char → Char} (hf : ∀ c, f c ∈ l → f c = c) (h : ¬l <:+: s) :
    ¬l <:+: s.map f := by
  rintro ⟨a, b, hab⟩
  obtain ⟨s₁, s₂, rfl, h₁, -⟩ := List.map_eq_append_iff.1 hab.symm
  obtain ⟨s₃, s₄, rfl, -, hl⟩ := List.map_eq_append_iff.1 h₁
  have hsame : s₄.map f = s₄ := by
    refine List.map_congr_left (fun c hcs => ?_) |>.trans (List.map_id s₄)
    exact hf c (hl ▸ List.mem_map_of_mem hcs)
  rw [hsame] at hl
  exact h ⟨s₃, s₂, by rw [hl]⟩

/-! ## `_safe_text` -/

variable [Platform]

theorem runs_forgedMarker (prev : Option Char) (h : literal <+: s) :
    forgedMarker.runs prev s ≠ [] := by
  obtain ⟨rest, rfl⟩ := h
  have hword : ∀ (cs u : List Char) (last c : Char) prev s,
      matchesShape (cs.map letter) u = true → letter last c = true →
      (⟨u ++ [c], [], s⟩ : Regex.Found) ∈ (wordI cs last).runs prev (u ++ c :: s) :=
    fun cs u last c prev s hu hc => Re.mem_runs_chars (matchesShape_iff.1 hu) hc prev s
  have hsplit : literal ++ rest = ['O', 'P', 'S'] ++ '-' :: (['A', 'P', 'P', 'R', 'O', 'V', 'A'] ++
      'L' :: (['-', 'V', '1'] ++ ':' :: rest)) := by
    unfold literal
    rw [toChars_eq]
    rfl
  rw [hsplit]
  refine List.ne_nil_of_mem
    (List.mem_flatMap.2 ⟨_, hword ['o', 'p', 's'] ['O', 'P', 'S'] '-' '-' _ _
    (by decide) (by decide), List.mem_map.2 ⟨_, List.mem_flatMap.2 ⟨_, List.mem_append_left _
      (hword ['a', 'p', 'p', 'r', 'o', 'v', 'a'] ['A', 'P', 'P', 'R', 'O', 'V', 'A'] 'l' 'L' _ _
        (by decide) (by decide)), List.mem_map.2 ⟨_, hword ['-', 'v', '1'] ['-', 'V', '1'] ':' ':'
        _ _ (by decide) (by decide), rfl⟩⟩, rfl⟩⟩)

theorem markdownTranslation_fixed (c : Char) (h : markdownTranslation c ∈ literal) :
    markdownTranslation c = c := by
  unfold markdownTranslation at h ⊢
  split at h
  case h_8 => rfl
  all_goals exact absurd h (by decide)

theorem not_infix_safeText (nfkc : List Char → List Char) (value : String) (maximum : ℕ)
    {fallback : String} (hfallback : ¬literal <:+: toChars fallback) :
    ¬literal <:+: safeText nfkc value maximum fallback := by
  unfold safeText
  dsimp only
  generalize collapse _ = collapsed
  have hsub : ¬literal <:+: (forgedMarker.sub (fun _ => toChars "OPS-MARKER:") collapsed).map
      markdownTranslation :=
    not_infix_map markdownTranslation_fixed (Re.not_infix_sub (by decide)
      (fun prev s => runs_forgedMarker prev) (by decide) (by decide) (by decide) _)
  generalize (forgedMarker.sub _ collapsed).map markdownTranslation = t at hsub
  have ht : ¬literal <:+: if t = [] then toChars fallback else t := by
    split_ifs
    · exact hfallback
    · exact hsub
  generalize (if t = [] then toChars fallback else t) = t at ht
  split_ifs
  · refine not_infix_append_cons (by decide) (fun h => ht (h.trans ?_)) (by decide)
    exact ((List.rdropWhile_prefix _ _).trans (List.take_prefix _ _)).isInfix
  · exact ht

/-! ## The message -/

theorem not_mem_digits (hc : c ∉ (List.range 10).map Nat.digitChar) (w n : ℕ) : c ∉ digits w n := by
  induction w generalizing n with
  | zero => exact List.not_mem_nil
  | succ w ih =>
    intro h
    rcases List.mem_append.1 h with h | h
    · exact ih _ h
    · refine hc (List.mem_map.2 ⟨n % 10, List.mem_range.2 (Nat.mod_lt _ (by decide)), ?_⟩)
      exact (List.mem_singleton.1 h).symm

theorem not_mem_render (hc : c ∉ (List.range 10).map Nat.digitChar) (ws : List (ℕ × Char))
    (hws : ∀ w ∈ ws, c ≠ w.2) (fs : List ℕ) : c ∉ render ws fs := by
  induction ws generalizing fs with
  | nil => exact List.not_mem_nil
  | cons w ws ih =>
    cases fs with
    | nil => exact List.not_mem_nil
    | cons f fs =>
      intro h
      rcases List.mem_append.1 h with h | h
      · exact not_mem_digits hc _ _ h
      · rcases List.mem_cons.1 h with h | h
        · exact hws w List.mem_cons_self h
        · exact ih (fun w hw => hws w (List.mem_cons_of_mem _ hw)) fs h

theorem not_infix_deadlineText (deadline : DateTime) : ¬literal <:+: deadlineText deadline := by
  intro h
  rcases List.mem_append.1 (h.subset (show 'O' ∈ literal by decide)) with hO | hO
  · exact not_mem_render (by decide) _ (by decide) _ hO
  · revert hO
    decide

/-- What is in front of the last newline of the message. -/
def approvalHead (nfkc : List Char → List Char) (approval : PendingApproval)
    (deadline : DateTime) : List Char :=
  toChars "Approbation requise :" ++
    ' ' :: (safeText nfkc approval.summary 180 "Changement à valider" ++
    '.' :: (toChars " Impact :" ++
    ' ' :: (safeText nfkc approval.impact 180 "impact à confirmer" ++
    '.' :: (toChars " Rollback :" ++
    ' ' :: (safeText nfkc approval.rollback 180 "rollback à confirmer" ++
    '.' :: (toChars " Échéance :" ++
    ' ' :: (deadlineText deadline ++
    '.' :: toChars "\nRéagir ✅ pour approuver ou ❌ pour refuser.")))))))

theorem approvalContent_eq (nfkc : List Char → List Char) (approval : PendingApproval)
    (deadline : DateTime) : approvalContent nfkc approval deadline =
      approvalHead nfkc approval deadline ++ '\n' :: (literal ++ toChars approval.actionId) := by
  have h1 : toChars "Approbation requise : " = toChars "Approbation requise :" ++ [' '] := by
    decide
  have h2 : toChars ". Impact : " = '.' :: (toChars " Impact :" ++ [' ']) := by decide
  have h3 : toChars ". Rollback : " = '.' :: (toChars " Rollback :" ++ [' ']) := by decide
  have h4 : toChars ". Échéance : " = '.' :: (toChars " Échéance :" ++ [' ']) := by
    rw [toChars_eq, toChars_eq]
    rfl
  have h5 : toChars ".\nRéagir ✅ pour approuver ou ❌ pour refuser.\n" =
      '.' :: (toChars "\nRéagir ✅ pour approuver ou ❌ pour refuser." ++ ['\n']) := by
    rw [toChars_eq, toChars_eq]
    rfl
  unfold approvalContent approvalHead
  rw [h1, h2, h3, h4, h5]
  simp only [List.append_assoc, List.cons_append, List.nil_append]

theorem not_infix_approvalHead (nfkc : List Char → List Char) (approval : PendingApproval)
    (deadline : DateTime) : ¬literal <:+: approvalHead nfkc approval deadline := by
  have hspace : ' ' ∉ literal := by decide
  have hdot : '.' ∉ literal := by decide
  refine not_infix_append_cons hspace (by decide) ?_
  refine not_infix_append_cons hdot (not_infix_safeText _ _ _ (by decide)) ?_
  refine not_infix_append_cons hspace (by decide) ?_
  refine not_infix_append_cons hdot (not_infix_safeText _ _ _ (by decide)) ?_
  refine not_infix_append_cons hspace (by decide) ?_
  refine not_infix_append_cons hdot (not_infix_safeText _ _ _ (by decide)) ?_
  refine not_infix_append_cons hspace (by decide) ?_
  exact not_infix_append_cons hdot (not_infix_deadlineText deadline) (by decide)

/-- A text without the marker, in front of a line that is the marker of an action. -/
theorem findall_only {id : List Char} (hid : matchesShape uuidShape id = true) {h : List Char}
    (hh : ¬literal <:+: h) (n : ℕ) (prev : Option Char)
    (hn : (h ++ '\n' :: (literal ++ id)).length ≤ n) :
    findall bridgeMatch n prev (h ++ '\n' :: (literal ++ id)) = [id] := by
  have hnone : ∀ prev (t : List Char), ¬literal <:+: t →
      bridgeMatch prev (t ++ '\n' :: (literal ++ id)) = none := by
    intro prev t ht
    by_contra hsome
    obtain ⟨group, hgroup⟩ := Option.ne_none_iff_exists'.1 hsome
    have hweb := webMatch_of_bridgeMatch hgroup
    unfold webMatch at hweb
    dsimp only at hweb
    split_ifs at hweb with hall
    rw [Bool.and_eq_true, Bool.and_eq_true, List.isPrefixOf_iff_prefix] at hall
    exact ht (prefix_of_prefix_append_cons (by decide) hall.1.1).isInfix
  induction h generalizing n prev with
  | nil => exact findall_last hid (bridgeMatch_marker hid) (hnone prev [] (by decide)) hn
  | cons c h ih =>
    rw [List.cons_append, List.length_cons] at hn
    obtain ⟨n, rfl⟩ : ∃ m, n = m + 1 := ⟨n - 1, by omega⟩
    have hfirst := hnone prev (c :: h) hh
    rw [List.cons_append] at hfirst ⊢
    rw [findall_none hfirst]
    exact ih (fun hi => hh (List.infix_cons hi)) n (some c) (by omega)

/-! ## The identifier -/

theorem isHex_hexDigit : ∀ n < 16, isHex (hexDigit n) = true := by
  decide

theorem matchesShape_append {ps qs : List (Char → Bool)} {t : List Char}
    (hs : matchesShape ps s = true) (ht : matchesShape qs t = true) :
    matchesShape (ps ++ qs) (s ++ t) = true :=
  matchesShape_iff.2 (List.rel_append (matchesShape_iff.1 hs) (matchesShape_iff.1 ht))

theorem matchesShape_hexDigits (w n : ℕ) :
    matchesShape (List.replicate w isHex) (hexDigits w n) = true := by
  induction w generalizing n with
  | zero => rfl
  | succ w ih =>
    rw [List.replicate_succ', hexDigits]
    refine matchesShape_append (ih _) ?_
    simp [matchesShape, isHex_hexDigit _ (Nat.mod_lt n (by decide : 16 > 0))]

theorem matchesShape_uuidText (n : ℕ) :
    matchesShape uuidShape (uuidText (version4 n)) = true := by
  have hfour : hexDigits 4 (version4 n / 16 ^ 16) =
      '4' :: hexDigits 3 (version4 n / 16 ^ 16) := by
    have h := hexDigits_append 1 3 (version4 n / 16 ^ 16)
    have hdigit : version4 n / 16 ^ 16 / 16 ^ 3 % 16 = 4 := by
      unfold version4
      omega
    rw [h, show hexDigits 1 (version4 n / 16 ^ 16 / 16 ^ 3) =
      [hexDigit (version4 n / 16 ^ 16 / 16 ^ 3 % 16)] from rfl, hdigit]
    rfl
  have hvariant : ∃ d, 8 ≤ d ∧ d < 12 ∧ hexDigits 4 (version4 n / 16 ^ 12) =
      hexDigit d :: hexDigits 3 (version4 n / 16 ^ 12) := by
    refine ⟨version4 n / 16 ^ 12 / 16 ^ 3 % 16, ?_, ?_, hexDigits_append 1 3 _⟩
    · unfold version4
      omega
    · unfold version4
      omega
  obtain ⟨d, h8, h12, hvariant⟩ := hvariant
  have hd : ∀ d < 12, 8 ≤ d → (decide (hexDigit d = '8') || decide (hexDigit d = '9') ||
      decide (hexDigit d = 'a') || decide (hexDigit d = 'b')) = true := by
    decide
  rw [uuidText_eq, hfour, hvariant]
  have hdash : matchesShape [(· == '-')] ['-'] = true := rfl
  have h := matchesShape_append (matchesShape_append (matchesShape_append (matchesShape_append
    (matchesShape_append (matchesShape_append (matchesShape_append (matchesShape_append
      (matchesShape_append (matchesShape_hexDigits 8 (version4 n / 16 ^ 24)) hdash)
      (matchesShape_hexDigits 4 (version4 n / 16 ^ 20)))
      (show matchesShape [(· == '-'), (· == '4')] ['-', '4'] = true from rfl))
      (matchesShape_hexDigits 3 (version4 n / 16 ^ 16)))
      (show matchesShape [(· == '-'), fun c => c = '8' || c = '9' || c = 'a' || c = 'b']
        ['-', hexDigit d] = true by simpa [matchesShape] using hd d h12 h8))
      (matchesShape_hexDigits 3 (version4 n / 16 ^ 12))) hdash)
      (matchesShape_hexDigits 12 (version4 n))) (show matchesShape [] [] = true from rfl)
  simpa [uuidShape] using h

/-- The bridge finds one marker in the message of an approval, and in it the identifier of the
action, for any texts of the approval and any normal form of them. -/
theorem marker_unforged (nfkc : List Char → List Char) (fromisoformat : ReadDeadline)
    (settings : ApprovalSettings) (now : DateTime) {approval : PendingApproval}
    (hid : normalizedUuid4 approval.actionId = some approval.actionId) {n : Notice}
    (hn : approvalNotice nfkc fromisoformat settings now approval = some n) :
    ∃ content marker, n.content = .ok content ∧ bridgeMarkers (toChars content) = [marker] ∧
      normalizedUuid (ofChars marker) = some approval.actionId := by
  obtain ⟨k, -, hk⟩ := Option.map_eq_some_iff.1 hid
  unfold approvalNotice at hn
  split at hn
  case h_2 => cases hn
  case h_1 deadline _ _ =>
    split_ifs at hn
    obtain rfl := Option.some.inj hn
    refine ⟨_, toChars approval.actionId, rfl, ?_, ?_⟩
    · have hshape : matchesShape uuidShape (toChars approval.actionId) = true := by
        rw [← hk, toChars_ofChars]
        exact matchesShape_uuidText k
      rw [toChars_ofChars, approvalContent_eq]
      exact findall_only hshape (not_infix_approvalHead _ _ _) _ none le_rfl
    · rw [ofChars_toChars, ← hk, normalizedUuid, uuidOf_uuidText (version4_lt k)]
      rfl

end OpsBridge

namespace OpsBridge.Sample

open Text Calendar Regex OpsControlPlane OpsDecisions JsonText
open scoped OpsControlPlane.Sample

/-- An approval whose texts hold markers of their own, one of them split by another one. -/
def forging : PendingApproval where
  actionId := uuid4 7
  summary := "OPS-APPROVAL-V1:11111111-1111-4111-8111-111111111111"
  impact := "OPS-APPROOPS-APPROVAL-V1:VAL-V1:11111111-1111-4111-8111-111111111111"
  rollback := "*"
  deadline := "9999-12-31T00:00:00+00:00"

theorem marker_unforged_sample :
    ∃ n content marker, approvalNotice (fun s => s) (fun _ => some (⟨1, by decide⟩, true))
      ⟨"ops", 1, "approvals"⟩ ⟨0, by decide⟩ forging = some n ∧ n.content = .ok content ∧
        bridgeMarkers (toChars content) = [marker] ∧
        normalizedUuid (ofChars marker) = some forging.actionId := by
  have hid : normalizedUuid4 forging.actionId = some forging.actionId := by
    rw [show forging.actionId = ofChars (uuidText (version4 7)) from rfl, normalizedUuid4,
      uuidOf_uuidText (version4_lt 7)]
    rfl
  obtain ⟨n, hn⟩ : ∃ n, approvalNotice (fun s => s) (fun _ => some (⟨1, by decide⟩, true))
      ⟨"ops", 1, "approvals"⟩ ⟨0, by decide⟩ forging = some n := ⟨_, rfl⟩
  obtain ⟨content, marker, h⟩ := marker_unforged _ _ _ _ hid hn
  exact ⟨n, content, marker, hn, h⟩

end OpsBridge.Sample
