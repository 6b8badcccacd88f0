import OpsControlPlane.Bridge.Decisions

/-!
# The web surface and the bridge

The web surface looks at the code of a reaction, the bridge at its kind, its name and its code.
`decisions_agree` says that they agree in every run in which the approvers add ✅ and ❌ under the
names that the bridge knows, and `alias_not_submitted` that they do not agree otherwise.
-/

namespace OpsDecisions

open Text

variable {z : Setup}

/-! ## Markers -/

variable {s group id : List Char}

theorem length_of_webMatch (h : webMatch s = some group) :
    group.length = 36 ∧ s.take (literal.length + 36) = literal ++ group ∧
      ∀ c ∈ group, isHex c = true ∨ c = '-' := by
  unfold webMatch at h
  dsimp only at h
  split_ifs at h with hcond
  obtain rfl := Option.some.inj h
  simp only [Bool.and_eq_true, decide_eq_true_eq, List.all_eq_true, Bool.or_eq_true] at hcond
  obtain ⟨⟨hhead, hlen⟩, hall⟩ := hcond
  refine ⟨hlen, ?_, hall⟩
  obtain ⟨rest, rfl⟩ := List.isPrefixOf_iff_prefix.1 hhead
  rw [List.take_length_add_append, List.drop_left]

theorem newline_not_mem (h : webMatch s = some group) : '\n' ∉ s.take (literal.length + 36) := by
  obtain ⟨-, htake, hall⟩ := length_of_webMatch h
  rw [htake, List.mem_append]
  rintro (hmem | hmem)
  · have hnot : '\n' ∉ literal := by
      unfold literal
      rw [toChars_eq]
      decide
    exact hnot hmem
  · rcases hall _ hmem with hhex | heq
    · exact absurd hhex (by decide)
    · exact absurd heq (by decide)

theorem le_of_webMatch {h t : List Char} (hm : webMatch (h ++ '\n' :: t) = some group) :
    literal.length + 36 ≤ h.length := by
  by_contra hlt
  refine newline_not_mem hm ?_
  rw [List.take_append, List.mem_append]
  obtain ⟨k, hk⟩ : ∃ k, literal.length + 36 - h.length = k + 1 :=
    ⟨literal.length + 36 - h.length - 1, by omega⟩
  rw [hk]
  exact .inr List.mem_cons_self

theorem of_uuidShape (h : OpsVault.matchesShape uuidShape id = true) :
    id.length = 36 ∧ ∀ c ∈ id, isHex c = true ∨ c = '-' := by
  have hforall := OpsVault.matchesShape_iff.1 h
  refine ⟨OpsVault.length_of_matchesShape h, fun c hc => ?_⟩
  have hall : ∀ p ∈ uuidShape, p c = true → isHex c = true ∨ c = '-' := by
    intro p hp hpc
    simp only [uuidShape, List.mem_append, List.mem_replicate, List.mem_cons, List.not_mem_nil,
      or_false, ne_eq] at hp
    have hdash : (c == '-') = true → isHex c = true ∨ c = '-' := fun h => .inr (beq_iff_eq.1 h)
    have hvariant : (decide (c = '8') || decide (c = '9') || decide (c = 'a') ||
        decide (c = 'b')) = true → isHex c = true ∨ c = '-' := by
      simp only [Bool.or_eq_true, decide_eq_true_eq]
      rintro (((rfl | rfl) | rfl) | rfl) <;> exact .inl (by decide)
    have hfour : (c == '4') = true → isHex c = true ∨ c = '-' := by
      intro h
      rw [beq_iff_eq.1 h]
      exact .inl (by decide)
    rcases hp with (((((((⟨-, rfl⟩ | rfl) | ⟨-, rfl⟩) | rfl | rfl) | ⟨-, rfl⟩) | rfl | rfl) |
      ⟨-, rfl⟩) | rfl) | ⟨-, rfl⟩
    · exact .inl hpc
    · exact hdash hpc
    · exact .inl hpc
    · exact hdash hpc
    · exact hfour hpc
    · exact .inl hpc
    · exact hdash hpc
    · exact hvariant hpc
    · exact .inl hpc
    · exact hdash hpc
    · exact .inl hpc
  obtain ⟨i, hi, rfl⟩ := List.mem_iff_getElem.1 hc
  have hlen := hforall.length_eq
  exact hall _ (List.getElem_mem (hlen ▸ hi)) (hforall.get (hlen ▸ hi) hi)

theorem webMatch_marker (h : OpsVault.matchesShape uuidShape id = true) :
    webMatch (literal ++ id) = some id := by
  obtain ⟨hlen, hall⟩ := of_uuidShape h
  unfold webMatch
  dsimp only
  rw [List.drop_left, List.take_of_length_le hlen.le, if_pos]
  simp only [Bool.and_eq_true, decide_eq_true_eq, List.all_eq_true, Bool.or_eq_true]
  exact ⟨⟨List.isPrefixOf_iff_prefix.2 (List.prefix_append _ _), hlen⟩, hall⟩

theorem bridgeMatch_marker (h : OpsVault.matchesShape uuidShape id = true) :
    bridgeMatch (some '\n') (literal ++ id) = some id := by
  have hdrop : (literal ++ id).drop (literal.length + 36) = [] := by
    rw [List.drop_eq_nil_iff, List.length_append, (of_uuidShape h).1]
  unfold bridgeMatch
  rw [webMatch_marker h, Option.filter_some, if_pos]
  rw [h, hdrop]
  decide

variable {f : Option Char → List Char → Option (List Char)} {n u : ℕ} {prev : Option Char}

theorem findall_none {c : Char} (h : f prev (c :: s) = none) :
    findall f (n + 1) prev (c :: s) = findall f n (some c) s := by
  rw [findall, h]

theorem findall_some {c : Char} (h : f prev (c :: s) = some group) :
    findall f (n + 1) prev (c :: s) =
      group :: findall f n group.getLast? ((c :: s).drop (literal.length + 36)) := by
  rw [findall, h]

theorem findall_last (hid : OpsVault.matchesShape uuidShape id = true)
    (hlast : f (some '\n') (literal ++ id) = some id)
    (hnone : f prev ('\n' :: (literal ++ id)) = none) (hn : ('\n' :: (literal ++ id)).length ≤ n) :
    findall f n prev ('\n' :: (literal ++ id)) = [id] := by
  rw [List.length_cons, List.length_append, (of_uuidShape hid).1] at hn
  obtain ⟨n, rfl⟩ : ∃ m, n = m + 2 := ⟨n - 2, by omega⟩
  have hliteral : literal = 'O' :: literal.tail := by
    unfold literal
    rw [toChars_eq]
    rfl
  have hcons : literal ++ id = 'O' :: (literal.tail ++ id) := by
    rw [← List.cons_append, ← hliteral]
  rw [findall_none hnone]
  rw [hcons] at hlast ⊢
  rw [findall_some hlast, ← hcons, List.drop_of_length_le]
  · cases n <;> rfl
  · rw [List.length_append, (of_uuidShape hid).1]

/-- What is behind a newline is found, by a pattern that is one of the web surface. -/
theorem findall_ends (hid : OpsVault.matchesShape uuidShape id = true)
    (hweb : ∀ prev s group, f prev s = some group → webMatch s = some group)
    (hlast : f (some '\n') (literal ++ id) = some id) (n : ℕ) (h : List Char) (prev : Option Char)
    (hn : (h ++ '\n' :: (literal ++ id)).length ≤ n) :
    ∃ gs, findall f n prev (h ++ '\n' :: (literal ++ id)) = gs ++ [id] := by
  induction n using Nat.strong_induction_on generalizing h prev with
  | _ n ih =>
    obtain ⟨n, rfl⟩ : ∃ m, n = m + 1 := by
      rw [List.length_append, List.length_cons] at hn
      exact ⟨n - 1, by omega⟩
    cases hm : f prev (h ++ '\n' :: (literal ++ id)) with
    | some group =>
      have hle := le_of_webMatch (hweb _ _ _ hm)
      obtain ⟨c, h', rfl⟩ := List.exists_cons_of_length_pos (by omega : 0 < h.length)
      rw [List.cons_append] at hm ⊢
      rw [findall_some hm, ← List.cons_append, List.drop_append_of_le_length hle]
      obtain ⟨gs, hgs⟩ := ih n n.lt_succ_self ((c :: h').drop (literal.length + 36))
        group.getLast? (by
          rw [List.length_append, List.length_drop]
          rw [List.length_append] at hn
          omega)
      exact ⟨group :: gs, by rw [hgs, List.cons_append]⟩
    | none =>
      cases h with
      | nil => exact ⟨[], findall_last hid hlast hm hn⟩
      | cons c h' =>
        rw [List.cons_append] at hm ⊢
        rw [findall_none hm]
        exact ih n n.lt_succ_self h' (some c) (by
          rw [List.cons_append, List.length_cons] at hn
          omega)

theorem webMatch_of_bridgeMatch (h : bridgeMatch prev s = some group) : webMatch s = some group :=
  (Option.filter_eq_some_iff.1 h).1

/-- The bridge finds only one marker when the web surface finds only one. -/
theorem findall_single (hid : OpsVault.matchesShape uuidShape id = true) (n : ℕ) (h : List Char)
    (prev : Option Char) (hn : (h ++ '\n' :: (literal ++ id)).length ≤ n)
    (hone : (findall (fun _ => webMatch) n prev (h ++ '\n' :: (literal ++ id))).length = 1) :
    (findall bridgeMatch n prev (h ++ '\n' :: (literal ++ id))).length = 1 := by
  induction n generalizing h prev with
  | zero =>
    rw [List.length_append, List.length_cons] at hn
    omega
  | succ n ih =>
    cases hm : webMatch (h ++ '\n' :: (literal ++ id)) with
    | some group =>
      have hle := le_of_webMatch hm
      obtain ⟨c, h', rfl⟩ := List.exists_cons_of_length_pos (by omega : 0 < h.length)
      rw [List.cons_append] at hm hone
      rw [findall_some (f := fun _ => webMatch) hm, ← List.cons_append,
        List.drop_append_of_le_length hle] at hone
      obtain ⟨gs, hgs⟩ := findall_ends (f := fun _ => webMatch) hid (fun _ _ _ h => h)
        (webMatch_marker hid) n ((c :: h').drop (literal.length + 36)) group.getLast? (by
          rw [List.length_append, List.length_drop]
          rw [List.length_append] at hn
          omega)
      rw [hgs, List.length_cons, List.length_append, List.length_singleton] at hone
      omega
    | none =>
      have hbridge : bridgeMatch prev (h ++ '\n' :: (literal ++ id)) = none := by
        unfold bridgeMatch
        rw [hm]
        rfl
      cases h with
      | nil =>
        rw [List.nil_append] at hbridge hn ⊢
        rw [findall_last hid (bridgeMatch_marker hid) hbridge hn]
        rfl
      | cons c h' =>
        rw [List.cons_append] at hm hbridge hone ⊢
        rw [findall_none (f := fun _ => webMatch) hm] at hone
        rw [findall_none hbridge]
        exact ih h' (some c) (by
          rw [List.cons_append, List.length_cons] at hn
          omega) hone

theorem bridgeMarkers_published (p : Published z)
    (h : webMarkers p.message.content = [p.actionId]) :
    bridgeMarkers p.message.content = [p.actionId] := by
  unfold webMarkers at h
  unfold bridgeMarkers
  rw [p.content] at h ⊢
  have hone := findall_single p.shape _ p.head none le_rfl (by rw [h]; rfl)
  obtain ⟨gs, hgs⟩ := findall_ends (f := bridgeMatch) p.shape (fun _ _ _ => webMatch_of_bridgeMatch)
    (bridgeMatch_marker p.shape) _ p.head none le_rfl
  rw [hgs] at hone ⊢
  rw [List.length_append, List.length_singleton] at hone
  rw [List.length_eq_zero_iff.1 (by omega : gs.length = 0), List.nil_append]

theorem marker_of_bridgeMarkers (p : Published z) {marker : List Char}
    (h : bridgeMarkers p.message.content = [marker]) : marker = p.actionId := by
  unfold bridgeMarkers at h
  rw [p.content] at h
  obtain ⟨gs, hgs⟩ := findall_ends (f := bridgeMatch) p.shape (fun _ _ _ => webMatch_of_bridgeMatch)
    (bridgeMatch_marker p.shape) _ p.head none le_rfl
  rw [hgs] at h
  have hlast := congrArg List.getLast? h
  rw [List.getLast?_concat] at hlast
  exact (Option.some.inj hlast).symm

/-! ## What is submitted -/

/-- The accounts of the approvers are ones that the bridge takes for humans. -/
def HumanApprovers (z : Setup) : Prop :=
  ∀ u ∈ z.approvers, (z.account u).any (bridgeHuman u) = true

/-- A reaction of an approver with the code of ✅ or ❌ has the name that the bridge knows. -/
def Reaction.Named (z : Setup) (r : Reaction) : Prop :=
  r.user ∈ z.approvers → r.kind = "unicode_emoji" →
    (r.code = "2705" → r.name = "check") ∧ (r.code = "274c" → r.name = "cross_mark")

/-- The approvers add ✅ and ❌ under the names that the bridge knows. -/
def Move.Named (z : Setup) : Move → Prop
  | .react r => r.Named z
  | _ => True

theorem isTargetMessage_published (p : Published z) :
    isTargetMessage z p.message p.message.id = true := by
  unfold isTargetMessage
  rw [p.kind, p.streamId, p.displayRecipient, p.subject, p.senderId]
  simp

variable {r : Reaction} {d : Verdict}

theorem process_eq (hz : HumanApprovers z) (p : Published z)
    (hmarker : bridgeMarkers p.message.content = [p.actionId]) (hd : reactionDecision r = some d)
    (hu : r.user ∈ z.approvers) : process z p.message r = some ⟨p.actionId, r.user, d⟩ := by
  have haccount := hz r.user hu
  unfold process
  rw [hd, isTargetMessage_published p, hmarker]
  cases h : z.account r.user with
  | none =>
    rw [h] at haccount
    cases haccount
  | some a =>
    rw [h, Option.any_some] at haccount
    simp [hu, haccount]

/-- What the bridge submits is the decision of the reaction, for the action of the message. -/
theorem of_process (p : Published z) {s : Submission} (h : process z p.message r = some s) :
    s.actionId = p.actionId ∧ s.user = r.user ∧ reactionDecision r = some s.decision := by
  unfold process at h
  cases hd : reactionDecision r with
  | none =>
    rw [hd] at h
    cases h
  | some d =>
    rw [hd, isTargetMessage_published p] at h
    dsimp only at h
    by_cases hu : r.user ∈ z.approvers
    · rw [if_neg (not_not.2 hu)] at h
      cases ha : z.account r.user with
      | none =>
        rw [ha] at h
        cases h
      | some a =>
        rw [ha] at h
        dsimp only at h
        by_cases hhuman : bridgeHuman r.user a = false
        · rw [if_pos hhuman] at h
          cases h
        · rw [if_neg hhuman, if_neg (by decide)] at h
          split at h
          · rename_i marker hmarker
            obtain rfl := Option.some.inj h
            exact ⟨marker_of_bridgeMarkers p hmarker, rfl, rfl⟩
          · cases h
    · rw [if_pos hu] at h
      cases h

theorem reactionDecision_own (u : ℕ) (d : Verdict) :
    reactionDecision (ownReaction u (.verdict d)) = some d := by
  cases d <;> rfl

variable {choice : Choice}

theorem choice_of_reactionDecision (h : reactionDecision (ownReaction u choice) = some d) :
    choice = .verdict d := by
  cases choice with
  | verdict d' =>
    rw [reactionDecision_own] at h
    rw [Option.some.inj h]
  | later => exact absurd h (by simp [reactionDecision, ownReaction, emoji])
  | resume => exact absurd h (by simp [reactionDecision, ownReaction, emoji])

theorem reactionDecision_named (hr : r.Named z) (hu : r.user ∈ z.approvers)
    (hkind : r.kind = "unicode_emoji") (hcode : r.code = (emoji (.verdict d)).2) :
    reactionDecision r = some d := by
  obtain ⟨hcheck, hcross⟩ := hr hu hkind
  cases d with
  | approve =>
    unfold reactionDecision
    rw [hkind, hcheck hcode, hcode]
    rfl
  | reject =>
    unfold reactionDecision
    rw [hkind, hcross hcode, hcode]
    rfl

theorem named_own (z : Setup) (u : ℕ) (choice : Choice) : (ownReaction u choice).Named z := by
  intro _ _
  cases choice with
  | verdict d => cases d <;> simp [ownReaction, emoji]
  | later => simp [ownReaction, emoji]
  | resume => simp [ownReaction, emoji]

/-! ## Runs -/

/-- From the start to a world, by steps of a kind. -/
inductive Runs (P : Move → Prop) (p : Published z) : World → Prop
  | start : Runs P p .start
  | step {w w' : World} {m : Move} : Runs P p w → P m → step p w m = some w' → Runs P p w'

structure Agrees (p : Published z) (w : World) : Prop where
  /-- A call that decides and returns without error has an event for which the bridge submits the
  decision of its user. -/
  returned : ∀ e ∈ w.ended, e.result = .done → ∀ d, e.choice = .verdict d →
    ∃ a ∈ w.adds, process z p.message a.reaction = some ⟨p.actionId, e.user, d⟩
  /-- A call is refused as already under way when there is an event for which the bridge submits a
  decision on the action. -/
  refused : ∀ e ∈ w.ended, e.result = .underWay →
    ∃ a ∈ w.adds, ∃ s, process z p.message a.reaction = some s ∧ s.actionId = p.actionId
  /-- The bridge submits what it finds in the events that it has processed. -/
  submitted : w.submissions =
    (w.adds.take w.handled).filterMap fun a => process z p.message a.reaction
  /-- What is submitted was asked by its user, in Zulip or by a call that decides so. -/
  asked : ∀ a ∈ w.adds, ∀ s, process z p.message a.reaction = some s →
    s.user = a.reaction.user ∧ s.actionId = p.actionId ∧
      (a.origin = .direct ∨ a.origin = .web (.verdict s.decision))

/-- What every run keeps. -/
structure Inv (p : Published z) (w : World) : Prop where
  agrees : Agrees p w
  handled : w.handled ≤ w.adds.length
  named : ∀ a ∈ w.adds, a.reaction.Named z
  added : ∀ r ∈ w.reactions, ∃ a ∈ w.adds, a.reaction = r
  approver : ∀ u choice phase, w.call = some (u, choice, phase) → u ∈ z.approvers
  verified : ∀ u choice phase, w.call = some (u, choice, phase) →
    (∀ shown, phase ≠ .looking shown) →
    webMarkers p.message.content = [p.actionId]
  waits : ∀ u d, w.call = some (u, .verdict d, .waiting) →
    ∃ a ∈ w.adds, process z p.message a.reaction = some ⟨p.actionId, u, d⟩
  deletes : ∀ u choice, w.call = some (u, choice, .deleting) → choice = .resume

variable {p : Published z}

theorem inv_start : Inv p .start where
  agrees := ⟨fun _ h => (nomatch h), fun _ h => (nomatch h), rfl, fun _ h => (nomatch h)⟩
  handled := le_rfl
  named _ h := nomatch h
  added _ h := nomatch h
  approver _ _ _ h := nomatch h
  verified _ _ _ h := nomatch h
  waits _ _ h := nomatch h
  deletes _ _ h := nomatch h

theorem asked_of_origin {a : Added}
    (horigin : a.origin = .direct ∨ ∃ choice, a.origin = .web choice ∧
      a.reaction = ownReaction a.reaction.user choice) {s : Submission}
    (h : process z p.message a.reaction = some s) :
    s.user = a.reaction.user ∧ s.actionId = p.actionId ∧
      (a.origin = .direct ∨ a.origin = .web (.verdict s.decision)) := by
  obtain ⟨hid, huser, hd⟩ := of_process p h
  refine ⟨huser, hid, horigin.imp_right ?_⟩
  rintro ⟨choice, horigin, hown⟩
  rw [hown] at hd
  rw [horigin, choice_of_reactionDecision hd]

variable {w w' : World}

theorem Inv.add (h : Inv p w) {origin : Origin} (hr : r.Named z)
    (horigin : origin = .direct ∨ ∃ choice, origin = .web choice ∧ r = ownReaction r.user choice) :
    Inv p (w.add r origin) := by
  have hmem : ∀ a ∈ w.adds, a ∈ (w.add r origin).adds := fun a ha => List.mem_append_left _ ha
  refine ⟨⟨fun e he hdone d hd => ?_, fun e he hrefused => ?_, ?_, fun a ha s hs => ?_⟩,
    ?_, fun a ha => ?_, fun r' hr' => ?_, h.approver, h.verified, fun u d hcall => ?_, h.deletes⟩
  · obtain ⟨a, ha, hprocess⟩ := h.agrees.returned e he hdone d hd
    exact ⟨a, hmem a ha, hprocess⟩
  · obtain ⟨a, ha, hprocess⟩ := h.agrees.refused e he hrefused
    exact ⟨a, hmem a ha, hprocess⟩
  · change w.submissions = ((w.adds ++ [_]).take w.handled).filterMap _
    rw [List.take_append_of_le_length h.handled]
    exact h.agrees.submitted
  · rcases List.mem_append.1 ha with ha | ha
    · exact h.agrees.asked a ha s hs
    · obtain rfl := List.mem_singleton.1 ha
      exact asked_of_origin horigin hs
  · exact h.handled.trans (List.length_append ▸ Nat.le_add_right _ _)
  · rcases List.mem_append.1 ha with ha | ha
    · exact h.named a ha
    · obtain rfl := List.mem_singleton.1 ha
      exact hr
  · rcases List.mem_append.1 hr' with hr' | hr'
    · obtain ⟨a, ha, heq⟩ := h.added r' hr'
      exact ⟨a, hmem a ha, heq⟩
    · obtain rfl := List.mem_singleton.1 hr'
      exact ⟨_, List.mem_append_right _ (List.mem_singleton.2 rfl), rfl⟩
  · obtain ⟨a, ha, hprocess⟩ := h.waits u d hcall
    exact ⟨a, hmem a ha, hprocess⟩

theorem Inv.fewer (h : Inv p w) {reactions : List Reaction}
    (hsub : ∀ r ∈ reactions, r ∈ w.reactions) : Inv p { w with reactions := reactions } :=
  ⟨⟨h.agrees.returned, h.agrees.refused, h.agrees.submitted, h.agrees.asked⟩, h.handled, h.named,
    fun r hr => h.added r (hsub r hr), h.approver, h.verified, h.waits,
    h.deletes⟩

/-- A call ends. -/
theorem Inv.finish (h : Inv p w) {result : Result}
    (hdone : result = .done → ∀ d, choice = .verdict d →
      ∃ a ∈ w.adds, process z p.message a.reaction = some ⟨p.actionId, u, d⟩)
    (hrefused : result = .underWay → ∃ a ∈ w.adds, ∃ s,
      process z p.message a.reaction = some s ∧ s.actionId = p.actionId) :
    Inv p (w.finish u choice result) := by
  refine ⟨⟨fun e he hresult d hd => ?_, fun e he hresult => ?_, h.agrees.submitted,
    h.agrees.asked⟩, h.handled, h.named, h.added, fun _ _ _ hcall => (nomatch hcall),
    fun _ _ _ hcall => (nomatch hcall), fun _ _ hcall => (nomatch hcall),
    fun _ _ hcall => (nomatch hcall)⟩
  · rcases List.mem_append.1 he with he | he
    · exact h.agrees.returned e he hresult d hd
    · obtain rfl := List.mem_singleton.1 he
      exact hdone hresult d hd
  · rcases List.mem_append.1 he with he | he
    · exact h.agrees.refused e he hresult
    · obtain rfl := List.mem_singleton.1 he
      exact hrefused hresult

/-! ## The steps of a call -/

theorem webMarkers_of_verify (h : verifyMessage z p.message p.actionId ≠ false) :
    webMarkers p.message.content = [p.actionId] := by
  have h := Bool.eq_true_of_not_eq_false h
  unfold verifyMessage at h
  exact of_decide_eq_true (Bool.and_eq_true_iff.1 h).2

theorem Inv.submits (hz : HumanApprovers z) (h : Inv p w)
    (hmarkers : webMarkers p.message.content = [p.actionId]) (hr : r ∈ w.reactions)
    (hu : r.user ∈ z.approvers) (hkind : r.kind = "unicode_emoji")
    (hcode : r.code = (emoji (.verdict d)).2) :
    ∃ a ∈ w.adds, process z p.message a.reaction = some ⟨p.actionId, r.user, d⟩ := by
  obtain ⟨a, ha, rfl⟩ := h.added r hr
  exact ⟨a, ha, process_eq hz p (bridgeMarkers_published p hmarkers)
    (reactionDecision_named (h.named a ha) hu hkind hcode) hu⟩

/-- What a call does once it has read the message. -/
theorem decide_cases (p : Published z) (u : ℕ) (choice : Choice) (shown : Option Verdict)
    (reactions : List Reaction) :
    Web.decide z p u choice shown reactions = .inl .failed ∨
      verifyMessage z p.message p.actionId ≠ false ∧
        ((∃ d, choice = .verdict d ∧ conflicts z d reactions = true ∧
            Web.decide z p u choice shown reactions = .inl .underWay) ∨
          (∃ d, choice = .verdict d ∧ owns u (emoji choice).2 reactions = true ∧
            Web.decide z p u choice shown reactions = .inr .waiting) ∨
          Web.decide z p u choice shown reactions = .inr .posting ∨
          (∀ d, choice ≠ .verdict d) ∧ Web.decide z p u choice shown reactions = .inl .done ∨
          choice = .resume ∧ Web.decide z p u choice shown reactions = .inr .deleting) := by
  unfold Web.decide
  by_cases hverify : verifyMessage z p.message p.actionId = false
  · exact .inl (if_pos hverify)
  rw [if_neg hverify]
  by_cases hstate : p.message.subject ≠ z.topic ∨ shown ≠ none
  · exact .inl (if_pos hstate)
  rw [if_neg hstate]
  refine .inr ⟨hverify, ?_⟩
  cases choice with
  | verdict d =>
    dsimp only
    split_ifs with hconflict hown
    · exact .inl ⟨d, rfl, hconflict, rfl⟩
    · exact .inr (.inl ⟨d, rfl, hown, rfl⟩)
    · exact .inr (.inr (.inl rfl))
  | later =>
    dsimp only
    split_ifs
    · exact .inr (.inr (.inr (.inl ⟨fun _ h => (nomatch h), rfl⟩)))
    · exact .inr (.inr (.inl rfl))
  | resume =>
    dsimp only
    split_ifs
    · exact .inr (.inr (.inr (.inr ⟨rfl, rfl⟩)))
    · exact .inr (.inr (.inr (.inl ⟨fun _ h => (nomatch h), rfl⟩)))

theorem Inv.enter (h : Inv p w) {phase : Phase} (hu : u ∈ z.approvers)
    (hverified : (∀ shown, phase ≠ .looking shown) → webMarkers p.message.content = [p.actionId])
    (hwaits : ∀ d, choice = .verdict d → phase = .waiting →
      ∃ a ∈ w.adds, process z p.message a.reaction = some ⟨p.actionId, u, d⟩)
    (hdeletes : phase = .deleting → choice = .resume) :
    Inv p { w with call := some (u, choice, phase) } := by
  refine ⟨⟨h.agrees.returned, h.agrees.refused, h.agrees.submitted, h.agrees.asked⟩, h.handled,
    h.named, h.added, ?_, ?_, ?_, ?_⟩
  · rintro u' choice' phase' heq
    obtain ⟨rfl, -⟩ := Prod.mk.inj (Option.some.inj heq)
    exact hu
  · rintro u' choice' phase' heq
    obtain ⟨rfl, hrest⟩ := Prod.mk.inj (Option.some.inj heq)
    obtain ⟨rfl, rfl⟩ := Prod.mk.inj hrest
    exact hverified
  · rintro u' d heq
    obtain ⟨rfl, hrest⟩ := Prod.mk.inj (Option.some.inj heq)
    obtain ⟨rfl, rfl⟩ := Prod.mk.inj hrest
    exact hwaits d rfl rfl
  · rintro u' choice' heq
    obtain ⟨rfl, hrest⟩ := Prod.mk.inj (Option.some.inj heq)
    obtain ⟨rfl, rfl⟩ := Prod.mk.inj hrest
    exact hdeletes rfl

/-- The call reads the message. -/
theorem Inv.look (hz : HumanApprovers z) (h : Inv p w) {shown : Option Verdict}
    (hcall : w.call = some (u, choice, .looking shown))
    (hw : (match Web.decide z p u choice shown w.reactions with
      | .inl result => some (w.finish u choice result)
      | .inr phase => some { w with call := some (u, choice, phase) }) = some w') : Inv p w' := by
  have hu := h.approver u choice _ hcall
  rcases decide_cases p u choice shown w.reactions with
    heq | ⟨hverify, hcases⟩
  · rw [heq] at hw
    obtain rfl := Option.some.inj hw
    exact h.finish (fun hne => nomatch hne) fun hne => nomatch hne
  have hmarkers := webMarkers_of_verify hverify
  rcases hcases with ⟨d, rfl, hconflict, heq⟩ | ⟨d, rfl, hown, heq⟩ | heq | ⟨hne, heq⟩ | ⟨rfl, heq⟩
  · rw [heq] at hw
    obtain rfl := Option.some.inj hw
    refine h.finish (fun hne => nomatch hne) fun _ => ?_
    obtain ⟨r, hr, hcond⟩ := List.any_eq_true.1 hconflict
    simp only [Bool.and_eq_true, decide_eq_true_eq] at hcond
    obtain ⟨⟨happrover, hkind⟩, hcode⟩ := hcond
    have hopposite : ∃ d', r.code = (emoji (.verdict d')).2 := by
      cases d with
      | approve => exact ⟨.reject, hcode⟩
      | reject => exact ⟨.approve, hcode⟩
    obtain ⟨d', hd'⟩ := hopposite
    obtain ⟨a, ha, hprocess⟩ := h.submits hz hmarkers hr happrover hkind hd'
    exact ⟨a, ha, _, hprocess, rfl⟩
  · rw [heq] at hw
    obtain rfl := Option.some.inj hw
    refine h.enter hu (fun _ => hmarkers) (fun d' hd' _ => ?_) fun hne => nomatch hne
    obtain ⟨r, hr, hcond⟩ := List.any_eq_true.1 hown
    simp only [Bool.and_eq_true, decide_eq_true_eq] at hcond
    obtain ⟨⟨rfl, hcode⟩, hkind⟩ := hcond
    obtain rfl := Choice.verdict.inj hd'
    exact h.submits hz hmarkers hr hu hkind hcode
  · rw [heq] at hw
    obtain rfl := Option.some.inj hw
    exact h.enter hu (fun _ => hmarkers) (fun _ _ hne => nomatch hne) fun hne => nomatch hne
  · rw [heq] at hw
    obtain rfl := Option.some.inj hw
    exact h.finish (fun _ d hd => absurd hd (hne d)) fun hne => nomatch hne
  · rw [heq] at hw
    obtain rfl := Option.some.inj hw
    exact h.enter hu (fun _ => hmarkers) (fun _ hne => nomatch hne) fun _ => rfl

theorem Inv.request (hz : HumanApprovers z) (h : Inv p w)
    (hcall : w.call = some (u, choice, .posting)) (carried confirmed : Bool) :
    Inv p (if carried && confirmed then
        World.requested (if carried then w.add (ownReaction u choice) (.web choice) else w) u choice
      else World.finish (if carried then w.add (ownReaction u choice) (.web choice) else w) u choice
        .failed) := by
  have hu := h.approver u choice _ hcall
  have hmarkers := h.verified u choice _ hcall fun _ hne => nomatch hne
  have hadd : Inv p (w.add (ownReaction u choice) (.web choice)) :=
    h.add (named_own z u choice) (.inr ⟨choice, rfl, rfl⟩)
  have hfailed : ∀ {w' : World}, Inv p w' → Inv p (w'.finish u choice .failed) := fun h' =>
    h'.finish (fun hne => nomatch hne) fun hne => nomatch hne
  cases carried with
  | false => exact hfailed h
  | true =>
    cases confirmed with
    | false => exact hfailed hadd
    | true =>
      change Inv p (World.requested _ u choice)
      cases choice with
      | verdict d =>
        refine hadd.enter hu (fun _ => hmarkers) (fun d' hd' _ => ?_) fun hne => nomatch hne
        obtain rfl := Choice.verdict.inj hd'
        exact ⟨_, List.mem_append_right _ (List.mem_singleton.2 rfl), process_eq hz p
          (bridgeMarkers_published p hmarkers) (reactionDecision_own u d) hu⟩
      | later => exact hadd.finish (fun _ d hd => nomatch hd) fun hne => nomatch hne
      | resume => exact hadd.finish (fun _ d hd => nomatch hd) fun hne => nomatch hne

theorem Inv.bridge (h : Inv p w) {e : Added} (he : w.adds[w.handled]? = some e)
    {submissions : List Submission} {decision : Option Verdict}
    (hsubmissions : submissions = w.submissions ++ (process z p.message e.reaction).toList) :
    Inv p { w with
      handled := w.handled + 1, submissions := submissions, decision := decision } := by
  refine ⟨⟨h.agrees.returned, h.agrees.refused, ?_, h.agrees.asked⟩, ?_, h.named, h.added,
    h.approver, h.verified, h.waits, h.deletes⟩
  · change submissions = (w.adds.take (w.handled + 1)).filterMap _
    rw [List.take_add_one, he, List.filterMap_append, ← h.agrees.submitted, hsubmissions]
    cases hprocess : process z p.message e.reaction <;> simp [hprocess]
  · exact (List.getElem?_eq_some_iff.1 he).1

/-- Each step keeps it, if the approvers use the names that the bridge knows. -/
theorem Inv.step (hz : HumanApprovers z) {m : Move} (h : Inv p w) (hm : m.Named z)
    (hs : step p w m = some w') : Inv p w' := by
  cases m with
  | react r =>
    obtain rfl := Option.some.inj hs
    exact h.add hm (.inl rfl)
  | unreact r =>
    obtain rfl := Option.some.inj hs
    exact h.fewer fun r' hr' => List.mem_of_mem_erase hr'
  | bridge accepted =>
    unfold OpsDecisions.step at hs
    dsimp only at hs
    split at hs
    · cases hs
    · rename_i e he
      split at hs
      · rename_i hprocess
        obtain rfl := Option.some.inj hs
        exact h.bridge he (by rw [hprocess]; exact (List.append_nil _).symm)
      · rename_i s hprocess
        obtain rfl := Option.some.inj hs
        exact h.bridge he (by rw [hprocess]; rfl)
  | snapshot =>
    obtain rfl := Option.some.inj hs
    exact ⟨⟨h.agrees.returned, h.agrees.refused, h.agrees.submitted, h.agrees.asked⟩, h.handled,
      h.named, h.added, h.approver, h.verified, h.waits, h.deletes⟩
  | begin u choice =>
    unfold OpsDecisions.step at hs
    dsimp only at hs
    split at hs
    · cases hs
    · split_ifs at hs with haccount
      · obtain rfl := Option.some.inj hs
        have hu : u ∈ z.approvers := by
          cases ha : z.account u with
          | none =>
            rw [ha] at haccount
            cases haccount
          | some a =>
            rw [ha, Option.any_some] at haccount
            simp only [webHuman, Bool.and_eq_true, decide_eq_true_eq] at haccount
            obtain ⟨⟨⟨huser, happrover⟩, -⟩, -⟩ := haccount
            exact huser ▸ happrover
        exact h.enter hu (fun hne => absurd rfl (hne _)) (fun _ _ hne => nomatch hne)
          fun hne => nomatch hne
      · obtain rfl := Option.some.inj hs
        have hfinish : { w with ended := w.ended ++ [⟨u, choice, .failed⟩] } =
            w.finish u choice .failed := by
          unfold World.finish
          rw [← ‹w.call = none›]
        rw [hfinish]
        exact h.finish (fun hne => nomatch hne) fun hne => nomatch hne
  | look =>
    unfold OpsDecisions.step at hs
    dsimp only at hs
    split at hs
    · rename_i u choice shown hcall
      exact h.look hz hcall hs
    · cases hs
  | request carried confirmed =>
    unfold OpsDecisions.step at hs
    dsimp only at hs
    split at hs
    · rename_i u choice hcall
      obtain rfl := Option.some.inj hs
      exact h.request hz hcall carried confirmed
    · rename_i u choice hcall
      obtain rfl := Option.some.inj hs
      obtain rfl := h.deletes u choice hcall
      have hdrop : Inv p (if carried then w.drop u (emoji .resume).2 else w) := by
        split_ifs
        · exact h.fewer fun r hr => List.mem_of_mem_filter hr
        · exact h
      refine hdrop.finish (fun _ d hd => nomatch hd) fun hne => ?_
      split_ifs at hne
    · cases hs
  | wait ok =>
    unfold OpsDecisions.step at hs
    dsimp only at hs
    split at hs
    · rename_i u choice hcall
      obtain rfl := Option.some.inj hs
      refine h.finish (fun _ d hd => h.waits u d (hd ▸ hcall)) fun hne => ?_
      split_ifs at hne
    · cases hs
  | kill =>
    unfold OpsDecisions.step at hs
    dsimp only at hs
    split at hs
    · obtain rfl := Option.some.inj hs
      exact h.finish (fun hne => nomatch hne) fun hne => nomatch hne
    · cases hs

/-- In every run in which the approvers add ✅ and ❌ under the names that the bridge knows, the
web surface and the bridge agree. -/
theorem decisions_agree (hz : HumanApprovers z) {w : World} (h : Runs (Move.Named z) p w) :
    Agrees p w := by
  have hinv : Inv p w := by
    induction h with
    | start => exact inv_start
    | step _ hm hs ih => exact ih.step hz hm hs
  exact hinv.agrees

/-! ## A reaction under another name -/

def exec (p : Published z) (w : World) : List Move → Option World
  | [] => some w
  | m :: ms => (step p w m).bind fun w' => exec p w' ms

theorem runs_exec {P : Move → Prop} {ms : List Move} (h : Runs P p w) (hP : ∀ m ∈ ms, P m)
    (he : exec p w ms = some w') : Runs P p w' := by
  induction ms generalizing w with
  | nil => exact Option.some.inj he ▸ h
  | cons m ms ih =>
    obtain ⟨u, hu, he⟩ := Option.bind_eq_some_iff.1 he
    exact ih (.step h (hP m List.mem_cons_self) hu)
      (fun m' hm' => hP m' (List.mem_cons_of_mem _ hm')) he

namespace Sample

/-- The configuration of the two sides, with one approver. -/
def setup : Setup where
  approvers := [8]
  streamId := 5
  stream := "ops-approbations"
  topic := "approbations"
  bot := 10
  account u := some ⟨u, some false, some true, none, none⟩

def actionId : List Char :=
  toChars "11111111-1111-4111-8111-111111111111"

def message : Published setup where
  message := ⟨47, "stream", 5, "ops-approbations", "approbations", 10,
    toChars "Approbation requise" ++ '\n' :: (literal ++ actionId)⟩
  actionId := actionId
  head := toChars "Approbation requise"
  kind := rfl
  streamId := rfl
  displayRecipient := rfl
  subject := rfl
  senderId := rfl
  shape := by decide
  content := rfl

theorem humanApprovers_setup : HumanApprovers setup := by
  intro u _
  simp [setup, bridgeHuman]

/-- The approver adds ✅ under another name, and then approves in the web surface. -/
def aliasMoves : List Move :=
  [.react ⟨8, "unicode_emoji", "white_check_mark", "2705"⟩, .bridge true,
    .begin 8 (.verdict .approve), .look, .wait true]

def aliased : World where
  reactions := [⟨8, "unicode_emoji", "white_check_mark", "2705"⟩]
  adds := [⟨⟨8, "unicode_emoji", "white_check_mark", "2705"⟩, .direct⟩]
  handled := 1
  submissions := []
  decision := none
  shown := none
  call := none
  ended := [⟨8, .verdict .approve, .done⟩]

theorem exec_aliasMoves : exec message .start aliasMoves = some aliased := by
  decide

def approveMoves : List Move :=
  [.begin 8 (.verdict .approve), .look, .request true true, .bridge true, .snapshot, .wait true]

def approved : World where
  reactions := [⟨8, "unicode_emoji", "check", "2705"⟩]
  adds := [⟨⟨8, "unicode_emoji", "check", "2705"⟩, .web (.verdict .approve)⟩]
  handled := 1
  submissions := [⟨actionId, 8, .approve⟩]
  decision := some .approve
  shown := some .approve
  call := none
  ended := [⟨8, .verdict .approve, .done⟩]

theorem exec_approveMoves : exec message .start approveMoves = some approved := by
  decide

end Sample

/-- A call returns without error, and no event makes the bridge submit its decision. -/
theorem alias_not_submitted : ¬∀ (z : Setup) (p : Published z) (w : World), HumanApprovers z →
    Runs (fun _ => True) p w → Agrees p w := by
  intro h
  have hagrees := h Sample.setup Sample.message Sample.aliased Sample.humanApprovers_setup
    (runs_exec .start (fun _ _ => trivial) Sample.exec_aliasMoves)
  obtain ⟨a, ha, hprocess⟩ := hagrees.returned ⟨8, .verdict .approve, .done⟩
    (List.mem_singleton.2 rfl) rfl .approve rfl
  obtain rfl := List.mem_singleton.1 ha
  obtain ⟨-, -, hd⟩ := of_process Sample.message hprocess
  cases hd

/-- The two sides agree once the approver has approved in the web surface. -/
theorem decisions_agree_sample : Agrees Sample.message Sample.approved :=
  decisions_agree Sample.humanApprovers_setup
    (runs_exec .start (by simp [Sample.approveMoves, Move.Named]) Sample.exec_approveMoves)

end OpsDecisions
