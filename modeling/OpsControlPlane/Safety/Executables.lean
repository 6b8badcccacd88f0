import OpsControlPlane.Broker.Uuids
import OpsControlPlane.Safety.Arguments
import OpsControlPlane.Safety.Audit

/-!
# Stored actions

A request of an action stores its validated parameters without secrets, and the execution validates
and renders what is stored. `intact_iff` says when it still makes of them what the request made of
the parameters: when redaction leaves the parameters of the command as they are, and makes of the
others values that their specifications accept.

`validate_scrubbed` says this of one parameter, and `validateAll_scrubbed` of all.
-/

namespace OpsControlPlane

open Text JsonText Regex Calendar Calls

variable [Platform]

/-! ## Redaction -/

variable {s : List Char}

theorem redactChars_cases : redactChars s =
    assignment.sub (fun m => m.group 1 ++ m.group 2 ++ toChars "[REDACTED]")
      (jwt.sub (fun _ => toChars "[JWT_REDACTED]")
        (bearer.sub (fun _ => toChars "Bearer [REDACTED]")
        (pem.sub (fun _ => toChars "[PRIVATE_KEY_REDACTED]") s))) :=
  rfl

theorem redactChars_ne_nil (h : s ≠ []) : redactChars s ≠ [] := by
  rw [redactChars_cases]
  refine Re.sub_ne_nil (fun _ _ _ _ => ?_) (Re.sub_ne_nil (fun _ _ _ _ => by decide)
    (Re.sub_ne_nil (fun _ _ _ _ => by decide) (Re.sub_ne_nil (fun _ _ _ _ => by decide) h)))
  exact List.append_ne_nil_of_right_ne_nil _ (by decide)

/-- The characters of a redacted text are those of the text, or of the marks. -/
theorem redactChars_all {S : Char → Prop} (hs : ∀ c ∈ s, S c)
    (hmarks : ∀ c ∈ toChars "[PRIVATE_KEY_REDACTED]Bearer [REDACTED][JWT_REDACTED]", S c) :
    ∀ c ∈ redactChars s, S c := by
  have hmark : ∀ t : List Char,
      t.all (fun c => (toChars "[PRIVATE_KEY_REDACTED]Bearer [REDACTED][JWT_REDACTED]").elem c) =
        true → ∀ c ∈ t, S c :=
    fun t ht c hc => hmarks c (List.elem_iff.1 (List.all_eq_true.1 ht c hc))
  rw [redactChars_cases]
  refine Re.sub_all (fun _ _ hu _ hrun c hc => ?_)
    (Re.sub_all (fun _ _ _ _ _ => hmark (toChars "[JWT_REDACTED]") (by decide +kernel))
      (Re.sub_all (fun _ _ _ _ _ => hmark (toChars "Bearer [REDACTED]") (by decide +kernel))
        (Re.sub_all (fun _ _ _ _ _ => hmark (toChars "[PRIVATE_KEY_REDACTED]")
          (by decide +kernel)) hs)))
  rcases List.mem_append.1 hc with hc | hc
  · rcases List.mem_append.1 hc with hc | hc
    · exact hu c (Re.mem_of_mem_group hrun hc)
    · exact hu c (Re.mem_of_mem_group hrun hc)
  · exact hmark (toChars "[REDACTED]") (by decide +kernel) c hc

theorem redactText_uuidText (n : ℕ) : redactText (ofChars (uuidText n)) = ofChars (uuidText n) := by
  have hno : ∀ q : Char → Bool, q '-' = false → (∀ d < 16, q (hexDigit d) = false) →
      ∀ c ∈ uuidText n, ¬q c = true := by
    intro q hdash hdigit c hc
    rcases mem_uuidText hc with rfl | ⟨d, hd, rfl⟩
    · rw [hdash]
      decide
    · rw [hdigit d hd]
      decide
  have hsub : ∀ (r : Re) (q : Char → Bool) f, r.Needs q → (∀ c ∈ uuidText n, ¬q c = true) →
      r.sub f (uuidText n) = uuidText n := by
    refine fun r q f hr hq => Re.sub_of_no_match fun prev u hu => ?_
    rw [List.eq_nil_iff_forall_not_mem]
    intro m hm
    obtain ⟨c, hc, hp⟩ := Re.exists_of_needs hr hm
    exact hq c (hu.subset hc) hp
  rw [redactText, toChars_ofChars, redactChars_cases,
    hsub pem (· = 'P') _ (by simp [pem, pemLine, literally, chars, Re.seqs, Re.Needs])
      (hno _ (by decide) (by decide)),
    hsub bearer (letter 'r') _ (by simp [bearer, wordI, chars, Re.seqs, Re.Needs])
      (hno _ (by decide) (by decide)),
    hsub jwt (· = 'y') _ (by simp [jwt, chars, Re.seqs, Re.Needs])
      (hno _ (by decide) (by decide)),
    hsub assignment (fun c => c = ':' || c = '=') _ (by simp [assignment, Re.seqs, Re.Needs])
      (hno _ (by decide) (by decide))]

/-! ## A parameter -/

def ParameterSpec.Survives : ParameterSpec → String → Prop
  | .enum values, s => redactText s ∈ values
  | .string maxLength, s => (redactText s).length ≤ maxLength ∧ (redactText s).length ≤ 4096
  | _, _ => True

theorem isSafeValue_redactText {s : String} (hs : isSafeValue s = true) :
    isSafeValue (redactText s) = true ↔ (redactText s).length ≤ 4096 := by
  unfold isSafeValue at hs ⊢
  simp only [Bool.and_eq_true, decide_eq_true_eq, List.all_eq_true, ne_eq] at hs ⊢
  obtain ⟨⟨hpos, -⟩, hall⟩ := hs
  refine ⟨fun h => h.1.2, fun hlen => ⟨⟨?_, hlen⟩, ?_⟩⟩
  · have hne : redactChars (toChars s) ≠ [] := redactChars_ne_nil (by
      rw [toChars_eq]
      intro hnil
      rw [← String.length_toList, hnil] at hpos
      exact absurd hpos (by decide))
    rw [redactText, length_ofChars]
    exact List.length_pos_iff.2 hne
  · rw [redactText, toChars_ofChars]
    have hmarks : (toChars "[PRIVATE_KEY_REDACTED]Bearer [REDACTED][JWT_REDACTED]").all
        (fun c => c ≠ '\x00' && c ≠ '\r' && c ≠ '\n') = true := by
      decide +kernel
    refine redactChars_all hall fun c hc => ?_
    simpa only [Bool.and_eq_true, decide_eq_true_eq] using List.all_eq_true.1 hmarks c hc

variable {spec : ParameterSpec}

/-- A validated value that survives redaction is accepted again, as it is stored. -/
theorem validate_scrubbed {name : String} {value v : Value} (h : spec.validate name value = .ok v)
    (hs : ∀ s, v = .str s → spec.Survives s) :
    spec.validate name (scrubPayload v) = .ok (scrubPayload v) := by
  cases spec with
  | enum values =>
    cases value with
    | str s =>
      rw [ParameterSpec.validate] at h
      split_ifs at h
      obtain rfl := Except.ok.inj h
      have hmem : redactText s ∈ values := hs s rfl
      rw [scrubPayload, ParameterSpec.validate, if_pos hmem]
    | _ => cases h
  | uuid =>
    cases value with
    | str s =>
      rw [ParameterSpec.validate] at h
      cases hu : normalizedUuid s with
      | none =>
        rw [hu] at h
        cases h
      | some u =>
        rw [hu] at h
        obtain rfl := Except.ok.inj h
        obtain ⟨n, hn, rfl⟩ := Option.map_eq_some_iff.1 hu
        rw [scrubPayload, redactText_uuidText, ParameterSpec.validate, normalizedUuid,
          uuidOf_uuidText (uuidOf_lt hn), Option.map_some]
    | _ => cases h
  | string maxLength =>
    cases value with
    | str s =>
      rw [ParameterSpec.validate] at h
      split_ifs at h with hsafe hlen
      obtain rfl := Except.ok.inj h
      obtain ⟨hmax, hbound⟩ := hs s rfl
      rw [scrubPayload, ParameterSpec.validate, if_neg (not_not_intro
        ((isSafeValue_redactText hsafe).2 hbound)), if_neg (not_lt.2 hmax)]
    | _ => cases h
  | integer minimum maximum =>
    cases value with
    | int n =>
      rw [ParameterSpec.validate] at h
      split_ifs at h with hmin hmax
      obtain rfl := Except.ok.inj h
      rw [scrubPayload, ParameterSpec.validate, if_neg hmin, if_neg hmax]
    | _ => cases h
  | boolean =>
    cases value with
    | bool c =>
      obtain rfl := Except.ok.inj h
      rfl
    | _ => cases h

theorem survives_of_validate {name : String} {value v w : Value}
    (h : spec.validate name value = .ok v) (hw : spec.validate name (scrubPayload v) = .ok w)
    (s : String) (hv : v = .str s) : spec.Survives s := by
  subst hv
  rw [scrubPayload] at hw
  cases spec with
  | enum values =>
    rw [ParameterSpec.validate] at hw
    split_ifs at hw with hmem
    exact hmem
  | string maxLength =>
    rw [ParameterSpec.validate] at hw
    split_ifs at hw with hsafe hlen
    have hbound := hsafe
    unfold isSafeValue at hbound
    simp only [Bool.and_eq_true, decide_eq_true_eq] at hbound
    exact ⟨not_lt.1 hlen, hbound.1.2⟩
  | _ => trivial

/-- What a specification accepts is no list and no object. -/
theorem validate_scalar {name : String} {value v : Value} (h : spec.validate name value = .ok v) :
    (∃ s, v = .str s) ∨ (∃ n, v = .int n) ∨ ∃ c, v = .bool c := by
  cases spec with
  | enum values =>
    cases value with
    | str s =>
      rw [ParameterSpec.validate] at h
      split_ifs at h
      exact .inl ⟨s, (Except.ok.inj h).symm⟩
    | _ => cases h
  | uuid =>
    cases value with
    | str s =>
      rw [ParameterSpec.validate] at h
      split at h
      · exact .inl ⟨_, (Except.ok.inj h).symm⟩
      · cases h
    | _ => cases h
  | string maxLength =>
    cases value with
    | str s =>
      rw [ParameterSpec.validate] at h
      split_ifs at h
      exact .inl ⟨s, (Except.ok.inj h).symm⟩
    | _ => cases h
  | integer minimum maximum =>
    cases value with
    | int n =>
      rw [ParameterSpec.validate] at h
      split_ifs at h
      exact .inr (.inl ⟨n, (Except.ok.inj h).symm⟩)
    | _ => cases h
  | boolean =>
    cases value with
    | bool c => exact .inr (.inr ⟨c, (Except.ok.inj h).symm⟩)
    | _ => cases h

/-! ## All parameters -/

section parameters

variable {supplied validated stored : List (String × Value)}
  {specs : List (String × ParameterSpec)} {name : String}

theorem validateAll_cons {spec : ParameterSpec}
    (h : validateAll supplied ((name, spec) :: specs) = .ok validated) :
    ∃ value v values, supplied.lookup name = some value ∧ spec.validate name value = .ok v ∧
      validateAll supplied specs = .ok values ∧ validated = (name, v) :: values := by
  rw [validateAll] at h
  split at h
  · cases h
  · next value hvalue =>
    split at h
    · cases h
    · next v hv =>
      split at h
      · cases h
      · next values hvalues =>
        exact ⟨value, v, values, hvalue, hv, hvalues, (Except.ok.inj h).symm⟩

theorem keys_validateAll (h : validateAll supplied specs = .ok validated) :
    keys validated = keys specs := by
  induction specs generalizing validated with
  | nil =>
    obtain rfl := Except.ok.inj h
    rfl
  | cons p specs ih =>
    obtain ⟨value, v, values, -, -, hvalues, rfl⟩ := validateAll_cons h
    exact congrArg (p.1 :: ·) (ih hvalues)

theorem wfPairs_validateAll (h : validateAll supplied specs = .ok validated) :
    WfPairs validated := by
  induction specs generalizing validated with
  | nil =>
    obtain rfl := Except.ok.inj h
    trivial
  | cons p specs ih =>
    obtain ⟨value, v, values, -, hv, hvalues, rfl⟩ := validateAll_cons h
    refine ⟨?_, ih hvalues⟩
    rcases validate_scalar hv with ⟨s, rfl⟩ | ⟨n, rfl⟩ | ⟨c, rfl⟩ <;> trivial

/-- Each parameter has a value that its specification accepts. -/
theorem lookup_validateAll (h : validateAll supplied specs = .ok validated)
    (hn : (keys specs).Nodup) {spec : ParameterSpec} (hmem : (name, spec) ∈ specs) :
    ∃ value v, supplied.lookup name = some value ∧ validated.lookup name = some v ∧
      spec.validate name value = .ok v := by
  induction specs generalizing validated with
  | nil => cases hmem
  | cons p specs ih =>
    obtain ⟨value, v, values, hvalue, hv, hvalues, rfl⟩ := validateAll_cons h
    obtain ⟨hnot, hn⟩ := List.nodup_cons.1 hn
    rcases List.mem_cons.1 hmem with rfl | hmem
    · exact ⟨value, v, hvalue, List.lookup_cons_self, hv⟩
    · obtain ⟨value', v', hvalue', hv', hok⟩ := ih hvalues hn hmem
      have hne : name ≠ p.1 := fun heq => hnot (heq ▸ List.mem_map_of_mem hmem)
      refine ⟨value', v', hvalue', ?_, hok⟩
      rw [List.lookup_cons, beq_false_of_ne hne]
      exact hv'

variable {f : String → Value}

theorem validateAll_of_accepted
    (h : ∀ name spec, (name, spec) ∈ specs → ∃ value, stored.lookup name = some value ∧
      spec.validate name value = .ok (f name)) :
    validateAll stored specs = .ok (specs.map fun p => (p.1, f p.1)) := by
  induction specs with
  | nil => rfl
  | cons p specs ih =>
    obtain ⟨value, hvalue, hv⟩ := h p.1 p.2 List.mem_cons_self
    rw [validateAll, hvalue]
    dsimp only
    rw [hv]
    dsimp only
    rw [ih fun name spec hmem => h name spec (List.mem_cons_of_mem _ hmem)]
    rfl

theorem lookup_specs (h : name ∈ keys specs) :
    (specs.map fun p => (p.1, f p.1)).lookup name = some (f name) := by
  induction specs with
  | nil => cases h
  | cons p specs ih =>
    rw [List.map_cons, List.lookup_cons]
    by_cases heq : name = p.1
    · rw [heq, beq_self_eq_true]
    · rw [beq_false_of_ne heq]
      exact ih ((List.mem_cons.1 h).resolve_left heq)

theorem lookup_scrubPairs (h : containsSensitiveName name = false) (kvs : List (String × Value)) :
    (scrubPairs kvs).lookup name = (kvs.lookup name).map scrubPayload := by
  induction kvs with
  | nil => rfl
  | cons kv kvs ih =>
    obtain ⟨k, v⟩ := kv
    rw [scrubPairs, List.lookup_cons, List.lookup_cons]
    by_cases heq : name = k
    · subst heq
      rw [beq_self_eq_true, h]
      rfl
    · rw [beq_false_of_ne heq]
      exact ih

end parameters

/-! ## Rendering -/

theorem renderItem_eq {parameters : List (String × Value)} {item name x : String} {v : Value}
    (hname : placeholder item = some name) (hv : parameters.lookup name = some v)
    (h : Runbook.renderItem parameters item = .ok x) : x = parameterText v := by
  rw [Runbook.renderItem, hname] at h
  dsimp only at h
  obtain ⟨value, hvalue, h⟩ := bind_eq_ok.1 h
  rw [Runbook.parameter, hv] at hvalue
  obtain rfl := Except.ok.inj hvalue
  split_ifs at h
  exact (Except.ok.inj h).symm

theorem mapM_congr {α β : Type} {f g : α → Except PyError β} {l : List α}
    (h : ∀ a ∈ l, f a = g a) : l.mapM f = l.mapM g := by
  induction l with
  | nil => rfl
  | cons a l ih =>
    rw [List.mapM_cons, List.mapM_cons, h a List.mem_cons_self,
      ih fun b hb => h b (List.mem_cons_of_mem _ hb)]

/-- Redaction makes of the parameters values that are accepted, and leaves those of the command as
they are. -/
structure Redactable (p : ActionPlan) : Prop where
  accepted : ∀ name spec, (name, spec) ∈ p.runbook.parameters → ∀ s,
    p.validated.lookup name = some (.str s) → spec.Survives s
  rendered : ∀ argv ∈ p.runbook.argvTemplate, ∀ item ∈ argv, ∀ name ∈ placeholder item, ∀ s,
    p.validated.lookup name = some (.str s) → redactText s = s

/-- The stored action is found to be the one of its plan: by the execution, and by the list of the
pending approvals if it needs one. -/
structure Intact (b : Broker) (p : ActionPlan) (r : ActionRow) : Prop where
  runbook : b.registry.get r.runbookId = .ok p.runbook
  argv : checkedArgv p.runbook r = .ok p.argv
  listed : p.runbook.actionClass = .c → ∃ parameters, publishable b r = .ok (p.runbook, parameters)

section plan

variable {b : Broker} {q : RequestAction} {p : ActionPlan}

theorem plan_ok (hp : q.plan b = .ok p) : b.registry.get p.runbook.id = .ok p.runbook ∧
    (∃ supplied, validateAll supplied p.runbook.parameters = .ok p.validated) ∧
    p.runbook.renderArgv p.validated = .ok p.argv := by
  obtain ⟨runbook, hget, h⟩ := bind_eq_ok.1 hp
  obtain ⟨validated, hvalid, h⟩ := bind_eq_ok.1 h
  obtain ⟨_, -, h⟩ := bind_eq_ok.1 h
  obtain ⟨argv, hargv, h⟩ := bind_eq_ok.1 h
  obtain rfl := Except.ok.inj h
  obtain ⟨supplied, -, hall⟩ := validateParameters_ok hvalid
  refine ⟨?_, ⟨supplied, hall⟩, hargv⟩
  change b.registry.get runbook.id = .ok runbook
  rw [(RunbookRegistry.get_ok hget).2]
  exact hget

def ActionPlan.value (p : ActionPlan) (name : String) : Value :=
  (p.validated.lookup name).getD .null

def ActionPlan.stored (p : ActionPlan) : List (String × Value) :=
  sortKeysPairs (scrubPairs p.validated)

/-- The stored parameters, validated once more. -/
def ActionPlan.revalidated (p : ActionPlan) : List (String × Value) :=
  p.runbook.parameters.map fun sp => (sp.1, scrubPayload (p.value sp.1))

theorem value_spec (hp : q.plan b = .ok p) {name : String} {spec : ParameterSpec}
    (hmem : (name, spec) ∈ p.runbook.parameters) :
    p.validated.lookup name = some (p.value name) ∧
      p.stored.lookup name = some (scrubPayload (p.value name)) ∧
      ∃ value, spec.validate name value = .ok (p.value name) := by
  obtain ⟨-, ⟨supplied, hall⟩, -⟩ := plan_ok hp
  obtain ⟨value, v, -, hv, hok⟩ := lookup_validateAll hall p.runbook.parameters_nodup hmem
  have hvalue : p.value name = v := by
    rw [ActionPlan.value, hv, Option.getD_some]
  have hplain := p.runbook.parameters_names name (List.mem_map_of_mem hmem)
  refine ⟨hvalue ▸ hv, ?_, value, hvalue ▸ hok⟩
  rw [ActionPlan.stored, lookup_sortKeysPairs, lookup_scrubPairs hplain, hv, hvalue,
    Option.map_some, Option.map_some]
  rcases validate_scalar hok with ⟨s, rfl⟩ | ⟨n, rfl⟩ | ⟨c, rfl⟩ <;> rfl

/-- The stored parameters are accepted again if and only if all of them survive redaction. -/
theorem validate_stored_iff (hp : q.plan b = .ok p) :
    ((∃ values, p.runbook.validateParameters (.obj p.stored) = .ok values) ↔
      ∀ name spec, (name, spec) ∈ p.runbook.parameters → ∀ s,
        p.validated.lookup name = some (.str s) → spec.Survives s) ∧
    ∀ values, p.runbook.validateParameters (.obj p.stored) = .ok values →
      values = p.revalidated := by
  obtain ⟨-, ⟨supplied, hall⟩, -⟩ := plan_ok hp
  have hkeys : ∀ k, k ∈ keys p.stored ↔ k ∈ keys p.runbook.parameters := by
    intro k
    rw [ActionPlan.stored, (keys_sortKeysPairs _).mem_iff, keys_scrubPairs, keys_validateAll hall]
  have hvalidate : p.runbook.validateParameters (.obj p.stored) =
      validateAll p.stored p.runbook.parameters := by
    have hmissing : (keys p.runbook.parameters).filter (fun k => k ∉ keys p.stored) = [] :=
      List.filter_eq_nil_iff.2 fun k hk => by simpa using (hkeys k).2 hk
    have hunknown : (keys p.stored).filter (fun k => k ∉ keys p.runbook.parameters) = [] :=
      List.filter_eq_nil_iff.2 fun k hk => by simpa using (hkeys k).1 hk
    rw [Runbook.validateParameters, hmissing, hunknown, if_neg (by simp)]
  have hsurvive : (∃ values, validateAll p.stored p.runbook.parameters = .ok values) →
      ∀ name spec, (name, spec) ∈ p.runbook.parameters → ∀ s,
        p.validated.lookup name = some (.str s) → spec.Survives s := by
    rintro ⟨values, hvalues⟩ name spec hmem s hs
    obtain ⟨hlookup, hstored, value, hok⟩ := value_spec hp hmem
    obtain ⟨value', w, hvalue', -, hw⟩ :=
      lookup_validateAll hvalues p.runbook.parameters_nodup hmem
    obtain rfl := Option.some.inj (hstored.symm.trans hvalue')
    exact survives_of_validate hok hw s (Option.some.inj (hlookup.symm.trans hs))
  have haccept : (∀ name spec, (name, spec) ∈ p.runbook.parameters → ∀ s,
      p.validated.lookup name = some (.str s) → spec.Survives s) →
      validateAll p.stored p.runbook.parameters = .ok p.revalidated := by
    intro hall'
    refine validateAll_of_accepted (f := fun name => scrubPayload (p.value name))
      fun name spec hmem => ?_
    obtain ⟨hlookup, hstored, value, hok⟩ := value_spec hp hmem
    exact ⟨_, hstored, validate_scrubbed hok fun s hs =>
      hall' name spec hmem s (hs ▸ hlookup)⟩
  rw [hvalidate]
  refine ⟨⟨hsurvive, fun h => ⟨_, haccept h⟩⟩, fun values hvalues => ?_⟩
  exact Except.ok.inj (hvalues.symm.trans (haccept (hsurvive ⟨values, hvalues⟩)))

/-- The parameters of the command are rendered as they were if and only if redaction leaves them as
they are. -/
theorem render_revalidated_iff (hp : q.plan b = .ok p) :
    p.runbook.renderArgv p.revalidated = .ok p.argv ↔
      ∀ argv ∈ p.runbook.argvTemplate, ∀ item ∈ argv, ∀ name ∈ placeholder item, ∀ s,
        p.validated.lookup name = some (.str s) → redactText s = s := by
  obtain ⟨-, -, hargv⟩ := plan_ok hp
  have hlookup : ∀ argv ∈ p.runbook.argvTemplate, ∀ item ∈ argv, ∀ name ∈ placeholder item,
      p.validated.lookup name = some (p.value name) ∧
        p.revalidated.lookup name = some (scrubPayload (p.value name)) ∧
        ((∃ s, p.value name = .str s) ∨ (∃ n, p.value name = .int n) ∨
          ∃ c, p.value name = .bool c) := by
    intro argv hargv item hitem name hname
    obtain ⟨spec, hspec, -⟩ := p.runbook.argv_placeholders argv hargv item hitem name hname
    have hmem := Assoc.mem_of_lookup hspec
    obtain ⟨hvalue, -, value, hok⟩ := value_spec hp hmem
    exact ⟨hvalue, lookup_specs (f := fun name => scrubPayload (p.value name))
      (List.mem_map_of_mem hmem), validate_scalar hok⟩
  unfold Runbook.renderArgv at hargv ⊢
  cases htemplate : p.runbook.argvTemplate with
  | none =>
    rw [htemplate] at hargv
    exact ⟨fun _ _ h => absurd h (Option.not_mem_none _), fun _ => hargv⟩
  | some template =>
    rw [htemplate] at hargv hlookup
    obtain ⟨rendered, hrendered, hsome⟩ := bind_eq_ok.1 hargv
    have hsome : some rendered = p.argv := Except.ok.inj hsome
    constructor
    · intro h argv hmem item hitem name hname s hs
      obtain rfl := Option.some.inj hmem
      obtain ⟨rendered', hrendered', hsome'⟩ := bind_eq_ok.1 h
      have hsame : rendered' = rendered :=
        Option.some.inj ((Except.ok.inj hsome').trans hsome.symm)
      subst hsame
      obtain ⟨hvalue, hagain, -⟩ := hlookup _ rfl item hitem name hname
      obtain ⟨i, hi, rfl⟩ := List.mem_iff_getElem.1 hitem
      have hfirst := rendered_items hrendered
      have hsecond := rendered_items hrendered'
      have hlen := hfirst.length_eq
      have h₁ := renderItem_eq hname hvalue (hfirst.get hi (hlen ▸ hi))
      have h₂ := renderItem_eq hname hagain (hsecond.get hi (hlen ▸ hi))
      have heq : p.value name = .str s := Option.some.inj (hvalue.symm.trans hs)
      rw [heq] at h₁ h₂
      exact h₂.symm.trans h₁
    · intro h
      have hitems : template.mapM (Runbook.renderItem p.revalidated) =
          template.mapM (Runbook.renderItem p.validated) := by
        refine mapM_congr fun item hitem => ?_
        unfold Runbook.renderItem
        cases hname : placeholder item with
        | none => rfl
        | some name =>
          obtain ⟨hvalue, hagain, hscalar⟩ := hlookup _ rfl item hitem name hname
          have htext : parameterText (scrubPayload (p.value name)) =
              parameterText (p.value name) := by
            rcases hscalar with ⟨s, hs⟩ | ⟨n, hn⟩ | ⟨c, hc⟩
            · rw [hs] at hvalue ⊢
              exact h _ rfl item hitem name hname s hvalue
            · rw [hn]
              rfl
            · rw [hc]
              rfl
          simp only [Runbook.parameter, hvalue, hagain, htext]
      change (template.mapM (Runbook.renderItem p.revalidated) >>= fun rendered =>
        pure (some rendered)) = _
      rw [hitems, hrendered]
      exact congrArg Except.ok hsome

theorem intact_of_terms {r r' : ActionRow} (hr : r'.terms = r.terms) (h : Intact b p r) :
    Intact b p r' := by
  have hpublishable : publishable b r' = publishable b r :=
    (congrArg (publishable b) hr : publishable b r'.terms = publishable b r.terms)
  have hchecked : checkedArgv p.runbook r' = checkedArgv p.runbook r :=
    (congrArg (checkedArgv p.runbook) hr :
      checkedArgv p.runbook r'.terms = checkedArgv p.runbook r.terms)
  have hid : r'.runbookId = r.runbookId := (congrArg ActionRow.runbookId hr :)
  exact ⟨hid ▸ h.runbook, hchecked ▸ h.argv, fun hc => hpublishable ▸ h.listed hc⟩

/-- The row that a request inserts is intact if and only if its parameters survive redaction. -/
theorem intact_row_iff [LawfulFloatText Flt] (hp : q.plan b = .ok p) (requestId reason : String)
    (incidentId : Option String) (id : String) (t : DateTime) (status : ActionStatus)
    (deadline budgetKey : Option String) :
    Intact b p (q.newAction p requestId reason incidentId id t status deadline budgetKey).row ↔
      Redactable p := by
  obtain ⟨hget, ⟨supplied, hall⟩, -⟩ := plan_ok hp
  generalize hr : (q.newAction p requestId reason incidentId id t status deadline budgetKey).row = r
  have hwf : Wf (.obj p.validated : Value) := by
    refine ⟨?_, wfPairs_validateAll hall⟩
    rw [keys_validateAll hall]
    exact p.runbook.parameters_nodup
  have hloads : loadsJson r.parametersJson = .ok (.obj p.stored) := by
    subst hr
    change loadsJson (canonicalJson (scrubPayload (.obj p.validated))) = _
    rw [loadsJson, canonicalJson, loads_canonical (wf_scrubPayload _ hwf)]
    rfl
  have hstored : storedArgv p.runbook r =
      (p.runbook.validateParameters (.obj p.stored) >>= p.runbook.renderArgv) := by
    rw [storedArgv, hloads]
    rfl
  have hchecked : checkedArgv p.runbook r = .ok p.argv ↔ storedArgv p.runbook r = .ok p.argv := by
    unfold checkedArgv
    cases storedArgv p.runbook r with
    | error e => cases e <;> simp
    | ok argv =>
      dsimp only
      constructor
      · intro h
        split_ifs at h
        exact congrArg Except.ok (Except.ok.inj h)
      · intro h
        obtain rfl := Except.ok.inj h
        subst hr
        rw [if_pos ⟨rfl, rfl, rfl, rfl⟩]
  obtain ⟨haccepted, hvalues⟩ := validate_stored_iff hp
  constructor
  · rintro ⟨-, hargv, -⟩
    rw [hchecked, hstored] at hargv
    obtain ⟨values, hvalid, hrender⟩ := bind_eq_ok.1 hargv
    rw [hvalues values hvalid] at hrender
    exact ⟨haccepted.1 ⟨values, hvalid⟩, (render_revalidated_iff hp).1 hrender⟩
  · rintro ⟨hacc, hrendered⟩
    obtain ⟨values, hvalid⟩ := haccepted.2 hacc
    obtain rfl := hvalues values hvalid
    refine ⟨?_, ?_, fun hclass => ⟨p.revalidated, ?_⟩⟩
    · subst hr
      exact hget
    · rw [hchecked, hstored, hvalid]
      exact (render_revalidated_iff hp).2 hrendered
    · have hgetr : b.registry.get r.runbookId = .ok p.runbook := by
        subst hr
        exact hget
      have hsame : ¬(p.runbook.actionClass ≠ .c ∨ p.runbook.version ≠ r.runbookVersion ∨
          p.runbook.project ≠ r.projectId) := by
        subst hr
        rintro (h | h | h)
        · exact h hclass
        · exact h rfl
        · exact h rfl
      change (b.registry.get r.runbookId >>= fun runbook => _) = _
      rw [hgetr]
      change (if _ then _ else _) = _
      rw [if_neg hsame, hloads]
      change (p.runbook.validateParameters (.obj p.stored) >>= fun parameters => _) = _
      rw [hvalid]
      rfl

/-- A stored action, at any time after its request, is intact if and only if its parameters survive
redaction, those of the command unchanged. -/
theorem intact_iff [LawfulFloatText Flt] (hp : q.plan b = .ok p) (requestId reason : String)
    (incidentId : Option String) (id : String) (t : DateTime) (status : ActionStatus)
    (deadline budgetKey : Option String) {r : ActionRow}
    (hr : r.terms =
      (q.newAction p requestId reason incidentId id t status deadline budgetKey).row.terms) :
    Intact b p r ↔ Redactable p := by
  rw [← intact_row_iff hp requestId reason incidentId id t status deadline budgetKey]
  exact ⟨intact_of_terms hr.symm, intact_of_terms hr⟩

end plan

end OpsControlPlane

namespace OpsControlPlane.Sample

theorem noBudget_iff : (none : Option BudgetSpec).isSome ↔ ActionClass.a = .b := by
  decide

theorem noBudget_bounds : ∀ b ∈ (none : Option BudgetSpec),
    (1 ≤ b.maxAttempts ∧ b.maxAttempts ≤ 10) ∧ 1 ≤ b.windowSeconds ∧ b.windowSeconds ≤ 86400 := by
  simp

/-- A runbook with a text of at most ten characters, which its command does not name. -/
def annotate : Runbook where
  id := "annotate"
  version := 1
  project := "notes"
  actionClass := .a
  description := "a note"
  timeoutSeconds := 60
  argvTemplate := some ["/usr/bin/annotate"]
  parameters := [("note", .string 10)]
  budget := none
  outputMaxBytes := 100
  id_shape := by decide
  project_shape := by decide
  description_bounds := by decide
  parameters_nodup := by decide
  parameters_names := by decide +kernel
  parameters_safe := by simp [ParameterSpec.Safe]
  argv_or_c := .inl rfl
  argv_absolute _ hargv := ⟨_, _, (Option.some.inj hargv).symm, by decide⟩
  argv_placeholders := by decide +kernel
  budget_iff := noBudget_iff
  budget_fields := by simp
  budget_bounds := noBudget_bounds

def annotating : Broker where
  registry := ⟨[annotate], by decide⟩
  rbac :=
    { actors := [("alice", ["ops"])]
      roles := [("ops", ⟨["notes"], ["annotate"], [.a], []⟩)]
      roles_known := by decide }
  policy := broker.policy
  budgets := by
    intro r hr b hb
    obtain rfl := List.mem_singleton.1 hr
    cases hb

def noteRequest (note : String) : RequestAction :=
  ⟨"alice", uuid 1, "annotate", .obj [("note", .str note)], "sample", none, none⟩

def noteRow (p : ActionPlan) (note : String) : ActionRow :=
  ((noteRequest note).newAction p (uuid 1) "sample" none (uuid 2) (instant 0) .authorized none
    none).row

/-- The redacted note is longer than the runbook lets it be. -/
theorem token_not_intact : ∃ p, (noteRequest "token:abc").plan annotating = .ok p ∧
    ¬Intact annotating p (noteRow p "token:abc") := by
  have hplan : ∃ p ∈ ((noteRequest "token:abc").plan annotating).toOption,
      (checkedArgv p.runbook (noteRow p "token:abc")).toOption.isNone = true := by
    decide +kernel
  obtain ⟨p, hp, hnone⟩ := hplan
  refine ⟨p, toOption_eq_some hp, fun h => ?_⟩
  rw [h.argv] at hnone
  exact Bool.false_ne_true hnone

theorem intact_iff_sample : ∃ p, (noteRequest "hello").plan annotating = .ok p ∧
    (Intact annotating p (noteRow p "hello") ↔ Redactable p) := by
  have hplan : ((noteRequest "hello").plan annotating).toOption.isSome = true := by
    decide +kernel
  obtain ⟨p, hp⟩ := Option.isSome_iff_exists.1 hplan
  exact ⟨p, toOption_eq_some hp, intact_iff (toOption_eq_some hp) _ _ _ _ _ _ _ _ rfl⟩

end OpsControlPlane.Sample
