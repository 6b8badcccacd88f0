import Mathlib
import OpsControlPlane.Broker.Loader
import OpsControlPlane.Broker.System

/-!
# Arguments of runbooks

What the loader checks of a template and what the parameters are checked for exclude an option or a
control character in a substituted argument, and a parameter in the place of the executable
(`arguments_safe`).
-/

set_option linter.unusedSectionVars false

namespace OpsControlPlane

open Text JsonText Regex Calls

/-! ## Characters -/

def Printable (c : Char) : Prop :=
  32 ≤ c.toNat ∧ c.toNat < 127

def IsControl (c : Char) : Prop :=
  c.toNat < 32 ∨ 127 ≤ c.toNat ∧ c.toNat < 160

variable {c : Char}

theorem Printable.not_control (h : Printable c) : ¬IsControl c := by
  unfold Printable at h
  unfold IsControl
  omega

theorem printable_alphanum (h : c.isAlphanum = true) : Printable c := by
  simp only [Char.isAlphanum, Char.isAlpha, Char.isUpper, Char.isLower, Char.isDigit,
    Bool.or_eq_true, Bool.and_eq_true, decide_eq_true_eq, ge_iff_le, UInt32.le_iff_toNat_le] at h
  have hval : c.toNat = c.val.toNat := rfl
  unfold Printable
  rcases h with (h | h) | h <;> obtain ⟨hlo, hhi⟩ := h <;> simp at hlo hhi <;> omega

theorem printable_digit (h : c.isDigit = true) : Printable c :=
  printable_alphanum (by simp [Char.isAlphanum, h])

theorem printable_hexDigits (w n : ℕ) : ∀ c ∈ hexDigits w n, Printable c := by
  induction w generalizing n with
  | zero => exact fun _ h => absurd h List.not_mem_nil
  | succ w ih =>
    intro c h
    rcases List.mem_append.1 h with h | h
    · exact ih _ c h
    · obtain rfl := List.mem_singleton.1 h
      have hlt : n % 16 < 16 := Nat.mod_lt _ (by decide)
      have hall : ∀ d < 16, 32 ≤ (hexDigit d).toNat ∧ (hexDigit d).toNat < 127 := by decide
      exact hall _ hlt

theorem printable_dash : Printable '-' := by
  unfold Printable
  decide

theorem printable_uuidText (n : ℕ) : ∀ c ∈ uuidText n, Printable c := by
  have hhex := printable_hexDigits 32 n
  have htake : ∀ k, ∀ c ∈ (hexDigits 32 n).take k, Printable c :=
    fun k c h => hhex c (List.mem_of_mem_take h)
  have hdrop : ∀ k, ∀ c ∈ (hexDigits 32 n).drop k, Printable c :=
    fun k c h => hhex c (List.mem_of_mem_drop h)
  have hpart : ∀ k l, ∀ c ∈ ((hexDigits 32 n).drop k).take l, Printable c :=
    fun k l c h => hdrop k c (List.mem_of_mem_take h)
  intro c h
  simp only [uuidText, List.append_assoc, List.cons_append, List.mem_append, List.mem_cons] at h
  rcases h with h | rfl | h | rfl | h | rfl | h | rfl | h
  · exact htake _ c h
  · exact printable_dash
  · exact hpart _ _ c h
  · exact printable_dash
  · exact hpart _ _ c h
  · exact printable_dash
  · exact hpart _ _ c h
  · exact printable_dash
  · exact hdrop _ c h

theorem printable_dumpsInt (n : ℤ) : ∀ c ∈ dumpsInt n, Printable c := by
  have hdigits : ∀ c ∈ Nat.toDigits 10 n.natAbs, Printable c := fun c h =>
    printable_digit (Nat.isDigit_of_mem_toDigits (by decide) (by decide) h)
  intro c h
  rw [dumpsInt] at h
  split_ifs at h
  · rcases List.mem_cons.1 h with rfl | h
    · exact printable_dash
    · exact hdigits c h
  · exact hdigits c h

variable [Platform]

theorem printable_enumValue {s : String} (h : isArgvEnumValue s = true) :
    ∀ c ∈ toChars s, Printable c := by
  obtain ⟨c, t, hs, hc, -, ht⟩ := leads_iff.1 h
  rw [hs]
  refine List.forall_mem_cons.2 ⟨printable_alphanum hc, fun d hd => ?_⟩
  have hd := ht d hd
  simp only [Bool.or_eq_true, decide_eq_true_eq] at hd
  rcases hd with (((((((hd | rfl) | rfl) | rfl) | rfl) | rfl) | rfl) | rfl) | rfl
  · exact printable_alphanum hd
  all_goals
    unfold Printable
    decide

/-! ## Parameters -/

variable {name item value : String}

theorem printable_validated {spec : ParameterSpec} {value v : Value} (hsafe : spec.Safe)
    (hfree : spec.isString = false) (h : spec.validate name value = .ok v) :
    ∀ c ∈ toChars (parameterText v), Printable c := by
  cases spec with
  | string maxLength => cases hfree
  | enum values =>
    cases value with
    | str s =>
      rw [ParameterSpec.validate] at h
      split_ifs at h with hs
      obtain rfl := Except.ok.inj h
      exact printable_enumValue (hsafe s hs)
    | _ => cases h
  | uuid =>
    cases value with
    | str s =>
      rw [ParameterSpec.validate] at h
      split at h
      · next u hu =>
        obtain rfl := Except.ok.inj h
        obtain ⟨n, -, rfl⟩ := Option.map_eq_some_iff.1 hu
        rw [parameterText, toChars_ofChars]
        exact printable_uuidText n
      · cases h
    | _ => cases h
  | integer minimum maximum =>
    cases value with
    | int n =>
      rw [ParameterSpec.validate] at h
      split_ifs at h
      obtain rfl := Except.ok.inj h
      rw [parameterText, toChars_ofChars]
      exact printable_dumpsInt n
    | _ => cases h
  | boolean =>
    cases value with
    | bool b =>
      obtain rfl := Except.ok.inj h
      have hfalse : (toChars "False").all (fun c => 32 ≤ c.toNat && c.toNat < 127) = true := by
        decide +kernel
      have htrue : (toChars "True").all (fun c => 32 ≤ c.toNat && c.toNat < 127) = true := by
        decide +kernel
      intro c hc
      have hprintable : (decide (32 ≤ c.toNat) && decide (c.toNat < 127)) = true := by
        cases b
        · exact List.all_eq_true.1 hfalse c hc
        · exact List.all_eq_true.1 htrue c hc
      rw [Bool.and_eq_true, decide_eq_true_eq, decide_eq_true_eq] at hprintable
      exact hprintable
    | _ => cases h

variable {validated parameters : List (String × Value)}

/-- A validated parameter comes from the specification of its name. -/
theorem validateAll_lookup {supplied : List (String × Value)}
    {specs : List (String × ParameterSpec)} (h : validateAll supplied specs = .ok validated)
    {v : Value} (hv : validated.lookup name = some v) :
    ∃ spec value, specs.lookup name = some spec ∧ spec.validate name value = .ok v := by
  induction specs generalizing validated with
  | nil =>
    obtain rfl := Except.ok.inj h
    cases hv
  | cons p specs ih =>
    obtain ⟨first, spec⟩ := p
    rw [validateAll] at h
    split at h
    · cases h
    · next value hvalue =>
      split at h
      · cases h
      · next w hw =>
        split at h
        · cases h
        · next values hvalues =>
          obtain rfl := Except.ok.inj h
          rw [List.lookup_cons] at hv
          by_cases heq : name = first
          · subst heq
            rw [beq_self_eq_true] at hv
            obtain rfl := Option.some.inj hv
            exact ⟨spec, value, List.lookup_cons_self, hw⟩
          · rw [beq_false_of_ne heq] at hv
            obtain ⟨spec', value', hlookup, hvalid⟩ := ih hvalues hv
            refine ⟨spec', value', ?_, hvalid⟩
            rw [List.lookup_cons, beq_false_of_ne heq]
            exact hlookup

variable {r : Runbook}

theorem validateParameters_ok {supplied : Value}
    (h : r.validateParameters supplied = .ok validated) :
    ∃ kvs, supplied = .obj kvs ∧ validateAll kvs r.parameters = .ok validated := by
  cases supplied with
  | obj kvs =>
    rw [Runbook.validateParameters] at h
    split_ifs at h
    exact ⟨kvs, rfl, h⟩
  | _ => cases h

/-! ## Rendering -/

theorem rendered_items {template argv : List String}
    (h : template.mapM (Runbook.renderItem parameters) = .ok argv) :
    List.Forall₂ (fun item value => Runbook.renderItem parameters item = .ok value)
      template argv := by
  induction template generalizing argv with
  | nil =>
    obtain rfl := Except.ok.inj h
    exact .nil
  | cons item template ih =>
    rw [List.mapM_cons] at h
    obtain ⟨value, hvalue, h⟩ := bind_eq_ok.1 h
    obtain ⟨values, hvalues, h⟩ := bind_eq_ok.1 h
    obtain rfl : value :: values = argv := Except.ok.inj h
    exact .cons hvalue (ih hvalues)

theorem placeholder_brace (h : placeholder item = some name) : hasBrace item = true := by
  unfold placeholder at h
  split at h
  · next s hs => simp [hasBrace, hs]
  · cases h

theorem renderItem_literal (hitem : placeholder item = none)
    (h : Runbook.renderItem parameters item = .ok value) : value = item := by
  rw [Runbook.renderItem, hitem] at h
  exact (Except.ok.inj h).symm

structure SafeArgument (value : String) : Prop where
  no_option : (toChars value).head? ≠ some '-'
  no_control : ∀ c ∈ toChars value, ¬IsControl c

theorem renderItem_placeholder {policy : ExecutablePolicy} (hchecked : r.Checked policy)
    {kvs : List (String × Value)} (hvalid : validateAll kvs r.parameters = .ok validated)
    (hok : ItemOk r.parameters item) (hname : placeholder item = some name)
    (h : Runbook.renderItem validated item = .ok value) : SafeArgument value := by
  obtain ⟨name', hname', spec, hspec, hfree⟩ := hok.known (placeholder_brace hname)
  obtain rfl := Option.some.inj (hname.symm.trans hname')
  rw [Runbook.renderItem, hname] at h
  obtain ⟨text, htext, h⟩ := bind_eq_ok.1 h
  split_ifs at h with hunsafe
  obtain rfl := Except.ok.inj h
  refine ⟨fun hdash => hunsafe (.inl hdash), ?_⟩
  rw [Runbook.parameter] at htext
  split at htext
  · next v hv =>
    obtain rfl := Except.ok.inj htext
    obtain ⟨spec', supplied, hlookup, hvalidate⟩ := validateAll_lookup hvalid hv
    obtain rfl := Option.some.inj (hspec.symm.trans hlookup)
    have hsafe := hchecked.parameters _ (Assoc.mem_of_lookup hspec)
    exact fun c hc => (printable_validated hsafe hfree hvalidate c hc).not_control
  · cases htext

theorem placeholder_absolute {path : String} (h : isAbsolute path = true) :
    placeholder path = none := by
  have hhead : (toChars path).head? = some '/' := of_decide_eq_true h
  unfold placeholder
  split
  · next s hs =>
    rw [hs] at hhead
    exact absurd (Option.some.inj hhead) (by decide)
  · rfl

/-- What the arguments are, for a template: the literal items, the executable and the helper are
those of the template, and the other arguments are safe. -/
structure SafeArguments (policy : ExecutablePolicy) (template argv : List String) : Prop where
  length : argv.length = template.length
  literal : ∀ (i : ℕ) (item : String), template[i]? = some item → placeholder item = none →
    argv[i]? = some item
  substituted : ∀ (i : ℕ) (item value : String),
    template[i]? = some item → placeholder item ≠ none →
    argv[i]? = some value → SafeArgument value
  executable : ∃ path, template[0]? = some path ∧ argv[0]? = some path ∧ isAbsolute path = true ∧
    path ∉ shellExecutables ∧ (path ∈ policy.executables ∨ policy.sudoPath = some path)
  helper : ∀ path : String, argv[0]? = some path → policy.sudoPath = some path →
    template[1]? = some "-n" ∧ argv[1]? = some "-n" ∧
      ∃ helper, template[2]? = some helper ∧ argv[2]? = some helper ∧
        isAbsolute helper = true ∧ helper ∈ policy.sudoHelpers

/-- The arguments that an accepted runbook renders from accepted parameters are those of its
template, with safe arguments in the place of the placeholders. -/
theorem arguments_safe {policyPath path : String} {policyValue value : Yaml}
    {policy : ExecutablePolicy} {r : Runbook} {supplied : Value} {validated : List (String × Value)}
    {argv : List String} (hpolicy : ExecutablePolicy.load policyPath policyValue = .ok policy)
    (hload : loadRunbook policy path value = .ok r)
    (hvalid : r.validateParameters supplied = .ok validated)
    (hrender : r.renderArgv validated = .ok (some argv)) :
    ∃ template, r.argvTemplate = some template ∧ SafeArguments policy template argv := by
  have hpaths := ExecutablePolicy.load_ok hpolicy
  have hchecked := loadRunbook_ok hload
  obtain ⟨kvs, rfl, hall⟩ := validateParameters_ok hvalid
  obtain ⟨template, htemplate, hmap⟩ : ∃ template, r.argvTemplate = some template ∧
      template.mapM (Runbook.renderItem validated) = .ok argv := by
    rw [Runbook.renderArgv] at hrender
    split at hrender
    · cases Except.ok.inj hrender
    · next template htemplate =>
      obtain ⟨rendered, hrendered, h⟩ := bind_eq_ok.1 hrender
      obtain rfl : rendered = argv := Option.some.inj (Except.ok.inj h)
      exact ⟨template, htemplate, hrendered⟩
  refine ⟨template, htemplate, ?_⟩
  obtain ⟨hitems, executable, rest, rfl, habsolute, hshell, hsudo, hlisted⟩ :=
    hchecked.template template htemplate
  have hrendered := rendered_items hmap
  have hlength := hrendered.length_eq
  -- the argument of an index is the rendered item of the same index
  have hat : ∀ (i : ℕ) (item : String), (executable :: rest)[i]? = some item →
    ∃ value : String, argv[i]? = some value ∧
      Runbook.renderItem validated item = .ok value := by
    intro i item hi
    obtain ⟨hlt, rfl⟩ := List.getElem?_eq_some_iff.1 hi
    exact ⟨argv[i], List.getElem?_eq_getElem (hlength ▸ hlt), hrendered.get hlt (hlength ▸ hlt)⟩
  have hliteral : ∀ (i : ℕ) (item : String), (executable :: rest)[i]? = some item →
    placeholder item = none →
      argv[i]? = some item := by
    intro i item hi hnone
    obtain ⟨value, hvalue, hitem⟩ := hat i item hi
    rw [hvalue, renderItem_literal hnone hitem]
  have hexecutable := hliteral 0 executable rfl (placeholder_absolute habsolute)
  refine ⟨hlength.symm, hliteral, fun i item value hi hsome hvalue => ?_,
    ⟨executable, rfl, hexecutable, habsolute, hshell, ?_⟩, fun path' hpath' hsudo' => ?_⟩
  · obtain ⟨name, hname⟩ := Option.ne_none_iff_exists'.1 hsome
    obtain ⟨value', hvalue', hitem⟩ := hat i item hi
    obtain rfl := Option.some.inj (hvalue.symm.trans hvalue')
    exact renderItem_placeholder hchecked hall (hitems item (List.mem_of_getElem? hi)) hname hitem
  · by_cases h : policy.sudoPath = some executable
    · exact .inr h
    · exact .inl (hlisted h)
  · obtain rfl := Option.some.inj (hexecutable.symm.trans hpath')
    obtain ⟨hbegins, helper, hhelper, hmem⟩ := hsudo hsudo'
    rw [hpaths.sudo_prefix (by rw [hsudo']; rfl)] at hbegins hhelper
    have hflag : (executable :: rest)[1]? = some "-n" := by
      have hone := congrArg (fun l : List String => l[0]?) hbegins
      simpa using hone
    obtain ⟨hhelper_absolute, -⟩ := hpaths.helpers helper hmem
    have hdash : placeholder "-n" = none := by decide
    exact ⟨hflag, hliteral 1 _ hflag hdash, helper, hhelper,
      hliteral 2 helper hhelper (placeholder_absolute hhelper_absolute), hhelper_absolute, hmem⟩

end OpsControlPlane

namespace OpsControlPlane.Sample

open JsonText

def executablesFile : Yaml :=
  .map [(.str "version", .int 1), (.str "executables", .seq [.str "/opt/ops/health"]),
    (.str "sudo", .map [(.str "executable", .str "/usr/bin/sudo"),
      (.str "allowed_helpers", .seq [.str "/opt/ops/restart"])])]

/-- A runbook that restarts a unit by its name. -/
def restartFile : Yaml :=
  .map [(.str "id", .str "restart.unit"), (.str "version", .int 1), (.str "project", .str "web"),
    (.str "action_class", .str "A"), (.str "description", .str "restart"),
    (.str "timeout_seconds", .int 60),
    (.str "parameters", .map [(.str "unit", .map [(.str "type", .str "enum"),
      (.str "values", .seq [.str "web", .str "db"])])]),
    (.str "command", .map [(.str "argv", .seq [.str "/usr/bin/sudo", .str "-n",
      .str "/opt/ops/restart", .str "\x7bunit\x7d"])]),
    (.str "output", .map [(.str "max_bytes", .int 100), (.str "redact", .bool true)])]

def restartArguments : List String :=
  ["/usr/bin/sudo", "-n", "/opt/ops/restart", "db"]

theorem restart_rendered :
    ∃ policy ∈ (ExecutablePolicy.load "executables" executablesFile).toOption,
    ∃ r ∈ (loadRunbook policy "restart" restartFile).toOption,
      ∃ validated ∈ (r.validateParameters (.obj [("unit", .str "db")])).toOption,
        ∃ argv ∈ (r.renderArgv validated).toOption, argv = some restartArguments := by
  decide +kernel

theorem toOption_eq_some {ε α : Type} {r : Except ε α} {a : α} (h : a ∈ r.toOption) :
    r = .ok a := by
  cases r with
  | ok b => exact congrArg Except.ok (Option.some.inj h)
  | error e => cases h

theorem arguments_safe_sample : ∃ policy template,
    SafeArguments policy template restartArguments ∧ policy.sudoPath = some "/usr/bin/sudo" := by
  obtain ⟨policy, hpolicy, r, hr, validated, hvalid, argv, hrender, rfl⟩ := restart_rendered
  obtain ⟨template, -, hsafe⟩ := arguments_safe (toOption_eq_some hpolicy) (toOption_eq_some hr)
    (toOption_eq_some hvalid) (toOption_eq_some hrender)
  refine ⟨policy, template, hsafe, ?_⟩
  have hsudo : ((ExecutablePolicy.load "executables" executablesFile).toOption).map
      ExecutablePolicy.sudoPath = some (some "/usr/bin/sudo") := by
    decide +kernel
  rw [hpolicy] at hsudo
  exact Option.some.inj hsudo

end OpsControlPlane.Sample
