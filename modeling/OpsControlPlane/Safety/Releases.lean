import Mathlib.Tactic.IntervalCases
import OpsControlPlane.Release.Apply

/-!
# Failed releases and rollbacks

Units are stopped one at a time, and nothing is put back before the link was switched. For each
part of a run, one lemma says what it leaves when the fault comes later, one when it falls in it.

`previous_release_serves_iff` says when the previous release is left serving.
-/

namespace OpsRelease

open Calls Prog

def controlled (verb : Verb) (units : List String) (running : String → Bool) : String → Bool :=
  fun u => if u ∈ units then verb = .start else running u

theorem controlled_cons (verb : Verb) (unit : String) (units : List String)
    (running : String → Bool) :
    controlled verb units (fun u => if u = unit then verb = .start else running u) =
      controlled verb (unit :: units) running := by
  ext u
  unfold controlled
  by_cases hu : u ∈ units <;> by_cases hn : u = unit <;> simp [hu, hn]

theorem controlled_controlled (verb verb' : Verb) (units : List String)
    (running : String → Bool) :
    controlled verb units (controlled verb' units running) = controlled verb units running := by
  ext u
  unfold controlled
  by_cases hu : u ∈ units <;> simp [hu]

/-! ## One operation -/

abbrev on {α : Type} (h : Host) (p : ReleaseProg α) : Except ReleaseError α × Host :=
  exec performRelease () p h

variable {h : Host} {n : ℕ} {effect : Bool} {e : ReleaseError}

theorem on_releaseOp (o : ReleaseOp) (h : Host) : on h (releaseOp o) = performRelease o () h := by
  unfold on releaseOp
  rw [exec_bind]
  change exec (I := releaseInterface) performRelease ()
    (Prog.ofExcept (performRelease o () h).1) (performRelease o () h).2 = _
  rw [exec_ofExcept]

theorem on_op_none (o : ReleaseOp) (hf : h.fault = none) :
    on h (releaseOp o) = (.ok (o.answer h), o.effect h) := by
  rw [on_releaseOp]
  unfold performRelease
  rw [hf]

theorem on_op_later (o : ReleaseOp) (hf : h.fault = some ⟨n + 1, effect, e⟩) :
    on h (releaseOp o) = (.ok (o.answer h), o.effect { h with fault := some ⟨n, effect, e⟩ }) := by
  rw [on_releaseOp]
  unfold performRelease
  rw [hf]

theorem on_op_now (o : ReleaseOp) (hf : h.fault = some ⟨0, effect, e⟩) :
    on h (releaseOp o) = (.error e, if effect then o.effect { h with fault := none }
      else { h with fault := none }) := by
  rw [on_releaseOp]
  unfold performRelease
  rw [hf]

/-! ## The units -/

theorem control_none (verb : Verb) (units : List String) (hf : h.fault = none) :
    on h (controlServices verb units) =
      (.ok (), { h with running := controlled verb units h.running }) := by
  induction units generalizing h with
  | nil => rfl
  | cons unit units ih =>
    unfold controlServices
    rw [on, exec_bind_ok (on_op_none _ hf)]
    refine (ih (h := (ReleaseOp.systemctl verb unit).effect h) hf).trans ?_
    rw [← controlled_cons]
    rfl

theorem control_later (verb : Verb) (units : List String)
    (hf : h.fault = some ⟨n, effect, e⟩) (hn : units.length ≤ n) :
    on h (controlServices verb units) =
      (.ok (), { h with
        running := controlled verb units h.running
        fault := some ⟨n - units.length, effect, e⟩ }) := by
  induction units generalizing h n with
  | nil =>
    change (Except.ok (), h) = _
    rw [List.length_nil, Nat.sub_zero, ← hf]
    rfl
  | cons unit units ih =>
    obtain ⟨m, rfl⟩ : ∃ m, n = m + 1 := ⟨n - 1, by rw [List.length_cons] at hn; omega⟩
    unfold controlServices
    rw [on, exec_bind_ok (on_op_later _ hf)]
    refine (ih rfl (Nat.le_of_succ_le_succ hn)).trans ?_
    rw [← controlled_cons, List.length_cons, Nat.succ_sub_succ]
    rfl

theorem control_now (verb : Verb) (units : List String)
    (hf : h.fault = some ⟨n, effect, e⟩) (hn : n < units.length) :
    on h (controlServices verb units) =
      (.error e, { h with
        running := controlled verb (units.take (if effect then n + 1 else n)) h.running
        fault := none }) := by
  induction units generalizing h n with
  | nil => exact absurd hn (Nat.not_lt_zero n)
  | cons unit units ih =>
    unfold controlServices
    cases n with
    | zero =>
      rw [on, exec_bind_error (on_op_now _ hf)]
      cases effect with
      | false => rfl
      | true =>
        change _ = (Except.error e, { h with
          running := controlled verb [unit] h.running, fault := none })
        rw [← controlled_cons]
        rfl
    | succ m =>
      rw [on, exec_bind_ok (on_op_later _ hf)]
      refine (ih rfl (Nat.lt_of_succ_lt_succ hn)).trans ?_
      have htake : (unit :: units).take (if effect then m + 1 + 1 else m + 1) =
          unit :: units.take (if effect then m + 1 else m) := by
        cases effect <;> rfl
      rw [htake, ← controlled_cons]
      rfl

/-! ## The link -/

theorem switch_none (release : Option String) (hf : h.fault = none) :
    on h (switchCurrent release) = (.ok (), { h with current := release }) := by
  obtain ⟨running, current, log, fault⟩ := h
  obtain rfl : fault = none := hf
  cases release <;> rfl

theorem switch_later (release : String) (hf : h.fault = some ⟨n, effect, e⟩) (hn : 6 ≤ n) :
    on h (switchCurrent (some release)) =
      (.ok (), { h with current := some release, fault := some ⟨n - 6, effect, e⟩ }) := by
  obtain ⟨m, rfl⟩ : ∃ m, n = m + 6 := ⟨n - 6, by omega⟩
  obtain ⟨running, current, log, fault⟩ := h
  obtain rfl : fault = some ⟨m + 6, effect, e⟩ := hf
  rfl

theorem switch_now (release : String) (hf : h.fault = some ⟨n, effect, e⟩) (hn : n < 6) :
    on h (switchCurrent (some release)) = (.error e, { h with
      current := if n = 5 ∨ n = 4 ∧ effect = true then some release else h.current
      fault := none }) := by
  obtain ⟨running, current, log, fault⟩ := h
  obtain rfl : fault = some ⟨n, effect, e⟩ := hf
  interval_cases n <;> cases effect <;> rfl

/-! ## The health checks -/

theorem health_none (checks : List String) (hf : h.fault = none) :
    on h (releaseHealth checks) = (.ok (checks.map fun check => (check, "ok")), h) := by
  induction checks with
  | nil => rfl
  | cons check checks ih =>
    unfold releaseHealth
    rw [on, exec_bind_ok (exec_attempt_eq (on_op_none _ hf))]
    change exec performRelease () (releaseHealth checks >>= _) h = _
    rw [exec_bind_ok ih]
    rfl

theorem health_later (checks : List String) (hf : h.fault = some ⟨n, effect, e⟩)
    (hn : checks.length ≤ n) : on h (releaseHealth checks) =
      (.ok (checks.map fun check => (check, "ok")),
        { h with fault := some ⟨n - checks.length, effect, e⟩ }) := by
  induction checks generalizing h n with
  | nil =>
    change (Except.ok [], h) = _
    rw [List.length_nil, Nat.sub_zero, ← hf]
    rfl
  | cons check checks ih =>
    obtain ⟨m, rfl⟩ : ∃ m, n = m + 1 := ⟨n - 1, by rw [List.length_cons] at hn; omega⟩
    unfold releaseHealth
    rw [on, exec_bind_ok (exec_attempt_eq (on_op_later _ hf))]
    change exec performRelease () (releaseHealth checks >>= _)
      { h with fault := some ⟨m, effect, e⟩ } = _
    rw [exec_bind_ok (ih rfl (Nat.le_of_succ_le_succ hn))]
    rw [List.length_cons, Nat.succ_sub_succ]
    rfl

/-- A check that fails is told, or raises. -/
theorem health_now (checks : List String) (hf : h.fault = some ⟨n, effect, e⟩)
    (hn : n < checks.length) : ∃ r, on h (releaseHealth checks) = (r, { h with fault := none }) ∧
      ∀ results, r = .ok results → results.any (fun result => result.2 ≠ "ok") = true := by
  induction checks generalizing h n with
  | nil => exact absurd hn (Nat.not_lt_zero n)
  | cons check checks ih =>
    unfold releaseHealth
    cases n with
    | zero =>
      have hnow : on h (releaseOp (.probe check)) = (.error e, { h with fault := none }) := by
        rw [on_op_now _ hf]
        cases effect <;> rfl
      rw [on, exec_bind_ok (exec_attempt_eq hnow)]
      cases e with
      | ops code =>
        refine ⟨.ok ((check, "error") :: checks.map fun check => (check, "ok")), ?_, ?_⟩
        · change exec performRelease () (releaseHealth checks >>= _) { h with fault := none } = _
          rw [exec_bind_ok (health_none checks rfl)]
          rfl
        · intro results hresults
          rw [← Except.ok.inj hresults]
          rfl
      | other className =>
        exact ⟨.error (.other className), rfl, fun results hresults => by cases hresults⟩
    | succ m =>
      rw [on, exec_bind_ok (exec_attempt_eq (on_op_later _ hf))]
      obtain ⟨r, hr, hany⟩ := ih (h := { h with fault := some ⟨m, effect, e⟩ }) rfl
        (Nat.lt_of_succ_lt_succ hn)
      change ∃ r', exec performRelease () (releaseHealth checks >>= _)
        { h with fault := some ⟨m, effect, e⟩ } = (r', _) ∧ _
      cases r with
      | error e' =>
        rw [exec_bind_error hr]
        exact ⟨.error e', rfl, fun results hresults => by cases hresults⟩
      | ok results =>
        rw [exec_bind_ok hr]
        refine ⟨.ok ((check, "ok") :: results), rfl, fun results' hresults => ?_⟩
        rw [← Except.ok.inj hresults, List.any_cons, hany results rfl, Bool.or_true]

/-! ## The parts of a run -/

variable (target : ReleaseTarget)

theorem stopAndSwitch_later (release : String) (hf : h.fault = some ⟨n, effect, e⟩)
    (hn : target.serviceUnits.length + 6 ≤ n) :
    on h (stopAndSwitch target release) = (.ok (), { h with
      running := controlled .stop target.serviceUnits h.running
      current := some release
      fault := some ⟨n - target.serviceUnits.length - 6, effect, e⟩ }) := by
  unfold stopAndSwitch
  rw [on, exec_bind_ok (control_later .stop _ hf (by omega))]
  exact switch_later release rfl (by omega)

/-- The fault comes before the switch is done. -/
theorem stopAndSwitch_now (release : String) (hf : h.fault = some ⟨n, effect, e⟩)
    (hn : n < target.serviceUnits.length + 6) :
    on h (stopAndSwitch target release) = (.error e, { h with
      running := controlled .stop
        (target.serviceUnits.take (if effect then n + 1 else n)) h.running
      current := if n = target.serviceUnits.length + 5 ∨
        n = target.serviceUnits.length + 4 ∧ effect = true then some release else h.current
      fault := none }) := by
  unfold stopAndSwitch
  by_cases hlt : n < target.serviceUnits.length
  · have hbefore : ¬(n = target.serviceUnits.length + 5 ∨
        n = target.serviceUnits.length + 4 ∧ effect = true) := by
      rintro (h | ⟨h, -⟩) <;> omega
    rw [on, exec_bind_error (control_now .stop _ hf hlt), if_neg hbefore]
  · rw [on, exec_bind_ok (control_later .stop _ hf (by omega)), ← on,
      switch_now release rfl (by omega)]
    have htake : target.serviceUnits.take (if effect then n + 1 else n) =
        target.serviceUnits := by
      refine List.take_of_length_le ?_
      split_ifs <;> omega
    have hlink : (n - target.serviceUnits.length = 5 ∨
        n - target.serviceUnits.length = 4 ∧ effect = true) ↔
        (n = target.serviceUnits.length + 5 ∨
          n = target.serviceUnits.length + 4 ∧ effect = true) := by
      constructor <;> rintro (h | ⟨h, heffect⟩) <;> [left; right; left; right] <;>
        first | omega | exact ⟨by omega, heffect⟩
    rw [htake]
    simp only [hlink]

theorem startAndCheck_later (hf : h.fault = some ⟨n, effect, e⟩)
    (hn : target.serviceUnits.length + target.healthChecks.length ≤ n) :
    ∃ health, on h (startAndCheck target) = (.ok health, { h with
      running := controlled .start target.serviceUnits h.running
      fault := some ⟨n - target.serviceUnits.length - target.healthChecks.length,
        effect, e⟩ }) := by
  unfold startAndCheck
  rw [on, exec_bind_ok (control_later .start _ hf (by omega)),
    exec_bind_ok (health_later target.healthChecks rfl (by omega))]
  refine ⟨target.healthChecks.map fun check => (check, "ok"), ?_⟩
  rw [if_neg]
  · rfl
  · simp

theorem startAndCheck_now (hf : h.fault = some ⟨n, effect, e⟩)
    (hn : n < target.serviceUnits.length + target.healthChecks.length) :
    ∃ exc running, on h (startAndCheck target) =
      (.error exc, { h with running := running, fault := none }) ∧
        ∀ u, u ∉ target.serviceUnits → running u = h.running u := by
  have hout : ∀ units : List String, units ⊆ target.serviceUnits → ∀ u,
      u ∉ target.serviceUnits → controlled .start units h.running u = h.running u := by
    intro units hunits u hu
    unfold controlled
    rw [if_neg fun hmem => hu (hunits hmem)]
  unfold startAndCheck
  by_cases hlt : n < target.serviceUnits.length
  · rw [on, exec_bind_error (control_now .start _ hf hlt)]
    exact ⟨_, _, rfl, hout _ (List.take_subset _ _)⟩
  · rw [on, exec_bind_ok (control_later .start _ hf (by omega))]
    obtain ⟨r, hr, hany⟩ := health_now target.healthChecks
      (h := { h with
        running := controlled .start target.serviceUnits h.running
        fault := some ⟨n - target.serviceUnits.length, effect, e⟩ }) rfl (by omega)
    cases r with
    | error exc =>
      rw [exec_bind_error hr]
      exact ⟨_, _, rfl, hout _ (List.Subset.refl _)⟩
    | ok health =>
      rw [exec_bind_ok hr, if_pos (hany health rfl)]
      exact ⟨_, _, rfl, hout _ (List.Subset.refl _)⟩

theorem restorePrevious_none (previous : Option String) (hf : h.fault = none) :
    on h (restorePrevious target previous) = (.ok (), { h with
      running := controlled .start target.serviceUnits h.running
      current := previous }) := by
  obtain ⟨running, current, log, fault⟩ := h
  obtain rfl : fault = none := hf
  unfold restorePrevious
  rw [on, exec_bind_ok (control_none .stop _ rfl)]
  refine (exec_bind_ok (switch_none previous rfl)).trans ?_
  refine (control_none .start _ rfl).trans ?_
  rw [controlled_controlled]

/-! ## The law -/

structure Restored (o : Order) (event : String) (before after : Host) : Prop where
  current : after.current = before.current
  running : ∀ u, before.running u = true → after.running u = true
  told : ∃ error restored, after.log.getLast? = some (o.event event (.failed error restored none)) ∧
    restored ∈ ["not-needed", "completed", "not-switched", "previous-restored"]

/-- The fault leaves the host as it was or falls after the switch, inside the `try`. With `base` the
number of operations before the first stop, the fault falls

* at a stop, while no unit that was running was stopped,
* in the switch, with no unit running before, and before the link is replaced or with the same
  release in it,
* at a start or a health check. -/
def Fault.Harmless (o : Order) (before : Host) (base : ℕ) (f : Fault) : Prop :=
  base ≤ f.after ∧
    let n := f.after - base
    let units := o.target.serviceUnits
    (n < units.length ∧
      ∀ u ∈ units.take (if f.effect then n + 1 else n), before.running u = false) ∨
    (units.length ≤ n ∧ n < units.length + 6 ∧ (∀ u ∈ units, before.running u = false) ∧
      (n < units.length + 4 ∨ n = units.length + 4 ∧ f.effect = false ∨
        before.current = some o.release)) ∨
    units.length + 6 ≤ n ∧ n < units.length + 6 + units.length + o.target.healthChecks.length

variable {units : List String}

/-- What was running still is exactly when none of those that were stopped was. -/
theorem running_controlled_stop {running : String → Bool} :
    (∀ u, running u = true → controlled .stop units running u = true) ↔
      ∀ u ∈ units, running u = false := by
  unfold controlled
  constructor
  · intro h u hu
    by_contra hrun
    have hstopped := h u (Bool.eq_true_of_not_eq_false hrun)
    rw [if_pos hu] at hstopped
    cases hstopped
  · intro h u hrun
    by_cases hu : u ∈ units
    · rw [h u hu] at hrun
      cases hrun
    · rw [if_neg hu]
      exact hrun

variable {event restored : String} {before after : Host} {exc : ReleaseError}

theorem restored_stopAndSwitch_iff {o : Order} (base : ℕ)
    (hrestored : restored ∈ ["not-needed", "completed", "not-switched", "previous-restored"])
    (hn : n < o.target.serviceUnits.length + 6)
    (hcurrent : after.current = if n = o.target.serviceUnits.length + 5 ∨
      n = o.target.serviceUnits.length + 4 ∧ effect = true then some o.release
      else before.current) (hrunning : after.running = controlled .stop
      (o.target.serviceUnits.take (if effect then n + 1 else n)) before.running)
    (hlog : after.log.getLast? = some (o.event event (.failed exc.tag restored none))) :
    Restored o event before after ↔ (⟨base + n, effect, e⟩ : Fault).Harmless o before base := by
  have hiff : Restored o event before after ↔ after.current = before.current ∧
      ∀ u ∈ o.target.serviceUnits.take (if effect then n + 1 else n), before.running u = false := by
    constructor
    · rintro ⟨hsame, hstill, -⟩
      rw [hrunning] at hstill
      exact ⟨hsame, running_controlled_stop.1 hstill⟩
    · rintro ⟨hsame, hstopped⟩
      refine ⟨hsame, ?_, _, _, hlog, hrestored⟩
      rw [hrunning]
      exact running_controlled_stop.2 hstopped
  rw [hiff, hcurrent]
  unfold Fault.Harmless
  simp only [Nat.le_add_right, true_and, Nat.add_sub_cancel_left]
  by_cases hlt : n < o.target.serviceUnits.length
  · have hbefore : ¬(n = o.target.serviceUnits.length + 5 ∨
        n = o.target.serviceUnits.length + 4 ∧ effect = true) := by
      rintro (h | ⟨h, -⟩) <;> omega
    rw [if_neg hbefore]
    constructor
    · rintro ⟨-, hstopped⟩
      exact .inl ⟨hlt, hstopped⟩
    · rintro (⟨-, hstopped⟩ | ⟨hle, -⟩ | ⟨hle, -⟩)
      · exact ⟨rfl, hstopped⟩
      · omega
      · omega
  · have htake : o.target.serviceUnits.take (if effect then n + 1 else n) =
        o.target.serviceUnits := by
      refine List.take_of_length_le ?_
      split_ifs <;> omega
    rw [htake]
    constructor
    · rintro ⟨hsame, hstopped⟩
      refine .inr (.inl ⟨by omega, hn, hstopped, ?_⟩)
      split_ifs at hsame with hreplaced
      · exact .inr (.inr hsame.symm)
      · rw [not_or, not_and, Bool.not_eq_true] at hreplaced
        by_cases hfour : n = o.target.serviceUnits.length + 4
        · exact .inr (.inl ⟨hfour, hreplaced.2 hfour⟩)
        · exact .inl (by omega)
    · rintro (⟨hbefore, -⟩ | ⟨-, -, hstopped, hlink⟩ | ⟨hle, -⟩)
      · exact absurd hbefore hlt
      · refine ⟨?_, hstopped⟩
        split_ifs with hreplaced
        · rcases hlink with hlink | ⟨hfour, heffect⟩ | hsame
          · rcases hreplaced with h | ⟨h, -⟩ <;> omega
          · rcases hreplaced with h | ⟨-, h⟩
            · omega
            · rw [heffect] at h
              cases h
          · exact hsame.symm
        · rfl
      · omega

theorem harmless_after {o : Order} (base : ℕ) (hle : o.target.serviceUnits.length + 6 ≤ n)
    (hlt : n < o.target.serviceUnits.length + 6 + o.target.serviceUnits.length +
      o.target.healthChecks.length) : (⟨base + n, effect, e⟩ : Fault).Harmless o before base := by
  refine ⟨Nat.le_add_right base n, .inr (.inr ?_)⟩
  simp only [Nat.add_sub_cancel_left]
  exact ⟨hle, hlt⟩

theorem not_harmless_after {o : Order} (base : ℕ)
    (hle : o.target.serviceUnits.length + 6 + o.target.serviceUnits.length +
      o.target.healthChecks.length ≤ n) :
    ¬(⟨base + n, effect, e⟩ : Fault).Harmless o before base := by
  unfold Fault.Harmless
  simp only [Nat.add_sub_cancel_left]
  rintro ⟨-, ⟨hlt, -⟩ | ⟨-, hlt, -⟩ | ⟨-, hlt⟩⟩ <;> omega

def Tells (o : Order) (event restored : String) (p : ReleaseError → ReleaseProg Unit) : Prop :=
  ∀ (exc : ReleaseError) (h : Host), h.fault = none → ∃ exc', on h (p exc) = (.error exc',
    { h with log := h.log ++ [o.event event (.failed exc.tag restored none)] })

theorem failRelease_tells (o : Order) (rollback : String) :
    Tells o "release_apply_failed" rollback fun exc => failRelease o exc rollback none := by
  rintro exc ⟨running, current, log, fault⟩ (rfl : fault = none)
  cases exc with
  | ops code => exact ⟨_, rfl⟩
  | other className => exact ⟨_, rfl⟩

theorem failRollback_tells (o : Order) (restore : String) :
    Tells o "release_rollback_failed" restore fun exc => failRollback o exc restore := by
  rintro exc ⟨running, current, log, fault⟩ (rfl : fault = none)
  cases exc with
  | ops code => exact ⟨_, rfl⟩
  | other className => exact ⟨_, rfl⟩

/-- The handlers of a run before and after its switch, and its end. -/
structure Handlers where
  before : ReleaseError → ReleaseProg Unit
  after : ReleaseError → Except ReleaseError Unit → ReleaseProg Unit
  done : List HealthResult → ReleaseProg Unit

/-- What a release with automatic rollback and a rollback share. -/
def deploy (o : Order) (previous : Option String) (H : Handlers) : ReleaseProg Unit := do
  match ← Prog.attempt (stopAndSwitch o.target o.release) with
  | .error exc => H.before exc
  | .ok _ => do
    match ← Prog.attempt (startAndCheck o.target) with
    | .error exc => do
      let restored ← Prog.attempt (restorePrevious o.target previous)
      H.after exc restored
    | .ok health => H.done health

def releaseHandlers (o : Order) (previous : Option String) : Handlers where
  before exc := failRelease o exc "not-needed" none
  after exc
    | .ok _ => failRelease o exc "completed" none
    | .error restoreExc => failRelease o exc "failed" (some restoreExc.className)
  done health := releaseOp
    (.append (o.event "release_apply_succeeded" (.succeeded previous health)))

def rollbackHandlers (o : Order) (previous : Option String) : Handlers where
  before exc := failRollback o exc "not-switched"
  after exc
    | .ok _ => failRollback o exc "previous-restored"
    | .error restoreExc => failRestore o exc restoreExc
  done health := releaseOp
    (.append (o.event "release_rollback_succeeded" (.succeeded previous health)))

theorem deployRelease_eq (o : Order) (previous : Option String)
    (hauto : o.target.rollbackAutomatic = true) :
    deployRelease o previous = deploy o previous (releaseHandlers o previous) := by
  unfold deployRelease
  simp only [hauto, if_true]
  rfl

theorem deployRollback_eq (o : Order) (previous : Option String) :
    deployRollback o previous = deploy o previous (rollbackHandlers o previous) :=
  rfl

/-- What a run leaves that fails between its stops and its last health check, with its previous
release. -/
def LeftBy (o : Order) (previous : Option String) (n : ℕ) (effect : Bool)
    (before after : Host) : Prop :=
  (n < o.target.serviceUnits.length + 6 ∧
    after.current = (if n = o.target.serviceUnits.length + 5 ∨
      n = o.target.serviceUnits.length + 4 ∧ effect = true then some o.release
      else before.current) ∧
    after.running = controlled .stop
      (o.target.serviceUnits.take (if effect then n + 1 else n)) before.running) ∨
  (o.target.serviceUnits.length + 6 ≤ n ∧ after.current = previous ∧
    ∀ u, before.running u = true → after.running u = true)

theorem running_restored {running running' : String → Bool}
    (hout : ∀ u, u ∉ units → running' u = controlled .stop units running u) {u : String}
    (hu : running u = true) : controlled .start units running' u = true := by
  unfold controlled at *
  split_ifs with hmem
  · rfl
  · rw [hout u hmem, if_neg hmem]
    exact hu

section deploy

variable {o : Order} {previous : Option String} (H : Handlers)

theorem deploy_now {event early late : String} (hbefore : Tells o event early H.before)
    (hafter : Tells o event late fun exc => H.after exc (.ok ()))
    (hf : h.fault = some ⟨n, effect, e⟩)
    (hn : n < o.target.serviceUnits.length + 6 + o.target.serviceUnits.length +
      o.target.healthChecks.length) :
    ∃ (exc : ReleaseError) (restored : String) (w : Host),
      (on h (deploy o previous H)).2 = w ∧ w.log = h.log ++
        [o.event event (.failed exc.tag restored none)] ∧
      restored ∈ [early, late] ∧ LeftBy o previous n effect h w := by
  unfold deploy
  by_cases hlt : n < o.target.serviceUnits.length + 6
  · rw [on, exec_bind_ok (exec_attempt_eq (stopAndSwitch_now o.target o.release hf hlt))]
    obtain ⟨exc', hfail⟩ := hbefore e { h with
      running := controlled .stop
        (o.target.serviceUnits.take (if effect then n + 1 else n)) h.running
      current := if n = o.target.serviceUnits.length + 5 ∨
        n = o.target.serviceUnits.length + 4 ∧ effect = true then some o.release else h.current
      fault := none } rfl
    exact ⟨e, early, _, congrArg Prod.snd hfail, rfl, by simp, .inl ⟨hlt, rfl, rfl⟩⟩
  · rw [on, exec_bind_ok (exec_attempt_eq
      (stopAndSwitch_later o.target o.release hf (by omega)))]
    obtain ⟨exc, running, hstart, hout⟩ := startAndCheck_now o.target (h := { h with
      running := controlled .stop o.target.serviceUnits h.running
      current := some o.release
      fault := some ⟨n - o.target.serviceUnits.length - 6, effect, e⟩ }) rfl (by omega)
    dsimp only
    rw [exec_bind_ok (exec_attempt_eq hstart)]
    dsimp only
    rw [exec_bind_ok (exec_attempt_eq (restorePrevious_none o.target previous rfl))]
    obtain ⟨exc', hfail⟩ := hafter exc { h with
      running := controlled .start o.target.serviceUnits running
      current := previous
      fault := none } rfl
    exact ⟨exc, late, _, congrArg Prod.snd hfail, rfl, by simp,
      .inr ⟨by omega, rfl, fun u hu => running_restored hout hu⟩⟩

/-- A run whose checks succeed comes to its end, and tells nothing before. -/
theorem deploy_later (hf : h.fault = some ⟨n, effect, e⟩)
    (hn : o.target.serviceUnits.length + 6 + o.target.serviceUnits.length +
      o.target.healthChecks.length ≤ n) :
    ∃ health h', on h (deploy o previous H) = on h' (H.done health) ∧
      h'.log = h.log ∧ h'.fault = some ⟨n - (o.target.serviceUnits.length + 6 +
        o.target.serviceUnits.length + o.target.healthChecks.length), effect, e⟩ := by
  unfold deploy
  rw [on, exec_bind_ok (exec_attempt_eq
    (stopAndSwitch_later o.target o.release hf (by omega)))]
  obtain ⟨health, hstart⟩ := startAndCheck_later o.target (h := { h with
    running := controlled .stop o.target.serviceUnits h.running
    current := some o.release
    fault := some ⟨n - o.target.serviceUnits.length - 6, effect, e⟩ }) rfl (by omega)
  dsimp only
  rw [exec_bind_ok (exec_attempt_eq hstart)]
  refine ⟨health, _, rfl, rfl, ?_⟩
  simp only [Option.some.injEq, Fault.mk.injEq, and_true]
  omega

end deploy

/-- What such a run leaves is the previous release, serving, exactly when its fault is harmless. -/
theorem LeftBy.restored_iff {o : Order} (base : ℕ)
    (h : LeftBy o before.current n effect before after)
    (hrestored : restored ∈ ["not-needed", "completed", "not-switched", "previous-restored"])
    (hn : n < o.target.serviceUnits.length + 6 + o.target.serviceUnits.length +
      o.target.healthChecks.length)
    (hlog : after.log.getLast? = some (o.event event (.failed exc.tag restored none))) :
    Restored o event before after ↔ (⟨base + n, effect, e⟩ : Fault).Harmless o before base := by
  rcases h with ⟨hlt, hcurrent, hrunning⟩ | ⟨hle, hcurrent, hrunning⟩
  · exact restored_stopAndSwitch_iff base hrestored hlt hcurrent hrunning hlog
  · exact iff_of_true ⟨hcurrent, hrunning, _, _, hlog, hrestored⟩ (harmless_after base hle hn)

/-- A log that ends with a success tells of no restoration. -/
theorem not_restored_of_append {o : Order} {started succeeded : String} {previous : Option String}
    {health : List HealthResult} {approval : String} {h' : Host} {log : List AuditEvent}
    (hlog : h'.log = log ++ [o.event started (.started approval)])
    (hf : h'.fault = some ⟨n, effect, e⟩)
    (hraise : (on h' (releaseOp (.append (o.event succeeded (.succeeded previous health))))).1 =
      .error exc) : ¬Restored o event before
      (on h' (releaseOp (.append (o.event succeeded (.succeeded previous health))))).2 := by
  cases n with
  | succ m =>
    rw [on_op_later _ hf] at hraise
    cases hraise
  | zero =>
    rw [on_op_now _ hf]
    rintro ⟨-, -, error, restored, htold, -⟩
    cases effect with
    | true =>
      change (h'.log ++ [_]).getLast? = _ at htold
      rw [List.getLast?_concat] at htold
      cases htold
    | false =>
      change h'.log.getLast? = _ at htold
      rw [hlog, List.getLast?_concat] at htold
      cases htold

/-- The host once the run has told that it started. -/
def Host.told (h : Host) (e : AuditEvent) (fault : Option Fault) : Host :=
  { h with log := h.log ++ [e], fault := fault }

theorem applyRelease_started (o : Order) (hf : h.fault = some ⟨n + 3, effect, e⟩) :
    on h (applyRelease o) =
      on (h.told (o.event "release_apply_started" (.started o.approvalId))
        (some ⟨n, effect, e⟩)) (deployRelease o h.current) := by
  obtain ⟨running, current, log, fault⟩ := h
  obtain rfl : fault = some ⟨n + 3, effect, e⟩ := hf
  rfl

theorem applyRollback_started (o : Order) (hf : h.fault = some ⟨n + 2, effect, e⟩)
    (hother : h.current ≠ some o.release) :
    on h (applyRollback o) =
      on (h.told (o.event "release_rollback_started" (.started o.approvalId))
        (some ⟨n, effect, e⟩)) (deployRollback o h.current) := by
  unfold applyRollback
  rw [on, exec_bind_ok (on_op_later _ hf)]
  change exec (I := releaseInterface) performRelease ()
    (if h.current = some o.release then _ else _) { h with fault := some ⟨n + 1, effect, e⟩ } = _
  rw [if_neg hother, exec_bind_ok (on_op_later _ rfl)]
  rfl

theorem not_restored_of_stage (o : Order) (hf : h.fault = some ⟨2, effect, e⟩) :
    ¬Restored o "release_apply_failed" h (on h (applyRelease o)).2 := by
  obtain ⟨running, current, log, fault⟩ := h
  obtain rfl : fault = some ⟨2, effect, e⟩ := hf
  rintro ⟨-, -, error, restored, htold, -⟩
  cases effect with
  | true =>
    change (log ++ [_]).getLast? = _ at htold
    rw [List.getLast?_concat] at htold
    simp [Order.event] at htold
  | false =>
    change (log ++ [_]).getLast? = _ at htold
    rw [List.getLast?_concat] at htold
    simp [Order.event] at htold

/-- A release with automatic rollback, or a rollback, that raises after its started event leaves
the previous release serving, and says so, exactly when its fault is harmless. -/
theorem previous_release_serves_iff (o : Order) (before : Host) (f : Fault)
    (hf : before.fault = some f) (hstarted : 2 ≤ f.after) :
    (o.target.rollbackAutomatic = true →
      ∀ exc, (on before (applyRelease o)).1 = .error exc →
        (Restored o "release_apply_failed" before (on before (applyRelease o)).2 ↔
          f.Harmless o before 3)) ∧
    (before.current ≠ some o.release →
      ∀ exc, (on before (applyRollback o)).1 = .error exc →
        (Restored o "release_rollback_failed" before (on before (applyRollback o)).2 ↔
          f.Harmless o before 2)) := by
  obtain ⟨k, effect, e⟩ := f
  change 2 ≤ k at hstarted
  constructor
  · intro hauto exc hraise
    rcases Nat.eq_or_lt_of_le hstarted with rfl | hlt
    · exact iff_of_false (not_restored_of_stage o hf) fun h =>
        absurd (show 3 ≤ 2 from h.1) (by decide)
    obtain ⟨n, rfl⟩ : ∃ n, k = 3 + n := ⟨k - 3, by omega⟩
    rw [Nat.add_comm] at hf
    rw [applyRelease_started o hf, deployRelease_eq o _ hauto] at hraise ⊢
    by_cases hn : n < o.target.serviceUnits.length + 6 + o.target.serviceUnits.length +
        o.target.healthChecks.length
    · obtain ⟨exc', rollback, w, hw, hlog, hrestored, hleft⟩ :=
        deploy_now (h := before.told _ _) (releaseHandlers o before.current)
          (failRelease_tells o _) (failRelease_tells o _) rfl hn
      rw [hw]
      have htold : w.log.getLast? = some (o.event "release_apply_failed"
          (.failed exc'.tag rollback none)) := by
        rw [hlog, List.getLast?_concat]
      exact LeftBy.restored_iff 3 hleft
        (by rcases List.mem_pair.1 hrestored with rfl | rfl <;> decide)
        hn htold
    · obtain ⟨health, h', hrun, hlog, hfault⟩ :=
        deploy_later (h := before.told _ _) (releaseHandlers o before.current) rfl (not_lt.1 hn)
      rw [hrun] at hraise ⊢
      exact iff_of_false (not_restored_of_append hlog hfault hraise)
        (not_harmless_after 3 (not_lt.1 hn))
  · intro hother exc hraise
    obtain ⟨n, rfl⟩ : ∃ n, k = 2 + n := ⟨k - 2, by omega⟩
    rw [Nat.add_comm] at hf
    rw [applyRollback_started o hf hother, deployRollback_eq] at hraise ⊢
    by_cases hn : n < o.target.serviceUnits.length + 6 + o.target.serviceUnits.length +
        o.target.healthChecks.length
    · obtain ⟨exc', restore, w, hw, hlog, hrestored, hleft⟩ :=
        deploy_now (h := before.told _ _) (rollbackHandlers o before.current)
          (failRollback_tells o _) (failRollback_tells o _) rfl hn
      rw [hw]
      have htold : w.log.getLast? = some (o.event "release_rollback_failed"
          (.failed exc'.tag restore none)) := by
        rw [hlog, List.getLast?_concat]
      exact LeftBy.restored_iff 2 hleft
        (by rcases List.mem_pair.1 hrestored with rfl | rfl <;> decide)
        hn htold
    · obtain ⟨health, h', hrun, hlog, hfault⟩ :=
        deploy_later (h := before.told _ _) (rollbackHandlers o before.current) rfl (not_lt.1 hn)
      rw [hrun] at hraise ⊢
      exact iff_of_false (not_restored_of_append hlog hfault hraise)
        (not_harmless_after 2 (not_lt.1 hn))

namespace Sample

/-- Two units, one check. -/
def order : Order :=
  ⟨⟨"shop", ["shop.service", "worker.service"], by decide, ["shop-http"], true⟩, "r2", "p", "a"⟩

/-- Both units run, with the first release. -/
def host (after : ℕ) : Host :=
  ⟨fun _ => true, some "r1", [], some ⟨after, false, .ops "service_failed"⟩⟩

end Sample

/-- When the second unit cannot be stopped, the first one is left stopped. -/
theorem previous_release_stopped : ¬∀ (o : Order) (before : Host) (f : Fault),
    before.fault = some f → 2 ≤ f.after → o.target.rollbackAutomatic = true →
      ∀ exc, (on before (applyRelease o)).1 = .error exc →
        Restored o "release_apply_failed" before (on before (applyRelease o)).2 := by
  intro h
  have hrunning := (h Sample.order (Sample.host 4) _ rfl (by decide) rfl _ rfl).running
    "shop.service" rfl
  exact absurd hrunning (by decide)

/-- When the health check fails, the first release is put back. -/
theorem previous_release_serves_sample :
    Restored Sample.order "release_apply_failed" (Sample.host 13)
      (on (Sample.host 13) (applyRelease Sample.order)).2 :=
  ((previous_release_serves_iff Sample.order (Sample.host 13) _ rfl (by decide)).1 rfl
    (.ops "health_failed") rfl).2 ⟨by decide, .inr (.inr ⟨by decide, by decide⟩)⟩

end OpsRelease
