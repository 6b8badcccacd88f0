import OpsControlPlane.Native.ModeSwitch

/-!
# The execution modes converge

No operation leaves the worker behind its configuration unless it marks a change as not applied, so
that `Commands` keeps `Served.InStep`. A command that returns restarted the worker after each change
of its own: `switched` is the result over runs. `killed_before_restart` is a run in which a command
is killed between the two, and the next one takes the switch for finished.
-/

namespace OpsMode

open Calls Prog

variable {m m' : Machine}

/-! ## Operations -/

theorem inStep_apply (o : ModeOp) (h : m.worker.InStep) : (o.apply m).worker.InStep := by
  cases o with
  | systemctl c =>
    cases c with
    | restartWorker => exact Served.inStep_restart _
    | _ => exact h
  | writeConfig generation => exact h.write _
  | _ => exact h

theorem inStep_run (o : ModeOp) (x : ModeChoice) (h : m.worker.InStep) :
    (o.run x m).2.worker.InStep := by
  cases o with
  | systemctl c =>
    simp only [ModeOp.run]
    split_ifs
    · exact inStep_apply (.systemctl c) h
    · exact h
  | writeConfig generation => exact inStep_apply (.writeConfig generation) h
  | _ => exact h

theorem inStep_act (o : ModeOp) (x : ModeChoice) (h : m.worker.InStep) :
    (act o x m).2.worker.InStep := by
  unfold act
  split_ifs
  · exact inStep_apply o h
  · exact h
  · exact inStep_run o x h

theorem ends_call {o : ModeOp} {a : o.Reply} (h : Ends act (call o) m a m') :
    ∃ x, o.run x m = (a, m') := by
  simp only [call, ends_bind] at h
  obtain ⟨r, t, ⟨x, hr, ht⟩, h⟩ := h
  obtain ⟨rfl, rfl⟩ := ends_ofExcept.1 h
  unfold act at hr ht
  by_cases hraises : x.raises = true
  · rw [if_pos hraises] at hr
    cases hr
  · rw [if_neg hraises] at hr ht
    exact ⟨x, Prod.ext (Except.ok.inj hr) ht⟩

variable {u : Unit}

theorem ends_ensure {c : Systemctl} (h : Ends act (ensure c) m u m') : m' = c.apply m := by
  simp only [ensure, ends_bind] at h
  obtain ⟨ok, t, hcall, h⟩ := h
  obtain ⟨x, hrun⟩ := ends_call hcall
  obtain ⟨hok, rfl⟩ := Prod.mk.inj hrun
  split at h
  · next htrue =>
    obtain ⟨-, rfl⟩ := ends_pure.1 h
    rw [hok, htrue]
    exact if_pos (.inl rfl)
  · exact h.elim

variable {ready generation : Bool}

theorem ends_status (h : Ends act status m ready m') : m' = m := by
  simp only [status, ends_bind] at h
  obtain ⟨_, _, h₁, _, _, h₂, _, _, h₃, _, _, h₄, _, _, h₅, h⟩ := h
  obtain ⟨_, ⟨⟩⟩ := ends_call h₁
  obtain ⟨_, ⟨⟩⟩ := ends_call h₂
  obtain ⟨_, ⟨⟩⟩ := ends_call h₃
  obtain ⟨_, ⟨⟩⟩ := ends_call h₄
  obtain ⟨_, ⟨⟩⟩ := ends_call h₅
  split_ifs at h
  · simp only [ends_bind] at h
    obtain ⟨_, _, h₆, h⟩ := h
    obtain ⟨_, hrun⟩ := ends_call h₆
    obtain ⟨-, hm⟩ := Prod.mk.inj hrun
    obtain ⟨-, rfl⟩ := ends_pure.1 h
    rw [← hm]
    exact ite_self m
  · exact (ends_pure.1 h).2.symm

theorem ends_waitForKeys {n : ℕ} (h : Ends act (waitForKeys n) m u m') : m' = m := by
  induction n generalizing m with
  | zero => exact h.2.symm
  | succ n ih =>
    rw [waitForKeys] at h
    obtain ⟨ready, t, hstatus, hrest⟩ := ends_bind.1 h
    rw [ends_status hstatus] at hrest
    split at hrest
    · exact hrest.2.symm
    · obtain ⟨_, _, hsleep, hrest⟩ := ends_bind.1 hrest
      obtain ⟨_, ⟨⟩⟩ := ends_call hsleep
      exact ih hrest

theorem ends_reconfigure (h : Ends act (reconfigure generation) m u m') :
    m' = { m with worker := (m.worker.write (some generation)).restart } := by
  simp only [reconfigure, ends_bind] at h
  obtain ⟨_, _, h₁, h⟩ := h
  obtain ⟨_, ⟨⟩⟩ := ends_call h₁
  exact ends_ensure h

/-- The worker has the configuration, be it written now or before. -/
theorem ends_reconfigureIf {otherwise : Bool}
    (h : Ends act (reconfigureIf otherwise generation) m u m') (hcurrent : m.worker.Current)
    (hsame : otherwise = false → (m.worker.disk = some true ↔ generation = true)) :
    m'.mode = m.mode ∧ m'.model = m.model ∧ m'.worker.Current ∧
      (m'.worker.disk = some true ↔ generation = true) := by
  unfold reconfigureIf at h
  split_ifs at h with hif
  · rw [ends_reconfigure h]
    exact ⟨rfl, rfl, rfl, Option.some_inj⟩
  · obtain ⟨-, rfl⟩ := ends_pure.1 h
    exact ⟨rfl, rfl, hcurrent, hsame (Bool.eq_false_of_not_eq_true hif)⟩

/-! ## Commands -/

theorem ends_automatic (h : Ends act automatic m ready m') (hcurrent : m.worker.Current) :
    Switched m' (some ready) := by
  simp only [automatic, ends_bind] at h
  obtain ⟨_, _, hprobe, _, _, haccounts, _, _, hsecrets, keys, _, hkeys, config, _, hconfig,
    h⟩ := h
  obtain ⟨_, ⟨⟩⟩ := ends_call hprobe
  obtain ⟨_, ⟨⟩⟩ := ends_call haccounts
  rw [ends_ensure hsecrets] at hkeys
  obtain ⟨_, ⟨⟩⟩ := ends_call hkeys
  obtain ⟨_, ⟨⟩⟩ := ends_call hconfig
  split at h
  · simp only [ends_bind] at h
    obtain ⟨_, _, hmodel, _, _, hmode, _, _, hworker, h⟩ := h
    rw [ends_ensure hmodel] at hmode
    obtain ⟨_, ⟨⟩⟩ := ends_call hmode
    obtain ⟨rfl, rfl⟩ := ends_pure.1 h
    obtain ⟨hm, hrunning, hloaded, hdisk⟩ := ends_reconfigureIf hworker hcurrent fun hsame =>
      iff_of_true (not_not.1 (of_decide_eq_false hsame)) rfl
    refine ⟨hloaded, fun hcli => ?_, fun _ => ⟨hrunning, ?_⟩⟩
    · rw [Machine.current, hm] at hcli
      cases hcli
    · exact decide_eq_true ⟨hloaded.trans (hdisk.2 rfl), decide_eq_true (.inr hm)⟩
  · simp only [ends_bind] at h
    obtain ⟨_, _, hmode, _, _, hworker, _, _, hmodel, h⟩ := h
    obtain ⟨_, ⟨⟩⟩ := ends_call hmode
    obtain ⟨rfl, rfl⟩ := ends_pure.1 h
    obtain ⟨-, -, hloaded, -⟩ := ends_reconfigureIf hworker hcurrent fun hsame =>
      iff_of_false (of_decide_eq_false hsame) Bool.false_ne_true
    rw [ends_ensure hmodel]
    exact ⟨hloaded, fun _ => rfl, fun hready => by cases hready⟩

/-- The worker starts again in any case. -/
theorem ends_activate (h : Ends act activate m u m') : Switched m' none := by
  simp only [activate, ends_bind] at h
  obtain ⟨mode, _, hmode, h⟩ := h
  obtain ⟨_, ⟨⟩⟩ := ends_call hmode
  split at h
  · exact h.elim
  · next hcli =>
    simp only [ends_bind] at h
    obtain ⟨_, _, hsecrets, _, _, hwait, ready, _, hstatus, h⟩ := h
    rw [ends_ensure hsecrets] at hwait
    rw [ends_waitForKeys hwait] at hstatus
    rw [ends_status hstatus] at h
    split at h
    · exact h.elim
    · simp only [ends_bind] at h
      obtain ⟨_, _, hmodel, _, _, hconfig, h⟩ := h
      rw [ends_ensure hmodel] at hconfig
      obtain ⟨_, ⟨⟩⟩ := ends_call hconfig
      rw [ends_reconfigure h]
      exact ⟨rfl, fun hnow => absurd hnow hcli, fun hready => by cases hready⟩

theorem ends_cli (h : Ends act cli m u m') (hcurrent : m.worker.Current) : Switched m' none := by
  simp only [cli, ends_bind] at h
  obtain ⟨previous, _, hprevious, _, _, hmode, stopped, _, hmodel, h⟩ := h
  obtain ⟨_, ⟨⟩⟩ := ends_call hprevious
  obtain ⟨_, ⟨⟩⟩ := ends_call hmode
  obtain ⟨x, hrun⟩ := ends_call hmodel
  obtain ⟨hstopped, hstop⟩ := Prod.mk.inj hrun
  split at h
  · simp only [ends_bind] at h
    obtain ⟨_, _, -, h⟩ := h
    exact h.elim
  · next hdone =>
    rw [← hstopped, not_not] at hdone
    rw [if_pos (.inl hdone)] at hstop
    rw [← hstop] at h
    simp only [ends_bind] at h
    obtain ⟨config, _, hconfig, _, _, hworker, h⟩ := h
    obtain ⟨_, ⟨⟩⟩ := ends_call hconfig
    obtain ⟨_, ⟨⟩⟩ := ends_call h
    obtain ⟨-, hmodel, hloaded, -⟩ := ends_reconfigureIf hworker hcurrent fun hsame =>
      iff_of_false (of_decide_eq_false hsame) Bool.false_ne_true
    exact ⟨hloaded, fun _ => hmodel, fun hready => by cases hready⟩

/-- A command that returns, from a machine whose worker has the configuration. -/
theorem ends_main {c : Command} {ready : Option Bool} (hc : c ≠ .api ∧ c ≠ .hybrid)
    (h : Ends act (main c) m ready m') (hcurrent : m.worker.Current) : Switched m' ready := by
  cases c with
  | cli =>
    simp only [main, ends_bind] at h
    obtain ⟨_, _, hcli, _, _, hstatus, h⟩ := h
    obtain ⟨rfl, rfl⟩ := ends_pure.1 h
    rw [ends_status hstatus]
    exact ends_cli hcli hcurrent
  | api => exact absurd rfl hc.1
  | hybrid => exact absurd rfl hc.2
  | activate =>
    simp only [main, ends_bind] at h
    obtain ⟨_, _, hactivate, _, _, hstatus, h⟩ := h
    obtain ⟨rfl, rfl⟩ := ends_pure.1 h
    rw [ends_status hstatus]
    exact ends_activate hactivate
  | auto =>
    simp only [main, ends_bind] at h
    obtain ⟨_, _, hauto, _, _, hmemory, _, _, hstatus, h⟩ := h
    obtain ⟨rfl, rfl⟩ := ends_pure.1 h
    rw [ends_status hstatus]
    obtain ⟨_, ⟨⟩⟩ := ends_call hmemory
    exact ends_automatic hauto hcurrent

/-! ## Runs -/

theorem Commands.inStep (h : Commands m) : m.worker.InStep ∧ m.worker.unapplied = false := by
  induction h with
  | start m h hu => exact ⟨fun _ => h, hu⟩
  | stop c h hr hu ih =>
    have hstep : ∀ o x (m : Machine), m.worker.InStep → (act o x m).2.worker.InStep :=
      fun o x m => inStep_act o x
    exact ⟨Reaches.keeps (J := fun m => m.worker.InStep) hstep hr ih.1, hu⟩

/-- After commands that left nothing to apply, a command that returns leaves the worker with the
configuration, no model service in the mode `cli`, and a worker that generates if it found keys. -/
theorem switched {c : Command} {ready : Option Bool} (hc : c ≠ .api ∧ c ≠ .hybrid)
    (h : Commands m) (hr : Ends act (main c) m ready m') : Switched m' ready :=
  ends_main hc hr (h.inStep.1 h.inStep.2)

/-! ## Two runs of `auto` -/

namespace Sample

/-- Nothing is configured, and the model service does not run. -/
def fresh : Machine :=
  ⟨none, false, ⟨none, none, false⟩⟩

def well : ModeChoice :=
  ⟨false, false, true, (true, true)⟩

/-- A machine in the mode `hybrid`, and one that has left it. -/
def generating : Machine :=
  ⟨some .hybrid, true, ⟨some true, some true, false⟩⟩

theorem switched_auto : ∃ m, Ends act (main .auto) fresh (some true) generating ∧
    Switched generating (some true) ∧ Ends act (main .cli) generating none m ∧
    Switched m none := by
  have hauto : (main .auto).run act well fresh = some (some true, generating) := by decide
  have hcli : (main .cli).run act well generating =
      some (none, ⟨some .cli, false, ⟨some false, some false, false⟩⟩) := by decide
  have hstart : Commands fresh := .start fresh rfl rfl
  have hcommands : Commands generating :=
    .stop .auto hstart (reaches_of_finishes (finishes_of_run hauto)) rfl
  exact ⟨_, ends_of_run hauto, switched (by decide) hstart (ends_of_run hauto),
    ends_of_run hcli, switched (by decide) hcommands (ends_of_run hcli)⟩

/-- The configuration is written, and the worker is not restarted. -/
def killed : Machine :=
  ⟨some .hybrid, true, ⟨some true, none, true⟩⟩

/-- A command is killed before it restarts the worker, and the next one returns with a worker that
does not generate. -/
theorem killed_before_restart : ∃ m m', Reaches act (main .auto) fresh m ∧
    Ends act (main .auto) m (some true) m' ∧ ¬Switched m' (some true) := by
  have hrun : (main .auto).run act well killed = some (some true, killed) := by decide
  refine ⟨killed, killed, ?_, ends_of_run hrun, fun h => ?_⟩
  · -- The eight operations up to the one that writes the configuration.
    iterate 8 refine .inr ⟨well, ?_⟩
    exact .inl rfl
  · have hloaded : killed.worker.loaded = killed.worker.disk := h.1
    cases hloaded

end Sample

end OpsMode
