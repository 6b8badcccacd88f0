import OpsControlPlane.Deploy.Volumes
import OpsControlPlane.Lib.Undisturbed

/-!
# Volumes over rollbacks

The volumes are waiting, noted in the journal, or moved (`Kept`), wherever a call is killed. What is
called again with the journal goes on from there (`settles_preserve`), so the volumes are at
one place over any number of calls and a call that returns leaves them in their archive
(`volumes_kept`).
-/

namespace OpsVolumes

open Calls OpsDeploy Prog

variable {α : Type} {h s t : Host α} {v : Volumes α}

/-! ## Where the volumes are -/

/-- Nothing was written yet. -/
def Waiting (v : Volumes α) (h : Host α) : Prop :=
  h.source = some v ∧ h.destination = none ∧ h.journal.docker.volumesPreservationStarted = false ∧
    h.journal.docker.volumesPreservationPath = none ∧ h.journal.docker.volumesPreserved = false

def Announced (h : Host α) : Prop :=
  h.journal.docker.volumesPreservationStarted = true ∧
    h.journal.docker.volumesPreservationPath = some (recoveredVolumes h.journal.transactionId)

def Noted (v : Volumes α) (h : Host α) : Prop :=
  h.source = some v ∧ h.destination = none ∧ Announced h ∧
    h.journal.docker.volumesPreserved = false

def Moved (v : Volumes α) (h : Host α) : Prop :=
  h.source = none ∧ h.destination = some v ∧ Announced h

def Kept (v : Volumes α) (h : Host α) : Prop :=
  Waiting v h ∨ Noted v h ∨ Moved v h

def Absent (h : Host α) : Prop :=
  h.source = none ∧ h.destination = none ∧ h.journal.docker.volumesPreservationPath = none ∧
    h.journal.docker.volumesPreserved = false

/-- `DeploymentError`s that say that the volumes are lost, or twice there. -/
def lostBoth : Fault :=
  .rollbackFailed "Docker volume preservation lost both copies"

def conflicting : Fault :=
  .rollbackFailed "Docker volume preservation has two conflicting copies"

def Allowed (e : Fault) : Prop :=
  e ≠ lostBoth ∧ e ≠ conflicting

instance (e : Fault) : Decidable (Allowed e) :=
  inferInstanceAs (Decidable (e ≠ lostBoth ∧ e ≠ conflicting))

/-! ## Operations -/

def Op.reads : Op → Bool
  | .mountInventory | .lexists _ | .lstatVolumes _ | .stDev _ | .isThere _ | .lstat _ | .fsync =>
    true
  | _ => false

variable {o : Op}

theorem act_reads (ho : o.reads = true) (x : Choice) : (act o x h).2 = h := by
  obtain ⟨outcome, mountpoints, device, gid, leads⟩ := x
  cases o <;> cases ho <;> cases outcome <;> rfl

variable {x : Choice} {e : Fault}

theorem raised_of_perform (he : (perform x h o).1 = .error e) : e = .raised := by
  have horRaised : ∀ {β : Type} {b : Option β}, orRaised b = .error e → e = .raised := by
    intro β b hb
    cases b with
    | none => exact (Except.error.inj hb).symm
    | some b => cases hb
  cases o <;> rw [perform] at he
  all_goals first
    | cases he
    | exact horRaised he
    | skip
  all_goals
    split at he
    all_goals first
      | exact (Except.error.inj he).symm
      | cases he
      | skip
    all_goals
      split at he
      · exact (Except.error.inj he).symm
      · cases he

theorem raised_of_act (he : (act o x h).1 = .error e) : e = .raised := by
  obtain ⟨outcome, mountpoints, device, gid, leads⟩ := x
  cases o <;> cases outcome <;>
    first
      | exact (Except.error.inj he).symm
      | exact raised_of_perform (x := ⟨.done, mountpoints, device, gid, leads⟩) he

section rules

variable {C : Host α → Prop} {β : Type}

theorem settles_reads {o : Op} {R : o.Reply → Host α → Prop} (ho : o.reads = true) (hC : C s)
    (hR : ∀ x a, (act o x s).1 = .ok a → R a s) : Settles act C Allowed (op o) R s :=
  settles_op hC fun x => by
    rw [act_reads ho]
    exact ⟨hC, hR x, fun e he => raised_of_act he ▸ by decide⟩

theorem settles_lexists {p : Place} {R : Bool → Host α → Prop} (hC : C s)
    (hR : R (s.volumes p).isSome s) : Settles act C Allowed (lexists p) R s :=
  settles_reads rfl hC fun _ _ ha => Except.ok.inj ha ▸ hR

variable {message : String}

theorem settles_refuse {c : Prop} [Decidable c] {R : Unit → Host α → Prop} (hC : C s)
    (hE : c → Allowed (.rollbackFailed message)) (hR : ¬c → R () s) :
    Settles act C Allowed (refuse c message) R s :=
  settles_ite (fun hc => settles_fail hC (hE hc)) fun hc => settles_pure hC (hR hc)

theorem settles_unavailable {p : Preserve β} {R : β → Host α → Prop}
    (hE : Allowed (.rollbackFailed message)) (hp : Settles act C Allowed p R s) :
    Settles act C Allowed (unavailable message p) R s := by
  refine settles_bind ?_
  refine settles_attempt (hp.mono fun a t hC hR => ?_) fun e t hC _ => ?_
  · exact settles_pure hC hR
  · exact settles_fail hC hE

end rules

/-! ## Parts of a call -/

section parts

variable {C P : Host α → Prop} {β : Type}

theorem settles_checkSource {R : Unit → Host α → Prop} (hC : C s) (hR : R () s) :
    Settles act C Allowed checkSource R s := by
  refine settles_bind (settles_unavailable (by decide) (settles_reads rfl hC fun _ _ _ => ?_))
  exact settles_refuse hC (fun _ => by decide) fun _ => hR

variable {f : Folder}

/-- A directory above the archive does not concern the volumes. -/
theorem settles_folder {o : Op} (ho : o = .mkdir f ∨ o = .chown f ∨ o = .chmod f)
    (hPC : ∀ t, P t → C t) (hfolder : ∀ t m, P t → P (Host.setFolder t m f)) (hs : P s) :
    Settles act C Allowed (op o) (fun _ t => P t) s := by
  have hperform : ∀ x, P (perform x s o).2 := by
    intro x
    rcases ho with rfl | rfl | rfl
    all_goals
      rw [perform]
      split
      all_goals first
        | exact hs
        | exact hfolder s _ hs
        | skip
    split
    · exact hs
    · exact hfolder s _ hs
  have hact : ∀ x, P (act o x s).2 := by
    intro x
    have hdone := hperform x
    obtain ⟨outcome, mountpoints, device, gid, leads⟩ := x
    rcases ho with rfl | rfl | rfl <;> cases outcome <;>
      first
        | exact hs
        | exact hdone
  exact settles_op (hPC s hs) fun x => ⟨hPC _ (hact x), fun _ _ => hact x,
    fun e he => raised_of_act he ▸ by decide⟩

theorem settles_prepareFolder (hPC : ∀ t, P t → C t)
    (hfolder : ∀ t m, P t → P (Host.setFolder t m f)) (hs : P s) :
    Settles act C Allowed (prepareFolder f) (fun _ t => P t) s := by
  refine settles_bind (settles_reads rfl (hPC s hs) fun _ (there : Bool) _ => ?_)
  refine settles_ite (fun _ => ?_) fun _ => ?_
  · refine settles_bind (settles_unavailable (by decide)
      (settles_reads rfl (hPC s hs) fun _ _ _ => ?_))
    exact settles_refuse (hPC s hs) (fun _ => by decide) fun _ => hs
  · refine (settles_folder (.inl rfl) hPC hfolder hs).then fun _ t _ ht => ?_
    refine (settles_folder (.inr (.inl rfl)) hPC hfolder ht).then fun _ t _ ht => ?_
    refine (settles_folder (.inr (.inr rfl)) hPC hfolder ht).then fun _ t _ ht => ?_
    exact settles_reads rfl (hPC t ht) fun _ _ _ => ht

end parts

/-! ## A call -/

theorem kept_of_noted (h : Noted v s) : Kept v s :=
  .inr (.inl h)

theorem kept_of_moved (h : Moved v s) : Kept v s :=
  .inr (.inr h)

theorem noted_setFolder {f : Folder} {m : Metadata} (h : Noted v s) :
    Noted v (s.setFolder m f) := by
  cases f <;> exact h

/-- An operation with an effect on the volumes or on the journal. -/
theorem settles_effect {C P R : Host α → Prop} (hC : ∀ t, P t ∨ R t → C t)
    (hdone : ∀ x, P (perform x s o).2 ∨ R (perform x s o).2)
    (hok : ∀ x u, (perform x s o).1 = .ok u → R (perform x s o).2) (hs : P s) :
    Settles act C Allowed (op o) (fun _ t => R t) s := by
  refine settles_op (hC s (.inl hs)) fun x => ?_
  have hact : (act o x s = perform x s o) ∨ (act o x s).1 = .error .raised ∧
      ((act o x s).2 = s ∨ (act o x s).2 = (perform x s o).2) := by
    obtain ⟨outcome, mountpoints, device, gid, leads⟩ := x
    cases o <;> cases outcome <;>
      first
        | exact .inl rfl
        | exact .inr ⟨rfl, .inl rfl⟩
        | exact .inr ⟨rfl, .inr rfl⟩
  refine ⟨?_, fun u hu => ?_, fun e he => raised_of_act he ▸ by decide⟩
  · rcases hact with heq | ⟨-, heq | heq⟩
    · rw [heq]
      exact hC _ (hdone x)
    · rw [heq]
      exact hC _ (.inl hs)
    · rw [heq]
      exact hC _ (hdone x)
  · rcases hact with heq | ⟨herror, -⟩
    · rw [heq] at hu ⊢
      exact hok x u hu
    · cases herror.symm.trans hu

theorem perform_rename (hsource : t.source = some v) (hdestination : t.destination = none)
    (x : Choice) : perform x t .rename =
      if t.recovered = none then (.error .raised, t)
      else (.ok (), { t with source := none, destination := some v }) := by
  rw [perform, hsource, hdestination]

theorem settles_moveVolumes (hs : Noted v s) :
    Settles act (Kept v) Allowed moveVolumes (fun _ t => Moved v t) s := by
  refine (settles_checkSource (R := fun _ t => Noted v t) (kept_of_noted hs) hs).then
    fun _ t _ ht => ?_
  refine (settles_prepareFolder (P := Noted v) (fun _ => kept_of_noted)
    (fun _ _ => noted_setFolder) ht).then
    fun _ t _ ht => ?_
  refine (settles_prepareFolder (P := Noted v) (fun _ => kept_of_noted)
    (fun _ _ => noted_setFolder) ht).then
    fun _ t _ ht => ?_
  refine settles_bind (settles_reads rfl (kept_of_noted ht) fun _ (a : ℕ) _ => ?_)
  refine settles_bind (settles_reads rfl (kept_of_noted ht) fun _ (b : ℕ) _ => ?_)
  refine settles_bind (settles_refuse (kept_of_noted ht) (fun _ => by decide) fun _ => ?_)
  have hperform : ∀ x, (perform x t .rename).2 = t ∧ (∃ e, (perform x t .rename).1 = .error e) ∨
      Moved v (perform x t .rename).2 := by
    intro x
    rw [perform_rename ht.1 ht.2.1]
    by_cases hrecovered : t.recovered = none
    · rw [if_pos hrecovered]
      exact .inl ⟨rfl, _, rfl⟩
    · rw [if_neg hrecovered]
      exact .inr ⟨rfl, rfl, ht.2.2.1⟩
  have hrename : Settles act (Kept v) Allowed rename (fun _ t => Moved v t) t := by
    refine settles_effect (P := Noted v) (fun t ht => ht.elim kept_of_noted kept_of_moved)
      (fun x => ?_) (fun x u hu => ?_) ht
    · rcases hperform x with ⟨heq, -⟩ | hmoved
      · exact .inl (by rw [heq]; exact ht)
      · exact .inr hmoved
    · rcases hperform x with ⟨-, e, he⟩ | hmoved
      · cases he.symm.trans hu
      · exact hmoved
  refine hrename.then fun _ t _ ht => ?_
  refine settles_bind (settles_reads rfl (kept_of_moved ht) fun _ _ _ => ?_)
  refine settles_bind (settles_reads rfl (kept_of_moved ht) fun _ _ _ => ?_)
  exact settles_reads rfl (kept_of_moved ht) fun _ _ _ => ht

variable {j : Transaction}

theorem settles_atomicJson {C P R : Host α → Prop} (hC : ∀ t, P t ∨ R t → C t)
    (hR : R { s with journal := j }) (hs : P s) :
    Settles act C Allowed (atomicJson j) (fun _ t => R t) s :=
  settles_effect hC (fun _ => .inr hR) (fun _ _ _ => hR) hs

theorem settles_complete (hj : j.docker.volumesPreservationStarted = true ∧
      j.docker.volumesPreservationPath = some (recoveredVolumes j.transactionId)) (hs : Moved v s) :
    Settles act (Kept v) Allowed (complete j)
      (fun _ t => Moved v t ∧ t.journal.docker.volumesPreserved = true) s := by
  have hkept := kept_of_moved hs
  refine settles_bind (settles_unavailable (by decide) (settles_reads rfl hkept
    fun _ (m : Metadata) _ => ?_))
  refine settles_bind (settles_refuse hkept (fun _ => by decide) fun _ => ?_)
  refine settles_bind (settles_lexists hkept ?_)
  refine settles_bind (settles_refuse hkept (fun _ => by decide) fun _ => ?_)
  exact settles_atomicJson (P := Moved v) (fun t ht => kept_of_moved (ht.elim id And.left))
    ⟨⟨hs.1, hs.2.1, hj⟩, rfl⟩ hs

/-- What follows the journal leaves the volumes in their archive. -/
theorem settles_finish (hs : Noted v s ∨ Moved v s) :
    Settles act (Kept v) Allowed (finish s.journal)
      (fun _ t => Moved v t ∧ t.journal.docker.volumesPreserved = true) s := by
  have hkept : Kept v s := .inr hs
  refine settles_bind (settles_lexists hkept ?_)
  refine settles_bind (settles_lexists hkept ?_)
  rcases hs with hs | hs
  · rw [Host.volumes, Host.volumes, hs.1, hs.2.1]
    refine settles_bind (settles_refuse hkept (fun h => by simp at h) fun _ => ?_)
    refine settles_bind (settles_refuse hkept (fun h => by simp at h) fun _ => ?_)
    refine (settles_moveVolumes hs).then fun _ t _ ht => ?_
    exact settles_complete hs.2.2.1 ht
  · rw [Host.volumes, Host.volumes, hs.1, hs.2.1]
    refine settles_bind (settles_refuse hkept (fun h => by simp at h) fun _ => ?_)
    refine settles_bind (settles_refuse hkept (fun h => by simp at h) fun _ => ?_)
    exact settles_complete hs.2.2 hs

/-- The volumes are noted before they are renamed. -/
theorem settles_start (hs : Waiting v s) :
    Settles act (Kept v) Allowed (start s.journal true false)
      (fun metadata t => Noted v t ∧ metadata = t.journal) s := by
  have hkept : Kept v s := .inl hs
  refine settles_bind (settles_refuse hkept (fun _ => by decide) fun _ => ?_)
  refine settles_bind (settles_checkSource hkept ?_)
  refine settles_bind (settles_unavailable (by decide) (settles_reads rfl hkept
    fun _ (a : ℕ) _ => ?_))
  refine settles_bind (settles_unavailable (by decide) (settles_reads rfl hkept
    fun _ (b : ℕ) _ => ?_))
  refine settles_bind (settles_refuse hkept (fun _ => by decide) fun _ => ?_)
  refine Settles.then (settles_atomicJson (P := Waiting v)
    (R := fun t => Noted v t ∧ t.journal = { s.journal with docker := { s.journal.docker with
      volumesPreservationStarted := true
      volumesPreservationPath := some (recoveredVolumes s.journal.transactionId)
      volumesPreserved := false } })
    (fun t ht => ht.elim .inl fun ht => kept_of_noted ht.1) ?_ hs) fun _ t hC ht => ?_
  · exact ⟨⟨hs.1, hs.2.1, ⟨rfl, rfl⟩, rfl⟩, rfl⟩
  · exact settles_pure hC ⟨ht.1, ht.2.symm⟩

/-- A call with the journal keeps the volumes, and moves them if it returns. -/
theorem settles_preserve (hs : Kept v s) :
    Settles act (Kept v) Allowed (preserveTransactionDockerVolumes s.journal)
      (fun _ t => Moved v t ∧ t.journal.docker.volumesPreserved = true) s := by
  refine settles_bind (settles_refuse hs (fun _ => by decide) fun _ => ?_)
  refine settles_bind (settles_refuse hs (fun _ => by decide) fun _ => ?_)
  refine settles_bind (settles_refuse hs (fun _ => by decide) fun _ => ?_)
  refine settles_bind (settles_refuse hs (fun _ => by decide) fun _ => ?_)
  refine settles_bind (settles_reads rfl hs fun _ (mountpoints : List String) _ => ?_)
  refine settles_bind (settles_refuse hs (fun _ => by decide) fun _ => ?_)
  refine settles_bind (settles_lexists hs ?_)
  refine settles_bind (settles_lexists hs ?_)
  refine Settles.then (R := fun m t => (Noted v t ∨ Moved v t) ∧ m = t.journal) ?_ ?_
  · unfold announce
    rcases hs with hwaiting | hs
    · rw [hwaiting.2.2.1, Host.volumes, Host.volumes, hwaiting.1, hwaiting.2.1]
      exact (settles_start hwaiting).mono fun m t _ ht => ⟨.inl ht.1, ht.2⟩
    · have hstarted : s.journal.docker.volumesPreservationStarted = true :=
        hs.elim (fun h => h.2.2.1.1) fun h => h.2.2.1
      rw [hstarted]
      exact settles_pure (.inr hs) ⟨hs, rfl⟩
  · rintro m t hC ⟨ht, rfl⟩
    have hpath : t.journal.docker.volumesPreservationPath =
        some (recoveredVolumes t.journal.transactionId) :=
      ht.elim (fun h => h.2.2.1.2) fun h => h.2.2.2
    rw [conclude, if_neg (by rw [hpath]; exact Option.some_ne_none _)]
    exact settles_finish ht

/-- Without volumes a call writes that there were none. -/
theorem settles_preserve_absent (hs : Absent s) :
    Settles act Absent Allowed (preserveTransactionDockerVolumes s.journal)
      (fun _ t => Absent t ∧ t.journal.docker.volumesPreservationStarted = true) s := by
  refine settles_bind (settles_refuse hs (fun _ => by decide) fun _ => ?_)
  refine settles_bind (settles_refuse hs (fun _ => by decide) fun _ => ?_)
  refine settles_bind (settles_refuse hs (fun _ => by decide) fun _ => ?_)
  refine settles_bind (settles_refuse hs (fun _ => by decide) fun _ => ?_)
  refine settles_bind (settles_reads rfl hs fun _ (mountpoints : List String) _ => ?_)
  refine settles_bind (settles_refuse hs (fun _ => by decide) fun _ => ?_)
  refine settles_bind (settles_lexists hs ?_)
  refine settles_bind (settles_lexists hs ?_)
  refine Settles.then (R := fun m t => (Absent t ∧
    t.journal.docker.volumesPreservationStarted = true) ∧ m = t.journal) ?_ ?_
  · unfold announce
    rw [Host.volumes, Host.volumes, hs.1, hs.2.1]
    cases hstarted : s.journal.docker.volumesPreservationStarted with
    | true => exact settles_pure hs ⟨⟨hs, hstarted⟩, rfl⟩
    | false =>
      refine settles_bind (settles_refuse hs (fun _ => by decide) fun _ => ?_)
      refine Settles.then (settles_atomicJson (P := Absent)
        (R := fun t => (Absent t ∧ t.journal.docker.volumesPreservationStarted = true) ∧
          t.journal = { s.journal with docker := { s.journal.docker with
            volumesPreservationStarted := true
            volumesPreservationPath := none
            volumesPreserved := false } })
        (fun t ht => ht.elim id fun ht => ht.1.1) ?_ hs) fun _ t hC ht => ?_
      · exact ⟨⟨⟨hs.1, hs.2.1, rfl, rfl⟩, rfl⟩, rfl⟩
      · exact settles_pure hC ⟨ht.1, ht.2.symm⟩
  · rintro m t hC ⟨ht, rfl⟩
    rw [conclude, if_pos hC.2.2.1]
    refine settles_bind (settles_lexists hC ?_)
    refine settles_bind (settles_lexists hC ?_)
    exact settles_refuse hC (fun _ => by decide) fun _ => ht

/-! ## Any number of calls -/

/-- A transaction before its rollback. -/
structure Fresh (h : Host α) : Prop where
  started : h.journal.docker.volumesPreservationStarted = false
  path : h.journal.docker.volumesPreservationPath = none
  preserved : h.journal.docker.volumesPreserved = false
  destination : h.destination = none

/-- The call is made some times with the journal as it is, and stops anywhere. -/
inductive Replayed (h₀ : Host α) : Host α → Prop
  | start : Replayed h₀ h₀
  | call {h t : Host α} (hrun : Replayed h₀ h)
    (hstop : Reaches act (preserveTransactionDockerVolumes h.journal) h t) : Replayed h₀ t

variable {h₀ : Host α}

theorem Replayed.invariant {C : Host α → Prop} {R : Unit → Host α → Prop} (hrun : Replayed h₀ h)
    (h₀C : C h₀)
    (hcall : ∀ s, C s → Settles act C Allowed (preserveTransactionDockerVolumes s.journal) R s) :
    C h := by
  induction hrun with
  | start => exact h₀C
  | call _ hstop ih => exact (hcall _ ih).crash hstop

theorem Replayed.stop (h' : Replayed h₀ h) (xs : List Choice) :
    Replayed h₀ (stopAfter act (preserveTransactionDockerVolumes h.journal) xs h) :=
  .call h' (reaches_stopAfter _ _ _)

/-- The volumes are at one of the two places wherever calls stop, and a call that returns leaves
them in their archive, or says that there were none. No call says that they are lost or twice
there. -/
theorem volumes_kept {h₀ : Host α} (hfresh : Fresh h₀) (hrun : Replayed h₀ h) :
    (∀ v, h₀.source = some v → h.source = some v ∧ h.destination = none ∨
      h.source = none ∧ h.destination = some v) ∧
    (h₀.source = none → h.source = none ∧ h.destination = none) ∧
    ∀ r t, Finishes act (preserveTransactionDockerVolumes h.journal) h r t →
      (r = .ok () →
        (∀ v, h₀.source = some v → t.source = none ∧ t.destination = some v ∧
          t.journal.docker.volumesPreserved = true ∧ t.journal.docker.volumesPreservationPath =
            some (recoveredVolumes t.journal.transactionId)) ∧
        (h₀.source = none → t.journal.docker.volumesPreservationStarted = true ∧
          t.journal.docker.volumesPreservationPath = none ∧
          t.journal.docker.volumesPreserved = false)) ∧
      r ≠ .error lostBoth ∧ r ≠ .error conflicting := by
  cases hsource : h₀.source with
  | some v =>
    have hkept : Kept v h := hrun.invariant
      (.inl ⟨hsource, hfresh.destination, hfresh.started, hfresh.path, hfresh.preserved⟩)
      fun _ => settles_preserve
    refine ⟨fun w hw => ?_, fun hnone => (by cases hnone), fun r t hr => ?_⟩
    · obtain rfl := Option.some.inj hw
      rcases hkept with hwaiting | hnoted | hmoved
      · exact .inl ⟨hwaiting.1, hwaiting.2.1⟩
      · exact .inl ⟨hnoted.1, hnoted.2.1⟩
      · exact .inr ⟨hmoved.1, hmoved.2.1⟩
    · obtain ⟨hok, herror⟩ := (settles_preserve hkept).finish hr
      refine ⟨fun hreturns => ⟨fun w hw => ?_, fun hnone => (by cases hnone)⟩,
        fun he => (herror _ he).1 rfl, fun he => (herror _ he).2 rfl⟩
      obtain rfl := Option.some.inj hw
      obtain ⟨hmoved, hpreserved⟩ := hok () hreturns
      exact ⟨hmoved.1, hmoved.2.1, hpreserved, hmoved.2.2.2⟩
  | none =>
    have habsent : Absent h := hrun.invariant
      ⟨hsource, hfresh.destination, hfresh.path, hfresh.preserved⟩ fun _ => settles_preserve_absent
    refine ⟨fun w hw => (by cases hw), fun _ => ⟨habsent.1, habsent.2.1⟩, fun r t hr => ?_⟩
    obtain ⟨hok, herror⟩ := (settles_preserve_absent habsent).finish hr
    refine ⟨fun hreturns => ⟨fun w hw => (by cases hw), fun _ => ?_⟩,
      fun he => (herror _ he).1 rfl, fun he => (herror _ he).2 rfl⟩
    obtain ⟨ht, hstarted⟩ := hok () hreturns
    exact ⟨hstarted, ht.2.2.1, ht.2.2.2⟩

namespace Killed

def directory : Metadata :=
  ⟨.directory, 0, 0, 0o700⟩

def host : Host ℕ where
  journal :=
    { transactionId := "tx-1", releaseId := "r1", backupPath := "/backups/tx-1"
      managedPathsExisting := [], serviceState := [], hermesSourceArchiveSha256 := "" }
  source := some ⟨directory, 7⟩
  root := none
  recovered := none
  destination := none

def call (h : Host ℕ) : Preserve Unit :=
  preserveTransactionDockerVolumes h.journal

/-- The host after a call that is killed when the archive is there and the journal does not say
it. -/
def killed : Host ℕ :=
  stopAfter act (call host) (List.replicate 24 {}) host

def after : Host ℕ :=
  stopAfter act (call killed) (List.replicate 8 {}) killed

/-- A call is killed after the rename, and the next one recognises the archive. -/
theorem volumes_kept_killed : killed.source = none ∧ killed.destination = some ⟨directory, 7⟩ ∧
    killed.journal.docker.volumesPreserved = false ∧
    after.journal.docker.volumesPreserved = true := by
  have hkilled : Replayed host killed := .stop .start (List.replicate 24 {})
  have hfresh : Fresh host := ⟨rfl, rfl, rfl, rfl⟩
  have hplay : play act (call killed) (List.replicate 8 {}) killed = some (.ok (), after) := rfl
  have hkept := volumes_kept hfresh hkilled
  exact ⟨rfl, rfl, rfl, ((hkept.2.2 _ _ (finishes_of_play hplay)).1 rfl).1 _ rfl |>.2.2.1⟩

end Killed

end OpsVolumes
