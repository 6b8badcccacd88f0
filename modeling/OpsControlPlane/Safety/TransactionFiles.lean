import OpsControlPlane.Deploy.Staging
import OpsControlPlane.Lib.Undisturbed

/-!
# Files published over crashes

Wherever a call is killed the path holds the file or what it held before, and the slot what it held
before or what may be a part of the file (`Held`). So the next call goes on from there, and a file
that is not its own is not touched (`publication_survives`). A slot that may be a part of
the file is removed whatever it holds, and a mode that others may write with leaves a slot that is
refused: `Foreign.publication_differs`.
-/

namespace OpsStaging

open Calls Prog

/-! ## What the two names hold -/

section held

variable (payload : Bytes) (mode : Mode) (h₀ : Host)

/-- What a call removes or publishes. -/
def Own (f : File) : Prop :=
  Exact payload mode f ∨ Attributable payload f

/-- The names before the first call. -/
structure Good (h : Host) : Prop where
  path : ∀ f ∈ h.path, Exact payload mode f
  staging : ∀ f ∈ h.staging, Own payload mode f

def PathHeld (h : Host) : Prop :=
  h.path = h₀.path ∨ h₀.path = none ∧ ∀ f ∈ h.path, Exact payload mode f

/-- Others may not write with the mode, and new files get the group root. -/
structure Reviewed : Prop where
  mode_private : mode &&& 0o022 = 0
  gid_root : h₀.gid = 0

def StagingHeld (h : Host) : Prop :=
  h.staging = h₀.staging ∨ (∀ f ∈ h₀.staging, Own payload mode f) ∧
    ∀ f ∈ h.staging, Reviewed mode h₀ → Attributable payload f

/-- The names wherever a call stops. -/
structure Held (h : Host) : Prop where
  gid : h.gid = h₀.gid
  path : PathHeld payload mode h₀ h
  staging : StagingHeld payload mode h₀ h

/-- The names when a call returns. -/
def Published (h : Host) : Prop :=
  (∃ f, h.path = some f ∧ Exact payload mode f) ∧ h.staging = none

end held

variable {payload : Bytes} {mode : Mode} {h₀ h s t : Host} {f : File}

theorem Held.not_good_of_path (hs : Held payload mode h₀ s) (hf : s.path = some f)
    (hdiffers : ¬Exact payload mode f) : ¬(Reviewed mode h₀ ∧ Good payload mode h₀) := by
  rintro ⟨-, hgood⟩
  rcases hs.path with heq | ⟨-, hexact⟩
  · exact hdiffers (hgood.path f (heq ▸ hf))
  · exact hdiffers (hexact f hf)

theorem Held.not_good_of_staging (hs : Held payload mode h₀ s) (hf : s.staging = some f)
    (hdiffers : ¬Own payload mode f) : ¬(Reviewed mode h₀ ∧ Good payload mode h₀) := by
  rintro ⟨hreviewed, hgood⟩
  rcases hs.staging with heq | ⟨-, hattributable⟩
  · exact hdiffers (hgood.staging f (heq ▸ hf))
  · exact hdiffers (.inr (hattributable f hf hreviewed))

theorem Held.own (hs : Held payload mode h₀ s) (hf : s.staging = some f)
    (hown : Own payload mode f) : ∀ f ∈ h₀.staging, Own payload mode f := by
  rcases hs.staging with heq | ⟨hall, -⟩
  · rw [← heq, hf]
    exact fun f' hf' => Option.some.inj hf' ▸ hown
  · exact hall

theorem Held.unlinked (hs : Held payload mode h₀ s) (hf : s.staging = some f)
    (hown : Own payload mode f) : Held payload mode h₀ { s with staging := none } :=
  ⟨hs.gid, hs.path, .inr ⟨hs.own hf hown, fun _ h => absurd h (Option.not_mem_none _)⟩⟩

theorem Held.replaced (hs : Held payload mode h₀ s) (hpath : s.path = none)
    (hf : s.staging = some f) (hexact : Exact payload mode f) :
    Held payload mode h₀ { s with path := some f, staging := none } := by
  refine ⟨hs.gid, .inr ⟨?_, fun f' hf' => Option.some.inj hf' ▸ hexact⟩,
    (hs.unlinked hf (.inl hexact)).staging⟩
  rcases hs.path with heq | ⟨hfree, -⟩
  · exact heq ▸ hpath
  · exact hfree

theorem Held.own_of_free (hs : Held payload mode h₀ s) (hfree : s.staging = none) :
    ∀ f ∈ h₀.staging, Own payload mode f := by
  rcases hs.staging with heq | ⟨hall, -⟩
  · rw [← heq, hfree]
    exact fun _ h => absurd h (Option.not_mem_none _)
  · exact hall

theorem Held.changed (hs : Held payload mode h₀ s) (hown : ∀ f ∈ h₀.staging, Own payload mode f)
    (hf : Reviewed mode h₀ → Attributable payload f) :
    Held payload mode h₀ { s with staging := some f } :=
  ⟨hs.gid, hs.path, .inr ⟨hown, fun _ h => Option.some.inj h ▸ hf⟩⟩

/-! ## Operations -/

section rules

variable {C : Host → Prop} {E : Fault → Prop} {β : Type}

theorem settles_act {o : Op} {R : o.Reply → Host → Prop} (hC : C s)
    (h : ∀ x, ∃ a t, act o x s = (.ok a, t) ∧ C t ∧ R a t) : Settles act C E (op o) R s := by
  refine settles_op hC fun x => ?_
  obtain ⟨a, t, heq, hCt, hR⟩ := h x
  rw [heq]
  exact ⟨hCt, fun b hb => Except.ok.inj hb ▸ hR, fun e he => by cases he⟩

variable {slot : Slot}

theorem settles_lexists {R : Bool → Host → Prop} (hC : C s) (hR : R (s.file slot).isSome s) :
    Settles act C E (lexists slot) R s :=
  settles_act hC fun _ => ⟨_, _, rfl, hC, hR⟩

variable {R : Unit → Host → Prop} {fault : Fault}

theorem settles_refuse {c : Prop} [Decidable c] (hC : C s) (hE : c → E fault) (hR : ¬c → R () s) :
    Settles act C E (refuse c fault) R s :=
  settles_ite (fun hc => settles_fail hC (hE hc)) fun hc => settles_pure hC (hR hc)

theorem settles_unavailable {p : Publish β} {R : β → Host → Prop} {D : Fault → Prop}
    (hE : ∀ e t, C t → D e → E fault) (hp : Settles act C D p R s) :
    Settles act C E (unavailable fault p) R s := by
  refine settles_bind ?_
  refine settles_attempt (hp.mono fun a t hC hR => ?_) fun e t hC he => ?_
  · exact settles_pure hC hR
  · exact settles_fail hC (hE e t hC he)

theorem settles_lstat {f : File} {R : File → Host → Prop} (hf : s.file slot = some f) (hC : C s)
    (hR : R f s) : Settles act C E (unavailable fault (lstat slot)) R s := by
  refine settles_unavailable (D := fun _ => False) (fun _ _ _ h => h.elim) ?_
  refine settles_act hC fun _ => ⟨f, s, ?_, hC, hR⟩
  rw [act, hf]
  rfl

theorem settles_validateExact {f : File} (hf : s.file slot = some f) (hC : C s)
    (hE : ¬Exact payload mode f → ∀ message, E (writeFailed message))
    (hR : Exact payload mode f → R () s) :
    Settles act C E (validateExact payload mode slot) R s := by
  refine settles_bind (settles_lstat hf hC ?_)
  by_cases hdirectory : f.kind = .directory
  · have hdiffers : ¬Exact payload mode f := fun h => by
      cases hdirectory.symm.trans h.1
    refine settles_bind (settles_unavailable (D := fun _ => True) (fun _ _ _ _ => hE hdiffers _) ?_)
    refine settles_op hC fun x => ?_
    rw [act, hf]
    simp only [if_pos hdirectory]
    exact ⟨hC, fun a ha => (by cases ha), fun _ _ => trivial⟩
  · refine settles_bind (settles_unavailable (D := fun _ => False) (fun _ _ _ h => h.elim) ?_)
    refine settles_act hC fun _ => ⟨f.content, s, ?_, hC, ?_⟩
    · rw [act, hf]
      simp only [if_neg hdirectory]
    · exact settles_refuse hC (fun h => hE h _) fun h => hR (not_not.1 h)

end rules

/-! ## Parts of a call -/

def partialFile (mode : Mode) (content : Bytes) : File :=
  ⟨.regular, 0, 0, mode, 1, content⟩

theorem attributable_partialFile {m : Mode} (hm : m &&& 0o022 = 0) {content : Bytes}
    (hlength : content.length ≤ payload.length) : Attributable payload (partialFile m content) :=
  ⟨rfl, rfl, rfl, rfl, hm, hlength⟩

theorem attributable_created {m : Mode} (hm : m &&& 0o022 = 0) {gid : ℕ} (hgid : gid = 0) :
    Attributable payload { partialFile m [] with gid := gid } :=
  ⟨rfl, rfl, hgid, rfl, hm, Nat.zero_le _⟩

theorem masked {m : Mode} (hm : m &&& 0o022 = 0) (umask : Mode) :
    m &&& ~~~umask &&& 0o022 = 0 := by
  rw [BitVec.and_assoc, BitVec.and_comm (~~~umask), ← BitVec.and_assoc, hm]
  exact BitVec.zero_and

section parts

variable {E : Fault → Prop}

theorem settles_unlink {f : File} (hs : Held payload mode h₀ s) (hf : s.staging = some f)
    (hown : Own payload mode f) :
    Settles act (Held payload mode h₀) E unlink
      (fun _ t => Held payload mode h₀ t ∧ t = { s with staging := none }) s := by
  have hkind : f.kind ≠ .directory := by
    rcases hown with hown | hown <;> rw [hown.1] <;> decide
  refine settles_act hs fun _ => ⟨(), _, ?_, hs.unlinked hf hown, hs.unlinked hf hown, rfl⟩
  rw [act, hf]
  exact if_neg hkind

theorem settles_replace {f : File} (hs : Held payload mode h₀ s) (hpath : s.path = none)
    (hf : s.staging = some f) (hexact : Exact payload mode f) :
    Settles act (Held payload mode h₀) E (replace >>= fun _ => fsyncDirectory)
      (fun _ t => Published payload mode t) s := by
  have hheld := hs.replaced hpath hf hexact
  refine settles_bind (settles_act hs fun _ => ⟨(), _, ?_, hheld, ?_⟩)
  · rw [act, hf]
  · exact settles_act hheld fun _ => ⟨(), _, rfl, hheld, ⟨f, rfl, hexact⟩, rfl⟩

/-- The loop writes the rest of the file. -/
theorem settles_writeAll (hown : ∀ f ∈ h₀.staging, Own payload mode f) {fuel : ℕ}
    {done view : Bytes}
    (hview : done ++ view = payload) (hfuel : view.length ≤ fuel)
    (hs : Held payload mode h₀ s) (hf : s.staging = some (partialFile mode done)) :
    Settles act (Held payload mode h₀) E (writeAll fuel view)
      (fun _ t => t.path = s.path ∧ t.staging = some (partialFile mode payload)) s := by
  induction fuel generalizing s done view with
  | zero =>
    obtain rfl := List.length_eq_zero_iff.1 (Nat.le_zero.1 hfuel)
    rw [List.append_nil] at hview
    exact settles_pure hs ⟨rfl, hview ▸ hf⟩
  | succ fuel ih =>
    refine settles_ite (fun hnil => ?_) fun hne => ?_
    · rw [hnil, List.append_nil] at hview
      exact settles_pure hs ⟨rfl, hview ▸ hf⟩
    · have hpos : 0 < view.length := List.length_pos_iff.2 hne
      refine settles_bind (settles_act hs fun x => ?_)
      -- what this call of `os.write` takes
      have hcount : 0 < x.count view ∧ x.count view ≤ view.length := by
        unfold Choice.count
        omega
      have hsplit : (done ++ view.take (x.count view)) ++ view.drop (x.count view) = payload := by
        rw [List.append_assoc, List.take_append_drop, hview]
      have hlength : (done ++ view.take (x.count view)).length ≤ payload.length := by
        have hlengths := congrArg List.length hsplit
        rw [List.length_append] at hlengths
        omega
      have hheld := hs.changed hown fun h => attributable_partialFile h.mode_private hlength
      refine ⟨x.count view, _, ?_, hheld, ?_⟩
      · rw [act, Host.modify, hf]
        rfl
      · refine settles_bind (settles_refuse hheld (fun h => absurd h (by omega)) fun _ => ?_)
        exact ih hsplit (by rw [List.length_drop]; omega) hheld rfl

/-- The slot is free: the file is published if the path is free too. -/
theorem settles_publish (hs : Held payload mode h₀ s) (hf : s.staging = none)
    (hE : ¬(Reviewed mode h₀ ∧ Good payload mode h₀) → ∀ e, E e) :
    Settles act (Held payload mode h₀) E (publish payload mode)
      (fun _ t => Published payload mode t) s := by
  refine settles_bind (settles_lexists hs ?_)
  cases hpath : s.path with
  | some f =>
    rw [Host.file, hpath]
    refine settles_validateExact hpath hs (fun h _ => hE (hs.not_good_of_path hpath h) _)
      fun hexact => ⟨⟨f, hpath, hexact⟩, hf⟩
  | none =>
    rw [Host.file, hpath]
    -- a new file, then its owner, its mode and its content
    have hown := hs.own_of_free hf
    have hopen : ∀ x : Choice, Held payload mode h₀ { s with
        staging := some { partialFile (mode &&& ~~~x.umask) [] with gid := s.gid } } := fun x =>
      hs.changed hown fun h => attributable_created (masked h.mode_private x.umask)
        (hs.gid.trans h.gid_root)
    have hempty : ∀ m : Mode, (m = mode ∨ ∃ umask, m = mode &&& ~~~umask) → Reviewed mode h₀ →
        Attributable payload (partialFile m []) := by
      rintro m (rfl | ⟨umask, rfl⟩) h
      · exact attributable_partialFile h.mode_private (Nat.zero_le _)
      · exact attributable_partialFile (masked h.mode_private umask) (Nat.zero_le _)
    refine Settles.then (R := fun _ t => ∃ umask : Mode, t = { s with
      staging := some { partialFile (mode &&& ~~~umask) [] with gid := s.gid } })
      (settles_act hs fun x => ?_) ?_
    · refine ⟨(), _, ?_, hopen x, x.umask, rfl⟩
      rw [act, hf]
      rfl
    rintro _ _ hheld ⟨umask, rfl⟩
    have howned := hs.changed hown (hempty _ (.inr ⟨umask, rfl⟩))
    refine settles_bind (settles_act hheld fun _ => ⟨(), _, rfl, howned, ?_⟩)
    have hchanged := hs.changed hown (hempty _ (.inl rfl))
    refine settles_bind (settles_act howned fun _ => ⟨(), _, rfl, hchanged, ?_⟩)
    refine Settles.then (settles_writeAll hown (List.nil_append payload) le_rfl hchanged rfl)
      fun _ t ht hwritten => ?_
    refine settles_bind (settles_act ht fun _ => ⟨(), _, rfl, ht, ?_⟩)
    exact settles_replace ht (hwritten.1.trans hpath) hwritten.2 ⟨rfl, rfl, rfl, rfl, rfl⟩

end parts

/-! ## A call -/

section call

variable {path staging : Path} {E : Fault → Prop}

/-- A call publishes the file. It raises only if the names held something else at first. -/
theorem settles_transactionAtomicBytes (hnames : staging.parent = path.parent ∧ staging ≠ path)
    (hs : Held payload mode h₀ s) (hE : ¬(Reviewed mode h₀ ∧ Good payload mode h₀) → ∀ e, E e) :
    Settles act (Held payload mode h₀) E (transactionAtomicBytes path staging payload mode)
      (fun _ t => Published payload mode t) s := by
  refine settles_bind (settles_refuse hs (fun h => ?_) fun _ => ?_)
  · exact absurd h (not_or.2 ⟨not_not.2 hnames.1, hnames.2⟩)
  refine settles_bind (settles_act hs fun _ => ⟨(), s, rfl, hs, ?_⟩)
  refine settles_bind (settles_lexists hs ?_)
  rw [Host.file]
  cases hf : s.staging with
  | none => exact settles_publish hs hf hE
  | some f =>
    -- the comparison changes nothing
    have hcompared : Settles act (fun t => t = s) E (attempt (validateExact payload mode .staging))
        (fun r _ => (r = .ok () ∧ Exact payload mode f) ∨
          ∃ fault, r = .error fault ∧ ¬Exact payload mode f) s := by
      refine settles_attempt (D := fun _ => ¬Exact payload mode f)
        (settles_validateExact (f := f) hf rfl (fun h _ => h) fun hexact => .inl ⟨rfl, hexact⟩) ?_
      exact fun e _ _ hdiffers => .inr ⟨e, rfl, hdiffers⟩
    refine Settles.then (hcompared.weaken fun t ht => ht ▸ hs) fun r t _ hr => ?_
    obtain ⟨rfl, ⟨rfl, hexact⟩ | ⟨fault, rfl, hdiffers⟩⟩ := hr
    · -- the slot holds the file
      refine settles_bind (settles_lexists hs ?_)
      rw [Host.file]
      cases hpath : t.path with
      | none => exact settles_replace hs hpath hf hexact
      | some f' =>
        refine settles_bind (settles_validateExact (f := f') hpath hs
          (fun h _ => hE (hs.not_good_of_path hpath h) _) fun hexact' => ?_)
        refine (settles_unlink hs hf (.inl hexact)).then fun _ t ht h => ?_
        obtain ⟨-, rfl⟩ := h
        exact settles_act ht fun _ => ⟨(), _, rfl, ht, ⟨f', hpath, hexact'⟩, rfl⟩
    · -- it does not, and is removed if it may be a part of the file
      refine Settles.then (R := fun _ t' => Held payload mode h₀ t' ∧ t'.staging = none) ?_
        fun _ t' ht' h => settles_publish ht' h.2 hE
      refine settles_bind (settles_lstat (f := f) hf hs ?_)
      refine settles_bind (settles_refuse hs (fun h => ?_) fun h => ?_)
      · exact hE (hs.not_good_of_staging hf (not_or.2 ⟨hdiffers, h⟩)) _
      · refine (settles_unlink hs hf (.inr (not_not.1 h))).then fun _ t ht h => ?_
        obtain ⟨-, rfl⟩ := h
        exact settles_act ht fun _ => ⟨(), _, rfl, ht, ht, rfl⟩

theorem settles_removeStaging (hs : Held payload mode h₀ s) (hreviewed : Reviewed mode h₀)
    (hattributable : ∀ f ∈ h₀.staging, Attributable payload f) :
    Settles act (Held payload mode h₀) E (removeAttributableTransactionStaging payload)
      (fun _ t => t.staging = none) s := by
  refine settles_bind (settles_lexists hs ?_)
  rw [Host.file]
  cases hf : s.staging with
  | none => exact settles_pure hs hf
  | some f =>
    have hown : Attributable payload f := by
      rcases hs.staging with heq | ⟨-, hall⟩
      · exact hattributable f (heq ▸ hf)
      · exact hall f hf hreviewed
    refine settles_bind (settles_lstat (f := f) hf hs ?_)
    refine settles_bind (settles_refuse hs (fun h => absurd hown h) fun _ => ?_)
    refine (settles_unlink hs hf (.inr hown)).then fun _ t ht h => ?_
    obtain ⟨-, rfl⟩ := h
    exact settles_act ht fun _ => ⟨(), _, rfl, ht, rfl⟩

end call

/-! ## Any number of calls -/

/-- The call is made some times with the same arguments, and stops anywhere. -/
inductive Replayed (call : Publish Unit) (h₀ : Host) : Host → Prop
  | start : Replayed call h₀ h₀
  | call {h t : Host} (hrun : Replayed call h₀ h) (hstop : Reaches act call h t) :
    Replayed call h₀ t

/-- A file at the path stays, and a file that is put there is the one to publish. A slot that is not
the call's own stays. A call that returns has published the file. With a reviewed mode and
directory, if nothing else was at the two names at first, each call returns, and the slot can be
removed. -/
theorem publication_survives {path staging : Path} (hnames : staging.parent = path.parent ∧
      staging ≠ path) (hrun : Replayed (transactionAtomicBytes path staging payload mode) h₀ h) :
    (∀ f, h₀.path = some f → h.path = some f) ∧
    (h₀.path = none → ∀ f, h.path = some f → Exact payload mode f) ∧
    (∀ f, h₀.staging = some f → ¬Own payload mode f → h.staging = some f) ∧
    (∀ r t, Finishes act (transactionAtomicBytes path staging payload mode) h r t →
      (r = .ok () → Published payload mode t) ∧
      (Reviewed mode h₀ ∧ Good payload mode h₀ → r = .ok ())) ∧
    (Reviewed mode h₀ → (∀ f ∈ h₀.staging, Attributable payload f) → ∀ r t,
      Finishes act (removeAttributableTransactionStaging payload) h r t →
        r = .ok () ∧ t.staging = none) := by
  have hcall : ∀ s, Held payload mode h₀ s → Settles act (Held payload mode h₀)
      (fun _ => ¬(Reviewed mode h₀ ∧ Good payload mode h₀))
      (transactionAtomicBytes path staging payload mode)
      (fun _ t => Published payload mode t) s := fun s hs =>
    settles_transactionAtomicBytes hnames hs fun hbad _ => hbad
  have hheld : Held payload mode h₀ h := by
    induction hrun with
    | start => exact ⟨rfl, .inl rfl, .inl rfl⟩
    | call _ hstop ih => exact (hcall _ ih).crash hstop
  refine ⟨fun f hf => ?_, fun hnone f hf => ?_, fun f hf hforeign => ?_, fun r t hr => ?_,
    fun hreviewed hattributable r t hr => ?_⟩
  · rcases hheld.path with heq | ⟨hnone, -⟩
    · exact heq.trans hf
    · cases hnone.symm.trans hf
  · rcases hheld.path with heq | ⟨-, hexact⟩
    · cases (heq.trans hnone).symm.trans hf
    · exact hexact f hf
  · rcases hheld.staging with heq | ⟨hown, -⟩
    · exact heq.trans hf
    · exact absurd (hown f hf) hforeign
  · obtain ⟨hok, herror⟩ := (hcall h hheld).finish hr
    refine ⟨fun hreturns => hok () hreturns, fun hgood => ?_⟩
    cases r with
    | ok _ => rfl
    | error e => exact absurd hgood (herror e rfl)
  · obtain ⟨hok, herror⟩ :=
      (settles_removeStaging (E := fun _ => False) hheld hreviewed hattributable).finish hr
    cases r with
    | ok _ => exact ⟨rfl, hok () rfl⟩
    | error e => exact (herror e rfl).elim

namespace Foreign

def target : Path :=
  ⟨"/etc/docker", "daemon.json"⟩

def slot : Path :=
  ⟨"/etc/docker", ".daemon.json.staging"⟩

def call (mode : Mode) : Publish Unit :=
  transactionAtomicBytes target slot [1, 2, 3] mode

/-- An empty directory whose files have this group. -/
def empty (gid : ℕ) : Host :=
  ⟨none, none, gid⟩

/-- A file of root in the slot that is no part of the file. -/
def occupied : Host :=
  ⟨none, some (partialFile 0o600 [9]), 0⟩

/-- A call that is killed after some operations. -/
def killed (mode : Mode) (gid n : ℕ) : Host :=
  stopAfter act (call mode) (List.replicate n {}) (empty gid)

/-- A foreign file of the slot is removed. A call with a mode that others may write with, or in a
directory that gives its files another group, leaves a slot that neither the next call nor the
rollback takes. -/
theorem publication_differs :
    (∃ t, Finishes act (call 0o644) occupied (.ok ()) t ∧
      ¬[9] <+: ([1, 2, 3] : Bytes) ∧ t.path = some (partialFile 0o644 [1, 2, 3])) ∧
    (Replayed (call 0o666) (empty 0) (killed 0o666 0 6) ∧
      Finishes act (call 0o666) (killed 0o666 0 6)
        (.error (writeFailed "transaction file differs from review")) (killed 0o666 0 6) ∧
      Finishes act (removeAttributableTransactionStaging [1, 2, 3]) (killed 0o666 0 6)
        (.error (rollbackFailed "transaction staging file is unsafe")) (killed 0o666 0 6)) ∧
    Replayed (call 0o644) (empty 5) (killed 0o644 5 4) ∧
      Finishes act (call 0o644) (killed 0o644 5 4)
        (.error (writeFailed "transaction file differs from review")) (killed 0o644 5 4) := by
  have hplay : ∀ {p : Publish Unit} {s t : Host} {r : Except Fault Unit},
      play act p (List.replicate 20 {}) s = some (r, t) → Finishes act p s r t :=
    fun h => finishes_of_play h
  refine ⟨⟨⟨some (partialFile 0o644 [1, 2, 3]), none, 0⟩, hplay rfl, by decide, rfl⟩,
    ⟨.call .start (reaches_stopAfter _ _ _), hplay rfl, hplay rfl⟩,
    .call .start (reaches_stopAfter _ _ _), hplay rfl⟩

/-- A call is killed while it writes, and the next one publishes the file. -/
theorem publication_survives_killed : (killed 0o644 0 8).staging = some (partialFile 0o644 [1, 2]) ∧
    ∀ r t, Finishes act (call 0o644) (killed 0o644 0 8) r t →
      r = .ok () ∧ Published [1, 2, 3] 0o644 t := by
  have hrun : Replayed (call 0o644) (empty 0) (killed 0o644 0 8) :=
    .call .start (reaches_stopAfter _ _ _)
  have hgood : Good [1, 2, 3] 0o644 (empty 0) :=
    ⟨fun _ h => absurd h (Option.not_mem_none _), fun _ h => absurd h (Option.not_mem_none _)⟩
  have hnames : slot.parent = target.parent ∧ slot ≠ target := ⟨rfl, by decide⟩
  refine ⟨rfl, fun r t hr => ?_⟩
  obtain ⟨hpublished, hreturns⟩ :=
    (publication_survives hnames hrun).2.2.2.1 r t hr
  have hok := hreturns ⟨⟨by decide, rfl⟩, hgood⟩
  exact ⟨hok, hpublished hok⟩

end Foreign

end OpsStaging
