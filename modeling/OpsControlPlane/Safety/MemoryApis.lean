import OpsControlPlane.Memory.Secrets

/-!
# The memory APIs converge

`Safe` holds wherever a call stops: the service has what is on the disk and the digests are those of
the credentials, unless a file is left that the service has not loaded. The rule of each part says
what it leaves when it returns, and `activated` is the result over runs. `stale_credential` is a
run in which a call is killed between the digest of a new credential and the restart.
-/

namespace OpsMemoryApi

open Calls Prog

variable {α β : Type} {h t : Host} {sha256 : String → String}

/-! ## Values for both providers -/

@[simp] theorem of_set_self (b : Both α) (a : α) (p : Provider) : (b.set a p).of p = a := by
  cases p <;> rfl

theorem of_set_ne (b : Both α) (a : α) {p q : Provider} (hne : q ≠ p) :
    (b.set a p).of q = b.of q := by
  cases p <;> cases q <;> first | rfl | exact absurd rfl hne

@[simp] theorem set_of (b : Both α) (p : Provider) : b.set (b.of p) p = b := by
  cases p <;> rfl

/-! ## Operations -/

theorem write_self (s : Served ServiceFiles) : s.write s.disk = s := by
  unfold Served.write
  rw [decide_eq_false (not_not.2 rfl), Bool.or_false]

/-- The host after an operation that raises. -/
def SecretOp.failed (o : SecretOp) (x : SecretChoice) (h : Host) : Host :=
  if o = .restart then h.restarted x.starts else h

section rules

variable {C : Host → Prop} {Q : Except Unit β → Host → Prop} {o : SecretOp}

theorem wp_ask {Q : Except Unit o.Reply → Host → Prop} (hC : C h)
    (hok : ∀ x, C (act o x h).2 ∧ Q (act o x h).1 (act o x h).2) : Wp act C (call o) Q h :=
  ⟨hC, fun x => wp_ofExcept (hok x).1 (hok x).2⟩

variable {f : o.Reply → SecretProg β}

theorem wp_call (hC : C h)
    (herr : ∀ x, o.external = true → C (o.failed x h) ∧ Q (.error ()) (o.failed x h))
    (hok : ∀ x, Wp act C (f (o.run x h).1) Q (o.run x h).2) : Wp act C (call o >>= f) Q h := by
  refine wp_bind (wp_ask hC fun x => ?_)
  by_cases hraises : x.raises = true ∧ o.external = true
  · rw [act, if_pos hraises]
    exact herr x hraises.2
  · rw [act, if_neg hraises]
    exact ⟨(hok x).here, hok x⟩

theorem wp_branch {C : Host → Prop} {Q : Except Unit β → Host → Prop} {b : Bool}
    {p q : SecretProg β} (hp : b = true → Wp act C p Q h) (hq : b = false → Wp act C q Q h) :
    Wp act C (if b then p else q) Q h := by
  cases b with
  | true => exact hp rfl
  | false => exact hq rfl

theorem wp_file (ho : o.external = false) (hC : C h)
    (hok : ∀ x, Wp act C (f (o.run x h).1) Q (o.run x h).2) : Wp act C (call o >>= f) Q h :=
  wp_call hC (fun _ he => absurd (ho.symm.trans he) Bool.false_ne_true) hok

end rules

/-! ## What holds wherever a call stops -/

/-- Unless a file is left that the service has not loaded, all is in order. -/
def Safe (sha256 : String → String) (h : Host) : Prop :=
  h.service.InStep ∧ (h.service.unapplied = false → h.Tidy sha256)

theorem safe_of_tidy (hs : h.service.InStep) (ht : h.Tidy sha256) : Safe sha256 h :=
  ⟨hs, fun _ => ht⟩

theorem inStep_restarted (hs : h.service.InStep) (started : Bool) :
    (h.restarted started).service.InStep := by
  cases started with
  | false => exact hs
  | true => exact Served.inStep_restart _

theorem tidy_restarted (ht : h.Tidy sha256) (started : Bool) :
    (h.restarted started).Tidy sha256 := by
  cases started <;> exact ht

@[simp] theorem disk_restarted (h : Host) (started : Bool) :
    (h.restarted started).service.disk = h.service.disk := by
  cases started <;> rfl

theorem current_restarted (h : Host) {started : Bool} (hs : started = true) :
    (h.restarted started).service.Current := by
  rw [hs]
  rfl

/-- What a part of a call leaves of the host, beside the credentials. -/
structure Frame (h t : Host) : Prop where
  vault : t.vault = h.vault
  config : t.service.disk.config = h.service.disk.config
  restarts : t.restarts = h.restarts

theorem Frame.refl (h : Host) : Frame h h :=
  ⟨rfl, rfl, rfl⟩

/-! ## Credentials -/

/-- What is kept between the parts of a call. -/
structure Orderly (sha256 : String → String) (h t : Host) : Prop where
  inStep : t.service.InStep
  tidy : t.Tidy sha256
  frame : Frame h t

theorem Orderly.safe (ho : Orderly sha256 h t) : Safe sha256 t :=
  safe_of_tidy ho.inStep ho.tidy

def Installed (sha256 : String → String) (h : Host) (p : Provider) (key : String)
    (r : Except Unit Bool) (t : Host) : Prop :=
  Orderly sha256 h t ∧ match r with
    | .ok rotated => t.service.disk.stored = h.service.disk.stored.set (some key) p ∧
        (rotated = false → t.service = h.service)
    | .error _ => t.service = h.service

theorem tidy_replaced (ht : h.Tidy sha256) (p : Provider) (key : String) :
    Host.Tidy sha256 { h.write fun files =>
      { files with stored := files.stored.set (some key) p } with
      digests := h.digests.set (some (sha256 key)) p } := by
  intro q value hq
  change (h.digests.set (some (sha256 key)) p).of q = some value at hq
  change ∃ k, (h.service.disk.stored.set (some key) p).of q = some k ∧ sha256 k = value
  by_cases hqp : q = p
  · subst hqp
    rw [of_set_self] at hq ⊢
    exact ⟨key, rfl, Option.some.inj hq⟩
  · rw [of_set_ne _ _ hqp] at hq ⊢
    exact ht q value hq

/-- Until the digest is written the new credential is marked as not loaded. -/
theorem safe_replaced (hs : h.service.InStep) (ht : h.Tidy sha256) (p : Provider) (key : String) :
    Safe sha256
      (h.write fun files => { files with stored := files.stored.set (some key) p }) := by
  refine ⟨hs.write _, fun hu => ?_⟩
  obtain ⟨-, hsame⟩ := Bool.or_eq_false_iff.1 hu
  have hfiles : { h.service.disk with stored := h.service.disk.stored.set (some key) p } =
      h.service.disk := not_not.1 (of_decide_eq_false hsame)
  intro q value hq
  change ∃ k, (ServiceFiles.stored { h.service.disk with
    stored := h.service.disk.stored.set (some key) p }).of q = some k ∧ sha256 k = value
  rw [hfiles]
  exact ht q value hq

theorem wp_replaceCredential (hs : h.service.InStep) (ht : h.Tidy sha256) (p : Provider)
    (key : String) : Wp act (Safe sha256) (replaceCredential sha256 p key) (fun r t =>
      Orderly sha256 h t ∧ match r with
        | .ok _ => t.service.disk.stored = h.service.disk.stored.set (some key) p
        | .error _ => t.service = h.service) h := by
  have horderly : Orderly sha256 h h := ⟨hs, ht, .refl h⟩
  refine wp_call horderly.safe (fun x _ => ⟨horderly.safe, horderly, rfl⟩) fun x => ?_
  refine wp_file rfl horderly.safe fun x => ?_
  refine wp_ask (safe_replaced hs ht p key) fun x => ?_
  have htidy := tidy_replaced ht p key
  have hfinal : Orderly sha256 h _ := ⟨hs.write _, htidy, rfl, rfl, rfl⟩
  rw [act, if_neg fun hraises => Bool.false_ne_true hraises.2]
  exact ⟨hfinal.safe, hfinal, rfl⟩

theorem wp_install (hinjective : Function.Injective sha256) (hs : h.service.InStep)
    (ht : h.Tidy sha256) (p : Provider) (key : String) :
    Wp act (Safe sha256) (install sha256 p key) (Installed sha256 h p key) h := by
  have horderly : Orderly sha256 h h := ⟨hs, ht, .refl h⟩
  refine wp_file rfl horderly.safe fun x => ?_
  refine wp_file rfl horderly.safe fun x => ?_
  split_ifs with hsame
  · -- The digest is the one of the key, and so the credential is.
    obtain ⟨stored, hstored, hdigest⟩ := ht p _ hsame.1
    obtain rfl := hinjective hdigest
    refine wp_pure horderly.safe ⟨horderly, ?_, fun _ => rfl⟩
    change h.service.disk.stored = h.service.disk.stored.set (some stored) p
    rw [← hstored, set_of]
  · refine wp_file rfl horderly.safe fun x => wp_bind (wp_attempt ?_)
    refine (wp_replaceCredential hs ht p key).mono fun r t hsafe hr => ?_
    obtain ⟨ho, hr⟩ := hr
    cases r with
    | ok u => exact wp_pure hsafe ⟨ho, hr, fun htrue => by cases htrue⟩
    | error e =>
      refine wp_file rfl hsafe fun x => ?_
      have hservice : ((SecretOp.restore p (h.service.disk.stored.of p)).run x t).2.service =
          t.service := by
        change t.service.write { t.service.disk with
          stored := t.service.disk.stored.set (h.service.disk.stored.of p) p } = t.service
        rw [← show t.service = h.service from hr, set_of]
        exact write_self t.service
      have hrestored : Orderly sha256 h
          ((SecretOp.restore p (h.service.disk.stored.of p)).run x t).2 := by
        refine ⟨hservice ▸ ho.inStep, fun q value hq => ?_, ho.frame.vault, ?_, ho.frame.restarts⟩
        · rw [hservice]
          exact ho.tidy q value hq
        · rw [hservice]
          exact ho.frame.config
      exact wp_fail hrestored.safe ⟨hrestored, hservice.trans hr⟩

/-! ## Providers -/

/-- What the loop of `run` leaves for a provider. -/
def Provided (sha256 : String → String) (h : Host) (url : String) (p : Provider)
    (r : Except Unit (Bool × Bool)) (t : Host) : Prop :=
  Orderly sha256 h t ∧
    (∀ q, q ≠ p → t.service.disk.stored.of q = h.service.disk.stored.of q) ∧ match r with
      | .ok (ready, rotated) => (ready = true → ∃ ref, reference url = some ref ∧
          (h.vault ref).isSome ∧ t.service.disk.stored.of p = h.vault ref) ∧
          (rotated = false → t.service = h.service)
      | .error _ => t.service = h.service

theorem wp_resolve (hs : h.service.InStep) (ht : h.Tidy sha256) (ref : String) :
    Wp act (Safe sha256) (resolve ref) (fun r t => t = h ∧
      ∀ key, r = .ok (some key) → h.vault ref = some key) h := by
  have hsafe := safe_of_tidy hs ht
  refine wp_call hsafe (fun x _ => ⟨hsafe, rfl, fun key hr => by cases hr⟩) fun x => ?_
  have hvalue : ((SecretOp.fetch ref).run x h).1 = h.vault ref := rfl
  rw [hvalue]
  cases hvault : h.vault ref with
  | none => exact wp_pure hsafe ⟨rfl, fun key hr => by cases hr⟩
  | some key =>
    dsimp only
    split_ifs
    · refine wp_pure hsafe ⟨rfl, fun key' hr => ?_⟩
      rw [Option.some.inj (Except.ok.inj hr)]
    · exact wp_fail hsafe ⟨rfl, fun key' hr => by cases hr⟩

theorem wp_provide (hinjective : Function.Injective sha256) (hs : h.service.InStep)
    (ht : h.Tidy sha256) (url : String) (p : Provider) :
    Wp act (Safe sha256) (provide sha256 url p) (Provided sha256 h url p) h := by
  have horderly : Orderly sha256 h h := ⟨hs, ht, .refl h⟩
  unfold provide
  cases href : reference url with
  | none => exact wp_fail horderly.safe ⟨horderly, fun _ _ => rfl, rfl⟩
  | some ref =>
    refine wp_bind ((wp_resolve hs ht ref).mono fun r t hsafe hr => ?_)
    obtain ⟨rfl, hkey⟩ := hr
    cases r with
    | error e => exact ⟨horderly, fun _ _ => rfl, rfl⟩
    | ok value =>
      cases value with
      | none =>
        exact wp_pure hsafe
          ⟨horderly, fun _ _ => rfl, fun hready => (by cases hready), fun _ => rfl⟩
      | some key =>
        have hvault := hkey key rfl
        refine wp_bind ((wp_install hinjective hs ht p key).mono fun r u hsafe hr => ?_)
        obtain ⟨ho, hr⟩ := hr
        cases r with
        | error e => exact ⟨ho, fun q _ => by rw [hr], hr⟩
        | ok rotated =>
          obtain ⟨hstored, hsame⟩ := hr
          refine wp_pure hsafe ⟨ho, fun q hq => ?_, fun _ => ⟨ref, href, ?_, ?_⟩, hsame⟩
          · rw [hstored, of_set_ne _ _ hq]
          · rw [hvault]
            rfl
          · rw [hstored, of_set_self, hvault]

theorem wp_provideSafely (hinjective : Function.Injective sha256) (hs : h.service.InStep)
    (ht : h.Tidy sha256) (url : String) (p : Provider) :
    Wp act (Safe sha256) (provideSafely sha256 url p) (Provided sha256 h url p) h := by
  refine wp_bind (wp_attempt ((wp_provide hinjective hs ht url p).mono fun r t hsafe hr => ?_))
  cases r with
  | ok r => exact wp_pure hsafe hr
  | error e =>
    obtain ⟨ho, hothers, hsame⟩ := hr
    exact wp_pure hsafe ⟨ho, hothers, fun hready => (by cases hready), fun _ => hsame⟩

/-! ## The configuration -/

theorem wp_desiredTable {C : Host → Prop} (hC : C h) (managed : Option (Both Bool))
    (p : Provider) (table : ApiTable) : Wp act C (desiredTable managed p table) (fun r t => t = h ∧
      ∀ o, r = .ok o → o.1.url = table.url) h := by
  unfold desiredTable
  split_ifs
  · refine wp_file rfl hC fun x => ?_
    dsimp only
    split_ifs
    · exact wp_pure hC ⟨rfl, fun o ho => by rw [← Except.ok.inj ho]⟩
    · exact wp_pure hC ⟨rfl, fun o ho => by rw [← Except.ok.inj ho]; rfl⟩
  · exact wp_pure hC ⟨rfl, fun o ho => by rw [← Except.ok.inj ho]⟩

/-- The reconciler keeps the providers. -/
theorem wp_desired {C : Host → Prop} (hC : C h) (managed : Option (Both Bool))
    (config : Both ApiTable) : Wp act C (desired managed config) (fun r t => t = h ∧
      ∀ o, r = .ok o → ∀ p, (o.1.of p).url = (config.of p).url) h := by
  refine wp_bind ((wp_desiredTable hC managed .embedding config.embedding).mono
    fun r t _ hr => ?_)
  obtain ⟨rfl, hembedding⟩ := hr
  cases r with
  | error e => exact ⟨rfl, fun o ho => by cases ho⟩
  | ok first =>
    refine wp_bind ((wp_desiredTable hC managed .reranker config.reranker).mono
      fun r t _ hr => ?_)
    obtain ⟨rfl, hreranker⟩ := hr
    cases r with
    | error e => exact ⟨rfl, fun o ho => by cases ho⟩
    | ok second =>
      refine wp_pure hC ⟨rfl, fun o ho p => ?_⟩
      rw [← Except.ok.inj ho]
      cases p with
      | embedding => exact hembedding first rfl
      | reranker => exact hreranker second rfl

structure Reconciled (h : Host) (changed : Bool) (t : Host) : Prop where
  vault : t.vault = h.vault
  stored : t.service.disk.stored = h.service.disk.stored
  urls : ∀ p, (t.service.disk.config.of p).url = (h.service.disk.config.of p).url
  current : changed = true → t.service.Current
  same : changed = false → t = h

/-- The configuration is put back, and the call fails. -/
theorem wp_restored {config : Both ApiTable} {Q : Except Unit Bool → Host → Prop}
    (hs : h.service.InStep) (ht : h.Tidy sha256)
    (hQ : ∀ t, t.service.InStep → t.Tidy sha256 → Q (.error ()) t) :
    Wp act (Safe sha256) (call (.replaceConfig config) >>= fun _ =>
      call .restart >>= fun _ => (.fail () : SecretProg Bool)) Q h := by
  refine wp_file rfl (safe_of_tidy hs ht) fun x => ?_
  have hs' : (h.write fun files => { files with config := config }).service.InStep := hs.write _
  have ht' : (h.write fun files => { files with config := config }).Tidy sha256 := ht
  refine wp_call (safe_of_tidy hs' ht') (fun x _ => ?_) fun x => ?_
  · have hraised := inStep_restarted hs' x.starts
    have htidy := tidy_restarted ht' x.starts
    exact ⟨safe_of_tidy hraised htidy, hQ _ hraised htidy⟩
  · have hstarted := inStep_restarted hs' (x.succeeds || x.starts)
    have htidy := tidy_restarted ht' (x.succeeds || x.starts)
    exact wp_fail (safe_of_tidy hstarted htidy) (hQ _ hstarted htidy)

theorem wp_reconcile (hs : h.service.InStep) (ht : h.Tidy sha256) :
    Wp act (Safe sha256) reconcile (fun r t => t.service.InStep ∧ t.Tidy sha256 ∧
      ∀ changed, r = .ok changed → Reconciled h changed t) h := by
  have hsafe := safe_of_tidy hs ht
  refine wp_file rfl hsafe fun x => wp_file rfl hsafe fun x => wp_bind ?_
  refine (wp_desired hsafe _ _).mono fun r t _ hr => ?_
  obtain ⟨rfl, hurls⟩ := hr
  cases r with
  | error e => exact ⟨hs, ht, fun changed hr => by cases hr⟩
  | ok wanted =>
    obtain ⟨config, changed⟩ := wanted
    cases changed with
    | false =>
      refine wp_pure hsafe ⟨hs, ht, fun changed hr => ?_⟩
      obtain rfl := Except.ok.inj hr
      exact ⟨rfl, rfl, fun _ => rfl, fun htrue => (by cases htrue), fun _ => rfl⟩
    | true =>
      refine wp_call hsafe (fun x _ => ⟨hsafe, hs, ht, fun changed hr => by cases hr⟩) fun x => ?_
      refine wp_file rfl hsafe fun x => ?_
      have hs' : (t.write fun files => { files with config := config }).service.InStep :=
        hs.write _
      have ht' : (t.write fun files => { files with config := config }).Tidy sha256 := ht
      refine wp_call (safe_of_tidy hs' ht') (fun x _ => ?_) fun x => ?_
      · have hraised := inStep_restarted hs' x.starts
        have htidy := tidy_restarted ht' x.starts
        exact ⟨safe_of_tidy hraised htidy, hraised, htidy, fun changed hr => by cases hr⟩
      · have hstarted := inStep_restarted hs' (x.succeeds || x.starts)
        have htidy := tidy_restarted ht' (x.succeeds || x.starts)
        refine wp_branch (fun hok => ?_) fun _ =>
          wp_restored hstarted htidy fun u hu hut => ⟨hu, hut, fun changed hr => by cases hr⟩
        refine wp_pure (safe_of_tidy hstarted htidy) ⟨hstarted, htidy, fun changed hr => ?_⟩
        obtain rfl := Except.ok.inj hr
        have hdone : (x.succeeds || x.starts) = true := by
          rw [show x.succeeds = true from hok, Bool.true_or]
        have hdisk := disk_restarted (t.write fun files => { files with config := config })
          (x.succeeds || x.starts)
        have hstored := congrArg ServiceFiles.stored hdisk
        have hconfig : ∀ p, _ := fun p =>
          (congrArg (fun files => (files.config.of p).url) hdisk).trans (hurls _ rfl p)
        exact ⟨rfl, hstored, hconfig, fun _ => current_restarted _ hdone,
          fun hfalse => by cases hfalse⟩

/-! ## Calls of `run` -/

theorem wp_restartIf {C : Host → Prop} {Q : Except Unit Unit → Host → Prop} {rotated : Bool}
    (hC : C h) (hrestarted : ∀ started, C (h.restarted started))
    (herr : ∀ started, Q (.error ()) (h.restarted started))
    (hok : Q (.ok ()) (if rotated then h.restarted true else h)) :
    Wp act C (restartIf rotated) Q h := by
  unfold restartIf
  cases rotated with
  | false => exact wp_pure hC hok
  | true =>
    refine wp_call hC (fun x _ => ⟨hrestarted _, herr _⟩) fun x => ?_
    refine wp_branch (fun hdone => ?_) fun _ => wp_fail (hrestarted _) (herr _)
    have hstate : (SecretOp.restart.run x h).2 = h.restarted true := by
      have hsucceeds : x.succeeds = true := hdone
      dsimp only [SecretOp.run]
      rw [hsucceeds, Bool.true_or]
    rw [hstate]
    exact wp_pure (hrestarted true) hok

/-- What a call of `run` leaves when it returns. -/
structure Ran (h : Host) (o : Outcome) (t : Host) : Prop where
  resolved : o.ready = true → ∀ p, ∃ ref, reference (t.service.disk.config.of p).url = some ref ∧
    (t.vault ref).isSome ∧ t.service.disk.stored.of p = t.vault ref
  current : h.service.Current → t.service.Current
  restarts : o.rotated = false → o.changed = false → t.restarts = h.restarts

theorem wp_run (hinjective : Function.Injective sha256) (hs : h.service.InStep)
    (ht : h.Tidy sha256) : Wp act (Safe sha256) (run sha256) (fun r t =>
      ∀ o, r = .ok o → Ran h o t) h := by
  have hsafe := safe_of_tidy hs ht
  refine wp_call hsafe (fun x _ => ⟨hsafe, fun o hr => by cases hr⟩) fun x => ?_
  refine wp_file rfl hsafe fun x => wp_bind ?_
  refine (wp_provideSafely hinjective hs ht _ .embedding).mono fun r t _ hr => ?_
  cases r with
  | error e => exact fun o hr => by cases hr
  | ok first =>
    obtain ⟨embedding, rotated⟩ := first
    obtain ⟨ho, hothers, hembedding, hsame⟩ := hr
    refine wp_bind ((wp_provideSafely hinjective ho.inStep ho.tidy _ .reranker).mono
      fun r u _ hr => ?_)
    cases r with
    | error e => exact fun o hr => by cases hr
    | ok second =>
      obtain ⟨reranker, rotated'⟩ := second
      obtain ⟨ho', hothers', hreranker, hsame'⟩ := hr
      refine wp_file rfl ho'.safe fun x => ?_
      -- The status file is nothing that the service reads.
      have hstatus : ((SecretOp.writeStatus ⟨embedding, reranker⟩).run x u).2.service = u.service :=
        rfl
      refine wp_bind ((wp_reconcile (h := ((SecretOp.writeStatus _).run x u).2) ho'.inStep
        ho'.tidy).mono fun r v hsafe' hr => ?_)
      obtain ⟨hs', ht', hrec⟩ := hr
      cases r with
      | error e => exact fun o hr => by cases hr
      | ok changed =>
        replace hrec := hrec changed rfl
        refine wp_bind (wp_restartIf hsafe' (fun started => safe_of_tidy
          (inStep_restarted hs' started) (tidy_restarted ht' started))
          (fun started o hr => by cases hr) ?_)
        refine wp_pure ?_ fun o hr => ?_
        · split_ifs
          · exact safe_of_tidy (inStep_restarted hs' true) (tidy_restarted ht' true)
          · exact hsafe'
        obtain rfl := Except.ok.inj hr
        refine ⟨fun hready => ?_, fun hcurrent => ?_, fun hrotated hchanged => ?_⟩
        · have hdisk : (if ((rotated || rotated') && !changed) = true then v.restarted true
              else v).service.disk = v.service.disk := by
            split_ifs <;> rfl
          have hvault : (if ((rotated || rotated') && !changed) = true then v.restarted true
              else v).vault = h.vault := by
            have hv : v.vault = h.vault :=
              hrec.vault.trans (ho'.frame.vault.trans ho.frame.vault)
            split_ifs <;> exact hv
          obtain ⟨hfirst, hsecond⟩ := Bool.and_eq_true_iff.1 hready
          intro p
          rw [hdisk, hvault, hrec.stored, hrec.urls, hstatus, ho'.frame.config, ho.frame.config]
          cases p with
          | embedding =>
            rw [hothers' .embedding (by decide)]
            exact hembedding hfirst
          | reranker =>
            have hresolved := hreranker hsecond
            rw [ho.frame.vault] at hresolved
            exact hresolved
        · cases changed with
          | true =>
            rw [Bool.not_true, Bool.and_false]
            exact hrec.current rfl
          | false =>
            rw [Bool.not_false, Bool.and_true]
            split_ifs with hrotated
            · rfl
            · obtain ⟨hno, hno'⟩ := Bool.or_eq_false_iff.1 (Bool.eq_false_of_not_eq_true hrotated)
              rw [hrec.same rfl, hstatus, hsame' hno', hsame hno]
              exact hcurrent
        · dsimp only at hrotated hchanged
          subst hchanged
          rw [hrotated, Bool.false_and]
          change v.restarts = h.restarts
          rw [hrec.same rfl]
          exact ho'.frame.restarts.trans ho.frame.restarts

/-! ## Runs -/

theorem History.kept (hinjective : Function.Injective sha256) (hh : History sha256 h) :
    h.service.InStep ∧ h.service.unapplied = false ∧ h.Tidy sha256 := by
  induction hh with
  | start h hcurrent hu htidy => exact ⟨fun _ => hcurrent, hu, htidy⟩
  | rotate vault hh ih => exact ih
  | run hh hr hu ih =>
    obtain ⟨hs, htidy⟩ := (wp_run hinjective ih.1 ih.2.2).crash hr
    exact ⟨hs, hu, htidy hu⟩
  | reconcile hh hr hu ih =>
    obtain ⟨hs, htidy⟩ := (wp_reconcile ih.1 ih.2.2).crash hr
    exact ⟨hs, hu, htidy hu⟩

/-- After calls that left no file that the service has not loaded, a call of `run` that returns with
both providers resolved leaves the keys of OpenBao, loaded; one that finds nothing to change asks no
restart; and an installation that raises leaves the credentials as they were. -/
theorem activated (hinjective : Function.Injective sha256) (hh : History sha256 h) :
    Activates sha256 h := by
  obtain ⟨hs, hu, ht⟩ := hh.kept hinjective
  refine ⟨fun o h' hr => ?_, fun p key e h' hf => ?_⟩
  · have hran := (wp_run hinjective hs ht).finish (finishes_of_ends hr) o rfl
    exact ⟨fun hready => ⟨hran.current (hs hu), hran.resolved hready⟩, hran.restarts⟩
  · obtain ⟨-, hsame⟩ := (wp_install hinjective hs ht p key).finish hf
    rw [show h'.service = h.service from hsame]

/-! ## A rotation -/

namespace Sample

def digest : String → String :=
  id

/-- Both providers are enabled, and the embedding has an old key. -/
def files : ServiceFiles :=
  ⟨⟨⟨"https://api.jina.ai/v1/embeddings", "embedding-api-token", some true⟩,
    ⟨"https://api.cohere.com/v2/rerank", "reranker-api-token", some true⟩⟩,
    ⟨some "old-jina-key", some "cohere-key"⟩⟩

/-- The keys in OpenBao after the key of the embedding was rotated. -/
def vault (reference : String) : Option String :=
  if reference = "kv-infra-shared/data/llm/providers/jina" then some "new-jina-key"
  else some "cohere-key"

def host : Host :=
  ⟨⟨files, files, false⟩, files.stored, none, vault, 0⟩

def well : SecretChoice :=
  ⟨false, true, true, true, true⟩

theorem history_host : History digest host := by
  refine .start host rfl rfl fun p value h => ?_
  exact ⟨value, h, rfl⟩

theorem activated_sample : ∃ o h, Ends act (run digest) host o h ∧ o = ⟨true, true, false⟩ ∧
    h.Converged := by
  have hrun : ((run digest).run act well host).map (fun r => r.1) = some ⟨true, true, false⟩ := by
    decide
  obtain ⟨⟨o, h⟩, hr, ho⟩ := Option.map_eq_some_iff.1 hrun
  have hends := ends_of_run hr
  have hready : o.ready = true := congrArg Outcome.ready ho
  exact ⟨o, h, hends, ho,
    ((activated (fun _ _ h => h) history_host).1 o h hends).1 hready⟩

/-- The new credential and its digest are written, and the service is not restarted. -/
def killed : Host :=
  { host with
    service := ⟨{ files with stored := ⟨some "new-jina-key", some "cohere-key"⟩ }, files, true⟩
    digests := ⟨some "new-jina-key", some "cohere-key"⟩ }

/-- A call is killed before it restarts the service, and the next one returns with both providers
resolved and a service that has the old key. -/
theorem stale_credential : ∃ h o h', Reaches act (run digest) host h ∧
    Ends act (run digest) h o h' ∧ o.ready = true ∧ ¬h'.Converged := by
  have hrun : ((run digest).run act well killed).map (fun r => (r.1.ready, r.2.service)) =
      some (true, killed.service) := by
    decide
  obtain ⟨⟨o, h'⟩, hr, ho⟩ := Option.map_eq_some_iff.1 hrun
  obtain ⟨hready, hservice⟩ := Prod.mk.inj ho
  refine ⟨killed, o, h', ?_, ends_of_run hr, hready, fun hconverged => ?_⟩
  · -- The nine operations up to the one that writes the digest.
    iterate 9 refine .inr ⟨well, ?_⟩
    exact .inl rfl
  · have hcurrent : h'.service.loaded = h'.service.disk := hconverged.1
    rw [hservice] at hcurrent
    exact absurd hcurrent (by decide)

end Sample

end OpsMemoryApi
