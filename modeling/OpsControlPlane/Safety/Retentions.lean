import OpsControlPlane.Vault.Backup

/-!
# Retention of OpenBao backups

The retention removes the files of an expired backup one after the other, from a directory that
keeps its published name. `Inv` is what every history of interrupted backups keeps: a backup
whose removal was begun has enough newer ones above it, so each later retention comes to it, and
refuses it.

`retention_iff` says when a backup that nothing disturbs succeeds and is kept: no removal was
interrupted, its name is new, and few enough backups have a later name.
-/

namespace OpsVault

open Calls Prog Text

/-! ## The destination -/

def Vault.published (v : Vault) : List String :=
  backupsOf v.names

variable {name n file final uuid : String}

theorem isBackupId_ne (h : isBackupId name = true) : ∃ rest, toChars name = 'o' :: rest := by
  unfold isBackupId at h
  generalize toChars name = l at h
  cases l with
  | nil => cases h
  | cons c rest =>
    have hfirst : (c == 'o') = true := by
      have hshape : backupIdShape = (· == 'o') :: backupIdShape.tail := by
        unfold backupIdShape
        rw [toChars_eq]
        rfl
      rw [hshape] at h
      exact (Bool.and_eq_true_iff.1 h).1
    exact ⟨rest, by rw [beq_iff_eq.1 hfirst]⟩

theorem toChars_pending : toChars ".pending-" = '.' :: "pending-".toList := by
  rw [toChars_eq]
  rfl

theorem isPending_of_isBackupId (h : isBackupId name = true) : isPending name = false := by
  obtain ⟨rest, hrest⟩ := isBackupId_ne h
  unfold isPending
  rw [hrest, toChars_pending]
  rfl

theorem isBackupId_pendingName (backupId uuid : String) :
    isBackupId (pendingName backupId uuid) = false := by
  by_contra hne
  obtain ⟨rest, hrest⟩ := isBackupId_ne (Bool.eq_true_of_not_eq_false hne)
  unfold pendingName at hrest
  rw [toChars_eq, String.toList_append, String.toList_append, String.toList_append,
    ← toChars_eq ".pending-", toChars_pending] at hrest
  exact absurd (List.cons.inj hrest).1 (by decide)

theorem mem_backupsOf {names : List String} :
    name ∈ backupsOf names ↔ name ∈ names ∧ isBackupId name = true := by
  unfold backupsOf
  rw [List.mem_filter]
  refine and_congr_right fun _ => ?_
  rw [Bool.and_eq_true, and_iff_right_iff_imp]
  intro h
  rw [isPending_of_isBackupId h]
  rfl

theorem mem_published {v : Vault} : name ∈ v.published ↔ name ∈ v.names ∧ isBackupId name = true :=
  mem_backupsOf

/-- The last that was done to the directory is the removal of one of its files. -/
def removing (name : String) : List VaultEvent → Bool
  | [] => false
  | .unlinked n _ :: older => n = name || removing name older
  | .removed n :: older => !decide (n = name) && removing name older

/-- The removal of a backup was begun and not finished. -/
def Interrupted (v : Vault) : Prop :=
  ∃ name, isBackupId name = true ∧ removing name v.log = true

structure Inv (keep : ℕ) (v : Vault) : Prop where
  nodup : v.names.Nodup
  whole : ∀ name files, (name, files) ∈ v.entries → isBackupId name = true →
    removing name v.log = false → files = expectedFiles
  torn : ∀ name files, (name, files) ∈ v.entries → isBackupId name = true →
    removing name v.log = true → files.toFinset ≠ expectedFiles.toFinset
  /-- A backup whose removal was begun is there, and enough backups are newer. -/
  expired : ∀ name, isBackupId name = true → removing name v.log = true →
    name ∈ v.names ∧ keep ≤ Retention.above name v.published

theorem Inv.nodup_published {keep : ℕ} {v : Vault} (h : Inv keep v) : v.published.Nodup :=
  h.nodup.filter _

variable {files l : List String}

theorem files_eq_some {v : Vault} (h : v.names.Nodup) :
    v.files name = some files ↔ (name, files) ∈ v.entries := by
  unfold Vault.files
  unfold Vault.names at h
  constructor
  · intro hfind
    obtain ⟨e, he, rfl⟩ := Option.map_eq_some_iff.1 hfind
    have hname : e.1 = name := by simpa using List.find?_some he
    rw [← hname]
    exact List.mem_of_find?_eq_some he
  · intro hmem
    cases hfind : v.entries.find? fun e => e.1 = name with
    | none =>
      have hnone := List.find?_eq_none.1 hfind _ hmem
      simp at hnone
    | some e =>
      have hname : e.1 = name := by simpa using List.find?_some hfind
      have heq := List.inj_on_of_nodup_map h (List.mem_of_find?_eq_some hfind) hmem hname
      rw [heq]
      rfl

theorem files_eq_none {v : Vault} : v.files name = none ↔ name ∉ v.names := by
  unfold Vault.files Vault.names
  rw [Option.map_eq_none_iff, List.find?_eq_none, List.mem_map]
  constructor
  · rintro h ⟨e, he, rfl⟩
    exact h e he (by simp)
  · intro h e he hname
    exact h ⟨e, he, by simpa using hname⟩

@[simp] theorem names_unlink (v : Vault) (name file : String) :
    (v.unlink name file).names = v.names := by
  unfold Vault.names Vault.unlink
  rw [List.map_map]
  refine List.map_congr_left fun e _ => ?_
  simp only [Function.comp_apply]
  split_ifs <;> rfl

@[simp] theorem names_create (v : Vault) (name file : String) :
    (v.create name file).names = v.names := by
  unfold Vault.names Vault.create
  rw [List.map_map]
  refine List.map_congr_left fun e _ => ?_
  simp only [Function.comp_apply]
  split_ifs <;> rfl

@[simp] theorem names_remove (v : Vault) (name : String) :
    (v.remove name).names = v.names.filter (· ≠ name) := by
  unfold Vault.names Vault.remove
  rw [List.filter_map]
  rfl

theorem mem_change {l : List (String × List String)} (g : List String → List String) :
    (n, files) ∈ l.map (fun e => if e.1 = name then (e.1, g e.2) else e) ↔
      ∃ old, (n, old) ∈ l ∧ files = if n = name then g old else old := by
  rw [List.mem_map]
  constructor
  · rintro ⟨⟨m, old⟩, hmem, heq⟩
    simp only at heq
    split_ifs at heq with hm
    · obtain ⟨rfl, rfl⟩ := Prod.mk.inj heq
      exact ⟨old, hmem, by rw [if_pos hm]⟩
    · obtain ⟨rfl, rfl⟩ := Prod.mk.inj heq
      exact ⟨_, hmem, by rw [if_neg hm]⟩
  · rintro ⟨old, hmem, rfl⟩
    refine ⟨(n, old), hmem, ?_⟩
    simp only
    split_ifs <;> rfl

theorem mem_unlink {v : Vault} :
    (n, files) ∈ (v.unlink name file).entries ↔ ∃ old, (n, old) ∈ v.entries ∧
      files = if n = name then old.filter (· ≠ file) else old :=
  mem_change fun old => old.filter (· ≠ file)

theorem mem_create {v : Vault} :
    (n, files) ∈ (v.create name file).entries ↔ ∃ old, (n, old) ∈ v.entries ∧
      files = if n = name then old ++ [file] else old :=
  mem_change fun old => old ++ [file]

theorem published_remove (v : Vault) (name : String) :
    (v.remove name).published = v.published.filter (· ≠ name) := by
  unfold Vault.published backupsOf
  rw [names_remove, List.filter_filter, List.filter_filter]
  refine List.filter_congr fun n _ => ?_
  exact Bool.and_comm _ _

theorem names_replace (v : Vault) (pending final : String) :
    (v.replace pending final).names = v.names.map fun n => if n = pending then final else n := by
  unfold Vault.names Vault.replace
  rw [List.map_map, List.map_map]
  refine List.map_congr_left fun e _ => ?_
  simp only [Function.comp_apply]
  split_ifs <;> rfl

theorem published_replace {v : Vault} (h : v.names.Nodup) {pending : String}
    (hmem : pending ∈ v.names) (hpending : isBackupId pending = false)
    (hfinal : isBackupId final = true) :
    (v.replace pending final).published.Perm (final :: v.published) := by
  obtain ⟨before, after, hsplit⟩ := List.append_of_mem hmem
  rw [hsplit] at h
  have hsame : ∀ l : List String, pending ∉ l →
      (l.map fun n => if n = pending then final else n) = l := by
    intro l hl
    conv_rhs => rw [← List.map_id l]
    refine List.map_congr_left fun n hn => ?_
    rw [if_neg (by rintro rfl; exact hl hn)]
    rfl
  have hnot := List.nodup_middle.1 h
  have hout : pending ∉ before ++ after := (List.nodup_cons.1 hnot).1
  rw [List.mem_append, not_or] at hout
  have hskip : ∀ l, backupsOf (pending :: l) = backupsOf l := by
    intro l
    exact List.filter_cons_of_neg (by rw [hpending, Bool.and_false]; exact Bool.false_ne_true)
  have hkeep : ∀ l, backupsOf (final :: l) = final :: backupsOf l := by
    intro l
    exact List.filter_cons_of_pos (by rw [hfinal, isPending_of_isBackupId hfinal]; rfl)
  have happend : ∀ l l' : List String, backupsOf (l ++ l') = backupsOf l ++ backupsOf l' :=
    fun l l' => List.filter_append _ _
  unfold Vault.published
  rw [names_replace, hsplit, List.map_append, List.map_cons, hsame _ hout.1, hsame _ hout.2,
    if_pos rfl, happend, happend, hskip, hkeep]
  exact List.perm_middle

/-! ## What each step keeps -/

variable {keep : ℕ} {log : List VaultEvent}

theorem removing_unlinked :
    removing name (.unlinked n file :: log) = true ↔ n = name ∨ removing name log = true := by
  change (decide (n = name) || removing name log) = true ↔ _
  rw [Bool.or_eq_true, decide_eq_true_eq]

theorem removing_removed :
    removing name (.removed n :: log) = true ↔ n ≠ name ∧ removing name log = true := by
  change (!decide (n = name) && removing name log) = true ↔ _
  rw [Bool.and_eq_true, Bool.not_eq_true', decide_eq_false_iff_not]

/-- A file of an expired backup is removed. -/
theorem Inv.unlink {v : Vault} (h : Inv keep v) (hfile : file ∈ expectedFiles)
    (hname : name ∈ v.names) (hexpired : keep ≤ Retention.above name v.published) :
    Inv keep (v.unlink name file) := by
  have hpublished : (v.unlink name file).published = v.published := by
    unfold Vault.published
    rw [names_unlink]
  refine ⟨(names_unlink v name file).symm ▸ h.nodup, fun n files hmem hid hnot => ?_,
    fun n files hmem hid hbegun => ?_, fun n hid hbegun => ?_⟩
  · obtain ⟨old, hold, rfl⟩ := mem_unlink.1 hmem
    rw [Bool.eq_false_iff, ne_eq, Vault.unlink, removing_unlinked, not_or, Bool.not_eq_true]
      at hnot
    rw [if_neg (Ne.symm hnot.1)]
    exact h.whole n old hold hid hnot.2
  · obtain ⟨old, hold, rfl⟩ := mem_unlink.1 hmem
    by_cases hn : n = name
    · rw [if_pos hn]
      intro heq
      have hin : file ∈ (old.filter (· ≠ file)).toFinset :=
        heq ▸ List.mem_toFinset.2 hfile
      rw [List.mem_toFinset, List.mem_filter] at hin
      simp at hin
    · rw [if_neg hn]
      rcases removing_unlinked.1 hbegun with heq | hbegun
      · exact absurd heq.symm hn
      · exact h.torn n old hold hid hbegun
  · rw [hpublished, names_unlink]
    rcases removing_unlinked.1 hbegun with rfl | hbegun
    · exact ⟨hname, hexpired⟩
    · exact h.expired n hid hbegun

/-- A directory that is no backup is changed. -/
theorem Inv.aside {v w : Vault} (h : Inv keep v) (hnames : w.names.Nodup)
    (hentries : ∀ name files, isBackupId name = true →
      ((name, files) ∈ w.entries ↔ (name, files) ∈ v.entries))
    (hlog : ∀ name, isBackupId name = true → removing name w.log = removing name v.log) :
    Inv keep w := by
  have hmem : ∀ name, isBackupId name = true → (name ∈ w.names ↔ name ∈ v.names) := by
    intro name hid
    unfold Vault.names
    simp only [List.mem_map, Prod.exists, exists_and_right, exists_eq_right]
    exact exists_congr fun files => hentries name files hid
  have hperm : w.published.Perm v.published := by
    refine (List.perm_ext_iff_of_nodup (hnames.filter _) (h.nodup.filter _)).2 fun name => ?_
    change name ∈ w.published ↔ name ∈ v.published
    rw [mem_published, mem_published]
    exact and_congr_left (hmem name)
  refine ⟨hnames, fun name files he hid hnot => ?_, fun name files he hid hbegun => ?_,
    fun name hid hbegun => ?_⟩
  · exact h.whole name files ((hentries name files hid).1 he) hid (hlog name hid ▸ hnot)
  · exact h.torn name files ((hentries name files hid).1 he) hid (hlog name hid ▸ hbegun)
  · obtain ⟨hin, hle⟩ := h.expired name hid (hlog name hid ▸ hbegun)
    exact ⟨(hmem name hid).2 hin, Retention.above_perm hperm ▸ hle⟩

theorem Inv.create {v : Vault} (h : Inv keep v) {pending : String} (file : String)
    (hid : isBackupId pending = false) : Inv keep (v.create pending file) := by
  refine h.aside (names_create v pending file ▸ h.nodup) (fun name files hname => ?_)
    fun _ _ => rfl
  have hne : name ≠ pending := by
    rintro rfl
    rw [hid] at hname
    cases hname
  rw [mem_create]
  simp [hne]

/-- A directory that is no backup is made. -/
def Vault.mkdir (v : Vault) (name : String) : Vault :=
  ⟨v.entries ++ [(name, [])], v.log⟩

theorem names_mkdir (v : Vault) (name : String) : (v.mkdir name).names = v.names ++ [name] := by
  unfold Vault.names Vault.mkdir
  rw [List.map_append]
  rfl

theorem Inv.mkdir {v : Vault} (h : Inv keep v) {pending : String}
    (hid : isBackupId pending = false) (hnew : pending ∉ v.names) :
    Inv keep (v.mkdir pending) := by
  have hnodup : (v.names ++ [pending]).Nodup := by
    refine List.nodup_append.2 ⟨h.nodup, List.nodup_singleton _, ?_⟩
    intro a ha b hb hab
    rw [List.mem_singleton] at hb
    rw [hab, hb] at ha
    exact hnew ha
  refine h.aside (names_mkdir v pending ▸ hnodup) (fun name files hname => ?_) fun _ _ => rfl
  change (name, files) ∈ v.entries ++ [(pending, [])] ↔ _
  rw [List.mem_append, List.mem_singleton]
  refine or_iff_left fun heq => ?_
  rw [(Prod.mk.inj heq).1, hid] at hname
  cases hname

theorem files_mkdir {v : Vault} {pending : String} (hnodup : (v.mkdir pending).names.Nodup) :
    (v.mkdir pending).files pending = some [] :=
  (files_eq_some hnodup).2 (List.mem_append_right _ (List.mem_singleton.2 rfl))

theorem Inv.remove {v : Vault} (h : Inv keep v)
    (hexpired : keep ≤ Retention.above name v.published) : Inv keep (v.remove name) := by
  have hentry : ∀ n files, (n, files) ∈ (v.remove name).entries ↔
      (n, files) ∈ v.entries ∧ n ≠ name := by
    intro n files
    unfold Vault.remove
    simp [List.mem_filter]
  refine ⟨names_remove v name ▸ h.nodup.filter _, fun n files he hid hnot => ?_,
    fun n files he hid hbegun => ?_, fun n hid hbegun => ?_⟩
  · obtain ⟨he, hne⟩ := (hentry n files).1 he
    rw [Bool.eq_false_iff, ne_eq, Vault.remove, removing_removed, not_and, Bool.not_eq_true]
      at hnot
    exact h.whole n files he hid (hnot hne.symm)
  · obtain ⟨he, -⟩ := (hentry n files).1 he
    exact h.torn n files he hid (removing_removed.1 hbegun).2
  · obtain ⟨hne, hbegun⟩ := removing_removed.1 hbegun
    obtain ⟨hin, hle⟩ := h.expired n hid hbegun
    rw [names_remove, published_remove, List.mem_filter]
    exact ⟨⟨hin, by simpa using Ne.symm hne⟩, Retention.le_above_filter_ne hexpired hle⟩

theorem Inv.publish {v : Vault} (h : Inv keep v) {pending : String}
    (hpending : isBackupId pending = false) (hfinal : isBackupId final = true)
    (hfiles : v.files pending = some expectedFiles) (hnew : final ∉ v.names) :
    Inv keep (v.replace pending final) := by
  have hentry : ∀ n files, (n, files) ∈ (v.replace pending final).entries →
      isBackupId n = true → n = final ∧ files = expectedFiles ∨
        n ≠ final ∧ (n, files) ∈ v.entries := by
    intro n files he hid
    unfold Vault.replace at he
    obtain ⟨⟨m, old⟩, hm, heq⟩ := List.mem_map.1 he
    simp only at heq
    split_ifs at heq with hcase
    · obtain ⟨rfl, rfl⟩ := Prod.mk.inj heq
      subst hcase
      have hold := (files_eq_some h.nodup).2 hm
      rw [hfiles] at hold
      exact .inl ⟨rfl, (Option.some.inj hold).symm⟩
    · obtain ⟨rfl, rfl⟩ := Prod.mk.inj heq
      refine .inr ⟨?_, hm⟩
      rintro rfl
      exact hnew (List.mem_map.2 ⟨_, hm, rfl⟩)
  have hmem : pending ∈ v.names := by
    by_contra hnot
    rw [files_eq_none.2 hnot] at hfiles
    cases hfiles
  have hlog : removing final v.log = false := by
    by_contra hbegun
    exact hnew (h.expired final hfinal (Bool.eq_true_of_not_eq_false hbegun)).1
  have hperm := published_replace h.nodup hmem hpending hfinal
  refine ⟨?_, fun n files he hid hnot => ?_, fun n files he hid hbegun => ?_,
    fun n hid hbegun => ?_⟩
  · rw [names_replace]
    refine h.nodup.map_on fun n hn m hm heq => ?_
    split_ifs at heq with hn' hm' hm'
    · exact hn'.trans hm'.symm
    · exact absurd (heq ▸ hm) hnew
    · exact absurd (heq ▸ hn) hnew
    · exact heq
  · rcases hentry n files he hid with ⟨-, hfiles⟩ | ⟨-, he⟩
    · exact hfiles
    · exact h.whole n files he hid hnot
  · rcases hentry n files he hid with ⟨rfl, -⟩ | ⟨-, he⟩
    · change removing n v.log = true at hbegun
      rw [hlog] at hbegun
      cases hbegun
    · exact h.torn n files he hid hbegun
  · obtain ⟨hin, hle⟩ := h.expired n hid hbegun
    refine ⟨?_, ?_⟩
    · rw [names_replace]
      refine List.mem_map.2 ⟨n, hin, if_neg ?_⟩
      rintro rfl
      rw [hpending] at hid
      cases hid
    · rw [Retention.above_perm hperm]
      exact hle.trans (Retention.above_le_cons n final v.published)

/-! ## Interrupted backups -/

/-- The program keeps the invariant wherever it stops, and if it returns the second condition
holds when the first one did. -/
def Safe {α : Type} (keep : ℕ) (P : Vault → Prop) (p : VaultProg α) (R : α → Vault → Prop) :
    Prop :=
  ∀ v, Inv keep v → P v →
    Wp performVault (Inv keep) p (fun r t => ∀ a, r = .ok a → R a t) v

variable {α β : Type} {P : Vault → Prop} {R : α → Vault → Prop} {R' : β → Vault → Prop}
  {p : VaultProg α}

theorem Safe.bind {f : α → VaultProg β} (hp : Safe keep P p R)
    (hf : ∀ a, Safe keep (R a) (f a) R') : Safe keep P (p >>= f) R' := by
  intro v hv hP
  refine wp_bind ((hp v hv hP).mono fun r t ht hr => ?_)
  cases r with
  | error e => exact fun a h => by cases h
  | ok a => exact hf a t ht (hr a rfl)

theorem safe_pure {a : α} (h : ∀ v, P v → R a v) : Safe keep P (pure a) R := by
  intro v hv hP
  refine wp_pure hv fun b hb => ?_
  obtain rfl := Except.ok.inj hb
  exact h v hP

theorem safe_fail (e : VaultError) : Safe keep P (.fail e : VaultProg α) R := by
  intro v hv _
  exact wp_fail hv fun a h => by cases h

theorem Safe.attempt (h : Safe keep P p R) :
    Safe keep P (Prog.attempt p) fun r v => ∀ a, r = .ok a → R a v := by
  intro v hv hP
  refine wp_attempt ((h v hv hP).mono fun r t _ hr => ?_)
  intro b hb
  obtain rfl := Except.ok.inj hb
  exact hr

theorem Safe.mono {P' : Vault → Prop} {R' : α → Vault → Prop} (h : Safe keep P p R)
    (hP : ∀ v, P' v → P v) (hR : ∀ a v, R a v → R' a v) : Safe keep P' p R' := by
  intro v hv hP'
  exact (h v hv (hP v hP')).mono fun r t _ hr a ha => hR a t (hr a ha)

variable {o : VaultOp}

/-- An operation that may fail without effect. -/
theorem safe_op {R : o.Reply → Vault → Prop} (h : ∀ x v, Inv keep v → P v → Inv keep (o.run x v).2 ∧
      ∀ a, (o.run x v).1 = .ok a → R a (o.run x v).2) : Safe keep P (vaultOp o) R := by
  intro v hv hP
  refine ⟨hv, fun x => wp_ofExcept ?_ ?_⟩
  · unfold performVault
    cases x.fault with
    | none => exact (h x v hv hP).1
    | some e => exact hv
  · unfold performVault
    cases x.fault with
    | none => exact (h x v hv hP).2
    | some e => exact fun a ha => by cases ha

theorem safe_read (h : ∀ x v, (o.run x v).2 = v) : Safe keep P (vaultOp o) fun _ => P := by
  refine safe_op fun x v hv hP => ?_
  rw [h x v]
  exact ⟨hv, fun _ _ => hP⟩

theorem safe_eachInTurn {γ : Type} {f : γ → VaultProg Unit} {I : Vault → Prop}
    (l : List γ) (h : ∀ c ∈ l, Safe keep I (f c) fun _ => I) :
    Safe keep I (eachInTurn f l) fun _ => I := by
  induction l with
  | nil => exact safe_pure fun _ h => h
  | cons c l ih =>
    exact (h c List.mem_cons_self).bind fun _ => ih fun d hd => h d (List.mem_cons_of_mem c hd)

def Has (name : String) (files : List String) (v : Vault) : Prop :=
  v.files name = some files

theorem safe_create {pending : String} (hid : isBackupId pending = false) :
    Safe keep (Has pending files) (vaultOp (.create pending file)) fun _ =>
      Has pending (files ++ [file]) := by
  refine safe_op fun x v hv hP => ?_
  change v.files pending = some files at hP
  unfold VaultOp.run
  simp only [hP]
  split_ifs with hfile
  · exact ⟨hv, fun a ha => by cases ha⟩
  · have hmade := hv.create file hid
    refine ⟨hmade, fun _ _ => (files_eq_some hmade.nodup).2 ?_⟩
    exact mem_create.2 ⟨files, (files_eq_some hv.nodup).1 hP, by rw [if_pos rfl]⟩

theorem safe_writeFile {pending : String} (hid : isBackupId pending = false) :
    Safe keep (Has pending files) (writeFile pending file) fun _ =>
      Has pending (files ++ [file]) :=
  (safe_create hid).bind fun _ => (safe_read fun _ _ => rfl).bind fun _ => safe_read fun _ _ => rfl

theorem safe_acquire {pending : String} (hid : isBackupId pending = false) :
    Safe keep (Has pending []) (acquire pending) fun _ => Has pending ["snapshot.age"] := by
  refine (safe_read fun _ _ => rfl).bind fun _ => ?_
  have hstream : Safe keep (Has pending []) (streamSnapshot pending) fun _ =>
      Has pending ["snapshot.age"] := by
    refine (safe_create hid).bind fun _ => (safe_read fun _ _ => rfl).bind fun size => ?_
    split_ifs with hsize
    · exact safe_fail _
    · exact safe_pure fun _ h => h
  refine hstream.attempt.bind fun streamed => ?_
  refine (safe_read fun _ _ => rfl).attempt.bind fun revoked => ?_
  split
  · intro v hv hP
    exact wp_pure hv fun _ _ => hP _ rfl _ rfl
  · exact safe_fail _

theorem safe_replace {pending : String} (hid : isBackupId pending = false)
    (hfinal : isBackupId final = true) :
    Safe keep (Has pending expectedFiles) (vaultOp (.replace pending final)) fun _ _ => True := by
  refine safe_op fun x v hv hP => ⟨?_, fun _ _ => trivial⟩
  unfold VaultOp.run
  dsimp only
  split_ifs with hnames
  · exact hv.publish hid hfinal hP hnames.2
  · exact hv

theorem removing_ne (h : n ≠ name) (file : String) (log : List VaultEvent) :
    removing name (.unlinked n file :: log) = removing name log ∧
      removing name (.removed n :: log) = removing name log := by
  change (decide (n = name) || removing name log) = _ ∧
    (!decide (n = name) && removing name log) = _
  rw [decide_eq_false h]
  exact ⟨Bool.false_or _, Bool.true_and _⟩

theorem safe_rmtree {pending : String} (hid : isBackupId pending = false) :
    Safe keep (fun _ => True) (rmtree pending) fun _ _ => True := by
  have hne : ∀ name, isBackupId name = true → pending ≠ name := by
    rintro name h rfl
    rw [hid] at h
    cases h
  have hunlink : ∀ file, Safe keep (fun _ => True) (vaultOp (.unlink pending file))
      fun _ _ => True := by
    refine fun file => safe_op fun x v hv _ => ⟨?_, fun _ _ => trivial⟩
    unfold VaultOp.run
    dsimp only
    split
    · exact hv
    · split_ifs
      · refine hv.aside (names_unlink v pending file ▸ hv.nodup) (fun name fs h => ?_)
          fun name h => (removing_ne (hne name h) file v.log).1
        rw [mem_unlink]
        simp [Ne.symm (hne name h)]
      · exact hv
  have hrmdir : Safe keep (fun _ => True) (vaultOp (.rmdir pending)) fun _ _ => True := by
    refine safe_op fun x v hv _ => ⟨?_, fun _ _ => trivial⟩
    unfold VaultOp.run
    dsimp only
    split
    · refine hv.aside (names_remove v pending ▸ hv.nodup.filter _) (fun name fs h => ?_)
        fun name h => (removing_ne (hne name h) "" v.log).2
      unfold Vault.remove
      simp [List.mem_filter, Ne.symm (hne name h)]
    · exact hv
  refine (safe_read fun x v => ?_).attempt.bind fun listed => ?_
  · unfold VaultOp.run
    dsimp only
    split <;> rfl
  · cases listed with
    | error e => exact safe_pure fun _ _ => trivial
    | ok files =>
      refine Safe.mono (P := fun _ => True) (R := fun _ _ => True) ?_ (fun _ _ => trivial)
        fun _ _ _ => trivial
      refine (safe_eachInTurn (I := fun _ => True) files fun file _ => ?_).bind fun _ => ?_
      · exact ((hunlink file).attempt.mono (fun _ h => h) fun _ _ _ => trivial).bind
          fun _ => safe_pure fun _ h => h
      · exact (hrmdir.attempt.mono (fun _ h => h) fun _ _ _ => trivial).bind
          fun _ => safe_pure fun _ h => h

/-- The names that the retention goes through have enough backups above them. -/
def Expired (keep : ℕ) (l : List String) (v : Vault) : Prop :=
  ∀ name ∈ l, keep ≤ Retention.above name v.published

theorem safe_removeBackup (hname : name ∈ l) :
    Safe keep (Expired keep l) (removeBackup name) fun _ => Expired keep l := by
  have hunlink : ∀ file ∈ ["manifest.json", "snapshot.age", "snapshot.age.sha256"],
      Safe keep (Expired keep l) (vaultOp (.unlink name file)) fun _ => Expired keep l := by
    intro file hfile
    have hexpected : file ∈ expectedFiles := by
      unfold expectedFiles
      simp only [List.mem_cons, List.not_mem_nil, or_false] at hfile ⊢
      tauto
    refine safe_op fun x v hv hP => ?_
    unfold VaultOp.run
    dsimp only
    split
    · exact ⟨hv, fun a ha => by cases ha⟩
    · rename_i files hfiles
      have hin : name ∈ v.names := by
        by_contra hnot
        rw [files_eq_none.2 hnot] at hfiles
        cases hfiles
      split_ifs
      · refine ⟨hv.unlink hexpected hin (hP name hname), fun _ _ n hn => ?_⟩
        unfold Vault.published
        rw [names_unlink]
        exact hP n hn
      · exact ⟨hv, fun a ha => by cases ha⟩
  unfold removeBackup
  split_ifs
  · exact safe_fail _
  · refine (safe_read fun x v => ?_).bind fun files => ?_
    · unfold VaultOp.run
      dsimp only
      split <;> rfl
    · split_ifs
      · exact safe_fail _
      · refine (safe_eachInTurn _ hunlink).bind fun _ => ?_
        refine safe_op fun x v hv hP => ?_
        unfold VaultOp.run
        dsimp only
        split
        · refine ⟨hv.remove (hP name hname), fun _ _ n hn => ?_⟩
          rw [published_remove]
          exact Retention.le_above_filter_ne (hP name hname) (hP n hn)
        · exact ⟨hv, fun a ha => by cases ha⟩

theorem safe_retention : Safe keep (fun _ => True) (retention keep) fun _ _ => True := by
  have hiter : Safe keep (fun _ => True) (vaultOp .iterdir) fun names v => names = v.names := by
    refine safe_op fun x v hv _ => ⟨hv, fun a ha => ?_⟩
    exact (Except.ok.inj ha).symm
  refine hiter.bind fun names v hv hnames => ?_
  obtain rfl := hnames
  have hexpired : Expired keep ((Retention.newestFirst v.published).drop keep) v := by
    intro name h
    exact ((Retention.mem_drop_newestFirst (hv.nodup.filter _)).1 h).2
  refine ((safe_eachInTurn _ fun name h => safe_removeBackup h).bind fun _ => ?_) v hv hexpired
  split_ifs
  · exact safe_pure fun _ _ => trivial
  · exact (safe_read fun _ _ => rfl).bind fun _ => safe_pure fun _ _ => trivial

/-- A backup that stops anywhere keeps the invariant. -/
theorem safe_createBackup (t : Calendar.DateTime) (uuid : String) :
    Safe keep (fun _ => True) (createBackup keep t uuid) fun _ _ => True := by
  unfold createBackup
  dsimp only
  have hpending := isBackupId_pendingName (backupName t) uuid
  generalize backupName t = backupId at hpending ⊢
  generalize pendingName backupId uuid = pending at hpending ⊢
  refine (safe_read fun _ _ => rfl).bind fun _ => ?_
  split_ifs with hid
  · exact safe_fail _
  rw [Bool.not_eq_false] at hid
  refine (safe_read fun _ _ => rfl).bind fun pendingExists => ?_
  refine (safe_read fun _ _ => rfl).bind fun finalExists => ?_
  split_ifs
  · exact safe_fail _
  have hmkdir : Safe keep (fun _ => True) (vaultOp (.mkdir pending))
      fun _ => Has pending [] := by
    refine safe_op fun x v hv _ => ?_
    unfold VaultOp.run
    dsimp only
    split_ifs with hnew
    · exact ⟨hv, fun a ha => by cases ha⟩
    · have hmade := hv.mkdir hpending hnew
      exact ⟨hmade, fun _ _ => files_mkdir hmade.nodup⟩
  refine hmkdir.bind fun _ => ?_
  have hfill : Safe keep (Has pending [])
      (fillAndPublish keep backupId pending) fun _ _ => True := by
    refine Safe.bind (R := fun _ _ => True) ?_ fun _ =>
      safe_retention.bind fun _ => safe_pure fun _ _ => trivial
    refine (safe_acquire hpending).bind fun _ => (safe_read fun _ _ => rfl).bind fun _ => ?_
    refine (safe_writeFile hpending).bind fun _ => (safe_writeFile hpending).bind fun _ => ?_
    refine (safe_read fun _ _ => rfl).bind fun _ => (safe_replace hpending hid).bind fun _ => ?_
    exact (safe_read fun _ _ => rfl).bind fun _ => safe_pure fun _ _ => trivial
  refine (hfill.attempt.mono (fun _ h => h) fun _ _ _ => trivial).bind fun result => ?_
  have hdrop : Safe keep (fun _ => True) (dropPending pending)
      fun _ _ => True := by
    refine (safe_read fun _ _ => rfl).bind fun present => ?_
    split_ifs
    · exact safe_rmtree hpending
    · exact safe_pure fun _ _ => trivial
  refine hdrop.bind fun _ => ?_
  cases result with
  | ok a => exact safe_pure fun _ _ => trivial
  | error e => exact safe_fail e

/-! ## Backups that nothing disturbs -/

/-- The server and the file system work. -/
structure VaultChoice.Works (x : VaultChoice) : Prop where
  fault : x.fault = none
  nonempty : 1 ≤ x.snapshotBytes

variable {x : VaultChoice}

theorem exec_vaultOp (hx : x.Works) (o : VaultOp) (v : Vault) :
    exec performVault x (vaultOp o) v = o.run x v := by
  have hact : performVault o x v = o.run x v := by
    unfold performVault
    rw [hx.fault]
  unfold vaultOp
  rw [exec_bind]
  change exec (I := vaultInterface) performVault x
    (Prog.ofExcept (performVault o x v).1) (performVault o x v).2 = _
  rw [exec_ofExcept, hact]

variable {A : VaultOp → Prop}

theorem exec_keeps {K : Vault → Prop} (hp : Asks A p)
    (hA : ∀ o x v, A o → K v → K (performVault o x v).2) {v : Vault} (hK : K v) :
    K (exec performVault x p v).2 := by
  have hall : ∀ (p : VaultProg α) h v, Trail (fun _ o => A o) (fun _ _ => True)
      (fun _ _ => True) p h → K v → K (exec performVault x p v).2 := by
    intro p
    induction p with
    | ret a => exact fun _ _ _ hK => hK
    | fail e => exact fun _ _ _ hK => hK
    | ask o k ih => exact fun h v hp hK => ih _ _ _ (hp.2 _) (hA o x v hp.1 hK)
  exact hall p [] v (hp []) hK

theorem exec_unlink (hx : x.Works) {v : Vault} (h : v.files name = some files)
    (hfile : file ∈ files) :
    exec performVault x (vaultOp (.unlink name file)) v = (.ok (), v.unlink name file) := by
  rw [exec_vaultOp hx]
  unfold VaultOp.run
  simp only [h, if_pos hfile]

theorem files_map (v : Vault) (name n : String) (g : List String → List String)
    (log : List VaultEvent) :
    Vault.files ⟨v.entries.map fun e => if e.1 = name then (e.1, g e.2) else e, log⟩ n =
      (v.files n).map fun files => if n = name then g files else files := by
  unfold Vault.files
  simp only
  induction v.entries with
  | nil => rfl
  | cons e l ih =>
    rw [List.map_cons, List.find?_cons, List.find?_cons]
    by_cases he : e.1 = n
    · by_cases hn : e.1 = name
      · simp [← he, hn]
      · simp [← he, hn]
    · have hfst : (if e.1 = name then (e.1, g e.2) else e).1 = e.1 := by
        split_ifs <;> rfl
      rw [hfst, decide_eq_false he]
      exact ih

theorem files_unlink (v : Vault) (name file n : String) :
    (v.unlink name file).files n =
      (v.files n).map fun files => if n = name then files.filter (· ≠ file) else files :=
  files_map v name n (fun files => files.filter (· ≠ file)) _

theorem files_create (v : Vault) (name file n : String) :
    (v.create name file).files n =
      (v.files n).map fun files => if n = name then files ++ [file] else files :=
  files_map v name n (fun files => files ++ [file]) _

theorem entries_unlink_remove (v : Vault) (name file : String) :
    ((v.unlink name file).remove name).entries = (v.remove name).entries := by
  unfold Vault.remove Vault.unlink
  simp only
  induction v.entries with
  | nil => rfl
  | cons e l ih =>
    rw [List.map_cons]
    by_cases he : e.1 = name
    · rw [if_pos he, List.filter_cons_of_neg (by simp [he]),
        List.filter_cons_of_neg (by simp [he]), ih]
    · rw [if_neg he, List.filter_cons_of_pos (by simp [he]),
        List.filter_cons_of_pos (by simp [he]), ih]

theorem exec_removeBackup (hx : x.Works) {v : Vault} (hid : isBackupId name = true)
    (h : v.files name = some expectedFiles) :
    ∃ w, exec performVault x (removeBackup name) v = (.ok (), w) ∧
      w.entries = v.entries.filter fun e => e.1 ≠ name := by
  unfold removeBackup
  rw [if_neg (by rw [hid]; exact Bool.noConfusion)]
  have hlist : exec performVault x (vaultOp (.listdir name)) v = (.ok expectedFiles, v) := by
    rw [exec_vaultOp hx]
    unfold VaultOp.run
    simp only [h]
  rw [exec_bind_ok hlist, if_neg (by simp)]
  have h₁ := exec_unlink hx h (show "manifest.json" ∈ expectedFiles by decide)
  have hfiles₁ : (v.unlink name "manifest.json").files name =
      some ["snapshot.age", "snapshot.age.sha256"] := by
    rw [files_unlink, h, Option.map_some, if_pos rfl]
    rfl
  have h₂ := exec_unlink hx hfiles₁ (show "snapshot.age" ∈ _ from List.mem_cons_self)
  have hfiles₂ : ((v.unlink name "manifest.json").unlink name "snapshot.age").files name =
      some ["snapshot.age.sha256"] := by
    rw [files_unlink, hfiles₁, Option.map_some, if_pos rfl]
    rfl
  have h₃ := exec_unlink hx hfiles₂ (show "snapshot.age.sha256" ∈ _ from List.mem_cons_self)
  have hfiles₃ : (((v.unlink name "manifest.json").unlink name "snapshot.age").unlink name
      "snapshot.age.sha256").files name = some [] := by
    rw [files_unlink, hfiles₂, Option.map_some, if_pos rfl]
    rfl
  have hrmdir : ∀ w : Vault, w.files name = some [] →
      exec performVault x (vaultOp (.rmdir name)) w = (.ok (), w.remove name) := by
    intro w hw
    rw [exec_vaultOp hx]
    unfold VaultOp.run
    simp only [hw]
  have hloop : exec performVault x (eachInTurn (fun file => vaultOp (.unlink name file))
      ["manifest.json", "snapshot.age", "snapshot.age.sha256"]) v =
      (.ok (), ((v.unlink name "manifest.json").unlink name "snapshot.age").unlink name
        "snapshot.age.sha256") := by
    unfold eachInTurn
    rw [exec_bind_ok h₁]
    unfold eachInTurn
    rw [exec_bind_ok h₂]
    unfold eachInTurn
    rw [exec_bind_ok h₃]
    rfl
  refine ⟨_, (exec_bind_ok hloop).trans (hrmdir _ hfiles₃), ?_⟩
  rw [entries_unlink_remove, Vault.remove]
  have hagain := entries_unlink_remove (v.unlink name "manifest.json") name "snapshot.age"
  unfold Vault.remove at hagain
  rw [hagain]
  have hlast := entries_unlink_remove v name "manifest.json"
  unfold Vault.remove at hlast
  exact hlast

theorem exec_removeBackup_torn (hx : x.Works) {v : Vault} (h : v.files name = some files)
    (htorn : files.toFinset ≠ expectedFiles.toFinset) :
    ∃ e w, exec performVault x (removeBackup name) v = (.error e, w) := by
  unfold removeBackup
  split_ifs with hid
  · exact ⟨_, _, rfl⟩
  · have hlist : exec performVault x (vaultOp (.listdir name)) v = (.ok files, v) := by
      rw [exec_vaultOp hx]
      unfold VaultOp.run
      simp only [h]
    rw [exec_bind_ok hlist, if_pos htorn]
    exact ⟨_, _, rfl⟩

def About (name : String) : VaultOp → Prop
  | .listdir n => n = name
  | .unlink n _ => n = name
  | .rmdir n => n = name
  | _ => False

theorem asks_vaultOp (h : A o) : Asks A (vaultOp o) :=
  (asks_perform (I := vaultInterface) h).bind fun _ => asks_ofExcept _

theorem asks_removeBackup (name : String) : Asks (About name) (removeBackup name) := by
  have hop : ∀ o, About name o → Asks (About name) (vaultOp o) := fun o h => asks_vaultOp h
  unfold removeBackup
  split_ifs
  · exact asks_fail _
  · refine (hop (.listdir name) rfl).bind fun files => ?_
    split_ifs
    · exact asks_fail _
    · refine Asks.bind ?_ fun _ => hop (.rmdir name) rfl
      exact (hop (.unlink name _) rfl).bind fun _ => (hop (.unlink name _) rfl).bind fun _ =>
        (hop (.unlink name _) rfl).bind fun _ => asks_pure _

theorem files_remove_ne (v : Vault) (h : n ≠ name) : (v.remove name).files n = v.files n := by
  unfold Vault.files Vault.remove
  simp only
  induction v.entries with
  | nil => rfl
  | cons e l ih =>
    by_cases he : e.1 = name
    · rw [List.filter_cons_of_neg (by simp [he]), ih, List.find?_cons,
        decide_eq_false (by rw [he]; exact h.symm)]
    · rw [List.filter_cons_of_pos (by simp [he]), List.find?_cons, List.find?_cons]
      by_cases hn : e.1 = n
      · rw [decide_eq_true hn]
      · rw [decide_eq_false hn]
        exact ih

/-- The removal of one backup leaves the others. -/
theorem files_exec_removeBackup {v : Vault} (h : n ≠ name) (hfiles : v.files n = some files) :
    (exec performVault x (removeBackup name) v).2.files n = some files := by
  refine exec_keeps (K := fun v => v.files n = some files) (asks_removeBackup name) ?_ hfiles
  intro o x v ho hv
  unfold performVault
  split
  · exact hv
  · cases o with
    | listdir m =>
      unfold VaultOp.run
      dsimp only
      split <;> exact hv
    | unlink m file =>
      obtain rfl : m = name := ho
      unfold VaultOp.run
      dsimp only
      split
      · exact hv
      · split_ifs
        · rw [files_unlink, hv, Option.map_some, if_neg h]
        · exact hv
    | rmdir m =>
      obtain rfl : m = name := ho
      unfold VaultOp.run
      dsimp only
      split
      · rw [files_remove_ne v h, hv]
      · exact hv
    | _ => exact ho.elim

theorem exec_eachInTurn_torn (hx : x.Works) (hname : name ∈ l)
    (htorn : files.toFinset ≠ expectedFiles.toFinset) {v : Vault} (h : v.files name = some files) :
    ∃ e w, exec performVault x (eachInTurn removeBackup l) v = (.error e, w) := by
  induction l generalizing v with
  | nil => cases hname
  | cons n l ih =>
    unfold eachInTurn
    by_cases hn : n = name
    · obtain ⟨e, w, hfail⟩ := exec_removeBackup_torn hx (hn ▸ h) htorn
      exact ⟨e, w, exec_bind_error hfail⟩
    · have hkept := files_exec_removeBackup (x := x) (Ne.symm hn) h
      rcases hrun : exec performVault x (removeBackup n) v with ⟨r, w⟩
      rw [hrun] at hkept
      cases r with
      | error e => exact ⟨e, w, exec_bind_error hrun⟩
      | ok u =>
        rw [exec_bind_ok hrun]
        exact ih ((List.mem_cons.1 hname).resolve_left (Ne.symm hn)) hkept

theorem exec_eachInTurn_whole (hx : x.Works) (hnodup : l.Nodup) {v : Vault}
    (h : ∀ name ∈ l, isBackupId name = true ∧ v.files name = some expectedFiles) :
    ∃ w, exec performVault x (eachInTurn removeBackup l) v = (.ok (), w) ∧
      w.names = v.names.filter fun n => n ∉ l := by
  induction l generalizing v with
  | nil => exact ⟨v, rfl, by simp⟩
  | cons name l ih =>
    obtain ⟨hnot, hnodup⟩ := List.nodup_cons.1 hnodup
    obtain ⟨hid, hfiles⟩ := h name List.mem_cons_self
    obtain ⟨w, hrun, hentries⟩ := exec_removeBackup hx hid hfiles
    have hwfiles : ∀ n ∈ l, isBackupId n = true ∧ w.files n = some expectedFiles := by
      intro n hn
      obtain ⟨hnid, hnfiles⟩ := h n (List.mem_cons_of_mem name hn)
      have hne : n ≠ name := by
        rintro rfl
        exact hnot hn
      have hkept := files_exec_removeBackup (x := x) hne hnfiles
      rw [hrun] at hkept
      exact ⟨hnid, hkept⟩
    obtain ⟨u, hrest, hnames⟩ := ih hnodup hwfiles
    refine ⟨u, ?_, ?_⟩
    · unfold eachInTurn
      rw [exec_bind_ok hrun]
      exact hrest
    · have hw : w.names = v.names.filter (· ≠ name) := by
        rw [← names_remove]
        unfold Vault.names
        rw [hentries]
        rfl
      rw [hnames, hw, List.filter_filter]
      refine List.filter_congr fun n _ => ?_
      by_cases hn : n = name <;> by_cases hl : n ∈ l <;> simp [hn, hl]

def Shrinks : VaultOp → Prop
  | .iterdir => True
  | .listdir _ => True
  | .unlink _ _ => True
  | .rmdir _ => True
  | .fsync _ => True
  | _ => False

theorem asks_retention : Asks Shrinks (retention keep) := by
  have hop : ∀ o, Shrinks o → Asks Shrinks (vaultOp o) := fun o h => asks_vaultOp h
  have hremove : ∀ name, Asks Shrinks (removeBackup name) := by
    intro name
    unfold removeBackup
    split_ifs
    · exact asks_fail _
    · refine (hop (.listdir name) trivial).bind fun files => ?_
      split_ifs
      · exact asks_fail _
      · refine Asks.bind ?_ fun _ => hop (.rmdir name) trivial
        exact (hop (.unlink name _) trivial).bind fun _ =>
          (hop (.unlink name _) trivial).bind fun _ =>
            (hop (.unlink name _) trivial).bind fun _ => asks_pure _
  refine (hop .iterdir trivial).bind fun names => ?_
  refine Asks.bind ?_ fun _ => ?_
  · generalize (Retention.newestFirst (backupsOf names)).drop keep = l
    induction l with
    | nil => exact asks_pure _
    | cons name l ih => exact (hremove name).bind fun _ => ih
  · split_ifs
    · exact asks_pure _
    · exact (hop (.fsync "") trivial).bind fun _ => asks_pure _

/-- The retention makes no directory. -/
theorem not_mem_exec_retention {v : Vault} (h : name ∉ v.names) :
    name ∉ (exec performVault x (retention keep) v).2.names := by
  refine exec_keeps (K := fun v => name ∉ v.names) asks_retention ?_ h
  intro o x v ho hv
  unfold performVault
  split
  · exact hv
  · cases o with
    | iterdir => exact hv
    | fsync n => exact hv
    | listdir n =>
      unfold VaultOp.run
      dsimp only
      split <;> exact hv
    | unlink n file =>
      unfold VaultOp.run
      dsimp only
      split
      · exact hv
      · split_ifs
        · rw [names_unlink]
          exact hv
        · exact hv
    | rmdir n =>
      unfold VaultOp.run
      dsimp only
      split
      · rw [names_remove]
        exact fun hmem => hv (List.mem_of_mem_filter hmem)
      · exact hv
    | _ => exact ho.elim

theorem exec_create (hx : x.Works) {v : Vault} (h : v.files name = some files)
    (hfile : file ∉ files) :
    exec performVault x (vaultOp (.create name file)) v = (.ok (), v.create name file) := by
  rw [exec_vaultOp hx]
  unfold VaultOp.run
  simp only [h, if_neg hfile]

theorem exec_writeFile (hx : x.Works) {v : Vault} (h : v.files name = some files)
    (hfile : file ∉ files) :
    exec performVault x (writeFile name file) v = (.ok (), v.create name file) := by
  unfold writeFile
  rw [exec_bind_ok (exec_create hx h hfile), exec_bind_ok (exec_vaultOp hx _ _),
    exec_vaultOp hx]
  rfl

theorem exec_acquire (hx : x.Works) {pending : String} {v : Vault}
    (h : v.files pending = some []) :
    exec performVault x (acquire pending) v = (.ok (), v.create pending "snapshot.age") := by
  have hstream : exec performVault x (streamSnapshot pending) v =
      (.ok x.snapshotBytes, v.create pending "snapshot.age") := by
    unfold streamSnapshot
    rw [exec_bind_ok (exec_create hx h List.not_mem_nil), exec_bind_ok (exec_vaultOp hx _ _)]
    rw [if_neg (Nat.not_lt.2 hx.nonempty)]
    rfl
  have hrevoke : exec performVault x (vaultOp .revoke) (v.create pending "snapshot.age") =
      (.ok (), v.create pending "snapshot.age") :=
    exec_vaultOp hx _ _
  unfold acquire
  rw [exec_bind_ok (exec_vaultOp hx _ _), exec_bind_ok (exec_attempt _ _)]
  change exec performVault x (Prog.attempt (vaultOp .revoke) >>= _)
    (exec performVault x (streamSnapshot pending) v).2 = _
  rw [hstream, exec_bind_ok (exec_attempt _ _), hrevoke]
  rfl

def Vault.afterPublish (v : Vault) (backupId pending : String) : Vault :=
  ((((v.mkdir pending).create pending "snapshot.age").create pending
    "snapshot.age.sha256").create pending "manifest.json").replace pending backupId

section publish

variable {v : Vault} {backupId pending : String}

def Vault.beforePublish (v : Vault) (pending : String) : Vault :=
  (((v.mkdir pending).create pending "snapshot.age").create pending
    "snapshot.age.sha256").create pending "manifest.json"

theorem inv_beforePublish (h : Inv keep v) (hid : isBackupId pending = false)
    (hnew : pending ∉ v.names) : Inv keep (v.beforePublish pending) :=
  (((h.mkdir hid hnew).create _ hid).create _ hid).create _ hid

theorem names_beforePublish (v : Vault) (pending : String) :
    (v.beforePublish pending).names = v.names ++ [pending] := by
  unfold Vault.beforePublish
  rw [names_create, names_create, names_create, names_mkdir]

theorem files_beforePublish (h : Inv keep v) (hid : isBackupId pending = false)
    (hnew : pending ∉ v.names) :
    (v.beforePublish pending).files pending = some expectedFiles := by
  unfold Vault.beforePublish
  rw [files_create, files_create, files_create, files_mkdir (h.mkdir hid hnew).nodup]
  simp only [Option.map_some, if_true]
  rfl

theorem inv_afterPublish (h : Inv keep v) (hid : isBackupId backupId = true)
    (hpending : isBackupId pending = false) (hnew : pending ∉ v.names)
    (hfinal : backupId ∉ v.names) : Inv keep (v.afterPublish backupId pending) := by
  refine (inv_beforePublish h hpending hnew).publish hpending hid
    (files_beforePublish h hpending hnew) ?_
  rw [names_beforePublish, List.mem_append, List.mem_singleton, not_or]
  refine ⟨hfinal, ?_⟩
  rintro rfl
  rw [hid] at hpending
  cases hpending

theorem published_afterPublish (h : Inv keep v) (hid : isBackupId backupId = true)
    (hpending : isBackupId pending = false) (hnew : pending ∉ v.names) :
    (v.afterPublish backupId pending).published.Perm (backupId :: v.published) := by
  have hmem : pending ∈ (v.beforePublish pending).names := by
    rw [names_beforePublish]
    exact List.mem_append_right _ (List.mem_singleton.2 rfl)
  have hsame : (v.beforePublish pending).published = v.published := by
    unfold Vault.published backupsOf
    rw [names_beforePublish, List.filter_append, List.filter_cons_of_neg, List.filter_nil,
      List.append_nil]
    rw [hpending, Bool.and_false]
    exact Bool.false_ne_true
  rw [← hsame]
  exact published_replace (inv_beforePublish h hpending hnew).nodup hmem hpending hid

theorem not_mem_afterPublish (hid : isBackupId backupId = true)
    (hpending : isBackupId pending = false) :
    pending ∉ (v.afterPublish backupId pending).names := by
  unfold Vault.afterPublish
  rw [names_replace, List.mem_map]
  rintro ⟨n, -, hn⟩
  split_ifs at hn with heq
  · rw [← hn, hid] at hpending
    cases hpending
  · exact heq hn

/-- A new backup that nothing disturbs is published. -/
theorem exec_fillAndRename (hx : x.Works) (h : Inv keep v) (hid : isBackupId backupId = true)
    (hpending : isBackupId pending = false) (hnew : pending ∉ v.names)
    (hfinal : backupId ∉ v.names) :
    exec performVault x (fillAndRename backupId pending) (v.mkdir pending) =
      (.ok x.encryptedBytes, v.afterPublish backupId pending) := by
  have hmade := files_mkdir (h.mkdir hpending hnew).nodup
  have hfiles₁ : ((v.mkdir pending).create pending "snapshot.age").files pending =
      some ["snapshot.age"] := by
    rw [files_create, hmade, Option.map_some, if_pos rfl]
    rfl
  have hfiles₂ : (((v.mkdir pending).create pending "snapshot.age").create pending
      "snapshot.age.sha256").files pending = some ["snapshot.age", "snapshot.age.sha256"] := by
    rw [files_create, hfiles₁, Option.map_some, if_pos rfl]
    rfl
  have hreplace : exec performVault x (vaultOp (.replace pending backupId))
      (v.beforePublish pending) = (.ok (), v.afterPublish backupId pending) := by
    rw [exec_vaultOp hx]
    unfold VaultOp.run
    dsimp only
    rw [if_pos]
    · rfl
    · rw [names_beforePublish]
      refine ⟨List.mem_append_right _ (List.mem_singleton.2 rfl), ?_⟩
      rw [List.mem_append, List.mem_singleton, not_or]
      refine ⟨hfinal, ?_⟩
      rintro rfl
      rw [hid] at hpending
      cases hpending
  unfold fillAndRename
  rw [exec_bind_ok (exec_acquire hx hmade), exec_bind_ok (exec_vaultOp hx _ _),
    exec_bind_ok (exec_writeFile hx hfiles₁ (by decide)),
    exec_bind_ok (exec_writeFile hx hfiles₂ (by decide)), exec_bind_ok (exec_vaultOp hx _ _)]
  change exec performVault x (vaultOp (.replace pending backupId) >>= _)
    (v.beforePublish pending) = _
  rw [exec_bind_ok hreplace, exec_bind_ok (exec_vaultOp hx _ _)]
  rfl

/-- A retention of a destination with complete backups keeps the newest. -/
theorem exec_retention_whole (hx : x.Works) (h : Inv keep v) (hdone : ¬Interrupted v) :
    ∃ w, exec performVault x (retention keep) v =
        (.ok ((Retention.newestFirst v.published).drop keep).length, w) ∧
      w.names = v.names.filter fun n => n ∉ (Retention.newestFirst v.published).drop keep := by
  have hnodup : v.published.Nodup := h.nodup.filter _
  have hwhole : ∀ name ∈ (Retention.newestFirst v.published).drop keep,
      isBackupId name = true ∧ v.files name = some expectedFiles := by
    intro name hname
    obtain ⟨hin, -⟩ := (Retention.mem_drop_newestFirst hnodup).1 hname
    obtain ⟨hmem, hid⟩ := mem_published.1 hin
    obtain ⟨⟨n, files⟩, he, rfl⟩ := List.mem_map.1 hmem
    have hnot : removing n v.log = false := by
      by_contra hbegun
      exact hdone ⟨n, hid, Bool.eq_true_of_not_eq_false hbegun⟩
    rw [h.whole n files he hid hnot] at he
    exact ⟨hid, (files_eq_some h.nodup).2 he⟩
  have hsorted : ((Retention.newestFirst v.published).drop keep).Nodup :=
    (Retention.nodup_newestFirst hnodup).sublist (List.drop_sublist _ _)
  obtain ⟨w, hrun, hnames⟩ := exec_eachInTurn_whole hx hsorted hwhole
  refine ⟨w, ?_, hnames⟩
  unfold retention
  rw [exec_bind_ok (exec_vaultOp hx .iterdir v)]
  change exec performVault x (eachInTurn removeBackup
    ((Retention.newestFirst v.published).drop keep) >>= _) v = _
  rw [exec_bind_ok hrun]
  change exec (I := vaultInterface) performVault x
    (if ((Retention.newestFirst v.published).drop keep).length = 0 then _ else _) w = _
  split_ifs with hzero
  · rw [hzero]
    rfl
  · rw [exec_bind_ok (exec_vaultOp hx _ _)]
    rfl

theorem exec_retention_torn (hx : x.Works) (h : Inv keep v) (htorn : Interrupted v) :
    ∃ e w, exec performVault x (retention keep) v = (.error e, w) := by
  obtain ⟨name, hid, hbegun⟩ := htorn
  obtain ⟨hmem, hle⟩ := h.expired name hid hbegun
  have hexpired : name ∈ (Retention.newestFirst v.published).drop keep :=
    (Retention.mem_drop_newestFirst (h.nodup.filter _)).2 ⟨mem_published.2 ⟨hmem, hid⟩, hle⟩
  obtain ⟨⟨n, files⟩, he, rfl⟩ := List.mem_map.1 hmem
  obtain ⟨e, w, hrun⟩ := exec_eachInTurn_torn hx hexpired (h.torn n files he hid hbegun)
    ((files_eq_some h.nodup).2 he)
  refine ⟨e, w, ?_⟩
  unfold retention
  rw [exec_bind_ok (exec_vaultOp hx .iterdir v)]
  change exec performVault x (eachInTurn removeBackup
    ((Retention.newestFirst v.published).drop keep) >>= _) v = _
  exact exec_bind_error hrun

end publish

/-! ## The law -/

/-- The backup succeeds, is kept, and leaves no more than `keep` backups. -/
def Kept (keep : ℕ) (x : VaultChoice) (t : Calendar.DateTime) (uuid : String) (v : Vault) :
    Prop :=
  ∃ report w, exec performVault x (createBackup keep t uuid) v = (.ok report, w) ∧
    backupName t ∈ w.published ∧ w.published.length ≤ keep

def NewNames (t : Calendar.DateTime) (uuid : String) (v : Vault) : Prop :=
  pendingName (backupName t) uuid ∉ v.names ∧ backupName t ∉ v.names

theorem run_lexists (name : String) (x : VaultChoice) (v : Vault) :
    (VaultOp.lexists name).run x v = (.ok (v.names.contains name), v) :=
  rfl

theorem exec_lexists (hx : x.Works) {v : Vault} (h : name ∉ v.names) :
    exec performVault x (vaultOp (.lexists name)) v = (.ok false, v) := by
  rw [exec_vaultOp hx, run_lexists, List.contains_eq_mem, decide_eq_false h]

theorem exec_mkdir (hx : x.Works) {v : Vault} (h : name ∉ v.names) :
    exec performVault x (vaultOp (.mkdir name)) v = (.ok (), v.mkdir name) := by
  rw [exec_vaultOp hx]
  unfold VaultOp.run
  dsimp only
  rw [if_neg h]
  rfl

variable {t : Calendar.DateTime}

/-- A backup with a new name ends as its retention ends. -/
theorem exec_createBackup (hx : x.Works) {v : Vault} (h : Inv keep v)
    (hid : isBackupId (backupName t) = true) (hnew : NewNames t uuid v) :
    exec performVault x (createBackup keep t uuid) v =
      exec performVault x (retention keep >>= fun removed =>
        pure (VaultReport.mk (backupName t) x.encryptedBytes removed))
        (v.afterPublish (backupName t) (pendingName (backupName t) uuid)) := by
  have hpending := isBackupId_pendingName (backupName t) uuid
  obtain ⟨hnewPending, hnewFinal⟩ := hnew
  unfold createBackup
  dsimp only
  generalize pendingName (backupName t) uuid = pending at *
  generalize backupName t = backupId at *
  rw [exec_bind_ok (exec_vaultOp hx _ _), if_neg (by rw [hid]; exact Bool.noConfusion),
    exec_bind_ok (exec_lexists hx hnewPending), exec_bind_ok (exec_lexists hx hnewFinal),
    if_neg (by decide), exec_bind_ok (exec_mkdir hx hnewPending), exec_bind_ok (exec_attempt _ _)]
  have hfill : exec performVault x (fillAndPublish keep backupId pending) (v.mkdir pending) = _ :=
    exec_bind_ok (exec_fillAndRename hx h hid hpending hnewPending hnewFinal)
  rw [hfill]
  have hout : pending ∉ (exec performVault x (retention keep)
      (v.afterPublish backupId pending)).2.names :=
    not_mem_exec_retention (not_mem_afterPublish hid hpending)
  rcases hrun : exec performVault x (retention keep) (v.afterPublish backupId pending)
    with ⟨r, w⟩
  rw [hrun] at hout
  have hdrop : exec performVault x (dropPending pending) w = (.ok (), w) := by
    unfold dropPending
    rw [exec_bind_ok (exec_lexists hx hout)]
    rfl
  obtain ⟨result, hresult⟩ : ∃ result, exec performVault x (retention keep >>= fun removed =>
      pure (VaultReport.mk backupId x.encryptedBytes removed))
      (v.afterPublish backupId pending) = (result, w) := by
    cases r with
    | ok n => exact ⟨_, exec_bind_ok hrun⟩
    | error e => exact ⟨_, exec_bind_error hrun⟩
  rw [hresult, exec_bind_ok hdrop, exec_ofExcept]

/-- Backups one after the other, each of which may be stopped at any step, from a destination with
complete backups. -/
inductive History (keep : ℕ) : Vault → Prop
  | start {v : Vault} (hnodup : v.names.Nodup) (hwhole : ∀ name files, (name, files) ∈ v.entries →
      isBackupId name = true → files = expectedFiles) (hlog : v.log = []) : History keep v
  | run {v w : Vault} {t : Calendar.DateTime} {uuid : String} (h : History keep v)
      (hrun : Reaches performVault (createBackup keep t uuid) v w) : History keep w

theorem History.inv {v : Vault} (h : History keep v) : Inv keep v := by
  induction h with
  | start hnodup hwhole hlog =>
    refine ⟨hnodup, fun name files he hid _ => hwhole name files he hid, ?_, ?_⟩
    · intro name files _ _ hbegun
      rw [hlog] at hbegun
      cases hbegun
    · intro name _ hbegun
      rw [hlog] at hbegun
      cases hbegun
  | run h hrun ih => exact (safe_createBackup _ _ _ ih trivial).crash hrun

/-- What a retention of complete backups leaves. -/
theorem mem_published_retained {v w : Vault} (h : v.names.Nodup)
    (hnames : w.names = v.names.filter fun n => n ∉ (Retention.newestFirst v.published).drop keep) :
    name ∈ w.published ↔
      name ∈ v.published ∧ Retention.above name v.published < keep := by
  rw [mem_published, hnames, List.mem_filter, decide_eq_true_eq,
    Retention.mem_drop_newestFirst (l := v.published) (h.filter _)]
  constructor
  · rintro ⟨⟨hmem, hnot⟩, hid⟩
    have hin := mem_published.2 ⟨hmem, hid⟩
    exact ⟨hin, by by_contra hle; exact hnot ⟨hin, by omega⟩⟩
  · rintro ⟨hin, hlt⟩
    obtain ⟨hmem, hid⟩ := mem_published.1 hin
    exact ⟨⟨hmem, fun hexpired => by omega⟩, hid⟩

theorem not_kept_of_interrupted {v : Vault} (h : Inv keep v) (hx : x.Works) (htorn : Interrupted v)
    (hid : isBackupId (backupName t) = true) (hnew : NewNames t uuid v) :
    ¬Kept keep x t uuid v := by
  rintro ⟨report, w, hrun, -⟩
  obtain ⟨e, u, hfail⟩ := exec_retention_torn hx
    (inv_afterPublish h hid (isBackupId_pendingName _ _) hnew.1 hnew.2) htorn
  rw [exec_createBackup hx h hid hnew, exec_bind_error hfail] at hrun
  cases hrun

/-- After any history, a backup that nothing disturbs succeeds, is kept and leaves no more than
`keep` backups exactly when no removal was interrupted, its names are new, and fewer than `keep`
backups have a later name. -/
theorem retention_iff {v : Vault} (h : History keep v) (hx : x.Works) (t : Calendar.DateTime)
    (uuid : String) : Kept keep x t uuid v ↔
      ¬Interrupted v ∧ isBackupId (backupName t) = true ∧ NewNames t uuid v ∧
        Retention.above (backupName t) v.published < keep := by
  have hinv := h.inv
  have hpending := isBackupId_pendingName (backupName t) uuid
  by_cases hid : isBackupId (backupName t) = true
  · by_cases hnew : NewNames t uuid v
    · have hafter := inv_afterPublish hinv hid hpending hnew.1 hnew.2
      have hperm := published_afterPublish hinv hid hpending hnew.1
      have hexec := exec_createBackup hx hinv hid hnew
      have habove : Retention.above (backupName t) (v.afterPublish (backupName t)
          (pendingName (backupName t) uuid)).published =
          Retention.above (backupName t) v.published := by
        rw [Retention.above_perm hperm, Retention.above_cons, if_neg (lt_irrefl _)]
        rfl
      by_cases hdone : Interrupted v
      · exact iff_of_false (not_kept_of_interrupted hinv hx hdone hid hnew) fun hc => hc.1 hdone
      · obtain ⟨w, hret, hnames⟩ := exec_retention_whole hx hafter hdone
        rw [exec_bind_ok hret, exec_pure] at hexec
        have hmem := fun name => @mem_published_retained name keep _ w hafter.nodup hnames
        constructor
        · rintro ⟨report, u, hrun, hkept, -⟩
          rw [hexec] at hrun
          obtain ⟨-, rfl⟩ := Prod.mk.inj hrun
          exact ⟨hdone, hid, hnew, habove ▸ ((hmem _).1 hkept).2⟩
        · rintro ⟨-, -, -, hlt⟩
          refine ⟨_, w, hexec, (hmem _).2 ⟨hperm.mem_iff.2 List.mem_cons_self, habove ▸ hlt⟩, ?_⟩
          have hsub : w.published.Sublist (v.afterPublish (backupName t)
              (pendingName (backupName t) uuid)).published := by
            unfold Vault.published backupsOf
            rw [hnames]
            exact List.filter_sublist.filter _
          refine Retention.length_le_of_above_lt (hsub.nodup (hafter.nodup.filter _))
            fun name hname => ?_
          exact (hsub.countP_le).trans_lt ((hmem name).1 hname).2
    · refine iff_of_false ?_ fun hc => hnew hc.2.2.1
      rintro ⟨report, w, hrun, -⟩
      have hexists : (v.names.contains (pendingName (backupName t) uuid) ||
          v.names.contains (backupName t)) = true := by
        rw [Bool.or_eq_true, List.contains_eq_mem, List.contains_eq_mem, decide_eq_true_eq,
          decide_eq_true_eq]
        by_contra hnot
        exact hnew (not_or.1 hnot)
      unfold createBackup at hrun
      dsimp only at hrun
      rw [exec_bind_ok (exec_vaultOp hx _ _), if_neg (by rw [hid]; exact Bool.noConfusion),
        exec_bind_ok ((exec_vaultOp hx _ _).trans (run_lexists _ _ _)),
        exec_bind_ok ((exec_vaultOp hx _ _).trans (run_lexists _ _ _)), if_pos hexists] at hrun
      cases hrun
  · refine iff_of_false ?_ fun hc => hid hc.2.1
    rintro ⟨report, w, hrun, -⟩
    unfold createBackup at hrun
    rw [exec_bind_ok (exec_vaultOp hx _ _)] at hrun
    dsimp only at hrun
    rw [if_pos (Bool.eq_false_of_not_eq_true hid)] at hrun
    cases hrun

/-! ## A crash inside a removal -/

/-- The destination once the first file of a backup is removed. -/
def crashed (v : Vault) (backupId pending old : String) : Vault :=
  (v.afterPublish backupId pending).unlink old "manifest.json"

/-- A backup may be stopped after it has removed the first file of an expired one. -/
theorem reaches_crashed (hx : x.Works) {v : Vault} (h : Inv keep v)
    (hid : isBackupId (backupName t) = true) (hnew : NewNames t uuid v) {old : String}
    {rest : List String} (hexpired : (Retention.newestFirst (v.afterPublish (backupName t)
      (pendingName (backupName t) uuid)).published).drop keep = old :: rest)
    (hold : isBackupId old = true)
    (hfiles : (v.afterPublish (backupName t) (pendingName (backupName t) uuid)).files old =
      some expectedFiles) : Reaches performVault (createBackup keep t uuid) v
      (crashed v (backupName t) (pendingName (backupName t) uuid) old) := by
  have hpending := isBackupId_pendingName (backupName t) uuid
  obtain ⟨hnewPending, hnewFinal⟩ := hnew
  unfold createBackup
  dsimp only
  generalize pendingName (backupName t) uuid = pending at *
  generalize backupName t = backupId at *
  refine reaches_bind_of_exec (exec_vaultOp hx _ _) ?_
  rw [if_neg (by rw [hid]; exact Bool.noConfusion)]
  refine reaches_bind_of_exec (exec_lexists hx hnewPending) ?_
  refine reaches_bind_of_exec (exec_lexists hx hnewFinal) ?_
  rw [if_neg (by decide)]
  refine reaches_bind_of_exec (exec_mkdir hx hnewPending) ?_
  refine Reaches.bind (Reaches.attempt ?_) _
  refine reaches_bind_of_exec
    (exec_fillAndRename hx h hid hpending hnewPending hnewFinal) ?_
  refine Reaches.bind ?_ _
  refine reaches_bind_of_exec (exec_vaultOp hx .iterdir _) ?_
  refine Reaches.bind ?_ _
  change Reaches performVault (eachInTurn removeBackup ((Retention.newestFirst
    (v.afterPublish backupId pending).published).drop keep)) _ _
  rw [hexpired]
  refine Reaches.bind ?_ _
  unfold removeBackup
  rw [if_neg (by rw [hold]; exact Bool.noConfusion)]
  have hlist : exec performVault x (vaultOp (.listdir old)) (v.afterPublish backupId pending) =
      (.ok expectedFiles, v.afterPublish backupId pending) := by
    rw [exec_vaultOp hx]
    unfold VaultOp.run
    simp only [hfiles]
  refine reaches_bind_of_exec hlist ?_
  rw [if_neg (by simp)]
  refine Reaches.bind ?_ _
  exact reaches_bind_of_exec (exec_unlink hx hfiles (by decide)) (reaches_refl _ _)

theorem isBackupId_backupName
    (h : matchesShape backupIdShape ("openbao-raft-".toList ++ strftime t) = true) :
    isBackupId (backupName t) = true := by
  unfold isBackupId backupName
  rw [toChars_ofChars, toChars_eq]
  exact h

theorem backupName_lt {u : Calendar.DateTime} (h : strftime t < strftime u) :
    backupName t < backupName u := by
  unfold backupName
  rw [ofChars_eq, ofChars_eq, String.lt_iff_toList_lt, String.toList_ofList,
    String.toList_ofList]
  exact List.append_left_lt h

namespace Sample

theorem first_lt_max : 63900000000000000 < Calendar.maxMicros := by
  decide

def first : Calendar.DateTime :=
  ⟨63900000000000000, first_lt_max⟩

def second : Calendar.DateTime :=
  ⟨63900086400000000, by decide⟩

/-- Two days later. -/
def third : Calendar.DateTime :=
  ⟨63900172800000000, by decide⟩

def quiet : VaultChoice :=
  ⟨none, 1, 128⟩

def stored : Vault :=
  ⟨[(backupName first, expectedFiles)], []⟩

/-- The second backup was stopped while it removed the first one. -/
def stopped : Vault :=
  crashed stored (backupName second) (pendingName (backupName second) "a") (backupName first)

theorem quiet_works : quiet.Works :=
  ⟨rfl, by decide⟩

theorem first_lt : backupName first < backupName second :=
  backupName_lt (by decide)

theorem second_lt : backupName second < backupName third :=
  backupName_lt (by decide)

theorem isBackupId_first : isBackupId (backupName first) = true :=
  isBackupId_backupName (by decide)

theorem isBackupId_second : isBackupId (backupName second) = true :=
  isBackupId_backupName (by decide)

theorem isBackupId_third : isBackupId (backupName third) = true :=
  isBackupId_backupName (by decide)

theorem history_stored : History 1 stored := by
  refine .start (List.nodup_singleton _) ?_ rfl
  intro name files he _
  exact (Prod.mk.inj (List.mem_singleton.1 he)).2

theorem inv_stored : Inv 1 stored :=
  history_stored.inv

theorem published_stored : stored.published = [backupName first] := by
  unfold Vault.published backupsOf
  change [backupName first].filter _ = _
  rw [List.filter_cons_of_pos]
  · rfl
  · rw [isBackupId_first, isPending_of_isBackupId isBackupId_first]
    rfl

theorem newNames_second : NewNames second "a" stored := by
  refine ⟨fun h => ?_, fun h => ?_⟩
  · have hid := isBackupId_pendingName (backupName second) "a"
    rw [List.mem_singleton.1 h, isBackupId_first] at hid
    cases hid
  · exact absurd (List.mem_singleton.1 h) first_lt.ne'

/-- The destination once the second backup is published. -/
def both : Vault :=
  stored.afterPublish (backupName second) (pendingName (backupName second) "a")

theorem published_both : both.published.Perm [backupName second, backupName first] := by
  have hperm := published_afterPublish inv_stored isBackupId_second
    (isBackupId_pendingName (backupName second) "a") newNames_second.1
  rw [published_stored] at hperm
  exact hperm

theorem inv_both : Inv 1 both :=
  inv_afterPublish inv_stored isBackupId_second (isBackupId_pendingName _ _) newNames_second.1
    newNames_second.2

theorem mem_both : backupName first ∈ both.names :=
  (mem_published.1 (published_both.mem_iff.2 (List.mem_cons_of_mem _ List.mem_cons_self))).1

theorem expired_both : (Retention.newestFirst both.published).drop 1 = [backupName first] := by
  have hnodup := inv_both.nodup_published
  have hmem : backupName first ∈ (Retention.newestFirst both.published).drop 1 := by
    refine (Retention.mem_drop_newestFirst hnodup).2
      ⟨published_both.mem_iff.2 (List.mem_cons_of_mem _ List.mem_cons_self), ?_⟩
    rw [Retention.above_perm published_both, Retention.above_cons, if_pos first_lt]
    exact Nat.le_add_left 1 _
  have hlength : ((Retention.newestFirst both.published).drop 1).length = 1 := by
    rw [List.length_drop, Retention.length_newestFirst, published_both.length_eq]
    rfl
  obtain ⟨name, hname⟩ := List.length_eq_one_iff.1 hlength
  rw [hname] at hmem ⊢
  rw [List.mem_singleton.1 hmem]

theorem files_both : both.files (backupName first) = some expectedFiles := by
  obtain ⟨⟨name, files⟩, he, hname⟩ := List.mem_map.1 mem_both
  obtain rfl : name = backupName first := hname
  rw [(files_eq_some inv_both.nodup).2 he,
    inv_both.whole _ files he isBackupId_first rfl]

theorem history_stopped : History 1 stopped :=
  .run history_stored (reaches_crashed quiet_works inv_stored isBackupId_second newNames_second
    expired_both isBackupId_first files_both)

theorem interrupted_stopped : Interrupted stopped :=
  ⟨backupName first, isBackupId_first, removing_unlinked.2 (.inl rfl)⟩

theorem published_stopped : stopped.published.Perm [backupName second, backupName first] := by
  have hsame : stopped.published = both.published := by
    unfold Vault.published
    change backupsOf (both.unlink (backupName first) "manifest.json").names = _
    rw [names_unlink]
  rw [hsame]
  exact published_both

theorem below_third {name : String} (h : name ∈ stopped.published) : name < backupName third := by
  rcases List.mem_cons.1 (published_stopped.mem_iff.1 h) with rfl | h
  · exact second_lt
  · rw [List.mem_singleton.1 h]
    exact first_lt.trans second_lt

theorem newNames_third : NewNames third "b" stopped := by
  have hnames : stopped.names = both.names := names_unlink both _ _
  have hboth : both.names = [backupName first, backupName second] := by
    have hfirst : backupName first ≠ pendingName (backupName second) "a" := by
      intro h
      have hid := isBackupId_pendingName (backupName second) "a"
      rw [← h, isBackupId_first] at hid
      cases hid
    change ((stored.beforePublish (pendingName (backupName second) "a")).replace _ _).names = _
    rw [names_replace, names_beforePublish]
    change [if backupName first = _ then _ else _, if _ = _ then _ else _] = _
    rw [if_neg hfirst, if_pos rfl]
  have hpublished : ∀ name ∈ stopped.names, name < backupName third ∧ isBackupId name = true := by
    intro name hname
    rw [hnames, hboth] at hname
    rcases List.mem_cons.1 hname with rfl | hname
    · exact ⟨first_lt.trans second_lt, isBackupId_first⟩
    · rw [List.mem_singleton.1 hname]
      exact ⟨second_lt, isBackupId_second⟩
  refine ⟨fun h => ?_, fun h => (hpublished _ h).1.false⟩
  have hid := (hpublished _ h).2
  rw [isBackupId_pendingName] at hid
  cases hid

end Sample

/-- A crash inside a removal makes the next backup fail, also when the clock only goes forward. -/
theorem retention_stops : ¬∀ (keep : ℕ) (v : Vault) (x : VaultChoice) (t : Calendar.DateTime)
    (uuid : String), 1 ≤ keep → History keep v → x.Works → isBackupId (backupName t) = true →
      NewNames t uuid v → (∀ name ∈ v.published, name < backupName t) →
        Kept keep x t uuid v := by
  intro h
  exact not_kept_of_interrupted Sample.history_stopped.inv Sample.quiet_works
    Sample.interrupted_stopped Sample.isBackupId_third Sample.newNames_third
    (h 1 Sample.stopped Sample.quiet Sample.third "b" le_rfl Sample.history_stopped
      Sample.quiet_works Sample.isBackupId_third Sample.newNames_third
      fun _ => Sample.below_third)

/-- The second backup of the sample succeeds if it is not stopped. -/
theorem retention_iff_sample : Kept 1 Sample.quiet Sample.second "a" Sample.stored := by
  refine (retention_iff Sample.history_stored Sample.quiet_works _ _).2
    ⟨?_, Sample.isBackupId_second, Sample.newNames_second, ?_⟩
  · rintro ⟨name, -, h⟩
    cases h
  · rw [Sample.published_stored]
    unfold Retention.above
    rw [List.countP_cons, List.countP_nil, if_neg]
    · exact Nat.zero_lt_one
    · exact fun h => Sample.first_lt.asymm (of_decide_eq_true h)

end OpsVault
