import OpsControlPlane.Memory.Backup

/-!
# Restorable backups

The number of points in a manifest is asked before the snapshot is taken, and the service may
write in between. `growth` is by how much the changes in between change the number of points.

`restorable_iff` says that a backup passes its restore test exactly when that is zero.
-/

namespace OpsMemory

open Calls Prog

variable {κ : Type} [DecidableEq κ]

/-! ## Changes -/

def Change.growth (points : Finset κ) : Change κ → ℤ
  | .upsert ids => (ids \ points).card
  | .delete ids => -((points ∩ ids).card : ℤ)

def growth (points : Finset κ) : List (Change κ) → ℤ
  | [] => 0
  | c :: changes => c.growth points + growth (c.apply points) changes

theorem card_apply (points : Finset κ) (c : Change κ) :
    ((c.apply points).card : ℤ) = points.card + c.growth points := by
  cases c with
  | upsert ids =>
    have hunion : (points ∪ ids).card = points.card + (ids \ points).card := by
      rw [← Finset.union_sdiff_self_eq_union, Finset.card_union_of_disjoint
        Finset.disjoint_sdiff]
    change ((points ∪ ids).card : ℤ) = points.card + ((ids \ points).card : ℤ)
    rw [hunion]
    exact Nat.cast_add _ _
  | delete ids =>
    have hsplit : (points ∩ ids).card + (points \ ids).card = points.card :=
      Finset.card_inter_add_card_sdiff points ids
    change ((points \ ids).card : ℤ) = points.card + -((points ∩ ids).card : ℤ)
    omega

theorem card_applyAll (points : Finset κ) (changes : List (Change κ)) :
    ((applyAll points changes).card : ℤ) = points.card + growth points changes := by
  induction changes generalizing points with
  | nil => exact (add_zero _).symm
  | cons c changes ih =>
    have hrest := ih (c.apply points)
    have hone := card_apply points c
    change ((applyAll (c.apply points) changes).card : ℤ) =
      points.card + (c.growth points + growth (c.apply points) changes)
    omega

/-! ## The course of a backup -/

def BackupEvent.isChange : BackupEvent κ → Bool
  | .changed _ => true
  | _ => false

/-- Since then the points were only changed. -/
def Quiet (base : List (BackupEvent κ)) (w : BackupWorld κ) : Prop :=
  ∃ l, w.log = base ++ l ∧ ∀ e ∈ l, e.isChange = true

theorem Quiet.refl (w : BackupWorld κ) : Quiet w.log w :=
  ⟨[], (List.append_nil _).symm, by simp⟩

variable {base : List (BackupEvent κ)}

theorem Quiet.change {w : BackupWorld κ} (h : Quiet base w) (changes : List (Change κ)) :
    Quiet base (w.change changes) := by
  obtain ⟨l, hl, hquiet⟩ := h
  refine ⟨l ++ changes.map .changed, ?_, fun e he => ?_⟩
  · change w.log ++ _ = _
    rw [hl, List.append_assoc]
  · rcases List.mem_append.1 he with he | he
    · exact hquiet e he
    · obtain ⟨c, -, rfl⟩ := List.mem_map.1 he
      rfl

variable {fmt : FileFormat κ} {w : BackupWorld κ} {α : Type}

abbrev Ensures (fmt : FileFormat κ) (p : BackupProg κ α)
    (Q : Except BackupError α → BackupWorld κ → Prop) (w : BackupWorld κ) : Prop :=
  Wp (I := backupInterface κ) (performBackup fmt) (fun _ => True) p Q w

abbrev Yields (fmt : FileFormat κ) (p : BackupProg κ α) (Q : α → BackupWorld κ → Prop)
    (w : BackupWorld κ) : Prop :=
  Ensures fmt p (fun r w' => ∀ a, r = .ok a → Q a w') w

theorem yields_bind {β : Type} {p : BackupProg κ α} {f : α → BackupProg κ β}
    {R : α → BackupWorld κ → Prop} {Q : β → BackupWorld κ → Prop} (hp : Yields fmt p R w)
    (hf : ∀ a w', R a w' → Yields fmt (f a) Q w') : Yields fmt (p >>= f) Q w := by
  refine wp_bind (hp.mono fun r w' _ hr => ?_)
  cases r with
  | error e => exact nofun
  | ok a => exact hf a w' (hr a rfl)

variable {o : BackupOp κ}

/-- An operation returns when the environment does not fail it. -/
theorem yields_op {Q : o.Reply → BackupWorld κ → Prop}
    (h : ∀ (x : BackupChoice κ) a, (o.run fmt x (w.change x.changes)).1 = .ok a →
      Q a (o.run fmt x (w.change x.changes)).2) : Yields fmt (backupOp o) Q w := by
  refine ⟨trivial, fun x => wp_ofExcept trivial fun a ha => ?_⟩
  unfold performBackup at ha ⊢
  cases hx : x.fault with
  | some e =>
    rw [hx] at ha
    cases ha
  | none =>
    rw [hx] at ha
    exact h x a ha

theorem ensures_quiet (h : Quiet base w) (ho : ∀ x w, (o.run fmt x w).2.log = w.log) :
    Ensures fmt (backupOp o) (fun _ w' => Quiet base w') w := by
  refine ⟨trivial, fun x => wp_ofExcept trivial ?_⟩
  unfold performBackup
  cases x.fault with
  | some e => exact h.change _
  | none =>
    obtain ⟨l, hl, hquiet⟩ := h.change x.changes
    exact ⟨l, by rw [ho, hl], hquiet⟩

theorem log_download (name : String) (maximum : ℕ) (x : BackupChoice κ) (w : BackupWorld κ) :
    ((BackupOp.download name maximum).run fmt x w).2 = w := by
  simp only [BackupOp.run]
  split
  · rfl
  · split_ifs <;> rfl

variable {backupId : String}

theorem log_prepare (x : BackupChoice κ) (w : BackupWorld κ) :
    ((BackupOp.prepare backupId).run fmt x w).2.log = w.log := by
  simp only [BackupOp.run]
  split_ifs <;> rfl

variable {maximum : ℕ}

/-- The snapshot that was just taken is the one that is fetched. -/
theorem yields_fetch {details : SnapshotDetails} {points : Finset κ}
    {rest : List (String × Finset κ)} (h : Quiet base w)
    (hsnapshots : w.snapshots = (details.name, points) :: rest) :
    Ensures fmt (fetchSnapshot fmt maximum details)
      (fun r w' => Quiet base w' ∧ ∀ file, r = .ok file → file = points) w := by
  have hdownload : Ensures fmt (backupOp (.download details.name maximum))
      (fun r w' => Quiet base w' ∧ ∀ file, r = .ok file → file = points) w := by
    refine ⟨trivial, fun x => wp_ofExcept trivial ⟨?_, fun file hfile => ?_⟩⟩
    · unfold performBackup
      cases x.fault with
      | some e => exact h.change _
      | none =>
        change Quiet base ((BackupOp.download details.name maximum).run fmt x _).2
        rw [log_download]
        exact h.change _
    · unfold performBackup at hfile
      cases hx : x.fault with
      | some e =>
        rw [hx] at hfile
        cases hfile
      | none =>
        rw [hx] at hfile
        have hfind : (w.change x.changes).snapshots.find? (fun s => s.1 = details.name) =
            some (details.name, points) := by
          change w.snapshots.find? _ = _
          rw [hsnapshots]
          simp
        simp only [BackupOp.run, hfind] at hfile
        split_ifs at hfile
        exact (Except.ok.inj hfile).symm
  refine wp_bind (hdownload.mono fun r w' _ hr => ?_)
  cases r with
  | error e => exact ⟨hr.1, nofun⟩
  | ok file =>
    simp only
    split_ifs
    · exact ⟨trivial, hr.1, nofun⟩
    · exact ⟨trivial, hr.1, fun f hf => by
        obtain rfl := Except.ok.inj hf
        exact hr.2 _ rfl⟩

theorem ensures_drop {name : String} (h : Quiet base w) :
    Ensures fmt (dropSnapshot name) (fun _ w' => Quiet base w') w := by
  refine wp_bind (wp_attempt ((ensures_quiet h fun _ _ => rfl).mono fun r w' _ hquiet => ?_))
  cases r with
  | ok _ => exact ⟨trivial, hquiet⟩
  | error e =>
    exact wp_bind (wp_attempt ((ensures_quiet hquiet fun _ _ => rfl).mono
      fun r w'' _ hquiet' => ⟨trivial, hquiet'⟩))

/-- What a backup that returns has come to: the number of points is asked, the service makes
its changes, and the snapshot that is published is taken. -/
structure Came (fmt : FileFormat κ) (backupId : String) (base : List (BackupEvent κ))
    (report : BackupReport) (w : BackupWorld κ) (points : Finset κ)
    (changes : List (Change κ)) (b : Backup κ) : Prop where
  log : ∃ l₁ l₂, w.log = base ++ l₁ ++ .counted points :: (changes.map .changed ++
    .snapped (applyAll points changes) :: l₂) ∧ (∀ e ∈ l₁, e.isChange = true) ∧
      ∀ e ∈ l₂, e.isChange = true
  published : b ∈ w.backups
  named : b.manifest.backupId = backupId
  counted : b.manifest.collection.pointsCount = points.card
  snapshot : b.snapshot = applyAll points changes
  verified : verifyBackup fmt b = .ok report

theorem yields_createBackup (w : BackupWorld κ) : Yields fmt (createBackup fmt backupId maximum)
      (fun report w' => ∃ points changes b, Came fmt backupId w.log report w' points changes b)
      w := by
  refine yields_bind (R := fun _ => Quiet w.log) ((ensures_quiet (Quiet.refl w)
    fun x w => log_prepare x w).mono fun _ _ _ h _ _ => h) fun _ w₁ h₁ => ?_
  refine yields_bind (R := fun _ => Quiet w.log) ((ensures_quiet h₁
    fun _ _ => rfl).mono fun _ _ _ h _ _ => h) fun sqlite w₂ h₂ => ?_
  refine yields_bind (R := fun info w₃ => ∃ points l₁, info.pointsCount = points.card ∧
    w₃.points = points ∧ w₃.log = w.log ++ l₁ ++ [.counted points] ∧
    ∀ e ∈ l₁, e.isChange = true) (yields_op fun x info hinfo => ?_) fun info w₃ h₃ => ?_
  · obtain rfl := Except.ok.inj hinfo
    obtain ⟨l₁, hl₁, hquiet⟩ := h₂.change x.changes
    exact ⟨_, l₁, rfl, rfl, by rw [← hl₁]; rfl, hquiet⟩
  obtain ⟨points, l₁, hcount, hpoints, hlog, hquiet⟩ := h₃
  refine yields_bind (R := fun details w₄ => ∃ changes rest, w₄.log = w₃.log ++
    changes.map .changed ++ [.snapped (applyAll points changes)] ∧
    w₄.snapshots = (details.name, applyAll points changes) :: rest)
    (yields_op fun x details hdetails => ?_) fun details w₄ h₄ => ?_
  · obtain rfl := Except.ok.inj hdetails
    rw [← hpoints]
    exact ⟨x.changes, _, rfl, rfl⟩
  obtain ⟨changes, rest, hlog₄, hsnapshots⟩ := h₄
  refine wp_bind (wp_attempt ((yields_fetch (Quiet.refl w₄) hsnapshots).mono
    fun fetched w₅ _ h₅ => ?_))
  refine wp_bind ((ensures_drop h₅.1).mono fun r w₆ _ h₆ => ?_)
  cases r with
  | error e => exact nofun
  | ok _ =>
    refine wp_bind (wp_ofExcept trivial ?_)
    cases fetched with
    | error e => exact nofun
    | ok file =>
      obtain rfl := h₅.2 file rfl
      simp only
      split_ifs
      · exact ⟨trivial, nofun⟩
      · set b : Backup κ := ⟨⟨backupId, sqlite, fmt.size (applyAll points changes),
          fmt.sha256 (applyAll points changes), details.checksum, info⟩, sqlite,
          applyAll points changes⟩ with hb
        refine yields_bind (R := fun _ w₇ => Quiet w₄.log w₇ ∧ b ∈ w₇.backups)
          (yields_op fun x _ _ => ⟨h₆.change x.changes, List.mem_append_right _
            (List.mem_singleton.2 rfl)⟩) fun _ w₇ h₇ => ?_
        cases hverify : verifyBackup fmt b with
        | error e => exact wp_bind ((ensures_quiet h₇.1 fun _ _ => rfl).mono
            fun r _ _ _ => by
              cases r with
              | error e => exact nofun
              | ok _ => exact ⟨trivial, nofun⟩)
        | ok report =>
          refine yields_bind (R := fun _ w₈ => Quiet w₄.log w₈ ∧ b ∈ w₈.backups)
            (yields_op fun x _ _ => ⟨h₇.1.change x.changes, h₇.2⟩) fun _ w₈ h₈ => ?_
          refine ⟨trivial, fun report' hreport => ?_⟩
          obtain rfl := Except.ok.inj hreport
          obtain ⟨⟨l₂, hl₂, hquiet₂⟩, hmem⟩ := h₈
          refine ⟨points, changes, b, ⟨l₁, l₂, ?_, hquiet, hquiet₂⟩, hmem, rfl, hcount, rfl,
            hverify⟩
          rw [hl₂, hlog₄, hlog]
          simp

/-- A verified backup passes its restore test exactly when its manifest has the number of the
points of its snapshot. -/
theorem restoreTest_iff {b : Backup κ} {report : BackupReport}
    (h : verifyBackup fmt b = .ok report) :
    (∃ r, restoreTest fmt b = .ok r) ↔ b.manifest.collection.pointsCount = b.snapshot.card := by
  have hmemories : report.sqliteMemories = b.sqlite.memories := by
    unfold verifyBackup at h
    split_ifs at h
    obtain rfl := Except.ok.inj h
    rfl
  have htest : restoreTest fmt b = if b.snapshot.card ≠ b.manifest.collection.pointsCount then
      .error ⟨"restored Qdrant point count does not match"⟩
      else .ok ⟨b.manifest.backupId, b.sqlite.memories, b.snapshot.card⟩ := by
    unfold restoreTest
    rw [h]
    change (if b.sqlite.memories ≠ report.sqliteMemories then _ else _) = _
    rw [if_neg (by rw [hmemories]; exact fun hne => hne rfl)]
  rw [htest]
  constructor
  · rintro ⟨r, hr⟩
    split_ifs at hr with hne
    exact (not_not.1 hne).symm
  · intro heq
    exact ⟨_, if_neg (by rw [heq]; exact fun hne => hne rfl)⟩

/-- When a backup returns, its manifest has the number of the points of its snapshot, and the
backup passes its restore test, exactly when the changes between the count and the snapshot leave
the number of points as it is. -/
theorem restorable_iff {backupId : String} {maximum : ℕ} {w' : BackupWorld κ}
    {report : BackupReport} (h : Finishes (I := backupInterface κ) (performBackup fmt)
      (createBackup fmt backupId maximum) w (.ok report) w') :
    ∃ points changes b, Came fmt backupId w.log report w' points changes b ∧
      (b.manifest.collection.pointsCount = b.snapshot.card ↔ growth points changes = 0) ∧
      ((∃ r, restoreTest fmt b = .ok r) ↔ growth points changes = 0) := by
  obtain ⟨points, changes, b, hcame⟩ := (yields_createBackup w).finish h report rfl
  have hcard : b.manifest.collection.pointsCount = b.snapshot.card ↔
      growth points changes = 0 := by
    have hgrowth := card_applyAll points changes
    rw [hcame.counted, hcame.snapshot]
    omega
  exact ⟨points, changes, b, hcame, hcard, (restoreTest_iff hcame.verified).trans hcard⟩

namespace Sample

def format : FileFormat ℕ :=
  ⟨fun points => points.card + 1, fun points => toString points.card⟩

def single : BackupWorld ℕ :=
  ⟨{1}, [], [], []⟩

/-- The service makes the changes before an operation. -/
def choice (changes : List (Change ℕ)) : BackupChoice ℕ :=
  ⟨changes, none, ⟨1⟩, none, some "green", "s"⟩

/-- A point is added after the count, before the snapshot. -/
def choices : List (BackupChoice ℕ) :=
  [choice [], choice [], choice [], choice [.upsert {2}], choice [], choice [], choice [],
    choice []]

theorem busy_backup : ∃ report w', Finishes (I := backupInterface ℕ) (performBackup format)
    (createBackup format "b" 100) single (.ok report) w' ∧
    w'.backups.map (fun b => (b.manifest.collection.pointsCount, b.snapshot.card)) = [(1, 2)] := by
  have hplay : ∃ u ∈ play (performBackup format) (createBackup format "b" 100) choices single,
      u.1.isOk = true ∧ u.2.backups.map
        (fun b => (b.manifest.collection.pointsCount, b.snapshot.card)) = [(1, 2)] := by
    decide
  obtain ⟨⟨r, w'⟩, hu, hok, hbackups⟩ := hplay
  cases r with
  | error e => cases hok
  | ok report => exact ⟨report, w', finishes_of_play (Option.mem_def.1 hu), hbackups⟩

/-- A backup is published whose manifest has one point less than its snapshot. -/
theorem busy_unrestorable : ∃ report w', Finishes (I := backupInterface ℕ)
    (performBackup format) (createBackup format "b" 100) single (.ok report) w' ∧
    ∃ b ∈ w'.backups, b.manifest.collection.pointsCount ≠ b.snapshot.card ∧
      ¬ ∃ r, restoreTest format b = .ok r := by
  obtain ⟨report, w', hrun, hbackups⟩ := busy_backup
  obtain ⟨points, changes, b, hcame⟩ := (yields_createBackup single).finish hrun report rfl
  have hb : (b.manifest.collection.pointsCount, b.snapshot.card) ∈ [(1, 2)] := by
    rw [← hbackups]
    exact List.mem_map_of_mem hcame.published
  obtain ⟨hone, htwo⟩ := Prod.mk.inj (List.mem_singleton.1 hb)
  have hne : b.manifest.collection.pointsCount ≠ b.snapshot.card := by
    omega
  exact ⟨report, w', hrun, b, hcame.published, hne,
    fun h => hne ((restoreTest_iff hcame.verified).1 h)⟩

theorem restorable_iff_sample : ∃ report w' points changes b, Came format "b" single.log report
    w' points changes b ∧
    (b.manifest.collection.pointsCount = b.snapshot.card ↔ growth points changes = 0) ∧
    ((∃ r, restoreTest format b = .ok r) ↔ growth points changes = 0) := by
  obtain ⟨report, w', hrun, -⟩ := busy_backup
  exact ⟨report, w', restorable_iff hrun⟩

end Sample

end OpsMemory
