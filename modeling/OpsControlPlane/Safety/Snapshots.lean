import OpsControlPlane.Telemetry.Backup
import OpsControlPlane.Lib.Assoc
import OpsControlPlane.Lib.Undisturbed

/-!
# The telemetry backup after a kill

`Good` is what holds of the folder between runs: a closed partition has neither an archive nor a
manifest, or has both and they agree. `Stopped` says that it holds wherever a run stops, unless the
archive of a closed partition is there and its manifest is not written. The rules of the parts of a
run are over the choices that satisfy a condition, so that one proof of each serves for the runs
that anything may stop and for those that nothing disturbs.
-/

namespace OpsTelemetryBackup

open Calls Calls.Prog Assoc

/-! ## Names -/

theorem lookup_put {α : Type} (name k : String) (a : α) (l : List (String × α)) :
    (put name a l).lookup k = if k = name then some a else l.lookup k := by
  by_cases h : k = name
  · subst h
    rw [if_pos rfl]
    exact List.lookup_cons_self
  · rw [put, List.lookup_cons, beq_false_of_ne h, if_neg h]
    exact lookup_filter_ne h l

variable {a b stem stamp day : String}

theorem archiveFile_inj (h : archiveFile a = archiveFile b) : a = b :=
  (String.append_left_inj _).1 h

theorem manifestFile_inj (h : manifestFile a = manifestFile b) : a = b :=
  (String.append_left_inj _).1 h

/-- The name of the archive of a closed partition. -/
def sealedName (day : String) : String :=
  day ++ "-sealed"

def openName (stem stamp : String) : String :=
  stem ++ ("-" ++ stamp)

theorem sealedName_inj (h : sealedName a = sealedName b) : a = b :=
  (String.append_left_inj _).1 h

def IsStamp (stamp : String) : Prop :=
  stamp.toList.length = 16 ∧ stamp.toList.getLast? = some 'Z'

theorem openName_ne_sealedName (h : IsStamp stamp) : openName stem stamp ≠ sealedName day := by
  intro he
  have hlast := congrArg (fun s : String => s.toList.getLast?) he
  have hd : "-sealed".toList.getLast? = some 'd' := by decide
  simp only [openName, sealedName, String.toList_append, List.getLast?_append, h.2, hd,
    Option.some_or] at hlast
  exact absurd hlast (by decide)

theorem openName_inj {stem' stamp' : String} (h : IsStamp stamp) (h' : IsStamp stamp')
    (he : openName stem stamp = openName stem' stamp') : stem = stem' ∧ stamp = stamp' := by
  have hlist := congrArg String.toList he
  simp only [openName, String.toList_append] at hlist
  have hlength : ("-".toList ++ stamp.toList).length = ("-".toList ++ stamp'.toList).length := by
    rw [List.length_append, List.length_append, h.1, h'.1]
  obtain ⟨hstem, hrest⟩ := List.append_inj' hlist hlength
  exact ⟨String.toList_inj.1 hstem, String.toList_inj.1 (List.append_cancel_left hrest)⟩

theorem Clock.isStamp (clock : Clock) : IsStamp clock.stamp :=
  ⟨clock.stamp_length, clock.stamp_last⟩

theorem name_of_sealed {clock : Clock} (h : (Source.partition day).isSealed clock.today = true) :
    (Source.partition day).name clock = sealedName day := by
  rw [Source.name, if_pos h]
  rfl

theorem name_of_open {clock : Clock} {source : Source}
    (h : source.isSealed clock.today = false) :
    source.name clock = openName source.stem clock.stamp := by
  rw [Source.name, if_neg (by rw [h]; exact Bool.false_ne_true)]
  rfl

/-- The days of partitions are not the other names, and come once. -/
theorem stems_nodup (db : Databases) (logs : Bool) :
    ((sources logs db.days).map Source.stem).Nodup := by
  have hdays : db.days.Nodup :=
    (List.mergeSort_perm _ _).nodup_iff.2 (db.distinct.filter _)
  have hday : ∀ day ∈ db.days, isDay day = true := fun day h =>
    (List.mem_filter.1 ((List.mergeSort_perm _ _).mem_iff.1 h)).2
  have hstems : (db.days.map Source.partition).map Source.stem = db.days := by
    rw [List.map_map]
    exact List.map_id' _
  have hhistory : "history" ∉ db.days := fun h => absurd (hday _ h) (by decide)
  have hlogs : "logs" ∉ db.days := fun h => absurd (hday _ h) (by decide)
  rw [sources, List.map_append, hstems]
  cases logs with
  | false => exact List.nodup_cons.2 ⟨hhistory, hdays⟩
  | true =>
    refine List.nodup_cons.2 ⟨?_, List.nodup_cons.2 ⟨hlogs, hdays⟩⟩
    exact fun h => (List.mem_cons.1 h).elim (by decide) hhistory

/-! ## The restored copy -/

variable {T : Tools}

theorem expandChunks_eq (content : Bytes) (n : ℕ) (out incoming : Bytes)
    (hcontent : out ++ incoming = content) (hn : incoming.length < n) :
    expandChunks content.length n incoming out = .ok content := by
  induction n generalizing out incoming with
  | zero => exact absurd hn (Nat.not_lt_zero _)
  | succ n ih =>
    have hlength : out.length + incoming.length = content.length := by
      rw [← hcontent, List.length_append]
    rw [expandChunks]
    cases incoming with
    | nil =>
      rw [List.take_nil, if_pos rfl, ← hcontent, List.append_nil]
    | cons b rest =>
      rw [List.length_cons] at hn hlength
      have hpos : 0 < min (1024 * 1024) (content.length - out.length + 1) := by omega
      have hchunk : (b :: rest).take
        (min (1024 * 1024) (content.length - out.length + 1)) ≠ [] := by
        rw [Ne, List.take_eq_nil_iff]
        exact not_or.2 ⟨hpos.ne', List.cons_ne_nil b rest⟩
      have hle : ((b :: rest).take (min (1024 * 1024)
          (content.length - out.length + 1))).length ≤ (b :: rest).length :=
        List.length_take_le' _ _
      have hchunkPos := List.length_pos_iff.2 hchunk
      have hdrop : (b :: rest).drop ((b :: rest).take (min (1024 * 1024)
          (content.length - out.length + 1))).length =
          (b :: rest).drop (min (1024 * 1024) (content.length - out.length + 1)) := by
        rw [List.length_take]
        rcases le_total (min (1024 * 1024) (content.length - out.length + 1))
          (b :: rest).length with h | h
        · rw [min_eq_left h]
        · rw [min_eq_right h, List.drop_length, List.drop_eq_nil_of_le h]
      rw [List.length_cons] at hle
      rw [if_neg hchunk, if_neg (by omega), hdrop]
      refine ih _ _ ?_ ?_
      · rw [List.append_assoc, List.take_append_drop, hcontent]
      · rw [List.length_drop, List.length_cons]
        omega

theorem expand_gzip (hgzip : ∀ c, T.gunzip (T.gzip c) = some c) {content : Bytes}
    (h : 0 < content.length ∧ content.length ≤ bound) :
    expand T (T.gzip content) content.length = .ok content := by
  have hchunks := expandChunks_eq content (content.length + 1) [] content rfl (Nat.lt_succ_self _)
  rw [expand, if_neg (not_not.2 h), hgzip]
  change (expandChunks content.length (content.length + 1) content [] >>= _) = _
  rw [hchunks]
  exact if_neg (not_not.2 rfl)

/-! ## The folder -/

/-- The closed partition has neither an archive nor a manifest. -/
def Unsaved (w : World) (name : String) : Prop :=
  w.archives.lookup (archiveFile name) = none ∧ w.manifests.lookup (manifestFile name) = none

variable (T) in
/-- A closed partition has neither an archive nor a manifest, or both and they agree. The other
archives are of the runs with these stamps. -/
structure Tidy (stamps : List String) (w : World) : Prop where
  parts : ∀ day, Unsaved w (sealedName day) ∨ Saved T w (sealedName day)
  named : ∀ file ∈ w.archives.map Prod.fst, (∃ day, file = archiveFile (sealedName day)) ∨
    ∃ stem, ∃ stamp ∈ stamps, IsStamp stamp ∧ file = archiveFile (openName stem stamp)

variable {stamps : List String} {v w : World}

theorem Tidy.congr (h : Tidy T stamps v) (ha : w.archives = v.archives)
    (hm : w.manifests = v.manifests) : Tidy T stamps w where
  parts := by
    intro day
    rw [Unsaved, Saved, ha, hm]
    exact h.parts day
  named := by
    rw [ha]
    exact h.named

theorem Tidy.mono {stamps' : List String} (h : Tidy T stamps w) (hs : stamps ⊆ stamps') :
    Tidy T stamps' w where
  parts := h.parts
  named := fun file hfile => (h.named file hfile).imp_right fun ⟨stem, stamp, hstamp, hform⟩ =>
    ⟨stem, stamp, hs hstamp, hform⟩

theorem mem_put {α : Type} {name k : String} {a : α} {l : List (String × α)}
    (h : k ∈ (put name a l).map Prod.fst) : k = name ∨ k ∈ l.map Prod.fst := by
  obtain ⟨kv, hkv, rfl⟩ := List.mem_map.1 h
  rcases List.mem_cons.1 hkv with rfl | hkv
  · exact .inl rfl
  · exact .inr (List.mem_map_of_mem (List.mem_filter.1 hkv).1)

theorem parts_congr {name : String}
    (ha : w.archives.lookup (archiveFile name) = v.archives.lookup (archiveFile name))
    (hm : w.manifests.lookup (manifestFile name) = v.manifests.lookup (manifestFile name))
    (h : Unsaved v name ∨ Saved T v name) : Unsaved w name ∨ Saved T w name := by
  rw [Unsaved, Saved, ha, hm]
  exact h

theorem Tidy.putOpen (h : Tidy T stamps v) (hstamp : IsStamp stamp) (hmem : stamp ∈ stamps)
    {output : Bytes} (ha : w.archives = put (archiveFile (openName stem stamp)) output v.archives)
    (hm : ∀ k, k ≠ manifestFile (openName stem stamp) →
      w.manifests.lookup k = v.manifests.lookup k) : Tidy T stamps w where
  parts := by
    intro day
    have hne : openName stem stamp ≠ sealedName day := openName_ne_sealedName hstamp
    refine parts_congr ?_ (hm _ fun he => hne (manifestFile_inj he.symm)) (h.parts day)
    rw [ha, lookup_put, if_neg fun he => hne (archiveFile_inj he.symm)]
  named := by
    intro file hfile
    rw [ha] at hfile
    rcases mem_put hfile with rfl | hfile
    · exact .inr ⟨stem, stamp, hmem, hstamp, rfl⟩
    · exact h.named file hfile

/-- The archive of a closed partition is put in its place, and described. -/
theorem Tidy.putSealed (h : Tidy T stamps v) {output : Bytes} {report : Report}
    (ha : w.archives = put (archiveFile (sealedName day)) output v.archives)
    (hm : w.manifests = put (manifestFile (sealedName day)) (some report)
      (put (manifestFile (sealedName day)) none v.manifests))
    (hfile : report.file = archiveFile (sealedName day)) (hsha : report.sha256 = T.sha256 output) :
    Tidy T stamps w where
  parts := by
    intro other
    by_cases hday : other = day
    · subst hday
      refine .inr ⟨output, report, ?_, ?_, hfile, hsha⟩
      · rw [ha, lookup_put, if_pos rfl]
      · rw [hm, lookup_put, if_pos rfl]
    · have hne : sealedName other ≠ sealedName day := fun he => hday (sealedName_inj he)
      refine parts_congr ?_ ?_ (h.parts other)
      · rw [ha, lookup_put, if_neg fun he => hne (archiveFile_inj he)]
      · rw [hm, lookup_put, if_neg fun he => hne (manifestFile_inj he), lookup_put,
          if_neg fun he => hne (manifestFile_inj he)]
  named := by
    intro file hfile
    rw [ha] at hfile
    rcases mem_put hfile with rfl | hfile
    · exact .inl ⟨day, rfl⟩
    · exact h.named file hfile

/-! ## Rules -/

def actOf (T : Tools) (P : Choice → Prop) (o : BackupOp) (x : {x : Choice // P x}) (w : World) :
    Except BackupError o.Reply × World :=
  act T o x.val w

/-- What a part leaves when it returns, and what follows when it raises. -/
def Post {α : Type} (E : Prop) (R : α → World → Prop) : Except BackupError α → World → Prop
  | .ok a, w => R a w
  | .error _, _ => E

section rules

variable {P : Choice → Prop} {C : World → Prop} {E : Prop} {α β : Type}

theorem wp_then {p : BackupProg α} {f : α → BackupProg β} {R : α → World → Prop}
    {R' : β → World → Prop} (hp : Wp (actOf T P) C p (Post E R) w)
    (hf : ∀ a t, R a t → Wp (actOf T P) C (f a) (Post E R') t) :
    Wp (actOf T P) C (p >>= f) (Post E R') w :=
  wp_bind (hp.mono fun r t _ hr => match r with
    | .ok a => hf a t hr
    | .error _ => hr)

variable {o : BackupOp}

theorem wp_call {R : o.Reply → World → Prop} (hC : C w) (hE : (∃ x, P x ∧ x.raises = true) → E)
    (h : ∀ x, P x → C (o.run T x w).2 ∧ Post E R (o.run T x w).1 (o.run T x w).2) :
    Wp (actOf T P) C (call o) (Post E R) w := by
  refine wp_op hC fun x => ?_
  by_cases hx : x.val.raises = true
  · have hact : actOf T P o x w = (.error .other, w) := if_pos hx
    rw [hact]
    exact ⟨hC, hE ⟨x.val, x.property, hx⟩⟩
  · have hact : actOf T P o x w = o.run T x.val w := if_neg hx
    rw [hact]
    exact h x.val x.property

variable {f : α → BackupProg β} {R : β → World → Prop}

theorem wp_do {f : o.Reply → BackupProg β} {a : o.Reply} {t : World} (hC : C w)
    (hE : (∃ x, P x ∧ x.raises = true) → E) (hrun : ∀ x, o.run T x w = (.ok a, t)) (ht : C t)
    (hf : Wp (actOf T P) C (f a) (Post E R) t) : Wp (actOf T P) C (call o >>= f) (Post E R) w := by
  refine wp_then (R := fun b t' => b = a ∧ t' = t) (wp_call hC hE fun x _ => ?_) ?_
  · rw [hrun x]
    exact ⟨ht, rfl, rfl⟩
  · rintro b t' ⟨rfl, rfl⟩
    exact hf

theorem wp_ask {f : o.Reply → BackupProg β} {a : o.Reply} (hC : C w)
    (hE : (∃ x, P x ∧ x.raises = true) → E) (hrun : ∀ x, o.run T x w = (.ok a, w))
    (hf : Wp (actOf T P) C (f a) (Post E R) w) : Wp (actOf T P) C (call o >>= f) (Post E R) w :=
  wp_do hC hE hrun hC hf

theorem wp_find {f : o.Reply → BackupProg β} {a : Option o.Reply} (hC : C w)
    (hE : (∃ x, P x ∧ x.raises = true) → E) (hrun : ∀ x, o.run T x w = (found a, w))
    (hnone : a = none → E) (hf : ∀ b, a = some b → Wp (actOf T P) C (f b) (Post E R) w) :
    Wp (actOf T P) C (call o >>= f) (Post E R) w := by
  refine wp_then (R := fun b t => a = some b ∧ t = w) (wp_call hC hE fun x _ => ?_) ?_
  · rw [hrun x]
    cases a with
    | none => exact ⟨hC, hnone rfl⟩
    | some b => exact ⟨hC, rfl, rfl⟩
  · rintro b t ⟨hb, rfl⟩
    exact hf b hb

theorem wp_computed {r : Except BackupError α} (hC : C w) (hE : ∀ e, r = .error e → E)
    (hf : ∀ a, r = .ok a → Wp (actOf T P) C (f a) (Post E R) w) :
    Wp (actOf T P) C (Prog.ofExcept r >>= f) (Post E R) w := by
  cases r with
  | ok a => exact hf a rfl
  | error e => exact ⟨hC, hE e rfl⟩

theorem wp_ite {c : Prop} [Decidable c] {p q : BackupProg α} {R : α → World → Prop}
    (hp : c → Wp (actOf T P) C p (Post E R) w) (hq : ¬c → Wp (actOf T P) C q (Post E R) w) :
    Wp (actOf T P) C (if c then p else q : BackupProg α) (Post E R) w := by
  split
  · next h => exact hp h
  · next h => exact hq h

end rules

/-! ## One source -/

section run

variable {P : Choice → Prop} {C : World → Prop} {U : Prop}

/-- The copy is restored before it is put in its place, when nothing disturbs it. -/
theorem wp_copySource (hgzip : ∀ c, T.gunzip (T.gzip c) = some c)
    (hworks : U → ∀ x, P x → Works T x) {source : Source}
    (hsound : U → ∃ content, w.db.content source = some content ∧ Sound T content) (hC : C w) :
    Wp (actOf T P) C (copySource T source) (Post (¬U) fun _ t => t = w) w := by
  have hE : (∃ x, P x ∧ x.raises = true) → ¬U := fun ⟨x, hx, hraises⟩ hu =>
    absurd ((hworks hu x hx).1) (by rw [hraises]; exact Bool.noConfusion)
  refine wp_find hC hE (fun _ => rfl) (fun hnone hu => ?_) fun snapshot hsnapshot => ?_
  · obtain ⟨content, hcontent, -⟩ := hsound hu
    rw [hcontent] at hnone
    cases hnone
  have hthis : U → Sound T snapshot := by
    intro hu
    obtain ⟨content, hcontent, hok⟩ := hsound hu
    obtain rfl := Option.some.inj (hcontent.symm.trans hsnapshot)
    exact hok
  refine wp_computed hC (fun e he hu => ?_) fun count hcount => ?_
  · obtain ⟨-, -, count, hcount⟩ := hthis hu
    rw [hcount] at he
    cases he
  refine wp_ite (fun hsize => ⟨hC, fun hu => hsize ?_⟩) fun hsize => ?_
  · obtain ⟨hpos, hbound, -⟩ := hthis hu
    exact ⟨hpos, hbound⟩
  refine wp_ask hC hE (fun _ => rfl) ?_
  -- The output is what the command writes, and it decrypts if the command works.
  refine wp_then (R := fun output t => t = w ∧ (U → T.decrypt output = some (T.gzip snapshot)))
    (wp_call hC hE fun x hx => ⟨hC, rfl, fun hu => (hworks hu x hx).2 _⟩) ?_
  rintro output t ⟨rfl, hdecrypt⟩
  refine wp_find hC hE (fun _ => rfl) (fun hnone hu => ?_) fun compressed hcompressed => ?_
  · rw [hdecrypt hu] at hnone
    cases hnone
  have hexpand : U → expand T compressed snapshot.length = .ok snapshot := by
    intro hu
    obtain rfl := Option.some.inj ((hdecrypt hu).symm.trans hcompressed)
    exact expand_gzip hgzip (not_not.1 hsize)
  refine wp_computed hC (fun e he hu => ?_) fun restored hrestored => ?_
  · rw [hexpand hu] at he
    cases he
  have hsame : U → restored = snapshot := fun hu =>
    Except.ok.inj (hrestored.symm.trans (hexpand hu))
  refine wp_ite (fun hne => ⟨hC, fun hu => hne (by rw [hsame hu])⟩) fun _ => ?_
  refine wp_computed hC (fun e he hu => ?_) fun count' hcount' => ?_
  · rw [hsame hu, hcount] at he
    cases he
  refine wp_ite (fun hne => ⟨hC, fun hu => hne ?_⟩) fun _ => ⟨hC, rfl⟩
  rw [hsame hu, hcount] at hcount'
  exact (Except.ok.inj hcount').symm

end run

/-- Wherever a run stops, the archives are as they were put there, and the folder is tidy unless a closed
partition is not described. -/
structure Stopped (T : Tools) (stamps : List String) (clock : Clock) (w₀ w : World) : Prop where
  kept : ∀ file archive, w₀.archives.lookup file = some archive →
    w.archives.lookup file = some archive
  placed : ∀ file archive, (file, archive) ∈ w.placed → w.archives.lookup file = some archive
  tidy : w.undescribed = false → Tidy T (clock.stamp :: stamps) w

/-- Between two sources of a run. The names of the other archives of the run are free, unless they
are of the sources that are done. -/
structure At (T : Tools) (stamps : List String) (clock : Clock) (U : Prop) (w₀ : World)
    (done : List String) (w : World) : Prop where
  stopped : Stopped T stamps clock w₀ w
  rest : w.undescribed = false
  db : w.db = w₀.db
  free : U → ∀ stem ∉ done, w.archives.lookup (archiveFile (openName stem clock.stamp)) = none

section run

variable {P : Choice → Prop} {U : Prop} {clock : Clock} {w₀ : World} {done : List String}

/-- What a source leaves: more archives, and its own among them if it is a closed partition. -/
def Done (T : Tools) (stamps : List String) (clock : Clock) (U : Prop) (w₀ : World)
    (done : List String) (source : Source) (w t : World) : Prop :=
  At T stamps clock U w₀ (done ++ [source.stem]) t ∧
    (∀ file archive, w.archives.lookup file = some archive →
      t.archives.lookup file = some archive) ∧
    (source.isSealed clock.today = true →
      (t.archives.lookup (archiveFile (source.name clock))).isSome = true)

variable {source : Source} {output : Bytes} {t : World}

theorem grows_of_put {name file : String} {archive : Bytes}
    (hnone : w.archives.lookup name = none) (ha : t.archives = put name output w.archives)
    (hfile : w.archives.lookup file = some archive) : t.archives.lookup file = some archive := by
  rw [ha, lookup_put, if_neg, hfile]
  rintro rfl
  rw [hnone] at hfile
  cases hfile

/-- An archive is put in its place where there is none. -/
theorem Stopped.put (h : Stopped T stamps clock w₀ w) {name : String}
    (hnone : w.archives.lookup name = none) (ha : t.archives = put name output w.archives)
    (hp : t.placed = (name, output) :: w.placed)
    (htidy : t.undescribed = false → Tidy T (clock.stamp :: stamps) t) :
    Stopped T stamps clock w₀ t where
  kept _ _ hfile := grows_of_put hnone ha (h.kept _ _ hfile)
  placed file archive hfile := by
    rw [hp] at hfile
    rcases List.mem_cons.1 hfile with he | hold
    · obtain ⟨rfl, rfl⟩ := Prod.mk.inj he
      rw [ha, lookup_put, if_pos rfl]
    · exact grows_of_put hnone ha (h.placed _ _ hold)
  tidy := htidy

theorem done_of_put (h : At T stamps clock U w₀ done w)
    (hnone : w.archives.lookup (archiveFile (source.name clock)) = none)
    (ha : t.archives = put (archiveFile (source.name clock)) output w.archives)
    (hp : t.placed = (archiveFile (source.name clock), output) :: w.placed) (hdb : t.db = w.db)
    (hrest : t.undescribed = false) (htidy : Tidy T (clock.stamp :: stamps) t) :
    Done T stamps clock U w₀ done source w t := by
  refine ⟨⟨h.stopped.put hnone ha hp fun _ => htidy, hrest, hdb.trans h.db, fun hu stem hstem => ?_⟩,
    fun _ _ hfile => grows_of_put hnone ha hfile, fun _ => ?_⟩
  · obtain ⟨hold, hother⟩ := not_or.1 fun h => hstem (List.mem_append.2 h)
    rw [ha, lookup_put, if_neg]
    · exact h.free hu stem hold
    intro he
    have hname := archiveFile_inj he
    cases hsealed : source.isSealed clock.today with
    | true =>
      rw [Source.name, if_pos hsealed] at hname
      exact openName_ne_sealedName clock.isStamp hname
    | false =>
      rw [name_of_open hsealed] at hname
      exact hother (List.mem_singleton.2 (openName_inj clock.isStamp clock.isStamp hname).1)
  · rw [ha, lookup_put, if_pos rfl]
    rfl

theorem tidy_open (h : At T stamps clock U w₀ done w) (hopen : source.isSealed clock.today = false)
    (ha : t.archives = put (archiveFile (source.name clock)) output w.archives)
    (hm : ∀ k, k ≠ manifestFile (source.name clock) → t.manifests.lookup k = w.manifests.lookup k) :
    Tidy T (clock.stamp :: stamps) t := by
  rw [name_of_open hopen] at ha hm
  exact (h.stopped.tidy h.rest).putOpen clock.isStamp List.mem_cons_self ha hm

theorem tidy_sealed (h : At T stamps clock U w₀ done w)
    (hsealed : source.isSealed clock.today = true) {report : Report}
    (ha : t.archives = put (archiveFile (source.name clock)) output w.archives)
    (hm : t.manifests = put (manifestFile (source.name clock)) (some report)
      (put (manifestFile (source.name clock)) none w.manifests))
    (hfile : report.file = archiveFile (source.name clock))
    (hsha : report.sha256 = T.sha256 output) : Tidy T (clock.stamp :: stamps) t := by
  cases source with
  | partition day =>
    rw [name_of_sealed hsealed] at ha hm hfile
    exact (h.stopped.tidy h.rest).putSealed ha hm hfile hsha
  | history => cases hsealed
  | logs => cases hsealed

theorem wp_publish (hworks : U → ∀ x, P x → Works T x) (h : At T stamps clock U w₀ done w)
    (hfree : U → w.archives.lookup (archiveFile (source.name clock)) = none) (snapshot : Bytes)
    (count : ℕ) (output : Bytes) :
    Wp (actOf T P) (Stopped T stamps clock w₀) (publish T clock source snapshot count output)
      (Post (¬U) fun _ t => Done T stamps clock U w₀ done source w t) w := by
  have hE : (∃ x, P x ∧ x.raises = true) → ¬U := fun ⟨x, hx, hraises⟩ hu =>
    absurd ((hworks hu x hx).1) (by rw [hraises]; exact Bool.noConfusion)
  refine wp_ask h.stopped hE (fun _ => rfl) ?_
  refine wp_ite (fun hsome => ⟨h.stopped, fun hu => ?_⟩) fun hnone => ?_
  · rw [hfree hu] at hsome
    exact Bool.false_ne_true hsome
  rw [Option.not_isSome_iff_eq_none] at hnone
  have hother : ∀ k, k ≠ manifestFile (source.name clock) → ∀ m : Option Report,
      (put (manifestFile (source.name clock)) m w.manifests).lookup k = w.manifests.lookup k :=
    fun k hk m => by rw [lookup_put, if_neg hk]
  have hplaced : Stopped T stamps clock w₀ { w with
      archives := put (archiveFile (source.name clock)) output w.archives
      undescribed := source.isSealed clock.today
      placed := (archiveFile (source.name clock), output) :: w.placed } :=
    h.stopped.put hnone rfl rfl fun hopen => tidy_open h hopen rfl fun _ _ => rfl
  have hopened : Stopped T stamps clock w₀ { w with
      archives := put (archiveFile (source.name clock)) output w.archives
      manifests := put (manifestFile (source.name clock)) none w.manifests
      undescribed := source.isSealed clock.today
      placed := (archiveFile (source.name clock), output) :: w.placed } :=
    h.stopped.put hnone rfl rfl fun hopen => tidy_open h hopen rfl fun k hk => hother k hk none
  refine wp_do h.stopped hE (fun _ => rfl) hplaced ?_
  refine wp_find hplaced hE (fun _ => rfl) (fun hmissing => ?_) fun archive harchive => ?_
  · rw [lookup_put, if_pos rfl] at hmissing
    cases hmissing
  rw [lookup_put, if_pos rfl] at harchive
  obtain rfl := Option.some.inj harchive
  refine wp_then (R := fun _ t => t = { w with
      archives := put (archiveFile (source.name clock)) output w.archives
      undescribed := source.isSealed clock.today
      placed := (archiveFile (source.name clock), output) :: w.placed })
    (wp_call hplaced hE fun _ _ => ⟨hplaced, rfl⟩) ?_
  rintro createdAt t rfl
  refine wp_do hplaced hE (fun _ => rfl) hopened ?_
  have hdescribed : ∀ t : World,
      t.archives = put (archiveFile (source.name clock)) output w.archives →
      t.manifests = put (manifestFile (source.name clock)) (some ⟨archiveFile (source.name clock),
        T.sha256 output, output.length, count, source.path, createdAt, true,
        source.isSealed clock.today, "gzip", snapshot.length, T.sha256 snapshot⟩)
        (put (manifestFile (source.name clock)) none w.manifests) →
      Tidy T (clock.stamp :: stamps) t := by
    intro t ha hm
    cases hsealed : source.isSealed clock.today with
    | true => exact tidy_sealed h hsealed ha hm rfl rfl
    | false =>
      refine tidy_open h hsealed ha fun k hk => ?_
      rw [hm, lookup_put, if_neg hk, hother k hk]
  refine wp_do hopened hE (fun _ => rfl)
    (h.stopped.put hnone rfl rfl fun _ => hdescribed _ rfl rfl) ?_
  have hdone := done_of_put (t := { w with
      archives := put (archiveFile (source.name clock)) output w.archives
      manifests := put (manifestFile (source.name clock)) (some _)
        (put (manifestFile (source.name clock)) none w.manifests)
      undescribed := false
      placed := (archiveFile (source.name clock), output) :: w.placed }) h hnone rfl rfl rfl rfl
    (hdescribed _ rfl rfl)
  exact ⟨hdone.1.stopped, hdone⟩

/-- A source whose archive is free is saved in a directory of its own. -/
theorem wp_save (hgzip : ∀ c, T.gunzip (T.gzip c) = some c) (hworks : U → ∀ x, P x → Works T x)
    (h : At T stamps clock U w₀ done w)
    (hfree : U → w.archives.lookup (archiveFile (source.name clock)) = none)
    (hsound : U → ∃ content, w.db.content source = some content ∧ Sound T content) :
    Wp (actOf T P) (Stopped T stamps clock w₀) (do
        call .makeWork
        let r ← Prog.attempt (saveSource T clock source)
        call .removeWork
        let report ← Prog.ofExcept r
        return some report)
      (Post (¬U) fun _ t => Done T stamps clock U w₀ done source w t) w := by
  have hE : (∃ x, P x ∧ x.raises = true) → ¬U := fun ⟨x, hx, hraises⟩ hu =>
    absurd ((hworks hu x hx).1) (by rw [hraises]; exact Bool.noConfusion)
  have hsave : Wp (actOf T P) (Stopped T stamps clock w₀) (saveSource T clock source)
      (Post (¬U) fun _ t => Done T stamps clock U w₀ done source w t) w := by
    refine wp_then (wp_copySource hgzip hworks hsound h.stopped) ?_
    rintro copied t rfl
    exact wp_publish hworks h hfree _ _ _
  refine wp_ask h.stopped hE (fun _ => rfl) (wp_bind (wp_attempt (hsave.mono ?_)))
  intro r t ht hr
  cases r with
  | ok report => exact wp_ask ht hE (fun _ => rfl) ⟨ht, hr⟩
  | error e => exact wp_ask ht hE (fun _ => rfl) ⟨ht, hr⟩

theorem wp_backupSource (hgzip : ∀ c, T.gunzip (T.gzip c) = some c)
    (hworks : U → ∀ x, P x → Works T x) (h : At T stamps clock U w₀ done w)
    (hnew : source.stem ∉ done) (hhealthy : U → (source.isSealed clock.today = true ∧
        (w₀.archives.lookup (archiveFile (source.name clock))).isSome = true) ∨
      ∃ content, w₀.db.content source = some content ∧ Sound T content) :
    Wp (actOf T P) (Stopped T stamps clock w₀) (backupSource T clock source)
      (Post (¬U) fun _ t => Done T stamps clock U w₀ done source w t) w := by
  have hE : (∃ x, P x ∧ x.raises = true) → ¬U := fun ⟨x, hx, hraises⟩ hu =>
    absurd ((hworks hu x hx).1) (by rw [hraises]; exact Bool.noConfusion)
  cases hsealed : source.isSealed clock.today with
  | false =>
    have hfree : U → w.archives.lookup (archiveFile (source.name clock)) = none := by
      intro hu
      rw [name_of_open hsealed]
      exact h.free hu _ hnew
    rw [backupSource, if_neg (by rw [hsealed]; exact Bool.false_ne_true)]
    refine wp_save hgzip hworks h hfree fun hu => ?_
    rw [h.db]
    refine (hhealthy hu).resolve_left fun hleft => ?_
    rw [hsealed] at hleft
    exact Bool.false_ne_true hleft.1
  | true =>
    rw [backupSource, if_pos hsealed]
    refine wp_ask h.stopped hE (fun _ => rfl) ?_
    have hname : ∃ day, source.name clock = sealedName day := by
      cases source with
      | partition day => exact ⟨day, name_of_sealed hsealed⟩
      | history => cases hsealed
      | logs => cases hsealed
    obtain ⟨day, hday⟩ := hname
    rw [hday]
    rcases (h.stopped.tidy h.rest).parts day with ⟨harchive, hmanifest⟩ |
      ⟨archive, manifest, harchive, hmanifest, hfile, hsha⟩
    · -- There is no archive of the partition yet.
      refine wp_ite (fun hsome => ?_) fun _ => ?_
      · rw [hmanifest] at hsome
        exact absurd hsome Bool.false_ne_true
      rw [← hday] at harchive
      refine wp_save hgzip hworks h (fun _ => harchive) fun hu => ?_
      rw [h.db]
      refine (hhealthy hu).resolve_left fun ⟨_, hsome⟩ => ?_
      obtain ⟨a, ha⟩ := Option.isSome_iff_exists.1 hsome
      rw [h.stopped.kept _ _ ha] at harchive
      cases harchive
    · -- The archive is the one of its manifest.
      refine wp_ite (fun _ => ?_) fun hnone => ?_
      swap
      · rw [hmanifest] at hnone
        exact absurd rfl hnone
      refine wp_find h.stopped hE (fun _ => rfl) (fun hmissing => ?_) fun prior hprior => ?_
      · rw [hmanifest] at hmissing
        cases hmissing
      rw [hmanifest] at hprior
      obtain rfl := Option.some.inj hprior
      refine wp_find h.stopped hE (fun _ => rfl) (fun hmissing => ?_) fun found hfound => ?_
      · rw [hfile, harchive] at hmissing
        cases hmissing
      rw [hfile, harchive] at hfound
      obtain rfl := Option.some.inj hfound
      refine wp_ite (fun hne => absurd hsha.symm hne) fun _ => ⟨h.stopped, ?_, ?_, fun _ => ?_⟩
      · exact ⟨h.stopped, h.rest, h.db, fun hu stem hstem =>
          h.free hu stem fun hold => hstem (List.mem_append_left _ hold)⟩
      · exact fun _ _ hold => hold
      · rw [hday, harchive]
        rfl

/-- The sources come one after the other, and each leaves its archive. -/
theorem wp_backupSources (hgzip : ∀ c, T.gunzip (T.gzip c) = some c)
    (hworks : U → ∀ x, P x → Works T x) (todo : List Source) (h : At T stamps clock U w₀ done w)
    (hnew : (done ++ todo.map Source.stem).Nodup)
    (hhealthy : U → ∀ source ∈ todo, (source.isSealed clock.today = true ∧
        (w₀.archives.lookup (archiveFile (source.name clock))).isSome = true) ∨
      ∃ content, w₀.db.content source = some content ∧ Sound T content) :
    Wp (actOf T P) (Stopped T stamps clock w₀) (backupSources T clock todo)
      (Post (¬U) fun _ t => At T stamps clock U w₀ (done ++ todo.map Source.stem) t ∧
        (∀ file archive, w.archives.lookup file = some archive →
          t.archives.lookup file = some archive) ∧
        ∀ source ∈ todo, source.isSealed clock.today = true →
          (t.archives.lookup (archiveFile (source.name clock))).isSome = true) w := by
  induction todo generalizing done w with
  | nil =>
    rw [List.map_nil, List.append_nil]
    exact ⟨h.stopped, h, fun _ _ hold => hold, fun _ hmem => absurd hmem List.not_mem_nil⟩
  | cons source todo ih =>
    have hcons : done ++ (source :: todo).map Source.stem =
        (done ++ [source.stem]) ++ todo.map Source.stem := by
      rw [List.map_cons, List.append_assoc]
      rfl
    rw [hcons] at hnew ⊢
    have hfirst : source.stem ∉ done := fun hold =>
      (List.nodup_append.1 (List.nodup_append.1 hnew).1).2.2 _ hold _ (List.mem_singleton.2 rfl) rfl
    refine wp_then (wp_backupSource hgzip hworks h hfirst fun hu =>
      hhealthy hu source List.mem_cons_self) ?_
    rintro report t ⟨hat, hgrows, hown⟩
    refine wp_then (ih hat hnew fun hu s hs => hhealthy hu s (List.mem_cons_of_mem _ hs)) ?_
    rintro reports t' ⟨hat', hgrows', hothers⟩
    refine ⟨hat'.stopped, hat', fun _ _ hold => hgrows' _ _ (hgrows _ _ hold),
      fun s hs hsealed => ?_⟩
    rcases List.mem_cons.1 hs with rfl | hs
    · obtain ⟨archive, harchive⟩ := Option.isSome_iff_exists.1 (hown hsealed)
      rw [hgrows' _ _ harchive]
      rfl
    · exact hothers s hs hsealed

end run

section main

variable {P : Choice → Prop} {clock : Clock} {w₀ : World}

def SameFolder (v w : World) : Prop :=
  w.archives = v.archives ∧ w.manifests = v.manifests ∧ w.undescribed = v.undescribed ∧
    w.placed = v.placed

theorem Stopped.congr (h : Stopped T stamps clock w₀ v) (hw : SameFolder v w) :
    Stopped T stamps clock w₀ w := by
  obtain ⟨ha, hm, hu, hp⟩ := hw
  exact ⟨fun file archive hfile => ha ▸ h.kept file archive hfile,
    fun file archive hfile => ha ▸ h.placed file archive (hp ▸ hfile),
    fun hrest => (h.tidy (hu ▸ hrest)).congr ha hm⟩

theorem wp_report {U : Prop} (hworks : U → ∀ x, P x → Works T x)
    (h : Stopped T stamps clock w₀ w) (results : List Report) :
    Wp (actOf T P) (Stopped T stamps clock w₀) (report results)
      (Post (¬U) fun _ t => SameFolder w t) w := by
  have hE : (∃ x, P x ∧ x.raises = true) → ¬U := fun ⟨x, hx, hraises⟩ hu =>
    absurd ((hworks hu x hx).1) (by rw [hraises]; exact Bool.noConfusion)
  have hC : ∀ t, SameFolder w t → Stopped T stamps clock w₀ t := fun t => h.congr
  have hsame : SameFolder w w := ⟨rfl, rfl, rfl, rfl⟩
  refine wp_then (R := fun _ t => t = w) (wp_call h hE fun _ _ => ⟨h, rfl⟩) ?_
  rintro checkedAt t rfl
  refine wp_ask h hE (fun _ => rfl) ?_
  refine wp_do h hE (fun _ => rfl) (hC _ hsame) ?_
  refine wp_do (hC _ hsame) hE (fun _ => rfl) (hC _ hsame) ?_
  refine wp_do (hC _ hsame) hE (fun _ => rfl) (hC _ hsame) ?_
  refine wp_do (hC _ hsame) hE (fun _ => rfl) (hC _ hsame) ?_
  exact wp_call (hC _ hsame) hE fun _ _ => ⟨hC _ hsame, hsame⟩

/-- Nothing disturbs a run. -/
structure Undisturbed (T : Tools) (P : Choice → Prop) (stamps : List String) (clock : Clock)
    (w₀ : World) : Prop where
  works : ∀ x, P x → Works T x
  fresh : clock.stamp ∉ stamps
  healthy : Healthy T clock w₀

/-- Between runs the folder is tidy, with every archive that was put in it. -/
def Good (T : Tools) (stamps : List String) (w : World) : Prop :=
  w.undescribed = false ∧ Tidy T stamps w ∧
    ∀ file archive, (file, archive) ∈ w.placed → w.archives.lookup file = some archive

theorem free_of_fresh (h : Tidy T stamps w) (hfresh : clock.stamp ∉ stamps) (stem : String) :
    w.archives.lookup (archiveFile (openName stem clock.stamp)) = none := by
  rw [← Option.not_isSome_iff_eq_none]
  intro hsome
  obtain ⟨archive, harchive⟩ := Option.isSome_iff_exists.1 hsome
  have hname := List.mem_map_of_mem (f := Prod.fst) (mem_of_lookup harchive)
  rcases h.named _ hname with ⟨day, hday⟩ | ⟨stem', stamp, hstamp, hform, hother⟩
  · exact openName_ne_sealedName clock.isStamp (archiveFile_inj hday)
  · obtain ⟨-, rfl⟩ := openName_inj clock.isStamp hform (archiveFile_inj hother)
    exact hfresh hstamp

/-- A run keeps the archives wherever it stops, and saves the closed partitions if nothing
disturbs it. -/
theorem wp_main (hgzip : ∀ c, T.gunzip (T.gzip c) = some c) (hgood : Good T stamps w₀) :
    Wp (actOf T P) (Stopped T stamps clock w₀) (main T clock)
      (Post (¬Undisturbed T P stamps clock w₀) fun _ t =>
        ∀ day ∈ w₀.db.days, day < clock.today → Saved T t (sealedName day)) w₀ := by
  have hworks : Undisturbed T P stamps clock w₀ → ∀ x, P x → Works T x := fun hu => hu.works
  have hE : (∃ x, P x ∧ x.raises = true) → ¬Undisturbed T P stamps clock w₀ :=
    fun ⟨x, hx, hraises⟩ hu =>
      absurd ((hworks hu x hx).1) (by rw [hraises]; exact Bool.noConfusion)
  have hstart : Stopped T stamps clock w₀ w₀ :=
    ⟨fun _ _ h => h, hgood.2.2, fun _ => hgood.2.1.mono (List.subset_cons_self _ _)⟩
  have hat : At T stamps clock (Undisturbed T P stamps clock w₀) w₀ [] w₀ :=
    ⟨hstart, hgood.1, rfl, fun hu stem _ => free_of_fresh hgood.2.1 hu.fresh stem⟩
  refine wp_ask hstart hE (fun _ => rfl) ?_
  refine wp_ask hstart hE (fun _ => rfl) ?_
  refine wp_ask hstart hE (fun _ => rfl) ?_
  refine wp_then (wp_backupSources hgzip hworks _ hat (stems_nodup w₀.db _)
    fun hu => hu.healthy) ?_
  rintro results t ⟨hlast, -, hpresent⟩
  refine (wp_report hworks hlast.stopped results).mono fun r t' ht' hr => ?_
  cases r with
  | error e => exact hr
  | ok u =>
    intro day hday htoday
    have hsealed : (Source.partition day).isSealed clock.today = true := decide_eq_true htoday
    have hsource : Source.partition day ∈ sources w₀.db.logs.isSome w₀.db.days :=
      List.mem_append_right _ (List.mem_map_of_mem hday)
    have hsome := hpresent _ hsource hsealed
    rw [name_of_sealed hsealed] at hsome
    obtain ⟨ha, hm, hu, -⟩ : SameFolder t t' := hr
    have htidy := ht'.tidy (hu.trans hlast.rest)
    refine (htidy.parts day).resolve_left fun hunsaved => ?_
    rw [← ha, hunsaved.1] at hsome
    exact Bool.false_ne_true hsome

theorem wp_any {α : Type} {C : World → Prop} {p : BackupProg α}
    {Q : Except BackupError α → World → Prop}
    (h : Wp (actOf T fun _ => True) C p Q w) : Wp (act T) C p Q w :=
  h.lift (f := id) (g := fun x => ⟨x, trivial⟩) fun _ _ _ => ⟨rfl, rfl⟩

theorem Runs.good (hgzip : ∀ c, T.gunzip (T.gzip c) = some c) (h : Runs T Whole stamps w) :
    Good T stamps w := by
  induction h with
  | start db =>
    refine ⟨rfl, ⟨fun day => .inl ⟨rfl, rfl⟩, fun file hfile => absurd hfile List.not_mem_nil⟩,
      fun _ _ hfile => absurd hfile List.not_mem_nil⟩
  | change db h ih => exact ⟨ih.1, ih.2.1.congr rfl rfl, ih.2.2⟩
  | run clock h hnew hr hK ih =>
    have hrun : Stopped T _ clock _ _ := (wp_any (wp_main hgzip ih)).crash hr
    exact ⟨hK, hrun.tidy hK, hrun.placed⟩

/-- After any runs, none of which was stopped between the archive of a closed partition and the end
of its manifest, the archives are as they were put there wherever the next run stops, and a run that
nothing disturbs succeeds and leaves every closed partition saved. -/
theorem recovers (hgzip : ∀ c, T.gunzip (T.gzip c) = some c) (stamps : List String) (w : World)
    (h : Runs T Whole stamps w) : Recovers T stamps w := by
  have hgood := h.good hgzip
  refine ⟨fun clock w' hr => ((wp_any (wp_main hgzip hgood)).crash hr).kept,
    fun clock w' hr => ((wp_any (wp_main hgzip hgood)).crash hr).placed, ?_⟩
  intro clock r w' hfresh hhealthy hf
  have hmain : Post (¬Undisturbed T (Works T) stamps clock w) _ r w' :=
    (wp_main hgzip hgood).finish hf
  have hundisturbed : Undisturbed T (Works T) stamps clock w :=
    ⟨fun _ hx => hx, hfresh, hhealthy⟩
  cases r with
  | ok u => exact ⟨rfl, hmain⟩
  | error e => exact absurd hundisturbed hmain

end main

namespace Sample

def content : Bytes :=
  [83, 81, 76]

def tools : Tools where
  sha256 b := if b = content then "a7d1" else "5f0c"
  gzip c := 31 :: 139 :: c
  gunzip c := match c with
    | 31 :: 139 :: c => some c
    | _ => none
  decrypt c := match c with
    | 97 :: c => some c
    | _ => none
  integrity _ := true
  tables _ := ["snapshots"]
  rows _ _ := 1

def choice : Choice :=
  ⟨false, 0, fun c => 97 :: c⟩

theorem works_choice : Works tools choice :=
  ⟨rfl, fun _ => rfl⟩

/-- The history, and a partition that is closed. -/
def databases : Databases :=
  ⟨some content, none, [("2026-09-10", content)], by decide⟩

def first : Clock :=
  ⟨"2026-09-11", "20260911T030000Z", by decide, by decide⟩

def second : Clock :=
  ⟨"2026-09-12", "20260912T030000Z", by decide, by decide⟩

def start : World :=
  ⟨databases, [], [], none, none, none, false, []⟩

/-- The folder after a run that nothing disturbs. -/
def saved : World :=
  ((main tools first).exec (act tools) choice start).2

theorem recovers_sample : Runs tools Whole [first.stamp] saved ∧
    Recovers tools [first.stamp] saved := by
  have hruns : Runs tools Whole [first.stamp] saved :=
    .run first (.start databases) List.not_mem_nil (reaches_of_finishes (exec_finishes _ _))
      (by decide +kernel : saved.undescribed = false)
  exact ⟨hruns, recovers (fun _ => rfl) _ _ hruns⟩

/-- The folder after a run that is killed when the archive of the partition is in its place. -/
def torn : World :=
  (main tools first).stopAfter (act tools) (List.replicate 23 choice) start

/-- A later run, that nothing disturbs. -/
def later : Except BackupError Unit × World :=
  (main tools second).exec (actWell tools) ⟨choice, works_choice⟩ torn

theorem healthy_torn : Healthy tools second torn := by
  have hsources : sources torn.db.logs.isSome torn.db.days =
      [.history, .partition "2026-09-10"] := by decide +kernel
  have hcontent : ∀ source ∈ [Source.history, .partition "2026-09-10"],
      torn.db.content source = some content := by decide +kernel
  intro source hsource
  rw [hsources] at hsource
  exact .inr ⟨content, hcontent source hsource, by decide, by decide, 1, rfl⟩

/-- The later run finds the archive without its manifest, and refuses it. -/
theorem killed_before_manifest : ¬∀ stamps w, Runs tools (fun _ => True) stamps w →
    Recovers tools stamps w := by
  intro h
  have hruns : Runs tools (fun _ => True) [first.stamp] torn :=
    .run first (.start databases) List.not_mem_nil (reaches_stopAfter _ _ _) trivial
  have hlater : later.1 = .ok () :=
    ((h _ _ hruns).completes second _ _ (by decide) healthy_torn (exec_finishes _ _)).1
  have hfails : later.1.toOption = none := by decide +kernel
  rw [hlater] at hfails
  cases hfails

end Sample

end OpsTelemetryBackup
