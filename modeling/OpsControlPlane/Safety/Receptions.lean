import OpsControlPlane.Recovery.Receiver
import OpsControlPlane.Lib.Assoc

/-!
# The receiver only adds exact copies

A call builds its directory beside what is published, `wp_receiveEntries` says what is in it, and
the only operation that publishes it is its last one. `Delivery` is what a call that returns has
done, and `wp_receive` its rule, with every place where it may stop. `received` is the result over
any sequence of calls.
-/

namespace OpsReceiver

open Calls Calls.Prog Assoc

/-! ## Operations -/

section operations

variable {C : Root → Prop} {x : ReceiverChoice} {r : Root} {o : ReceiverOp}
  {Q : Except Unit o.Reply → Root → Prop}

/-- An operation raises and changes nothing, or does what it does. -/
theorem wp_call (hC : C r) (hraise : Q (.error ()) r)
    (h : ∀ x, C (o.run x r).2 ∧ Q (o.run x r).1 (o.run x r).2) : Wp act C (call o) Q r := by
  refine wp_op hC fun x => ?_
  have hact : act o x r = (.error (), r) ∨ act o x r = o.run x r := by
    cases o with
    | removeStage => exact ite_eq_or_eq _ _ _
    | _ => exact ite_eq_or_eq _ _ _
  rcases hact with hact | hact
  · rw [hact]
    exact ⟨hC, hraise⟩
  · rw [hact]
    exact h x

theorem wp_answer {a : o.Reply} {t : Root} (hrun : ∀ x, o.run x r = (.ok a, t)) (hC : C r)
    (hraise : Q (.error ()) r) (ht : C t) (hQ : Q (.ok a) t) : Wp act C (call o) Q r :=
  wp_call hC hraise fun x => by
    rw [hrun x]
    exact ⟨ht, hQ⟩

theorem wp_ite {α : Type} {c : Prop} [Decidable c] {a b : ReceiverProg α}
    {Q : Except Unit α → Root → Prop} (ha : c → Wp act C a Q r) (hb : ¬c → Wp act C b Q r) :
    Wp act C (if c then a else b) Q r := by
  split
  · next h => exact ha h
  · next h => exact hb h

theorem exec_call (hx : x.raises = false) (o : ReceiverOp) :
    (call o).exec act x r = o.run x r := by
  have hact : act o x r = o.run x r := by
    cases o with
    | removeStage => exact if_neg fun h => Bool.eq_false_iff.1 hx h.1
    | _ => exact if_neg (Bool.eq_false_iff.1 hx)
  calc (call o).exec act x r = ((act o x r).1, (act o x r).2) := exec_ofExcept _ _
    _ = o.run x r := by rw [hact]

end operations

/-! ## A member is written -/

theorem append_append (folder : Folder) (name : String) (a b : Bytes) :
    (folder.append name a).append name b = folder.append name (a ++ b) := by
  rw [Folder.append, Folder.append, Folder.append, List.map_map]
  refine List.map_congr_left fun f _ => ?_
  by_cases h : f.1 = name
  · simp [h]
  · simp [h]

theorem append_nil (folder : Folder) (name : String) : folder.append name [] = folder := by
  refine (List.map_congr_left fun f _ => ?_).trans (List.map_id' folder)
  rw [List.append_nil]
  exact ite_self f

theorem append_new {folder : Folder} {name : String} (h : name ∉ folder.map Prod.fst)
    (data : Bytes) :
    Folder.append (folder ++ [(name, [])]) name data = folder ++ [(name, data)] := by
  have hold : folder.append name data = folder := by
    refine (List.map_congr_left fun f hf => ?_).trans (List.map_id' folder)
    refine if_neg fun (he : f.1 = name) => h ?_
    exact he ▸ List.mem_map_of_mem hf
  rw [Folder.append, List.map_append]
  exact congrArg₂ (· ++ ·) hold (by simp)

section staging

variable {C : Root → Prop} {p : List (String × Folder)} {x : ReceiverChoice}

/-- The chunks are the data, whatever their number. -/
theorem wp_copyChunks (hC : ∀ t : Root, t.published = p → C t) (name : String) (n : ℕ)
    (data : Bytes) (folder : Folder) (hn : data.length ≤ n) :
    Wp act C (copyChunks name n data) (fun res t => match res with
      | .ok _ => t = ⟨p, some (folder.append name data)⟩
      | .error _ => t.published = p) ⟨p, some folder⟩ := by
  induction n generalizing data folder with
  | zero =>
    obtain rfl := List.length_eq_zero_iff.1 (Nat.le_zero.1 hn)
    exact wp_pure (hC _ rfl) (by rw [append_nil])
  | succ n ih =>
    rw [copyChunks]
    split
    · next h =>
      subst h
      exact wp_pure (hC _ rfl) (by rw [append_nil])
    · next h =>
      have hpos := List.length_pos_iff.2 h
      refine wp_bind (wp_call (hC _ rfl) rfl fun x => ⟨hC _ rfl, ?_⟩)
      have hrest : (data.drop (1024 * 1024)).length ≤ n := by
        rw [List.length_drop]
        omega
      have hnext := ih (data.drop (1024 * 1024)) (folder.append name (data.take (1024 * 1024)))
        hrest
      rw [append_append, List.take_append_drop] at hnext
      exact hnext

theorem exec_copyChunks (hx : x.raises = false) (name : String) (n : ℕ) (data : Bytes)
    (folder : Folder) (hn : data.length ≤ n) :
    (copyChunks name n data).exec act x ⟨p, some folder⟩ =
      (.ok (), ⟨p, some (folder.append name data)⟩) := by
  induction n generalizing data folder with
  | zero =>
    obtain rfl := List.length_eq_zero_iff.1 (Nat.le_zero.1 hn)
    rw [append_nil]
    rfl
  | succ n ih =>
    rw [copyChunks]
    split
    · next h =>
      subst h
      rw [append_nil]
      rfl
    · next h =>
      have hpos := List.length_pos_iff.2 h
      have hrest : (data.drop (1024 * 1024)).length ≤ n := by
        rw [List.length_drop]
        omega
      rw [exec_bind_ok (exec_call hx _)]
      refine (ih _ (folder.append name (data.take (1024 * 1024))) hrest).trans ?_
      rw [append_append, List.take_append_drop]

/-! ## The members -/

def written (entries : List Entry) : Folder :=
  entries.map fun e => (e.name, e.content)

def Accepted : List String → List Entry → Prop
  | _, [] => True
  | seen, e :: entries =>
    e.allowed seen = true ∧ e.size ≤ e.data.length ∧ Accepted (seen ++ [e.name]) entries

variable {e : Entry}

theorem allowed_spec {seen : List String} (h : e.allowed seen = true) :
    (e.name = bundleName ∨ e.name = manifestName) ∧ e.name ∉ seen ∧ e.size ≤ limit := by
  obtain ⟨hname, hseen, -, -, hsize⟩ := of_decide_eq_true h
  refine ⟨hname, hseen, hsize.trans ?_⟩
  rw [maximum]
  split
  · exact le_rfl
  · exact_mod_cast (by decide : 16384 ≤ limit)

variable {folder : Folder} {name : String}

/-- A file is made once. -/
theorem run_create (h : name ∉ folder.map Prod.fst) (x : ReceiverChoice) :
    (ReceiverOp.create name).run x ⟨p, some folder⟩ =
      (.ok (), ⟨p, some (folder ++ [(name, [])])⟩) := by
  have hlookup : folder.lookup name = none := by
    refine List.lookup_eq_none_iff.2 fun kv hkv => bne_iff_ne.2 fun he => h ?_
    exact he ▸ List.mem_map_of_mem hkv
  refine if_neg ?_
  rw [Option.any_some, hlookup]
  exact Bool.false_ne_true

theorem run_read {content : Bytes} (h : folder.lookup name = some content) (x : ReceiverChoice) :
    (ReceiverOp.read name).run x ⟨p, some folder⟩ = (.ok content, ⟨p, some folder⟩) := by
  rw [ReceiverOp.run, Option.bind_some, h]

theorem wp_receiveEntry (hC : ∀ t : Root, t.published = p → C t) :
    Wp act C (receiveEntry (folder.map Prod.fst) e) (fun res t => match res with
      | .ok seen => (e.allowed (folder.map Prod.fst) = true ∧ e.size ≤ e.data.length) ∧
        seen = (folder ++ [(e.name, e.content)]).map Prod.fst ∧
        t = ⟨p, some (folder ++ [(e.name, e.content)])⟩
      | .error _ => t.published = p) ⟨p, some folder⟩ := by
  rw [receiveEntry]
  split
  swap
  · exact wp_fail (hC _ rfl) rfl
  next hallowed =>
  obtain ⟨-, hnew, -⟩ := allowed_spec hallowed
  refine wp_bind (wp_call (hC _ rfl) rfl fun x => ⟨hC _ rfl, ?_⟩)
  refine wp_ite (fun _ => wp_fail (hC _ rfl) rfl) fun _ => ?_
  refine wp_bind (wp_answer (run_create hnew) (hC _ rfl) rfl (hC _ rfl) ?_)
  refine wp_bind ((wp_copyChunks hC e.name _ e.content _ le_rfl).mono ?_)
  intro res t _ hres
  cases res with
  | error u => exact hres
  | ok u =>
    obtain rfl := hres
    rw [append_new hnew]
    refine wp_ite (fun _ => wp_fail (hC _ rfl) rfl) fun hlong => ?_
    refine wp_bind (wp_call (hC _ rfl) rfl fun z => ⟨hC _ rfl, wp_pure (hC _ rfl) ?_⟩)
    have hseen : folder.map Prod.fst ++ [e.name] =
        (folder ++ [(e.name, e.content)]).map Prod.fst := by
      rw [List.map_append]
      rfl
    exact ⟨⟨hallowed, not_lt.1 hlong⟩, hseen, rfl⟩

theorem exec_receiveEntry (hx : Well x) (hallowed : e.allowed (folder.map Prod.fst) = true)
    (hlong : e.size ≤ e.data.length) :
    (receiveEntry (folder.map Prod.fst) e).exec act x ⟨p, some folder⟩ =
      (.ok ((folder ++ [(e.name, e.content)]).map Prod.fst),
        ⟨p, some (folder ++ [(e.name, e.content)])⟩) := by
  obtain ⟨-, hnew, hsize⟩ := allowed_spec hallowed
  obtain ⟨hraises, hspace⟩ := hx
  have hfree : ¬(x.free : ℤ) < e.size + 512 * 1024 * 1024 := by
    have : ((limit + 512 * 1024 * 1024 : ℕ) : ℤ) ≤ x.free := Int.ofNat_le.2 hspace
    push_cast at this
    omega
  have hcreate : (call (.create e.name)).exec act x ⟨p, some folder⟩ =
      (.ok (), ⟨p, some (folder ++ [(e.name, [])])⟩) :=
    (exec_call hraises _).trans (run_create hnew x)
  have hcopy := exec_copyChunks (p := p) hraises e.name _ e.content
    (folder ++ [(e.name, [])]) le_rfl
  rw [append_new hnew] at hcopy
  rw [receiveEntry, if_pos hallowed, exec_bind_ok (exec_call hraises _)]
  refine (congrArg (fun q : ReceiverProg (List String) => q.exec act x _) (if_neg hfree)).trans ?_
  rw [exec_bind_ok hcreate, exec_bind_ok hcopy, if_neg (not_lt.2 hlong),
    exec_bind_ok (exec_call hraises _), List.map_append]
  rfl

/-- The directory has the members of the stream, or nothing was published. -/
theorem wp_receiveEntries (hC : ∀ t : Root, t.published = p → C t) (entries : List Entry)
    (folder : Folder) :
    Wp act C (receiveEntries (folder.map Prod.fst) entries) (fun res t => match res with
      | .ok seen => Accepted (folder.map Prod.fst) entries ∧
        seen = (folder ++ written entries).map Prod.fst ∧ t = ⟨p, some (folder ++ written entries)⟩
      | .error _ => t.published = p) ⟨p, some folder⟩ := by
  induction entries generalizing folder with
  | nil =>
    refine wp_pure (hC _ rfl) ?_
    rw [written, List.map_nil, List.append_nil]
    exact ⟨trivial, rfl, rfl⟩
  | cons e entries ih =>
    refine wp_bind ((wp_receiveEntry hC).mono fun res t _ hres => ?_)
    cases res with
    | error u => exact hres
    | ok seen =>
      obtain ⟨⟨hallowed, hlong⟩, rfl, rfl⟩ := hres
      refine (ih (folder ++ [(e.name, e.content)])).mono fun res t _ hres => ?_
      cases res with
      | error u => exact hres
      | ok seen =>
        rw [List.append_assoc, List.map_append] at hres
        obtain ⟨haccepted, hseen, ht⟩ := hres
        exact ⟨⟨hallowed, hlong, haccepted⟩, hseen, ht⟩

theorem exec_receiveEntries (hx : Well x) (entries : List Entry) (folder : Folder)
    (h : Accepted (folder.map Prod.fst) entries) :
    (receiveEntries (folder.map Prod.fst) entries).exec act x ⟨p, some folder⟩ =
      (.ok ((folder ++ written entries).map Prod.fst), ⟨p, some (folder ++ written entries)⟩) := by
  induction entries generalizing folder with
  | nil =>
    rw [written, List.map_nil, List.append_nil]
    rfl
  | cons e entries ih =>
    obtain ⟨hallowed, hlong, hrest⟩ := h
    have hfirst := exec_receiveEntry (p := p) hx hallowed hlong
    rw [receiveEntries, exec_bind_ok hfirst]
    have hseen : (folder ++ [(e.name, e.content)]).map Prod.fst = folder.map Prod.fst ++ [e.name] :=
      List.map_append
    rw [← hseen] at hrest
    refine (ih (folder ++ [(e.name, e.content)]) hrest).trans ?_
    rw [List.append_assoc]
    rfl

end staging

/-! ## What the members are -/

theorem names_written (entries : List Entry) :
    (written entries).map Prod.fst = entries.map Entry.name := by
  rw [written, List.map_map]
  rfl

theorem lookup_written (s : Stream) (name : String) :
    (written s.entries).lookup name = s.member name := by
  rw [Stream.member, written]
  induction s.entries with
  | nil => rfl
  | cons e entries ih =>
    by_cases h : e.name = name
    · subst h
      simp
    · rw [List.map_cons, List.lookup_cons, beq_false_of_ne (Ne.symm h), List.find?_cons_of_neg
        (by simpa using h)]
      exact ih

theorem accepted_names {seen : List String} {entries : List Entry} (h : Accepted seen entries)
    (hseen : seen.Nodup) : (seen ++ entries.map Entry.name).Nodup ∧
      ∀ e ∈ entries, (e.name = bundleName ∨ e.name = manifestName) ∧ e.size ≤ maximum e.name := by
  induction entries generalizing seen with
  | nil => exact ⟨by simpa using hseen, fun e he => absurd he List.not_mem_nil⟩
  | cons e entries ih =>
    obtain ⟨hallowed, -, hrest⟩ := h
    obtain ⟨hname, hnew, -⟩ := allowed_spec hallowed
    have hsize : e.size ≤ maximum e.name := (of_decide_eq_true hallowed).2.2.2.2
    have hnext : (seen ++ [e.name]).Nodup :=
      List.nodup_append.2 ⟨hseen, List.nodup_singleton _, fun a ha b hb =>
        (List.mem_singleton.1 hb) ▸ fun he => hnew (he ▸ ha)⟩
    obtain ⟨hnodup, hnames⟩ := ih hrest hnext
    rw [List.append_assoc] at hnodup
    refine ⟨hnodup, fun e' he' => ?_⟩
    rcases List.mem_cons.1 he' with rfl | he'
    · exact ⟨hname, hsize⟩
    · exact hnames e' he'

theorem perm_written {s : Stream} (h : Accepted [] s.entries) {bundle manifest : Bytes}
    (hbundle : s.member bundleName = some bundle)
    (hmanifest : s.member manifestName = some manifest) :
    (written s.entries).Perm [(bundleName, bundle), (manifestName, manifest)] := by
  obtain ⟨hnodup, hnames⟩ := accepted_names h List.nodup_nil
  refine perm_pair ?_ (by decide) ?_ ?_ fun k hk => ?_
  · rw [names_written]
    exact hnodup
  · rw [lookup_written, hbundle]
  · rw [lookup_written, hmanifest]
  · rw [names_written] at hk
    obtain ⟨e, he, rfl⟩ := List.mem_map.1 hk
    exact (hnames e he).1

theorem manifest_short {s : Stream} (h : Accepted [] s.entries) {manifest : Bytes}
    (hmanifest : s.member manifestName = some manifest) : manifest.length ≤ 16384 := by
  obtain ⟨e, hfound, rfl⟩ := Option.map_eq_some_iff.1 hmanifest
  have hname : e.name = manifestName := by simpa using List.find?_some hfound
  have hsize := ((accepted_names h List.nodup_nil).2 e (List.mem_of_find?_eq_some hfound)).2
  rw [hname, maximum, if_neg (by decide)] at hsize
  refine (List.length_take_le _ _).trans ?_
  omega

/-! ## The published directories -/

section published

variable {F : Type} [Library F] {folder : Folder} {bundle manifest : Bytes}

theorem lookup_sealed (h : folder.Perm [(bundleName, bundle), (manifestName, manifest)]) :
    folder.lookup bundleName = some bundle ∧ folder.lookup manifestName = some manifest := by
  have hnames : ([(bundleName, bundle), (manifestName, manifest)].map Prod.fst).Nodup :=
    (by decide : [bundleName, manifestName].Nodup)
  rw [lookup_perm hnames h, lookup_perm hnames h]
  exact ⟨rfl, rfl⟩

variable {used : ℕ} {name : String}

theorem usedBytes_append {folders : List (String × Folder)} (h : usedBytes folders = some used)
    (hbundle : folder.lookup bundleName = some bundle) :
    usedBytes (folders ++ [(name, folder)]) = some (used + bundle.length) := by
  induction folders generalizing used with
  | nil =>
    obtain rfl := Option.some.inj h
    simp [usedBytes, hbundle]
  | cons d folders ih =>
    obtain ⟨n, f⟩ := d
    obtain ⟨first, hfirst, h⟩ := Option.bind_eq_some_iff.1 h
    obtain ⟨rest, hrest, h⟩ := Option.bind_eq_some_iff.1 h
    obtain rfl := Option.some.inj h
    rw [List.cons_append, usedBytes, hfirst, ih hrest]
    exact congrArg some (Nat.add_assoc ..).symm

variable {r t : Root}

theorem Kept.publish (h : Kept F r) (hnew : r.published.lookup name = none)
    (hsealed : Sealed F name folder) (hbundle : folder.lookup bundleName = some bundle)
    (hused : usedBytes r.published = some used) (hquota : used + bundle.length ≤ quota) :
    Kept F ⟨r.published ++ [(name, folder)], none⟩ where
  names := by
    rw [List.map_append]
    refine List.nodup_append.2 ⟨h.names, List.nodup_singleton _, fun a ha b hb => ?_⟩
    obtain rfl := List.mem_singleton.1 hb
    exact fun he => lookup_eq_none hnew (he ▸ ha)
  copies := by
    intro d hd
    rcases List.mem_append.1 hd with hd | hd
    · exact h.copies d hd
    · obtain rfl := List.mem_singleton.1 hd
      exact hsealed
  bytes := ⟨used + bundle.length, usedBytes_append hused hbundle, hquota⟩

theorem Kept.congr (h : Kept F r) (ht : t.published = r.published) : Kept F t :=
  ⟨ht ▸ h.names, ht ▸ h.copies, ht ▸ h.bytes⟩

theorem sameCopy_spec (hinjective : Function.Injective (Library.sha256 F))
    (h : sameCopy F folder bundle manifest = true) :
    folder.lookup bundleName = some bundle ∧ folder.lookup manifestName = some manifest := by
  rw [sameCopy] at h
  split at h
  · next bundle' manifest' hbundle hmanifest =>
    obtain ⟨-, hsha, -, rfl⟩ := of_decide_eq_true h
    rw [hbundle, hinjective hsha]
    exact ⟨rfl, hmanifest⟩
  · exact absurd h Bool.false_ne_true

theorem sameCopy_self (h : folder.Perm [(bundleName, bundle), (manifestName, manifest)])
    (hshort : manifest.length ≤ 16384) : sameCopy F folder bundle manifest = true := by
  obtain ⟨hbundle, hmanifest⟩ := lookup_sealed h
  rw [sameCopy, hbundle, hmanifest]
  exact decide_eq_true ⟨rfl, rfl, hshort, rfl⟩

/-! ## A call -/

def Adds (p : List (String × Folder)) (t : Root) : Prop :=
  p <+: t.published ∧ Kept F t

def Delivery (s : Stream) (receipt : Receipt F) (t : Root) : Prop :=
  (s.ends = true ∧ Accepted [] s.entries) ∧ ∃ bundle manifest folder,
    s.member bundleName = some bundle ∧ s.member manifestName = some manifest ∧
    verify F bundle manifest = some receipt.bytes ∧
    receipt = ⟨Library.sha256 F bundle, receipt.bytes, finalName F bundle⟩ ∧
    (finalName F bundle, folder) ∈ t.published ∧
    folder.Perm [(bundleName, bundle), (manifestName, manifest)]

theorem wp_receiveStaged (hinjective : Function.Injective (Library.sha256 F))
    {p : List (String × Folder)} (hkept : Kept F ⟨p, some []⟩) (s : Stream) :
    Wp act (Adds (F := F) p) (receiveStaged F s) (fun res t => match res with
      | .ok receipt => Delivery s receipt t ∧ (t.stage = none ∨ t.published = p)
      | .error _ => t.published = p) ⟨p, some []⟩ := by
  have hC : ∀ t : Root, t.published = p → Adds (F := F) p t := fun t ht =>
    ⟨ht ▸ List.prefix_refl _, hkept.congr ht⟩
  refine wp_bind ((wp_receiveEntries hC s.entries []).mono fun res t _ hres => ?_)
  cases res with
  | error u => exact hres
  | ok seen =>
  obtain ⟨haccepted, rfl, rfl⟩ := hres
  rw [List.nil_append]
  have hstaged := hC ⟨p, some (written s.entries)⟩ rfl
  refine wp_ite (fun _ => wp_fail hstaged rfl) fun hcomplete => ?_
  obtain ⟨hends, hbundleIn, hmanifestIn⟩ : s.ends = true ∧
      bundleName ∈ (written s.entries).map Prod.fst ∧
      manifestName ∈ (written s.entries).map Prod.fst := by
    simpa using hcomplete
  obtain ⟨manifest, hmanifest⟩ := lookup_of_name hmanifestIn
  obtain ⟨bundle, hbundle⟩ := lookup_of_name hbundleIn
  refine wp_bind (wp_answer (run_read hmanifest) hstaged rfl hstaged ?_)
  refine wp_bind (wp_answer (run_read hbundle) hstaged rfl hstaged ?_)
  rw [lookup_written] at hmanifest hbundle
  have hperm := perm_written haccepted hbundle hmanifest
  dsimp only
  cases hverify : verify F bundle manifest with
  | none => exact wp_fail hstaged rfl
  | some bytes =>
  refine wp_bind (wp_answer (fun _ => rfl) hstaged rfl hstaged ?_)
  dsimp only
  cases hexisting : p.lookup (finalName F bundle) with
  | some folder =>
    refine wp_ite (fun hsame => wp_pure hstaged ?_) fun _ => wp_fail hstaged rfl
    have hmem := mem_of_lookup hexisting
    obtain ⟨bundle', manifest', -, hperm', -, -⟩ := hkept.copies _ hmem
    obtain ⟨hb, hm⟩ := sameCopy_spec hinjective hsame
    obtain ⟨hb', hm'⟩ := lookup_sealed hperm'
    obtain rfl := Option.some.inj (hb'.symm.trans hb)
    obtain rfl := Option.some.inj (hm'.symm.trans hm)
    exact ⟨⟨⟨hends, haccepted⟩, bundle', manifest', folder, hbundle, hmanifest, hverify, rfl, hmem,
      hperm'⟩, .inr rfl⟩
  | none =>
    refine wp_bind (wp_answer (fun _ => rfl) hstaged rfl hstaged ?_)
    dsimp only
    cases hused : usedBytes p with
    | none => exact wp_fail hstaged rfl
    | some used =>
      refine wp_ite (fun _ => wp_fail hstaged rfl) fun hquota => ?_
      have hpublished := hkept.publish hexisting ⟨bundle, manifest, bytes, hperm, rfl, hverify⟩
        (lookup_sealed hperm).1 hused (not_lt.1 hquota)
      have hadds : Adds (F := F) p
          ⟨p ++ [(finalName F bundle, written s.entries)], none⟩ :=
        ⟨List.prefix_append _ _, hpublished⟩
      refine wp_bind (wp_answer (fun _ => rfl) hstaged rfl hadds (wp_pure hadds ?_))
      exact ⟨⟨⟨hends, haccepted⟩, bundle, manifest, written s.entries, hbundle, hmanifest, hverify,
        rfl, List.mem_append_right _ List.mem_cons_self, hperm⟩, .inl rfl⟩

/-- What is published is there wherever a call stops. -/
theorem wp_receive (hinjective : Function.Injective (Library.sha256 F)) (hkept : Kept F r)
    (s : Stream) : Wp act (Adds (F := F) r.published) (receive F s) (fun res t => match res with
      | .ok receipt => Delivery s receipt t
      | .error _ => t.published = r.published) r := by
  have hC : ∀ t : Root, t.published = r.published → Adds (F := F) r.published t := fun t ht =>
    ⟨ht ▸ List.prefix_refl _, hkept.congr ht⟩
  refine wp_bind (wp_answer (fun _ => rfl) (hC _ rfl) rfl (hC _ rfl) ?_)
  refine wp_bind (wp_answer (fun _ => rfl) (hC _ rfl) rfl (hC _ rfl) ?_)
  refine wp_bind (wp_attempt ((wp_receiveStaged hinjective (hkept.congr rfl) s).mono ?_))
  intro res t ht hres
  have hremoved : Adds (F := F) r.published { t with stage := none } := ⟨ht.1, ht.2.congr rfl⟩
  refine wp_bind (wp_op ht fun x => ?_)
  by_cases hraises : x.raises ∧ t.stage.isSome
  · -- the directory of the call is left, and nothing was published
    have hact : act .removeStage x t = (.error (), t) := if_pos hraises
    rw [hact]
    refine ⟨ht, ?_⟩
    cases res with
    | error u => exact hres
    | ok receipt =>
      refine hres.2.resolve_left fun hnone => ?_
      rw [hnone] at hraises
      exact absurd hraises.2 Bool.false_ne_true
  · have hact : act .removeStage x t = (.ok (), { t with stage := none }) := if_neg hraises
    rw [hact]
    refine ⟨hremoved, ?_⟩
    cases res with
    | ok receipt => exact wp_pure hremoved hres.1
    | error u => exact wp_fail hremoved hres

variable {s : Stream} {receipt : Receipt F} {x : ReceiverChoice}

/-- A stream that was delivered is accepted, and its copy is compared. -/
theorem exec_receiveStaged (hx : Well x) (h : Delivery s receipt t)
    (hgrown : t.published <+: r.published) (hkept : Kept F r) :
    (receiveStaged F s).exec act x ⟨r.published, some []⟩ =
      (.ok receipt, ⟨r.published, some (written s.entries)⟩) := by
  obtain ⟨⟨hends, haccepted⟩, bundle, manifest, folder, hbundle, hmanifest, hverify, hreceipt,
    hmem, hperm⟩ := h
  have hentries : (receiveEntries [] s.entries).exec act x ⟨r.published, some []⟩ =
      (.ok ((written s.entries).map Prod.fst), ⟨r.published, some (written s.entries)⟩) :=
    exec_receiveEntries hx s.entries [] haccepted
  rw [← lookup_written] at hbundle hmanifest
  have hcomplete : ¬(¬s.ends = true ∨ ¬(bundleName ∈ (written s.entries).map Prod.fst ∧
      manifestName ∈ (written s.entries).map Prod.fst)) := by
    refine not_or.2 ⟨not_not.2 hends, not_not.2 ⟨?_, ?_⟩⟩
    · exact List.mem_map_of_mem (mem_of_lookup hbundle)
    · exact List.mem_map_of_mem (mem_of_lookup hmanifest)
  have hpublished : r.published.lookup (finalName F bundle) = some folder :=
    lookup_of_mem hkept.names (hgrown.subset hmem)
  have hexisting : (call (.existing (finalName F bundle))).exec act x
      ⟨r.published, some (written s.entries)⟩ =
        (.ok (some folder), ⟨r.published, some (written s.entries)⟩) := by
    rw [exec_call hx.1, ReceiverOp.run, hpublished]
  have hsame := sameCopy_self (F := F) hperm
    (manifest_short haccepted (lookup_written s _ ▸ hmanifest))
  rw [receiveStaged, exec_bind_ok hentries, if_neg hcomplete,
    exec_bind_ok ((exec_call hx.1 _).trans (run_read hmanifest x)),
    exec_bind_ok ((exec_call hx.1 _).trans (run_read hbundle x)), hverify]
  dsimp only
  rw [exec_bind_ok hexisting]
  dsimp only
  rw [if_pos hsame, hreceipt]
  rfl

theorem exec_receive (hx : Well x) (h : Delivery s receipt t) (hgrown : t.published <+: r.published)
    (hkept : Kept F r) : (receive F s).exec act x r = (.ok receipt, ⟨r.published, none⟩) := by
  rw [receive, exec_bind_ok (exec_call hx.1 _), exec_bind_ok (exec_call hx.1 _),
    exec_bind_ok (exec_attempt_eq (exec_receiveStaged hx h hgrown hkept)),
    exec_bind_ok (exec_call hx.1 _)]
  rfl

/-! ## Any sequence of calls -/

theorem kept_empty : Kept F empty :=
  ⟨List.nodup_nil, fun _ hd => absurd hd List.not_mem_nil, 0, rfl, Nat.zero_le _⟩

theorem Called.adds (hinjective : Function.Injective (Library.sha256 F)) (hkept : Kept F r)
    (h : Called F r t) : Adds (F := F) r.published t := by
  induction h with
  | refl => exact ⟨List.prefix_refl _, hkept⟩
  | call s _ hr ih =>
    obtain ⟨hgrown, hkept'⟩ := ih
    obtain ⟨hnext, hkept''⟩ := (wp_receive hinjective hkept' s).crash hr
    exact ⟨hgrown.trans hnext, hkept''⟩

theorem Delivery.stored (h : Delivery s receipt t) : Stored F s receipt t := by
  obtain ⟨-, bundle, manifest, folder, hbundle, hmanifest, -, hreceipt, hmem, hperm⟩ := h
  refine ⟨folder, bundle, manifest, ?_, hperm, hbundle, hmanifest⟩
  rw [hreceipt]
  exact hmem

/-- After any sequence of calls, wherever they stopped, every published directory is an exact copy
with its manifest and they are within the quota; and a call only adds to them, as its receipt says,
nothing if it raises, and nothing if the stream was received before. -/
theorem received (hinjective : Function.Injective (Library.sha256 F)) {r : Root}
    (h : Called F empty r) : Kept F r ∧ ∀ s, Receives F r s := by
  have hkept := (h.adds hinjective kept_empty).2
  refine ⟨hkept, fun s => ?_⟩
  have hcall := wp_receive hinjective hkept s
  exact {
    appends := fun r' hr => (hcall.crash hr).1
    stored := fun receipt r' hf => (hcall.finish hf : Delivery s receipt r').stored
    raised := fun e r' hf => hcall.finish hf
    again := by
      intro receipt r' r'' x hf hcalls hx
      have hdelivery : Delivery s receipt r' := hcall.finish hf
      have hkept' := (hcall.crash (reaches_of_finishes hf)).2
      obtain ⟨hgrown, hkept''⟩ := hcalls.adds hinjective hkept'
      exact ⟨_, exec_receive hx hdelivery hgrown hkept'', rfl⟩ }

end published

namespace Sample

def bundle : Bytes :=
  ageHeader

def digest : String :=
  "66c2c08ff126324347b09d35bf079722bacf8db334372cfdf61bd9573acbce0e"

def fields : List (String × JsonText.Json ℚ) :=
  [("sha256", .str digest), ("bytes", .int 22), ("decryption_verified", .bool true),
    ("private_identity_included", .bool false)]

def manifest : Bytes :=
  ("\x7b\"sha256\":\"66c2c08ff126324347b09d35bf079722bacf8db334372cfdf61bd9573acbce0e\"," ++
    "\"bytes\":22,\"decryption_verified\":true,\"private_identity_included\":false\x7d").toList.map
    fun c => UInt8.ofNat c.toNat

/-- The texts that are not the digest of the ciphertext begin with another character. -/
def sha256 (b : Bytes) : String :=
  if b = bundle then digest else String.ofList ('x' :: b.map Char.ofUInt8)

instance : Library ℚ where
  sha256 := sha256
  loads b := if b = manifest then some (.obj fields) else none
  equals q n := q = n

theorem sha256_injective : Function.Injective sha256 := by
  have hother : ∀ b : Bytes, digest ≠ String.ofList ('x' :: b.map Char.ofUInt8) := by
    intro b h
    have hlist := congrArg String.toList h
    rw [String.toList_ofList] at hlist
    exact absurd (List.cons.inj hlist).1 (by decide)
  intro a b h
  by_cases ha : a = bundle <;> by_cases hb : b = bundle
  · exact ha.trans hb.symm
  · rw [sha256, sha256, if_pos ha, if_neg hb] at h
    exact absurd h (hother b)
  · rw [sha256, sha256, if_neg ha, if_pos hb] at h
    exact absurd h.symm (hother a)
  · rw [sha256, sha256, if_neg ha, if_neg hb] at h
    have hlist := (List.cons.inj (String.ofList_injective h)).2
    refine List.map_injective_iff.2 (fun c d hcd => ?_) hlist
    have hval : c.toUInt32 = d.toUInt32 := congrArg Char.val hcd
    exact UInt8.toUInt32_inj.1 hval

def stream : Stream :=
  ⟨[⟨bundleName, true, 22, bundle⟩, ⟨manifestName, true, manifest.length, manifest⟩], true⟩

/-- A root after the stream was received. -/
theorem received_sample : ∃ r, Called ℚ empty r ∧ r.published.map Prod.fst = [finalName ℚ bundle] ∧
    Kept ℚ r ∧ ∀ s, Receives ℚ r s := by
  have hcall := @exec_finishes _ _ _ _ _ act ⟨false, limit + 512 * 1024 * 1024⟩
    (receive ℚ stream) empty
  have hcalled := Called.call stream .refl (reaches_of_finishes hcall)
  exact ⟨_, hcalled, by decide +kernel, received sha256_injective hcalled⟩

end Sample

end OpsReceiver
