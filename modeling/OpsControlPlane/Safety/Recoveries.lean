import OpsControlPlane.Lib.Assoc
import OpsControlPlane.Recovery.Shipping
import OpsControlPlane.Lib.Calls

/-!
# Recoveries

The packager bounds each file and their sum, the copier and the destination bound the bundle, and
the destination bounds the report, which names every member. `shipped_iff` says which of the
published bundles can be shipped and restored. An archive that is not replicated is carried again,
so a bundle that is too large is followed by larger ones.
-/

namespace OpsRecovery

open Calls JsonText Text

variable {β τ : Type} [Medium β τ]

/-! ## Names -/

theorem toChars_append (s t : String) : toChars (s ++ t) = toChars s ++ toChars t := by
  simp [toChars_eq]

theorem between_append (first mid last : List Char) :
    between first last (first ++ mid ++ last) = some mid := by
  have hlen : first.length + last.length ≤ (first ++ mid ++ last).length := by
    simp only [List.length_append]
    omega
  have hmid : (first ++ mid ++ last).length - first.length - last.length = mid.length := by
    simp only [List.length_append]
    omega
  unfold between
  have hsuffix : last.isSuffixOf (first ++ mid ++ last) = true :=
    List.isSuffixOf_iff_suffix.2 (List.suffix_append _ _)
  rw [if_pos ⟨by simp, hsuffix, hlen⟩, hmid]
  simp

theorem between_eq_none {first last s : List Char} {c d : Char} (hl : last.getLast? = some c)
    (hs : s.getLast? = some d) (h : c ≠ d) : between first last s = none := by
  unfold between
  refine if_neg ?_
  rintro ⟨-, hsuffix, -⟩
  obtain ⟨t, rfl⟩ := List.isSuffixOf_iff_suffix.1 hsuffix
  rw [List.getLast?_append, hl] at hs
  exact h (Option.some.inj hs)

theorem archiveStem_member (a : Archive β τ) : archiveStem a.member = some (toChars a.stem) := by
  simp only [archiveStem, Archive.member, toChars_append]
  exact between_append _ _ _

theorem manifestStem_manifestMember (a : Archive β τ) :
    manifestStem a.manifestMember = some (toChars a.stem) := by
  simp only [manifestStem, Archive.manifestMember, toChars_append]
  exact between_append _ _ _

theorem archiveStem_manifestMember (a : Archive β τ) : archiveStem a.manifestMember = none := by
  simp only [archiveStem, Archive.manifestMember, toChars_append]
  refine between_eq_none (c := 'e') (d := 'n') rfl ?_ (by decide)
  rw [List.getLast?_append]
  rfl

theorem manifestOf_member (a : Archive β τ) : manifestOf a.member = a.manifestMember := by
  have htake : (toChars a.member).take ((toChars a.member).length - 12)
      = toChars ("telemetry/" ++ a.stem) := by
    have hlen : (toChars ".sqlite3.age").length = 12 := by decide
    simp only [Archive.member, toChars_append]
    rw [List.length_append, hlen, Nat.add_sub_cancel]
    exact List.take_left' rfl
  rw [manifestOf, htake, ofChars_toChars]
  rfl

theorem fileName_member (a : Archive β τ) : fileName a.member = a.entry.file := by
  have hdrop : (toChars a.member).drop (toChars "telemetry/").length
      = toChars (a.stem ++ ".sqlite3.age") := by
    simp only [Archive.member, toChars_append, List.append_assoc]
    exact List.drop_left' rfl
  rw [fileName, hdrop, ofChars_toChars, a.entry_file]

theorem isArchive_member (a : Archive β τ) : isArchive a.member = true := by
  simp only [isArchive, Archive.member, toChars_append]
  exact List.isSuffixOf_iff_suffix.2 (List.suffix_append _ _)

theorem isArchive_manifestMember (a : Archive β τ) : isArchive a.manifestMember = false := by
  have hnone := archiveStem_manifestMember a
  by_contra h
  have h : isArchive a.manifestMember = true := by simpa using h
  obtain ⟨t, ht⟩ := List.isSuffixOf_iff_suffix.1 h
  have hlast := congrArg List.getLast? ht
  simp only [Archive.manifestMember, toChars_append, List.getLast?_append] at hlast
  have hage : (toChars ".sqlite3.age").getLast? = some 'e' := by decide
  have hjson : (toChars ".json").getLast? = some 'n' := by decide
  rw [hage, hjson] at hlast
  simp at hlast

theorem isTelemetry_member (a : Archive β τ) : isTelemetry a.member = true := by
  simp [isTelemetry, archiveStem_member, a.stem_shape]

theorem isTelemetry_manifestMember (a : Archive β τ) : isTelemetry a.manifestMember = true := by
  simp [isTelemetry, manifestStem_manifestMember, a.stem_shape]

theorem not_telemetry : ∀ n ∈ "telemetry/status.json" :: expected, isTelemetry n = false := by
  decide

variable {a b : Archive β τ} {n : String}

theorem member_ne (hn : n ∈ "telemetry/status.json" :: expected) :
    a.member ≠ n ∧ a.manifestMember ≠ n := by
  have hnot := not_telemetry n hn
  constructor <;> rintro rfl
  · rw [isTelemetry_member] at hnot
    cases hnot
  · rw [isTelemetry_manifestMember] at hnot
    cases hnot

theorem member_injective (h : a.member = b.member) : a.stem = b.stem := by
  have hs := congrArg archiveStem h
  rw [archiveStem_member, archiveStem_member] at hs
  rw [← ofChars_toChars a.stem, ← ofChars_toChars b.stem, Option.some.inj hs]

theorem manifestMember_injective (h : a.manifestMember = b.manifestMember) : a.stem = b.stem := by
  have hs := congrArg manifestStem h
  rw [manifestStem_manifestMember, manifestStem_manifestMember] at hs
  rw [← ofChars_toChars a.stem, ← ofChars_toChars b.stem, Option.some.inj hs]

theorem member_ne_manifestMember (a b : Archive β τ) : a.member ≠ b.manifestMember := by
  intro h
  have hs := congrArg isArchive h
  rw [isArchive_member, isArchive_manifestMember] at hs
  cases hs

/-! ## The selection -/

def Archive.pair (a : Archive β τ) : List (String × File β) :=
  [(a.member, a.file), (a.manifestMember, a.manifest)]

def componentNames : List String :=
  ["broker/state.db", "openbao/snapshot.age", "openbao/manifest.json", "zulip/bundle.tar.age",
    "pwa/session.key", "pwa/webpush.pem", "openbao/unseal-shares.age", "memory/memory.sqlite3",
    "memory/qdrant.snapshot", "memory/manifest.json", "native/pilot.sqlite3",
    "native/approvals.sqlite3", "native/manifest.json"]

def clientNames : List String :=
  ["clients/cli-pilot.sqlite3", "clients/workflows.sqlite3", "clients/memory-sync.sqlite3",
    "pwa/sessions.sqlite3"]

structure Selected (components : List (String × File β)) (archives : List (Archive β τ))
    (status clients : List (String × File β)) : Prop where
  components_names : components.map Prod.fst = componentNames
  stems_nodup : (archives.map Archive.stem).Nodup
  status_names : status = [] ∨ ∃ f, status = [("telemetry/status.json", f)]
  clients_names : clients.map Prod.fst = clientNames

theorem select_ok {l : List (String × File β)} (h : a.select = .ok l) : l = a.pair := by
  obtain ⟨n, -, h⟩ := bind_eq_ok.1 h
  split_ifs at h
  exact (Except.ok.inj h).symm

theorem mapM_select {as : List (Archive β τ)} {ls : List (List (String × File β))}
    (h : as.mapM Archive.select = .ok ls) : ls = as.map Archive.pair := by
  induction as generalizing ls with
  | nil => exact (Except.ok.inj h).symm
  | cons a as ih =>
    rw [List.mapM_cons] at h
    obtain ⟨l, hl, h⟩ := bind_eq_ok.1 h
    obtain ⟨ls', hls, h⟩ := bind_eq_ok.1 h
    obtain rfl := Except.ok.inj h
    rw [select_ok hl, ih hls]
    rfl

def componentMembers (m : Machine β τ) (memory : MemoryFiles β) (vault : VaultFiles β)
    (broker : File β) (native : NativeFiles β) (zulip : File β) : List (String × File β) :=
  [("broker/state.db", broker), ("openbao/snapshot.age", vault.snapshot),
    ("openbao/manifest.json", vault.manifest), ("zulip/bundle.tar.age", zulip),
    ("pwa/session.key", m.sessionKey), ("pwa/webpush.pem", m.webpush),
    ("openbao/unseal-shares.age", m.unsealShares), ("memory/memory.sqlite3", memory.sqlite),
    ("memory/qdrant.snapshot", memory.qdrant), ("memory/manifest.json", memory.manifest),
    ("native/pilot.sqlite3", native.pilot), ("native/approvals.sqlite3", native.approvals),
    ("native/manifest.json", native.manifest)]

def clientMembers (cliPilot workflows memorySync sessions : File β) : List (String × File β) :=
  [("clients/cli-pilot.sqlite3", cliPilot), ("clients/workflows.sqlite3", workflows),
    ("clients/memory-sync.sqlite3", memorySync), ("pwa/sessions.sqlite3", sessions)]

variable {s : List (String × File β)} {m : Machine β τ}

theorem selection_ok (h : selection m = .ok s) :
    ∃ (components : List (String × File β)) (archives : List (Archive β τ))
      (status clients : List (String × File β)), Selected components archives status clients ∧
      s = components ++ (archives.flatMap Archive.pair ++ status) ++ clients := by
  obtain ⟨selected, hs, h⟩ := bind_eq_ok.1 h
  obtain ⟨cliPilot, -, h⟩ := bind_eq_ok.1 h
  obtain ⟨workflows, -, h⟩ := bind_eq_ok.1 h
  obtain ⟨memorySync, -, h⟩ := bind_eq_ok.1 h
  obtain ⟨sessions, -, h⟩ := bind_eq_ok.1 h
  obtain rfl := Except.ok.inj h
  obtain ⟨memory, -, hs⟩ := bind_eq_ok.1 hs
  obtain ⟨vault, -, hs⟩ := bind_eq_ok.1 hs
  obtain ⟨broker, -, hs⟩ := bind_eq_ok.1 hs
  obtain ⟨native, -, hs⟩ := bind_eq_ok.1 hs
  obtain ⟨zulip, -, hs⟩ := bind_eq_ok.1 hs
  obtain ⟨-, -, hs⟩ := bind_eq_ok.1 hs
  cases ht : m.telemetry with
  | none =>
    rw [ht] at hs
    obtain rfl := Except.ok.inj hs
    exact ⟨componentMembers m memory vault broker native zulip, [], [],
      clientMembers cliPilot workflows memorySync sessions,
      ⟨rfl, List.nodup_nil, Or.inl rfl, rfl⟩, rfl⟩
  | some t =>
    rw [ht] at hs
    obtain ⟨telemetry, htel, hs⟩ := bind_eq_ok.1 hs
    obtain rfl := Except.ok.inj hs
    unfold Telemetry.select at htel
    split_ifs at htel
    obtain ⟨carried, hc, htel⟩ := bind_eq_ok.1 htel
    obtain rfl := Except.ok.inj htel
    refine ⟨componentMembers m memory vault broker native zulip, t.archives.filter t.carries,
      [("telemetry/status.json", t.status)],
      clientMembers cliPilot workflows memorySync sessions,
      ⟨rfl, ?_, Or.inr ⟨_, rfl⟩, rfl⟩, ?_⟩
    · exact t.stems_nodup.sublist (List.filter_sublist.map _)
    · rw [mapM_select hc, List.flatMap_def]
      rfl

theorem regular_ok {f : File β} {n : ℕ} (h : regular τ f = .ok n) :
    n = Medium.size τ f.content ∧ n ≤ maxFile := by
  unfold regular at h
  split_ifs at h with hf
  obtain rfl := Except.ok.inj h
  exact ⟨rfl, hf.2.2⟩

theorem mapM_regular {sizes : List ℕ} (h : (s.mapM fun m => regular τ m.2) = .ok sizes) :
    sizes = s.map (fun m => Medium.size τ m.2.content) ∧
      ∀ m ∈ s, Medium.size τ m.2.content ≤ maxFile := by
  induction s generalizing sizes with
  | nil => exact ⟨(Except.ok.inj h).symm, by simp⟩
  | cons m s ih =>
    rw [List.mapM_cons] at h
    obtain ⟨n, hn, h⟩ := bind_eq_ok.1 h
    obtain ⟨ns, hns, h⟩ := bind_eq_ok.1 h
    obtain rfl := Except.ok.inj h
    obtain ⟨rfl, hle⟩ := regular_ok hn
    obtain ⟨rfl, hall⟩ := ih hns
    refine ⟨rfl, fun q hq => ?_⟩
    rcases List.mem_cons.1 hq with rfl | hq
    · exact hle
    · exact hall q hq

variable {p : Published β τ}

/-- What a published bundle was made of. -/
theorem packageMain_ok (h : packageMain m = .ok p) :
    ∃ s, selection m = .ok s ∧ p = ⟨Medium.encrypt τ (contents s), reportOf m s⟩ ∧
      (s.map fun q => Medium.size τ q.2.content).sum ≤ maxTotal ∧
      ∀ q ∈ s, Medium.size τ q.2.content ≤ maxFile := by
  unfold packageMain at h
  split at h
  · cases h
  obtain ⟨s, hs, h⟩ := bind_eq_ok.1 h
  unfold package at h
  split at h
  · cases h
  obtain ⟨sizes, hsizes, h⟩ := bind_eq_ok.1 h
  split_ifs at h with htotal
  obtain rfl := Except.ok.inj h
  obtain ⟨rfl, hall⟩ := mapM_regular hsizes
  exact ⟨s, hs, rfl, by omega, hall⟩

theorem inOrder_perm {α : Type} (s : List (String × α)) : (inOrder s).Perm s :=
  List.mergeSort_perm _ _

theorem names_contents (s : List (String × File β)) :
    (contents s).map Prod.fst = (inOrder s).map Prod.fst := by
  simp [contents, Function.comp_def]

theorem expected_perm : expected.Perm (componentNames ++ clientNames) := by
  decide

theorem mem_names {components : List (String × File β)} {archives : List (Archive β τ)}
    {status clients : List (String × File β)} (h : Selected components archives status clients) :
    n ∈ (components ++ (archives.flatMap Archive.pair ++ status) ++ clients).map Prod.fst ↔
      n ∈ expected ∨ (∃ a ∈ archives, n = a.member ∨ n = a.manifestMember) ∨
        (n = "telemetry/status.json" ∧ status ≠ []) := by
  have hexp : n ∈ expected ↔ n ∈ componentNames ∨ n ∈ clientNames := by
    rw [expected_perm.mem_iff, List.mem_append]
  have harch : n ∈ (archives.flatMap Archive.pair).map Prod.fst ↔
      ∃ a ∈ archives, n = a.member ∨ n = a.manifestMember := by
    rw [List.map_flatMap, List.mem_flatMap]
    simp [Archive.pair]
  have hstatus : n ∈ status.map Prod.fst ↔ n = "telemetry/status.json" ∧ status ≠ [] := by
    rcases h.status_names with rfl | ⟨f, rfl⟩ <;> simp
  rw [List.map_append, List.map_append, List.map_append, List.mem_append, List.mem_append,
    List.mem_append, h.components_names, h.clients_names, harch, hstatus, hexp]
  constructor
  · rintro ((hn | hn | hn) | hn)
    · exact Or.inl (Or.inl hn)
    · exact Or.inr (Or.inl hn)
    · exact Or.inr (Or.inr hn)
    · exact Or.inl (Or.inr hn)
  · rintro ((hn | hn) | hn | hn)
    · exact Or.inl (Or.inl hn)
    · exact Or.inr hn
    · exact Or.inl (Or.inr (Or.inl hn))
    · exact Or.inl (Or.inr (Or.inr hn))

theorem nodup_names {components : List (String × File β)} {archives : List (Archive β τ)}
    {status clients : List (String × File β)} (h : Selected components archives status clients) :
    ((components ++ (archives.flatMap Archive.pair ++ status) ++ clients).map Prod.fst).Nodup := by
  have harch : ((archives.flatMap Archive.pair).map Prod.fst).Nodup := by
    rw [List.map_flatMap]
    refine List.nodup_flatMap.2 ⟨fun a _ => ?_, ?_⟩
    · simpa [Archive.pair] using member_ne_manifestMember a a
    · have hst : archives.Pairwise fun a b => a.stem ≠ b.stem := List.pairwise_map.1 h.stems_nodup
      refine hst.imp fun {a b} hab => ?_
      simp only [Function.onFun, Archive.pair, List.map_cons, List.map_nil]
      intro n hn hn'
      simp only [List.mem_cons, List.not_mem_nil, or_false] at hn hn'
      rcases hn with rfl | rfl <;> rcases hn' with hn' | hn'
      · exact hab (member_injective hn')
      · exact member_ne_manifestMember a b hn'
      · exact member_ne_manifestMember b a hn'.symm
      · exact hab (manifestMember_injective hn')
  have hmem : ∀ n ∈ (archives.flatMap Archive.pair).map Prod.fst,
      n ∉ "telemetry/status.json" :: expected := by
    intro n hn hin
    simp only [Archive.pair, List.map_flatMap, List.mem_flatMap, List.map_cons, List.map_nil,
      List.mem_cons, List.not_mem_nil, or_false] at hn
    obtain ⟨a, -, rfl | rfl⟩ := hn
    · exact (member_ne hin).1 rfl
    · exact (member_ne hin).2 rfl
  have hstatus : (status.map Prod.fst).Nodup ∧
      ∀ n ∈ status.map Prod.fst, n = "telemetry/status.json" := by
    rcases h.status_names with rfl | ⟨f, rfl⟩ <;> simp
  have hsub : ∀ n, n ∈ componentNames ∨ n ∈ clientNames → n ∈ expected := by
    intro n hn
    rw [expected_perm.mem_iff, List.mem_append]
    exact hn
  have hfresh : "telemetry/status.json" ∉ expected := by decide
  rw [List.map_append, List.map_append, List.map_append, h.components_names, h.clients_names]
  refine List.nodup_append.2 ⟨List.nodup_append.2 ⟨by decide, List.nodup_append.2
    ⟨harch, hstatus.1, ?_⟩, ?_⟩, by decide, ?_⟩
  · rintro n hn n' hn' rfl
    exact hmem n hn (by rw [hstatus.2 n hn']; simp)
  · rintro n hn n' hn' rfl
    rcases List.mem_append.1 hn' with hn' | hn'
    · exact hmem n hn' (List.mem_cons_of_mem _ (hsub n (Or.inl hn)))
    · rw [hstatus.2 n hn'] at hn
      exact hfresh (hsub _ (Or.inl hn))
  · rintro n hn n' hn' rfl
    rcases List.mem_append.1 hn with hn | hn
    · exact absurd hn' (by
        have : ∀ n ∈ componentNames, n ∉ clientNames := by decide
        exact this n hn)
    · rcases List.mem_append.1 hn with hn | hn
      · exact hmem n hn (List.mem_cons_of_mem _ (hsub n (Or.inr hn')))
      · rw [hstatus.2 n hn] at hn'
        exact hfresh (hsub _ (Or.inr hn'))

/-! ## The restore drill -/

/-- What is relied on of the tools: `age` undoes its encryption and marks its files, and a digest
is a text of hexadecimal digits. -/
class LawfulMedium (β τ : Type) [Medium β τ] : Prop where
  decrypt_encrypt : ∀ ms : List (String × β), Medium.decrypt τ (Medium.encrypt τ ms) = some ms
  aged_encrypt : ∀ ms : List (String × β), Medium.aged τ (Medium.encrypt τ ms) = true
  encrypt_pos : ∀ ms : List (String × β), 0 < Medium.size τ (Medium.encrypt τ ms)
  sha256_digest : ∀ b : β, isDigest (Medium.sha256 τ b) = true

theorem forM_ok {α ε : Type} {l : List α} {f : α → Except ε Unit} (h : ∀ a ∈ l, f a = .ok ()) :
    l.forM f = .ok () := by
  induction l with
  | nil => rfl
  | cons a l ih =>
    have hstep : (a :: l).forM f = f a >>= fun _ => l.forM f := rfl
    rw [hstep, h a (by simp)]
    exact ih fun b hb => h b (by simp [hb])

section

variable {components : List (String × File β)} {archives : List (Archive β τ)}
  {status clients : List (String × File β)}

abbrev members (components : List (String × File β)) (archives : List (Archive β τ))
    (status clients : List (String × File β)) : List (String × File β) :=
  components ++ (archives.flatMap Archive.pair ++ status) ++ clients

theorem names_perm : ((contents (members components archives status clients)).map Prod.fst).Perm
    ((members components archives status clients).map Prod.fst) := by
  rw [names_contents]
  exact (inOrder_perm _).map _

variable {n : String}

theorem mem_extra (h : Selected components archives status clients) :
    n ∈ extraOf ((contents (members components archives status clients)).map Prod.fst) ↔
      (∃ a ∈ archives, n = a.member ∨ n = a.manifestMember) ∨
        (n = "telemetry/status.json" ∧ status ≠ []) := by
  have hmember : ∀ a : Archive β τ, a.member ∉ expected ∧ a.manifestMember ∉ expected := by
    intro a
    constructor <;> intro hin
    · exact (member_ne (a := a) (List.mem_cons_of_mem _ hin)).1 rfl
    · exact (member_ne (a := a) (List.mem_cons_of_mem _ hin)).2 rfl
  rw [extraOf, List.mem_filter, names_perm.mem_iff, mem_names h]
  constructor
  · rintro ⟨hin | hin, hnot⟩
    · exact absurd hin (by simpa using hnot)
    · exact hin
  · intro hin
    refine ⟨Or.inr hin, ?_⟩
    rcases hin with ⟨a, -, rfl | rfl⟩ | ⟨rfl, -⟩
    · simpa using (hmember a).1
    · simpa using (hmember a).2
    · decide

theorem archive_of_extra (h : Selected components archives status clients)
    (hn : n ∈ extraOf ((contents (members components archives status clients)).map Prod.fst))
    (harchive : isArchive n = true) : ∃ a ∈ archives, n = a.member := by
  rcases (mem_extra h).1 hn with ⟨a, ha, rfl | rfl⟩ | ⟨rfl, -⟩
  · exact ⟨a, ha, rfl⟩
  · rw [isArchive_manifestMember] at harchive
    cases harchive
  · exact absurd harchive (by decide)

theorem bundleMembers_ok (h : Selected components archives status clients)
    (hlen : (members components archives status clients).length ≤ 10000) :
    bundleMembers (contents (members components archives status clients)) =
      .ok ((contents (members components archives status clients)).map Prod.fst) := by
  have hnodup := names_perm.nodup_iff.2 (nodup_names h)
  have hcount : ((contents (members components archives status clients)).map Prod.fst).length =
      (members components archives status clients).length :=
    names_perm.length_eq.trans (List.length_map _)
  simp only [bundleMembers]
  rw [if_neg, if_neg, if_neg]
  · simp only [List.any_eq_true, decide_eq_true_eq, not_exists, not_and, not_not]
    intro n hn harchive
    obtain ⟨a, ha, rfl⟩ := archive_of_extra h hn harchive
    rw [manifestOf_member]
    exact (mem_extra h).2 (Or.inl ⟨a, ha, Or.inr rfl⟩)
  · rintro (hbad | hbad)
    · obtain ⟨n, hn, hnot⟩ := List.any_eq_true.1 hbad
      refine absurd ?_ (of_decide_eq_true hnot)
      exact names_perm.mem_iff.2 ((mem_names h).2 (Or.inl hn))
    · obtain ⟨n, hn, hnot⟩ := List.any_eq_true.1 hbad
      obtain ⟨hstatus, htel⟩ := of_decide_eq_true hnot
      rcases (mem_extra h).1 hn with ⟨a, -, rfl | rfl⟩ | ⟨rfl, -⟩
      · simp [isTelemetry_member] at htel
      · simp [isTelemetry_manifestMember] at htel
      · exact hstatus rfl
  · rintro (hbad | hbad)
    · exact hbad hnodup
    · omega

theorem extract_ok {s : List (String × File β)}
    (htotal : (s.map fun q => Medium.size τ q.2.content).sum ≤ maxTotal)
    (hfile : ∀ q ∈ s, Medium.size τ q.2.content ≤ maxFile) :
    extract τ (contents s) = .ok (contents s) := by
  have hsum : ((contents s).map fun m => Medium.size τ m.2).sum
      = (s.map fun q => Medium.size τ q.2.content).sum := by
    rw [contents, List.map_map]
    exact ((inOrder_perm s).map _).sum_eq
  unfold extract
  rw [if_neg, if_neg]
  · simp only [List.any_eq_true, decide_eq_true_eq, not_exists, not_and, not_lt]
    intro m hm
    obtain ⟨q, hq, rfl⟩ := List.mem_map.1 hm
    exact hfile q ((inOrder_perm s).mem_iff.1 hq)
  · rw [hsum, not_lt]
    exact htotal

theorem checkArchive_ok (h : Selected components archives status clients) {a : Archive β τ}
    (ha : a ∈ archives) :
    checkArchive τ (contents (members components archives status clients)) a.member = .ok () := by
  have hnodup := names_perm.nodup_iff.2 (nodup_names h)
  have hin : ∀ q ∈ a.pair, (q.1, q.2.content) ∈
      contents (members components archives status clients) := by
    intro q hq
    refine List.mem_map.2 ⟨q, (inOrder_perm _).mem_iff.2 ?_, rfl⟩
    refine List.mem_append_left _ (List.mem_append_right _ (List.mem_append_left _ ?_))
    exact List.mem_flatMap.2 ⟨a, ha, hq⟩
  have hfile := Assoc.lookup_of_mem hnodup (hin (a.member, a.file) (by simp [Archive.pair]))
  have hmanifest := Assoc.lookup_of_mem hnodup (hin (a.manifestMember, a.manifest) (by
    simp [Archive.pair]))
  unfold checkArchive
  rw [hfile, manifestOf_member, hmanifest]
  simp only [Option.bind_some, a.entry_read, fileName_member, a.entry_sha256, a.entry_bytes,
    a.expands, ne_eq, not_true, or_self, if_false, Bool.not_true, Bool.false_eq_true]

/-- The drill restores the bundle, as long as it has no more than ten thousand members. -/
theorem drill_ok [LawfulMedium β τ] (h : Selected components archives status clients)
    (hlen : (members components archives status clients).length ≤ 10000)
    (htotal : ((members components archives status clients).map fun q =>
      Medium.size τ q.2.content).sum ≤ maxTotal)
    (hfile : ∀ q ∈ members components archives status clients,
      Medium.size τ q.2.content ≤ maxFile) :
    ∃ n, drill τ (Medium.encrypt τ (contents (members components archives status clients)))
      = .ok n := by
  have hall := forM_ok (l := inOrder
    (((extraOf ((contents (members components archives status clients)).map Prod.fst)).filter
      isArchive).map fun n => (n, ())))
    (f := fun n => checkArchive τ (contents (members components archives status clients)) n.1)
    (fun q hq => by
      obtain ⟨n, hn, rfl⟩ := List.mem_map.1 ((inOrder_perm _).mem_iff.1 hq)
      obtain ⟨hextra, harchive⟩ := List.mem_filter.1 hn
      obtain ⟨a, ha, rfl⟩ := archive_of_extra h hextra harchive
      exact checkArchive_ok h ha)
  unfold drill
  rw [LawfulMedium.decrypt_encrypt]
  simp only [bundleMembers_ok h hlen, extract_ok htotal hfile, bind, Except.bind, hall]
  exact ⟨_, rfl⟩

end

/-! ## Shipping -/

def Ships (now : τ) (d : Destination β τ) (p : Published β τ) : Prop :=
  (∃ packed, copyBundle now p = .ok packed ∧ ∃ d', receive d packed = .ok d') ∧
    ∃ n, drill τ p.bundle = .ok n

/-- The destination has space and an unused quota, and no copy that conflicts with the bundle. -/
structure Roomy (d : Destination β τ) (p : Published β τ) : Prop where
  free : ∀ name, bundleLimit + 512 * 1024 * 1024 ≤ d.free name
  safe : ∀ c ∈ d.copies, c.safe = true
  used : (d.copies.map fun c => Medium.size τ c.bundle).sum + bundleLimit ≤ quota
  same : ∀ c ∈ d.copies, c.digest = p.report.sha256 → c.same p.bundle p.report = true

/-- What is selected fits into a bundle: the encrypted archive has at most 256 MiB, and the report
with the names of the members at most 16384 bytes. -/
def Fits (m : Machine β τ) : Prop :=
  ∀ s, selection m = .ok s → Medium.size τ (Medium.encrypt τ (contents s)) ≤ bundleLimit ∧
    (reportOf m s).text.length ≤ manifestLimit

theorem length_members_le {τ : Type} [FloatText τ] {r : Report τ}
    (h : r.text.length ≤ manifestLimit) :
    r.members.length ≤ 10000 := by
  have hin : ("members", Json.arr (r.members.map .str)) ∈ r.fields (τ := τ) := by
    simp [Report.fields]
  have hmembers : (dumpsSpaced (Json.arr (r.members.map (Json.str (F := τ))))).length ≤
      (dumpsSpaced (.obj r.fields)).length := length_dumpsSpaced_obj hin
  have harr := length_dumpsSpaced_arr (F := τ) r.members
  have hascii : (dumpsSpaced (.obj r.fields)).length ≤ r.text.length := length_le_toAscii _
  simp only [manifestLimit] at h
  omega

theorem text_pos {τ : Type} [FloatText τ] (r : Report τ) : 0 < r.text.length := by
  have hascii : (dumpsSpaced (.obj r.fields)).length ≤ r.text.length := length_le_toAscii _
  refine lt_of_lt_of_le ?_ hascii
  simp [Report.fields, dumpsSpaced]

theorem isBundleName_stamp {stamp : String} (h : isStamp (toChars stamp) = true) :
    isBundleName (stamp ++ ".tar.age") = true := by
  have hlen : (toChars ".tar.age").length = 8 := by decide
  have htake : (toChars (stamp ++ ".tar.age")).take ((toChars (stamp ++ ".tar.age")).length - 8)
      = toChars stamp := by
    rw [toChars_append, List.length_append, hlen, Nat.add_sub_cancel]
    exact List.take_left' rfl
  have hsuffix : (toChars ".tar.age").isSuffixOf (toChars (stamp ++ ".tar.age")) = true := by
    rw [toChars_append]
    exact List.isSuffixOf_iff_suffix.2 (List.suffix_append _ _)
  rw [isBundleName, htake, h, hsuffix]
  rfl

variable {d : Destination β τ}

/-- The destination accepts what is packed if it is small enough. -/
theorem receive_ok [LawfulMedium β τ] (hd : Roomy d p)
    (hsha : p.report.sha256 = Medium.sha256 τ p.bundle)
    (hbytes : p.report.bytes = Medium.size τ p.bundle) (haged : Medium.aged τ p.bundle = true)
    (hpos : 0 < Medium.size τ p.bundle) :
    (∃ d', receive d [.bundle p.bundle, .manifest p.report] = .ok d') ↔
      Medium.size τ p.bundle ≤ bundleLimit ∧ p.report.text.length ≤ manifestLimit := by
  have hfree := hd.free "bundle.tar.age"
  have hfree' := hd.free "manifest.json"
  have htext := text_pos p.report
  have hlimits : manifestLimit ≤ bundleLimit := by decide
  constructor
  · rintro ⟨d', hreceive⟩
    obtain ⟨st, hst, -⟩ := bind_eq_ok.1 hreceive
    rw [List.foldlM_cons] at hst
    obtain ⟨st₁, h₁, hst⟩ := bind_eq_ok.1 hst
    rw [List.foldlM_cons] at hst
    obtain ⟨st₂, h₂, -⟩ := bind_eq_ok.1 hst
    unfold receivePart at h₁ h₂
    split_ifs at h₁ with hbad
    split_ifs at h₂ with hbad'
    simp only [Part.maximum, Part.size, not_or, not_lt] at hbad hbad'
    exact ⟨hbad.2.2, hbad'.2.2⟩
  · rintro ⟨hsize, hlen⟩
    have h₁ : receivePart d ⟨none, none⟩ (.bundle p.bundle) = .ok ⟨some p.bundle, none⟩ := by
      unfold receivePart
      rw [if_neg, if_neg]
      · rfl
      · simp only [Part.name, Part.size]
        omega
      · simp only [Stage.has, Part.size, Part.maximum, Option.isSome_none, Bool.false_eq_true,
          false_or]
        omega
    have h₂ : receivePart d ⟨some p.bundle, none⟩ (.manifest p.report) =
        .ok ⟨some p.bundle, some p.report⟩ := by
      unfold receivePart
      rw [if_neg, if_neg]
      · rfl
      · simp only [Part.name, Part.size]
        omega
      · simp only [Stage.has, Part.size, Part.maximum, Option.isSome_none, Bool.false_eq_true,
          false_or]
        omega
    have hdigest : isDigest p.report.sha256 = true := by
      rw [hsha]
      exact LawfulMedium.sha256_digest (τ := τ) p.bundle
    have hfold : List.foldlM (receivePart d) ⟨none, none⟩ [.bundle p.bundle, .manifest p.report] =
        .ok ⟨some p.bundle, some p.report⟩ := by
      rw [List.foldlM_cons, h₁]
      change List.foldlM (receivePart d) ⟨some p.bundle, none⟩ [.manifest p.report] = _
      rw [List.foldlM_cons, h₂]
      rfl
    unfold receive
    rw [hfold]
    simp only [bind, Except.bind, hdigest, haged, Bool.not_true, Bool.false_eq_true, if_false,
      ← hsha, ← hbytes, ne_eq, not_true, or_self]
    cases hcopy : d.copies.find? fun c => c.digest = p.report.sha256 with
    | some c =>
      have hin := List.mem_of_find?_eq_some hcopy
      have hsame := hd.same c hin (by simpa using List.find?_some hcopy)
      simp only [hsame, if_true]
      exact ⟨_, rfl⟩
    | none =>
      have hsafe : (d.copies.any fun c => !c.safe) = false := by
        simp only [List.any_eq_false, Bool.not_eq_true', Bool.not_eq_false]
        exact hd.safe
      have hquota := hd.used
      have hroom :
          ¬quota < (d.copies.map fun c => Medium.size τ c.bundle).sum + p.report.bytes := by
        rw [hbytes]
        omega
      simp only [hsafe, hroom, if_false, Bool.false_eq_true]
      exact ⟨_, rfl⟩

theorem bounded_of_ships {now : τ} (h : Ships now d p) : Medium.size τ p.bundle ≤ bundleLimit := by
  obtain ⟨⟨packed, hpacked, -⟩, -⟩ := h
  unfold copyBundle at hpacked
  split_ifs at hpacked with hname hnow hsize
  simp only [not_or, not_lt] at hsize
  exact hsize.2

/-- A published bundle is shipped and restored exactly when what was selected fits. -/
theorem shipped_iff [LawfulMedium β τ] {m : Machine β τ} {p : Published β τ}
    (hp : packageMain m = .ok p) {now : τ} (hnow : within (β := β) 30 now m.now = true)
    {d : Destination β τ} (hd : Roomy d p) : Ships now d p ↔ Fits m := by
  obtain ⟨s, hs, rfl, htotal, hfile⟩ := packageMain_ok hp
  obtain ⟨components, archives, status, clients, hsel, rfl⟩ := selection_ok hs
  have hpos : 0 < Medium.size τ (Medium.encrypt τ
    (contents (members components archives status clients)) : β) := LawfulMedium.encrypt_pos _
  have hreceive := receive_ok hd rfl rfl (LawfulMedium.aged_encrypt _) hpos
  have hname := isBundleName_stamp m.stamp_shape
  constructor
  · rintro ⟨⟨packed, hpacked, d', hd'⟩, -⟩ s' hs'
    obtain rfl := Except.ok.inj (hs.symm.trans hs')
    unfold copyBundle at hpacked
    split_ifs at hpacked
    obtain rfl := Except.ok.inj hpacked
    exact hreceive.1 ⟨d', hd'⟩
  · intro hfits
    obtain ⟨hsize, htext⟩ := hfits _ hs
    have hlen : (members components archives status clients).length ≤ 10000 := by
      have hle := length_members_le htext
      have hcount : (reportOf m (members components archives status clients)).members.length =
          (members components archives status clients).length := by
        simp only [reportOf, List.length_map]
        exact (inOrder_perm _).length_eq
      exact hcount.symm.trans_le hle
    refine ⟨⟨_, ?_, hreceive.2 ⟨hsize, htext⟩⟩, drill_ok hsel hlen htotal hfile⟩
    unfold copyBundle
    rw [if_neg, if_neg, if_neg, if_neg]
    · simp [reportOf]
    · simp only [not_or]
      exact ⟨hpos.ne', by omega⟩
    · simpa [reportOf] using hnow
    · simpa [reportOf] using hname

namespace Sample

/-- A content: a file of some size, the manifest of an archive, or an encrypted archive. -/
inductive Blob where
  | raw (size : ℕ)
  | entry (entry : Entry ℕ)
  | cipher (size : ℕ) (members : List (String × Blob))

def Blob.size : Blob → ℕ
  | .raw n => n
  | .entry _ => 500
  | .cipher n _ => n

def digest (n : ℕ) : String :=
  ofChars ((List.range 64).map fun i => hexDigit (n / 16 ^ (63 - i) % 16))

/-- The times are numbers of seconds. An archive has 512 bytes in front of each member, and `age`
adds 200 bytes. -/
instance blobs : Medium Blob ℕ where
  repr n := Nat.toDigits 10 n ++ ['.', '0']
  ofText _ := 0
  seconds n := n
  size := Blob.size
  sha256 b := digest b.size
  integrity _ := true
  snapshot b := b
  encrypt ms := .cipher (200 + (ms.map fun m => 512 + m.2.size).sum) ms
  decrypt
    | .cipher _ ms => some ms
    | _ => none
  aged
    | .cipher _ _ => true
    | _ => false
  entryOf
    | .entry e => some e
    | _ => none
  expands _ _ := true

theorem isDigest_digest (n : ℕ) : isDigest (digest n) = true := by
  have hdigit : ∀ k < 16, ((hexDigit k).isDigit ||
      (decide ('a' ≤ hexDigit k) && decide (hexDigit k ≤ 'f'))) = true := by
    decide
  simp only [isDigest, digest, toChars_ofChars, List.length_map, List.length_range,
    Bool.decide_and, Bool.and_eq_true, decide_eq_true_eq, List.all_eq_true]
  refine ⟨trivial, fun c hc => ?_⟩
  obtain ⟨i, -, rfl⟩ := List.mem_map.1 hc
  exact hdigit _ (Nat.mod_lt _ (by norm_num))

instance : LawfulMedium Blob ℕ where
  decrypt_encrypt _ := rfl
  aged_encrypt _ := rfl
  encrypt_pos ms := by
    change 0 < 200 + _
    omega
  sha256_digest b := isDigest_digest b.size

def file (n : ℕ) : File Blob :=
  ⟨.raw n, true, false⟩

def sealedEntry (n : ℕ) : Entry ℕ where
  file := "2026-09-10-sealed.sqlite3.age"
  sha256 := digest n
  bytes := n
  source := "/var/lib/ops-telemetry/full/2026-09-10.sqlite3"
  createdAt := 1
  sealedPartition := true

def sealedArchive (n : ℕ) : Archive Blob ℕ where
  stem := "2026-09-10-sealed"
  stem_shape := by decide
  entry := sealedEntry n
  file := file n
  manifest := ⟨.entry (sealedEntry n), true, false⟩
  entry_read := rfl
  entry_file := by simp [sealedEntry]
  entry_sha256 := rfl
  entry_bytes := rfl
  expands := rfl

def machine (n : ℕ) : Machine Blob ℕ where
  now := 1000
  stamp := "20260911T000000.000000Z"
  stamp_shape := by decide
  free := 2 ^ 40
  memory := [⟨1000, false, file 1000, file 1000, file 1000⟩]
  vault := [⟨1000, false, file 1000, file 1000⟩]
  broker := [⟨1000, false, file 1000⟩]
  native := [⟨1000, false, file 1000, file 1000, file 1000⟩]
  zulip := [⟨1000, false, file 1000⟩]
  sessionKey := file 32
  webpush := file 32
  unsealShares := file 32
  telemetry := some ⟨true, 1000, file 500, [sealedArchive n], by simp, fun _ => none⟩
  cliPilot := some (file 1000)
  workflows := some (file 1000)
  memorySync := some (file 1000)
  sessions := file 1000
  ageFails := false

def vault : Destination Blob ℕ where
  free _ := 2 ^ 40
  copies := []

theorem roomy_vault (p : Published Blob ℕ) : Roomy vault p where
  free _ := by
    change 256 * 1024 * 1024 + 512 * 1024 * 1024 ≤ 2 ^ 40
    norm_num
  safe := by simp [vault]
  used := by
    change 0 + 256 * 1024 * 1024 ≤ 20 * 1024 * 1024 * 1024
    norm_num
  same := by simp [vault]

theorem exists_published {n : ℕ} (h : (packageMain (machine n)).toBool = true) :
    ∃ p, packageMain (machine n) = .ok p := by
  cases hp : packageMain (machine n) with
  | ok p => exact ⟨p, rfl⟩
  | error e =>
    rw [hp] at h
    cases h

/-- A small archive is shipped exactly if it fits. -/
theorem shipped_iff_sample : ∃ p, packageMain (machine 1000) = .ok p ∧
    (Ships (2000 : ℕ) vault p ↔ Fits (machine 1000)) := by
  obtain ⟨p, hp⟩ := exists_published (n := 1000) (by decide +kernel)
  exact ⟨p, hp, shipped_iff hp (by decide +kernel) (roomy_vault p)⟩

theorem size_le_encrypt {s : List (String × File Blob)} {q : String × File Blob} (hq : q ∈ s) :
    q.2.content.size ≤ Medium.size ℕ (Medium.encrypt ℕ (contents s)) := by
  have hin : 512 + q.2.content.size ∈ (contents s).map fun m => 512 + m.2.size :=
    List.mem_map.2 ⟨(q.1, q.2.content), List.mem_map.2 ⟨q, (inOrder_perm s).mem_iff.2 hq, rfl⟩, rfl⟩
  have hle := List.single_le_sum (fun _ _ => Nat.zero_le _) _ hin
  change _ ≤ 200 + ((contents s).map fun m => 512 + m.2.size).sum
  omega

/-- An archive of 300 MiB is published in a bundle that the copier refuses. -/
theorem backlog_refused : ∃ p, packageMain (machine (300 * 1024 * 1024)) = .ok p ∧
    within (β := Blob) 30 2000 p.report.createdAt = true ∧ Roomy vault p ∧
    ¬Ships (2000 : ℕ) vault p := by
  obtain ⟨p, hp⟩ := exists_published (n := 300 * 1024 * 1024) (by decide +kernel)
  obtain ⟨s, hs, rfl, -, -⟩ := packageMain_ok hp
  refine ⟨_, hp, ?_, roomy_vault _, fun hships => ?_⟩
  · change within (β := Blob) 30 2000 1000 = true
    decide +kernel
  · have hlarge : (match selection (machine (300 * 1024 * 1024)) with
        | .ok s => s.any fun q => decide (bundleLimit < q.2.content.size)
        | .error _ => false) = true := by
      decide +kernel
    rw [hs] at hlarge
    obtain ⟨q, hq, hsize⟩ := List.any_eq_true.1 hlarge
    have hle := size_le_encrypt hq
    have hbound := bounded_of_ships hships
    have hsize := of_decide_eq_true hsize
    change Medium.size ℕ (Medium.encrypt ℕ (contents s)) ≤ bundleLimit at hbound
    omega

end Sample

end OpsRecovery
