import Mathlib.Data.Rat.Defs
import Mathlib.Algebra.Order.Ring.Rat
import Mathlib.Logic.Function.Basic
import Mathlib.Data.List.Basic

/-!
# The off-site set of the telemetry archives

Four programs pass the telemetry archives to two destinations. The telemetry backup puts an archive
in its folder and describes it with a manifest, the packager publishes a bundle of the archives that
the ledger does not have, the copier sends the bundle of `latest.json` to a destination and keeps a
receipt, and the projection writes the archives of a bundle that both destinations have in the
ledger. No lock is common to them, and each may run several times at once.

`step` is one operation of one process. A process that fails leaves like one that is killed. A file
that is written beside another and renamed replaces it in one operation; a manifest is written in
place, and may be left torn. An archive goes by its name without the suffix.
-/

namespace OpsReplication

class Medium (β : Type) where
  sha256 : β → String
  /-- A member of a bundle, and what is in it. Decryption of a bundle. -/
  decrypt : β → Option (List (String × β))

variable {β : Type}

inductive Destination where
  | nas
  | edgeVps
deriving DecidableEq

structure Entry where
  (sha256 source : String)
  createdAt : ℚ
  sealedPartition : Bool
deriving DecidableEq

/-- The manifests by the names of their archives. None is a manifest that is torn. -/
abbrev Manifests : Type :=
  List (String × Option Entry)

/-- The digests that are replicated, by the names of the archives. -/
abbrev Ledger : Type :=
  List (String × String)

def put {α : Type} (name : String) (a : α) (l : List (String × α)) : List (String × α) :=
  (name, a) :: l.filter fun kv => kv.1 ≠ name

/-! ## The packager -/

def newest (source : String) (entries : List (String × Entry)) : Option (String × Entry) :=
  entries.foldl (fun best m =>
    if m.2.source = source ∧ m.2.sealedPartition = false ∧
        (best.map fun b => b.2.createdAt).getD 0 < m.2.createdAt
      then some m else best) none

def replicated (ledger : Ledger) (m : String × Entry) : Bool :=
  ledger.lookup m.1 = some m.2.sha256

def current (entries : List (String × Entry)) (m : String × Entry) : Bool :=
  (newest m.2.source entries).any fun b => b.1 = m.1

/-- The archives that the bundle carries. -/
def carried (ledger : Ledger) (entries : List (String × Entry)) : List (String × Entry) :=
  entries.filter fun m => !(replicated ledger m && !current entries m)

/-- The manifests in the order of `sorted(telemetry.glob('*.json'))`. None if one is torn. -/
def readManifests (manifests : Manifests) : Option (List (String × Entry)) :=
  (manifests.mergeSort fun a b => a.1 ++ ".json" ≤ b.1 ++ ".json").mapM fun m =>
    m.2.map fun e => (m.1, e)

structure Selection where
  ledger : Ledger
  entries : List (String × Entry)

def Selection.archives (s : Selection) : List String :=
  (carried s.ledger s.entries).map Prod.fst

/-- The report of a bundle, `latest.json`: its file, its digest and the names of its archives. -/
structure Report where
  (bundle sha256 : String)
  archives : List String
deriving DecidableEq

/-! ## Processes -/

inductive Phase (β : Type) where
  | idle
  /-- A telemetry backup has an encrypted archive, and found no file of its name. -/
  | encrypted (name : String) (archive : β) (source : String) (createdAt : ℚ) (isSealed : Bool)
  | placed (name source : String) (createdAt : ℚ) (isSealed : Bool)
  | preparing (ledger : Ledger)
  | selected (selection : Selection)
  | packed (selection : Selection) (report : Report)
  /-- The copier has read `latest.json`. -/
  | copying (d : Destination) (report : Report)
  | received (d : Destination) (sha256 : String)
  /-- The projection has read `latest.json`. -/
  | comparing (report : Report)
  /-- The receipt of the first destination is the one of the bundle. -/
  | halfConfirmed (report : Report)
  /-- Both are, and it goes through the archives. -/
  | noting (report : Report) (todo : List String) (ledger : Ledger)

/-- A bundle that was published, with what the packager had read. -/
structure Publication where
  selection : Selection
  report : Report

/-- The files of the machine and of the destinations, and the processes. The last field tells of
the run. -/
structure State (β : Type) where
  archives : String → Option β
  manifests : Manifests
  bundles : String → Option β
  latest : Option Report
  copies : Destination → List β
  receipts : Destination → Option String
  ledger : Ledger
  procs : ℕ → Phase β
  publications : List Publication

/-- An operation of the process `p`. -/
inductive Move (β : Type) where
  /-- A telemetry backup has encrypted an archive, and looks for a file of its name. -/
  | encrypt (p : ℕ) (name : String) (archive : β) (source : String) (createdAt : ℚ)
    (isSealed : Bool)
  | place (p : ℕ)
  /-- The manifest is written in part. -/
  | tear (p : ℕ)
  | describe (p : ℕ)
  /-- The packager reads the ledger. -/
  | prepare (p : ℕ)
  /-- It reads the manifests, and checks the archives that it carries. -/
  | select (p : ℕ)
  /-- It encrypts a bundle of the archives and puts it in its place. -/
  | pack (p : ℕ) (bundle : String) (content : β)
  /-- It replaces `latest.json`. -/
  | publish (p : ℕ)
  | copy (p : ℕ) (d : Destination)
  /-- The destination receives the bundle. -/
  | send (p : ℕ)
  | acknowledge (p : ℕ)
  /-- The projection reads `latest.json`, the receipts and the ledger. -/
  | project (p : ℕ)
  | compareNas (p : ℕ)
  | compareEdge (p : ℕ)
  /-- It reads the manifest of one archive. -/
  | note (p : ℕ)
  | record (p : ℕ)
  | kill (p : ℕ)

def State.enter (s : State β) (p : ℕ) (phase : Phase β) : State β :=
  { s with procs := Function.update s.procs p phase }

variable [Medium β]

def membersOf (archives : String → Option β) (names : List String) : Option (List (String × β)) :=
  names.mapM fun name => (archives name).map fun content => (name, content)

def intact (archives : String → Option β) (m : String × Entry) : Bool :=
  (archives m.1).any fun content => Medium.sha256 content = m.2.sha256

/-- What the destination has after it received a bundle: a copy of its digest is kept. -/
def receive (copies : List β) (content : β) : List β :=
  if copies.any fun c => Medium.sha256 c = Medium.sha256 content then copies
  else copies ++ [content]

/-- An operation, if the process can carry it out. -/
def step [DecidableEq β] (s : State β) : Move β → Option (State β)
  | .encrypt p name archive source createdAt isSealed =>
    match s.procs p, s.archives name with
    | .idle, none => some (s.enter p (.encrypted name archive source createdAt isSealed))
    | _, _ => none
  | .place p =>
    match s.procs p with
    | .encrypted name archive source createdAt isSealed =>
      some { s.enter p (.placed name source createdAt isSealed) with
        archives := Function.update s.archives name (some archive) }
    | _ => none
  | .tear p =>
    match s.procs p with
    | .placed name _ _ _ => some { s with manifests := put name none s.manifests }
    | _ => none
  | .describe p =>
    match s.procs p with
    | .placed name source createdAt isSealed =>
      -- The digest is the one of the file that is in the folder now.
      (s.archives name).map fun content => { s.enter p .idle with
        manifests := put name (some ⟨Medium.sha256 content, source, createdAt, isSealed⟩)
          s.manifests }
    | _ => none
  | .prepare p =>
    match s.procs p with
    | .idle => some (s.enter p (.preparing s.ledger))
    | _ => none
  | .select p =>
    match s.procs p, readManifests s.manifests with
    | .preparing ledger, some entries =>
      if (carried ledger entries).all (intact s.archives) then
        some (s.enter p (.selected ⟨ledger, entries⟩))
      else none
    | _, _ => none
  | .pack p bundle content =>
    match s.procs p with
    | .selected selection =>
      if Medium.decrypt content = membersOf s.archives selection.archives ∧
          (Medium.decrypt content).isSome then
        some { s.enter p (.packed selection
            ⟨bundle, Medium.sha256 content, selection.archives⟩) with
          bundles := Function.update s.bundles bundle (some content) }
      else none
    | _ => none
  | .publish p =>
    match s.procs p with
    | .packed selection report =>
      some { s.enter p .idle with
        latest := some report
        publications := s.publications ++ [⟨selection, report⟩] }
    | _ => none
  | .copy p d =>
    match s.procs p, s.latest with
    | .idle, some report => some (s.enter p (.copying d report))
    | _, _ => none
  | .send p =>
    match s.procs p with
    | .copying d report =>
      match s.bundles report.bundle with
      | some content =>
        if Medium.sha256 content = report.sha256 then
          some { s.enter p (.received d report.sha256) with
            copies := Function.update s.copies d (receive (s.copies d) content) }
        else none
      | none => none
    | _ => none
  | .acknowledge p =>
    match s.procs p with
    | .received d sha256 =>
      some { s.enter p .idle with receipts := Function.update s.receipts d (some sha256) }
    | _ => none
  | .project p =>
    match s.procs p, s.latest with
    | .idle, some report => some (s.enter p (.comparing report))
    | _, _ => none
  | .compareNas p =>
    match s.procs p with
    | .comparing report =>
      if s.receipts .nas = some report.sha256 then some (s.enter p (.halfConfirmed report))
      else none
    | _ => none
  | .compareEdge p =>
    match s.procs p with
    | .halfConfirmed report =>
      if s.receipts .edgeVps = some report.sha256 then
        some (s.enter p (.noting report report.archives s.ledger))
      else none
    | _ => none
  | .note p =>
    match s.procs p with
    | .noting report (name :: todo) ledger =>
      match s.manifests.lookup name with
      | some (some entry) =>
        some (s.enter p (.noting report todo (put name entry.sha256 ledger)))
      | _ => none
    | _ => none
  | .record p =>
    match s.procs p with
    | .noting _ [] ledger => some { s.enter p .idle with ledger := ledger }
    | _ => none
  | .kill p => some (s.enter p .idle)

def run [DecidableEq β] (s : State β) : List (Move β) → Option (State β)
  | [] => some s
  | m :: moves => (step s m).bind fun t => run t moves

/-- Before the first backup. -/
def start : State β where
  archives := fun _ => none
  manifests := []
  bundles := fun _ => none
  latest := none
  copies := fun _ => []
  receipts := fun _ => none
  ledger := []
  procs := fun _ => .idle
  publications := []

/-! ## What is claimed -/

/-- Both destinations have the archive of the digest, in a bundle that was published. -/
def HeldOffSite (s : State β) (name sha256 : String) : Prop :=
  ∃ publication ∈ s.publications, ∃ bundle members content,
    Medium.sha256 bundle = publication.report.sha256 ∧ (∀ d, bundle ∈ s.copies d) ∧
      Medium.decrypt bundle = some members ∧ (name, content) ∈ members ∧
        Medium.sha256 content = sha256

/-- No other run of the telemetry backup has put a file of the name in the folder since this one
looked for it. -/
def Undisturbed (s : State β) : Move β → Prop
  | .place p => ∀ name archive source createdAt isSealed,
      s.procs p = .encrypted name archive source createdAt isSealed → s.archives name = none
  | _ => True

def undisturbed (s : State β) : Move β → Bool
  | .place p =>
    match s.procs p with
    | .encrypted name _ _ _ _ => (s.archives name).isNone
    | _ => true
  | _ => true

omit [Medium β] in
theorem undisturbed_iff (s : State β) (m : Move β) :
    undisturbed s m = true ↔ Undisturbed s m := by
  cases m with
  | place p =>
    simp only [undisturbed, Undisturbed]
    generalize s.procs p = phase
    cases phase with
    | encrypted name archive source createdAt isSealed =>
      constructor
      · intro h _ _ _ _ _ hphase
        cases hphase
        exact Option.isNone_iff_eq_none.1 h
      · intro h
        exact Option.isNone_iff_eq_none.2 (h name archive source createdAt isSealed rfl)
    | _ => exact iff_of_true rfl fun _ _ _ _ _ hphase => by cases hphase
  | _ => exact iff_of_true rfl trivial

instance (s : State β) (m : Move β) : Decidable (Undisturbed s m) :=
  decidable_of_iff _ (undisturbed_iff s m)

/-- Every operation of the run is undisturbed. -/
def AllUndisturbed [DecidableEq β] : State β → List (Move β) → Prop
  | _, [] => True
  | s, m :: moves => Undisturbed s m ∧ ∀ t, step s m = some t → AllUndisturbed t moves

instance decidableAllUndisturbed [DecidableEq β] :
    ∀ (s : State β) (moves : List (Move β)), Decidable (AllUndisturbed s moves)
  | _, [] => .isTrue trivial
  | s, m :: moves =>
    match hstep : step s m with
    | none => decidable_of_iff (Undisturbed s m)
        ⟨fun hu => ⟨hu, fun t ht => by rw [hstep] at ht; cases ht⟩, And.left⟩
    | some t =>
      have := decidableAllUndisturbed t moves
      decidable_of_iff (Undisturbed s m ∧ AllUndisturbed t moves)
        ⟨fun ⟨hu, hmoves⟩ => ⟨hu, fun u hu => by rw [hstep] at hu; cases hu; exact hmoves⟩,
          fun ⟨hu, hmoves⟩ => ⟨hu, hmoves t hstep⟩⟩

end OpsReplication
