import OpsControlPlane.Lib.Grouped
import Mathlib.Algebra.Order.Ring.Rat
import Mathlib.Data.Rat.Floor
import Mathlib.Order.WithBot
import Mathlib.Data.List.MinMax
import Mathlib.Data.List.Sort

/-!
# Rollups of the telemetry

`saveSummary` stores a sample and adds it to the rollups of three resolutions, `initializeDb` adds
the samples that are there before the rollups are, and `ranges` groups the rollups for display.
Numbers are exact. No row order of a table is read, except where a query sorts.
-/

namespace OpsTelemetryStorage

open Grouped

inductive Field where
  | cpu
  | cores
  | memoryUsed
  | memoryTotal
  | storageUsed
  | storageTotal
  | rx
  | tx
  | read
  | write
  | processes
deriving DecidableEq

/-- A sample: its fields that are numbers. -/
abbrev Point : Type :=
  Field → Option ℚ

def int (x : ℚ) : ℤ :=
  if 0 ≤ x then ⌊x⌋ else ⌈x⌉

def bucketOf (res : ℤ) (t : ℚ) : ℤ :=
  int t / res * res

/-! ## Data -/

/-- The sum, the number and the maximum of the values of a field. No maximum is the bottom. -/
@[ext] structure Cell where
  sum : ℚ
  count : ℕ
  max : WithBot ℚ
deriving DecidableEq

/-- The data of a rollup: the number of samples, and the fields that are there. -/
@[ext] structure Data where
  n : ℕ
  cell : Field → Option Cell

def mergeCell (a b : Option Cell) : Option Cell :=
  match b with
  | none => a
  | some b =>
    let a := a.getD ⟨0, 0, ⊥⟩
    some ⟨a.sum + b.sum, a.count + b.count, a.max ⊔ b.max⟩

def merge (target source : Data) : Data :=
  ⟨target.n + source.n, fun k => mergeCell (target.cell k) (source.cell k)⟩

theorem mergeCell_none (a : Option Cell) : mergeCell none a = a := by
  cases a with
  | none => rfl
  | some a => simp [mergeCell]

theorem mergeCell_comm (a b : Option Cell) : mergeCell a b = mergeCell b a := by
  cases a <;> cases b <;> simp [mergeCell, add_comm, sup_comm]

theorem mergeCell_assoc (a b c : Option Cell) :
    mergeCell (mergeCell a b) c = mergeCell a (mergeCell b c) := by
  cases a <;> cases b <;> cases c <;> simp [mergeCell, add_assoc, sup_assoc]

instance : Zero Data :=
  ⟨⟨0, fun _ => none⟩⟩

instance : Add Data :=
  ⟨merge⟩

instance : AddCommMonoid Data where
  add_assoc a b c := Data.ext (Nat.add_assoc ..) (funext fun _ => mergeCell_assoc ..)
  zero_add a := Data.ext (Nat.zero_add _) (funext fun _ => mergeCell_none _)
  add_zero a := Data.ext (Nat.add_zero _) rfl
  add_comm a b := Data.ext (Nat.add_comm ..) (funext fun _ => mergeCell_comm ..)
  nsmul := nsmulRec

def source (p : Point) : Data :=
  ⟨1, fun k => (p k).map fun x => ⟨x, 1, x⟩⟩

/-! ## Tables -/

structure Sample where
  host : String
  t : ℚ
  point : Point

/-- The key of a row of `rollups`. -/
structure Key where
  host : String
  (res t : ℤ)
deriving DecidableEq

structure Db where
  samples : List Sample
  rollups : List (Key × Data)
  /-- `rollups_v1` of `telemetry_meta`. -/
  ready : Bool

def resolutions : List ℤ :=
  [60, 3600, 86400]

def items (s : Sample) : List (Key × Data) :=
  resolutions.map fun res => (⟨s.host, res, bucketOf res s.t⟩, source s.point)

def rollup (s : Sample) (db : Db) : Db :=
  { db with rollups := addAll (items s) db.rollups }

def initializeDb (db : Db) : Db :=
  if db.ready then db
  else { (db.samples.insertionSort fun s s' => s.t ≤ s'.t).foldl (fun db s => rollup s db) db with
    ready := true }

def saveSummary (db : Db) (s : Sample) : Db :=
  if db.samples.any fun s' => s'.host = s.host ∧ s'.t = s.t then db
  else rollup s { db with samples := db.samples ++ [s] }

/-! ## Ranges -/

structure Group where
  t : ℤ
  sampleCount : ℕ
  mean : Field → Option ℚ
  (cpuMax memoryPeak : WithBot ℚ)
  bucketSeconds : ℤ

def Data.maximum (d : Data) (k : Field) : WithBot ℚ :=
  ((d.cell k).map Cell.max).getD ⊥

def groupOf (width : ℤ) (r : ℤ × Data) : Group where
  t := r.1
  sampleCount := r.2.n
  mean k := (r.2.cell k).map fun c => c.sum / c.count
  cpuMax := r.2.maximum .cpu
  memoryPeak := r.2.maximum .memoryUsed
  bucketSeconds := width

/-- `SELECT MIN(t)`. -/
def earliest (db : Db) : Option ℚ :=
  (db.samples.map Sample.t).min?

def start (db : Db) (now : ℚ) : Option ℤ → ℚ
  | some seconds => int (now - seconds)
  | none => (earliest db).getD now

/-- `res`, by the time that there are samples of. -/
def resolution (db : Db) (now : ℚ) (seconds : Option ℤ) : ℤ :=
  let from_ := start db now seconds
  let span := now - max from_ ((earliest db).getD from_)
  if span ≤ 86400 then 60 else if span ≤ 2592000 then 3600 else 86400

def width (db : Db) (now : ℚ) (seconds : Option ℤ) : ℤ :=
  let res := resolution db now seconds
  max res ((int (now - start db now seconds) / 180 / res + 1) * res)

def first (db : Db) (now : ℚ) (seconds : Option ℤ) : ℤ :=
  bucketOf (resolution db now seconds) (start db now seconds)

/-- The rollups that are read, by time. -/
def selected (db : Db) (host : String) (now : ℚ) (seconds : Option ℤ) : List (Key × Data) :=
  (db.rollups.filter fun r => r.1.host = host ∧ r.1.res = resolution db now seconds ∧
    first db now seconds ≤ r.1.t).insertionSort fun r r' => r.1.t ≤ r'.1.t

def groups (db : Db) (host : String) (now : ℚ) (seconds : Option ℤ) : List (ℤ × Data) :=
  let width := width db now seconds
  collect ((selected db host now seconds).map fun r => (r.1.t / width * width, r.2))

def range (db : Db) (host : String) (now : ℚ) (seconds : Option ℤ) : List Group :=
  ((groups db host now seconds).insertionSort fun r r' => r.1 ≤ r'.1).map
    (groupOf (width db now seconds))

def ranges (db : Db) (host : String) (now : ℚ) : List (String × List Group) :=
  [("15m", some 900), ("1h", some 3600), ("24h", some 86400), ("7d", some 604800),
    ("30d", some 2592000), ("1y", some 31536000), ("all", none)].map fun r =>
      (r.1, range db host now r.2)

/-- A database that held only samples is passed to `initialize`, and samples are saved. -/
inductive Runs : Db → Prop where
  | initialized (samples : List Sample)
      (h : (samples.map fun s => (s.host, s.t)).Nodup) : Runs (initializeDb ⟨samples, [], false⟩)
  | saveSummary {db : Db} (s : Sample) (h : Runs db) : Runs (saveSummary db s)
  | again {db : Db} (h : Runs db) : Runs (initializeDb db)

/-! ## What is claimed -/

/-- The sum, the number and the maximum of some values, if there is one. -/
def cellOf (xs : List ℚ) : Option Cell :=
  if xs = [] then none else some ⟨xs.sum, xs.length, xs.maximum⟩

def dataOf (samples : List Sample) : Data :=
  ⟨samples.length, fun k => cellOf (samples.filterMap fun s => s.point k)⟩

def inBucket (db : Db) (host : String) (res t : ℤ) : List Sample :=
  db.samples.filter fun s => s.host = host ∧ bucketOf res s.t = t

def covered (db : Db) (host : String) (now : ℚ) (seconds : Option ℤ) : List Sample :=
  db.samples.filter fun s => s.host = host ∧
    first db now seconds ≤ bucketOf (resolution db now seconds) s.t

def coveredBy (db : Db) (host : String) (now : ℚ) (seconds : Option ℤ) (t : ℤ) : List Sample :=
  (covered db host now seconds).filter fun s =>
    bucketOf (resolution db now seconds) s.t / width db now seconds * width db now seconds = t

/-- The rollups are those of the samples, and so is what the ranges show. -/
structure Exact (db : Db) : Prop where
  row : ∀ r ∈ db.rollups, r.1.res ∈ resolutions ∧
    inBucket db r.1.host r.1.res r.1.t ≠ [] ∧ r.2 = dataOf (inBucket db r.1.host r.1.res r.1.t)
  hasRow : ∀ host, ∀ res ∈ resolutions, ∀ t, inBucket db host res t ≠ [] →
    (db.rollups.map Prod.fst).count ⟨host, res, t⟩ = 1
  total : ∀ host now seconds, ((range db host now seconds).map Group.sampleCount).sum =
    (covered db host now seconds).length
  group : ∀ host now seconds, ∀ g ∈ range db host now seconds,
    coveredBy db host now seconds g.t ≠ [] ∧
      g = groupOf (width db now seconds) (g.t, dataOf (coveredBy db host now seconds g.t))
  hasGroup : ∀ host now seconds t, coveredBy db host now seconds t ≠ [] →
    ((range db host now seconds).map Group.t).count t = 1

end OpsTelemetryStorage
