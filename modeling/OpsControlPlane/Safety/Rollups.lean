import OpsControlPlane.Telemetry.Storage

/-!
# The rollups are those of the samples

The data of samples is the sum of the data of each (`dataOf_eq_sum`), and the rollups are the table
of what the samples add, in some order (`Kept`). Each part of such a table sums up to the data of
its samples (`sumPart_items`); the rows, and the groups of `ranges`, are such parts.
-/

namespace OpsTelemetryStorage

open Grouped

/-! ## The data of samples -/

theorem add_def (a b : Data) : a + b = merge a b :=
  rfl

theorem cellOf_cons (x : ℚ) (xs : List ℚ) :
    cellOf (x :: xs) = mergeCell (some ⟨x, 1, x⟩) (cellOf xs) := by
  cases xs with
  | nil => simp [cellOf, mergeCell]
  | cons y ys =>
    rw [cellOf, cellOf, if_neg (List.cons_ne_nil _ _), if_neg (List.cons_ne_nil _ _)]
    simp only [mergeCell, Option.getD_some, Option.some.injEq, Cell.mk.injEq]
    exact ⟨List.sum_cons, (List.length_cons ..).trans (add_comm ..), List.maximum_cons ..⟩

theorem dataOf_eq_sum (samples : List Sample) :
    dataOf samples = (samples.map fun s => source s.point).sum := by
  induction samples with
  | nil => rfl
  | cons s samples ih =>
    rw [List.map_cons, List.sum_cons, ← ih, add_def]
    refine Data.ext (Nat.add_comm ..) (funext fun k => ?_)
    change cellOf _ = mergeCell ((s.point k).map _) (cellOf _)
    cases hk : s.point k with
    | none =>
      rw [List.filterMap_cons_none (f := fun s : Sample => s.point k) hk, Option.map_none,
        mergeCell_none]
    | some x =>
      rw [List.filterMap_cons_some (f := fun s : Sample => s.point k) hk, cellOf_cons,
        Option.map_some]

theorem dataOf_perm {l m : List Sample} (h : l.Perm m) : dataOf l = dataOf m := by
  rw [dataOf_eq_sum, dataOf_eq_sum]
  exact (h.map _).sum_eq

theorem n_sum (l : List Data) : l.sum.n = (l.map Data.n).sum := by
  induction l with
  | nil => rfl
  | cons d l ih =>
    rw [List.sum_cons, List.map_cons, List.sum_cons, ← ih]
    rfl

/-! ## What the samples add -/

variable {host : String} {res : ℤ} {p : Key → Bool} {q : ℤ → Bool}

theorem sumPart_items_one (hres : res ∈ resolutions)
    (hp : ∀ k, p k = true ↔ k.host = host ∧ k.res = res ∧ q k.t = true) (s : Sample) :
    sumPart p (items s) =
      if s.host = host ∧ q (bucketOf res s.t) = true then source s.point else 0 := by
  have hkey : ∀ r t, (p ⟨s.host, r, t⟩ = true) = (s.host = host ∧ r = res ∧ q t = true) :=
    fun r t => propext (hp _)
  unfold items resolutions
  simp only [List.map_cons, List.map_nil, sumPart_cons, sumPart_nil, hkey]
  simp only [resolutions, List.mem_cons, List.not_mem_nil, or_false] at hres
  rcases hres with rfl | rfl | rfl <;> simp

theorem sumPart_items (hres : res ∈ resolutions)
    (hp : ∀ k, p k = true ↔ k.host = host ∧ k.res = res ∧ q k.t = true) (order : List Sample) :
    sumPart p (order.flatMap items) =
      dataOf (order.filter fun s => s.host = host ∧ q (bucketOf res s.t) = true) := by
  rw [dataOf_eq_sum]
  induction order with
  | nil => rfl
  | cons s order ih =>
    rw [List.flatMap_cons, sumPart_append, ih, sumPart_items_one hres hp, List.filter_cons]
    by_cases hs : s.host = host ∧ q (bucketOf res s.t) = true
    · rw [if_pos hs, if_pos (decide_eq_true hs), List.map_cons, List.sum_cons]
    · rw [if_neg hs, if_neg (by simpa using hs), zero_add]

theorem mem_keys_items {order : List Sample} {k : Key} :
    k ∈ (order.flatMap items).map Prod.fst ↔
      k.res ∈ resolutions ∧ ∃ s ∈ order, s.host = k.host ∧ bucketOf k.res s.t = k.t := by
  rw [List.map_flatMap, List.mem_flatMap]
  constructor
  · rintro ⟨s, hs, hk⟩
    rw [items, List.map_map, List.mem_map] at hk
    obtain ⟨r, hr, rfl⟩ := hk
    exact ⟨hr, s, hs, rfl, rfl⟩
  · rintro ⟨hres, s, hs, hhost, ht⟩
    refine ⟨s, hs, ?_⟩
    rw [items, List.map_map, List.mem_map]
    obtain ⟨host, res, t⟩ := k
    obtain rfl : s.host = host := hhost
    obtain rfl : bucketOf res s.t = t := ht
    exact ⟨res, hres, rfl⟩

/-! ## What is kept -/

/-- The rollups are the table of what the samples add. -/
structure Kept (db : Db) : Prop where
  ready : db.ready = true
  table : ∃ order : List Sample, order.Perm db.samples ∧
    db.rollups = collect (order.flatMap items)

theorem foldl_rollup (order : List Sample) (db : Db) :
    order.foldl (fun db s => rollup s db) db =
      { db with rollups := addAll (order.flatMap items) db.rollups } := by
  induction order generalizing db with
  | nil => rfl
  | cons s order ih =>
    rw [List.foldl_cons, ih, List.flatMap_cons, addAll_append]
    rfl

theorem kept_initialized (samples : List Sample) :
    Kept (initializeDb ⟨samples, [], false⟩) := by
  rw [initializeDb, if_neg Bool.false_ne_true, foldl_rollup]
  exact ⟨rfl, _, List.perm_insertionSort .., rfl⟩

theorem Kept.saveSummary {db : Db} (h : Kept db) (s : Sample) : Kept (saveSummary db s) := by
  obtain ⟨order, hperm, htable⟩ := h.table
  rw [OpsTelemetryStorage.saveSummary]
  split
  · exact h
  · refine ⟨h.ready, order ++ [s], hperm.append_right [s], ?_⟩
    rw [List.flatMap_append, collect, addAll_append]
    change addAll (items s) db.rollups = _
    rw [htable, List.flatMap_singleton]
    rfl

theorem Runs.kept {db : Db} (h : Runs db) : Kept db := by
  induction h with
  | initialized samples _ => exact kept_initialized samples
  | saveSummary s _ ih => exact ih.saveSummary s
  | @again db _ ih =>
    rw [initializeDb, if_pos ih.ready]
    exact ih

/-! ## Rows -/

section kept

variable {db : Db} {now : ℚ} {seconds : Option ℤ}

theorem Kept.part (h : Kept db) {p : Key → Bool} (host : String) (q : ℤ → Bool)
    (hres : res ∈ resolutions)
    (hp : ∀ k, p k = true ↔ k.host = host ∧ k.res = res ∧ q k.t = true) :
    sumPart p db.rollups =
      dataOf (db.samples.filter fun s => s.host = host ∧ q (bucketOf res s.t) = true) := by
  obtain ⟨order, hperm, htable⟩ := h.table
  rw [htable, sumPart_collect, sumPart_items hres hp]
  exact dataOf_perm (hperm.filter _)

theorem Kept.mem_keys (h : Kept db) {k : Key} : k ∈ db.rollups.map Prod.fst ↔
    k.res ∈ resolutions ∧ inBucket db k.host k.res k.t ≠ [] := by
  obtain ⟨order, hperm, htable⟩ := h.table
  rw [htable, mem_keys_collect, mem_keys_items]
  refine and_congr_right fun _ => ?_
  simp only [inBucket, ne_eq, List.filter_eq_nil_iff, decide_eq_true_eq, hperm.mem_iff, not_forall,
    not_not, exists_prop]

theorem Kept.nodup_keys (h : Kept db) : (db.rollups.map Prod.fst).Nodup := by
  obtain ⟨order, -, htable⟩ := h.table
  rw [htable]
  exact nodup_keys_collect _

theorem Kept.rowData (h : Kept db) {r : Key × Data} (hr : r ∈ db.rollups) :
    r.2 = dataOf (inBucket db r.1.host r.1.res r.1.t) := by
  have hres := (h.mem_keys.1 (List.mem_map_of_mem hr)).1
  rw [← sumPart_of_mem h.nodup_keys hr,
    h.part r.1.host (fun t => t = r.1.t) hres fun k => ?_]
  · simp only [decide_eq_true_eq, inBucket]
  · simp only [decide_eq_true_eq]
    refine ⟨fun hk => hk ▸ ⟨rfl, rfl, rfl⟩, fun ⟨hhost, hres, ht⟩ => ?_⟩
    exact (Key.mk.injEq ..).mpr ⟨hhost, hres, ht⟩

/-! ## Groups -/

theorem resolution_mem (db : Db) (now : ℚ) (seconds : Option ℤ) :
    resolution db now seconds ∈ resolutions := by
  unfold resolution resolutions
  dsimp only
  split_ifs <;> simp

theorem Kept.selectedPart (h : Kept db) (q : ℤ → Bool) :
    sumPart (fun k => q k.t) (selected db host now seconds) =
      dataOf ((covered db host now seconds).filter fun s =>
        q (bucketOf (resolution db now seconds) s.t)) := by
  rw [selected, sumPart_perm _ (List.perm_insertionSort ..),
    sumPart_filter (fun k : Key => q k.t) (fun k => k.host = host ∧
      k.res = resolution db now seconds ∧ first db now seconds ≤ k.t),
    h.part host (fun t => q t && decide (first db now seconds ≤ t))
      (resolution_mem db now seconds) fun k => ?_]
  · rw [covered, List.filter_filter]
    refine congrArg dataOf (List.filter_congr fun s _ => ?_)
    grind
  · simp only [Bool.and_eq_true, decide_eq_true_eq]
    tauto

theorem mem_keys_selected (h : Kept db) {k : Key} :
    k ∈ (selected db host now seconds).map Prod.fst ↔ (k.host = host ∧
      k.res = resolution db now seconds ∧ first db now seconds ≤ k.t) ∧
        inBucket db k.host k.res k.t ≠ [] := by
  rw [selected, ((List.perm_insertionSort ..).map _).mem_iff, List.mem_map]
  simp only [List.mem_filter, decide_eq_true_eq]
  constructor
  · rintro ⟨r, ⟨hr, hsel⟩, rfl⟩
    exact ⟨hsel, (h.mem_keys.1 (List.mem_map_of_mem hr)).2⟩
  · rintro ⟨hsel, hne⟩
    obtain ⟨r, hr, rfl⟩ := List.mem_map.1 (h.mem_keys.2 ⟨hsel.2.1 ▸ resolution_mem .., hne⟩)
    exact ⟨r, ⟨hr, hsel⟩, rfl⟩

theorem mem_keys_groups (h : Kept db) {t : ℤ} :
    t ∈ (groups db host now seconds).map Prod.fst ↔ coveredBy db host now seconds t ≠ [] := by
  rw [groups, mem_keys_collect, List.map_map]
  constructor
  · intro ht
    obtain ⟨r, hr, rfl⟩ := List.mem_map.1 ht
    obtain ⟨⟨hhost, hres, hfirst⟩, hne⟩ := (mem_keys_selected h).1 (List.mem_map_of_mem hr)
    obtain ⟨s, hs⟩ := List.exists_mem_of_ne_nil _ hne
    obtain ⟨hs, hrow⟩ := List.mem_filter.1 hs
    obtain ⟨hshost, hst⟩ := of_decide_eq_true hrow
    rw [hres] at hst
    refine List.ne_nil_of_mem (List.mem_filter.2 ⟨List.mem_filter.2 ⟨hs,
      decide_eq_true ⟨hshost.trans hhost, ?_⟩⟩, decide_eq_true ?_⟩)
    · rw [hst]
      exact hfirst
    · rw [hst]
      rfl
  · intro hne
    obtain ⟨s, hs⟩ := List.exists_mem_of_ne_nil _ hne
    obtain ⟨hs, ht⟩ := List.mem_filter.1 hs
    obtain ⟨hs, hrow⟩ := List.mem_filter.1 hs
    obtain ⟨hshost, hfirst⟩ := of_decide_eq_true hrow
    let key : Key := ⟨host, resolution db now seconds, bucketOf (resolution db now seconds) s.t⟩
    have hkey : key ∈ (selected db host now seconds).map Prod.fst :=
      (mem_keys_selected h).2 ⟨⟨rfl, rfl, hfirst⟩, List.ne_nil_of_mem
        (List.mem_filter.2 ⟨hs, decide_eq_true ⟨hshost, rfl⟩⟩)⟩
    obtain ⟨r, hr, hkey⟩ := List.mem_map.1 hkey
    refine List.mem_map.2 ⟨r, hr, ?_⟩
    rw [← of_decide_eq_true ht, Function.comp_apply, hkey]

theorem Kept.groupData (h : Kept db) {r : ℤ × Data} (hr : r ∈ groups db host now seconds) :
    r.2 = dataOf (coveredBy db host now seconds r.1) := by
  rw [value_of_mem hr, sumPart_map (fun t => t = r.1)
    (fun k : Key => k.t / width db now seconds * width db now seconds),
    h.selectedPart fun t => t / width db now seconds * width db now seconds = r.1]
  rfl

theorem Kept.count (h : Kept db) : ((range db host now seconds).map Group.sampleCount).sum =
    (covered db host now seconds).length := by
  have hn : ((range db host now seconds).map Group.sampleCount) =
      (((groups db host now seconds).insertionSort fun r r' => r.1 ≤ r'.1).map Prod.snd).map
        Data.n := by
    rw [range, List.map_map, List.map_map]
    rfl
  have hall : ((groups db host now seconds).map Prod.snd).sum =
      dataOf (covered db host now seconds) := by
    have hsum := sumPart_collect (fun _ => true) ((selected db host now seconds).map fun r =>
      (r.1.t / width db now seconds * width db now seconds, r.2))
    rw [sumPart_map (fun _ => true)
      (fun k : Key => k.t / width db now seconds * width db now seconds),
      h.selectedPart fun _ => true] at hsum
    simpa [sumPart, groups] using hsum
  rw [hn, ← n_sum, ((List.perm_insertionSort ..).map _).sum_eq, hall]
  rfl

theorem Kept.exact (h : Kept db) : Exact db where
  row r hr :=
    have hkey := h.mem_keys.1 (List.mem_map_of_mem hr)
    ⟨hkey.1, hkey.2, h.rowData hr⟩
  hasRow _ _ hres _ hne :=
    List.count_eq_one_of_mem h.nodup_keys (h.mem_keys.2 ⟨hres, hne⟩)
  total _ _ _ := h.count
  group host now seconds g hg := by
    obtain ⟨r, hr, rfl⟩ := List.mem_map.1 hg
    rw [(List.perm_insertionSort ..).mem_iff] at hr
    refine ⟨(mem_keys_groups h).1 (List.mem_map_of_mem hr), ?_⟩
    change _ = groupOf _ (r.1, dataOf (coveredBy db host now seconds r.1))
    rw [← h.groupData hr]
  hasGroup host now seconds t hne := by
    have hkeys : ((range db host now seconds).map Group.t).Perm
        ((groups db host now seconds).map Prod.fst) := by
      rw [range, List.map_map]
      exact (List.perm_insertionSort ..).map _
    rw [hkeys.count_eq]
    exact List.count_eq_one_of_mem (nodup_keys_collect _) ((mem_keys_groups h).2 hne)

end kept

/-! ## Buckets -/

/-- In every run the rollups are those of the samples, and so is what the ranges show. -/
theorem rollups_exact {db : Db} (h : Runs db) : Exact db :=
  h.kept.exact

namespace Minute

def cpuPoint (x : ℚ) : Point := fun k =>
  if k = .cpu then some x else none

def saved : Db :=
  saveSummary (initializeDb ⟨[⟨"nas", 100, cpuPoint 10⟩], [], false⟩) ⟨"nas", 110, cpuPoint 90⟩

theorem rollups_exact_sample : saved.rollups.map (fun r => r.2.n) = [2, 2, 2] ∧ Exact saved :=
  ⟨by decide,
    rollups_exact (.saveSummary _ (.initialized _ (List.nodup_singleton _)))⟩

end Minute

end OpsTelemetryStorage
