import OpsControlPlane.Memory.ProviderCalls

/-!
# The daily budget of the memory providers

The count of a reservation begins at a day that is not after the day of the row that it inserts,
so it counts all calls of that day: `counted_of_day`. `daily_call_budget` is the bound over all
interleavings of the processes.
-/

namespace OpsMemory

open Calendar Text Calls

variable {t u : DateTime} {provider model : String} {rows : List ProviderCall}

/-! ## Texts of times -/

/-- Texts that begin with as many characters are in the order of these first. -/
theorem append_lt_iff {x y : List Char} (hlen : x.length = y.length) (s t : List Char) :
    x ++ s < y ++ t ↔ x < y ∨ x = y ∧ s < t := by
  induction x generalizing y with
  | nil =>
    obtain rfl := List.eq_nil_of_length_eq_zero hlen.symm
    simp
  | cons a x ih =>
    cases y with
    | nil => simp at hlen
    | cons b y =>
      simp only [List.cons_append, List.cons_lt_cons_iff, ih (by simpa using hlen),
        List.cons.injEq]
      tauto

/-- The texts are in the order of the times. -/
theorem timestamp_mono (h : t ≤ u) : timestamp t ≤ timestamp u := by
  by_contra hlt
  have hlen : ((toChars (isoformat u)).take 19).length =
      ((toChars (isoformat t)).take 19).length := by
    simp only [toChars_eq, List.length_take, String.length_toList, length_isoformat]
  rw [not_le, timestamp, timestamp, ofChars_lt_ofChars, append_lt_iff hlen] at hlt
  have hprefix := hlt.resolve_right fun hsame => List.lt_irrefl _ hsame.2
  refine absurd (isoformat_lt_iff.1 ?_) (not_lt.2 h)
  rw [String.lt_iff_toList_lt, ← toChars_eq, ← toChars_eq,
    ← List.take_append_drop 19 (toChars (isoformat u)),
    ← List.take_append_drop 19 (toChars (isoformat t))]
  exact (append_lt_iff hlen _ _).2 (.inl hprefix)

theorem day_mono (h : t ≤ u) : t.day ≤ u.day :=
  Nat.div_le_div_right (DateTime.le_iff.1 h)

theorem dayStart_le (h : t.day ≤ u.day) : dayStart t ≤ u :=
  DateTime.le_iff.2 ((Nat.mul_le_mul_left _ h).trans (Nat.mul_div_le _ _))

/-! ## Counts -/

theorem counted_of_day (h : t ≤ u) :
    usedIn provider model u.day rows ≤ usedSince provider model (dayStart t) rows := by
  refine List.countP_mono_left fun r _ hr => ?_
  rw [Bool.and_eq_true, decide_eq_true_eq] at hr ⊢
  exact ⟨hr.1, timestamp_mono (dayStart_le ((day_mono h).trans_eq hr.2.symm))⟩

theorem usedIn_append (day : ℕ) (row : ProviderCall) :
    usedIn provider model day (rows ++ [row]) = usedIn provider model day rows +
      if row.used provider model && decide (row.time.day = day) then 1 else 0 := by
  rw [usedIn, List.countP_append, List.countP_singleton, usedIn]

variable {outcome : CallOutcome}

theorem complete_eq (ho : outcome ≠ .budgetDenied) (id : ℕ) (r : ProviderCall) :
    (r.complete id outcome).used provider model = r.used provider model ∧
      (r.complete id outcome).time = r.time := by
  unfold ProviderCall.complete
  split_ifs with h
  · simp [ProviderCall.used, ho, h.2]
  · exact ⟨rfl, rfl⟩

theorem usedIn_complete (ho : outcome ≠ .budgetDenied) (id day : ℕ) :
    usedIn provider model day (rows.map (ProviderCall.complete id outcome)) =
      usedIn provider model day rows := by
  rw [usedIn, List.countP_map, usedIn]
  refine List.countP_congr fun r _ => ?_
  obtain ⟨hused, htime⟩ := @complete_eq provider model _ ho id r
  simp only [Function.comp_apply, hused, htime]

/-! ## Processes -/

variable {budget : String → String → ℕ}

def Within (budget : String → String → ℕ) (st : CallStore) : Prop :=
  ∀ provider model day, usedIn provider model day st.rows ≤ budget provider model

/-- A reservation has its budget, and begins with the day of a time that it was told. -/
def Dated (budget : String → String → ℕ) (h : List (Prog.Said providerInterface)) :
    ProviderOp → Prop
  | .reserve c start dailyBudget => dailyBudget = budget c.provider c.model ∧
      ∃ t : DateTime, ⟨ProviderOp.now, t⟩ ∈ h ∧ start = dayStart t
  | _ => True

/-- The clock is not before a time that it told. -/
def Past : Prog.Said providerInterface → CallStore → Prop
  | ⟨.now, t⟩, st => (show DateTime from t) ≤ st.clock
  | _, _ => True

variable {st : CallStore}

theorem past_mono {a : Prog.Said providerInterface} {st' : CallStore} (h : Past a st)
    (hclock : st.clock ≤ st'.clock) : Past a st' := by
  obtain ⟨o, t⟩ := a
  cases o with
  | now => exact le_trans (show (show DateTime from t) ≤ st.clock from h) hclock
  | _ => trivial

theorem dated_program (r : CallRequest) :
    ((callSystem budget).program r).Trail (Dated budget) (fun _ _ => True)
      (fun _ _ => True) [] := by
  cases r with
  | reserve c =>
    refine ⟨trivial, fun t => ⟨⟨rfl, t, List.mem_singleton_self _, rfl⟩, fun a => ?_⟩⟩
    cases a <;> trivial
  | complete id succeeded =>
    refine ⟨trivial, fun a => ?_⟩
    cases a <;> trivial

theorem within_row (h : Within budget st) (c : CallArgs) (htu : t ≤ u) :
    Within budget { clock := u, rows := st.rows ++
      [c.row (dayStart t) (budget c.provider c.model) st.rows u] } := by
  intro provider model day
  rw [usedIn_append]
  split_ifs with hrow
  · obtain ⟨hcall, hday⟩ := Bool.and_eq_true_iff.1 hrow
    obtain rfl := of_decide_eq_true hday
    obtain ⟨rfl, rfl, ho⟩ := of_decide_eq_true hcall
    rw [CallArgs.row] at ho
    split_ifs at ho with hused
    · exact (counted_of_day htu).trans_lt hused.2
    · exact absurd rfl ho
  · exact h provider model day

/-- An operation keeps the bound and the clock. -/
theorem within_perform {o : ProviderOp} {said : List (Prog.Said providerInterface)}
    (h : Within budget st) (hsaid : ∀ a ∈ said, Past a st) (ho : Dated budget said o)
    (x : CallChoice) :
    Within budget (performCall o x st).2 ∧ st.clock ≤ (performCall o x st).2.clock := by
  cases o with
  | now => exact ⟨h, le_max_left _ _⟩
  | reserve c start dailyBudget =>
    obtain ⟨rfl, t, ht, rfl⟩ := ho
    have htold : t ≤ st.clock := hsaid _ ht
    simp only [performCall]
    cases x.fault with
    | some e => exact ⟨h, le_rfl⟩
    | none => exact ⟨within_row h c (htold.trans (le_max_left _ _)), le_max_left _ _⟩
  | complete id succeeded =>
    simp only [performCall]
    cases x.fault with
    | some e => exact ⟨h, le_rfl⟩
    | none =>
      dsimp only
      split_ifs
      · refine ⟨fun provider model day => ?_, le_rfl⟩
        rw [usedIn_complete (by simp)]
        exact h provider model day
      · refine ⟨fun provider model day => ?_, le_rfl⟩
        rw [usedIn_complete (by simp)]
        exact h provider model day
      · exact ⟨h, le_rfl⟩

/-- In no day are more calls of a model recorded than its budget. -/
theorem daily_call_budget {now : DateTime} {ms : List (Moment (callSystem budget))}
    {s : State (callSystem budget)} (hr : Run (fresh now) ms s) (provider model : String)
    (day : ℕ) : usedIn provider model day s.store.rows ≤ budget provider model := by
  refine (hr.sound (K := Within budget) (T := Past) rfl (fun _ _ _ => Nat.zero_le _)
    dated_program fun r said o x st hst hsaid ho => ?_).1 provider model day
  obtain ⟨hwithin, hclock⟩ := within_perform hst hsaid ho x
  refine ⟨hwithin, ?_, fun a ha => past_mono ha hclock⟩
  cases o with
  | now => exact le_refl (st.time x)
  | _ => trivial

end OpsMemory

namespace OpsMemory.Sample

open Calendar Calls

def reindexCall : CallArgs :=
  ⟨"hermes", "reindex", "embedding-api", "large"⟩

def beforeMidnight : DateTime :=
  ⟨86340000000, by decide⟩

/-- Two processes read the clock before midnight, and the second has its transaction after it. -/
def acrossMidnight : List (Move (callSystem fun _ _ => 1)) :=
  [.spawn (.reserve reindexCall), .spawn (.reserve reindexCall),
    .act 0 ⟨beforeMidnight, none⟩, .act 1 ⟨beforeMidnight, none⟩,
    .act 0 ⟨beforeMidnight, none⟩, .act 1 ⟨⟨86400000000, by decide⟩, none⟩]

theorem daily_call_budget_sample : ∃ (ms : List (Moment (callSystem fun _ _ => 1)))
    (s : State (callSystem fun _ _ => 1)), Run (fresh beforeMidnight) ms s ∧
      s.store.rows.length = 2 ∧ usedIn "embedding-api" "large" 1 s.store.rows ≤ 1 := by
  have hexec : ∃ s ∈ (fresh beforeMidnight).exec acrossMidnight,
      s.store.rows.length = 2 := by
    decide +kernel
  obtain ⟨s, hs, hlen⟩ := hexec
  obtain ⟨ms, hr, -⟩ := Run.of_exec hs
  exact ⟨ms, s, hr, hlen, daily_call_budget hr "embedding-api" "large" 1⟩

end OpsMemory.Sample
