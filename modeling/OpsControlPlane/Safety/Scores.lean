import Mathlib.Algebra.Order.Ring.Int
import OpsControlPlane.Lib.Assoc
import OpsControlPlane.Orchestrator.Adaptive

/-!
# Adaptive scores are monotone and bounded

A better history does not cost more (`Better.cost_le`): each step from the validations and the
latencies to the cost is monotone. The adjustments stay in their bounds, and so do the columns of
the audit (`scores_bounded`).
-/

namespace OpsOrchestrator

namespace Adaptive

variable {lo hi cost a : ℤ}

theorem clamp_mono {v w : ℤ} (h : v ≤ w) : clamp lo hi v ≤ clamp lo hi w :=
  max_le_max le_rfl (min_le_min le_rfl h)

theorem le_clamp (lo hi v : ℤ) : lo ≤ clamp lo hi v :=
  le_max_left _ _

theorem clamp_le (h : lo ≤ hi) (v : ℤ) : clamp lo hi v ≤ hi :=
  max_le h (min_le_left _ _)

/-! ## Quality -/

/-- A validation that is at least as good: of no lower quality, with no more corrections, and a
success if the other one is. -/
structure Validation.Improves (v w : Validation) : Prop where
  outcome : v.outcome = "succeeded" → w.outcome = "succeeded"
  quality : v.qualityMilli ≤ w.qualityMilli
  corrections : w.correctionsRequired ≤ v.correctionsRequired

theorem Validation.Improves.refl (v : Validation) : v.Improves v :=
  ⟨id, le_rfl, le_rfl⟩

variable {v w : Validation}

theorem Validation.Improves.points (h : v.Improves w) : v.points ≤ w.points := by
  obtain ⟨houtcome, hquality, hcorrections⟩ := h
  unfold Validation.points
  dsimp only
  split_ifs with hv hw hw
  · omega
  · exact absurd (houtcome hv) hw
  · omega
  · omega

theorem Validation.Improves.replace (h : v.Improves w) (before after : List Validation) :
    List.Forall₂ Validation.Improves (before ++ v :: after) (before ++ w :: after) := by
  induction before with
  | nil => exact .cons h (List.forall₂_same.2 fun u _ => .refl u)
  | cons u before ih => exact .cons (.refl u) ih

/-- A history with the same attempts, validations that are at least as good, and latencies that are
no larger. -/
structure Better (h h' : History) : Prop where
  attempts : h'.attemptCount = h.attemptCount
  completed : h'.completedAttempts = h.completedAttempts
  validations : List.Forall₂ Validation.Improves h.validations h'.validations
  latencies : List.Forall₂ (· ≤ ·) h'.completedLatencyMs h.completedLatencyMs

namespace Better

variable {h h' : History}

theorem points (hb : Better h h') : h.validationPoints ≤ h'.validationPoints := by
  have hall : ∀ l l' : List Validation, List.Forall₂ Validation.Improves l l' →
      (l.map Validation.points).foldr (· + ·) 0 ≤ (l'.map Validation.points).foldr (· + ·) 0 := by
    intro l l' h
    induction h with
    | nil => exact le_rfl
    | cons hv _ ih => exact add_le_add hv.points ih
  exact hall _ _ hb.validations

theorem denominator (hb : Better h h') : h'.denominator = h.denominator := by
  unfold History.denominator
  rw [hb.attempts, hb.validations.length_eq]

theorem denominator_pos (h : History) : 0 < h.denominator := by
  unfold History.denominator priorWeightUnits validationWeightUnits attemptWeightUnits
  omega

theorem numerator (hb : Better h h') : h.numerator ≤ h'.numerator := by
  have hpoints := hb.points
  unfold History.numerator priorWeightUnits validationWeightUnits attemptWeightUnits
  rw [hb.completed]
  omega

theorem posterior (hb : Better h h') : h.posteriorQualityMilli ≤ h'.posteriorQualityMilli := by
  unfold History.posteriorQualityMilli
  rw [hb.denominator]
  exact clamp_mono (Int.ediv_le_ediv (denominator_pos h) (add_le_add hb.numerator le_rfl))

theorem quality (hb : Better h h') : h'.qualityAdjustmentPpm ≤ h.qualityAdjustmentPpm := by
  have hevidence : h'.enoughEvidence = h.enoughEvidence := by
    unfold History.enoughEvidence
    rw [hb.attempts, hb.validations.length_eq]
  have hposterior := hb.posterior
  unfold History.qualityAdjustmentPpm
  rw [hevidence]
  split_ifs
  · exact clamp_mono (by omega)
  · exact le_rfl

/-! ## Latency -/

theorem gap_mono {target maximum observed observed' : ℤ} (htarget : 0 < target)
    (hmaximum : 0 ≤ maximum) (hle : observed ≤ observed') :
    clamp (-1000000) 1000000 ((observed - target) * 1000000 / target) * maximum / 1000000 ≤
      clamp (-1000000) 1000000 ((observed' - target) * 1000000 / target) * maximum / 1000000 := by
  refine Int.ediv_le_ediv (by decide) (mul_le_mul_of_nonneg_right (clamp_mono ?_) hmaximum)
  exact Int.ediv_le_ediv htarget (by omega)

def PolicyBounds (policy : Option (ℤ × ℤ)) : Prop :=
  ∀ p ∈ policy, (1 ≤ p.1 ∧ p.1 ≤ 300000) ∧ 0 ≤ p.2 ∧ p.2 ≤ 150000

variable {policy : Option (ℤ × ℤ)}

theorem latency (hb : Better h h') (hp : PolicyBounds policy) :
    h'.latencyAdjustmentPpm policy ≤ h.latencyAdjustmentPpm policy := by
  have hlength := hb.latencies.length_eq
  unfold History.latencyAdjustmentPpm History.observedLatencyMs History.latencyEvidenceSufficient
  rw [hlength]
  cases policy with
  | none => exact le_rfl
  | some p =>
    obtain ⟨⟨htarget, -⟩, hmaximum, -⟩ := hp p rfl
    cases hm' : Medians.median h'.completedLatencyMs with
    | none =>
      have hnil : h.completedLatencyMs = [] := List.length_eq_zero_iff.1 (by
        rw [← hlength, Medians.median_eq_none.1 hm']
        rfl)
      rw [Medians.median_eq_none.2 hnil]
    | some observed' =>
      cases hm : Medians.median h.completedLatencyMs with
      | none =>
        have hnil : h'.completedLatencyMs = [] := List.length_eq_zero_iff.1 (by
          rw [hlength, Medians.median_eq_none.1 hm]
          rfl)
        rw [Medians.median_eq_none.2 hnil] at hm'
        cases hm'
      | some observed =>
        dsimp only
        split_ifs
        · exact gap_mono htarget hmaximum (Medians.median_mono hb.latencies hm' hm)
        · exact le_rfl

theorem adjustment (hb : Better h h') (hp : PolicyBounds policy) :
    h'.adjustmentPpm policy ≤ h.adjustmentPpm policy :=
  clamp_mono (add_le_add hb.quality (hb.latency hp))

end Better

theorem latencyPolicy_bounds (urgency : Option String) :
    Better.PolicyBounds (urgency.bind fun u => latencyPolicy.lookup u) := by
  intro p hp
  obtain ⟨u, -, hu⟩ := Option.bind_eq_some_iff.1 hp
  have hall : ∀ q ∈ latencyPolicy, (1 ≤ q.2.1 ∧ q.2.1 ≤ 300000) ∧ 0 ≤ q.2.2 ∧ q.2.2 ≤ 150000 := by
    decide
  exact hall (u, p) (Assoc.mem_of_lookup hu)

/-! ## Cost -/

theorem adaptiveCost_mono {b : ℤ} (hcost : 0 ≤ cost) (h : a ≤ b) :
    adaptiveCost cost a ≤ adaptiveCost cost b := by
  have hmul := mul_le_mul_of_nonneg_left h hcost
  unfold adaptiveCost
  rw [mul_add, mul_add]
  exact Int.ediv_le_ediv (by decide) (by omega)

theorem adaptiveCost_bounds (hcost : 0 ≤ cost) (hlo : -150000 ≤ a) (hhi : a ≤ 150000) :
    850000 * cost ≤ 1000000 * adaptiveCost cost a ∧
      adaptiveCost cost a ≤ (1150000 * cost + 999999) / 1000000 := by
  have hmin := mul_le_mul_of_nonneg_left hlo hcost
  have hmax := mul_le_mul_of_nonneg_left hhi hcost
  unfold adaptiveCost
  rw [mul_add]
  omega

theorem adjustment_bounds (h : History) (policy : Option (ℤ × ℤ)) :
    -150000 ≤ h.adjustmentPpm policy ∧ h.adjustmentPpm policy ≤ 150000 :=
  ⟨le_clamp _ _ _, clamp_le (by decide) _⟩

theorem quality_bounds (h : History) :
    -150000 ≤ h.qualityAdjustmentPpm ∧ h.qualityAdjustmentPpm ≤ 150000 := by
  unfold History.qualityAdjustmentPpm
  split_ifs
  · exact ⟨le_clamp _ _ _, clamp_le (by decide) _⟩
  · decide

theorem latency_bounds (h : History) {policy : Option (ℤ × ℤ)} (hp : Better.PolicyBounds policy) :
    -150000 ≤ h.latencyAdjustmentPpm policy ∧ h.latencyAdjustmentPpm policy ≤ 150000 := by
  unfold History.latencyAdjustmentPpm
  split
  · next _ _ target maximum observed _ =>
    obtain ⟨-, hmin, hmax⟩ := hp (target, maximum) rfl
    split_ifs
    · have hlo := mul_le_mul_of_nonneg_right
        (le_clamp (-1000000) 1000000 ((observed - target) * 1000000 / target)) hmin
      have hhi := mul_le_mul_of_nonneg_right
        (clamp_le (by decide : (-1000000 : ℤ) ≤ 1000000)
          ((observed - target) * 1000000 / target)) hmin
      dsimp only at hmin hmax hlo hhi
      omega
    · decide
  · decide

/-! ## Scores -/

variable {urgency : Option String} {s : CandidateScore}

theorem score_ok {h : History} (hs : h.score cost urgency = .ok s) :
    0 ≤ cost ∧ (∀ ms ∈ h.completedLatencyMs, 0 ≤ ms ∧ ms ≤ 300000) ∧
      s.adjustmentPpm = h.adjustmentPpm (urgency.bind fun u => latencyPolicy.lookup u) ∧
      s.adaptiveCostMicrousd = adaptiveCost cost s.adjustmentPpm := by
  unfold History.score at hs
  split_ifs at hs with hcost hurgency hlatency
  obtain rfl := Except.ok.inj hs
  refine ⟨not_lt.1 hcost, fun ms hms => ?_, rfl, rfl⟩
  by_contra hno
  exact hlatency ⟨ms, hms, hno⟩

theorem Better.cost_le {h h' : History} (hb : Better h h') {s' : CandidateScore}
    (hs : h.score cost urgency = .ok s) (hs' : h'.score cost urgency = .ok s') :
    s'.adaptiveCostMicrousd ≤ s.adaptiveCostMicrousd := by
  obtain ⟨hcost, -, hadjustment, heq⟩ := score_ok hs
  obtain ⟨-, -, hadjustment', heq'⟩ := score_ok hs'
  rw [heq, heq', hadjustment, hadjustment']
  exact adaptiveCost_mono hcost (hb.adjustment (latencyPolicy_bounds urgency))

theorem score_bounds {h : History} (hs : h.score cost urgency = .ok s)
    (hrows : h.completedLatencyMs.length ≤ 500) {rank : ℤ} (hrank : 1 ≤ rank) :
    auditChecks s rank = true := by
  obtain ⟨hcost, hlatency, -, hadaptive⟩ := score_ok hs
  unfold History.score at hs
  split_ifs at hs
  obtain rfl := Except.ok.inj hs
  have hpolicy := latencyPolicy_bounds urgency
  obtain ⟨hlo, hhi⟩ := adjustment_bounds h (urgency.bind fun u => latencyPolicy.lookup u)
  obtain ⟨hpositive, -⟩ := adaptiveCost_bounds hcost hlo hhi
  have hobserved : ∀ ms ∈ h.observedLatencyMs, 0 ≤ ms ∧ ms ≤ 300000 := fun ms hms =>
    Medians.median_mem hlatency hms
  have htarget : ∀ t ∈ (urgency.bind fun u => latencyPolicy.lookup u).map Prod.fst,
      1 ≤ t ∧ t ≤ 300000 := by
    intro t ht
    obtain ⟨p, hp, rfl⟩ := Option.map_eq_some_iff.1 ht
    exact (hpolicy p hp).1
  have hquality : 0 ≤ h.posteriorQualityMilli ∧ h.posteriorQualityMilli ≤ 1000 :=
    ⟨le_clamp _ _ _, clamp_le (by decide) _⟩
  have hmilli := quality_bounds h
  have hms := latency_bounds h hpolicy
  simp only [auditChecks, between, Bool.and_eq_true, decide_eq_true_eq, Option.all_eq_true]
  refine ⟨⟨⟨⟨⟨⟨⟨⟨⟨⟨⟨⟨⟨⟨hcost, Int.natCast_nonneg _⟩, Int.natCast_nonneg _⟩, Int.natCast_nonneg _⟩,
    Int.natCast_nonneg _⟩, Int.natCast_nonneg _⟩, hquality⟩, hmilli⟩,
      fun ms h => hobserved ms h⟩, ?_⟩,
    fun t h => htarget t h⟩, hms⟩, hlo, hhi⟩, ?_⟩, hrank⟩
  · omega
  · omega

theorem history_latencies (attempts : List Attempt) (validations : List Validation) :
    (modelPerformanceHistory maximumHistoryRows attempts validations).completedLatencyMs.length ≤
      500
      ∧ ∀ ms ∈ (modelPerformanceHistory maximumHistoryRows attempts validations).completedLatencyMs,
        0 ≤ ms ∧ ms ≤ 300000 := by
  refine ⟨(List.length_filterMap_le _ _).trans (List.length_take_le _ _), fun ms hms => ?_⟩
  obtain ⟨a, -, ha⟩ := List.mem_filterMap.1 hms
  unfold Attempt.durationMs at ha
  split_ifs at ha
  obtain ⟨elapsed, -, rfl⟩ := Option.map_eq_some_iff.1 ha
  omega

/-- A better history does not cost more. The adjustment of a score is at most 15 hundredths, and the
cost lies in these bounds, rounded up. The rows of the audit satisfy its constraints, and what is
read from the database is always scored. -/
theorem scores_monotone_bounded :
    (∀ h h' cost urgency s s', Better h h' → h.score cost urgency = .ok s →
      h'.score cost urgency = .ok s' → s'.adaptiveCostMicrousd ≤ s.adaptiveCostMicrousd) ∧
    (∀ h cost urgency s, History.score h cost urgency = .ok s →
      (-150000 ≤ s.adjustmentPpm ∧ s.adjustmentPpm ≤ 150000) ∧
      850000 * cost ≤ 1000000 * s.adaptiveCostMicrousd ∧
        s.adaptiveCostMicrousd ≤ (1150000 * cost + 999999) / 1000000) ∧
    (∀ scores, (∀ s ∈ scores, ∃ attempts validations cost urgency,
        candidateScore attempts validations cost urgency = .ok s) →
      ∀ row ∈ auditRows scores, auditChecks row.1 row.2 = true) ∧
    ∀ attempts validations cost urgency,
      candidateScore attempts validations cost urgency ≠ .error .latencyHistory := by
  refine ⟨fun h h' cost urgency s s' hb hs hs' => hb.cost_le hs hs', fun h cost urgency s hs => ?_,
    fun scores hscores row hrow => ?_, fun attempts validations cost urgency herror => ?_⟩
  · obtain ⟨hcost, -, hadjustment, hadaptive⟩ := score_ok hs
    obtain ⟨hlo, hhi⟩ := adjustment_bounds h (urgency.bind fun u => latencyPolicy.lookup u)
    rw [← hadjustment] at hlo hhi
    rw [hadaptive]
    exact ⟨⟨hlo, hhi⟩, adaptiveCost_bounds hcost hlo hhi⟩
  · obtain ⟨⟨s, rank⟩, hmem, rfl⟩ := List.mem_map.1 hrow
    obtain ⟨hlo, -, hs⟩ := List.mem_zipIdx hmem
    obtain ⟨attempts, validations, cost, urgency, hscore⟩ := hscores s (hs ▸ List.getElem_mem _)
    exact score_bounds hscore (history_latencies attempts validations).1 (Int.ofNat_le.2 hlo)
  · unfold candidateScore History.score at herror
    split_ifs at herror with _ _ hlatency
    · cases herror
    · cases herror
    · obtain ⟨ms, hms, hno⟩ := hlatency
      exact hno ((history_latencies attempts validations).2 ms hms)

/-! ## A sample -/

/-- Five attempts of nine seconds each. -/
def sampleAttempts : List Attempt :=
  List.replicate 5 ⟨"completed", some 9000⟩

def failedTask : Validation :=
  ⟨"failed", 700, 2⟩

def doneTask : Validation :=
  ⟨"succeeded", 700, 2⟩

/-- The history with so many tasks done before the one in question. -/
def sampleHistory (v : Validation) : History :=
  modelPerformanceHistory maximumHistoryRows sampleAttempts (List.replicate 5 doneTask ++ [v])

theorem sample_scored : (∃ s ∈ ((sampleHistory failedTask).score 1000 (some "NORMAL")).toOption,
    s.adaptiveCostMicrousd = 1039) ∧
    ∃ s ∈ ((sampleHistory doneTask).score 1000 (some "NORMAL")).toOption,
      s.adaptiveCostMicrousd = 1027 := by
  decide +kernel

theorem toOption_eq_some {ε α : Type} {r : Except ε α} {a : α} (h : a ∈ r.toOption) :
    r = .ok a := by
  cases r with
  | ok b => exact congrArg Except.ok (Option.some.inj h)
  | error e => cases h

theorem scores_monotone_bounded_sample : ∃ s s' : CandidateScore,
    s.adaptiveCostMicrousd = 1039 ∧ s'.adaptiveCostMicrousd ≤ s.adaptiveCostMicrousd ∧
      ∀ row ∈ auditRows [s, s'], auditChecks row.1 row.2 = true := by
  obtain ⟨⟨s, hs, hcost⟩, s', hs', -⟩ := sample_scored
  have himproves : failedTask.Improves doneTask :=
    ⟨fun h => absurd h (by decide), le_rfl, le_rfl⟩
  have hb : Better (sampleHistory failedTask) (sampleHistory doneTask) :=
    ⟨rfl, rfl, himproves.replace (List.replicate 5 doneTask) [],
      List.forall₂_same.2 fun _ _ => le_rfl⟩
  obtain ⟨hle, -, haudit, -⟩ := scores_monotone_bounded
  refine ⟨s, s', hcost, hle _ _ 1000 (some "NORMAL") s s' hb (toOption_eq_some hs)
    (toOption_eq_some hs'), haudit _ fun t ht => ?_⟩
  rcases List.mem_pair.1 ht with rfl | rfl
  · exact ⟨_, _, _, _, toOption_eq_some hs⟩
  · exact ⟨_, _, _, _, toOption_eq_some hs'⟩

end Adaptive

end OpsOrchestrator
