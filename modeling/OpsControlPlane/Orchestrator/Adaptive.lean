import OpsControlPlane.Lib.Medians

/-!
# Adaptive scores

`adaptive.py` of the orchestrator: the history of a candidate, as `model_performance_history` reads
it, and the score that `candidate_score` makes of it, with the row of the audit.
-/

namespace OpsOrchestrator

namespace Adaptive

def baselineQualityMilli : ℤ := 750
def priorWeightUnits : ℤ := 48
def validationWeightUnits : ℤ := 4
def attemptWeightUnits : ℤ := 1
def minimumValidations : ℕ := 5
def minimumAttempts : ℕ := 8
def maximumHistoryRows : ℕ := 500
def maximumAdjustmentPpm : ℤ := 150000
def minimumLatencySamples : ℕ := 5
def maximumLatencySampleMs : ℤ := 300000

/-- `LATENCY_POLICY`: the target and the largest adjustment of an urgency. -/
def latencyPolicy : List (String × (ℤ × ℤ)) :=
  [("ROUTINE", (12000, 25000)), ("NORMAL", (8000, 50000)), ("URGENT", (4000, 100000)),
    ("EMERGENCY", (2000, 150000))]

/-! ## History -/

/-- A row of `model_result_validations`. -/
structure Validation where
  outcome : String
  (qualityMilli correctionsRequired : ℤ)

/-- A row of the attempts: its status, and the milliseconds between its creation and its completion,
if the row has both instants. -/
structure Attempt where
  status : String
  elapsedMs : Option ℤ

/-- What `model_performance_history` returns. -/
structure History where
  (attemptCount completedAttempts uncertainAttempts : ℕ)
  completedLatencyMs : List ℤ
  validations : List Validation

def Attempt.durationMs (a : Attempt) : Option ℤ :=
  if a.status = "completed" then a.elapsedMs.map fun ms => max 0 (min 300000 ms) else none

/-- `model_performance_history`, of the attempts and the validations of a candidate, newest
first. -/
def modelPerformanceHistory (maximumRows : ℕ) (attempts : List Attempt)
    (validations : List Validation) : History :=
  let attempts := attempts.take maximumRows
  { attemptCount := attempts.length
    completedAttempts := attempts.countP fun a => a.status = "completed"
    uncertainAttempts := attempts.countP fun a => a.status ≠ "completed"
    completedLatencyMs := attempts.filterMap Attempt.durationMs
    validations := validations.take maximumRows }

/-! ## Score -/

/-- The value between two bounds, as `max(lo, min(hi, v))`. -/
def clamp (lo hi v : ℤ) : ℤ :=
  max lo (min hi v)

/-- The points of one validation. A failed task contributes 250 at most, and a correction takes off
40, up to five of them. -/
def Validation.points (v : Validation) : ℤ :=
  let corrections := min v.correctionsRequired 5
  let base := if v.outcome = "succeeded" then v.qualityMilli else min v.qualityMilli 250
  max 0 (base - corrections * 40)

namespace History

variable (h : History)

def validationPoints : ℤ :=
  (h.validations.map Validation.points).foldr (· + ·) 0

def successfulValidations : ℕ :=
  h.validations.countP fun v => v.outcome = "succeeded"

def denominator : ℤ :=
  priorWeightUnits + h.validations.length * validationWeightUnits +
    h.attemptCount * attemptWeightUnits

def numerator : ℤ :=
  priorWeightUnits * baselineQualityMilli + validationWeightUnits * h.validationPoints +
    attemptWeightUnits * h.completedAttempts * baselineQualityMilli

def posteriorQualityMilli : ℤ :=
  clamp 0 1000 ((h.numerator + h.denominator / 2) / h.denominator)

def enoughEvidence : Bool :=
  minimumValidations ≤ h.validations.length || minimumAttempts ≤ h.attemptCount

def qualityAdjustmentPpm : ℤ :=
  if h.enoughEvidence then
    clamp (-maximumAdjustmentPpm) maximumAdjustmentPpm
      ((baselineQualityMilli - h.posteriorQualityMilli) * 500)
  else 0

def latencyEvidenceSufficient : Bool :=
  minimumLatencySamples ≤ h.completedLatencyMs.length

def observedLatencyMs : Option ℤ :=
  Medians.median h.completedLatencyMs

def latencyAdjustmentPpm (policy : Option (ℤ × ℤ)) : ℤ :=
  match policy, h.observedLatencyMs with
  | some (target, maximum), some observed =>
    if h.latencyEvidenceSufficient then
      clamp (-1000000) 1000000 ((observed - target) * 1000000 / target) * maximum / 1000000
    else 0
  | _, _ => 0

def adjustmentPpm (policy : Option (ℤ × ℤ)) : ℤ :=
  clamp (-maximumAdjustmentPpm) maximumAdjustmentPpm
    (h.qualityAdjustmentPpm + h.latencyAdjustmentPpm policy)

end History

def adaptiveCost (estimatedCost adjustment : ℤ) : ℤ :=
  (estimatedCost * (1000000 + adjustment) + 1000000 - 1) / 1000000

/-- What `candidate_score` returns, next to the names that it was given. -/
structure CandidateScore where
  estimatedCostMicrousd : ℤ
  (attemptCount completedAttempts uncertainAttempts validationCount successfulValidations : ℕ)
  (posteriorQualityMilli qualityAdjustmentPpm : ℤ)
  observedLatencyMs : Option ℤ
  latencySampleCount : ℕ
  latencyTargetMs : Option ℤ
  latencyEvidenceSufficient : Bool
  (maximumLatencyAdjustmentPpm latencyAdjustmentPpm adjustmentPpm adaptiveCostMicrousd : ℤ)

/-- What `candidate_score` may raise. -/
inductive ScoreError where
  | negativeCost
  | urgency
  | latencyHistory

def History.score (h : History) (estimatedCost : ℤ) (urgency : Option String) :
    Except ScoreError CandidateScore :=
  if estimatedCost < 0 then .error .negativeCost
  else if ∃ u ∈ urgency, (latencyPolicy.lookup u).isNone then .error .urgency
  else if ∃ ms ∈ h.completedLatencyMs, ¬(0 ≤ ms ∧ ms ≤ maximumLatencySampleMs) then
    .error .latencyHistory
  else
    let policy := urgency.bind fun u => latencyPolicy.lookup u
    .ok {
      estimatedCostMicrousd := estimatedCost
      attemptCount := h.attemptCount
      completedAttempts := h.completedAttempts
      uncertainAttempts := h.uncertainAttempts
      validationCount := h.validations.length
      successfulValidations := h.successfulValidations
      posteriorQualityMilli := h.posteriorQualityMilli
      qualityAdjustmentPpm := h.qualityAdjustmentPpm
      observedLatencyMs := h.observedLatencyMs
      latencySampleCount := h.completedLatencyMs.length
      latencyTargetMs := policy.map Prod.fst
      latencyEvidenceSufficient := h.latencyEvidenceSufficient
      maximumLatencyAdjustmentPpm := (policy.map Prod.snd).getD 0
      latencyAdjustmentPpm := h.latencyAdjustmentPpm policy
      adjustmentPpm := h.adjustmentPpm policy
      adaptiveCostMicrousd := adaptiveCost estimatedCost (h.adjustmentPpm policy) }

def candidateScore (attempts : List Attempt) (validations : List Validation) (estimatedCost : ℤ)
    (urgency : Option String) : Except ScoreError CandidateScore :=
  (modelPerformanceHistory maximumHistoryRows attempts validations).score estimatedCost urgency

/-! ## Audit -/

/-- A value between two bounds. -/
def between (lo hi v : ℤ) : Bool :=
  lo ≤ v && v ≤ hi

/-- The CHECK constraints of `adaptive_score_audit` on the row of a score and its rank. -/
def auditChecks (s : CandidateScore) (rank : ℤ) : Bool :=
  0 ≤ s.estimatedCostMicrousd && 0 ≤ (s.attemptCount : ℤ) && 0 ≤ (s.completedAttempts : ℤ) &&
    0 ≤ (s.uncertainAttempts : ℤ) && 0 ≤ (s.validationCount : ℤ) &&
    0 ≤ (s.successfulValidations : ℤ) && between 0 1000 s.posteriorQualityMilli &&
    between (-150000) 150000 s.qualityAdjustmentPpm &&
    s.observedLatencyMs.all (between 0 300000) && between 0 500 s.latencySampleCount &&
    s.latencyTargetMs.all (between 1 300000) &&
    between (-150000) 150000 s.latencyAdjustmentPpm && between (-150000) 150000 s.adjustmentPpm &&
    0 ≤ s.adaptiveCostMicrousd && 1 ≤ rank

/-- The rows of `record_adaptive_score_audit`: the scores with their ranks, from one on. -/
def auditRows (scores : List CandidateScore) : List (CandidateScore × ℤ) :=
  (scores.zipIdx 1).map fun r => (r.1, (r.2 : ℤ))

end Adaptive

end OpsOrchestrator
