import OpsControlPlane.Safety.Reservations

/-!
# Tiers of plans

`plans_monotone` says that a chat request that is graver in some respect, and no less grave in any
other, does not start at a lower tier, and `tiers_ascend` that the tiers of a plan ascend.
-/

namespace OpsOrchestrator

variable {F : Type} [Host F]

/-- The order of the floats of a request, none of which is NaN. -/
class LawfulOrder (F : Type) [Host F] : Prop where
  le_trans : ∀ {x y z : F}, x ≤ y → y ≤ z → x ≤ z
  lt_iff_not_le : ∀ {x y : F}, x < y ↔ ¬y ≤ x

def Risk.rank : Risk → ℕ
  | .low => 0
  | .medium => 1
  | .high => 2
  | .critical => 3

/-- The place of a role: tiny, local ops, reasoning, premium. The other roles are in front of
premium, which is the only one that a plan has beside one of them. -/
def Role.tier : Role → ℕ
  | .tiny => 0
  | .localOps => 1
  | .reasoning => 2
  | .premium => 3
  | .coder => 0
  | .embedding => 0
  | .reranker => 0

def IsChat (r : RouteRequest F) : Prop :=
  r.deterministicAvailable = false ∧ r.taskType ∉ [.code, .embed, .rerank]

/-- The second request is the first one with a risk, an impact, a complexity and a context that are
at least as high, and a confidence that is at most as high. -/
structure Graver (r s : RouteRequest F) : Prop where
  same : s = { r with
    risk := s.risk, impact := s.impact, complexity := s.complexity, context := s.context
    confidence := s.confidence }
  risk : r.risk.rank ≤ s.risk.rank
  impact : r.impact ≤ s.impact
  complexity : r.complexity ≤ s.complexity
  context : r.context.characterCount ≤ s.context.characterCount
  confidence : s.confidence ≤ r.confidence

/-! ## The first role -/

def NeedsExpert (cfg : Config F) (r : RouteRequest F) : Prop :=
  r.risk = .high ∨ Host.threeQuarters ≤ r.impact ∨
    cfg.limits.maxContextTokens * 3 / 4 ≤ r.context.estimatedTokens ∨
    r.confidence < cfg.thresholds.mediumConfidence ∨
    cfg.thresholds.complexComplexity ≤ r.complexity ∨
    (r.urgency = .emergency ∧ cfg.thresholds.simpleComplexity < r.complexity)

def IsSimple (cfg : Config F) (r : RouteRequest F) : Prop :=
  cfg.thresholds.highConfidence ≤ r.confidence ∧ r.complexity ≤ cfg.thresholds.simpleComplexity ∧
    r.impact ≤ Host.quarter ∧ r.risk = .low

theorem roles_of_chat (cfg : Config F) {r : RouteRequest F} (h : IsChat r) :
    (r.risk = .critical ∧ (plan cfg r).roles = [.premium]) ∨
    (r.risk ≠ .critical ∧ NeedsExpert cfg r ∧ (plan cfg r).roles = [.reasoning, .premium]) ∨
    (r.risk ≠ .critical ∧ ¬NeedsExpert cfg r ∧ IsSimple cfg r ∧
      (plan cfg r).roles = [.tiny, .localOps, .reasoning, .premium]) ∨
    (r.risk ≠ .critical ∧ ¬NeedsExpert cfg r ∧ ¬IsSimple cfg r ∧
      (plan cfg r).roles = [.localOps, .reasoning, .premium]) := by
  obtain ⟨hdet, htask⟩ := h
  simp only [List.mem_cons, List.not_mem_nil, or_false, not_or] at htask
  unfold plan modelPlan
  rw [if_neg (by simp [hdet]), if_neg htask.2.1, if_neg htask.2.2, if_neg htask.1]
  by_cases hcritical : r.risk = .critical
  · exact .inl ⟨hcritical, by rw [if_pos hcritical]⟩
  refine .inr ?_
  rw [if_neg hcritical]
  by_cases hexpert : NeedsExpert cfg r
  · refine .inl ⟨hcritical, hexpert, ?_⟩
    unfold NeedsExpert at hexpert
    split_ifs <;> first | rfl | (exfalso; tauto)
  refine .inr ?_
  have hnot := hexpert
  simp only [NeedsExpert, not_or] at hnot
  obtain ⟨hhigh, himpact, hcontext, hconfidence, hcomplex, hurgent⟩ := hnot
  rw [if_neg hhigh, if_neg himpact, if_neg hcontext, if_neg hconfidence, if_neg hcomplex,
    if_neg hurgent]
  by_cases hsimple : IsSimple cfg r
  · refine .inl ⟨hcritical, hexpert, hsimple, ?_⟩
    unfold IsSimple at hsimple
    rw [if_pos hsimple]
  · refine .inr ⟨hcritical, hexpert, hsimple, ?_⟩
    unfold IsSimple at hsimple
    rw [if_neg hsimple]

section graver

variable [LawfulOrder F] {cfg : Config F} {r s : RouteRequest F}

theorem Graver.isChat (h : Graver r s) (hr : IsChat r) : IsChat s := by
  rw [h.same]
  exact hr

theorem Graver.needsExpert (h : Graver r s) (hr : NeedsExpert cfg r) (hs : s.risk ≠ .critical) :
    NeedsExpert cfg s := by
  have hlt : ∀ {x y z : F}, x < y → z ≤ x → z < y := fun hxy hzx =>
    LawfulOrder.lt_iff_not_le.2 fun hyz =>
      LawfulOrder.lt_iff_not_le.1 hxy (LawfulOrder.le_trans hyz hzx)
  have hlt' : ∀ {x y z : F}, x < y → y ≤ z → x < z := fun hxy hyz =>
    LawfulOrder.lt_iff_not_le.2 fun hzx =>
      LawfulOrder.lt_iff_not_le.1 hxy (LawfulOrder.le_trans hyz hzx)
  rcases hr with hrisk | himpact | hcontext | hconfidence | hcomplex | ⟨hurgent, hcomplex⟩
  · refine .inl ?_
    have hrank := h.risk
    rw [hrisk] at hrank
    cases hs' : s.risk <;> rw [hs'] at hrank hs <;>
      first | rfl | exact absurd rfl hs | exact absurd hrank (by decide)
  · exact .inr (.inl (LawfulOrder.le_trans himpact h.impact))
  · refine .inr (.inr (.inl (hcontext.trans ?_)))
    have hcount := h.context
    unfold Context.estimatedTokens
    omega
  · exact .inr (.inr (.inr (.inl (hlt hconfidence h.confidence))))
  · exact .inr (.inr (.inr (.inr (.inl (LawfulOrder.le_trans hcomplex h.complexity)))))
  · refine .inr (.inr (.inr (.inr (.inr ⟨?_, hlt' hcomplex h.complexity⟩))))
    rw [h.same]
    exact hurgent

theorem Graver.isSimple (h : Graver r s) (hs : IsSimple cfg s) : IsSimple cfg r := by
  obtain ⟨hconfidence, hcomplexity, himpact, hrisk⟩ := hs
  refine ⟨LawfulOrder.le_trans hconfidence h.confidence,
    LawfulOrder.le_trans h.complexity hcomplexity, LawfulOrder.le_trans h.impact himpact, ?_⟩
  have hrank := h.risk
  rw [hrisk] at hrank
  cases hr : r.risk <;> rw [hr] at hrank <;> first | rfl | exact absurd hrank (by decide)

theorem Graver.tier_le (h : Graver r s) (hr : IsChat r) {a b : Role}
    (ha : (plan cfg r).roles.head? = some a) (hb : (plan cfg s).roles.head? = some b) :
    a.tier ≤ b.tier := by
  rcases roles_of_chat cfg hr with ⟨hcr, hroles⟩ | ⟨hcr, her, hroles⟩ | ⟨hcr, her, hsr, hroles⟩ |
    ⟨hcr, her, hsr, hroles⟩ <;>
  rcases roles_of_chat cfg (h.isChat hr) with ⟨hcs, hroles'⟩ | ⟨hcs, hes, hroles'⟩ |
    ⟨hcs, hes, hss, hroles'⟩ | ⟨hcs, hes, hss, hroles'⟩ <;>
  rw [hroles] at ha <;> rw [hroles'] at hb <;> obtain rfl := Option.some.inj ha <;>
  obtain rfl := Option.some.inj hb <;> first
    | decide
    | exact absurd (h.needsExpert her hcs) hes
    | exact absurd (h.isSimple hss) hsr
    | (have hrank := h.risk
       rw [hcr] at hrank
       cases hs : s.risk <;> rw [hs] at hrank hcs <;>
         first | exact absurd rfl hcs | exact absurd hrank (by decide))

end graver

theorem tiers_ascend (cfg : Config F) (r : RouteRequest F) :
    (plan cfg r).roles.Pairwise fun a b => a.tier < b.tier := by
  by_cases hchat : IsChat r
  · rcases roles_of_chat cfg hchat with ⟨-, h⟩ | ⟨-, -, h⟩ | ⟨-, -, -, h⟩ | ⟨-, -, -, h⟩ <;>
      rw [h] <;> decide
  cases hdet : r.deterministicAvailable with
  | true =>
    unfold plan
    rw [if_pos hdet]
    exact .nil
  | false =>
    have htask : r.taskType ∈ [TaskType.code, .embed, .rerank] := by
      by_contra hnot
      exact hchat ⟨hdet, hnot⟩
    unfold plan modelPlan
    rw [if_neg (by simp [hdet])]
    simp only [List.mem_cons, List.not_mem_nil, or_false] at htask
    have hcoder : Role.coder.tier < Role.premium.tier := by decide
    rcases htask with h | h | h <;> rw [h] <;> simp [hcoder]

/-- A graver chat request does not start at a lower tier, and the roles of every plan ascend without
repetition. -/
theorem plans_monotone [LawfulOrder F] (cfg : Config F) :
    (∀ r s : RouteRequest F, IsChat r → Graver r s → ∃ a b, (plan cfg r).roles.head? = some a ∧
      (plan cfg s).roles.head? = some b ∧ a.tier ≤ b.tier) ∧
    ∀ r : RouteRequest F, ((plan cfg r).roles.Pairwise fun a b => a.tier < b.tier) ∧
      (plan cfg r).roles.Nodup := by
  have hhead : ∀ r : RouteRequest F, IsChat r → ∃ a, (plan cfg r).roles.head? = some a := by
    intro r hr
    rcases roles_of_chat cfg hr with ⟨-, h⟩ | ⟨-, -, h⟩ | ⟨-, -, -, h⟩ | ⟨-, -, -, h⟩ <;>
      exact ⟨_, by rw [h]; rfl⟩
  refine ⟨fun r s hr hs => ?_, fun r => ⟨tiers_ascend cfg r, ?_⟩⟩
  · obtain ⟨a, ha⟩ := hhead r hr
    obtain ⟨b, hb⟩ := hhead s (hs.isChat hr)
    exact ⟨a, b, ha, hb, hs.tier_le hr ha hb⟩
  · refine (tiers_ascend cfg r).imp fun {a b} h heq => ?_
    rw [heq] at h
    exact lt_irrefl _ h

namespace Sample

instance lawfulOrder_quarters : LawfulOrder ℤ where
  le_trans h h' := Int.le_trans h h'
  lt_iff_not_le := Int.not_le.symm

/-- A request that a tiny model may take. -/
def simple : RouteRequest ℤ :=
  { critical with risk := .low, impact := 1, complexity := 0 }

theorem plans_monotone_sample : (plan config simple).roles.head? = some .tiny ∧
    (plan config critical).roles.head? = some .premium ∧
    ∃ a b, (plan config simple).roles.head? = some a ∧
      (plan config critical).roles.head? = some b ∧ a.tier ≤ b.tier :=
  ⟨by decide, by decide, (plans_monotone config).1 simple critical ⟨rfl, by decide⟩
    ⟨rfl, by decide, by decide, by decide, le_rfl, le_rfl⟩⟩

end Sample

end OpsOrchestrator
