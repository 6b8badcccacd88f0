import OpsControlPlane.Orchestrator.Prices
import OpsControlPlane.Safety.Caps

/-!
# Reserved cost covers actual cost

The tiers that the configuration accepts ascend in both prices, so that the price of a prompt does
not fall with its size (`tierPrices_mono`). A granted reservation is small enough for the decimal
numbers of the host to be exact, and so its cost is the rational cost, rounded up, and covers every
usage within it (`reserved_cost_covers`).
-/

namespace OpsOrchestrator

open Text JsonText Decimals Rounding Calls Transaction Calendar

variable {F : Type}

/-! ## Fields -/

variable {label : String} {n : ℤ}

theorem integer_ok {value : Option (Json F)} {lo hi : ℤ} (h : integer value label lo hi = .ok n) :
    lo ≤ n ∧ n ≤ hi := by
  unfold integer at h
  split at h
  · split_ifs at h with hn
    obtain rfl := Except.ok.inj h
    exact hn
  · cases h

variable {u : Unicode}

/-- An accepted amount is at most a million dollars. -/
theorem usdToMicrousd_ok {value : Option (Json F)} {requirePositive : Bool}
    (h : usdToMicrousd u value label requirePositive = .ok n) : 0 ≤ n ∧ n ≤ 10 ^ 12 := by
  unfold usdToMicrousd at h
  split at h
  · split at h
    · cases h
    · next neg coeff exp _ =>
      dsimp only at h
      split_ifs at h with hrange hdiv
      obtain rfl := Except.ok.inj h
      have hbound : coeff * 10 ^ exp.toNat ≤ 1000000 * 10 ^ (-exp).toNat :=
        not_lt.1 fun hno => hrange (.inr hno)
      have hle : significant precision (coeff * 10 ^ 6) * 10 ^ exp.toNat ≤
          10 ^ 12 * 10 ^ (-exp).toNat := by
        rcases le_or_gt 0 exp with hexp | hexp
        · have hzero : (-exp).toNat = 0 := by omega
          rw [hzero, pow_zero, Nat.mul_one] at hbound ⊢
          have hone : 1 ≤ 10 ^ exp.toNat := Nat.one_le_pow _ _ (by decide)
          have hcoeff : coeff ≤ 1000000 := le_trans (Nat.le_mul_of_pos_right coeff hone) hbound
          rw [significant_of_lt (by decide) (by unfold precision; omega)]
          calc coeff * 10 ^ 6 * 10 ^ exp.toNat = coeff * 10 ^ exp.toNat * 10 ^ 6 := by ring
            _ ≤ 1000000 * 10 ^ 6 := Nat.mul_le_mul_right _ hbound
            _ = 10 ^ 12 := by norm_num
        · have hzero : exp.toNat = 0 := by omega
          rw [hzero, pow_zero, Nat.mul_one] at hbound ⊢
          have hpow : coeff * 10 ^ 6 ≤ 10 ^ (12 + (-exp).toNat) := by
            calc coeff * 10 ^ 6 ≤ 1000000 * 10 ^ (-exp).toNat * 10 ^ 6 :=
                Nat.mul_le_mul_right _ hbound
              _ = 10 ^ (12 + (-exp).toNat) := by rw [pow_add]; ring
          rw [← pow_add]
          exact significant_le_pow (by decide) hpow
      refine ⟨Int.natCast_nonneg _, ?_⟩
      have hquot := Nat.div_le_of_le_mul
        (hle.trans_eq (Nat.mul_comm (10 ^ 12) (10 ^ (-exp).toNat)))
      exact_mod_cast hquot
    · cases h
  · cases h

/-! ## Tiers -/

structure PriceTier.Below (s t : PriceTier) : Prop where
  maximum : s.maxInputTokens < t.maxInputTokens
  input : s.inputPriceMicrousdPerMillion ≤ t.inputPriceMicrousdPerMillion
  output : s.outputPriceMicrousdPerMillion ≤ t.outputPriceMicrousdPerMillion

variable {t previous : PriceTier}

theorem PriceTier.Below.trans {s v : PriceTier} (h : s.Below t) (h' : t.Below v) : s.Below v :=
  ⟨h.maximum.trans h'.maximum, h.input.trans h'.input, h.output.trans h'.output⟩

structure PriceTier.Bounded (t : PriceTier) : Prop where
  input : 0 ≤ t.inputPriceMicrousdPerMillion ∧ t.inputPriceMicrousdPerMillion ≤ 10 ^ 12
  output : 0 ≤ t.outputPriceMicrousdPerMillion ∧ t.outputPriceMicrousdPerMillion ≤ 10 ^ 12

def Ascending (previous : PriceTier) (tiers : List PriceTier) : Prop :=
  (previous :: tiers).Pairwise PriceTier.Below ∧ ∀ t ∈ tiers, t.Bounded

variable {tiers : List PriceTier}

theorem Ascending.cons (h : previous.Below t) (ht : t.Bounded) (hs : Ascending t tiers) :
    Ascending previous (t :: tiers) := by
  refine ⟨List.pairwise_cons.2 ⟨fun v hv => ?_, hs.1⟩, List.forall_mem_cons.2 ⟨ht, hs.2⟩⟩
  rcases List.mem_cons.1 hv with rfl | hv
  · exact h
  · exact h.trans ((List.pairwise_cons.1 hs.1).1 v hv)

theorem parseTiers_ok {entries : List (Json F)} {index : ℕ}
    (h : parseTiers u label previous index entries = .ok tiers) : Ascending previous tiers := by
  induction entries generalizing previous index tiers with
  | nil =>
    obtain rfl := Except.ok.inj h
    exact ⟨List.pairwise_singleton _ _, fun _ hno => absurd hno List.not_mem_nil⟩
  | cons entry rest ih =>
    cases entry with
    | obj entry =>
      obtain ⟨_, -, h⟩ := bind_eq_ok.1 h
      obtain ⟨maximum, -, h⟩ := bind_eq_ok.1 h
      split_ifs at h with hmaximum
      obtain ⟨inputPrice, hinput, h⟩ := bind_eq_ok.1 h
      obtain ⟨outputPrice, houtput, h⟩ := bind_eq_ok.1 h
      split_ifs at h with hprices
      obtain ⟨others, hothers, h⟩ := bind_eq_ok.1 h
      obtain rfl := Except.ok.inj h
      refine .cons ⟨not_le.1 hmaximum, ?_, ?_⟩ ⟨usdToMicrousd_ok hinput, usdToMicrousd_ok houtput⟩
        (ih hothers)
      · exact not_lt.1 fun hno => hprices (.inl hno)
      · exact not_lt.1 fun hno => hprices (.inr hno)
    | _ => cases h

theorem parsePriceTiers_ok {value : Json F} (h : parsePriceTiers u value label = .ok tiers) :
    Ascending ⟨0, 0, 0⟩ tiers := by
  cases value with
  | null =>
    obtain rfl := Except.ok.inj h
    exact ⟨List.pairwise_singleton _ _, fun _ hno => absurd hno List.not_mem_nil⟩
  | arr entries =>
    rw [parsePriceTiers] at h
    split_ifs at h
    exact parseTiers_ok h
  | _ => cases h

theorem find_mono (hs : tiers.Pairwise PriceTier.Below) {n' : ℤ} (hle : n' ≤ n)
    (ht : (tiers.find? fun t => n ≤ t.maxInputTokens) = some t) :
    ∃ t', (tiers.find? fun t => n' ≤ t.maxInputTokens) = some t' ∧ (t' = t ∨ t'.Below t) := by
  induction tiers with
  | nil => cases ht
  | cons v tiers ih =>
    obtain ⟨hv, hs⟩ := List.pairwise_cons.1 hs
    by_cases hn : n ≤ v.maxInputTokens
    · rw [List.find?_cons_of_pos (by simpa using hn)] at ht
      refine ⟨v, List.find?_cons_of_pos (by simpa using hle.trans hn), .inl ?_⟩
      exact Option.some.inj ht
    · rw [List.find?_cons_of_neg (by simpa using hn)] at ht
      by_cases hn' : n' ≤ v.maxInputTokens
      · refine ⟨v, List.find?_cons_of_pos (by simpa using hn'), .inr ?_⟩
        exact hv t (List.mem_of_find?_eq_some ht)
      · obtain ⟨t', ht', hbelow⟩ := ih hs ht
        exact ⟨t', by rw [List.find?_cons_of_neg (by simpa using hn'), ht'], hbelow⟩

variable {prices : Prices}

/-- What the prices of a prompt are: those of a bounded tier, and no lower than those of a smaller
prompt. -/
theorem tierPrices_mono {providerId : String} (hs : Ascending previous tiers)
    (h : tierPrices providerId tiers (some n) = .ok prices) :
    (0 ≤ prices.1 ∧ prices.1 ≤ 10 ^ 12) ∧ (0 ≤ prices.2 ∧ prices.2 ≤ 10 ^ 12) ∧
    ∀ n', 0 ≤ n' → n' ≤ n → ∃ prices', tierPrices providerId tiers (some n') = .ok prices' ∧
      (0 ≤ prices'.1 ∧ prices'.1 ≤ prices.1) ∧ 0 ≤ prices'.2 ∧ prices'.2 ≤ prices.2 := by
  unfold tierPrices at h
  dsimp only at h
  split_ifs at h with hneg
  split at h
  · cases h
  · next t ht =>
    obtain rfl := Except.ok.inj h
    have hbounded := hs.2 t (List.mem_of_find?_eq_some ht)
    refine ⟨hbounded.input, hbounded.output, fun n' hpos hle => ?_⟩
    obtain ⟨t', ht', hbelow⟩ := find_mono (List.pairwise_cons.1 hs.1).2 hle ht
    have hbounded' := hs.2 t' (List.mem_of_find?_eq_some ht')
    refine ⟨(t'.inputPriceMicrousdPerMillion, t'.outputPriceMicrousdPerMillion), ?_, ?_⟩
    · unfold tierPrices
      dsimp only
      rw [if_neg (not_lt.2 hpos), ht']
    · rcases hbelow with rfl | hbelow
      · exact ⟨⟨hbounded'.input.1, le_rfl⟩, hbounded'.output.1, le_rfl⟩
      · exact ⟨⟨hbounded'.input.1, hbelow.input⟩, hbounded'.output.1, hbelow.output⟩

/-! ## Costs -/

/-- The price of the tokens in the decimal numbers of the host is exact, if it has few digits. -/
theorem decimalCost_eq {inputTokens outputTokens : ℤ} (hi : 0 ≤ inputTokens) (ho : 0 ≤ outputTokens)
    (hp : 0 ≤ prices.1) (hq : 0 ≤ prices.2)
    (h : inputTokens * prices.1 + outputTokens * prices.2 < 10 ^ 28) :
    decimalCost inputTokens.toNat outputTokens.toNat prices.1.toNat prices.2.toNat =
      some (estimatedCostMicrousd inputTokens outputTokens prices).toNat := by
  obtain ⟨p, q⟩ := prices
  lift inputTokens to ℕ using hi with i
  lift outputTokens to ℕ using ho with o
  lift p to ℕ using hp with p
  lift q to ℕ using hq with q
  have h : i * p + o * q < 10 ^ 28 := by
    zify
    exact h
  have hcost : (i * p + o * q + 999999) / 1000000 < 10 ^ 28 := by
    generalize i * p + o * q = n at h
    omega
  simp only [decimalCost, precision, Int.toNat_natCast]
  have hinput : significant 28 (i * p) = i * p :=
    significant_of_lt (p := 28) (by decide) (lt_of_le_of_lt (Nat.le_add_right (i * p) (o * q)) h)
  have houtput : significant 28 (o * q) = o * q :=
    significant_of_lt (p := 28) (by decide) (lt_of_le_of_lt (Nat.le_add_left (o * q) (i * p)) h)
  have hsum : significant 28 (i * p + o * q) = i * p + o * q :=
    significant_of_lt (p := 28) (by decide) h
  simp only [hinput, houtput, hsum, if_pos hcost]
  refine congrArg some ?_
  have hcast : estimatedCostMicrousd i o (p, q) =
    (((i * p + o * q + 999999) / 1000000 : ℕ) : ℤ) := by
    simp only [estimatedCostMicrousd]
    push_cast
    rfl
  rw [hcast, Int.toNat_natCast]

theorem estimatedCost_ceil (inputTokens outputTokens : ℤ) (prices : Prices) :
    estimatedCostMicrousd inputTokens outputTokens prices =
      ⌈((inputTokens * prices.1 + outputTokens * prices.2 : ℤ) : ℚ) / 1000000⌉ := by
  unfold estimatedCostMicrousd
  generalize inputTokens * prices.1 + outputTokens * prices.2 = n
  symm
  rw [Int.ceil_eq_iff, lt_div_iff₀ (by norm_num), div_le_iff₀ (by norm_num)]
  constructor
  · have hlt : ((n + 999999) / 1000000 - 1) * 1000000 < n := by omega
    exact_mod_cast hlt
  · have hle : n ≤ (n + 999999) / 1000000 * 1000000 := by omega
    exact_mod_cast hle

theorem estimatedCost_mono {i i' o o' : ℤ} {prices' : Prices} (hi : 0 ≤ i') (hle : i' ≤ i)
    (ho : 0 ≤ o') (hle' : o' ≤ o) (hp : 0 ≤ prices'.1 ∧ prices'.1 ≤ prices.1)
    (hq : 0 ≤ prices'.2 ∧ prices'.2 ≤ prices.2) :
    estimatedCostMicrousd i' o' prices' ≤ estimatedCostMicrousd i o prices := by
  have hinput := mul_le_mul hle hp.2 hp.1 (hi.trans hle)
  have houtput := mul_le_mul hle' hq.2 hq.1 (ho.trans hle')
  exact Int.ediv_le_ediv (by norm_num) (by linarith)

theorem parseBudget_ok {value : Json F} {limits : BudgetLimits}
    (h : parseBudget u value label = .ok limits) : limits.dailyTokens ≤ 10000000000 := by
  cases value with
  | obj value =>
    obtain ⟨_, -, h⟩ := bind_eq_ok.1 h
    obtain ⟨_, -, h⟩ := bind_eq_ok.1 h
    obtain ⟨_, -, h⟩ := bind_eq_ok.1 h
    obtain ⟨dailyTokens, hdaily, h⟩ := bind_eq_ok.1 h
    obtain ⟨_, -, h⟩ := bind_eq_ok.1 h
    obtain ⟨_, -, h⟩ := bind_eq_ok.1 h
    obtain ⟨_, -, h⟩ := bind_eq_ok.1 h
    obtain ⟨_, -, h⟩ := bind_eq_ok.1 h
    split_ifs at h
    obtain rfl := Except.ok.inj h
    exact (integer_ok hdaily).2
  | _ => cases h

/-! ## Rows -/

section rows

variable {budgets : List (String × ProviderAccountBudget)}
    {ms : List (Moment (ledgerSystem budgets))}
  {s : State (ledgerSystem budgets)} {rows rows' : Ledger} {x : DateTime}

theorem completeTx_nonneg {a : CompleteArgs} {r : Unit} (h : completeTx a x rows = .ok (r, rows')) :
    0 ≤ a.inputTokens ∧ 0 ≤ a.outputTokens := by
  have hspec : (completeTx a).wp x rows (fun _ _ => 0 ≤ a.inputTokens ∧ 0 ≤ a.outputTokens)
      fun _ => True := by
    simp only [completeTx, Txn.wp_bind, Txn.wp_query, Txn.wp_demand, Txn.wp_env, Txn.wp_modify]
    refine ⟨fun _ => ⟨fun hcheck => ⟨fun hone => ?_, fun _ => trivial⟩, fun _ => trivial⟩,
      fun _ => trivial⟩
    obtain ⟨hi, ho, -⟩ := hcheck.resolve_left (by omega)
    exact ⟨hi, ho⟩
  exact hspec.ok h

theorem uncertainTx_nonneg {a : UncertainArgs} {r : Unit}
    (h : uncertainTx a x rows = .ok (r, rows')) : 0 ≤ a.retainedInput ∧ 0 ≤ a.retainedOutput := by
  have hspec : (uncertainTx a).wp x rows (fun _ _ => 0 ≤ a.retainedInput ∧ 0 ≤ a.retainedOutput)
      fun _ => True := by
    simp only [uncertainTx, Txn.wp_bind, Txn.wp_query, Txn.wp_demand, Txn.wp_env, Txn.wp_modify]
    refine ⟨fun _ => ⟨fun hcheck => ⟨fun hone => ?_, fun _ => trivial⟩, fun _ => trivial⟩,
      fun _ => trivial⟩
    obtain ⟨hi, ho, -⟩ := hcheck.resolve_left (by omega)
    exact ⟨hi, ho⟩
  exact hspec.ok h

/-- No row counts less than nothing. -/
theorem tokens_nonneg (hr : Run (emptyLedger budgets) ms s) : ∀ r ∈ s.store, 0 ≤ r.tokens := by
  induction hr with
  | start => exact fun _ hno => absurd hno List.not_mem_nil
  | @step ms s s' mv _ h ih =>
    have hupdate : ∀ (p : ReservationRow → Bool) (f : ReservationRow → ReservationRow),
        (∀ r, 0 ≤ (f r).tokens) → ∀ r ∈ update p f s.store, 0 ≤ r.tokens := by
      intro p f hf r hr
      obtain ⟨q, hq, rfl⟩ := mem_update.1 hr
      split_ifs
      · exact hf q
      · exact ih q hq
    rcases moment_ledger h with heq | ⟨tx, x, hc⟩
    · rw [heq]
      exact ih
    cases tx with
    | reserve a =>
      obtain ⟨hchecked, hrows⟩ := hc.reserve
      rw [show s'.store = s.store ++ [a.row x] from hrows]
      intro r hr
      rcases List.mem_append.1 hr with hr | hr
      · exact ih r hr
      · obtain rfl := List.mem_singleton.1 hr
        have htokens : (a.row x).tokens = a.inputTokens + a.maxOutputTokens := rfl
        rw [htokens]
        exact add_nonneg hchecked.nonneg.1 hchecked.nonneg.2
    | complete a =>
      obtain ⟨r, hrun⟩ := hc.run
      obtain ⟨hi, ho⟩ := completeTx_nonneg (a := a) hrun
      rw [show s'.store = _ from hc.complete.2]
      refine hupdate _ _ fun q => ?_
      have htokens : (a.apply x q).tokens = a.inputTokens + a.outputTokens := rfl
      rw [htokens]
      exact add_nonneg hi ho
    | markUncertain a =>
      obtain ⟨r, hrun⟩ := hc.run
      obtain ⟨hi, ho⟩ := uncertainTx_nonneg (a := a) hrun
      rw [show s'.store = _ from hc.markUncertain.2]
      refine hupdate _ _ fun q => ?_
      have htokens : (a.apply x q).tokens = a.retainedInput + a.retainedOutput := rfl
      rw [htokens]
      exact add_nonneg hi ho

theorem aggregate_nonneg (h : ∀ r ∈ rows, 0 ≤ r.tokens) (p : ReservationRow → Bool) :
    0 ≤ (aggregate p rows).tokens := by
  refine List.sum_nonneg fun n hn => ?_
  obtain ⟨r, hr, rfl⟩ := List.mem_map.1 hn
  exact h r (List.mem_of_mem_filter hr)

variable {a : ReserveArgs}

theorem granted_tokens {l : List (Moment (ledgerSystem budgets))}
    {m : Moment (ledgerSystem budgets)} {t : DateTime} (hr : Run (emptyLedger budgets) l m.before)
    (hreserve : Commits m (.reserve a) t) : 0 ≤ a.inputTokens ∧ 0 ≤ a.maxOutputTokens ∧
      a.inputTokens + a.maxOutputTokens ≤ a.provider.budget.dailyTokens := by
  obtain ⟨hchecked, -⟩ := hreserve.reserve
  have hday : (aggregate ((Owner.provider a.provider.providerId).during .day a.now)
      m.before.store).tokens + a.inputTokens + a.maxOutputTokens ≤
        a.provider.budget.dailyTokens := (hchecked.provider .day).tokens
  have hrest := aggregate_nonneg (tokens_nonneg hr)
    ((Owner.provider a.provider.providerId).during .day a.now)
  exact ⟨hchecked.nonneg.1, hchecked.nonneg.2, by linarith⟩

theorem retain_charge {r : ReservationRow} (hopen : openCall a.callId r = true)
    (hheld : r.reservedInputTokens = a.inputTokens ∧ r.reservedOutputTokens = a.maxOutputTokens ∧
      r.reservedCostMicrousd = a.reservedCost) (errorCode : String)
    (inputTokens outputTokens : Option ℤ) (prices : Option Prices) (t : DateTime) :
    r.cost ≤ ((retain a.reservation errorCode inputTokens outputTokens prices).apply t r).cost ∧
      r.tokens ≤
        ((retain a.reservation errorCode inputTokens outputTokens prices).apply t r).tokens := by
  have hstatus : r.status ≠ .completed := by
    rw [(of_decide_eq_true hopen).2]
    decide
  have hcost : r.cost = a.reservedCost := by
    rw [ReservationRow.cost, if_neg hstatus, hheld.2.2]
  have htokens : r.tokens = a.inputTokens + a.maxOutputTokens := by
    rw [ReservationRow.tokens, if_neg hstatus, hheld.1, hheld.2.1]
  rw [hcost, htokens]
  refine ⟨?_, add_le_add (le_max_left _ _) (le_max_left _ _)⟩
  cases prices with
  | none => exact le_rfl
  | some p => exact le_max_left _ _

theorem retainedCharge_le {r : Reservation} {inputTokens outputTokens : Option ℤ}
    {prices : Option Prices} {c : ℤ}
    (h : retainedCharge r inputTokens outputTokens prices = some c) :
    r.reservedCostMicrousd ≤ c := by
  cases prices with
  | none => exact (Option.some.inj h).le
  | some p =>
    obtain ⟨n, -, rfl⟩ := Option.map_eq_some_iff.1 h
    exact le_max_left _ _

/-- The cost of so many tokens in the decimal numbers of the host is the rational cost, rounded
up. -/
def ExactCost (inputTokens outputTokens : ℤ) (prices : Prices) : Prop :=
  decimalCost inputTokens.toNat outputTokens.toNat prices.1.toNat prices.2.toNat =
      some (estimatedCostMicrousd inputTokens outputTokens prices).toNat ∧
    estimatedCostMicrousd inputTokens outputTokens prices =
      ⌈((inputTokens * prices.1 + outputTokens * prices.2 : ℤ) : ℚ) / 1000000⌉

theorem exactCost {i o : ℤ} {prices : Prices} (hi : 0 ≤ i ∧ i ≤ 10000000000)
    (ho : 0 ≤ o ∧ o ≤ 10000000000) (hp : 0 ≤ prices.1 ∧ prices.1 ≤ 10 ^ 12)
    (hq : 0 ≤ prices.2 ∧ prices.2 ≤ 10 ^ 12) : ExactCost i o prices := by
  have hinput := mul_le_mul hi.2 hp.2 hp.1 (by norm_num)
  have houtput := mul_le_mul ho.2 hq.2 hq.1 (by norm_num)
  refine ⟨decimalCost_eq hi.1 ho.1 hp.1 hq.1 ?_, estimatedCost_ceil i o prices⟩
  calc i * prices.1 + o * prices.2 ≤ 10000000000 * 10 ^ 12 + 10000000000 * 10 ^ 12 :=
      add_le_add hinput houtput
    _ < 10 ^ 28 := by norm_num

/-- A reservation that is granted at the price of its prompt, to a provider with accepted tiers and
an accepted budget. The costs are exact, and a usage within the reservation costs no more at the
price of the actual prompt, in what `complete` records. What is retained of the reservation lowers
no charge. -/
theorem reserved_cost_covers (hr : Run (emptyLedger budgets) ms s)
    {l l' : List (Moment (ledgerSystem budgets))} {m : Moment (ledgerSystem budgets)}
    (hms : ms = l ++ m :: l') {a : ReserveArgs} {t : DateTime} (hreserve : Commits m (.reserve a) t)
    {u : Unicode} {tiersValue budgetValue : Json F} {tiersLabel budgetLabel : String}
    (htiers : parsePriceTiers u tiersValue tiersLabel = .ok a.provider.priceTiers)
    (hbudget : parseBudget u budgetValue budgetLabel = .ok a.provider.budget)
    (hprices : tierPrices a.provider.providerId a.provider.priceTiers (some a.inputTokens) =
      .ok a.prices) :
    ExactCost a.inputTokens a.maxOutputTokens a.prices ∧
    (∀ i o, 0 ≤ i ∧ i ≤ a.inputTokens → 0 ≤ o ∧ o ≤ a.maxOutputTokens → ∃ prices,
      tierPrices a.provider.providerId a.provider.priceTiers (some i) = .ok prices ∧
      ExactCost i o prices ∧ estimatedCostMicrousd i o prices ≤ a.reservedCost ∧
      complete a.reservation i o prices = (do
        commitTx (.complete ⟨a.callId, i, o, estimatedCostMicrousd i o prices⟩)
        return estimatedCostMicrousd i o prices)) ∧
    ∀ errorCode inputTokens outputTokens prices,
      (∀ c ∈ retainedCharge a.reservation inputTokens outputTokens prices, a.reservedCost ≤ c) ∧
      ∀ m' ∈ l', ∀ r ∈ m'.before.store, openCall a.callId r = true → ∀ t',
        r.cost ≤
          ((retain a.reservation errorCode inputTokens outputTokens prices).apply t' r).cost ∧
        r.tokens ≤
          ((retain a.reservation errorCode inputTokens outputTokens prices).apply t' r).tokens := by
  subst hms
  obtain ⟨hbefore, hstep, hafter⟩ := hr.around
  obtain ⟨hi, ho, htokens⟩ := granted_tokens hbefore hreserve
  have hdaily := parseBudget_ok hbudget
  obtain ⟨hp, hq, hmono⟩ := tierPrices_mono (parsePriceTiers_ok htiers) hprices
  refine ⟨exactCost ⟨hi, by linarith⟩ ⟨ho, by linarith⟩ hp hq, fun i o hile hole => ?_,
    fun errorCode inputTokens outputTokens prices => ⟨fun c hc => retainedCharge_le hc,
      fun m' hm' r hmem hopen t' => ?_⟩⟩
  · obtain ⟨prices, htier, hp', hq'⟩ := hmono i hile.1 hile.2
    refine ⟨prices, htier, exactCost ⟨hile.1, by linarith⟩ ⟨hole.1, by linarith⟩
      ⟨hp'.1, hp'.2.trans hp.2⟩ ⟨hq'.1, hq'.2.trans hq.2⟩,
      estimatedCost_mono hile.1 hile.2 hole.1 hole.2 hp' hq', ?_⟩
    rw [complete, if_neg (by omega)]
    rfl
  · obtain ⟨l₁, l₂, rfl, hrun, -⟩ := hafter.of_mem hm'
    have hwhole := (hbefore.step hstep).trans hrun
    have hrec := grants_recorded hwhole m (by simp) a t hreserve
    exact retain_charge hopen (hrec.held r hmem hopen) errorCode inputTokens outputTokens prices t'

end rows

end OpsOrchestrator

namespace OpsOrchestrator.Sample

open JsonText Decimals Calls

theorem id_of_ascii (c : Char) (_ : c.toNat < 128) : id c = id c :=
  rfl

/-- A host that knows no characters outside ASCII. -/
def asciiOnly : Unicode :=
  ⟨id, id_of_ascii⟩

def tiersValue : Json Unit :=
  .arr [.obj [("max_input_tokens", .int 1000), ("input_price_per_million_usd", .str "0.000005"),
      ("output_price_per_million_usd", .str "0.00002")],
    .obj [("max_input_tokens", .int 2000000), ("input_price_per_million_usd", .str "0.00001"),
      ("output_price_per_million_usd", .str "0.00002")]]

def budgetValue : Json Unit :=
  .obj [("daily_calls", .int 1), ("monthly_calls", .int 9), ("daily_tokens", .int 9000000),
    ("monthly_tokens", .int 9000000), ("daily_cost_usd", .str "0.00009"),
    ("monthly_cost_usd", .str "0.00009"), ("mission_cost_usd", .str "0.00001")]

def tiered : ProviderConfig :=
  { provider "p" with priceTiers := [⟨1000, 5, 20⟩, ⟨2000000, 10, 20⟩] }

/-- A reservation at the price of the second tier. -/
def tieredCall : List (Move (ledgerSystem budgets)) :=
  [.spawn (.reserve ⟨"route", "a", tiered, "model", "sample", 1000000, 0, none, (10, 20), none⟩),
    act 0 (instant 1 1) "", act 0 (instant 1 2) "a"]

theorem tiered_granted : ∃ s ∈ (emptyLedger budgets).exec tieredCall,
    ∃ s' ∈ s.step (act 0 (instant 1 3) ""),
      ∃ g ∈ granting s (act 0 (instant 1 3) ""), g.1.provider = tiered ∧
        g.1.inputTokens = 1000000 ∧ g.1.maxOutputTokens = 0 ∧ g.1.prices = (10, 20) := by
  decide +kernel

theorem tiered_accepted : (parsePriceTiers asciiOnly tiersValue "tiers").toOption =
      some tiered.priceTiers ∧
    (parseBudget asciiOnly budgetValue "budget").toOption = some tiered.budget ∧
    (tierPrices tiered.providerId tiered.priceTiers (some 1000000)).toOption = some (10, 20) := by
  decide +kernel

theorem ok_of_toOption {ε α : Type} {r : Except ε α} {a : α} (h : r.toOption = some a) :
    r = .ok a := by
  cases r with
  | ok b => exact congrArg Except.ok (Option.some.inj h)
  | error e => cases h

/-- A prompt of the first tier costs no more than what was reserved in the second. -/
theorem reserved_cost_covers_sample : ∃ a : ReserveArgs, a.provider = tiered ∧
    ∃ prices, tierPrices a.provider.providerId a.provider.priceTiers (some 900) = .ok prices ∧
      estimatedCostMicrousd 900 0 prices ≤ a.reservedCost := by
  obtain ⟨s, hs, s', hs', ⟨a, x⟩, hg, hprovider, hin, hout, hprices⟩ := tiered_granted
  dsimp only at hprovider hin hout hprices
  obtain ⟨ms, hr, -⟩ := Run.of_exec hs
  have hcommits := commits_of_granting hs' hg
  obtain ⟨htiers, hbudget, htier⟩ := tiered_accepted
  have hpaid : tierPrices a.provider.providerId a.provider.priceTiers (some a.inputTokens) =
      .ok a.prices := by
    rw [hprovider, hin, hprices]
    exact ok_of_toOption htier
  obtain ⟨-, hcovers, -⟩ := reserved_cost_covers (hr.step hs') rfl hcommits
    (by rw [hprovider]; exact ok_of_toOption htiers)
    (by rw [hprovider]; exact ok_of_toOption hbudget) hpaid
  obtain ⟨prices, hprice, -, hle, -⟩ := hcovers 900 0 (by rw [hin]; decide) (by rw [hout]; decide)
  exact ⟨a, hprovider, prices, hprice, hle⟩

end OpsOrchestrator.Sample
