import OpsControlPlane.Lib.Decimals
import OpsControlPlane.Lib.Rounding
import OpsControlPlane.Orchestrator.Ledger

/-!
# Prices and budgets of the configuration

`_parse_price_tiers` and `_parse_budget` of `config.py`, the selection of a tier, and
`estimated_cost_microusd` in the decimal numbers of the host, which keep 28 significant digits.
-/

namespace OpsOrchestrator

open Text JsonText Decimals Rounding

variable {F : Type}

/-! ## Fields -/

def strictKeys (value : List (String × Json F)) (allowed : List String) (label : String) :
    Except Exc Unit :=
  let unexpected := ((keys value).filter fun k => k ∉ allowed).insertionSort (· ≤ ·)
  if unexpected = [] then .ok ()
  else .error (.configuration ("unknown " ++ label ++ " fields: " ++
    String.intercalate ", " unexpected))

def integer (value : Option (Json F)) (label : String) (minimum maximum : ℤ) : Except Exc ℤ :=
  match value with
  | some (.int n) =>
    if minimum ≤ n ∧ n ≤ maximum then .ok n
    else .error (.configuration (label ++ " must be an integer between " ++ toString minimum ++
      " and " ++ toString maximum))
  | _ => .error (.configuration (label ++ " must be an integer between " ++ toString minimum ++
      " and " ++ toString maximum))

def precision : ℕ := 28

def belowMinimum (requirePositive neg : Bool) (coeff : ℕ) (exp : ℤ) : Bool :=
  if requirePositive then neg || coeff * 10 ^ 6 * 10 ^ exp.toNat < 10 ^ (-exp).toNat
  else neg && coeff ≠ 0

/-- `_usd_to_microusd`. The product with a million is rounded to the precision. -/
def usdToMicrousd (u : Unicode) (value : Option (Json F)) (label : String)
    (requirePositive : Bool) : Except Exc ℤ :=
  match value with
  | some (.str s) =>
    match ofText u s with
    | none => .error (.configuration (label ++ " is not a decimal"))
    | some (.finite neg coeff exp) =>
      let scaled := significant precision (coeff * 10 ^ 6)
      if belowMinimum requirePositive neg coeff exp = true ∨ above 1000000 coeff exp then
        .error (.configuration (label ++ " is outside the accepted range"))
      else if ¬10 ^ (-exp).toNat ∣ scaled then
        .error (.configuration (label ++ " supports at most six decimal places"))
      else .ok (scaled * 10 ^ exp.toNat / 10 ^ (-exp).toNat : ℕ)
    | some _ => .error (.configuration (label ++ " must be finite"))
  | _ => .error (.configuration (label ++ " must be a decimal string"))

/-! ## Tiers -/

def parseTiers (u : Unicode) (label : String) :
    PriceTier → ℕ → List (Json F) → Except Exc (List PriceTier)
  | _, _, [] => .ok []
  | previous, index, entry :: rest =>
    let entryLabel := label ++ "[" ++ toString index ++ "]"
    match entry with
    | .obj entry => do
      strictKeys entry ["max_input_tokens", "input_price_per_million_usd",
        "output_price_per_million_usd"] entryLabel
      let maximum ← integer (entry.lookup "max_input_tokens") (entryLabel ++ ".max_input_tokens")
        1 10000000000
      if maximum ≤ previous.maxInputTokens then
        .error (.configuration (label ++ " max_input_tokens must be strictly increasing"))
      else do
        let inputPrice ← usdToMicrousd u (entry.lookup "input_price_per_million_usd")
          (entryLabel ++ ".input_price_per_million_usd") true
        let outputPrice ← usdToMicrousd u (entry.lookup "output_price_per_million_usd")
          (entryLabel ++ ".output_price_per_million_usd") true
        if inputPrice < previous.inputPriceMicrousdPerMillion ∨
            outputPrice < previous.outputPriceMicrousdPerMillion then
          .error (.configuration (label ++ " prices must be non-decreasing"))
        else do
          let tiers ← parseTiers u label ⟨maximum, inputPrice, outputPrice⟩ (index + 1) rest
          return ⟨maximum, inputPrice, outputPrice⟩ :: tiers
    | _ => .error (.configuration (entryLabel ++ " must be an object"))

def parsePriceTiers (u : Unicode) (value : Json F) (label : String) :
    Except Exc (List PriceTier) :=
  match value with
  | .null => .ok []
  | .arr entries =>
    if entries = [] ∨ 32 < entries.length then
      .error (.configuration (label ++ " must be a non-empty bounded list"))
    else parseTiers u label ⟨0, 0, 0⟩ 0 entries
  | _ => .error (.configuration (label ++ " must be a non-empty bounded list"))

/-- The branch of `price_microusd_per_million` for a provider with tiers. -/
def tierPrices (providerId : String) (tiers : List PriceTier) (inputTokens : Option ℤ) :
    Except Exc Prices :=
  match inputTokens with
  | none => match tiers with
    | [] => .error (.other "IndexError" "tuple index out of range")
    | t :: _ => .ok (t.inputPriceMicrousdPerMillion, t.outputPriceMicrousdPerMillion)
  | some n =>
    if n < 0 then
      .error (.configuration ("provider " ++ providerId ++ " input token estimate is invalid"))
    else match tiers.find? fun t => n ≤ t.maxInputTokens with
    | none => .error (.configuration
        ("provider " ++ providerId ++ " input tokens exceed configured price tiers"))
    | some t => .ok (t.inputPriceMicrousdPerMillion, t.outputPriceMicrousdPerMillion)

def parseBudget (u : Unicode) (value : Json F) (label : String) : Except Exc BudgetLimits :=
  match value with
  | .obj value => do
    strictKeys value ["daily_calls", "monthly_calls", "daily_tokens", "monthly_tokens",
      "daily_cost_usd", "monthly_cost_usd", "mission_cost_usd"] label
    let dailyCalls ← integer (value.lookup "daily_calls") (label ++ ".daily_calls") 1 1000000
    let monthlyCalls ← integer (value.lookup "monthly_calls") (label ++ ".monthly_calls")
      dailyCalls 10000000
    let dailyTokens ← integer (value.lookup "daily_tokens") (label ++ ".daily_tokens")
      1 10000000000
    let monthlyTokens ← integer (value.lookup "monthly_tokens") (label ++ ".monthly_tokens")
      dailyTokens 100000000000
    let dailyCost ← usdToMicrousd u (value.lookup "daily_cost_usd") (label ++ ".daily_cost_usd")
      false
    let monthlyCost ← usdToMicrousd u (value.lookup "monthly_cost_usd")
      (label ++ ".monthly_cost_usd") false
    let missionCost ← usdToMicrousd u (value.lookup "mission_cost_usd")
      (label ++ ".mission_cost_usd") false
    if monthlyCost < dailyCost ∨ monthlyCost < missionCost then
      .error (.configuration (label ++ " cost limits are inconsistent"))
    else return ⟨dailyCalls, monthlyCalls, dailyTokens, monthlyTokens, dailyCost, monthlyCost,
      missionCost⟩
  | _ => .error (.configuration (label ++ " must be an object"))

/-! ## Costs -/

/-- `estimated_cost_microusd` of numbers that are not negative: both products and their sum are
rounded to the precision, and a result with more digits cannot be quantized. -/
def decimalCost (inputTokens outputTokens inputPrice outputPrice : ℕ) : Option ℕ :=
  let amount := significant precision (significant precision (inputTokens * inputPrice) +
    significant precision (outputTokens * outputPrice))
  let cost := (amount + 999999) / 1000000
  if cost < 10 ^ precision then some cost else none

/-- The charge that `mark_uncertain` retains, unless its estimate cannot be quantized. -/
def retainedCharge (r : Reservation) (inputTokens outputTokens : Option ℤ)
    (prices : Option Prices) : Option ℤ :=
  match prices with
  | none => some r.reservedCostMicrousd
  | some p =>
    (decimalCost (max r.reservedInputTokens (inputTokens.getD 0)).toNat
      (max r.reservedOutputTokens (outputTokens.getD 0)).toNat p.1.toNat p.2.toNat).map
        fun c => max r.reservedCostMicrousd c

end OpsOrchestrator
