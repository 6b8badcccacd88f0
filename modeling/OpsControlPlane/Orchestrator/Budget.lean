import OpsControlPlane.Lib.Calendar
import OpsControlPlane.Lib.Calls
import OpsControlPlane.Lib.Transaction
import OpsControlPlane.Orchestrator.Models

/-!
# The budget ledger

A reservation is a row that counts against the budgets of its provider and its account from
the moment it is granted. `reserve` compares the totals of the rows with the limits and
inserts the row in one transaction, `complete` and `mark_uncertain` move it out of
`reserved`.

The windows of a day and of a month are the prefixes of the text of a clock sample that is
taken before the transaction; the row carries the time of the transaction. `Checked` says
what a granted reservation has been compared with.
-/

namespace OpsOrchestrator

open Calendar Text Transaction Calls

/-! ## Rows -/

inductive ReservationStatus where
  | reserved
  | completed
  | uncertain
deriving DecidableEq

structure ReservationRow where
  (callId routeId missionId providerId : String)
  providerAccountId : Option String
  (role model : String)
  location : Location
  (reason createdAt : String)
  completedAt : Option String
  status : ReservationStatus
  (reservedInputTokens reservedOutputTokens : ℤ)
  (actualInputTokens actualOutputTokens : Option ℤ)
  reservedCostMicrousd : ℤ
  actualCostMicrousd : Option ℤ
  errorCode : Option String
deriving DecidableEq

abbrev Ledger : Type :=
  List ReservationRow

/-- The tokens that a row counts. A sum with a null is null, and counts nothing. -/
def ReservationRow.tokens (r : ReservationRow) : ℤ :=
  if r.status = .completed then
    match r.actualInputTokens, r.actualOutputTokens with
    | some i, some o => i + o
    | _, _ => 0
  else r.reservedInputTokens + r.reservedOutputTokens

def ReservationRow.cost (r : ReservationRow) : ℤ :=
  if r.status = .completed then r.actualCostMicrousd.getD 0 else r.reservedCostMicrousd

@[ext]
structure Totals where
  (calls tokens cost : ℤ)
deriving DecidableEq

structure Totals.Within (t limits : Totals) : Prop where
  calls : t.calls ≤ limits.calls
  tokens : t.tokens ≤ limits.tokens
  cost : t.cost ≤ limits.cost

def aggregate (p : ReservationRow → Bool) (rows : Ledger) : Totals :=
  ⟨rows.countP p, ((rows.filter p).map ReservationRow.tokens).sum,
    ((rows.filter p).map ReservationRow.cost).sum⟩

theorem aggregate_append (p : ReservationRow → Bool) (rows : Ledger) (r : ReservationRow) :
    aggregate p (rows ++ [r]) = if p r then
      ⟨(aggregate p rows).calls + 1, (aggregate p rows).tokens + r.tokens,
        (aggregate p rows).cost + r.cost⟩ else aggregate p rows := by
  by_cases hp : p r = true
  · ext <;> simp [aggregate, hp]
  · ext <;> simp [aggregate, hp]

/-! ## Times -/

def utcNow (t : DateTime) : String :=
  ofChars ((toChars (isoformat t)).take 26 ++ ['+', '0', '0', ':', '0', '0'])

inductive Window where
  | day
  | month
deriving DecidableEq

/-- The length of the text of a window: `%Y-%m-%d` or `%Y-%m`. -/
def Window.width : Window → ℕ
  | day => 10
  | month => 7

/-- `now.strftime(...)`. -/
def Window.prefixOf (w : Window) (t : DateTime) : List Char :=
  (toChars (isoformat t)).take w.width

/-- `created_at LIKE prefix || '%'`. -/
def createdIn (pre : List Char) (r : ReservationRow) : Bool :=
  pre.isPrefixOf (toChars r.createdAt)

theorem length_prefixOf (w : Window) (t : DateTime) : (w.prefixOf t).length = w.width := by
  have hlen : (toChars (isoformat t)).length = 27 := by
    rw [toChars_eq, String.length_toList, length_isoformat]
  have hw : w.width ≤ 10 := by cases w <;> decide
  rw [Window.prefixOf, List.length_take, hlen]
  omega

/-- The text of a time starts with the window of the time, and with no other. -/
theorem prefixOf_isPrefixOf (w : Window) (t₀ t : DateTime) :
    (w.prefixOf t₀).isPrefixOf (toChars (utcNow t)) = true ↔ w.prefixOf t₀ = w.prefixOf t := by
  have hlen := length_prefixOf w t
  have hsplit : toChars (utcNow t) = w.prefixOf t ++ (toChars (utcNow t)).drop w.width := by
    have hw : w.width ≤ 26 := by cases w <;> decide
    have h27 : (toChars (isoformat t)).length = 27 := by
      rw [toChars_eq, String.length_toList, length_isoformat]
    have htake : (toChars (utcNow t)).take w.width = w.prefixOf t := by
      rw [utcNow, toChars_ofChars, List.take_append_of_le_length, List.take_take,
        Nat.min_eq_left hw, Window.prefixOf]
      rw [List.length_take, h27]
      omega
    rw [← htake, List.take_append_drop]
  rw [List.isPrefixOf_iff_prefix, hsplit]
  constructor
  · intro h
    have hlen₀ := length_prefixOf w t₀
    have hpre := List.prefix_of_prefix_length_le h (List.prefix_append _ _) (by omega)
    exact hpre.eq_of_length (by omega)
  · intro h
    rw [h]
    exact List.prefix_append _ _

theorem prefixOf_of_day {t t' : DateTime} (h : Window.day.prefixOf t = Window.day.prefixOf t')
    (w : Window) : w.prefixOf t = w.prefixOf t' := by
  cases w with
  | day => exact h
  | month =>
    have htake : ∀ t : DateTime, Window.month.prefixOf t = (Window.day.prefixOf t).take 7 := by
      intro t
      simp [Window.prefixOf, Window.width, List.take_take]
    rw [htake, htake, h]

/-! ## Transactions -/

def estimatedCostMicrousd (inputTokens outputTokens : ℤ) (prices : Prices) : ℤ :=
  (inputTokens * prices.1 + outputTokens * prices.2 + 999999) / 1000000

structure Reservation where
  callId : String
  (reservedInputTokens reservedOutputTokens reservedCostMicrousd : ℤ)
deriving DecidableEq

/-- An `INTEGER` column of SQLite holds the number. -/
abbrev InColumn (n : ℤ) : Prop :=
  -2 ^ 63 ≤ n ∧ n < 2 ^ 63

/-- A number that no column holds is refused when it is bound. -/
def overflowError : Exc :=
  .other "OverflowError" "Python int too large to convert to SQLite INTEGER"

def Reservation.Stored (r : Reservation) : Prop :=
  ∀ n ∈ [r.reservedInputTokens, r.reservedOutputTokens, r.reservedCostMicrousd],
    0 ≤ n ∧ InColumn n

instance : DecidablePred Reservation.Stored :=
  fun _ => List.decidableBAll _ _

/-- A transaction of the ledger. It reads the time when it writes. -/
abbrev LedgerTxn (α : Type) : Type :=
  Txn DateTime Ledger Exc α

structure ReserveArgs where
  (callId routeId missionId : String)
  provider : ProviderConfig
  (model reason : String)
  (inputTokens maxOutputTokens : ℤ)
  requestedMaxCost : Option ℤ
  prices : Prices
  role : String
  now : DateTime
deriving DecidableEq

namespace ReserveArgs

variable (a : ReserveArgs)

def reservedCost : ℤ :=
  estimatedCostMicrousd a.inputTokens a.maxOutputTokens a.prices

def reservation : Reservation :=
  ⟨a.callId, a.inputTokens, a.maxOutputTokens, a.reservedCost⟩

def row (t : DateTime) : ReservationRow where
  callId := a.callId
  routeId := a.routeId
  missionId := a.missionId
  providerId := a.provider.providerId
  providerAccountId := a.provider.accountId
  role := a.role
  model := a.model
  location := a.provider.location
  reason := ofChars ((toChars a.reason).take 500)
  createdAt := utcNow t
  completedAt := none
  status := .reserved
  reservedInputTokens := a.inputTokens
  reservedOutputTokens := a.maxOutputTokens
  actualInputTokens := none
  actualOutputTokens := none
  reservedCostMicrousd := a.reservedCost
  actualCostMicrousd := none
  errorCode := none

/-- The numbers of the row can be bound. -/
abbrev Binds : Prop :=
  InColumn a.inputTokens ∧ InColumn a.maxOutputTokens ∧ InColumn a.reservedCost

def added (t : Totals) : Totals :=
  ⟨t.calls + 1, t.tokens + a.inputTokens + a.maxOutputTokens, t.cost + a.reservedCost⟩

end ReserveArgs

inductive Owner where
  | provider (id : String)
  | account (id : String)
deriving DecidableEq

def Owner.pays : Owner → ReservationRow → Bool
  | provider id, r => r.providerId = id
  | account id, r => r.providerAccountId = some id

def Owner.during (o : Owner) (w : Window) (t : DateTime) (r : ReservationRow) : Bool :=
  o.pays r && createdIn (w.prefixOf t) r

def forMission (providerId missionId : String) (r : ReservationRow) : Bool :=
  r.providerId = providerId ∧ r.missionId = missionId

def forTask (accountId routeId : String) (r : ReservationRow) : Bool :=
  r.providerAccountId = some accountId ∧ r.routeId = routeId

def forRoute (routeId : String) (r : ReservationRow) : Bool :=
  r.routeId = routeId

def BudgetLimits.within (l : BudgetLimits) : Window → Totals
  | .day => ⟨l.dailyCalls, l.dailyTokens, l.dailyCostMicrousd⟩
  | .month => ⟨l.monthlyCalls, l.monthlyTokens, l.monthlyCostMicrousd⟩

def ProviderAccountBudget.within (l : ProviderAccountBudget) : Window → Totals
  | .day => ⟨l.dailyCalls, l.dailyTokens, l.dailyCostMicrousd⟩
  | .month => ⟨l.monthlyCalls, l.monthlyTokens, l.monthlyCostMicrousd⟩

def ProviderAccountBudget.task (l : ProviderAccountBudget) : Totals :=
  ⟨l.taskCalls, l.taskTokens, l.taskCostMicrousd⟩

/-- A comparison of `reserve`: the prospective total, its limit, and what the exception
says. -/
structure BudgetCheck where
  (prospective limit : ℤ)
  (period dimension : String)

/-- The exception of the first comparison that fails. -/
def demandAll (subject : String) : List BudgetCheck → LedgerTxn Unit
  | [] => pure ()
  | c :: cs => do
    Txn.demand (c.prospective ≤ c.limit) (.budgetExceeded subject c.period c.dimension)
    demandAll subject cs

def ReserveArgs.providerChecks (a : ReserveArgs) (rows : Ledger) : List BudgetCheck :=
  let l := a.provider.budget
  let day := a.added (aggregate ((Owner.provider a.provider.providerId).during .day a.now) rows)
  let month :=
    a.added (aggregate ((Owner.provider a.provider.providerId).during .month a.now) rows)
  let mission := a.added (aggregate (forMission a.provider.providerId a.missionId) rows)
  [⟨day.calls, l.dailyCalls, "daily", "calls"⟩,
    ⟨month.calls, l.monthlyCalls, "monthly", "calls"⟩,
    ⟨day.tokens, l.dailyTokens, "daily", "tokens"⟩,
    ⟨month.tokens, l.monthlyTokens, "monthly", "tokens"⟩,
    ⟨day.cost, l.dailyCostMicrousd, "daily", "cost"⟩,
    ⟨month.cost, l.monthlyCostMicrousd, "monthly", "cost"⟩,
    ⟨mission.cost, l.missionCostMicrousd, "mission", "cost"⟩]

def ReserveArgs.accountChecks (a : ReserveArgs) (accountId : String) (l : ProviderAccountBudget)
    (rows : Ledger) : List BudgetCheck :=
  let day := a.added (aggregate ((Owner.account accountId).during .day a.now) rows)
  let month := a.added (aggregate ((Owner.account accountId).during .month a.now) rows)
  let task := a.added (aggregate (forTask accountId a.routeId) rows)
  [⟨day.calls, l.dailyCalls, "account_daily", "calls"⟩,
    ⟨month.calls, l.monthlyCalls, "account_monthly", "calls"⟩,
    ⟨day.tokens, l.dailyTokens, "account_daily", "tokens"⟩,
    ⟨month.tokens, l.monthlyTokens, "account_monthly", "tokens"⟩,
    ⟨day.cost, l.dailyCostMicrousd, "account_daily", "cost"⟩,
    ⟨month.cost, l.monthlyCostMicrousd, "account_monthly", "cost"⟩,
    ⟨task.calls, l.taskCalls, "account_task", "calls"⟩,
    ⟨task.tokens, l.taskTokens, "account_task", "tokens"⟩,
    ⟨task.cost, l.taskCostMicrousd, "account_task", "cost"⟩]

/-- A constraint of `usage_reservations` is violated by a new row. -/
def reservationViolates (r : ReservationRow) (rows : Ledger) : Bool :=
  rows.any (fun q => q.callId = r.callId) || decide (r.reservedInputTokens < 0) ||
    decide (r.reservedOutputTokens < 0) || decide (r.reservedCostMicrousd < 0)

def integrityError : Exc :=
  .other "IntegrityError" "constraint failed"

def accountLimits (budgets : List (String × ProviderAccountBudget)) (p : ProviderConfig) :
    Except Exc (Option (String × ProviderAccountBudget)) :=
  match p.accountId with
  | none => .ok none
  | some accountId => match budgets.lookup accountId with
    | none =>
      .error (.configuration ("provider " ++ p.providerId ++ " has no shared account budget"))
    | some l => .ok (some (accountId, l))

def checkAccount (budgets : List (String × ProviderAccountBudget)) (a : ReserveArgs)
    (rows : Ledger) : LedgerTxn Unit := do
  let account ← Txn.ofExcept (accountLimits budgets a.provider)
  match account with
  | none => pure ()
  | some (accountId, l) => demandAll ("account:" ++ accountId) (a.accountChecks accountId l rows)

def reserveTx (budgets : List (String × ProviderAccountBudget)) (a : ReserveArgs) :
    LedgerTxn Reservation := do
  let rows ← Txn.query id
  let routeCost := (aggregate (forRoute a.routeId) rows).cost
  Txn.demand (∀ max ∈ a.requestedMaxCost, routeCost + a.reservedCost ≤ max)
    (.budgetExceeded a.provider.providerId "request" "max_cost")
  demandAll a.provider.providerId (a.providerChecks rows)
  checkAccount budgets a rows
  let t ← Txn.env
  Txn.demand a.Binds overflowError
  Txn.demand (reservationViolates (a.row t) rows = false) integrityError
  Txn.modify fun rows => rows ++ [a.row t]
  return a.reservation

def openCall (callId : String) (r : ReservationRow) : Bool :=
  r.callId = callId ∧ r.status = .reserved

def transitionError : Exc :=
  .other "RuntimeError" "budget reservation state transition failed"

structure CompleteArgs where
  callId : String
  (inputTokens outputTokens actualCost : ℤ)

/-- The numbers of the update can be bound. -/
abbrev CompleteArgs.Binds (a : CompleteArgs) : Prop :=
  InColumn a.inputTokens ∧ InColumn a.outputTokens ∧ InColumn a.actualCost

def CompleteArgs.apply (a : CompleteArgs) (t : DateTime) (r : ReservationRow) : ReservationRow :=
  { r with
    status := .completed, completedAt := some (utcNow t),
    actualInputTokens := some a.inputTokens, actualOutputTokens := some a.outputTokens,
    actualCostMicrousd := some a.actualCost }

def completeTx (a : CompleteArgs) : LedgerTxn Unit := do
  Txn.demand a.Binds overflowError
  let changed ← Txn.query (List.countP (openCall a.callId))
  Txn.demand (changed = 0 ∨ 0 ≤ a.inputTokens ∧ 0 ≤ a.outputTokens ∧ 0 ≤ a.actualCost)
    integrityError
  let t ← Txn.env
  Txn.modify (update (openCall a.callId) (a.apply t))
  Txn.demand (changed = 1) transitionError

/-- What the transaction of `mark_uncertain` is given. -/
structure UncertainArgs where
  (callId errorCode : String)
  (retainedInput retainedOutput retainedCost : ℤ)

/-- The numbers of the update can be bound. -/
abbrev UncertainArgs.Binds (a : UncertainArgs) : Prop :=
  InColumn a.retainedInput ∧ InColumn a.retainedOutput ∧ InColumn a.retainedCost

def UncertainArgs.apply (a : UncertainArgs) (t : DateTime) (r : ReservationRow) :
    ReservationRow :=
  { r with
    status := .uncertain, completedAt := some (utcNow t),
    errorCode := some (ofChars ((toChars a.errorCode).take 100)),
    reservedInputTokens := a.retainedInput, reservedOutputTokens := a.retainedOutput,
    reservedCostMicrousd := a.retainedCost }

/-- The transaction of `mark_uncertain`. -/
def uncertainTx (a : UncertainArgs) : LedgerTxn Unit := do
  Txn.demand a.Binds overflowError
  let changed ← Txn.query (List.countP (openCall a.callId))
  Txn.demand (changed = 0 ∨ 0 ≤ a.retainedInput ∧ 0 ≤ a.retainedOutput ∧ 0 ≤ a.retainedCost)
    integrityError
  let t ← Txn.env
  Txn.modify (update (openCall a.callId) (a.apply t))
  Txn.demand (changed = 1) transitionError

/-! ## What the transactions do -/

structure AccountChecked (a : ReserveArgs) (rows : Ledger) (accountId : String)
    (l : ProviderAccountBudget) : Prop where
  windows : ∀ w, (a.added (aggregate ((Owner.account accountId).during w a.now) rows)).Within
    (l.within w)
  task : (a.added (aggregate (forTask accountId a.routeId) rows)).Within l.task

structure Checked (budgets : List (String × ProviderAccountBudget)) (a : ReserveArgs)
    (rows : Ledger) : Prop where
  fresh : ∀ r ∈ rows, r.callId ≠ a.callId
  nonneg : 0 ≤ a.inputTokens ∧ 0 ≤ a.maxOutputTokens
  binds : a.Binds
  route : ∀ max ∈ a.requestedMaxCost, (aggregate (forRoute a.routeId) rows).cost +
    a.reservedCost ≤ max
  provider : ∀ w, (a.added (aggregate ((Owner.provider a.provider.providerId).during w a.now)
    rows)).Within (a.provider.budget.within w)
  mission : (aggregate (forMission a.provider.providerId a.missionId) rows).cost +
    a.reservedCost ≤ a.provider.budget.missionCostMicrousd
  account : ∀ accountId ∈ a.provider.accountId, ∃ l, budgets.lookup accountId = some l ∧
    AccountChecked a rows accountId l

variable {Q : Unit → Ledger → Prop} {E : Exc → Prop} {s : Ledger}

theorem wp_demandAll {x : DateTime} (subject : String) (cs : List BudgetCheck)
    (hQ : (∀ c ∈ cs, c.prospective ≤ c.limit) → Q () s) (hE : ∀ e, E e) :
    (demandAll subject cs).wp x s Q E := by
  induction cs with
  | nil => exact hQ (by simp)
  | cons c cs ih =>
    rw [demandAll, Txn.wp_bind, Txn.wp_demand]
    refine ⟨fun hc => ih fun hcs => hQ ?_, fun _ => hE _⟩
    intro d hd
    rcases List.mem_cons.1 hd with rfl | hd
    · exact hc
    · exact hcs d hd

variable {budgets : List (String × ProviderAccountBudget)} {x : DateTime} {rows : Ledger}

theorem wp_checkAccount {a : ReserveArgs} (hQ : (∀ accountId ∈ a.provider.accountId, ∃ l,
      budgets.lookup accountId = some l ∧ AccountChecked a rows accountId l) → Q () s)
    (hE : ∀ e, E e) : (checkAccount budgets a rows).wp x s Q E := by
  rw [checkAccount, Txn.wp_bind, Txn.wp_ofExcept]
  refine ⟨fun account haccount => ?_, fun e _ => hE e⟩
  unfold accountLimits at haccount
  split at haccount
  · next hnone =>
    obtain rfl := Except.ok.inj haccount
    exact hQ (by simp [hnone])
  · next accountId hsome =>
    split at haccount
    · cases haccount
    · next l hl =>
      obtain rfl := Except.ok.inj haccount
      refine wp_demandAll _ _ (fun hchecks => hQ ?_) hE
      simp only [ReserveArgs.accountChecks, List.mem_cons, List.not_mem_nil, or_false,
        forall_eq_or_imp, forall_eq] at hchecks
      obtain ⟨h1, h2, h3, h4, h5, h6, h7, h8, h9⟩ := hchecks
      intro id hid
      obtain rfl : accountId = id := Option.some.inj (hsome.symm.trans hid)
      refine ⟨l, hl, fun w => ?_, ⟨h7, h8, h9⟩⟩
      cases w with
      | day => exact ⟨h1, h3, h5⟩
      | month => exact ⟨h2, h4, h6⟩

/-- A reservation is granted after all comparisons, and its row is appended. -/
theorem reserveTx_spec (a : ReserveArgs) : (reserveTx budgets a).wp x rows
    (fun r rows' => Checked budgets a rows ∧ r = a.reservation ∧ rows' = rows ++ [a.row x])
    fun _ => True := by
  simp only [reserveTx, Txn.wp_bind, Txn.wp_query, Txn.wp_demand, id]
  refine ⟨fun hroute => wp_demandAll _ _ (fun hprovider => wp_checkAccount (fun hacc => ?_)
    fun _ => trivial) fun _ => trivial, fun _ => trivial⟩
  simp only [ReserveArgs.providerChecks, List.mem_cons, List.not_mem_nil, or_false,
    forall_eq_or_imp, forall_eq] at hprovider
  obtain ⟨h1, h2, h3, h4, h5, h6, h7⟩ := hprovider
  have hwindows : ∀ w, (a.added (aggregate
      ((Owner.provider a.provider.providerId).during w a.now) rows)).Within
      (a.provider.budget.within w) := by
    intro w
    cases w with
    | day => exact ⟨h1, h3, h5⟩
    | month => exact ⟨h2, h4, h6⟩
  simp only [Txn.wp_env, Txn.wp_modify, Txn.wp_pure]
  refine ⟨fun hbinds => ⟨fun hviolates => ?_, fun _ => trivial⟩, fun _ => trivial⟩
  refine ⟨⟨?_, ?_, hbinds, hroute, hwindows, h7, hacc⟩, trivial, trivial⟩
  all_goals
    simp only [reservationViolates, Bool.or_eq_false_iff, List.any_eq_false,
      decide_eq_false_iff_not, not_lt] at hviolates
    obtain ⟨⟨⟨hfresh, hin⟩, hout⟩, -⟩ := hviolates
  · intro r hr heq
    exact hfresh r hr (decide_eq_true heq)
  · exact ⟨hin, hout⟩

theorem completeTx_spec (a : CompleteArgs) : (completeTx a).wp x rows
    (fun _ rows' => rows.countP (openCall a.callId) = 1 ∧
      rows' = update (openCall a.callId) (a.apply x) rows) fun _ => True := by
  simp only [completeTx, Txn.wp_bind, Txn.wp_query, Txn.wp_demand, Txn.wp_env, Txn.wp_modify]
  exact ⟨fun _ => ⟨fun _ => ⟨fun h => ⟨h, trivial⟩, fun _ => trivial⟩, fun _ => trivial⟩,
    fun _ => trivial⟩

theorem completeTx_binds (a : CompleteArgs) : (completeTx a).wp x rows (fun _ _ => a.Binds)
    fun _ => True := by
  simp only [completeTx, Txn.wp_bind, Txn.wp_query, Txn.wp_demand, Txn.wp_env, Txn.wp_modify]
  exact ⟨fun h => ⟨fun _ => ⟨fun _ => h, fun _ => trivial⟩, fun _ => trivial⟩, fun _ => trivial⟩

theorem uncertainTx_spec (a : UncertainArgs) : (uncertainTx a).wp x rows
    (fun _ rows' => rows.countP (openCall a.callId) = 1 ∧
      rows' = update (openCall a.callId) (a.apply x) rows) fun _ => True := by
  simp only [uncertainTx, Txn.wp_bind, Txn.wp_query, Txn.wp_demand, Txn.wp_env, Txn.wp_modify]
  exact ⟨fun _ => ⟨fun _ => ⟨fun h => ⟨h, trivial⟩, fun _ => trivial⟩, fun _ => trivial⟩,
    fun _ => trivial⟩

theorem uncertainTx_binds (a : UncertainArgs) : (uncertainTx a).wp x rows (fun _ _ => a.Binds)
    fun _ => True := by
  simp only [uncertainTx, Txn.wp_bind, Txn.wp_query, Txn.wp_demand, Txn.wp_env, Txn.wp_modify]
  exact ⟨fun h => ⟨fun _ => ⟨fun _ => h, fun _ => trivial⟩, fun _ => trivial⟩, fun _ => trivial⟩

end OpsOrchestrator
