import OpsControlPlane.Lib.Calendar
import OpsControlPlane.Lib.Calls

/-!
# The calls of the memory providers

The table `provider_calls` and the processes that write it. A reservation reads the clock before
its transaction begins, counts what was called since that day began, and reads the clock again for
the row that it inserts. The clock may advance at any operation, and a process may stop between
any two.
-/

namespace OpsMemory

open Calendar Text Calls

/-! ## The table -/

/-- The column `outcome` of `provider_calls`. -/
inductive CallOutcome where
  | reserved
  | success
  | failed
  | budgetDenied
deriving DecidableEq

/-- What is asked of `reserve_provider_call`. -/
structure CallArgs where
  (actor operation provider model : String)

/-- A row of `provider_calls`. The column `occurred_at` is the text of the time. -/
structure ProviderCall extends CallArgs where
  id : ℕ
  time : DateTime
  outcome : CallOutcome

/-- `utc_now`: the text of a time, to the second. -/
def timestamp (t : DateTime) : String :=
  ofChars ((toChars (isoformat t)).take 19 ++ ['+', '0', '0', ':', '0', '0'])

/-- `now.replace(hour=0, minute=0, second=0, microsecond=0)`. -/
def dayStart (t : DateTime) : DateTime :=
  ⟨86400000000 * t.day, lt_of_le_of_lt (Nat.mul_div_le _ _) t.lt_max⟩

def ProviderCall.used (provider model : String) (r : ProviderCall) : Bool :=
  r.provider = provider ∧ r.model = model ∧ r.outcome ≠ .budgetDenied

def usedSince (provider model : String) (start : DateTime) (rows : List ProviderCall) : ℕ :=
  rows.countP fun r => r.used provider model && decide (timestamp start ≤ timestamp r.time)

def usedIn (provider model : String) (day : ℕ) (rows : List ProviderCall) : ℕ :=
  rows.countP fun r => r.used provider model && decide (r.time.day = day)

def CallArgs.row (c : CallArgs) (start : DateTime) (dailyBudget : ℕ) (rows : List ProviderCall)
    (now : DateTime) : ProviderCall where
  toCallArgs := c
  id := rows.length + 1
  time := now
  outcome := if 0 < dailyBudget ∧ usedSince c.provider c.model start rows < dailyBudget then
    .reserved else .budgetDenied

/-- The `UPDATE` of `complete_provider_call`, of a reserved row. -/
def ProviderCall.complete (id : ℕ) (outcome : CallOutcome) (r : ProviderCall) : ProviderCall :=
  if r.id = id ∧ r.outcome = .reserved then { r with outcome := outcome } else r

/-! ## Processes -/

inductive ProviderOp where
  /-- `datetime.now(UTC)`. -/
  | now
  | reserve (c : CallArgs) (start : DateTime) (dailyBudget : ℕ)
  /-- The transaction of `complete_provider_call`. -/
  | complete (id : ℕ) (succeeded : Bool)

/-- The answer of an operation. A transaction may fail. -/
def ProviderOp.Ans : ProviderOp → Type
  | now => DateTime
  | reserve _ _ _ => Except String (Option ℕ)
  | complete _ _ => Except String Unit

abbrev providerInterface : Interface :=
  ⟨ProviderOp, ProviderOp.Ans⟩

def reserveProviderCall (c : CallArgs) (dailyBudget : ℕ) :
    Prog providerInterface String (Option ℕ) := do
  let (now : DateTime) ← Prog.perform (I := providerInterface) .now
  let r ← Prog.perform (I := providerInterface) (.reserve c (dayStart now) dailyBudget)
  Prog.ofExcept r

def completeProviderCall (id : ℕ) (succeeded : Bool) :
    Prog providerInterface String (Option ℕ) := do
  let r ← Prog.perform (I := providerInterface) (.complete id succeeded)
  let _ ← Prog.ofExcept (r : Except String Unit)
  return none

structure CallStore where
  clock : DateTime
  rows : List ProviderCall

/-- What the environment chooses: the time, unless the clock is past it, and whether a transaction
fails. -/
structure CallChoice where
  now : DateTime
  fault : Option String

def CallStore.time (st : CallStore) (x : CallChoice) : DateTime :=
  max st.clock x.now

def performCall : (o : ProviderOp) → CallChoice → CallStore → o.Ans × CallStore
  | .now, x, st => (st.time x, { st with clock := st.time x })
  | .reserve c start budget, x, st =>
    match x.fault with
    | some e => (.error e, st)
    | none =>
      let r := c.row start budget st.rows (st.time x)
      (.ok (if r.outcome = .reserved then some r.id else none), ⟨st.time x, st.rows ++ [r]⟩)
  | .complete id succeeded, x, st =>
    match x.fault with
    | some e => (.error e, st)
    | none =>
      let outcome := if succeeded then CallOutcome.success else .failed
      if ∃ r ∈ st.rows, r.id = id ∧ r.outcome = .reserved then
        (.ok (), { st with rows := st.rows.map (ProviderCall.complete id outcome) })
      else (.error "provider call reservation is not active", st)

inductive CallRequest where
  | reserve (c : CallArgs)
  | complete (id : ℕ) (succeeded : Bool)

/-- The processes, over a configuration that gives each model its budget. -/
abbrev callSystem (dailyCallBudget : String → String → ℕ) : System where
  I := providerInterface
  Err := String
  Res := Option ℕ
  Store := CallStore
  Request := CallRequest
  Choice := CallChoice
  program
    | .reserve c => reserveProviderCall c (dailyCallBudget c.provider c.model)
    | .complete id succeeded => completeProviderCall id succeeded
  perform := performCall

/-- No process has begun, and no call was made. -/
def fresh {budget : String → String → ℕ} (now : DateTime) : State (callSystem budget) :=
  ⟨⟨now, []⟩, []⟩

end OpsMemory
