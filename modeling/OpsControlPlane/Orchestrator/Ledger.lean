import OpsControlPlane.Orchestrator.Budget

/-!
# The ledger as a system of calls

`reserve`, `complete` and `mark_uncertain` as programs that sample the clock, draw a UUID and
commit a transaction, and the pool of such calls over one table: any number of threads and
processes in any interleaving, with crashes between any two operations.

`Grants`, `Completes` and `Marks` are the moments at which a transaction of the ledger
commits. `moment_ledger` says that nothing else changes the table.
-/

namespace OpsOrchestrator

open Calendar Transaction Calls

/-! ## Operations -/

inductive LedgerTx where
  | reserve (a : ReserveArgs)
  | complete (a : CompleteArgs)
  | markUncertain (a : UncertainArgs)

namespace LedgerTx

def Reply : LedgerTx → Type
  | reserve _ => Reservation
  | complete _ => Unit
  | markUncertain _ => Unit

/-- The numbers that the transaction writes can be bound. -/
def Binds : LedgerTx → Prop
  | reserve a => a.Binds
  | complete a => a.Binds
  | markUncertain a => a.Binds

def run (budgets : List (String × ProviderAccountBudget)) : (t : LedgerTx) → LedgerTxn t.Reply
  | reserve a => reserveTx budgets a
  | complete a => completeTx a
  | markUncertain a => uncertainTx a

/-- The answer of a transaction and the table after it. The database may fail, and then
nothing is written. -/
def commit (budgets : List (String × ProviderAccountBudget)) (t : LedgerTx) (fault : Option Exc)
    (x : DateTime) (rows : Ledger) : Except Exc t.Reply × Ledger :=
  match fault with
  | some e => (.error e, rows)
  | none => (t.run budgets).commit x rows

variable {budgets : List (String × ProviderAccountBudget)} {rows rows' : Ledger} {t : LedgerTx}
  {fault : Option Exc} {x : DateTime}

theorem commit_ok {r : t.Reply} (h : t.commit budgets fault x rows = (.ok r, rows')) :
    t.run budgets x rows = .ok (r, rows') := by
  cases fault with
  | some e => cases (Prod.mk.inj h).1
  | none =>
    have h : (t.run budgets).commit x rows = (.ok r, rows') := h
    rcases Txn.commit_cases (t.run budgets) x rows with ⟨a, s, hm, hc⟩ | ⟨e, -, hc⟩
    · obtain ⟨ha, rfl⟩ := Prod.mk.inj (hc.symm.trans h)
      obtain rfl := Except.ok.inj ha
      exact hm
    · cases (Prod.mk.inj (hc.symm.trans h)).1

theorem run_binds {r : t.Reply} (h : t.run budgets x rows = .ok (r, rows')) : t.Binds := by
  cases t with
  | reserve a => exact ((reserveTx_spec a).ok h).1.binds
  | complete a => exact (completeTx_binds a).ok h
  | markUncertain a => exact (uncertainTx_binds a).ok h

theorem commit_error {e : Exc} (h : t.commit budgets fault x rows = (.error e, rows')) :
    rows' = rows := by
  cases fault with
  | some e => exact (Prod.mk.inj h).2.symm
  | none =>
    have h : (t.run budgets).commit x rows = (.error e, rows') := h
    rcases Txn.commit_cases (t.run budgets) x rows with ⟨a, s, -, hc⟩ | ⟨e', -, hc⟩
    · cases (Prod.mk.inj (hc.symm.trans h)).1
    · exact (Prod.mk.inj (hc.symm.trans h)).2.symm

end LedgerTx

inductive LedgerOp where
  /-- `datetime.now(timezone.utc)`. -/
  | now
  | uuid4
  | tx (t : LedgerTx)

def LedgerOp.Ans : LedgerOp → Type
  | now => DateTime
  | uuid4 => String
  | tx t => Except Exc t.Reply

abbrev ledgerInterface : Interface :=
  ⟨LedgerOp, LedgerOp.Ans⟩

abbrev LedgerMethod (α : Type) : Type :=
  Prog ledgerInterface Exc α

def commitTx (t : LedgerTx) : LedgerMethod t.Reply := do
  let r ← Prog.perform (I := ledgerInterface) (.tx t)
  Prog.ofExcept r

/-! ## Methods -/

structure ReserveCall where
  (routeId missionId : String)
  provider : ProviderConfig
  (model reason : String)
  (inputTokens maxOutputTokens : ℤ)
  requestedMaxCost : Option ℤ
  prices : Prices
  usageRole : Option String := none
deriving DecidableEq

def reserve (q : ReserveCall) : LedgerMethod Reservation :=
  if q.usageRole ≠ none ∧ q.usageRole ≠ some "ROLE_VERIFIER" then
    .fail (.other "ValueError" "usage role override is invalid")
  else do
    let now ← Prog.perform (I := ledgerInterface) .now
    let callId ← Prog.perform (I := ledgerInterface) .uuid4
    commitTx (.reserve ⟨callId, q.routeId, q.missionId, q.provider, q.model, q.reason,
      q.inputTokens, q.maxOutputTokens, q.requestedMaxCost, q.prices,
      q.usageRole.getD q.provider.role.value, now⟩)

def complete (reservation : Reservation) (inputTokens outputTokens : ℤ) (prices : Prices) :
    LedgerMethod ℤ :=
  if inputTokens < 0 ∨ outputTokens < 0 then
    .fail (.other "ValueError" "token usage must be non-negative")
  else do
    let actualCost := estimatedCostMicrousd inputTokens outputTokens prices
    commitTx (.complete ⟨reservation.callId, inputTokens, outputTokens, actualCost⟩)
    return actualCost

def retain (reservation : Reservation) (errorCode : String)
    (inputTokens outputTokens : Option ℤ) (prices : Option Prices) : UncertainArgs :=
  let retainedInput := max reservation.reservedInputTokens (inputTokens.getD 0)
  let retainedOutput := max reservation.reservedOutputTokens (outputTokens.getD 0)
  { callId := reservation.callId
    errorCode := errorCode
    retainedInput := retainedInput
    retainedOutput := retainedOutput
    retainedCost := match prices with
      | none => reservation.reservedCostMicrousd
      | some p => max reservation.reservedCostMicrousd
          (estimatedCostMicrousd retainedInput retainedOutput p) }

def markUncertain (reservation : Reservation) (errorCode : String)
    (inputTokens outputTokens : Option ℤ) (prices : Option Prices) : LedgerMethod Unit :=
  commitTx (.markUncertain (retain reservation errorCode inputTokens outputTokens prices))

/-! ## The system -/

inductive LedgerRequest where
  | reserve (q : ReserveCall)
  | complete (reservation : Reservation) (inputTokens outputTokens : ℤ) (prices : Prices)
  | markUncertain (reservation : Reservation) (errorCode : String)
      (inputTokens outputTokens : Option ℤ) (prices : Option Prices)
deriving DecidableEq

/-- The program of a call. The result is the reservation of `reserve`. -/
def LedgerRequest.program : LedgerRequest → LedgerMethod (Option Reservation)
  | reserve q => do
    let r ← OpsOrchestrator.reserve q
    return some r
  | complete reservation inputTokens outputTokens prices => do
    let _ ← OpsOrchestrator.complete reservation inputTokens outputTokens prices
    return none
  | markUncertain reservation errorCode inputTokens outputTokens prices => do
    OpsOrchestrator.markUncertain reservation errorCode inputTokens outputTokens prices
    return none

/-- What the environment chooses when an operation is performed. -/
structure LedgerChoice where
  time : DateTime
  uuid : String
  fault : Option Exc := none

/-- The answer of an operation and the table after it. -/
def performLedger (budgets : List (String × ProviderAccountBudget)) :
    (o : LedgerOp) → LedgerChoice → Ledger → o.Ans × Ledger
  | .now, x, rows => (x.time, rows)
  | .uuid4, x, rows => (x.uuid, rows)
  | .tx t, x, rows => t.commit budgets x.fault x.time rows

/-- The ledger: its calls over its table. -/
abbrev ledgerSystem (budgets : List (String × ProviderAccountBudget)) : System where
  I := ledgerInterface
  Err := Exc
  Res := Option Reservation
  Store := Ledger
  Request := LedgerRequest
  Choice := LedgerChoice
  program := LedgerRequest.program
  perform := performLedger budgets

def emptyLedger (budgets : List (String × ProviderAccountBudget)) :
    State (ledgerSystem budgets) :=
  ⟨[], []⟩

/-! ## Moments -/

section moments

variable {budgets : List (String × ProviderAccountBudget)}

def Commits (m : Moment (ledgerSystem budgets)) (t : LedgerTx) (x : DateTime) : Prop :=
  ∃ c r i choice, m.move = .act i choice ∧ choice.time = x ∧ m.Performs c (.tx t) (.ok r)

variable {m : Moment (ledgerSystem budgets)} {x : DateTime}

theorem Commits.run {t : LedgerTx} (h : Commits m t x) :
    ∃ r, t.run budgets x m.before.store = .ok (r, m.after.store) := by
  obtain ⟨c, r, i, choice, hmove, rfl, hp⟩ := h
  obtain ⟨j, y, k, hj, -, -, hperf⟩ := hp
  cases hmove.symm.trans hj
  exact ⟨r, LedgerTx.commit_ok hperf⟩

theorem Commits.reserve {a : ReserveArgs} (h : Commits m (.reserve a) x) :
    Checked budgets a m.before.store ∧
      m.after.store = m.before.store ++ [a.row x] := by
  obtain ⟨r, hrun⟩ := h.run
  obtain ⟨hchecked, -, hrows⟩ := (reserveTx_spec a).ok hrun
  exact ⟨hchecked, hrows⟩

theorem Commits.complete {a : CompleteArgs} (h : Commits m (.complete a) x) :
    m.before.store.countP (openCall a.callId) = 1 ∧
      m.after.store = update (openCall a.callId) (a.apply x) m.before.store := by
  obtain ⟨r, hrun⟩ := h.run
  exact (completeTx_spec a).ok hrun

theorem Commits.markUncertain {a : UncertainArgs} (h : Commits m (.markUncertain a) x) :
    m.before.store.countP (openCall a.callId) = 1 ∧
      m.after.store = update (openCall a.callId) (a.apply x) m.before.store := by
  obtain ⟨r, hrun⟩ := h.run
  exact (uncertainTx_spec a).ok hrun

theorem moment_ledger {s s' : State (ledgerSystem budgets)} {mv : Move (ledgerSystem budgets)}
    (h : s.step mv = some s') :
    s'.store = s.store ∨ ∃ t x, Commits ⟨s, mv, s'⟩ t x := by
  rcases moment_cases h with heq | ⟨c, o, a, hp⟩
  · exact Or.inl heq
  · obtain ⟨i, x, k, hmove, hget, hprog, hperf⟩ := id hp
    cases o with
    | now => exact Or.inl (congrArg Prod.snd hperf).symm
    | uuid4 => exact Or.inl (congrArg Prod.snd hperf).symm
    | tx t =>
      cases a with
      | ok r => exact Or.inr ⟨t, x.time, c, r, i, x, hmove, rfl, hp⟩
      | error e => exact Or.inl (LedgerTx.commit_error hperf)

end moments

end OpsOrchestrator
