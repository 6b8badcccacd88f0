import OpsControlPlane.Lib.Fallible
import Mathlib.Algebra.Order.Ring.Rat
import Mathlib.Data.NNRat.Defs

/-!
# The CLI pilot

`pilot` turns over the missions of the broker, starts a CLI for a source that is dispatched to it,
and submits the actions that were approved for the runs it handed off. It may stop between any two
of its operations, and be started again; a lock keeps it alone. An operation may raise, before or
after it had its effect. The broker answers anything.

`Event` is what can be seen from outside, in order. A run starts at the time that its attempt
records.
-/

namespace OpsPilot

open Calls

inductive Tool where
  | codex
  | claude
deriving DecidableEq

def Tool.name : Tool → String
  | .codex => "codex"
  | .claude => "claude"

def Tool.actor (tool : Tool) : String :=
  tool.name ++ "-supervised"

structure Record where
  kind : String
  evidence : List String
deriving DecidableEq

structure Summary where
  (id status requestedBy : String)
deriving DecidableEq

structure Action where
  (id missionId status requestedBy : String)
deriving DecidableEq

/-! ## The source of a mission -/

def begins (t s : String) : Bool :=
  t.toList.isPrefixOf s.toList

/-- `isdigit` and `int` of a text: none if it is not of digits, and `some none` if `int` raises. -/
abbrev Digits : Type :=
  String → Option (Option ℕ)

def evidenceSource (digits : Digits) (evidence : String) : Except Unit (Option ℕ) :=
  if begins "zulip-source:" evidence then
    match digits (String.ofList (evidence.toList.drop 13)) with
    | none => .ok none
    | some none => .error ()
    | some (some n) => .ok (some n)
  else .ok none

def observed (records : List Record) : List String :=
  (records.filter fun r => r.kind = "observation").flatMap Record.evidence

def dispatch (source : ℕ) (tool : Tool) : String :=
  "zulip-dispatch:" ++ toString source ++ ":" ++ tool.name

def response (source : ℕ) : String :=
  "zulip-response:" ++ toString source

def destinations (source : ℕ) (records : List Record) : List String :=
  (observed records).filter (begins ("zulip-dispatch:" ++ toString source ++ ":"))

def replies (source : ℕ) (records : List Record) : List Record :=
  records.filter fun r => r.kind = "handoff" ∧ response source ∈ r.evidence

def sourceFor (digits : Digits) (records : List Record) (tool : Tool) : Except Unit (Option ℕ) := do
  let found ← (observed records).mapM (evidenceSource digits)
  match found.reduceOption with
  | [] => return none
  | source :: others =>
    if others.any fun n => n ≠ source then return none
    else if ¬(destinations source records ≠ [] ∧
        (destinations source records).all fun e => e = dispatch source tool) then return none
    else if replies source records ≠ [] then return none
    else return some source

/-! ## What is kept -/

inductive AttemptStatus where
  | running
  | handedOff
  | needsReview
deriving DecidableEq

inductive ApprovalStatus where
  | executing
  | completed
  | needsReview
deriving DecidableEq

structure Attempt where
  source : ℕ
  mission : String
  tool : Tool
  started : ℚ
  status : AttemptStatus
deriving DecidableEq

inductive Event where
  | listed (mission : String) (records : List Record)
  | started (tool : Tool) (mission : String) (source : ℕ)
  | finished (tool : Tool) (mission : String) (source : ℕ) (succeeded : Bool)
  | fetched (action : Action)
  | submitted (tool : Tool) (action : String)
deriving DecidableEq

/-- The database, the clock and what was seen. -/
structure World where
  attempts : List Attempt
  approvals : List (String × ApprovalStatus)
  now : ℚ
  log : List Event
deriving DecidableEq

/-! ## Operations -/

inductive PilotOp where
  /-- The lock, the database and its tables. -/
  | openFolder
  /-- The rows that are in progress need a review. -/
  | review
  /-- `execution_mode() in {'cli', 'hybrid'}`. -/
  | mode
  | accounts
  | connect (tool : Tool)
  | close
  /-- The missions of the runs of the last day that were handed off. -/
  | handedOff (tool : Tool)
  | actions (mission : String)
  | action (id : String)
  /-- `INSERT OR IGNORE INTO approvals`: whether a row was inserted. -/
  | claimApproval (id : String)
  | execute (tool : Tool) (id : String)
  | setApproval (id : String) (status : ApprovalStatus)
  | openMissions (project : String)
  | records (mission : String)
  | attempted (source : ℕ)
  /-- The number of attempts of the last day. -/
  | recentAttempts
  | insertAttempt (source : ℕ) (mission : String) (tool : Tool)
  | startCli (tool : Tool) (mission : String) (source : ℕ)
  /-- The CLI ends: whether its exit code is 0. -/
  | waitCli (tool : Tool) (mission : String) (source : ℕ)
  | setAttempt (source : ℕ) (status : AttemptStatus)

abbrev PilotOp.Reply : PilotOp → Type
  | .mode | .claimApproval _ | .attempted _ | .waitCli _ _ _ => Bool
  | .accounts => List Tool
  | .handedOff _ | .openMissions _ => List String
  | .actions _ => List Summary
  | .action _ => Action
  | .execute _ _ => String
  | .records _ => List Record
  | .recentAttempts => ℕ
  | _ => Unit

abbrev PilotProg (α : Type) : Type :=
  Prog (fallible PilotOp.Reply Unit) Unit α

/-- Ask an operation, and raise as it raises. -/
abbrev call (o : PilotOp) : PilotProg o.Reply :=
  Prog.request o

/-- What the environment chooses at an operation. -/
structure Choice where
  /-- The time that passes before it. -/
  elapsed : ℚ≥0
  raises : Bool
  /-- An operation that raises had its effect. -/
  (happened yes : Bool)
  tools : List Tool
  missions : List String
  summaries : List Summary
  answer : Action
  text : String
  found : List Record

def day : ℚ :=
  86400

def World.see (w : World) (e : Event) : World :=
  { w with log := w.log ++ [e] }

/-- The rows that are in progress need a review. -/
def World.review (w : World) : World :=
  { w with
    attempts := w.attempts.map fun a =>
      if a.status = .running then { a with status := .needsReview } else a
    approvals := w.approvals.map fun a => if a.2 = .executing then (a.1, .needsReview) else a }

/-- The answer of an operation that the environment lets succeed, and the world after it. An integer
of SQLite has 64 bits. -/
def PilotOp.run : (o : PilotOp) → Choice → World → Except Unit o.Reply × World
  | .openFolder, _, w => (.ok (), w)
  | .review, _, w => (.ok (), w.review)
  | .mode, x, w => (.ok x.yes, w)
  | .accounts, x, w => (.ok x.tools, w)
  | .connect _, _, w => (.ok (), w)
  | .close, _, w => (.ok (), w)
  | .handedOff tool, _, w =>
    (.ok ((w.attempts.filter fun a => a.tool = tool ∧ a.status = .handedOff ∧
      w.now - day < a.started).map Attempt.mission), w)
  | .actions _, x, w => (.ok x.summaries, w)
  | .action _, x, w => (.ok x.answer, w.see (.fetched x.answer))
  | .claimApproval id, _, w =>
    if id ∈ w.approvals.map Prod.fst then (.ok false, w)
    else (.ok true, { w with approvals := w.approvals ++ [(id, .executing)] })
  | .execute tool id, x, w => (.ok x.text, w.see (.submitted tool id))
  | .setApproval id status, _, w =>
    (.ok (), { w with approvals := w.approvals.map fun a => if a.1 = id then (id, status) else a })
  | .openMissions _, x, w => (.ok x.missions, w)
  | .records mission, x, w => (.ok x.found, w.see (.listed mission x.found))
  | .attempted source, _, w =>
    if 2 ^ 63 ≤ source then (.error (), w)
    else (.ok (w.attempts.any fun a => a.source = source), w)
  | .recentAttempts, _, w => (.ok (w.attempts.countP fun a => w.now - day < a.started), w)
  | .insertAttempt source mission tool, _, w =>
    if 2 ^ 63 ≤ source ∨ source ∈ w.attempts.map Attempt.source then (.error (), w)
    else (.ok (), { w with attempts := w.attempts ++ [⟨source, mission, tool, w.now, .running⟩] })
  | .startCli tool mission source, _, w => (.ok (), w.see (.started tool mission source))
  | .waitCli tool mission source, x, w =>
    (.ok x.yes, w.see (.finished tool mission source x.yes))
  | .setAttempt source status, _, w =>
    (.ok (), { w with attempts := w.attempts.map fun a =>
      if a.source = source then { a with status := status } else a })

def act (o : PilotOp) (x : Choice) (w : World) : Except Unit o.Reply × World :=
  let w' : World := { w with now := w.now + x.elapsed }
  if x.raises then (.error (), if x.happened then (o.run x w').2 else w') else o.run x w'

/-! ## The approvals -/

def followOne (tool : Tool) (mission : String) (summary : Summary) : PilotProg Unit :=
  if summary.status ≠ "approved" ∨ summary.requestedBy ≠ tool.actor then return ()
  else do
    let action : Action ← call (.action summary.id)
    if action.missionId ≠ mission ∨ action.requestedBy ≠ tool.actor ∨
        action.status ≠ "approved" then return ()
    else do
      let inserted : Bool ← call (.claimApproval action.id)
      if inserted = false then return ()
      else do
        let r ← Prog.attempt (call (.execute tool action.id))
        let status : ApprovalStatus :=
          match r with
          | .ok status => if status = "succeeded" then .completed else .needsReview
          | .error _ => .needsReview
        call (.setApproval action.id status)

def followAll (tool : Tool) (mission : String) : List Summary → PilotProg Unit
  | [] => return ()
  | summary :: summaries => do
    followOne tool mission summary
    followAll tool mission summaries

def followMissions (tool : Tool) : List String → PilotProg Unit
  | [] => return ()
  | mission :: missions => do
    let summaries : List Summary ← call (.actions mission)
    followAll tool mission summaries
    followMissions tool missions

def followApprovals (tool : Tool) : PilotProg Unit := do
  let missions : List String ← call (.handedOff tool)
  followMissions tool missions

/-! ## A cycle -/

def projects : List String :=
  ["infra-shared", "minecraft", "network-shared", "monitoring-shared", "backup-shared"]

def openMissions : List String → PilotProg (List String)
  | [] => return []
  | project :: rest => do
    let missions : List String ← call (.openMissions project)
    let others ← openMissions rest
    return missions ++ others

def attemptSource (tool : Tool) (mission : String) (source : ℕ) : PilotProg Unit := do
  call (.insertAttempt source mission tool)
  call (.startCli tool mission source)
  let succeeded : Bool ← call (.waitCli tool mission source)
  let records : List Record ← call (.records mission)
  call (.setAttempt source
    (if succeeded ∧ (replies source records).length = 1 then .handedOff else .needsReview))

variable (digits : Digits)

def takeMissions (tool : Tool) : List String → PilotProg Unit
  | [] => return ()
  | mission :: missions => do
    let records : List Record ← call (.records mission)
    let source ← Prog.ofExcept (sourceFor digits records tool)
    match source with
    | none => takeMissions tool missions
    | some source => do
      let attempted : Bool ← call (.attempted source)
      if attempted then takeMissions tool missions
      else do
        let recent : ℕ ← call .recentAttempts
        if 20 ≤ recent then return ()
        else do
          attemptSource tool mission source
          takeMissions tool missions

def cycle (tool : Tool) : PilotProg Unit := do
  followApprovals tool
  let missions ← openMissions projects
  takeMissions digits tool missions

def cycles (available : List Tool) : List Tool → PilotProg Unit
  | [] => return ()
  | tool :: tools =>
    if tool ∈ available then do
      call (.connect tool)
      cycle digits tool
      cycles available tools
    else cycles available tools

/-- What is in the `try` of the loop. -/
def turn (tools : List Tool) : PilotProg Unit := do
  let on : Bool ← call .mode
  if on then do
    let available : List Tool ← call .accounts
    cycles digits available tools
  else return ()

def turns (tools : List Tool) : ℕ → PilotProg Unit
  | 0 => return ()
  | n + 1 => do
    let r ← Prog.attempt (turn digits tools)
    match r with
    | .ok _ => turns tools n
    | .error _ => do
      call .close
      call .review
      turns tools n

def pilot (tools : List Tool) (n : ℕ) : PilotProg Unit := do
  call .openFolder
  call .review
  turns digits tools n

/-- The pilot is started again and again, and stops anywhere. -/
inductive Runs : World → Prop where
  | start (now : ℚ) : Runs ⟨[], [], now, []⟩
  | pilot {w w' : World} (tools : List Tool) (n : ℕ) (h : Runs w)
      (hr : (pilot digits tools n).Reaches act w w') : Runs w'

/-! ## What is claimed -/

def Names (records : List Record) (source : ℕ) : Prop :=
  ∀ n, (∃ e ∈ observed records, evidenceSource digits e = .ok (some n)) ↔ n = source

def DispatchedTo (records : List Record) (source : ℕ) (tool : Tool) : Prop :=
  ∀ e, e ∈ destinations source records ↔ e = dispatch source tool

def isStart (source : ℕ) : Event → Bool
  | .started _ _ s => s = source
  | _ => false

def isSubmission (id : String) : Event → Bool
  | .submitted _ a => a = id
  | _ => false

/-- The times fit in a half-open window of one day. -/
def Window (p : ℚ → Bool) : Prop :=
  ∀ s t, p s = true → p t = true → s < t + day

structure AtMostOnce (w : World) : Prop where
  once : ∀ source, w.log.countP (isStart source) ≤ 1
  justified : ∀ before after tool mission source,
    w.log = before ++ .started tool mission source :: after →
    ∃ records, before.getLast? = some (.listed mission records) ∧ Names digits records source ∧
      DispatchedTo records source tool ∧ replies source records = []
  recorded : ∀ tool mission source, .started tool mission source ∈ w.log →
    ∃ a ∈ w.attempts, a.source = source ∧ a.mission = mission ∧ a.tool = tool
  daily : ∀ p, Window p → w.attempts.countP (fun a => p a.started) ≤ 20
  submittedOnce : ∀ id, w.log.countP (isSubmission id) ≤ 1
  own : ∀ before after tool id, w.log = before ++ .submitted tool id :: after →
    ∃ action, before.getLast? = some (.fetched action) ∧ action.id = id ∧
      action.status = "approved" ∧ action.requestedBy = tool.actor ∧
      ∃ a ∈ w.attempts, a.mission = action.missionId ∧ a.tool = tool ∧ a.status = .handedOff
  answered : ∀ a ∈ w.attempts, a.status = .handedOff → ∃ before after records,
    w.log = before ++ .finished a.tool a.mission a.source true ::
      .listed a.mission records :: after ∧ (replies a.source records).length = 1

end OpsPilot
