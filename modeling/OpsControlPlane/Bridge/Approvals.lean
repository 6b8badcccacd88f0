import OpsControlPlane.Broker.Api
import OpsControlPlane.Bridge.State
import OpsControlPlane.Lib.Undisturbed

/-!
# A cycle of the approval publisher

`PendingApprovalPublisher.poll_once` reads the pending approvals of the broker page by page, and
hands each one that has not expired to `publish_once`. The broker answers from one database, at one
instant, during the whole cycle.
-/

namespace OpsBridge

open Text JsonText Calendar OpsControlPlane

def maxPendingPerCycle : ℕ :=
  500

def maxBrokerResponseBytes : ℕ :=
  65536

structure PageSize where
  val : ℕ
  pos : 1 ≤ val
  le : val ≤ 50

structure PendingApproval where
  (actionId summary impact rollback deadline : String)
deriving DecidableEq

/-- What the host reads in a deadline, with `Z` for `+00:00`: an instant, and whether the text
names a time zone. -/
abbrev ReadDeadline : Type :=
  String → Option (DateTime × Bool)

variable [Platform]

/-- `_request`, with what the broker answers. Its web framework sends a value in a body of some
size, and the client takes no body that is too large. -/
def request (bodySize : Value → ℕ) (answer : Except PyError Value) :
    Except Exc Value :=
  match answer with
  | .ok payload =>
    if maxBrokerResponseBytes < bodySize payload then
      .error (.protocol "an endpoint response exceeded the configured safety limit")
    else .ok payload
  | .error _ => .error (.retryable "the local Ops broker returned a transient failure")

def isPublished (fromisoformat : ReadDeadline) (now : DateTime) (a : PendingApproval) : Bool :=
  match fromisoformat a.deadline with
  | some (deadline, _) => now < deadline
  | none => false

/-- The pages from an offset on: what is handed to `publish_once`, and the exception that ends the
cycle. -/
def pages (now : DateTime) (size : PageSize) (fromisoformat : ReadDeadline)
    (fetch : ℕ → ℕ → Except Exc (List PendingApproval)) (offset : ℕ) :
    List PendingApproval × Option Exc :=
  if offset < maxPendingPerCycle then
    let limit := min size.val (maxPendingPerCycle - offset)
    match fetch limit offset with
    | .error e => ([], some e)
    | .ok page =>
      let published := page.filter (isPublished fromisoformat now)
      if page.length < limit then (published, none)
      else
        let rest := pages now size fromisoformat fetch (offset + page.length)
        (published ++ rest.1, rest.2)
  else ([], none)
termination_by maxPendingPerCycle - offset
decreasing_by
  have := size.pos
  omega

end OpsBridge
