import OpsControlPlane.Bridge.Approvals
import OpsControlPlane.Bridge.Decisions
import OpsControlPlane.Bridge.Publishers
import Mathlib.Data.List.DropRight

/-!
# The message of an approval

`_safe_text` makes one line of an untrusted text, without the markers of the bridge, and the
message of an approval has three of them in front of its own marker.

The normal form of a text is a parameter.
-/

namespace OpsBridge

open Text Calendar Regex OpsControlPlane

variable [Platform]

def forgedMarker : Re :=
  Re.seqs [wordI ['o', 'p', 's'] '-',
    Re.alts (wordI ['a', 'p', 'p', 'r', 'o', 'v', 'a'] 'l')
      [wordI ['a', 'l', 'e', 'r'] 't', wordI ['d', 'a', 'i', 'l'] 'y']]
    (wordI ['-', 'v', '1'] ':')

def markdownTranslation (c : Char) : Char :=
  match c with
  | '@' => '＠'
  | '*' => '∗'
  | '`' => '\''
  | '<' => '‹'
  | '>' => '›'
  | '[' => '('
  | ']' => ')'
  | c => c

/-- `_safe_text`, `nfkc` being `unicodedata.normalize("NFKC", ...)`. -/
def safeText (nfkc : List Char → List Char) (value : String) (maximum : ℕ) (fallback : String) :
    List Char :=
  let withoutControls := (nfkc (toChars value)).map fun c =>
    if Platform.isControl c then ' ' else c
  let collapsed := collapse (ofChars withoutControls)
  let collapsed := (forgedMarker.sub (fun _ => toChars "OPS-MARKER:") collapsed).map
    markdownTranslation
  let collapsed := if collapsed = [] then toChars fallback else collapsed
  if maximum < collapsed.length then
    (collapsed.take (maximum - 1)).rdropWhile isSpace ++ ['…']
  else collapsed

/-- `deadline.astimezone(timezone.utc).strftime("%Y-%m-%d %H:%M UTC")`. -/
def deadlineText (deadline : DateTime) : List Char :=
  render [(4, '-'), (2, '-'), (2, ' '), (2, ':'), (2, ' ')] deadline.fields ++ toChars "UTC"

def approvalContent (nfkc : List Char → List Char) (approval : PendingApproval)
    (deadline : DateTime) : List Char :=
  toChars "Approbation requise : " ++
    safeText nfkc approval.summary 180 "Changement à valider" ++ toChars ". Impact : " ++
    safeText nfkc approval.impact 180 "impact à confirmer" ++ toChars ". Rollback : " ++
    safeText nfkc approval.rollback 180 "rollback à confirmer" ++ toChars ". Échéance : " ++
    deadlineText deadline ++ toChars ".\nRéagir ✅ pour approuver ou ❌ pour refuser.\n" ++
    (OpsDecisions.literal ++ toChars approval.actionId)

structure ApprovalSettings where
  approvalStream : String
  approvalStreamId : ℤ
  approvalTopic : String

/-- What `_publish` hands to `publish_once` at an instant, for a deadline that has not passed. -/
def approvalNotice (nfkc : List Char → List Char) (fromisoformat : ReadDeadline)
    (settings : ApprovalSettings) (now : DateTime) (approval : PendingApproval) :
    Option Notice :=
  match fromisoformat approval.deadline with
  | some (deadline, _) =>
    if deadline ≤ now then none
    else some ⟨.approval, approval.actionId, "OPS-APPROVAL-V1:" ++ approval.actionId,
      settings.approvalStream, settings.approvalStreamId, settings.approvalTopic,
      .ok (ofChars (approvalContent nfkc approval deadline))⟩
  | none => none

end OpsBridge
