import OpsControlPlane.Vault.Backup
import Mathlib.Data.List.Basic

/-!
# Decisions on an approval message

The web surface decides by adding a reaction to the published message, the bridge submits a
decision for each reaction that was added. Both read the message and its reactions, each in its own
way: `decide` and `process`.

The message is published and pending. A step is one request of the web surface, one reaction in
Zulip, one event of the bridge or one export of the snapshot.
-/

namespace OpsDecisions

open Text
open OpsVault (isDigit matchesShape)

/-! ## Markers -/

/-- `OPS-APPROVAL-V1:`. -/
def literal : List Char :=
  toChars "OPS-APPROVAL-V1:"

def isHex (c : Char) : Bool :=
  isDigit c || ('a' ≤ c && c ≤ 'f')

/-- `[A-Za-z0-9_-]`. -/
def isWord (c : Char) : Bool :=
  isDigit c || ('a' ≤ c && c ≤ 'z') || ('A' ≤ c && c ≤ 'Z') || c = '_' || c = '-'

/-- The group of `MARKER`, at the start of the text. -/
def webMatch (s : List Char) : Option (List Char) :=
  let group := (s.drop literal.length).take 36
  if literal.isPrefixOf s && group.length = 36 && group.all fun c => isHex c || c = '-' then
    some group
  else none

def uuidShape : List (Char → Bool) :=
  List.replicate 8 isHex ++ [(· == '-')] ++ List.replicate 4 isHex ++ [(· == '-'), (· == '4')] ++
    List.replicate 3 isHex ++ [(· == '-'), fun c => c = '8' || c = '9' || c = 'a' || c = 'b'] ++
    List.replicate 3 isHex ++ [(· == '-')] ++ List.replicate 12 isHex

/-- The group of `APPROVAL_MARKER`, at the start of the text and behind a character. -/
def bridgeMatch (prev : Option Char) (s : List Char) : Option (List Char) :=
  (webMatch s).filter fun group =>
    matchesShape uuidShape group && !prev.any isWord &&
      !(s.drop (literal.length + 36)).head?.any isWord

/-- `findall` of a pattern whose matches have 52 characters. -/
def findall (pattern : Option Char → List Char → Option (List Char)) :
    ℕ → Option Char → List Char → List (List Char)
  | 0, _, _ => []
  | _, _, [] => []
  | n + 1, prev, c :: s =>
    match pattern prev (c :: s) with
    | some group => group :: findall pattern n group.getLast? ((c :: s).drop (literal.length + 36))
    | none => findall pattern n (some c) s

/-- `MARKER.findall`. -/
def webMarkers (content : List Char) : List (List Char) :=
  findall (fun _ => webMatch) content.length none content

/-- `APPROVAL_MARKER.findall`. -/
def bridgeMarkers (content : List Char) : List (List Char) :=
  findall bridgeMatch content.length none content

/-! ## Messages, reactions and accounts -/

structure Reaction where
  user : ℕ
  (kind name code : String)
deriving DecidableEq

structure Message where
  id : ℕ
  kind : String
  streamId : ℕ
  (displayRecipient subject : String)
  senderId : ℕ
  content : List Char

structure Account where
  userId : ℕ
  (isBot isActive isDeleted isImportedStub : Option Bool)

/-- The configuration of both sides, and the accounts of the realm. -/
structure Setup where
  approvers : List ℕ
  streamId : ℕ
  (stream topic : String)
  bot : ℕ
  /-- `get_user`, and `users/me` of the user. -/
  account : ℕ → Option Account

/-- A message that was published for an action: its last line is the marker. -/
structure Published (z : Setup) where
  message : Message
  (actionId head : List Char)
  kind : message.kind = "stream"
  streamId : message.streamId = z.streamId
  displayRecipient : message.displayRecipient = z.stream
  subject : message.subject = z.topic
  senderId : message.senderId = z.bot
  shape : matchesShape uuidShape actionId = true
  content : message.content = head ++ '\n' :: (literal ++ actionId)

/-- `approve` or `reject`. -/
inductive Verdict where
  | approve
  | reject
deriving DecidableEq

inductive Choice where
  | verdict (d : Verdict)
  | later
  | resume
deriving DecidableEq

def emoji : Choice → String × String
  | .verdict .approve => ("check", "2705")
  | .verdict .reject => ("cross_mark", "274c")
  | .later => ("hourglass", "231b")
  | .resume => ("hourglass", "231b")

/-! ## The bridge -/

def reactionDecision (r : Reaction) : Option Verdict :=
  if (r.kind, r.name, r.code) = ("unicode_emoji", "check", "2705") then some .approve
  else if (r.kind, r.name, r.code) = ("unicode_emoji", "cross_mark", "274c") then some .reject
  else none

def bridgeHuman (user : ℕ) (a : Account) : Bool :=
  a.userId = user && a.isBot = some false && a.isActive = some true && a.isDeleted ≠ some true &&
    a.isImportedStub ≠ some true

def isTargetMessage (z : Setup) (m : Message) (id : ℕ) : Bool :=
  m.id = id && m.kind = "stream" && m.streamId = z.streamId && m.displayRecipient = z.stream &&
    m.subject = z.topic && m.senderId = z.bot

structure Submission where
  actionId : List Char
  user : ℕ
  decision : Verdict
deriving DecidableEq

/-- `process`: what is submitted for a reaction that was added to the message. -/
def process (z : Setup) (m : Message) (r : Reaction) : Option Submission :=
  match reactionDecision r with
  | none => none
  | some decision =>
    if r.user ∉ z.approvers then none
    else
      match z.account r.user with
      | none => none
      | some a =>
        if bridgeHuman r.user a = false then none
        else if isTargetMessage z m m.id = false then none
        else
          match bridgeMarkers m.content with
          | [marker] => some ⟨marker, r.user, decision⟩
          | _ => none

/-! ## The web surface -/

def webHuman (z : Setup) (user : ℕ) (a : Account) : Bool :=
  a.userId = user && a.userId ∈ z.approvers && a.isBot ≠ some true && a.isActive ≠ some false

def verifyMessage (z : Setup) (m : Message) (actionId : List Char) : Bool :=
  m.senderId = z.bot && m.streamId = z.streamId &&
    (m.subject = z.topic || m.subject = "✔ " ++ z.topic) && m.kind = "stream" &&
    webMarkers m.content = [actionId]

/-- A call that is under way. -/
inductive Phase where
  | looking (shown : Option Verdict)
  /-- The reaction is about to be added. -/
  | posting
  /-- The reaction is about to be removed. -/
  | deleting
  | waiting
deriving DecidableEq

inductive Result where
  /-- It returns without error. -/
  | done
  /-- `Une décision est déjà en cours dans Zulip.` -/
  | underWay
  | failed
deriving DecidableEq

def opposite (d : Verdict) : String :=
  match d with
  | .approve => "274c"
  | .reject => "2705"

def conflicts (z : Setup) (d : Verdict) (reactions : List Reaction) : Bool :=
  reactions.any fun r => r.user ∈ z.approvers && r.kind = "unicode_emoji" && r.code = opposite d

def owns (user : ℕ) (code : String) (reactions : List Reaction) : Bool :=
  reactions.any fun r => r.user = user && r.code = code && r.kind = "unicode_emoji"

/-- `decide`, once the message is read: the call ends, or goes on. -/
def Web.decide (z : Setup) (p : Published z) (user : ℕ) (choice : Choice) (shown : Option Verdict)
    (reactions : List Reaction) : Result ⊕ Phase :=
  if verifyMessage z p.message p.actionId = false then .inl .failed
  else if p.message.subject ≠ z.topic ∨ shown ≠ none then .inl .failed
  else
    let own := owns user (emoji choice).2 reactions
    match choice with
    | .verdict d =>
      if conflicts z d reactions then .inl .underWay
      else if own then .inr .waiting
      else .inr .posting
    | .later => if own then .inl .done else .inr .posting
    | .resume => if own then .inr .deleting else .inl .done

/-! ## Steps -/

inductive Origin where
  /-- The user added it in Zulip. -/
  | direct
  /-- A call of the user added it. -/
  | web (choice : Choice)
deriving DecidableEq

structure Added where
  reaction : Reaction
  origin : Origin
deriving DecidableEq

structure Ended where
  user : ℕ
  choice : Choice
  result : Result
deriving DecidableEq

/-- The message, the bridge, the broker and the web surface. -/
structure World where
  reactions : List Reaction
  /-- Every reaction ever added, in order. -/
  adds : List Added
  /-- How many of them the bridge has processed. -/
  handled : ℕ
  submissions : List Submission
  decision : Option Verdict
  shown : Option Verdict
  call : Option (ℕ × Choice × Phase)
  ended : List Ended
deriving DecidableEq

def World.start : World :=
  ⟨[], [], 0, [], none, none, none, []⟩

inductive Move where
  /-- A user adds a reaction in Zulip. -/
  | react (r : Reaction)
  /-- A user removes a reaction in Zulip. -/
  | unreact (r : Reaction)
  /-- The bridge processes an event, and the broker accepts what it submits or refuses it. -/
  | bridge (accepted : Bool)
  | snapshot
  /-- A call gets the lock and reads the snapshot. -/
  | begin (user : ℕ) (choice : Choice)
  /-- The call reads the message. -/
  | look
  | request (carried confirmed : Bool)
  /-- The wait of the call ends, without error or with one. -/
  | wait (ok : Bool)
  /-- The web surface stops. -/
  | kill
deriving DecidableEq

def World.finish (w : World) (user : ℕ) (choice : Choice) (result : Result) : World :=
  { w with call := none, ended := w.ended ++ [⟨user, choice, result⟩] }

def World.add (w : World) (r : Reaction) (origin : Origin) : World :=
  { w with reactions := w.reactions ++ [r], adds := w.adds ++ [⟨r, origin⟩] }

def World.drop (w : World) (user : ℕ) (code : String) : World :=
  { w with reactions := w.reactions.filter fun r =>
      !(r.user = user && r.code = code && r.kind = "unicode_emoji") }

def ownReaction (user : ℕ) (choice : Choice) : Reaction :=
  ⟨user, "unicode_emoji", (emoji choice).1, (emoji choice).2⟩

def World.requested (w : World) (user : ℕ) (choice : Choice) : World :=
  match choice with
  | .verdict _ => { w with call := some (user, choice, .waiting) }
  | _ => w.finish user choice .done

variable {z : Setup}

def step (p : Published z) (w : World) : Move → Option World
  | .react r => some (w.add r .direct)
  | .unreact r => some { w with reactions := w.reactions.erase r }
  | .bridge accepted =>
    match w.adds[w.handled]? with
    | none => none
    | some e =>
      match process z p.message e.reaction with
      | none => some { w with handled := w.handled + 1 }
      | some s => some
        { w with
          handled := w.handled + 1
          submissions := w.submissions ++ [s]
          decision := if accepted && w.decision = none then some s.decision else w.decision }
  | .snapshot => some { w with shown := w.decision }
  | .begin user choice =>
    match w.call with
    | some _ => none
    | none =>
      if (z.account user).any (webHuman z user) then
        some { w with call := some (user, choice, .looking w.shown) }
      else some { w with ended := w.ended ++ [⟨user, choice, .failed⟩] }
  | .look =>
    match w.call with
    | some (user, choice, .looking shown) =>
      match Web.decide z p user choice shown w.reactions with
      | .inl result => some (w.finish user choice result)
      | .inr phase => some { w with call := some (user, choice, phase) }
    | _ => none
  | .request carried confirmed =>
    match w.call with
    | some (user, choice, .posting) =>
      let posted := if carried then w.add (ownReaction user choice) (.web choice) else w
      some (if carried && confirmed then posted.requested user choice
        else posted.finish user choice .failed)
    | some (user, choice, .deleting) =>
      let deleted := if carried then w.drop user (emoji choice).2 else w
      some (deleted.finish user choice (if carried && confirmed then .done else .failed))
    | _ => none
  | .wait ok =>
    match w.call with
    | some (user, choice, .waiting) =>
      some (w.finish user choice (if ok then .done else .failed))
    | _ => none
  | .kill =>
    match w.call with
    | some (user, choice, _) => some (w.finish user choice .failed)
    | none => none

end OpsDecisions
