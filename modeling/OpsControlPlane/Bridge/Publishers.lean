import OpsControlPlane.Bridge.State

/-!
# Publications

A publication is an intent in the state, a message sent to Zulip and a confirmation in the state,
each of them a step that may fail or be the last one of its process. `publishOnce` and
`publishMobileOnce` look for an earlier message of a known intent before they send one.

A message keeps the kind and the key of the publication that it was sent for, which Zulip does
not see.
-/

namespace OpsBridge

open Transaction Calls

/-! ## Operations -/

inductive StateTx where
  | begin (kind : Kind) (publicationKey marker : String)
  | mark (kind : Kind) (publicationKey marker : String) (messageId : ℤ)
  | getAlert (fingerprint : String)
  | activeAlerts
  | saveAlert (alert : StoredAlert)

abbrev StateTx.Reply : StateTx → Type
  | .begin _ _ _ => Publication × Bool
  | .mark _ _ _ _ => Publication
  | .getAlert _ => Option StoredAlert
  | .activeAlerts => List StoredAlert
  | .saveAlert _ => StoredAlert

def StateTx.run : (t : StateTx) → EventState → Except Exc (t.Reply × EventState)
  | .begin .mobile publicationKey marker, st => beginMobilePublication publicationKey marker st
  | .begin kind publicationKey marker, st => beginPublication kind publicationKey marker st
  | .mark .mobile publicationKey marker id, st => markMobilePublished publicationKey marker id st
  | .mark kind publicationKey marker id, st => markPublished kind publicationKey marker id st
  | .getAlert fingerprint, st => .ok (OpsBridge.getAlert fingerprint st, st)
  | .activeAlerts, st => .ok (OpsBridge.activeAlerts st, st)
  | .saveAlert alert, st => OpsBridge.saveAlert alert st

/-- A message that a search returns, none where the value is not of the type that is asked. -/
structure Found where
  id : Option ℤ
  type : Option String
  streamId : Option ℤ
  (displayRecipient subject : Option String)
  senderId : Option ℤ
  content : Option String

/-- What a publisher asks of its environment. -/
inductive BridgeOp where
  | state (t : StateTx)
  /-- `GET /api/v1/messages`. -/
  | search (stream topic marker : String)
  /-- `POST /api/v1/messages`, for the publication of a key. -/
  | send (origin : Kind × String) (stream topic content : String)

abbrev BridgeOp.Reply : BridgeOp → Type
  | .state t => t.Reply
  | .search _ _ _ => List Found
  | .send _ _ _ _ => ℤ

abbrev bridgeInterface : Interface :=
  ⟨BridgeOp, fun o => Except Exc o.Reply⟩

abbrev Publisher (α : Type) : Type :=
  Prog bridgeInterface Exc α

/-- Ask an operation, and fail as it fails. -/
def perform (o : BridgeOp) : Publisher o.Reply := do
  let r : Except Exc o.Reply ← Prog.perform (I := bridgeInterface) o
  Prog.ofExcept r

/-! ## Publishers -/

structure Notice where
  kind : Kind
  (publicationKey marker stream : String)
  streamId : ℤ
  topic : String
  content : Except Exc String

def Notice.key (n : Notice) : Kind × String :=
  (n.kind, n.publicationKey)

/-- `content.count(marker)`, the characters left of an occurrence that is counted first. -/
def occurrences (marker : List Char) : ℕ → List Char → ℕ
  | _, [] => 0
  | n + 1, _ :: cs => occurrences marker n cs
  | 0, c :: cs =>
    if marker.isPrefixOf (c :: cs) then 1 + occurrences marker (marker.length - 1) cs
    else occurrences marker 0 cs

/-- The message is one of the bot in the topic, with the marker once in its content. -/
def Notice.recognizes (n : Notice) (botUserId : ℤ) (m : Found) : Bool :=
  (∃ id ∈ m.id, 0 < id) ∧ m.type = some "stream" ∧ m.streamId = some n.streamId ∧
    m.displayRecipient = some n.stream ∧ m.subject = some n.topic ∧
    m.senderId = some botUserId ∧
    ∃ content ∈ m.content, occurrences n.marker.toList 0 content.toList = 1

/-- What `find_own_marker` makes of the messages that are found. -/
def ownMarker (n : Notice) (botUserId : ℤ) (messages : List Found) :
    Except Exc (Option ℤ) :=
  if 50 < messages.length then
    .error (.protocol "Zulip returned an invalid marker search result")
  else
    match (messages.filter (n.recognizes botUserId)).filterMap Found.id with
    | [] => .ok none
    | [id] => .ok (some id)
    | _ => .error (.protocol "multiple Zulip messages contain one publication marker")

def findOwnMarker (n : Notice) (botUserId : ℤ) : Publisher (Option ℤ) := do
  let messages : List Found ← perform (.search n.stream n.topic n.marker)
  Prog.ofExcept (ownMarker n botUserId messages)

def sendStreamMessage (n : Notice) (content : String) : Publisher ℤ :=
  if content = "" ∨ 2000 < content.length then
    .fail (.protocol "a generated Zulip message exceeds its safety bound")
  else do
    let id : ℤ ← perform (.send n.key n.stream n.topic content)
    if id ≤ 0 then .fail (.protocol "Zulip returned an invalid published message ID")
    else return id

/-- The message is sent and recorded. -/
def sendAndMark (n : Notice) : Publisher ℤ := do
  let content ← Prog.ofExcept n.content
  let id ← sendStreamMessage n content
  let _ : Publication ← perform (.state (.mark n.kind n.publicationKey n.marker id))
  return id

/-- The earlier message of a known intent, recorded. -/
def recover (n : Notice) (botUserId : ℤ) : Publisher (Option ℤ) := do
  match ← findOwnMarker n botUserId with
  | some id => do
    let _ : Publication ← perform (.state (.mark n.kind n.publicationKey n.marker id))
    return some id
  | none => return none

def publish (n : Notice) (botUserId : ℤ) : Publisher ℤ := do
  let (publication, inserted) : Publication × Bool ←
    perform (.state (.begin n.kind n.publicationKey n.marker))
  match publication.status with
  | .published =>
    match publication.messageId with
    | some id => return id
    | none => .fail .assertion
  | .intent =>
    if inserted then sendAndMark n
    else do
      match ← recover n botUserId with
      | some id => return id
      | none => sendAndMark n

def publishOnce (kind : Kind) (publicationKey marker stream : String) (streamId : ℤ)
    (topic content : String) (botUserId : ℤ) : Publisher ℤ :=
  publish ⟨kind, publicationKey, marker, stream, streamId, topic, .ok content⟩ botUserId

def publishMobileOnce (publicationKey marker stream : String) (streamId : ℤ) (topic : String)
    (content : Except Exc String) (botUserId : ℤ) : Publisher ℤ :=
  publish ⟨.mobile, publicationKey, marker, stream, streamId, topic, content⟩ botUserId

/-! ## The system -/

structure Message where
  id : ℤ
  origin : Kind × String
  (stream topic content : String)
deriving DecidableEq

/-- The state of the bridge, and the messages that Zulip took from the bot. -/
structure World where
  events : EventState
  messages : List Message
deriving DecidableEq

/-- Nothing is published yet. -/
def World.empty : World :=
  ⟨.empty, []⟩

/-- What the environment chooses when an operation is performed. -/
structure BridgeChoice where
  fault : Option String
  found : Except Exc (List Found)
  /-- The identifier of the message that is sent. -/
  id : ℤ
  sent : Except Exc Unit
  delivered : Bool

def performBridge : (o : BridgeOp) → BridgeChoice → World → Except Exc o.Reply × World
  | .state t, x, w =>
    match x.fault with
    | some message => (.error (.sqlite message), w)
    | none =>
      match t.run w.events with
      | .ok (r, events) => (.ok r, { w with events := events })
      | .error e => (.error e, w)
  | .search _ _ _, x, w => (x.found, w)
  | .send origin stream topic content, x, w =>
    match x.sent with
    | .ok () => (.ok x.id,
      { w with messages := w.messages ++ [⟨x.id, origin, stream, topic, content⟩] })
    | .error e =>
      if x.delivered then (.error e,
        { w with messages := w.messages ++ [⟨x.id, origin, stream, topic, content⟩] })
      else (.error e, w)

/-- A publication that is asked of the process, with the bot that it runs as. -/
structure Request where
  notice : Notice
  botUserId : ℤ

/-- The calls of both publishers over one world. -/
abbrev bridgeSystem : System where
  I := bridgeInterface
  Err := Exc
  Res := ℤ
  Store := World
  Request := Request
  Choice := BridgeChoice
  program r := publish r.notice r.botUserId
  perform := performBridge

/-- The bridge before its first call. -/
def idle (w : World) : State bridgeSystem :=
  ⟨w, []⟩

end OpsBridge
