import OpsControlPlane.Lib.Transaction
import OpsControlPlane.Lib.Calls

/-!
# The state of the bridge

The tables of the Zulip bridge and the transactions on them: the cursor of the event queue with
the events that were processed, the publications of two kinds with their markers, and the alerts
that were seen. Times of rows are left out, nothing reads them.
-/

namespace OpsBridge

open Transaction

/-! ## Failures -/

inductive Exc where
  | configuration (message : String)
  | protocol (message : String)
  | retryable (message : String)
  | rejected (message : String)
  | brokerRejected (status : ℕ)
  | queueExpired
  | resourceNotFound
  | sqlite (message : String)
  | assertion
deriving DecidableEq

/-! ## Rows -/

/-- The kinds of `publications`, and the one of `mobile_publications`. -/
inductive Kind where
  | approval
  | alertFiring
  | alertResolved
  | daily
  | mobile
deriving DecidableEq

inductive Status where
  | intent
  | published
deriving DecidableEq

structure Publication where
  kind : Kind
  (publicationKey marker : String)
  status : Status
  messageId : Option ℤ
deriving DecidableEq

def Publication.key (p : Publication) : Kind × String :=
  (p.kind, p.publicationKey)

structure StoredAlert where
  (fingerprint episodeKey : String)
  active : Bool
  (displayName severity project : String)
deriving DecidableEq

structure QueueRow where
  (realmFingerprint queueId : String)
  lastEventId : ℤ
deriving DecidableEq

structure ProcessedRow where
  (realmFingerprint queueId : String)
  eventId : ℤ
  outcome : String
deriving DecidableEq

structure EventState where
  queues : List QueueRow
  processedEvents : List ProcessedRow
  (publications mobilePublications : List Publication)
  alertState : List StoredAlert
deriving DecidableEq

/-- The tables of a new file. -/
def EventState.empty : EventState :=
  ⟨[], [], [], [], []⟩

/-! ## Publications -/

def EventState.table (st : EventState) : Kind → List Publication
  | .mobile => st.mobilePublications
  | _ => st.publications

def EventState.setTable (st : EventState) (kind : Kind) (rows : List Publication) : EventState :=
  match kind with
  | .mobile => { st with mobilePublications := rows }
  | _ => { st with publications := rows }

/-- What the messages of a table's errors begin with. -/
def Kind.label : Kind → String
  | .mobile => "mobile publication"
  | _ => "publication"

/-- The text is neither empty nor too long for a publication. -/
def identifies (s : String) : Bool :=
  1 ≤ s.length ∧ s.length ≤ 300

/-- The publication of the key in its table, and whether the intent is inserted by this call. -/
def beginIn (kind : Kind) (publicationKey marker : String) (rows : List Publication) :
    Except Exc ((Publication × Bool) × List Publication) :=
  if ¬ (identifies publicationKey ∧ identifies marker) then
    .error (.configuration ("invalid " ++ kind.label ++ " identity"))
  else
    match row Publication.key (kind, publicationKey) rows with
    | some p =>
      if p.marker ≠ marker then
        .error (.configuration (kind.label ++ " marker conflicts with durable state"))
      else .ok ((p, false), rows)
    | none =>
      let p : Publication := ⟨kind, publicationKey, marker, .intent, none⟩
      .ok ((p, true), rows ++ [p])

def awaits (kind : Kind) (publicationKey marker : String) (messageId : ℤ) (p : Publication) :
    Bool :=
  p.key = (kind, publicationKey) ∧ p.marker = marker ∧
    (p.status = .intent ∨ p.messageId = some messageId)

def Publication.publish (messageId : ℤ) (p : Publication) : Publication :=
  { p with status := .published, messageId := some messageId }

def markIn (kind : Kind) (publicationKey marker : String) (messageId : ℤ)
    (rows : List Publication) : Except Exc (Publication × List Publication) :=
  if messageId ≤ 0 then .error (.configuration "invalid published Zulip message ID")
  else if rows.countP (awaits kind publicationKey marker messageId) ≠ 1 then
    .error (.configuration (kind.label ++ " state changed unexpectedly"))
  else .ok (⟨kind, publicationKey, marker, .published, some messageId⟩,
    update (awaits kind publicationKey marker messageId) (Publication.publish messageId) rows)

def beginPublication (kind : Kind) (publicationKey marker : String) (st : EventState) :
    Except Exc ((Publication × Bool) × EventState) :=
  if kind = .mobile then .error (.configuration "invalid publication kind")
  else (beginIn kind publicationKey marker (st.table kind)).map fun p =>
    (p.1, st.setTable kind p.2)

def markPublished (kind : Kind) (publicationKey marker : String) (messageId : ℤ)
    (st : EventState) : Except Exc (Publication × EventState) :=
  (markIn kind publicationKey marker messageId (st.table kind)).map fun p =>
    (p.1, st.setTable kind p.2)

def beginMobilePublication (publicationKey marker : String) (st : EventState) :
    Except Exc ((Publication × Bool) × EventState) :=
  (beginIn .mobile publicationKey marker (st.table .mobile)).map fun p =>
    (p.1, st.setTable .mobile p.2)

def markMobilePublished (publicationKey marker : String) (messageId : ℤ) (st : EventState) :
    Except Exc (Publication × EventState) :=
  (markIn .mobile publicationKey marker messageId (st.table .mobile)).map fun p =>
    (p.1, st.setTable .mobile p.2)

/-! ## Alerts -/

def getAlert (fingerprint : String) (st : EventState) : Option StoredAlert :=
  row StoredAlert.fingerprint fingerprint st.alertState

def activeAlerts (st : EventState) : List StoredAlert :=
  (st.alertState.filter fun a => a.active).insertionSort fun a b => a.fingerprint ≤ b.fingerprint

/-- The alert in place of the one with its fingerprint, or after the others. -/
def upsertAlert (a : StoredAlert) (rows : List StoredAlert) : List StoredAlert :=
  match row StoredAlert.fingerprint a.fingerprint rows with
  | some _ => update (fun r => r.fingerprint = a.fingerprint) (fun _ => a) rows
  | none => rows ++ [a]

def saveAlert (a : StoredAlert) (st : EventState) : Except Exc (StoredAlert × EventState) :=
  if a.fingerprint = "" ∨ a.episodeKey = "" ∨ a.displayName = "" ∨ a.severity = "" ∨
      a.project = "" then
    .error (.configuration "invalid durable alert identity")
  else if a.fingerprint.length ≠ 64 ∨ a.episodeKey.length ≠ 64 then
    .error (.configuration "invalid durable alert digest")
  else if 120 < a.displayName.length ∨ 40 < a.severity.length ∨ 120 < a.project.length then
    .error (.configuration "durable alert display fields are too long")
  else .ok (a, { st with alertState := upsertAlert a st.alertState })

/-! ## Lemmas of the tables -/

@[simp] theorem table_setTable (st : EventState) (kind : Kind) (rows : List Publication) :
    (st.setTable kind rows).table kind = rows := by
  cases kind <;> rfl

variable {kind kind' : Kind}

theorem table_setTable_of_ne (h : kind = .mobile ↔ ¬ kind' = .mobile) (st : EventState)
    (rows : List Publication) : (st.setTable kind rows).table kind' = st.table kind' := by
  cases kind <;> cases kind' <;> simp_all [EventState.setTable, EventState.table]

theorem table_congr (h : kind = .mobile ↔ kind' = .mobile) (st : EventState) :
    st.table kind = st.table kind' := by
  cases kind <;> cases kind' <;> simp_all [EventState.table]

variable {publicationKey marker : String} {rows rows' : List Publication} {p : Publication}

/-- The publication of a key once it was begun. -/
theorem beginIn_cases {inserted : Bool}
    (h : beginIn kind publicationKey marker rows = .ok ((p, inserted), rows')) :
    p.marker = marker ∧ p.key = (kind, publicationKey) ∧
    (inserted = false ∧ rows' = rows ∧ p ∈ rows ∨
      inserted = true ∧ rows' = rows ++ [p] ∧
        p = ⟨kind, publicationKey, marker, .intent, none⟩ ∧
        ∀ q ∈ rows, q.key ≠ (kind, publicationKey)) := by
  unfold beginIn at h
  split_ifs at h
  split at h
  · next q hq =>
    split_ifs at h with hmarker
    obtain ⟨hp, rfl⟩ := Prod.mk.inj (Except.ok.inj h)
    obtain ⟨rfl, rfl⟩ := Prod.mk.inj hp
    exact ⟨not_not.1 hmarker, (row_some hq).2, Or.inl ⟨rfl, rfl, (row_some hq).1⟩⟩
  · next hnone =>
    obtain ⟨hp, rfl⟩ := Prod.mk.inj (Except.ok.inj h)
    obtain ⟨rfl, rfl⟩ := Prod.mk.inj hp
    exact ⟨rfl, rfl, Or.inr ⟨rfl, rfl, rfl, row_eq_none.1 hnone⟩⟩

theorem markIn_cases {messageId : ℤ}
    (h : markIn kind publicationKey marker messageId rows = .ok (p, rows')) :
    rows' = update (awaits kind publicationKey marker messageId)
      (Publication.publish messageId) rows := by
  unfold markIn at h
  split_ifs at h
  exact (Prod.mk.inj (Except.ok.inj h)).2.symm

end OpsBridge
