import OpsControlPlane.Broker.Trails
import OpsControlPlane.Broker.Writes

/-!
# Artifacts are recorded once

A column of the artifacts that holds a value keeps it: only `record_action_artifacts` writes to the
table, and it refuses to change what a column holds (`Holds.commit`). It takes the empty text and
the empty object for a column that holds nothing, so that these two are not kept
(`emptied_replaced`).
-/

set_option linter.unusedSectionVars false

namespace OpsControlPlane

open JsonText Calendar Transaction Calls

/-! ## Columns -/

inductive ArtifactColumn where
  | beforeDigest
  | afterDigest
  | targetVersion
  | rollbackRef
  | diffArtifact
  | healthcheck
  deriving DecidableEq, Repr

def ArtifactsPatch.given (p : ArtifactsPatch) : ArtifactColumn → Option String
  | .beforeDigest => p.beforeDigest
  | .afterDigest => p.afterDigest
  | .targetVersion => p.targetVersion
  | .rollbackRef => p.rollbackRef
  | .diffArtifact => p.diffArtifact
  | .healthcheck => p.healthcheckJson

def ArtifactsRow.held (r : ArtifactsRow) : ArtifactColumn → Option String
  | .beforeDigest => r.beforeDigest
  | .afterDigest => r.afterDigest
  | .targetVersion => r.targetVersion
  | .rollbackRef => r.rollbackRef
  | .diffArtifact => r.diffArtifact
  | .healthcheck => some r.healthcheckJson

variable [Platform]

theorem held_apply (p : ArtifactsPatch) (now : String) (r : ArtifactsRow) (f : ArtifactColumn) :
    (p.apply now r).held f = (p.given f).or (r.held f) := by
  cases f with
  | healthcheck => cases hp : p.healthcheckJson <;> simp [ArtifactsPatch.apply,
      ArtifactsPatch.given, ArtifactsRow.held, hp]
  | _ => rfl

variable {p : ArtifactsPatch}

theorem keeps_of_changedColumn {r : ArtifactsRow} (h : p.changedColumn r = none)
    (f : ArtifactColumn) : ArtifactsPatch.keeps (p.given f) (r.held f) = true := by
  have hall := List.find?_eq_none.1 (Option.map_eq_none_iff.1 h)
  cases f <;> simp_all [ArtifactsPatch.given, ArtifactsRow.held]

variable {v id : String}

theorem given_of_keeps {value : Option String} (hv : v ≠ "" ∧ v ≠ "{}")
    (h : ArtifactsPatch.keeps value (some v) = true) : value = none ∨ value = some v := by
  cases value with
  | none => exact .inl rfl
  | some w =>
    have hcases : v = "" ∨ v = "{}" ∨ v = w := of_decide_eq_true h
    exact .inr (congrArg some ((hcases.resolve_left hv.1).resolve_left hv.2).symm)

def Holds (db : Db) (actionId : String) (f : ArtifactColumn) (v : String) : Prop :=
  ∃ r, row ArtifactsRow.actionId actionId db.actionArtifacts = some r ∧ r.held f = some v

variable {db db' : Db} {f : ArtifactColumn}

theorem Holds.unique {actionId : String} {w : String} (hv : Holds db actionId f v)
    (hw : Holds db actionId f w) : v = w := by
  obtain ⟨r, hr, hheld⟩ := hv
  obtain ⟨q, hq, hother⟩ := hw
  obtain rfl := Option.some.inj (hr.symm.trans hq)
  exact Option.some.inj (hheld.symm.trans hother)

instance Holds.decidable (db : Db) (actionId : String) (f : ArtifactColumn) (v : String) :
    Decidable (Holds db actionId f v) :=
  decidable_of_iff ((row ArtifactsRow.actionId actionId db.actionArtifacts).any
    fun r => r.held f = some v) (by simp [Holds, Option.any_eq_true])

/-! ## Transactions -/

variable {b : Broker} {x : TxEnv}

theorem Tx.keeps_artifacts {t : Tx} {r : t.Reply} (h : t.commit b x db = (.ok r, db'))
    (ht : ∀ a p, t ≠ .recordActionArtifacts a p) : db'.actionArtifacts = db.actionArtifacts := by
  obtain ⟨db₁, ds, c, hw, hl, rfl⟩ := Tx.writes h
  rw [hl.data]
  change db₁.actionArtifacts = _
  cases hw with
  | artifacts a p => exact absurd rfl (ht a p)
  | missionStatus a previous now =>
    simp only [StatusChange.carried]
    split_ifs <;> rfl
  | incidentStatus a previous now =>
    simp only [StatusChange.carried]
    split_ifs <;> rfl
  | lease a r h => cases h <;> rfl
  | lock a r projectId v h => cases h <;> rfl
  | _ => rfl

theorem row_updated (p : ArtifactsPatch) (a : UpdateArgs) (t : List ArtifactsRow) :
    row ArtifactsRow.actionId a.entityId (p.updated a t) =
      some (p.apply (isoformat a.now) ((row ArtifactsRow.actionId a.entityId t).getD
        (defaultArtifacts a.entityId (isoformat a.now)))) := by
  have hkey : ∀ r, ArtifactsRow.actionId (p.apply (isoformat a.now) r) = r.actionId := fun _ => rfl
  rw [ArtifactsPatch.updated, row_update hkey]
  cases hr : row ArtifactsRow.actionId a.entityId t with
  | some r => simp [hr, (row_some hr).2]
  | none =>
    have hnew := row_append_new (g := ArtifactsRow.actionId)
      (r := defaultArtifacts a.entityId (isoformat a.now)) hr
    simp [defaultArtifacts] at hnew ⊢
    simp [hnew]

variable {a : UpdateArgs}

theorem row_updated_ne {t : List ArtifactsRow} (h : id ≠ a.entityId) :
    row ArtifactsRow.actionId id (p.updated a t) = row ArtifactsRow.actionId id t := by
  have hkey : ∀ r, ArtifactsRow.actionId (p.apply (isoformat a.now) r) = r.actionId := fun _ => rfl
  have hbase : row ArtifactsRow.actionId id
      (if (row ArtifactsRow.actionId a.entityId t).isSome then t
        else t ++ [defaultArtifacts a.entityId (isoformat a.now)]) =
        row ArtifactsRow.actionId id t := by
    split_ifs
    · rfl
    · rw [row_append, row_cons, if_neg (by exact h.symm)]
      exact Option.or_none
  rw [ArtifactsPatch.updated, row_update hkey, hbase]
  refine (Option.map_congr fun r hr => ?_).trans Option.map_id'
  have hne : r.actionId ≠ a.entityId := fun heq => h ((row_some hr).2.symm.trans heq)
  simp [hne]

theorem recordActionArtifacts_ok {r : Option ArtifactsRow × Bool}
    (h : Tx.commit b (.recordActionArtifacts a p) x db = (.ok r, db')) :
    r.2 = true ∧ db' = db ∨ r.2 = false ∧
      (∀ v, row ArtifactsRow.actionId a.entityId db.actionArtifacts = some v →
        p.changedColumn v = none) ∧
      db'.actionArtifacts = p.updated a db.actionArtifacts := by
  obtain ⟨c, hrun, rfl, -⟩ := Tx.commit_ok (t := .recordActionArtifacts a p) h
  obtain ⟨i, -, ⟨prior, -, -, ⟨v, -, rfl⟩, rfl⟩ | ⟨-, rfl, hcol, hl⟩⟩ :=
    (recordActionArtifacts_spec b.rbac a p x ⟨db, 0⟩).ok hrun
  · exact .inl ⟨rfl, rfl⟩
  · refine .inr ⟨rfl, hcol, ?_⟩
    rw [hl.data]
    rfl

theorem Holds.commit {t : Tx} {r : t.Reply} (hv : v ≠ "" ∧ v ≠ "{}")
    (h : t.commit b x db = (.ok r, db')) (hheld : Holds db id f v) : Holds db' id f v := by
  by_cases ht : ∀ a p, t ≠ .recordActionArtifacts a p
  · rw [Holds, Tx.keeps_artifacts h ht]
    exact hheld
  obtain ⟨a, ht⟩ := not_forall.1 ht
  obtain ⟨p, ht⟩ := not_forall.1 ht
  obtain rfl := not_not.1 ht
  obtain ⟨-, rfl⟩ | ⟨-, hcol, htable⟩ := recordActionArtifacts_ok h
  · exact hheld
  obtain ⟨q, hq, hqv⟩ := hheld
  rw [Holds, htable]
  by_cases hid : id = a.entityId
  · subst hid
    refine ⟨_, row_updated p a _, ?_⟩
    have hkeeps := keeps_of_changedColumn (hcol q hq) f
    rw [hqv] at hkeeps
    rw [held_apply, hq, Option.getD_some, hqv]
    rcases given_of_keeps hv hkeeps with hnone | hsome
    · rw [hnone, Option.none_or]
    · rw [hsome, Option.some_or]
  · exact ⟨q, (row_updated_ne hid).trans hq, hqv⟩

theorem Holds.recorded {r : Option ArtifactsRow}
    (h : Tx.commit b (.recordActionArtifacts a p) x db = (.ok (r, false), db'))
    (hv : p.given f = some v) : Holds db' a.entityId f v := by
  obtain ⟨hno, -⟩ | ⟨-, -, htable⟩ := recordActionArtifacts_ok h
  · cases hno
  · rw [Holds, htable]
    refine ⟨_, row_updated p a _, ?_⟩
    rw [held_apply, hv, Option.some_or]

theorem Holds.given {r : Except PyError (Option ArtifactsRow × Bool)} (hv : v ≠ "" ∧ v ≠ "{}")
    (h : Tx.commit b (.recordActionArtifacts a p) x db = (r, db'))
    (hheld : Holds db a.entityId f v) : p.given f = none ∨ p.given f = some v ∨ db' = db := by
  cases r with
  | error e => exact .inr (.inr (Tx.commit_error h))
  | ok r =>
    obtain ⟨-, rfl⟩ | ⟨-, hcol, -⟩ := recordActionArtifacts_ok h
    · exact .inr (.inr rfl)
    · obtain ⟨q, hq, hqv⟩ := hheld
      have hkeeps := keeps_of_changedColumn (hcol q hq) f
      rw [hqv] at hkeeps
      exact (given_of_keeps hv hkeeps).imp_right .inl

/-! ## Runs -/

def Records {b : Broker} (m : Moment (brokerSystem b)) (actionId : String) (f : ArtifactColumn)
    (v : String) : Prop :=
  ∃ c a p r, m.Performs c (.tx (.recordActionArtifacts a p)) (.ok (r, false)) ∧
    a.entityId = actionId ∧ p.given f = some v

/-- Once the value is recorded, it is held, and a call on the action gives this value, or none, or
changes nothing. -/
def RecordedOnce {b : Broker} (ms : List (Moment (brokerSystem b))) (actionId : String)
    (f : ArtifactColumn) (v : String) : Prop :=
  ∀ l m l', ms = l ++ m :: l' → Records m actionId f v →
    ∀ m' ∈ l', Holds m'.after.store actionId f v ∧
      ∀ c a p r, m'.Performs c (.tx (.recordActionArtifacts a p)) r → a.entityId = actionId →
        p.given f = none ∨ p.given f = some v ∨ m'.after.store = m'.before.store

theorem Holds.perform (hv : v ≠ "" ∧ v ≠ "{}") (o : Op) (x : Choice) (h : Holds db id f v) :
    Holds (perform b o x db).2 id f v := by
  cases o with
  | tx t =>
    change Holds (t.commit b x.env db).2 id f v
    rcases hcommit : t.commit b x.env db with ⟨r, db'⟩
    cases r with
    | error e =>
      rw [Tx.commit_error hcommit]
      exact h
    | ok r => exact h.commit hv hcommit
  | _ => exact h

/-- In every run a value that is recorded is kept, unless it is empty: the empty text, or the empty
object. -/
theorem artifacts_recorded_once {b : Broker} {s : State (brokerSystem b)}
    {ms : List (Moment (brokerSystem b))} (hr : Run (freshState b) ms s) (actionId : String)
    (f : ArtifactColumn) {v : String} (hv : v ≠ "" ∧ v ≠ "{}") : RecordedOnce ms actionId f v := by
  rintro l m l' rfl ⟨c, a, p, r, ⟨i, x, k, -, -, -, hperform⟩, rfl, hgiven⟩ m' hm'
  obtain ⟨-, -, hrest⟩ := hr.around
  have hcommit : Tx.commit b (.recordActionArtifacts a p) x.env m.before.store =
      (.ok (r, false), m.after.store) := hperform
  have hheld : Holds m.after.store a.entityId f v := Holds.recorded hcommit hgiven
  obtain ⟨l₁, l₂, rfl, hbefore, hstep⟩ := hrest.of_mem hm'
  have hkept : Holds m'.before.store a.entityId f v :=
    hbefore.store (K := fun db => Holds db a.entityId f v) hheld
      fun o x db h => h.perform hv o x
  refine ⟨?_, ?_⟩
  · rcases step_store hstep with h | ⟨o, y, h⟩ <;> rw [h]
    · exact hkept
    · exact hkept.perform hv o y
  · rintro c' a' p' r' ⟨j, y, k', -, -, -, hagain⟩ hid
    exact Holds.given (b := b) (x := y.env) hv hagain (hid ▸ hkept)

end OpsControlPlane

namespace OpsControlPlane.Sample

open Calls JsonText

/-- Alice requests an action. -/
def acted : List (Move (brokerSystem broker)) :=
  .spawn (request "alice" "inspect" (uuid 1)) :: goOn 0 5 100 100

def check (i : ℕ) (requestId : String) (v : Value) : List (Move (brokerSystem broker)) :=
  .spawn (.recordActionArtifacts ⟨"alice", requestId, uuid 120, none, none, none, none, none,
    some v⟩) :: goOn i 1 (100 + 10 * i) (100 + 100 * i)

def passed : Value :=
  .obj [("ok", .bool true)]

def okCheck : String :=
  "\x7b\"ok\":true\x7d"

def artifactsWrite : Op → Option (UpdateArgs × ArtifactsPatch)
  | .tx (.recordActionArtifacts a p) => some (a, p)
  | _ => none

theorem artifacts_day : ∃ s ∈ reaches (acted ++ check 1 (uuid 2) (.obj [])),
    ∃ s' ∈ s.step (.act 1 (choice 110 210)),
    (∃ w ∈ (s.next 1).bind artifactsWrite, w.1.entityId = uuid 120 ∧
      w.2.given .healthcheck = some "{}") ∧
    s.store.actionArtifacts.length = 0 ∧ s'.store.actionArtifacts.length = 1 ∧
    ∃ t ∈ s'.exec (check 2 (uuid 3) passed), ∃ t' ∈ t.step (.act 2 (choice 120 310)),
      Holds t'.store (uuid 120) .healthcheck okCheck := by
  decide +kernel

/-- The call has recorded what it asked for, if it has added the row of the action. -/
theorem records_of_write {s s' : State (brokerSystem broker)} {i : ℕ} {x : Choice}
    {w : UpdateArgs × ArtifactsPatch} {f : ArtifactColumn} {v : String}
    (hstep : s.step (.act i x) = some s') (hw : (s.next i).bind artifactsWrite = some w)
    (hadded : s'.store.actionArtifacts.length ≠ s.store.actionArtifacts.length)
    (hv : w.2.given f = some v) : Records ⟨s, .act i x, s'⟩ w.1.entityId f v := by
  obtain ⟨o, ho, hwrite⟩ := Option.bind_eq_some_iff.1 hw
  obtain ⟨a, p, rfl, rfl⟩ : ∃ a p, o = .tx (.recordActionArtifacts a p) ∧ w = (a, p) := by
    unfold artifactsWrite at hwrite
    split at hwrite
    · exact ⟨_, _, rfl, (Option.some.inj hwrite).symm⟩
    · cases hwrite
  obtain ⟨c, hperforms⟩ := Moment.Performs.of_next hstep ho
  obtain ⟨j, y, k, hmove, hcall, hprog, hperform⟩ := hperforms
  cases hmove
  change Tx.commit broker (.recordActionArtifacts a p) x.env s.store = (_, s'.store) at hperform
  rcases hr : (brokerSystem broker).perform (.tx (.recordActionArtifacts a p)) x s.store with
    ⟨r, db⟩
  change Tx.commit broker (.recordActionArtifacts a p) x.env s.store = (r, db) at hr
  obtain rfl : db = s'.store := congrArg Prod.snd (hr.symm.trans hperform)
  cases r with
  | error e => exact absurd (congrArg (fun db : Db => db.actionArtifacts.length)
      (Tx.commit_error hr)) hadded
  | ok r =>
    obtain ⟨r, replayed⟩ := r
    obtain ⟨-, heq⟩ | ⟨rfl, -, -⟩ := recordActionArtifacts_ok hr
    · exact absurd (congrArg (fun db : Db => db.actionArtifacts.length) heq) hadded
    · exact ⟨c, a, p, r, ⟨i, x, k, rfl, hcall, hprog, hr⟩, rfl, hv⟩

/-- An empty health check is replaced. -/
theorem emptied_replaced : ∃ ms s, Run (freshState broker) ms s ∧
    ¬RecordedOnce ms (uuid 120) .healthcheck "{}" := by
  obtain ⟨s, hs, s', hs', ⟨w, hw, hid, hv⟩, hnone, hone, t, ht, t', ht', hother⟩ := artifacts_day
  obtain ⟨ms, hr, -⟩ := Run.of_exec hs
  obtain ⟨ms', hr', -⟩ := Run.of_exec ht
  have hadded : s'.store.actionArtifacts.length ≠ s.store.actionArtifacts.length := by
    rw [hnone, hone]
    exact one_ne_zero
  have hrecords := records_of_write hs' hw hadded hv
  rw [hid] at hrecords
  refine ⟨_, t', (hr.step hs').trans (hr'.step ht'), fun honce => ?_⟩
  obtain ⟨hempty, -⟩ := honce ms _ _ (by rw [List.append_assoc]; rfl) hrecords _
    (List.mem_append_right _ (List.mem_singleton_self _))
  exact absurd (hempty.unique hother) (by decide)

theorem checks_kept : ∃ s ∈ reaches (acted ++ check 1 (uuid 2) passed),
    ∃ s' ∈ s.step (.act 1 (choice 110 210)),
    (∃ w ∈ (s.next 1).bind artifactsWrite, w.1.entityId = uuid 120 ∧
      w.2.given .healthcheck = some okCheck) ∧
    s.store.actionArtifacts.length = 0 ∧ s'.store.actionArtifacts.length = 1 ∧
    ∃ t ∈ s'.exec (check 2 (uuid 3) (.obj [])), ∃ t' ∈ t.step (.act 2 (choice 120 310)),
      ∃ w ∈ (t.next 2).bind artifactsWrite, w.1.entityId = uuid 120 ∧
        w.2.given .healthcheck = some "{}" := by
  decide +kernel

/-- The call that gives another health check than the recorded one changes nothing. -/
theorem artifacts_recorded_once_sample : ∃ ms s, Run (freshState broker) ms s ∧
    RecordedOnce ms (uuid 120) .healthcheck okCheck ∧ ∃ l m l', ms = l ++ m :: l' ∧
      Records m (uuid 120) .healthcheck okCheck ∧ ∃ m' ∈ l', ∃ w,
        (m'.before.next 2).bind artifactsWrite = some w ∧ w.1.entityId = uuid 120 ∧
          w.2.given .healthcheck = some "{}" := by
  obtain ⟨s, hs, s', hs', ⟨w, hw, hid, hv⟩, hnone, hone, t, ht, t', ht', hother⟩ := checks_kept
  obtain ⟨ms, hr, -⟩ := Run.of_exec hs
  obtain ⟨ms', hr', -⟩ := Run.of_exec ht
  have hrun := (hr.step hs').trans (hr'.step ht')
  have hrecords := records_of_write hs' hw (by rw [hnone, hone]; exact one_ne_zero) hv
  rw [hid] at hrecords
  exact ⟨_, t', hrun, artifacts_recorded_once hrun _ _ (by decide), ms, _, _,
    by rw [List.append_assoc]; rfl, hrecords, _,
    List.mem_append_right _ (List.mem_singleton_self _), hother⟩

end OpsControlPlane.Sample
