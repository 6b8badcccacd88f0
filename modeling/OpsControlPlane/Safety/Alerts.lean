import OpsControlPlane.Bridge.Alerts
import OpsControlPlane.Safety.Publications

/-!
# Alerts

`Board` is what a poll reads and writes of the world: the alerts, and the keys that were
published, in their order. A poll that succeeds is `pollBoard` (`ends_pollAlerts`), and what it
does for one fingerprint depends only on what the board says of that fingerprint.

`tracked_iff` says when the last message of every alert is true after every poll: an alert that
is to be published was not published before in the same episode.
-/

namespace OpsBridge

open Transaction Calls

/-! ## Boards -/

/-- The alerts, and the keys of what was published. -/
structure Board where
  alerts : List StoredAlert
  log : List (Kind × String)

def World.board (w : World) : Board :=
  ⟨w.events.alertState, w.messages.map Message.origin⟩

/-- What is not published yet is published. -/
def Board.post (b : Board) (key : Kind × String) : Board :=
  if key ∈ b.log then b else { b with log := b.log ++ [key] }

def Board.save (b : Board) (a : StoredAlert) : Board :=
  { b with alerts := upsertAlert a b.alerts }

def Board.resolve (b : Board) (a : StoredAlert) : Board :=
  (b.post (.alertResolved, alertKey a.fingerprint a.episodeKey)).save { a with active := false }

def AlertNotice.stored (n : AlertNotice) : StoredAlert :=
  ⟨n.fingerprint, n.episodeKey, true, n.displayName, n.severity, n.project⟩

def Board.fire (b : Board) (n : AlertNotice) : Board :=
  (b.post (.alertFiring, alertKey n.fingerprint n.episodeKey)).save n.stored

def Board.handle (b : Board) (n : AlertNotice) : Board :=
  match row StoredAlert.fingerprint n.fingerprint b.alerts with
  | some a =>
    if a.active ∧ a.episodeKey ≠ n.episodeKey then (b.resolve a).fire n
    else if a.active then b
    else b.fire n
  | none => b.fire n

local instance lawfulBEq_alertKey : LawfulBEq (String × String) :=
  inferInstance

def Board.expire (activeKeys : List (String × String)) (b : Board) (a : StoredAlert) : Board :=
  if (a.fingerprint, a.episodeKey) ∈ activeKeys then b else b.resolve a

def activeOf (alerts : List StoredAlert) : List StoredAlert :=
  (alerts.filter fun a => a.active).insertionSort fun a b => a.fingerprint ≤ b.fingerprint

def pollBoard (b : Board) (notices : List AlertNotice) : Board :=
  let handled := (notices.insertionSort fun a b => a.fingerprint ≤ b.fingerprint).foldl
    Board.handle b
  (activeOf handled.alerts).foldl
    (Board.expire (notices.map fun n => (n.fingerprint, n.episodeKey))) handled

/-! ## Polls that succeed -/

/-- Every publication has its message, and alerts have digests of their own. -/
structure Settled (w : World) : Prop where
  published : ∀ p ∈ w.events.publications, p.status = .published
  keys : w.events.publications.map Publication.key = w.messages.map Message.origin
  nodup : (w.events.alertState.map StoredAlert.fingerprint).Nodup
  digests : ∀ a ∈ w.events.alertState, a.fingerprint.length = 64

theorem settled_empty : Settled World.empty :=
  ⟨by simp [World.empty, EventState.empty], rfl, by simp [World.empty, EventState.empty],
    by simp [World.empty, EventState.empty]⟩

section ends

variable {w w' : World}

/-- The poll succeeds and leaves the second world. -/
abbrev Succeeds {α : Type} (p : Publisher α) (w : World) (a : α) (w' : World) : Prop :=
  Prog.Ends (I := bridgeInterface) performBridge p w a w'

theorem succeeds_perform {o : BridgeOp} {r : o.Reply} :
    Succeeds (perform o) w r w' ↔ ∃ x, performBridge o x w = (.ok r, w') := by
  constructor
  · rintro ⟨x, h⟩
    obtain ⟨hr, rfl⟩ := Prog.ends_ofExcept.1 h
    exact ⟨x, Prod.ext hr rfl⟩
  · rintro ⟨x, h⟩
    refine ⟨x, ?_⟩
    change Prog.Ends (I := bridgeInterface) performBridge (Prog.ofExcept (performBridge o x w).1) _
      r w'
    rw [h]
    exact ⟨rfl, rfl⟩

theorem succeeds_state {t : StateTx} {r : t.Reply} (h : Succeeds (perform (.state t)) w r w') :
    ∃ events, t.run w.events = .ok (r, events) ∧ w' = { w with events := events } := by
  obtain ⟨x, hx⟩ := succeeds_perform.1 h
  cases hfault : x.fault with
  | some message =>
    simp only [performBridge, hfault] at hx
    cases (Prod.mk.inj hx).1
  | none =>
    cases hrun : t.run w.events with
    | error e =>
      simp only [performBridge, hfault, hrun] at hx
      cases (Prod.mk.inj hx).1
    | ok q =>
      simp only [performBridge, hfault, hrun] at hx
      obtain ⟨hr, rfl⟩ := Prod.mk.inj hx
      exact ⟨q.2, by rw [← Except.ok.inj hr], rfl⟩

theorem succeeds_send {origin : Kind × String} {stream topic content : String} {id : ℤ}
    (h : Succeeds (perform (.send origin stream topic content)) w id w') :
    w' = { w with messages := w.messages ++ [⟨id, origin, stream, topic, content⟩] } := by
  obtain ⟨x, hx⟩ := succeeds_perform.1 h
  cases hsent : x.sent with
  | ok _ =>
    simp only [performBridge, hsent] at hx
    obtain ⟨hid, rfl⟩ := Prod.mk.inj hx
    rw [Except.ok.inj hid]
  | error e =>
    simp only [performBridge, hsent] at hx
    split_ifs at hx
    · cases (Prod.mk.inj hx).1
    · cases (Prod.mk.inj hx).1

variable {n : Notice}

/-- A message that is sent and recorded. -/
theorem succeeds_sendAndMark {id : ℤ} (h : Succeeds (sendAndMark n) w id w') : ∃ content,
    w'.messages = w.messages ++ [⟨id, n.key, n.stream, n.topic, content⟩] ∧
    w'.events = w.events.setTable n.kind (update (awaits n.kind n.publicationKey n.marker id)
      (Publication.publish id) (w.events.table n.kind)) := by
  obtain ⟨content, w₁, hcontent, h⟩ := Prog.ends_bind.1 h
  obtain ⟨-, rfl⟩ := Prog.ends_ofExcept.1 hcontent
  obtain ⟨id', w₂, hsend, h⟩ := Prog.ends_bind.1 h
  obtain ⟨p, w₃, hmark, rfl, rfl⟩ := Prog.ends_bind.1 h
  unfold sendStreamMessage at hsend
  split_ifs at hsend
  · exact hsend.elim
  · obtain ⟨id'', w₄, hperform, hret⟩ := Prog.ends_bind.1 hsend
    split_ifs at hret
    · exact hret.elim
    · obtain ⟨rfl, rfl⟩ := hret
      obtain rfl := succeeds_send hperform
      obtain ⟨events, hrun, rfl⟩ := succeeds_state hmark
      obtain rfl := run_mark hrun
      exact ⟨content, rfl, rfl⟩

theorem publications_mark {rows : List Publication} {kind : Kind} {publicationKey marker : String}
    {id : ℤ} (hnew : ∀ q ∈ rows, q.key ≠ (kind, publicationKey)) :
    update (awaits kind publicationKey marker id) (Publication.publish id)
        (rows ++ [⟨kind, publicationKey, marker, .intent, none⟩]) =
      rows ++ [⟨kind, publicationKey, marker, .published, some id⟩] := by
  have hold : update (awaits kind publicationKey marker id) (Publication.publish id) rows = rows :=
    update_eq_self (fun q hq => decide_eq_false fun h => hnew q hq h.1) _
  have hlast : awaits kind publicationKey marker id ⟨kind, publicationKey, marker, .intent, none⟩ =
      true := decide_eq_true ⟨rfl, rfl, Or.inl rfl⟩
  rw [update_append, hold]
  unfold update
  rw [List.map_singleton, if_pos hlast]
  rfl

theorem succeeds_publish {botUserId id : ℤ} (hkind : n.kind ≠ .mobile) (hw : Settled w)
    (h : Succeeds (publish n botUserId) w id w') : Settled w' ∧ w'.board = w.board.post n.key := by
  have htable : ∀ st : EventState, st.table n.kind = st.publications := by
    intro st
    cases hn : n.kind <;> first | exact absurd hn hkind | rfl
  have hset : ∀ (st : EventState) rows, st.setTable n.kind rows =
      { st with publications := rows } := by
    intro st rows
    cases hn : n.kind <;> first | exact absurd hn hkind | rfl
  obtain ⟨⟨p, inserted⟩, w₁, hperform, hrest⟩ := Prog.ends_bind.1 h
  obtain ⟨events, hrun, rfl⟩ := succeeds_state hperform
  obtain ⟨rows, hbegin, rfl⟩ := run_begin hrun
  rw [htable] at hbegin
  rw [hset] at hrest
  have hlog : n.key ∈ w.board.log ↔ ∃ q ∈ w.events.publications, q.key = n.key := by
    change n.key ∈ w.messages.map Message.origin ↔ _
    rw [← hw.keys, List.mem_map]
  obtain ⟨-, hpkey, ⟨rfl, rfl, hp⟩ | ⟨rfl, rfl, rfl, hnew⟩⟩ := beginIn_cases hbegin
  · -- it was published before
    have hpost : w.board.post n.key = w.board := by
      unfold Board.post
      rw [if_pos (hlog.2 ⟨p, hp, hpkey⟩)]
    rw [hpost]
    simp only [hw.published p hp] at hrest
    split at hrest
    · obtain ⟨-, rfl⟩ := hrest
      exact ⟨hw, rfl⟩
    · exact hrest.elim
  · have hno : n.key ∉ w.board.log := by
      rw [hlog]
      rintro ⟨q, hq, hqkey⟩
      exact hnew q hq hqkey
    simp only [if_true] at hrest
    obtain ⟨content, hmessages, hevents⟩ := succeeds_sendAndMark hrest
    rw [htable, hset, publications_mark hnew] at hevents
    have hpublications : w'.events.publications = w.events.publications ++
        [⟨n.kind, n.publicationKey, n.marker, .published, some id⟩] := by rw [hevents]
    have halerts : w'.events.alertState = w.events.alertState := by rw [hevents]
    have horigins : w'.messages.map Message.origin =
        w.messages.map Message.origin ++ [n.key] := by
      rw [hmessages, List.map_append]
      rfl
    refine ⟨⟨?_, ?_, ?_, ?_⟩, ?_⟩
    · rw [hpublications]
      intro q hq
      rcases List.mem_append.1 hq with hq | hq
      · exact hw.published q hq
      · obtain rfl := List.mem_singleton.1 hq
        rfl
    · rw [hpublications, horigins, List.map_append, hw.keys]
      rfl
    · rw [halerts]
      exact hw.nodup
    · rw [halerts]
      exact hw.digests
    · unfold World.board Board.post
      rw [halerts, horigins]
      exact (if_neg hno).symm

/-! ### Alerts -/

variable {rows : List StoredAlert} {a : StoredAlert}

theorem mem_upsertAlert {q : StoredAlert} (h : q ∈ upsertAlert a rows) : q = a ∨ q ∈ rows := by
  unfold upsertAlert at h
  split at h
  · obtain ⟨r, hr, rfl⟩ := mem_update.1 h
    split_ifs
    · exact Or.inl rfl
    · exact Or.inr hr
  · rcases List.mem_append.1 h with h | h
    · exact Or.inr h
    · exact Or.inl (List.mem_singleton.1 h)

def replaceBy (a r : StoredAlert) : StoredAlert :=
  { a with fingerprint := r.fingerprint }

theorem update_alert (a : StoredAlert) (rows : List StoredAlert) :
    update (fun r => r.fingerprint = a.fingerprint) (fun _ => a) rows =
      update (fun r => r.fingerprint = a.fingerprint) (replaceBy a) rows := by
  refine List.map_congr_left fun r _ => ?_
  split_ifs with hr
  · have hfingerprint : r.fingerprint = a.fingerprint := of_decide_eq_true hr
    unfold replaceBy
    rw [hfingerprint]
  · rfl

/-- What is saved is found, and the alerts of other fingerprints stay. -/
theorem row_upsertAlert (a : StoredAlert) (rows : List StoredAlert) (fingerprint : String) :
    row StoredAlert.fingerprint fingerprint (upsertAlert a rows) =
      if a.fingerprint = fingerprint then some a
      else row StoredAlert.fingerprint fingerprint rows := by
  unfold upsertAlert
  split
  · next r hr =>
    rw [update_alert, row_update (g := StoredAlert.fingerprint) (f := replaceBy a) fun _ => rfl]
    split_ifs with heq
    · subst heq
      rw [hr, Option.map_some, if_pos (by simpa using (row_some hr).2)]
      unfold replaceBy
      rw [(row_some hr).2]
    · cases hrow : row StoredAlert.fingerprint fingerprint rows with
      | none => rfl
      | some q =>
        have hq : q.fingerprint ≠ a.fingerprint := fun h => heq (h.symm.trans (row_some hrow).2)
        rw [Option.map_some, if_neg (by simpa using hq)]
  · next hnone =>
    rw [row_append, row_cons]
    split_ifs with heq
    · subst heq
      rw [hnone, Option.none_or]
    · cases row StoredAlert.fingerprint fingerprint rows <;> rfl

theorem nodup_upsertAlert (h : (rows.map StoredAlert.fingerprint).Nodup) :
    ((upsertAlert a rows).map StoredAlert.fingerprint).Nodup := by
  unfold upsertAlert
  split
  · rw [update_alert, map_update (g := StoredAlert.fingerprint) (f := replaceBy a) fun _ => rfl]
    exact h
  · next hnone => exact nodup_insert h hnone

theorem succeeds_save {r : StoredAlert} (hw : Settled w)
    (h : Succeeds (perform (.state (.saveAlert a))) w r w') :
    Settled w' ∧ w'.board = w.board.save a ∧ a.fingerprint.length = 64 := by
  obtain ⟨events, hrun, rfl⟩ := succeeds_state h
  change saveAlert a w.events = _ at hrun
  unfold saveAlert at hrun
  split_ifs at hrun with hempty hlength hlong
  obtain ⟨-, rfl⟩ := Prod.mk.inj (Except.ok.inj hrun)
  have hdigest : a.fingerprint.length = 64 := not_not.1 (not_or.1 hlength).1
  refine ⟨⟨hw.published, hw.keys, nodup_upsertAlert hw.nodup, fun q hq => ?_⟩, rfl, hdigest⟩
  rcases mem_upsertAlert hq with rfl | hq
  · exact hdigest
  · exact hw.digests q hq

variable {settings : AlertSettings}

theorem succeeds_resolve (hw : Settled w) (h : Succeeds (resolve settings a) w () w') :
    Settled w' ∧ w'.board = w.board.resolve a := by
  obtain ⟨id, w₁, hpublish, h⟩ := Prog.ends_bind.1 h
  obtain ⟨r, w₂, hsave, -, rfl⟩ := Prog.ends_bind.1 h
  obtain ⟨hw₁, hboard⟩ := succeeds_publish (by simp) hw hpublish
  obtain ⟨hw₂, hboard', -⟩ := succeeds_save hw₁ hsave
  refine ⟨hw₂, ?_⟩
  rw [hboard', hboard]
  rfl

theorem succeeds_fire {n : AlertNotice} (hw : Settled w) (h : Succeeds (fire settings n) w () w') :
    Settled w' ∧ w'.board = w.board.fire n ∧ n.fingerprint.length = 64 := by
  obtain ⟨id, w₁, hpublish, h⟩ := Prog.ends_bind.1 h
  obtain ⟨r, w₂, hsave, -, rfl⟩ := Prog.ends_bind.1 h
  obtain ⟨hw₁, hboard⟩ := succeeds_publish (by simp) hw hpublish
  obtain ⟨hw₂, hboard', hdigest⟩ := succeeds_save hw₁ hsave
  refine ⟨hw₂, ?_, hdigest⟩
  rw [hboard', hboard]
  rfl

variable {r : ℕ × ℕ}

theorem succeeds_handleNotice {n : AlertNotice} (hw : Settled w)
    (h : Succeeds (handleNotice settings n) w r w') :
    Settled w' ∧ w'.board = w.board.handle n ∧ n.fingerprint.length = 64 := by
  obtain ⟨stored, w₁, hget, h⟩ := Prog.ends_bind.1 h
  obtain ⟨events, hrun, rfl⟩ := succeeds_state hget
  obtain ⟨rfl, rfl⟩ := Prod.mk.inj (Except.ok.inj hrun)
  unfold Board.handle
  change Settled w' ∧ w'.board = (match getAlert n.fingerprint w.events with
    | some a => _
    | none => _) ∧ _
  cases hstored : getAlert n.fingerprint w.events with
  | none =>
    rw [hstored] at h
    obtain ⟨u, w₂, hfire, -, rfl⟩ := Prog.ends_bind.1 h
    exact succeeds_fire hw hfire
  | some a =>
    rw [hstored] at h
    simp only at h ⊢
    split_ifs at h ⊢ with hother hactive
    · obtain ⟨u, w₂, hresolve, h⟩ := Prog.ends_bind.1 h
      obtain ⟨u', w₃, hfire, -, rfl⟩ := Prog.ends_bind.1 h
      obtain ⟨hw₂, hboard⟩ := succeeds_resolve hw hresolve
      rw [← hboard]
      exact succeeds_fire hw₂ hfire
    · obtain ⟨-, rfl⟩ := h
      have hdigest := hw.digests a (row_some hstored).1
      rw [(row_some hstored).2] at hdigest
      exact ⟨hw, rfl, hdigest⟩
    · obtain ⟨u, w₂, hfire, -, rfl⟩ := Prog.ends_bind.1 h
      exact succeeds_fire hw hfire

theorem succeeds_handleNotices {l : List AlertNotice} (hw : Settled w)
    (h : Succeeds (handleNotices settings l) w r w') :
    Settled w' ∧ w'.board = l.foldl Board.handle w.board ∧
      ∀ n ∈ l, n.fingerprint.length = 64 := by
  induction l generalizing w r with
  | nil =>
    obtain ⟨-, rfl⟩ := h
    exact ⟨hw, rfl, by simp⟩
  | cons n l ih =>
    obtain ⟨r₁, w₁, hn, h⟩ := Prog.ends_bind.1 h
    obtain ⟨r₂, w₂, hl, -, rfl⟩ := Prog.ends_bind.1 h
    obtain ⟨hw₁, hboard, hdigest⟩ := succeeds_handleNotice hw hn
    obtain ⟨hw₂, hboard', hdigests⟩ := ih hw₁ hl
    refine ⟨hw₂, ?_, List.forall_mem_cons.2 ⟨hdigest, hdigests⟩⟩
    rw [hboard', hboard]
    rfl

theorem succeeds_resolveOthers {keys : List (String × String)} {l : List StoredAlert} {r : ℕ}
    (hw : Settled w) (h : Succeeds (resolveOthers settings keys l) w r w') :
    Settled w' ∧ w'.board = l.foldl (Board.expire keys) w.board := by
  induction l generalizing w r with
  | nil =>
    obtain ⟨-, rfl⟩ := h
    exact ⟨hw, rfl⟩
  | cons a l ih =>
    unfold resolveOthers at h
    rw [List.foldl_cons]
    unfold Board.expire
    split_ifs at h ⊢ with hmem
    · exact ih hw h
    · obtain ⟨u, w₁, hresolve, h⟩ := Prog.ends_bind.1 h
      obtain ⟨r₁, w₂, hl, -, rfl⟩ := Prog.ends_bind.1 h
      obtain ⟨hw₁, hboard⟩ := succeeds_resolve hw hresolve
      rw [← hboard]
      exact ih hw₁ hl

theorem succeeds_pollAlerts {notices : List AlertNotice} (hw : Settled w)
    (h : Succeeds (pollAlerts settings notices) w r w') :
    Settled w' ∧ ∃ l, collect [] notices = .ok l ∧ w'.board = pollBoard w.board l ∧
      ∀ n ∈ l, n.fingerprint.length = 64 := by
  obtain ⟨l, w₁, hnotes, h⟩ := Prog.ends_bind.1 h
  obtain ⟨hcollect, rfl⟩ := Prog.ends_ofExcept.1 hnotes
  obtain ⟨r₁, w₂, hnotices, h⟩ := Prog.ends_bind.1 h
  obtain ⟨stored, w₃, hget, h⟩ := Prog.ends_bind.1 h
  obtain ⟨r₂, w₄, hothers, -, rfl⟩ := Prog.ends_bind.1 h
  obtain ⟨hw₂, hboard, hdigests⟩ := succeeds_handleNotices hw hnotices
  obtain ⟨events, hrun, rfl⟩ := succeeds_state hget
  obtain ⟨rfl, rfl⟩ := Prod.mk.inj (Except.ok.inj hrun)
  obtain ⟨hw₄, hboard'⟩ := succeeds_resolveOthers hw₂ hothers
  refine ⟨hw₄, l, hcollect, ?_, fun n hn => hdigests n ((List.mem_insertionSort _).2 hn)⟩
  rw [hboard']
  unfold pollBoard
  rw [← hboard]
  rfl

end ends

/-! ## Notices by fingerprint -/

def AlertNotice.pair (n : AlertNotice) : String × String :=
  (n.fingerprint, n.episodeKey)

theorem nodup_setNotice {l : List AlertNotice} {n : AlertNotice}
    (h : (l.map AlertNotice.fingerprint).Nodup) :
    ((setNotice l n).map AlertNotice.fingerprint).Nodup := by
  unfold setNotice
  split
  · have hmap : (update (fun m => m.fingerprint = n.fingerprint) (fun _ => n) l).map
        AlertNotice.fingerprint = l.map AlertNotice.fingerprint := by
      unfold update
      rw [List.map_map]
      refine List.map_congr_left fun m _ => ?_
      rw [Function.comp_apply]
      split_ifs with hm
      · exact (of_decide_eq_true hm).symm
      · rfl
    rw [hmap]
    exact h
  · next hnone => exact nodup_insert h hnone

theorem mem_pair_setNotice {l : List AlertNotice} {n : AlertNotice}
    (h : (l.map AlertNotice.fingerprint).Nodup)
    (hsame : ∀ m ∈ row AlertNotice.fingerprint n.fingerprint l, m.episodeKey = n.episodeKey)
    (x : String × String) :
    x ∈ (setNotice l n).map AlertNotice.pair ↔ x ∈ l.map AlertNotice.pair ∨ x = n.pair := by
  unfold setNotice
  split
  · next m hm =>
    obtain ⟨hmem, hfingerprint⟩ := row_some hm
    have hpair : m.pair = n.pair := Prod.ext hfingerprint (hsame m hm)
    constructor
    · intro hx
      obtain ⟨q', hq', rfl⟩ := List.mem_map.1 hx
      obtain ⟨q, hq, rfl⟩ := mem_update.1 hq'
      split_ifs
      · exact Or.inr rfl
      · exact Or.inl (List.mem_map_of_mem hq)
    · intro hx
      -- the notice stands where the earlier one stood
      have hthere : n.pair ∈ (update (fun m => m.fingerprint = n.fingerprint) (fun _ => n) l).map
          AlertNotice.pair := by
        refine List.mem_map.2 ⟨n, mem_update.2 ⟨m, hmem, ?_⟩, rfl⟩
        rw [if_pos (by simpa using hfingerprint)]
      rcases hx with hx | rfl
      · obtain ⟨q, hq, rfl⟩ := List.mem_map.1 hx
        by_cases hqn : q.fingerprint = n.fingerprint
        · obtain rfl := List.inj_on_of_nodup_map h hq hmem (hqn.trans hfingerprint.symm)
          rw [hpair]
          exact hthere
        · refine List.mem_map.2 ⟨q, mem_update.2 ⟨q, hq, ?_⟩, rfl⟩
          rw [if_neg (by simpa using hqn)]
      · exact hthere
  · rw [List.map_append, List.mem_append]
    simp

variable {notices : List AlertNotice}

theorem collect_spec {acc l : List AlertNotice} (hacc : (acc.map AlertNotice.fingerprint).Nodup)
    (h : collect acc notices = .ok l) : (l.map AlertNotice.fingerprint).Nodup ∧
    ∀ x, x ∈ l.map AlertNotice.pair ↔
      x ∈ acc.map AlertNotice.pair ∨ x ∈ notices.map AlertNotice.pair := by
  induction notices generalizing acc with
  | nil =>
    obtain rfl := Except.ok.inj h
    exact ⟨hacc, by simp⟩
  | cons n notices ih =>
    have hstep : (∀ m ∈ row AlertNotice.fingerprint n.fingerprint acc,
        m.episodeKey = n.episodeKey) ∧ collect (setNotice acc n) notices = .ok l := by
      unfold collect at h
      split at h
      · next previous hprevious =>
        split_ifs at h with hepisode
        refine ⟨fun m hm => ?_, h⟩
        obtain rfl := Option.some.inj (hprevious.symm.trans hm)
        exact not_not.1 hepisode
      · next hnone =>
        refine ⟨fun m hm => ?_, h⟩
        rw [hnone] at hm
        cases hm
    obtain ⟨hnodup, hpairs⟩ := ih (nodup_setNotice hacc) hstep.2
    refine ⟨hnodup, fun x => ?_⟩
    rw [hpairs, mem_pair_setNotice hacc hstep.1, List.map_cons, List.mem_cons]
    tauto

/-! ## Cells -/

def about (fingerprint : String) (key : Kind × String) : Bool :=
  (key.1 = .alertFiring ∨ key.1 = .alertResolved) ∧
    (fingerprint ++ ":").toList.isPrefixOf key.2.toList

theorem about_alertKey {kind : Kind} {fingerprint other : String} (episodeKey : String)
    (hkind : kind = .alertFiring ∨ kind = .alertResolved)
    (hlength : fingerprint.length = other.length) :
    about fingerprint (kind, alertKey other episodeKey) = true ↔ other = fingerprint := by
  have hpre : (fingerprint ++ ":").toList.isPrefixOf (alertKey other episodeKey).toList = true ↔
      other = fingerprint := by
    rw [List.isPrefixOf_iff_prefix]
    unfold alertKey
    rw [String.toList_append, String.toList_append, String.toList_append, List.append_assoc]
    constructor
    · rintro ⟨rest, hrest⟩
      rw [List.append_assoc] at hrest
      have hinj := List.append_inj hrest
        (by rw [String.length_toList, String.length_toList, hlength])
      exact (String.toList_inj.1 hinj.1).symm
    · rintro rfl
      exact ⟨episodeKey.toList, by rw [List.append_assoc]⟩
  unfold about
  rw [decide_eq_true_eq, hpre]
  exact and_iff_right hkind

/-- What the board says of an alert: the stored alert, and the keys that were published. -/
abbrev Cell : Type :=
  Option StoredAlert × List (Kind × String)

def Board.cell (fingerprint : String) (b : Board) : Cell :=
  (row StoredAlert.fingerprint fingerprint b.alerts, b.log.filter (about fingerprint))

def addKey (key : Kind × String) (l : List (Kind × String)) : List (Kind × String) :=
  if key ∈ l then l else l ++ [key]

section cells

variable {b : Board} {fingerprint : String}

theorem cell_save (a : StoredAlert) : (b.save a).cell fingerprint =
    (if a.fingerprint = fingerprint then some a else (b.cell fingerprint).1,
      (b.cell fingerprint).2) := by
  unfold Board.cell Board.save
  rw [row_upsertAlert]

theorem cell_post {kind : Kind} {other episodeKey : String}
    (hkind : kind = .alertFiring ∨ kind = .alertResolved)
    (hlength : fingerprint.length = other.length) :
    (b.post (kind, alertKey other episodeKey)).cell fingerprint =
      ((b.cell fingerprint).1, if other = fingerprint then
        addKey (kind, alertKey other episodeKey) (b.cell fingerprint).2
        else (b.cell fingerprint).2) := by
  have habout := about_alertKey episodeKey hkind hlength
  unfold Board.post
  by_cases hmem : (kind, alertKey other episodeKey) ∈ b.log
  · rw [if_pos hmem]
    split_ifs with hother
    · have hfilter : (kind, alertKey other episodeKey) ∈ (b.cell fingerprint).2 :=
        List.mem_filter.2 ⟨hmem, habout.2 hother⟩
      unfold addKey
      rw [if_pos hfilter]
    · rfl
  · rw [if_neg hmem]
    refine Prod.ext rfl ?_
    change (b.log ++ [(kind, alertKey other episodeKey)]).filter (about fingerprint) = _
    rw [List.filter_append, List.filter_singleton]
    split_ifs with hother
    · have hfilter : (kind, alertKey other episodeKey) ∉ (b.cell fingerprint).2 := fun h =>
        hmem (List.mem_filter.1 h).1
      unfold addKey
      rw [if_neg hfilter, habout.2 hother]
      rfl
    · rw [Bool.eq_false_iff.2 fun h => hother (habout.1 h)]
      exact List.append_nil _

variable {a : StoredAlert}

theorem cell_resolve (hlength : fingerprint.length = a.fingerprint.length) :
    (b.resolve a).cell fingerprint = if a.fingerprint = fingerprint then
      (some { a with active := false }, addKey (.alertResolved,
        alertKey a.fingerprint a.episodeKey) (b.cell fingerprint).2)
      else b.cell fingerprint := by
  unfold Board.resolve
  rw [cell_save, cell_post (Or.inr rfl) hlength]
  split_ifs
  · rfl
  · rfl

variable {n : AlertNotice}

theorem cell_fire (hlength : fingerprint.length = n.fingerprint.length) :
    (b.fire n).cell fingerprint = if n.fingerprint = fingerprint then
      (some n.stored, addKey (.alertFiring,
        alertKey n.fingerprint n.episodeKey) (b.cell fingerprint).2)
      else b.cell fingerprint := by
  unfold Board.fire
  rw [cell_save, cell_post (Or.inl rfl) hlength]
  change (if n.fingerprint = fingerprint then _ else _, _) = _
  split_ifs
  · rfl
  · rfl

theorem cell_handle_of_ne (hlength : fingerprint.length = n.fingerprint.length)
    (hne : n.fingerprint ≠ fingerprint) : (b.handle n).cell fingerprint = b.cell fingerprint := by
  unfold Board.handle
  split
  · next a ha =>
    have hfingerprint := (row_some ha).2
    split_ifs
    · rw [cell_fire hlength, if_neg hne, cell_resolve (by rw [hfingerprint, hlength]),
        if_neg (by rw [hfingerprint]; exact hne)]
    · rfl
    · rw [cell_fire hlength, if_neg hne]
  · rw [cell_fire hlength, if_neg hne]

theorem cell_expire_of_ne {keys : List (String × String)}
    (hlength : fingerprint.length = a.fingerprint.length) (hne : a.fingerprint ≠ fingerprint) :
    (b.expire keys a).cell fingerprint = b.cell fingerprint := by
  unfold Board.expire
  split_ifs
  · rfl
  · rw [cell_resolve hlength, if_neg hne]

end cells

/-- Steps that concern one key each: what is seen of a key is what its own step makes of it. -/
theorem foldl_local {A B V κ : Type*} {f : B → A → B} {v : B → V} {g : A → κ} {k : κ}
    {l : List A} (hlocal : ∀ a ∈ l, g a ≠ k → ∀ b, v (f b a) = v b) (hnodup : (l.map g).Nodup)
    (b : B) : ((∀ a ∈ l, g a ≠ k) → v (l.foldl f b) = v b) ∧
      ∀ a ∈ l, g a = k → ∃ b', v b' = v b ∧ v (l.foldl f b) = v (f b' a) := by
  induction l generalizing b with
  | nil => exact ⟨fun _ => rfl, by simp⟩
  | cons a l ih =>
    rw [List.map_cons, List.nodup_cons] at hnodup
    have ih' := ih (fun q hq => hlocal q (List.mem_cons_of_mem _ hq)) hnodup.2 (f b a)
    rw [List.foldl_cons]
    constructor
    · intro hno
      rw [ih'.1 fun q hq => hno q (List.mem_cons_of_mem _ hq)]
      exact hlocal a List.mem_cons_self (hno a List.mem_cons_self) b
    · intro q hq hkey
      rcases List.mem_cons.1 hq with rfl | hq
      · refine ⟨b, rfl, ih'.1 fun p hp hpkey => hnodup.1 ?_⟩
        rw [hkey, ← hpkey]
        exact List.mem_map_of_mem hp
      · obtain ⟨b', hb', heq⟩ := ih'.2 q hq hkey
        refine ⟨b', hb'.trans (hlocal a List.mem_cons_self (fun ha => hnodup.1 ?_) b), heq⟩
        rw [ha, ← hkey]
        exact List.mem_map_of_mem hq

/-! ### Good cells -/

def StoredAlert.said (a : StoredAlert) : Kind :=
  if a.active then .alertFiring else .alertResolved

/-- The last message of the alert is true. -/
structure Good (fingerprint : String) (c : Cell) : Prop where
  unseen : c.1 = none → c.2 = []
  last : ∀ a ∈ c.1, c.2.getLast? = some (a.said, alertKey fingerprint a.episodeKey)
  unresolved : ∀ a ∈ c.1, a.active = true →
    (.alertResolved, alertKey fingerprint a.episodeKey) ∉ c.2
  order : ∀ episodeKey, (.alertResolved, alertKey fingerprint episodeKey) ∈ c.2 →
    (.alertFiring, alertKey fingerprint episodeKey) ∈ c.2

theorem good_empty (fingerprint : String) : Good fingerprint (none, []) :=
  ⟨fun _ => rfl, by simp, by simp, by simp⟩

section good

variable {fingerprint : String} {c : Cell}

theorem Good.resolve (h : Good fingerprint c) {a : StoredAlert} (ha : a ∈ c.1)
    (hactive : a.active = true) : Good fingerprint (some { a with active := false },
      addKey (.alertResolved, alertKey fingerprint a.episodeKey) c.2) := by
  have hnew := h.unresolved a ha hactive
  have hlast := h.last a ha
  unfold StoredAlert.said at hlast
  rw [if_pos hactive] at hlast
  unfold addKey
  rw [if_neg hnew]
  refine ⟨by simp, ?_, ?_, ?_⟩
  · intro q hq
    obtain rfl := Option.some.inj hq
    rw [List.getLast?_append]
    rfl
  · intro q hq hqactive
    obtain rfl := Option.some.inj hq
    cases hqactive
  · intro episodeKey hmem
    rcases List.mem_append.1 hmem with hmem | hmem
    · exact List.mem_append_left _ (h.order episodeKey hmem)
    · have hkey := congrArg Prod.snd (List.mem_singleton.1 hmem)
      rw [show alertKey fingerprint episodeKey = _ from hkey]
      exact List.mem_append_left _ (List.mem_of_getLast? hlast)

/-- A notice that was not published before. -/
theorem Good.fire (h : Good fingerprint c) {n : AlertNotice} (hn : n.fingerprint = fingerprint)
    (hnew : (.alertFiring, alertKey fingerprint n.episodeKey) ∉ c.2) :
    Good fingerprint (some n.stored,
      addKey (.alertFiring, alertKey fingerprint n.episodeKey) c.2) := by
  unfold addKey
  rw [if_neg hnew]
  refine ⟨by simp, ?_, ?_, ?_⟩
  · intro q hq
    obtain rfl := Option.some.inj hq
    rw [List.getLast?_append]
    rfl
  · intro q hq _ hmem
    obtain rfl := Option.some.inj hq
    rcases List.mem_append.1 hmem with hmem | hmem
    · exact hnew (h.order _ hmem)
    · simp at hmem
  · intro episodeKey hmem
    rcases List.mem_append.1 hmem with hmem | hmem
    · exact List.mem_append_left _ (h.order episodeKey hmem)
    · simp at hmem

/-- The alert is known to be active in the episode of the notice, or the notice was never
published. -/
def Fresh (n : AlertNotice) (c : Cell) : Prop :=
  activeIn c.1 n.episodeKey = true ∨
    (.alertFiring, alertKey n.fingerprint n.episodeKey) ∉ c.2

variable {b : Board} {n : AlertNotice}

/-- What a notice makes of the cell of its alert. -/
theorem cell_handle (hn : n.fingerprint = fingerprint) : (b.handle n).cell fingerprint =
    if activeIn (b.cell fingerprint).1 n.episodeKey = true then b.cell fingerprint
    else (some n.stored, addKey (.alertFiring, alertKey fingerprint n.episodeKey)
      (((b.cell fingerprint).1.filter fun a => a.active).elim (b.cell fingerprint).2 fun a =>
        addKey (.alertResolved, alertKey fingerprint a.episodeKey) (b.cell fingerprint).2)) := by
  subst hn
  unfold Board.handle activeIn
  have hcell : (b.cell n.fingerprint).1 =
      row StoredAlert.fingerprint n.fingerprint b.alerts := rfl
  rw [hcell]
  split
  · next a ha =>
    have hfingerprint : a.fingerprint = n.fingerprint := (row_some ha).2
    rw [ha]
    by_cases hactive : a.active = true
    · by_cases hepisode : a.episodeKey = n.episodeKey
      · rw [if_neg fun h => h.2 hepisode, if_pos hactive]
        exact (if_pos (decide_eq_true ⟨hactive, hepisode⟩)).symm
      · have hno : Option.any (fun a => decide (a.active = true ∧ a.episodeKey = n.episodeKey))
            (some a) ≠ true := fun h => hepisode (of_decide_eq_true h).2
        rw [if_pos ⟨hactive, hepisode⟩, cell_fire rfl, if_pos rfl,
          cell_resolve (by rw [hfingerprint]), if_pos hfingerprint, if_neg hno,
          Option.filter_some_pos hactive, hfingerprint]
        rfl
    · have hno : Option.any (fun a => decide (a.active = true ∧ a.episodeKey = n.episodeKey))
          (some a) ≠ true := fun h => hactive (of_decide_eq_true h).1
      rw [if_neg fun h => hactive h.1, if_neg hactive, cell_fire rfl, if_pos rfl, if_neg hno,
        Option.filter_some, if_neg hactive]
      rfl
  · next hnone =>
    rw [hnone, cell_fire rfl]
    simp

theorem Good.handle (h : Good fingerprint (b.cell fingerprint)) (hn : n.fingerprint = fingerprint)
    (hfresh : Fresh n (b.cell fingerprint)) : Good fingerprint ((b.handle n).cell fingerprint) ∧
      activeIn ((b.handle n).cell fingerprint).1 n.episodeKey = true := by
  rw [cell_handle hn]
  split_ifs with hactive
  · exact ⟨h, hactive⟩
  · have hnew := hfresh.resolve_left hactive
    rw [hn] at hnew
    refine ⟨?_, by simp [activeIn, AlertNotice.stored]⟩
    cases hfilter : (b.cell fingerprint).1.filter fun a => a.active with
    | none => exact h.fire hn hnew
    | some a =>
      obtain ⟨ha, hactive'⟩ := Option.filter_eq_some_iff.1 hfilter
      refine (h.resolve ha hactive').fire hn ?_
      intro hmem
      unfold addKey at hmem
      split_ifs at hmem
      · exact hnew hmem
      · rcases List.mem_append.1 hmem with hmem | hmem
        · exact hnew hmem
        · simp at hmem

/-- A notice that was published before leaves a cell whose last message is a resolution. -/
theorem Good.handle_stale (h : Good fingerprint (b.cell fingerprint))
    (hn : n.fingerprint = fingerprint) (hstale : ¬ Fresh n (b.cell fingerprint)) :
    (((b.handle n).cell fingerprint).2.getLast?).map Prod.fst = some .alertResolved ∧
      activeIn ((b.handle n).cell fingerprint).1 n.episodeKey = true := by
  obtain ⟨hinactive, hold⟩ := not_or.1 hstale
  rw [not_not, hn] at hold
  rw [cell_handle hn, if_neg hinactive]
  refine ⟨?_, by simp [activeIn, AlertNotice.stored]⟩
  cases hfilter : (b.cell fingerprint).1.filter fun a => a.active with
  | none =>
    change (addKey _ (b.cell fingerprint).2).getLast?.map Prod.fst = _
    unfold addKey
    rw [if_pos hold]
    cases hstored : (b.cell fingerprint).1 with
    | none =>
      rw [h.unseen hstored] at hold
      cases hold
    | some a =>
      have ha : a.active = false := by
        rw [hstored] at hfilter
        simpa using hfilter
      rw [h.last a hstored]
      simp [StoredAlert.said, ha]
  | some a =>
    obtain ⟨ha, hactive⟩ := Option.filter_eq_some_iff.1 hfilter
    have hgood := h.resolve ha hactive
    change (addKey _ (addKey _ (b.cell fingerprint).2)).getLast?.map Prod.fst = _
    have hmem : (.alertFiring, alertKey fingerprint n.episodeKey) ∈
        addKey (.alertResolved, alertKey fingerprint a.episodeKey) (b.cell fingerprint).2 := by
      unfold addKey
      split_ifs
      · exact hold
      · exact List.mem_append_left _ hold
    rw [addKey, if_pos hmem, hgood.last _ rfl]
    rfl

end good

/-! ## Polls -/

structure Board.Valid (b : Board) : Prop where
  nodup : (b.alerts.map StoredAlert.fingerprint).Nodup
  digests : ∀ a ∈ b.alerts, a.fingerprint.length = 64

theorem Settled.valid {w : World} (h : Settled w) : w.board.Valid :=
  ⟨h.nodup, h.digests⟩

theorem Board.Valid.save {b : Board} (h : b.Valid) {a : StoredAlert}
    (ha : a.fingerprint.length = 64) : (b.save a).Valid := by
  refine ⟨nodup_upsertAlert h.nodup, fun q hq => ?_⟩
  rcases mem_upsertAlert hq with rfl | hq
  · exact ha
  · exact h.digests q hq

theorem Board.Valid.post {b : Board} (h : b.Valid) (key : Kind × String) : (b.post key).Valid := by
  unfold Board.post
  split_ifs
  · exact h
  · exact ⟨h.nodup, h.digests⟩

theorem Board.Valid.handle {b : Board} (h : b.Valid) {n : AlertNotice}
    (hn : n.fingerprint.length = 64) : (b.handle n).Valid := by
  have hfire : ∀ {b : Board}, b.Valid → (b.fire n).Valid := fun hb => (hb.post _).save hn
  unfold Board.handle
  split
  · next a ha =>
    have hresolve : (b.resolve a).Valid := (h.post _).save (h.digests a (row_some ha).1)
    split_ifs
    · exact hfire hresolve
    · exact h
    · exact hfire h
  · exact hfire h

theorem Board.Valid.handleAll {l : List AlertNotice} (hl : ∀ n ∈ l, n.fingerprint.length = 64)
    {b : Board} (h : b.Valid) : (l.foldl Board.handle b).Valid := by
  induction l generalizing b with
  | nil => exact h
  | cons n l ih =>
    exact ih (fun m hm => hl m (List.mem_cons_of_mem _ hm)) (h.handle (hl n List.mem_cons_self))

theorem nodup_insertionSort {α γ : Type*} {r : α → α → Prop} [DecidableRel r] {g : α → γ}
    {l : List α} (h : (l.map g).Nodup) : ((l.insertionSort r).map g).Nodup :=
  ((List.perm_insertionSort r l).map g).nodup_iff.2 h

theorem mem_activeOf {alerts : List StoredAlert} {a : StoredAlert} :
    a ∈ activeOf alerts ↔ a ∈ alerts ∧ a.active = true := by
  unfold activeOf
  rw [List.mem_insertionSort, List.mem_filter]

section polls

variable {b : Board} {l : List AlertNotice} {fingerprint : String}

theorem cell_handleAll (hlength : fingerprint.length = 64)
    (hl : ∀ n ∈ l, n.fingerprint.length = 64) (hnodup : (l.map AlertNotice.fingerprint).Nodup) :
    ((∀ n ∈ l, n.fingerprint ≠ fingerprint) →
      (l.foldl Board.handle b).cell fingerprint = b.cell fingerprint) ∧
    ∀ n ∈ l, n.fingerprint = fingerprint → ∃ b' : Board,
      b'.cell fingerprint = b.cell fingerprint ∧
      (l.foldl Board.handle b).cell fingerprint = (b'.handle n).cell fingerprint :=
  foldl_local (v := Board.cell fingerprint)
    (fun n hn hne _ => cell_handle_of_ne (n := n) (by rw [hlength, hl n hn]) hne) hnodup b

theorem cell_expireAll_of_mem (keys : List (String × String)) (hlength : fingerprint.length = 64)
    (hb : b.Valid) {a : StoredAlert} (ha : a ∈ (b.cell fingerprint).1)
    (hmem : (fingerprint, a.episodeKey) ∈ keys) :
    ((activeOf b.alerts).foldl (Board.expire keys) b).cell fingerprint = b.cell fingerprint := by
  obtain ⟨haalerts, hafingerprint⟩ := row_some (show row StoredAlert.fingerprint fingerprint
    b.alerts = some a from ha)
  have hnodup : ((activeOf b.alerts).map StoredAlert.fingerprint).Nodup :=
    nodup_insertionSort (hb.nodup.sublist (List.filter_sublist.map _))
  obtain ⟨hnone, hone⟩ := foldl_local (f := Board.expire keys) (v := Board.cell fingerprint)
    (g := StoredAlert.fingerprint) (k := fingerprint) (fun q hq hne _ => cell_expire_of_ne
      (by rw [hlength, hb.digests q (mem_activeOf.1 hq).1]) hne) hnodup b
  by_cases hactive : a ∈ activeOf b.alerts
  · obtain ⟨b', hb', heq⟩ := hone a hactive hafingerprint
    rw [heq, ← hb']
    unfold Board.expire
    rw [if_pos (by rw [hafingerprint]; exact hmem)]
  · refine hnone fun q hq hqfingerprint => hactive ?_
    rwa [List.inj_on_of_nodup_map hb.nodup haalerts (mem_activeOf.1 hq).1
      (hafingerprint.trans hqfingerprint.symm)]

theorem cell_expireAll_of_notMem {keys : List (String × String)}
    (hlength : fingerprint.length = 64) (hb : b.Valid)
    (hmem : ∀ episodeKey, (fingerprint, episodeKey) ∉ keys)
    (hgood : Good fingerprint (b.cell fingerprint)) :
    let c := ((activeOf b.alerts).foldl (Board.expire keys) b).cell fingerprint
    Good fingerprint c ∧ (∀ a ∈ c.1, a.active = false) ∧
      (c.1 = none → (b.cell fingerprint).1 = none) := by
  have hnodup : ((activeOf b.alerts).map StoredAlert.fingerprint).Nodup :=
    nodup_insertionSort (hb.nodup.sublist (List.filter_sublist.map _))
  obtain ⟨hnone, hone⟩ := foldl_local (f := Board.expire keys) (v := Board.cell fingerprint)
    (g := StoredAlert.fingerprint) (k := fingerprint) (fun q hq hne _ => cell_expire_of_ne
      (by rw [hlength, hb.digests q (mem_activeOf.1 hq).1]) hne) hnodup b
  by_cases hactive : ∃ a ∈ activeOf b.alerts, a.fingerprint = fingerprint
  · obtain ⟨a, ha, hafingerprint⟩ := hactive
    obtain ⟨haalerts, haactive⟩ := mem_activeOf.1 ha
    have hrow : a ∈ (b.cell fingerprint).1 := by
      have hfind := row_of_mem (g := StoredAlert.fingerprint) hb.nodup haalerts
      rw [hafingerprint] at hfind
      exact hfind
    obtain ⟨b', hb', heq⟩ := hone a ha hafingerprint
    have hcell : (b'.expire keys a).cell fingerprint = (some { a with active := false },
        addKey (.alertResolved, alertKey fingerprint a.episodeKey) (b.cell fingerprint).2) := by
      unfold Board.expire
      rw [if_neg (by rw [hafingerprint]; exact hmem _),
        cell_resolve (by rw [hafingerprint]), if_pos hafingerprint, hb', hafingerprint]
    simp only [heq, hcell]
    refine ⟨hgood.resolve hrow haactive, ?_, fun h => by cases h⟩
    intro q hq
    obtain rfl := Option.some.inj hq
    rfl
  · have hcell := hnone fun a ha hafingerprint => hactive ⟨a, ha, hafingerprint⟩
    simp only [hcell]
    refine ⟨hgood, fun a ha => ?_, id⟩
    obtain ⟨haalerts, hafingerprint⟩ := row_some (show row StoredAlert.fingerprint fingerprint
      b.alerts = some a from ha)
    by_contra hactive'
    exact hactive ⟨a, mem_activeOf.2 ⟨haalerts, Bool.not_eq_false _ ▸ hactive'⟩, hafingerprint⟩

theorem pollBoard_cell (hlength : fingerprint.length = 64) (hb : b.Valid)
    (hl : ∀ n ∈ l, n.fingerprint.length = 64) (hnodup : (l.map AlertNotice.fingerprint).Nodup)
    (hgood : Good fingerprint (b.cell fingerprint)) :
    let c := (pollBoard b l).cell fingerprint
    ((∀ n ∈ l, n.fingerprint ≠ fingerprint) → Good fingerprint c ∧
      (∀ a ∈ c.1, a.active = false) ∧ (c.1 = none → (b.cell fingerprint).1 = none)) ∧
    ∀ n ∈ l, n.fingerprint = fingerprint → activeIn c.1 n.episodeKey = true ∧
      (Fresh n (b.cell fingerprint) → Good fingerprint c) ∧
      (¬ Fresh n (b.cell fingerprint) → (c.2.getLast?).map Prod.fst = some .alertResolved) := by
  have hl' : ∀ n ∈ l.insertionSort fun a b => a.fingerprint ≤ b.fingerprint,
      n.fingerprint.length = 64 := fun n hn => hl n ((List.mem_insertionSort _).1 hn)
  obtain ⟨hgone, hthere⟩ := cell_handleAll (b := b) hlength hl' (nodup_insertionSort hnodup)
  have hvalid := hb.handleAll hl'
  constructor
  · intro hno
    have hcell := hgone fun n hn => hno n ((List.mem_insertionSort _).1 hn)
    have hkeys : ∀ episodeKey,
        (fingerprint, episodeKey) ∉ l.map fun n => (n.fingerprint, n.episodeKey) := by
      intro episodeKey hmem
      obtain ⟨n, hn, hpair⟩ := List.mem_map.1 hmem
      exact hno n hn (congrArg Prod.fst hpair)
    have h := cell_expireAll_of_notMem hlength hvalid hkeys (by rw [hcell]; exact hgood)
    rw [hcell] at h
    exact h
  · intro n hn hfingerprint
    obtain ⟨b', hb', hcell⟩ := hthere n ((List.mem_insertionSort _).2 hn) hfingerprint
    rw [← hb'] at hgood ⊢
    have hactive : activeIn ((b'.handle n).cell fingerprint).1 n.episodeKey = true := by
      by_cases hfresh : Fresh n (b'.cell fingerprint)
      · exact (hgood.handle hfingerprint hfresh).2
      · exact (hgood.handle_stale hfingerprint hfresh).2
    obtain ⟨a, ha, hepisode⟩ := (Option.any_eq_true _ _).1 hactive
    -- the alert is there in the episode of the notice
    have hkeep := cell_expireAll_of_mem (l.map fun n => (n.fingerprint, n.episodeKey))
      hlength hvalid (by rw [hcell]; exact ha) (by
        rw [(of_decide_eq_true hepisode).2]
        exact List.mem_map.2 ⟨n, hn, by rw [hfingerprint]⟩)
    have hpoll : (pollBoard b l).cell fingerprint = (b'.handle n).cell fingerprint :=
      hkeep.trans hcell
    simp only [hpoll]
    exact ⟨hactive, fun hfresh => (hgood.handle hfingerprint hfresh).1,
      fun hstale => (hgood.handle_stale hfingerprint hstale).1⟩

end polls

/-! ## Histories -/

/-- A poll: the world before it, the notices, the alerts known since the first poll, and the
world after it. -/
structure Poll where
  before : World
  notices : List AlertNotice
  known : List String
  after : World

inductive Polls (settings : AlertSettings) : List Poll → List String → World → Prop
  | start : Polls settings [] [] .empty
  | step {ps : List Poll} {known : List String} {w w' : World} {notices : List AlertNotice}
      {r : ℕ × ℕ} (hp : Polls settings ps known w)
      (h : Succeeds (pollAlerts settings notices) w r w') :
      Polls settings (ps ++ [⟨w, notices, known ++ notices.map AlertNotice.fingerprint, w'⟩])
        (known ++ notices.map AlertNotice.fingerprint) w'

def lastMessage (w : World) (fingerprint : String) : Option Message :=
  (w.messages.filter fun m => about fingerprint m.origin).getLast?

/-- After the poll the last message of each known alert says that it fires exactly when it is
there, and the state agrees. -/
def Poll.Tracked (p : Poll) : Prop :=
  ∀ fingerprint ∈ p.known,
    ((lastMessage p.after fingerprint).map (fun m => m.origin.1) = some .alertFiring ↔
      fingerprint ∈ p.notices.map AlertNotice.fingerprint) ∧
    ((getAlert fingerprint p.after.events).any (fun a => a.active) = true ↔
      fingerprint ∈ p.notices.map AlertNotice.fingerprint)

/-- Each alert that is there is already active in its episode, or its episode was never
published. -/
def Poll.AllFresh (p : Poll) : Prop :=
  ∀ n ∈ p.notices, activeIn (getAlert n.fingerprint p.before.events) n.episodeKey = true ∨
    ∀ q ∈ p.before.events.publications,
      q.key ≠ (.alertFiring, alertKey n.fingerprint n.episodeKey)

theorem fresh_iff {w : World} (hw : Settled w) (n : AlertNotice)
    (hn : n.fingerprint.length = 64) : Fresh n (w.board.cell n.fingerprint) ↔
      activeIn (getAlert n.fingerprint w.events) n.episodeKey = true ∨
        ∀ q ∈ w.events.publications,
          q.key ≠ (.alertFiring, alertKey n.fingerprint n.episodeKey) := by
  have habout : about n.fingerprint (.alertFiring, alertKey n.fingerprint n.episodeKey) = true :=
    (about_alertKey _ (Or.inl rfl) rfl).2 rfl
  refine or_congr Iff.rfl ?_
  change (.alertFiring, alertKey n.fingerprint n.episodeKey) ∉
    (w.messages.map Message.origin).filter (about n.fingerprint) ↔ _
  rw [List.mem_filter, ← hw.keys, List.mem_map]
  constructor
  · intro h q hq hkey
    exact h ⟨⟨q, hq, hkey⟩, habout⟩
  · rintro h ⟨⟨q, hq, hkey⟩, -⟩
    exact h q hq hkey

theorem lastMessage_kind (w : World) (fingerprint : String) :
    (lastMessage w fingerprint).map (fun m => m.origin.1) =
      ((w.board.cell fingerprint).2.getLast?).map Prod.fst := by
  change _ = (((w.messages.map Message.origin).filter (about fingerprint)).getLast?).map Prod.fst
  rw [List.filter_map, List.getLast?_map, Option.map_map]
  rfl

theorem Good.tells {w : World} {fingerprint : String}
    (h : Good fingerprint (w.board.cell fingerprint))
    (hknown : (w.board.cell fingerprint).1 ≠ none) :
    (lastMessage w fingerprint).map (fun m => m.origin.1) = some .alertFiring ↔
      (getAlert fingerprint w.events).any (fun a => a.active) = true := by
  obtain ⟨a, ha⟩ := Option.ne_none_iff_exists'.1 hknown
  have hrow : getAlert fingerprint w.events = some a := ha
  rw [lastMessage_kind, h.last a ha, hrow, Option.map_some, Option.any_some]
  unfold StoredAlert.said
  cases a.active
  · simp
  · simp

/-- What is known of the alerts before a poll. -/
def Informed (w : World) (known : List String) : Prop :=
  ∀ fingerprint, fingerprint.length = 64 → Good fingerprint (w.board.cell fingerprint) ∧
    (fingerprint ∈ known → (w.board.cell fingerprint).1 ≠ none)

variable {known : List String}

theorem known_digests {settings : AlertSettings} {w w' : World} {r : ℕ × ℕ} (hw : Settled w)
    (hdigests : ∀ fingerprint ∈ known, fingerprint.length = 64)
    (h : Succeeds (pollAlerts settings notices) w r w') :
    ∀ fingerprint ∈ known ++ notices.map AlertNotice.fingerprint, fingerprint.length = 64 := by
  obtain ⟨-, l, hcollect, -, hl⟩ := succeeds_pollAlerts hw h
  obtain ⟨-, hpairs⟩ := collect_spec (by simp) hcollect
  intro fingerprint hknown
  rcases List.mem_append.1 hknown with hknown | hknown
  · exact hdigests fingerprint hknown
  · obtain ⟨n, hn, rfl⟩ := List.mem_map.1 hknown
    obtain ⟨m, hm, hpair⟩ := List.mem_map.1 ((hpairs n.pair).2 (Or.inr (List.mem_map_of_mem hn)))
    rw [← (Prod.mk.inj hpair).1]
    exact hl m hm

theorem poll_step {settings : AlertSettings} {w w' : World} {r : ℕ × ℕ} (hw : Settled w)
    (hdigests : ∀ fingerprint ∈ known, fingerprint.length = 64) (hinformed : Informed w known)
    (h : Succeeds (pollAlerts settings notices) w r w') :
    let p : Poll := ⟨w, notices, known ++ notices.map AlertNotice.fingerprint, w'⟩
    (p.Tracked ↔ p.AllFresh) ∧ (p.AllFresh → Informed w' p.known) := by
  have hlength := known_digests hw hdigests h
  obtain ⟨hw', l, hcollect, hboard, hl⟩ := succeeds_pollAlerts hw h
  obtain ⟨hnodup, hpairs⟩ := collect_spec (by simp) hcollect
  have hmem : ∀ n ∈ notices, ∃ m ∈ l, m.pair = n.pair := fun n hn =>
    List.mem_map.1 ((hpairs n.pair).2 (Or.inr (List.mem_map_of_mem hn)))
  have hmem' : ∀ m ∈ l, ∃ n ∈ notices, n.pair = m.pair := by
    intro m hm
    rcases (hpairs m.pair).1 (List.mem_map_of_mem hm) with hnil | hn
    · cases hnil
    · exact List.mem_map.1 hn
  have hpresent : ∀ fingerprint, fingerprint ∈ notices.map AlertNotice.fingerprint ↔
      ∃ m ∈ l, m.fingerprint = fingerprint := by
    intro fingerprint
    rw [List.mem_map]
    constructor
    · rintro ⟨n, hn, rfl⟩
      obtain ⟨m, hm, hpair⟩ := hmem n hn
      exact ⟨m, hm, congrArg Prod.fst hpair⟩
    · rintro ⟨m, hm, rfl⟩
      obtain ⟨n, hn, hpair⟩ := hmem' m hm
      exact ⟨n, hn, congrArg Prod.fst hpair⟩
  -- a notice and the one of its alert that is handled are fresh together
  have hfresh : ∀ n ∈ notices, ∀ m ∈ l, m.pair = n.pair →
      (Fresh m (w.board.cell m.fingerprint) ↔
        activeIn (getAlert n.fingerprint w.events) n.episodeKey = true ∨
          ∀ q ∈ w.events.publications,
            q.key ≠ (.alertFiring, alertKey n.fingerprint n.episodeKey)) := by
    intro n _ m hm hpair
    obtain ⟨hfingerprint, hepisode⟩ := Prod.mk.inj hpair
    rw [fresh_iff hw m (hl m hm), hfingerprint, hepisode]
  have hafter : ∀ fingerprint : String, fingerprint.length = 64 → _ := fun fingerprint hdigest =>
    pollBoard_cell hdigest hw.valid hl hnodup (hinformed fingerprint hdigest).1
  rw [← hboard] at hafter
  have hallFresh : (⟨w, notices, known ++ notices.map AlertNotice.fingerprint, w'⟩ :
      Poll).AllFresh → ∀ fingerprint, fingerprint.length = 64 →
      Good fingerprint (w'.board.cell fingerprint) ∧
      (fingerprint ∈ known ++ notices.map AlertNotice.fingerprint →
        (w'.board.cell fingerprint).1 ≠ none) ∧
      ((getAlert fingerprint w'.events).any (fun a => a.active) = true ↔
        fingerprint ∈ notices.map AlertNotice.fingerprint) := by
    intro hall fingerprint hdigest
    obtain ⟨hgone, hthere⟩ := hafter fingerprint hdigest
    rw [hpresent]
    by_cases hm : ∃ m ∈ l, m.fingerprint = fingerprint
    · obtain ⟨m, hm, rfl⟩ := hm
      obtain ⟨n, hn, hpair⟩ := hmem' m hm
      obtain ⟨hactive, hgood, -⟩ := hthere m hm rfl
      obtain ⟨a, ha, hepisode⟩ := (Option.any_eq_true _ _).1 hactive
      refine ⟨hgood ((hfresh n hn m hm hpair.symm).2 (hall n hn)), fun _ hnone => ?_,
        iff_of_true ?_ ⟨m, hm, rfl⟩⟩
      · rw [hnone] at ha
        cases ha
      · exact (Option.any_eq_true _ _).2 ⟨a, ha, (of_decide_eq_true hepisode).1⟩
    · have hno : ∀ n ∈ l, n.fingerprint ≠ fingerprint := fun n hn heq => hm ⟨n, hn, heq⟩
      obtain ⟨hgood, hinactive, hkeep⟩ := hgone hno
      refine ⟨hgood, fun hknown hnone => ?_, iff_of_false (fun hany => ?_) hm⟩
      · rcases List.mem_append.1 hknown with hknown | hknown
        · exact (hinformed fingerprint hdigest).2 hknown (hkeep hnone)
        · exact hm ((hpresent fingerprint).1 hknown)
      · obtain ⟨a, ha, hactive⟩ := (Option.any_eq_true _ _).1 hany
        rw [hinactive a ha] at hactive
        cases hactive
  refine ⟨⟨fun htracked n hn => ?_, fun hall fingerprint hknown => ?_⟩,
    fun hall fingerprint hdigest => ?_⟩
  · -- an episode that comes back leaves a resolution as the last message
    obtain ⟨m, hm, hpair⟩ := hmem n hn
    by_contra hstale
    have hdigest := hl m hm
    have hlast := ((hafter m.fingerprint hdigest).2 m hm rfl).2.2 fun hf =>
      hstale ((hfresh n hn m hm hpair).1 hf)
    have hthere : m.fingerprint ∈ notices.map AlertNotice.fingerprint :=
      (hpresent _).2 ⟨m, hm, rfl⟩
    have hfiring := (htracked m.fingerprint (List.mem_append_right _ hthere)).1.2 hthere
    rw [lastMessage_kind, hlast] at hfiring
    cases hfiring
  · obtain ⟨hgood, hseen, hactive⟩ := hallFresh hall fingerprint (hlength fingerprint hknown)
    exact ⟨(hgood.tells (hseen hknown)).trans hactive, hactive⟩
  · obtain ⟨hgood, hseen, -⟩ := hallFresh hall fingerprint hdigest
    exact ⟨hgood, hseen⟩

/-- The messages of all alerts are true after every poll, if and only if at every poll each alert
that is there is already active in its episode or was never published in it. -/
theorem tracked_iff {settings : AlertSettings} {ps : List Poll} {known : List String} {w : World}
    (hp : Polls settings ps known w) :
    (∀ p ∈ ps, p.Tracked) ↔ ∀ p ∈ ps, p.AllFresh := by
  suffices ((∀ p ∈ ps, p.Tracked) ↔ ∀ p ∈ ps, p.AllFresh) ∧ Settled w ∧
      (∀ fingerprint ∈ known, fingerprint.length = 64) ∧
      ((∀ p ∈ ps, p.AllFresh) → Informed w known) from this.1
  induction hp with
  | start =>
    exact ⟨by simp, settled_empty, by simp, fun _ fingerprint _ => ⟨good_empty _, by simp⟩⟩
  | @step ps known w w' notices r hp h ih =>
    obtain ⟨hiff, hw, hdigests, hinformed⟩ := ih
    have hstep := fun hall => poll_step hw hdigests (hinformed hall) h
    rw [List.forall_mem_append, List.forall_mem_append, List.forall_mem_singleton,
      List.forall_mem_singleton]
    refine ⟨⟨?_, ?_⟩, (succeeds_pollAlerts hw h).1, known_digests hw hdigests h, ?_⟩
    · rintro ⟨hall, hlast⟩
      have hfresh := hiff.1 hall
      exact ⟨hfresh, (hstep hfresh).1.1 hlast⟩
    · rintro ⟨hfresh, hlast⟩
      exact ⟨hiff.2 hfresh, (hstep hfresh).1.2 hlast⟩
    · rintro ⟨hfresh, hlast⟩
      exact (hstep hfresh).2 hlast

/-! ## An alert that comes back -/

namespace Sample

def settings : AlertSettings :=
  ⟨"ops", 4, "alerts", 9⟩

def disk : AlertNotice where
  fingerprint := "ffffffffffffffffffffffffffffffffffffffffffffffffffffffffffffffff"
  episodeKey := "eeeeeeeeeeeeeeeeeeeeeeeeeeeeeeeeeeeeeeeeeeeeeeeeeeeeeeeeeeeeeeee"
  displayName := "DiskFull"
  severity := "critical"
  project := "web"
  summary := "disk is full"

def worlds (w : World) : List (List AlertNotice) → Option World
  | [] => some w
  | notices :: rest =>
    match (pollAlerts settings notices).run performBridge calm w with
    | some (_, w') => worlds w' rest
    | none => none

variable {known : List String} {ps : List Poll}

theorem polls_of_worlds {w w' : World} {polls : List (List AlertNotice)}
    (hp : Polls settings ps known w) (h : worlds w polls = some w') :
    ∃ ps' known', Polls settings ps' known' w' ∧ ps'.map Poll.notices =
      ps.map Poll.notices ++ polls := by
  induction polls generalizing ps known w with
  | nil =>
    obtain rfl := Option.some.inj h
    exact ⟨ps, known, hp, by simp⟩
  | cons notices rest ih =>
    unfold worlds at h
    split at h
    · next r w₁ hrun =>
      obtain ⟨ps', known', hp', hnotices⟩ := ih (hp.step (Prog.ends_of_run hrun)) h
      exact ⟨ps', known', hp', by rw [hnotices]; simp⟩
    · cases h

/-- The alert is there, goes and comes back in the same episode. -/
def flapping : List (List AlertNotice) :=
  [[disk], [], [disk]]

def resolved (w : World) : Bool :=
  (lastMessage w disk.fingerprint).map (fun m => m.origin.1) = some .alertResolved

/-- An alert of the length of a digest flaps like this, whatever its digests are. -/
theorem flapping_worlds (d : AlertNotice) (hf : d.fingerprint.length = 64)
    (he : d.episodeKey.length = 64) (hname : d.displayName = "DiskFull")
    (hseverity : d.severity = "critical") (hproject : d.project = "web")
    (hsummary : d.summary = "disk is full") : (worlds .empty [[d], [], [d]]).any (fun w =>
      (lastMessage w d.fingerprint).map (fun m => m.origin.1) = some .alertResolved) = true := by
  have hf0 : d.fingerprint ≠ "" := fun h => by simp [h] at hf
  have he0 : d.episodeKey ≠ "" := fun h => by simp [h] at he
  -- Lengths of literals, since the lengths of texts are only computed through their parts.
  have hcolon : ":".length = 1 := rfl
  have hmarker : "OPS-ALERT-V1:".length = 13 := rfl
  have hfiring : ":firing".length = 7 := rfl
  have hresolved : ":resolved".length = 9 := rfl
  have hdown : "🔴 DiskFull (critical) — disk is full. Projet : web.\n".length = 52 := by
    decide
  have hup : "✅ Résolu : DiskFull (critical). Projet : web.\n".length = 46 := by
    decide
  have hfields : "DiskFull".length = 8 ∧ "critical".length = 8 ∧ "web".length = 3 :=
    ⟨rfl, rfl, rfl⟩
  simp [worlds, pollAlerts, collect, row, setNotice, handleNotices, handleNotice, fire,
    publishFiring, publishOnce, publish, Prog.run, OpsBridge.perform, Prog.perform, bind, pure,
    Prog.bind, Prog.ofExcept, performBridge, StateTx.run, getAlert, World.empty,
    EventState.empty, calm, beginPublication, beginIn, identifies, EventState.table,
    EventState.setTable, sendAndMark, sendStreamMessage, markPublished, markIn, awaits,
    Publication.publish, Publication.key, update, saveAlert, upsertAlert, activeAlerts,
    resolveOthers, resolve, publishResolution, lastMessage, about, alertKey, hf, he, hname,
    hseverity, hproject, hsummary, hf0, he0, Notice.key, Except.map, hcolon, hmarker, hfiring,
    hresolved, hdown, hup, hfields]

theorem flapping_polls : ∃ ps known w, Polls settings ps known w ∧
    ps.map Poll.notices = flapping ∧ resolved w = true := by
  have hdigests : disk.fingerprint.length = 64 ∧ disk.episodeKey.length = 64 := by
    decide
  have hworlds : (worlds .empty flapping).any resolved = true :=
    flapping_worlds disk hdigests.1 hdigests.2 rfl rfl rfl rfl
  obtain ⟨w, hw, hresolved⟩ := (Option.any_eq_true _ _).1 hworlds
  obtain ⟨ps, known, hp, hnotices⟩ := polls_of_worlds .start hw
  exact ⟨ps, known, w, hp, hnotices, hresolved⟩

theorem last_poll {w : World} (hp : Polls settings ps known w) (hne : ps ≠ []) :
    ∃ p ∈ ps, p.after = w ∧
      ps.getLast? = some p ∧ ∀ n ∈ p.notices, n.fingerprint ∈ p.known := by
  cases hp with
  | start => exact absurd rfl hne
  | step hp h =>
    refine ⟨_, List.mem_append_right _ (List.mem_singleton.2 rfl), rfl, ?_, fun n hn => ?_⟩
    · rw [List.getLast?_append]
      rfl
    · exact List.mem_append_right _ (List.mem_map_of_mem hn)

/-- The alert is there, and its last message says that it is resolved. -/
theorem flapping_resolved : ∃ ps known w, Polls settings ps known w ∧ ¬ ∀ p ∈ ps, p.Tracked := by
  obtain ⟨ps, known, w, hp, hnotices, hresolved⟩ := flapping_polls
  have hne : ps ≠ [] := by
    rintro rfl
    cases hnotices
  obtain ⟨p, hmem, rfl, hlast, hknown⟩ := last_poll hp hne
  have hpnotices : p.notices = [disk] := by
    have hmap := congrArg List.getLast? hnotices
    rw [List.getLast?_map, hlast] at hmap
    exact Option.some.inj hmap
  refine ⟨ps, known, p.after, hp, fun htracked => ?_⟩
  have hthere : disk.fingerprint ∈ p.notices.map AlertNotice.fingerprint := by
    rw [hpnotices]
    exact List.mem_singleton.2 rfl
  have hdisk : disk ∈ p.notices := by
    rw [hpnotices]
    exact List.mem_singleton.2 rfl
  have hfiring := ((htracked p hmem) disk.fingerprint (hknown disk hdisk)).1.2 hthere
  have hresolved' := of_decide_eq_true hresolved
  rw [hfiring] at hresolved'
  cases hresolved'

theorem tracked_iff_sample : ∃ ps known w, Polls settings ps known w ∧
    ps.map Poll.notices = flapping ∧
    ((∀ p ∈ ps, p.Tracked) ↔ ∀ p ∈ ps, p.AllFresh) := by
  obtain ⟨ps, known, w, hp, hnotices, -⟩ := flapping_polls
  exact ⟨ps, known, w, hp, hnotices, tracked_iff hp⟩

end Sample

end OpsBridge
