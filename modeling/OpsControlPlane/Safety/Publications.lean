import OpsControlPlane.Bridge.Publishers

/-!
# Publications

One process publishes, one call at a time for each table, and it may crash between any two
operations. When the search of a marker finds the bot's own earlier message and nothing else, a
publication has at most one message, and what is recorded is that message.

A call sends only after it was told that there is no message yet (`Cleared`), and nothing else
sends for the same key until it is over.
-/

namespace OpsBridge

open Transaction Calls

/-! ## Trails -/

def Begun (n : Notice) (h : List (Prog.Said bridgeInterface)) : Prop :=
  ∃ reply, (⟨.state (.begin n.kind n.publicationKey n.marker), .ok reply⟩ :
    Prog.Said bridgeInterface) ∈ h

/-- The answer says that there is no message yet. -/
def Clears (r : Request) : Prog.Said bridgeInterface → Prop
  | ⟨.state (.begin _ _ _), .ok reply⟩ => (reply : Publication × Bool).2 = true
  | ⟨.search _ _ _, .ok messages⟩ => ownMarker r.notice r.botUserId messages = .ok none
  | _ => False

def Names (r : Request) (id : ℤ) : Prog.Said bridgeInterface → Prop
  | ⟨.send _ _ _ _, .ok id'⟩ => id = (id' : ℤ)
  | ⟨.search _ _ _, .ok messages⟩ => ownMarker r.notice r.botUserId messages = .ok (some id)
  | _ => False

def Sends : Prog.Said bridgeInterface → Prop
  | ⟨.send _ _ _ _, _⟩ => True
  | _ => False

/-- The call was told that there is no message yet, and has sent none. -/
def Cleared (r : Request) (h : List (Prog.Said bridgeInterface)) : Prop :=
  (∃ a ∈ h, Clears r a) ∧ ∀ a ∈ h, ¬ Sends a

/-- What a call may ask after what it was told. -/
def Allowed (r : Request) (h : List (Prog.Said bridgeInterface)) : BridgeOp → Prop
  | .state (.begin kind publicationKey marker) =>
    kind = r.notice.kind ∧ publicationKey = r.notice.publicationKey ∧ marker = r.notice.marker
  | .state (.mark kind publicationKey _ id) =>
    kind = r.notice.kind ∧ publicationKey = r.notice.publicationKey ∧ ∃ a ∈ h, Names r id a
  | .state _ => False
  | .search _ _ _ => True
  | .send origin _ _ _ => origin = r.notice.key ∧ Begun r.notice h ∧ Cleared r h

abbrev Careful {α : Type} (r : Request) (p : Publisher α)
    (Q : List (Prog.Said bridgeInterface) → α → Prop) (h : List (Prog.Said bridgeInterface)) :
    Prop :=
  Prog.Trail (Allowed r) Q (fun _ _ => True) p h

section trails

variable {α β : Type} {r : Request} {h : List (Prog.Said bridgeInterface)}

theorem Careful.bind {p : Publisher α} {f : α → Publisher β}
    {R : List (Prog.Said bridgeInterface) → α → Prop}
    {Q : List (Prog.Said bridgeInterface) → β → Prop} (hp : Careful r p R h)
    (hf : ∀ h' a, R h' a → Careful r (f a) Q h') : Careful r (p >>= f) Q h := by
  rw [Careful, Prog.trail_bind]
  exact hp.mono (fun _ _ h => h) hf fun _ _ h => h

theorem careful_perform {o : BridgeOp} (ho : Allowed r h o) :
    Careful r (perform o) (fun h' a => h' = h ++ [⟨o, .ok a⟩]) h := by
  refine ⟨ho, fun x => ?_⟩
  refine (Prog.trail_ofExcept (x : Except Exc o.Reply) _).2 ⟨fun a ha => ?_, fun _ _ => trivial⟩
  rw [ha]

theorem careful_ofExcept (x : Except Exc α) :
    Careful r (Prog.ofExcept x) (fun h' a => h' = h ∧ x = .ok a) h :=
  (Prog.trail_ofExcept x h).2 ⟨fun _ ha => ⟨rfl, ha⟩, fun _ _ => trivial⟩

theorem careful_mark {id : ℤ} (hnames : ∃ a ∈ h, Names r id a) : Careful r
    (perform (.state (.mark r.notice.kind r.notice.publicationKey r.notice.marker id)))
    (fun _ _ => True) h :=
  (careful_perform (r := r) (h := h)
    (o := .state (.mark r.notice.kind r.notice.publicationKey r.notice.marker id))
    ⟨rfl, rfl, hnames⟩).mono (fun _ _ h => h) (fun _ _ _ => trivial)
    fun _ _ h => h

/-- A call that was told that there is no message may send one. -/
theorem careful_send (hbegun : Begun r.notice h) (hcleared : Cleared r h) :
    Careful r (sendAndMark r.notice) (fun _ _ => True) h := by
  unfold sendAndMark sendStreamMessage
  refine (careful_ofExcept r.notice.content).bind fun h₁ content hcontent => ?_
  obtain ⟨rfl, -⟩ := hcontent
  have hsend : Careful r (if content = "" ∨ 2000 < content.length then
      .fail (.protocol "a generated Zulip message exceeds its safety bound")
    else do
      let id : ℤ ← perform (.send r.notice.key r.notice.stream r.notice.topic content)
      if id ≤ 0 then .fail (.protocol "Zulip returned an invalid published message ID")
      else return id : Publisher ℤ) (fun h' id => ∃ a ∈ h', Names r id a) h₁ := by
    split_ifs
    · trivial
    · refine (careful_perform (r := r) (h := h₁)
        (o := .send r.notice.key r.notice.stream r.notice.topic content)
        ⟨rfl, hbegun, hcleared⟩).bind fun h₂ id hid => ?_
      split_ifs
      · trivial
      · refine ⟨⟨.send r.notice.key r.notice.stream r.notice.topic content, .ok id⟩, ?_, rfl⟩
        rw [hid]
        exact List.mem_append_right _ (List.mem_singleton.2 rfl)
  exact hsend.bind fun h₂ id hnames => (careful_mark hnames).bind fun _ _ _ => trivial

/-- A search says that there is no message, or the message that it names is recorded. -/
theorem careful_recover (hno : ∀ a ∈ h, ¬ Sends a) (hbegun : Begun r.notice h) :
    Careful r (recover r.notice r.botUserId) (fun h' found => found = none →
      Cleared r h' ∧ Begun r.notice h') h := by
  unfold recover findOwnMarker
  have hfind : Careful r (do
      let messages : List Found ←
        perform (.search r.notice.stream r.notice.topic r.notice.marker)
      Prog.ofExcept (ownMarker r.notice r.botUserId messages) : Publisher (Option ℤ))
      (fun h' found => ∃ messages, ownMarker r.notice r.botUserId messages = .ok found ∧
        h' = h ++ [⟨.search r.notice.stream r.notice.topic r.notice.marker, .ok messages⟩])
      h := by
    refine (careful_perform (r := r) (h := h)
      (o := .search r.notice.stream r.notice.topic r.notice.marker) trivial).bind
      fun h₁ messages hmessages => ?_
    refine (careful_ofExcept _).mono (fun _ _ h => h) (fun h' found hfound => ?_) fun _ _ h => h
    obtain ⟨rfl, hown⟩ := hfound
    exact ⟨messages, hown, hmessages⟩
  refine hfind.bind fun h₁ found hfound => ?_
  obtain ⟨messages, hown, rfl⟩ := hfound
  cases found with
  | some id =>
    have hnames : Names r id
        ⟨.search r.notice.stream r.notice.topic r.notice.marker, .ok messages⟩ := hown
    refine (careful_mark ⟨_, List.mem_append_right _ (List.mem_singleton.2 rfl), hnames⟩).bind
      fun _ _ _ => ?_
    intro hnone
    cases hnone
  | none =>
    intro _
    have hclears : Clears r
        ⟨.search r.notice.stream r.notice.topic r.notice.marker, .ok messages⟩ := hown
    refine ⟨⟨⟨_, List.mem_append_right _ (List.mem_singleton.2 rfl), hclears⟩, fun a ha => ?_⟩, ?_⟩
    · rcases List.mem_append.1 ha with ha | ha
      · exact hno a ha
      · obtain rfl := List.mem_singleton.1 ha
        exact id
    · obtain ⟨reply, hreply⟩ := hbegun
      exact ⟨reply, List.mem_append_left _ hreply⟩

/-- Every publication asks only what it may. -/
theorem publish_careful (r : Request) :
    Careful r (publish r.notice r.botUserId) (fun _ _ => True) [] := by
  unfold publish
  refine (careful_perform (r := r) (h := [])
    (o := .state (.begin r.notice.kind r.notice.publicationKey r.notice.marker))
    ⟨rfl, rfl, rfl⟩).bind fun h₁ reply hreply => ?_
  obtain ⟨publication, inserted⟩ := reply
  obtain rfl : h₁ = _ := hreply
  have hbegun : Begun r.notice ([] ++ [⟨.state (.begin r.notice.kind r.notice.publicationKey
      r.notice.marker), .ok (publication, inserted)⟩]) :=
    ⟨_, List.mem_append_right _ (List.mem_singleton.2 rfl)⟩
  have hno : ∀ a ∈ ([] ++ [⟨.state (.begin r.notice.kind r.notice.publicationKey
      r.notice.marker), .ok (publication, inserted)⟩] : List (Prog.Said bridgeInterface)),
      ¬ Sends a := by
    intro a ha
    obtain rfl := List.mem_singleton.1 ha
    exact id
  simp only
  split
  · split
    · trivial
    · trivial
  · split_ifs with hinserted
    · refine careful_send hbegun ⟨⟨_, List.mem_append_right _ (List.mem_singleton.2 rfl), ?_⟩, hno⟩
      exact hinserted
    · refine (careful_recover hno hbegun).bind fun h₂ found hfound => ?_
      cases found with
      | some id => trivial
      | none => exact careful_send (hfound rfl).2 (hfound rfl).1

end trails

/-! ## Worlds -/

def SentFor (w : World) (key : Kind × String) (id : ℤ) : Prop :=
  ∃ m ∈ w.messages, m.origin = key ∧ m.id = id

def Unsent (w : World) (key : Kind × String) : Prop :=
  ∀ m ∈ w.messages, m.origin ≠ key

def Stands (w : World) (key : Kind × String) : Prop :=
  ∃ p ∈ w.events.table key.1, p.key = key

structure Sound (w : World) : Prop where
  unsent : ∀ key, ¬ Stands w key → Unsent w key
  recorded : ∀ kind, ∀ p ∈ w.events.table kind, p.status = .published →
    ∃ id ∈ p.messageId, SentFor w p.key id
  once : ∀ key, w.messages.countP (fun m => m.origin = key) ≤ 1

theorem sound_empty : Sound World.empty :=
  ⟨fun _ _ m hm => by simp [World.empty] at hm,
    fun kind p hp => by cases kind <;> simp [World.empty, EventState.empty, EventState.table] at hp,
    fun _ => Nat.zero_le 1⟩

/-- Messages stay, and rows stay under their keys. -/
structure Grows (w w' : World) : Prop where
  messages : w.messages ⊆ w'.messages
  rows : ∀ key, Stands w key → Stands w' key

theorem Grows.refl (w : World) : Grows w w :=
  ⟨fun _ hm => hm, fun _ hs => hs⟩

variable {w : World} {key : Kind × String} {w' : World}

theorem SentFor.grow {id : ℤ} (h : SentFor w key id) (hg : Grows w w') : SentFor w' key id := by
  obtain ⟨m, hm, horigin⟩ := h
  exact ⟨m, hg.messages hm, horigin⟩

def Told (r : Request) (a : Prog.Said bridgeInterface) (w : World) : Prop :=
  (∀ id, Names r id a → SentFor w r.notice.key id) ∧
    ∀ kind publicationKey marker reply,
      a = ⟨.state (.begin kind publicationKey marker), .ok reply⟩ → Stands w (kind, publicationKey)

variable {a : Prog.Said bridgeInterface}

theorem Told.grow {r : Request} (h : Told r a w) (hg : Grows w w') : Told r a w' :=
  ⟨fun id hid => (h.1 id hid).grow hg,
    fun kind publicationKey marker reply ha => hg.rows _ (h.2 kind publicationKey marker reply ha)⟩

theorem told_error (r : Request) (o : BridgeOp) (e : Exc) (w : World) :
    Told r ⟨o, .error e⟩ w := by
  refine ⟨fun id hid => ?_, fun kind publicationKey marker reply ha => ?_⟩
  · cases o with
    | state t => exact hid.elim
    | search _ _ _ => exact hid.elim
    | send _ _ _ _ => exact hid.elim
  · cases ha

theorem not_clears_error (r : Request) (o : BridgeOp) (e : Exc) : ¬ Clears r ⟨o, .error e⟩ := by
  intro h
  cases o with
  | state t => cases t <;> exact h.elim
  | search _ _ _ => exact h.elim
  | send _ _ _ _ => exact h.elim

/-! ## Operations -/

structure Effect (r : Request) (a : Prog.Said bridgeInterface) (w w' : World) : Prop where
  sound : Sound w'
  grows : Grows w w'
  told : Told r a w'
  clear : Clears r a → Unsent w' r.notice.key
  sent : ∀ m ∈ w'.messages, m ∈ w.messages ∨ m.origin = r.notice.key ∧ Sends a

variable {o : BridgeOp}

theorem Effect.none {r : Request} {e : Exc} (h : Sound w) : Effect r ⟨o, .error e⟩ w w :=
  ⟨h, .refl w, told_error r o e w, fun hc => absurd hc (not_clears_error r o e),
    fun _ hm => Or.inl hm⟩

variable {publicationKey marker : String} {st st' : EventState} {p : Publication} {kind : Kind}
  {inserted : Bool}

theorem run_begin
    (h : (StateTx.begin kind publicationKey marker).run st = .ok ((p, inserted), st')) :
    ∃ rows, beginIn kind publicationKey marker (st.table kind) = .ok ((p, inserted), rows) ∧
      st' = st.setTable kind rows := by
  have hmap : ∀ {x : Except Exc ((Publication × Bool) × List Publication)},
      x.map (fun q => (q.1, st.setTable kind q.2)) = .ok ((p, inserted), st') →
      ∃ rows, x = .ok ((p, inserted), rows) ∧ st' = st.setTable kind rows := by
    intro x hx
    cases x with
    | error e => cases hx
    | ok q =>
      obtain ⟨hq, rfl⟩ := Prod.mk.inj (Except.ok.inj hx)
      exact ⟨q.2, by rw [← hq], rfl⟩
  cases kind <;> exact hmap h

theorem run_mark {id : ℤ} (h : (StateTx.mark kind publicationKey marker id).run st = .ok (p, st')) :
    st' = st.setTable kind (update (awaits kind publicationKey marker id)
      (Publication.publish id) (st.table kind)) := by
  have hmap : (markIn kind publicationKey marker id (st.table kind)).map
      (fun q => (q.1, st.setTable kind q.2)) = .ok (p, st') := by
    cases kind <;> exact h
  cases hmark : markIn kind publicationKey marker id (st.table kind) with
  | error e =>
    rw [hmark] at hmap
    cases hmap
  | ok q =>
    rw [hmark] at hmap
    obtain ⟨-, rfl⟩ := Prod.mk.inj (Except.ok.inj hmap)
    rw [← markIn_cases (p := q.1) hmark]

variable {rows : List Publication}

theorem mem_setTable {kind' : Kind} (h : p ∈ (st.setTable kind rows).table kind') :
    p ∈ st.table kind' ∧ ¬ (kind = .mobile ↔ kind' = .mobile) ∨
      p ∈ rows ∧ (kind = .mobile ↔ kind' = .mobile) := by
  by_cases hkind : kind = .mobile ↔ kind' = .mobile
  · rw [table_congr hkind.symm, table_setTable] at h
    exact Or.inr ⟨h, hkind⟩
  · rw [table_setTable_of_ne (by tauto)] at h
    exact Or.inl ⟨h, hkind⟩

theorem stands_setTable (hrows : ∀ p ∈ w.events.table kind, ∃ q ∈ rows, q.key = p.key)
    (h : Stands w key) : Stands { w with events := w.events.setTable kind rows } key := by
  obtain ⟨p, hp, hkey⟩ := h
  by_cases hkind : kind = .mobile ↔ key.1 = .mobile
  · rw [table_congr hkind.symm] at hp
    obtain ⟨q, hq, hqkey⟩ := hrows p hp
    refine ⟨q, ?_, hqkey.trans hkey⟩
    change q ∈ (w.events.setTable kind rows).table key.1
    rw [table_congr hkind.symm, table_setTable]
    exact hq
  · refine ⟨p, ?_, hkey⟩
    change p ∈ (w.events.setTable kind rows).table key.1
    rw [table_setTable_of_ne (by tauto)]
    exact hp

/-- An intent that is found or inserted. -/
theorem effect_begin {r : Request} (h : Sound w) (hkey : publicationKey = r.notice.publicationKey)
    (hrun : (StateTx.begin r.notice.kind publicationKey marker).run w.events =
      .ok ((p, inserted), st')) :
    Effect r ⟨.state (.begin r.notice.kind publicationKey marker), .ok (p, inserted)⟩ w
      { w with events := st' } := by
  subst hkey
  obtain ⟨rows, hbegin, rfl⟩ := run_begin hrun
  obtain ⟨-, hpkey, hcase⟩ := beginIn_cases hbegin
  have hrows : ∀ q ∈ w.events.table r.notice.kind, q ∈ rows := by
    rcases hcase with ⟨-, rfl, -⟩ | ⟨-, rfl, -⟩
    · exact fun q hq => hq
    · exact fun q hq => List.mem_append_left _ hq
  have hp : p ∈ rows := by
    rcases hcase with ⟨-, rfl, hp⟩ | ⟨-, rfl, -⟩
    · exact hp
    · exact List.mem_append_right _ (List.mem_singleton.2 rfl)
  have hgrows : Grows w { w with events := w.events.setTable r.notice.kind rows } :=
    ⟨fun _ hm => hm, fun key hs => stands_setTable (fun q hq => ⟨q, hrows q hq, rfl⟩) hs⟩
  refine ⟨⟨fun key hno => ?_, fun kind q hq hstatus => ?_, h.once⟩, hgrows, ⟨fun id hid => hid.elim,
    fun kind publicationKey marker reply ha => ?_⟩, fun hclears => ?_, fun _ hm => Or.inl hm⟩
  · exact h.unsent key fun hs => hno (hgrows.rows key hs)
  · -- a row that is inserted is an intent
    have hold : q ∈ w.events.table kind := by
      rcases mem_setTable hq with ⟨hq, -⟩ | ⟨hq, hkind⟩
      · exact hq
      · rw [← table_congr hkind]
        rcases hcase with ⟨-, rfl, -⟩ | ⟨-, rfl, hintent, -⟩
        · exact hq
        · rcases List.mem_append.1 hq with hq | hq
          · exact hq
          · obtain rfl := List.mem_singleton.1 hq
            rw [hintent] at hstatus
            cases hstatus
    exact h.recorded kind q hold hstatus
  · cases ha
    refine ⟨p, ?_, hpkey⟩
    change p ∈ (w.events.setTable r.notice.kind rows).table r.notice.kind
    rw [table_setTable]
    exact hp
  · -- the intent is new
    rcases hcase with ⟨hfalse, -⟩ | ⟨-, -, -, hnew⟩
    · rw [hfalse] at hclears
      cases hclears
    · refine h.unsent r.notice.key ?_
      rintro ⟨q, hq, hqkey⟩
      exact hnew q hq hqkey

/-- A message that was named is recorded. -/
theorem effect_mark {r : Request} {id : ℤ} (h : Sound w)
    (hkey : publicationKey = r.notice.publicationKey) (hsent : SentFor w r.notice.key id)
    (hrun : (StateTx.mark r.notice.kind publicationKey marker id).run w.events = .ok (p, st')) :
    Effect r ⟨.state (.mark r.notice.kind publicationKey marker id), .ok p⟩ w
      { w with events := st' } := by
  subst hkey
  obtain rfl := run_mark hrun
  set rows := update (awaits r.notice.kind r.notice.publicationKey marker id)
    (Publication.publish id) (w.events.table r.notice.kind) with hrows
  have hgrows : Grows w { w with events := w.events.setTable r.notice.kind rows } := by
    refine ⟨fun _ hm => hm, fun key hs => stands_setTable (fun q hq => ?_) hs⟩
    refine ⟨_, mem_update.2 ⟨q, hq, rfl⟩, ?_⟩
    split_ifs
    · rfl
    · rfl
  refine ⟨⟨fun key hno => ?_, fun kind q' hq' hstatus => ?_, h.once⟩, hgrows,
    ⟨fun id hid => hid.elim, fun kind publicationKey marker reply ha => by cases ha⟩,
    fun hclears => hclears.elim, fun _ hm => Or.inl hm⟩
  · exact h.unsent key fun hs => hno (hgrows.rows key hs)
  · rcases mem_setTable hq' with ⟨hq', -⟩ | ⟨hq', hkind⟩
    · exact h.recorded kind q' hq' hstatus
    · obtain ⟨q, hq, rfl⟩ := mem_update.1 hq'
      split_ifs at hstatus ⊢ with hawaits
      · have hqkey : q.key = (r.notice.kind, r.notice.publicationKey) :=
          (of_decide_eq_true hawaits).1
        refine ⟨id, rfl, ?_⟩
        change SentFor _ q.key id
        rw [hqkey]
        exact hsent
      · rw [table_congr hkind] at hq
        exact h.recorded kind q hq hstatus

/-- A message is sent when there was none. -/
theorem effect_send {r : Request} (h : Sound w) (hstands : Stands w r.notice.key)
    (hunsent : Unsent w r.notice.key) {m : Message} (hm : m.origin = r.notice.key) (ha : Sends a)
    (hnames : ∀ id, Names r id a → id = m.id) :
    Effect r a w { w with messages := w.messages ++ [m] } := by
  have hgrows : Grows w { w with messages := w.messages ++ [m] } :=
    ⟨fun _ hq => List.mem_append_left _ hq, fun _ hs => hs⟩
  have hsends : ∀ kind publicationKey marker reply,
      a ≠ ⟨.state (.begin kind publicationKey marker), .ok reply⟩ := by
    rintro kind publicationKey marker reply rfl
    exact ha
  refine ⟨⟨fun key hno q hq => ?_, fun kind p hp hstatus => ?_, fun key => ?_⟩, hgrows,
    ⟨fun id hid => ?_, fun kind publicationKey marker reply heq =>
      absurd heq (hsends kind publicationKey marker reply)⟩, fun hclears => ?_, fun q hq => ?_⟩
  · rcases List.mem_append.1 hq with hq | hq
    · exact h.unsent key hno q hq
    · obtain rfl := List.mem_singleton.1 hq
      rintro rfl
      rw [hm] at hno
      exact hno hstands
  · obtain ⟨id, hid, hsent⟩ := h.recorded kind p hp hstatus
    exact ⟨id, hid, hsent.grow hgrows⟩
  · rw [List.countP_append, List.countP_singleton]
    split_ifs with hkey
    · have hkey : m.origin = key := of_decide_eq_true hkey
      have hzero : w.messages.countP (fun m => m.origin = key) = 0 := by
        refine List.countP_eq_zero.2 fun q hq horigin => ?_
        exact hunsent q hq ((of_decide_eq_true horigin).trans (hkey.symm.trans hm))
      omega
    · have hle := h.once key
      omega
  · exact ⟨m, List.mem_append_right _ (List.mem_singleton.2 rfl), hm, (hnames id hid).symm⟩
  · obtain ⟨o, x⟩ := a
    cases o with
    | state t => exact ha.elim
    | search _ _ _ => exact ha.elim
    | send _ _ _ _ => exact hclears.elim
  · rcases List.mem_append.1 hq with hq | hq
    · exact Or.inl hq
    · obtain rfl := List.mem_singleton.1 hq
      exact Or.inr ⟨hm, ha⟩

/-- The search names the earlier message of the publication, and no other. -/
def Finds (r : Request) (w : World) (messages : List Found) : Prop :=
  ∀ found, ownMarker r.notice r.botUserId messages = .ok found →
    found = (w.messages.find? fun m => m.origin = r.notice.key).map Message.id

theorem effect_search {r : Request} {stream topic : String} {messages : List Found} (h : Sound w)
    (hfinds : Finds r w messages) : Effect r ⟨.search stream topic marker, .ok messages⟩ w w := by
  refine ⟨h, .refl w, ⟨fun id hid => ?_, fun kind publicationKey marker reply ha => by cases ha⟩,
    fun hclears m hm horigin => ?_, fun _ hm => Or.inl hm⟩
  · obtain ⟨m, hm, hmid⟩ := Option.map_eq_some_iff.1 (hfinds _ hid).symm
    exact ⟨m, List.mem_of_find?_eq_some hm, by simpa using List.find?_some hm, hmid⟩
  · have hnone := Option.map_eq_none_iff.1 (hfinds _ hclears).symm
    have hno := List.find?_eq_none.1 hnone m hm
    exact hno (decide_eq_true horigin)

theorem effect_perform {r : Request} {h : List (Prog.Said bridgeInterface)} (x : BridgeChoice)
    (hs : Sound w) (htold : ∀ a ∈ h, Told r a w) (hallowed : Allowed r h o)
    (hclear : Cleared r h → Unsent w r.notice.key) (hfinds : ∀ stream topic marker messages,
      (⟨o, (performBridge o x w).1⟩ : Prog.Said bridgeInterface) =
        ⟨.search stream topic marker, .ok messages⟩ → Finds r w messages) :
    Effect r ⟨o, (performBridge o x w).1⟩ w (performBridge o x w).2 := by
  cases o with
  | state t =>
    cases hx : x.fault with
    | some message =>
      have heq : performBridge (.state t) x w = (.error (.sqlite message), w) := by
        simp only [performBridge, hx]
      rw [heq]
      exact .none hs
    | none =>
      cases hrun : t.run w.events with
      | error e =>
        have heq : performBridge (.state t) x w = (.error e, w) := by
          simp only [performBridge, hx, hrun]
        rw [heq]
        exact .none hs
      | ok reply =>
        have heq : performBridge (.state t) x w =
            (.ok reply.1, { w with events := reply.2 }) := by
          simp only [performBridge, hx, hrun]
        rw [heq]
        obtain ⟨reply, st'⟩ := reply
        cases t with
        | begin kind publicationKey marker =>
          obtain ⟨rfl, hkey, -⟩ := hallowed
          exact effect_begin hs hkey hrun
        | mark kind publicationKey marker id =>
          obtain ⟨rfl, hkey, a, ha, hnames⟩ := hallowed
          exact effect_mark hs hkey ((htold a ha).1 id hnames) hrun
        | _ => exact hallowed.elim
  | search stream topic marker =>
    change Effect r ⟨.search stream topic marker, x.found⟩ w w
    cases hx : x.found with
    | error e => exact .none hs
    | ok messages =>
      refine effect_search hs (hfinds stream topic marker messages ?_)
      change (⟨.search stream topic marker, x.found⟩ : Prog.Said bridgeInterface) = _
      rw [hx]
  | send origin stream topic content =>
    obtain ⟨rfl, ⟨reply, hreply⟩, hcleared⟩ := hallowed
    have hstands : Stands w r.notice.key := (htold _ hreply).2 _ _ _ _ rfl
    have hunsent := hclear hcleared
    cases hx : x.sent with
    | ok _ =>
      have heq : performBridge (.send r.notice.key stream topic content) x w = (.ok x.id,
          { w with messages := w.messages ++ [⟨x.id, r.notice.key, stream, topic, content⟩] }) := by
        simp only [performBridge, hx]
      rw [heq]
      exact effect_send hs hstands hunsent rfl trivial fun id hid => hid
    | error e =>
      by_cases hdelivered : x.delivered = true
      · have heq : performBridge (.send r.notice.key stream topic content) x w = (.error e,
            { w with
              messages := w.messages ++ [⟨x.id, r.notice.key, stream, topic, content⟩] }) := by
          simp only [performBridge, hx, hdelivered, if_true]
        rw [heq]
        exact effect_send hs hstands hunsent rfl trivial fun id hid => hid.elim
      · have heq : performBridge (.send r.notice.key stream topic content) x w =
            (.error e, w) := by
          simp only [performBridge, hx, if_neg hdelivered]
        rw [heq]
        exact .none hs

/-! ## Runs -/

section runs

variable {ms : List (Moment bridgeSystem)} {s s' : State bridgeSystem}

/-- Two publications go through the same table. -/
def SameTable (n n' : Notice) : Prop :=
  n.kind = .mobile ↔ n'.kind = .mobile

/-- A process starts a publication when no other of its table is under way. -/
def Alone (m : Moment bridgeSystem) : Prop :=
  ∀ r, m.move = .spawn r → ∀ c ∈ m.before.calls, SameTable c.request.notice r.notice →
    c.next = none

/-- A search that is answered finds the bot's own earlier message. -/
def Exact (m : Moment bridgeSystem) : Prop :=
  ∀ c stream topic marker messages, m.Performs c (.search stream topic marker) (.ok messages) →
    Finds c.request m.before.store messages

structure Steady (s : State bridgeSystem) : Prop where
  sound : Sound s.store
  told : ∀ c ∈ s.calls, ∀ a ∈ c.said, Told c.request a s.store
  alone : ∀ (i j : ℕ) (c c' : Call bridgeSystem), s.calls[i]? = some c → s.calls[j]? = some c' →
    c.next ≠ none → c'.next ≠ none → SameTable c.request.notice c'.request.notice → i = j
  clear : ∀ c ∈ s.calls, c.next ≠ none → Cleared c.request c.said →
    Unsent s.store c.request.notice.key

variable {i : ℕ}

theorem getElem?_set_cases {γ : Type*} {l : List γ} {j : ℕ} {a b : γ}
    (h : (l.set i a)[j]? = some b) : j = i ∧ b = a ∨ j ≠ i ∧ l[j]? = some b := by
  by_cases hij : i = j
  · subst hij
    rw [List.getElem?_set_self (by simpa using (List.getElem?_eq_some_iff.1 h).1)] at h
    exact Or.inl ⟨rfl, (Option.some.inj h).symm⟩
  · rw [List.getElem?_set_ne hij] at h
    exact Or.inr ⟨fun heq => hij heq.symm, h⟩

theorem Steady.spawn (h : Steady s) {r : Request}
    (halone : ∀ c ∈ s.calls, SameTable c.request.notice r.notice → c.next = none) :
    Steady ⟨s.store, s.calls ++ [⟨r, [], some (publish r.notice r.botUserId)⟩]⟩ := by
  refine ⟨h.sound, fun c hc a ha => ?_, fun i j c c' hi hj hlive hlive' hsame => ?_,
    fun c hc hlive hcleared => ?_⟩
  · rcases List.mem_append.1 hc with hc | hc
    · exact h.told c hc a ha
    · obtain rfl := List.mem_singleton.1 hc
      cases ha
  · -- the new call is the last one
    have hcase : ∀ {k : ℕ} {d : Call bridgeSystem},
        (s.calls ++ [⟨r, [], some (publish r.notice r.botUserId)⟩])[k]? = some d →
        s.calls[k]? = some d ∨ k = s.calls.length ∧ d.request = r := by
      intro k d hk
      rcases lt_or_ge k s.calls.length with hlt | hge
      · rw [List.getElem?_append_left hlt] at hk
        exact Or.inl hk
      · rw [List.getElem?_append_right hge] at hk
        have hzero : k - s.calls.length = 0 := by
          have := (List.getElem?_eq_some_iff.1 hk).1
          simp only [List.length_singleton] at this
          omega
        rw [hzero] at hk
        obtain rfl := Option.some.inj hk
        exact Or.inr ⟨by omega, rfl⟩
    rcases hcase hi with hold | ⟨hlast, rfl⟩
    · rcases hcase hj with hold' | ⟨-, rfl⟩
      · exact h.alone i j c c' hold hold' hlive hlive' hsame
      · exact absurd (halone c (List.mem_of_getElem? hold) hsame) hlive
    · rcases hcase hj with hold' | ⟨hlast', -⟩
      · exact absurd (halone c' (List.mem_of_getElem? hold') hsame.symm) hlive'
      · exact hlast.trans hlast'.symm
  · rcases List.mem_append.1 hc with hc | hc
    · exact h.clear c hc hlive hcleared
    · obtain rfl := List.mem_singleton.1 hc
      obtain ⟨⟨a, ha, -⟩, -⟩ := hcleared
      cases ha

variable {c : Call bridgeSystem}

/-- An operation that a call performs. -/
theorem Steady.act (h : Steady s) {p : Publisher ℤ} {a : Prog.Said bridgeInterface} {w : World}
    (hc : s.calls[i]? = some c) (hlive : c.next ≠ none) (heffect : Effect c.request a s.store w) :
    Steady ⟨w, s.calls.set i ⟨c.request, c.said ++ [a], some p⟩⟩ := by
  have hmem := List.mem_of_getElem? hc
  refine ⟨heffect.sound, fun d hd b hb => ?_, fun j k d d' hj hk hd hd' hsame => ?_,
    fun d hd hdlive hcleared => ?_⟩
  · rcases mem_set_cases hd with rfl | hd
    · rcases List.mem_append.1 hb with hb | hb
      · exact (h.told c hmem b hb).grow heffect.grows
      · obtain rfl := List.mem_singleton.1 hb
        exact heffect.told
    · exact (h.told d hd b hb).grow heffect.grows
  · -- a call that is live was live before
    rcases getElem?_set_cases hj with ⟨hji, rfl⟩ | ⟨-, hold⟩
    · rcases getElem?_set_cases hk with ⟨hki, rfl⟩ | ⟨-, hold'⟩
      · exact hji.trans hki.symm
      · exact hji.trans (h.alone i k c d' hc hold' hlive hd' hsame)
    · rcases getElem?_set_cases hk with ⟨hki, rfl⟩ | ⟨-, hold'⟩
      · exact (h.alone j i d c hold hc hd hlive hsame).trans hki.symm
      · exact h.alone j k d d' hold hold' hd hd' hsame
  · obtain ⟨j, hj⟩ := List.mem_iff_getElem?.1 hd
    rcases getElem?_set_cases hj with ⟨rfl, rfl⟩ | ⟨hne, hj⟩
    · -- the call that acts
      obtain ⟨⟨b, hb, hclears⟩, hno⟩ := hcleared
      rcases List.mem_append.1 hb with hb | hb
      · intro m hm
        have hunsent := h.clear c hmem hlive
          ⟨⟨b, hb, hclears⟩, fun e he => hno e (List.mem_append_left _ he)⟩
        rcases heffect.sent m hm with hm | ⟨-, hsent⟩
        · exact hunsent m hm
        · exact absurd hsent (hno a (List.mem_append_right _ (List.mem_singleton.2 rfl)))
      · obtain rfl := List.mem_singleton.1 hb
        exact heffect.clear hclears
    · -- another call, whose publication is of another key
      intro m hm horigin
      rcases heffect.sent m hm with hm | ⟨hm, -⟩
      · exact h.clear d (List.mem_of_getElem? hj) hdlive hcleared m hm horigin
      · have hkey : d.request.notice.key = c.request.notice.key := horigin.symm.trans hm
        have hkind : d.request.notice.kind = c.request.notice.kind := congrArg Prod.fst hkey
        refine hne (h.alone j i d c hj hc hdlive hlive ?_)
        unfold SameTable
        rw [hkind]

theorem Steady.crash (h : Steady s) (hc : s.calls[i]? = some c) :
    Steady ⟨s.store, s.calls.set i ⟨c.request, c.said, none⟩⟩ := by
  have hdead : ∀ {d : Call bridgeSystem}, d.next ≠ none →
      d ≠ ⟨c.request, c.said, none⟩ := by
    rintro d hd rfl
    exact hd rfl
  refine ⟨h.sound, fun d hd a ha => ?_, fun j k d d' hj hk hd hd' hsame => ?_,
    fun d hd hdlive hcleared => ?_⟩
  · rcases mem_set_cases hd with rfl | hd
    · exact h.told c (List.mem_of_getElem? hc) a ha
    · exact h.told d hd a ha
  · rcases getElem?_set_cases hj with ⟨-, heq⟩ | ⟨-, hj⟩
    · exact absurd heq (hdead hd)
    · rcases getElem?_set_cases hk with ⟨-, heq⟩ | ⟨-, hk⟩
      · exact absurd heq (hdead hd')
      · exact h.alone j k d d' hj hk hd hd' hsame
  · rcases mem_set_cases hd with heq | hd
    · exact absurd heq (hdead hdlive)
    · exact h.clear d hd hdlive hcleared

/-- Every state of one process is steady. -/
theorem steady_of_run (hr : Run (idle .empty) ms s) (halone : ∀ m ∈ ms, Alone m)
    (hexact : ∀ m ∈ ms, Exact m) : Steady s := by
  induction hr with
  | start => exact ⟨sound_empty, by simp [idle], by simp [idle], by simp [idle]⟩
  | @step ms s s' m hr h ih =>
    have hs := ih (fun m hm => halone m (List.mem_append_left _ hm))
      fun m hm => hexact m (List.mem_append_left _ hm)
    have hlast : (⟨s, m, s'⟩ : Moment bridgeSystem) ∈ ms ++ [⟨s, m, s'⟩] :=
      List.mem_append_right _ (List.mem_singleton.2 rfl)
    rcases step_cases h with ⟨r, hm, rfl⟩ | ⟨i, x, c, o, k, hm, hc, ho, hs'⟩ |
      ⟨i, c, -, hc, rfl⟩
    · exact hs.spawn (halone _ hlast r hm)
    · have hmem := List.mem_of_getElem? hc
      have hlive : c.next ≠ none := by
        rw [Call.next, ho]
        exact Option.some_ne_none o
      have hallowed := hr.asked rfl publish_careful hc ho
      have heffect := effect_perform x hs.sound (hs.told c hmem) hallowed
        (hs.clear c hmem hlive) fun stream topic marker messages heq => ?_
      · rw [hs']
        exact hs.act hc hlive heffect
      · cases o with
        | search stream' topic' marker' =>
          refine hexact _ hlast c stream' topic' marker' messages ⟨i, x, k, hm, hc, ho, ?_⟩
          have hanswer : (performBridge (.search stream' topic' marker') x s.store).1 =
              .ok messages := eq_of_heq (Sigma.mk.inj heq).2
          rw [hs', ← hanswer]
        | state t => cases (Sigma.mk.inj heq).1
        | send _ _ _ _ => cases (Sigma.mk.inj heq).1
    · exact hs.crash hc

/-- In every history of one process, with crashes between any two operations, a publication has
at most one message, and a publication that is published records the message that was sent for
it. -/
theorem one_message (hr : Run (idle .empty) ms s) (halone : ∀ m ∈ ms, Alone m)
    (hexact : ∀ m ∈ ms, Exact m) :
    (∀ key, s.store.messages.countP (fun m => m.origin = key) ≤ 1) ∧
    ∀ p ∈ s.store.events.publications ++ s.store.events.mobilePublications,
      p.status = .published →
        ∃ m ∈ s.store.messages, m.origin = p.key ∧ p.messageId = some m.id := by
  have hs := (steady_of_run hr halone hexact).sound
  refine ⟨hs.once, fun p hp hstatus => ?_⟩
  have hrecorded : ∃ id ∈ p.messageId, SentFor s.store p.key id := by
    rcases List.mem_append.1 hp with hp | hp
    · exact hs.recorded .approval p hp hstatus
    · exact hs.recorded .mobile p hp hstatus
  obtain ⟨id, hid, m, hm, horigin, rfl⟩ := hrecorded
  exact ⟨m, hm, horigin, hid⟩

end runs

/-! ## A lost answer -/

namespace Sample

def approval : Request :=
  ⟨⟨.approval, "a", "OPS-APPROVAL-V1:a", "ops", 3, "approvals", .ok "OPS-APPROVAL-V1:a"⟩, 9⟩

/-- Nothing fails, and Zulip gives the message the number. -/
def calm : BridgeChoice :=
  ⟨none, .ok [], 7, .ok (), true⟩

/-- Zulip takes the message and its answer is lost. -/
def lost : BridgeChoice :=
  { calm with sent := .error (.retryable "timeout") }

def search : BridgeChoice :=
  { calm with found := .ok [⟨some 7, some "stream", some 3, some "ops", some "approvals", some 9,
    some "OPS-APPROVAL-V1:a"⟩] }

/-- The answer of the send is lost, a second process crashes after its first operation, and a
third one finds the message. -/
def interrupted : List (Move bridgeSystem) :=
  [.spawn approval, .act 0 calm, .act 0 lost, .spawn approval, .act 1 calm, .crash 1,
    .spawn approval, .act 2 calm, .act 2 search, .act 2 calm]

/-- The call may start, or its search is exact. -/
def careful (s : State bridgeSystem) : Move bridgeSystem → Bool
  | .spawn _ => s.calls.all fun c => c.next.isNone
  | .act i x => (s.calls[i]?).all fun c =>
    match x.found with
    | .ok messages =>
      match ownMarker c.request.notice c.request.botUserId messages with
      | .ok found => !(c.next matches some (.search _ _ _)) || decide (found =
        (s.store.messages.find? fun m => m.origin = c.request.notice.key).map Message.id)
      | .error _ => true
    | .error _ => true
  | .crash _ => true

def recorded (s : State bridgeSystem) : Bool :=
  s.store.events.publications.map (fun p => (p.key, p.status, p.messageId)) =
    [((.approval, "a"), .published, some 7)] ∧ s.store.messages.length = 1

theorem one_message_sample : ∃ (ms : List (Moment bridgeSystem)) (s : State bridgeSystem),
    Run (idle .empty) ms s ∧ recorded s = true ∧
    ∀ key, s.store.messages.countP (fun m => m.origin = key) ≤ 1 := by
  have hexec : ∃ s ∈ (idle .empty).execWhile careful interrupted, recorded s = true := by
    decide
  obtain ⟨s, hs, hrecorded⟩ := hexec
  obtain ⟨ms, hr, htest⟩ := Run.of_execWhile hs
  refine ⟨ms, s, hr, hrecorded, (one_message hr (fun m hm r hmove c hc _ => ?_)
    fun m hm c stream topic marker messages hperforms found hfound => ?_).1⟩
  · have hpass := htest m hm
    rw [hmove] at hpass
    exact Option.isNone_iff_eq_none.1 (List.all_eq_true.1 hpass c hc)
  · obtain ⟨i, x, k, hmove, hcall, hprog, hanswer⟩ := hperforms
    have hx : x.found = .ok messages := congrArg Prod.fst hanswer
    have hpass := htest m hm
    rw [hmove] at hpass
    simpa [careful, hcall, hx, hfound, Call.next, hprog] using hpass

end Sample

end OpsBridge
