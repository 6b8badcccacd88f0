import OpsControlPlane.Lib.Undisturbed
import OpsControlPlane.Native.Pilot
import Mathlib.Data.List.ReduceOption

/-!
# The pilot acts at most once

`Good` is kept by every operation of the pilot where the pilot asks it, and holds wherever it stops.
The row of an attempt is written before its CLI starts, and the row of an approval before it is
submitted; `Launch` and `Claimed` are what is known between the two. `pilot_once` is the result over
all runs.
-/

namespace OpsPilot

open Calls Calls.Prog

/-! ## Logs -/

section logs

variable {α : Type} {l before after : List α}

theorem split_concat {e x : α} (h : l ++ [e] = before ++ x :: after) (hne : x ≠ e) :
    ∃ after', after = after' ++ [e] ∧ l = before ++ x :: after' := by
  rcases List.eq_nil_or_concat' after with rfl | ⟨after', e', rfl⟩
  · obtain ⟨-, hx⟩ := List.append_inj' h rfl
    exact absurd (List.cons.inj hx).1.symm hne
  · have h' : l ++ [e] = (before ++ x :: after') ++ [e'] := by
      rw [h, List.append_assoc]
      rfl
    obtain ⟨hl, he⟩ := List.append_inj' h' rfl
    obtain rfl := (List.cons.inj he).1
    exact ⟨after', rfl, hl⟩

theorem split_last {e : α} (h : l ++ [e] = before ++ e :: after) (hnew : e ∉ l) :
    before = l ∧ after = [] := by
  rcases List.eq_nil_or_concat' after with rfl | ⟨after', e', rfl⟩
  · exact ⟨(List.append_inj' h rfl).1.symm, rfl⟩
  · have h' : l ++ [e] = (before ++ e :: after') ++ [e'] := by
      rw [h, List.append_assoc]
      rfl
    have hl := (List.append_inj' h' rfl).1
    exact absurd (hl ▸ List.mem_append_right before List.mem_cons_self) hnew

end logs

/-! ## The invariant -/

variable {digits : Digits} {w : World}

structure Good (digits : Digits) (w : World) : Prop extends AtMostOnce digits w where
  claimed : ∀ tool id, .submitted tool id ∈ w.log → id ∈ w.approvals.map Prod.fst

def World.advance (w : World) (e : ℚ≥0) : World :=
  { w with now := w.now + e }

theorem Good.advance (h : Good digits w) (e : ℚ≥0) : Good digits (w.advance e) :=
  { h with }

/-- The event is neither a start nor a submission. -/
def Neutral : Event → Prop
  | .started _ _ _ | .submitted _ _ => False
  | _ => True

theorem Good.see (h : Good digits w) {e : Event} (he : Neutral e) : Good digits (w.see e) := by
  have hstart : ∀ source, isStart source e = false := by
    cases e with
    | started | submitted => exact he.elim
    | _ => exact fun _ => rfl
  have hsubmit : ∀ id, isSubmission id e = false := by
    cases e with
    | started | submitted => exact he.elim
    | _ => exact fun _ => rfl
  have hold : ∀ e', ¬Neutral e' → e' ∈ (w.see e).log → e' ∈ w.log := by
    intro e' hne hmem
    rcases List.mem_append.1 hmem with hmem | hmem
    · exact hmem
    · exact absurd (List.mem_singleton.1 hmem ▸ he) hne
  refine ⟨⟨fun source => ?_, fun before after tool mission source hlog => ?_,
    fun tool mission source hmem => h.recorded _ _ _ (hold _ (fun hn => hn) hmem), h.daily,
    fun id => ?_, fun before after tool id hlog => ?_, fun a ha hstatus => ?_⟩,
    fun tool id hmem => h.claimed _ _ (hold _ (fun hn => hn) hmem)⟩
  · rw [World.see, List.countP_append, List.countP_singleton, if_neg (by rw [hstart]; decide)]
    exact h.once source
  · obtain ⟨after', rfl, hlog'⟩ := split_concat hlog fun hx => (hx ▸ he : Neutral (.started ..))
    exact h.justified _ _ _ _ _ hlog'
  · rw [World.see, List.countP_append, List.countP_singleton, if_neg (by rw [hsubmit]; decide)]
    exact h.submittedOnce id
  · obtain ⟨after', rfl, hlog'⟩ := split_concat hlog fun hx => (hx ▸ he : Neutral (.submitted ..))
    exact h.own _ _ _ _ hlog'
  · obtain ⟨before, after, records, hlog, hreplies⟩ := h.answered a ha hstatus
    refine ⟨before, after ++ [e], records, ?_, hreplies⟩
    rw [World.see, hlog, List.append_assoc]
    rfl

theorem Good.approvals (h : Good digits w) {approvals : List (String × ApprovalStatus)}
    (hkeys : w.approvals.map Prod.fst ⊆ approvals.map Prod.fst) :
    Good digits { w with approvals := approvals } :=
  { h with claimed := fun tool id hmem => hkeys (h.claimed tool id hmem) }

/-- Other statuses of attempts. What is handed off stays so, and was answered. -/
theorem Good.statuses (h : Good digits w) (f : Attempt → Attempt)
    (hsame : ∀ a, (f a).source = a.source ∧ (f a).mission = a.mission ∧ (f a).tool = a.tool ∧
      (f a).started = a.started)
    (hkeep : ∀ a ∈ w.attempts, a.status = .handedOff → (f a).status = .handedOff)
    (hnew : ∀ a ∈ w.attempts, (f a).status = .handedOff → a.status = .handedOff ∨
      ∃ before after records, w.log = before ++ .finished a.tool a.mission a.source true ::
        .listed a.mission records :: after ∧ (replies a.source records).length = 1) :
    Good digits { w with attempts := w.attempts.map f } where
  once := h.once
  justified := h.justified
  recorded := by
    intro tool mission source hmem
    obtain ⟨a, ha, hsource, hmission, htool⟩ := h.recorded tool mission source hmem
    obtain ⟨h₁, h₂, h₃, -⟩ := hsame a
    exact ⟨f a, List.mem_map_of_mem ha, h₁.trans hsource, h₂.trans hmission, h₃.trans htool⟩
  daily := by
    intro p hp
    rw [List.countP_map]
    refine le_of_eq_of_le (List.countP_congr fun a _ => ?_) (h.daily p hp)
    rw [Function.comp_apply, (hsame a).2.2.2]
  submittedOnce := h.submittedOnce
  own := by
    intro before after tool id hlog
    obtain ⟨action, hlast, hid, hstatus, hrequested, a, ha, hmission, htool, hhanded⟩ :=
      h.own before after tool id hlog
    obtain ⟨-, h₂, h₃, -⟩ := hsame a
    exact ⟨action, hlast, hid, hstatus, hrequested, f a, List.mem_map_of_mem ha,
      h₂.trans hmission, h₃.trans htool, hkeep a ha hhanded⟩
  answered := by
    intro b hb hhanded
    obtain ⟨a, ha, rfl⟩ := List.mem_map.1 hb
    obtain ⟨h₁, h₂, h₃, -⟩ := hsame a
    rw [h₁, h₂, h₃]
    exact (hnew a ha hhanded).elim (h.answered a ha) id
  claimed := h.claimed

theorem Good.review (h : Good digits w) : Good digits w.review := by
  have hattempts := h.statuses
    (fun a => if a.status = .running then { a with status := .needsReview } else a)
    (fun a => by split <;> exact ⟨rfl, rfl, rfl, rfl⟩)
    (fun a _ hstatus => by rw [if_neg (by rw [hstatus]; decide)]; exact hstatus)
    (fun a _ hstatus => by
      split at hstatus
      · cases hstatus
      · exact .inl hstatus)
  refine hattempts.approvals fun id hid => ?_
  obtain ⟨b, hb, rfl⟩ := List.mem_map.1 hid
  refine List.mem_map.2 ⟨_, List.mem_map_of_mem hb, ?_⟩
  split <;> rfl

/-! ## Operations -/

variable {o : PilotOp} {R : o.Reply → World → Prop}

/-- An operation, whether it raises or not. -/
theorem ensures_call {C : World → Prop} (hC : C w) (hadvance : ∀ e, C (w.advance e))
    (h : ∀ x e, C (o.run x (w.advance e)).2 ∧
      ∀ a, (o.run x (w.advance e)).1 = .ok a → R a (o.run x (w.advance e)).2) :
    Ensures (I := fallible PilotOp.Reply Unit) act C (call o) R w := by
  refine ensures_request hC fun x => ?_
  rw [act]
  split
  · split
    · exact ⟨(h x x.elapsed).1, fun _ ha => by cases ha⟩
    · exact ⟨hadvance x.elapsed, fun _ ha => by cases ha⟩
  · exact h x x.elapsed

theorem ensures_ask (hw : Good digits w) (h : ∀ x e, (o.run x (w.advance e)).2 = w.advance e ∧
      ∀ a, (o.run x (w.advance e)).1 = .ok a → R a (w.advance e)) :
    Ensures (I := fallible PilotOp.Reply Unit) act (Good digits) (call o) R w :=
  ensures_call hw hw.advance fun x e => by
    obtain ⟨hsame, hR⟩ := h x e
    rw [hsame]
    exact ⟨hw.advance e, hR⟩

/-! ## The source of a mission -/

theorem mapM_evidence {digits : Digits} {es : List String} {found : List (Option ℕ)}
    (h : es.mapM (evidenceSource digits) = .ok found) (n : ℕ) :
    n ∈ found.reduceOption ↔ ∃ e ∈ es, evidenceSource digits e = .ok (some n) := by
  induction es generalizing found with
  | nil =>
    obtain rfl := Except.ok.inj h
    exact iff_of_false List.not_mem_nil fun ⟨_, he, _⟩ => List.not_mem_nil he
  | cons e es ih =>
    rw [List.mapM_cons] at h
    obtain ⟨first, hfirst, h⟩ := bind_eq_ok.1 h
    obtain ⟨others, hothers, h⟩ := bind_eq_ok.1 h
    obtain rfl : first :: others = found := Except.ok.inj h
    simp only [List.mem_cons, exists_eq_or_imp]
    rw [hfirst, ← ih hothers]
    cases first with
    | none => exact ⟨fun h => .inr h, fun h => h.resolve_left fun he => by cases he⟩
    | some m =>
      rw [List.reduceOption_cons_of_some, List.mem_cons]
      exact or_congr_left ⟨fun h => h ▸ rfl, fun h => (Option.some.inj (Except.ok.inj h)).symm⟩

variable {tool : Tool} {records : List Record} {source : ℕ}

/-- The source of the records is named alone, dispatched to the tool alone, and has no reply. -/
theorem sourceFor_spec (h : sourceFor digits records tool = .ok (some source)) :
    Names digits records source ∧
      DispatchedTo records source tool ∧ replies source records = [] := by
  obtain ⟨found, hfound, h⟩ := bind_eq_ok.1 h
  have hnames := mapM_evidence hfound
  cases hsources : found.reduceOption with
  | nil =>
    rw [hsources] at h
    cases h
  | cons first others =>
    rw [hsources] at h hnames
    dsimp only at h
    split at h
    · cases h
    next hothers =>
    split at h
    · cases h
    next hdispatch =>
    split at h
    · cases h
    next hreplies =>
    obtain rfl := Option.some.inj (Except.ok.inj h)
    obtain ⟨hsome, hall⟩ := not_not.1 hdispatch
    have hdestination : ∀ e ∈ destinations first records, e = dispatch first tool := fun e he =>
      of_decide_eq_true (List.all_eq_true.1 hall e he)
    refine ⟨fun n => ?_, fun e => ⟨hdestination e, ?_⟩, not_not.1 hreplies⟩
    · rw [← hnames n, List.mem_cons]
      refine ⟨fun hn => ?_, .inl⟩
      by_contra hne
      exact hothers (List.any_eq_true.2 ⟨n, hn.resolve_left hne, decide_eq_true hne⟩)
    · rintro rfl
      obtain ⟨e, he⟩ := List.exists_mem_of_ne_nil _ hsome
      exact hdestination e he ▸ he

/-! ## An attempt -/

def Running (tool : Tool) (mission : String) (source : ℕ) (w : World) : Prop :=
  ∀ a ∈ w.attempts, a.source = source →
    a.mission = mission ∧ a.tool = tool ∧ a.status = .running

/-- The attempt is written, and its CLI is not started. -/
def Launch (tool : Tool) (mission : String) (source : ℕ) (records : List Record) (w : World) :
    Prop :=
  w.log.getLast? = some (.listed mission records) ∧
    (∀ tool mission, .started tool mission source ∉ w.log) ∧
    Running tool mission source w ∧
    ∃ a ∈ w.attempts, a.source = source ∧ a.mission = mission ∧ a.tool = tool

variable {past : ℚ}

theorem daily_insert (h : Good digits w) (hpast : past ≤ w.now)
    (hrecent : (w.attempts.countP fun a => past - day < a.started) < 20) (a : Attempt)
    (hstarted : a.started = w.now) {p : ℚ → Bool} (hp : Window p) :
    (w.attempts ++ [a]).countP (fun a => p a.started) ≤ 20 := by
  rw [List.countP_append, List.countP_singleton]
  split
  · next hin =>
    rw [hstarted] at hin
    have hle : w.attempts.countP (fun a => p a.started) ≤
        w.attempts.countP fun a => past - day < a.started := by
      refine List.countP_mono_left fun b _ hb => decide_eq_true ?_
      have := hp w.now b.started hin hb
      linarith
    omega
  · exact h.daily p hp

theorem Good.insert (h : Good digits w) (hpast : past ≤ w.now)
    (hrecent : (w.attempts.countP fun a => past - day < a.started) < 20) (source : ℕ)
    (mission : String) (tool : Tool) :
    Good digits { w with attempts := w.attempts ++
      [⟨source, mission, tool, w.now, .running⟩] } where
  once := h.once
  justified := h.justified
  recorded tool mission source hmem :=
    let ⟨a, ha, hrow⟩ := h.recorded tool mission source hmem
    ⟨a, List.mem_append_left _ ha, hrow⟩
  daily _ hp := daily_insert h hpast hrecent _ rfl hp
  submittedOnce := h.submittedOnce
  own before after tool id hlog :=
    let ⟨action, hlast, hid, hstatus, hrequested, a, ha, hrow⟩ := h.own before after tool id hlog
    ⟨action, hlast, hid, hstatus, hrequested, a, List.mem_append_left _ ha, hrow⟩
  answered := by
    intro a ha hstatus
    rcases List.mem_append.1 ha with ha | ha
    · exact h.answered a ha hstatus
    · rw [List.mem_singleton.1 ha] at hstatus
      cases hstatus
  claimed := h.claimed

variable {mission : String}

/-- A CLI is started for the source of the records that were listed. -/
theorem Good.start (h : Good digits w) (hsource : sourceFor digits records tool = .ok (some source))
    (hlaunch : Launch tool mission source records w) :
    Good digits (w.see (.started tool mission source)) := by
  obtain ⟨hlast, hnone, -, hrow⟩ := hlaunch
  have hspec := sourceFor_spec hsource
  refine ⟨⟨fun s => ?_, fun before after tool' mission' source' hlog => ?_,
    fun tool' mission' source' hmem => ?_, h.daily, fun id => ?_,
    fun before after tool' id hlog => ?_, fun a ha hstatus => ?_⟩,
    fun tool' id hmem => h.claimed tool' id ?_⟩
  · rw [World.see, List.countP_append, List.countP_singleton]
    split
    · next hs =>
      obtain rfl : source = s := of_decide_eq_true hs
      have hzero : w.log.countP (isStart source) = 0 := by
        refine List.countP_eq_zero.2 fun e he hs => ?_
        cases e with
        | started t m s =>
          obtain rfl : s = source := of_decide_eq_true hs
          exact hnone t m he
        | _ => cases hs
      rw [hzero]
    · exact h.once s
  · by_cases hnew : (.started tool' mission' source' : Event) = .started tool mission source
    · cases hnew
      obtain ⟨rfl, -⟩ := split_last hlog (hnone tool mission)
      exact ⟨records, hlast, hspec.1, hspec.2.1, hspec.2.2⟩
    · obtain ⟨after', -, hlog'⟩ := split_concat hlog hnew
      exact h.justified _ _ _ _ _ hlog'
  · rcases List.mem_append.1 hmem with hmem | hmem
    · exact h.recorded _ _ _ hmem
    · cases List.mem_singleton.1 hmem
      exact hrow
  · rw [World.see, List.countP_append, List.countP_singleton, if_neg (by exact Bool.false_ne_true)]
    exact h.submittedOnce id
  · obtain ⟨after', -, hlog'⟩ := split_concat hlog fun he => by cases he
    exact h.own _ _ _ _ hlog'
  · obtain ⟨before, after, found, hlog, hreplies⟩ := h.answered a ha hstatus
    refine ⟨before, after ++ [.started tool mission source], found, ?_, hreplies⟩
    rw [World.see, hlog, List.append_assoc]
    rfl
  · rcases List.mem_append.1 hmem with hmem | hmem
    · exact hmem
    · cases List.mem_singleton.1 hmem

theorem Good.setStatus (h : Good digits w) (hrunning : Running tool mission source w)
    {status : AttemptStatus} (hanswered : status = .handedOff → ∃ before after records,
      w.log = before ++ .finished tool mission source true :: .listed mission records :: after ∧
        (replies source records).length = 1) :
    Good digits { w with attempts := w.attempts.map fun a =>
      if a.source = source then { a with status := status } else a } := by
  refine h.statuses _ (fun a => by split <;> exact ⟨rfl, rfl, rfl, rfl⟩) (fun a ha hstatus => ?_)
    fun a ha hstatus => ?_
  · by_cases hsource : a.source = source
    · rw [(hrunning a ha hsource).2.2] at hstatus
      cases hstatus
    · rw [if_neg hsource]
      exact hstatus
  · by_cases hsource : a.source = source
    · rw [if_pos hsource] at hstatus
      obtain ⟨hmission, htool, -⟩ := hrunning a ha hsource
      rw [hmission, htool, hsource]
      exact .inr (hanswered hstatus)
    · rw [if_neg hsource] at hstatus
      exact .inl hstatus

/-- An attempt of a new source, within the limit of a day. -/
theorem ensures_attemptSource (hw : Good digits w)
    (hsource : sourceFor digits records tool = .ok (some source))
    (hlast : w.log.getLast? = some (.listed mission records)) (hpast : past ≤ w.now)
    (hrecent : (w.attempts.countP fun a => past - day < a.started) < 20) :
    Ensures (I := fallible PilotOp.Reply Unit) act (Good digits)
      (attemptSource tool mission source) (fun _ _ => True) w := by
  refine Ensures.then (R := fun _ t => Launch tool mission source records t)
    (ensures_call hw hw.advance fun x e => ?_) fun _ t ht hlaunch => ?_
  · have hlater : past ≤ (w.advance e).now := hpast.trans (le_add_of_nonneg_right e.2)
    rw [PilotOp.run]
    split
    · exact ⟨hw.advance e, fun _ ha => by cases ha⟩
    next hnew =>
    have hfresh : source ∉ w.attempts.map Attempt.source := fun h => hnew (.inr h)
    refine ⟨(hw.advance e).insert hlater hrecent source mission tool, fun _ _ =>
      ⟨hlast, ?_, ?_, ?_⟩⟩
    · intro tool' mission' hmem
      obtain ⟨a, ha, hrow, -⟩ := hw.recorded _ _ _ hmem
      exact hfresh (List.mem_map.2 ⟨a, ha, hrow⟩)
    · intro a ha hrow
      rcases List.mem_append.1 ha with ha | ha
      · exact absurd (List.mem_map.2 ⟨a, ha, hrow⟩) hfresh
      · rw [List.mem_singleton.1 ha]
        exact ⟨rfl, rfl, rfl⟩
    · exact ⟨_, List.mem_append_right _ List.mem_cons_self, rfl, rfl, rfl⟩
  refine Ensures.then (R := fun _ t => Running tool mission source t)
    (ensures_call ht ht.advance fun x e => ⟨(ht.advance e).start hsource hlaunch,
      fun _ _ => hlaunch.2.2.1⟩) fun _ t ht hrunning => ?_
  refine Ensures.then (R := fun succeeded t => Running tool mission source t ∧
      t.log.getLast? = some (.finished tool mission source succeeded))
    (ensures_call ht ht.advance fun x e => ⟨(ht.advance e).see trivial, fun _ ha => ?_⟩)
    fun succeeded t ht ⟨hrunning, hfinished⟩ => ?_
  · cases ha
    exact ⟨hrunning, List.getLast?_concat ..⟩
  refine Ensures.then (R := fun found t => Running tool mission source t ∧ ∃ before,
      t.log = before ++ [.finished tool mission source succeeded, .listed mission found])
    (ensures_call ht ht.advance fun x e => ⟨(ht.advance e).see trivial, fun _ ha => ?_⟩)
    fun found t ht ⟨hrunning, before, hlog⟩ => ?_
  · cases ha
    obtain ⟨before, hbefore⟩ := List.getLast?_eq_some_iff.1 hfinished
    refine ⟨hrunning, before, ?_⟩
    change t.log ++ _ = _
    rw [hbefore, List.append_assoc]
    rfl
  refine ensures_call ht ht.advance fun x e => ⟨(ht.advance e).setStatus hrunning fun hstatus => ?_,
    fun _ _ => trivial⟩
  split at hstatus
  · next hreply =>
    obtain ⟨rfl, hone⟩ := hreply
    exact ⟨before, [], found, hlog, hone⟩
  · cases hstatus

/-! ## The missions -/

theorem ensures_takeMissions (tool : Tool) (missions : List String) :
    ∀ {w}, Good digits w → Ensures (I := fallible PilotOp.Reply Unit) act (Good digits)
      (takeMissions digits tool missions) (fun _ _ => True) w := by
  induction missions with
  | nil => exact fun hw => ensures_pure hw trivial
  | cons mission missions ih =>
    intro w hw
    refine Ensures.then (R := fun records t => t.log.getLast? = some (.listed mission records))
      (ensures_call hw hw.advance fun x e => ⟨(hw.advance e).see trivial, fun _ ha => ?_⟩)
      fun records t ht hlast => ?_
    · cases ha
      exact List.getLast?_concat ..
    refine Ensures.then (R := fun source t' => t' = t ∧ sourceFor digits records tool = .ok source)
      (ensures_ofExcept ht fun a ha => ⟨rfl, ha⟩) fun source t' _ ⟨hsame, hsource⟩ => ?_
    subst hsame
    cases source with
    | none => exact ih ht
    | some source =>
      refine Ensures.then (R := fun _ t => t.log.getLast? = some (.listed mission records))
        (ensures_ask ht fun x e => ?_) fun attempted t ht hlast => ?_
      · rw [PilotOp.run]
        split
        · exact ⟨rfl, fun _ _ => hlast⟩
        · exact ⟨rfl, fun _ _ => hlast⟩
      refine ensures_ite (fun _ => ih ht) fun _ => ?_
      refine Ensures.then (R := fun recent t => t.log.getLast? = some (.listed mission records) ∧
          recent = t.attempts.countP fun a => t.now - day < a.started)
        (ensures_ask ht fun x e => ⟨rfl, fun _ ha => ⟨hlast, (Except.ok.inj ha).symm⟩⟩)
        fun recent t ht ⟨hlast, hrecent⟩ => ?_
      refine ensures_ite (fun _ => ensures_pure ht trivial) fun hfew => ?_
      exact Ensures.then
        (ensures_attemptSource ht hsource hlast le_rfl (hrecent ▸ not_le.1 hfew))
        fun _ t ht _ => ih ht

/-! ## The approvals -/

def HandedOff (tool : Tool) (mission : String) (w : World) : Prop :=
  ∃ a ∈ w.attempts, a.mission = mission ∧ a.tool = tool ∧ a.status = .handedOff

def Claimed (action : Action) (w : World) : Prop :=
  w.log.getLast? = some (.fetched action) ∧ (∀ tool, .submitted tool action.id ∉ w.log) ∧
    action.id ∈ w.approvals.map Prod.fst

theorem Good.submit (h : Good digits w) {action : Action} (hclaimed : Claimed action w)
    (hstatus : action.status = "approved") (hrequested : action.requestedBy = tool.actor)
    (hhanded : HandedOff tool action.missionId w) :
    Good digits (w.see (.submitted tool action.id)) := by
  obtain ⟨hlast, hnone, hkey⟩ := hclaimed
  refine ⟨⟨fun source => ?_, fun before after tool' mission source hlog => ?_,
    fun tool' mission source hmem => h.recorded tool' mission source ?_, h.daily, fun id => ?_,
    fun before after tool' id hlog => ?_, fun a ha hanswered => ?_⟩,
    fun tool' id hmem => ?_⟩
  · rw [World.see, List.countP_append, List.countP_singleton, if_neg (by exact Bool.false_ne_true)]
    exact h.once source
  · obtain ⟨after', -, hlog'⟩ := split_concat hlog fun he => by cases he
    exact h.justified _ _ _ _ _ hlog'
  · rcases List.mem_append.1 hmem with hmem | hmem
    · exact hmem
    · cases List.mem_singleton.1 hmem
  · rw [World.see, List.countP_append, List.countP_singleton]
    split
    · next hid =>
      obtain rfl : action.id = id := of_decide_eq_true hid
      have hzero : w.log.countP (isSubmission action.id) = 0 := by
        refine List.countP_eq_zero.2 fun e he hs => ?_
        cases e with
        | submitted t id =>
          obtain rfl : id = action.id := of_decide_eq_true hs
          exact hnone t he
        | _ => cases hs
      rw [hzero]
    · exact h.submittedOnce id
  · by_cases hnew : (.submitted tool' id : Event) = .submitted tool action.id
    · cases hnew
      obtain ⟨rfl, -⟩ := split_last hlog (hnone tool)
      exact ⟨action, hlast, rfl, hstatus, hrequested, hhanded⟩
    · obtain ⟨after', -, hlog'⟩ := split_concat hlog hnew
      exact h.own _ _ _ _ hlog'
  · obtain ⟨before, after, found, hlog, hreplies⟩ := h.answered a ha hanswered
    refine ⟨before, after ++ [.submitted tool action.id], found, ?_, hreplies⟩
    rw [World.see, hlog, List.append_assoc]
    rfl
  · rcases List.mem_append.1 hmem with hmem | hmem
    · exact h.claimed tool' id hmem
    · cases List.mem_singleton.1 hmem
      exact hkey

/-- While the approvals of a mission are followed, its run stays handed off. -/
def Following (digits : Digits) (tool : Tool) (missions : List String) (w : World) : Prop :=
  Good digits w ∧ ∀ mission ∈ missions, HandedOff tool mission w

variable {missions : List String}

theorem Following.advance (h : Following digits tool missions w) (e : ℚ≥0) :
    Following digits tool missions (w.advance e) :=
  ⟨h.1.advance e, h.2⟩

theorem ensures_followOne (hmission : mission ∈ missions) (summary : Summary)
    (hw : Following digits tool missions w) :
    Ensures (I := fallible PilotOp.Reply Unit) act (Following digits tool missions)
      (followOne tool mission summary) (fun _ _ => True) w := by
  refine ensures_ite (fun _ => ensures_pure hw trivial) fun _ => ?_
  refine Ensures.then (R := fun action t => t.log.getLast? = some (.fetched action))
    (ensures_call hw hw.advance fun x e =>
      ⟨⟨(hw.advance e).1.see trivial, hw.2⟩, fun _ ha => ?_⟩) fun action t ht hlast => ?_
  · cases ha
    exact List.getLast?_concat ..
  refine ensures_ite (fun _ => ensures_pure ht trivial) fun hown => ?_
  obtain ⟨hsame, hown⟩ := not_or.1 hown
  obtain ⟨hrequested, hstatus⟩ := not_or.1 hown
  refine Ensures.then (R := fun inserted t => inserted = true → Claimed action t)
    (ensures_call ht ht.advance fun x e => ?_) fun inserted t ht hclaimed => ?_
  · rw [PilotOp.run]
    split
    · exact ⟨ht.advance e, fun _ ha hinserted => by cases ha; cases hinserted⟩
    next hnew =>
    refine ⟨⟨(ht.advance e).1.approvals ?_, ht.2⟩, fun _ _ _ => ⟨hlast, fun tool' hmem => ?_, ?_⟩⟩
    · rw [List.map_append]
      exact List.subset_append_left _ _
    · exact hnew (ht.1.claimed tool' _ hmem)
    · rw [List.map_append]
      exact List.mem_append_right _ List.mem_cons_self
  refine ensures_ite (fun _ => ensures_pure ht trivial) fun hinserted => ?_
  have hclaim := hclaimed (Bool.not_eq_false _ ▸ hinserted)
  have hhanded : HandedOff tool action.missionId t := not_not.1 hsame ▸ ht.2 mission hmission
  have hexecute : Ensures (I := fallible PilotOp.Reply Unit) act (Following digits tool missions)
      (call (.execute tool action.id)) (fun _ _ => True) t :=
    ensures_call ht ht.advance fun x e => ⟨⟨(ht.advance e).1.submit hclaim (not_not.1 hstatus)
      (not_not.1 hrequested) hhanded, ht.2⟩, fun _ _ => trivial⟩
  refine Ensures.then (R := fun _ _ => True)
    (ensures_attempt (Wp.mono hexecute fun _ _ _ _ => trivial)) fun r t ht _ => ?_
  refine ensures_call ht ht.advance fun x e => ⟨⟨(ht.advance e).1.approvals fun id hid => ?_, ht.2⟩,
    fun _ _ => trivial⟩
  obtain ⟨b, hb, rfl⟩ := List.mem_map.1 hid
  refine List.mem_map.2 ⟨_, List.mem_map_of_mem hb, ?_⟩
  split
  · next hid => exact hid.symm
  · rfl

theorem ensures_followAll (hmission : mission ∈ missions) (summaries : List Summary) :
    ∀ {w}, Following digits tool missions w → Ensures (I := fallible PilotOp.Reply Unit) act
      (Following digits tool missions) (followAll tool mission summaries) (fun _ _ => True) w := by
  induction summaries with
  | nil => exact fun hw => ensures_pure hw trivial
  | cons summary summaries ih =>
    exact fun hw => Ensures.then (ensures_followOne hmission summary hw) fun _ _ ht _ => ih ht

theorem ensures_followMissions (some : List String) (hsome : some ⊆ missions) :
    ∀ {w}, Following digits tool missions w →
      Ensures (I := fallible PilotOp.Reply Unit) act (Following digits tool missions)
        (followMissions tool some) (fun _ _ => True) w := by
  induction some with
  | nil => exact fun hw => ensures_pure hw trivial
  | cons mission some ih =>
    obtain ⟨hmission, hrest⟩ := List.cons_subset.1 hsome
    intro w hw
    refine Ensures.then (R := fun _ _ => True)
      (ensures_call hw hw.advance fun x e => ⟨hw.advance e, fun _ _ => trivial⟩)
      fun summaries t ht _ => ?_
    exact Ensures.then (ensures_followAll hmission summaries ht) fun _ _ ht _ => ih hrest ht

theorem ensures_followApprovals (tool : Tool) (hw : Good digits w) :
    Ensures (I := fallible PilotOp.Reply Unit) act (Good digits) (followApprovals tool)
      (fun _ _ => True) w := by
  refine Ensures.then (R := fun missions t => Following digits tool missions t)
    (ensures_ask hw fun x e => ⟨rfl, fun missions ha => ⟨hw.advance e, fun mission hm => ?_⟩⟩)
    fun missions t _ hfollowing => ?_
  · obtain rfl := Except.ok.inj ha
    obtain ⟨a, ha, rfl⟩ := List.mem_map.1 hm
    obtain ⟨ha, hrow⟩ := List.mem_filter.1 ha
    obtain ⟨htool, hstatus, -⟩ := of_decide_eq_true hrow
    exact ⟨a, ha, rfl, htool, hstatus⟩
  · exact (Wp.weaken (ensures_followMissions missions (fun _ h => h) hfollowing)
      fun _ h => h.1).mono fun _ _ _ _ _ _ => trivial

/-! ## The loop -/

theorem ensures_openMissions (projects : List String) :
    ∀ {w}, Good digits w → Ensures (I := fallible PilotOp.Reply Unit) act (Good digits)
      (openMissions projects) (fun _ _ => True) w := by
  induction projects with
  | nil => exact fun hw => ensures_pure hw trivial
  | cons project rest ih =>
    intro w hw
    refine Ensures.then (R := fun _ _ => True)
      (ensures_ask hw fun x e => ⟨rfl, fun _ _ => trivial⟩) fun missions t ht _ => ?_
    exact Ensures.then (ih ht) fun _ t ht _ => ensures_pure ht trivial

theorem ensures_cycle (tool : Tool) (hw : Good digits w) :
    Ensures (I := fallible PilotOp.Reply Unit) act (Good digits) (cycle digits tool)
      (fun _ _ => True) w := by
  refine Ensures.then (ensures_followApprovals tool hw) fun _ t ht _ => ?_
  exact Ensures.then (ensures_openMissions projects ht) fun missions t ht _ =>
    ensures_takeMissions tool missions ht

theorem ensures_cycles (available tools : List Tool) :
    ∀ {w}, Good digits w → Ensures (I := fallible PilotOp.Reply Unit) act (Good digits)
      (cycles digits available tools) (fun _ _ => True) w := by
  induction tools with
  | nil => exact fun hw => ensures_pure hw trivial
  | cons tool tools ih =>
    intro w hw
    refine ensures_ite (fun _ => ?_) fun _ => ih hw
    refine Ensures.then (R := fun _ _ => True)
      (ensures_ask hw fun x e => ⟨rfl, fun _ _ => trivial⟩) fun _ t ht _ => ?_
    exact Ensures.then (ensures_cycle tool ht) fun _ t ht _ => ih ht

theorem ensures_turn (tools : List Tool) (hw : Good digits w) :
    Ensures (I := fallible PilotOp.Reply Unit) act (Good digits) (turn digits tools)
      (fun _ _ => True) w := by
  refine Ensures.then (R := fun _ _ => True)
    (ensures_ask hw fun x e => ⟨rfl, fun _ _ => trivial⟩) fun on t ht _ => ?_
  refine ensures_ite (fun _ => ?_) fun _ => ensures_pure ht trivial
  refine Ensures.then (R := fun _ _ => True)
    (ensures_ask ht fun x e => ⟨rfl, fun _ _ => trivial⟩) fun available t ht _ => ?_
  exact ensures_cycles available tools ht

theorem ensures_review (hw : Good digits w) :
    Ensures (I := fallible PilotOp.Reply Unit) act (Good digits) (call .review)
      (fun _ _ => True) w :=
  ensures_call hw hw.advance fun _ e => ⟨(hw.advance e).review, fun _ _ => trivial⟩

theorem ensures_turns (tools : List Tool) (n : ℕ) :
    ∀ {w}, Good digits w → Ensures (I := fallible PilotOp.Reply Unit) act (Good digits)
      (turns digits tools n) (fun _ _ => True) w := by
  induction n with
  | zero => exact fun hw => ensures_pure hw trivial
  | succ n ih =>
    intro w hw
    refine Ensures.then (R := fun _ _ => True)
      (ensures_attempt (Wp.mono (ensures_turn tools hw) fun _ _ _ _ => trivial))
      fun r t ht _ => ?_
    cases r with
    | ok _ => exact ih ht
    | error _ =>
      refine Ensures.then (R := fun _ _ => True)
        (ensures_ask ht fun x e => ⟨rfl, fun _ _ => trivial⟩) fun _ t ht _ => ?_
      exact Ensures.then (ensures_review ht) fun _ t ht _ => ih ht

theorem ensures_pilot (tools : List Tool) (n : ℕ) (hw : Good digits w) :
    Ensures (I := fallible PilotOp.Reply Unit) act (Good digits) (pilot digits tools n)
      (fun _ _ => True) w := by
  refine Ensures.then (R := fun _ _ => True)
    (ensures_ask hw fun x e => ⟨rfl, fun _ _ => trivial⟩) fun _ t ht _ => ?_
  exact Ensures.then (ensures_review ht) fun _ t ht _ => ensures_turns tools n ht

theorem good_start (now : ℚ) : Good digits ⟨[], [], now, []⟩ where
  once _ := Nat.zero_le 1
  justified before _ _ _ _ hlog := by cases before <;> cases hlog
  recorded _ _ _ hmem := by cases hmem
  daily _ _ := Nat.zero_le 20
  submittedOnce _ := Nat.zero_le 1
  own before _ _ _ hlog := by cases before <;> cases hlog
  answered _ ha := by cases ha
  claimed _ _ hmem := by cases hmem

theorem Runs.good (h : Runs digits w) : Good digits w := by
  induction h with
  | start now => exact good_start now
  | pilot tools n _ hr ih => exact (ensures_pilot tools n ih).crash hr

/-- Wherever the pilot stops, however often it is started again, a source has one run, which its
records called for, an action was submitted once, and a run that is handed off was answered. -/
theorem pilot_once (h : Runs digits w) : AtMostOnce digits w :=
  h.good.toAtMostOnce

namespace Sample

def seven (text : String) : Option (Option ℕ) :=
  if text = "7" then some (some 7) else none

def request : Record :=
  ⟨"observation", ["zulip-source:7", "zulip-dispatch:7:codex"]⟩

def reply : Record :=
  ⟨"handoff", ["zulip-response:7"]⟩

/-- The tool is connected, and there is one mission, with these records. -/
def choice (records : List Record) : Choice where
  elapsed := 0
  raises := false
  happened := false
  yes := true
  tools := [.codex]
  missions := ["m"]
  summaries := []
  answer := ⟨"a", "m", "approved", "codex-supervised"⟩
  text := "succeeded"
  found := records

/-- Where the pilot stops when the tool has replied, and its run is handed off. -/
def stopped : World :=
  stopAfter act (pilot seven [.codex] 1)
    (List.replicate 17 (choice [request]) ++ List.replicate 2 (choice [request, reply]))
    ⟨[], [], 0, []⟩

theorem pilot_once_sample : stopped.attempts.map Attempt.status = [.handedOff] ∧
    AtMostOnce seven stopped :=
  ⟨by decide +kernel,
    pilot_once (.pilot [.codex] 1 (.start 0) (reaches_stopAfter _ _ _))⟩

end Sample

end OpsPilot
