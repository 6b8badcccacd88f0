import OpsControlPlane.Lib.Calls

/-!
# Calls that run alone

`Run.performed` finds the moment at which a call was told something. `Prog.Alone` is the rule
for a program that no other call interrupts, and `Run.alone` carries it to the runs in which
one call acts.
-/

namespace Calls

variable {S : System} {s₀ s : State S} {ms : List (Moment S)} {K : S.Store → Prop}
  {T : Prog.Said S.I → S.Store → Prop}
  {P : S.Request → List (Prog.Said S.I) → S.I.Op → Prop}
  {Q : S.Request → List (Prog.Said S.I) → S.Res → Prop}
  {E : S.Request → List (Prog.Said S.I) → S.Err → Prop}

/-- What a call was told, it was told at a moment of the run. -/
theorem Run.performed (h₀ : s₀.calls = []) (hr : Run s₀ ms s) {c : Call S} (hc : c ∈ s.calls)
    {a : Prog.Said S.I} (ha : a ∈ c.said) :
    ∃ m ∈ ms, ∃ x, S.perform a.1 x m.before.store = (a.2, m.after.store) := by
  induction hr generalizing c with
  | start => simp [h₀] at hc
  | @step ms s s' m hr h ih =>
    have hold : ∀ {c : Call S}, c ∈ s.calls → a ∈ c.said →
        ∃ m' ∈ ms ++ [⟨s, m, s'⟩], ∃ x, S.perform a.1 x m'.before.store =
          (a.2, m'.after.store) := by
      intro c hc ha
      obtain ⟨m', hm', hx⟩ := ih hc ha
      exact ⟨m', List.mem_append_left _ hm', hx⟩
    rcases step_cases h with ⟨r, -, rfl⟩ | ⟨i, x, d, o, k, -, hd, ho, rfl⟩ | ⟨i, d, -, hd, rfl⟩
    · rcases List.mem_append.1 hc with hc | hc
      · exact hold hc ha
      · obtain rfl := List.mem_singleton.1 hc
        simp at ha
    · rcases mem_set_cases hc with rfl | hc
      · rcases List.mem_append.1 ha with ha | ha
        · exact hold (List.mem_of_getElem? hd) ha
        · obtain rfl := List.mem_singleton.1 ha
          exact ⟨_, List.mem_append_right _ (List.mem_singleton.2 rfl), x, rfl⟩
      · exact hold hc ha
    · rcases mem_set_cases hc with rfl | hc
      · exact hold (List.mem_of_getElem? hd) ha
      · exact hold hc ha

/-! ## Programs that run alone -/

namespace Prog

variable {I : Interface} {σ χ ε α β : Type} {perform : (o : I.Op) → χ → σ → I.Ans o × σ}

/-- Run alone, the program leads to what `Q` says of what was said, of the store and of what it
returns, or to what `E` says if it fails. -/
def Alone (perform : (o : I.Op) → χ → σ → I.Ans o × σ) (Q : List (Said I) → σ → α → Prop)
    (E : List (Said I) → σ → ε → Prop) : Prog I ε α → List (Said I) → σ → Prop
  | ret a, h, st => Q h st a
  | fail e, h, st => E h st e
  | ask o k, h, st => ∀ x, Alone perform Q E (k (perform o x st).1)
      (h ++ [⟨o, (perform o x st).1⟩]) (perform o x st).2

theorem alone_bind {Q : List (Said I) → σ → β → Prop} {E : List (Said I) → σ → ε → Prop}
    (p : Prog I ε α) (f : α → Prog I ε β) (h : List (Said I)) (st : σ) :
    Alone perform Q E (p >>= f) h st ↔
      Alone perform (fun h st a => Alone perform Q E (f a) h st) E p h st := by
  induction p generalizing h st with
  | ret a => rfl
  | fail e => rfl
  | ask o k ih => exact forall_congr' fun x => ih _ _ _

theorem alone_attempt {Q : List (Said I) → σ → Except ε α → Prop}
    {E : List (Said I) → σ → ε → Prop} (p : Prog I ε α) (h : List (Said I)) (st : σ) :
    Alone perform Q E (attempt p) h st ↔
      Alone perform (fun h st a => Q h st (.ok a)) (fun h st e => Q h st (.error e)) p h st := by
  induction p generalizing h st with
  | ret a => rfl
  | fail e => rfl
  | ask o k ih => exact forall_congr' fun x => ih _ _ _

theorem alone_ofExcept {Q : List (Said I) → σ → α → Prop} {E : List (Said I) → σ → ε → Prop}
    (r : Except ε α) (h : List (Said I)) (st : σ) : Alone perform Q E (ofExcept r) h st ↔
      (∀ a, r = .ok a → Q h st a) ∧ ∀ e, r = .error e → E h st e := by
  cases r <;> simp [ofExcept, Alone]

variable {p : Prog I ε α} {h : List (Said I)} {st : σ}

theorem Alone.mono {Q Q' : List (Said I) → σ → α → Prop} {E E' : List (Said I) → σ → ε → Prop}
    (ha : Alone perform Q E p h st) (hQ : ∀ h st a, Q h st a → Q' h st a)
    (hE : ∀ h st e, E h st e → E' h st e) : Alone perform Q' E' p h st := by
  induction p generalizing h st with
  | ret a => exact hQ h st a ha
  | fail e => exact hE h st e ha
  | ask o k ih => exact fun x => ih _ (ha x)

theorem Alone.extends {Q : List (Said I) → σ → α → Prop} {E : List (Said I) → σ → ε → Prop}
    (ha : Alone perform Q E p h st) :
    Alone perform (fun h' st a => h <+: h' ∧ Q h' st a) E p h st := by
  suffices ∀ h' st, h <+: h' → Alone perform Q E p h' st →
      Alone perform (fun h' st a => h <+: h' ∧ Q h' st a) E p h' st
    from this h st (List.prefix_refl h) ha
  clear ha
  induction p with
  | ret a => exact fun h' st hpre ha => ⟨hpre, ha⟩
  | fail e => exact fun h' st _ ha => ha
  | ask o k ih =>
    intro h' st hpre ha x
    exact ih _ _ _ (hpre.trans (List.prefix_append _ _)) (ha x)

/-- What each operation of a kind keeps of the store, a program of such operations keeps. -/
theorem Asks.alone {A : I.Op → Prop} {J : σ → Prop} (hp : Asks A p)
    (hstep : ∀ o x st, A o → J st → J (perform o x st).2) (h : List (Said I)) (hst : J st) :
    Alone perform (fun _ st _ => J st) (fun _ st _ => J st) p h st := by
  suffices ∀ h' h st, J st → Trail (fun _ o => A o) (fun _ _ => True) (fun _ _ => True) p h' →
      Alone perform (fun _ st _ => J st) (fun _ st _ => J st) p h st from this [] h st hst (hp [])
  clear hp
  induction p with
  | ret a => exact fun _ _ _ hst _ => hst
  | fail e => exact fun _ _ _ hst _ => hst
  | ask o k ih => exact fun h' h st hst ht x => ih _ _ _ _ (hstep o x st ht.1 hst) (ht.2 _)

end Prog

def Run.Solo (r : S.Request) (s : State S) (ms : List (Moment S)) : Prop :=
  ∃ ms', ms.map Moment.move = .spawn r :: ms' ∧
    ∀ m ∈ ms', ∃ x, m = .act s.calls.length x

/-- What a program leads to alone holds where its call has returned. -/
theorem Run.alone {r : S.Request} {Q : List (Prog.Said S.I) → S.Store → S.Res → Prop}
    (h : (S.program r).Alone S.perform Q (fun _ _ _ => True) [] s.store) {t : State S}
    (hr : Run s ms t) (hsolo : Run.Solo r s ms) :
    ∃ c, t.calls[s.calls.length]? = some c ∧
      ∀ a, c.prog = some (.ret a) → Q c.said t.store a := by
  suffices ∃ c p, t.calls[s.calls.length]? = some c ∧ c.prog = some p ∧
      p.Alone S.perform Q (fun _ _ _ => True) c.said t.store by
    obtain ⟨c, p, hc, hp, halone⟩ := this
    refine ⟨c, hc, fun a ha => ?_⟩
    obtain rfl := Option.some.inj (hp.symm.trans ha)
    exact halone
  obtain ⟨moves, hmoves, hact⟩ := hsolo
  induction hr generalizing moves with
  | start => simp at hmoves
  | @step ms t t' m hr hstep ih =>
    rw [List.map_append, List.map_singleton] at hmoves
    rcases List.eq_nil_or_concat moves with rfl | ⟨moves, y, rfl⟩
    · obtain ⟨hnil, hm⟩ : ms.map Moment.move = [] ∧ [m] = [Move.spawn r] :=
        List.append_inj' hmoves rfl
      obtain rfl := List.map_eq_nil_iff.1 hnil
      obtain rfl : m = .spawn r := by simpa using hm
      generalize hl : ([] : List (Moment S)) = l at hr
      cases hr with
      | start =>
        obtain rfl := Option.some.inj hstep
        exact ⟨⟨r, [], some (S.program r)⟩, S.program r, by simp, rfl, h⟩
      | step => simp at hl
    · -- the last move is an act of the call
      rw [List.concat_eq_append] at hact
      rw [List.concat_eq_append, ← List.cons_append] at hmoves
      obtain ⟨hinit, hlast⟩ := List.append_inj' hmoves rfl
      obtain rfl : m = y := by simpa using hlast
      obtain ⟨c, p, hc, hp, halone⟩ := ih moves hinit fun m hm => hact m (by simp [hm])
      obtain ⟨x, rfl⟩ := hact m (by simp)
      rcases step_cases hstep with ⟨q, hm, -⟩ | ⟨i, z, d, o, k, hm, hd, ho, rfl⟩ | ⟨i, d, hm, -⟩
      · cases hm
      · cases hm
        obtain rfl := Option.some.inj (hd.symm.trans hc)
        obtain rfl := Option.some.inj (ho.symm.trans hp)
        refine ⟨_, _, List.getElem?_set_self ?_, rfl, halone x⟩
        exact (List.getElem?_eq_some_iff.1 hd).1
      · cases hm

end Calls
