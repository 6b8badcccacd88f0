import OpsControlPlane.Deploy.Worker

/-!
# The safety of the deployment journal

A run of the worker may stop at any operation, and an operation may raise before or after its
effect. `Journal` is what the two documents keep through it: a transaction that is recorded as
rolled back has nothing recorded behind it that is not, `CURRENT` is healthy only behind a health
check, and it names a transaction whose document stands. `Held`, `Terminal` and `Live` are what the
worker knows of the transaction that it has in memory.
-/

namespace OpsDeploy

open Calls Calls.Prog

/-! ## Histories -/

/-- The health check of the release passed, and no installation step runs behind it. -/
def Checked (releaseId : String) (h : List Event) : Prop :=
  ∃ post pre, h = post ++ .passed releaseId :: pre ∧ ∀ b, .installed b ∉ post

def NotRolled (backup : String) (h : List Event) : Prop :=
  ∀ t, .recorded backup t ∈ h → t.rolledBack = false

/-- No document of `CURRENT` names this backup. -/
def Unannounced (backup : String) (h : List Event) : Prop :=
  ∀ c, .announced c ∈ h → c.backupPath ≠ backup

def Transaction.Names (t : Transaction) (c : Current) : Prop :=
  t.transactionId = c.transactionId ∧ t.releaseId = c.releaseId ∧ t.backupPath = c.backupPath

/-- The archive of the managed files is recorded. -/
def Transaction.Archived (t : Transaction) : Prop :=
  t.managedPathsExisting = [] ∨ t.managedArchive = some (managedFiles t.backupPath)

def Transaction.Snapshotted (t : Transaction) : Prop :=
  (t.phase = .snapshotted ∨ t.phase = .installing) ∧ t.Archived

/-- The transaction that `CURRENT` names is healthy or rolled back, in both documents. -/
def Closed (h : List Event) : Prop :=
  ∀ c, current h = some c → ∃ t, record c.backupPath h = some t ∧ t.Names c ∧
    (c.status = .healthy ∧ (t.phase = .healthy ∨ t.rolledBack = true) ∨
      c.status = .rolledBack ∧ t.rolledBack = true)

def Allowed (h : List Event) : Event → Prop
  | .installed b => NotRolled b h ∧ ∃ c t, current h = some c ∧ c.status = .deploying ∧
      c.backupPath = b ∧ record b h = some t ∧ t.Names c ∧ t.Snapshotted
  | .announced c => match c.status with
    | .healthy => Checked c.releaseId h ∧ NotRolled c.backupPath h
    | .deploying => NotRolled c.backupPath h ∧ (Unannounced c.backupPath h → Closed h)
    | .rolledBack => ∃ t, .recorded c.backupPath t ∈ h ∧ t.rolledBack = true
    | .rollbackFailed => True
  | .recorded b t => t.rolledBack = false → NotRolled b h
  | _ => True

/-- Every event of the history follows what is behind it. -/
def Safe : List Event → Prop
  | [] => True
  | e :: h => Allowed h e ∧ Safe h

def Event.neutral : Event → Bool
  | .passed _ | .stopped _ | .audited _ _ => true
  | _ => false

theorem Safe.of_append {later earlier : List Event} (h : Safe (later ++ earlier)) :
    Safe earlier := by
  induction later with
  | nil => exact h
  | cons e es ih => exact ih h.2

variable {b : String}

theorem record_cons {b : String} {t : Transaction} {e : Event} {h : List Event}
    (ht : record b (e :: h) = some t) : e = .recorded b t ∨ record b h = some t := by
  cases e with
  | recorded b' t₁ =>
    by_cases hb : b' = b
    · simp only [record, if_pos hb] at ht
      obtain rfl := Option.some.inj ht
      exact .inl (by rw [hb])
    · simp only [record, if_neg hb] at ht
      exact .inr ht
  | _ => exact .inr ht

theorem current_cons {c : Current} {e : Event} {h : List Event}
    (hc : current (e :: h) = some c) : e = .announced c ∨ current h = some c := by
  cases e with
  | announced c' => exact .inl (by rw [Option.some.inj hc])
  | _ => exact .inr hc

theorem mem_of_record {b : String} {t : Transaction} {h : List Event} (ht : record b h = some t) :
    .recorded b t ∈ h := by
  induction h with
  | nil => cases ht
  | cons e h ih =>
    rcases record_cons ht with rfl | ht
    · exact List.mem_cons_self
    · exact List.mem_cons_of_mem _ (ih ht)

theorem mem_of_current {c : Current} {h : List Event} (hc : current h = some c) :
    .announced c ∈ h := by
  induction h with
  | nil => cases hc
  | cons e h ih =>
    rcases current_cons hc with rfl | hc
    · exact List.mem_cons_self
    · exact List.mem_cons_of_mem _ (ih hc)

theorem Safe.notRolled {b : String} {t : Transaction} {h : List Event} (hs : Safe h)
    (ht : record b h = some t) (hrolled : t.rolledBack = false) : NotRolled b h := by
  induction h with
  | nil => cases ht
  | cons e h ih =>
    intro t' ht'
    rcases record_cons ht with rfl | hrecord
    · rcases List.mem_cons.1 ht' with heq | hmem
      · rw [(Event.recorded.inj heq).2]
        exact hrolled
      · exact hs.1 hrolled t' hmem
    · rcases List.mem_cons.1 ht' with rfl | hmem
      · simp only [record, if_pos] at ht
        rw [Option.some.inj ht]
        exact hrolled
      · exact ih hs.2 hrecord t' hmem

section neutral

variable {e : Event} {h : List Event}

theorem current_neutral (he : e.neutral = true) : current (e :: h) = current h := by
  cases e <;> first | rfl | cases he

theorem record_neutral {b : String} (he : e.neutral = true) : record b (e :: h) = record b h := by
  cases e <;> first | rfl | cases he

theorem mem_neutral {e' : Event} (he : e.neutral = true) (he' : e'.neutral = false) :
    e' ∈ e :: h ↔ e' ∈ h := by
  refine ⟨fun hmem => (List.mem_cons.1 hmem).resolve_left ?_, List.mem_cons_of_mem _⟩
  rintro rfl
  rw [he] at he'
  cases he'

theorem allowed_neutral (he : e.neutral = true) : Allowed h e := by
  cases e <;> first | trivial | cases he

end neutral

theorem Checked.cons {r : String} {e : Event} {h : List Event} (hc : Checked r h)
    (he : ∀ b, e ≠ .installed b) : Checked r (e :: h) := by
  obtain ⟨post, pre, rfl, hpost⟩ := hc
  refine ⟨e :: post, pre, rfl, fun b hb => ?_⟩
  rcases List.mem_cons.1 hb with heq | hb
  · exact he b heq.symm
  · exact hpost b hb

/-! ## The journal -/

/-- What `CURRENT` says holds of the transaction that it names. -/
def Standing (h : List Event) (c : Current) : Prop :=
  ∃ t, record c.backupPath h = some t ∧ t.Names c ∧
    (c.status = .healthy → (t.phase = .healthy ∨ t.rolledBack = true) ∧ Checked c.releaseId h) ∧
    (c.status = .rolledBack → t.rolledBack = true)

structure Journal (h : Host) : Prop where
  safe : Safe h.history
  known : ∀ b t, .recorded b t ∈ h.history →
    t.backupPath = b ∧ b = backupOf t.transactionId ∧ t.transactionId ∈ h.backups ∧
      (t.rolledBack = true ↔ t.phase = .rolledBack)
  named : ∀ c, .announced c ∈ h.history → ∃ t, .recorded c.backupPath t ∈ h.history
  standing : ∀ c, current h.history = some c → Standing h.history c

theorem journal_fresh (services : Services) (volumes : Bool) :
    Journal { services := services, volumes := volumes } where
  safe := trivial
  known _ _ h := absurd h List.not_mem_nil
  named _ h := absurd h List.not_mem_nil
  standing _ h := absurd h nofun

/-- An assertion that does not read what the journal is not about. -/
def Stable (P : Host → Prop) : Prop :=
  ∀ h h' : Host, (h'.history = h.history ∨
      ∃ e : Event, e.neutral = true ∧ h'.history = e :: h.history) →
    (∀ id ∈ h.backups, id ∈ h'.backups) → P h → P h'

theorem Standing.neutral {e : Event} {h : List Event} (he : e.neutral = true) (hs : Standing h c) :
    Standing (e :: h) c := by
  obtain ⟨t, ht, hn, hhealthy, hrolled⟩ := hs
  refine ⟨t, by rw [record_neutral he]; exact ht, hn, fun hc => ?_, hrolled⟩
  obtain ⟨hphase, hchecked⟩ := hhealthy hc
  refine ⟨hphase, hchecked.cons ?_⟩
  rintro b rfl
  cases he

theorem stable_journal : Stable Journal := by
  intro h h' hh hb hj
  rcases hh with heq | ⟨e, he, heq⟩
  · refine ⟨heq ▸ hj.safe, fun b t ht => ?_, heq ▸ hj.named, heq ▸ hj.standing⟩
    obtain ⟨hpath, hof, hid, hphase⟩ := hj.known b t (heq ▸ ht)
    exact ⟨hpath, hof, hb _ hid, hphase⟩
  · refine ⟨?_, ?_, ?_, ?_⟩
    · rw [heq]
      exact ⟨allowed_neutral he, hj.safe⟩
    · intro b t ht
      rw [heq, mem_neutral he rfl] at ht
      obtain ⟨hpath, hof, hid, hphase⟩ := hj.known b t ht
      exact ⟨hpath, hof, hb _ hid, hphase⟩
    · intro c hc
      rw [heq, mem_neutral he rfl] at hc
      obtain ⟨t, ht⟩ := hj.named c hc
      exact ⟨t, by rw [heq]; exact List.mem_cons_of_mem _ ht⟩
    · intro c hc
      rw [heq, current_neutral he] at hc
      rw [heq]
      exact (hj.standing c hc).neutral he

theorem Stable.and {P Q : Host → Prop} (hP : Stable P) (hQ : Stable Q) :
    Stable fun h => P h ∧ Q h :=
  fun h h' hh hb hpq => ⟨hP h h' hh hb hpq.1, hQ h h' hh hb hpq.2⟩

theorem stable_history {p : List Event → Prop}
    (hp : ∀ (e : Event) h, e.neutral = true → p h → p (e :: h)) :
    Stable fun h => p h.history := by
  rintro h h' (heq | ⟨e, he, heq⟩) _ hh
  · exact heq ▸ hh
  · rw [heq]
    exact hp e _ he hh

theorem stable_current : Stable fun h => current h.history = some c :=
  stable_history (p := fun h => current h = some c) fun _ _ he h => by
    rw [current_neutral he]
    exact h

theorem stable_notRolled : Stable fun h => NotRolled b h.history :=
  stable_history (p := NotRolled b) fun _ _ he h t ht => h t ((mem_neutral he rfl).1 ht)

theorem stable_checked {r : String} : Stable fun h => Checked r h.history :=
  stable_history (p := Checked r) fun e _ he h => h.cons fun b hb => by
    subst hb
    cases he

/-! ## Calls -/

variable {Q : Except Failure Unit → Host → Prop} {h : Host} {t : Transaction}

theorem wp_ask {o : Op} {Q : Except Failure o.Ret → Host → Prop} (hj : Journal h)
    (hx : ∀ x, Journal (act o x h).2 ∧ Q (act o x h).1 (act o x h).2) :
    Wp act Journal (ask o) Q h :=
  ⟨hj, fun x => wp_ofExcept (hx x).1 (hx x).2⟩

/-- A call raises, before or after its effect, or returns. -/
theorem wp_call {c : Call} (hj : Journal h) (heffect : ∀ x, Journal (c.effect x h))
    (hok : ∀ x, x.outcome = .done → Q (.ok ()) (c.effect x h))
    (herror : ∀ e, Q (.error e) h) (hlate : ∀ x e, Q (.error e) (c.effect x h)) :
    Wp act Journal (call c) Q h := by
  refine wp_ask hj fun x => ?_
  cases houtcome : x.outcome with
  | refused e =>
    simp only [act, houtcome]
    exact ⟨hj, herror e⟩
  | late e =>
    cases c <;> simp only [act, houtcome, perform] <;> exact ⟨heffect x, hlate x e⟩
  | done =>
    cases c with
    | verifyServices saved =>
      simp only [act, houtcome, perform]
      refine ⟨hj, ?_⟩
      split
      · exact hok x houtcome
      · exact herror _
    | _ => simp only [act, houtcome, perform]; exact ⟨heffect x, hok x houtcome⟩

def Call.Quiet : Call → Prop
  | .install _ _ | .writeTransaction _ | .writeCurrent _ => False
  | _ => True

theorem Call.Quiet.effect {c : Call} (hc : c.Quiet) (x : Choice) {P : Host → Prop}
    (hP : Stable P) (hh : P h) : P (c.effect x h) := by
  cases c with
  | command name => exact hP h _ (.inl rfl) (fun _ h => h) hh
  | stop unit => exact hP h _ (.inr ⟨.stopped unit, rfl, rfl⟩) (fun _ h => h) hh
  | install b name => exact hc.elim
  | healthCheck r =>
    simp only [Call.effect]
    split
    · exact hP h _ (.inr ⟨.passed r, rfl, rfl⟩) (fun _ h => h) hh
    · exact hh
  | restoreServices saved => exact hP h _ (.inl rfl) (fun _ h => h) hh
  | verifyServices saved => exact hh
  | preserveVolumes id => exact hP h _ (.inl rfl) (fun _ h => h) hh
  | writeTransaction t => exact hc.elim
  | writeCurrent c => exact hc.elim
  | appendAudit e id => exact hP h _ (.inr ⟨.audited e id, rfl, rfl⟩) (fun _ h => h) hh

/-- What is kept by a program, whether it returns or raises. -/
def Keeps (P : Host → Prop) {α : Type} (p : Deploy α) : Prop :=
  ∀ h, Journal h → P h → Wp act Journal p (fun _ h' => P h') h

variable {α : Type} {p : Deploy α}

theorem Keeps.bind {P : Host → Prop} {β : Type} {f : α → Deploy β} (hp : Keeps P p)
    (hf : ∀ a, Keeps P (f a)) : Keeps P (p >>= f) := by
  intro h hj hh
  refine wp_bind ((hp h hj hh).mono fun r h' hj' hh' => ?_)
  cases r with
  | ok a => exact hf a h' hj' hh'
  | error e => exact hh'

theorem keeps_pure {P : Host → Prop} (a : α) : Keeps P (pure a : Deploy α) :=
  fun _ hj hh => wp_pure hj hh

theorem keeps_raise {P : Host → Prop} (code : String) : Keeps P (raise code : Deploy α) :=
  fun _ hj hh => wp_fail hj hh

theorem keeps_call {P : Host → Prop} (hP : Stable P) {c : Call} (hc : c.Quiet) :
    Keeps P (call c) :=
  fun _ hj hh => wp_call hj (fun x => hc.effect x stable_journal hj)
    (fun x _ => hc.effect x hP hh) (fun _ => hh) fun x _ => hc.effect x hP hh

theorem keeps_calls {P : Host → Prop} (hP : Stable P) {cs : List Call}
    (hcs : ∀ c ∈ cs, c.Quiet) : Keeps P (calls cs) := by
  induction cs with
  | nil => exact keeps_pure ()
  | cons c cs ih =>
    exact (keeps_call hP (hcs c List.mem_cons_self)).bind fun _ =>
      ih fun c' hc' => hcs c' (List.mem_cons_of_mem _ hc')

theorem keeps_commands {P : Host → Prop} (hP : Stable P) (names : List String) :
    Keeps P (commands names) := by
  refine keeps_calls hP fun c hc => ?_
  obtain ⟨name, -, rfl⟩ := List.mem_map.1 hc
  trivial

theorem keeps_stopDependents {P : Host → Prop} (hP : Stable P) : Keeps P stopDependents := by
  refine keeps_calls hP fun c hc => ?_
  obtain ⟨unit, -, rfl⟩ := List.mem_map.1 hc
  trivial

theorem keeps_ask {P : Host → Prop} {o : Op} (ho : ∀ x h, (perform x h o).2 = h) :
    Keeps P (ask o) := by
  intro h hj hh
  refine wp_ask hj fun x => ?_
  have hact : (act o x h).2 = h := by
    unfold act
    cases x.outcome <;> simp only [ho]
  rw [hact]
  exact ⟨hj, hh⟩

/-! ## A transaction in memory -/

def Named (t : Transaction) (h : Host) : Prop :=
  ∃ c, current h.history = some c ∧ t.Names c

structure Open (t : Transaction) (h : Host) : Prop where
  notRolled : NotRolled t.backupPath h.history
  backup : t.backupPath = backupOf t.transactionId
  opened : t.transactionId ∈ h.backups
  rolled : t.rolledBack = false
  phase : t.phase ≠ .rolledBack

def Held (t : Transaction) (h : Host) : Prop :=
  Open t h ∧ ∃ c, current h.history = some c ∧ t.Names c ∧
    (c.status = .healthy → t.phase = .healthy)

/-- The transaction is recorded as rolled back. -/
def Terminal (t : Transaction) (h : Host) : Prop :=
  Named t h ∧ ∃ t', record t.backupPath h.history = some t' ∧ t'.rolledBack = true

/-- `CURRENT` deploys the transaction. -/
def Live (t : Transaction) (h : Host) : Prop :=
  Open t h ∧ current h.history = some (t.current .deploying)

theorem Held.named (hh : Held t h) : Named t h := by
  obtain ⟨-, c, hc, hn, -⟩ := hh
  exact ⟨c, hc, hn⟩

theorem Live.held (hl : Live t h) : Held t h :=
  ⟨hl.1, _, hl.2, ⟨rfl, rfl, rfl⟩, nofun⟩

/-- What is done to the record keeps its identity. -/
structure Transaction.Same (t t' : Transaction) : Prop where
  transactionId : t'.transactionId = t.transactionId
  releaseId : t'.releaseId = t.releaseId
  backupPath : t'.backupPath = t.backupPath
  rolledBack : t'.rolledBack = t.rolledBack
  phase : t'.phase ≠ .rolledBack

variable {t' : Transaction}

theorem Transaction.Same.names (hs : t.Same t') (hn : t.Names c) : t'.Names c :=
  ⟨hs.transactionId.trans hn.1, hs.releaseId.trans hn.2.1, hs.backupPath.trans hn.2.2⟩

theorem Transaction.Same.current (hs : t.Same t') (status : Status) :
    t'.current status = t.current status := by
  unfold Transaction.current
  rw [hs.transactionId, hs.releaseId, hs.backupPath]

theorem Open.same (ho : Open t h) (hs : t.Same t') : Open t' h where
  notRolled := hs.backupPath ▸ ho.notRolled
  backup := by rw [hs.backupPath, hs.transactionId]; exact ho.backup
  opened := hs.transactionId ▸ ho.opened
  rolled := hs.rolledBack.trans ho.rolled
  phase := hs.phase

theorem Held.same (hh : Held t h) (hs : t.Same t') (hphase : t'.phase = t.phase) : Held t' h := by
  obtain ⟨ho, c, hc, hn, hhealthy⟩ := hh
  exact ⟨ho.same hs, c, hc, hs.names hn, fun hst => hphase.trans (hhealthy hst)⟩

theorem Live.same (hl : Live t h) (hs : t.Same t') : Live t' h :=
  ⟨hl.1.same hs, by rw [hs.current]; exact hl.2⟩

theorem stable_named : Stable (Named t) :=
  stable_history (p := fun h => ∃ c, current h = some c ∧ t.Names c) fun _ _ he h => by
    rw [current_neutral he]
    exact h

theorem stable_open : Stable (Open t) := by
  intro h h' hh hb ho
  exact ⟨stable_notRolled h h' hh hb ho.notRolled, ho.backup, hb _ ho.opened, ho.rolled, ho.phase⟩

theorem stable_held : Stable (Held t) :=
  stable_open.and (stable_history
    (p := fun h => ∃ c, current h = some c ∧ t.Names c ∧ (c.status = .healthy → t.phase = .healthy))
    fun _ _ he h => by
      rw [current_neutral he]
      exact h)

theorem stable_live : Stable (Live t) :=
  stable_open.and stable_current

theorem stable_terminal : Stable (Terminal t) :=
  stable_named.and (stable_history
    (p := fun h => ∃ t', record t.backupPath h = some t' ∧ t'.rolledBack = true)
    fun _ _ he h => by
      rw [record_neutral he]
      exact h)

/-! ## Writing -/

def Host.push (h : Host) (e : Event) : Host :=
  { h with history := e :: h.history }

theorem record_push : record t.backupPath (h.push (.recorded t.backupPath t)).history = some t :=
  if_pos rfl

theorem NotRolled.record (hn : NotRolled b h.history) (ht : t.rolledBack = false) (b' : String) :
    NotRolled b (h.push (.recorded b' t)).history := by
  intro t' ht'
  rcases List.mem_cons.1 ht' with heq | hmem
  · obtain ⟨-, rfl⟩ := Event.recorded.inj heq
    exact ht
  · exact hn t' hmem

/-- A document of a transaction that is not rolled back may be replaced, if `CURRENT` goes on to
stand. -/
theorem Journal.replace (hj : Journal h) (ho : Open t h)
    (hstanding : ∀ c, current h.history = some c → c.backupPath = t.backupPath →
      t.Names c ∧ (c.status = .healthy → t.phase = .healthy)) :
    Journal (h.push (.recorded t.backupPath t)) where
  safe := ⟨fun _ => ho.notRolled, hj.safe⟩
  known b t' ht' := by
    rcases List.mem_cons.1 ht' with heq | hmem
    · obtain ⟨rfl, rfl⟩ := Event.recorded.inj heq
      exact ⟨rfl, ho.backup, ho.opened, by
        rw [ho.rolled]
        exact ⟨nofun, fun h => absurd h ho.phase⟩⟩
    · exact hj.known b t' hmem
  named c hc := by
    obtain ⟨t', ht'⟩ := hj.named c ((List.mem_cons.1 hc).resolve_left nofun)
    exact ⟨t', List.mem_cons_of_mem _ ht'⟩
  standing c hc := by
    obtain ⟨t', ht', hn, hhealthy, hrolled⟩ := hj.standing c hc
    by_cases hb : t.backupPath = c.backupPath
    · obtain ⟨hnames, hphase⟩ := hstanding c hc hb.symm
      refine ⟨t, by rw [← hb]; exact record_push, hnames, fun hst => ?_, fun hst => ?_⟩
      · exact ⟨.inl (hphase hst), (hhealthy hst).2.cons nofun⟩
      · have := ho.notRolled t' (by rw [hb]; exact mem_of_record ht')
        rw [hrolled hst] at this
        cases this
    · refine ⟨t', ?_, hn, fun hst => ⟨(hhealthy hst).1, (hhealthy hst).2.cons nofun⟩, hrolled⟩
      exact (if_neg hb).trans ht'

theorem Held.replace (hh : Held t h) (hj : Journal h) :
    Journal (h.push (.recorded t.backupPath t)) ∧ Held t (h.push (.recorded t.backupPath t)) := by
  obtain ⟨ho, c, hc, hn, hhealthy⟩ := hh
  refine ⟨hj.replace ho fun c' hc' _ => ?_, ⟨?_, ho.backup, ho.opened, ho.rolled, ho.phase⟩,
    c, hc, hn, hhealthy⟩
  · obtain rfl := Option.some.inj (hc.symm.trans hc')
    exact ⟨hn, hhealthy⟩
  · exact ho.notRolled.record ho.rolled _

/-- The transaction is recorded as rolled back. -/
theorem Held.terminal (hh : Held t h) (hj : Journal h) :
    Journal (h.push (.recorded t.backupPath t.terminal)) ∧
      Terminal t (h.push (.recorded t.backupPath t.terminal)) := by
  obtain ⟨ho, c, hc, hn, -⟩ := hh
  refine ⟨⟨⟨nofun, hj.safe⟩, fun b t' ht' => ?_, fun c' hc' => ?_, fun c' hc' => ?_⟩,
    ⟨c, hc, hn⟩, t.terminal, if_pos rfl, rfl⟩
  · rcases List.mem_cons.1 ht' with heq | hmem
    · obtain ⟨rfl, rfl⟩ := Event.recorded.inj heq
      exact ⟨rfl, ho.backup, ho.opened, iff_of_true rfl rfl⟩
    · exact hj.known b t' hmem
  · obtain ⟨t', ht'⟩ := hj.named c' ((List.mem_cons.1 hc').resolve_left nofun)
    exact ⟨t', List.mem_cons_of_mem _ ht'⟩
  · obtain rfl := Option.some.inj (hc.symm.trans hc')
    obtain ⟨t₀, -, -, hhealthy, -⟩ := hj.standing c hc
    exact ⟨t.terminal, if_pos hn.2.2, hn,
      fun hst => ⟨.inr rfl, (hhealthy hst).2.cons nofun⟩, fun _ => rfl⟩

theorem Journal.announce (hj : Journal h) (hallowed : Allowed h.history (.announced c))
    (hstanding : Standing h.history c) : Journal (h.push (.announced c)) where
  safe := ⟨hallowed, hj.safe⟩
  known b t ht := hj.known b t ((List.mem_cons.1 ht).resolve_left nofun)
  named c' hc' := by
    rcases List.mem_cons.1 hc' with heq | hmem
    · obtain rfl := Event.announced.inj heq
      obtain ⟨t, ht, -⟩ := hstanding
      exact ⟨t, List.mem_cons_of_mem _ (mem_of_record ht)⟩
    · obtain ⟨t, ht⟩ := hj.named c' hmem
      exact ⟨t, List.mem_cons_of_mem _ ht⟩
  standing c' hc' := by
    obtain rfl := Option.some.inj hc'
    obtain ⟨t, ht, hn, hhealthy, hrolled⟩ := hstanding
    exact ⟨t, ht, hn, fun hst => ⟨(hhealthy hst).1, (hhealthy hst).2.cons nofun⟩, hrolled⟩

theorem Named.standing (hn : Named t h) (hj : Journal h) (status : Status) :
    ∃ t', Journal h ∧ record t.backupPath h.history = some t' ∧ t'.Names (t.current status) := by
  obtain ⟨c, hc, hid, hrelease, hpath⟩ := hn
  obtain ⟨t', ht', ⟨hid', hrelease', hpath'⟩, -⟩ := hj.standing c hc
  exact ⟨t', hj, by rw [hpath]; exact ht', hid'.trans hid.symm, hrelease'.trans hrelease.symm,
    hpath'.trans hpath.symm⟩

theorem named_push {status : Status} : Named t (h.push (.announced (t.current status))) :=
  ⟨_, rfl, rfl, rfl, rfl⟩

theorem Named.failed (hn : Named t h) (hj : Journal h) :
    Journal (h.push (.announced (t.current .rollbackFailed))) := by
  obtain ⟨t', -, ht', hn'⟩ := hn.standing hj .rollbackFailed
  exact hj.announce trivial ⟨t', ht', hn', nofun, nofun⟩

theorem Terminal.announce (ht : Terminal t h) (hj : Journal h) :
    Journal (h.push (.announced (t.current .rolledBack))) := by
  obtain ⟨hn, t₀, ht₀, hrolled⟩ := ht
  obtain ⟨t', -, ht', hn'⟩ := hn.standing hj .rolledBack
  obtain rfl := Option.some.inj (ht₀.symm.trans ht')
  exact hj.announce ⟨t₀, mem_of_record ht₀, hrolled⟩ ⟨t₀, ht₀, hn', nofun, fun _ => hrolled⟩

/-! ## A rollback -/

/-- What a part of a rollback leaves: the record in memory, still held, or an exception under
which `CURRENT` still names the transaction. -/
def Rolling (t : Transaction) (r : Except Failure Transaction) (h : Host) : Prop :=
  match r with
  | .ok t' => Held t' h ∧ t.Same t' ∧ t'.phase = t.phase ∧ t'.serviceState = t.serviceState
  | .error _ => Named t h

theorem Transaction.Same.refl (h : t.phase ≠ .rolledBack) : t.Same t :=
  ⟨rfl, rfl, rfl, rfl, h⟩

theorem Held.rolling (hh : Held t h) : Rolling t (.ok t) h :=
  ⟨hh, .refl hh.1.phase, rfl, rfl⟩

theorem rolling_writeDocker (d : DockerRecord) (hj : Journal h) (hh : Held t h) :
    Wp act Journal (writeDocker t d) (Rolling t) h := by
  have hsame : t.Same { t with docker := d } := ⟨rfl, rfl, rfl, rfl, hh.1.phase⟩
  have hh' : Held { t with docker := d } h := hh.same hsame rfl
  obtain ⟨hj', hh''⟩ := hh'.replace hj
  refine wp_bind (wp_call hj (fun _ => hj') (fun _ _ => ?_) (fun _ => hh.named) fun _ _ => ?_)
  · exact wp_pure hj' ⟨hh'', hsame, rfl, rfl⟩
  · obtain ⟨c, hc, hn⟩ := hh''.named
    exact ⟨c, hc, hn⟩

theorem keeps_bind {P : Host → Prop} {β : Type} {Q : Except Failure β → Host → Prop}
    {f : α → Deploy β} (hQ : ∀ e h, P h → Q (.error e) h) (hj : Journal h) (hh : P h)
    (hp : Keeps P p) (hf : ∀ a h', Journal h' → P h' → Wp act Journal (f a) Q h') :
    Wp act Journal (p >>= f) Q h := by
  refine wp_bind ((hp h hj hh).mono fun r h' hj' hh' => ?_)
  cases r with
  | ok a => exact hf a h' hj' hh'
  | error e => exact hQ e h' hh'

theorem rolling_bind {f : α → Deploy Transaction} (hj : Journal h) (hh : Held t h)
    (hp : Keeps (Held t) p)
    (hf : ∀ a h', Journal h' → Held t h' → Wp act Journal (f a) (Rolling t) h') :
    Wp act Journal (p >>= f) (Rolling t) h :=
  keeps_bind (fun _ _ hh => hh.named) hj hh hp hf

/-- One part of a rollback after the other. -/
theorem rolling_seq {p : Deploy Transaction} {f : Transaction → Deploy Transaction}
    (hp : Wp act Journal p (Rolling t) h)
    (hf : ∀ t' h', Journal h' → Held t' h' → Wp act Journal (f t') (Rolling t') h') :
    Wp act Journal (p >>= f) (Rolling t) h := by
  refine wp_bind (hp.mono fun r h' hj' hr => ?_)
  cases r with
  | error e => exact hr
  | ok t' =>
    obtain ⟨hh', hsame, hphase, hservices⟩ := hr
    refine (hf t' h' hj' hh').mono fun r₂ h₂ _ hr₂ => ?_
    cases r₂ with
    | ok t₂ =>
      obtain ⟨hh₂, hsame₂, hphase₂, hservices₂⟩ := hr₂
      exact ⟨hh₂, ⟨hsame₂.transactionId.trans hsame.transactionId,
        hsame₂.releaseId.trans hsame.releaseId, hsame₂.backupPath.trans hsame.backupPath,
        hsame₂.rolledBack.trans hsame.rolledBack, hsame₂.phase⟩, hphase₂.trans hphase,
        hservices₂.trans hservices⟩
    | error e =>
      obtain ⟨c, hc, hid, hrelease, hpath⟩ := hr₂
      exact ⟨c, hc, hsame.transactionId.symm.trans hid, hsame.releaseId.symm.trans hrelease,
        hsame.backupPath.symm.trans hpath⟩

theorem rolling_pure (hj : Journal h) (hh : Held t h) :
    Wp act Journal (pure t : Deploy Transaction) (Rolling t) h :=
  wp_pure hj hh.rolling

theorem rolling_raise (code : String) (hj : Journal h) (hh : Held t h) :
    Wp act Journal (raise code : Deploy Transaction) (Rolling t) h :=
  wp_fail hj hh.named

theorem keeps_volumes {P : Host → Prop} (id : String) : Keeps P (ask (.volumes id)) :=
  keeps_ask fun _ _ => rfl

theorem keeps_ite {P : Host → Prop} {c : Prop} [Decidable c] {q : Deploy α} (hp : Keeps P p)
    (hq : Keeps P q) : Keeps P (if c then p else q) := by
  split
  · exact hp
  · exact hq

theorem keeps_providing {P : Host → Prop} (b : Bool) {p : Deploy Unit} (hp : Keeps P p) :
    Keeps P (providing b p) :=
  keeps_ite hp (keeps_pure ())

theorem keeps_verifyPreserved {P : Host → Prop} (hP : Stable P) (t : Transaction) :
    Keeps P (verifyPreservedDockerVolumes t) := by
  unfold verifyPreservedDockerVolumes
  refine keeps_ite (keeps_raise _) ((keeps_volumes _).bind fun a => ?_)
  refine keeps_ite (keeps_raise _) ?_
  cases t.docker.volumesPreservationPath with
  | none => exact keeps_ite (keeps_raise _) (keeps_pure ())
  | some path =>
    have hquiet : (Call.command "validate-preserved-volumes").Quiet := trivial
    exact keeps_ite (keeps_raise _) (keeps_call hP hquiet)

theorem keeps_verifyTerminal {P : Host → Prop} (hP : Stable P) (t : Transaction) :
    Keeps P (verifyTerminalRollback t) := by
  unfold verifyTerminalRollback
  have hquiet : (Call.verifyServices t.serviceState).Quiet := trivial
  refine (keeps_commands hP _).bind fun _ => (keeps_call hP hquiet).bind fun _ =>
    (keeps_commands hP _).bind fun _ => ?_
  refine (keeps_providing _ (keeps_commands hP _)).bind fun _ =>
    (keeps_providing _ (keeps_commands hP _)).bind fun _ => (keeps_commands hP _).bind fun _ => ?_
  exact (keeps_verifyPreserved hP t).bind fun _ => keeps_commands hP _

theorem keeps_undo {P : Host → Prop} (hP : Stable P) (t : Transaction) : Keeps P (undo t) := by
  have hauthenticate : Keeps P (authenticateArchive t) := by
    unfold authenticateArchive
    exact keeps_ite (keeps_ite (keeps_raise _) (keeps_pure ()))
      (keeps_ite (keeps_raise _) (keeps_commands hP _))
  unfold undo
  refine (keeps_commands hP _).bind fun _ => (keeps_stopDependents hP).bind fun _ =>
    (keeps_commands hP _).bind fun _ => hauthenticate.bind fun _ => ?_
  exact (keeps_commands hP _).bind fun _ =>
    (keeps_providing _ (keeps_commands hP _)).bind fun _ => keeps_commands hP _

theorem keeps_command {P : Host → Prop} (hP : Stable P) (name : String) :
    Keeps P (call (.command name)) :=
  keeps_call hP trivial

theorem rolling_start (source destination : Bool) (hj : Journal h) (hh : Held t h) :
    Wp act Journal (startPreservation t source destination) (Rolling t) h := by
  unfold startPreservation
  split
  · exact rolling_pure hj hh
  · split
    · exact rolling_raise _ hj hh
    · exact rolling_writeDocker _ hj hh

theorem rolling_move (hj : Journal h) (hh : Held t h) :
    Wp act Journal (moveVolumes t) (Rolling t) h := by
  unfold moveVolumes
  refine rolling_bind hj hh (keeps_volumes _) fun a h₁ hj₁ hh₁ => ?_
  obtain ⟨source, destination⟩ := a
  simp only
  split
  · exact rolling_raise _ hj₁ hh₁
  · have hmove : Keeps (Held t) (call (.preserveVolumes t.transactionId)) :=
      keeps_call stable_held trivial
    refine rolling_bind hj₁ hh₁ (keeps_providing _ hmove) fun _ h₂ hj₂ hh₂ => ?_
    refine rolling_bind hj₂ hh₂ (keeps_command stable_held _) fun _ h₃ hj₃ hh₃ => ?_
    exact rolling_writeDocker _ hj₃ hh₃

theorem rolling_preserve (hj : Journal h) (hh : Held t h) :
    Wp act Journal (preserveTransactionDockerVolumes t) (Rolling t) h := by
  unfold preserveTransactionDockerVolumes
  extract_lets d
  split
  · exact rolling_raise _ hj hh
  · refine rolling_bind hj hh (keeps_command stable_held _) fun _ h₁ hj₁ hh₁ => ?_
    refine rolling_bind hj₁ hh₁ (keeps_volumes _) fun a h₂ hj₂ hh₂ => ?_
    obtain ⟨source, destination⟩ := a
    refine rolling_seq (rolling_start _ _ hj₂ hh₂) fun t' h₃ hj₃ hh₃ => ?_
    cases t'.docker.volumesPreservationPath with
    | some path => exact rolling_move hj₃ hh₃
    | none =>
      simp only
      split
      · exact rolling_raise _ hj₃ hh₃
      · exact rolling_pure hj₃ hh₃

theorem rolling_complete (hj : Journal h) (hh : Held t h) :
    Wp act Journal (completeDocker t) (Rolling t) h := by
  unfold completeDocker
  split
  · refine rolling_bind hj hh (keeps_commands stable_held _) fun _ h₁ hj₁ hh₁ => ?_
    refine rolling_seq (rolling_writeDocker _ hj₁ hh₁) fun t' h₂ hj₂ hh₂ => ?_
    refine rolling_bind hj₂ hh₂ (keeps_commands stable_held _) fun _ h₃ hj₃ hh₃ => ?_
    exact rolling_pure hj₃ hh₃
  · refine rolling_bind hj hh (keeps_commands stable_held _) fun _ h₁ hj₁ hh₁ => ?_
    exact rolling_pure hj₁ hh₁

theorem rolling_removePreset (hj : Journal h) (hh : Held t h) :
    Wp act Journal (removeRollbackPreset t) (Rolling t) h := by
  unfold removeRollbackPreset
  split
  · refine rolling_bind hj hh (keeps_commands stable_held _) fun _ h₁ hj₁ hh₁ => ?_
    exact rolling_writeDocker _ hj₁ hh₁
  · exact rolling_pure hj hh

theorem rolling_restoreDocker (hj : Journal h) (hh : Held t h) :
    Wp act Journal (restoreDocker t) (Rolling t) h := by
  unfold restoreDocker
  extract_lets d
  refine rolling_bind hj hh (keeps_command stable_held _) fun _ h₁ hj₁ hh₁ => ?_
  split
  · exact rolling_raise _ hj₁ hh₁
  · refine rolling_bind hj₁ hh₁ (keeps_providing _ (keeps_commands stable_held _))
      fun _ h₂ hj₂ hh₂ => ?_
    refine rolling_seq (rolling_complete hj₂ hh₂) fun t₃ h₃ hj₃ hh₃ => ?_
    refine rolling_seq (rolling_preserve hj₃ hh₃) fun t₄ h₄ hj₄ hh₄ => ?_
    refine rolling_bind hj₄ hh₄ (keeps_providing _ (keeps_commands stable_held _))
      fun _ h₅ hj₅ hh₅ => ?_
    refine rolling_bind hj₅ hh₅ (keeps_commands stable_held _) fun _ h₆ hj₆ hh₆ => ?_
    refine rolling_seq (rolling_removePreset hj₆ hh₆) fun t₇ h₇ hj₇ hh₇ => ?_
    refine rolling_bind hj₇ hh₇ (keeps_commands stable_held _) fun _ h₈ hj₈ hh₈ => ?_
    split
    · refine rolling_bind hj₈ hh₈ (keeps_commands stable_held _) fun _ h₉ hj₉ hh₉ => ?_
      exact rolling_pure hj₉ hh₉
    · refine rolling_bind hj₈ hh₈ (keeps_commands stable_held _) fun _ h₉ hj₉ hh₉ => ?_
      exact rolling_pure hj₉ hh₉

/-- A rollback ends with the transaction recorded as rolled back, or raises under its name. -/
def Ends (t : Transaction) (r : Except Failure Unit) (h : Host) : Prop :=
  match r with
  | .ok _ => Terminal t h
  | .error _ => Named t h

theorem ends_bind {f : α → Deploy Unit} (hj : Journal h) (hh : Held t h) (hp : Keeps (Held t) p)
    (hf : ∀ a h', Journal h' → Held t h' → Wp act Journal (f a) (Ends t) h') :
    Wp act Journal (p >>= f) (Ends t) h :=
  keeps_bind (fun _ _ hh => hh.named) hj hh hp hf

theorem ends_seq {p : Deploy Transaction} {f : Transaction → Deploy Unit}
    (hp : Wp act Journal p (Rolling t) h)
    (hf : ∀ t' h', Journal h' → Held t' h' → Wp act Journal (f t') (Ends t') h') :
    Wp act Journal (p >>= f) (Ends t) h := by
  refine wp_bind (hp.mono fun r h' hj' hr => ?_)
  cases r with
  | error e => exact hr
  | ok t' =>
    obtain ⟨hh', hsame, -, -⟩ := hr
    have hnames : ∀ h₂, Named t' h₂ → Named t h₂ := by
      rintro h₂ ⟨c, hc, hid, hrelease, hpath⟩
      exact ⟨c, hc, hsame.transactionId.symm.trans hid, hsame.releaseId.symm.trans hrelease,
        hsame.backupPath.symm.trans hpath⟩
    refine (hf t' h' hj' hh').mono fun r₂ h₂ _ hr₂ => ?_
    cases r₂ with
    | ok u =>
      obtain ⟨hn, t₀, ht₀, hrolled⟩ := hr₂
      exact ⟨hnames h₂ hn, t₀, by rw [← hsame.backupPath]; exact ht₀, hrolled⟩
    | error e => exact hnames h₂ hr₂

theorem ends_terminal {e : String} (hj : Journal h) (hh : Held t h) :
    Wp act Journal (do
      call (.writeTransaction t.terminal)
      call (.appendAudit e t.transactionId)) (Ends t) h := by
  obtain ⟨hj', ht⟩ := hh.terminal hj
  refine wp_bind (wp_call hj (fun _ => hj') (fun _ _ => ?_) (fun _ => hh.named) fun _ _ => ht.1)
  have haudit : Keeps (Terminal t) (call (.appendAudit e t.transactionId)) :=
    keeps_call stable_terminal trivial
  refine (haudit _ hj' ht).mono fun r h' _ ht' => ?_
  cases r with
  | ok u => exact ht'
  | error e => exact ht'.1

theorem ends_settle (checks : List String) (hj : Journal h) (hh : Held t h) :
    Wp act Journal (settle checks t) (Ends t) h := by
  unfold settle
  have hrestore : Keeps (Held t) (call (.restoreServices t.serviceState)) :=
    keeps_call stable_held trivial
  refine ends_bind hj hh hrestore fun _ h₁ hj₁ hh₁ => ?_
  refine ends_seq (rolling_restoreDocker hj₁ hh₁) fun t' h₂ hj₂ hh₂ => ?_
  have hverify : Keeps (Held t') (call (.verifyServices t'.serviceState)) :=
    keeps_call stable_held trivial
  refine ends_bind hj₂ hh₂ (keeps_commands stable_held _) fun _ h₃ hj₃ hh₃ => ?_
  refine ends_bind hj₃ hh₃ hverify fun _ h₄ hj₄ hh₄ => ?_
  refine ends_bind hj₄ hh₄ (keeps_commands stable_held _) fun _ h₅ hj₅ hh₅ => ?_
  refine ends_bind hj₅ hh₅ (keeps_verifyTerminal stable_held _) fun _ h₆ hj₆ hh₆ => ?_
  exact ends_terminal hj₆ hh₆

theorem ends_rollback (hj : Journal h) (hh : Held t h ∨ t.rolledBack = true ∧ Terminal t h) :
    Wp act Journal (rollbackTransaction t) (Ends t) h := by
  unfold rollbackTransaction
  rcases hh with hh | ⟨hrolled, ht⟩
  · refine ends_bind hj hh (keeps_commands stable_held _) fun _ h₁ hj₁ hh₁ => ?_
    rw [if_neg (by rw [hh.1.rolled]; exact Bool.false_ne_true)]
    have hsettle : Wp act Journal (do
        undo t
        settle ["transient-units"] t) (Ends t) h₁ :=
      ends_bind hj₁ hh₁ (keeps_undo stable_held t) fun _ h₂ hj₂ hh₂ => ends_settle _ hj₂ hh₂
    cases hphase : t.phase with
    | rolledBack => exact absurd hphase hh.1.phase
    | snapshotting => exact ends_settle _ hj₁ hh₁
    | snapshotted => exact hsettle
    | installing => exact hsettle
    | healthy => exact hsettle
  · have hverify : Keeps (Terminal t) (commands ["hermes-transaction-identity"] >>= fun _ =>
        verifyTerminalRollback t) :=
      (keeps_commands stable_terminal _).bind fun _ => keeps_verifyTerminal stable_terminal t
    simp only [hrolled, if_true]
    refine (hverify h hj ht).mono fun r h' _ ht' => ?_
    cases r with
    | ok u => exact ht'
    | error e => exact ht'.1

theorem Journal.resumes (hj : Journal h) (hc : current h.history = some c)
    (ht : record c.backupPath h.history = some t) :
    Held t h ∨ t.rolledBack = true ∧ Terminal t h := by
  obtain ⟨t', ht', hn, hhealthy, -⟩ := hj.standing c hc
  obtain rfl := Option.some.inj (ht.symm.trans ht')
  obtain ⟨hpath, hbackup, hid, hphase⟩ := hj.known _ _ (mem_of_record ht)
  cases hrolled : t.rolledBack with
  | true => exact .inr ⟨rfl, ⟨c, hc, hn⟩, t, by rw [hpath]; exact ht, hrolled⟩
  | false =>
    have hne : t.phase ≠ .rolledBack := fun h => by
      rw [hphase.2 h] at hrolled
      cases hrolled
    refine .inl ⟨⟨?_, hpath.trans hbackup, hid, hrolled, hne⟩, c, hc, hn, fun hst => ?_⟩
    · rw [hpath]
      exact hj.safe.notRolled ht hrolled
    · exact (hhealthy hst).1.resolve_right (by rw [hrolled]; exact Bool.false_ne_true)

/-! ## Before a transaction -/

/-- `CURRENT` is healthy or rolled back, or nothing was deployed yet. -/
def Idle (h : Host) : Prop :=
  ∀ c, current h.history = some c → c.status = .healthy ∨ c.status = .rolledBack

theorem stable_idle : Stable Idle :=
  stable_history
    (p := fun h => ∀ c, current h = some c → c.status = .healthy ∨ c.status = .rolledBack)
    fun _ _ he h c hc => h c (by rw [← current_neutral he]; exact hc)

theorem Journal.closed (hj : Journal h) (hi : Idle h) : Closed h.history := by
  intro c hc
  obtain ⟨t, ht, hn, hhealthy, hrolled⟩ := hj.standing c hc
  refine ⟨t, ht, hn, ?_⟩
  rcases hi c hc with hst | hst
  · exact .inl ⟨hst, (hhealthy hst).1⟩
  · exact .inr ⟨hst, hrolled hst⟩

theorem wp_readCurrent {Q : Except Failure (Option Current) → Host → Prop} (hj : Journal h)
    (hok : Q (.ok (current h.history)) h) (herror : ∀ e, Q (.error e) h) :
    Wp act Journal (ask .readCurrent) Q h := by
  refine wp_ask hj fun x => ?_
  unfold act
  cases x.outcome with
  | done => exact ⟨hj, hok⟩
  | refused e => exact ⟨hj, herror e⟩
  | late e => exact ⟨hj, herror e⟩

theorem wp_readTransaction {Q : Except Failure Transaction → Host → Prop} (hj : Journal h)
    (hok : ∀ t, record b h.history = some t → Q (.ok t) h) (herror : ∀ e, Q (.error e) h) :
    Wp act Journal (ask (.readTransaction b)) Q h := by
  refine wp_ask hj fun x => ?_
  unfold act
  cases x.outcome with
  | done =>
    simp only [perform]
    refine ⟨hj, ?_⟩
    cases ht : record b h.history with
    | some t => exact hok t ht
    | none => exact herror _
  | refused e => exact ⟨hj, herror e⟩
  | late e => exact ⟨hj, herror e⟩

theorem Keeps.attempt {P : Host → Prop} (hp : Keeps P p) : Keeps P (Prog.attempt p) :=
  fun h hj hh => wp_attempt (hp h hj hh)

theorem keeps_fail {P : Host → Prop} (e : Failure) : Keeps P (.fail e : Deploy α) :=
  fun _ hj hh => wp_fail hj hh

/-- A transaction that was interrupted is rolled back before anything else. -/
theorem wp_recover (hj : Journal h) :
    Wp act Journal recoverInterruptedTransaction (fun r h' => ∀ u, r = .ok u → Idle h') h := by
  unfold recoverInterruptedTransaction
  refine wp_bind (wp_readCurrent hj ?_ fun _ => nofun)
  cases hc : current h.history with
  | none =>
    refine wp_pure hj fun _ _ c hc' => ?_
    rw [hc] at hc'
    cases hc'
  | some c =>
    have hidle : c.status = .healthy ∨ c.status = .rolledBack →
        ∀ u, (.ok () : Except Failure Unit) = .ok u → Idle h := by
      intro hst _ _ c' hc'
      obtain rfl := Option.some.inj (hc.symm.trans hc')
      exact hst
    simp only
    cases hst : c.status with
    | rollbackFailed => exact wp_fail hj nofun
    | healthy => exact wp_pure hj (hidle (.inl hst))
    | rolledBack => exact wp_pure hj (hidle (.inr hst))
    | deploying =>
      refine wp_bind (wp_readTransaction hj (fun t ht => ?_) fun _ => nofun)
      refine wp_bind (wp_attempt ((ends_rollback hj (hj.resumes hc ht)).mono
        fun r h₁ hj₁ hr => ?_))
      have haudit : ∀ e, Keeps Idle (call (.appendAudit e t.transactionId)) := fun e =>
        keeps_call stable_idle trivial
      cases r with
      | ok u =>
        have hj₂ := hr.announce hj₁
        refine wp_bind (wp_call hj₁ (fun _ => hj₂) (fun _ _ => ?_) (fun _ => nofun)
          fun _ _ => nofun)
        refine (haudit _ _ hj₂ ?_).mono fun _ _ _ hi _ _ => hi
        intro c' hc'
        obtain rfl := Option.some.inj hc'
        exact .inr rfl
      | error e =>
        have hj₂ := Named.failed hr hj₁
        refine wp_bind (wp_call hj₁ (fun _ => hj₂) (fun _ _ => ?_) (fun _ => nofun)
          fun _ _ => nofun)
        have hany : Keeps (fun _ => True)
            (call (.appendAudit "interrupted_deployment_recovery_failed" t.transactionId)) :=
          keeps_call (fun _ _ _ _ h => h) trivial
        refine wp_bind ((hany _ hj₂ trivial).mono fun r h₃ hj₃ _ => ?_)
        cases r with
        | ok u => exact wp_fail hj₃ nofun
        | error e => nofun

theorem keeps_currentIsHealthy (m : Manifest) : Keeps Idle (currentIsHealthy m) := by
  unfold currentIsHealthy
  have hread : Keeps Idle (ask .readCurrent) := keeps_ask fun _ _ => rfl
  have hcheck : Keeps Idle (call (.healthCheck m.releaseId)) := keeps_call stable_idle trivial
  refine hread.attempt.bind fun r => ?_
  match r with
  | .ok none => exact keeps_pure false
  | .error (.deployment _) => exact keeps_pure false
  | .error .other => exact keeps_fail _
  | .ok (some c) =>
    refine keeps_ite (hcheck.attempt.bind fun r => ?_) (keeps_pure false)
    match r with
    | .ok () => exact keeps_pure true
    | .error (.deployment _) => exact keeps_pure false
    | .error .other => exact keeps_fail _

/-! ## Statements -/

/-- What the statements of a `try` lead to. -/
def Leads (P E : Transaction → Host → Prop)
    (r : Except Failure (Transaction × Option Failure)) (h : Host) : Prop :=
  match r with
  | .ok (t, none) => P t h
  | .ok (t, some _) => E t h
  | .error _ => False

/-- The statement leads from `P` to `R`, or raises with `E`. -/
def Passes (P R E : Transaction → Host → Prop) (s : Step) : Prop :=
  ∀ t h, Journal h → P t h → Wp act Journal (call (s.call (s.assign t))) (fun r h' =>
    match r with
    | .ok _ => R (s.assign t) h'
    | .error _ => E (s.assign t) h') h

variable {P R S E : Transaction → Host → Prop} {s : Step} {ss ss' : List Step}

theorem wp_step (hs : Passes P R E s) (hj : Journal h) (hP : P t h)
    (hss : ∀ t h, Journal h → R t h → Wp act Journal (steps ss t) (Leads S E) h) :
    Wp act Journal (steps (s :: ss) t) (Leads S E) h := by
  refine wp_bind (wp_attempt ((hs t h hj hP).mono fun r h' hj' hr => ?_))
  cases r with
  | ok u => exact hss _ _ hj' hr
  | error e => exact wp_pure hj' hr

theorem wp_steps (hs : ∀ s ∈ ss, Passes P P E s)
    (hss : ∀ t h, Journal h → P t h → Wp act Journal (steps ss' t) (Leads S E) h)
    (hj : Journal h) (hP : P t h) : Wp act Journal (steps (ss ++ ss') t) (Leads S E) h := by
  induction ss generalizing t h with
  | nil => exact hss t h hj hP
  | cons s ss ih =>
    exact wp_step (hs s List.mem_cons_self) hj hP fun t h hj hP =>
      ih (fun s' hs' => hs s' (List.mem_cons_of_mem _ hs')) hj hP

theorem wp_steps_nil (hj : Journal h) (hP : P t h) :
    Wp act Journal (steps [] t) (Leads P E) h :=
  wp_pure hj hP

theorem passes_quiet (hassign : s.assign = id) (hs : ∀ t, (s.call t).Quiet)
    (hP : ∀ t, Stable (P t)) (hE : ∀ t h, P t h → E t h) : Passes P P E s := by
  intro t h hj hh
  have hkeep : Keeps (P t) (call (s.call t)) := keeps_call (hP t) (hs t)
  rw [hassign]
  refine (hkeep h hj hh).mono fun r h' _ hh' => ?_
  cases r with
  | ok u => exact hh'
  | error e => exact hE t h' hh'

theorem Live.replace (hl : Live t h) (hj : Journal h) :
    Journal (h.push (.recorded t.backupPath t)) ∧ Live t (h.push (.recorded t.backupPath t)) := by
  obtain ⟨hj', ho, -⟩ := hl.held.replace hj
  exact ⟨hj', ho, hl.2⟩

/-- A statement that replaces the document. -/
theorem passes_write {f : Transaction → Transaction} (hlive : ∀ t h, P t h → Live t h)
    (hsame : ∀ t h, P t h → t.Same (f t))
    (hP : ∀ t h, P t h → Journal h → R (f t) (h.push (.recorded (f t).backupPath (f t))))
    (hE : ∀ t h, Live t h → E t h) : Passes P R E (.write f) := by
  intro t h hj hh
  have hl : Live (f t) h := (hlive t h hh).same (hsame t h hh)
  obtain ⟨hj', hl'⟩ := hl.replace hj
  exact wp_call hj (fun _ => hj') (fun _ _ => hP t h hh hj) (fun _ => hE _ _ hl)
    fun _ _ => hE _ _ hl'

/-! ## The snapshot -/

/-- While the snapshot of a transaction is taken. -/
def Snapshotting (t₀ t : Transaction) (h : Host) : Prop :=
  Live t h ∧ t.managedPathsExisting = t₀.managedPathsExisting ∧ t.phase = .snapshotting

/-- The snapshot is complete in the document and in memory. -/
def Ready (t : Transaction) (h : Host) : Prop :=
  Live t h ∧ t.Snapshotted ∧
    ∃ t', record t.backupPath h.history = some t' ∧ t'.Snapshotted

theorem stable_snapshotting {t₀ : Transaction} : Stable (Snapshotting t₀ t) :=
  stable_live.and fun _ _ _ _ hh => hh

theorem stable_ready : Stable (Ready t) := by
  have hsnap : Stable fun _ => t.Snapshotted := fun _ _ _ _ hh => hh
  refine stable_live.and (hsnap.and (stable_history
    (p := fun h => ∃ t', record t.backupPath h = some t' ∧ t'.Snapshotted) fun _ _ he h => ?_))
  rw [record_neutral he]
  exact h

/-- The statements of the snapshot lead to a complete one. -/
theorem wp_snapshot {t₀ : Transaction} (hj : Journal h) (hs : Snapshotting t₀ t h) :
    Wp act Journal (steps (snapshotSteps t₀) t) (Leads Ready Live) h := by
  have hrun : ∀ name, Passes (Snapshotting t₀) (Snapshotting t₀) Live (.run name) := fun name =>
    passes_quiet rfl (fun _ => trivial) (fun _ => stable_snapshotting) fun _ _ hh => hh.1
  have hwrite : ∀ g : Transaction → DockerRecord,
      Passes (Snapshotting t₀) (Snapshotting t₀) Live
        (.write fun t => { t with docker := g t }) := by
    intro g
    have hsame : ∀ t h, Snapshotting t₀ t h → t.Same { t with docker := g t } := by
      intro t h hh
      exact ⟨rfl, rfl, rfl, rfl, hh.1.1.phase⟩
    refine passes_write (fun _ _ hh => hh.1) hsame (fun t h hh hj => ?_) fun _ _ hl => hl
    exact ⟨((hh.1.same (hsame t h hh)).replace hj).2, hh.2⟩
  -- the last two statements, behind the archive
  have hlast : ∀ t h, Journal h → Snapshotting t₀ t h ∧ t.Archived →
      Wp act Journal (steps [.run "sync-control-plane-filesystems",
        .write fun t => { t with phase := .snapshotted }] t) (Leads Ready Live) h := by
    intro t h hj hh
    refine wp_step (P := fun t h => Snapshotting t₀ t h ∧ t.Archived)
      (R := fun t h => Snapshotting t₀ t h ∧ t.Archived)
      (passes_quiet rfl (fun _ => trivial)
        (fun t => stable_snapshotting.and fun _ _ _ _ hh => hh) fun _ _ hh => hh.1.1) hj hh
      fun t h hj hh => ?_
    refine wp_step (P := fun t h => Snapshotting t₀ t h ∧ t.Archived) (R := Ready)
      (passes_write (fun _ _ hh => hh.1.1) (fun _ _ _ => ⟨rfl, rfl, rfl, rfl, nofun⟩)
        (fun t h hh hj => ?_) fun _ _ hl => hl) hj hh fun t h hj hh => wp_steps_nil hj hh
    have hsnap : ({ t with phase := .snapshotted } : Transaction).Snapshotted := ⟨.inl rfl, hh.2⟩
    have hl : Live { t with phase := .snapshotted } h :=
      hh.1.1.same ⟨rfl, rfl, rfl, rfl, nofun⟩
    exact ⟨(hl.replace hj).2, hsnap, _, record_push, hsnap⟩
  have harchive : ∀ t h, Journal h → Snapshotting t₀ t h → Wp act Journal
      (steps (backupManagedFiles t₀ ++ [.run "sync-control-plane-filesystems",
        .write fun t => { t with phase := .snapshotted }]) t) (Leads Ready Live) h := by
    intro t h hj hh
    unfold backupManagedFiles
    split
    · next hnone => exact hlast t h hj ⟨hh, .inl (hh.2.1.trans hnone)⟩
    · refine wp_step (hrun _) hj hh fun t h hj hh => ?_
      refine wp_step (hrun _) hj hh fun t h hj hh => ?_
      refine wp_step (R := fun t h => Snapshotting t₀ t h ∧ t.Archived) ?_ hj hh hlast
      intro t h hj hh
      have hh' : Snapshotting t₀
          { t with managedArchive := some (managedFiles t.backupPath) } h :=
        ⟨hh.1.same ⟨rfl, rfl, rfl, rfl, hh.1.1.phase⟩, hh.2⟩
      have hkeep : Keeps (Snapshotting t₀
          { t with managedArchive := some (managedFiles t.backupPath) })
          (call (.command "sha256-managed-files")) := keeps_command stable_snapshotting _
      refine (hkeep h hj hh').mono fun r h' _ hr => ?_
      cases r with
      | ok u => exact ⟨hr, .inr rfl⟩
      | error e => exact hr.1
  unfold snapshotSteps suppressZulipContainerRestarts
  rw [List.append_assoc, List.append_assoc]
  refine wp_steps ?_ (fun t h hj hh => wp_steps ?_ harchive hj hh) hj hs
  · intro s hs
    obtain ⟨unit, -, rfl⟩ := List.mem_map.1 hs
    exact passes_quiet rfl (fun _ => trivial) (fun _ => stable_snapshotting) fun _ _ hh => hh.1
  · intro s hs
    rcases List.mem_cons.1 hs with rfl | hs
    · exact hwrite _
    rcases List.mem_cons.1 hs with rfl | hs
    · exact hrun _
    obtain rfl := List.mem_singleton.1 hs
    exact hwrite _

/-! ## The installation -/

/-- An installation step of a transaction whose snapshot is complete. -/
theorem Ready.install (hr : Ready t h) (hj : Journal h) :
    Journal (h.push (.installed t.backupPath)) ∧ Ready t (h.push (.installed t.backupPath)) := by
  obtain ⟨⟨ho, hc⟩, hsnap, t', ht', hsnap'⟩ := hr
  obtain ⟨t₁, ht₁, hn, -⟩ := hj.standing _ hc
  obtain rfl := Option.some.inj (ht'.symm.trans ht₁)
  refine ⟨⟨⟨⟨ho.notRolled, _, t', hc, rfl, rfl, ht', hn, hsnap'⟩, hj.safe⟩, fun b t'' ht'' => ?_,
    fun c hc' => ?_, fun c hc' => ?_⟩, ⟨⟨?_, ho.backup, ho.opened, ho.rolled, ho.phase⟩, hc⟩,
    hsnap, t', ht', hsnap'⟩
  · exact hj.known b t'' ((List.mem_cons.1 ht'').resolve_left nofun)
  · obtain ⟨t'', ht''⟩ := hj.named c ((List.mem_cons.1 hc').resolve_left nofun)
    exact ⟨t'', List.mem_cons_of_mem _ ht''⟩
  · obtain rfl := Option.some.inj (hc.symm.trans hc')
    exact ⟨t', ht', hn, nofun, nofun⟩
  · exact fun t'' ht'' => ho.notRolled t'' ((List.mem_cons.1 ht'').resolve_left nofun)

theorem passes_install (name : String) (hE : ∀ t h, Live t h → E t h) :
    Passes Ready Ready E (.install name) := by
  intro t h hj hr
  obtain ⟨hj', hr'⟩ := hr.install hj
  have heffect : ∀ x : Choice, Journal ((Call.install t.backupPath name).effect x h) ∧
      Ready t ((Call.install t.backupPath name).effect x h) := fun x =>
    ⟨stable_journal (h.push (.installed t.backupPath)) _ (.inl rfl) (fun _ h => h) hj',
      stable_ready (h.push (.installed t.backupPath)) _ (.inl rfl) (fun _ h => h) hr'⟩
  exact wp_call hj (fun x => (heffect x).1) (fun x _ => (heffect x).2) (fun _ => hE _ _ hr.1)
    fun x _ => hE _ _ (heffect x).2.1

theorem passes_writeReady {f : Transaction → Transaction}
    (hsame : ∀ t h, Ready t h → t.Same (f t) ∧ (f t).Snapshotted)
    (hE : ∀ t h, Live t h → E t h) : Passes Ready Ready E (.write f) := by
  refine passes_write (fun _ _ hr => hr.1) (fun t h hr => (hsame t h hr).1)
    (fun t h hr hj => ?_) hE
  obtain ⟨hs, hsnap⟩ := hsame t h hr
  exact ⟨((hr.1.same hs).replace hj).2, hsnap, _, record_push, hsnap⟩

/-- The statements of the installation keep the snapshot. -/
theorem passes_installSteps (hE : ∀ t h, Live t h → E t h) :
    ∀ s ∈ installSteps, Passes Ready Ready E s := by
  have hinstall : ∀ name, Passes Ready Ready E (.install name) := fun name =>
    passes_install name hE
  have hquiet : ∀ s : Step, s.assign = id → (∀ t, (s.call t).Quiet) → Passes Ready Ready E s :=
    fun s hs hq => passes_quiet hs hq (fun _ => stable_ready) fun t h hr => hE t h hr.1
  have hrun : ∀ name, Passes Ready Ready E (.run name) := fun name =>
    hquiet _ rfl fun _ => trivial
  have hwrite : ∀ f : Transaction → Transaction, (∀ t h, Ready t h → t.Same (f t) ∧
      (f t).Snapshotted) → Passes Ready Ready E (.write f) := fun f hf => passes_writeReady hf hE
  unfold installSteps installRelease
  simp only [List.forall_mem_cons, List.forall_mem_append, List.forall_mem_map,
    List.not_mem_nil, hinstall, hrun, true_and]
  refine ⟨hwrite _ fun t h hr => ?_, ⟨⟨hwrite _ fun t h hr => ?_, hwrite _ fun t h hr => ?_,
    hwrite _ fun t h hr => ?_, fun _ hs => hs.elim⟩, fun unit _ => hquiet _ rfl fun _ => trivial⟩,
    hwrite _ fun t h hr => ?_, fun _ hs => hs.elim⟩
  · exact ⟨⟨rfl, rfl, rfl, rfl, fun hp => by cases hp⟩, .inr rfl, hr.2.1.2⟩
  · exact ⟨⟨rfl, rfl, rfl, rfl, hr.1.1.phase⟩, hr.2.1⟩
  · exact ⟨⟨rfl, rfl, rfl, rfl, hr.1.1.phase⟩, hr.2.1⟩
  · exact ⟨⟨rfl, rfl, rfl, rfl, hr.1.1.phase⟩, hr.2.1⟩
  · exact ⟨⟨rfl, rfl, rfl, rfl, hr.1.1.phase⟩, hr.2.1⟩

/-- The health check passed behind the installation. -/
def Proved (t : Transaction) (h : Host) : Prop :=
  Live t h ∧ Checked t.releaseId h.history

/-- The document says that the transaction is healthy, as the health check does. -/
def Committing (t : Transaction) (h : Host) : Prop :=
  Proved t h ∧ t.phase = .healthy ∧ record t.backupPath h.history = some t

theorem stable_proved : Stable (Proved t) :=
  stable_live.and stable_checked

theorem passes_health : Passes Ready Proved Held { call := fun t => .healthCheck t.releaseId } := by
  intro t h hj hr
  have hquiet : (Call.healthCheck t.releaseId).Quiet := trivial
  refine wp_call hj (fun x => hquiet.effect x stable_journal hj) (fun x hx => ?_)
    (fun _ => hr.1.held) fun x _ => (hquiet.effect x stable_live hr.1).held
  refine ⟨hquiet.effect x stable_live hr.1, ?_⟩
  simp only [Call.effect, hx, if_true]
  exact ⟨[], h.history, rfl, fun _ => List.not_mem_nil⟩

theorem passes_commit :
    Passes Proved Committing Held (.write fun t => { t with phase := .healthy }) := by
  have hsame : ∀ t h, Proved t h → t.Same { t with phase := .healthy } :=
    fun _ _ _ => ⟨rfl, rfl, rfl, rfl, nofun⟩
  refine passes_write (fun _ _ hp => hp.1) hsame (fun t h hp hj => ?_) fun _ _ hl => hl.held
  exact ⟨⟨((hp.1.same (hsame t h hp)).replace hj).2, hp.2.cons nofun⟩, rfl, record_push⟩

theorem passes_announce :
    Passes Committing Held Held { call := fun t => .writeCurrent (t.current .healthy) } := by
  rintro t h hj ⟨⟨hl, hchecked⟩, hphase, hrecord⟩
  have hj' : Journal (h.push (.announced (t.current .healthy))) :=
    hj.announce ⟨hchecked, hl.1.notRolled⟩
      ⟨t, hrecord, ⟨rfl, rfl, rfl⟩, fun _ => ⟨.inl hphase, hchecked⟩, nofun⟩
  have hheld : Held t (h.push (.announced (t.current .healthy))) :=
    ⟨⟨fun t' ht' => hl.1.notRolled t' ((List.mem_cons.1 ht').resolve_left nofun), hl.1.backup,
      hl.1.opened, hl.1.rolled, hl.1.phase⟩, _, rfl, ⟨rfl, rfl, rfl⟩, fun _ => hphase⟩
  exact wp_call hj (fun _ => hj') (fun _ _ => hheld) (fun _ => hl.held) fun _ _ => hheld

theorem wp_install (hj : Journal h) (hr : Ready t h) :
    Wp act Journal (steps (installSteps ++ commitSteps) t) (Leads Held Held) h := by
  refine wp_steps (passes_installSteps fun _ _ hl => hl.held) (fun t h hj hr => ?_) hj hr
  refine wp_step passes_health hj hr fun t h hj hp => ?_
  refine wp_step (passes_quiet rfl (fun _ => trivial) (fun _ => stable_proved)
    fun _ _ hp => hp.1.held) hj hp fun t h hj hp => ?_
  refine wp_step passes_commit hj hp fun t h hj hc => ?_
  refine wp_step passes_announce hj hc fun t h hj hh => ?_
  refine wp_step (passes_quiet rfl (fun _ => trivial) (fun _ => stable_held)
    fun _ _ hh => hh) hj hh fun t h hj hh => wp_steps_nil hj hh

/-! ## The invocations -/

theorem backupOf_injective {a : String} (h : backupOf a = backupOf b) : a = b := by
  unfold backupOf at h
  have htext := congrArg String.toList h
  rw [String.toList_append, String.toList_append] at htext
  exact String.toList_injective (List.append_cancel_left htext)

theorem stable_true : Stable fun _ => True :=
  fun _ _ _ _ hh => hh

/-- What raises leaves `CURRENT` with the name of the transaction. -/
def Fails (t : Transaction) (r : Except Failure Unit) (h : Host) : Prop :=
  ∀ e, r = .error e → Named t h

theorem wp_restoreSnapshot (hj : Journal h) (hl : Live t h) :
    Wp act Journal (restoreSnapshot t) (Fails t) h := by
  have hfails : ∀ (e : Failure) h, Held t h → Fails t (.error e) h := fun _ _ hh _ _ => hh.named
  have hrestore : Keeps (Held t) (call (.restoreServices t.serviceState)) :=
    keeps_call stable_held trivial
  have hverify : Keeps (Held t) (call (.verifyServices t.serviceState)) :=
    keeps_call stable_held trivial
  unfold restoreSnapshot
  refine keeps_bind hfails hj hl.held hrestore fun _ h₁ hj₁ hh₁ => ?_
  refine keeps_bind hfails hj₁ hh₁ hverify fun _ h₂ hj₂ hh₂ => ?_
  refine keeps_bind hfails hj₂ hh₂ (keeps_providing _ (keeps_commands stable_held _))
    fun _ h₃ hj₃ hh₃ => ?_
  refine keeps_bind hfails hj₃ hh₃ (keeps_commands stable_held _) fun _ h₄ hj₄ hh₄ => ?_
  refine keeps_bind hfails hj₄ hh₄ (keeps_verifyTerminal stable_held t) fun _ h₅ hj₅ hh₅ => ?_
  obtain ⟨hj₆, ht⟩ := hh₅.terminal hj₅
  refine wp_bind (wp_call hj₅ (fun _ => hj₆) (fun _ _ => ?_) (fun _ _ _ => hh₅.named)
    fun _ _ _ _ => ht.1)
  have hj₇ := ht.announce hj₆
  refine wp_bind (wp_call hj₆ (fun _ => hj₇) (fun _ _ => ?_) (fun _ _ _ => ht.1)
    fun _ _ _ _ => named_push)
  have haudit : Keeps (Named t)
      (call (.appendAudit "deployment_snapshot_failed" t.transactionId)) :=
    keeps_call stable_named trivial
  exact (haudit _ hj₇ named_push).mono fun _ _ _ hn _ _ => hn

theorem wp_openBackup {m : Manifest} {Q : Except Failure Transaction → Host → Prop}
    (hj : Journal h) (hi : Idle h)
    (hok : ∀ t h', Journal h' → Open t h' → Idle h' → t.phase = .snapshotting →
      (∀ t', .recorded t.backupPath t' ∉ h'.history) → Q (.ok t) h')
    (herror : ∀ e h', Q (.error e) h') : Wp act Journal (ask (.openBackup m)) Q h := by
  refine wp_ask hj fun x => ?_
  by_cases hmem : (x.opens m h).transactionId ∈ h.backups
  · have hperform : perform x h (.openBackup m) = (.error .other, h) := if_pos hmem
    unfold act
    rw [hperform]
    cases x.outcome with
    | done => exact ⟨hj, herror _ _⟩
    | refused e => exact ⟨hj, herror _ _⟩
    | late e => exact ⟨hj, herror _ _⟩
  · obtain ⟨h', hh'⟩ : ∃ h', h' =
      { h with backups := (x.opens m h).transactionId :: h.backups } := ⟨_, rfl⟩
    have hperform : perform x h (.openBackup m) = (.ok (x.opens m h), h') := by
      rw [hh']
      exact if_neg hmem
    have hhistory : h'.history = h.history := by rw [hh']
    have hbackups : ∀ id ∈ h.backups, id ∈ h'.backups := fun id hid => by
      rw [hh']
      exact List.mem_cons_of_mem _ hid
    have hj' : Journal h' := stable_journal h h' (.inl hhistory) hbackups hj
    have hfresh : ∀ t', .recorded (x.opens m h).backupPath t' ∉ h'.history := by
      intro t' ht'
      rw [hhistory] at ht'
      obtain ⟨-, hbackup, hid, -⟩ := hj.known _ _ ht'
      rw [← backupOf_injective hbackup] at hid
      exact hmem hid
    have hopen : Open (x.opens m h) h' := by
      refine ⟨fun t' ht' => absurd ht' (hfresh t'), rfl, ?_, rfl, nofun⟩
      rw [hh']
      exact List.mem_cons_self
    have hi' : Idle h' := stable_idle h h' (.inl hhistory) hbackups hi
    unfold act
    rw [hperform]
    cases x.outcome with
    | done => exact ⟨hj', hok _ _ hj' hopen hi' rfl hfresh⟩
    | refused e => exact ⟨hj, herror _ _⟩
    | late e => exact ⟨hj', herror _ _⟩

def Captures (r : Except Failure Transaction) (h : Host) : Prop :=
  ∀ t, r = .ok t → Ready t h

theorem captures_error (e : Failure) (h : Host) : Captures (.error e) h := by
  intro t ht
  cases ht

theorem wp_captureBackup (m : Manifest) (hj : Journal h) (hi : Idle h) :
    Wp act Journal (captureBackup m) Captures h := by
  unfold captureBackup
  refine wp_bind (wp_openBackup hj hi (fun t h₁ hj₁ ho hi₁ hphase hfresh => ?_) captures_error)
  -- nothing names the transaction before its document is there
  have hj₂ : Journal (h₁.push (.recorded t.backupPath t)) := by
    refine hj₁.replace ho fun c hc hpath => ?_
    obtain ⟨t', ht'⟩ := hj₁.named c (mem_of_current hc)
    rw [hpath] at ht'
    exact absurd ht' (hfresh t')
  refine wp_bind (wp_call hj₁ (fun _ => hj₂) (fun _ _ => ?_) (fun _ => captures_error _ _)
    fun _ _ => captures_error _ _)
  have hnot : NotRolled t.backupPath (h₁.push (.recorded t.backupPath t)).history :=
    ho.notRolled.record ho.rolled _
  have hj₃ : Journal ((h₁.push (.recorded t.backupPath t)).push
      (.announced (t.current .deploying))) :=
    hj₂.announce ⟨hnot, fun _ => hj₂.closed hi₁⟩ ⟨t, record_push, ⟨rfl, rfl, rfl⟩, nofun, nofun⟩
  have hl : Live t ((h₁.push (.recorded t.backupPath t)).push
      (.announced (t.current .deploying))) :=
    ⟨⟨fun t' ht' => hnot t' ((List.mem_cons.1 ht').resolve_left nofun), ho.backup, ho.opened,
      ho.rolled, ho.phase⟩, rfl⟩
  refine wp_bind (wp_call hj₂ (fun _ => hj₃) (fun _ _ => ?_) (fun _ => captures_error _ _)
    fun _ _ => captures_error _ _)
  have haudit : Keeps (Live t)
      (call (.appendAudit "deployment_snapshot_started" t.transactionId)) :=
    keeps_call stable_live trivial
  refine keeps_bind (fun _ _ _ => captures_error _ _) hj₃ hl haudit fun _ h₄ hj₄ hl₄ => ?_
  refine wp_bind ((wp_snapshot hj₄ ⟨hl₄, rfl, hphase⟩).mono fun r h₅ hj₅ hr => ?_)
  match r with
  | .error e => exact hr.elim
  | .ok (t', none) =>
    refine wp_pure hj₅ fun t'' ht'' => ?_
    obtain rfl := Except.ok.inj ht''
    exact hr
  | .ok (t', some e) =>
    have hl' : Live t' h₅ := hr
    refine wp_bind (wp_attempt ((wp_restoreSnapshot hj₅ hl').mono fun r h₆ hj₆ hr => ?_))
    cases r with
    | ok u => exact wp_fail hj₆ (captures_error _ _)
    | error e' =>
      have hj₇ := (hr e' rfl).failed hj₆
      refine wp_bind (wp_call hj₆ (fun _ => hj₇) (fun _ _ => ?_) (fun _ => captures_error _ _)
    fun _ _ => captures_error _ _)
      exact wp_fail hj₇ (captures_error _ _)

/-- The handler of the inner `try`. -/
theorem wp_abandon (e : Failure) (hj : Journal h) (hh : Held t h) :
    Wp act Journal (abandon t e) (fun _ _ => True) h := by
  unfold abandon
  have haudit : Keeps (fun _ => True) (call (.appendAudit "deployment_failed" t.transactionId)) :=
    keeps_call stable_true trivial
  refine wp_bind (wp_attempt ((ends_rollback hj (.inl hh)).mono fun r h₁ hj₁ hr => ?_))
  cases r with
  | ok u =>
    have hj₂ := hr.announce hj₁
    refine wp_bind (wp_call hj₁ (fun _ => hj₂) (fun _ _ => ?_) (fun _ => trivial)
      fun _ _ => trivial)
    refine keeps_bind (fun _ _ _ => trivial) hj₂ trivial haudit fun _ h₃ hj₃ _ => ?_
    cases e with
    | deployment code => exact wp_fail hj₃ trivial
    | other => exact wp_fail hj₃ trivial
  | error e' =>
    have hj₂ := Named.failed hr hj₁
    refine wp_bind (wp_call hj₁ (fun _ => hj₂) (fun _ _ => ?_) (fun _ => trivial)
      fun _ _ => trivial)
    refine keeps_bind (fun _ _ _ => trivial) hj₂ trivial haudit fun _ h₃ hj₃ _ => ?_
    exact wp_fail hj₃ trivial

theorem Ready.announce (hr : Ready t h) (hj : Journal h) :
    Journal (h.push (.announced (t.current .deploying))) ∧
      Ready t (h.push (.announced (t.current .deploying))) := by
  obtain ⟨⟨ho, hc⟩, hsnap, t', ht', hsnap'⟩ := hr
  obtain ⟨t₁, ht₁, hn, -⟩ := hj.standing _ hc
  refine ⟨hj.announce ⟨ho.notRolled, fun hnew => ?_⟩ ⟨t₁, ht₁, hn, nofun, nofun⟩,
    ⟨⟨fun t'' ht'' => ho.notRolled t'' ((List.mem_cons.1 ht'').resolve_left nofun), ho.backup,
      ho.opened, ho.rolled, ho.phase⟩, rfl⟩, hsnap, t', ht', hsnap'⟩
  exact absurd rfl (hnew _ (mem_of_current hc))

theorem wp_apply (m : Manifest) (hj : Journal h) :
    Wp act Journal (applyTransaction m) (fun _ _ => True) h := by
  unfold applyTransaction
  refine wp_bind ((wp_recover hj).mono fun r h₁ hj₁ hr => ?_)
  cases r with
  | error e => trivial
  | ok u =>
    have hi := hr u rfl
    refine keeps_bind (fun _ _ _ => trivial) hj₁ hi (keeps_currentIsHealthy m)
      fun alreadyHealthy h₂ hj₂ hi₂ => ?_
    refine keeps_bind (fun _ _ _ => trivial) hj₂ hi₂ (keeps_commands stable_idle _)
      fun _ h₃ hj₃ hi₃ => ?_
    split
    · exact wp_pure hj₃ trivial
    · refine keeps_bind (fun _ _ _ => trivial) hj₃ hi₃ (keeps_commands stable_idle _)
        fun _ h₄ hj₄ hi₄ => ?_
      refine wp_bind ((wp_captureBackup m hj₄ hi₄).mono fun r h₅ hj₅ hr => ?_)
      cases r with
      | error e => trivial
      | ok t =>
        obtain ⟨hj₆, hr₆⟩ := (hr t rfl).announce hj₅
        refine wp_bind (wp_call hj₅ (fun _ => hj₆) (fun _ _ => ?_) (fun _ => trivial)
          fun _ _ => trivial)
        have haudit : Keeps (Ready t) (call (.appendAudit "deployment_started" t.transactionId)) :=
          keeps_call stable_ready trivial
        refine keeps_bind (fun _ _ _ => trivial) hj₆ hr₆ haudit fun _ h₇ hj₇ hr₇ => ?_
        refine wp_bind ((wp_install hj₇ hr₇).mono fun r h₈ hj₈ hr => ?_)
        match r with
        | .error e => exact hr.elim
        | .ok (t', none) => exact wp_pure hj₈ trivial
        | .ok (t', some e) => exact wp_abandon e hj₈ hr

theorem wp_explicitRollback (m : Manifest) (hj : Journal h) :
    Wp act Journal (explicitRollback m) (fun _ _ => True) h := by
  unfold explicitRollback
  refine wp_bind (wp_readCurrent hj ?_ fun _ => trivial)
  cases hc : current h.history with
  | none => exact wp_fail hj trivial
  | some c =>
    refine wp_bind (wp_readTransaction hj (fun t ht => ?_) fun _ => trivial)
    simp only
    split
    · exact wp_fail hj trivial
    · refine wp_bind ((ends_rollback hj (hj.resumes hc ht)).mono fun r h₁ hj₁ hr => ?_)
      cases r with
      | error e => trivial
      | ok u =>
        have hj₂ := hr.announce hj₁
        refine wp_bind (wp_call hj₁ (fun _ => hj₂) (fun _ _ => ?_) (fun _ => trivial)
          fun _ _ => trivial)
        exact wp_pure hj₂ trivial

/-! ## Runs -/

/-- The hosts that are found while the worker is invoked again and again, wherever an invocation
stops. -/
inductive Reachable : Host → Prop
  | fresh (services : Services) (volumes : Bool) :
    Reachable { services := services, volumes := volumes }
  | outside {h : Host} (hr : Reachable h) (services : Services) (volumes : Bool) :
    Reachable { h with services := services, volumes := volumes }
  | apply {h h' : Host} (hr : Reachable h) (m : Manifest)
    (hreaches : Reaches act (applyTransaction m) h h') : Reachable h'
  | rollback {h h' : Host} (hr : Reachable h) (m : Manifest)
    (hreaches : Reaches act (explicitRollback m) h h') : Reachable h'

theorem Reachable.journal (hr : Reachable h) : Journal h := by
  induction hr with
  | fresh services volumes => exact journal_fresh services volumes
  | @outside h hr services volumes ih => exact stable_journal h _ (.inl rfl) (fun _ h => h) ih
  | apply hr m hreaches ih => exact (wp_apply m ih).crash hreaches
  | rollback hr m hreaches ih => exact (wp_explicitRollback m ih).crash hreaches

/-- A transaction is recorded as rolled back, in its document or in `CURRENT`. -/
def RolledBack (backup : String) (h : List Event) : Prop :=
  (∃ t, .recorded backup t ∈ h ∧ t.rolledBack = true) ∨
    ∃ c, .announced c ∈ h ∧ c.backupPath = backup ∧ c.status = .rolledBack

theorem Safe.checked {h : List Event} (hs : Safe h) (hc : current h = some c)
    (hst : c.status = .healthy) : Checked c.releaseId h := by
  induction h with
  | nil => cases hc
  | cons e h ih =>
    rcases current_cons hc with rfl | hc
    · have hallowed := hs.1
      simp only [Allowed, hst] at hallowed
      exact hallowed.1.cons nofun
    · refine (ih hs.2 hc).cons fun b he => ?_
      -- an installation step runs under another status
      subst he
      obtain ⟨-, c', t, hc', hdeploying, -⟩ := hs.1
      obtain rfl := Option.some.inj (hc.symm.trans hc')
      rw [hst] at hdeploying
      cases hdeploying

theorem Safe.recorded {h : List Event} (hs : Safe h) (hb : RolledBack b h) :
    ∃ t, .recorded b t ∈ h ∧ t.rolledBack = true := by
  rcases hb with ht | ⟨c, hc, rfl, hst⟩
  · exact ht
  · obtain ⟨later, earlier, rfl⟩ := List.append_of_mem hc
    have hallowed := hs.of_append.1
    simp only [Allowed, hst] at hallowed
    obtain ⟨t, ht, hrolled⟩ := hallowed
    exact ⟨t, List.mem_append_right _ (List.mem_cons_of_mem _ ht), hrolled⟩

/-- A transaction that is rolled back is not rolled forward. -/
theorem Safe.final {later earlier : List Event} (hs : Safe (later ++ earlier))
    (hb : RolledBack b earlier) : .installed b ∉ later ∧ ∀ c, .announced c ∈ later →
      c.backupPath = b → c.status = .rolledBack ∨ c.status = .rollbackFailed := by
  obtain ⟨t, ht, hrolled⟩ := hs.of_append.recorded hb
  have hnot : ∀ es, ¬NotRolled b (es ++ earlier) := fun es hn => by
    have := hn t (List.mem_append_right _ ht)
    rw [hrolled] at this
    cases this
  constructor
  · intro hmem
    obtain ⟨l, r, rfl⟩ := List.append_of_mem hmem
    rw [List.append_assoc] at hs
    exact hnot r hs.of_append.1.1
  · rintro c hmem rfl
    obtain ⟨l, r, rfl⟩ := List.append_of_mem hmem
    rw [List.append_assoc] at hs
    have hallowed : Allowed (r ++ earlier) (.announced c) := hs.of_append.1
    cases hst : c.status with
    | healthy =>
      simp only [Allowed, hst] at hallowed
      exact absurd hallowed.2 (hnot r)
    | deploying =>
      simp only [Allowed, hst] at hallowed
      exact absurd hallowed.1 (hnot r)
    | rolledBack => exact .inl rfl
    | rollbackFailed => exact .inr rfl

namespace Sample

def release : Manifest :=
  ⟨"release-5", "digest"⟩

end Sample

end OpsDeploy
