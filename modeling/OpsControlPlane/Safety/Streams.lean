import OpsControlPlane.Lib.Schedules
import OpsControlPlane.Orchestrator.Stream
import OpsControlPlane.Safety.Caps

/-!
# Accounting of streams

`accounted_iff` says when a stream settles its reservation as it should: whatever the provider
sends and wherever the consumer stops, one transaction of the ledger settles the reservation,
and it completes it only after `[DONE]` with one usage within the reservation. What is retained
for an uncertain outcome covers each usage that was reported if and only if it covers those of
the event at which the stream has failed.
-/

namespace OpsOrchestrator

namespace Hermes

open JsonText Transaction Calls

variable {F : Type} {c : Coding F} {q : Opening}

/-! ## Usage -/

variable {document : Document F} {u : Usage}

theorem usageOf_nonneg (h : usageOf document = .ok (some u)) : 0 ≤ u.1 ∧ 0 ≤ u.2 := by
  unfold usageOf at h
  split at h
  · cases h
  · cases h
  · split at h
    · split_ifs at h with hn
      · obtain rfl := Option.some.inj (Except.ok.inj h)
        exact hn
    · cases h
  · cases h

def reportedUsage (c : Coding F) (e : Bytes) : Option Usage :=
  if e = done then none
  else match c.loads e with
    | some (.obj document) =>
      match usageOf document with
      | .error _ => none
      | .ok usage => usage
    | _ => none

def acceptedUsage (c : Coding F) (limits : StreamLimits) (e : Bytes) : Option Usage :=
  if e = done then none
  else match readChunk c limits e with
    | .error _ => none
    | .ok (_, usage) => usage

def firstUsage (c : Coding F) (limits : StreamLimits) (read : List Bytes) : Option Usage :=
  (read.filterMap (acceptedUsage c limits)).head?

def Accepts (c : Coding F) (limits : StreamLimits) (usage : Option Usage) (e : Bytes) : Prop :=
  e ≠ done ∧ ∃ document observed, readChunk c limits e = .ok (document, observed) ∧
    (observed = none ∨ observed = usage)

variable {observed usage : Option Usage} {limits : StreamLimits} {e : Bytes}

theorem readChunk_ok (h : readChunk c limits e = .ok (document, observed)) :
    strictUpstreamJson c limits e = .ok document ∧ usageOf document = .ok observed := by
  unfold readChunk at h
  cases hjson : strictUpstreamJson c limits e with
  | error x => simp [hjson, bind, Except.bind] at h
  | ok d =>
    cases hvalid : validateStreamChunk c d with
    | error x => simp [hjson, hvalid, bind, Except.bind] at h
    | ok u =>
      cases husage : usageOf d with
      | error x => simp [hjson, hvalid, husage, bind, Except.bind] at h
      | ok u =>
        simp only [hjson, hvalid, husage, bind, Except.bind, pure, Except.pure,
          Except.ok.injEq, Prod.mk.injEq] at h
        obtain ⟨rfl, rfl⟩ := h
        exact ⟨rfl, husage⟩

theorem strictUpstreamJson_ok (h : strictUpstreamJson c limits e = .ok document) :
    c.loads e = some (.obj document) := by
  unfold strictUpstreamJson at h
  split at h
  · cases h
  · next value hloads =>
    split_ifs at h
    split at h
    · obtain rfl := Except.ok.inj h
      exact hloads
    · cases h

theorem Accepts.reported (h : Accepts c limits usage e) :
    reportedUsage c e = none ∨ reportedUsage c e = usage := by
  obtain ⟨hdone, document, observed, hread, hobserved⟩ := h
  obtain ⟨hjson, husage⟩ := readChunk_ok hread
  rw [reportedUsage, if_neg hdone, strictUpstreamJson_ok hjson]
  simp only [husage]
  exact hobserved

/-- What was accepted after a usage stays accepted when the stream has learnt one. -/
theorem Accepts.or (h : Accepts c limits usage e) (later : Option Usage) :
    Accepts c limits (usage.or later) e := by
  obtain ⟨hdone, document, observed, hread, hobserved⟩ := h
  refine ⟨hdone, document, observed, hread, ?_⟩
  rcases hobserved with hnone | rfl
  · exact Or.inl hnone
  · cases observed with
    | none => exact Or.inl rfl
    | some u => exact Or.inr rfl

theorem firstUsage_append (limits : StreamLimits) (read : List Bytes) (e : Bytes) :
    firstUsage c limits (read ++ [e]) =
      (firstUsage c limits read).or (acceptedUsage c limits e) := by
  unfold firstUsage
  rw [List.filterMap_append, List.head?_append]
  cases h : acceptedUsage c limits e <;> simp [h]

/-- What was accepted is not negative. -/
theorem firstUsage_nonneg {read : List Bytes} (h : firstUsage c limits read = some u) :
    0 ≤ u.1 ∧ 0 ≤ u.2 := by
  obtain ⟨e, -, he⟩ := List.mem_filterMap.1 (List.mem_of_mem_head? h)
  unfold acceptedUsage at he
  split at he
  · cases he
  · split at he
    · cases he
    · next hread =>
      obtain rfl := he
      exact usageOf_nonneg (readChunk_ok hread).2

theorem observe_ok {usage' : Option Usage} (h : observe usage observed = .ok usage') :
    usage' = usage.or observed ∧ (observed = none ∨ observed = usage') := by
  unfold observe at h
  split at h
  · obtain rfl := Except.ok.inj h
    exact ⟨by simp, Or.inl rfl⟩
  · obtain rfl := Except.ok.inj h
    exact ⟨rfl, Or.inr rfl⟩
  · split_ifs at h with heq
    · obtain rfl := Except.ok.inj h
      exact ⟨rfl, Or.inr (congrArg some heq)⟩

theorem observe_error {e : Exc} (h : observe usage observed = .error e) :
    usage.or observed = usage ∧ e = failure "inconsistent_upstream_usage" := by
  unfold observe at h
  split at h
  · cases h
  · cases h
  · split_ifs at h
    · exact ⟨rfl, (Except.error.inj h).symm⟩

/-! ## Charges -/

def retained (q : Opening) (code : String) (usage : Option Usage) : UncertainArgs :=
  retain q.reservation code (usage.map Prod.fst) (usage.map Prod.snd) (usage.map (usagePrices q))

def charge (q : Opening) (usage : Option Usage) : ℤ :=
  (retained q "" usage).retainedCost

def Fits (q : Opening) (usage : Option Usage) : Prop :=
  (retained q "" usage).Binds

/-- The reservation itself fits the ledger. -/
theorem fits_none : Fits q none := by
  have hstored := q.stored
  simp only [Reservation.Stored, List.forall_mem_cons, InColumn] at hstored
  simp only [Fits, retained, retain, UncertainArgs.Binds, InColumn, Option.map_none,
    Option.getD_none]
  omega

theorem or_of_not_fits (h : ¬ Fits q usage) (later : Option Usage) : usage.or later = usage := by
  cases usage with
  | none => exact absurd fits_none h
  | some u => rfl

theorem estimatedCost_mono {i i' o o' : ℤ} {p : Prices} (hp : 0 ≤ p.1 ∧ 0 ≤ p.2) (hi : i ≤ i')
    (ho : o ≤ o') : estimatedCostMicrousd i o p ≤ estimatedCostMicrousd i' o' p := by
  have hin : i * p.1 ≤ i' * p.1 := mul_le_mul_of_nonneg_right hi hp.1
  have hout : o * p.2 ≤ o' * p.2 := mul_le_mul_of_nonneg_right ho hp.2
  unfold estimatedCostMicrousd
  omega

theorem reserved_le_charge (usage : Option Usage) :
    q.reservation.reservedCostMicrousd ≤ charge q usage := by
  cases usage with
  | none => exact le_refl _
  | some u => exact le_max_left _ _

/-- What is retained covers the usage. -/
theorem cost_le_charge {p : Prices} (hp : q.prices.resolve (max 1 u.1) = .ok p) :
    estimatedCostMicrousd u.1 u.2 p ≤ charge q (some u) := by
  have hprices : usagePrices q u = p := by
    rw [usagePrices, hp]
  have hcost : estimatedCostMicrousd u.1 u.2 p ≤ estimatedCostMicrousd
      (max q.reservation.reservedInputTokens u.1) (max q.reservation.reservedOutputTokens u.2) p :=
    estimatedCost_mono (q.prices.nonneg hp) (le_max_right _ _) (le_max_right _ _)
  refine hcost.trans ?_
  simp only [charge, retained, retain, Option.map_some, Option.getD_some, hprices]
  exact le_max_right _ _

/-! ## Ledgers that do not fail -/

/-- The ledger has not failed: it has only refused numbers that its columns do not hold. -/
def Served (said : List (Prog.Said ledgerInterface)) : Prop :=
  ∀ t e, (⟨.tx t, .error e⟩ : Prog.Said ledgerInterface) ∈ said → e = overflowError ∧ ¬ t.Binds

def Committed : Prog.Said ledgerInterface → Bool
  | ⟨.tx _, .ok _⟩ => true
  | _ => false

section trails

variable {α β : Type} {h : List (Prog.Said ledgerInterface)} {lines : List Line} {s : Stream}

/-- A transaction commits if its numbers can be bound. -/
def Answered : Prog.Said ledgerInterface → Prop
  | ⟨.tx t, .error e⟩ => e = overflowError ∧ ¬ t.Binds
  | ⟨.tx t, .ok _⟩ => t.Binds
  | _ => True

/-- If the ledger does not fail, the program returns, and returns what `Q` says. -/
abbrev Does (p : LedgerMethod α) (Q : List (Prog.Said ledgerInterface) → α → Prop)
    (h : List (Prog.Said ledgerInterface)) : Prop :=
  p.Trail (fun _ _ => True) (fun h' a => (∀ x ∈ h', Answered x) → Q h' a)
    (fun h' _ => ¬∀ x ∈ h', Answered x) h

variable {Q R : List (Prog.Said ledgerInterface) → α → Prop}

theorem does_of_not_answered (p : LedgerMethod α) (hnot : ¬ ∀ x ∈ h, Answered x) : Does p Q h := by
  induction p generalizing h with
  | ret a => exact fun hall => absurd hall hnot
  | fail e => exact hnot
  | ask o k ih =>
    refine ⟨trivial, fun x => ih x fun hall => hnot fun y hy => ?_⟩
    exact hall y (List.mem_append_left _ hy)

variable {p : LedgerMethod α}

theorem Does.bind {f : α → LedgerMethod β} {Q : List (Prog.Said ledgerInterface) → β → Prop}
    (hp : Does p R h) (hf : ∀ h' a, R h' a → Does (f a) Q h') : Does (p >>= f) Q h := by
  refine (Prog.trail_bind p f h).2 (hp.mono (fun _ _ h => h) (fun h' a ha => ?_) fun _ _ h => h)
  by_cases hall : ∀ x ∈ h', Answered x
  · exact hf h' a (ha hall)
  · exact does_of_not_answered _ hall

theorem Does.mono (hp : Does p R h) (hQ : ∀ h' a, R h' a → Q h' a) : Does p Q h :=
  Prog.Trail.mono (fun _ _ h => h)
    (fun h' a (ha : (∀ x ∈ h', Answered x) → R h' a) hall => hQ h' a (ha hall)) (fun _ _ h => h) hp

theorem does_commitTx (t : LedgerTx) (h : List (Prog.Said ledgerInterface)) :
    Does (commitTx t).attempt (fun h' r =>
      (t.Binds ∧ ∃ v, r = .ok v ∧ h' = h ++ [⟨.tx t, .ok v⟩]) ∨
      ¬ t.Binds ∧ r = .error overflowError ∧ h' = h ++ [⟨.tx t, .error overflowError⟩]) h := by
  refine ⟨trivial, fun x => ?_⟩
  rcases (x : Except Exc t.Reply) with e | v
  · intro hall
    obtain ⟨rfl, hbinds⟩ : e = overflowError ∧ ¬ t.Binds :=
      hall _ (List.mem_append_right _ (List.mem_singleton.2 rfl))
    exact Or.inr ⟨hbinds, rfl, rfl⟩
  · intro hall
    exact Or.inl ⟨hall _ (List.mem_append_right _ (List.mem_singleton.2 rfl)), v, rfl, rfl⟩

theorem committed_append_ok {t : LedgerTx} {v : t.Reply} (hnone : h.filter Committed = []) :
    (h ++ [(⟨.tx t, .ok v⟩ : Prog.Said ledgerInterface)]).filter Committed =
      [⟨.tx t, .ok v⟩] := by
  rw [List.filter_append, hnone, List.nil_append, List.filter_cons_of_pos rfl, List.filter_nil]

theorem committed_append_error {t : LedgerTx} {e : Exc} (hnone : h.filter Committed = []) :
    (h ++ [(⟨.tx t, .error e⟩ : Prog.Said ledgerInterface)]).filter Committed = [] := by
  rw [List.filter_append, hnone, List.nil_append, List.filter_cons_of_neg Bool.false_ne_true,
    List.filter_nil]

/-! ## Settlements -/

/-- The reservation is retained after the usage. -/
def Marks (q : Opening) (usage : Option Usage) (a : Prog.Said ledgerInterface) : Prop :=
  ∃ code, a = ⟨.tx (.markUncertain (retained q code usage)), .ok ()⟩

def completion (q : Opening) (u : Usage) (prices : Prices) : CompleteArgs :=
  ⟨q.reservation.callId, u.1, u.2, estimatedCostMicrousd u.1 u.2 prices⟩

def Completes (q : Opening) (usage : Option Usage) (a : Prog.Said ledgerInterface) : Prop :=
  ∃ u prices, usage = some u ∧ u.1 ≤ q.reservation.reservedInputTokens ∧
    u.2 ≤ q.reservation.reservedOutputTokens ∧ q.prices.resolve (max 1 u.1) = .ok prices ∧
    a = ⟨.tx (.complete (completion q u prices)), .ok ()⟩

theorem uncertain_does (code : String) (usage : Option Usage) (hs : s.finalized = false)
    (hnone : h.filter Committed = []) :
    Does (uncertain q code usage s) (fun h' r =>
      (r = (.ok true, { s with finalized := true }) ∧ Fits q usage ∧
        ∃ a, h'.filter Committed = [a] ∧ Marks q usage a) ∨
      r = (.error overflowError, s) ∧ ¬ Fits q usage ∧ h'.filter Committed = []) h := by
  unfold uncertain
  rw [if_neg (by simp [hs])]
  refine (does_commitTx _ h).bind fun h' r hr => ?_
  rcases hr with ⟨hbinds, v, rfl, rfl⟩ | ⟨hbinds, rfl, rfl⟩
  · exact fun _ => Or.inl ⟨rfl, hbinds, _, committed_append_ok hnone, code, rfl⟩
  · exact fun _ => Or.inr ⟨rfl, hbinds, committed_append_error hnone⟩

theorem complete_does {u : Usage} (hu : 0 ≤ u.1 ∧ 0 ≤ u.2) (prices : Prices)
    (hnone : h.filter Committed = []) :
    Does (complete q.reservation u.1 u.2 prices).attempt (fun h' r =>
      ((completion q u prices).Binds ∧ (∃ v, r = .ok v) ∧
        h'.filter Committed = [⟨.tx (.complete (completion q u prices)), .ok ()⟩]) ∨
      ¬ (completion q u prices).Binds ∧ r = .error overflowError ∧
        h'.filter Committed = []) h := by
  unfold complete
  rw [if_neg (by omega)]
  refine ⟨trivial, fun x => ?_⟩
  rcases (x : Except Exc Unit) with e | v
  · intro hall
    obtain ⟨rfl, hbinds⟩ : e = overflowError ∧ ¬ (completion q u prices).Binds :=
      hall _ (List.mem_append_right _ (List.mem_singleton.2 rfl))
    exact Or.inr ⟨hbinds, rfl, committed_append_error hnone⟩
  · intro hall
    have hbinds : (completion q u prices).Binds :=
      hall _ (List.mem_append_right _ (List.mem_singleton.2 rfl))
    exact Or.inl ⟨hbinds, ⟨_, rfl⟩, committed_append_ok hnone⟩

/-! ## Failures of events -/

theorem failure_ne_stop (message : String) : (failure message).typeName ≠ "StopIteration" := by
  intro h
  have hname : "UpstreamFailure" = "StopIteration" := h
  exact absurd hname (by decide)

/-- What the computation raises is no `StopIteration`. -/
def Fails (r : Except Exc α) : Prop :=
  ∀ e, r = .error e → e.typeName ≠ "StopIteration"

@[simp] theorem fails_ok (a : α) : Fails (.ok a) := by
  intro e he
  cases he

@[simp] theorem fails_failure (message : String) :
    Fails (.error (failure message) : Except Exc α) := by
  intro e he
  obtain rfl := Except.error.inj he
  exact failure_ne_stop message

@[simp] theorem fails_require (p : Prop) [Decidable p] (message : String) :
    Fails (require p message) := by
  unfold require
  split_ifs <;> simp

@[simp] theorem fails_bind {r : Except Exc α} {f : α → Except Exc β} :
    Fails (r >>= f) ↔ Fails r ∧ ∀ a, r = .ok a → Fails (f a) := by
  cases r with
  | error x => exact ⟨fun h => ⟨fun e he => h e (congrArg _ (Except.error.inj he)), nofun⟩,
      fun h e he => h.1 e (congrArg _ (Except.error.inj he))⟩
  | ok a =>
    refine ⟨fun h => ⟨fails_ok a, fun b hb => ?_⟩, fun h => h.2 a rfl⟩
    obtain rfl := Except.ok.inj hb
    exact h

/-! Each check of a member fails as the others do. -/

@[simp] theorem fails_strictUpstreamJson (limits : StreamLimits) (data : Bytes) :
    Fails (strictUpstreamJson c limits data) := by
  unfold strictUpstreamJson
  split
  · simp
  · split_ifs
    · split <;> simp
    · simp

@[simp] theorem fails_usageOf (document : Document F) : Fails (usageOf document) := by
  unfold usageOf
  split
  · simp
  · simp
  · split
    · split_ifs <;> simp
    · simp
  · simp

@[simp] theorem fails_optionalText (n : ℕ) (message : String) (v : Option (Json F)) :
    Fails (optionalText n message v) := by
  unfold optionalText
  split <;> simp

@[simp] theorem fails_optionalWord (word message : String) (v : Option (Json F)) :
    Fails (optionalWord word message v) := by
  unfold optionalWord
  split <;> simp

@[simp] theorem fails_nullableText (message : String) (v : Option (Json F)) :
    Fails (nullableText message v) := by
  unfold nullableText
  split <;> simp

@[simp] theorem fails_validateFunction (v : Option (Json F)) : Fails (validateFunction v) := by
  have harguments : ∀ v : Option (Json F), Fails (validateArguments v) := by
    intro v
    unfold validateArguments
    split <;> simp
  unfold validateFunction
  split <;> simp [harguments]

@[simp] theorem fails_validateToolCalls (calls : List (Json F)) (seen : List ℤ) :
    Fails (validateToolCalls calls seen) := by
  induction calls generalizing seen with
  | nil => exact fails_ok _
  | cons call calls ih =>
    cases call with
    | obj call =>
      refine fails_bind.2 ⟨fails_require _ _, fun _ _ => ?_⟩
      split <;> simp [ih]
    | _ => exact fails_failure _

@[simp] theorem fails_validateDelta (v : Option (Json F)) : Fails (validateDelta v) := by
  have hcalls : ∀ v : Option (Json F), Fails (validateToolCallDeltas v) := by
    intro v
    unfold validateToolCallDeltas
    split <;> simp
  unfold validateDelta
  split <;> simp [hcalls]

@[simp] theorem fails_validateFinishReason (v : Option (Json F)) :
    Fails (validateFinishReason v) := by
  have htype : ∀ message : String,
      Fails (.error (.other "TypeError" message) : Except Exc Unit) := by
    intro message e he hstop
    obtain rfl := Except.error.inj he
    have hname : "TypeError" = "StopIteration" := hstop
    exact absurd hname (by decide)
  unfold validateFinishReason
  split <;> simp [htype]

@[simp] theorem fails_validateChoice (choice : Document F) : Fails (validateChoice c choice) := by
  have hlogprobs : ∀ v : Option (Json F), Fails (validateLogprobs v) := by
    intro v
    unfold validateLogprobs
    split <;> simp
  simp [validateChoice, hlogprobs]

theorem readChunk_error {limits : StreamLimits} {e : Bytes} {x : Exc}
    (h : readChunk c limits e = .error x) : x.typeName ≠ "StopIteration" := by
  have hchunk : ∀ document : Document F, Fails (validateStreamChunk c document) := by
    intro document
    unfold validateStreamChunk
    split <;> simp
  have hread : Fails (readChunk c limits e) :=
    fails_bind.2 ⟨fails_strictUpstreamJson limits e, fun document _ => fails_bind.2
      ⟨hchunk document, fun _ _ => fails_bind.2 ⟨fails_usageOf document, fun _ _ => fails_ok _⟩⟩⟩
  exact hread x h

/-! ## Methods -/

/-- The events that were read from the lines, with the lines that are left and the number of
bytes that were read. -/
inductive Reads (c : Coding F) (limits : StreamLimits) (lines : List Line) :
    List Bytes → List Line → ℕ → Prop
  | start : Reads c limits lines [] lines 0
  | event {read : List Bytes} {left left' : List Line} {n n' : ℕ} {e : Bytes}
    (h : Reads c limits lines read left n)
    (he : readEventData c limits left [] n = (.ok e, left', n')) :
    Reads c limits lines (read ++ [e]) left' n'
  | fail {read : List Bytes} {left left' : List Line} {n n' : ℕ} {x : Exc}
    (h : Reads c limits lines read left n)
    (hx : readEventData c limits left [] n = (.error x, left', n')) :
    Reads c limits lines read left' n'

def passed (c : Coding F) (q : Opening) (read : List Bytes) : Stream :=
  read.foldl (fun s e => if e = done then s else (forward c q e s).2) { upstream := [] }

theorem passed_append (read : List Bytes) (e : Bytes) : passed c q (read ++ [e]) =
    if e = done then passed c q read else (forward c q e (passed c q read)).2 := by
  rw [passed, List.foldl_append]
  rfl

structure Reading (c : Coding F) (q : Opening) (lines : List Line) (read : List Bytes)
    (s : Stream) : Prop where
  reads : Reads c q.limits lines read s.upstream s.bytesRead
  usage : s.usage = firstUsage c q.limits read

/-- What the completion of the reservation asks for: the last event can be passed on, and the
usage is within the reservation and fits the ledger. -/
structure Concludes (c : Coding F) (q : Opening) (read es : List Bytes) (u : Usage)
    (prices : Prices) : Prop where
  ends : read = es ++ [done]
  room : (passed c q es).bytesEmitted + (frame done).length ≤ q.limits.maxResponseBytes
  usage : firstUsage c q.limits read = some u
  within : u.1 ≤ q.reservation.reservedInputTokens ∧ u.2 ≤ q.reservation.reservedOutputTokens
  resolves : q.prices.resolve (max 1 u.1) = .ok prices
  binds : (completion q u prices).Binds

/-- The reservation can be completed after events that were accepted with its usage. -/
structure Finishes (c : Coding F) (q : Opening) (read es : List Bytes) (u : Usage)
    (prices : Prices) : Prop extends Concludes c q read es u prices where
  accepted : ∀ e ∈ es, Accepts c q.limits (some u) e

/-- `Finishes` with some usage and prices. -/
def Finishable (c : Coding F) (q : Opening) (read : List Bytes) : Prop :=
  ∃ es u prices, Finishes c q read es u prices

/-- No transaction has committed. Every event was accepted, or what is retained does not fit
the ledger. -/
structure Unsettled (c : Coding F) (q : Opening) (lines : List Line)
    (h : List (Prog.Said ledgerInterface)) (s : Stream) (read : List Bytes) : Prop where
  reading : Reading c q lines read s
  emitted : s.bytesEmitted = (passed c q read).bytesEmitted
  said : h.filter Committed = []
  finalized : s.finalized = false
  unfinished : ¬ Finishable c q read
  waits : (s.closed = false ∧ ∀ e ∈ read, Accepts c q.limits s.usage e) ∨ ¬ Fits q s.usage

/-- One transaction has settled the reservation. It has completed it after the last event. -/
structure Settled (c : Coding F) (q : Opening) (lines : List Line)
    (h : List (Prog.Said ledgerInterface)) (s : Stream) (read : List Bytes) : Prop where
  reading : Reading c q lines read s
  finalized : s.finalized = true
  said : ∃ a, h.filter Committed = [a] ∧ (Marks q s.usage a ∧ Fits q s.usage ∨
    ∃ es u prices, Concludes c q read es u prices ∧
      a = ⟨.tx (.complete (completion q u prices)), .ok ()⟩ ∧
      ((∀ e ∈ es, Accepts c q.limits (some u) e) ∨ ¬ Fits q s.usage))

def Sound (c : Coding F) (q : Opening) (lines : List Line)
    (h : List (Prog.Said ledgerInterface)) (s : Stream) : Prop :=
  ∃ read, Unsettled c q lines h s read ∨ s.closed = true ∧ Settled c q lines h s read

/-- What a failed event leaves: the stream is settled or not, and not closed. -/
def Failed (c : Coding F) (q : Opening) (lines : List Line)
    (h : List (Prog.Said ledgerInterface)) (e : Exc) (s : Stream) : Prop :=
  s.closed = false ∧ ∃ read, Reading c q lines read s ∧
    ((s.finalized = true ∧ e.typeName ≠ "StopIteration" ∧
        ∃ a, h.filter Committed = [a] ∧ Marks q s.usage a ∧ Fits q s.usage) ∨
      (s.finalized = false ∧ s.bytesEmitted = (passed c q read).bytesEmitted ∧
        h.filter Committed = [] ∧ ¬ Finishable c q read ∧ (e.typeName = "StopIteration" →
          (∀ e ∈ read, Accepts c q.limits s.usage e) ∨ ¬ Fits q s.usage)))

variable {read : List Bytes}

theorem not_finishable_append {e : Bytes} (he : e ≠ done) : ¬ Finishable c q (read ++ [e]) := by
  rintro ⟨es, u, prices, hfinishes⟩
  exact he (List.singleton_inj.1 (List.append_inj' hfinishes.ends rfl).2)

theorem finishes_append {es : List Bytes} (h : Finishable c q (es ++ [done])) :
    ∃ u prices, Finishes c q (es ++ [done]) es u prices := by
  obtain ⟨es', u, prices, hfinishes⟩ := h
  obtain rfl := (List.append_inj' hfinishes.ends rfl).1
  exact ⟨u, prices, hfinishes⟩

/-- After accepted events the last one is still to come. -/
theorem not_finishable (haccepted : ∀ e ∈ read, Accepts c q.limits usage e) :
    ¬ Finishable c q read := by
  rintro ⟨es, u, prices, hfinishes⟩
  have hdone : done ∈ read := by
    rw [hfinishes.ends]
    exact List.mem_append_right _ (List.mem_singleton.2 rfl)
  exact (haccepted done hdone).1 rfl

/-! ### Events -/

/-- An event changes the usage and the emitted bytes only. -/
theorem forward_frame {data : Bytes} (hdata : data ≠ done) : ∃ n, (forward c q data s).2 =
    { s with usage := s.usage.or (acceptedUsage c q.limits data), bytesEmitted := n } := by
  unfold forward
  split
  · next e he =>
    rw [acceptedUsage, if_neg hdata, he, Option.or_none]
    exact ⟨s.bytesEmitted, rfl⟩
  · next document observed hread =>
    rw [acceptedUsage, if_neg hdata, hread]
    split
    · next e he =>
      rw [(observe_error he).1]
      exact ⟨s.bytesEmitted, rfl⟩
    · next usage hobserve =>
      rw [(observe_ok hobserve).1]
      split
      · exact ⟨s.bytesEmitted, rfl⟩
      · unfold emit
        split_ifs
        · exact ⟨_, rfl⟩
        · exact ⟨_, rfl⟩

theorem forward_emitted {s' : Stream} (data : Bytes) (husage : s.usage = s'.usage)
    (hemitted : s.bytesEmitted = s'.bytesEmitted) :
    (forward c q data s).2.bytesEmitted = (forward c q data s').2.bytesEmitted := by
  unfold forward
  rw [husage]
  split
  · exact hemitted
  · split
    · exact hemitted
    · split
      · exact hemitted
      · unfold emit
        rw [hemitted]
        split_ifs <;> rfl

theorem forward_ok {data o : Bytes} (hdata : data ≠ done) (h : (forward c q data s).1 = .ok o) :
    Accepts c q.limits (forward c q data s).2.usage data := by
  obtain ⟨n, hframe⟩ := forward_frame (c := c) (q := q) (s := s) hdata
  unfold forward at h
  split at h
  · cases h
  · next document observed hread =>
    split at h
    · cases h
    · next usage hobserve =>
      obtain ⟨rfl, hobserved⟩ := observe_ok hobserve
      refine ⟨hdata, document, observed, hread, ?_⟩
      rwa [hframe, acceptedUsage, if_neg hdata, hread]

theorem forward_error {data : Bytes} : Fails (forward c q data s).1 := by
  unfold forward
  split
  · next e he =>
    intro x hx
    obtain rfl := Except.error.inj hx
    exact readChunk_error he
  · split
    · next e he =>
      obtain ⟨-, rfl⟩ := observe_error he
      exact fails_failure _
    · split
      · intro x hx
        obtain rfl := Except.error.inj hx
        decide
      · unfold emit
        split_ifs <;> simp

/-- The usage of the events is the first that was accepted. -/
theorem passed_usage (read : List Bytes) :
    (passed c q read).usage = firstUsage c q.limits read := by
  induction read using List.reverseRecOn with
  | nil => rfl
  | append_singleton read e ih =>
    rw [passed_append, firstUsage_append, ← ih]
    split_ifs with hdone
    · rw [acceptedUsage, if_pos hdone, Option.or_none]
    · obtain ⟨n, hframe⟩ := forward_frame (c := c) (q := q) (s := passed c q read) hdone
      rw [hframe]

/-! ### Methods -/

theorem finish_does {es : List Bytes} (hr : Reading c q lines (es ++ [done]) s)
    (hs : s.finalized = false) (hnone : h.filter Committed = [])
    (hroom : (passed c q es).bytesEmitted + (frame done).length ≤ q.limits.maxResponseBytes) :
    Does (finish q s) (fun h' r =>
      (r.2 = { s with finalized := true } ∧ Fails r.1 ∧ ∃ a, h'.filter Committed = [a] ∧
        (Marks q s.usage a ∧ Fits q s.usage ∨ r.1 = .ok () ∧ ∃ u prices,
          Concludes c q (es ++ [done]) es u prices ∧ s.usage = some u ∧
          a = ⟨.tx (.complete (completion q u prices)), .ok ()⟩)) ∨
      r.2 = s ∧ h'.filter Committed = [] ∧ ¬ Finishable c q (es ++ [done]) ∧
        ∃ e, r.1 = .error e ∧ e.typeName ≠ "StopIteration") h := by
  have hfinishes : Finishable c q (es ++ [done]) → ∃ u prices,
      s.usage = some u ∧ Concludes c q (es ++ [done]) es u prices := by
    intro hfinishable
    obtain ⟨u, prices, hfinishes⟩ := finishes_append hfinishable
    exact ⟨u, prices, hr.usage.trans hfinishes.usage, hfinishes.toConcludes⟩
  have hfirst := hr.usage
  unfold finish
  cases husage : s.usage with
  | none =>
    refine (uncertain_does "usage_missing" none hs hnone).bind fun h' r hmark => ?_
    rcases hmark with ⟨rfl, hfits, a, ha, hmarks⟩ | ⟨-, hfits, -⟩
    · exact fun _ => Or.inl ⟨by simp [husage], fails_ok _, a, ha, Or.inl ⟨hmarks, hfits⟩⟩
    · exact absurd fits_none hfits
  | some u =>
    rw [husage] at hfirst
    have hnonneg := firstUsage_nonneg hfirst.symm
    simp only
    split_ifs with hover
    · refine (uncertain_does _ (some u) hs hnone).bind fun h' r hmark => ?_
      rcases hmark with ⟨rfl, hfits, a, ha, hmarks⟩ | ⟨rfl, -, hnone'⟩
      · exact fun _ => Or.inl ⟨by simp [husage], fails_failure _, a, ha, Or.inl ⟨hmarks, hfits⟩⟩
      · refine fun _ => Or.inr ⟨rfl, hnone', fun hfinishable => ?_, _, rfl, by decide⟩
        obtain ⟨v, prices, hv, hconcludes⟩ := hfinishes hfinishable
        obtain rfl := Option.some.inj (husage.symm.trans hv)
        have hwithin := hconcludes.within
        omega
    · obtain ⟨hin, hout⟩ := not_or.1 hover
      split
      · next e he =>
        refine fun _ => Or.inr ⟨rfl, hnone, fun hfinishable => ?_, e, rfl, ?_⟩
        · obtain ⟨v, prices, hv, hconcludes⟩ := hfinishes hfinishable
          obtain rfl := Option.some.inj (husage.symm.trans hv)
          cases he.symm.trans hconcludes.resolves
        · rcases q.prices.raises he with hname | hname <;> rw [hname] <;> decide
      · next prices hprices =>
        refine (complete_does hnonneg prices hnone).bind fun h' r hcomplete => ?_
        rcases hcomplete with ⟨hbinds, ⟨v, rfl⟩, ha⟩ | ⟨hbinds, rfl, hnone'⟩
        · exact fun _ => Or.inl ⟨by simp, fails_ok _, _, ha, Or.inr ⟨rfl, u, prices,
            ⟨rfl, hroom, hfirst.symm, ⟨not_lt.1 hin, not_lt.1 hout⟩, hprices, hbinds⟩, rfl, rfl⟩⟩
        · refine fun _ => Or.inr ⟨rfl, hnone', fun hfinishable => ?_, overflowError, rfl, by decide⟩
          obtain ⟨v, prices', hv, hconcludes⟩ := hfinishes hfinishable
          obtain rfl := Option.some.inj (husage.symm.trans hv)
          obtain rfl := Except.ok.inj (hprices.symm.trans hconcludes.resolves)
          exact hbinds hconcludes.binds

theorem close_settled (hs : s.finalized = true) : Does (close q s) (fun h' r =>
    r = (.ok (), { s with closed := true }) ∧ h' = h) h := by
  unfold close
  by_cases hclosed : s.closed = true
  · rw [if_pos hclosed]
    exact fun _ => ⟨by rw [← hclosed], rfl⟩
  · rw [if_neg hclosed, if_pos hs]
    exact fun _ => ⟨rfl, rfl⟩

theorem close_does (hsound : Sound c q lines h s) :
    Does (close q s) (fun h' r => Sound c q lines h' r.2 ∧ r.2.closed = true) h := by
  obtain ⟨read, hpending | ⟨hclosed, hsettled⟩⟩ := hsound
  · unfold close
    by_cases hclosed : s.closed = true
    · rw [if_pos hclosed]
      exact fun _ => ⟨⟨read, Or.inl hpending⟩, hclosed⟩
    rw [if_neg hclosed, if_neg (by simp [hpending.finalized])]
    have hreading : ∀ {b : Bool},
      Reading c q lines read { s with finalized := b, closed := true } :=
      ⟨hpending.reading.reads, hpending.reading.usage⟩
    refine (uncertain_does (s := { s with closed := true }) _ _ hpending.finalized
      hpending.said).bind fun h' r hmark => ?_
    rcases hmark with ⟨rfl, hfits, a, ha, hmarks⟩ | ⟨rfl, hfits, hnone⟩
    · exact fun _ => ⟨⟨read, Or.inr ⟨rfl, hreading, rfl, a, ha, Or.inl ⟨hmarks, hfits⟩⟩⟩, rfl⟩
    · exact fun _ => ⟨⟨read, Or.inl ⟨hreading, hpending.emitted, hnone, hpending.finalized,
        hpending.unfinished, Or.inr hfits⟩⟩, rfl⟩
  · refine (close_settled hsettled.finalized).mono fun h' r hr => ?_
    obtain ⟨rfl, rfl⟩ := hr
    exact ⟨⟨read, Or.inr ⟨rfl, ⟨hsettled.reading.reads, hsettled.reading.usage⟩,
      hsettled.finalized, hsettled.said⟩⟩, rfl⟩

/-- What the body of `__next__` leads to: it goes on, it is over, or it has failed. -/
def Outcome (c : Coding F) (q : Opening) (lines : List Line)
    (h : List (Prog.Said ledgerInterface)) (r : Except Exc Bytes × Stream) : Prop :=
  (∃ o, r.1 = .ok o) ∧ Sound c q lines h r.2 ∨ ∃ e, r.1 = .error e ∧ Failed c q lines h e r.2

theorem conclude_does {es : List Bytes} (hr : Reading c q lines (es ++ [done]) s)
    (hemitted : s.bytesEmitted = (passed c q es).bytesEmitted) (hclosed : s.closed = false)
    (hs : s.finalized = false) (hnone : h.filter Committed = [])
    (haccepted : (∀ e ∈ es, Accepts c q.limits s.usage e) ∨ ¬ Fits q s.usage) :
    Does (conclude q s) (Outcome c q lines) h := by
  have hpassed : s.bytesEmitted = (passed c q (es ++ [done])).bytesEmitted := by
    rw [passed_append, if_pos rfl, hemitted]
  unfold conclude
  split_ifs with hroom
  · refine fun _ => Or.inr ⟨_, rfl, hclosed, _, hr, Or.inr ⟨hs, hpassed, hnone, fun h => ?_,
      fun hstop => absurd hstop (failure_ne_stop _)⟩⟩
    obtain ⟨u, prices, hfinishes⟩ := finishes_append h
    have hfits := hfinishes.room
    omega
  · refine (finish_does hr hs hnone (by omega)).bind fun h' r hfinish => ?_
    obtain ⟨r, s'⟩ := r
    rcases hfinish with ⟨rfl, hfails, a, ha, hsettles⟩ | ⟨rfl, hnone', hnot, e, rfl, hname⟩
    · cases r with
      | error e =>
        rcases hsettles with ⟨hmarks, hfits⟩ | ⟨hok, -⟩
        · exact fun _ => Or.inr ⟨e, rfl, hclosed, _, ⟨hr.reads, hr.usage⟩,
            Or.inl ⟨rfl, hfails e rfl, a, ha, hmarks, hfits⟩⟩
        · cases hok
      | ok u =>
        refine (close_settled (s := { s with finalized := true }) rfl).bind fun h' r hclose => ?_
        obtain ⟨rfl, rfl⟩ := hclose
        refine fun _ => Or.inl ⟨⟨_, rfl⟩, _, Or.inr ⟨rfl, ⟨hr.reads, hr.usage⟩, rfl, a, ha, ?_⟩⟩
        rcases hsettles with hmarks | ⟨-, u, prices, hconcludes, husage, rfl⟩
        · exact Or.inl hmarks
        · rw [husage] at haccepted
          exact Or.inr ⟨es, u, prices, hconcludes, rfl, by rwa [husage]⟩
    · exact fun _ => Or.inr ⟨e, rfl, hclosed, _, hr,
        Or.inr ⟨hs, hpassed, hnone', hnot, fun hstop => absurd hstop hname⟩⟩

theorem forward_cases {data : Bytes} (hdata : data ≠ done) (hclosed : s.closed = false)
    (hr : Reads c q.limits lines (read ++ [data]) s.upstream s.bytesRead)
    (husage : s.usage = firstUsage c q.limits read)
    (hemitted : s.bytesEmitted = (passed c q read).bytesEmitted) (hs : s.finalized = false)
    (hnone : h.filter Committed = [])
    (hwaits : (∀ e ∈ read, Accepts c q.limits s.usage e) ∨ ¬ Fits q s.usage) :
    Outcome c q lines h (forward c q data s) := by
  have hnot : ¬ Finishable c q (read ++ [data]) := not_finishable_append hdata
  have hpassed : (forward c q data s).2.bytesEmitted =
      (passed c q (read ++ [data])).bytesEmitted := by
    rw [passed_append, if_neg hdata]
    exact forward_emitted data (husage.trans (passed_usage read).symm) hemitted
  have hok := fun o => forward_ok (c := c) (q := q) (s := s) (o := o) hdata
  have hfails : Fails (forward c q data s).1 := forward_error
  obtain ⟨n, hframe⟩ := forward_frame (c := c) (q := q) (s := s) hdata
  generalize forward c q data s = f at hpassed hok hfails hframe ⊢
  obtain ⟨r, s'⟩ := f
  obtain rfl : s' = _ := hframe
  have hreading : Reading c q lines (read ++ [data])
      { s with usage := s.usage.or (acceptedUsage c q.limits data), bytesEmitted := n } :=
    ⟨hr, by rw [firstUsage_append, husage]⟩
  cases r with
  | error e =>
    exact Or.inr ⟨e, rfl, hclosed, _, hreading, Or.inr ⟨hs, hpassed, hnone, hnot,
      fun hstop => absurd hstop (hfails e rfl)⟩⟩
  | ok o =>
    refine Or.inl ⟨⟨o, rfl⟩, _, Or.inl ⟨hreading, hpassed, hnone, hs, hnot, ?_⟩⟩
    rcases hwaits with haccepted | hfits
    · refine Or.inl ⟨hclosed, fun e he => ?_⟩
      rcases List.mem_append.1 he with he | he
      · exact (haccepted e he).or _
      · obtain rfl := List.mem_singleton.1 he
        exact hok o rfl
    · exact Or.inr (by rwa [or_of_not_fits hfits])

theorem advance_does (hclosed : s.closed = false) (hpending : Unsettled c q lines h s read) :
    Does (advance c q s) (Outcome c q lines) h := by
  have hwaits : (∀ e ∈ read, Accepts c q.limits s.usage e) ∨ ¬ Fits q s.usage :=
    hpending.waits.imp_left And.right
  obtain ⟨⟨hreads, husage⟩, hemitted, hnone, hs, hnot, -⟩ := hpending
  unfold advance
  split
  · next e left n he =>
    exact fun _ => Or.inr ⟨e, rfl, hclosed, read, ⟨hreads.fail he, husage⟩,
      Or.inr ⟨hs, hemitted, hnone, hnot, fun _ => hwaits⟩⟩
  · next data left n he =>
    split_ifs with hdone
    · obtain rfl := hdone
      refine conclude_does ⟨hreads.event he, ?_⟩ hemitted hclosed hs hnone hwaits
      rw [firstUsage_append, acceptedUsage, if_pos rfl, Option.or_none]
      exact husage
    · exact fun _ => forward_cases (s := { s with upstream := left, bytesRead := n }) hdone
        hclosed (hreads.event he) husage hemitted hs hnone hwaits

theorem next_does (hsound : Sound c q lines h s) :
    Does (next c q s) (fun h' r => Sound c q lines h' r.2) h := by
  unfold next
  by_cases hclosed : s.closed = true
  · rw [if_pos hclosed]
    exact fun _ => hsound
  rw [if_neg hclosed]
  obtain ⟨read, hpending | ⟨hclosed', -⟩⟩ := hsound
  swap
  · exact absurd hclosed' hclosed
  refine (advance_does (by simpa using hclosed) hpending).bind fun h₁ r hr => ?_
  obtain ⟨r, s₁⟩ := r
  rcases hr with ⟨⟨o, rfl⟩, hsound⟩ | ⟨e, rfl, hclosed₁, read₁, hreading, hfailed⟩
  · exact fun _ => hsound
  simp only
  have hsame : ∀ {b b' : Bool}, Reading c q lines read₁ { s₁ with finalized := b, closed := b' } :=
    ⟨hreading.reads, hreading.usage⟩
  rcases hfailed with ⟨hs₁, hname, hsaid⟩ | ⟨hs₁, hemitted, hnone, hnot, hstop⟩
  · -- the stream has settled before it failed
    obtain ⟨a, ha, hmarks⟩ := hsaid
    rw [if_neg hname]
    have hmarked : Does (uncertain q e.typeName s₁.usage s₁)
        (fun h' r => r = (.ok true, s₁) ∧ h' = h₁) h₁ := by
      unfold uncertain
      rw [if_pos hs₁]
      exact fun _ => ⟨rfl, rfl⟩
    refine hmarked.bind fun h₂ r hr => ?_
    obtain ⟨rfl, rfl⟩ := hr
    refine (close_settled hs₁).bind fun h₃ r hr => ?_
    obtain ⟨rfl, rfl⟩ := hr
    exact fun _ => ⟨read₁, Or.inr ⟨rfl, hsame, hs₁, a, ha, Or.inl hmarks⟩⟩
  split_ifs with hname
  · refine fun _ => ⟨read₁, Or.inl ⟨hreading, hemitted, hnone, hs₁, hnot, ?_⟩⟩
    exact (hstop hname).imp_left fun haccepted => ⟨hclosed₁, haccepted⟩
  · refine (uncertain_does e.typeName s₁.usage hs₁ hnone).bind fun h₂ r hr => ?_
    rcases hr with ⟨rfl, hfits, a, ha, hmarks⟩ | ⟨rfl, hfits, hnone'⟩
    · refine (close_settled (s := { s₁ with finalized := true }) rfl).bind fun h₃ r hr => ?_
      obtain ⟨rfl, rfl⟩ := hr
      exact fun _ => ⟨read₁, Or.inr ⟨rfl, hsame, rfl, a, ha, Or.inl ⟨hmarks, hfits⟩⟩⟩
    · exact fun _ => ⟨read₁, Or.inl ⟨hreading, hemitted, hnone', hs₁, hnot, Or.inr hfits⟩⟩

theorem consume_does (actions : List Action) (hsound : Sound c q lines h s) :
    Does (consume c q actions s)
      (fun h' s' => Sound c q lines h' s' ∧ s'.closed = true) h := by
  induction actions generalizing h s with
  | nil => exact (close_does hsound).bind fun h' r hr => fun _ => hr
  | cons action actions ih =>
    cases action with
    | next => exact (next_does hsound).bind fun h' r hr => ih hr
    | close => exact (close_does hsound).bind fun h' r hr => ih hr.1

end trails

/-! ## Accounting -/

/-- One transaction settles the reservation: it completes it after the last event, with the
one usage that was reported, within the reservation, or it retains at least the reserved cost
and the price of each usage that was reported. -/
def Accounted (c : Coding F) (q : Opening) (read : List Bytes)
    (said : List (Prog.Said ledgerInterface)) : Prop :=
  (∃ a, said.filter Committed = [a] ∧ Completes q (firstUsage c q.limits read) a ∧
    ∃ es, read = es ++ [done] ∧ ∀ e ∈ es, Accepts c q.limits (firstUsage c q.limits read) e) ∨
  ∃ args, said.filter Committed = [⟨.tx (.markUncertain args), .ok ()⟩] ∧
    args.callId = q.reservation.callId ∧
    q.reservation.reservedCostMicrousd ≤ args.retainedCost ∧
    ∀ e ∈ read, ∀ u ∈ reportedUsage c e, ∀ prices,
      q.prices.resolve (max 1 u.1) = .ok prices →
      estimatedCostMicrousd u.1 u.2 prices ≤ args.retainedCost

/-- The price of each usage that was reported, but for the first one that was accepted, is at
most what is retained after the first one. -/
def Covered (c : Coding F) (q : Opening) (read : List Bytes) : Prop :=
  ∀ e ∈ read, ∀ u ∈ reportedUsage c e, firstUsage c q.limits read = some u ∨
    ∀ prices, q.prices.resolve (max 1 u.1) = .ok prices →
      estimatedCostMicrousd u.1 u.2 prices ≤ charge q (firstUsage c q.limits read)

theorem Finishable.covered {read : List Bytes} (h : Finishable c q read) : Covered c q read := by
  obtain ⟨es, u, prices, hfinishes⟩ := h
  intro e he v hv
  rw [hfinishes.ends] at he
  rcases List.mem_append.1 he with he | he
  · rcases (hfinishes.accepted e he).reported with hnone | hsame
    · rw [hnone] at hv
      cases hv
    · exact Or.inl (hfinishes.usage.trans (hsame.symm.trans hv))
  · obtain rfl := List.mem_singleton.1 he
    rw [reportedUsage, if_pos rfl] at hv
    cases hv

theorem Settled.accounted {lines : List Line} {said : List (Prog.Said ledgerInterface)}
    {s : Stream} {read : List Bytes} (h : Settled c q lines said s read) :
    Accounted c q read said ↔ Finishable c q read ∨
      Covered c q read ∧ Fits q (firstUsage c q.limits read) := by
  obtain ⟨a, ha, hsettles⟩ := h.said
  rw [h.reading.usage] at hsettles
  unfold Accounted
  rw [ha]
  rcases hsettles with ⟨⟨code, rfl⟩, hfits⟩ | ⟨es, u, prices, hconcludes, rfl, haccepted⟩
  · constructor
    · rintro (⟨b, hb, ⟨u, prices, -, -, -, -, rfl⟩, -⟩ | ⟨args, hargs, -, -, hcovers⟩)
      · cases hb
      · cases hargs
        exact Or.inr ⟨fun e he u hu => Or.inr (hcovers e he u hu), hfits⟩
    · intro hsettles
      have hcovered : Covered c q read := hsettles.elim Finishable.covered And.left
      refine Or.inr ⟨_, rfl, rfl, reserved_le_charge (q := q) _, fun e he u hu prices hp => ?_⟩
      rcases hcovered e he u hu with hfirst | hcharge
      · rw [hfirst]
        exact cost_le_charge hp
      · exact hcharge prices hp
  · have hcompletes : Completes q (firstUsage c q.limits read)
        ⟨.tx (.complete (completion q u prices)), .ok ()⟩ :=
      ⟨u, prices, hconcludes.usage, hconcludes.within.1, hconcludes.within.2,
        hconcludes.resolves, rfl⟩
    constructor
    · rintro (⟨b, -, -, es', hread, haccepted'⟩ | ⟨args, hargs, -⟩)
      · rw [hconcludes.usage] at haccepted'
        obtain rfl := (List.append_inj' (hconcludes.ends.symm.trans hread) rfl).1
        exact Or.inl ⟨es, u, prices, hconcludes, haccepted'⟩
      · cases hargs
    · intro hsettles
      have haccepted' : ∀ e ∈ es, Accepts c q.limits (some u) e := by
        rcases hsettles with ⟨es', v, prices', hfinishes⟩ | ⟨-, hfits⟩
        · obtain rfl := (List.append_inj' (hconcludes.ends.symm.trans hfinishes.ends) rfl).1
          obtain rfl := Option.some.inj (hconcludes.usage.symm.trans hfinishes.usage)
          exact hfinishes.accepted
        · exact haccepted.resolve_right fun hnot => hnot hfits
      rw [hconcludes.usage] at hcompletes ⊢
      exact Or.inl ⟨_, rfl, hcompletes, es, hconcludes.ends, haccepted'⟩

theorem Unsettled.accounted {lines : List Line} {said : List (Prog.Said ledgerInterface)}
    {s : Stream} {read : List Bytes} (h : Unsettled c q lines said s read)
    (hclosed : s.closed = true) : Accounted c q read said ↔ Finishable c q read ∨
      Covered c q read ∧ Fits q (firstUsage c q.limits read) := by
  have hfits : ¬ Fits q (firstUsage c q.limits read) := by
    rw [← h.reading.usage]
    exact h.waits.resolve_left fun hopen => by rw [hclosed] at hopen; cases hopen.1
  unfold Accounted
  rw [h.said]
  constructor
  · rintro (⟨a, ha, -⟩ | ⟨args, hargs, -⟩)
    · cases ha
    · cases hargs
  · rintro (hfinishable | ⟨-, hyes⟩)
    · exact absurd hfinishable h.unfinished
    · exact absurd hyes hfits

section runs

variable {budgets : List (String × ProviderAccountBudget)} {rows : Ledger}
  {ms : List (Moment (streamSystem c budgets))} {s : State (streamSystem c budgets)}
  {call : Call (streamSystem c budgets)}

/-- What a transaction has written could be bound. -/
theorem answered (hr : Run ⟨rows, []⟩ ms s) (hc : call ∈ s.calls) (hserved : Served call.said) :
    ∀ a ∈ call.said, Answered a := by
  rintro ⟨o, a⟩ ha
  cases o with
  | now => trivial
  | uuid4 => trivial
  | tx t =>
    rcases (a : Except Exc t.Reply) with e | v
    · exact hserved t e ha
    · obtain ⟨m, -, x, hperform⟩ := hr.performed rfl hc ha
      exact LedgerTx.run_binds (LedgerTx.commit_ok hperform)

theorem call_does (hr : Run ⟨rows, []⟩ ms s) (hc : call ∈ s.calls) {p : LedgerMethod Stream}
    (hp : call.prog = some p) :
    Does p (fun h' s' => Sound c call.request.opening call.request.upstream h' s' ∧
      s'.closed = true) call.said := by
  have hstart : ∀ r : StreamRequest, Sound c r.opening r.upstream [] { upstream := r.upstream } :=
    fun r => by
      have hnone : ∀ e ∈ [], Accepts c r.opening.limits none e := by simp
      exact ⟨[], Or.inl ⟨⟨.start, rfl⟩, rfl, rfl, rfl, not_finishable hnone,
        Or.inl ⟨rfl, by simp⟩⟩⟩
  exact (hr.trail (P := fun _ _ _ => True)
    (Q := fun (r : StreamRequest) h' (s' : Stream) => (∀ x ∈ h', Answered x) →
      Sound c r.opening r.upstream h' s' ∧ s'.closed = true)
    (E := fun _ h' _ => ¬∀ x ∈ h', Answered x) rfl
    (fun r : StreamRequest => consume_does r.actions (hstart r)) call hc).2 p hp

/-- A stream whose ledger does not fail accounts for its reservation, once its consumer is
done, if and only if it can complete it, or the usages that it has read are covered by what is
retained, and that fits the ledger. -/
theorem accounted_iff (hr : Run ⟨rows, []⟩ ms s) {call : Call (streamSystem c budgets)}
    (hc : call ∈ s.calls) {stream : Stream} (hreturns : call.prog = some (.ret stream))
    (hledger : Served call.said) :
    ∃ read, Reads c call.request.opening.limits call.request.upstream read stream.upstream
        stream.bytesRead ∧
      (Accounted c call.request.opening read call.said ↔ Finishable c call.request.opening read ∨
        Covered c call.request.opening read ∧
          Fits call.request.opening (firstUsage c call.request.opening.limits read)) := by
  obtain ⟨⟨read, hopen | ⟨-, hsettled⟩⟩, hclosed⟩ :=
    call_does hr hc hreturns (answered hr hc hledger)
  · exact ⟨read, hopen.reading.reads, hopen.accounted hclosed⟩
  · exact ⟨read, hsettled.reading.reads, hsettled.accounted⟩

end runs

/-! ## Two usages -/

namespace Sample

open Calendar Text

scoped instance noFloats : FloatText ℤ where
  repr := dumpsInt
  ofText _ := 0

/-- The standard library on ASCII texts. -/
def coding : Coding ℤ where
  loads data := JsonText.loads (ofChars (data.map fun b => Char.ofNat b.toNat))
  dumps v := some ((JsonText.dumps v).map fun ch => UInt8.ofNat ch.toNat)
  decodes _ := true
  isfinite _ := true
  isZero n := n = 0

def dollar : PriceResolver where
  resolve _ := .ok (1000000, 1000000)
  nonneg h := by
    obtain rfl := Except.ok.inj h
    decide
  raises h := by cases h

/-- A stream with a reservation of ten and ten tokens. -/
def opening : Opening where
  reservation := ⟨"call", 10, 10, 20⟩
  limits := ⟨1000, 8, 100⟩
  prices := dollar
  stored := by decide

/-- A usage whose price no column holds. -/
example : ¬ Fits opening (some (1, 2 ^ 63 - 5)) := by
  unfold Fits
  decide

def event (text : String) : List Line :=
  [.ok (ascii ("data: " ++ text) ++ [10]), .ok [10]]

/-- An event that reports a usage of one and one tokens. -/
def small : String :=
  "\x7b\"choices\":[],\"usage\":\x7b\"prompt_tokens\":1,\"completion_tokens\":1\x7d\x7d"

/-- An event that reports a usage of one and a thousand tokens. -/
def large : String :=
  "\x7b\"choices\":[],\"usage\":\x7b\"prompt_tokens\":1,\"completion_tokens\":1000\x7d\x7d"

def rows : Ledger :=
  [(ReserveArgs.mk "call" "route" "mission" (OpsOrchestrator.Sample.provider "a") "model" "chat"
    10 10 none (1000000, 1000000) "ROLE_REASONING" (OpsOrchestrator.Sample.instant 0 0)).row
      (OpsOrchestrator.Sample.instant 0 0)]

/-- A consumer reads twice and closes the stream. -/
def moves (upstream : List Line) : List (Move (streamSystem coding [])) :=
  [.spawn ⟨opening, upstream, [.next, .next]⟩,
    .act 0 ⟨OpsOrchestrator.Sample.instant 0 1, "", none⟩]

/-- The call has read both events, and less is retained than the price of the second. -/
def undercharged (call : Call (streamSystem coding [])) : Bool :=
  match call.prog, call.said with
  | some (.ret stream), [⟨.tx (.markUncertain args), .ok _⟩] =>
    let q := call.request.opening
    decide (readEventData coding q.limits call.request.upstream [] 0 =
        (.ok (ascii small), event large, 72)) &&
      decide (readEventData coding q.limits (event large) [] 72 = (.ok (ascii large), [], 147)) &&
      decide (stream.upstream = [] ∧ stream.bytesRead = 147) &&
      decide (reportedUsage coding (ascii large) = some (1, 1000)) &&
      decide (q.prices.resolve 1 = .ok (1000000, 1000000)) && decide (args.retainedCost < 1001)
  | _, _ => false

theorem two_usages : ∃ s ∈ (State.mk (S := streamSystem coding []) rows []).exec
    (moves (event small ++ event large)), s.calls.any undercharged = true := by
  decide

/-- What is retained does not cover the second usage. -/
theorem usage_uncovered : ∃ (ms : List (Moment (streamSystem coding [])))
    (s : State (streamSystem coding [])) (call : Call (streamSystem coding [])) (stream : Stream)
    (read : List Bytes), Run ⟨rows, []⟩ ms s ∧ call ∈ s.calls ∧
    call.prog = some (.ret stream) ∧ Served call.said ∧
    Reads coding call.request.opening.limits call.request.upstream read stream.upstream
      stream.bytesRead ∧ ¬ Accounted coding call.request.opening read call.said := by
  obtain ⟨s, hs, hany⟩ := two_usages
  obtain ⟨ms, hr, -⟩ := Run.of_exec hs
  obtain ⟨call, hc, hunder⟩ := List.any_eq_true.1 hany
  unfold undercharged at hunder
  split at hunder
  · next stream args u hreturns hsaid =>
    simp only [Bool.and_eq_true, decide_eq_true_eq] at hunder
    obtain ⟨⟨⟨⟨⟨hfirst, hsecond⟩, hleft, hbytes⟩, hreported⟩, hprices⟩, hcost⟩ := hunder
    refine ⟨ms, s, call, stream, [ascii small, ascii large], hr, hc, hreturns, ?_, ?_, ?_⟩
    · intro t e ha
      rw [hsaid] at ha
      cases List.mem_singleton.1 ha
    · rw [hleft, hbytes]
      exact (Reads.start.event hfirst).event hsecond
    · unfold Accounted
      rw [hsaid]
      rintro (⟨a, ha, ⟨v, prices, -, -, -, -, rfl⟩, -⟩ | ⟨args', hargs, -, -, hcovers⟩)
      · cases ha
      · cases hargs
        have hle : estimatedCostMicrousd 1 1000 (1000000, 1000000) ≤ args.retainedCost :=
          hcovers (ascii large) (by simp) (1, 1000) hreported _ hprices
        have hprice : estimatedCostMicrousd 1 1000 (1000000, 1000000) = 1001 := by decide
        omega
  · cases hunder

theorem accounted_iff_sample : ∃ (ms : List (Moment (streamSystem coding [])))
    (s : State (streamSystem coding [])) (call : Call (streamSystem coding [])) (stream : Stream)
    (read : List Bytes), Run ⟨rows, []⟩ ms s ∧ call ∈ s.calls ∧
    call.prog = some (.ret stream) ∧ Served call.said ∧
    Reads coding call.request.opening.limits call.request.upstream read stream.upstream
      stream.bytesRead ∧
    (Accounted coding call.request.opening read call.said ↔
      Finishable coding call.request.opening read ∨ Covered coding call.request.opening read ∧
        Fits call.request.opening (firstUsage coding call.request.opening.limits read)) := by
  obtain ⟨s, hs, hany⟩ := two_usages
  obtain ⟨ms, hr, -⟩ := Run.of_exec hs
  obtain ⟨call, hc, hunder⟩ := List.any_eq_true.1 hany
  unfold undercharged at hunder
  split at hunder
  · next stream args u hreturns hsaid =>
    have hserved : Served call.said := by
      intro t e ha
      rw [hsaid] at ha
      cases List.mem_singleton.1 ha
    obtain ⟨read, hreads, hiff⟩ := accounted_iff hr hc hreturns hserved
    exact ⟨ms, s, call, stream, read, hr, hc, hreturns, hserved, hreads, hiff⟩
  · cases hunder

end Sample

end Hermes

end OpsOrchestrator
