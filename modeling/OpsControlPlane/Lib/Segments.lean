import Mathlib.Data.List.Basic
import Mathlib.Tactic

/-!
# Reading a stream in segments

Programs that read lines and blocks of a stream of bytes, with a limit on each line. `Reader` has
the stream in the segments in which it was received, and reads more of them when its buffer has not
enough. `decode` has the stream as a whole.

`run_read` says that a reader gives what `decode` gives, or fails at a line of exactly the greatest
length that is accepted. `run_single` and `run_bytes` say which segments do the one and the other,
and `independent_iff` for which streams all segments give the same.
-/

namespace Segments

abbrev Bytes : Type :=
  List UInt8

inductive ReaderOp where
  | line (maximum : ℕ)
  | exact (size : ℕ)
  | toEof (maximum : ℕ)

/-- A program that returns, fails, or reads and goes on with what is read. -/
inductive Reading (ε α : Type) where
  | ret (a : α)
  | fail (e : ε)
  | ask (o : ReaderOp) (k : Bytes → Reading ε α)

variable {ε κ α β σ : Type}

namespace Reading

/-- Go on with what the first program returns. -/
def bind : Reading ε α → (α → Reading ε β) → Reading ε β
  | ret a, f => f a
  | fail e, _ => fail e
  | ask o k, f => ask o fun b => bind (k b) f

instance : Monad (Reading ε) where
  pure := ret
  bind := bind

def read (o : ReaderOp) : Reading ε Bytes :=
  ask o ret

/-- The result of a pure computation. -/
def ofExcept : Except ε α → Reading ε α
  | .ok a => ret a
  | .error e => fail e

/-- The result of a program over a source of the stream. -/
def run (act : ReaderOp → σ → Except ε (Bytes × σ)) : Reading ε α → σ → Except ε α
  | ret a, _ => .ok a
  | fail e, _ => .error e
  | ask o k, s =>
    match act o s with
    | .ok (b, t) => run act (k b) t
    | .error e => .error e

theorem run_read_bind (act : ReaderOp → σ → Except ε (Bytes × σ)) (o : ReaderOp)
    (k : Bytes → Reading ε α) (s : σ) : (read o >>= k).run act s = match act o s with
      | .ok (b, t) => (k b).run act t
      | .error e => .error e := by
  change (ask o k).run act s = _
  rw [run]

end Reading

/-! ## Readers -/

/-- The position of the first end of a line. -/
def find : Bytes → Option ℕ
  | [] => none
  | b :: s => if b = 13 ∧ s.head? = some 10 then some 0 else (find s).map (· + 1)

structure Faults (ε : Type) where
  (long incomplete truncated tooLarge : ε)

/-- What was received and is not read yet, and the segments that are still to come. An empty
segment is the end of the stream. -/
structure Reader where
  buffer : Bytes
  pending : List Bytes

variable (f : Faults ε)

def line (maximum : ℕ) (buffer : Bytes) (pending : List Bytes) : Except ε (Bytes × Reader) :=
  match find buffer with
  | some marker =>
    if maximum < marker then .error f.long
    else .ok (buffer.take marker, ⟨buffer.drop (marker + 2), pending⟩)
  | none =>
    if maximum < buffer.length then .error f.incomplete
    else
      match pending with
      | [] => .error f.incomplete
      | segment :: pending =>
        if segment = [] then .error f.incomplete else line maximum (buffer ++ segment) pending

def exact (size : ℕ) (buffer : Bytes) (pending : List Bytes) : Except ε (Bytes × Reader) :=
  if size ≤ buffer.length then .ok (buffer.take size, ⟨buffer.drop size, pending⟩)
  else
    match pending with
    | [] => .error f.truncated
    | segment :: pending =>
      if segment = [] then .error f.truncated else exact size (buffer ++ segment) pending

def toEof (maximum : ℕ) (buffer : Bytes) (pending : List Bytes) : Except ε (Bytes × Reader) :=
  if maximum < buffer.length then .error f.tooLarge
  else
    match pending with
    | [] => .ok (buffer, ⟨buffer, []⟩)
    | segment :: pending =>
      if segment = [] then .ok (buffer, ⟨buffer, pending⟩)
      else toEof maximum (buffer ++ segment) pending

def ReaderOp.read : ReaderOp → Reader → Except ε (Bytes × Reader)
  | line maximum, r => Segments.line f maximum r.buffer r.pending
  | exact size, r => Segments.exact f size r.buffer r.pending
  | toEof maximum, r => Segments.toEof f maximum r.buffer r.pending

/-- A stream that is there as a whole, and by how much a line has to be shorter than its limit. -/
structure Whole where
  stream : Bytes
  margin : ℕ

/-- The operations on a whole stream. The margin ends with the stream. -/
def ReaderOp.decode : ReaderOp → Whole → Except ε (Bytes × Whole)
  | line maximum, w =>
    match find w.stream with
    | some marker =>
      if marker + w.margin ≤ maximum then
        .ok (w.stream.take marker, ⟨w.stream.drop (marker + 2), w.margin⟩)
      else .error f.incomplete
    | none => .error f.incomplete
  | exact size, w =>
    if size ≤ w.stream.length then
      .ok (w.stream.take size, ⟨w.stream.drop size, w.margin⟩)
    else .error f.truncated
  | toEof maximum, w =>
    if w.stream.length ≤ maximum then .ok (w.stream, ⟨w.stream, 0⟩) else .error f.tooLarge

/-! ## Ends of lines -/

theorem find_append {s : Bytes} {k : ℕ} (h : find s = some k) (t : Bytes) :
    find (s ++ t) = some k ∧ k + 2 ≤ s.length := by
  induction s generalizing k with
  | nil => cases h
  | cons b s ih =>
    rw [find] at h
    rw [List.cons_append, find]
    split_ifs at h with hend
    · obtain rfl := Option.some.inj h
      obtain ⟨c, u, rfl⟩ : ∃ c u, s = c :: u := by
        cases s with
        | nil => exact absurd hend.2 (by simp)
        | cons c u => exact ⟨c, u, rfl⟩
      exact ⟨if_pos hend, by simp⟩
    · obtain ⟨i, hi, rfl⟩ := Option.map_eq_some_iff.1 h
      obtain ⟨hfind, hlen⟩ := ih hi
      have hne : ¬(b = 13 ∧ (s ++ t).head? = some 10) := by
        cases s with
        | nil => cases hi
        | cons c u => exact hend
      rw [if_neg hne, hfind, List.length_cons]
      exact ⟨rfl, by omega⟩

/-- An end of a line that was not there before has its last byte in what was added. -/
theorem le_of_find_append {s t : Bytes} (h : find s = none) {k : ℕ} (hk : find (s ++ t) = some k) :
    s.length ≤ k + 1 := by
  induction s generalizing k with
  | nil => exact Nat.zero_le _
  | cons b s ih =>
    rw [find] at h
    rw [List.cons_append, find] at hk
    split_ifs at h with hend
    have hnone : find s = none := Option.map_eq_none_iff.1 h
    split_ifs at hk with hend'
    · cases s with
      | nil => exact Nat.le_add_left _ _
      | cons c u => exact absurd hend' hend
    · obtain ⟨i, hi, rfl⟩ := Option.map_eq_some_iff.1 hk
      have := ih hnone hi
      rw [List.length_cons]
      omega

theorem find_lt {s : Bytes} {k : ℕ} (h : find s = some k) : k + 2 ≤ s.length :=
  (find_append h []).2

/-! ## Segments -/

structure Reader.Of (r : Reader) (s : Bytes) : Prop where
  join : r.buffer ++ r.pending.flatten = s
  nonempty : ∀ c ∈ r.pending, c ≠ []

variable {code : ε → κ} {buffer u : Bytes} {pending : List Bytes}

/-- A line is read as it stands in the stream. Only a line of the greatest length may also be
refused. -/
theorem line_cases (hcode : code f.long = code f.incomplete) (maximum : ℕ) {s : Bytes}
    (h : (⟨buffer, pending⟩ : Reader).Of s) : (∃ k r, find s = some k ∧ k ≤ maximum ∧
      line f maximum buffer pending = .ok (s.take k, r) ∧ r.Of (s.drop (k + 2))) ∨
    ∃ e, line f maximum buffer pending = .error e ∧ code e = code f.incomplete ∧
      ∀ k, find s = some k → maximum ≤ k := by
  induction pending generalizing buffer with
  | nil =>
    obtain rfl : buffer = s := by simpa using h.join
    rw [line]
    cases hfind : find buffer with
    | some k =>
      dsimp only
      split_ifs with hlong
      · refine .inr ⟨_, rfl, hcode, fun k' hk' => ?_⟩
        obtain rfl := Option.some.inj hk'
        exact hlong.le
      · exact .inl ⟨k, _, rfl, not_lt.1 hlong, rfl, by simp, by simp⟩
    | none =>
      dsimp only
      split_ifs
      · exact .inr ⟨_, rfl, rfl, fun k hk => by cases hk⟩
      · exact .inr ⟨_, rfl, rfl, fun k hk => by cases hk⟩
  | cons segment pending ih =>
    have hjoin : buffer ++ (segment ++ pending.flatten) = s := by simpa using h.join
    rw [line]
    cases hfind : find buffer with
    | some k =>
      obtain ⟨hs, hlen⟩ := find_append hfind (segment ++ pending.flatten)
      rw [hjoin] at hs
      dsimp only
      split_ifs with hlong
      · refine .inr ⟨_, rfl, hcode, fun k' hk' => ?_⟩
        obtain rfl := Option.some.inj (hs.symm.trans hk')
        exact hlong.le
      · refine .inl ⟨k, ⟨buffer.drop (k + 2), segment :: pending⟩, hs, not_lt.1 hlong, ?_, ?_,
          h.nonempty⟩
        · rw [← hjoin, List.take_append_of_le_length (by omega)]
        · rw [← hjoin, List.drop_append_of_le_length hlen]
          simp
    | none =>
      dsimp only
      split_ifs with hlong hempty
      · refine .inr ⟨_, rfl, rfl, fun k hk => ?_⟩
        have := le_of_find_append hfind (hjoin.symm ▸ hk)
        omega
      · exact absurd hempty (h.nonempty _ List.mem_cons_self)
      · exact ih ⟨by simpa using hjoin, fun c hc => h.nonempty c (List.mem_cons_of_mem _ hc)⟩

theorem exact_cases (size : ℕ) {s : Bytes} (h : (⟨buffer, pending⟩ : Reader).Of s) :
    (size ≤ s.length ∧ ∃ r, exact f size buffer pending = .ok (s.take size, r) ∧
      r.Of (s.drop size)) ∨
        (s.length < size ∧ exact f size buffer pending = .error f.truncated) := by
  induction pending generalizing buffer with
  | nil =>
    obtain rfl : buffer = s := by simpa using h.join
    rw [exact]
    split_ifs with hsize
    · exact .inl ⟨hsize, _, rfl, by simp, by simp⟩
    · exact .inr ⟨not_le.1 hsize, rfl⟩
  | cons segment pending ih =>
    have hjoin : buffer ++ (segment ++ pending.flatten) = s := by simpa using h.join
    rw [exact]
    split_ifs with hsize hempty
    · refine .inl ⟨?_, ⟨buffer.drop size, segment :: pending⟩, ?_, ?_, h.nonempty⟩
      · rw [← hjoin, List.length_append]
        omega
      · rw [← hjoin, List.take_append_of_le_length hsize]
      · rw [← hjoin, List.drop_append_of_le_length hsize]
        simp
    · exact absurd hempty (h.nonempty _ List.mem_cons_self)
    · exact ih ⟨by simpa using hjoin, fun c hc => h.nonempty c (List.mem_cons_of_mem _ hc)⟩

theorem toEof_cases (maximum : ℕ) {s : Bytes} (h : (⟨buffer, pending⟩ : Reader).Of s) :
    (s.length ≤ maximum ∧ toEof f maximum buffer pending = .ok (s, ⟨s, []⟩)) ∨
      (maximum < s.length ∧ toEof f maximum buffer pending = .error f.tooLarge) := by
  induction pending generalizing buffer with
  | nil =>
    obtain rfl : buffer = s := by simpa using h.join
    rw [toEof]
    split_ifs with hlarge
    · exact .inr ⟨hlarge, rfl⟩
    · exact .inl ⟨not_lt.1 hlarge, rfl⟩
  | cons segment pending ih =>
    have hjoin : buffer ++ (segment ++ pending.flatten) = s := by simpa using h.join
    rw [toEof]
    split_ifs with hlarge hempty
    · refine .inr ⟨?_, rfl⟩
      rw [← hjoin, List.length_append]
      omega
    · exact absurd hempty (h.nonempty _ List.mem_cons_self)
    · exact ih ⟨by simpa using hjoin, fun c hc => h.nonempty c (List.mem_cons_of_mem _ hc)⟩

/-! ## Runs -/

def outcome (code : ε → κ) : Except ε α → Except κ α
  | .ok a => .ok a
  | .error e => .error (code e)

/-- A stream that was received is read as a whole. -/
theorem run_received (hcode : code f.long = code f.incomplete) (p : Reading ε α) (s : Bytes) :
    outcome code (p.run (ReaderOp.read f) ⟨s, []⟩) =
      outcome code (p.run (ReaderOp.decode f) ⟨s, 0⟩) := by
  induction p generalizing s with
  | ret a => rfl
  | fail e => rfl
  | ask o k ih =>
    rw [Reading.run, Reading.run]
    cases o with
    | line maximum =>
      rw [ReaderOp.read, ReaderOp.decode, line]
      cases find s with
      | none =>
        dsimp only
        split_ifs <;> rfl
      | some i =>
        dsimp only
        by_cases hlong : maximum < i
        · rw [if_pos hlong, if_neg (by omega)]
          exact congrArg Except.error hcode
        · rw [if_neg hlong, if_pos (by omega)]
          exact ih _ _
    | exact size =>
      rw [ReaderOp.read, ReaderOp.decode, exact]
      split_ifs
      · exact ih _ _
      · rfl
    | toEof maximum =>
      rw [ReaderOp.read, ReaderOp.decode, toEof]
      by_cases hlarge : maximum < s.length
      · rw [if_pos hlarge, if_neg (not_le.2 hlarge)]
      · rw [if_neg hlarge, if_pos (not_lt.1 hlarge)]
        exact ih _ _

/-- A reader gives what the whole stream gives, or it fails at a line of the greatest length. -/
theorem run_read (hcode : code f.long = code f.incomplete) (p : Reading ε α) {r : Reader}
    {s : Bytes} (h : r.Of s) :
    outcome code (p.run (ReaderOp.read f) r) = outcome code (p.run (ReaderOp.decode f) ⟨s, 0⟩) ∨
      (outcome code (p.run (ReaderOp.read f) r) = .error (code f.incomplete) ∧
        outcome code (p.run (ReaderOp.decode f) ⟨s, 1⟩) = .error (code f.incomplete)) := by
  induction p generalizing r s with
  | ret a => exact .inl rfl
  | fail e => exact .inl rfl
  | ask o k ih =>
    rw [Reading.run, Reading.run, Reading.run]
    cases o with
    | line maximum =>
      rw [ReaderOp.read, ReaderOp.decode, ReaderOp.decode]
      rcases line_cases f hcode maximum h with ⟨i, t, hfind, hle, hline, hof⟩ |
        ⟨e, hline, he, hfind⟩
      · rw [hline, hfind]
        dsimp only
        rw [if_pos (Nat.add_zero i ▸ hle)]
        dsimp only
        rcases ih _ hof with heq | ⟨hread, hstrict⟩
        · exact .inl heq
        · refine .inr ⟨hread, ?_⟩
          split_ifs
          · exact hstrict
          · rfl
      · rw [hline]
        dsimp only [outcome]
        rw [he]
        cases hs : find s with
        | none => exact .inl rfl
        | some i =>
          have hi := hfind i hs
          dsimp only
          rw [if_neg (by omega : ¬i + 1 ≤ maximum)]
          exact .inr ⟨rfl, rfl⟩
    | exact size =>
      rw [ReaderOp.read, ReaderOp.decode, ReaderOp.decode]
      dsimp only
      rcases exact_cases f size h with ⟨hle, t, hread, hof⟩ | ⟨hlt, hread⟩
      · rw [hread, if_pos hle, if_pos hle]
        exact ih _ hof
      · rw [hread, if_neg (not_le.2 hlt)]
        exact .inl rfl
    | toEof maximum =>
      rw [ReaderOp.read, ReaderOp.decode, ReaderOp.decode]
      rcases toEof_cases f maximum h with ⟨hle, hread⟩ | ⟨hlt, hread⟩
      · rw [hread, if_pos hle]
        exact .inl (run_received f hcode _ _)
      · rw [hread, if_neg (not_le.2 hlt)]
        exact .inl rfl

/-- A stream in one segment is read as a whole. -/
theorem run_single (hcode : code f.long = code f.incomplete) (p : Reading ε α) {s : Bytes}
    (hs : s ≠ []) : outcome code (p.run (ReaderOp.read f) ⟨[], [s]⟩) =
      outcome code (p.run (ReaderOp.decode f) ⟨s, 0⟩) := by
  have hpos : 0 < s.length := List.length_pos_iff.2 hs
  rw [← run_received f hcode p s]
  induction p with
  | ret a => rfl
  | fail e => rfl
  | ask o k ih =>
    rw [Reading.run, Reading.run]
    cases o with
    | line maximum =>
      rw [ReaderOp.read, ReaderOp.read, line.eq_def f maximum []]
      simp [find, hs]
    | exact size =>
      rw [ReaderOp.read, ReaderOp.read, exact.eq_def f size []]
      by_cases hsize : size = 0
      · subst hsize
        rw [exact.eq_def]
        simpa using ih []
      · simp [hsize, hs]
    | toEof maximum =>
      rw [ReaderOp.read, ReaderOp.read, toEof.eq_def f maximum []]
      simp [hs]

/-! ## A stream in segments of one byte -/

def bytes (s : Bytes) : List Bytes :=
  s.map fun b => [b]

theorem flatten_bytes (s : Bytes) : (bytes s).flatten = s := by
  induction s with
  | nil => rfl
  | cons b s ih => exact congrArg (b :: ·) ih

/-- Byte by byte, a line has to be shorter than its limit. -/
theorem line_bytes (maximum : ℕ) (hu : find u = none) (hle : u.length ≤ maximum + 1) (s : Bytes) :
    line f maximum u (bytes s) = match find (u ++ s) with
      | some k => if k + 1 ≤ maximum then
          .ok ((u ++ s).take k, ⟨[], bytes ((u ++ s).drop (k + 2))⟩) else .error f.incomplete
      | none => .error f.incomplete := by
  induction s generalizing u with
  | nil =>
    rw [show bytes [] = [] from rfl, line, List.append_nil, hu]
    dsimp only
    split_ifs <;> rfl
  | cons b s ih =>
    rw [show bytes (b :: s) = [b] :: bytes s from rfl, line, hu]
    dsimp only
    rw [if_neg (List.cons_ne_nil b [])]
    have happ : u ++ b :: s = (u ++ [b]) ++ s := by simp
    by_cases hlong : maximum < u.length
    · rw [if_pos hlong]
      cases hk : find (u ++ b :: s) with
      | none => rfl
      | some k =>
        have := le_of_find_append hu hk
        dsimp only
        rw [if_neg (by omega)]
    · rw [if_neg hlong]
      cases hb : find (u ++ [b]) with
      | none =>
        rw [happ]
        exact ih hb (by simp; omega)
      | some k =>
        obtain ⟨hs, hlen⟩ := find_append hb s
        have hkey := le_of_find_append hu hb
        have hlength : (u ++ [b]).length = u.length + 1 := by simp
        rw [hlength] at hlen
        have htake : ((u ++ [b]) ++ s).take k = (u ++ [b]).take k :=
          List.take_append_of_le_length (by omega)
        have hdrop : ((u ++ [b]) ++ s).drop (k + 2) = s := List.drop_left' (by omega)
        have hall : (u ++ [b]).drop (k + 2) = [] := List.drop_of_length_le (by omega)
        rw [happ, hs]
        dsimp only
        rw [htake, hdrop, line.eq_def, hb]
        dsimp only
        rw [if_neg (by omega), if_pos (by omega), hall]

theorem exact_bytes (size : ℕ) (hu : u.length ≤ size) (s : Bytes) :
    exact f size u (bytes s) = if size ≤ (u ++ s).length then
      .ok ((u ++ s).take size, ⟨[], bytes ((u ++ s).drop size)⟩) else .error f.truncated := by
  induction s generalizing u with
  | nil =>
    rw [show bytes [] = [] from rfl, exact, List.append_nil]
    split_ifs with hsize
    · obtain rfl : size = u.length := by omega
      simp [bytes]
    · rfl
  | cons b s ih =>
    rw [show bytes (b :: s) = [b] :: bytes s from rfl, exact]
    by_cases hsize : size ≤ u.length
    · obtain rfl : size = u.length := by omega
      simp [bytes]
    · rw [if_neg hsize, if_neg (List.cons_ne_nil b []), show u ++ b :: s = (u ++ [b]) ++ s by simp]
      exact ih (by simp; omega)

theorem toEof_bytes (maximum : ℕ) (u s : Bytes) : toEof f maximum u (bytes s) =
    if (u ++ s).length ≤ maximum then .ok (u ++ s, ⟨u ++ s, []⟩) else .error f.tooLarge := by
  have hof : (⟨u, bytes s⟩ : Reader).Of (u ++ s) :=
    ⟨congrArg (u ++ ·) (flatten_bytes s), by simp [bytes]⟩
  rcases toEof_cases f maximum hof with ⟨hle, h⟩ | ⟨hlt, h⟩
  · rw [h, if_pos hle]
  · rw [h, if_neg (not_le.2 hlt)]

/-- A stream that comes byte by byte is read as if lines had to be shorter than their limits. -/
theorem run_bytes (hcode : code f.long = code f.incomplete) (p : Reading ε α) (s : Bytes) :
    outcome code (p.run (ReaderOp.read f) ⟨[], bytes s⟩) =
      outcome code (p.run (ReaderOp.decode f) ⟨s, 1⟩) := by
  induction p generalizing s with
  | ret a => rfl
  | fail e => rfl
  | ask o k ih =>
    rw [Reading.run, Reading.run]
    cases o with
    | line maximum =>
      rw [ReaderOp.read, ReaderOp.decode, line_bytes f maximum rfl (Nat.zero_le _), List.nil_append]
      cases find s with
      | none => rfl
      | some i =>
        dsimp only
        split_ifs
        · exact ih _ _
        · rfl
    | exact size =>
      rw [ReaderOp.read, ReaderOp.decode, exact_bytes f size (Nat.zero_le _), List.nil_append]
      dsimp only
      split_ifs
      · exact ih _ _
      · rfl
    | toEof maximum =>
      rw [ReaderOp.read, ReaderOp.decode, toEof_bytes f maximum, List.nil_append]
      dsimp only
      split_ifs
      · exact run_received f hcode _ _
      · rfl

/-! ## Independence -/

namespace Reading

/-- The program reads a line of the stream that has exactly the length of its limit. -/
def Full : Reading ε α → Bytes → Prop
  | ret _, _ => False
  | fail _, _ => False
  | ask (.line maximum) k, s =>
    ∃ i, find s = some i ∧ (i = maximum ∨ i < maximum ∧ Full (k (s.take i)) (s.drop (i + 2)))
  | ask (.exact size) k, s => size ≤ s.length ∧ Full (k (s.take size)) (s.drop size)
  | ask (.toEof _) _, _ => False

end Reading

/-- The margin makes a difference at such a line only, if the program goes on behind it. -/
theorem run_margin_iff (p : Reading ε α) (s : Bytes) :
    outcome code (p.run (ReaderOp.decode f) ⟨s, 1⟩) =
      outcome code (p.run (ReaderOp.decode f) ⟨s, 0⟩) ↔
    ¬p.Full s ∨ outcome code (p.run (ReaderOp.decode f) ⟨s, 0⟩) = .error (code f.incomplete) := by
  induction p generalizing s with
  | ret a => exact iff_of_true rfl (.inl id)
  | fail e => exact iff_of_true rfl (.inl id)
  | ask o k ih =>
    rw [Reading.run, Reading.run]
    cases o with
    | line maximum =>
      rw [ReaderOp.decode, ReaderOp.decode, Reading.Full]
      cases hfind : find s with
      | none => exact iff_of_true rfl (.inl (by rintro ⟨i, hi, -⟩; cases hi))
      | some i =>
        dsimp only
        rcases lt_trichotomy i maximum with hlt | rfl | hgt
        · rw [if_pos (by omega), if_pos (by omega)]
          refine (ih _ _).trans (or_congr_left (not_congr ?_))
          constructor
          · exact fun h => ⟨i, rfl, .inr ⟨hlt, h⟩⟩
          · rintro ⟨j, hj, rfl | ⟨-, h⟩⟩
            · exact absurd (Option.some.inj hj) hlt.ne
            · obtain rfl := Option.some.inj hj
              exact h
        · rw [if_neg (by omega : ¬i + 1 ≤ i), or_iff_right (not_not_intro ⟨i, rfl, .inl rfl⟩)]
          exact eq_comm
        · rw [if_neg (by omega), if_neg (by omega)]
          exact iff_of_true rfl (.inr rfl)
    | exact size =>
      rw [ReaderOp.decode, ReaderOp.decode, Reading.Full]
      dsimp only
      by_cases hle : size ≤ s.length
      · rw [if_pos hle, if_pos hle]
        exact (ih _ _).trans (or_congr_left (not_congr ⟨fun h => ⟨hle, h⟩, fun h => h.2⟩))
      · rw [if_neg hle, if_neg hle]
        exact iff_of_true rfl (.inl fun h => hle h.1)
    | toEof maximum => exact iff_of_true rfl (.inl id)

structure Split (s : Bytes) (segments : List Bytes) : Prop where
  join : segments.flatten = s
  nonempty : ∀ c ∈ segments, c ≠ []

/-- A program gives the same for all segments of a stream if and only if it reads no line of exactly
its limit, or fails as it does at a line that is not there. -/
theorem independent_iff (hcode : code f.long = code f.incomplete) (p : Reading ε α) (s : Bytes) :
    (∀ segments segments', Split s segments → Split s segments' →
      outcome code (p.run (ReaderOp.read f) ⟨[], segments⟩) =
        outcome code (p.run (ReaderOp.read f) ⟨[], segments'⟩)) ↔
    ¬p.Full s ∨ outcome code (p.run (ReaderOp.decode f) ⟨s, 0⟩) = .error (code f.incomplete) := by
  rw [← run_margin_iff]
  constructor
  · intro h
    have hbytes : Split s (bytes s) := ⟨flatten_bytes s, by simp [bytes]⟩
    by_cases hs : s = []
    · subst hs
      rw [← run_bytes f hcode, ← run_received f hcode]
      rfl
    · rw [← run_bytes f hcode, ← run_single f hcode p hs]
      exact h _ _ hbytes ⟨by simp, by simpa using hs⟩
  · intro h
    have hall : ∀ segments, Split s segments →
        outcome code (p.run (ReaderOp.read f) ⟨[], segments⟩) =
          outcome code (p.run (ReaderOp.decode f) ⟨s, 0⟩) := by
      intro segments hsplit
      rcases run_read f hcode p (r := ⟨[], segments⟩) ⟨hsplit.join, hsplit.nonempty⟩ with
        heq | ⟨hread, hstrict⟩
      · exact heq
      · rw [hread, ← hstrict, h]
    intro segments segments' hsplit hsplit'
    rw [hall _ hsplit, hall _ hsplit']

/-! ## What was read -/

theorem Reading.bind_assoc {γ : Type} (p : Reading ε α) (g : α → Reading ε β)
    (k : β → Reading ε γ) : (p >>= g) >>= k = p >>= fun a => g a >>= k := by
  induction p with
  | ret a => rfl
  | fail e => rfl
  | ask o j ih => exact congrArg (Reading.ask o) (funext fun b => ih b)

/-- What ends the lines of a stream is taken out, nothing else. -/
theorem split_of_find {s : Bytes} {k : ℕ} (h : find s = some k) :
    s = s.take k ++ 13 :: 10 :: s.drop (k + 2) := by
  induction s generalizing k with
  | nil => cases h
  | cons b s ih =>
    rw [find] at h
    split_ifs at h with hend
    · obtain rfl := Option.some.inj h
      obtain ⟨rfl, hhead⟩ := hend
      cases s with
      | nil => cases hhead
      | cons c u =>
        obtain rfl := Option.some.inj hhead
        rfl
    · obtain ⟨i, hi, rfl⟩ := Option.map_eq_some_iff.1 h
      exact congrArg (b :: ·) (ih hi)

/-- The first line of the stream, and what is left behind its end. -/
structure First (s l t : Bytes) : Prop where
  join : s = l ++ 13 :: 10 :: t
  first : find s = some l.length

section whole

variable {f} {k : Bytes → Reading ε α} {s : Bytes} {m : ℕ} {a : α}

theorem run_line_ok (h : (Reading.read (.line m) >>= k).run (ReaderOp.decode f) ⟨s, 0⟩ = .ok a) :
    ∃ l t, First s l t ∧ (k l).run (ReaderOp.decode f) ⟨t, 0⟩ = .ok a := by
  rw [Reading.run_read_bind, ReaderOp.decode] at h
  cases hfind : find s with
  | none =>
    rw [hfind] at h
    cases h
  | some i =>
    rw [hfind] at h
    dsimp only at h
    split_ifs at h
    · have hlen : (s.take i).length = i := List.length_take_of_le (by
        have := find_lt hfind
        omega)
      exact ⟨s.take i, s.drop (i + 2), ⟨split_of_find hfind, by rw [hlen, hfind]⟩, h⟩

theorem run_exact_ok
    (h : (Reading.read (.exact m) >>= k).run (ReaderOp.decode f) ⟨s, 0⟩ = .ok a) :
    m ≤ s.length ∧ (k (s.take m)).run (ReaderOp.decode f) ⟨s.drop m, 0⟩ = .ok a := by
  rw [Reading.run_read_bind, ReaderOp.decode] at h
  dsimp only at h
  split_ifs at h with hle
  exact ⟨hle, h⟩

theorem run_toEof_ok
    (h : (Reading.read (.toEof m) >>= k).run (ReaderOp.decode f) ⟨s, 0⟩ = .ok a) :
    s.length ≤ m ∧ (k s).run (ReaderOp.decode f) ⟨s, 0⟩ = .ok a := by
  rw [Reading.run_read_bind, ReaderOp.decode] at h
  dsimp only at h
  split_ifs at h with hle
  exact ⟨hle, h⟩

end whole

theorem run_ofExcept_ok {act : ReaderOp → σ → Except ε (Bytes × σ)} {x : Except ε β}
    {k : β → Reading ε α} {s : σ} {a : α} (h : (Reading.ofExcept x >>= k).run act s = .ok a) :
    ∃ b, x = .ok b ∧ (k b).run act s = .ok a := by
  cases x with
  | ok b => exact ⟨b, rfl, h⟩
  | error e => cases h

end Segments
