import OpsControlPlane.Discovery.Responses
import OpsControlPlane.Lib.Calls

/-!
# Responses in segments

`responses_independent_iff` says for which streams the result of `_read_http_response` does not
depend on the segments in which the stream is received. A body that is accepted is in its bounds,
and is the one that the stream declares (`declares_of_decode`), for all streams and segments.
-/

namespace OpsDiscovery

open Segments
open Calls (bind_eq_ok)

/-! ## What a stream declares -/

inductive Lines : Bytes → List Bytes → Bytes → Prop
  | last {s t} (h : First s [] t) : Lines s [] t
  | cons {s l t lines rest} (h : First s l t) (hne : l ≠ []) (ht : Lines t lines rest) :
      Lines s (l :: lines) rest

inductive Chunked : Bytes → Bytes → Prop
  | last {s l t trailers rest} (h : First s l t) (hsize : chunkSize l = some 0)
      (ht : Lines t trailers rest) : Chunked s []
  | chunk {s l data rest body} (h : First s l (data ++ 13 :: 10 :: rest))
      (hsize : chunkSize l = some data.length) (hne : data ≠ []) (ht : Chunked rest body) :
      Chunked s (data ++ body)

/-- The body that the framing takes of a stream. -/
inductive Framed : Framing → Bytes → Bytes → Prop
  | length {data rest} : Framed (.length data.length) (data ++ rest) data
  | chunked {s body} (h : Chunked s body) : Framed .chunked s body
  | close {s} : Framed .close s s

/-- The stream declares the response: a status line, header lines, and a body in the framing of the
headers. -/
structure Declares (maximum : ℕ) (s : Bytes) (r : Response) (line t : Bytes) (lines : List Bytes)
    (rest : Bytes) (headers : List Header) (framing : Framing) : Prop where
  status_line : First s line t
  header_lines : Lines t lines rest
  status : statusOf line = some r.status
  accepted : r.status = 200
  parsed : lines.mapM headerOf = .ok headers
  framed : framingOf maximum headers = .ok framing
  content_type : r.contentType = (values headers (ascii "content-type")).getLast?.getD []
  body : Framed framing rest r.body

variable {α : Type} {a : α}

theorem run_fail_ne {e : Failure} {β σ : Type} {act : ReaderOp → σ → Except Failure (Bytes × σ)}
    {k : β → Read α} {s : σ} : (Reading.fail e >>= k).run act s ≠ .ok a :=
  fun h => nomatch (h : Except.error e = .ok a)

variable {s : Bytes}

theorem run_readHeaders {k : List Header → Read α} (n headerBytes : ℕ) (headers : List Header)
    (h : (readHeaders n headerBytes headers >>= k).run
      (ReaderOp.decode readerFaults) ⟨s, 0⟩ = .ok a) :
    ∃ lines rest added, Lines s lines rest ∧ lines.mapM headerOf = .ok added ∧
      (k (headers ++ added)).run (ReaderOp.decode readerFaults) ⟨rest, 0⟩ = .ok a := by
  induction n generalizing headerBytes headers s with
  | zero => exact absurd h run_fail_ne
  | succ n ih =>
    rw [readHeaders, Reading.bind_assoc] at h
    obtain ⟨l, t, hfirst, h⟩ := run_line_ok h
    change ((if _ then _ else if _ then _ else _) >>= k).run _ _ = _ at h
    split_ifs at h with hlong hempty
    · exact absurd h run_fail_ne
    · subst hempty
      refine ⟨[], t, [], .last hfirst, rfl, ?_⟩
      rw [List.append_nil]
      exact h
    · rw [Reading.bind_assoc] at h
      obtain ⟨header, hheader, h⟩ := run_ofExcept_ok h
      obtain ⟨lines, rest, added, hlines, hadded, h⟩ := ih _ _ h
      refine ⟨l :: lines, rest, header :: added, .cons hfirst hempty hlines, ?_, ?_⟩
      · rw [List.mapM_cons, hheader, hadded]
        rfl
      · rw [List.append_assoc] at h
        exact h

variable {k : Bytes → Read α}

theorem run_readTrailers (body : Bytes) (n trailerBytes : ℕ)
    (h : (readTrailers body n trailerBytes >>= k).run (ReaderOp.decode readerFaults) ⟨s, 0⟩ =
      .ok a) :
    ∃ lines rest, Lines s lines rest ∧
      (k body).run (ReaderOp.decode readerFaults) ⟨rest, 0⟩ = .ok a := by
  induction n generalizing trailerBytes s with
  | zero => exact absurd h run_fail_ne
  | succ n ih =>
    rw [readTrailers, Reading.bind_assoc] at h
    obtain ⟨l, t, hfirst, h⟩ := run_line_ok h
    change ((if _ then _ else if _ then _ else if _ then _ else _) >>= k).run _ _ = _ at h
    split_ifs at h with hlong hempty hbad
    · exact absurd h run_fail_ne
    · subst hempty
      exact ⟨[], t, .last hfirst, h⟩
    · exact absurd h run_fail_ne
    · obtain ⟨lines, rest, hlines, h⟩ := ih _ h
      exact ⟨l :: lines, rest, .cons hfirst hempty hlines, h⟩

theorem run_readChunks (maximum n : ℕ) (body : Bytes) (hbody : body.length ≤ maximum)
    (h : (readChunks maximum n body >>= k).run (ReaderOp.decode readerFaults) ⟨s, 0⟩ = .ok a) :
    ∃ more rest, Chunked s more ∧ (body ++ more).length ≤ maximum ∧
      (k (body ++ more)).run (ReaderOp.decode readerFaults) ⟨rest, 0⟩ = .ok a := by
  induction n generalizing body s with
  | zero => exact absurd h run_fail_ne
  | succ n ih =>
    rw [readChunks, Reading.bind_assoc] at h
    obtain ⟨l, t, hfirst, h⟩ := run_line_ok h
    cases hsize : chunkSize l with
    | none =>
      rw [hsize] at h
      exact absurd h run_fail_ne
    | some size =>
      rw [hsize] at h
      cases size with
      | zero =>
        obtain ⟨trailers, rest, htrailers, h⟩ := run_readTrailers body _ _ h
        refine ⟨[], rest, .last hfirst hsize htrailers, ?_, ?_⟩
        · rw [List.append_nil]
          exact hbody
        · rw [List.append_nil]
          exact h
      | succ size =>
        change ((if _ then _ else _) >>= k).run _ _ = _ at h
        split_ifs at h with hlarge
        · exact absurd h run_fail_ne
        · rw [Reading.bind_assoc] at h
          obtain ⟨hle, h⟩ := run_exact_ok h
          rw [Reading.bind_assoc] at h
          obtain ⟨hle', h⟩ := run_exact_ok h
          change ((if _ then _ else _) >>= k).run _ _ = _ at h
          split_ifs at h with hending
          · exact absurd h run_fail_ne
          · have hlen : (t.take (size + 1)).length = size + 1 := List.length_take_of_le hle
            obtain ⟨more, rest, hmore, hbound, h⟩ := ih _ (by
              rw [List.length_append, hlen]
              omega) h
            have hsplit : t = t.take (size + 1) ++ 13 :: 10 :: (t.drop (size + 1)).drop 2 := by
              conv_lhs => rw [← List.take_append_drop (size + 1) t,
                ← List.take_append_drop 2 (t.drop (size + 1)), not_not.1 hending]
              rfl
            refine ⟨t.take (size + 1) ++ more, rest, .chunk (hsplit ▸ hfirst) ?_ ?_ hmore, ?_, ?_⟩
            · rw [hlen, hsize]
            · refine List.ne_nil_of_length_pos ?_
              rw [hlen]
              exact Nat.succ_pos size
            · rw [← List.append_assoc]
              exact hbound
            · rw [← List.append_assoc]
              exact h

variable {maximum : ℕ} {headers : List Header}

theorem length_le_of_framingOf {n : ℕ} (h : framingOf maximum headers = .ok (.length n)) :
    n ≤ maximum := by
  obtain ⟨length, hlength, h⟩ := bind_eq_ok.1 h
  have hsome : length = some n := by
    split at h
    · next n' => exact congrArg some (Framing.length.inj (Except.ok.inj h))
    · cases h
    · cases h
    · split_ifs at h
      cases h
  subst hsome
  unfold parsedLength at hlength
  split at hlength
  · cases hlength
  · split_ifs at hlength
    obtain ⟨n', -, h⟩ := bind_eq_ok.1 hlength
    split_ifs at h with hle
    obtain rfl := Option.some.inj (Except.ok.inj h)
    exact not_lt.1 hle

theorem run_readBody {framing : Framing} (hframing : framingOf maximum headers = .ok framing)
    (h : (readBody maximum framing >>= k).run (ReaderOp.decode readerFaults) ⟨s, 0⟩ = .ok a) :
    ∃ body rest, Framed framing s body ∧ body.length ≤ maximum ∧
      (k body).run (ReaderOp.decode readerFaults) ⟨rest, 0⟩ = .ok a := by
  cases framing with
  | chunked =>
    obtain ⟨body, rest, hbody, hbound, h⟩ := run_readChunks maximum _ [] (Nat.zero_le _) h
    exact ⟨body, rest, .chunked hbody, hbound, h⟩
  | close =>
    obtain ⟨hle, h⟩ := run_toEof_ok h
    exact ⟨s, s, .close, hle, h⟩
  | length n =>
    obtain ⟨hle, h⟩ := run_exact_ok h
    have hn : n ≤ maximum := length_le_of_framingOf hframing
    have hlen : (s.take n).length = n := List.length_take_of_le hle
    refine ⟨s.take n, s.drop n, ?_, hlen.symm ▸ hn, h⟩
    have hframed : Framed (.length (s.take n).length) (s.take n ++ s.drop n) (s.take n) := .length
    rw [List.take_append_drop, hlen] at hframed
    exact hframed

/-- What a whole stream is accepted for is what it declares. -/
theorem declares_of_decode {r : Response}
    (h : (readHttpResponse maximum).run (ReaderOp.decode readerFaults) ⟨s, 0⟩ = .ok r) :
    r.body.length ≤ maximum ∧ ∃ line t lines rest headers framing,
      Declares maximum s r line t lines rest headers framing := by
  obtain ⟨line, t, hfirst, h⟩ := run_line_ok h
  cases hstatus : statusOf line with
  | none =>
    rw [hstatus] at h
    cases h
  | some status =>
    rw [hstatus] at h
    obtain ⟨lines, rest, headers, hlines, hheaders, h⟩ := run_readHeaders _ _ _ h
    obtain ⟨_, hcheck, h⟩ := run_ofExcept_ok h
    obtain ⟨framing, hframing, h⟩ := run_ofExcept_ok h
    obtain ⟨body, rest', hbody, hbound, h⟩ := run_readBody hframing h
    obtain rfl := Except.ok.inj h
    refine ⟨hbound, line, t, lines, rest, headers, framing, hfirst, hlines, hstatus, ?_, hheaders,
      hframing, rfl, hbody⟩
    unfold checkStatus at hcheck
    split_ifs at hcheck with hredirect hother
    exact not_not.1 hother

/-- The result of a whole stream. -/
def decode (maximum : ℕ) (s : Bytes) : Except Failure Response :=
  (readHttpResponse maximum).run (ReaderOp.decode readerFaults) ⟨s, 0⟩

def Independent (maximum : ℕ) (s : Bytes) : Prop :=
  ∀ segments segments', Split s segments → Split s segments' →
    outcome Failure.code (receive maximum segments) =
      outcome Failure.code (receive maximum segments')

/-- What is accepted of the stream is in its bound, and is what the stream declares. -/
def Sound (maximum : ℕ) (s : Bytes) : Prop :=
  ∀ segments r, Split s segments → receive maximum segments = .ok r →
    r.body.length ≤ maximum ∧ ∃ line t lines rest headers framing,
      Declares maximum s r line t lines rest headers framing

theorem sound (maximum : ℕ) (s : Bytes) : Sound maximum s := by
  intro segments r hsplit hr
  have hcode : readerFaults.long.code = readerFaults.incomplete.code := rfl
  have hread := run_read readerFaults hcode (readHttpResponse maximum)
    (r := ⟨[], segments⟩) ⟨hsplit.join, hsplit.nonempty⟩
  rw [show (readHttpResponse maximum).run (ReaderOp.read readerFaults) ⟨[], segments⟩ = .ok r
    from hr] at hread
  rcases hread with heq | ⟨herror, -⟩
  · generalize hdecode : (readHttpResponse maximum).run (ReaderOp.decode readerFaults) ⟨s, 0⟩ = d
      at heq
    cases d with
    | ok r' =>
      obtain rfl := Except.ok.inj heq
      exact declares_of_decode hdecode
    | error e => cases heq
  · cases herror

/-- The result does not depend on the segments if and only if no line that is read of the stream has
exactly the length of its limit, or the stream is no response anyway. -/
theorem responses_independent_iff (maximum : ℕ) (s : Bytes) :
    Independent maximum s ∧ Sound maximum s ↔
      ¬(readHttpResponse maximum).Full s ∨
        outcome Failure.code (decode maximum s) = .error "invalid_response" := by
  rw [and_iff_left (sound maximum s)]
  exact independent_iff readerFaults rfl (readHttpResponse maximum) s

namespace Sample

/-- A response in chunks, up to the carriage return of a chunk-size line of 256 bytes. -/
def received : Bytes :=
  ascii "HTTP/1.1 200\r\nTransfer-Encoding: chunked\r\n\r\n1;" ++ List.replicate 254 97 ++ [13]

def missing : Bytes :=
  ascii "\nx\r\n0\r\n\r\n"

/-- The response is accepted in one segment, and refused in two. -/
theorem split_line_refused : ∃ s segments segments', Split s segments ∧ Split s segments' ∧
    outcome Failure.code (receive 10 segments) ≠ outcome Failure.code (receive 10 segments') := by
  have hwhole : (receive 10 [received ++ missing]).toOption.isSome = true := by
    decide +kernel
  have hsplit : (receive 10 [received, missing]).toOption.isSome = false := by
    decide +kernel
  have hreceived : received ≠ [] := List.append_ne_nil_of_right_ne_nil _ (List.cons_ne_nil _ _)
  have hmissing : missing ≠ [] := by decide +kernel
  have hall : received ++ missing ≠ [] := List.append_ne_nil_of_right_ne_nil _ hmissing
  refine ⟨received ++ missing, [received ++ missing], [received, missing],
    ⟨by simp, ?_⟩, ⟨by simp, ?_⟩, fun heq => ?_⟩
  · exact fun c hc => List.mem_singleton.1 hc ▸ hall
  · intro c hc
    rcases List.mem_pair.1 hc with rfl | rfl
    · exact hreceived
    · exact hmissing
  · cases hone : receive 10 [received ++ missing] with
    | error e =>
      rw [hone] at hwhole
      cases hwhole
    | ok r =>
      cases htwo : receive 10 [received, missing] with
      | ok r' =>
        rw [htwo] at hsplit
        cases hsplit
      | error e =>
        rw [hone, htwo] at heq
        cases heq

end Sample

end OpsDiscovery
