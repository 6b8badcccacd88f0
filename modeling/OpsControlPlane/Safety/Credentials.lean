import Mathlib.Data.List.Infix
import Mathlib.Tactic.IntervalCases
import OpsControlPlane.Desktop.Credentials

/-!
# Agreement on credential frames

`readMissing_ok` and `readMissing_error` say what the helper reads of a pipe, however the bytes
arrive. `decodePassword_iff` and `decodeApiKey_iff` say that it decodes what the application
checks.

`key_frames_agree` puts them together: the frames of the application are the streams that the
helper accepts, and they decode to what was framed.
-/

namespace OpsKeys

/-! ## Bytes of a text -/

theorem utf8Decode_ofList (l : List Char) :
    (l.flatMap String.utf8EncodeChar).toByteArray.utf8Decode? = some l.toArray :=
  List.utf8Decode?_utf8Encode

theorem decodeUtf8_utf8 (s : String) : decodeUtf8 (utf8 s) = some s := by
  unfold decodeUtf8 utf8
  rw [utf8Decode_ofList, Option.map_some, String.ofList_toList]

variable {b v : Bytes} {s password apiKey : String}

theorem utf8_of_decodeUtf8 (h : decodeUtf8 b = some s) : utf8 s = b := by
  unfold decodeUtf8 at h
  obtain ⟨cs, hcs, rfl⟩ := Option.map_eq_some_iff.1 h
  obtain ⟨l, hl⟩ : ByteArray.IsValidUTF8 b.toByteArray :=
    ByteArray.isSome_utf8Decode?_iff.1 (by rw [hcs]; rfl)
  have hlist : cs = l.toArray := by
    rw [hl, List.utf8Decode?_utf8Encode] at hcs
    exact (Option.some.inj hcs).symm
  have hbytes : b = l.flatMap String.utf8EncodeChar := by
    have h := congrArg (fun a : ByteArray => a.data.toList) hl
    simpa only [List.utf8Encode, List.toList_data_toByteArray] using h
  unfold utf8
  rw [hlist, hbytes, String.toList_ofList]

theorem utf8_injective : Function.Injective utf8 := by
  intro s t h
  have hs := decodeUtf8_utf8 s
  rw [h, decodeUtf8_utf8 t] at hs
  exact (Option.some.inj hs).symm

theorem length_utf8_le (s : String) : (utf8 s).length ≤ 4 * s.length := by
  unfold utf8
  rw [← String.length_toList]
  induction s.toList with
  | nil => exact Nat.le_refl 0
  | cons c l ih =>
    have hc := c.utf8Size_le_four
    rw [List.flatMap_cons, List.length_append, String.length_utf8EncodeChar, List.length_cons]
    omega

theorem utf8EncodeChar_ofNat {byte : UInt8} (h : byte < 0x80) :
    String.utf8EncodeChar (Char.ofNat byte.toNat) = [byte] := by
  have hall : ∀ n : Fin 128, String.utf8EncodeChar (Char.ofNat n) = [UInt8.ofNat n] := by decide
  have hlt : byte.toNat < 128 := h
  rw [hall ⟨byte.toNat, hlt⟩, UInt8.ofNat_toNat]

theorem decodeAscii_iff : decodeAscii b = some s ↔ utf8 s = b ∧ ∀ byte ∈ b, byte < 0x80 := by
  have hround : ∀ b : Bytes, (∀ byte ∈ b, byte < 0x80) →
      utf8 (String.ofList (b.map fun byte => Char.ofNat byte.toNat)) = b := by
    intro b hb
    unfold utf8
    rw [String.toList_ofList]
    induction b with
    | nil => rfl
    | cons byte b ih =>
      rw [List.map_cons, List.flatMap_cons, utf8EncodeChar_ofNat (hb byte List.mem_cons_self),
        ih fun x hx => hb x (List.mem_cons_of_mem byte hx)]
      rfl
  unfold decodeAscii
  constructor
  · intro h
    split_ifs at h with hall
    have hb : ∀ byte ∈ b, byte < 0x80 := by simpa using hall
    obtain rfl := Option.some.inj h
    exact ⟨hround b hb, hb⟩
  · rintro ⟨rfl, hb⟩
    rw [if_pos (by simpa using hb)]
    exact congrArg some (utf8_injective (hround _ hb))

/-! ## What both sides check -/

theorem isWhitespace_eq_isspace {c : Char} (h : isControl c = false) :
    isWhitespace c = isspace c := by
  simp only [isControl, Bool.or_eq_false_iff, Bool.and_eq_false_iff, decide_eq_false_iff_not]
    at h
  unfold isWhitespace isspace
  by_cases h32 : c.toNat = 0x20
  · simp [h32]
  · have hlow : ¬c.toNat ≤ 0x1f := by omega
    have hrust : ¬(0x09 ≤ c.toNat ∧ c.toNat ≤ 0x0d) := by omega
    have hpython : ¬(0x1c ≤ c.toNat ∧ c.toNat ≤ 0x20) := by omega
    simp only [← Bool.decide_and, hrust, hpython, h32, decide_false, Bool.or_false,
      Bool.false_or]

theorem dropWhile_congr {α : Type} {p q : α → Bool} {l : List α} (h : ∀ x ∈ l, p x = q x) :
    l.dropWhile p = l.dropWhile q := by
  induction l with
  | nil => rfl
  | cons x l ih =>
    rw [List.dropWhile_cons, List.dropWhile_cons, h x List.mem_cons_self,
      ih fun y hy => h y (List.mem_cons_of_mem x hy)]

theorem trimBy_eq (h : s.toList.any isControl = false) :
    trimBy isWhitespace s = trimBy isspace s := by
  have hmem : ∀ c ∈ s.toList, isWhitespace c = isspace c := by
    intro c hc
    refine isWhitespace_eq_isspace ?_
    rw [List.any_eq_false] at h
    exact Bool.eq_false_of_not_eq_true (h c hc)
  have hstart : s.toList.dropWhile isWhitespace = s.toList.dropWhile isspace :=
    dropWhile_congr hmem
  unfold trimBy List.rdropWhile
  rw [hstart, dropWhile_congr fun c hc => ?_]
  exact hmem c ((List.dropWhile_suffix isspace).subset (List.mem_reverse.1 hc))

/-- The helper takes the passwords that the application takes. -/
theorem decodePassword_iff :
    decodePassword b = .ok s ↔ utf8 s = b ∧ validOpenbaoPassword s = true := by
  have hvalid : validOpenbaoPassword s = true ↔ 14 ≤ s.length ∧ s.length ≤ 100 ∧
      s = trimBy isspace s ∧ s.toList.any isControl = false := by
    unfold validOpenbaoPassword
    constructor
    · intro h
      simp only [Bool.and_eq_true, decide_eq_true_eq, Bool.not_eq_true'] at h
      obtain ⟨⟨⟨hmin, hmax⟩, htrim⟩, hcontrol⟩ := h
      exact ⟨hmin, hmax, trimBy_eq hcontrol ▸ htrim, hcontrol⟩
    · rintro ⟨hmin, hmax, htrim, hcontrol⟩
      simp only [Bool.and_eq_true, decide_eq_true_eq, Bool.not_eq_true']
      exact ⟨⟨⟨hmin, hmax⟩, (trimBy_eq hcontrol).symm ▸ htrim⟩, hcontrol⟩
  unfold decodePassword
  constructor
  · intro h
    cases hdecode : decodeUtf8 b with
    | none =>
      rw [hdecode] at h
      cases h
    | some decoded =>
      simp only [hdecode] at h
      split_ifs at h with hchecks
      obtain rfl := Except.ok.inj h
      exact ⟨utf8_of_decodeUtf8 hdecode, hvalid.2 hchecks⟩
  · rintro ⟨rfl, h⟩
    simp only [decodeUtf8_utf8]
    rw [if_pos (hvalid.1 h)]

theorem toList_of_decodeAscii (h : decodeAscii b = some s) :
    s.toList = b.map fun byte => Char.ofNat byte.toNat := by
  unfold decodeAscii at h
  split_ifs at h with hall
  rw [← Option.some.inj h, String.toList_ofList]

/-- The characters of a key are its bytes, to both sides. -/
theorem any_unprintable (hb : ∀ byte ∈ b, byte < 0x80) :
    ((b.map fun byte => Char.ofNat byte.toNat).any fun c => c.toNat < 0x21 || 0x7e < c.toNat) =
      !b.all fun byte => 0x21 ≤ byte && byte ≤ 0x7e := by
  have hbyte : ∀ n : Fin 128,
      ((Char.ofNat n).toNat < 0x21 || 0x7e < (Char.ofNat n).toNat : Bool) =
        !(0x21 ≤ UInt8.ofNat n && UInt8.ofNat n ≤ 0x7e) := by decide
  induction b with
  | nil => rfl
  | cons byte b ih =>
    have hlt : byte.toNat < 128 := hb byte List.mem_cons_self
    have hone := hbyte ⟨byte.toNat, hlt⟩
    rw [UInt8.ofNat_toNat] at hone
    rw [List.map_cons, List.any_cons, List.all_cons, Bool.not_and, hone,
      ih fun x hx => hb x (List.mem_cons_of_mem byte hx)]

/-- The helper takes the keys that the application takes, when they are not too long to be read. -/
theorem decodeApiKey_iff :
    decodeApiKey b = .ok s ∧ b.length ≤ maxApiKeyBytes ↔ utf8 s = b ∧ validApiKey s = true := by
  have hlength : ∀ {b s}, decodeAscii b = some s → s.length = b.length := by
    intro b s h
    rw [← String.length_toList, toList_of_decodeAscii h, List.length_map]
  constructor
  · rintro ⟨h, hmax⟩
    unfold decodeApiKey at h
    cases hdecode : decodeAscii b with
    | none =>
      rw [hdecode] at h
      cases h
    | some decoded =>
      simp only [hdecode] at h
      split_ifs at h with hchecks
      obtain rfl := Except.ok.inj h
      obtain ⟨rfl, hascii⟩ := decodeAscii_iff.1 hdecode
      have hmin := hlength hdecode
      rw [toList_of_decodeAscii hdecode, any_unprintable hascii, not_or, Bool.not_eq_true,
        Bool.not_eq_false'] at hchecks
      unfold maxApiKeyBytes at hmax
      unfold validApiKey
      rw [hchecks.2, Bool.and_true, Bool.and_eq_true, decide_eq_true_eq, decide_eq_true_eq]
      exact ⟨rfl, by omega, hmax⟩
  · rintro ⟨rfl, h⟩
    unfold validApiKey at h
    simp only [Bool.and_eq_true, decide_eq_true_eq] at h
    obtain ⟨⟨hmin, hmax⟩, hall⟩ := h
    have hascii : ∀ byte ∈ utf8 s, byte < 0x80 := by
      intro byte hbyte
      have h := List.all_eq_true.1 hall byte hbyte
      simp only [Bool.and_eq_true, decide_eq_true_eq] at h
      exact UInt8.lt_of_le_of_lt h.2 (by decide)
    have hdecode : decodeAscii (utf8 s) = some s := decodeAscii_iff.2 ⟨rfl, hascii⟩
    refine ⟨?_, hmax⟩
    unfold decodeApiKey
    simp only [hdecode]
    rw [toList_of_decodeAscii hdecode, any_unprintable hascii, hall, hlength hdecode]
    exact if_neg (by simpa using hmin)

/-! ## Lengths -/

variable {n maximum : ℕ}

theorem fromBytes_toBeBytes (h : n < 2 ^ 32) : fromBytes (toBeBytes n) = n := by
  unfold fromBytes toBeBytes
  simp only [List.foldl_cons, List.foldl_nil, UInt8.toNat_ofNat']
  omega

theorem toBeBytes_fromBytes (h : b.length = 4) : toBeBytes (fromBytes b) = b := by
  obtain ⟨x, y, z, w, rfl⟩ := List.length_eq_four.1 h
  have hx := x.toNat_lt
  have hy := y.toNat_lt
  have hz := z.toNat_lt
  have hw := w.toNat_lt
  have hbyte : ∀ {n : ℕ} {v : UInt8}, n % 256 = v.toNat → UInt8.ofNat n = v := by
    intro n v h
    exact UInt8.toNat_inj.1 (by rw [UInt8.toNat_ofNat']; exact h)
  unfold fromBytes toBeBytes
  simp only [List.foldl_cons, List.foldl_nil]
  rw [hbyte (v := x) (by omega), hbyte (v := y) (by omega), hbyte (v := z) (by omega),
    hbyte (v := w) (by omega)]

/-! ## Reading -/

variable {pipe later : Pipe}

/-- However the bytes arrive, those that are asked for are read. -/
theorem readMissing_ok {s : Bytes} (h : pipe.stream = some (v ++ s)) (hv : v.length = n) :
    ∃ later, readMissing n pipe = .ok (v, later) ∧
      later.stream = some s := by
  fun_induction readMissing n pipe generalizing v with
  | case1 pipe =>
    obtain rfl := List.length_eq_zero_iff.1 hv
    exact ⟨pipe, rfl, h⟩
  | case2 n =>
    have hempty := (List.append_eq_nil_iff.1 (Option.some.inj h).symm).1
    rw [hempty] at hv
    cases hv
  | case3 n pipe => cases h
  | case4 n pipe => cases h
  | case5 n first rest pipe next left hdrop =>
    obtain ⟨tail, htail, heq⟩ := Option.map_eq_some_iff.1 h
    have hlt : n < rest.length := by
      by_contra hle
      rw [List.drop_eq_nil_of_le (by omega)] at hdrop
      cases hdrop
    have htake := congrArg (List.take (n + 1)) heq
    have hrest := congrArg (List.drop (n + 1)) heq
    rw [List.take_left' hv] at htake
    rw [List.drop_left' hv] at hrest
    simp only [List.cons_append, List.take_succ_cons, List.drop_succ_cons,
      List.take_append_of_le_length hlt.le, List.drop_append_of_le_length hlt.le, hdrop]
      at htake hrest
    refine ⟨_, by rw [htake], ?_⟩
    change (Pipe.stream pipe).map (next :: left ++ ·) = some s
    rw [htail, Option.map_some, ← hrest]
    rfl
  | case6 n first rest pipe hdrop ih =>
    obtain ⟨tail, htail, heq⟩ := Option.map_eq_some_iff.1 h
    have hle : rest.length ≤ n := List.drop_eq_nil_iff.1 hdrop
    obtain ⟨more, rfl⟩ : first :: rest <+: v := by
      refine List.prefix_of_prefix_length_le (List.prefix_append (first :: rest) tail)
        (heq ▸ List.prefix_append v s) ?_
      rw [List.length_cons]
      omega
    have hmore : Pipe.stream pipe = some (more ++ s) := by
      rw [List.append_assoc] at heq
      rw [htail, List.append_cancel_left heq]
    have hlength : more.length = n - rest.length := by
      rw [List.length_append, List.length_cons] at hv
      omega
    obtain ⟨later, hread, hlater⟩ := ih hmore hlength
    refine ⟨later, ?_, hlater⟩
    rw [hread]
    rfl

theorem of_readMissing (h : readMissing n pipe = .ok (v, later)) :
    v.length = n ∧ ∀ s, later.stream = some s → pipe.stream = some (v ++ s) := by
  fun_induction readMissing n pipe generalizing v later with
  | case1 pipe =>
    obtain ⟨rfl, rfl⟩ := Prod.mk.inj (Except.ok.inj h)
    exact ⟨rfl, fun s hs => hs⟩
  | case2 n => cases h
  | case3 n pipe => cases h
  | case4 n pipe => cases h
  | case5 n first rest pipe next left hdrop =>
    obtain ⟨rfl, rfl⟩ := Prod.mk.inj (Except.ok.inj h)
    have hlt : n < rest.length := by
      by_contra hle
      rw [List.drop_eq_nil_of_le (by omega)] at hdrop
      cases hdrop
    refine ⟨by rw [List.length_cons, List.length_take, Nat.min_eq_left hlt.le], fun s hs => ?_⟩
    obtain ⟨tail, htail, rfl⟩ := Option.map_eq_some_iff.1 hs
    change (Pipe.stream pipe).map (first :: rest ++ ·) = _
    rw [htail, Option.map_some, ← hdrop]
    simp only [List.cons_append, ← List.append_assoc, List.take_append_drop]
  | case6 n first rest pipe hdrop ih =>
    have hle : rest.length ≤ n := List.drop_eq_nil_iff.1 hdrop
    cases hread : readMissing (n - rest.length) pipe with
    | error e =>
      rw [hread] at h
      cases h
    | ok r =>
      rw [hread] at h
      obtain ⟨rfl, rfl⟩ := Prod.mk.inj (Except.ok.inj h)
      obtain ⟨hlength, hstream⟩ := ih hread
      refine ⟨?_, fun s hs => ?_⟩
      · rw [List.length_append, List.length_cons, hlength]
        omega
      · change (Pipe.stream pipe).map (first :: rest ++ ·) = _
        rw [hstream s hs, Option.map_some, List.append_assoc]

theorem readStdinExact_ok {s : Bytes} (hmax : v.length ≤ maxApiKeyBytes)
    (h : pipe.stream = some (v ++ s)) : ∃ later, readStdinExact v.length pipe = .ok (v, later) ∧
      later.stream = some s := by
  unfold readStdinExact
  rw [if_neg (by unfold maxPasswordBytes maxApiKeyBytes at *; omega)]
  exact readMissing_ok h rfl

theorem of_readStdinExact (h : readStdinExact n pipe = .ok (v, later)) :
    v.length = n ∧ ∀ s, later.stream = some s → pipe.stream = some (v ++ s) := by
  unfold readStdinExact at h
  split_ifs at h
  exact of_readMissing h

theorem readStdinLength_ok {s : Bytes} (hpos : 0 < n) (hmax : n ≤ maximum) (hsize : n < 2 ^ 32)
    (h : pipe.stream = some (toBeBytes n ++ s)) :
    ∃ later, readStdinLength maximum pipe = .ok (n, later) ∧ later.stream = some s := by
  obtain ⟨later, hread, hlater⟩ := readStdinExact_ok (v := toBeBytes n)
    (show 4 ≤ maxApiKeyBytes by decide) h
  refine ⟨later, ?_, hlater⟩
  unfold readStdinLength
  rw [show 4 = (toBeBytes n).length from rfl, hread]
  change (if fromBytes (toBeBytes n) = 0 ∨ maximum < fromBytes (toBeBytes n) then _ else
    (.ok (fromBytes (toBeBytes n), later) : Except KeyManagerError (ℕ × Pipe))) = _
  rw [fromBytes_toBeBytes hsize, if_neg (by omega)]

theorem of_readStdinLength (h : readStdinLength maximum pipe = .ok (n, later)) :
    n ≤ maximum ∧ ∀ s, later.stream = some s → pipe.stream = some (toBeBytes n ++ s) := by
  unfold readStdinLength at h
  cases hread : readStdinExact 4 pipe with
  | error e =>
    rw [hread] at h
    cases h
  | ok r =>
    rw [hread] at h
    change (if fromBytes r.1 = 0 ∨ maximum < fromBytes r.1 then _ else
      (.ok (fromBytes r.1, r.2) : Except KeyManagerError (ℕ × Pipe))) = _ at h
    split_ifs at h with hbad
    obtain ⟨rfl, rfl⟩ := Prod.mk.inj (Except.ok.inj h)
    obtain ⟨hlength, hstream⟩ := of_readStdinExact hread
    rw [toBeBytes_fromBytes hlength]
    exact ⟨by omega, hstream⟩

theorem requireEnd_ok (h : pipe.stream = some []) : requireEnd pipe = .ok () := by
  cases pipe with
  | nil => rfl
  | cons a pipe =>
    cases a with
    | late => cases h
    | failed => cases h
    | bytes first rest =>
      obtain ⟨tail, -, heq⟩ := Option.map_eq_some_iff.1 h
      cases heq

theorem of_requireEnd (h : requireEnd pipe = .ok ()) : pipe.stream = some [] := by
  cases pipe with
  | nil => rfl
  | cons a pipe => cases a <;> cases h

/-! ## Frames -/

def fields (password apiKey : Bytes) : Bytes :=
  toBeBytes password.length ++ (password ++ (toBeBytes apiKey.length ++ (apiKey ++ [])))

theorem readFields_ok {password apiKey : Bytes} (h : pipe.stream = some (fields password apiKey))
    (hpassword : 0 < password.length) (hkey : 0 < apiKey.length)
    (hmaxPassword : password.length ≤ maxPasswordBytes) (hmaxKey : apiKey.length ≤ maxApiKeyBytes) :
    readFields pipe = .ok (password, apiKey) := by
  unfold maxPasswordBytes at hmaxPassword
  unfold maxApiKeyBytes at hmaxKey
  obtain ⟨pipe₁, h₁, hs₁⟩ := readStdinLength_ok hpassword
    (show _ ≤ maxPasswordBytes from hmaxPassword) (by omega) h
  obtain ⟨pipe₂, h₂, hs₂⟩ := readStdinExact_ok (by unfold maxApiKeyBytes; omega) hs₁
  obtain ⟨pipe₃, h₃, hs₃⟩ := readStdinLength_ok hkey
    (show _ ≤ maxApiKeyBytes from hmaxKey) (by omega) hs₂
  obtain ⟨pipe₄, h₄, hs₄⟩ := readStdinExact_ok hmaxKey hs₃
  have hend := requireEnd_ok hs₄
  unfold readFields
  simp only [h₁, h₂, h₃, h₄, hend, bind, Except.bind, pure, Except.pure]

theorem of_readFields {password apiKey : Bytes} (h : readFields pipe = .ok (password, apiKey)) :
    pipe.stream = some (fields password apiKey) ∧ password.length ≤ maxPasswordBytes ∧
      apiKey.length ≤ maxApiKeyBytes := by
  unfold readFields at h
  cases h₁ : readStdinLength maxPasswordBytes pipe with
  | error e => rw [h₁] at h; cases h
  | ok r₁ =>
  obtain ⟨n, pipe₁⟩ := r₁
  cases h₂ : readStdinExact n pipe₁ with
  | error e => simp only [h₁, h₂, bind, Except.bind] at h; cases h
  | ok r₂ =>
  obtain ⟨p, pipe₂⟩ := r₂
  cases h₃ : readStdinLength maxApiKeyBytes pipe₂ with
  | error e => simp only [h₁, h₂, h₃, bind, Except.bind] at h; cases h
  | ok r₃ =>
  obtain ⟨m, pipe₃⟩ := r₃
  cases h₄ : readStdinExact m pipe₃ with
  | error e => simp only [h₁, h₂, h₃, h₄, bind, Except.bind] at h; cases h
  | ok r₄ =>
  obtain ⟨k, pipe₄⟩ := r₄
  cases hend : requireEnd pipe₄ with
  | error e => simp only [h₁, h₂, h₃, h₄, hend, bind, Except.bind] at h; cases h
  | ok u =>
    simp only [h₁, h₂, h₃, h₄, hend, bind, Except.bind, pure, Except.pure] at h
    obtain ⟨rfl, rfl⟩ := Prod.mk.inj (Except.ok.inj h)
    obtain ⟨hmaxPassword, hs₁⟩ := of_readStdinLength h₁
    obtain ⟨rfl, hs₂⟩ := of_readStdinExact h₂
    obtain ⟨hmaxKey, hs₃⟩ := of_readStdinLength h₃
    obtain ⟨rfl, hs₄⟩ := of_readStdinExact h₄
    exact ⟨hs₁ _ (hs₂ _ (hs₃ _ (hs₄ _ (of_requireEnd hend)))), hmaxPassword, hmaxKey⟩

/-- A frame says where it ends, and its fields are those that were framed. -/
theorem fields_inj {p k p' k' rest : Bytes} (hp : p.length < 2 ^ 32) (hp' : p'.length < 2 ^ 32)
    (hk : k.length < 2 ^ 32) (hk' : k'.length < 2 ^ 32)
    (h : fields p k ++ rest = fields p' k') : p = p' ∧ k = k' ∧ rest = [] := by
  have hlength : ∀ {v v' : Bytes}, v.length < 2 ^ 32 → v'.length < 2 ^ 32 →
      toBeBytes v.length = toBeBytes v'.length → v.length = v'.length := by
    intro v v' hv hv' h
    rw [← fromBytes_toBeBytes hv, ← fromBytes_toBeBytes hv', h]
  unfold fields at h
  simp only [List.append_assoc, List.append_nil] at h
  obtain ⟨hn, hafter⟩ := List.append_inj h rfl
  obtain ⟨hpp, hkey⟩ := List.append_inj hafter (hlength hp hp' hn)
  obtain ⟨hm, hend⟩ := List.append_inj hkey rfl
  have hsize := congrArg List.length hend
  rw [List.length_append, hlength hk hk' hm] at hsize
  have hrest : rest = [] := List.length_eq_zero_iff.1 (by omega)
  rw [hrest, List.append_nil] at hend
  exact ⟨hpp, hend, hrest⟩

theorem buildKeyFrame_iff {frame : Bytes} :
    buildKeyFrame password apiKey = .ok frame ↔ (utf8 password).length < 2 ^ 32 ∧
      (utf8 apiKey).length < 2 ^ 32 ∧
        frame = stdinMagic ++ fields (utf8 password) (utf8 apiKey) := by
  have happend : ∀ output value : Bytes, appendKeyFrame output value =
      if value.length < 2 ^ 32 then .ok (output ++ (toBeBytes value.length ++ value))
      else .error ⟨"credential_invalid",
        "Les identifiants saisis ne respectent pas les limites locales."⟩ := by
    intro output value
    rw [← List.append_assoc]
    rfl
  unfold buildKeyFrame fields
  simp only [happend, List.append_nil]
  by_cases hp : (utf8 password).length < 2 ^ 32
  · rw [if_pos hp]
    change (if (utf8 apiKey).length < 2 ^ 32 then _ else _) = _ ↔ _
    by_cases hk : (utf8 apiKey).length < 2 ^ 32
    · rw [if_pos hk, Except.ok.injEq]
      simp only [hp, hk, true_and, List.append_assoc]
      exact eq_comm
    · rw [if_neg hk]
      constructor
      · intro h
        cases h
      · rintro ⟨-, h, -⟩
        exact absurd h hk
  · rw [if_neg hp]
    constructor
    · intro h
      cases h
    · rintro ⟨h, -⟩
      exact absurd h hp

/-- The helper takes the credentials from the stream, in some order of arrival. -/
def Accepts (uid : ℕ) (stream : Bytes) (credentials : String × String) : Prop :=
  ∃ stdin : Stdin, stdin.pipe.stream = some stream ∧
    credentialsFromStdin uid stdin = .ok credentials

/-- What the helper takes from its standard input is the frame of checked credentials. -/
theorem frame_of_credentialsFromStdin {uid : ℕ} {stdin : Stdin}
    (h : credentialsFromStdin uid stdin = .ok (password, apiKey)) :
    (validOpenbaoPassword password = true ∧ validApiKey apiKey = true) ∧
      ∃ frame, stdin.pipe.stream = some frame ∧ buildKeyFrame password apiKey = .ok frame := by
  unfold credentialsFromStdin readStdinCredentials at h
  cases hvalid : validatePrivateStdinPipe uid stdin with
  | error e => rw [hvalid] at h; cases h
  | ok u =>
  cases hmagic : readStdinExact stdinMagic.length stdin.pipe with
  | error e => simp only [hvalid, hmagic, bind, Except.bind] at h; cases h
  | ok r =>
  obtain ⟨magic, pipe⟩ := r
  simp only [hvalid, hmagic, bind, Except.bind] at h
  split_ifs at h with heq
  rw [not_not] at heq
  cases hfields : readFields pipe with
  | error e => simp only [hfields] at h; cases h
  | ok r =>
  obtain ⟨p, k⟩ := r
  simp only [hfields] at h
  cases hp : decodePassword p with
  | error e => simp only [hp] at h; cases h
  | ok decodedPassword =>
  cases hk : decodeApiKey k with
  | error e => simp only [hp, hk] at h; cases h
  | ok decodedKey =>
    simp only [hp, hk, pure, Except.pure] at h
    obtain ⟨rfl, rfl⟩ := Prod.mk.inj (Except.ok.inj h)
    obtain ⟨hstream, hmaxPassword, hmaxKey⟩ := of_readFields hfields
    obtain ⟨rfl, hvalidPassword⟩ := decodePassword_iff.1 hp
    obtain ⟨rfl, hvalidKey⟩ := decodeApiKey_iff.1 ⟨hk, hmaxKey⟩
    refine ⟨⟨hvalidPassword, hvalidKey⟩, _, (of_readStdinExact hmagic).2 _ hstream, ?_⟩
    unfold maxPasswordBytes at hmaxPassword
    unfold maxApiKeyBytes at hmaxKey
    exact buildKeyFrame_iff.2 ⟨by omega, by omega, by rw [heq]⟩

/-- The frame of checked credentials is taken, however it arrives. -/
theorem credentialsFromStdin_frame (uid : ℕ) (hpassword : validOpenbaoPassword password = true)
    (hkey : validApiKey apiKey = true)
    (h : pipe.stream = some (stdinMagic ++ fields (utf8 password) (utf8 apiKey))) :
    credentialsFromStdin uid (piped uid pipe) = .ok (password, apiKey) := by
  have hdecodePassword := decodePassword_iff.2 ⟨rfl, hpassword⟩
  obtain ⟨hdecodeKey, hmaxKey⟩ := decodeApiKey_iff.2 ⟨rfl, hkey⟩
  unfold validOpenbaoPassword at hpassword
  unfold validApiKey at hkey
  simp only [Bool.and_eq_true, decide_eq_true_eq] at hpassword hkey
  obtain ⟨⟨⟨hmin, hmax⟩, -⟩, -⟩ := hpassword
  have hle := length_utf8_le password
  have hpositive : 0 < (utf8 password).length := by
    rcases Nat.eq_zero_or_pos (utf8 password).length with hzero | hpos
    · have hempty : password = "" :=
        utf8_injective (List.length_eq_zero_iff.1 hzero)
      rw [hempty] at hmin
      exact absurd hmin (by decide)
    · exact hpos
  have hvalid : validatePrivateStdinPipe uid (piped uid pipe) = .ok () := by
    unfold validatePrivateStdinPipe piped
    exact if_neg (by simp)
  obtain ⟨later, hmagic, hlater⟩ := readStdinExact_ok (by decide) h
  have hfields := readFields_ok hlater hpositive (by omega)
    (by unfold maxPasswordBytes; omega) hmaxKey
  unfold credentialsFromStdin readStdinCredentials
  simp only [hvalid, show (piped uid pipe).pipe = pipe from rfl, hmagic, bind, Except.bind,
    ne_eq, not_true_eq_false, if_false, hfields, hdecodePassword, hdecodeKey, pure, Except.pure]

/-- The application and the helper agree: the frame of checked credentials is taken however the
pipe splits it, and gives them back; what the helper accepts is the frame of one pair, a pair has
one accepted stream, and no accepted stream goes on to another. -/
theorem key_frames_agree (uid : ℕ) :
    (∀ password apiKey : String, validOpenbaoPassword password = true →
      validApiKey apiKey = true → ∃ frame, buildKeyFrame password apiKey = .ok frame ∧
        ∀ pipe : Pipe, pipe.stream = some frame →
          credentialsFromStdin uid (piped uid pipe) = .ok (password, apiKey)) ∧
    (∀ (stdin : Stdin) (password apiKey : String),
      credentialsFromStdin uid stdin = .ok (password, apiKey) →
        validOpenbaoPassword password = true ∧ validApiKey apiKey = true ∧
        ∃ frame, stdin.pipe.stream = some frame ∧ buildKeyFrame password apiKey = .ok frame ∧
          ∀ p k, buildKeyFrame p k = .ok frame → p = password ∧ k = apiKey) ∧
    (∀ stream stream' credentials, Accepts uid stream credentials →
      Accepts uid stream' credentials → stream = stream') ∧
    ∀ stream stream' credentials credentials', Accepts uid stream credentials →
      Accepts uid stream' credentials' → stream <+: stream' → stream = stream' := by
  have hframe : ∀ {stream credentials}, Accepts uid stream credentials →
      buildKeyFrame credentials.1 credentials.2 = .ok stream := by
    rintro stream ⟨password, apiKey⟩ ⟨stdin, hstream, h⟩
    obtain ⟨-, frame, hframe, hbuild⟩ := frame_of_credentialsFromStdin h
    rw [hstream] at hframe
    rw [hbuild, Option.some.inj hframe]
  refine ⟨fun password apiKey hpassword hkey => ?_, fun stdin password apiKey h => ?_,
    fun stream stream' credentials h h' => ?_,
    fun stream stream' credentials credentials' h h' => ?_⟩
  · obtain ⟨-, hmaxKey⟩ := decodeApiKey_iff.2 ⟨rfl, hkey⟩
    have hle := length_utf8_le password
    have hmax : password.length ≤ 100 := by
      unfold validOpenbaoPassword at hpassword
      simp only [Bool.and_eq_true, decide_eq_true_eq] at hpassword
      exact hpassword.1.1.2
    unfold maxApiKeyBytes at hmaxKey
    exact ⟨_, buildKeyFrame_iff.2 ⟨by omega, by omega, rfl⟩,
      fun pipe hpipe => credentialsFromStdin_frame uid hpassword hkey hpipe⟩
  · obtain ⟨⟨hpassword, hkey⟩, frame, hstream, hbuild⟩ := frame_of_credentialsFromStdin h
    refine ⟨hpassword, hkey, frame, hstream, hbuild, fun p k hother => ?_⟩
    obtain ⟨hp, hk, rfl⟩ := buildKeyFrame_iff.1 hbuild
    obtain ⟨hp', hk', heq⟩ := buildKeyFrame_iff.1 hother
    have hfields := List.append_cancel_left heq
    rw [← List.append_nil (fields _ _)] at hfields
    obtain ⟨hpp, hkk, -⟩ := fields_inj hp hp' hk hk' hfields
    exact ⟨(utf8_injective hpp).symm, (utf8_injective hkk).symm⟩
  · have hsame := hframe h
    rw [hframe h'] at hsame
    exact (Except.ok.inj hsame).symm
  · rintro ⟨rest, hrest⟩
    obtain ⟨hp, hk, rfl⟩ := buildKeyFrame_iff.1 (hframe h)
    obtain ⟨hp', hk', rfl⟩ := buildKeyFrame_iff.1 (hframe h')
    rw [List.append_assoc] at hrest
    obtain ⟨-, -, rfl⟩ := fields_inj hp hp' hk hk' (List.append_cancel_left hrest)
    rw [← hrest, List.append_nil]

theorem key_frames_agree_sample : ∃ frame,
    buildKeyFrame "correct horse battery" "sk-sample" = .ok frame ∧
    ∀ first second rest rest', frame = first :: rest ++ second :: rest' →
      credentialsFromStdin 1000 (piped 1000 [.bytes first rest, .bytes second rest']) =
        .ok ("correct horse battery", "sk-sample") := by
  obtain ⟨frame, hframe, htaken⟩ := (key_frames_agree 1000).1 "correct horse battery" "sk-sample"
    (by decide) (by decide)
  refine ⟨frame, hframe, fun first second rest rest' hsplit => htaken _ ?_⟩
  simp [Pipe.stream, hsplit]

end OpsKeys
