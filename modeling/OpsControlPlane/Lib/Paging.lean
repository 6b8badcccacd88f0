import Mathlib.Data.List.Basic
import Mathlib.Tactic

/-!
# Reading a list page by page

A reader goes through rows page by page and handles each row of a page. A row that cannot be
handled stops the reader before its cursor moves. The cursor is the number of the last row
(`cursorPages`), or the number of rows that were read and zero again after the last page
(`offsetPages`).

`cursorPages_spec` and `offsetPages_spec` say what one turn of the reader does: a row that is
left behind was handled, a row that cannot be handled stays ahead of the cursor, and a turn in
which every row can be handled goes on. `foldlM_turn` finds the turn of one reader among the
turns of several.

A reader that only follows the cursor may see rows that are added between two pages (`following`).
It reads the rows that were there when it began once and in order (`filter_following`).
-/

namespace Paging

variable {α σ ε : Type}

/-! ## Readers -/

def rest (number : α → ℕ) (rows : List α) (after : ℕ) : List α :=
  rows.filter fun a => after < number a

def page (number : α → ℕ) (rows : List α) (after limit : ℕ) : List α × ℕ :=
  let rows := (rest number rows after).take limit
  (rows, (rows.getLast?.map number).getD after)

/-- Handle each row. The flag says that some row could not be handled. -/
def each (f : α → σ → σ × Bool) : List α → σ → σ × Bool
  | [], s => (s, false)
  | a :: as, s => ((each f as (f a s).1).1, (f a s).2 || (each f as (f a s).1).2)

def cursorPages (size : ℕ) (fetch : ℕ → List α × ℕ) (f : α → σ → σ × Bool) (set : ℕ → σ → σ)
    (spent : σ → σ) : ℕ → ℕ → σ → σ
  | 0, _, s => spent s
  | n + 1, position, s =>
    let p := fetch position
    let r := each f p.1 s
    if r.2 then r.1
    else if p.1.length < size then set p.2 r.1
    else cursorPages size fetch f set spent n p.2 (set p.2 r.1)

def offsetPages (size : ℕ) (fetch : ℕ → Except ε (List α)) (f : α → σ → σ × Bool)
    (set : ℕ → σ → σ) (spent : σ → σ) : ℕ → ℕ → σ → Except ε σ
  | 0, _, s => .ok (spent s)
  | n + 1, offset, s =>
    match fetch offset with
    | .error e => .error e
    | .ok items =>
      let r := each f items s
      if r.2 then .ok r.1
      else
        let offset := if items.length = size then offset + items.length else 0
        if items.length < size then .ok (set offset r.1)
        else offsetPages size fetch f set spent n offset (set offset r.1)

/-! ## Rows -/

variable {after size o : ℕ}

theorem mem_rest {number : α → ℕ} {rows : List α} {a : α} :
    a ∈ rest number rows after ↔ a ∈ rows ∧ after < number a := by
  simp [rest]

theorem rest_of_split {number : α → ℕ} {rows : List α} {l r : List α} {a : α}
    (hs : rows.Pairwise fun a b => number a < number b) (h : rest number rows after = l ++ a :: r) :
    rest number rows (number a) = r := by
  have hp : (l ++ a :: r).Pairwise fun a b => number a < number b := by
    rw [← h]
    exact hs.filter _
  have hafter : after < number a := by
    have hmem : a ∈ rest number rows after := by simp [h]
    exact (mem_rest.1 hmem).2
  have hrest : rest number rows (number a) =
      (rest number rows after).filter fun b => number a < number b := by
    simp only [rest, List.filter_filter]
    refine List.filter_congr fun b _ => ?_
    by_cases hb : number a < number b
    · simp [hb, hafter.trans hb]
    · simp [hb]
  obtain ⟨-, hr, hlr⟩ := List.pairwise_append.1 hp
  have ha := (List.pairwise_cons.1 hr).1
  rw [hrest, h, List.filter_append, List.filter_cons_of_neg (by simp)]
  rw [List.filter_eq_nil_iff.2 fun b hb => ?_, List.filter_eq_self.2 fun b hb => ?_]
  · rfl
  · simpa using ha b hb
  · have := hlr b hb a (by simp)
    simp
    omega

theorem rest_page {number : α → ℕ} {rows : List α} (after : ℕ) {limit : ℕ}
    (hs : rows.Pairwise fun a b => number a < number b) (hl : 0 < limit) :
    rest number rows (page number rows after limit).2 = (rest number rows after).drop limit := by
  rcases List.eq_nil_or_concat ((rest number rows after).take limit) with h | ⟨l, a, h⟩
  · have hnil : rest number rows after = [] := by
      rcases List.take_eq_nil_iff.1 h with h | h
      · omega
      · exact h
    simp [page, hnil]
  · have hsplit : rest number rows after = l ++ a :: (rest number rows after).drop limit := by
      conv_lhs => rw [← List.take_append_drop limit (rest number rows after), h]
      simp
    have hnext : (page number rows after limit).2 = number a := by
      simp [page, h]
    rw [hnext]
    exact rest_of_split hs hsplit

/-! ## One turn -/

/-- How the rows of a list are handled: the invariant, what is kept from one state to a later
one, which rows cannot be handled, and that the others are. -/
structure Handles (I : σ → Prop) (R : σ → σ → Prop) (cursor : σ → ℕ) (bad : α → Bool)
    (done : α → σ → Prop) (f : α → σ → σ × Bool) (a : α) : Prop where
  step : ∀ s, I s → I (f a s).1 ∧ R s (f a s).1 ∧ cursor (f a s).1 = cursor s ∧
    (f a s).2 = bad a ∧ (bad a = false → done a (f a s).1)

structure Frame (I : σ → Prop) (R : σ → σ → Prop) (cursor : σ → ℕ) (done : α → σ → Prop)
    (set : ℕ → σ → σ) (spent : σ → σ) : Prop where
  refl : ∀ s, R s s
  trans : ∀ s t u, R s t → R t u → R s u
  keeps : ∀ a s t, R s t → done a s → done a t
  set : ∀ n s, I s → I (set n s) ∧ R s (set n s) ∧ cursor (set n s) = n
  spent : ∀ s, I s → I (spent s) ∧ R s (spent s) ∧ cursor (spent s) = cursor s

variable {I : σ → Prop} {R : σ → σ → Prop} {cursor : σ → ℕ} {bad : α → Bool}
  {done : α → σ → Prop} {f : α → σ → σ × Bool} {set : ℕ → σ → σ} {spent : σ → σ} {s t : σ}

theorem each_spec (fr : Frame I R cursor done set spent) {as : List α}
    (ha : ∀ a ∈ as, Handles I R cursor bad done f a) (hs : I s) :
    I (each f as s).1 ∧ R s (each f as s).1 ∧ cursor (each f as s).1 = cursor s ∧
      ((each f as s).2 = as.any bad) ∧ ∀ a ∈ as, bad a = false → done a (each f as s).1 := by
  induction as generalizing s with
  | nil => exact ⟨hs, fr.refl s, rfl, rfl, by simp⟩
  | cons a as ih =>
    obtain ⟨hi, hr, hc, hb, hd⟩ := (ha a (by simp)).step s hs
    obtain ⟨hi', hr', hc', hb', hd'⟩ := ih (fun b hb => ha b (by simp [hb])) hi
    refine ⟨hi', fr.trans _ _ _ hr hr', hc'.trans hc, ?_, ?_⟩
    · simp only [each, List.any_cons, hb, hb']
    · intro b hmem hbad
      rcases List.mem_cons.1 hmem with rfl | hmem
      · exact fr.keeps _ _ _ hr' (hd hbad)
      · exact hd' b hmem hbad

structure CursorTurn (I : σ → Prop) (R : σ → σ → Prop) (cursor : σ → ℕ) (bad : α → Bool)
    (done : α → σ → Prop) (left : ℕ → List α) (n : ℕ) (s t : σ) : Prop where
  inv : I t
  keeps : R s t
  suffix : left (cursor t) <:+ left (cursor s)
  handled : ∀ a ∈ left (cursor s), a ∈ left (cursor t) ∨ done a t
  stuck : ∀ a ∈ left (cursor s), bad a = true → a ∈ left (cursor t)
  goes : 0 < n → (∀ a ∈ left (cursor s), bad a = false) →
    (left (cursor t)).length ≤ (left (cursor s)).length - 1

theorem cursorPages_spec (cursor : σ → ℕ) {number : α → ℕ} {rows : List α}
    (fr : Frame I R cursor done set spent) (hsize : 0 < size)
    (hsort : rows.Pairwise fun a b => number a < number b)
    (ha : ∀ a ∈ rows, Handles I R cursor bad done f a) (n : ℕ) (hs : I s) :
    CursorTurn I R cursor bad done (rest number rows) n s
      (cursorPages size (fun c => page number rows c size) f set spent n (cursor s) s) := by
  induction n generalizing s with
  | zero =>
    obtain ⟨hi, hr, hc⟩ := fr.spent s hs
    refine ⟨hi, hr, ?_, ?_, ?_, fun h => absurd h (lt_irrefl 0)⟩
    all_goals
      simp only [cursorPages, hc]
    · exact List.suffix_rfl
    · exact fun a ha => Or.inl ha
    · exact fun a ha _ => ha
  | succ n ih =>
    have hrest := rest_page (cursor s) hsort hsize
    have hpage : (page number rows (cursor s) size).1 =
        (rest number rows (cursor s)).take size := rfl
    have hcase :
        cursorPages size (fun c => page number rows c size) f set spent (n + 1) (cursor s) s =
        (let p := page number rows (cursor s) size
        let r := each f p.1 s
        if r.2 then r.1 else
          let next := set p.2 r.1
          if p.1.length < size then next
          else cursorPages size (fun c => page number rows c size) f set spent n p.2 next) := rfl
    rw [hcase]
    generalize page number rows (cursor s) size = p at hrest hpage ⊢
    dsimp only
    have heach : ∀ a ∈ p.1, Handles I R cursor bad done f a := fun a h =>
      ha a (mem_rest.1 (List.mem_of_mem_take (hpage ▸ h))).1
    obtain ⟨hi, hr, hc, hb, hd⟩ := each_spec fr heach hs
    rw [hb]
    by_cases hfail : p.1.any bad = true
    · rw [if_pos hfail]
      refine ⟨hi, hr, by rw [hc], fun a h => .inl (by rwa [hc]), fun a h _ => by rwa [hc], ?_⟩
      intro _ hall
      obtain ⟨a, hapage, habad⟩ := List.any_eq_true.1 hfail
      have := hall a (List.mem_of_mem_take (hpage ▸ hapage))
      simp [this] at habad
    · have hgood : ∀ a ∈ p.1, bad a = false := by
        simpa using hfail
      rw [if_neg hfail]
      -- the state behind the page
      obtain ⟨hi₁, hr₁, hc₁⟩ := fr.set p.2 _ hi
      have hsuffix : rest number rows p.2 <:+ rest number rows (cursor s) := by
        rw [hrest]
        exact List.drop_suffix _ _
      have hbehind : ∀ a ∈ rest number rows (cursor s), a ∈ p.1 ∨ a ∈ rest number rows p.2 := by
        intro a h
        rw [hrest, hpage, ← List.mem_append, List.take_append_drop]
        exact h
      have hdone : ∀ t, R (set p.2 (each f p.1 s).1) t → ∀ a ∈ p.1, done a t := by
        intro t ht a h
        exact fr.keeps _ _ _ (fr.trans _ _ _ hr₁ ht) (hd a h (hgood a h))
      have hstuck : ∀ a ∈ rest number rows (cursor s), bad a = true → a ∈ rest number rows p.2 := by
        intro a h hbad
        refine (hbehind a h).resolve_left fun hp => ?_
        rw [hgood a hp] at hbad
        cases hbad
      have hshort : (rest number rows p.2).length ≤ (rest number rows (cursor s)).length - 1 := by
        rw [hrest, List.length_drop]
        omega
      by_cases hlen : p.1.length < size
      · rw [if_pos hlen]
        refine ⟨hi₁, fr.trans _ _ _ hr hr₁, ?_, ?_, ?_, ?_⟩
        all_goals
          rw [hc₁]
        · exact hsuffix
        · exact fun a h => (hbehind a h).symm.imp_right fun h => hdone _ (fr.refl _) a h
        · exact hstuck
        · exact fun _ _ => hshort
      · rw [if_neg hlen]
        have hturn := ih hi₁
        rw [hc₁] at hturn
        obtain ⟨ti, tr, tsuf, thandled, tstuck, tgoes⟩ := hturn
        rw [hc₁] at tsuf thandled tstuck tgoes
        refine ⟨ti, fr.trans _ _ _ (fr.trans _ _ _ hr hr₁) tr, tsuf.trans hsuffix, ?_, ?_, ?_⟩
        · intro a h
          rcases hbehind a h with h | h
          · exact Or.inr (hdone _ tr a h)
          · exact thandled a h
        · exact fun a h hbad => tstuck a (hstuck a h hbad) hbad
        · exact fun _ _ => tsuf.length_le.trans hshort

/-! ## Offsets -/

def Open (size : ℕ) (rows : List α) (bad : α → Bool) (i : ℕ) : Prop :=
  ∀ j b, j / size < i / size → rows[j]? = some b → bad b = false

/-- The rows in front of the offset were handled. -/
structure Reached (size : ℕ) (rows : List α) (cursor : σ → ℕ) (bad : α → Bool)
    (done : α → σ → Prop) (s : σ) : Prop where
  aligned : size ∣ cursor s
  bounded : cursor s ≤ rows.length
  handled : ∀ i < cursor s, ∀ a, rows[i]? = some a → bad a = false ∧ done a s

/-- Every row that no earlier page stops was handled, unless it cannot be. -/
def Complete (size : ℕ) (rows : List α) (bad : α → Bool) (done : α → σ → Prop) (s : σ) : Prop :=
  ∀ i a, rows[i]? = some a → Open size rows bad i → bad a = false → done a s

/-- The reader comes to an offset beyond the bound. -/
def Overruns (size bound : ℕ) (rows : List α) (bad : α → Bool) : Prop :=
  ∃ o, bound < o ∧ o ≤ rows.length ∧ size ∣ o ∧
    ∀ i < o, ∀ a, rows[i]? = some a → bad a = false

structure OffsetTurn (size bound : ℕ) (rows : List α) (I : σ → Prop) (R : σ → σ → Prop)
    (cursor : σ → ℕ) (bad : α → Bool) (done : α → σ → Prop) (n : ℕ) (s t : σ) : Prop where
  inv : I t
  keeps : R s t
  reached : Reached size rows cursor bad done t
  goes : Complete size rows bad done t ∨ cursor t = cursor s + size * n
  climbs : Overruns size bound rows bad → cursor t = cursor s + size * n

theorem page_of_le {i : ℕ} (hsize : 0 < size) (ho : size ∣ o) (hi : o ≤ i) :
    (∃ k < size, i = o + k) ∨ o / size < i / size := by
  obtain ⟨q, rfl⟩ := ho
  by_cases h : i < size * q + size
  · exact Or.inl ⟨i - size * q, by omega, by omega⟩
  · right
    rw [Nat.mul_div_cancel_left q hsize]
    have : q + 1 ≤ i / size := by
      rw [Nat.le_div_iff_mul_le hsize]
      calc (q + 1) * size = size * q + size := by ring
        _ ≤ i := by omega
    omega

theorem div_page {k : ℕ} (ho : size ∣ o) (hk : k < size) : (o + k) / size = o / size := by
  obtain ⟨q, rfl⟩ := ho
  have hsize : 0 < size := by omega
  rw [Nat.mul_add_div hsize, Nat.div_eq_of_lt hk, Nat.add_zero, Nat.mul_div_cancel_left q hsize]

section page

variable {rows items : List α} {bound : ℕ}

theorem getElem?_page {k : ℕ} (hitems : (rows.drop o).take size = items) (hk : k < size) :
    items[k]? = rows[o + k]? := by
  rw [← hitems, List.getElem?_take_of_lt hk, List.getElem?_drop]

theorem length_page (hitems : (rows.drop o).take size = items) :
    items.length = min size (rows.length - o) := by
  rw [← hitems, List.length_take, List.length_drop]

theorem mem_page {a : α} (hitems : (rows.drop o).take size = items) (h : a ∈ items) :
    ∃ k < size, rows[o + k]? = some a := by
  have hlen := length_page hitems
  obtain ⟨k, hk, rfl⟩ := List.mem_iff_getElem.1 h
  have hlt : k < size := by omega
  exact ⟨k, hlt, by rw [← getElem?_page hitems hlt, List.getElem?_eq_getElem hk]⟩

/-- A row up to the end of a page is in front of it or on it. -/
theorem mem_page_of_lt {i : ℕ} {a : α} (hitems : (rows.drop o).take size = items)
    (hlt : i < o + items.length) (hget : rows[i]? = some a) : i < o ∨ a ∈ items := by
  have hlen := length_page hitems
  refine or_iff_not_imp_left.2 fun hback => List.mem_of_getElem? (i := i - o) ?_
  rw [getElem?_page hitems (by omega), ← hget, Nat.add_sub_cancel' (not_lt.1 hback)]

/-- A reader that will come beyond the bound has a whole page in front of it that it can handle. -/
theorem Overruns.page (h : Overruns size bound rows bad) (hsize : 0 < size) (hbound : size ∣ bound)
    (ho : size ∣ o) (hle : ¬bound < o) (hitems : (rows.drop o).take size = items) {k : ℕ}
    (hk : k < size) : ∃ a, items[k]? = some a ∧ bad a = false := by
  obtain ⟨o', hbo, holen, hdvd, hgood⟩ := h
  have hnext : o + size ≤ o' := by
    obtain ⟨q, rfl⟩ := ho
    obtain ⟨b, rfl⟩ := hbound
    obtain ⟨p, rfl⟩ := hdvd
    have hqb : q ≤ b := Nat.le_of_mul_le_mul_left (not_lt.1 hle) hsize
    have hbp : b + 1 ≤ p := Nat.lt_of_mul_lt_mul_left hbo
    calc size * q + size = size * (q + 1) := by ring
      _ ≤ size * p := Nat.mul_le_mul_left _ (by omega)
  have hin : o + k < rows.length := by omega
  refine ⟨rows[o + k], ?_, hgood (o + k) (by omega) _ (List.getElem?_eq_getElem hin)⟩
  rw [getElem?_page hitems hk, List.getElem?_eq_getElem hin]

theorem Reached.keep (fr : Frame I R cursor done set spent)
    (hr : Reached size rows cursor bad done s) (hR : R s t) (hc : cursor t = cursor s) :
    Reached size rows cursor bad done t := by
  refine ⟨by rw [hc]; exact hr.aligned, by rw [hc]; exact hr.bounded, fun i hlt a hrow => ?_⟩
  rw [hc] at hlt
  obtain ⟨hbad, hdone⟩ := hr.handled i hlt a hrow
  exact ⟨hbad, fr.keeps _ _ _ hR hdone⟩

theorem Reached.open (hr : Reached size rows cursor bad done s) {k : ℕ} (hk : k < size) :
    Open size rows bad (cursor s + k) := by
  intro j b hj hrow
  refine (hr.handled j ?_ b hrow).1
  rwa [div_page hr.aligned hk, Nat.div_lt_iff_lt_mul (by omega),
    Nat.div_mul_cancel hr.aligned] at hj

variable {u : σ}

/-- The rows up to the end of a page whose rows were handled. -/
theorem Reached.seen (fr : Frame I R cursor done set spent)
    (hr : Reached size rows cursor bad done s) (hitems : (rows.drop (cursor s)).take size = items)
    (hR : R s t) (hd : ∀ a ∈ items, bad a = false → done a t) (ht : R t u) {i : ℕ} {a : α}
    (hlt : i < cursor s + items.length) (hget : rows[i]? = some a) (hbad : bad a = false) :
    done a u := by
  rcases mem_page_of_lt hitems hlt hget with hback | hmem
  · exact fr.keeps _ _ _ (fr.trans _ _ _ hR ht) (hr.handled i hback a hget).2
  · exact fr.keeps _ _ _ ht (hd a hmem hbad)

/-- A page with a row that cannot be handled ends the turn. -/
theorem OffsetTurn.stuck (fr : Frame I R cursor done set spent) (hsize : 0 < size)
    (hbound : size ∣ bound) (hr : Reached size rows cursor bad done s) (hle : ¬bound < cursor s)
    (hitems : (rows.drop (cursor s)).take size = items) (ht : I t) (hR : R s t)
    (hc : cursor t = cursor s) (hd : ∀ a ∈ items, bad a = false → done a t)
    (hfail : items.any bad = true) (n : ℕ) :
    OffsetTurn size bound rows I R cursor bad done n s t := by
  obtain ⟨b, hmem, hbad⟩ := List.any_eq_true.1 hfail
  obtain ⟨k, hk, hrow⟩ := mem_page hitems hmem
  have hlen := length_page hitems
  refine ⟨ht, hR, hr.keep fr hR hc, Or.inl fun i a hget hop hnot => ?_, fun hov => ?_⟩
  · refine hr.seen fr hitems hR hd (fr.refl t) ?_ hget hnot
    by_contra hge
    have hlt := (List.getElem?_eq_some_iff.1 hget).1
    rcases page_of_le hsize hr.aligned (by omega : cursor s ≤ i) with ⟨k', hk', rfl⟩ | hlater
    · omega
    · have := hop (cursor s + k) b (by rwa [div_page hr.aligned hk]) hrow
      rw [this] at hbad
      cases hbad
  · obtain ⟨a, hat, hnot⟩ := hov.page hsize hbound hr.aligned hle hitems hk
    rw [getElem?_page hitems hk, hrow] at hat
    obtain rfl := Option.some.inj hat
    rw [hnot] at hbad
    cases hbad

/-- The last page ends the turn, and the reader starts again. -/
theorem OffsetTurn.last (fr : Frame I R cursor done set spent) (hsize : 0 < size)
    (hbound : size ∣ bound) (hr : Reached size rows cursor bad done s) (hle : ¬bound < cursor s)
    (hitems : (rows.drop (cursor s)).take size = items) (hu : I u) (hR : R s t) (hR' : R t u)
    (hc : cursor u = 0) (hd : ∀ a ∈ items, bad a = false → done a t)
    (hshort : items.length < size) (n : ℕ) :
    OffsetTurn size bound rows I R cursor bad done n s u := by
  have hlen := length_page hitems
  refine ⟨hu, fr.trans _ _ _ hR hR', ⟨by simp [hc], by simp [hc], ?_⟩, Or.inl ?_, fun hov => ?_⟩
  · intro i hlt
    rw [hc] at hlt
    omega
  · intro i a hget _ hnot
    have := (List.getElem?_eq_some_iff.1 hget).1
    exact hr.seen fr hitems hR hd hR' (by omega) hget hnot
  · obtain ⟨a, hat, -⟩ := hov.page hsize hbound hr.aligned hle hitems hshort
    simp at hat

/-- Behind a whole page the reader has come to the next one. -/
theorem Reached.next (fr : Frame I R cursor done set spent)
    (hr : Reached size rows cursor bad done s) (hitems : (rows.drop (cursor s)).take size = items)
    (hfull : items.length = size) (hgood : ∀ a ∈ items, bad a = false) (hR : R s t) (hR' : R t u)
    (hd : ∀ a ∈ items, bad a = false → done a t) (hc : cursor u = cursor s + size) :
    Reached size rows cursor bad done u := by
  have hlen := length_page hitems
  have hbounded := hr.bounded
  refine ⟨by rw [hc]; exact hr.aligned.add (dvd_refl size), by omega, fun i hlt a hget => ?_⟩
  rw [hc] at hlt
  have hnot : bad a = false := (mem_page_of_lt hitems (by omega) hget).elim
    (fun hback => (hr.handled i hback a hget).1) (hgood a)
  exact ⟨hnot, hr.seen fr hitems hR hd hR' (by omega) hget hnot⟩

end page

theorem offsetPages_spec {rows : List α} (bound : ℕ) (e : ε) (fetch : ℕ → Except ε (List α))
    (f : α → σ → σ × Bool) (set : ℕ → σ → σ) (spent : σ → σ) (fr : Frame I R cursor done set spent)
    (hsize : 0 < size)
    (hfetch : ∀ o, fetch o = if bound < o then .error e else .ok ((rows.drop o).take size))
    (hbound : size ∣ bound)
    (ha : ∀ i a, rows[i]? = some a → Open size rows bad i → Handles I R cursor bad done f a) (n : ℕ)
    (hs : I s) (hr : Reached size rows cursor bad done s) :
    match offsetPages size fetch f set spent n (cursor s) s with
    | .error _ => Overruns size bound rows bad
    | .ok t => OffsetTurn size bound rows I R cursor bad done n s t := by
  induction n generalizing s with
  | zero =>
    obtain ⟨hi, hR, hc⟩ := fr.spent s hs
    exact ⟨hi, hR, hr.keep fr hR hc, Or.inr (by simp [hc]), fun _ => by simp [hc]⟩
  | succ n ih =>
    by_cases hover : bound < cursor s
    · have he : offsetPages size fetch f set spent (n + 1) (cursor s) s = .error e := by
        simp only [offsetPages, hfetch, if_pos hover]
      rw [he]
      exact ⟨cursor s, hover, hr.bounded, hr.aligned, fun i hlt a h => (hr.handled i hlt a h).1⟩
    generalize hitems : (rows.drop (cursor s)).take size = items
    obtain ⟨hi, hR, hc, hb, hd⟩ := each_spec fr (fun a h => by
      obtain ⟨k, hk, hrow⟩ := mem_page hitems h
      exact ha _ a hrow (hr.open hk)) hs
    by_cases hfail : items.any bad = true
    · have he : offsetPages size fetch f set spent (n + 1) (cursor s) s
          = .ok (each f items s).1 := by
        simp only [offsetPages, hfetch, if_neg hover, hitems, hb, hfail, if_true]
      rw [he]
      exact .stuck fr hsize hbound hr hover hitems hi hR hc hd hfail _
    have hgood : ∀ a ∈ items, bad a = false := by
      simpa using hfail
    by_cases hshort : items.length < size
    · have hne : items.length ≠ size := by omega
      have he : offsetPages size fetch f set spent (n + 1) (cursor s) s
          = .ok (set 0 (each f items s).1) := by
        simp only [offsetPages, hfetch, if_neg hover, hitems, hb, hfail, Bool.false_eq_true,
          if_false, if_neg hne, hshort, if_true]
      rw [he]
      obtain ⟨hi₁, hR₁, hc₁⟩ := fr.set 0 _ hi
      exact .last fr hsize hbound hr hover hitems hi₁ hR hR₁ hc₁ hd hshort _
    · have hlen := length_page hitems
      have hfull : items.length = size := by omega
      have he : offsetPages size fetch f set spent (n + 1) (cursor s) s
          = offsetPages size fetch f set spent n (cursor s + size)
              (set (cursor s + size) (each f items s).1) := by
        simp only [offsetPages, hfetch, if_neg hover, hitems, hb, hfail, Bool.false_eq_true,
          if_false, hfull, if_true, lt_irrefl]
      obtain ⟨hi₁, hR₁, hc₁⟩ := fr.set (cursor s + size) _ hi
      have hturn := ih hi₁ (hr.next fr hitems hfull hgood hR hR₁ hd hc₁)
      rw [hc₁] at hturn
      rw [he]
      revert hturn
      generalize offsetPages size fetch f set spent n (cursor s + size)
        (set (cursor s + size) (each f items s).1) = result
      intro hturn
      cases result with
      | error _ => exact hturn
      | ok t =>
        have hcount : cursor s + size + size * n = cursor s + size * (n + 1) := by ring
        obtain ⟨ti, tR, treach, tgoes, tclimbs⟩ := hturn
        rw [hc₁, hcount] at tgoes tclimbs
        exact ⟨ti, fr.trans _ _ _ (fr.trans _ _ _ hR hR₁) tR, treach, tgoes, tclimbs⟩

/-! ## Several readers -/

variable {κ τ : Type} {step : σ → κ → Except ε σ} {ks : List κ}

theorem foldlM_cursor {I : σ → Prop} {cursor : σ → τ}
    (hinv : ∀ k ∈ ks, ∀ s t, I s → step s k = .ok t → I t)
    (hkeeps : ∀ k ∈ ks, ∀ s t, I s → step s k = .ok t → cursor t = cursor s) (hs : I s)
    (h : ks.foldlM step s = .ok t) : cursor t = cursor s := by
  induction ks generalizing s with
  | nil =>
    obtain rfl := Except.ok.inj h
    rfl
  | cons k ks ih =>
    rw [List.foldlM_cons] at h
    cases hk : step s k with
    | error e =>
      rw [hk] at h
      cases h
    | ok s' =>
      rw [hk] at h
      rw [ih (fun j hj => hinv j (by simp [hj])) (fun j hj => hkeeps j (by simp [hj]))
        (hinv k (by simp) s s' hs hk) h, hkeeps k (by simp) s s' hs hk]

/-- Several readers take their turns. The turn of the reader `k` is one of them, and its cursor is
not moved by the others. -/
theorem foldlM_turn {I : σ → Prop} {R : σ → σ → Prop} (cursor : κ → σ → τ) (hrefl : ∀ s, R s s)
    (htrans : ∀ s t u, R s t → R t u → R s u)
    (hstep : ∀ k ∈ ks, ∀ s t, I s → step s k = .ok t → I t ∧ R s t ∧
      ∀ j ∈ ks, j ≠ k → cursor j t = cursor j s) (hs : I s) (h : ks.foldlM step s = .ok t)
    (hnodup : ks.Nodup) :
    I t ∧ R s t ∧ ∀ k ∈ ks, ∃ s₁ s₂, I s₁ ∧ R s s₁ ∧ cursor k s₁ = cursor k s ∧ step s₁ k = .ok s₂ ∧
      R s₂ t ∧ cursor k t = cursor k s₂ := by
  induction ks generalizing s with
  | nil =>
    obtain rfl := Except.ok.inj h
    exact ⟨hs, hrefl s, by simp⟩
  | cons k ks ih =>
    obtain ⟨hk, hks⟩ := List.nodup_cons.1 hnodup
    rw [List.foldlM_cons] at h
    cases hstep1 : step s k with
    | error e =>
      rw [hstep1] at h
      cases h
    | ok s' =>
      rw [hstep1] at h
      obtain ⟨hi, hR, hc⟩ := hstep k (by simp) s s' hs hstep1
      have hstep' : ∀ j ∈ ks, ∀ s t, I s → step s j = .ok t → I t ∧ R s t ∧
          ∀ i ∈ ks, i ≠ j → cursor i t = cursor i s := by
        intro j hj s t hs h
        obtain ⟨h₁, h₂, h₃⟩ := hstep j (by simp [hj]) s t hs h
        exact ⟨h₁, h₂, fun i hi hne => h₃ i (by simp [hi]) hne⟩
      obtain ⟨hi', hR', hturn⟩ := ih hstep' hi h hks
      refine ⟨hi', htrans _ _ _ hR hR', ?_⟩
      · intro j hj
        rcases List.mem_cons.1 hj with rfl | hj
        · refine ⟨s, s', hs, hrefl s, rfl, hstep1, hR', ?_⟩
          refine foldlM_cursor (fun i hi u v hu huv => ?_) (fun i hi u v hu huv => ?_) hi h
          · exact (hstep' i hi u v hu huv).1
          · have hne : j ≠ i := fun heq => hk (heq ▸ hi)
            exact (hstep i (by simp [hi]) u v hu huv).2.2 j (by simp) hne
        · obtain ⟨s₁, s₂, h₁, h₂, h₃, h₄, h₅, h₆⟩ := hturn j hj
          have hne : j ≠ k := fun heq => hk (heq ▸ hj)
          exact ⟨s₁, s₂, h₁, htrans _ _ _ hR h₂, h₃.trans (hc j (by simp [hj]) hne), h₄, h₅, h₆⟩

theorem foldlM_error {I : σ → Prop} {e : ε} (hstep : ∀ k ∈ ks, ∀ s t, I s → step s k = .ok t → I t)
    (hs : I s) (h : ks.foldlM step s = .error e) : ∃ k ∈ ks, ∃ s₁, I s₁ ∧ step s₁ k = .error e := by
  induction ks generalizing s with
  | nil => cases h
  | cons k ks ih =>
    rw [List.foldlM_cons] at h
    cases hk : step s k with
    | error e' =>
      rw [hk] at h
      obtain rfl := Except.error.inj h
      exact ⟨k, by simp, s, hs, hk⟩
    | ok t =>
      rw [hk] at h
      obtain ⟨j, hj, s₁, hi, hjs⟩ := ih (fun j hj => hstep j (by simp [hj]))
        (hstep k (by simp) s t hs hk) h
      exact ⟨j, by simp [hj], s₁, hi, hjs⟩

/-! ## Rows that are added between the pages -/

/-- The rows of the first `k` pages, and the cursor behind them. -/
def following (number : α → ℕ) (rows : ℕ → List α) (limit : ℕ) : ℕ → List α × ℕ
  | 0 => ([], 0)
  | k + 1 =>
    let r := following number rows limit k
    let p := page number (rows k) r.2 limit
    (r.1 ++ p.1, p.2)

/-- The rows are sorted, and later ones have greater numbers. -/
structure Grows (number : α → ℕ) (rows : ℕ → List α) : Prop where
  sorted : ∀ k, (rows k).Pairwise fun a b => number a < number b
  positive : ∀ k, ∀ a ∈ rows k, 0 < number a
  later : ∀ k, (rows k).map number <+: (rows (k + 1)).map number

section Following

variable {number : α → ℕ} {rows : ℕ → List α} {limit : ℕ}

theorem page_spec {rows : List α} (hs : rows.Pairwise fun a b => number a < number b)
    (after : ℕ) (hl : 0 < limit) :
    after ≤ (page number rows after limit).2 ∧
      (∀ a ∈ (page number rows after limit).1, a ∈ rows ∧ after < number a ∧
        number a ≤ (page number rows after limit).2) ∧
      ((page number rows after limit).2 = after ∨
        ∃ a ∈ rows, number a = (page number rows after limit).2) ∧
      ∀ a ∈ rows, after < number a → number a ≤ (page number rows after limit).2 →
        a ∈ (page number rows after limit).1 := by
  have hmem : ∀ a ∈ (page number rows after limit).1, a ∈ rows ∧ after < number a :=
    fun a ha => mem_rest.1 (List.mem_of_mem_take ha)
  have hlast : (page number rows after limit).2 = after ∧
      (page number rows after limit).1 = [] ∨
      ∃ l a, (page number rows after limit).1 = l ++ [a] ∧
        (page number rows after limit).2 = number a := by
    rcases List.eq_nil_or_concat (page number rows after limit).1 with h | ⟨l, a, h⟩
    · have h' : (rest number rows after).take limit = [] := h
      exact .inl ⟨by simp [page, h'], h⟩
    · rw [List.concat_eq_append] at h
      have h' : (rest number rows after).take limit = l ++ [a] := h
      exact .inr ⟨l, a, h, by simp [page, h']⟩
  have hsorted : (page number rows after limit).1.Pairwise fun a b => number a < number b :=
    (hs.filter _).sublist (List.take_sublist _ _)
  refine ⟨?_, fun a ha => ⟨(hmem a ha).1, (hmem a ha).2, ?_⟩, ?_, fun a ha hlo hhi => ?_⟩
  · rcases hlast with ⟨h, -⟩ | ⟨l, a, h, hnumber⟩
    · exact h.ge
    · rw [hnumber]
      exact (hmem a (by simp [h])).2.le
  · rcases hlast with ⟨-, h⟩ | ⟨l, b, h, hnumber⟩
    · rw [h] at ha
      cases ha
    · rw [hnumber]
      rw [h] at ha hsorted
      rcases List.mem_append.1 ha with ha | ha
      · exact ((List.pairwise_append.1 hsorted).2.2 a ha b (by simp)).le
      · rw [List.mem_singleton.1 ha]
  · rcases hlast with ⟨h, -⟩ | ⟨l, a, h, hnumber⟩
    · exact .inl h
    · exact .inr ⟨a, (hmem a (by simp [h])).1, hnumber.symm⟩
  · have hin := mem_rest.2 ⟨ha, hlo⟩
    rw [← List.take_append_drop limit (rest number rows after), ← rest_page after hs hl] at hin
    rcases List.mem_append.1 hin with hin | hin
    · exact hin
    · exact absurd (mem_rest.1 hin).2 (by omega)

variable {n k : ℕ}

theorem Grows.mem_later (h : Grows number rows) {i j : ℕ} (hij : i ≤ j)
    (hn : n ∈ (rows i).map number) : n ∈ (rows j).map number := by
  induction hij with
  | refl => exact hn
  | step _ ih => exact (h.later _).subset ih

theorem Grows.mem_earlier (h : Grows number rows) {c : ℕ} (hn : n ∈ (rows (k + 1)).map number)
    (hc : c ∈ (rows k).map number) (hle : n ≤ c) : n ∈ (rows k).map number := by
  obtain ⟨t, ht⟩ := h.later k
  have hsorted := List.pairwise_map.2 (h.sorted (k + 1))
  rw [← ht] at hn hsorted
  rcases List.mem_append.1 hn with hn | hn
  · exact hn
  · exact absurd ((List.pairwise_append.1 hsorted).2.2 c hc n hn) (by omega)

/-- What was read is what is not after the cursor. -/
theorem following_spec (h : Grows number rows) (hl : 0 < limit) (k : ℕ) :
    ((following number rows limit k).1.Pairwise fun a b => number a < number b) ∧
      (∀ a ∈ (following number rows limit k).1,
        number a ≤ (following number rows limit k).2 ∧ number a ∈ (rows k).map number) ∧
      ((following number rows limit k).2 = 0 ∨
        (following number rows limit k).2 ∈ (rows k).map number) ∧
      ∀ n ∈ (rows k).map number, n ≤ (following number rows limit k).2 →
        n ∈ (following number rows limit k).1.map number := by
  induction k with
  | zero =>
    refine ⟨.nil, by simp [following], .inl rfl, fun n hn hle => ?_⟩
    obtain ⟨a, ha, rfl⟩ := List.mem_map.1 hn
    exact absurd (h.positive 0 a ha) (Nat.not_lt.2 hle)
  | succ k ih =>
    obtain ⟨hsorted, hread, hcursor, hall⟩ := ih
    rw [following]
    generalize following number rows limit k = r at *
    obtain ⟨hle, hpage, hlast, hmem⟩ := page_spec (h.sorted k) r.2 hl
    dsimp only at *
    refine ⟨?_, fun a ha => ?_, ?_, fun n hn hnle => ?_⟩
    · refine List.pairwise_append.2
        ⟨hsorted, ((h.sorted k).filter _).sublist (List.take_sublist _ _), fun a ha b hb => ?_⟩
      exact (hread a ha).1.trans_lt (hpage b hb).2.1
    · rcases List.mem_append.1 ha with ha | ha
      · exact ⟨(hread a ha).1.trans hle, h.mem_later k.le_succ (hread a ha).2⟩
      · exact ⟨(hpage a ha).2.2,
          h.mem_later k.le_succ (List.mem_map_of_mem (hpage a ha).1)⟩
    · rcases hlast with hlast | ⟨a, ha, hlast⟩
      · rw [hlast]
        exact hcursor.imp_right (h.mem_later k.le_succ)
      · rw [← hlast]
        exact .inr (h.mem_later k.le_succ (List.mem_map_of_mem ha))
    · have hn : n ∈ (rows k).map number := by
        rcases hlast with hlast | ⟨a, ha, hlast⟩
        · rcases hcursor with hzero | hcursor
          · obtain ⟨a, ha, rfl⟩ := List.mem_map.1 hn
            have := h.positive (k + 1) a ha
            omega
          · exact h.mem_earlier hn hcursor (by omega)
        · exact h.mem_earlier hn (List.mem_map_of_mem ha) (by omega)
      rw [List.map_append, List.mem_append]
      by_cases hr : n ≤ r.2
      · exact .inl (hall n hn hr)
      · obtain ⟨a, ha, rfl⟩ := List.mem_map.1 hn
        exact .inr (List.mem_map_of_mem (hmem a ha (by omega) hnle))

/-- What is read up to a page that is not full has the numbers of the rows that were there. -/
theorem subset_following (h : Grows number rows) (hl : 0 < limit)
    (hshort : (page number (rows k) (following number rows limit k).2 limit).1.length < limit) :
    (rows k).map number ⊆ (following number rows limit (k + 1)).1.map number := by
  obtain ⟨-, -, -, hall⟩ := following_spec h hl k
  intro n hn
  rw [following, List.map_append, List.mem_append]
  by_cases hle : n ≤ (following number rows limit k).2
  · exact .inl (hall n hn hle)
  · obtain ⟨a, ha, rfl⟩ := List.mem_map.1 hn
    refine .inr (List.mem_map_of_mem ?_)
    have hrest := mem_rest.2 ⟨ha, not_le.1 hle⟩
    have hlen : (rest number (rows k) (following number rows limit k).2).length ≤ limit := by
      have hshort' : ((rest number (rows k)
        (following number rows limit k).2).take limit).length < limit := hshort
      rw [List.length_take] at hshort'
      omega
    have hpage : (page number (rows k) (following number rows limit k).2 limit).1 =
        rest number (rows k) (following number rows limit k).2 := List.take_of_length_le hlen
    rw [hpage]
    exact hrest

/-- Among what is read up to a page that is not full, the rows of the first page are those that
were there, in their order. -/
theorem filter_following (h : Grows number rows) (hl : 0 < limit)
    (hshort : (page number (rows k) (following number rows limit k).2 limit).1.length < limit) :
    ((following number rows limit (k + 1)).1.map number).filter
        (fun n => n ∈ (rows 0).map number) = (rows 0).map number := by
  have hread := List.pairwise_map.2 (following_spec h hl (k + 1)).1
  have hrows := List.pairwise_map.2 (h.sorted 0)
  have hsub : (rows 0).map number ⊆ (following number rows limit (k + 1)).1.map number :=
    fun n hn => subset_following h hl hshort (h.mem_later (Nat.zero_le k) hn)
  refine List.Perm.eq_of_pairwise (fun a b _ _ hab hba => absurd hab hba.asymm)
    (hread.filter _) hrows ?_
  refine (List.perm_ext_iff_of_nodup (hread.filter _).nodup hrows.nodup).2 fun n => ?_
  rw [List.mem_filter, decide_eq_true_eq]
  exact ⟨And.right, fun hn => ⟨hsub hn, hn⟩⟩

/-- While the pages are full, there is a row for each of them. -/
theorem exists_short (h : Grows number rows) (hl : 0 < limit) {total : ℕ}
    (htotal : ∀ k, (rows k).length ≤ total) : ∃ k ≤ total,
      (page number (rows k) (following number rows limit k).2 limit).1.length < limit := by
  by_contra hfull
  have hlen : ∀ k ≤ total + 1, k ≤ (following number rows limit k).1.length := by
    intro k hk
    induction k with
    | zero => exact Nat.zero_le _
    | succ k ih =>
      have hpage : ¬(page number (rows k) (following number rows limit k).2 limit).1.length <
          limit := fun hlt => hfull ⟨k, by omega, hlt⟩
      have hk := ih (by omega)
      rw [following, List.length_append]
      omega
  obtain ⟨hsorted, hread, -, -⟩ := following_spec h hl (total + 1)
  have hsub : (following number rows limit (total + 1)).1.map number ⊆
      (rows (total + 1)).map number := by
    intro n hn
    obtain ⟨a, ha, rfl⟩ := List.mem_map.1 hn
    exact (hread a ha).2
  have hle := (List.subperm_of_subset (List.pairwise_map.2 hsorted).nodup hsub).length_le
  rw [List.length_map, List.length_map] at hle
  have := hlen (total + 1) le_rfl
  have := htotal (total + 1)
  omega

end Following

end Paging
