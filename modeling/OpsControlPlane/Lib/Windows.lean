import Mathlib.Data.List.Basic
import Mathlib.Tactic

/-!
# Sliding windows

A log of events with times, which may come in any order. An event is admitted if fewer than
`n` of the events so far are at most `w` older than it. `Bounded.append` is the step: however
the times are ordered, no closed window of length `w` then has more than `n` events.
-/

namespace Windows

variable {R : Type*}

/-- The event is in the closed window of length `w` from `lo` on. -/
def within (time : R → Option ℤ) (w lo : ℤ) (r : R) : Bool :=
  (time r).any fun t => lo ≤ t ∧ t ≤ lo + w

def since (time : R → Option ℤ) (lo : ℤ) (r : R) : Bool :=
  (time r).any fun t => lo ≤ t

/-- No closed window of length `w` has more than `n` of the events that satisfy `p`. -/
def Bounded (time : R → Option ℤ) (p : R → Bool) (w : ℤ) (n : ℕ) (l : List R) : Prop :=
  ∀ lo, l.countP (fun r => p r && within time w lo r) ≤ n

variable {time : R → Option ℤ} {p : R → Bool} {w w' : ℤ} {n n' : ℕ} {l : List R} {r : R}

theorem since_of_within {lo lo' : ℤ} (h : within time w lo r = true) (hle : lo' ≤ lo) :
    since time lo' r = true := by
  cases ht : time r with
  | none => simp [within, ht] at h
  | some t =>
    simp only [within, since, ht, Option.any_some, decide_eq_true_eq] at h ⊢
    omega

theorem bounded_nil : Bounded time p w n [] := by
  intro lo
  simp

theorem Bounded.skip (h : Bounded time p w n l) (hr : p r = false) :
    Bounded time p w n (l ++ [r]) := by
  intro lo
  simpa [List.countP_append, hr] using h lo

/-- An admitted event. -/
theorem Bounded.append (h : Bounded time p w n l) {t : ℤ} (ht : time r = some t)
    (hlt : l.countP (fun q => p q && since time (t - w) q) < n) :
    Bounded time p w n (l ++ [r]) := by
  intro lo
  rw [List.countP_append]
  by_cases hin : within time w lo r = true
  · -- the window ends after the event, so that it begins at most `w` before it
    have hlo : t - w ≤ lo := by
      simp only [within, ht, Option.any_some, decide_eq_true_eq] at hin
      omega
    have hle : l.countP (fun q => p q && within time w lo q) ≤
        l.countP fun q => p q && since time (t - w) q := by
      refine List.countP_mono_left fun q _ hq => ?_
      rw [Bool.and_eq_true] at hq ⊢
      exact ⟨hq.1, since_of_within hq.2 hlo⟩
    have hone : [r].countP (fun q => p q && within time w lo q) ≤ 1 := List.countP_le_length
    omega
  · have hzero : [r].countP (fun q => p q && within time w lo q) = 0 := by simp [hin]
    have := h lo
    omega

theorem Bounded.mono (h : Bounded time p w n l) (hw : w' ≤ w) (hn : n ≤ n') :
    Bounded time p w' n' l := by
  intro lo
  refine (List.countP_mono_left fun r _ hr => ?_).trans ((h lo).trans hn)
  rw [Bool.and_eq_true] at hr ⊢
  refine ⟨hr.1, ?_⟩
  cases ht : time r with
  | none => simp [within, ht] at hr
  | some t =>
    simp only [within, ht, Option.any_some, decide_eq_true_eq] at hr ⊢
    omega

end Windows
