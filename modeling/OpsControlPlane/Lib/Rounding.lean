import Mathlib.Algebra.Order.Group.Nat
import Mathlib.Data.Nat.Log
import Mathlib.Tactic.Ring

/-!
# Rounding to significant digits

A number that is rounded to so many significant digits, to the even neighbour from halfway. A number
with as many digits is kept (`significant_of_lt`), and no power of ten is passed
(`significant_le_pow`).
-/

namespace Rounding

/-- The quotient, rounded to the nearest number, and to the even one from halfway. -/
def halfEven (n d : ℕ) : ℕ :=
  if d < 2 * (n % d) ∨ 2 * (n % d) = d ∧ n / d % 2 = 1 then n / d + 1 else n / d

def lastUnit (p n : ℕ) : ℕ :=
  10 ^ (Nat.log 10 n + 1 - p)

/-- The number, rounded to `p` significant digits. -/
def significant (p n : ℕ) : ℕ :=
  halfEven n (lastUnit p n) * lastUnit p n

theorem halfEven_one (n : ℕ) : halfEven n 1 = n := by
  unfold halfEven
  rw [Nat.mod_one, Nat.div_one]
  exact if_neg (by omega)

theorem significant_of_lt {p n : ℕ} (hp : 0 < p) (h : n < 10 ^ p) : significant p n = n := by
  have hunit : lastUnit p n = 1 := by
    rcases Nat.eq_zero_or_pos n with rfl | hn
    · rw [lastUnit, Nat.log_zero_right, Nat.sub_eq_zero_of_le (by omega), pow_zero]
    · have hlog := Nat.log_lt_of_lt_pow hn.ne' h
      rw [lastUnit, Nat.sub_eq_zero_of_le (by omega), pow_zero]
  rw [significant, hunit, halfEven_one, Nat.mul_one]

theorem halfEven_mul_le {n d b : ℕ} (hd : 0 < d) (hb : d ∣ b) (h : n ≤ b) :
    halfEven n d * d ≤ b := by
  obtain ⟨k, rfl⟩ := hb
  have hdiv := Nat.div_add_mod n d
  rw [Nat.mul_comm]
  refine Nat.mul_le_mul_left d ?_
  unfold halfEven
  split_ifs with hup
  · have hrest : 0 < n % d := by omega
    have hlt : d * (n / d) < d * k := by omega
    exact Nat.lt_of_mul_lt_mul_left hlt
  · exact Nat.le_of_mul_le_mul_left (by omega) hd

theorem significant_le_pow {p n e : ℕ} (hp : 0 < p) (h : n ≤ 10 ^ e) :
    significant p n ≤ 10 ^ e := by
  have hunit : lastUnit p n ∣ 10 ^ e := by
    refine Nat.pow_dvd_pow 10 ?_
    rcases Nat.eq_zero_or_pos n with rfl | hn
    · rw [Nat.log_zero_right]
      omega
    · have hpow := (Nat.pow_log_le_self 10 hn.ne').trans h
      have hlog := (Nat.pow_le_pow_iff_right (by decide)).1 hpow
      omega
  exact halfEven_mul_le (Nat.pow_pos (by decide)) hunit h

end Rounding
