import Mathlib.Algebra.Ring.Nat
import Mathlib.Data.Nat.Size

/-!
# Rounding a natural number to a significand of `p` bits

The conversion of an integer to a binary floating-point type, as far as its
exponent range goes: the nearest number whose significand has at most `p` bits,
and of two that are equally near the one whose significand is even.

## Main definitions

* `ulp` — the distance of such numbers around `n`.
* `roundTo` — the nearest of them.

## Main results

* `le_roundTo`, `roundTo_le` — **rounding is off by at most half the distance.**
* `roundTo_le_of_dvd` — rounding does not go beyond a number that is not rounded.
-/

namespace Rounding

/-- The distance of the numbers with a significand of `p` bits around `n`. -/
def ulp (p n : ℕ) : ℕ := 2 ^ (n.size - p)

/-- The nearest number to `n` with a significand of `p` bits, ties to even. -/
def roundTo (p n : ℕ) : ℕ :=
  let q := n / ulp p n
  let r := n % ulp p n
  if 2 * r < ulp p n then q * ulp p n
  else if ulp p n < 2 * r then (q + 1) * ulp p n
  else (q + q % 2) * ulp p n

theorem ulp_pos (p n : ℕ) : 0 < ulp p n := Nat.two_pow_pos _

/-- The distance is monotone. -/
theorem ulp_le {p n m : ℕ} (h : n < 2 ^ m) : ulp p n ≤ 2 ^ (m - p) :=
  Nat.pow_le_pow_right (by omega) (Nat.sub_le_sub_right (Nat.size_le.mpr h) p)

/-- The rounded number is a multiple of the distance, next to `n`. -/
theorem roundTo_cases (p n : ℕ) :
    (roundTo p n = n - n % ulp p n ∧ 2 * (n % ulp p n) ≤ ulp p n) ∨
      (roundTo p n = n - n % ulp p n + ulp p n ∧ ulp p n ≤ 2 * (n % ulp p n)) := by
  have hq : n / ulp p n * ulp p n = n - n % ulp p n := by
    have := Nat.div_add_mod' n (ulp p n)
    omega
  unfold roundTo
  by_cases hlow : 2 * (n % ulp p n) < ulp p n
  · rw [if_pos hlow, hq]
    exact .inl ⟨rfl, Nat.le_of_lt hlow⟩
  · by_cases hhigh : ulp p n < 2 * (n % ulp p n)
    · rw [if_neg hlow, if_pos hhigh, Nat.succ_mul, hq]
      exact .inr ⟨rfl, Nat.le_of_lt hhigh⟩
    · rw [if_neg hlow, if_neg hhigh, Nat.add_mul, hq]
      rcases Nat.mod_two_eq_zero_or_one (n / ulp p n) with h | h
      · rw [h, Nat.zero_mul]
        exact .inl ⟨rfl, by omega⟩
      · rw [h, Nat.one_mul]
        exact .inr ⟨rfl, by omega⟩

/-- Rounding does not lose more than half the distance. -/
theorem le_roundTo (p n : ℕ) : 2 * n ≤ 2 * roundTo p n + ulp p n := by
  have hle : n % ulp p n ≤ n := Nat.mod_le ..
  have hlt : n % ulp p n < ulp p n := Nat.mod_lt _ (ulp_pos p n)
  rcases roundTo_cases p n with ⟨h, hr⟩ | ⟨h, hr⟩
  · omega
  · omega

/-- Rounding does not add more than half the distance. -/
theorem roundTo_le (p n : ℕ) : 2 * roundTo p n ≤ 2 * n + ulp p n := by
  have hle : n % ulp p n ≤ n := Nat.mod_le ..
  rcases roundTo_cases p n with ⟨h, hr⟩ | ⟨h, hr⟩
  · omega
  · omega

/-- Rounding does not go beyond a multiple of the distance. -/
theorem roundTo_le_of_dvd {p n m : ℕ} (hm : ulp p n ∣ m) (h : n ≤ m) : roundTo p n ≤ m := by
  have hle : n % ulp p n ≤ n := Nat.mod_le ..
  rcases roundTo_cases p n with ⟨heq, -⟩ | ⟨heq, hr⟩
  · omega
  · -- the multiple below `n` is another one than `m`
    have hpos := ulp_pos p n
    have hmod := Nat.div_add_mod' n (ulp p n)
    obtain ⟨t, rfl⟩ := hm
    have hlt : n / ulp p n * ulp p n < t * ulp p n := by
      rw [Nat.mul_comm t]
      omega
    have hstep := Nat.mul_le_mul_right (ulp p n) (Nat.lt_of_mul_lt_mul_right hlt)
    rw [Nat.succ_mul, Nat.mul_comm t] at hstep
    omega

end Rounding
