import Mathlib.Algebra.Order.Group.Int
import Mathlib.Data.Nat.Notation

/-!
# A cursor that goes round

Keys are gone through in order, a slice of them at a time, with a cursor at the last one of
a slice; at the end it goes back to 0.  Between the slices keys may come and go, so that it
is not known how many there are ahead of the cursor.  But a slice that is not the last one
has a number of different keys, and takes the cursor on by that much at least.  So with keys
up to a limit, a key that stays is not missed by too many slices in a row.

## Main definitions

* `Misses` — a slice that does not come to a key.
* `rank` — how many more of these there can be.

## Main results

* `Misses.rank_lt` — **every slice that misses the key brings the rank down.**
* `rank_le` — the rank is bounded by the limit.
-/

namespace Sweep

variable {step : ℕ} {n x x' y : ℤ}

/-- From a cursor to the next one, the slice does not come to `y`: it is ahead of the next
cursor, if it was ahead of the first one, or it was behind it, and the slice is the last. -/
inductive Misses (step : ℕ) (n y : ℤ) : ℤ → ℤ → Prop
  | on {x x' : ℤ} : x + step ≤ x' → x' ≤ n → (x < y → x' < y) → Misses step n y x x'
  | back {x : ℤ} : y ≤ x → Misses step n y x 0

/-- How many slices from the cursor `x` on can miss `y`. -/
def rank (step : ℕ) (n y x : ℤ) : ℕ :=
  if x < y then (y - x - 1).toNat / step
  else (n - x).toNat / step + 1 + (y - 1).toNat / step

theorem div_lt_div_of_add_le {a b : ℕ} (hstep : 0 < step) (h : a + step ≤ b) :
    a / step < b / step := by
  have hdiv := Nat.div_le_div_right (c := step) h
  rw [Nat.add_div_right a hstep] at hdiv
  exact hdiv

/-- **Every slice that misses the key brings the rank down.** -/
theorem Misses.rank_lt (h : Misses step n y x x') (hstep : 0 < step) (hy : 0 < y) :
    rank step n y x' < rank step n y x := by
  cases h with
  | on hon hle hahead =>
    by_cases hx : x < y
    · have hx' := hahead hx
      rw [rank, rank, if_pos hx, if_pos hx']
      exact div_lt_div_of_add_le hstep (by omega)
    · have hx' : ¬x' < y := by omega
      rw [rank, rank, if_neg hx, if_neg hx']
      have hlt := @div_lt_div_of_add_le step (n - x').toNat (n - x).toNat hstep (by omega)
      omega
  | back hbehind =>
    rw [rank, rank, if_pos hy, if_neg (by omega), Int.sub_zero, Nat.add_right_comm]
    exact Nat.lt_succ_of_le (Nat.le_add_left _ _)

/-- The rank is bounded by the limit. -/
theorem rank_le (hx : 0 ≤ x) (hy : 0 < y) (hyn : y ≤ n) : rank step n y x ≤ n.toNat / step + 1 := by
  rw [rank]
  split_ifs
  · have hle := Nat.div_le_div_right (c := step) (show (y - x - 1).toNat ≤ n.toNat by omega)
    omega
  · have hsum := @Nat.div_add_div_le_add_div (n - x).toNat (y - 1).toNat step
    have hle := Nat.div_le_div_right (c := step)
      (show (n - x).toNat + (y - 1).toNat ≤ n.toNat by omega)
    omega

end Sweep
