import Mathlib.Data.Int.Order.Basic
import Mathlib.Tactic.Ring

/-!
# Integers as texts

An integer is printed in decimal, and a text is read in any radix: an optional sign and
one digit at least.  What is printed is read back in radix 10.  In a larger radix the
digits stand for more, unless there is only one of them.

Which characters are digits is left open but for those of ASCII: there are digits of
other scripts.

## Main definitions

* `Digits` — the values of characters as digits.
* `parse` — the integer that a text stands for in a radix.
* `reread` — a number, if its decimal digits are read in a radix.

## Main results

* `parse_repr` — **what is read of a text that has been printed.**
* `reread_ten`, `lt_reread` — the number in radix 10, and more in a larger one.
* `parse_repr_iff` — **in a larger radix, only one digit is read back.**
-/

namespace Numeral

/-- The value of a character of ASCII as a digit. -/
def asciiValue (c : Char) : Option ℕ :=
  if c.isDigit then some (c.toNat - '0'.toNat)
  else if c.isLower then some (c.toNat - 'a'.toNat + 10)
  else if c.isUpper then some (c.toNat - 'A'.toNat + 10)
  else none

/-- The values of characters as digits. -/
structure Digits where
  value : Char → Option ℕ
  value_ascii : ∀ c, c.toNat < 128 → value c = asciiValue c

/-- No other digits than those of ASCII. -/
def Digits.ascii : Digits := ⟨asciiValue, fun _ _ => rfl⟩

variable (D : Digits) (radix : ℕ)

/-- The value of a digit of a radix. -/
def Digits.digit (c : Char) : Option ℕ := (D.value c).filter fun d => d < radix

/-- The number with these digits after those of `n`. -/
def readDigits : List Char → ℕ → Option ℕ
  | [], n => some n
  | c :: cs, n =>
    match D.digit radix c with
    | some d => readDigits cs (radix * n + d)
    | none => none

/-- The number with these digits, of which there is one at least. -/
def readNat (cs : List Char) : Option ℕ := if cs = [] then none else readDigits D radix cs 0

/-- The integer that a text stands for. -/
def parse (s : String) : Option ℤ :=
  match s.toList with
  | [] => none
  | c :: cs =>
    if c = '-' then (readNat D radix cs).map fun n : ℕ => -(n : ℤ)
    else if c = '+' then (readNat D radix cs).map Int.ofNat
    else (readNat D radix (c :: cs)).map Int.ofNat

/-- A number, if its decimal digits are read in a radix. -/
def reread (n : ℕ) : ℕ := Nat.ofDigitChars radix (Nat.toDigits 10 n) 0

variable {D radix}

/-! ### Reading decimal digits -/

theorem toNat_of_isDigit {c : Char} (hc : c.isDigit) : 48 ≤ c.toNat ∧ c.toNat ≤ 57 :=
  Char.isDigit_iff_toNat.mp hc

theorem digit_of_isDigit (hradix : 10 ≤ radix) {c : Char} (hc : c.isDigit) :
    D.digit radix c = some (c.toNat - '0'.toNat) := by
  have hrange := toNat_of_isDigit hc
  have hzero : '0'.toNat = 48 := rfl
  have hlt : c.toNat - '0'.toNat < radix := by omega
  rw [Digits.digit, D.value_ascii c (by omega), asciiValue, if_pos hc, Option.filter_some,
    if_pos (decide_eq_true hlt)]

theorem readDigits_of_isDigit (hradix : 10 ≤ radix) {cs : List Char} (hcs : ∀ c ∈ cs, c.isDigit)
    (n : ℕ) : readDigits D radix cs n = some (Nat.ofDigitChars radix cs n) := by
  induction cs generalizing n with
  | nil => rw [readDigits, Nat.ofDigitChars_nil]
  | cons c cs ih =>
    rw [readDigits, digit_of_isDigit hradix (hcs c List.mem_cons_self), Nat.ofDigitChars_cons]
    exact ih (fun c' hc' => hcs c' (List.mem_cons_of_mem _ hc')) _

theorem isDigit_of_mem_toDigits {n : ℕ} : ∀ c ∈ Nat.toDigits 10 n, c.isDigit := fun _ hc =>
  Nat.isDigit_of_mem_toDigits (by decide) (by decide) hc

theorem readNat_toDigits (hradix : 10 ≤ radix) (n : ℕ) :
    readNat D radix (Nat.toDigits 10 n) = some (reread radix n) := by
  rw [readNat, if_neg Nat.toDigits_ne_nil, readDigits_of_isDigit hradix isDigit_of_mem_toDigits,
    reread]

/-- **What is read of a text that has been printed.** -/
theorem parse_repr (hradix : 10 ≤ radix) (n : ℤ) :
    parse D radix n.repr = some (if 0 ≤ n then (reread radix n.natAbs : ℤ)
      else -(reread radix n.natAbs : ℤ)) := by
  rw [Int.repr_eq_if]
  by_cases hn : 0 ≤ n
  · have hnat : n.toNat = n.natAbs := by omega
    rw [if_pos hn, if_pos hn, parse, Nat.toList_repr, hnat]
    -- the first digit is not a sign
    have hread := @readNat_toDigits D radix hradix n.natAbs
    have hdigit := @isDigit_of_mem_toDigits n.natAbs
    cases hdigits : Nat.toDigits 10 n.natAbs with
    | nil => exact absurd hdigits Nat.toDigits_ne_nil
    | cons c cs =>
      rw [hdigits] at hread hdigit
      have hc := toNat_of_isDigit (hdigit c List.mem_cons_self)
      have hminus : c ≠ '-' := by
        rintro rfl
        exact absurd hc.1 (by decide)
      have hplus : c ≠ '+' := by
        rintro rfl
        exact absurd hc.1 (by decide)
      simp only [if_neg hminus, if_neg hplus, hread, Option.map_some, Int.ofNat_eq_natCast]
  · have hnat : (-n).toNat = n.natAbs := by omega
    have hsign : ("-" ++ (-n).toNat.repr).toList = '-' :: Nat.toDigits 10 n.natAbs := by
      rw [String.toList_append, Nat.toList_repr, hnat]
      rfl
    rw [if_neg hn, if_neg hn, parse, hsign]
    simp only [if_true, readNat_toDigits hradix, Option.map_some]

/-! ### Reading in another radix -/

theorem reread_ten (n : ℕ) : reread 10 n = n := Nat.ofDigitChars_ten_toDigits

theorem reread_of_lt {n : ℕ} (hn : n < 10) : reread radix n = n := by
  rw [reread, Nat.toDigits_of_lt_base hn, Nat.ofDigitChars_cons_digitChar_of_lt_ten hn,
    Nat.ofDigitChars_nil, Nat.mul_zero, Nat.zero_add]

theorem reread_of_ge {n : ℕ} (hn : 10 ≤ n) :
    reread radix n = radix * reread radix (n / 10) + n % 10 := by
  rw [reread, Nat.toDigits_of_base_le (by decide) hn, Nat.ofDigitChars_append,
    Nat.ofDigitChars_cons_digitChar_of_lt_ten (Nat.mod_lt _ (by decide)), Nat.ofDigitChars_nil]
  rfl

theorem le_reread (hradix : 10 ≤ radix) (n : ℕ) : n ≤ reread radix n := by
  induction n using Nat.strongRecOn with
  | ind n ih =>
    rcases Nat.lt_or_ge n 10 with hlt | hge
    · exact Nat.le_of_eq (reread_of_lt hlt).symm
    · have hle := ih (n / 10) (by omega)
      have hmul : 10 * (n / 10) ≤ radix * reread radix (n / 10) := Nat.mul_le_mul hradix hle
      rw [reread_of_ge hge]
      omega

/-- More than one digit stand for more in a larger radix. -/
theorem lt_reread (hradix : 10 < radix) {n : ℕ} (hn : 10 ≤ n) : n < reread radix n := by
  have hle := le_reread hradix.le (n / 10)
  have hmul : 11 * (n / 10) ≤ radix * reread radix (n / 10) := Nat.mul_le_mul hradix hle
  rw [reread_of_ge hn]
  omega

/-- **In a larger radix, only one digit is read back.** -/
theorem parse_repr_iff (hradix : 10 < radix) (n : ℤ) :
    parse D radix n.repr = some n ↔ -9 ≤ n ∧ n ≤ 9 := by
  rw [parse_repr hradix.le, Option.some.injEq]
  constructor
  · intro heq
    by_contra hmore
    have hlt := lt_reread hradix (n := n.natAbs) (by omega)
    split at heq <;> omega
  · intro hone
    rw [reread_of_lt (by omega)]
    split <;> omega

/-- In radix 10, everything is. -/
theorem parse_repr_ten (n : ℤ) : parse D 10 n.repr = some n := by
  rw [parse_repr (Nat.le_refl _), reread_ten, Option.some.injEq]
  split <;> omega

end Numeral
