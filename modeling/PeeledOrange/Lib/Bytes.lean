import Mathlib.Data.Nat.Digits.Defs

/-!
# Numbers as bytes

The bytes of a number, with the least significant one first, are its digits in base
256, filled up or cut off to a given width.  Reading them back is `Nat.ofDigits`.

## Main definitions

* `littleEndian n v`, `bigEndian n v` — the `n` low bytes of `v`.
* `toNat` — the number that bytes stand for, the least significant one first.
* `trim` — without the leading zeros, but not empty.
* `bits` — the bits of bytes, the most significant one of each first.

## Main results

* `toNat_littleEndian` — **a number is read back from its bytes, modulo their width.**
* `reverse_trim_bigEndian` — the big-endian bytes without leading zeros, reversed.
-/

namespace Bytes

/-- The number that these bytes stand for, the least significant one first. -/
def toNat (bs : List UInt8) : ℕ := Nat.ofDigits 256 (bs.map UInt8.toNat)

/-- The `n` low bytes of a number, the least significant one first. -/
def littleEndian : ℕ → ℕ → List UInt8
  | 0, _ => []
  | n + 1, v => UInt8.ofNat v :: littleEndian n (v / 256)

/-- The `n` low bytes of a number, the most significant one first. -/
def bigEndian (n v : ℕ) : List UInt8 := (littleEndian n v).reverse

/-- Without the leading zeros, but with one byte at least. -/
def trim : List UInt8 → List UInt8
  | [] => []
  | [b] => [b]
  | b :: bs => if b = 0 then trim bs else b :: bs

/-! ### Reading -/

@[simp] theorem toNat_nil : toNat [] = 0 := rfl

@[simp] theorem toNat_cons (b : UInt8) (bs : List UInt8) :
    toNat (b :: bs) = b.toNat + 256 * toNat bs := by
  simp [toNat, Nat.ofDigits_cons]

/-! ### Writing -/

@[simp] theorem length_littleEndian (n v : ℕ) : (littleEndian n v).length = n := by
  induction n generalizing v with
  | zero => rfl
  | succ n ih => rw [littleEndian, List.length_cons, ih]

/-- **A number is read back from its bytes, modulo their width.** -/
theorem toNat_littleEndian (n v : ℕ) : toNat (littleEndian n v) = v % 256 ^ n := by
  induction n generalizing v with
  | zero => simp [littleEndian, Nat.mod_one]
  | succ n ih =>
    rw [littleEndian, toNat_cons, ih, UInt8.toNat_ofNat', show (2 ^ 8 : ℕ) = 256 from rfl,
      Nat.pow_succ', Nat.mod_mul]

theorem toNat_littleEndian_of_lt {n v : ℕ} (h : v < 256 ^ n) : toNat (littleEndian n v) = v := by
  rw [toNat_littleEndian, Nat.mod_eq_of_lt h]

theorem littleEndian_toNat (bs : List UInt8) : littleEndian bs.length (toNat bs) = bs := by
  induction bs with
  | nil => rfl
  | cons b bs ih =>
    have hb : b.toNat < 256 := b.toNat_lt
    rw [List.length_cons, littleEndian, toNat_cons, Nat.add_mul_div_left _ _ (by decide),
      Nat.div_eq_of_lt hb, Nat.zero_add, ih]
    congr 1
    rw [← UInt8.toNat_inj, UInt8.toNat_ofNat']
    omega

theorem toNat_lt (bs : List UInt8) : toNat bs < 256 ^ bs.length := by
  have hmod := toNat_littleEndian bs.length (toNat bs)
  rw [littleEndian_toNat] at hmod
  rw [hmod]
  exact Nat.mod_lt _ (Nat.pow_pos (by decide))

theorem toNat_inj {bs bs' : List UInt8} (hlen : bs.length = bs'.length)
    (h : toNat bs = toNat bs') : bs = bs' := by
  rw [← littleEndian_toNat bs, ← littleEndian_toNat bs', hlen, h]

theorem take_littleEndian {m n : ℕ} (h : m ≤ n) (v : ℕ) :
    (littleEndian n v).take m = littleEndian m v := by
  induction n generalizing m v with
  | zero =>
    obtain rfl := Nat.le_zero.mp h
    rfl
  | succ n ih =>
    cases m with
    | zero => rfl
    | succ m => rw [littleEndian, List.take_succ_cons, ih (Nat.le_of_succ_le_succ h), littleEndian]

theorem bigEndian_succ (n v : ℕ) :
    bigEndian (n + 1) v = UInt8.ofNat (v / 256 ^ n) :: bigEndian n v := by
  unfold bigEndian
  induction n generalizing v with
  | zero => simp [littleEndian]
  | succ n ih =>
    rw [littleEndian, List.reverse_cons, ih, littleEndian, List.reverse_cons, List.cons_append,
      Nat.div_div_eq_div_mul, ← Nat.pow_succ']

/-- The big-endian bytes of a number without leading zeros, reversed, are as many of its
little-endian bytes as it needs. -/
theorem reverse_trim_bigEndian {n v : ℕ} (h : v < 256 ^ (n + 1)) :
    ∃ m, 0 < m ∧ m ≤ n + 1 ∧ v < 256 ^ m ∧
      (trim (bigEndian (n + 1) v)).reverse = littleEndian m v := by
  induction n with
  | zero => exact ⟨1, Nat.one_pos, Nat.le_refl _, h, rfl⟩
  | succ n ih =>
    rw [bigEndian_succ]
    by_cases hzero : v < 256 ^ (n + 1)
    · -- the first byte is a zero
      obtain ⟨m, hpos, hle, hlt, heq⟩ := ih hzero
      refine ⟨m, hpos, Nat.le_succ_of_le hle, hlt, ?_⟩
      rw [Nat.div_eq_of_lt hzero]
      rw [bigEndian_succ] at heq ⊢
      rw [trim, if_pos (show UInt8.ofNat 0 = 0 from rfl)]
      · exact heq
      · nofun
    · have hdiv : v / 256 ^ (n + 1) < 256 := by
        rw [Nat.div_lt_iff_lt_mul (Nat.pow_pos (by decide)), ← Nat.pow_succ']
        exact h
      have hpos : 0 < v / 256 ^ (n + 1) :=
        Nat.div_pos (Nat.le_of_not_lt hzero) (Nat.pow_pos (by decide))
      have hne : UInt8.ofNat (v / 256 ^ (n + 1)) ≠ 0 := by
        intro heq
        have hnat := congrArg UInt8.toNat heq
        rw [UInt8.toNat_ofNat', Nat.mod_eq_of_lt hdiv] at hnat
        exact absurd hnat (Nat.ne_of_gt hpos)
      refine ⟨n + 2, Nat.succ_pos _, Nat.le_refl _, h, ?_⟩
      rw [bigEndian_succ n, trim, if_neg hne, ← bigEndian_succ n, ← bigEndian_succ (n + 1),
        bigEndian, List.reverse_reverse]
      nofun

/-! ### Bits -/

/-- The bits of a byte, the most significant one first. -/
def bitsOf (b : UInt8) : List Bool := (List.range 8).map fun i => b.toBitVec.getMsbD i

/-- The bits of bytes, the most significant one of each first. -/
def bits (bs : List UInt8) : List Bool := bs.flatMap bitsOf

@[simp] theorem length_bitsOf (b : UInt8) : (bitsOf b).length = 8 := by
  rw [bitsOf, List.length_map, List.length_range]

@[simp] theorem length_bits (bs : List UInt8) : (bits bs).length = 8 * bs.length := by
  induction bs with
  | nil => rfl
  | cons b bs ih =>
    rw [bits, List.flatMap_cons, List.length_append, length_bitsOf, ← bits, ih, List.length_cons]
    omega

theorem bits_append (bs bs' : List UInt8) : bits (bs ++ bs') = bits bs ++ bits bs' :=
  List.flatMap_append

theorem bitsOf_inj {b b' : UInt8} (h : bitsOf b = bitsOf b') : b = b' := by
  apply UInt8.toBitVec_inj.mp
  apply BitVec.eq_of_getMsbD_eq
  intro i hi
  have hbit := congrArg (fun l => l[i]?) h
  simpa [bitsOf, hi] using hbit

theorem bits_inj {bs bs' : List UInt8} (h : bits bs = bits bs') : bs = bs' := by
  induction bs generalizing bs' with
  | nil =>
    have hlen := congrArg List.length h
    rw [length_bits, length_bits, List.length_nil] at hlen
    exact (List.length_eq_zero_iff.mp (by omega)).symm
  | cons b bs ih =>
    cases bs' with
    | nil =>
      have hlen := congrArg List.length h
      rw [length_bits, length_bits, List.length_cons, List.length_nil] at hlen
      omega
    | cons b' bs' =>
      rw [bits, bits, List.flatMap_cons, List.flatMap_cons] at h
      obtain ⟨hb, hbs⟩ := List.append_inj h (by rw [length_bitsOf, length_bitsOf])
      rw [bitsOf_inj hb, ih hbs]

end Bytes
