import PeeledOrange.Lib.Crc

/-!
# How far apart the words that pass a check are

Bits pass a check if they leave nothing behind in its register.  If the generator has an
odd number of ones below its leading term, to feed a bit changes the parity of the register
by that bit, so that two words that pass differ in an even number of places.  And if the
generator, shifted on and on, is not itself again too soon, they do not differ in two.

Whether it is can be found out by shifting it, which is done on numbers here.

## Main definitions

* `distance` — in how many places lists of bits differ.
* `word`, `parity` — the bits of a register; whether an odd number is set.
* `NoReturn` — the generator is not itself again in fewer than `n` shifts.

## Main results

* `parity_feed` — **the register has the parity of the bits.**
* `four_le_distance` — **words that pass and are not too long differ in four places at least.**
-/

namespace Crc

variable {w n : ℕ} {g c c' : BitVec w} {bs bs' l l' : List Bool}

/-- In how many places lists of bits differ. -/
def distance (bs bs' : List Bool) : ℕ := (List.zipWith xor bs bs').count true

@[simp] theorem distance_self (bs : List Bool) : distance bs bs = 0 := by
  rw [distance, zipWith_xor_self, List.count_replicate]
  rfl

theorem distance_append (h : bs.length = bs'.length) :
    distance (bs ++ l) (bs' ++ l') = distance bs bs' + distance l l' := by
  rw [distance, List.zipWith_append h, List.count_append]
  rfl

/-- The bits of a register, the most significant one first. -/
def word (c : BitVec w) : List Bool := (List.range w).map c.getMsbD

@[simp] theorem length_word (c : BitVec w) : (word c).length = w := by
  simp [word]

theorem word_append {m : ℕ} (c : BitVec w) (x : BitVec m) : word (c ++ x) = word c ++ word x := by
  rw [word, List.range_add, List.map_append, List.map_map]
  congr 1
  · refine List.map_congr_left fun i hi => ?_
    rw [BitVec.getMsbD_append, if_neg (Nat.not_le.mpr (List.mem_range.mp hi))]
  · refine List.map_congr_left fun i _ => ?_
    rw [Function.comp_apply, BitVec.getMsbD_append, if_pos (Nat.le_add_right w i),
      Nat.add_sub_cancel_left]

/-- **What leaves a register behind passes with that register after it**, and with no other. -/
theorem feed_word_eq_zero_iff (hg : g.getLsbD 0 = true) (x : BitVec w) :
    feed g c (bs ++ word x) = 0 ↔ feed g c bs = x := by
  rw [feed_append, word]
  constructor
  · intro hzero
    by_contra hne
    rw [feed_word] at hzero
    exact feed_zeros_ne_zero hg (fun heq => hne (BitVec.xor_eq_zero_iff.mp heq)) w hzero
  · rintro rfl
    rw [feed_leading]
    simp

/-! ### The parity -/

/-- Whether an odd number of bits is set. -/
def parity (bs : List Bool) : Bool := bs.foldr xor false

@[simp] theorem parity_nil : parity [] = false := rfl

@[simp] theorem parity_cons (b : Bool) (bs : List Bool) : parity (b :: bs) = (b ^^ parity bs) := rfl

theorem parity_append : parity (bs ++ bs') = (parity bs ^^ parity bs') := by
  induction bs with
  | nil => simp
  | cons b bs ih => rw [List.cons_append, parity_cons, ih, parity_cons, Bool.xor_assoc]

theorem parity_eq (bs : List Bool) : parity bs = decide (bs.count true % 2 = 1) := by
  induction bs with
  | nil => rfl
  | cons b bs ih =>
    rw [parity_cons, ih]
    cases b with
    | false => simp
    | true =>
      rw [List.count_cons_self, Bool.true_xor, ← decide_not, decide_eq_decide]
      omega

theorem parity_map_xor (is : List ℕ) (f f' : ℕ → Bool) :
    parity (is.map fun i => f i ^^ f' i) = (parity (is.map f) ^^ parity (is.map f')) := by
  induction is with
  | nil => rfl
  | cons i is ih =>
    simp only [List.map_cons, parity_cons, ih]
    rw [Bool.xor_assoc, Bool.xor_assoc, Bool.xor_left_comm (f' i)]

theorem parity_word_zero : parity (word (0 : BitVec w)) = false := by
  have hzeros : word (0 : BitVec w) = List.replicate w false := by
    simp [word, List.eq_replicate_iff]
  rw [hzeros, parity_eq, List.count_replicate]
  rfl

theorem parity_word_xor : parity (word (c ^^^ c')) = (parity (word c) ^^ parity (word c')) := by
  rw [word, word, word, ← parity_map_xor]
  congr 1
  refine List.map_congr_left fun i _ => ?_
  exact BitVec.getMsbD_xor

/-- A shift takes the first bit away. -/
theorem parity_word_shiftLeft (c : BitVec w) :
    parity (word (c <<< 1)) = (parity (word c) ^^ c.msb) := by
  cases w with
  | zero => simp [word, BitVec.msb, BitVec.getMsbD]
  | succ w =>
    have hlast : c.getMsbD (w + 1) = false := by simp [BitVec.getMsbD]
    have hshift : word (c <<< 1) = (List.range (w + 1)).map fun i => c.getMsbD (i + 1) := by
      refine List.map_congr_left fun i hi => ?_
      rw [BitVec.getMsbD_shiftLeft]
    rw [hshift, List.range_succ, List.map_append, parity_append, List.map_singleton, hlast, word,
      List.range_succ_eq_map, List.map_cons, parity_cons, List.map_map]
    show _ = (c.msb ^^ _ ^^ c.msb)
    rw [Bool.xor_comm c.msb, Bool.xor_assoc, Bool.xor_self]
    rfl

theorem parity_bitStep (hg : parity (word g) = true) (b : Bool) :
    parity (word (bitStep g c b)) = (parity (word c) ^^ b) := by
  have hadd : ∀ x : Bool, parity (word (if x = true then g else 0)) = x := by
    intro x
    cases x with
    | false => exact parity_word_zero
    | true => exact hg
  rw [bitStep, parity_word_xor, parity_word_shiftLeft, hadd, Bool.xor_assoc, ← Bool.xor_assoc c.msb,
    Bool.xor_self, Bool.false_xor]

/-- **The register has the parity of the bits** that have been fed to it. -/
theorem parity_feed (hg : parity (word g) = true) :
    parity (word (feed g c bs)) = (parity (word c) ^^ parity bs) := by
  induction bs generalizing c with
  | nil => simp
  | cons b bs ih => rw [feed_cons, ih, parity_bitStep hg, parity_cons, Bool.xor_assoc]

/-- What leaves nothing behind in an empty register has an even number of ones. -/
theorem even_of_feed_eq_zero (hg : parity (word g) = true) (h : feed g 0 bs = 0) :
    bs.count true % 2 = 0 := by
  have hparity := @parity_feed _ g 0 bs hg
  rw [h] at hparity
  rw [parity_word_zero, Bool.false_xor] at hparity
  have heven := hparity.symm
  rw [parity_eq, decide_eq_false_iff_not] at heven
  omega

/-! ### Two ones -/

/-- The generator, shifted, is not itself again in fewer than `n` steps. -/
def NoReturn (g : BitVec w) (n : ℕ) : Prop :=
  ∀ k, 0 < k → k < n → feed g g (List.replicate k false) ≠ g

/-- Bits begin with zeros, up to the first one. -/
theorem exists_first (h : true ∈ bs) : ∃ i l, bs = List.replicate i false ++ true :: l := by
  induction bs with
  | nil => cases h
  | cons b bs ih =>
    cases b with
    | true => exact ⟨0, bs, rfl⟩
    | false =>
      obtain ⟨i, l, rfl⟩ := ih ((List.mem_cons.mp h).resolve_left (by decide))
      exact ⟨i + 1, l, rfl⟩

theorem feed_zeros (g : BitVec w) (n : ℕ) : feed g 0 (List.replicate n false) = 0 := by
  induction n with
  | zero => rfl
  | succ n ih => rw [List.replicate_succ, feed_cons, bitStep_zero_false, ih]

/-- The first one leaves the generator behind. -/
theorem bitStep_zero_true : bitStep g 0 true = g := by
  simp [bitStep]

/-- A one adds the generator to what a zero leaves. -/
theorem bitStep_true (c : BitVec w) : bitStep g c true = bitStep g c false ^^^ g := by
  have hlinear := @bitStep_xor _ g c 0 false true
  have hsame : c ^^^ (0 : BitVec w) = c := BitVec.xor_zero
  rwa [hsame, bitStep_zero_true] at hlinear

/-- Two ones leave something behind, if there are not too many bits. -/
theorem feed_pair_ne_zero (hg : g.getLsbD 0 = true) (hreturn : NoReturn g n) (hlen : bs.length ≤ n)
    (h : bs.count true = 2) : feed g 0 bs ≠ 0 := by
  have hmem : true ∈ bs := List.count_pos_iff.mp (by omega)
  obtain ⟨i, l, rfl⟩ := exists_first hmem
  rw [List.count_append, List.count_replicate, List.count_cons_self] at h
  have hone : l.count true = 1 := by simpa using h
  have hmem' : true ∈ l := List.count_pos_iff.mp (by omega)
  obtain ⟨j, l, rfl⟩ := exists_first hmem'
  rw [List.count_append, List.count_replicate, List.count_cons_self] at hone
  have hnone : l.count true = 0 := by simpa using hone
  have hzeros : l = List.replicate l.length false := by
    refine List.eq_replicate_iff.mpr ⟨rfl, fun b hb => ?_⟩
    cases b with
    | false => rfl
    | true => exact absurd hb (List.count_eq_zero.mp hnone)
  simp only [List.length_append, List.length_replicate, List.length_cons] at hlen
  -- the second one finds the generator in the register only if that has returned
  have hsecond : bitStep g (feed g g (List.replicate j false)) true =
      feed g g (List.replicate (j + 1) false) ^^^ g := by
    rw [List.replicate_succ', feed_append]
    exact bitStep_true _
  rw [feed_append, feed_zeros, feed_cons, bitStep_zero_true, feed_append, feed_cons, hsecond,
    hzeros]
  refine feed_zeros_ne_zero hg (fun hzero => ?_) _
  exact hreturn (j + 1) (Nat.succ_pos j) (by omega) (BitVec.xor_eq_zero_iff.mp hzero)

/-! ### The distance -/

/-- What differs between words that pass leaves nothing behind. -/
theorem feed_zipWith_eq_zero (hlen : bs.length = bs'.length) (h : feed g c bs = 0)
    (h' : feed g c bs' = 0) : feed g 0 (List.zipWith xor bs bs') = 0 := by
  have hxor := @feed_xor _ g c c bs bs' hlen
  rwa [BitVec.xor_self, h, h', BitVec.xor_self] at hxor

/-- **Words that pass differ in an even number of places.** -/
theorem even_distance (hparity : parity (word g) = true) (hlen : bs.length = bs'.length)
    (h : feed g c bs = 0) (h' : feed g c bs' = 0) : distance bs bs' % 2 = 0 :=
  even_of_feed_eq_zero hparity (feed_zipWith_eq_zero hlen h h')

/-- **Words that pass and are not too long differ in four places at least.** -/
theorem four_le_distance (hg : g.getLsbD 0 = true) (hparity : parity (word g) = true)
    (hreturn : NoReturn g n) (hlen : bs.length = bs'.length) (hn : bs.length ≤ n)
    (h : feed g c bs = 0) (h' : feed g c bs' = 0) (hne : bs ≠ bs') : 4 ≤ distance bs bs' := by
  have heven := even_distance hparity hlen h h'
  have hpos : 0 < distance bs bs' := List.count_pos_iff.mpr (true_mem_zipWith_xor hlen hne)
  have htwo : distance bs bs' ≠ 2 := by
    intro htwo
    refine feed_pair_ne_zero hg hreturn ?_ htwo (feed_zipWith_eq_zero hlen h h')
    rw [List.length_zipWith]
    omega
  omega

/-! ### Shifting the generator -/

/-- A zero is fed, on numbers. -/
def numberStep (w g c : ℕ) : ℕ := 2 * c % 1 <<< w ^^^ bif (1 <<< (w - 1)).ble c then g else 0

/-- The register is not the generator after any of `n` steps. -/
def staysAway (w g : ℕ) : ℕ → ℕ → Bool
  | 0, _ => true
  | n + 1, c => bif (numberStep w g c).beq g then false else staysAway w g n (numberStep w g c)

theorem toNat_bitStep (c : BitVec w) :
    (bitStep g c false).toNat = numberStep w g.toNat c.toNat := by
  have hadd : (if c.msb = true then g else 0).toNat =
      bif (1 <<< (w - 1)).ble c.toNat then g.toNat else 0 := by
    have hmsb : c.msb = (1 <<< (w - 1)).ble c.toNat := by
      rw [BitVec.msb_eq_decide, Bool.eq_iff_iff, decide_eq_true_eq, Nat.ble_eq, Nat.one_shiftLeft]
    rw [hmsb]
    cases (1 <<< (w - 1)).ble c.toNat <;> rfl
  rw [bitStep, Bool.xor_false, BitVec.toNat_xor, BitVec.toNat_shiftLeft, hadd, numberStep,
    Nat.one_shiftLeft, Nat.one_shiftLeft, Nat.shiftLeft_eq, Nat.pow_one, Nat.mul_comm]

theorem feed_ne_of_staysAway {m : ℕ} (h : staysAway w g.toNat m c.toNat = true) {k : ℕ} (hk : 0 < k)
    (hkm : k ≤ m) : feed g c (List.replicate k false) ≠ g := by
  induction m generalizing c k with
  | zero => omega
  | succ m ih =>
    rw [staysAway, ← toNat_bitStep] at h
    obtain ⟨k, rfl⟩ := Nat.exists_eq_succ_of_ne_zero (Nat.ne_of_gt hk)
    rw [List.replicate_succ, feed_cons]
    cases hbeq : (bitStep g c false).toNat.beq g.toNat with
    | true =>
      rw [hbeq] at h
      cases h
    | false =>
      rw [hbeq] at h
      cases k with
      | zero =>
        intro heq
        exact Nat.ne_of_beq_eq_false hbeq (congrArg BitVec.toNat heq)
      | succ k => exact ih h (Nat.succ_pos k) (by omega)

theorem noReturn_of_staysAway (h : staysAway w g.toNat (n - 1) g.toNat = true) : NoReturn g n :=
  fun _ hk hkn => feed_ne_of_staysAway h hk (by omega)

end Crc
