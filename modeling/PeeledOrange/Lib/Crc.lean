import Mathlib.Data.List.Basic

/-!
# Cyclic redundancy checks

A check of `w` bits is a register that is fed one bit after the other, the most significant
one first: it is shifted by a bit, and if the bit that falls out differs from the one that
is fed, the generator is added.  `g` is the generator without its leading term.

To feed is linear, so that what two lists of bits leave behind differs by what their
difference leaves behind.  A difference within `w` bits leaves something behind if the
constant term of the generator is one, and no zeros that are fed after it make it vanish.

## Main definitions

* `bitStep`, `feed` — the register.
* `DiffersWithin` — lists that differ within a number of places.

## Main results

* `feed_xor` — **to feed is linear.**
* `feed_leading` — feeding a register its own leading bits shifts it.
* `feed_word` — to feed a word is to add it, and to feed zeros.
* `feed_ne_of_differsWithin` — **every difference within the width is detected.**
-/

namespace Crc

variable {w : ℕ}

/-- A bit is fed. -/
def bitStep (g c : BitVec w) (b : Bool) : BitVec w := c <<< 1 ^^^ if c.msb ^^ b then g else 0

/-- Bits are fed. -/
def feed (g c : BitVec w) (bs : List Bool) : BitVec w := bs.foldl (bitStep g) c

variable {g c c' : BitVec w} {bs bs' : List Bool}

@[simp] theorem feed_nil : feed g c [] = c := rfl

@[simp] theorem feed_cons (b : Bool) : feed g c (b :: bs) = feed g (bitStep g c b) bs := rfl

theorem feed_append : feed g c (bs ++ bs') = feed g (feed g c bs) bs' := List.foldl_append

/-! ### Linearity -/

theorem bitStep_xor (b b' : Bool) :
    bitStep g (c ^^^ c') (b ^^ b') = bitStep g c b ^^^ bitStep g c' b' := by
  have hshift : (c ^^^ c') <<< 1 = c <<< 1 ^^^ c' <<< 1 := BitVec.shiftLeft_xor_distrib ..
  have hcond : ((c ^^^ c').msb ^^ (b ^^ b')) = ((c.msb ^^ b) ^^ (c'.msb ^^ b')) := by
    rw [BitVec.msb_xor]
    cases c.msb <;> cases c'.msb <;> cases b <;> cases b' <;> rfl
  have hadd : ∀ x x' : Bool, (if (x ^^ x') = true then g else 0) =
      (if x = true then g else 0) ^^^ if x' = true then g else 0 := by
    intro x x'
    cases x <;> cases x' <;> simp
  rw [bitStep, hshift, hcond, hadd, bitStep, bitStep]
  ac_rfl

/-- **To feed is linear.** -/
theorem feed_xor (h : bs.length = bs'.length) :
    feed g (c ^^^ c') (List.zipWith xor bs bs') = feed g c bs ^^^ feed g c' bs' := by
  induction bs generalizing bs' c c' with
  | nil =>
    obtain rfl := List.length_eq_zero_iff.mp h.symm
    rfl
  | cons b bs ih =>
    cases bs' with
    | nil => cases h
    | cons b' bs' =>
      rw [List.zipWith_cons_cons, feed_cons, bitStep_xor, ih (Nat.succ.inj h)]
      rfl

/-- What the register begins with is fed to it: it is only shifted. -/
theorem feed_leading (g c : BitVec w) (n : ℕ) :
    feed g c ((List.range n).map c.getMsbD) = c <<< n := by
  induction n with
  | zero => simp
  | succ n ih =>
    have hmsb : ((c <<< n).msb ^^ c.getMsbD n) = false := by
      rw [BitVec.msb_shiftLeft, Bool.xor_self]
    rw [List.range_succ, List.map_append, feed_append, ih, List.map_singleton, feed_cons, feed_nil,
      bitStep, hmsb, if_neg Bool.false_ne_true, BitVec.shiftLeft_add]
    exact BitVec.xor_zero

/-- To feed a word is to add it to the register, and to feed as many zeros. -/
theorem feed_word (g c x : BitVec w) :
    feed g c ((List.range w).map x.getMsbD) = feed g (c ^^^ x) (List.replicate w false) := by
  have hxor : List.zipWith xor ((List.range w).map x.getMsbD) ((List.range w).map x.getMsbD) =
      List.replicate w false := by
    simp [List.zipWith_self]
  have hnone : feed g x ((List.range w).map x.getMsbD) = 0 := by
    rw [feed_leading]
    simp
  rw [← hxor, feed_xor rfl, hnone]
  exact BitVec.xor_zero.symm

/-! ### What is left behind -/

theorem getLsbD_bitStep_zero (hg : g.getLsbD 0 = true) {b : Bool} (h : (c.msb ^^ b) = true) :
    (bitStep g c b).getLsbD 0 = true := by
  rw [bitStep, if_pos h, BitVec.getLsbD_xor, BitVec.getLsbD_shiftLeft, hg]
  simp

/-- Where the lowest bit of the register is at most: it goes up by a place with each bit. -/
theorem exists_getLsbD_bitStep (hg : g.getLsbD 0 = true) {k : ℕ} (hk : k + 1 < w)
    (h : ∃ j ≤ k, c.getLsbD j = true) (b : Bool) :
    ∃ j ≤ k + 1, (bitStep g c b).getLsbD j = true := by
  by_cases hb : (c.msb ^^ b) = true
  · exact ⟨0, Nat.zero_le _, getLsbD_bitStep_zero hg hb⟩
  · obtain ⟨j, hj, hbit⟩ := h
    refine ⟨j + 1, Nat.succ_le_succ hj, ?_⟩
    have hlt : j + 1 < w := by omega
    rw [bitStep, if_neg hb, BitVec.getLsbD_xor, BitVec.getLsbD_shiftLeft]
    simp [hlt, hbit]

theorem feed_ne_zero_of_getLsbD (hg : g.getLsbD 0 = true) {k : ℕ} (hk : k + bs.length < w)
    (h : ∃ j ≤ k, c.getLsbD j = true) : feed g c bs ≠ 0 := by
  induction bs generalizing c k with
  | nil =>
    rintro rfl
    obtain ⟨j, -, hbit⟩ := h
    simp at hbit
  | cons b bs ih =>
    rw [List.length_cons] at hk
    exact ih (by omega) (exists_getLsbD_bitStep hg (by omega) h b)

theorem bitStep_zero_false : bitStep g 0 false = 0 := by
  simp [bitStep]

/-- At most `w` bits, of which one is set, leave something behind. -/
theorem feed_zero_ne_zero (hg : g.getLsbD 0 = true) (hlen : bs.length ≤ w) (h : true ∈ bs) :
    feed g 0 bs ≠ 0 := by
  induction bs with
  | nil => exact absurd h (List.not_mem_nil)
  | cons b bs ih =>
    rw [List.length_cons] at hlen
    cases b with
    | false =>
      rw [feed_cons, bitStep_zero_false]
      exact ih (by omega) ((List.mem_cons.mp h).resolve_left (by decide))
    | true =>
      -- the first bit that is set sets the lowest bit of the register
      rw [feed_cons]
      refine feed_ne_zero_of_getLsbD hg (k := 0) (by omega) ⟨0, Nat.le_refl 0, ?_⟩
      apply getLsbD_bitStep_zero hg
      rw [show (0 : BitVec w).msb = false from BitVec.msb_zero]
      rfl

theorem bitStep_false_ne_zero (hg : g.getLsbD 0 = true) (hc : c ≠ 0) : bitStep g c false ≠ 0 := by
  intro hzero
  by_cases hmsb : (c.msb ^^ false) = true
  · have hbit := getLsbD_bitStep_zero hg hmsb
    rw [hzero] at hbit
    simp at hbit
  · -- no bit falls out
    apply hc
    apply BitVec.eq_of_getLsbD_eq
    intro i hi
    rw [Bool.xor_false, Bool.not_eq_true] at hmsb
    have hshift : c <<< 1 = 0 := by
      rw [bitStep, hmsb, if_neg (by decide)] at hzero
      exact BitVec.xor_zero.symm.trans hzero
    have hbit := congrArg (fun v => v.getLsbD (i + 1)) hshift
    simp only [BitVec.getLsbD_shiftLeft] at hbit
    by_cases hlast : i + 1 < w
    · simpa [hlast] using hbit
    · have htop : i = w - 1 := by omega
      rw [htop, ← BitVec.msb_eq_getLsbD_last, hmsb]
      simp

/-- What has been left behind does not vanish. -/
theorem feed_zeros_ne_zero (hg : g.getLsbD 0 = true) (hc : c ≠ 0) (n : ℕ) :
    feed g c (List.replicate n false) ≠ 0 := by
  induction n generalizing c with
  | zero => exact hc
  | succ n ih =>
    rw [List.replicate_succ, feed_cons]
    exact ih (bitStep_false_ne_zero hg hc)

/-! ### Differences -/

theorem zipWith_xor_self (bs : List Bool) :
    List.zipWith xor bs bs = List.replicate bs.length false := by
  induction bs with
  | nil => rfl
  | cons b bs ih =>
    rw [List.zipWith_cons_cons, ih, Bool.xor_self, List.length_cons, List.replicate_succ]

theorem true_mem_zipWith_xor (hlen : bs.length = bs'.length) (h : bs ≠ bs') :
    true ∈ List.zipWith xor bs bs' := by
  induction bs generalizing bs' with
  | nil =>
    obtain rfl := List.length_eq_zero_iff.mp hlen.symm
    exact absurd rfl h
  | cons b bs ih =>
    cases bs' with
    | nil => cases hlen
    | cons b' bs' =>
      rw [List.zipWith_cons_cons]
      by_cases hb : b = b'
      · obtain rfl := hb
        exact List.mem_cons_of_mem _ (ih (Nat.succ.inj hlen) fun hbs => h (by rw [hbs]))
      · refine List.mem_cons.mpr (.inl ?_)
        cases b <;> cases b' <;> simp_all

/-- Registers that differ do so after the same bits. -/
theorem feed_ne_of_ne (hg : g.getLsbD 0 = true) (h : c ≠ c') : feed g c bs ≠ feed g c' bs := by
  intro heq
  apply feed_zeros_ne_zero hg (fun hzero => h (BitVec.xor_eq_zero_iff.mp hzero)) bs.length
  rw [← zipWith_xor_self, feed_xor rfl]
  exact BitVec.xor_eq_zero_iff.mpr heq

/-- The lists are as long as each other, and the same but for `n` places from `k` on. -/
structure DiffersWithin {α : Type} (k n : ℕ) (l l' : List α) : Prop where
  length_eq : l.length = l'.length
  take_eq : l.take k = l'.take k
  drop_eq : l.drop (k + n) = l'.drop (k + n)

/-- What differs within some places, after what is the same. -/
theorem DiffersWithin.of_append {α : Type} {k n : ℕ} {l l₁ l₂ : List α}
    (h : DiffersWithin k n (l ++ l₁) (l ++ l₂)) : DiffersWithin (k - l.length) n l₁ l₂ := by
  obtain ⟨hlen, htake, hdrop⟩ := h
  rw [List.length_append, List.length_append] at hlen
  rw [List.take_append, List.take_append] at htake
  rw [List.drop_append, List.drop_append] at hdrop
  refine ⟨Nat.add_left_cancel hlen, List.append_cancel_left htake, ?_⟩
  have hplace : k - l.length + n = (k + n - l.length) + (l.length - k - (l.length - (k + n))) := by
    omega
  rw [hplace, ← List.drop_drop, ← List.drop_drop, List.append_cancel_left hdrop]

/-- **Every difference within the width is detected.** -/
theorem feed_ne_of_differsWithin (hg : g.getLsbD 0 = true) {k : ℕ} (h : DiffersWithin k w bs bs')
    (hne : bs ≠ bs') : feed g c bs ≠ feed g c bs' := by
  obtain ⟨hlen, hpre, hpost⟩ := h
  have hsplit : ∀ l : List Bool,
      l = l.take k ++ ((l.drop k).take w ++ l.drop (k + w)) := fun l => by
    rw [← List.drop_drop, List.take_append_drop, List.take_append_drop]
  have hmid : (bs.drop k).take w ≠ (bs'.drop k).take w := by
    intro heq
    apply hne
    rw [hsplit bs, hsplit bs', hpre, hpost, heq]
  have hlenMid : ((bs.drop k).take w).length = ((bs'.drop k).take w).length := by
    rw [List.length_take, List.length_take, List.length_drop, List.length_drop, hlen]
  rw [hsplit bs, hsplit bs', feed_append, feed_append, feed_append, feed_append, hpre, hpost]
  -- the register is the same before the difference
  generalize feed g c (bs'.take k) = c₁
  apply feed_ne_of_ne hg
  intro heq
  have hzero := BitVec.xor_eq_zero_iff.mpr heq
  rw [← feed_xor hlenMid, BitVec.xor_self] at hzero
  refine feed_zero_ne_zero hg ?_ (true_mem_zipWith_xor hlenMid hmid) hzero
  rw [List.length_zipWith, List.length_take]
  omega

end Crc
