import PeeledOrange.Client.EgtsCrc
import PeeledOrange.Lib.Crc

/-!
# The checksum is a cyclic redundancy check

The table of `crc16` has what the register of a check of 16 bits comes to after eight bits,
for the generator `0x1021`.  So a turn of its loop feeds a byte to the low half of the
accumulator, whatever is in the high half.

## Main definitions

* `generator` — the generator, without its leading term.

## Main results

* `setWidth_crcStep` — **a turn of the loop feeds a byte.**
* `crcOf_eq_feed`, `crc16_eq_feed` — **the checksum of bytes is what is left behind by
  their bits.**
-/

namespace PeeledOrange
namespace Client

open Java Crc

/-- The generator, without its leading term. -/
def generator : BitVec 16 := 0x1021

theorem getLsbD_generator : generator.getLsbD 0 = true := by decide

/-- An entry of the table, as far as it matters. -/
def entry (x : BitVec 8) : BitVec 16 := (crc16Table.getD x.toNat 0).setWidth 16

/-! ### The table -/

/-- The entry for a byte is what it comes to in the high half of the register. -/
theorem feed_high (x : BitVec 8) :
    feed generator (x.setWidth 16 <<< 8) (List.replicate 8 false) = entry x := by
  revert x
  decide +kernel

/-- Nothing falls out of the low half. -/
theorem feed_low (x : BitVec 8) :
    feed generator (x.setWidth 16) (List.replicate 8 false) = x.setWidth 16 <<< 8 := by
  have hzeros : (List.range 8).map (x.setWidth 16).getMsbD = List.replicate 8 false := by
    simp [List.range_succ_eq_map, BitVec.getMsbD_setWidth]
  rw [← hzeros, feed_leading]

theorem feed_bitsOf (b : UInt8) : feed generator 0 (Bytes.bitsOf b) = entry b.toBitVec := by
  -- a byte that is in the high half already cancels the one that is fed
  have hbits : (List.range 8).map (b.toBitVec.setWidth 16 <<< 8).getMsbD = Bytes.bitsOf b := by
    simp [Bytes.bitsOf, List.range_succ_eq_map, BitVec.getMsbD_setWidth]
  have hcancel : feed generator (b.toBitVec.setWidth 16 <<< 8) (Bytes.bitsOf b) = 0 := by
    rw [← hbits, feed_leading]
    simp
  have hzeros : List.zipWith xor (Bytes.bitsOf b) (Bytes.bitsOf b) = List.replicate 8 false := by
    simp [Bytes.bitsOf, List.range_succ_eq_map]
  calc feed generator 0 (Bytes.bitsOf b)
      = feed generator (b.toBitVec.setWidth 16 <<< 8) (Bytes.bitsOf b) ^^^
          feed generator 0 (Bytes.bitsOf b) := by
        rw [hcancel]
        exact BitVec.zero_xor.symm
    _ = feed generator (b.toBitVec.setWidth 16 <<< 8 ^^^ 0) (List.replicate 8 false) := by
        rw [← feed_xor rfl, hzeros]
    _ = entry b.toBitVec := by
        rw [← feed_high]
        congr 1
        exact BitVec.xor_zero

theorem entry_xor (x y : BitVec 8) : entry (x ^^^ y) = entry x ^^^ entry y := by
  have hshift : (x ^^^ y).setWidth 16 <<< 8 = x.setWidth 16 <<< 8 ^^^ y.setWidth 16 <<< 8 := by
    rw [BitVec.setWidth_xor, BitVec.shiftLeft_xor_distrib]
  rw [← feed_high, hshift, ← feed_high, ← feed_high, ← feed_xor rfl]
  rfl

/-! ### The loop -/

theorem eq_high_xor_low (c : BitVec 16) :
    c = ((c >>> 8).setWidth 8).setWidth 16 <<< 8 ^^^ (c.setWidth 8).setWidth 16 := by
  apply BitVec.eq_of_getLsbD_eq
  intro i hi
  simp only [BitVec.getLsbD_xor, BitVec.getLsbD_shiftLeft, BitVec.getLsbD_setWidth,
    BitVec.getLsbD_ushiftRight]
  by_cases hlow : i < 8
  · simp [hi, hlow]
  · have hhigh : i - 8 < 8 := by omega
    have hsum : 8 + (i - 8) = i := by omega
    have hlt : i - 8 < 16 := by omega
    simp [hi, hlow, hhigh, hsum, hlt]

/-- What the register comes to after a byte. -/
theorem feed_byte (c : BitVec 16) (b : UInt8) :
    feed generator c (Bytes.bitsOf b) =
      (c.setWidth 8).setWidth 16 <<< 8 ^^^ entry ((c >>> 8).setWidth 8 ^^^ b.toBitVec) := by
  have hbyte : feed generator c (Bytes.bitsOf b) =
      feed generator c (List.replicate 8 false) ^^^ feed generator 0 (Bytes.bitsOf b) := by
    rw [← feed_xor (by rw [List.length_replicate, Bytes.length_bitsOf])]
    simp [Bytes.bitsOf, List.range_succ_eq_map]
  have hzeros : feed generator c (List.replicate 8 false) =
      entry ((c >>> 8).setWidth 8) ^^^ (c.setWidth 8).setWidth 16 <<< 8 := by
    rw [← feed_high, ← feed_low (c.setWidth 8), ← feed_xor rfl, ← eq_high_xor_low]
    rfl
  rw [hbyte, hzeros, feed_bitsOf, entry_xor]
  ac_rfl

theorem and_mask (x : BitVec 32) : x &&& 0xFF#32 = (x.setWidth 8).setWidth 32 := by
  apply BitVec.eq_of_toNat_eq
  rw [BitVec.toNat_and, BitVec.toNat_setWidth, BitVec.toNat_setWidth,
    Nat.mod_eq_of_lt (Nat.lt_trans (Nat.mod_lt _ (by decide)) (by decide))]
  exact Nat.and_two_pow_sub_one_eq_mod x.toNat 8

/-- The sign that the shift keeps is not among the bits that matter. -/
theorem setWidth_sshiftRight (crc : BitVec 32) :
    (crc.sshiftRight 8).setWidth 8 = (crc.setWidth 16 >>> 8).setWidth 8 := by
  apply BitVec.eq_of_getLsbD_eq
  intro i hi
  have hle : ¬32 ≤ i := by omega
  have hlt : 8 + i < 32 := by omega
  have hlt' : 8 + i < 16 := by omega
  simp only [BitVec.getLsbD_setWidth, BitVec.getLsbD_sshiftRight, BitVec.getLsbD_ushiftRight]
  simp [hi, hle, hlt, hlt']

/-- The index into the table. -/
theorem crcIndex_eq (crc : BitVec 32) (b : UInt8) :
    ((crc.sshiftRight 8 &&& 0xFF#32) ^^^ b.toBitVec.setWidth 32).toNat =
      ((crc.setWidth 16 >>> 8).setWidth 8 ^^^ b.toBitVec).toNat := by
  rw [and_mask, setWidth_sshiftRight, ← BitVec.setWidth_xor, BitVec.toNat_setWidth]
  exact Nat.mod_eq_of_lt (Nat.lt_trans (BitVec.isLt _) (by decide))

/-- **A turn of the loop feeds a byte** to the low half of the accumulator. -/
theorem setWidth_crcStep (crc : BitVec 32) (b : UInt8) :
    (crcStep crc b).setWidth 16 = feed generator (crc.setWidth 16) (Bytes.bitsOf b) := by
  have hshift : (crc <<< 8).setWidth 16 = ((crc.setWidth 16).setWidth 8).setWidth 16 <<< 8 := by
    apply BitVec.eq_of_getLsbD_eq
    intro i hi
    simp only [BitVec.getLsbD_setWidth, BitVec.getLsbD_shiftLeft]
    by_cases hlow : i < 8
    · simp [hlow]
    · have hhigh : i - 8 < 8 := by omega
      have hlt : i - 8 < 16 := by omega
      have hlt' : i < 32 := by omega
      simp [hi, hlow, hhigh, hlt, hlt']
  have hindex := crcIndex_eq crc b
  rw [feed_byte, crcStep, BitVec.setWidth_xor, hshift, entry, ← hindex]
  rfl

/-- **The checksum of bytes is what is left behind by their bits.** -/
theorem crcOf_eq_feed (bs : List UInt8) : crcOf bs = feed generator 0xFFFF (Bytes.bits bs) := by
  have hfold : ∀ crc : BitVec 32, (bs.foldl crcStep crc).setWidth 16 =
      feed generator (crc.setWidth 16) (Bytes.bits bs) := by
    induction bs with
    | nil => exact fun _ => rfl
    | cons b bs ih =>
      intro crc
      rw [List.foldl_cons, ih, setWidth_crcStep, ← feed_append]
      rfl
  exact hfold 0xFFFFFFFF

/-- **`crc16` of any range of any buffer is what is left behind by the bits of its bytes**,
the most significant one first, in a register of 16 bits that starts with ones; nothing
is reflected, and nothing is added at the end. -/
theorem crc16_eq_feed {buf : ByteBuffer} {offset size : ℕ} (hrange : offset + size ≤ buf.limit)
    (hint : buf.limit < 2 ^ 31) :
    crc16 buf offset size = .ok
      (feed generator 0xFFFF (Bytes.bits ((buf.array.drop (buf.arrayOffset + offset)).take size)),
        { buf with position := offset + size, position_le := hrange }) := by
  rw [← crcOf_eq_feed]
  exact crc16_range hrange hint

/-- The digits from 1 to 9, behind a byte that does not count. -/
def digits : ByteBuffer := .wrap [7, 49, 50, 51, 52, 53, 54, 55, 56, 57]

/-- Their checksum is the check value of CRC-16/CCITT. -/
theorem crc16_digits : (crc16 digits 1 9).toOption.map Prod.fst = some 0x29B1 := by
  have hfeed := @crc16_eq_feed digits 1 9 (by decide) (by decide)
  rw [show crc16 digits 1 9 = _ from hfeed]
  decide +kernel

/-- **Every difference within 16 bits is detected.** -/
theorem crcOf_ne {bs bs' : List UInt8} {k : ℕ}
    (h : DiffersWithin k 16 (Bytes.bits bs) (Bytes.bits bs')) (hne : bs ≠ bs') :
    crcOf bs ≠ crcOf bs' := by
  rw [crcOf_eq_feed, crcOf_eq_feed]
  exact feed_ne_of_differsWithin getLsbD_generator h fun heq => hne (Bytes.bits_inj heq)

end Client
end PeeledOrange
