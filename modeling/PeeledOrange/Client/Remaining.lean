import PeeledOrange.Client.Checksum

/-!
# The checksum of what remains

Besides `crc16`, which is given a range, `EgtsCrc` has a checksum of all bytes that remain
in a buffer.  `crc8` is a cyclic redundancy check of 8 bits, for the generator `0x31`.

## Main definitions

* `whileRemaining` — a loop over the bytes that remain.
* `crc8` — the checksum.

## Main results

* `crc8_eq_feed` — **`crc8` is what is left behind by the bits of the bytes.**
* `crc8_ne` — **every difference within 8 bits is detected.**
-/

namespace PeeledOrange
namespace Client

open Java Crc

/-! ### The checksum -/

/-- A loop that gets a byte in each of `n` turns. -/
def eachByte {α : Type} (f : α → UInt8 → α) : ℕ → α → ByteBuffer →
    Except Throwable (α × ByteBuffer)
  | 0, a, buf => .ok (a, buf)
  | n + 1, a, buf => do
    let (b, buf) ← buf.next
    eachByte f n (f a b) buf

/-- A loop that gets a byte in each turn, while `hasRemaining`. -/
def whileRemaining {α : Type} (f : α → UInt8 → α) (a : α) (buf : ByteBuffer) :
    Except Throwable (α × ByteBuffer) := eachByte f (buf.limit - buf.position) a buf

/-- `CRC8Table`. -/
def crc8Table : List (BitVec 32) :=
  [
    0x00, 0x31, 0x62, 0x53, 0xC4, 0xF5, 0xA6, 0x97,
    0xB9, 0x88, 0xDB, 0xEA, 0x7D, 0x4C, 0x1F, 0x2E,
    0x43, 0x72, 0x21, 0x10, 0x87, 0xB6, 0xE5, 0xD4,
    0xFA, 0xCB, 0x98, 0xA9, 0x3E, 0x0F, 0x5C, 0x6D,
    0x86, 0xB7, 0xE4, 0xD5, 0x42, 0x73, 0x20, 0x11,
    0x3F, 0x0E, 0x5D, 0x6C, 0xFB, 0xCA, 0x99, 0xA8,
    0xC5, 0xF4, 0xA7, 0x96, 0x01, 0x30, 0x63, 0x52,
    0x7C, 0x4D, 0x1E, 0x2F, 0xB8, 0x89, 0xDA, 0xEB,
    0x3D, 0x0C, 0x5F, 0x6E, 0xF9, 0xC8, 0x9B, 0xAA,
    0x84, 0xB5, 0xE6, 0xD7, 0x40, 0x71, 0x22, 0x13,
    0x7E, 0x4F, 0x1C, 0x2D, 0xBA, 0x8B, 0xD8, 0xE9,
    0xC7, 0xF6, 0xA5, 0x94, 0x03, 0x32, 0x61, 0x50,
    0xBB, 0x8A, 0xD9, 0xE8, 0x7F, 0x4E, 0x1D, 0x2C,
    0x02, 0x33, 0x60, 0x51, 0xC6, 0xF7, 0xA4, 0x95,
    0xF8, 0xC9, 0x9A, 0xAB, 0x3C, 0x0D, 0x5E, 0x6F,
    0x41, 0x70, 0x23, 0x12, 0x85, 0xB4, 0xE7, 0xD6,
    0x7A, 0x4B, 0x18, 0x29, 0xBE, 0x8F, 0xDC, 0xED,
    0xC3, 0xF2, 0xA1, 0x90, 0x07, 0x36, 0x65, 0x54,
    0x39, 0x08, 0x5B, 0x6A, 0xFD, 0xCC, 0x9F, 0xAE,
    0x80, 0xB1, 0xE2, 0xD3, 0x44, 0x75, 0x26, 0x17,
    0xFC, 0xCD, 0x9E, 0xAF, 0x38, 0x09, 0x5A, 0x6B,
    0x45, 0x74, 0x27, 0x16, 0x81, 0xB0, 0xE3, 0xD2,
    0xBF, 0x8E, 0xDD, 0xEC, 0x7B, 0x4A, 0x19, 0x28,
    0x06, 0x37, 0x64, 0x55, 0xC2, 0xF3, 0xA0, 0x91,
    0x47, 0x76, 0x25, 0x14, 0x83, 0xB2, 0xE1, 0xD0,
    0xFE, 0xCF, 0x9C, 0xAD, 0x3A, 0x0B, 0x58, 0x69,
    0x04, 0x35, 0x66, 0x57, 0xC0, 0xF1, 0xA2, 0x93,
    0xBD, 0x8C, 0xDF, 0xEE, 0x79, 0x48, 0x1B, 0x2A,
    0xC1, 0xF0, 0xA3, 0x92, 0x05, 0x34, 0x67, 0x56,
    0x78, 0x49, 0x1A, 0x2B, 0xBC, 0x8D, 0xDE, 0xEF,
    0x82, 0xB3, 0xE0, 0xD1, 0x46, 0x77, 0x24, 0x15,
    0x3B, 0x0A, 0x59, 0x68, 0xFF, 0xCE, 0x9D, 0xAC]

/-- One turn of the loop of `crc8`. -/
def crc8Step (crc : BitVec 32) (b : UInt8) : BitVec 32 :=
  crc8Table.getD ((crc &&& 0xFF) ^^^ b.toBitVec.setWidth 32).toNat 0

/-- `crc8`. -/
def crc8 (buf : ByteBuffer) : Except Throwable (BitVec 32 × ByteBuffer) :=
  whileRemaining crc8Step 0xFF buf

/-! ### The loop -/

section Loop

variable {α : Type} {f : α → UInt8 → α} {buf : ByteBuffer}

/-- The buffer, when nothing remains in it. -/
def atLimit (buf : ByteBuffer) : ByteBuffer :=
  { buf with position := buf.limit, position_le := le_rfl }

theorem length_remaining (buf : ByteBuffer) : buf.remaining.length = buf.limit - buf.position := by
  have hle := buf.limit_le
  rw [ByteBuffer.remaining, List.length_take, List.length_drop]
  omega

/-- The byte at the position is the first of those that remain. -/
theorem remaining_eq_cons (h : buf.position < buf.limit) :
    buf.remaining = buf.array.getD (buf.arrayOffset + buf.position) 0 ::
      ({ buf with position := buf.position + 1, position_le := h } : ByteBuffer).remaining := by
  have hle := buf.limit_le
  have hlt : buf.arrayOffset + buf.position < buf.array.length := by omega
  have hroom : buf.limit - buf.position = buf.limit - (buf.position + 1) + 1 := by omega
  rw [ByteBuffer.remaining, List.drop_eq_getElem_cons hlt, hroom, List.take_succ_cons,
    List.getD_eq_getElem _ _ hlt]
  rfl

/-- **The loop runs over the bytes that remain**, and leaves none. -/
theorem whileRemaining_eq (a : α) (buf : ByteBuffer) :
    whileRemaining f a buf = .ok (buf.remaining.foldl f a, atLimit buf) := by
  rw [whileRemaining]
  induction hn : buf.limit - buf.position generalizing a buf with
  | zero =>
    have hpos : buf.position = buf.limit := by
      have hle := buf.position_le
      omega
    have hnone : buf.remaining = [] := by
      rw [← List.length_eq_zero_iff, length_remaining, hn]
    have hsame : atLimit buf = buf := by
      ext1 <;> first | rfl | exact hpos.symm
    rw [hnone, hsame]
    rfl
  | succ n ih =>
    have hlt : buf.position < buf.limit := by omega
    rw [eachByte, ByteBuffer.next, dif_pos hlt, ok_bind, remaining_eq_cons hlt, List.foldl_cons]
    exact ih _ { buf with position := buf.position + 1, position_le := hlt }
      (show buf.limit - (buf.position + 1) = n by omega)

end Loop

/-! ### `crc8` -/

/-- The generator of `crc8`, without its leading term. -/
def generator8 : BitVec 8 := 0x31

/-- An entry of the table is what the register comes to after a byte. -/
theorem getD_crc8Table (x : BitVec 8) :
    crc8Table.getD x.toNat 0 = (feed generator8 x (List.replicate 8 false)).setWidth 32 := by
  revert x
  decide +kernel

/-- A byte as an `int`, as a byte. -/
theorem setWidth_back (c : BitVec 8) : (c.setWidth 32).setWidth 8 = c := by
  rw [BitVec.setWidth_setWidth_of_le _ (by decide), BitVec.setWidth_eq]

/-- **A turn of the loop feeds a byte** to the register. -/
theorem crc8Step_eq (c : BitVec 8) (b : UInt8) :
    crc8Step (c.setWidth 32) b = (feed generator8 c (Bytes.bitsOf b)).setWidth 32 := by
  have hmask : c.setWidth 32 &&& 0xFF = c.setWidth 32 :=
    (and_mask _).trans (by rw [setWidth_back])
  have hindex : (c.setWidth 32 ^^^ b.toBitVec.setWidth 32).toNat = (c ^^^ b.toBitVec).toNat := by
    rw [← BitVec.setWidth_xor, BitVec.toNat_setWidth]
    exact Nat.mod_eq_of_lt (Nat.lt_trans (BitVec.isLt _) (by decide))
  rw [crc8Step, hmask, hindex, getD_crc8Table, ← feed_word]
  rfl

/-- **`crc8` of any buffer is what is left behind by the bits of the bytes that remain in it**,
the most significant one first, in a register of 8 bits that starts with ones; nothing is
reflected, and nothing is added at the end. -/
theorem crc8_eq_feed (buf : ByteBuffer) : crc8 buf =
    .ok ((feed generator8 0xFF (Bytes.bits buf.remaining)).setWidth 32, atLimit buf) := by
  have hfold : ∀ (bs : List UInt8) (c : BitVec 8), bs.foldl crc8Step (c.setWidth 32) =
      (feed generator8 c (Bytes.bits bs)).setWidth 32 := by
    intro bs
    induction bs with
    | nil => exact fun _ => rfl
    | cons b bs ih =>
      intro c
      rw [List.foldl_cons, crc8Step_eq, ih, ← feed_append]
      rfl
  rw [crc8, whileRemaining_eq, ← hfold buf.remaining 0xFF]
  rfl

/-- Of the digits from 1 to 9 it is the check value of this kind of check. -/
example : (crc8 (.wrap [49, 50, 51, 52, 53, 54, 55, 56, 57])).toOption.map Prod.fst =
    some 0xF7 := by decide +kernel

/-- **Every difference within 8 bits is detected.** -/
theorem crc8_ne {buf buf' : ByteBuffer} {k : ℕ} {crc crc' : BitVec 32} {after after' : ByteBuffer}
    (h : DiffersWithin k 8 (Bytes.bits buf.remaining) (Bytes.bits buf'.remaining))
    (hne : buf.remaining ≠ buf'.remaining) (hcrc : crc8 buf = .ok (crc, after))
    (hcrc' : crc8 buf' = .ok (crc', after')) : crc ≠ crc' := by
  rw [crc8_eq_feed] at hcrc hcrc'
  cases hcrc
  cases hcrc'
  intro heq
  have hregister := congrArg (BitVec.setWidth 8) heq
  rw [setWidth_back, setWidth_back] at hregister
  exact feed_ne_of_differsWithin (by decide) h (fun hbits => hne (Bytes.bits_inj hbits)) hregister

/-- Two bytes, of which two bits next to each other differ. -/
theorem crc8_ne_twoBytes : ∃ crc crc' after after',
    crc8 (.wrap [1, 2]) = .ok (crc, after) ∧ crc8 (.wrap [0, 0x82]) = .ok (crc', after') ∧
      crc ≠ crc' := by
  refine ⟨_, _, _, _, rfl, rfl, @crc8_ne (.wrap [1, 2]) (.wrap [0, 0x82]) 7 _ _ _ _ ?_ ?_ rfl rfl⟩
  · exact ⟨by decide, by decide, by decide⟩
  · decide

end Client
end PeeledOrange
