import PeeledOrange.Lib.Java

/-!
# The checksum

`crc16` runs over a range of a buffer with a table of 256 entries.  Its accumulator is
a whole `int`, of which the low half is returned.

## Main definitions

* `crcStep` — one byte.
* `crc16` — a range of a buffer.

## Main results

* `crc16_range` — **the checksum of a range is that of its bytes.**
-/

namespace PeeledOrange
namespace Client

open Java

/-- `Crc16Table`. -/
def crc16Table : List (BitVec 32) :=
  [
    0x0000, 0x1021, 0x2042, 0x3063, 0x4084, 0x50A5, 0x60C6, 0x70E7,
    0x8108, 0x9129, 0xA14A, 0xB16B, 0xC18C, 0xD1AD, 0xE1CE, 0xF1EF,
    0x1231, 0x0210, 0x3273, 0x2252, 0x52B5, 0x4294, 0x72F7, 0x62D6,
    0x9339, 0x8318, 0xB37B, 0xA35A, 0xD3BD, 0xC39C, 0xF3FF, 0xE3DE,
    0x2462, 0x3443, 0x0420, 0x1401, 0x64E6, 0x74C7, 0x44A4, 0x5485,
    0xA56A, 0xB54B, 0x8528, 0x9509, 0xE5EE, 0xF5CF, 0xC5AC, 0xD58D,
    0x3653, 0x2672, 0x1611, 0x0630, 0x76D7, 0x66F6, 0x5695, 0x46B4,
    0xB75B, 0xA77A, 0x9719, 0x8738, 0xF7DF, 0xE7FE, 0xD79D, 0xC7BC,
    0x48C4, 0x58E5, 0x6886, 0x78A7, 0x0840, 0x1861, 0x2802, 0x3823,
    0xC9CC, 0xD9ED, 0xE98E, 0xF9AF, 0x8948, 0x9969, 0xA90A, 0xB92B,
    0x5AF5, 0x4AD4, 0x7AB7, 0x6A96, 0x1A71, 0x0A50, 0x3A33, 0x2A12,
    0xDBFD, 0xCBDC, 0xFBBF, 0xEB9E, 0x9B79, 0x8B58, 0xBB3B, 0xAB1A,
    0x6CA6, 0x7C87, 0x4CE4, 0x5CC5, 0x2C22, 0x3C03, 0x0C60, 0x1C41,
    0xEDAE, 0xFD8F, 0xCDEC, 0xDDCD, 0xAD2A, 0xBD0B, 0x8D68, 0x9D49,
    0x7E97, 0x6EB6, 0x5ED5, 0x4EF4, 0x3E13, 0x2E32, 0x1E51, 0x0E70,
    0xFF9F, 0xEFBE, 0xDFDD, 0xCFFC, 0xBF1B, 0xAF3A, 0x9F59, 0x8F78,
    0x9188, 0x81A9, 0xB1CA, 0xA1EB, 0xD10C, 0xC12D, 0xF14E, 0xE16F,
    0x1080, 0x00A1, 0x30C2, 0x20E3, 0x5004, 0x4025, 0x7046, 0x6067,
    0x83B9, 0x9398, 0xA3FB, 0xB3DA, 0xC33D, 0xD31C, 0xE37F, 0xF35E,
    0x02B1, 0x1290, 0x22F3, 0x32D2, 0x4235, 0x5214, 0x6277, 0x7256,
    0xB5EA, 0xA5CB, 0x95A8, 0x8589, 0xF56E, 0xE54F, 0xD52C, 0xC50D,
    0x34E2, 0x24C3, 0x14A0, 0x0481, 0x7466, 0x6447, 0x5424, 0x4405,
    0xA7DB, 0xB7FA, 0x8799, 0x97B8, 0xE75F, 0xF77E, 0xC71D, 0xD73C,
    0x26D3, 0x36F2, 0x0691, 0x16B0, 0x6657, 0x7676, 0x4615, 0x5634,
    0xD94C, 0xC96D, 0xF90E, 0xE92F, 0x99C8, 0x89E9, 0xB98A, 0xA9AB,
    0x5844, 0x4865, 0x7806, 0x6827, 0x18C0, 0x08E1, 0x3882, 0x28A3,
    0xCB7D, 0xDB5C, 0xEB3F, 0xFB1E, 0x8BF9, 0x9BD8, 0xABBB, 0xBB9A,
    0x4A75, 0x5A54, 0x6A37, 0x7A16, 0x0AF1, 0x1AD0, 0x2AB3, 0x3A92,
    0xFD2E, 0xED0F, 0xDD6C, 0xCD4D, 0xBDAA, 0xAD8B, 0x9DE8, 0x8DC9,
    0x7C26, 0x6C07, 0x5C64, 0x4C45, 0x3CA2, 0x2C83, 0x1CE0, 0x0CC1,
    0xEF1F, 0xFF3E, 0xCF5D, 0xDF7C, 0xAF9B, 0xBFBA, 0x8FD9, 0x9FF8,
    0x6E17, 0x7E36, 0x4E55, 0x5E74, 0x2E93, 0x3EB2, 0x0ED1, 0x1EF0]

/-- One turn of the loop of `crc16`; the shift to the right keeps the sign, and the index is one
of a byte, so that it is in the table. -/
def crcStep (crc : BitVec 32) (b : UInt8) : BitVec 32 :=
  crc <<< 8 ^^^
    crc16Table.getD ((crc.sshiftRight 8 &&& 0xFF) ^^^ b.toBitVec.setWidth 32).toNat 0

/-- `n` turns of the loop of `crc16`. -/
def crcLoop : ℕ → BitVec 32 → ByteBuffer → Except Throwable (BitVec 32 × ByteBuffer)
  | 0, crc, buf => .ok (crc, buf)
  | n + 1, crc, buf => do
    let (b, buf) ← buf.next
    crcLoop n (crcStep crc b) buf

/-- `crc16`: the loop runs until the position has reached the end. -/
def crc16 (buf : ByteBuffer) (offset size : ℤ) : Except Throwable (BitVec 16 × ByteBuffer) := do
  let buf ← buf.setPosition offset
  let size := add32 size offset
  let (crc, buf) ← crcLoop (size - buf.position).toNat 0xFFFFFFFF buf
  return (crc.setWidth 16, buf)

/-- The checksum of these bytes. -/
def crcOf (bs : List UInt8) : BitVec 16 := (bs.foldl crcStep 0xFFFFFFFF).setWidth 16

theorem crcLoop_eq : ∀ {bs : List UInt8} {crc : BitVec 32} {buf : ByteBuffer},
    (buf.array.drop (buf.arrayOffset + buf.position)).take bs.length = bs →
    (h : buf.position + bs.length ≤ buf.limit) →
    crcLoop bs.length crc buf = .ok (bs.foldl crcStep crc,
      { buf with position := buf.position + bs.length, position_le := h }) := by
  intro bs
  induction bs with
  | nil => intro crc buf _ _; rfl
  | cons b bs ih =>
    intro crc buf hbytes hlen
    -- the first byte is at the position, and the others are at the one after it
    rw [List.length_cons] at hbytes
    have hlt : buf.position < buf.limit := by
      rw [List.length_cons] at hlen
      omega
    have hle := buf.limit_le
    have hdrop := List.drop_eq_getElem_cons
      (show buf.arrayOffset + buf.position < buf.array.length by omega)
    rw [hdrop, List.take_succ_cons, List.cons.injEq] at hbytes
    obtain ⟨hb, hbs⟩ := hbytes
    have hget : buf.array.getD (buf.arrayOffset + buf.position) 0 = b := by
      rw [List.getD_eq_getElem?_getD, List.getElem?_eq_getElem (by omega), hb]
      rfl
    have hrest : buf.position + 1 + bs.length ≤ buf.limit := by
      rw [List.length_cons] at hlen
      omega
    simp only [List.length_cons, crcLoop, ByteBuffer.next, dif_pos hlt, hget, ok_bind,
      List.foldl_cons]
    rw [@ih _ { buf with position := buf.position + 1, position_le := hlt } hbs hrest]
    simp only [Nat.add_assoc, Nat.add_comm 1]

/-- **The checksum of a range is that of its bytes.** -/
theorem crc16_range {buf : ByteBuffer} {offset n : ℕ} (hle : offset + n ≤ buf.limit)
    (hint : buf.limit < 2 ^ 31) :
    crc16 buf offset n = .ok (crcOf ((buf.array.drop (buf.arrayOffset + offset)).take n),
      { buf with position := offset + n, position_le := hle }) := by
  have hset : buf.setPosition offset =
      .ok { buf with position := offset, position_le := by omega } := by
    rw [ByteBuffer.setPosition, dif_pos ⟨by omega, by omega⟩]
    rfl
  have hend : add32 n offset = n + offset := add32_of_lt (by omega) (by omega)
  have hturns : ((n + offset : ℤ) - offset).toNat = n := by omega
  have hlength : ((buf.array.drop (buf.arrayOffset + offset)).take n).length = n := by
    have hlimit := buf.limit_le
    exact List.length_take_of_le (by rw [List.length_drop]; omega)
  -- what the loop passes from the offset on
  have hloop := @crcLoop_eq ((buf.array.drop (buf.arrayOffset + offset)).take n) 0xFFFFFFFF
    { buf with position := offset, position_le := by omega } (by rw [hlength])
    (by rw [hlength]; exact hle)
  simp only [hlength] at hloop
  rw [crc16, hset, hend]
  simp only [ok_bind, hturns, hloop]
  rfl

theorem crc16_eq {buf : ByteBuffer} {pre bs post : List UInt8} {pos : ℕ}
    (hbuf : buf.Over (pre ++ bs ++ post) pos) (hlen : (pre ++ bs ++ post).length < 2 ^ 31) :
    ∃ buf', crc16 buf pre.length bs.length = .ok (crcOf bs, buf') ∧
      buf'.Over (pre ++ bs ++ post) (pre.length + bs.length) := by
  have hle : pre.length + bs.length ≤ buf.limit := by
    rw [hbuf.limit_eq, List.length_append, List.length_append]
    omega
  have hbytes : (buf.array.drop (buf.arrayOffset + pre.length)).take bs.length = bs := by
    rw [hbuf.array_eq, hbuf.arrayOffset_eq, Nat.zero_add, List.append_assoc, List.drop_left,
      List.take_left]
  rw [crc16_range hle (by rw [hbuf.limit_eq]; exact hlen), hbytes]
  exact ⟨_, rfl, hbuf.array_eq, hbuf.arrayOffset_eq, hbuf.limit_eq, rfl⟩

/-- Whatever comes after the range. -/
theorem crc16_starts {buf : ByteBuffer} {bs : List UInt8} {limit : ℕ} (hbuf : buf.Starts bs limit)
    {offset n : ℕ} (hle : offset + n ≤ bs.length) :
    ∃ buf', crc16 buf offset n = .ok (crcOf ((bs.drop offset).take n), buf') := by
  have hint := hbuf.length_lt
  have hlimit := hbuf.limit_le_length
  have hlimit_eq := hbuf.limit_eq
  have hbs := hbuf.length_le
  have hroom : offset + n ≤ buf.limit := by omega
  have hbytes : (buf.array.drop (buf.arrayOffset + offset)).take n = (bs.drop offset).take n := by
    rw [hbuf.arrayOffset_eq, Nat.zero_add, hbuf.take_drop hle]
  rw [crc16_range hroom (by omega), hbytes]
  exact ⟨_, rfl⟩

/-- Where the loop starts and ends: a negative size is as none. -/
theorem crc16_toNat (buf : ByteBuffer) {offset : ℕ} {size : ℤ} (hsize : -2 ^ 31 ≤ size)
    (hlt : size.toNat + offset < 2 ^ 31) : crc16 buf offset size = crc16 buf offset size.toNat := by
  rw [crc16, crc16]
  cases hset : buf.setPosition offset with
  | error e => rfl
  | ok b =>
    have hpos := (ByteBuffer.setPosition_eq_ok hset).1
    have hend : add32 size.toNat offset = (size.toNat + offset : ℕ) := add32_eq (by omega) hlt
    have hadd : add32 size offset = size + offset := add32_of_lt (by omega) (by omega)
    have hturns : (add32 size offset - b.position).toNat =
        (add32 size.toNat offset - b.position).toNat := by
      rw [hend, hadd]
      omega
    simp only [ok_bind, hturns]

theorem crcLoop_short {n : ℕ} {crc : BitVec 32} {buf : ByteBuffer}
    (h : buf.limit < buf.position + n) : crcLoop n crc buf = .error .bufferUnderflow := by
  induction n generalizing crc buf with
  | zero => exact absurd buf.position_le (Nat.not_le.mpr h)
  | succ n ih =>
    rw [crcLoop, ByteBuffer.next]
    by_cases hlt : buf.position < buf.limit
    · rw [dif_pos hlt, ok_bind]
      exact ih (by simp only; omega)
    · rw [dif_neg hlt, error_bind]

/-- The checksum of more bytes than there are. -/
theorem crc16_short {buf : ByteBuffer} {pre rest : List UInt8} {pos n : ℕ}
    (hbuf : buf.Over (pre ++ rest) pos) (hn : rest.length < n) (hlt : n + pre.length < 2 ^ 31) :
    crc16 buf pre.length n = .error .bufferUnderflow := by
  obtain ⟨buf₀, hset, hbuf₀⟩ := hbuf.setPosition (n := pre.length) (by
    rw [List.length_append]
    omega)
  have hend : add32 n pre.length = (n + pre.length : ℕ) := add32_natCast hlt
  have hturns : ((n + pre.length : ℕ) - (pre.length : ℤ)).toNat = n := by omega
  rw [crc16, hset]
  simp only [ok_bind, hend, hbuf₀.position_eq, hturns]
  rw [crcLoop_short, error_bind]
  rw [hbuf₀.position_eq, hbuf₀.limit_eq, List.length_append]
  omega

/-- The checksum moves the position, and leaves the rest of the buffer. -/
theorem crc16_moved {buf buf' : ByteBuffer} {offset size : ℤ} {crc : BitVec 16}
    (h : crc16 buf offset size = .ok (crc, buf')) : buf.Moved buf' := by
  have hloop : ∀ (n : ℕ) (c c' : BitVec 32) (b b' : ByteBuffer),
      crcLoop n c b = .ok (c', b') → b.Moved b' := by
    intro n
    induction n with
    | zero =>
      intro c c' b b' hb
      cases hb
      exact .refl b
    | succ n ih =>
      intro c c' b b' hb
      rw [crcLoop, bind_eq_ok_iff] at hb
      obtain ⟨⟨x, b₁⟩, hnext, hb⟩ := hb
      exact (ByteBuffer.next_moved hnext).trans (ih _ _ _ _ hb)
  rw [crc16, bind_eq_ok_iff] at h
  obtain ⟨buf₁, hpos, h⟩ := h
  rw [bind_eq_ok_iff] at h
  obtain ⟨⟨c, buf₂⟩, hcrc, h⟩ := h
  cases h
  exact (ByteBuffer.setPosition_moved hpos).trans (hloop _ _ _ _ _ hcrc)

end Client
end PeeledOrange
