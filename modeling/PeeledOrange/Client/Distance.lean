import PeeledOrange.Lib.CrcDistance
import PeeledOrange.Client.Corruption

/-!
# A few bits that have been altered anywhere

The checksum notices more than what has been altered within 16 bits.  The bytes that it
covers and the checksum together are bits that leave nothing behind in the register, and two
different lists of bits of that kind differ in an even number of places; if they are shorter
than the period of the generator, which is 32767, they differ in four at least.  So an odd
number of altered bits is always noticed, and up to three are where the checksum covers up to
4093 bytes, wherever they are.

## Main definitions

* `checked` — the bits that are checked: the bytes that are covered, and the checksum.
* `Frame.DiffersInChecked` — only the checksum and the bytes that it covers differ.

## Main results

* `noReturn_generator` — the period of the generator.
* `createFromArray_fewBits` — **an odd number of altered bits is noticed, and so are three.**
-/

namespace PeeledOrange
namespace Client

open Java Crc

variable {utf8 : Charset} {crc crc' bs bs' : List UInt8}

/-! ### The generator -/

theorem parity_generator : parity (word generator) = true := by decide

/-- The period of the generator. -/
theorem noReturn_generator : NoReturn generator 32767 := noReturn_of_staysAway (by decide +kernel)

/-! ### What is checked -/

/-- The bits of the bytes that are covered, and of the number that the checksum is read as. -/
def checked (crc bs : List UInt8) : List Bool :=
  Bytes.bits bs ++ word (BitVec.ofNat 16 (Bytes.toNat crc))

theorem length_checked (crc bs : List UInt8) : (checked crc bs).length = 8 * bs.length + 16 := by
  rw [checked, List.length_append, Bytes.length_bits, length_word]

/-- The checksum is that of the bytes if nothing is left behind. -/
theorem feed_checked_eq_zero_iff : feed generator 0xFFFF (checked crc bs) = 0 ↔
    crcOf bs = BitVec.ofNat 16 (Bytes.toNat crc) := by
  rw [crcOf_eq_feed]
  exact feed_word_eq_zero_iff getLsbD_generator _

/-- The number has the bits of the second byte first. -/
theorem word_ofNat (lo hi : UInt8) : word (BitVec.ofNat 16 (Bytes.toNat [lo, hi])) =
    Bytes.bitsOf hi ++ Bytes.bitsOf lo := by
  have happend : BitVec.ofNat 16 (Bytes.toNat [lo, hi]) = hi.toBitVec ++ lo.toBitVec := by
    apply BitVec.eq_of_toNat_eq
    have hlo := lo.toNat_lt
    have hhi := hi.toNat_lt
    rw [BitVec.toNat_append, ← Nat.shiftLeft_add_eq_or_of_lt lo.toBitVec.isLt, Nat.shiftLeft_eq,
      BitVec.toNat_ofNat, Bytes.toNat_cons, Bytes.toNat_cons, Bytes.toNat_nil]
    show (lo.toNat + 256 * (hi.toNat + 256 * 0)) % 2 ^ 16 = hi.toNat * 2 ^ 8 + lo.toNat
    omega
  rw [happend]
  exact word_append hi.toBitVec lo.toBitVec

theorem distance_bits_append (h : crc.length = crc'.length) :
    distance (Bytes.bits (crc ++ bs)) (Bytes.bits (crc' ++ bs')) =
      distance (Bytes.bits crc) (Bytes.bits crc') + distance (Bytes.bits bs) (Bytes.bits bs') := by
  rw [Bytes.bits_append, Bytes.bits_append]
  exact distance_append (by rw [Bytes.length_bits, Bytes.length_bits, h])

/-- The number differs in as many bits as its bytes do. -/
theorem distance_word (h : crc.length = 2) (h' : crc'.length = 2) :
    distance (word (BitVec.ofNat 16 (Bytes.toNat crc)))
      (word (BitVec.ofNat 16 (Bytes.toNat crc'))) =
    distance (Bytes.bits crc) (Bytes.bits crc') := by
  obtain ⟨lo, hi, rfl⟩ := List.length_eq_two.mp h
  obtain ⟨lo', hi', rfl⟩ := List.length_eq_two.mp h'
  have hbits : ∀ b b' : UInt8, Bytes.bits [b, b'] = Bytes.bitsOf b ++ Bytes.bitsOf b' :=
    fun _ _ => by simp [Bytes.bits]
  rw [word_ofNat, word_ofNat, hbits, hbits, distance_append (by simp), distance_append (by simp),
    Nat.add_comm]

theorem distance_checked (h : crc.length = 2) (h' : crc'.length = 2)
    (hlen : bs.length = bs'.length) :
    distance (checked crc bs) (checked crc' bs') =
      distance (Bytes.bits crc) (Bytes.bits crc') + distance (Bytes.bits bs) (Bytes.bits bs') := by
  rw [checked, checked, distance_append (by rw [Bytes.length_bits, Bytes.length_bits, hlen]),
    distance_word h h', Nat.add_comm]

/-- **With an odd number of altered bits, or up to three, the checksum is another one.** -/
theorem crcOf_ne_of_distance (h : crc.length = 2) (h' : crc'.length = 2)
    (hlen : bs.length = bs'.length) (hcrc : crcOf bs = BitVec.ofNat 16 (Bytes.toNat crc))
    (hne : crc ++ bs ≠ crc' ++ bs')
    (hfew : distance (Bytes.bits (crc ++ bs)) (Bytes.bits (crc' ++ bs')) % 2 = 1 ∨
      distance (Bytes.bits (crc ++ bs)) (Bytes.bits (crc' ++ bs')) ≤ 3 ∧ bs.length ≤ 4093) :
    crcOf bs' ≠ BitVec.ofNat 16 (Bytes.toNat crc') := by
  intro hcrc'
  have hlength : (checked crc bs).length = (checked crc' bs').length := by
    rw [length_checked, length_checked, hlen]
  rw [distance_bits_append (h.trans h'.symm), ← distance_checked h h' hlen] at hfew
  rw [← feed_checked_eq_zero_iff] at hcrc hcrc'
  have heven := even_distance parity_generator hlength hcrc hcrc'
  have hdiffers : checked crc bs ≠ checked crc' bs' := by
    intro heq
    apply hne
    have hsame : distance (Bytes.bits (crc ++ bs)) (Bytes.bits (crc' ++ bs')) = 0 := by
      rw [distance_bits_append (h.trans h'.symm), ← distance_checked h h' hlen, heq, distance_self]
    apply Bytes.bits_inj
    by_contra hbits
    refine absurd hsame (Nat.ne_of_gt (List.count_pos_iff.mpr (true_mem_zipWith_xor ?_ hbits)))
    simp [h, h', hlen]
  rcases hfew with hodd | ⟨hthree, hshort⟩
  · omega
  · have hfour := four_le_distance getLsbD_generator parity_generator noReturn_generator hlength
      (by rw [length_checked]; omega) hcrc hcrc' hdiffers
    omega

/-! ### The whole packet -/

namespace Frame

variable (f f' : Frame)

/-- The checksum of a packet and the bytes that it covers. -/
def checkedBytes : List UInt8 := f.crc ++ f.rest.take f.covered

/-- Only the checksum and the bytes that it covers differ. -/
structure DiffersInChecked : Prop where
  head : f'.head = f.head
  cmd : f'.cmd = f.cmd
  packetID : f'.packetID = f.packetID
  size : f'.size = f.size
  length_rest : f'.rest.length = f.rest.length
  behind : f'.rest.drop f.covered = f.rest.drop f.covered

/-- The bytes in the order in which they come. -/
theorem bytes_eq : f.bytes = [f.head] ++ (f.crc ++ (f.cmd :: (f.packetID ++ f.size) ++
    (f.rest.take f.covered ++ f.rest.drop f.covered))) := by
  rw [List.take_append_drop]
  simp [bytes, start]

namespace DiffersInChecked

variable {f f'}

theorem covered_eq (h : f.DiffersInChecked f') : f'.covered = f.covered := by
  rw [covered, covered, ds, ds, h.size]

theorem length_bytes (h : f.DiffersInChecked f') : f'.bytes.length = f.bytes.length := by
  rw [bytes, bytes, List.length_append, List.length_append, length_start, length_start, h.packetID,
    h.size, h.length_rest]

theorem length_crc (_ : f.DiffersInChecked f') : f.crc.length = f'.crc.length :=
  f.length_crc.trans f'.length_crc.symm

theorem length_take (h : f.DiffersInChecked f') :
    (f.rest.take f.covered).length = (f'.rest.take f'.covered).length := by
  rw [h.covered_eq, List.length_take, List.length_take, h.length_rest]

/-- The bytes that have been altered are in what is checked. -/
theorem bytes_eq_of_checkedBytes (h : f.DiffersInChecked f')
    (heq : f.checkedBytes = f'.checkedBytes) : f'.bytes = f.bytes := by
  obtain ⟨hcrc, hbs⟩ := List.append_inj heq h.length_crc
  rw [bytes_eq, f.bytes_eq, ← hcrc, ← hbs, h.head, h.cmd, h.packetID, h.size, h.covered_eq,
    h.behind]

/-- And so are the bits. -/
theorem distance_bytes (h : f.DiffersInChecked f') :
    distance (Bytes.bits f.bytes) (Bytes.bits f'.bytes) =
      distance (Bytes.bits f.checkedBytes) (Bytes.bits f'.checkedBytes) := by
  have hbehind : f'.rest.drop f'.covered = f.rest.drop f.covered := by rw [h.covered_eq, h.behind]
  rw [f.bytes_eq, f'.bytes_eq, hbehind, h.head, h.cmd, h.packetID, h.size, checkedBytes,
    checkedBytes, distance_bits_append rfl, distance_bits_append h.length_crc,
    distance_bits_append rfl, distance_bits_append h.length_take,
    distance_bits_append h.length_crc]
  simp only [distance_self, Nat.zero_add, Nat.add_zero]

end DiffersInChecked

end Frame

/-- **An odd number of bits that have been altered in the checksum of a packet that is taken
and in the bytes that it covers is noticed, and so are up to three** if it covers at most 4093
bytes. -/
theorem createFromArray_fewBits {f f' : Frame} {fuel : ℕ} {ID : BitVec 32} {task : EavTask}
    (hlen : f.bytes.length < 2 ^ 31)
    (htaken : (createFromArray utf8 fuel ID (.wrap f.bytes)).1 = some (.ok task))
    (hdiffers : f.DiffersInChecked f') (hne : f'.bytes ≠ f.bytes)
    (hfew : distance (Bytes.bits f.bytes) (Bytes.bits f'.bytes) % 2 = 1 ∨
      distance (Bytes.bits f.bytes) (Bytes.bits f'.bytes) ≤ 3 ∧ f.covered ≤ 4093)
    (fuel' : ℕ) (ID' : BitVec 32) :
    (createFromArray utf8 fuel' ID' (.wrap f'.bytes)).1 =
      some (.error (.exception "EAV task parser, crc does not converge")) := by
  obtain ⟨hfits, hcrc⟩ : f.Accepted := by
    by_contra hrefused
    obtain ⟨e, herror⟩ := @Frame.createFromArray_of_not_accepted utf8 f hlen hrefused fuel ID
    rw [herror] at htaken
    cases htaken
  obtain ⟨command, hcommand⟩ : ∃ command, Commands.values[f.cmd.toNat]? = some command := by
    refine Option.ne_none_iff_exists'.mp fun hnone => ?_
    rw [Frame.createFromArray_of_no_command (Frame.starts_bytes hlen) hnone] at htaken
    cases htaken
  have hfits' : f'.covered ≤ f'.rest.length := by
    rw [hdiffers.covered_eq, hdiffers.length_rest]
    exact hfits
  rw [← hdiffers.length_bytes] at hlen
  rw [← hdiffers.cmd] at hcommand
  refine Frame.createFromArray_of_crc_ne (Frame.starts_bytes hlen) hcommand hfits' ?_ fuel' ID'
  rw [hdiffers.distance_bytes] at hfew
  have hshort : (f.rest.take f.covered).length = f.covered := List.length_take_of_le hfits
  refine (crcOf_ne_of_distance f.length_crc f'.length_crc hdiffers.length_take hcrc.symm
    (fun heq => hne (hdiffers.bytes_eq_of_checkedBytes heq)) ?_).symm
  rw [hshort]
  exact hfew

/-- A packet with four bytes behind the value that its size does not count. -/
def trailed : Frame := (packetFrame sampleTask (zeros 4) (by decide)).withRest
  (body (zeros 4) ++ [1, 2, 3, 4])

/-- A bit of its checksum and two bits of the value have been altered. -/
def threeAltered : Frame := (trailed.withRest ((trailed.rest.set 4 1).set 7 0x80)).withCrc
  (trailed.crc.set 0 109) rfl

/-- It is refused. -/
theorem createFromArray_threeAltered : (createFromArray .utf8 9 1 (.wrap threeAltered.bytes)).1 =
    some (.error (.exception "EAV task parser, crc does not converge")) := by
  have hdiffers : trailed.DiffersInChecked threeAltered :=
    ⟨rfl, rfl, rfl, rfl, by decide +kernel, by decide +kernel⟩
  have htaken : ∃ task, (createFromArray .utf8 9 1 (.wrap trailed.bytes)).1 = some (.ok task) :=
    ⟨_, rfl⟩
  obtain ⟨task, htaken⟩ := htaken
  exact createFromArray_fewBits (by decide +kernel) htaken hdiffers (by decide +kernel)
    (.inr ⟨by decide +kernel, by decide +kernel⟩) 9 1

end Client
end PeeledOrange
