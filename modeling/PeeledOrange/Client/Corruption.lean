import PeeledOrange.Client.Checksum
import PeeledOrange.Client.RoundTrip
import PeeledOrange.Client.Sent

/-!
# Bytes that have been altered

If the checksum covers all the records, a packet whose records have been altered within 16
bits is refused, and so is one whose checksum has been.

## Main results

* `createFromArray_corrupted` — **what has been altered within 16 bits is refused.**
-/

namespace PeeledOrange
namespace Client

open Java Crc

variable {utf8 : Charset} {task : EavTask} {es : List EntityL}

/-! ### The records -/

/-- Other records than those of which the checksum is. -/
theorem createFromArray_of_crcOf_ne (hid : bytes task.packetID ≤ 3)
    (hlen : (packet task es).length < 2 ^ 31) (hsize : (body es).length ≤ 65535)
    {body' : List UInt8} (hbody : body'.length = (body es).length)
    (hne : crcOf (body es) ≠ crcOf body') (fuel : ℕ) (ID : BitVec 32) :
    (createFromArray utf8 fuel ID (.wrap (packetStart task es ++ body'))).1 =
      some (.error (.exception "EAV task parser, crc does not converge")) := by
  have hcovered : ((packetFrame task es hid).withRest body').covered = body'.length := by
    refine (covered_packetFrame hid hlen).trans ?_
    rw [hbody, Nat.min_eq_right hsize]
  refine Frame.createFromArray_of_crc_ne
    (Frame.starts_bytes (f := (packetFrame task es hid).withRest body') ?_)
    (getElem_values_ordinal task.command) (Nat.le_of_eq hcovered) ?_ fuel ID
  · rw [packet, List.length_append, ← hbody, ← List.length_append] at hlen
    exact hlen
  · rw [Frame.crc2, hcovered]
    show _ ≠ crcOf (body'.take body'.length)
    rw [List.take_length]
    refine fun heq => hne ?_
    rw [← heq]
    exact ((crc1_packetFrame hid).trans (congrArg crcOf (List.take_of_length_le hsize))).symm

/-! ### The checksum -/

/-- Another checksum than that of the records. -/
theorem createFromArray_of_checksum_ne (hid : bytes task.packetID ≤ 3)
    (hlen : (packet task es).length < 2 ^ 31) {crc : List UInt8} (hcrc : crc.length = 2)
    (hne : crc ≠ checksum es) (fuel : ℕ) (ID : BitVec 32) :
    (createFromArray utf8 fuel ID (.wrap (packetHead task es :: crc ++
      (packet task es).drop 3))).1 =
        some (.error (.exception "EAV task parser, crc does not converge")) := by
  have hbytes : ((packetFrame task es hid).withCrc crc hcrc).bytes =
      packetHead task es :: crc ++ (packet task es).drop 3 := by
    show (packetHead task es :: crc ++ _) ++ body es = _
    rw [List.append_assoc]
    rfl
  have hlen' : ((packetFrame task es hid).withCrc crc hcrc).bytes.length < 2 ^ 31 := by
    have hdrop : (packet task es).length = 3 + ((packet task es).drop 3).length := by
      rw [List.length_drop, packet, List.length_append, length_packetStart, packetHeaderSize]
      omega
    rw [hbytes, List.length_append, List.length_cons, hcrc]
    omega
  have haccepted : (packetFrame task es hid).Accepted := accepted_packetFrame hid hlen
  rw [← hbytes]
  refine Frame.createFromArray_of_crc_ne (Frame.starts_bytes hlen')
    (getElem_values_ordinal task.command) haccepted.1 (fun heq => hne ?_) fuel ID
  -- two bytes are determined by the number that they are read as
  have hsame : BitVec.ofNat 16 (Bytes.toNat crc) = BitVec.ofNat 16 (Bytes.toNat (checksum es)) :=
    heq.trans haccepted.2.symm
  have hnat := congrArg BitVec.toNat hsame
  have hlt := Bytes.toNat_lt crc
  have hlt' := Bytes.toNat_lt (checksum es)
  rw [hcrc] at hlt
  rw [length_checksum] at hlt'
  rw [BitVec.toNat_ofNat, BitVec.toNat_ofNat] at hnat
  exact Bytes.toNat_inj (hcrc.trans (length_checksum es).symm) (by omega)

/-! ### The whole packet -/

/-- Only the two bytes of the checksum differ. -/
def DiffersInChecksum (p p' : List UInt8) : Prop := p'.take 1 = p.take 1 ∧ p'.drop 3 = p.drop 3

/-- Only bytes after the header differ, and they do so within 16 bits. -/
def DiffersInBurst (start : ℕ) (p p' : List UInt8) : Prop :=
  p'.take start = p.take start ∧ ∃ k, DiffersWithin k 16 (Bytes.bits p) (Bytes.bits p')

/-- **What has been altered within 16 bits of the records, or in the checksum, is refused.** -/
theorem createFromArray_corrupted {p p' : List UInt8} (hid : Issued task.packetID)
    (h : Sent task es p) (hsize : (body es).length ≤ 65535) (hlen : p'.length = p.length)
    (hne : p' ≠ p)
    (hdiffers : DiffersInBurst (packetStart task es).length p p' ∨ DiffersInChecksum p p')
    (fuel : ℕ) (ID : BitVec 32) :
    (createFromArray utf8 fuel ID (.wrap p')).1 =
      some (.error (.exception "EAV task parser, crc does not converge")) := by
  have hint := h.length_lt
  obtain rfl := h.eq_packet
  rcases hdiffers with ⟨hstart, k, hwithin⟩ | hchecksum
  · -- the header is followed by other records
    rw [packet, List.take_left] at hstart
    have hp' : p' = packetStart task es ++ p'.drop (packetStart task es).length := by
      conv_lhs => rw [← List.take_append_drop (packetStart task es).length p', hstart]
    generalize p'.drop (packetStart task es).length = body' at hp'
    subst hp'
    rw [packet, List.length_append, List.length_append] at hlen
    rw [packet, Bytes.bits_append, Bytes.bits_append] at hwithin
    have hbody : body es ≠ body' := fun heq => hne (by rw [packet, heq])
    exact createFromArray_of_crcOf_ne hid.bytes_le hint hsize (Nat.add_left_cancel hlen)
      (crcOf_ne hwithin.of_append hbody) fuel ID
  · obtain ⟨hfirst, hlast⟩ := hchecksum
    have hlength : ((p'.drop 1).take 2).length = 2 := by
      rw [List.length_take, List.length_drop, hlen, packet, List.length_append, length_packetStart,
        packetHeaderSize]
      omega
    have hp' : p' = packetHead task es :: (p'.drop 1).take 2 ++ (packet task es).drop 3 := by
      conv_lhs => rw [← List.take_append_drop 1 p', ← List.take_append_drop 2 (p'.drop 1),
        List.drop_drop, hfirst, hlast]
      rfl
    rw [hp']
    refine createFromArray_of_checksum_ne hid.bytes_le hint hlength (fun heq => hne ?_) fuel ID
    rw [hp', heq]
    rfl

/-- The last bit of a packet is altered. -/
theorem createFromArray_corrupted_last :
    (createFromArray .utf8 9 1 (.wrap ((packet sampleTask (zeros 1)).set 10 1))).1 =
      some (.error (.exception "EAV task parser, crc does not converge")) := by
  have hsent : Sent sampleTask (zeros 1) (packet sampleTask (zeros 1)) :=
    .of_packet (fun e he a ha => (sendable_zeros 1 e he a ha).storable) (by decide +kernel)
  exact createFromArray_corrupted ⟨0, rfl⟩ hsent (by decide +kernel) (by decide +kernel)
    (by decide +kernel)
    (.inl ⟨by decide +kernel, 72, by decide +kernel, by decide +kernel, by decide +kernel⟩) 9 1

end Client
end PeeledOrange
