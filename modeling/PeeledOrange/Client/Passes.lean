import PeeledOrange.Client.Creation
import PeeledOrange.Client.Values
import Mathlib.Data.List.Forall2

/-!
# The two passes of the encoder

`setRequestData` computes the size of a packet in one pass over the entities, and fills
the packet in another one.  The buffers of the values go from the one to the other in a
queue.

## Main definitions

* `PassesAgree` — the second pass puts what the first one has counted.

## Main results

* `forall₂_of_measured` — the queue has the buffer of each attribute, in order.
* `toNat_recordHead`, `toNat_packetHead` — widths and flags do not overlap.
* `passesAgree` — **the two passes agree.**
-/

namespace PeeledOrange
namespace Client

open Java

/-- Every value has what `setRequestData` asks of it. -/
theorem Constructed.storable {utf8 : Charset} {av : AttributeValue} (h : Constructed utf8 av) :
    Storable av := by
  induction h with
  | new v => exact (Readable.made v).storable
  | duplicate _ ih => exact ih

/-! ### The queue -/

/-- The buffer that the first pass makes for an attribute. -/
def IsBufferOf (a : Attribute) (bb : ByteBuffer) : Prop :=
  buffered a.value = .ok bb ∧ bb.array = payload a.value

/-- If each step of the first pass puts the buffers of some attributes at the end of the
queue, the queue has them all, in order. -/
theorem forall₂_of_foldlM {α : Type}
    {f : ℤ × List ByteBuffer → α → Except Throwable (ℤ × List ByteBuffer)}
    {attrs : α → List Attribute}
    (hf : ∀ st x st', f st x = .ok st' →
      ∃ bbs, st'.2 = st.2 ++ bbs ∧ List.Forall₂ IsBufferOf (attrs x) bbs) {l : List α} :
    ∀ {st st'}, l.foldlM f st = .ok st' →
      ∃ bbs, st'.2 = st.2 ++ bbs ∧ List.Forall₂ IsBufferOf (l.flatMap attrs) bbs := by
  induction l with
  | nil =>
    intro st st' h
    cases h
    exact ⟨[], (List.append_nil _).symm, .nil⟩
  | cons x l ih =>
    intro st st' h
    rw [List.foldlM_cons, bind_eq_ok_iff] at h
    obtain ⟨st₁, hx, hl⟩ := h
    obtain ⟨bbs, hst, hbbs⟩ := hf _ _ _ hx
    obtain ⟨bbs', hst', hbbs'⟩ := ih hl
    refine ⟨bbs ++ bbs', by rw [hst', hst, List.append_assoc], ?_⟩
    rw [List.flatMap_cons]
    exact List.rel_append hbbs hbbs'

theorem queue_measureAttribute {st st' : ℤ × List ByteBuffer} {a : Attribute}
    (h : measureAttribute st a = .ok st') :
    ∃ bbs, st'.2 = st.2 ++ bbs ∧ List.Forall₂ IsBufferOf [a] bbs := by
  obtain ⟨bb, hbb, harray⟩ := buffered_eq (storable_of_measureAttribute h)
  rw [measureAttribute, hbb] at h
  cases h
  exact ⟨[bb], rfl, .cons ⟨hbb, harray⟩ .nil⟩

/-- **The queue has the buffer of each attribute, in the order in which they are written.** -/
theorem forall₂_of_measured {es : List EntityL} {ds : ℤ} {list : List ByteBuffer}
    (h : es.foldlM measureEntity (0, []) = .ok (ds, list)) :
    List.Forall₂ IsBufferOf (es.flatMap EntityL.attributes) list := by
  have hentity : ∀ st (e : EntityL) st', measureEntity st e = .ok st' →
      ∃ bbs, st'.2 = st.2 ++ bbs ∧ List.Forall₂ IsBufferOf e.attributes bbs := by
    intro st e st' he
    have hall := @forall₂_of_foldlM Attribute measureAttribute (fun a => [a])
      (fun _ _ _ => queue_measureAttribute) _ _ _ he
    rwa [List.flatMap_singleton'] at hall
  obtain ⟨bbs, hlist, hall⟩ := forall₂_of_foldlM hentity h
  simp only [List.nil_append] at hlist
  rwa [hlist]

/-! ### Widths -/

theorem Issued.bytes_lt {packetID : BitVec 32} (h : Issued packetID) : bytes packetID < 2 ^ 2 :=
  Nat.lt_succ_of_le h.bytes_le

/-- The widths of a record and its flags do not overlap. -/
theorem toNat_recordHead (num type : BitVec 32) {flags : ℕ}
    (hflags : flags ∈ [0, 1 <<< 6, 1 <<< 6 ||| 1 <<< 7]) :
    (recordHead num type flags).toNat = bytes num + 2 ^ 3 * bytes type + flags := by
  have hall : ∀ flags ∈ [0, 1 <<< 6, 1 <<< 6 ||| 1 <<< 7], ∀ n ≤ 4, ∀ t ≤ 4,
      (UInt8.ofNat (n ||| t <<< 3 ||| flags)).toNat = n + 2 ^ 3 * t + flags := by
    decide
  exact hall flags hflags _ (bytes_le num) _ (bytes_le type)

/-- The widths of a packet do not overlap. -/
theorem toNat_packetHead {task : EavTask} {es : List EntityL} (hid : bytes task.packetID < 2 ^ 2) :
    (packetHead task es).toNat =
      bytes task.packetID + 2 ^ 2 * bytes (BitVec.ofNat 32 (body es).length) := by
  have hall : ∀ p < 2 ^ 2, ∀ d ≤ 4, (UInt8.ofNat (p ||| d <<< 2)).toNat = p + 2 ^ 2 * d := by
    decide
  exact hall _ hid _ (bytes_le _)

/-! ### The passes -/

/-- The two passes agree on the size of the records, `ds`, and the queue, `list`. -/
structure PassesAgree (task : EavTask) (es : List EntityL) (ds : ℤ) (list : List ByteBuffer) :
    Prop where
  /-- This is what the first pass makes. -/
  measured : es.foldlM measureEntity (0, []) = .ok (ds, list)
  /-- The queue has each attribute's own buffer. -/
  queued : List.Forall₂ IsBufferOf (es.flatMap EntityL.attributes) list
  /-- Into a buffer of the size that has been computed, whatever it holds, the second pass
  puts the records.  They are `ds` bytes after the header, which end with the buffer, and
  no buffer is left in the queue.  Nothing of what the buffer held is in the packet. -/
  written : ∀ init : List UInt8, init.length = requestSize task ds → ∃ b₁ b₂ b₃ : ByteBuffer,
    writeStart task ds (.wrap init) = .ok b₁ ∧
    es.foldlM writeEntity (b₁, list) = .ok (b₂, []) ∧
    writeChecksum task ds b₂ = .ok b₃ ∧
    b₁.position = packetHeaderSize + bytes task.packetID + bytes (BitVec.ofInt 32 ds) ∧
    (b₂.position : ℤ) = b₁.position + ds ∧
    b₂.position = init.length ∧ b₂.limit = init.length ∧
    b₂.array.drop b₁.position = body es ∧ b₃.array = packet task es
  /-- The packet is made. -/
  made : ∃ sent, setRequestData task es = .ok sent ∧ sent.requestData.array = packet task es
  /-- The widths in the first byte of the packet fit two bits and three. -/
  packet_widths : bytes task.packetID < 2 ^ 2 ∧ bytes (BitVec.ofInt 32 ds) < 2 ^ 3 ∧
    (packetHead task es).toNat = bytes task.packetID + 2 ^ 2 * bytes (BitVec.ofInt 32 ds)
  /-- Those in the first byte of an entity fit three bits, and no flag is set. -/
  entity_widths : ∀ e ∈ es, bytes e.num < 2 ^ 3 ∧ bytes e.type < 2 ^ 3 ∧
    (recordHead e.num e.type 0).toNat = bytes e.num + 2 ^ 3 * bytes e.type
  /-- In that of an attribute, one flag is set, and another one if its length is one byte. -/
  attribute_widths : ∀ e ∈ es, ∀ a ∈ e.attributes, bytes a.num < 2 ^ 3 ∧ bytes a.type < 2 ^ 3 ∧
    (recordHead a.num a.type (attributeFlags (payload a.value).length)).toNat =
      bytes a.num + 2 ^ 3 * bytes a.type + 2 ^ 6 +
        if (payload a.value).length < 256 then 2 ^ 7 else 0

/-- **The two passes agree.** -/
theorem passesAgree {task : EavTask} {es : List EntityL} (hid : Issued task.packetID)
    (hes : ∀ e ∈ es, ∀ a ∈ e.attributes, Storable a.value)
    (hlen : (packet task es).length < 2 ^ 31) : ∃ ds list, PassesAgree task es ds list := by
  have hbody : (body es).length < 2 ^ 31 := by
    rw [packet, List.length_append] at hlen
    omega
  have hwidth : ∀ v, bytes v < 2 ^ 3 := fun v => Nat.lt_of_le_of_lt (bytes_le v) (by decide)
  obtain ⟨list, hdata, hmeasured⟩ := foldlM_measureEntity hes hbody
  refine ⟨(body es).length, list, hmeasured, forall₂_of_measured hmeasured, ?_, ?_, ?_, ?_, ?_⟩
  · intro init hinit
    rw [requestSize_eq hlen] at hinit
    obtain ⟨b₁, b₂, b₃, hstart, hwrite, hchecksum, hpos, ⟨start, hlenStart, hover⟩, harray⟩ :=
      fill_eq hdata hlen (Int.ofNat.inj hinit)
    refine ⟨b₁, b₂, b₃, hstart, hwrite, hchecksum, ?_, ?_, ?_, ?_, ?_, harray⟩
    · rw [hpos, length_packetStart, BitVec.ofInt_natCast]
    · rw [hover.position_eq, hpos, packet, List.length_append, Nat.cast_add]
    · rw [hover.position_eq, Int.ofNat.inj hinit]
    · rw [hover.limit_eq, List.length_append, hlenStart, Int.ofNat.inj hinit, packet,
        List.length_append]
    · rw [hover.array_eq, hpos, ← hlenStart, List.drop_left]
  · obtain ⟨buf, hbuf, harray⟩ := setRequestData_eq hes hlen
    exact ⟨_, hbuf, harray⟩
  · rw [BitVec.ofInt_natCast]
    exact ⟨hid.bytes_lt, hwidth _, toNat_packetHead hid.bytes_lt⟩
  · intro e _
    exact ⟨hwidth _, hwidth _, toNat_recordHead _ _ (by decide)⟩
  · intro e _ a _
    refine ⟨hwidth _, hwidth _, ?_⟩
    have hflags : ∀ len, attributeFlags len = 2 ^ 6 + if len < 256 then 2 ^ 7 else 0 := by
      intro len
      rw [attributeFlags]
      split <;> rfl
    rw [toNat_recordHead _ _ (attributeFlags_mem _), hflags, Nat.add_assoc _ (2 ^ 6)]

/-- The passes agree on numbers, a string and a buffer, and on no attributes. -/
theorem passesAgree_sample : ∃ ds list, PassesAgree sampleTask sampleEntities ds list :=
  passesAgree ⟨0, rfl⟩ (fun e he a ha => (sendable_sampleEntities e he a ha).storable)
    (by decide +kernel)

end Client
end PeeledOrange
