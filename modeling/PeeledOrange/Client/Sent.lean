import PeeledOrange.Client.Wire

/-!
# What has been sent

A packet that has been made fits an array, and is the one that `setRequestData` is to
make: the size that is counted is an `int`, and a wrong one leaves too little room for
the records, so that to put them throws.

## Main definitions

* `Sent` — the packet of a task has been made.

## Main results

* `Sent.length_lt`, `Sent.eq_packet` — **a packet that has been made has less than `2 ^ 31`
  bytes, and is the packet of the task.**
-/

namespace PeeledOrange
namespace Client

open Java

/-! ### The first pass -/

theorem storable_of_measureAttribute {st st' : ℤ × List ByteBuffer} {a : Attribute}
    (h : measureAttribute st a = .ok st') : Storable a.value := by
  intro hnum hempty
  have hthrow : buffered a.value = .error .arrayIndexOutOfBounds := by
    rw [buffered, if_pos hnum, optimizeData, if_pos hempty]
  rw [measureAttribute, hthrow] at h
  cases h

theorem storable_of_measured {es : List EntityL} {st st' : ℤ × List ByteBuffer}
    (h : es.foldlM measureEntity st = .ok st') :
    ∀ e ∈ es, ∀ a ∈ e.attributes, Storable a.value :=
  forall_of_foldlM_eq_ok (fun _ _ _ he =>
    forall_of_foldlM_eq_ok (fun _ _ _ ha => storable_of_measureAttribute ha) he) h

/-! ### The second pass -/

/-- The length of a value, as the second pass puts it whatever it is. -/
def lengthBytes (len : ℕ) : List UInt8 :=
  (if lengthWidth len > 1 then [.ofNat (lengthWidth len)] else []) ++
    (array (BitVec.ofNat 32 len)).take (lengthWidth len)

theorem put_lengthBytes {α : Type} (len : ℕ) (b : ByteBuffer)
    (f : ByteBuffer → Except Throwable α) :
    (if lengthWidth len > 1 then
        b.put [.ofNat (lengthWidth len)] >>= fun b =>
          b.putFirst (array (BitVec.ofNat 32 len)) (lengthWidth len) >>= f
      else
        .ok b >>= fun b => b.putFirst (array (BitVec.ofNat 32 len)) (lengthWidth len) >>= f) =
      b.put (lengthBytes len) >>= f := by
  have hle : lengthWidth len ≤ (array (BitVec.ofNat 32 len)).length := by
    have hbytes := bytes_le (BitVec.ofNat 32 len)
    rw [array_eq, Bytes.length_littleEndian, lengthWidth]
    split <;> omega
  unfold lengthBytes
  simp only [ByteBuffer.putFirst, if_pos hle]
  split
  · rw [put_put_bind]
  · rw [ok_bind, List.nil_append]

/-- Any attribute is put as some bytes, with those of its value among them. -/
theorem exists_writes_writeAttribute : ∃ enc : Attribute → List UInt8,
    (∀ a, (payload a.value).length ≤ (enc a).length) ∧
      ∀ a, Writes writeAttribute enc (fun a => [payload a.value]) a := by
  refine ⟨fun a => .ofNat (if lengthWidth (payload a.value).length < 2
      then bytes a.num ||| bytes a.type <<< 3 ||| 1 <<< 6 ||| 1 <<< 7
      else bytes a.num ||| bytes a.type <<< 3 ||| 1 <<< 6) :: number a.num ++ number a.type ++
        .ofNat a.value.valueType.ordinal :: lengthBytes (payload a.value).length ++
          payload a.value, fun a => by simp only [List.length_append]; omega, ?_⟩
  intro a b bbs rest hdata
  obtain ⟨bb, rfl, harray⟩ := List.map_eq_singleton_iff.mp hdata
  have hwidth : ∀ len, (if bytes (BitVec.ofNat 32 len) = 0 then 1
      else bytes (BitVec.ofNat 32 len)) = lengthWidth len := fun _ => rfl
  rw [writeAttribute]
  simp only [List.singleton_append, harray, hwidth, putFirst_array, put_lengthBytes,
    putFirst_length, put_put_bind]
  simp only [List.append_assoc, List.cons_append]
  rfl

theorem exists_writes_writeEntity : ∃ enc : EntityL → List UInt8,
    (∀ e, ∀ a ∈ e.attributes, (payload a.value).length ≤ (enc e).length) ∧
      ∀ e, Writes writeEntity enc
        (fun e => e.attributes.flatMap fun a => [payload a.value]) e := by
  obtain ⟨enc, hle, henc⟩ := exists_writes_writeAttribute
  refine ⟨fun e => recordStart e.num e.type 0 ++ e.attributes.flatMap enc, ?_, ?_⟩
  · intro e a ha
    have hsub : (enc a).Sublist (e.attributes.flatMap enc) :=
      List.sublist_flatten_of_mem (List.mem_map_of_mem ha)
    exact (hle a).trans ((hsub.trans (List.sublist_append_right _ _)).length_le)
  · intro e b bbs rest hdata
    have hfold := fun b => foldlM_writes (l := e.attributes) (fun a _ => henc a) b bbs rest hdata
    simp only at hfold
    simp only [writeEntity, putFirst_array, hfold, put_put_bind, recordStart, recordHead]
    simp

/-- If the second pass does not throw, each value fits the buffer. -/
theorem length_payload_le_limit {es : List EntityL} {bbs : List ByteBuffer}
    (hdata : bbs.map ByteBuffer.array =
      es.flatMap fun e => e.attributes.flatMap fun a => [payload a.value])
    {b : ByteBuffer} {st : ByteBuffer × List ByteBuffer}
    (h : es.foldlM writeEntity (b, bbs) = .ok st) :
    ∀ e ∈ es, ∀ a ∈ e.attributes, (payload a.value).length ≤ b.limit := by
  obtain ⟨enc, hle, henc⟩ := exists_writes_writeEntity
  have hfold := foldlM_writes (l := es) (fun e _ => henc e) b bbs [] hdata
  simp only [List.append_nil] at hfold
  rw [hfold, bind_eq_ok_iff] at h
  obtain ⟨b', hput, -⟩ := h
  obtain ⟨hpos, hlimit⟩ := ByteBuffer.put_eq_ok hput
  have hposition := b'.position_le
  intro e he a ha
  have hsub : (enc e).Sublist (es.flatMap enc) :=
    List.sublist_flatten_of_mem (List.mem_map_of_mem he)
  have hall := (hle e a ha).trans hsub.length_le
  omega

/-! ### The packet -/

/-- The packet of a task has been made. -/
def Sent (task : EavTask) (es : List EntityL) (p : List UInt8) : Prop :=
  ∃ sent, setRequestData task es = .ok sent ∧ sent.requestData.array = p

/-- What has been made is the packet of the task, and fits an array. -/
theorem setRequestData_eq_ok {task sent : EavTask} {es : List EntityL}
    (h : setRequestData task es = .ok sent) :
    (∀ e ∈ es, ∀ a ∈ e.attributes, Storable a.value) ∧ (packet task es).length < 2 ^ 31 := by
  unfold setRequestData at h
  simp only [bind_eq_ok_iff] at h
  obtain ⟨⟨ds, list⟩, hmeasure, b₀, hallocate, b₁, hhead, b₂, hcmd, b₃, hfour, b₄, hid, b₅, hds,
    st, hwrite, -⟩ := h
  have hstorable := storable_of_measured hmeasure
  refine ⟨hstorable, ?_⟩
  -- what the first pass has counted
  obtain ⟨bbs, hdata, hfold⟩ :=
    foldlM_measures (fun e he => measures_measureEntity (hstorable e he)) 0 []
  have hzero : wrap32 0 = 0 := by decide
  simp only [hzero, zero_add, List.nil_append] at hfold
  rw [hfold] at hmeasure
  cases hmeasure
  -- the limit is an `int`, and the records are put after the header
  have hlimit := ByteBuffer.allocate_eq_ok hallocate
  have hint : (b₀.limit : ℤ) < 2 ^ 31 := by
    rw [hlimit, add32, wrap32]
    omega
  have h₁ := ByteBuffer.putAt_eq_ok hhead
  have h₂ := ByteBuffer.putAt_eq_ok hcmd
  obtain ⟨hpos₃, h₃⟩ := ByteBuffer.setPosition_eq_ok hfour
  rw [putFirst_array] at hid hds
  obtain ⟨hpos₄, h₄⟩ := ByteBuffer.put_eq_ok hid
  obtain ⟨hpos₅, h₅⟩ := ByteBuffer.put_eq_ok hds
  rw [length_number] at hpos₄ hpos₅
  have hpayload := length_payload_le_limit hdata hwrite
  have hputs : es.foldlM writeEntity (b₅, list) = b₅.put (body es) >>= fun b => .ok (b, []) := by
    have hes : ∀ e ∈ es, Writes writeEntity entityBytes
        (fun e => e.attributes.flatMap fun a => [payload a.value]) e := fun e he =>
      writes_writeEntity fun a ha => by
        have hle := hpayload e he a ha
        omega
    have hall := foldlM_writes hes b₅ list [] hdata
    rwa [List.append_nil] at hall
  rw [hputs, bind_eq_ok_iff] at hwrite
  obtain ⟨b₆, hbody, -⟩ := hwrite
  obtain ⟨hpos₆, h₆⟩ := ByteBuffer.put_eq_ok hbody
  have hle := b₆.position_le
  simp only [packetHeaderSize] at hpos₃
  have hlt : (body es).length < 2 ^ 31 := by omega
  have hcount : wrap32 (List.flatMap entityBytes es).length = (body es).length :=
    wrap32_of_lt (by omega) (by rw [← body]; omega)
  rw [hcount, BitVec.ofInt_natCast] at hpos₅
  rw [packet, List.length_append, length_packetStart, packetHeaderSize]
  omega

namespace Sent

variable {task : EavTask} {es : List EntityL} {p : List UInt8}

theorem length_lt (h : Sent task es p) : (packet task es).length < 2 ^ 31 := by
  obtain ⟨sent, hset, -⟩ := h
  exact (setRequestData_eq_ok hset).2

theorem eq_packet (h : Sent task es p) : p = packet task es := by
  obtain ⟨sent, hset, rfl⟩ := h
  obtain ⟨hstorable, hlt⟩ := setRequestData_eq_ok hset
  obtain ⟨buf, hbuf, harray⟩ := setRequestData_eq hstorable hlt
  rw [hset] at hbuf
  cases hbuf
  exact harray

theorem of_packet (hes : ∀ e ∈ es, ∀ a ∈ e.attributes, Storable a.value)
    (hlen : (packet task es).length < 2 ^ 31) : Sent task es (packet task es) := by
  obtain ⟨buf, hbuf, harray⟩ := setRequestData_eq hes hlen
  exact ⟨_, hbuf, harray⟩

end Sent

end Client
end PeeledOrange
