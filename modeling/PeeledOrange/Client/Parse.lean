import PeeledOrange.Client.Wire

/-!
# Records are read back

The record loop reads what the second pass has put, record after record: an entity is
added to the entities, and an attribute to the last one.  A value comes back as what it
was, except that of a floating-point number the bytes are read in the other order, and
that nothing is made of a double.

## Main definitions

* `Sendable` — values that are read back; `Readable` — values that are read.
* `received` — what is made of a value.
* `Reads` — a buffer over a whole array, wherever it is, as the parser has it.

## Main results

* `parseValue_payload` — **a value is read from its bytes.**
* `parseRecord_record` — a turn of the record loop.
* `parseLoop_records` — **the record loop reads the records.**
-/

namespace PeeledOrange
namespace Client

open Java

/-! ### Values -/

/-- Values of the types that are read back; a buffer has to be as new, and to cover its
whole array. -/
inductive Sendable (utf8 : Charset) : AttributeValue → Prop
  | byte (v : BitVec 8) : Sendable utf8 (setValue utf8 (.byte v))
  | short (v : BitVec 16) : Sendable utf8 (setValue utf8 (.short v))
  | integer (v : BitVec 32) : Sendable utf8 (setValue utf8 (.integer v))
  | long (v : BitVec 64) : Sendable utf8 (setValue utf8 (.long v))
  | string (v : String) : Sendable utf8 (setValue utf8 (.string v))
  | byteBuffer (v : ByteBuffer) (h : v.Covers) : Sendable utf8 (setValue utf8 (.byteBuffer v))

variable {utf8 : Charset}

/-- Values that are read: those that are made of an object, and doubles in the bytes that
`setValue` has in mind for them. -/
inductive Readable (utf8 : Charset) : AttributeValue → Prop
  | made (v : Value) : Readable utf8 (setValue utf8 v)
  | double (v : BitVec 64) : Readable utf8 ⟨.f8, .wrap (Bytes.bigEndian 8 v.toNat)⟩

variable (utf8) in
/-- What the parser makes of a value. -/
def received (av : AttributeValue) : AttributeValue :=
  match av.valueType with
  | .f4 => setValue utf8 (.float (BitVec.ofNat 32 (Bytes.toNat av.value.array)))
  | .f8 => setValue utf8 (.double (BitVec.ofNat 64 (Bytes.toNat av.value.array)))
  | .b => setValue utf8 (.byteBuffer (.wrap av.value.array))
  | .i8 | .i16 | .i32 | .i64 | .s => av.duplicate

theorem Sendable.readable {av : AttributeValue} (h : Sendable utf8 av) : Readable utf8 av := by
  cases h <;> exact .made _

theorem Sendable.received_eq {av : AttributeValue} (h : Sendable utf8 av) :
    received utf8 av = av.duplicate := by
  cases h with
  | byteBuffer v hv =>
    show (⟨.b, .wrap v.array⟩ : AttributeValue) = ⟨.b, v.duplicate⟩
    rw [hv.duplicate_eq]
  | _ => rfl

theorem Readable.storable {av : AttributeValue} (h : Readable utf8 av) : Storable av := by
  cases h with
  | made v =>
    cases v with
    | byte v => exact fun _ => nofun
    | short v => exact fun _ => nofun
    | integer v => exact fun _ => nofun
    | long v => exact fun _ => nofun
    | double v => exact fun _ => nofun
    | float v => exact fun hlt => absurd hlt (Nat.lt_irrefl 4)
    | string v => exact fun hlt => absurd hlt (Nat.not_lt.mpr (show 4 ≤ 6 by decide))
    | byteBuffer v => exact fun hlt => absurd hlt (Nat.not_lt.mpr (show 4 ≤ 7 by decide))
  | double v => exact fun hlt => absurd hlt (Nat.not_lt.mpr (show 4 ≤ 5 by decide))

theorem Sendable.storable {av : AttributeValue} (h : Sendable utf8 av) : Storable av :=
  h.readable.storable

/-- The buffer covers this whole array. -/
def Holds (buf : ByteBuffer) (data : List UInt8) : Prop := ∃ pos, buf.Over data pos

/-- And it has the least significant byte first. -/
structure Reads (buf : ByteBuffer) (data : List UInt8) : Prop where
  holds : Holds buf data
  order : buf.order = .littleEndian

/-- The bytes of a number of `n` bytes are as many of its little-endian bytes as it needs. -/
theorem payload_number {vt : ValueType} {n v : ℕ} (hvt : vt.ordinal < ValueType.f4.ordinal)
    (hv : v < 256 ^ (n + 1)) :
    (payload ⟨vt, .wrap (Bytes.bigEndian (n + 1) v)⟩).length ≤ n + 1 ∧
      Bytes.toNat (payload ⟨vt, .wrap (Bytes.bigEndian (n + 1) v)⟩) = v := by
  obtain ⟨m, -, hle, hlt, heq⟩ := Bytes.reverse_trim_bigEndian hv
  have hpayload : payload ⟨vt, .wrap (Bytes.bigEndian (n + 1) v)⟩ = Bytes.littleEndian m v := by
    rw [payload, if_pos hvt]
    exact heq
  rw [hpayload, Bytes.length_littleEndian]
  exact ⟨hle, Bytes.toNat_littleEndian_of_lt hlt⟩

theorem getInt_payload {vt : ValueType} {n v : ℕ} {pre post : List UInt8}
    (hvt : vt.ordinal < ValueType.f4.ordinal) (hv : v < 256 ^ (n + 1)) (hn : n + 1 ≤ 4)
    (hlen : (pre ++ payload ⟨vt, .wrap (Bytes.bigEndian (n + 1) v)⟩ ++ post).length < 2 ^ 31) :
    getInt (pre ++ payload ⟨vt, .wrap (Bytes.bigEndian (n + 1) v)⟩ ++ post) pre.length
      (payload ⟨vt, .wrap (Bytes.bigEndian (n + 1) v)⟩).length = .ok (BitVec.ofNat 32 v) := by
  obtain ⟨hle, hnat⟩ := payload_number hvt hv
  rw [getInt_eq hlen (Nat.le_trans hle hn), hnat]

theorem getLong_payload {vt : ValueType} {n v : ℕ} {pre post : List UInt8}
    (hvt : vt.ordinal < ValueType.f4.ordinal) (hv : v < 256 ^ (n + 1)) (hn : n + 1 ≤ 8)
    (hlen : (pre ++ payload ⟨vt, .wrap (Bytes.bigEndian (n + 1) v)⟩ ++ post).length < 2 ^ 31) :
    getLong (pre ++ payload ⟨vt, .wrap (Bytes.bigEndian (n + 1) v)⟩ ++ post) pre.length
      (payload ⟨vt, .wrap (Bytes.bigEndian (n + 1) v)⟩).length = .ok (BitVec.ofNat 64 v) := by
  obtain ⟨hle, hnat⟩ := payload_number hvt hv
  rw [getLong_eq hlen (Nat.le_trans hle hn), hnat]

theorem setWidth_ofNat_toNat {w : ℕ} (v : BitVec w) (hw : w ≤ 32) :
    (BitVec.ofNat 32 v.toNat).setWidth w = v := by
  rw [← BitVec.toNat_inj, BitVec.toNat_setWidth, BitVec.toNat_ofNat,
    Nat.mod_mod_of_dvd _ (Nat.pow_dvd_pow 2 hw), Nat.mod_eq_of_lt v.isLt]

theorem newString_eq (utf8 : Charset) (pre bs post : List UInt8) :
    newString utf8 (pre ++ bs ++ post) pre.length bs.length = .ok (utf8.decode bs) := by
  have hle : (0 : ℤ) ≤ pre.length ∧ (0 : ℤ) ≤ bs.length ∧
      (pre.length : ℤ) + bs.length ≤ (pre ++ bs ++ post).length := by
    rw [List.length_append, List.length_append]
    omega
  rw [newString, if_pos hle, Int.toNat_natCast, Int.toNat_natCast, List.append_assoc,
    List.drop_left, List.take_left]

/-- The integers, among the values. -/
theorem parseValue_integer (v : BitVec 32) {buf : ByteBuffer} {pre post : List UInt8}
    (harray : buf.array = pre ++ payload (setValue utf8 (.integer v)) ++ post)
    (hlen : (pre ++ payload (setValue utf8 (.integer v)) ++ post).length < 2 ^ 31) :
    parseValue utf8 buf .i32 pre.length (payload (setValue utf8 (.integer v))).length =
      .ok (setValue utf8 (.integer v), buf) := by
  have hget := getInt_payload (n := 3) (show ValueType.i32.ordinal < _ by decide) v.isLt
    (by decide) hlen
  simp only [setValue, parseValue] at harray ⊢
  rw [harray, hget, ok_bind, BitVec.ofNat_toNat, BitVec.setWidth_eq]
  rfl

/-- **A value is read from its bytes.** -/
theorem parseValue_payload {av : AttributeValue} (h : Readable utf8 av) {buf : ByteBuffer}
    {pre post : List UInt8} (hbuf : Reads buf (pre ++ payload av ++ post))
    (hlen : (pre ++ payload av ++ post).length < 2 ^ 31) :
    ∃ buf', parseValue utf8 buf av.valueType pre.length (payload av).length =
        .ok (received utf8 av, buf') ∧ Reads buf' (pre ++ payload av ++ post) := by
  obtain ⟨⟨pos, hover⟩, horder⟩ := hbuf
  have harray := hover.array_eq
  cases h with
  | double v =>
    -- a double is read in eight bytes, and there is no branch for it
    have hget := hover.getNumber_bytes (n := 8) horder
      (by simp [payload, Bytes.bigEndian, ByteBuffer.wrap, ValueType.ordinal])
    refine ⟨buf, ?_, ⟨pos, hover⟩, horder⟩
    simp only [parseValue]
    rw [hget]
    rfl
  | made v => cases v with
    | byte v =>
      have hget := getInt_payload (n := 0) (show ValueType.i8.ordinal < _ by decide) v.isLt
        (by decide) hlen
      refine ⟨buf, ?_, ⟨pos, hover⟩, horder⟩
      simp only [setValue, parseValue] at harray ⊢
      rw [harray, hget, ok_bind, setWidth_ofNat_toNat v (by decide)]
      rfl
    | short v =>
      have hget := getInt_payload (n := 1) (show ValueType.i16.ordinal < _ by decide) v.isLt
        (by decide) hlen
      refine ⟨buf, ?_, ⟨pos, hover⟩, horder⟩
      simp only [setValue, parseValue] at harray ⊢
      rw [harray, hget, ok_bind, setWidth_ofNat_toNat v (by decide)]
      rfl
    | integer v =>
      exact ⟨buf, parseValue_integer v harray hlen, ⟨pos, hover⟩, horder⟩
    | long v =>
      have hget := getLong_payload (n := 7) (show ValueType.i64.ordinal < _ by decide) v.isLt
        (by decide) hlen
      refine ⟨buf, ?_, ⟨pos, hover⟩, horder⟩
      simp only [setValue, parseValue] at harray ⊢
      rw [harray, hget, ok_bind, BitVec.ofNat_toNat, BitVec.setWidth_eq]
      rfl
    | float v =>
      -- the bytes have been stored with the most significant one first
      have hget := hover.getNumber_bytes (n := 4) horder
        (by simp [payload, setValue, Bytes.bigEndian, ByteBuffer.wrap, ValueType.ordinal])
      refine ⟨buf, ?_, ⟨pos, hover⟩, horder⟩
      simp only [setValue, parseValue] at hget ⊢
      rw [hget]
      rfl
    | double v =>
      exact ⟨buf, parseValue_integer 0 harray hlen, ⟨pos, hover⟩, horder⟩
    | string v =>
      -- neither the reader nor the writer looks at the position of the buffer
      have hpayload : payload (setValue utf8 (.string v)) = utf8.encode v := rfl
      have hget := newString_eq utf8 pre (utf8.encode v) post
      refine ⟨buf, ?_, ⟨pos, hover⟩, horder⟩
      rw [hpayload] at harray ⊢
      simp only [setValue, parseValue]
      rw [harray, hget, ok_bind, utf8.decode_encode]
      rfl
    | byteBuffer v =>
      -- the bytes are read from the position, so that it is set first
      have hpayload : payload (setValue utf8 (.byteBuffer v)) = v.array := rfl
      rw [hpayload] at hover hlen ⊢
      obtain ⟨buf₁, hset, hover₁⟩ := hover.setPosition (n := pre.length) (by
        rw [List.length_append, List.length_append]
        omega)
      obtain ⟨buf₂, hnext, hover₂⟩ := hover₁.nextBytes
      refine ⟨buf₂, ?_, ⟨_, hover₂⟩, ?_⟩
      · simp only [setValue, parseValue]
        rw [ByteBuffer.allocate_eq, ok_bind, hset, ok_bind, Int.toNat_natCast, hnext, ok_bind]
        rfl
      · rw [(ByteBuffer.nextBytes_moved hnext).order_eq,
          (ByteBuffer.setPosition_moved hset).order_eq, horder]

/-! ### Records -/

/-- The width of the number of a record, by its first byte. -/
def numWidth (head : UInt8) : ℕ := (head &&& 0x07).toNat

/-- The width of its type. -/
def typeWidth (head : UInt8) : ℕ := ((head &&& 0x38) >>> 3).toNat

theorem numWidth_lt (head : UInt8) : numWidth head < 2 ^ 8 := UInt8.toNat_lt _

theorem typeWidth_lt (head : UInt8) : typeWidth head < 2 ^ 8 := UInt8.toNat_lt _

/-- The place behind the first byte of a record. -/
theorem add32_eavHeaderSize {pos : ℕ} (h : pos + 1 < 2 ^ 31) :
    add32 pos eavHeaderSize = (pos + 1 : ℕ) := add32_one h

section Starts

variable {p : List UInt8} {n : ℕ} {st : Parser}

/-- What is read of an attribute before its value: its type, and the byte after it. -/
theorem parseAttribute_get (hlen : st.buf.array.length < 2 ^ 31) (hne : st.entities ≠ [])
    (head : UInt8) (key : DualKey) {pos : ℕ} {tag size : UInt8} (htag : st.buf.get pos = .ok tag)
    (hsize : st.buf.get (pos + 1 : ℕ) = .ok size) :
    parseAttribute utf8 st head key pos =
      if tag.toNat > ValueType.b.ordinal then .error (.exception "Invalid attribute value type")
      else if head &&& 0x80 = 0 then
        if add32 (pos + 2 : ℕ) size.toNat > st.buf.limit then
          .ok (.leave { st with pos := (pos + 2 : ℕ) })
        else
          getInt st.buf.array (pos + 2 : ℕ) size.toNat >>= fun number =>
            parsePayload utf8 st key (ValueType.values.getD tag.toNat .b)
              (add32 (pos + 2 : ℕ) size.toNat) number.toInt
      else
        parsePayload utf8 st key (ValueType.values.getD tag.toNat .b) (pos + 2 : ℕ) size.toNat := by
  have hlimit := st.buf.limit_le
  have hlt := ByteBuffer.get_eq_ok hsize
  have htwo : add32 pos 2 = (pos + 2 : ℕ) := add32_eq rfl (by omega)
  rw [parseAttribute, if_neg hne, htwo, if_neg (by omega), htag, ok_bind, add32_one (by omega)]
  by_cases hvt : tag.toNat > ValueType.b.ordinal
  · rw [if_pos hvt, if_pos hvt]
    rfl
  · rw [if_neg hvt, if_neg hvt]
    simp only [hsize, ok_bind, add32_one (show pos + 1 + 1 < 2 ^ 31 by omega)]
    rfl

/-- What is read of a record before its value, if it has one: its number and its type. -/
theorem parseRecord_get (hlen : st.buf.array.length < 2 ^ 31) {pos : ℕ} (hpos : st.pos = pos)
    {head : UInt8} (hhead : st.buf.get pos = .ok head) :
    parseRecord utf8 st =
      if add32 (add32 (pos + 1 : ℕ) (numWidth head)) (typeWidth head) > st.buf.limit then
        .ok (.leave { st with pos := (pos + 1 : ℕ) })
      else
        getInt st.buf.array (pos + 1 : ℕ) (numWidth head) >>= fun num =>
          getInt st.buf.array (add32 (pos + 1 : ℕ) (numWidth head)) (typeWidth head) >>= fun type =>
            if head &&& 0x40 = 0 then
              .ok (.next { st with
                entities := st.entities ++ [EntityM.new num type]
                pos := add32 (add32 (pos + 1 : ℕ) (numWidth head)) (typeWidth head) })
            else
              parseAttribute utf8 st head ⟨num, type⟩
                (add32 (add32 (pos + 1 : ℕ) (numWidth head)) (typeWidth head)) := by
  have hlimit := st.buf.limit_le
  have hlt := ByteBuffer.get_eq_ok hhead
  rw [parseRecord, hpos, add32_eavHeaderSize (by omega), hhead, ok_bind]
  rfl

theorem parseAttribute_starts (hst : st.buf.Starts p n) (hne : st.entities ≠ []) (head : UInt8)
    (key : DualKey) {pos : ℕ} (hpos : pos + 2 ≤ p.length) :
    parseAttribute utf8 st head key pos =
      if (p.getD pos 0).toNat > ValueType.b.ordinal then
        .error (.exception "Invalid attribute value type")
      else if head &&& 0x80 = 0 then
        if add32 (pos + 2 : ℕ) (p.getD (pos + 1) 0).toNat > n then
          .ok (.leave { st with pos := (pos + 2 : ℕ) })
        else
          getInt st.buf.array (pos + 2 : ℕ) (p.getD (pos + 1) 0).toNat >>= fun number =>
            parsePayload utf8 st key (ValueType.values.getD (p.getD pos 0).toNat .b)
              (add32 (pos + 2 : ℕ) (p.getD (pos + 1) 0).toNat) number.toInt
      else
        parsePayload utf8 st key (ValueType.values.getD (p.getD pos 0).toNat .b) (pos + 2 : ℕ)
          (p.getD (pos + 1) 0).toNat := by
  have hle := hst.length_le
  rw [parseAttribute_get hst.length_lt hne head key (hst.get (by omega)) (hst.get (by omega)),
    hst.limit_eq]

theorem parseRecord_starts (hst : st.buf.Starts p n) {pos : ℕ} (hpos : st.pos = pos)
    (hlt : pos < p.length) {head : UInt8} (hhead : p.getD pos 0 = head) :
    parseRecord utf8 st =
      if add32 (add32 (pos + 1 : ℕ) (numWidth head)) (typeWidth head) > n then
        .ok (.leave { st with pos := (pos + 1 : ℕ) })
      else
        getInt st.buf.array (pos + 1 : ℕ) (numWidth head) >>= fun num =>
          getInt st.buf.array (add32 (pos + 1 : ℕ) (numWidth head)) (typeWidth head) >>= fun type =>
            if head &&& 0x40 = 0 then
              .ok (.next { st with
                entities := st.entities ++ [EntityM.new num type]
                pos := add32 (add32 (pos + 1 : ℕ) (numWidth head)) (typeWidth head) })
            else
              parseAttribute utf8 st head ⟨num, type⟩
                (add32 (add32 (pos + 1 : ℕ) (numWidth head)) (typeWidth head)) := by
  have hget : st.buf.get pos = .ok head := by rw [hst.get hlt, hhead]
  rw [parseRecord_get hst.length_lt hpos hget, hst.limit_eq]

end Starts

theorem toInt_ofNat {n : ℕ} (h : n < 2 ^ 31) : (BitVec.ofNat 32 n).toInt = n := by
  rw [BitVec.toInt_eq_toNat_cond, BitVec.toNat_ofNat, Nat.mod_eq_of_lt (by omega),
    if_pos (by omega)]

theorem getInt_number (pre post : List UInt8) (v : BitVec 32)
    (hlen : (pre ++ number v ++ post).length < 2 ^ 31) :
    getInt (pre ++ number v ++ post) pre.length (bytes v) = .ok v := by
  have hget := getInt_eq hlen (by rw [length_number]; exact bytes_le v)
  rwa [length_number, number, Bytes.toNat_littleEndian_of_lt (lt_bytes v), BitVec.ofNat_toNat,
    BitVec.setWidth_eq] at hget

/-- What is in the first byte of a record. -/
theorem recordHead_bits (num type : BitVec 32) {flags : ℕ}
    (hflags : flags ∈ [0, 1 <<< 6, 1 <<< 6 ||| 1 <<< 7]) :
    (recordHead num type flags &&& 0x07).toNat = bytes num ∧
      ((recordHead num type flags &&& 0x38) >>> 3).toNat = bytes type ∧
      (recordHead num type flags &&& 0x40 = 0 ↔ flags = 0) ∧
      (recordHead num type flags &&& 0x80 = 0 ↔ flags ≠ 1 <<< 6 ||| 1 <<< 7) := by
  have hall : ∀ flags ∈ [0, 1 <<< 6, 1 <<< 6 ||| 1 <<< 7], ∀ n ≤ 4, ∀ t ≤ 4,
      (UInt8.ofNat (n ||| t <<< 3 ||| flags) &&& 0x07).toNat = n ∧
        ((UInt8.ofNat (n ||| t <<< 3 ||| flags) &&& 0x38) >>> 3).toNat = t ∧
        (UInt8.ofNat (n ||| t <<< 3 ||| flags) &&& 0x40 = 0 ↔ flags = 0) ∧
        (UInt8.ofNat (n ||| t <<< 3 ||| flags) &&& 0x80 = 0 ↔ flags ≠ 1 <<< 6 ||| 1 <<< 7) := by
    decide
  exact hall flags hflags _ (bytes_le num) _ (bytes_le type)

theorem attributeFlags_mem (len : ℕ) :
    attributeFlags len ∈ [0, 1 <<< 6, 1 <<< 6 ||| 1 <<< 7] := by
  rw [attributeFlags]
  split <;> decide

/-- The start of a turn: the number and the type are read. -/
theorem parseRecord_eq {buf : ByteBuffer} {pre post : List UInt8} {num type : BitVec 32}
    {flags : ℕ} (hflags : flags ∈ [0, 1 <<< 6, 1 <<< 6 ||| 1 <<< 7])
    (hbuf : Holds buf (pre ++ recordStart num type flags ++ post))
    (hlen : (pre ++ recordStart num type flags ++ post).length < 2 ^ 31) (es : List EntityM) :
    parseRecord utf8 ⟨es, pre.length, buf⟩ =
      if flags = 0 then
        .ok (.next ⟨es ++ [EntityM.new num type], (pre ++ recordStart num type flags).length, buf⟩)
      else
        parseAttribute utf8 ⟨es, pre.length, buf⟩ (recordHead num type flags) ⟨num, type⟩
          (pre ++ recordStart num type flags).length := by
  obtain ⟨pos, hover⟩ := hbuf
  obtain ⟨hnum, htype, hattr, -⟩ := recordHead_bits num type hflags
  have hdata : pre ++ recordStart num type flags ++ post =
      pre ++ [recordHead num type flags] ++ number num ++ (number type ++ post) := by
    simp [recordStart]
  have hdata' : pre ++ recordStart num type flags ++ post =
      pre ++ [recordHead num type flags] ++ number num ++ number type ++ post := by
    simp [recordStart]
  have hhead : (pre ++ recordStart num type flags ++ post).getD pre.length 0 =
      recordHead num type flags := by
    simp [recordStart]
  have hgetNum := getInt_number (pre ++ [recordHead num type flags]) (number type ++ post) num
    (by rwa [← hdata])
  have hgetType := getInt_number (pre ++ [recordHead num type flags] ++ number num) post type
    (by rwa [← hdata'])
  rw [← hdata, ← hover.array_eq] at hgetNum
  rw [← hdata', ← hover.array_eq] at hgetType
  have hlt : pre.length < (pre ++ recordStart num type flags ++ post).length := by
    simp only [List.length_append, length_recordStart]
    omega
  have hstart := @parseRecord_starts utf8 _ _ ⟨es, pre.length, buf⟩ (hover.starts hlen) _ rfl hlt _
    hhead
  rw [numWidth, hnum, typeWidth, htype] at hstart
  simp only [List.length_append, List.length_singleton, length_number, length_recordStart] at *
  have h₂ : add32 (pre.length + 1 : ℕ) (bytes num) = (pre.length + 1 + bytes num : ℕ) :=
    add32_natCast (by omega)
  have h₃ : add32 (pre.length + 1 + bytes num : ℕ) (bytes type) =
      (pre.length + 1 + bytes num + bytes type : ℕ) := add32_natCast (by omega)
  rw [hstart, h₂, h₃, if_neg (by omega), hgetNum, ok_bind, hgetType, ok_bind]
  simp only [hattr, ← Nat.add_assoc]

/-- The value of an attribute is put into the last entity. -/
theorem parsePayload_eq {av : AttributeValue} (h : Readable utf8 av) {st : Parser}
    {pre post : List UInt8} (hbuf : Reads st.buf (pre ++ payload av ++ post))
    (hlen : (pre ++ payload av ++ post).length < 2 ^ 31) (key : DualKey) :
    ∃ buf', parsePayload utf8 st key av.valueType pre.length (payload av).length =
        .ok (.next ⟨putLast st.entities key (received utf8 av), (pre ++ payload av).length, buf'⟩) ∧
      Reads buf' (pre ++ payload av ++ post) := by
  obtain ⟨buf', hvalue, hbuf'⟩ := parseValue_payload h hbuf hlen
  obtain ⟨⟨pos, hover⟩, -⟩ := hbuf
  have hlimit := hover.limit_eq
  simp only [List.length_append] at hlen hlimit
  have hadd : add32 pre.length (payload av).length = (pre.length + (payload av).length : ℕ) :=
    add32_natCast (by omega)
  have hle : ¬((pre.length + (payload av).length : ℕ) : ℤ) > st.buf.limit := by omega
  refine ⟨buf', ?_, hbuf'⟩
  rw [parsePayload]
  simp only [hadd, if_neg hle, hvalue, ok_bind, List.length_append]
  rfl

theorem ordinal_le (vt : ValueType) : vt.ordinal ≤ ValueType.b.ordinal := by
  cases vt <;> decide

theorem getD_values_ordinal (vt : ValueType) :
    ValueType.values.getD (UInt8.ofNat vt.ordinal).toNat .b = vt := by
  cases vt <;> rfl

/-- The rest of a turn, for an attribute, up to the first byte of the length. -/
theorem parseAttribute_start {st : Parser} (hne : st.entities ≠ []) {pre rest : List UInt8}
    {vt : ValueType} {len : UInt8} (hbuf : Holds st.buf (pre ++ .ofNat vt.ordinal :: len :: rest))
    (hlen : (pre ++ .ofNat vt.ordinal :: len :: rest).length < 2 ^ 31) (head : UInt8)
    (key : DualKey) :
    parseAttribute utf8 st head key pre.length =
      if head &&& 0x80 = 0 then
        if add32 (pre.length + 2 : ℕ) len.toNat > st.buf.limit then
          .ok (.leave { st with pos := (pre.length + 2 : ℕ) })
        else
          getInt st.buf.array (pre.length + 2 : ℕ) len.toNat >>= fun number =>
            parsePayload utf8 st key vt (add32 (pre.length + 2 : ℕ) len.toNat) number.toInt
      else parsePayload utf8 st key vt (pre.length + 2 : ℕ) len.toNat := by
  obtain ⟨pos, hover⟩ := hbuf
  have hvt : (pre ++ .ofNat vt.ordinal :: len :: rest).getD pre.length 0 = .ofNat vt.ordinal := by
    simp
  have hbyte : (pre ++ .ofNat vt.ordinal :: len :: rest).getD (pre.length + 1) 0 = len := by
    rw [List.getD_append_right _ _ _ _ (Nat.le_add_right _ _), Nat.add_sub_cancel_left]
    rfl
  have hordinal : ¬(UInt8.ofNat vt.ordinal).toNat > ValueType.b.ordinal := by
    rw [UInt8.toNat_ofNat']
    exact Nat.not_lt.mpr (Nat.le_trans (Nat.mod_le _ _) (ordinal_le _))
  have hroom : pre.length + 2 ≤ (pre ++ .ofNat vt.ordinal :: len :: rest).length := by
    simp only [List.length_append, List.length_cons]
    omega
  rw [parseAttribute_starts (hover.starts hlen) hne head key hroom, hvt, hbyte, if_neg hordinal,
    getD_values_ordinal, hover.limit_eq]

/-- A length in the byte itself. -/
theorem parseAttribute_short {st : Parser} (hne : st.entities ≠ []) {pre rest : List UInt8}
    {vt : ValueType} {len : ℕ} (hshort : len < 256)
    (hbuf : Holds st.buf (pre ++ .ofNat vt.ordinal :: lengthField len ++ rest))
    (hlen : (pre ++ .ofNat vt.ordinal :: lengthField len ++ rest).length < 2 ^ 31)
    (num type : BitVec 32) (key : DualKey) :
    parseAttribute utf8 st (recordHead num type (attributeFlags len)) key pre.length =
      parsePayload utf8 st key vt (pre ++ .ofNat vt.ordinal :: lengthField len).length len := by
  have hfield : lengthField len = [.ofNat len] := if_pos hshort
  have hflags : attributeFlags len = 1 <<< 6 ||| 1 <<< 7 := if_pos hshort
  have hbit := (recordHead_bits num type (attributeFlags_mem len)).2.2.2
  have hone := hbit.not.mpr (not_not.mpr hflags)
  have hnat : (UInt8.ofNat len).toNat = len := by
    rw [UInt8.toNat_ofNat', Nat.mod_eq_of_lt hshort]
  have hsplit : pre ++ .ofNat vt.ordinal :: lengthField len ++ rest =
      pre ++ .ofNat vt.ordinal :: .ofNat len :: rest := by
    rw [hfield, List.append_assoc]
    rfl
  rw [hsplit] at hbuf hlen
  rw [parseAttribute_start hne hbuf hlen, if_neg hone, hnat, hfield, List.length_append]
  rfl

/-- A length of which the byte is the width. -/
theorem parseAttribute_long {st : Parser} (hne : st.entities ≠ []) {pre rest : List UInt8}
    {vt : ValueType} {len : ℕ} (hlong : ¬len < 256)
    (hbuf : Holds st.buf (pre ++ .ofNat vt.ordinal :: lengthField len ++ rest))
    (hlen : (pre ++ .ofNat vt.ordinal :: lengthField len ++ rest).length < 2 ^ 31)
    (hmax : len < 2 ^ 31) (num type : BitVec 32) (key : DualKey) :
    parseAttribute utf8 st (recordHead num type (attributeFlags len)) key pre.length =
      parsePayload utf8 st key vt (pre ++ .ofNat vt.ordinal :: lengthField len).length len := by
  have hflags : attributeFlags len = 1 <<< 6 := if_neg hlong
  have hbit := (recordHead_bits num type (attributeFlags_mem len)).2.2.2
  have hzero := hbit.mpr (by rw [hflags]; decide)
  have hint := toInt_ofNat hmax
  rw [lengthField, if_neg hlong] at hbuf hlen ⊢
  generalize BitVec.ofNat 32 len = v at *
  have hnat : (UInt8.ofNat (bytes v)).toNat = bytes v := by
    rw [UInt8.toNat_ofNat', Nat.mod_eq_of_lt (Nat.lt_of_le_of_lt (bytes_le v) (by decide))]
  have hsplit : pre ++ .ofNat vt.ordinal :: .ofNat (bytes v) :: number v ++ rest =
      pre ++ .ofNat vt.ordinal :: .ofNat (bytes v) :: (number v ++ rest) := by simp
  have hsplit' : pre ++ .ofNat vt.ordinal :: .ofNat (bytes v) :: number v ++ rest =
      (pre ++ [.ofNat vt.ordinal, .ofNat (bytes v)]) ++ number v ++ rest := by simp
  have hnumber := getInt_number (pre ++ [.ofNat vt.ordinal, .ofNat (bytes v)]) rest v
    (hsplit' ▸ hlen)
  rw [← hsplit', List.length_append] at hnumber
  rw [hsplit] at hbuf hlen hnumber
  rw [parseAttribute_start hne hbuf hlen, if_pos hzero, hnat]
  obtain ⟨pos, hover⟩ := hbuf
  have hlimit := hover.limit_eq
  rw [← hover.array_eq] at hnumber
  simp only [List.length_append, List.length_cons, List.length_nil, length_number] at *
  have hadd : add32 (pre.length + 2 : ℕ) (bytes v) = (pre.length + (bytes v + 1 + 1) : ℕ) :=
    add32_eq (by omega) (by omega)
  rw [hadd, if_neg (by omega), hnumber, ok_bind, hint]

/-- The rest of a turn, for an attribute. -/
theorem parseAttribute_eq {av : AttributeValue} (h : Readable utf8 av) {st : Parser}
    {pre post : List UInt8} (num type : BitVec 32) (hne : st.entities ≠ [])
    (hbuf : Reads st.buf (pre ++ .ofNat av.valueType.ordinal ::
      lengthField (payload av).length ++ payload av ++ post))
    (hlen : (pre ++ .ofNat av.valueType.ordinal ::
      lengthField (payload av).length ++ payload av ++ post).length < 2 ^ 31) :
    ∃ buf', parseAttribute utf8 st (recordHead num type (attributeFlags (payload av).length))
        ⟨num, type⟩ pre.length =
          .ok (.next ⟨putLast st.entities ⟨num, type⟩ (received utf8 av),
            (pre ++ .ofNat av.valueType.ordinal ::
              lengthField (payload av).length ++ payload av).length, buf'⟩) ∧
      Reads buf' (pre ++ .ofNat av.valueType.ordinal ::
        lengthField (payload av).length ++ payload av ++ post) := by
  obtain ⟨buf', hpayload, hbuf'⟩ := parsePayload_eq h hbuf hlen ⟨num, type⟩
  refine ⟨buf', ?_, hbuf'⟩
  rw [← hpayload]
  have hholds := hbuf.holds
  rw [List.append_assoc] at hholds hlen
  by_cases hshort : (payload av).length < 256
  · exact parseAttribute_short hne hshort hholds hlen num type _
  · have hmax : (payload av).length < 2 ^ 31 := by
      simp only [List.length_append] at hlen
      omega
    exact parseAttribute_long hne hshort hholds hlen hmax num type _

/-- The value of an attribute is one that is read. -/
def Record.Readable (utf8 : Charset) : Record → Prop
  | entity _ _ => True
  | attr a => Client.Readable utf8 a.value

/-- What the record adds to the entities that have been read. -/
def Record.add (utf8 : Charset) (es : List EntityM) : Record → List EntityM
  | entity num type => es ++ [EntityM.new num type]
  | attr a => putLast es ⟨a.num, a.type⟩ (received utf8 a.value)

/-- There is an entity for the record, if it is an attribute. -/
def Record.Follows (es : List EntityM) : Record → Prop
  | entity _ _ => True
  | attr _ => es ≠ []

theorem attributeFlags_ne_zero (len : ℕ) : attributeFlags len ≠ 0 := by
  rw [attributeFlags]
  split <;> decide

/-- **A turn of the record loop** reads a record. -/
theorem parseRecord_record {r : Record} (hr : r.Readable utf8) {es : List EntityM}
    (hes : r.Follows es) {buf : ByteBuffer} {pre post : List UInt8}
    (hbuf : Reads buf (pre ++ r.encode ++ post))
    (hlen : (pre ++ r.encode ++ post).length < 2 ^ 31) :
    ∃ buf', parseRecord utf8 ⟨es, pre.length, buf⟩ =
        .ok (.next ⟨r.add utf8 es, (pre ++ r.encode).length, buf'⟩) ∧
      Reads buf' (pre ++ r.encode ++ post) := by
  cases r with
  | entity num type =>
    refine ⟨buf, ?_, hbuf⟩
    exact (parseRecord_eq List.mem_cons_self hbuf.holds hlen es).trans (if_pos rfl)
  | attr a =>
    have hstart : pre ++ (Record.attr a).encode ++ post =
        pre ++ recordStart a.num a.type (attributeFlags (payload a.value).length) ++
          (.ofNat a.value.valueType.ordinal :: lengthField (payload a.value).length ++
            payload a.value ++ post) := by
      simp [Record.encode, attributeBytes]
    have hrest : pre ++ (Record.attr a).encode =
        pre ++ recordStart a.num a.type (attributeFlags (payload a.value).length) ++
          .ofNat a.value.valueType.ordinal :: lengthField (payload a.value).length ++
            payload a.value := by
      simp [Record.encode, attributeBytes]
    have hrecord := @parseRecord_eq utf8 _ _ _ _ _ _ (attributeFlags_mem _)
      (hstart ▸ hbuf.holds) (hstart ▸ hlen) es
    rw [if_neg (attributeFlags_ne_zero _)] at hrecord
    rw [hrest] at hbuf hlen ⊢
    rw [hrecord]
    exact parseAttribute_eq hr a.num a.type hes hbuf hlen

/-! ### The record loop -/

/-- A turn of the loop that is followed by another one. -/
def TurnsTo (utf8 : Charset) (size : ℤ) (st st' : Parser) : Prop :=
  add32 st.pos eavHeaderSize ≤ size ∧ parseRecord utf8 st = .ok (.next st')

theorem parseLoop_next {size : ℤ} {st st' : Parser} (hpos : add32 st.pos eavHeaderSize ≤ size)
    (h : parseRecord utf8 st = .ok (.next st')) (fuel : ℕ) :
    parseLoop utf8 size (fuel + 1) st = parseLoop utf8 size fuel st' := by
  rw [parseLoop, if_pos hpos, h]

theorem parseLoop_leave {size : ℤ} {st st' : Parser} (hpos : add32 st.pos eavHeaderSize ≤ size)
    (h : parseRecord utf8 st = .ok (.leave st')) (fuel : ℕ) :
    parseLoop utf8 size (fuel + 1) st = some (.ok st') := by
  rw [parseLoop, if_pos hpos, h]

theorem parseLoop_error {size : ℤ} {st : Parser} {e : Throwable}
    (hpos : add32 st.pos eavHeaderSize ≤ size) (h : parseRecord utf8 st = .error e) (fuel : ℕ) :
    parseLoop utf8 size (fuel + 1) st = some (.error e) := by
  rw [parseLoop, if_pos hpos, h]

theorem parseLoop_end {size : ℤ} {st : Parser} (hpos : ¬add32 st.pos eavHeaderSize ≤ size)
    (fuel : ℕ) : parseLoop utf8 size (fuel + 1) st = some (.ok st) := by
  rw [parseLoop, if_neg hpos]

theorem putLast_append (es : List EntityM) (e : EntityM) (key : DualKey) (av : AttributeValue) :
    putLast (es ++ [e]) key av = es ++ [{ e with attributes := e.attributes.put key av }] := by
  induction es with
  | nil => rfl
  | cons e' es ih =>
    cases es with
    | nil => rfl
    | cons e'' es =>
      simp only [List.cons_append, putLast] at ih ⊢
      rw [ih]

theorem putLast_ne_nil {es : List EntityM} (hne : es ≠ []) (key : DualKey) (av : AttributeValue) :
    putLast es key av ≠ [] := by
  obtain ⟨es, e, rfl⟩ := List.eq_nil_or_concat es |>.resolve_left hne
  rw [List.concat_eq_append, putLast_append]
  simp

theorem Record.add_ne_nil {r : Record} {es : List EntityM} (hes : r.Follows es) :
    r.add utf8 es ≠ [] := by
  cases r with
  | entity num type => simp [Record.add]
  | attr a => exact putLast_ne_nil hes _ _

theorem Record.encode_ne_nil (r : Record) : r.encode ≠ [] := by
  cases r <;> simp [Record.encode, attributeBytes, recordStart]

/-- **The record loop reads the records**, if each of them starts before its bound: a turn
for each record. -/
theorem parseLoop_records {data : List UInt8} (hlen : data.length < 2 ^ 31) {size : ℤ}
    {rs : List Record} (hrs : ∀ r ∈ rs, r.Readable utf8) :
    ∀ {pre post : List UInt8} {buf : ByteBuffer} {es : List EntityM},
      (∀ r ∈ rs.head?, r.Follows es) → data = pre ++ rs.flatMap Record.encode ++ post →
      (∀ l r l', rs = l ++ r :: l' → ((pre ++ l.flatMap Record.encode).length : ℤ) < size) →
      Reads buf data →
      ∃ buf', Reads buf' data ∧ ∀ fuel,
        parseLoop utf8 size (fuel + rs.length) ⟨es, pre.length, buf⟩ =
          parseLoop utf8 size fuel ⟨rs.foldl (Record.add utf8) es,
            (pre ++ rs.flatMap Record.encode).length, buf'⟩ := by
  -- what has been read is the prefix, which grows by a record in each turn
  induction rs with
  | nil =>
    intro pre post buf es _ _ _ hbuf
    refine ⟨buf, hbuf, fun fuel => ?_⟩
    rw [List.flatMap_nil, List.append_nil]
    rfl
  | cons r rs ih =>
    intro pre post buf es hes hdata hsize hbuf
    have hsplit : data = pre ++ r.encode ++ (rs.flatMap Record.encode ++ post) := by
      rw [hdata, List.flatMap_cons]
      simp only [List.append_assoc]
    have hsplit' : data = pre ++ r.encode ++ rs.flatMap Record.encode ++ post := by
      rw [hsplit]
      simp only [List.append_assoc]
    have hfollows : r.Follows es := hes r rfl
    obtain ⟨buf₁, hrecord, hbuf₁⟩ := parseRecord_record (hrs r List.mem_cons_self) hfollows
      (hsplit ▸ hbuf) (hsplit ▸ hlen)
    rw [← hsplit] at hbuf₁
    have hhead : ∀ r' ∈ rs.head?, r'.Follows (r.add utf8 es) := fun r' _ => by
      cases r' with
      | entity _ _ => trivial
      | attr _ => exact Record.add_ne_nil hfollows
    obtain ⟨buf₂, hbuf₂, hloop⟩ := ih (fun r' hr' => hrs r' (List.mem_cons_of_mem _ hr')) hhead
      hsplit' (fun l r' l' hl => by
        have h := hsize (r :: l) r' l' (by rw [hl, List.cons_append])
        rwa [List.flatMap_cons, ← List.append_assoc] at h) hbuf₁
    refine ⟨buf₂, hbuf₂, fun fuel => ?_⟩
    have hstart : add32 pre.length eavHeaderSize ≤ size := by
      have h := hsize [] r rs rfl
      have hpos := List.length_pos_iff.mpr r.encode_ne_nil
      rw [List.flatMap_nil, List.append_nil] at h
      rw [hsplit, List.length_append, List.length_append] at hlen
      rw [add32_eavHeaderSize (by omega)]
      omega
    have hnext := @parseLoop_next utf8 size ⟨es, pre.length, buf⟩ _ hstart hrecord
    rw [List.length_cons, ← Nat.add_assoc, hnext, List.flatMap_cons, ← List.append_assoc]
    exact hloop fuel

/-- What is made of an entity. -/
def EntityL.received (utf8 : Charset) (e : EntityL) : EntityM :=
  e.attributes.foldl (fun em a => { em with
    attributes := em.attributes.put ⟨a.num, a.type⟩ (Client.received utf8 a.value) })
    (EntityM.new e.num e.type)

/-- It is given what is made of the values, in order. -/
theorem EntityL.received_eq_puts (e : EntityL) : e.received utf8 = ⟨e.num, e.type,
    ⟨e.attributes.map fun a => (⟨a.num, a.type⟩, Client.received utf8 a.value)⟩⟩ := by
  have hfold : ∀ (as : List Attribute) (em : EntityM),
      as.foldl (fun em a => { em with
        attributes := em.attributes.put ⟨a.num, a.type⟩ (Client.received utf8 a.value) }) em =
      ⟨em.num, em.type, ⟨em.attributes.puts ++
        as.map fun a => (⟨a.num, a.type⟩, Client.received utf8 a.value)⟩⟩ := by
    intro as
    induction as with
    | nil => exact fun em => by rw [List.foldl_nil, List.map_nil, List.append_nil]
    | cons a as ih =>
      intro em
      rw [List.foldl_cons, ih, List.map_cons]
      simp only [AttributesMap.put, List.append_assoc, List.singleton_append]
  rw [EntityL.received, hfold, EntityM.new]
  rfl

theorem EntityL.received_eq {e : EntityL} (he : ∀ a ∈ e.attributes, Sendable utf8 a.value) :
    e.received utf8 = EntityM.createFrom e := by
  rw [EntityL.received, EntityM.createFrom]
  generalize EntityM.new e.num e.type = em
  generalize e.attributes = as at he
  induction as generalizing em with
  | nil => rfl
  | cons a as ih =>
    rw [List.foldl_cons, List.foldl_cons, (he a List.mem_cons_self).received_eq]
    exact ih _ fun a' ha' => he a' (List.mem_cons_of_mem _ ha')

theorem foldl_add_records_entity (e : EntityL) (read : List EntityM) :
    e.records.foldl (Record.add utf8) read = read ++ [e.received utf8] := by
  rw [EntityL.records, List.foldl_cons, List.foldl_map, EntityL.received]
  show e.attributes.foldl _ (read ++ [EntityM.new e.num e.type]) = _
  generalize EntityM.new e.num e.type = em
  generalize e.attributes = as
  induction as generalizing em with
  | nil => rfl
  | cons a as ih =>
    rw [List.foldl_cons, List.foldl_cons]
    simp only [Record.add, putLast_append]
    exact ih _

theorem foldl_add_records (es : List EntityL) (read : List EntityM) :
    (records es).foldl (Record.add utf8) read = read ++ es.map (EntityL.received utf8) := by
  induction es generalizing read with
  | nil => exact (List.append_nil read).symm
  | cons e es ih =>
    rw [records, List.flatMap_cons, List.foldl_append, ← records, foldl_add_records_entity, ih,
      List.map_cons, List.append_assoc, List.singleton_append]

/-- The first record is an entity. -/
theorem head?_records {es : List EntityL} {read : List EntityM} :
    ∀ r ∈ (records es).head?, r.Follows read := by
  cases es with
  | nil => exact fun _ hr => nomatch hr
  | cons e es =>
    intro r hr
    obtain rfl : Record.entity e.num e.type = r := Option.some.inj hr
    trivial

/-- So is the first one of some of the records. -/
theorem head?_of_records_eq {es : List EntityL} {l l' : List Record} (hl : records es = l ++ l')
    {read : List EntityM} : ∀ r ∈ l.head?, r.Follows read := by
  intro r hr
  refine @head?_records es read r ?_
  rw [hl, List.head?_append, Option.mem_def.mp hr]
  rfl

theorem readable_records {es : List EntityL}
    (hes : ∀ e ∈ es, ∀ a ∈ e.attributes, Readable utf8 a.value) :
    ∀ r ∈ records es, r.Readable utf8 := by
  intro r hr
  obtain ⟨e, he, hr⟩ := List.mem_flatMap.mp hr
  rcases List.mem_cons.mp hr with rfl | hr
  · trivial
  · obtain ⟨a, ha, rfl⟩ := List.mem_map.mp hr
    exact hes e he a ha

/-- How many turns of the loop there are for these entities. -/
def turns (es : List EntityL) : ℕ := (es.map fun e => e.attributes.length + 1).sum

theorem length_records (es : List EntityL) : (records es).length = turns es := by
  rw [records, List.length_flatMap, turns]
  simp [EntityL.records]

end Client
end PeeledOrange
