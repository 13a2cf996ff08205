import PeeledOrange.Client.Numbers
import Mathlib.Tactic.Ring

/-!
# The bytes of a packet

A packet is a header and one record after the other, for each entity, and after it for
each of its attributes.  `setRequestData` counts these bytes in its first pass, and puts
them into the packet in its second one.

## Main definitions

* `number`, `recordHead`, `lengthField`, `payload` — the parts of a record.
* `attributeBytes`, `entityBytes`, `body` — records.
* `packet` — the packet of a task.
* `writeStart`, `writeChecksum` — what is put before the second pass, and after it.

## Main results

* `setRequestData_eq_passes` — what is done before, between and after the two passes.
* `foldlM_measureEntity` — **the first pass counts the bytes of the records.**
* `foldlM_writeEntity` — **the second pass puts the bytes of the records.**
* `fill_eq` — **a buffer of the size of the packet is filled in, whatever it holds.**
* `setRequestData_eq` — **the packet of a task, if it is shorter than `2 ^ 31` bytes.**
-/

namespace PeeledOrange
namespace Client

open Java

/-! ### Records -/

/-- As many bytes of a number as it needs. -/
def number (v : BitVec 32) : List UInt8 := Bytes.littleEndian (bytes v) v.toNat

/-- The first byte of a record: the widths of the number and the type, and flags. -/
def recordHead (num type : BitVec 32) (flags : ℕ) : UInt8 :=
  .ofNat (bytes num ||| bytes type <<< 3 ||| flags)

/-- The start of a record: its first byte, the number and the type. -/
def recordStart (num type : BitVec 32) (flags : ℕ) : List UInt8 :=
  recordHead num type flags :: number num ++ number type

/-- The flags of an attribute, whose value has this length. -/
def attributeFlags (len : ℕ) : ℕ := if len < 256 then 1 <<< 6 ||| 1 <<< 7 else 1 <<< 6

/-- The length of a value: one byte, or its width and as many bytes. -/
def lengthField (len : ℕ) : List UInt8 :=
  if len < 256 then [.ofNat len]
  else .ofNat (bytes (BitVec.ofNat 32 len)) :: number (BitVec.ofNat 32 len)

/-- The bytes of a value. -/
def payload (av : AttributeValue) : List UInt8 :=
  if av.valueType.ordinal < ValueType.f4.ordinal then (Bytes.trim av.value.array).reverse
  else av.value.array

/-- The record of an attribute. -/
def attributeBytes (a : Attribute) : List UInt8 :=
  let data := payload a.value
  recordStart a.num a.type (attributeFlags data.length) ++
    .ofNat a.value.valueType.ordinal :: lengthField data.length ++ data

/-- The records of an entity and its attributes. -/
def entityBytes (e : EntityL) : List UInt8 :=
  recordStart e.num e.type 0 ++ e.attributes.flatMap attributeBytes

/-- The bytes of the records of a packet. -/
def body (es : List EntityL) : List UInt8 := es.flatMap entityBytes

/-- A record: an entity, or an attribute of the entity before it. -/
inductive Record
  | entity (num type : BitVec 32)
  | attr (a : Attribute)

/-- The bytes of a record. -/
def Record.encode : Record → List UInt8
  | entity num type => recordStart num type 0
  | attr a => attributeBytes a

/-- The records of an entity and its attributes. -/
def EntityL.records (e : EntityL) : List Record :=
  .entity e.num e.type :: e.attributes.map .attr

/-- The records of a packet. -/
def records (es : List EntityL) : List Record := es.flatMap EntityL.records

/-- The bytes of a packet after its header are those of its records. -/
theorem flatMap_encode_records (es : List EntityL) :
    (records es).flatMap Record.encode = body es := by
  have hentity : ∀ e : EntityL, e.records.flatMap Record.encode = entityBytes e := fun e => by
    rw [EntityL.records, List.flatMap_cons, List.flatMap_map]
    rfl
  rw [records, List.flatMap_assoc, body]
  simp only [hentity]

@[simp] theorem length_number (v : BitVec 32) : (number v).length = bytes v :=
  Bytes.length_littleEndian _ _

@[simp] theorem length_recordStart (num type : BitVec 32) (flags : ℕ) :
    (recordStart num type flags).length = 1 + bytes num + bytes type := by
  rw [recordStart, List.length_append, List.length_cons, length_number, length_number]
  omega

theorem putFirst_array (b : ByteBuffer) (v : BitVec 32) :
    b.putFirst (array v) (bytes v) = b.put (number v) := by
  rw [ByteBuffer.putFirst, array_eq, Bytes.length_littleEndian, if_pos (bytes_le v),
    Bytes.take_littleEndian (bytes_le v), number]

theorem putFirst_length (b : ByteBuffer) (bs : List UInt8) :
    b.putFirst bs bs.length = b.put bs := by
  rw [ByteBuffer.putFirst, if_pos (Nat.le_refl _), List.take_length]

/-- To put bytes and then more, before the rest of the work. -/
theorem put_put_bind {α : Type} (b : ByteBuffer) (bs bs' : List UInt8)
    (f : ByteBuffer → Except Throwable α) :
    (b.put bs >>= fun b => b.put bs' >>= f) = b.put (bs ++ bs') >>= f := by
  rw [← ByteBuffer.put_put, bind_assoc]

/-! ### The first pass -/

/-- A number that is stored in a buffer has a byte at least. -/
def Storable (av : AttributeValue) : Prop :=
  av.valueType.ordinal < ValueType.f4.ordinal → av.value.array ≠ []

theorem buffered_eq {av : AttributeValue} (h : Storable av) :
    ∃ bb, buffered av = .ok bb ∧ bb.array = payload av := by
  unfold buffered payload
  by_cases hnum : av.valueType.ordinal < ValueType.f4.ordinal
  · rw [if_pos hnum, if_pos hnum]
    exact optimizeData_eq (h hnum)
  · rw [if_neg hnum, if_neg hnum]
    exact ⟨_, rfl, rfl⟩

theorem length_lengthField {len : ℕ} (h : ¬len < 256) :
    (lengthField len).length = 1 + bytes (BitVec.ofNat 32 len) := by
  rw [lengthField, if_neg h, List.length_cons, length_number, Nat.add_comm]

/-- Over a list, a step of the first pass counts these bytes of an element, and leaves
buffers with these arrays behind. -/
def Measures {α : Type} (f : ℤ × List ByteBuffer → α → Except Throwable (ℤ × List ByteBuffer))
    (enc : α → List UInt8) (data : α → List (List UInt8)) (x : α) : Prop :=
  ∀ (k : ℤ) (list : List ByteBuffer), ∃ bbs : List ByteBuffer,
    bbs.map ByteBuffer.array = data x ∧
      f (wrap32 k, list) x = .ok (wrap32 (k + (enc x).length), list ++ bbs)

theorem foldlM_measures {α : Type}
    {f : ℤ × List ByteBuffer → α → Except Throwable (ℤ × List ByteBuffer)}
    {enc : α → List UInt8} {data : α → List (List UInt8)} {l : List α}
    (h : ∀ x ∈ l, Measures f enc data x) :
    Measures (fun st l => l.foldlM f st) (fun l => l.flatMap enc) (fun l => l.flatMap data) l := by
  induction l with
  | nil =>
    intro k list
    refine ⟨[], rfl, ?_⟩
    simp only [List.flatMap_nil, List.length_nil, Nat.cast_zero, add_zero, List.append_nil]
    rfl
  | cons x l ih =>
    intro k list
    obtain ⟨bbs, hdata, hf⟩ := h x List.mem_cons_self k list
    obtain ⟨bbs', hdata', hl⟩ :=
      ih (fun y hy => h y (List.mem_cons_of_mem _ hy)) (k + (enc x).length) (list ++ bbs)
    refine ⟨bbs ++ bbs', ?_, ?_⟩
    · simp only [List.map_append, hdata, hdata', List.flatMap_cons]
    · simp only [List.foldlM_cons, hf, ok_bind, hl, List.flatMap_cons, List.length_append,
        Nat.cast_add, add_assoc, List.append_assoc]

theorem measures_measureAttribute {a : Attribute} (ha : Storable a.value) :
    Measures measureAttribute attributeBytes (fun a => [payload a.value]) a := by
  intro k list
  obtain ⟨bb, hbuf, harray⟩ := buffered_eq ha
  refine ⟨[bb], by rw [List.map_singleton, harray], ?_⟩
  -- the source adds 2 and the length, or 2, the width and the length
  have hlen : ∀ n : ℕ, (lengthField (payload a.value).length).length = n →
      (k + (attributeBytes a).length : ℤ) =
        k + eavHeaderSize + bytes a.num + bytes a.type + (1 + n + (payload a.value).length) := by
    intro n hn
    simp only [attributeBytes, List.length_cons, List.length_append, length_recordStart, hn,
      eavHeaderSize]
    push_cast
    ring
  rw [measureAttribute, hbuf]
  simp only [ok_bind, harray, add32, wrap32_wrap32_add, wrap32_add_wrap32]
  by_cases hshort : (payload a.value).length < 256
  · -- the length is one byte
    have hone : (lengthField (payload a.value).length).length = 1 := by
      rw [lengthField, if_pos hshort, List.length_singleton]
    rw [if_pos (by exact_mod_cast hshort), hlen 1 hone]
    rfl
  · rw [if_neg (by exact_mod_cast hshort), hlen _ (length_lengthField hshort)]
    have htwo : ∀ x y : ℤ, 2 + x + y = 1 + (1 + x) + y := by intros; ring
    rw [htwo]
    rfl

/-- **The first pass counts the bytes of the records.** -/
theorem measures_measureEntity {e : EntityL} (he : ∀ a ∈ e.attributes, Storable a.value) :
    Measures measureEntity entityBytes
      (fun e => e.attributes.flatMap fun a => [payload a.value]) e := by
  intro k list
  obtain ⟨bbs, hdata, hfold⟩ :=
    foldlM_measures (fun a ha => measures_measureAttribute (he a ha))
      (k + eavHeaderSize + bytes e.num + bytes e.type) list
  refine ⟨bbs, hdata, ?_⟩
  have hlen : ((entityBytes e).length : ℤ) =
      eavHeaderSize + bytes e.num + bytes e.type +
        (e.attributes.flatMap attributeBytes).length := by
    simp only [entityBytes, List.length_append, length_recordStart, eavHeaderSize]
    push_cast
    ring
  simp only [add_assoc] at hfold hlen
  simp only [measureEntity, add32, wrap32_wrap32_add, add_assoc, hfold, hlen]

/-! ### The second pass -/

/-- Over a list, a step of the second pass takes buffers with these arrays, and puts
these bytes of an element. -/
def Writes {α : Type}
    (f : ByteBuffer × List ByteBuffer → α → Except Throwable (ByteBuffer × List ByteBuffer))
    (enc : α → List UInt8) (data : α → List (List UInt8)) (x : α) : Prop :=
  ∀ (b : ByteBuffer) (bbs rest : List ByteBuffer), bbs.map ByteBuffer.array = data x →
    f (b, bbs ++ rest) x = b.put (enc x) >>= fun b => .ok (b, rest)

theorem foldlM_writes {α : Type}
    {f : ByteBuffer × List ByteBuffer → α → Except Throwable (ByteBuffer × List ByteBuffer)}
    {enc : α → List UInt8} {data : α → List (List UInt8)} {l : List α}
    (h : ∀ x ∈ l, Writes f enc data x) :
    Writes (fun st l => l.foldlM f st) (fun l => l.flatMap enc) (fun l => l.flatMap data) l := by
  induction l with
  | nil =>
    intro b bbs rest hdata
    obtain rfl := List.map_eq_nil_iff.mp hdata
    simp only [List.flatMap_nil, ByteBuffer.put_nil]
    rfl
  | cons x l ih =>
    intro b bbs rest hdata
    obtain ⟨bbs₁, bbs₂, rfl, hx, hl⟩ := List.map_eq_append_iff.mp hdata
    simp only [List.foldlM_cons, List.append_assoc, h x List.mem_cons_self b bbs₁ _ hx, bind_assoc,
      ok_bind]
    simp only [ih (fun y hy => h y (List.mem_cons_of_mem _ hy)) _ bbs₂ rest hl, put_put_bind,
      List.flatMap_cons]

/-- How many bytes the length of a value takes. -/
def lengthWidth (len : ℕ) : ℕ :=
  if bytes (BitVec.ofNat 32 len) = 0 then 1 else bytes (BitVec.ofNat 32 len)

theorem lengthWidth_lt_two_iff {len : ℕ} (h : len < 2 ^ 31) : lengthWidth len < 2 ↔ len < 256 := by
  have hone := bytes_le_iff (BitVec.ofNat 32 len) (n := 1) (by decide)
  rw [BitVec.toNat_ofNat, Nat.mod_eq_of_lt (by omega)] at hone
  rw [show (256 : ℕ) = 256 ^ 1 from rfl, ← hone, lengthWidth]
  split <;> omega

theorem put_lengthField {α : Type} {len : ℕ} (h : len < 2 ^ 31) (b : ByteBuffer)
    (f : ByteBuffer → Except Throwable α) :
    (if lengthWidth len > 1 then
        b.put [.ofNat (lengthWidth len)] >>= fun b =>
          b.putFirst (array (BitVec.ofNat 32 len)) (lengthWidth len) >>= f
      else
        .ok b >>= fun b => b.putFirst (array (BitVec.ofNat 32 len)) (lengthWidth len) >>= f) =
      b.put (lengthField len) >>= f := by
  have hwidth := lengthWidth_lt_two_iff h
  by_cases hshort : len < 256
  · have hone : lengthWidth len = 1 := by
      have hlt := hwidth.mpr hshort
      rw [lengthWidth] at hlt ⊢
      split at hlt <;> split <;> omega
    have hnum : (array (BitVec.ofNat 32 len)).take 1 = [.ofNat len] := by
      rw [array_eq, Bytes.take_littleEndian (by decide), BitVec.toNat_ofNat,
        Nat.mod_eq_of_lt (by omega)]
      rfl
    rw [hone, if_neg (by decide), ok_bind, lengthField, if_pos hshort, ByteBuffer.putFirst, hnum,
      if_pos (by rw [array_eq, Bytes.length_littleEndian]; decide)]
  · have hbytes : lengthWidth len = bytes (BitVec.ofNat 32 len) := by
      have hge := hwidth.not.mpr hshort
      rw [lengthWidth] at hge ⊢
      split at hge <;> split <;> omega
    rw [if_pos (Nat.lt_of_not_le fun hle => hshort (hwidth.mp (Nat.lt_succ_of_le hle))), hbytes]
    simp only [putFirst_array, put_put_bind]
    rw [lengthField, if_neg hshort, List.singleton_append]

theorem writes_writeAttribute {a : Attribute} (ha : (payload a.value).length < 2 ^ 31) :
    Writes writeAttribute attributeBytes (fun a => [payload a.value]) a := by
  intro b bbs rest hdata
  obtain ⟨bb, rfl, harray⟩ := List.map_eq_singleton_iff.mp hdata
  have hflags : (if lengthWidth (payload a.value).length < 2
      then bytes a.num ||| bytes a.type <<< 3 ||| 1 <<< 6 ||| 1 <<< 7
      else bytes a.num ||| bytes a.type <<< 3 ||| 1 <<< 6) =
        bytes a.num ||| bytes a.type <<< 3 ||| attributeFlags (payload a.value).length := by
    rw [attributeFlags]
    by_cases hshort : (payload a.value).length < 256
    · rw [if_pos ((lengthWidth_lt_two_iff ha).mpr hshort), if_pos hshort, Nat.or_assoc _ (1 <<< 6)]
    · rw [if_neg ((lengthWidth_lt_two_iff ha).not.mpr hshort), if_neg hshort]
  rw [writeAttribute, attributeBytes]
  have hwidth : ∀ len, (if bytes (BitVec.ofNat 32 len) = 0 then 1
      else bytes (BitVec.ofNat 32 len)) = lengthWidth len := fun _ => rfl
  simp only [List.singleton_append, harray, hwidth, hflags, putFirst_array, put_lengthField ha,
    putFirst_length, put_put_bind]
  simp only [recordStart, recordHead, List.append_assoc, List.cons_append]
  rfl

theorem writes_writeEntity {e : EntityL}
    (he : ∀ a ∈ e.attributes, (payload a.value).length < 2 ^ 31) :
    Writes writeEntity entityBytes
      (fun e => e.attributes.flatMap fun a => [payload a.value]) e := by
  intro b bbs rest hdata
  have hfold := fun b =>
    foldlM_writes (fun a ha => writes_writeAttribute (he a ha)) b bbs rest hdata
  simp only at hfold
  simp only [writeEntity, putFirst_array, hfold, put_put_bind, entityBytes, recordStart, recordHead]
  simp

theorem length_payload_le {es : List EntityL} {e : EntityL} (he : e ∈ es) {a : Attribute}
    (ha : a ∈ e.attributes) : (payload a.value).length ≤ (body es).length := by
  have hsub : (payload a.value).Sublist (attributeBytes a) := List.sublist_append_right _ _
  have hentity : (attributeBytes a).Sublist (entityBytes e) :=
    (List.sublist_flatten_of_mem (List.mem_map_of_mem ha)).trans (List.sublist_append_right _ _)
  have hbody : (entityBytes e).Sublist (body es) :=
    List.sublist_flatten_of_mem (List.mem_map_of_mem he)
  exact ((hsub.trans hentity).trans hbody).length_le

/-- **The first pass counts the bytes of the records.** -/
theorem foldlM_measureEntity {es : List EntityL}
    (hes : ∀ e ∈ es, ∀ a ∈ e.attributes, Storable a.value) (hlen : (body es).length < 2 ^ 31) :
    ∃ bbs : List ByteBuffer,
      bbs.map ByteBuffer.array =
        es.flatMap (fun e => e.attributes.flatMap fun a => [payload a.value]) ∧
      es.foldlM measureEntity (0, []) = .ok (((body es).length : ℤ), bbs) := by
  obtain ⟨bbs, hdata, hfold⟩ :=
    foldlM_measures (fun e he => measures_measureEntity (hes e he)) 0 []
  refine ⟨bbs, hdata, ?_⟩
  have hzero : wrap32 0 = 0 := by decide
  have hds : wrap32 (0 + (body es).length) = (body es).length := by
    rw [zero_add, wrap32_of_lt (by omega) (by omega)]
  rw [body] at hds ⊢
  simpa only [hzero, hds, List.nil_append] using hfold

/-- **The second pass puts the bytes of the records.** -/
theorem foldlM_writeEntity {es : List EntityL} {bbs : List ByteBuffer}
    (hdata : bbs.map ByteBuffer.array =
      es.flatMap fun e => e.attributes.flatMap fun a => [payload a.value])
    (hlen : (body es).length < 2 ^ 31) (b : ByteBuffer) :
    es.foldlM writeEntity (b, bbs) = b.put (body es) >>= fun b => .ok (b, []) := by
  have hes : ∀ e ∈ es, Writes writeEntity entityBytes
      (fun e => e.attributes.flatMap fun a => [payload a.value]) e := fun e he =>
    writes_writeEntity fun a ha => Nat.lt_of_le_of_lt (length_payload_le he ha) hlen
  have hfold := foldlM_writes hes b bbs [] hdata
  rw [List.append_nil] at hfold
  exact hfold

/-! ### The packet -/

/-- The first byte of a packet: the widths of the packet ID and the size. -/
def packetHead (task : EavTask) (es : List EntityL) : UInt8 :=
  .ofNat (bytes task.packetID ||| bytes (BitVec.ofNat 32 (body es).length) <<< 2)

/-- The checksum in a packet. -/
def checksum (es : List EntityL) : List UInt8 :=
  Bytes.littleEndian 2 ((crcOf ((body es).take 0xFFFF)).signExtend 32).toNat

/-- A packet up to its records. -/
def packetStart (task : EavTask) (es : List EntityL) : List UInt8 :=
  packetHead task es :: checksum es ++ .ofNat task.command.ordinal ::
    (number task.packetID ++ number (BitVec.ofNat 32 (body es).length))

/-- The packet of a task. -/
def packet (task : EavTask) (es : List EntityL) : List UInt8 := packetStart task es ++ body es

@[simp] theorem length_checksum (es : List EntityL) : (checksum es).length = 2 :=
  Bytes.length_littleEndian _ _

theorem length_packetStart (task : EavTask) (es : List EntityL) :
    (packetStart task es).length =
      packetHeaderSize + bytes task.packetID + bytes (BitVec.ofNat 32 (body es).length) := by
  simp only [packetStart, List.length_append, List.length_cons, length_checksum, length_number,
    packetHeaderSize]
  omega

/-- The checksum covers the records, up to a length. -/
theorem crc16_records {b : ByteBuffer} {pre rest : List UInt8} {pos : ℕ}
    (h : b.Over (pre ++ rest) pos) (hlen : (pre ++ rest).length < 2 ^ 31) :
    ∃ b', crc16 b pre.length (if (rest.length : ℤ) > 0xFFFF then 0xFFFF else rest.length) =
        .ok (crcOf (rest.take 0xFFFF), b') ∧
      ∃ pos', b'.Over (pre ++ rest) pos' := by
  have hmin : (if (rest.length : ℤ) > 0xFFFF then 0xFFFF else (rest.length : ℤ)) =
      (rest.take 0xFFFF).length := by
    rw [List.length_take]
    split <;> omega
  have hsplit : pre ++ rest = pre ++ rest.take 0xFFFF ++ rest.drop 0xFFFF := by
    rw [List.append_assoc, List.take_append_drop]
  rw [hsplit] at h hlen ⊢
  rw [hmin]
  obtain ⟨b', hcrc, hb'⟩ := crc16_eq h hlen
  exact ⟨b', hcrc, _, hb'⟩

/-! ### Around the second pass -/

/-- The size of a packet whose records have this size. -/
def requestSize (task : EavTask) (ds : ℤ) : ℤ :=
  add32 (packetHeaderSize + bytes task.packetID + bytes (BitVec.ofInt 32 ds)) ds

/-- What is put into a new buffer before the second pass. -/
def writeStart (task : EavTask) (ds : ℤ) (buf : ByteBuffer) : Except Throwable ByteBuffer := do
  let pidLen := bytes task.packetID
  let dsLen := bytes (BitVec.ofInt 32 ds)
  let buf ← buf.putAt 0 (UInt8.ofNat (pidLen ||| dsLen <<< 2))
  let buf ← buf.putAt 3 (UInt8.ofNat task.command.ordinal)
  let buf ← buf.setPosition packetHeaderSize
  let buf ← buf.putFirst (array task.packetID) pidLen
  buf.putFirst (array (BitVec.ofInt 32 ds)) dsLen

/-- What is put into it after the second pass. -/
def writeChecksum (task : EavTask) (ds : ℤ) (buf : ByteBuffer) : Except Throwable ByteBuffer := do
  let pos := packetHeaderSize + bytes task.packetID + bytes (BitVec.ofInt 32 ds)
  let (crc, buf) ← crc16 buf pos (if ds > 0xFFFF then 0xFFFF else ds)
  let buf ← buf.setPosition 1
  buf.putFirst (array (crc.signExtend 32)) 2

/-- `setRequestData` is its two passes, with a new buffer between them. -/
theorem setRequestData_eq_passes (task : EavTask) (es : List EntityL) :
    setRequestData task es = do
      let (ds, list) ← es.foldlM measureEntity (0, [])
      let buf ← ByteBuffer.allocate (requestSize task ds)
      let buf ← writeStart task ds buf
      let (buf, _) ← es.foldlM writeEntity (buf, list)
      let buf ← writeChecksum task ds buf
      return { task with requestData := buf } := by
  simp only [setRequestData, writeStart, writeChecksum, requestSize, bind_assoc]

/-- A packet up to its records of this size, with anything for the checksum. -/
def startWith (task : EavTask) (n : ℕ) (crc : List UInt8) : List UInt8 :=
  .ofNat (bytes task.packetID ||| bytes (BitVec.ofNat 32 n) <<< 2) :: crc ++
    .ofNat task.command.ordinal :: (number task.packetID ++ number (BitVec.ofNat 32 n))

theorem length_startWith (task : EavTask) (n : ℕ) {crc : List UInt8} (hcrc : crc.length = 2) :
    (startWith task n crc).length =
      packetHeaderSize + bytes task.packetID + bytes (BitVec.ofNat 32 n) := by
  simp only [startWith, List.length_append, List.length_cons, length_number, hcrc, packetHeaderSize]
  omega

variable {task : EavTask} {b : ByteBuffer} {crc rest : List UInt8} {pos : ℕ}

/-- The first byte and the fourth one are put, and what comes after them. -/
theorem writeStart_over {n : ℕ} {x₀ x₁ x₂ x₃ : UInt8} {old : List UInt8}
    (h : b.Over (x₀ :: x₁ :: x₂ :: x₃ :: old ++ rest) pos)
    (hold : old.length = bytes task.packetID + bytes (BitVec.ofNat 32 n)) :
    ∃ b', writeStart task n b = .ok b' ∧
      b'.Over (startWith task n [x₁, x₂] ++ rest) (startWith task n [x₁, x₂]).length := by
  obtain ⟨b₁, e₁, h₁⟩ := h.putAt (i := 0) (by simp)
    (.ofNat (bytes task.packetID ||| bytes (BitVec.ofNat 32 n) <<< 2))
  obtain ⟨b₂, e₂, h₂⟩ := h₁.putAt (i := 3) (by simp) (.ofNat task.command.ordinal)
  obtain ⟨b₃, e₃, h₃⟩ := h₂.setPosition (n := packetHeaderSize) (by simp [packetHeaderSize])
  have hfour : b₃.Over ([.ofNat (bytes task.packetID ||| bytes (BitVec.ofNat 32 n) <<< 2), x₁, x₂,
      .ofNat task.command.ordinal] ++ old ++ rest) packetHeaderSize := h₃
  obtain ⟨b₄, e₄, h₄⟩ := hfour.put (number task.packetID ++ number (BitVec.ofNat 32 n)) (by
    rw [List.length_append, length_number, length_number, hold])
  refine ⟨b₄, ?_, ?_⟩
  · rw [Nat.cast_zero] at e₁
    rw [Nat.cast_ofNat] at e₂
    simp only [writeStart, BitVec.ofInt_natCast, e₁, e₂, e₃, ok_bind, putFirst_array]
    rw [ByteBuffer.put_put, e₄]
  · rw [List.length_append, length_number, length_number] at h₄
    rw [length_startWith _ _ rfl, Nat.add_assoc]
    exact h₄

/-- The checksum is put over the second byte and the third one. -/
theorem writeChecksum_over (hcrc : crc.length = 2)
    (h : b.Over (startWith task rest.length crc ++ rest) pos)
    (hlen : (startWith task rest.length crc ++ rest).length < 2 ^ 31) :
    ∃ b', writeChecksum task rest.length b = .ok b' ∧
      b'.array = startWith task rest.length
        (Bytes.littleEndian 2 ((crcOf (rest.take 0xFFFF)).signExtend 32).toNat) ++ rest := by
  obtain ⟨b₁, e₁, pos', h₁⟩ := crc16_records h hlen
  obtain ⟨b₂, e₂, h₂⟩ := h₁.setPosition (n := 1) (by simp [startWith])
  have hfirst : b₂.Over (
      [.ofNat (bytes task.packetID ||| bytes (BitVec.ofNat 32 rest.length) <<< 2)] ++
      crc ++ (.ofNat task.command.ordinal :: (number task.packetID ++
        number (BitVec.ofNat 32 rest.length)) ++ rest)) 1 := by
    simpa only [startWith, List.append_assoc, List.cons_append, List.nil_append] using h₂
  obtain ⟨b₃, e₃, h₃⟩ := hfirst.put
    (Bytes.littleEndian 2 ((crcOf (rest.take 0xFFFF)).signExtend 32).toNat)
    ((Bytes.length_littleEndian _ _).trans hcrc.symm)
  have hput : ∀ v, b₂.putFirst (array v) 2 = b₂.put (Bytes.littleEndian 2 v.toNat) := by
    intro v
    rw [ByteBuffer.putFirst, array_eq, Bytes.length_littleEndian, if_pos (by decide),
      Bytes.take_littleEndian (by decide)]
  refine ⟨b₃, ?_, ?_⟩
  · rw [length_startWith _ _ hcrc] at e₁
    rw [Nat.cast_one] at e₂
    simp only [writeChecksum, BitVec.ofInt_natCast, e₁, e₂, ok_bind, hput, e₃]
  · simp only [h₃.array_eq, startWith, List.append_assoc, List.cons_append, List.nil_append]

/-- An array with room for the header of a packet, and for its records. -/
theorem exists_room {init : List UInt8} {m n : ℕ} (h : init.length = packetHeaderSize + m + n) :
    ∃ x₀ x₁ x₂ x₃ old room, init = x₀ :: x₁ :: x₂ :: x₃ :: old ++ room ∧
      old.length = m ∧ room.length = n := by
  rcases init with _ | ⟨x₀, _ | ⟨x₁, _ | ⟨x₂, _ | ⟨x₃, tail⟩⟩⟩⟩
  all_goals simp only [List.length_cons, List.length_nil, packetHeaderSize] at h
  · omega
  · omega
  · omega
  · omega
  · refine ⟨x₀, x₁, x₂, x₃, tail.take m, tail.drop m, ?_, ?_, ?_⟩
    · simp
    · rw [List.length_take]
      omega
    · rw [List.length_drop]
      omega

/-- **A buffer of the size of the packet is filled in, whatever it holds.** -/
theorem fill_eq {es : List EntityL} {bbs : List ByteBuffer} {init : List UInt8}
    (hdata : bbs.map ByteBuffer.array =
      es.flatMap fun e => e.attributes.flatMap fun a => [payload a.value])
    (hlen : (packet task es).length < 2 ^ 31) (hinit : init.length = (packet task es).length) :
    ∃ b₁ b₂ b₃ : ByteBuffer,
      writeStart task (body es).length (.wrap init) = .ok b₁ ∧
      es.foldlM writeEntity (b₁, bbs) = .ok (b₂, []) ∧
      writeChecksum task (body es).length b₂ = .ok b₃ ∧
      b₁.position = (packetStart task es).length ∧
      (∃ start : List UInt8, start.length = (packetStart task es).length ∧
        b₂.Over (start ++ body es) (packet task es).length) ∧
      b₃.array = packet task es := by
  have hstart := length_packetStart task es
  have htotal : (packet task es).length = (packetStart task es).length + (body es).length :=
    List.length_append
  obtain ⟨x₀, x₁, x₂, x₃, old, room, rfl, hold, hroom⟩ := @exists_room init
    (bytes task.packetID + bytes (BitVec.ofNat 32 (body es).length)) (body es).length (by omega)
  obtain ⟨b₁, e₁, h₁⟩ := writeStart_over (ByteBuffer.over_wrap _) hold
  have hpre : (startWith task (body es).length [x₁, x₂]).length = (packetStart task es).length :=
    (length_startWith _ _ rfl).trans hstart.symm
  have hwhole : (startWith task (body es).length [x₁, x₂] ++ body es).length =
      (packet task es).length := by
    rw [List.length_append, hpre, htotal]
  -- the second pass puts its bytes for all that comes after the header
  rw [← List.append_nil (_ ++ room)] at h₁
  obtain ⟨b₂, e₂, h₂⟩ := h₁.put (body es) hroom.symm
  rw [List.append_nil, ← List.length_append, hwhole] at h₂
  obtain ⟨b₃, e₃, harray⟩ := writeChecksum_over rfl h₂ (by rwa [hwhole])
  refine ⟨b₁, b₂, b₃, e₁, ?_, e₃, ?_, ⟨_, hpre, h₂⟩, harray⟩
  · rw [foldlM_writeEntity hdata (by omega), e₂, ok_bind]
  · rw [h₁.position_eq, hpre]

theorem requestSize_eq {es : List EntityL}
    (hlen : (packet task es).length < 2 ^ 31) :
    requestSize task (body es).length = (packet task es).length := by
  have hstart := length_packetStart task es
  have htotal : (packet task es).length = (packetStart task es).length + (body es).length :=
    List.length_append
  rw [requestSize, BitVec.ofInt_natCast]
  exact add32_eq (by omega) hlen

/-- **The packet of a task, if it is shorter than `2 ^ 31` bytes.** -/
theorem setRequestData_eq {task : EavTask} {es : List EntityL}
    (hes : ∀ e ∈ es, ∀ a ∈ e.attributes, Storable a.value)
    (hlen : (packet task es).length < 2 ^ 31) :
    ∃ b : ByteBuffer, setRequestData task es = .ok { task with requestData := b } ∧
      b.array = packet task es := by
  have hle : (body es).length < 2 ^ 31 := by
    rw [packet, List.length_append] at hlen
    omega
  -- the two passes over the entities: their sizes, and their bytes
  obtain ⟨bbs, hdata, hmeasure⟩ := foldlM_measureEntity hes hle
  obtain ⟨b₁, b₂, b₃, hstart, hwrite, hchecksum, -, -, harray⟩ :=
    fill_eq hdata hlen (List.length_replicate (a := (0 : UInt8)))
  refine ⟨b₃, ?_, harray⟩
  simp only [setRequestData_eq_passes, hmeasure, ok_bind, requestSize_eq hlen,
    ByteBuffer.allocate_eq, hstart, hwrite, hchecksum]
  rfl

end Client
end PeeledOrange
