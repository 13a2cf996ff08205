import PeeledOrange.Client.RoundTrip
import PeeledOrange.Client.Sent

/-!
# The wire format is unambiguous

Every field of a packet either has a fixed width, or its width is in a field before it,
and the widths are those of the numbers themselves.  So the bytes of a packet determine
what it was made of, even where the map of an entity does not keep it, and no packet is
the start of another one.

## Main definitions

* `Attribute.content`, `EntityL.content` — what is sent of an attribute and an entity.

## Main results

* `Record.encode_append_inj` — **a record is determined by bytes it is the start of.**
* `not_prefix_of_content_ne` — **packets of different content differ, and neither is the
  start of the other.**
-/

namespace PeeledOrange
namespace Client

open Java

variable {utf8 : Charset}

/-! ### What is sent -/

/-- What is sent of an attribute: a value is its type and its bytes. -/
def Attribute.content (a : Attribute) : BitVec 32 × BitVec 32 × ValueType × List UInt8 :=
  (a.num, a.type, a.value.valueType, a.value.value.array)

/-- What is sent of an entity. -/
def EntityL.content (e : EntityL) :
    BitVec 32 × BitVec 32 × List (BitVec 32 × BitVec 32 × ValueType × List UInt8) :=
  (e.num, e.type, e.attributes.map Attribute.content)

/-! ### Numbers and values -/

theorem number_append_inj {v v' : BitVec 32} {x x' : List UInt8} (hlen : bytes v = bytes v')
    (h : number v ++ x = number v' ++ x') : v = v' ∧ x = x' := by
  obtain ⟨hnum, hx⟩ := List.append_inj h (by rw [length_number, length_number, hlen])
  refine ⟨?_, hx⟩
  have hnat := congrArg Bytes.toNat hnum
  rw [number, number, Bytes.toNat_littleEndian_of_lt (lt_bytes v),
    Bytes.toNat_littleEndian_of_lt (lt_bytes v')] at hnat
  exact BitVec.eq_of_toNat_eq hnat

/-- A number that is stored in a buffer is determined by its bytes. -/
theorem payload_number_inj {vt : ValueType} {n v v' : ℕ}
    (hvt : vt.ordinal < ValueType.f4.ordinal) (hv : v < 256 ^ (n + 1)) (hv' : v' < 256 ^ (n + 1))
    (h : payload ⟨vt, .wrap (Bytes.bigEndian (n + 1) v)⟩ =
      payload ⟨vt, .wrap (Bytes.bigEndian (n + 1) v')⟩) : v = v' := by
  rw [← (payload_number hvt hv).2, ← (payload_number hvt hv').2, h]

/-- The array of a number of a type of this width. -/
def ValueType.width : ValueType → ℕ
  | i8 => 1
  | i16 => 2
  | i32 => 4
  | i64 => 8
  | f4 | f8 | s | b => 0

/-- A number is stored in as many bytes as its type has. -/
theorem exists_bigEndian (v : Value)
    (h : (setValue utf8 v).valueType.ordinal < ValueType.f4.ordinal) :
    ∃ n m, (setValue utf8 v).valueType.width = n + 1 ∧ m < 256 ^ (n + 1) ∧
      (setValue utf8 v).value = .wrap (Bytes.bigEndian (n + 1) m) := by
  cases v with
  | byte v => exact ⟨0, v.toNat, rfl, v.isLt, rfl⟩
  | short v => exact ⟨1, v.toNat, rfl, v.isLt, rfl⟩
  | integer v => exact ⟨3, v.toNat, rfl, v.isLt, rfl⟩
  | long v => exact ⟨7, v.toNat, rfl, v.isLt, rfl⟩
  | double v => exact ⟨3, 0, rfl, by decide, rfl⟩
  | float v => exact absurd h (Nat.lt_irrefl 4)
  | string v => exact absurd h (Nat.not_lt.mpr (show 4 ≤ 6 by decide))
  | byteBuffer v => exact absurd h (Nat.not_lt.mpr (show 4 ≤ 7 by decide))

/-- A value is determined by its type and the bytes that are sent of it. -/
theorem payload_inj {v v' : Value}
    (hvt : (setValue utf8 v).valueType = (setValue utf8 v').valueType)
    (h : payload (setValue utf8 v) = payload (setValue utf8 v')) :
    (setValue utf8 v).value.array = (setValue utf8 v').value.array := by
  by_cases hnum : (setValue utf8 v).valueType.ordinal < ValueType.f4.ordinal
  · obtain ⟨n, m, hn, hm, hvalue⟩ := exists_bigEndian v hnum
    obtain ⟨n', m', hn', hm', hvalue'⟩ := exists_bigEndian v' (hvt ▸ hnum)
    obtain rfl : n = n' := Nat.succ.inj (hn.symm.trans ((congrArg _ hvt).trans hn'))
    generalize setValue utf8 v = av at *
    generalize setValue utf8 v' = av' at *
    obtain ⟨vt, value⟩ := av
    obtain ⟨vt', value'⟩ := av'
    simp only at hvt hvalue hvalue' hnum ⊢
    subst hvt hvalue hvalue'
    rw [payload_number_inj hnum hm hm' h]
  · rwa [payload, if_neg hnum, payload, if_neg (hvt ▸ hnum)] at h

/-! ### Records -/

/-- The length of a value is determined by the bytes it is put as. -/
theorem lengthField_append_inj {len len' : ℕ} {x x' : List UInt8} (hlen : len < 2 ^ 31)
    (hlen' : len' < 2 ^ 31) (hflags : attributeFlags len = attributeFlags len')
    (h : lengthField len ++ x = lengthField len' ++ x') : len = len' ∧ x = x' := by
  have hshort : len < 256 ↔ len' < 256 := by
    rw [attributeFlags, attributeFlags] at hflags
    split at hflags <;> split at hflags <;> first | omega | exact absurd hflags (by decide)
  by_cases hlt : len < 256
  · rw [lengthField, if_pos hlt, lengthField, if_pos (hshort.mp hlt)] at h
    obtain ⟨hbyte, hx⟩ := List.cons.inj h
    have hnat := congrArg UInt8.toNat hbyte
    rw [UInt8.toNat_ofNat', UInt8.toNat_ofNat'] at hnat
    exact ⟨by omega, hx⟩
  · rw [lengthField, if_neg hlt, lengthField, if_neg (hshort.not.mp hlt)] at h
    obtain ⟨hbyte, hnumber⟩ := List.cons.inj h
    have hwidth : bytes (BitVec.ofNat 32 len) = bytes (BitVec.ofNat 32 len') := by
      have hnat := congrArg UInt8.toNat hbyte
      have hle := bytes_le (BitVec.ofNat 32 len)
      have hle' := bytes_le (BitVec.ofNat 32 len')
      rw [UInt8.toNat_ofNat', UInt8.toNat_ofNat'] at hnat
      omega
    obtain ⟨heq, hx⟩ := number_append_inj hwidth hnumber
    have hnat := congrArg BitVec.toNat heq
    rw [BitVec.toNat_ofNat, BitVec.toNat_ofNat] at hnat
    exact ⟨by omega, hx⟩

/-- The start of a record is determined by bytes it is the start of. -/
theorem recordStart_append_inj {num type num' type' : BitVec 32} {flags flags' : ℕ}
    {x x' : List UInt8} (hflags : flags ∈ [0, 1 <<< 6, 1 <<< 6 ||| 1 <<< 7])
    (hflags' : flags' ∈ [0, 1 <<< 6, 1 <<< 6 ||| 1 <<< 7])
    (h : recordStart num type flags ++ x = recordStart num' type' flags' ++ x') :
    num = num' ∧ type = type' ∧ flags = flags' ∧ x = x' := by
  simp only [recordStart, List.cons_append, List.append_assoc] at h
  obtain ⟨hhead, hrest⟩ := List.cons.inj h
  obtain ⟨hnum, htype, hattr, hone⟩ := recordHead_bits num type hflags
  obtain ⟨hnum', htype', hattr', hone'⟩ := recordHead_bits num' type' hflags'
  rw [hhead] at hnum htype hattr hone
  obtain ⟨hnumEq, hrest'⟩ := number_append_inj (hnum.symm.trans hnum') hrest
  obtain ⟨htypeEq, hx⟩ := number_append_inj (htype.symm.trans htype') hrest'
  refine ⟨hnumEq, htypeEq, ?_, hx⟩
  -- the two bits tell the three kinds of records apart
  have hzero : flags = 0 ↔ flags' = 0 := hattr.symm.trans hattr'
  have hboth : flags = 1 <<< 6 ||| 1 <<< 7 ↔ flags' = 1 <<< 6 ||| 1 <<< 7 :=
    not_iff_not.mp (hone.symm.trans hone')
  simp only [List.mem_cons, List.not_mem_nil, or_false] at hflags hflags'
  rcases hflags with rfl | rfl | rfl
  · exact (hzero.mp rfl).symm
  · rcases hflags' with rfl | rfl | rfl
    · exact absurd (hzero.mpr rfl) (by decide)
    · rfl
    · exact absurd (hboth.mpr rfl) (by decide)
  · exact (hboth.mp rfl).symm

/-- What is sent of a record. -/
inductive Record.Like : Record → Record → Prop
  | entity (num type : BitVec 32) : Like (.entity num type) (.entity num type)
  | attr {a a' : Attribute} : a.content = a'.content → Like (.attr a) (.attr a')

theorem Record.Like.entity_eq {num type num' type' : BitVec 32}
    (h : Like (.entity num type) (.entity num' type')) : num = num' ∧ type = type' := by
  cases h
  exact ⟨rfl, rfl⟩

/-- The value of an attribute is one that has been made of an object, and is not longer
than an array. -/
def Record.Made (utf8 : Charset) : Record → Prop
  | entity _ _ => True
  | attr a => (∃ v, a.value = setValue utf8 v) ∧ (payload a.value).length < 2 ^ 31

theorem ordinal_inj {vt vt' : ValueType}
    (h : UInt8.ofNat vt.ordinal = UInt8.ofNat vt'.ordinal) : vt = vt' := by
  rw [← getD_values_ordinal vt, h, getD_values_ordinal]

/-- **A record is determined by bytes it is the start of.** -/
theorem Record.encode_append_inj {r r' : Record} (hr : r.Made utf8) (hr' : r'.Made utf8)
    {x x' : List UInt8} (h : r.encode ++ x = r'.encode ++ x') : r.Like r' ∧ x = x' := by
  cases r with
  | entity num type =>
    cases r' with
    | entity num' type' =>
      obtain ⟨rfl, rfl, -, rfl⟩ :=
        recordStart_append_inj List.mem_cons_self List.mem_cons_self h
      exact ⟨.entity _ _, rfl⟩
    | attr a' =>
      -- an entity has no flags, an attribute has
      rw [encode, encode, attributeBytes, List.append_assoc, List.append_assoc] at h
      obtain ⟨-, -, hflags, -⟩ :=
        recordStart_append_inj List.mem_cons_self (attributeFlags_mem _) h
      exact absurd hflags.symm (attributeFlags_ne_zero _)
  | attr a =>
    cases r' with
    | entity num' type' =>
      rw [encode, encode, attributeBytes, List.append_assoc, List.append_assoc] at h
      obtain ⟨-, -, hflags, -⟩ :=
        recordStart_append_inj (attributeFlags_mem _) List.mem_cons_self h
      exact absurd hflags (attributeFlags_ne_zero _)
    | attr a' =>
      -- field by field: the numbers, the value type, the length, the value
      obtain ⟨⟨v, hv⟩, hlen⟩ := hr
      obtain ⟨⟨v', hv'⟩, hlen'⟩ := hr'
      rw [encode, encode, attributeBytes, attributeBytes] at h
      simp only [List.append_assoc, List.cons_append] at h
      obtain ⟨hnum, htype, hflags, h⟩ :=
        recordStart_append_inj (attributeFlags_mem _) (attributeFlags_mem _) h
      obtain ⟨hordinal, h⟩ := List.cons.inj h
      obtain ⟨heq, h⟩ := lengthField_append_inj hlen hlen' hflags h
      obtain ⟨hpayload, hx⟩ := List.append_inj h heq
      have hvt := ordinal_inj hordinal
      refine ⟨.attr ?_, hx⟩
      rw [hv, hv'] at hvt hpayload
      have harray := payload_inj hvt hpayload
      rw [Attribute.content, Attribute.content, hnum, htype, hv, hv', hvt, harray]

/-- Records are determined by all their bytes. -/
theorem like_of_flatMap_encode {rs rs' : List Record} (hrs : ∀ r ∈ rs, r.Made utf8)
    (hrs' : ∀ r ∈ rs', r.Made utf8)
    (h : rs.flatMap Record.encode = rs'.flatMap Record.encode) :
    List.Forall₂ Record.Like rs rs' := by
  induction rs generalizing rs' with
  | nil =>
    cases rs' with
    | nil => exact .nil
    | cons r' rs' => exact absurd h.symm (by simp [List.flatMap_cons, r'.encode_ne_nil])
  | cons r rs ih =>
    cases rs' with
    | nil => exact absurd h (by simp [List.flatMap_cons, r.encode_ne_nil])
    | cons r' rs' =>
      rw [List.flatMap_cons, List.flatMap_cons] at h
      obtain ⟨hlike, hrest⟩ := Record.encode_append_inj (hrs r List.mem_cons_self)
        (hrs' r' List.mem_cons_self) h
      exact .cons hlike (ih (fun x hx => hrs x (List.mem_cons_of_mem _ hx))
        (fun x hx => hrs' x (List.mem_cons_of_mem _ hx)) hrest)

/-- The attributes of an entity end where the next entity begins. -/
theorem content_attributes {as as' : List Attribute} {es es' : List EntityL}
    (h : List.Forall₂ Record.Like (as.map .attr ++ records es) (as'.map .attr ++ records es')) :
    as.map Attribute.content = as'.map Attribute.content ∧
      List.Forall₂ Record.Like (records es) (records es') := by
  induction as generalizing as' with
  | nil =>
    cases as' with
    | nil => exact ⟨rfl, h⟩
    | cons a' as' =>
      cases es with
      | nil => cases h
      | cons e es =>
        cases h with
        | cons hlike _ => cases hlike
  | cons a as ih =>
    cases as' with
    | nil =>
      cases es' with
      | nil => cases h
      | cons e' es' =>
        cases h with
        | cons hlike _ => cases hlike
    | cons a' as' =>
      cases h with
      | cons hlike hrest =>
        obtain ⟨hcontent, hes⟩ := ih hrest
        cases hlike with
        | attr ha => exact ⟨by rw [List.map_cons, List.map_cons, ha, hcontent], hes⟩

/-- Records determine the entities. -/
theorem content_of_records {es es' : List EntityL}
    (h : List.Forall₂ Record.Like (records es) (records es')) :
    es.map EntityL.content = es'.map EntityL.content := by
  induction es generalizing es' with
  | nil =>
    cases es' with
    | nil => rfl
    | cons e' es' => cases h
  | cons e es ih =>
    cases es' with
    | nil => cases h
    | cons e' es' =>
      cases h with
      | cons hlike hrest =>
        obtain ⟨hattributes, hes⟩ := content_attributes hrest
        obtain ⟨hnum, htype⟩ := hlike.entity_eq
        rw [List.map_cons, List.map_cons, ih hes, EntityL.content, EntityL.content, hnum, htype,
          hattributes]

/-! ### Packets -/

theorem ordinal_commands_inj {cmd cmd' : Commands}
    (h : UInt8.ofNat cmd.ordinal = UInt8.ofNat cmd'.ordinal) : cmd = cmd' := by
  have heq := getElem_values_ordinal cmd
  rw [h, getElem_values_ordinal] at heq
  exact (Option.some.inj heq).symm

theorem made_records {es : List EntityL}
    (hes : ∀ e ∈ es, ∀ a ∈ e.attributes, ∃ v, a.value = setValue utf8 v)
    (hlen : (body es).length < 2 ^ 31) : ∀ r ∈ records es, r.Made utf8 := by
  intro r hr
  obtain ⟨e, he, hr⟩ := List.mem_flatMap.mp hr
  rcases List.mem_cons.mp hr with rfl | hr
  · trivial
  · obtain ⟨a, ha, rfl⟩ := List.mem_map.mp hr
    exact ⟨hes e he a ha, Nat.lt_of_le_of_lt (length_payload_le he ha) hlen⟩

/-- A packet is determined by bytes it is the start of. -/
theorem content_eq_of_start {task task' : EavTask} {es es' : List EntityL}
    (hid : bytes task.packetID ≤ 3) (hid' : bytes task'.packetID ≤ 3)
    (hes : ∀ e ∈ es, ∀ a ∈ e.attributes, ∃ v, a.value = setValue utf8 v)
    (hes' : ∀ e ∈ es', ∀ a ∈ e.attributes, ∃ v, a.value = setValue utf8 v)
    (hlen : (packet task es).length < 2 ^ 31) (hlen' : (packet task' es').length < 2 ^ 31)
    (h : packet task es <+: packet task' es') :
    task.packetID = task'.packetID ∧ task.command = task'.command ∧
      es.map EntityL.content = es'.map EntityL.content := by
  obtain ⟨x, h⟩ := h
  have hbody : (body es).length < 2 ^ 31 := by
    rw [packet, List.length_append] at hlen
    omega
  have hbody' : (body es').length < 2 ^ 31 := by
    rw [packet, List.length_append] at hlen'
    omega
  rw [packet, packet, packetStart, packetStart] at h
  simp only [List.cons_append, List.append_assoc] at h
  obtain ⟨hhead, h⟩ := List.cons.inj h
  obtain ⟨-, h⟩ := List.append_inj h (by rw [length_checksum, length_checksum])
  obtain ⟨hcmd, h⟩ := List.cons.inj h
  -- the widths are in the first byte
  obtain ⟨hpid, hds⟩ := head_bits hid (bytes_le (BitVec.ofNat 32 (body es).length))
  obtain ⟨hpid', hds'⟩ := head_bits hid' (bytes_le (BitVec.ofNat 32 (body es').length))
  rw [← packetHead, hhead, packetHead] at hpid hds
  obtain ⟨heqid, h⟩ := number_append_inj (hpid.symm.trans hpid') h
  obtain ⟨heqds, h⟩ := number_append_inj (hds.symm.trans hds') h
  have hlength : (body es).length = (body es').length := by
    have hnat := congrArg BitVec.toNat heqds
    rw [BitVec.toNat_ofNat, BitVec.toNat_ofNat] at hnat
    omega
  obtain ⟨heq, -⟩ := List.append_inj (h.trans (List.append_nil _).symm) hlength
  rw [← flatMap_encode_records, ← flatMap_encode_records] at heq
  exact ⟨heqid, ordinal_commands_inj hcmd,
    content_of_records
      (like_of_flatMap_encode (made_records hes hbody) (made_records hes' hbody') heq)⟩

/-- **The wire format is unambiguous.**  The packets of two inputs that differ in the packet
ID, the command, or what is sent of the entities differ, and neither is the start of the
other. -/
theorem not_prefix_of_content_ne {task task' : EavTask} {es es' : List EntityL}
    {p p' : List UInt8} (hid : Issued task.packetID) (hid' : Issued task'.packetID)
    (hes : ∀ e ∈ es, ∀ a ∈ e.attributes, ∃ v, a.value = setValue utf8 v)
    (hes' : ∀ e ∈ es', ∀ a ∈ e.attributes, ∃ v, a.value = setValue utf8 v)
    (h : Sent task es p) (h' : Sent task' es' p')
    (hne : ¬(task.packetID = task'.packetID ∧ task.command = task'.command ∧
      es.map EntityL.content = es'.map EntityL.content)) :
    p ≠ p' ∧ ¬p <+: p' ∧ ¬p' <+: p := by
  have hlen := h.length_lt
  have hlen' := h'.length_lt
  obtain rfl := h.eq_packet
  obtain rfl := h'.eq_packet
  have hprefix : ¬packet task es <+: packet task' es' := fun hp =>
    hne (content_eq_of_start hid.bytes_le hid'.bytes_le hes hes' hlen hlen' hp)
  refine ⟨fun heq => hprefix (heq ▸ List.prefix_refl _), hprefix, fun hp => ?_⟩
  obtain ⟨hpid, hcmd, hcontent⟩ :=
    content_eq_of_start hid'.bytes_le hid.bytes_le hes' hes hlen' hlen hp
  exact hne ⟨hpid.symm, hcmd.symm, hcontent.symm⟩

/-- An entity with one attribute, twice. -/
def twice : List EntityL :=
  [⟨1, 2, [⟨3, 4, setValue .utf8 (.byte 5)⟩, ⟨3, 4, setValue .utf8 (.byte 5)⟩]⟩]

/-- And once: the map of the entity is the same. -/
def once : List EntityL := [⟨1, 2, [⟨3, 4, setValue .utf8 (.byte 5)⟩]⟩]

theorem not_prefix_once_twice :
    packet sampleTask once ≠ packet sampleTask twice ∧
      ¬packet sampleTask once <+: packet sampleTask twice ∧
      ¬packet sampleTask twice <+: packet sampleTask once := by
  have honce : ∀ e ∈ once, ∀ a ∈ e.attributes, ∃ v, a.value = setValue .utf8 v := by
    intro e he a ha
    obtain rfl := List.mem_singleton.mp he
    obtain rfl := List.mem_singleton.mp ha
    exact ⟨.byte 5, rfl⟩
  have htwice : ∀ e ∈ twice, ∀ a ∈ e.attributes, ∃ v, a.value = setValue .utf8 v := by
    intro e he a ha
    obtain rfl := List.mem_singleton.mp he
    rcases List.mem_cons.mp ha with rfl | ha
    · exact ⟨.byte 5, rfl⟩
    · obtain rfl := List.mem_singleton.mp ha
      exact ⟨.byte 5, rfl⟩
  have hstorable : ∀ {av : AttributeValue}, (∃ v, av = setValue .utf8 v) → Storable av := by
    rintro _ ⟨v, rfl⟩
    exact (Readable.made v).storable
  exact not_prefix_of_content_ne ⟨0, rfl⟩ ⟨0, rfl⟩ honce htwice
    (.of_packet (fun e he a ha => hstorable (honce e he a ha)) (by decide +kernel))
    (.of_packet (fun e he a ha => hstorable (htwice e he a ha)) (by decide +kernel))
    (fun h => absurd (congrArg (List.map fun c => c.2.2.length) h.2.2) (by decide))

end Client
end PeeledOrange
