import PeeledOrange.Client.Frame

/-!
# Packets are read back

What `setRequestData` has made of entities, `createFromArray` makes the same entities
of, with maps instead of lists.

The record loop stops where there is no room for one more byte, and adds 1 to its
position to find out.  At the end of a packet of `2 ^ 31 - 1` bytes, the longest an
array can be, the sum is no `int`, and the loop reads on.

## Main definitions

* `Issued` — the packet IDs that are drawn.
* `RoundTrips` — the packet of a task is read back.

## Main results

* `roundTrips` — **a packet is read back if it is shorter than `2 ^ 31 - 1` bytes.**
* `not_roundTrips_of_longest` — a packet of `2 ^ 31 - 1` bytes is not.
-/

namespace PeeledOrange
namespace Client

open Java

variable {utf8 : Charset}

/-! ### Packet IDs -/

/-- A packet ID that some task has drawn. -/
def Issued (packetID : BitVec 32) : Prop := ∃ n, packetID = (getIncrementID (drawn n)).1

theorem toNat_add_one {ID : BitVec 32} (h : ID.toNat ≤ 0xFFFF) : (ID + 1).toNat = ID.toNat + 1 := by
  rw [BitVec.toNat_add]
  exact Nat.mod_eq_of_lt (by simp; omega)

/-- A draw gives the counter, or 1 if the counter has come to 0xFFFF. -/
theorem toNat_getIncrementID {ID : BitVec 32} (h : ID.toNat ≤ 0xFFFF) :
    (getIncrementID ID).1.toNat = if ID.toNat = 0xFFFF then 1 else ID.toNat := by
  have hint : (ID + 1).toInt = ID.toNat + 1 := by
    rw [BitVec.toInt_eq_toNat_cond, toNat_add_one h, if_pos (by omega), Nat.cast_add, Nat.cast_one]
  rw [getIncrementID, hint]
  by_cases hlast : ID.toNat = 0xFFFF
  · rw [if_pos (by omega), if_pos hlast]
    rfl
  · rw [if_neg (by omega), if_neg hlast]

/-- What a draw gives, and what it leaves for the next one. -/
theorem getIncrementID_le {ID : BitVec 32} (h : ID.toNat ≤ 0xFFFF) :
    (getIncrementID ID).1.toNat ≤ 0xFFFE ∧ (getIncrementID ID).2.toNat ≤ 0xFFFF := by
  have hfirst : (getIncrementID ID).1.toNat ≤ 0xFFFE := by
    rw [toNat_getIncrementID h]
    split <;> omega
  have hsecond : (getIncrementID ID).2.toNat = (getIncrementID ID).1.toNat + 1 :=
    toNat_add_one (hfirst.trans (by decide))
  exact ⟨hfirst, by omega⟩

theorem drawn_le (n : ℕ) : (drawn n).toNat ≤ 0xFFFF := by
  induction n with
  | zero => decide
  | succ n ih => exact (getIncrementID_le ih).2

theorem Issued.bytes_le {packetID : BitVec 32} (h : Issued packetID) : bytes packetID ≤ 3 := by
  obtain ⟨n, rfl⟩ := h
  have hle := (getIncrementID_le (drawn_le n)).1
  rw [bytes_le_iff _ (by decide)]
  omega

/-! ### The header -/

/-- What is in the first byte of a packet. -/
theorem head_bits {p d : ℕ} (hp : p ≤ 3) (hd : d ≤ 4) :
    (UInt8.ofNat (p ||| d <<< 2) &&& 0x03).toNat = p ∧
      ((UInt8.ofNat (p ||| d <<< 2) &&& 0x1C) >>> 2).toNat = d := by
  have hall : ∀ p ≤ 3, ∀ d ≤ 4, (UInt8.ofNat (p ||| d <<< 2) &&& 0x03).toNat = p ∧
      ((UInt8.ofNat (p ||| d <<< 2) &&& 0x1C) >>> 2).toNat = d := by
    decide
  exact hall p hp d hd

theorem ofNat_signExtend (c : BitVec 16) : BitVec.ofNat 16 (c.signExtend 32).toNat = c := by
  rw [BitVec.ofNat_toNat]
  ext i hi
  have hlt : i < 32 := by omega
  simp [BitVec.getElem_signExtend, hi, hlt]

theorem getElem_values_ordinal (cmd : Commands) :
    Commands.values[(UInt8.ofNat cmd.ordinal).toNat]? = some cmd := by
  cases cmd <;> rfl

theorem readInt_number (v : BitVec 32) : readInt (number v) = v := by
  rw [readInt_eq (by rw [length_number]; exact bytes_le v), number,
    Bytes.toNat_littleEndian_of_lt (lt_bytes v), BitVec.ofNat_toNat, BitVec.setWidth_eq]

/-- The packet of a task, by its fields. -/
def packetFrame (task : EavTask) (es : List EntityL) (hid : bytes task.packetID ≤ 3) : Frame where
  head := packetHead task es
  crc := checksum es
  cmd := .ofNat task.command.ordinal
  packetID := number task.packetID
  size := number (BitVec.ofNat 32 (body es).length)
  rest := body es
  length_crc := length_checksum es
  length_packetID := by
    rw [length_number, packetHead, pidWidth, (head_bits hid (bytes_le _)).1]
  length_size := by
    rw [length_number, packetHead, dsWidth, (head_bits hid (bytes_le _)).2]

/-- What is made of the packet of a task, with these entities. -/
def obtained (task : EavTask) (ID : BitVec 32) (es : List EntityM) : EavTask :=
  { (EavTask.new (some "FromArray") ID).1 with
    command := task.command
    entities := es
    packetID := task.packetID
    status := .obtained }

section PacketFrame

variable {task : EavTask} {es : List EntityL} (hid : bytes task.packetID ≤ 3)

theorem length_body_lt (hlen : (packet task es).length < 2 ^ 31) : (body es).length < 2 ^ 31 := by
  rw [packet, List.length_append] at hlen
  omega

theorem ds_packetFrame (hlen : (packet task es).length < 2 ^ 31) :
    (packetFrame task es hid).ds = (body es).length := by
  rw [Frame.ds, packetFrame, readInt_number, toInt_ofNat (length_body_lt hlen)]

theorem covered_packetFrame (hlen : (packet task es).length < 2 ^ 31) :
    (packetFrame task es hid).covered = min 0xFFFF (body es).length := by
  rw [Frame.covered, ds_packetFrame hid hlen]
  split <;> omega

theorem crc1_packetFrame :
    (packetFrame task es hid).crc1 = crcOf ((body es).take 0xFFFF) := by
  rw [Frame.crc1]
  show BitVec.ofNat 16 (Bytes.toNat (checksum es)) = _
  rw [checksum, Bytes.toNat_littleEndian, ← BitVec.toNat_inj, BitVec.toNat_ofNat,
    show 256 ^ 2 = 2 ^ 16 from rfl, Nat.mod_mod, ← BitVec.toNat_ofNat, ofNat_signExtend]

/-- The checksum is that of the bytes that it covers. -/
theorem accepted_packetFrame (hlen : (packet task es).length < 2 ^ 31) :
    (packetFrame task es hid).Accepted := by
  refine ⟨?_, ?_⟩
  · rw [covered_packetFrame hid hlen]
    exact Nat.min_le_right _ _
  · rw [crc1_packetFrame, Frame.crc2, covered_packetFrame hid hlen]
    show _ = crcOf ((body es).take (min 0xFFFF (body es).length))
    rw [← List.take_eq_take_min]

/-- The end that the size says is that of the packet. -/
theorem size_packetFrame (hlen : (packet task es).length < 2 ^ 31) :
    add32 (packetFrame task es hid).start.length (packetFrame task es hid).ds =
      (packet task es).length := by
  rw [ds_packetFrame hid hlen]
  exact add32_eq (by rw [packet, List.length_append]; exact (Nat.cast_add _ _).symm) hlen

theorem task_packetFrame (es : List EntityL) (hid : bytes task.packetID ≤ 3) (ID : BitVec 32)
    (read : List EntityM) :
    (packetFrame task es hid).task task.command ID read = obtained task ID read := by
  rw [Frame.task, obtained, packetFrame, readInt_number]

/-- Every record starts before the end of the records. -/
theorem length_flatMap_lt {l l' : List Record} {r : Record} (hl : records es = l ++ r :: l') :
    (l.flatMap Record.encode).length < (body es).length := by
  have hpos := List.length_pos_iff.mpr r.encode_ne_nil
  rw [← flatMap_encode_records, hl, List.flatMap_append, List.flatMap_cons]
  simp only [List.length_append]
  omega

theorem length_start_lt (task : EavTask) {l l' : List Record} {r : Record}
    (hl : records es = l ++ r :: l') :
    (packetStart task es ++ l.flatMap Record.encode).length < (packet task es).length := by
  have hlt := length_flatMap_lt hl
  rw [packet, List.length_append, List.length_append]
  omega

end PacketFrame

/-! ### The whole packet -/

/-- The record loop is left with what is made of the entities that have been sent. -/
theorem createFromArray_packet {task : EavTask} {es : List EntityL} (hid : Issued task.packetID)
    (hes : ∀ e ∈ es, ∀ a ∈ e.attributes, Readable utf8 a.value)
    (hlen : (packet task es).length < 2 ^ 31) (ID : BitVec 32) :
    ∃ buf, Holds buf (packet task es) ∧ ∀ fuel,
      (createFromArray utf8 (fuel + turns es) ID (.wrap (packet task es))).1 =
        (parseLoop utf8 (packet task es).length fuel
          ⟨es.map (EntityL.received utf8), (packet task es).length, buf⟩).map fun r =>
            r.map fun st => obtained task ID st.entities := by
  have hsize := size_packetFrame hid.bytes_le hlen
  have hrest : body es = (records es).flatMap Record.encode ++ [] := by
    rw [List.append_nil, flatMap_encode_records]
  obtain ⟨buf, hbuf, hread⟩ := Frame.createFromArray_records (f := packetFrame task es hid.bytes_le)
    hlen (getElem_values_ordinal task.command) (accepted_packetFrame hid.bytes_le hlen)
    (readable_records hes)
    head?_records hrest (fun l r l' hl => by
      rw [hsize]
      exact Nat.cast_lt.mpr (length_start_lt task hl))
  refine ⟨buf, hbuf.holds, fun fuel => ?_⟩
  have hend : ((packetFrame task es hid.bytes_le).start ++
      (records es).flatMap Record.encode).length = (packet task es).length := by
    rw [flatMap_encode_records]
    rfl
  have hread' := hread fuel ID
  rw [hsize, hend, length_records, foldl_add_records, List.nil_append] at hread'
  simp only [task_packetFrame] at hread'
  exact hread'

/-- A packet that is shorter than `2 ^ 31 - 1` bytes is read to its end. -/
theorem createFromArray_eq {task : EavTask} {es : List EntityL} (hid : Issued task.packetID)
    (hes : ∀ e ∈ es, ∀ a ∈ e.attributes, Readable utf8 a.value)
    (hlen : (packet task es).length < 2 ^ 31 - 1) (ID : BitVec 32) {fuel : ℕ}
    (hfuel : turns es + 1 ≤ fuel) :
    (createFromArray utf8 fuel ID (.wrap (packet task es))).1 =
      some (.ok (obtained task ID (es.map (EntityL.received utf8)))) := by
  have hint : (packet task es).length < 2 ^ 31 := by omega
  have hds := ds_packetFrame hid.bytes_le hint
  rw [← length_records] at hfuel
  have hrest : body es = (records es).flatMap Record.encode ++ [] := by
    rw [List.append_nil, flatMap_encode_records]
  have hstarts : ∀ l r l', records es = l ++ r :: l' →
      ((l.flatMap Record.encode).length : ℤ) < (packetFrame task es hid.bytes_le).ds := by
    intro l r l' hl
    rw [hds]
    exact Nat.cast_lt.mpr (length_flatMap_lt hl)
  have hread := Frame.createFromArray_until (f := packetFrame task es hid.bytes_le) hlen
    (getElem_values_ordinal task.command) (accepted_packetFrame hid.bytes_le hint)
    (readable_records hes) head?_records hrest hstarts
    (by rw [hds, flatMap_encode_records]) hfuel ID
  rw [foldl_add_records, List.nil_append, task_packetFrame] at hread
  exact hread

/-- After a packet of `2 ^ 31 - 1` bytes, the loop reads a byte that is not there. -/
theorem parseLoop_longest {data : List UInt8} (hlen : data.length = 2 ^ 31 - 1) {buf : ByteBuffer}
    (hbuf : Holds buf data) (es : List EntityM) (fuel : ℕ) :
    parseLoop utf8 data.length (fuel + 1) ⟨es, data.length, buf⟩ =
      some (.error .indexOutOfBounds) := by
  obtain ⟨pos, hover⟩ := hbuf
  -- the sum is negative
  have hwrap : add32 data.length eavHeaderSize ≤ data.length := by
    rw [hlen, add32, wrap32, eavHeaderSize]
    decide
  have hget : buf.get data.length = .error .indexOutOfBounds := by
    rw [ByteBuffer.get, if_neg]
    rw [hover.limit_eq]
    omega
  rw [parseLoop, if_pos hwrap, parseRecord]
  simp only [hget, error_bind]

/-- A packet of `2 ^ 31 - 1` bytes is not read to its end. -/
theorem createFromArray_longest {task : EavTask} {es : List EntityL} (hid : Issued task.packetID)
    (hes : ∀ e ∈ es, ∀ a ∈ e.attributes, Readable utf8 a.value)
    (hlen : (packet task es).length = 2 ^ 31 - 1) (ID : BitVec 32) (fuel : ℕ) :
    (createFromArray utf8 (fuel + 1 + turns es) ID (.wrap (packet task es))).1 =
      some (.error .indexOutOfBounds) := by
  obtain ⟨buf, hbuf, hread⟩ := createFromArray_packet hid hes (by omega) ID
  rw [hread, parseLoop_longest hlen hbuf]
  rfl

/-- What comes back is what has been sent. -/
theorem map_received {es : List EntityL}
    (hes : ∀ e ∈ es, ∀ a ∈ e.attributes, Sendable utf8 a.value) :
    es.map (EntityL.received utf8) = es.map EntityM.createFrom :=
  List.map_congr_left fun e he => EntityL.received_eq (hes e he)

/-- The packet of a task is made, and a task is made of it: it has the same command, the
same packet ID and, with maps, the same entities. -/
def RoundTrips (utf8 : Charset) (task : EavTask) (es : List EntityL) : Prop :=
  ∃ sent, setRequestData task es = .ok sent ∧
    ∀ ID, ∃ least, ∀ fuel ≥ least, ∃ got,
      (createFromArray utf8 fuel ID (.wrap sent.requestData.array)).1 = some (.ok got) ∧
        got.command = task.command ∧ got.packetID = task.packetID ∧
        got.entities = es.map EntityM.createFrom

/-- **A packet is read back if it is shorter than `2 ^ 31 - 1` bytes.** -/
theorem roundTrips {task : EavTask} {es : List EntityL} (hid : Issued task.packetID)
    (hes : ∀ e ∈ es, ∀ a ∈ e.attributes, Sendable utf8 a.value)
    (hlen : (packet task es).length < 2 ^ 31 - 1) : RoundTrips utf8 task es := by
  have hint : (packet task es).length < 2 ^ 31 := by omega
  obtain ⟨buf, hsent, harray⟩ := setRequestData_eq (fun e he a ha => (hes e he a ha).storable) hint
  refine ⟨_, hsent, fun ID => ⟨turns es + 1, fun fuel hfuel =>
    ⟨obtained task ID (es.map EntityM.createFrom), ?_, rfl, rfl, rfl⟩⟩⟩
  simp only [harray]
  rw [createFromArray_eq hid (fun e he a ha => (hes e he a ha).readable) hlen ID hfuel,
    map_received hes]

/-- A packet of `2 ^ 31 - 1` bytes is not read back. -/
theorem not_roundTrips_of_longest {task : EavTask} {es : List EntityL} (hid : Issued task.packetID)
    (hes : ∀ e ∈ es, ∀ a ∈ e.attributes, Sendable utf8 a.value)
    (hlen : (packet task es).length = 2 ^ 31 - 1) : ¬RoundTrips utf8 task es := by
  have hint : (packet task es).length < 2 ^ 31 := by omega
  rintro ⟨sent, hset, hall⟩
  obtain ⟨buf, hsent, harray⟩ :=
    setRequestData_eq (fun e he a ha => (hes e he a ha).storable) hint
  obtain rfl := Except.ok.inj (hsent.symm.trans hset)
  obtain ⟨least, hleast⟩ := hall 1
  obtain ⟨got, hgot, -⟩ := hleast (least + 1 + turns es) (by omega)
  simp only [harray] at hgot
  rw [createFromArray_longest hid (fun e he a ha => (hes e he a ha).readable) hlen] at hgot
  exact nomatch hgot

/-! ### Examples -/

/-- A task with a packet ID of its own. -/
def sampleTask : EavTask := { (EavTask.new none (drawn 0)).1 with command := .writeAttribute }

/-- An entity with values of all types, and an attribute that is given twice. -/
def sampleEntities : List EntityL :=
  [⟨-1, 2, [⟨0, 1000, setValue .utf8 (.string "ab")⟩, ⟨0, 1000, setValue .utf8 (.byte (-1))⟩,
    ⟨7, 300, setValue .utf8 (.short 256)⟩, ⟨8, -5, setValue .utf8 (.integer 0)⟩,
    ⟨9, 70000, setValue .utf8 (.long (-2))⟩,
    ⟨10, 1, setValue .utf8 (.byteBuffer (.wrap [1, 2, 3]))⟩]⟩, ⟨0, 0, []⟩]

theorem sendable_sampleEntities :
    ∀ e ∈ sampleEntities, ∀ a ∈ e.attributes, Sendable .utf8 a.value := by
  intro e he a ha
  simp only [sampleEntities, List.mem_cons, List.not_mem_nil, or_false] at he
  rcases he with rfl | rfl
  · simp only [List.mem_cons, List.not_mem_nil, or_false] at ha
    rcases ha with rfl | rfl | rfl | rfl | rfl | rfl
    · exact .string _
    · exact .byte _
    · exact .short _
    · exact .integer _
    · exact .long _
    · exact .byteBuffer _ (ByteBuffer.over_wrap _)
  · exact nomatch ha

theorem roundTrips_sample : RoundTrips .utf8 sampleTask sampleEntities :=
  roundTrips ⟨0, rfl⟩ sendable_sampleEntities (by decide +kernel)

/-- An entity with an attribute of `n` zeros. -/
def zeros (n : ℕ) : List EntityL :=
  [⟨0, 0, [⟨0, 0, setValue .utf8 (.byteBuffer (.wrap (List.replicate n 0)))⟩]⟩]

theorem sendable_zeros (n : ℕ) : ∀ e ∈ zeros n, ∀ a ∈ e.attributes, Sendable .utf8 a.value := by
  intro e he a ha
  obtain rfl := List.mem_singleton.mp he
  obtain rfl := List.mem_singleton.mp ha
  exact .byteBuffer _ (ByteBuffer.over_wrap _)

theorem bytes_ofNat_eq_four {n : ℕ} (h : 2 ^ 24 ≤ n) (h' : n < 2 ^ 31) :
    bytes (BitVec.ofNat 32 n) = 4 := by
  have hle := bytes_le (BitVec.ofNat 32 n)
  have hiff := bytes_le_iff (BitVec.ofNat 32 n) (n := 3) (by decide)
  rw [BitVec.toNat_ofNat, Nat.mod_eq_of_lt (by omega)] at hiff
  omega

theorem length_body_zeros {n : ℕ} (h : ¬n < 256) :
    (body (zeros n)).length = n + 4 + bytes (BitVec.ofNat 32 n) := by
  have hpayload : payload (setValue .utf8 (.byteBuffer (.wrap (List.replicate n 0)))) =
      List.replicate n 0 := rfl
  have hzero : bytes 0 = 0 := by decide
  rw [zeros, body, List.flatMap_singleton, entityBytes, List.flatMap_singleton, attributeBytes]
  simp only [List.length_append, List.length_cons, length_recordStart, hzero, hpayload,
    List.length_replicate, length_lengthField h]
  omega

theorem length_packet_zeros {n : ℕ} (h : 2 ^ 24 ≤ n) (h' : n < 2 ^ 31 - 8) :
    (packet sampleTask (zeros n)).length = n + 17 := by
  have hid : bytes sampleTask.packetID = 1 := by decide
  rw [packet, List.length_append, length_packetStart, length_body_zeros (by omega), hid,
    bytes_ofNat_eq_four h (by omega), bytes_ofNat_eq_four (by omega) (by omega), packetHeaderSize]
  omega

/-- The packet of one attribute can have `2 ^ 31 - 1` bytes. -/
theorem longest_not_roundTrips :
    Issued sampleTask.packetID ∧
    (∀ e ∈ zeros 2147483630, ∀ a ∈ e.attributes, Sendable .utf8 a.value) ∧
      (packet sampleTask (zeros 2147483630)).length < 2 ^ 31 ∧
      ¬RoundTrips .utf8 sampleTask (zeros 2147483630) := by
  have hlen := length_packet_zeros (show 2 ^ 24 ≤ 2147483630 by decide) (by decide)
  have hsend := sendable_zeros 2147483630
  refine ⟨⟨0, rfl⟩, hsend, ?_, not_roundTrips_of_longest ⟨0, rfl⟩ hsend ?_⟩
  · rw [hlen]
    decide
  · rw [hlen]
    decide

end Client
end PeeledOrange
