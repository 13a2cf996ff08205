import PeeledOrange.Client.RoundTrip
import PeeledOrange.Client.Sent

/-!
# Packets that are cut off

A packet of which the end is missing has no room for its fields, or fewer bytes than the
checksum covers, if it is cut off in the header or in the first 65535 bytes after it.
After these the record loop is on its own: where it looks for the next record and finds
the end of the buffer it throws, but from within a record it leaves the loop, and what has
been read until then is returned as if it were all.

## Main definitions

* `Rejected` — what no task is made of.

## Main results

* `parseRecord_cut` — a turn of the record loop, for a record that is cut off.
* `createFromArray_cut` — **what is made of a packet that is cut off within a record.**
* `rejected_take_iff` — **which packets that are cut off are rejected.**
-/

namespace PeeledOrange
namespace Client

open Java

variable {utf8 : Charset}

/-! ### Records that are cut off -/

theorem parsePayload_cut {st : Parser} {pos len : ℕ} (hlimit : st.buf.limit < pos + len)
    (hint : pos + len < 2 ^ 31) (key : DualKey) (vt : ValueType) :
    parsePayload utf8 st key vt pos len = .ok (.leave { st with pos := pos }) := by
  have hadd : add32 pos len = (pos + len : ℕ) := add32_natCast hint
  rw [parsePayload, hadd, if_pos (by omega)]
  rfl

theorem length_lengthField_pos (len : ℕ) : 0 < (lengthField len).length := by
  rw [lengthField]
  split <;> exact Nat.succ_pos _

/-- The length of a value is cut off. -/
theorem parseAttribute_cut_length {st : Parser} (hne : st.entities ≠ []) {pre data : List UInt8}
    {vt : ValueType} {len k : ℕ} (hk : k < (UInt8.ofNat vt.ordinal :: lengthField len).length)
    (hbuf : Holds st.buf (pre ++ (.ofNat vt.ordinal :: lengthField len ++ data).take k))
    (hlen : (pre ++ .ofNat vt.ordinal :: lengthField len ++ data).length < 2 ^ 31)
    (num type : BitVec 32) (key : DualKey) :
    ∃ pos, parseAttribute utf8 st (recordHead num type (attributeFlags len)) key pre.length =
      .ok (.leave { st with pos := pos }) := by
  obtain ⟨pos, hover⟩ := hbuf
  have hlimit := hover.limit_eq
  simp only [List.length_append, List.length_take, List.length_cons] at hlimit hlen hk
  by_cases htwo : k < 2
  · -- the type and the first byte of the length are not both there
    have hpos := length_lengthField_pos len
    have hadd : add32 pre.length 2 = (pre.length + 2 : ℕ) := add32_eq rfl (by omega)
    refine ⟨pre.length, ?_⟩
    rw [parseAttribute, if_neg hne, hadd, if_pos (by omega)]
    rfl
  · -- the byte is the width of the length
    have hlong : ¬len < 256 := fun hshort => by
      rw [lengthField, if_pos hshort, List.length_singleton] at hk
      omega
    have hflags : attributeFlags len = 1 <<< 6 := if_neg hlong
    have hzero := (recordHead_bits num type (attributeFlags_mem len)).2.2.2.mpr
      (by rw [hflags]; decide)
    obtain ⟨k, rfl⟩ := Nat.exists_eq_add_of_le' (Nat.le_of_not_lt htwo)
    rw [lengthField, if_neg hlong] at hover hk hlimit hlen
    generalize BitVec.ofNat 32 len = v at *
    have hnat : (UInt8.ofNat (bytes v)).toNat = bytes v := by
      rw [UInt8.toNat_ofNat', Nat.mod_eq_of_lt (Nat.lt_of_le_of_lt (bytes_le v) (by decide))]
    rw [List.length_cons, length_number] at hk hlimit hlen
    have hadd : add32 (pre.length + 2 : ℕ) (bytes v) = (pre.length + 2 + bytes v : ℕ) :=
      add32_natCast (by omega)
    refine ⟨(pre.length + 2 : ℕ), ?_⟩
    have hcut := @parseAttribute_start utf8 st hne pre ((number v ++ data).take k) vt
      (.ofNat (bytes v)) ⟨pos, hover⟩ (by
        simp only [List.length_append, List.length_cons, List.length_take]
        omega) (recordHead num type (attributeFlags len)) key
    rw [hcut, if_pos hzero, hnat, hadd, if_pos (by omega)]

/-- What comes after the start of an attribute is cut off. -/
theorem parseAttribute_cut {st : Parser} (hne : st.entities ≠ []) {pre data : List UInt8}
    {vt : ValueType} {k : ℕ}
    (hk : k < (UInt8.ofNat vt.ordinal :: lengthField data.length ++ data).length)
    (hbuf : Holds st.buf (pre ++ (.ofNat vt.ordinal :: lengthField data.length ++ data).take k))
    (hlen : (pre ++ .ofNat vt.ordinal :: lengthField data.length ++ data).length < 2 ^ 31)
    (num type : BitVec 32) (key : DualKey) :
    ∃ pos, parseAttribute utf8 st (recordHead num type (attributeFlags data.length)) key
        pre.length =
      .ok (.leave { st with pos := pos }) := by
  by_cases hlength : k < (UInt8.ofNat vt.ordinal :: lengthField data.length).length
  · exact parseAttribute_cut_length hne hlength hbuf hlen num type key
  · -- the length is there, so that it is the value that is cut off
    obtain ⟨k, rfl⟩ := Nat.exists_eq_add_of_le (Nat.le_of_not_lt hlength)
    rw [List.take_length_add_append, ← List.append_assoc] at hbuf
    have hlimit := hbuf.choose_spec.limit_eq
    have hcut := @parsePayload_cut utf8 st
      (pre ++ .ofNat vt.ordinal :: lengthField data.length).length data.length (by
        simp only [List.length_append, List.length_cons, List.length_take] at *
        omega) (by
        simp only [List.length_append, List.length_cons] at *
        omega) key vt
    have hlen' : (pre ++ .ofNat vt.ordinal :: lengthField data.length ++ data.take k).length <
        2 ^ 31 := by
      simp only [List.length_append, List.length_cons, List.length_take] at *
      omega
    refine ⟨_, Eq.trans ?_ hcut⟩
    by_cases hshort : data.length < 256
    · exact parseAttribute_short hne hshort hbuf hlen' num type key
    · exact parseAttribute_long hne hshort hbuf hlen' (by
        simp only [List.length_append, List.length_cons] at hlen
        omega) num type key

/-- The start of a record is cut off. -/
theorem parseRecord_cut_start {buf : ByteBuffer} {pre : List UInt8} {num type : BitVec 32}
    {flags k : ℕ} (hflags : flags ∈ [0, 1 <<< 6, 1 <<< 6 ||| 1 <<< 7]) (hpos : 0 < k)
    (hk : k < (recordStart num type flags).length)
    (hbuf : Holds buf (pre ++ (recordStart num type flags).take k))
    (hlen : (pre ++ recordStart num type flags).length < 2 ^ 31) (es : List EntityM) :
    ∃ pos, parseRecord utf8 ⟨es, pre.length, buf⟩ = .ok (.leave ⟨es, pos, buf⟩) := by
  obtain ⟨pos, hover⟩ := hbuf
  obtain ⟨hnum, htype, -, -⟩ := recordHead_bits num type hflags
  obtain ⟨k, rfl⟩ : ∃ n, k = n + 1 := Nat.exists_eq_add_of_le' hpos
  have hhead : (pre ++ (recordStart num type flags).take (k + 1)).getD pre.length 0 =
      recordHead num type flags := by
    simp [recordStart]
  simp only [List.length_append, length_recordStart] at hlen hk
  have hlength : (pre ++ (recordStart num type flags).take (k + 1)).length =
      pre.length + (k + 1) := by
    rw [List.length_append, List.length_take, length_recordStart]
    omega
  have hstart := @parseRecord_starts utf8 _ _ ⟨es, pre.length, buf⟩ (hover.starts (by omega)) _ rfl
    (by omega) _ hhead
  have h₂ : add32 (pre.length + 1 : ℕ) (bytes num) = (pre.length + 1 + bytes num : ℕ) :=
    add32_natCast (by omega)
  have h₃ : add32 (pre.length + 1 + bytes num : ℕ) (bytes type) =
      (pre.length + 1 + bytes num + bytes type : ℕ) := add32_natCast (by omega)
  refine ⟨(pre.length + 1 : ℕ), ?_⟩
  rw [hstart, numWidth, hnum, typeWidth, htype, h₂, h₃, if_pos (by omega)]

/-- **A turn of the record loop**, for a record that is cut off: the loop is left. -/
theorem parseRecord_cut {r : Record} {es : List EntityM} (hes : r.Follows es) {buf : ByteBuffer}
    {pre : List UInt8} {k : ℕ} (hpos : 0 < k) (hk : k < r.encode.length)
    (hbuf : Holds buf (pre ++ r.encode.take k)) (hlen : (pre ++ r.encode).length < 2 ^ 31) :
    ∃ pos, parseRecord utf8 ⟨es, pre.length, buf⟩ = .ok (.leave ⟨es, pos, buf⟩) := by
  cases r with
  | entity num type => exact parseRecord_cut_start List.mem_cons_self hpos hk hbuf hlen es
  | attr a =>
    have hencode : (Record.attr a).encode =
        recordStart a.num a.type (attributeFlags (payload a.value).length) ++
          (.ofNat a.value.valueType.ordinal :: lengthField (payload a.value).length ++
            payload a.value) := by
      simp [Record.encode, attributeBytes]
    rw [hencode] at hbuf hlen hk
    by_cases hstart : k < (recordStart a.num a.type
        (attributeFlags (payload a.value).length)).length
    · rw [List.take_append_of_le_length (Nat.le_of_lt hstart)] at hbuf
      exact parseRecord_cut_start (attributeFlags_mem _) hpos hstart hbuf (by
        rw [← List.append_assoc, List.length_append] at hlen
        omega) es
    · obtain ⟨k, rfl⟩ := Nat.exists_eq_add_of_le (Nat.le_of_not_lt hstart)
      rw [List.take_length_add_append, ← List.append_assoc] at hbuf
      rw [List.length_append] at hk
      have hrecord := @parseRecord_eq utf8 _ _ _ _ _ _ (attributeFlags_mem _) hbuf (by
        simp only [List.length_append, List.length_take] at *
        omega) es
      rw [if_neg (attributeFlags_ne_zero _)] at hrecord
      rw [← List.append_assoc] at hlen
      rw [hrecord]
      have hcut := @parseAttribute_cut utf8 ⟨es, pre.length, buf⟩ hes _ _ _ _ (by omega) hbuf
        (by simpa using hlen) a.num a.type ⟨a.num, a.type⟩
      exact hcut

/-! ### Packets that are cut off -/

/-- A place in the bytes of a list is in those of one of its elements. -/
theorem exists_split_of_lt {α β : Type} {f : α → List β} {l : List α} {n : ℕ}
    (h : n < (l.flatMap f).length) :
    ∃ l₁ x l₂, l = l₁ ++ x :: l₂ ∧ ∃ k < (f x).length, n = (l₁.flatMap f).length + k := by
  induction l generalizing n with
  | nil => exact absurd h (Nat.not_lt_zero n)
  | cons x l ih =>
    by_cases hx : n < (f x).length
    · exact ⟨[], x, l, rfl, n, hx, by simp⟩
    · rw [List.flatMap_cons, List.length_append] at h
      obtain ⟨l₁, y, l₂, rfl, k, hk, hn⟩ := @ih (n - (f x).length) (by omega)
      refine ⟨x :: l₁, y, l₂, rfl, k, hk, ?_⟩
      rw [List.flatMap_cons, List.length_append]
      omega

/-- A packet that is cut off before its records. -/
theorem not_hasRoom_take {task : EavTask} {es : List EntityL} (hid : bytes task.packetID ≤ 3)
    {n : ℕ}
    (hn : n < (packetStart task es).length) : ¬HasRoom ((packet task es).take n) := by
  have hpid : pidWidth (packetHead task es) = bytes task.packetID := (head_bits hid (bytes_le _)).1
  have hds : dsWidth (packetHead task es) = bytes (BitVec.ofNat 32 (body es).length) :=
    (head_bits hid (bytes_le _)).2
  rw [length_packetStart] at hn
  cases n with
  | zero => exact id
  | succ n =>
    show ¬packetHeaderSize + pidWidth (packetHead task es) + dsWidth (packetHead task es) ≤ _
    rw [hpid, hds, ← List.take_succ_cons, List.length_take]
    omega

theorem foldl_add_ne_nil (l : List Record) {es : List EntityM} (hne : es ≠ []) :
    l.foldl (Record.add utf8) es ≠ [] := by
  induction l generalizing es with
  | nil => exact hne
  | cons r l ih =>
    refine ih (Record.add_ne_nil ?_)
    cases r with
    | entity _ _ => trivial
    | attr _ => exact hne

/-- There is an entity for every record, from the ones before it. -/
theorem follows_split {es : List EntityL} {l l' : List Record} {r : Record}
    (hl : records es = l ++ r :: l') : r.Follows (l.foldl (Record.add utf8) []) := by
  cases r with
  | entity _ _ => trivial
  | attr a =>
    cases l with
    | nil =>
      have hhead := @head?_records es [] (.attr a) (by rw [hl]; rfl)
      exact absurd rfl hhead
    | cons r₀ l =>
      have hhead := @head?_records es [] r₀ (by rw [hl]; rfl)
      rw [List.foldl_cons]
      show l.foldl (Record.add utf8) (r₀.add utf8 []) ≠ []
      exact foldl_add_ne_nil l (Record.add_ne_nil hhead)

section Cut

variable {task : EavTask} {es : List EntityL} {n : ℕ}

/-- A packet that is cut off after its header. -/
theorem take_packet (es : List EntityL) (hid : bytes task.packetID ≤ 3)
    (hn : (packetStart task es).length ≤ n) :
    (packet task es).take n =
      ((packetFrame task es hid).withRest
        ((body es).take (n - (packetStart task es).length))).bytes := by
  obtain ⟨k, rfl⟩ := Nat.exists_eq_add_of_le hn
  rw [packet, List.take_length_add_append, Nat.add_sub_cancel_left]
  rfl

/-- The checksum is the same if all that it covers is there. -/
theorem accepted_take (hid : bytes task.packetID ≤ 3) (hlen : (packet task es).length < 2 ^ 31)
    (hn : min 0xFFFF (body es).length ≤ n) :
    ((packetFrame task es hid).withRest ((body es).take n)).Accepted := by
  have hcovered : ((packetFrame task es hid).withRest ((body es).take n)).covered =
      min 0xFFFF (body es).length := covered_packetFrame hid hlen
  refine ⟨?_, ?_⟩
  · rw [hcovered]
    show _ ≤ ((body es).take n).length
    rw [List.length_take]
    omega
  · rw [Frame.crc2, hcovered]
    refine (crc1_packetFrame hid).trans ?_
    show _ = crcOf (((body es).take n).take _)
    rw [List.take_take, Nat.min_eq_left hn, ← List.take_eq_take_min]

/-- The records before the place where the packet is cut off are read, if it is after what
the checksum covers. -/
theorem parseLoop_of_cut (hid : Issued task.packetID)
    (hes : ∀ e ∈ es, ∀ a ∈ e.attributes, Readable utf8 a.value)
    (hlen : (packet task es).length < 2 ^ 31)
    (hcovered : (packetStart task es).length + 0xFFFF ≤ n) {l l' : List Record} {r : Record}
    (hl : records es = l ++ r :: l') {k : ℕ} (hk : k < r.encode.length)
    (hn : n = (packetStart task es ++ l.flatMap Record.encode).length + k) (ID : BitVec 32) :
    ∃ buf, Reads buf (packetStart task es ++ l.flatMap Record.encode ++ r.encode.take k) ∧
      ∀ fuel, (createFromArray utf8 (fuel + l.length) ID (.wrap ((packet task es).take n))).1 =
        (parseLoop utf8 (packet task es).length fuel ⟨l.foldl (Record.add utf8) [],
          (packetStart task es ++ l.flatMap Record.encode).length, buf⟩).map fun st =>
            st.map fun st => obtained task ID st.entities := by
  have hsize := size_packetFrame hid.bytes_le hlen
  have hbody : body es = l.flatMap Record.encode ++ (r.encode ++ l'.flatMap Record.encode) := by
    rw [← flatMap_encode_records, hl, List.flatMap_append, List.flatMap_cons]
  rw [List.length_append] at hn
  have hrest : (body es).take (n - (packetStart task es).length) =
      l.flatMap Record.encode ++ r.encode.take k := by
    rw [hbody, hn, Nat.add_assoc, Nat.add_sub_cancel_left, List.take_length_add_append,
      List.take_append_of_le_length (Nat.le_of_lt hk)]
  have htake := take_packet es hid.bytes_le (Nat.le_of_add_right_le hcovered)
  have haccepted := @accepted_take task es (n - (packetStart task es).length) hid.bytes_le hlen
    (Nat.le_trans (Nat.min_le_left _ _) (Nat.le_sub_of_add_le' hcovered))
  rw [hrest] at htake haccepted
  -- each of the whole records starts before the end that the header declares
  have hstarts : ∀ l₁ x l₂, l = l₁ ++ x :: l₂ →
      ((packetStart task es ++ l₁.flatMap Record.encode).length : ℤ) < (packet task es).length := by
    intro l₁ x l₂ hl₁
    rw [hl₁, List.append_assoc] at hl
    exact Nat.cast_lt.mpr (length_start_lt task hl)
  rw [← hsize] at hstarts ⊢
  obtain ⟨buf, hbuf, hread⟩ := Frame.createFromArray_records
    (f := (packetFrame task es hid.bytes_le).withRest
      (l.flatMap Record.encode ++ r.encode.take k))
    (by rw [← htake, List.length_take]; omega) (getElem_values_ordinal task.command) haccepted
    (fun x hx => readable_records hes x (by rw [hl]; exact List.mem_append_left _ hx))
    (head?_of_records_eq hl) rfl
    hstarts
  refine ⟨buf, ?_, fun fuel => ?_⟩
  · rw [List.append_assoc]
    exact hbuf
  · rw [htake]
    have hread' := hread fuel ID
    have htask : ∀ read, ((packetFrame task es hid.bytes_le).withRest
        (l.flatMap Record.encode ++ r.encode.take k)).task task.command ID read =
          obtained task ID read :=
      task_packetFrame es hid.bytes_le ID
    simp only [htask] at hread'
    exact hread'

/-- **What is made of a packet that is cut off within a record**: the records before it are
all there is. -/
theorem createFromArray_cut (hid : Issued task.packetID)
    (hes : ∀ e ∈ es, ∀ a ∈ e.attributes, Readable utf8 a.value)
    (hlen : (packet task es).length < 2 ^ 31)
    (hcovered : (packetStart task es).length + 0xFFFF ≤ n) {l l' : List Record} {r : Record}
    (hl : records es = l ++ r :: l') {k : ℕ} (hpos : 0 < k) (hk : k < r.encode.length)
    (hn : n = (packetStart task es ++ l.flatMap Record.encode).length + k) (ID : BitVec 32)
    {fuel : ℕ} (hfuel : l.length + 1 ≤ fuel) :
    (createFromArray utf8 fuel ID (.wrap ((packet task es).take n))).1 =
      some (.ok (obtained task ID (l.foldl (Record.add utf8) []))) := by
  obtain ⟨buf, hbuf, hread⟩ := parseLoop_of_cut hid hes hlen hcovered hl hk hn ID
  obtain ⟨more, rfl⟩ := Nat.exists_eq_add_of_le hfuel
  have hlt := length_start_lt task hl
  have hfits : (packetStart task es ++ l.flatMap Record.encode ++ r.encode).length < 2 ^ 31 := by
    rw [packet, ← flatMap_encode_records, hl, List.flatMap_append, List.flatMap_cons] at hlen
    simp only [List.length_append] at hlen ⊢
    omega
  obtain ⟨pos, hcut⟩ := @parseRecord_cut utf8 r (l.foldl (Record.add utf8) []) (follows_split hl)
    buf _ k hpos hk hbuf.holds hfits
  have hnext : add32 (packetStart task es ++ l.flatMap Record.encode).length eavHeaderSize ≤
      (packet task es).length := by
    rw [add32_eavHeaderSize (by omega)]
    omega
  have hturns : l.length + 1 + more = (more + 1) + l.length := by omega
  rw [hturns, hread, parseLoop, if_pos hnext, hcut]
  rfl

/-- A packet that is cut off between two records is rejected. -/
theorem createFromArray_cut_between (hid : Issued task.packetID)
    (hes : ∀ e ∈ es, ∀ a ∈ e.attributes, Readable utf8 a.value)
    (hlen : (packet task es).length < 2 ^ 31)
    (hcovered : (packetStart task es).length + 0xFFFF ≤ n) {l l' : List Record} {r : Record}
    (hl : records es = l ++ r :: l')
    (hn : n = (packetStart task es ++ l.flatMap Record.encode).length) (ID : BitVec 32)
    {fuel : ℕ} (hfuel : l.length + 1 ≤ fuel) :
    (createFromArray utf8 fuel ID (.wrap ((packet task es).take n))).1 =
      some (.error .indexOutOfBounds) := by
  obtain ⟨buf, hbuf, hread⟩ := parseLoop_of_cut hid hes hlen hcovered hl
    (List.length_pos_iff.mpr r.encode_ne_nil) hn ID
  obtain ⟨more, rfl⟩ := Nat.exists_eq_add_of_le hfuel
  have hlt := length_start_lt task hl
  rw [List.take_zero, List.append_nil] at hbuf
  have hnext : add32 (packetStart task es ++ l.flatMap Record.encode).length eavHeaderSize ≤
      (packet task es).length := by
    rw [add32_eavHeaderSize (by omega)]
    omega
  -- there is no byte at the position
  have hget : buf.get (packetStart task es ++ l.flatMap Record.encode).length =
      .error .indexOutOfBounds := by
    obtain ⟨⟨pos, hover⟩, -⟩ := hbuf
    rw [ByteBuffer.get, if_neg]
    rw [hover.limit_eq]
    omega
  have hturns : l.length + 1 + more = (more + 1) + l.length := by omega
  rw [hturns, hread, parseLoop, if_pos hnext, parseRecord]
  simp only [hget, error_bind]
  rfl

end Cut

/-- No task is made of these bytes. -/
def Rejected (utf8 : Charset) (data : List UInt8) : Prop :=
  ∀ ID, ∃ least, ∀ fuel ≥ least, ∃ e,
    (createFromArray utf8 fuel ID (.wrap data)).1 = some (.error e)

section Rejected

variable {task : EavTask} {es : List EntityL} {n : ℕ}

/-- A packet that is cut off where the checksum covers it is rejected. -/
theorem rejected_of_uncovered (hid : Issued task.packetID) (hlen : (packet task es).length < 2 ^ 31)
    (hn : n < (packet task es).length) (hcovered : n < (packetStart task es).length + 0xFFFF) :
    Rejected utf8 ((packet task es).take n) := by
  intro ID
  refine ⟨0, fun fuel _ => ?_⟩
  by_cases hstart : n < (packetStart task es).length
  · exact createFromArray_short (not_hasRoom_take hid.bytes_le hstart) fuel ID
  · have htake := take_packet es hid.bytes_le (Nat.le_of_not_lt hstart)
    have hbytes := congrArg List.length htake
    rw [List.length_take] at hbytes
    rw [htake]
    apply Frame.createFromArray_of_not_accepted (by omega)
    rintro ⟨hfits, -⟩
    have hle : (packetFrame task es hid.bytes_le).covered ≤
        ((body es).take (n - (packetStart task es).length)).length := hfits
    rw [covered_packetFrame hid.bytes_le hlen, List.length_take] at hle
    rw [packet, List.length_append] at hn
    omega

/-- The place after some of the records of a packet. -/
def AfterRecords (task : EavTask) (es : List EntityL) (n : ℕ) : Prop :=
  ∃ l l', records es = l ++ l' ∧ n = (packetStart task es ++ l.flatMap Record.encode).length

theorem rejected_of_afterRecords (hid : Issued task.packetID)
    (hes : ∀ e ∈ es, ∀ a ∈ e.attributes, Readable utf8 a.value)
    (hlen : (packet task es).length < 2 ^ 31) (hn : n < (packet task es).length)
    (hafter : AfterRecords task es n) : Rejected utf8 ((packet task es).take n) := by
  by_cases hcovered : n < (packetStart task es).length + 0xFFFF
  · exact rejected_of_uncovered hid hlen hn hcovered
  · obtain ⟨l, l', hl, hlength⟩ := hafter
    cases l' with
    | nil =>
      -- after all the records is the end of the packet
      rw [List.append_nil] at hl
      rw [← hl, flatMap_encode_records, ← packet] at hlength
      exact absurd hlength (Nat.ne_of_lt hn)
    | cons r l' =>
      intro ID
      exact ⟨l.length + 1, fun fuel hfuel => ⟨_, createFromArray_cut_between hid hes hlen
        (Nat.le_of_not_lt hcovered) hl hlength ID hfuel⟩⟩

theorem not_rejected_of_cut (hid : Issued task.packetID)
    (hes : ∀ e ∈ es, ∀ a ∈ e.attributes, Readable utf8 a.value)
    (hlen : (packet task es).length < 2 ^ 31)
    (hcovered : (packetStart task es).length + 0xFFFF ≤ n) {l l' : List Record} {r : Record}
    (hl : records es = l ++ r :: l') {k : ℕ} (hpos : 0 < k) (hk : k < r.encode.length)
    (hn : n = (packetStart task es ++ l.flatMap Record.encode).length + k) :
    ¬Rejected utf8 ((packet task es).take n) := by
  intro hrejected
  obtain ⟨least, hleast⟩ := hrejected 1
  obtain ⟨e, he⟩ := hleast (least + (l.length + 1)) (by omega)
  rw [createFromArray_cut hid hes hlen hcovered hl hpos hk hn 1 (by omega)] at he
  cases he

end Rejected

/-- **Which packets that are cut off are rejected**: those that are cut off before the end
of what the checksum covers, which is 65535 bytes after the header at most, and those that
are cut off between two records. -/
theorem rejected_take_iff {task : EavTask} {es : List EntityL} {p : List UInt8}
    (hid : Issued task.packetID) (hes : ∀ e ∈ es, ∀ a ∈ e.attributes, Readable utf8 a.value)
    (h : Sent task es p) {n : ℕ} (hn : n < p.length) :
    Rejected utf8 (p.take n) ↔
      n < (packetStart task es).length + 0xFFFF ∨ AfterRecords task es n := by
  have hlen := h.length_lt
  obtain rfl := h.eq_packet
  constructor
  · intro hrejected
    by_contra hcondition
    obtain ⟨hcovered, hafter⟩ := not_or.mp hcondition
    have hplace :
        n - (packetStart task es).length < ((records es).flatMap Record.encode).length := by
      rw [flatMap_encode_records]
      rw [packet, List.length_append] at hn
      omega
    obtain ⟨l, r, l', hl, k, hk, hlength⟩ := exists_split_of_lt hplace
    have hcut : n = (packetStart task es ++ l.flatMap Record.encode).length + k := by
      rw [List.length_append]
      omega
    rcases Nat.eq_zero_or_pos k with rfl | hpos
    · exact hafter ⟨l, r :: l', hl, hcut⟩
    · exact not_rejected_of_cut hid hes hlen (Nat.le_of_not_lt hcovered) hl hpos hk hcut hrejected
  · rintro (hcovered | hafter)
    · exact rejected_of_uncovered hid hlen hn hcovered
    · exact rejected_of_afterRecords hid hes hlen hn hafter

theorem readable_zeros (n : ℕ) : ∀ e ∈ zeros n, ∀ a ∈ e.attributes, Readable .utf8 a.value :=
  fun e he a ha => (sendable_zeros n e he a ha).readable

theorem sent_zeros (n : ℕ) (hlen : (packet sampleTask (zeros n)).length < 2 ^ 31) :
    Sent sampleTask (zeros n) (packet sampleTask (zeros n)) :=
  .of_packet (fun e he a ha => (sendable_zeros n e he a ha).storable) hlen

/-- A packet of eight records, cut off within the fifth one, and one of 70020 bytes of which
the last entity is missing. -/
theorem rejected_take_sample : Rejected .utf8 ((packet sampleTask sampleEntities).take 40) ∧
    Rejected .utf8 ((packet sampleTask (zeros 70000 ++ zeros 1)).take 70015) := by
  have hreadable : ∀ e ∈ zeros 70000 ++ zeros 1, ∀ a ∈ e.attributes, Readable .utf8 a.value :=
    fun e he => (List.mem_append.mp he).elim (readable_zeros _ e) (readable_zeros _ e)
  have hbody : (body (zeros 70000)).length = 70007 := by
    rw [length_body_zeros (by decide)]
    decide
  have hboth : (body (zeros 70000 ++ zeros 1)).length = 70012 := by
    have hone : (body (zeros 1)).length = 5 := by decide
    rw [body, List.flatMap_append, List.length_append, ← body, ← body, hbody, hone]
  have hstart : (packetStart sampleTask (zeros 70000 ++ zeros 1)).length = 8 := by
    rw [length_packetStart, hboth]
    decide
  have hlen : (packet sampleTask (zeros 70000 ++ zeros 1)).length = 70020 := by
    rw [packet, List.length_append, hstart, hboth]
  have hafter : AfterRecords sampleTask (zeros 70000 ++ zeros 1) 70015 := by
    refine ⟨records (zeros 70000), records (zeros 1), List.flatMap_append, ?_⟩
    rw [List.length_append, hstart, flatMap_encode_records, hbody]
  refine ⟨?_, ?_⟩
  · have hread := fun e he a ha => (sendable_sampleEntities e he a ha).readable
    exact (rejected_take_iff ⟨0, rfl⟩ hread
      (.of_packet (fun e he a ha => (hread e he a ha).storable) (by decide +kernel))
      (by decide +kernel)).mpr (.inl (by decide +kernel))
  · exact (rejected_take_iff ⟨0, rfl⟩ hreadable
      (.of_packet (fun e he a ha => (hreadable e he a ha).storable) (by omega))
      (by omega)).mpr (.inr hafter)

/-- An attribute of 70000 bytes of which some are missing. -/
theorem not_rejected_take : Issued sampleTask.packetID ∧
    Sent sampleTask (zeros 70000) (packet sampleTask (zeros 70000)) ∧
    70000 < (packet sampleTask (zeros 70000)).length ∧
    ¬Rejected .utf8 ((packet sampleTask (zeros 70000)).take 70000) := by
  have hbody : (body (zeros 70000)).length = 70007 := by
    rw [length_body_zeros (by decide)]
    decide
  have hstart : (packetStart sampleTask (zeros 70000)).length = 8 := by
    rw [length_packetStart, hbody]
    decide
  have hlen : (packet sampleTask (zeros 70000)).length = 70015 := by
    rw [packet, List.length_append, hstart, hbody]
  have hentity : (Record.entity 0 0).encode.length = 1 := by decide
  have hattr : ∀ r, records (zeros 70000) = [.entity 0 0] ++ r :: [] → r.encode.length = 70006 := by
    intro r hr
    rw [← flatMap_encode_records, hr] at hbody
    simp only [List.flatMap_append, List.flatMap_cons, List.flatMap_nil, List.length_append,
      List.append_nil, hentity] at hbody
    omega
  refine ⟨⟨0, rfl⟩, sent_zeros _ (by omega), by omega, ?_⟩
  have hsplit : records (zeros 70000) =
      [.entity 0 0] ++
        .attr ⟨0, 0, setValue .utf8 (.byteBuffer (.wrap (List.replicate 70000 0)))⟩ :: [] := rfl
  apply not_rejected_of_cut ⟨0, rfl⟩ (readable_zeros _) (by omega) (by omega) hsplit
    (show 0 < 69991 by decide)
  · rw [hattr _ rfl]
    decide
  · rw [List.length_append, hstart, List.flatMap_singleton, hentity]

end Client
end PeeledOrange
