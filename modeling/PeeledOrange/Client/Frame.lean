import PeeledOrange.Client.Parse

/-!
# The fields of a packet

What `createFromArray` makes of any bytes whatever.  They are a header, the widths of
which are in its first byte, and the rest of the bytes; the size in the header says how
many of these the records are to take, and the checksum covers so many of them, up to a
length.  A packet whose fields do not fit its bytes, whose command is none, or whose
checksum differs is refused.

## Main definitions

* `Frame` — a packet by its fields, each as wide as its first byte says.
* `Frame.covered` — how many bytes the checksum covers.

## Main results

* `createFromArray_short` — **what has no room for its fields is refused.**
* `Frame.createFromArray_eq` — **what is made of a packet, by its fields.**
-/

namespace PeeledOrange
namespace Client

open Java

variable {utf8 : Charset}

/-- The width of the packet ID. -/
def pidWidth (head : UInt8) : ℕ := (head &&& 0x03).toNat

/-- The width of the size. -/
def dsWidth (head : UInt8) : ℕ := ((head &&& 0x1C) >>> 2).toNat

theorem pidWidth_le (head : UInt8) : pidWidth head ≤ 3 := by
  rw [pidWidth, UInt8.toNat_and]
  exact Nat.and_le_right

theorem dsWidth_le (head : UInt8) : dsWidth head ≤ 7 := by
  rw [dsWidth, UInt8.toNat_shiftRight, UInt8.toNat_and, Nat.shiftRight_eq_div_pow]
  have hle : head.toNat &&& (0x1C : UInt8).toNat ≤ 28 := Nat.and_le_right
  exact Nat.le_trans (Nat.div_le_div_right hle) (by decide)

/-- The bytes of a packet by its fields, each as wide as the first byte says. -/
structure Frame where
  head : UInt8
  crc : List UInt8
  cmd : UInt8
  packetID : List UInt8
  size : List UInt8
  rest : List UInt8
  length_crc : crc.length = 2
  length_packetID : packetID.length = pidWidth head
  length_size : size.length = dsWidth head

namespace Frame

/-- The header. -/
def start (f : Frame) : List UInt8 := f.head :: f.crc ++ f.cmd :: (f.packetID ++ f.size)

/-- All the bytes. -/
def bytes (f : Frame) : List UInt8 := f.start ++ f.rest

/-- The size that the header says. -/
def ds (f : Frame) : ℤ := (readInt f.size).toInt

/-- How many bytes the checksum covers: a negative size is as none. -/
def covered (f : Frame) : ℕ := (if f.ds > 0xFFFF then 0xFFFF else f.ds).toNat

/-- The checksum in the header. -/
def crc1 (f : Frame) : BitVec 16 := BitVec.ofNat 16 (Bytes.toNat f.crc)

/-- The checksum of the bytes that it covers. -/
def crc2 (f : Frame) : BitVec 16 := crcOf (f.rest.take f.covered)

theorem length_start (f : Frame) :
    f.start.length = packetHeaderSize + f.packetID.length + f.size.length := by
  simp only [start, List.length_append, List.length_cons, f.length_crc, packetHeaderSize]
  omega

/-- The same bytes, with another checksum. -/
def withCrc (f : Frame) (crc : List UInt8) (h : crc.length = 2) : Frame :=
  { f with crc := crc, length_crc := h }

/-- The same bytes, after another first byte with the same widths. -/
def withHead (f : Frame) (head : UInt8) (hpid : pidWidth head = pidWidth f.head)
    (hds : dsWidth head = dsWidth f.head) : Frame :=
  { f with
    head := head
    length_packetID := f.length_packetID.trans hpid.symm
    length_size := f.length_size.trans hds.symm }

/-- The same bytes, with another command. -/
def withCmd (f : Frame) (cmd : UInt8) : Frame := { f with cmd := cmd }

/-- The same bytes, with another packet ID of the same width. -/
def withPacketID (f : Frame) (packetID : List UInt8) (h : packetID.length = f.packetID.length) :
    Frame := { f with packetID := packetID, length_packetID := h.trans f.length_packetID }

/-- The same bytes, with another size of the same width. -/
def withSize (f : Frame) (size : List UInt8) (h : size.length = f.size.length) : Frame :=
  { f with size := size, length_size := h.trans f.length_size }

/-- The same header, before other bytes. -/
def withRest (f : Frame) (rest : List UInt8) : Frame := { f with rest := rest }

theorem length_start_le (f : Frame) : f.start.length ≤ 14 := by
  have hpid := pidWidth_le f.head
  have hds := dsWidth_le f.head
  rw [length_start, f.length_packetID, f.length_size, packetHeaderSize]
  omega

theorem covered_le (f : Frame) : f.covered ≤ 0xFFFF := by
  rw [covered]
  split <;> omega

variable (f : Frame)

/-! ### The header is read -/

variable {f} in
theorem starts_bytes (hlen : f.bytes.length < 2 ^ 31) :
    (ByteBuffer.wrap f.bytes).Starts f.bytes f.bytes.length :=
  (ByteBuffer.over_wrap f.bytes).starts hlen

variable {f} {buf : ByteBuffer} {n : ℕ} (hbuf : buf.Starts f.bytes n)

include hbuf

theorem readHeader_eq :
    readHeader buf =
      .ok ⟨f.packetID.length, f.size.length, f.crc1, buf.setOrder .littleEndian⟩ := by
  have hroom : 3 ≤ f.bytes.length := by
    rw [bytes, List.length_append, length_start, packetHeaderSize]
    omega
  have hget : buf.get 0 = .ok f.head := hbuf.get (i := 0) (by omega)
  have hcrc := (hbuf.setOrder .littleEndian).getNumber (i := 1) (m := 2) hroom rfl
  have hbytes : (f.bytes.drop 1).take 2 = f.crc := by
    have hsplit : f.bytes.drop 1 = f.crc ++ (f.cmd :: (f.packetID ++ f.size) ++ f.rest) := by
      simp [bytes, start]
    rw [hsplit, ← f.length_crc, List.take_left]
  rw [hbytes] at hcrc
  rw [readHeader, hget, f.length_packetID, f.length_size]
  simp only [ok_bind]
  rw [show (1 : ℤ) = (1 : ℕ) from rfl, hcrc]
  rfl

theorem get_cmd : buf.get 3 = .ok f.cmd := by
  have hsplit : f.bytes = (f.head :: f.crc) ++ f.cmd :: (f.packetID ++ f.size ++ f.rest) := by
    simp [bytes, start]
  have hlength : (f.head :: f.crc).length = 3 := by
    rw [List.length_cons, f.length_crc]
  have hget := hbuf.get (i := 3) (by
    rw [hsplit, List.length_append, hlength, List.length_cons]
    omega)
  have hbyte : f.bytes.getD 3 0 = f.cmd := by
    rw [hsplit, List.getD_append_right _ _ _ _ (by omega), hlength]
    rfl
  rwa [hbyte] at hget

/-- A field is read as a number. -/
theorem getInt_field {pre bs post : List UInt8} (hsplit : f.bytes = pre ++ bs ++ post) :
    getInt buf.array pre.length bs.length = .ok (readInt bs) := by
  obtain ⟨rest, harray⟩ := hbuf.array_eq
  have hlen := hbuf.length_lt
  have hmore : buf.array = pre ++ bs ++ (post ++ rest) := by
    rw [harray, hsplit, List.append_assoc]
  rw [hmore] at hlen ⊢
  exact getInt_append hlen

theorem getInt_packetID :
    getInt buf.array packetHeaderSize f.packetID.length = .ok (readInt f.packetID) := by
  have hget := @getInt_field f buf n hbuf (f.head :: f.crc ++ [f.cmd]) f.packetID (f.size ++ f.rest)
    (by simp [bytes, start])
  simpa [f.length_crc, packetHeaderSize] using hget

theorem getInt_size :
    getInt buf.array (packetHeaderSize + f.packetID.length : ℕ) f.size.length =
      .ok (readInt f.size) := by
  have hpos : (f.head :: f.crc ++ f.cmd :: f.packetID).length =
      packetHeaderSize + f.packetID.length := by
    simp only [List.length_append, List.length_cons, f.length_crc, packetHeaderSize]
    omega
  have hget := @getInt_field f buf n hbuf (f.head :: f.crc ++ f.cmd :: f.packetID) f.size f.rest
    (by simp [bytes, start])
  rwa [hpos] at hget

/-- The checksum is computed of the bytes that it covers. -/
theorem crc16_covered (hfits : f.covered ≤ f.rest.length) :
    ∃ buf', crc16 buf f.start.length (if f.ds > 0xFFFF then 0xFFFF else f.ds) =
      .ok (f.crc2, buf') := by
  have hstart := f.length_start_le
  have hcovered := f.covered_le
  have hmin : -2 ^ 31 ≤ (if f.ds > 0xFFFF then 0xFFFF else f.ds) := by
    have hds := BitVec.le_toInt (readInt f.size)
    rw [← ds] at hds
    split <;> omega
  obtain ⟨buf', hcrc⟩ := @crc16_starts buf f.bytes n hbuf f.start.length f.covered (by
    rw [bytes, List.length_append]
    omega)
  rw [bytes, List.drop_left] at hcrc
  refine ⟨buf', ?_⟩
  rw [crc16_toNat buf hmin (by rw [← covered]; omega), ← covered, hcrc, crc2]

omit hbuf in
theorem crc16_uncovered (hbuf : Reads buf f.bytes) (hfits : f.rest.length < f.covered) :
    crc16 buf f.start.length (if f.ds > 0xFFFF then 0xFFFF else f.ds) =
      .error .bufferUnderflow := by
  obtain ⟨⟨pos, hover⟩, -⟩ := hbuf
  have hstart := f.length_start_le
  have hcovered := f.covered_le
  have hmin : -2 ^ 31 ≤ (if f.ds > 0xFFFF then 0xFFFF else f.ds) := by
    have hds := BitVec.le_toInt (readInt f.size)
    rw [← ds] at hds
    split <;> omega
  rw [crc16_toNat buf hmin (by rw [← covered]; omega), ← covered]
  exact crc16_short hover hfits (by omega)

/-- What the header comes to, up to the checksum. -/
theorem readTask_eq (new : EavTask) :
    readTask new ⟨f.packetID.length, f.size.length, f.crc1, buf⟩ =
      (match Commands.values[f.cmd.toNat]? with
        | some command => Except.ok command
        | none => .error .arrayIndexOutOfBounds) >>= fun command =>
      crc16 buf f.start.length (if f.ds > 0xFFFF then 0xFFFF else f.ds) >>= fun x =>
        if f.crc1 ≠ x.1 then .error (.exception "EAV task parser, crc does not converge")
        else .ok ({ new with command := command, packetID := readInt f.packetID },
          (f.start.length : ℤ), f.ds, x.2) := by
  have hcmd := get_cmd hbuf
  have hid := getInt_packetID hbuf
  have hsize := getInt_size hbuf
  rw [readTask]
  simp only [hcmd, ok_bind, hid, hsize, length_start, ds]
  cases Commands.values[f.cmd.toNat]? <;> rfl

/-! ### The whole packet -/

/-- The task of a packet, with these entities. -/
def task (f : Frame) (command : Commands) (ID : BitVec 32) (es : List EntityM) : EavTask :=
  { (EavTask.new (some "FromArray") ID).1 with
    command := command
    entities := es
    packetID := readInt f.packetID
    status := .obtained }

/-- The checksum in the header is that of the bytes that it covers. -/
def Accepted (f : Frame) : Prop := f.covered ≤ f.rest.length ∧ f.crc1 = f.crc2

/-- The command byte is that of no command. -/
theorem createFromArray_of_no_command (hcmd : Commands.values[f.cmd.toNat]? = none) (fuel : ℕ)
    (ID : BitVec 32) :
    (createFromArray utf8 fuel ID buf).1 = some (.error .arrayIndexOutOfBounds) := by
  rw [createFromArray, readHeader_eq hbuf]
  simp only [readTask_eq (hbuf.setOrder .littleEndian), hcmd, error_bind]

omit hbuf in
/-- There are fewer bytes than the checksum covers. -/
theorem createFromArray_of_uncovered (hlen : f.bytes.length < 2 ^ 31) {command : Commands}
    (hcmd : Commands.values[f.cmd.toNat]? = some command) (hfits : f.rest.length < f.covered)
    (fuel : ℕ) (ID : BitVec 32) :
    (createFromArray utf8 fuel ID (.wrap f.bytes)).1 = some (.error .bufferUnderflow) := by
  have hover := (ByteBuffer.over_wrap f.bytes).setOrder .littleEndian
  have hstarts := starts_bytes hlen
  rw [createFromArray, readHeader_eq hstarts]
  simp only [readTask_eq (hstarts.setOrder .littleEndian), hcmd, ok_bind,
    crc16_uncovered ⟨⟨0, hover⟩, rfl⟩ hfits, error_bind]

/-- The checksum is another one. -/
theorem createFromArray_of_crc_ne {command : Commands}
    (hcmd : Commands.values[f.cmd.toNat]? = some command) (hfits : f.covered ≤ f.rest.length)
    (hcrc : f.crc1 ≠ f.crc2) (fuel : ℕ) (ID : BitVec 32) :
    (createFromArray utf8 fuel ID buf).1 =
      some (.error (.exception "EAV task parser, crc does not converge")) := by
  obtain ⟨buf', hcrc16⟩ := crc16_covered (hbuf.setOrder .littleEndian) hfits
  rw [createFromArray, readHeader_eq hbuf]
  simp only [readTask_eq (hbuf.setOrder .littleEndian), hcmd, ok_bind, hcrc16, ne_eq, if_pos hcrc]

variable (utf8) in
/-- The records are read, if the checksum is the same. -/
theorem createFromArray_of_accepted {command : Commands}
    (hcmd : Commands.values[f.cmd.toNat]? = some command) (haccepted : f.Accepted) :
    ∃ buf', (buf.setOrder .littleEndian).Moved buf' ∧ ∀ fuel ID,
      (createFromArray utf8 fuel ID buf).1 =
        (parseLoop utf8 (add32 f.start.length f.ds) fuel ⟨[], f.start.length, buf'⟩).map fun r =>
          r.map fun st => f.task command ID st.entities := by
  obtain ⟨buf', hcrc16⟩ := crc16_covered (hbuf.setOrder .littleEndian) haccepted.1
  refine ⟨buf', crc16_moved hcrc16, fun fuel ID => ?_⟩
  rw [createFromArray, readHeader_eq hbuf]
  simp only [readTask_eq (hbuf.setOrder .littleEndian), hcmd, ok_bind, hcrc16, ne_eq,
    if_neg (not_not.mpr haccepted.2)]
  rfl

omit hbuf

/-- The records at the start of what comes after the header are read, if each of them
starts before the end that the size says. -/
theorem createFromArray_records (hlen : f.bytes.length < 2 ^ 31) {command : Commands}
    (hcmd : Commands.values[f.cmd.toNat]? = some command) (haccepted : f.Accepted)
    {rs : List Record} {post : List UInt8} (hrs : ∀ r ∈ rs, r.Readable utf8)
    (hhead : ∀ r ∈ rs.head?, r.Follows []) (hrest : f.rest = rs.flatMap Record.encode ++ post)
    (hstarts : ∀ l r l', rs = l ++ r :: l' →
      (f.start ++ l.flatMap Record.encode).length < add32 f.start.length f.ds) :
    ∃ buf, Reads buf f.bytes ∧ ∀ fuel ID,
      (createFromArray utf8 (fuel + rs.length) ID (.wrap f.bytes)).1 =
        (parseLoop utf8 (add32 f.start.length f.ds) fuel ⟨rs.foldl (Record.add utf8) [],
          (f.start ++ rs.flatMap Record.encode).length, buf⟩).map fun r =>
            r.map fun st => f.task command ID st.entities := by
  obtain ⟨buf, hmoved, hread⟩ :=
    createFromArray_of_accepted utf8 (starts_bytes hlen) hcmd haccepted
  have hbuf : Reads buf f.bytes :=
    ⟨⟨_, hmoved.over ((ByteBuffer.over_wrap f.bytes).setOrder .littleEndian)⟩, hmoved.order_eq⟩
  have hdata : f.bytes = f.start ++ rs.flatMap Record.encode ++ post := by
    rw [bytes, hrest, List.append_assoc]
  obtain ⟨buf', hbuf', hloop⟩ := parseLoop_records hlen hrs hhead hdata hstarts hbuf
  refine ⟨buf', hbuf', fun fuel ID => ?_⟩
  rw [hread, hloop]

/-- The records that start before the end that the size says are all there is. -/
theorem createFromArray_until (hlen : f.bytes.length < 2 ^ 31 - 1) {command : Commands}
    (hcmd : Commands.values[f.cmd.toNat]? = some command) (haccepted : f.Accepted)
    {rs : List Record} {post : List UInt8} (hrs : ∀ r ∈ rs, r.Readable utf8)
    (hhead : ∀ r ∈ rs.head?, r.Follows []) (hrest : f.rest = rs.flatMap Record.encode ++ post)
    (hstarts : ∀ l r l', rs = l ++ r :: l' → ((l.flatMap Record.encode).length : ℤ) < f.ds)
    (hend : f.ds ≤ (rs.flatMap Record.encode).length) {fuel : ℕ} (hfuel : rs.length + 1 ≤ fuel)
    (ID : BitVec 32) :
    (createFromArray utf8 fuel ID (.wrap f.bytes)).1 =
      some (.ok (f.task command ID (rs.foldl (Record.add utf8) []))) := by
  have hroom : f.bytes.length = f.start.length + f.rest.length := by
    rw [bytes, List.length_append]
  have hfits := congrArg List.length hrest
  rw [List.length_append] at hfits
  have hmin := BitVec.le_toInt (readInt f.size)
  rw [← ds] at hmin
  have hsize : add32 f.start.length f.ds = f.start.length + f.ds :=
    add32_of_lt (by omega) (by omega)
  obtain ⟨buf, -, hread⟩ := createFromArray_records (by omega) hcmd haccepted hrs hhead hrest
    (fun l r l' hl => by
      have hlt := hstarts l r l' hl
      rw [hsize, List.length_append]
      omega)
  obtain ⟨more, rfl⟩ := Nat.exists_eq_add_of_le hfuel
  have hstop : ¬add32 (f.start ++ rs.flatMap Record.encode).length eavHeaderSize ≤
      add32 f.start.length f.ds := by
    rw [hsize, List.length_append, add32_eavHeaderSize (by omega)]
    omega
  have hturns : rs.length + 1 + more = (more + 1) + rs.length := by omega
  rw [hturns, hread, parseLoop, if_neg hstop]
  rfl

/-- A packet that is not accepted is refused. -/
theorem createFromArray_of_not_accepted (hlen : f.bytes.length < 2 ^ 31) (h : ¬f.Accepted)
    (fuel : ℕ) (ID : BitVec 32) :
    ∃ e, (createFromArray utf8 fuel ID (.wrap f.bytes)).1 = some (.error e) := by
  cases hcmd : Commands.values[f.cmd.toNat]? with
  | none => exact ⟨_, createFromArray_of_no_command (starts_bytes hlen) hcmd fuel ID⟩
  | some command =>
    by_cases hfits : f.covered ≤ f.rest.length
    · exact ⟨_, createFromArray_of_crc_ne (starts_bytes hlen) hcmd hfits
        (fun hcrc => h ⟨hfits, hcrc⟩) fuel ID⟩
    · exact ⟨_, createFromArray_of_uncovered hlen hcmd (Nat.lt_of_not_le hfits) fuel ID⟩

end Frame

/-! ### Bytes that are no packet -/

/-- The bytes have room for the fields that their first byte says. -/
def HasRoom : List UInt8 → Prop
  | [] => False
  | head :: tail => packetHeaderSize + pidWidth head + dsWidth head ≤ (head :: tail).length

/-- Bytes that have room for the fields are a packet. -/
theorem exists_frame {data : List UInt8} (h : HasRoom data) :
    ∃ f : Frame, f.bytes = data := by
  match data with
  | [] => exact h.elim
  | head :: c₀ :: c₁ :: cmd :: data =>
    have hroom : pidWidth head + dsWidth head ≤ data.length := by
      simp only [HasRoom, packetHeaderSize, List.length_cons] at h
      omega
    refine ⟨⟨head, [c₀, c₁], cmd, data.take (pidWidth head),
      (data.drop (pidWidth head)).take (dsWidth head),
      (data.drop (pidWidth head)).drop (dsWidth head), rfl, ?_, ?_⟩, ?_⟩
    · rw [List.length_take]
      omega
    · rw [List.length_take, List.length_drop]
      omega
    · simp only [Frame.bytes, Frame.start, List.append_assoc, List.cons_append, List.nil_append,
        List.take_append_drop]
  | [head] =>
    simp only [HasRoom, packetHeaderSize, List.length_cons, List.length_nil] at h
    omega
  | [head, c₀] =>
    simp only [HasRoom, packetHeaderSize, List.length_cons, List.length_nil] at h
    omega
  | [head, c₀, c₁] =>
    simp only [HasRoom, packetHeaderSize, List.length_cons, List.length_nil] at h
    omega

/-- A number that has been read is there. -/
theorem le_length_of_getInt {data : List UInt8} {offset n : ℕ} {v : BitVec 32}
    (h : getInt data offset n = .ok v) (hn : n ≠ 0) (hint : offset + n < 2 ^ 31) :
    offset + n ≤ data.length := by
  by_contra hlt
  have hshort := @getBits_short 32 offset data n 0 0 hn (by omega) (by omega)
  rw [getInt, Int.toNat_natCast, hshort] at h
  cases h

theorem lt_length_of_get {data : List UInt8} {order : ByteOrder} {i : ℕ} {b : UInt8}
    (h : ((ByteBuffer.wrap data).setOrder order).get i = .ok b) : i < data.length := by
  by_contra hle
  rw [ByteBuffer.get, if_neg] at h
  · cases h
  · show ¬(0 ≤ (i : ℤ) ∧ (i : ℤ) < (data.length : ℕ))
    omega

/-- Fields that have been read are there. -/
theorem hasRoom_of_read {data : List UInt8} {head cmd : UInt8} {packetID ds : BitVec 32}
    (hhead : (ByteBuffer.wrap data).get 0 = .ok head)
    (hcmd : ((ByteBuffer.wrap data).setOrder .littleEndian).get 3 = .ok cmd)
    (hid : getInt data packetHeaderSize (pidWidth head) = .ok packetID)
    (hds : getInt data (packetHeaderSize + pidWidth head : ℕ) (dsWidth head) = .ok ds) :
    HasRoom data := by
  have hpid := pidWidth_le head
  have hsize := dsWidth_le head
  match data with
  | [] => exact nomatch hhead
  | b :: tail =>
    have hget : (ByteBuffer.wrap (b :: tail)).get 0 = .ok b :=
      (show ByteBuffer.Over _ ([] ++ b :: tail) 0 from ByteBuffer.over_wrap _).get
    obtain rfl := Except.ok.inj (hget.symm.trans hhead)
    have hlt := lt_length_of_get (i := 3) hcmd
    have hle := le_length_of_getInt hid
    have hle' := le_length_of_getInt hds
    rw [packetHeaderSize] at hle hle'
    rw [HasRoom, packetHeaderSize]
    -- a field of no bytes is not read
    by_cases hzero : dsWidth b = 0
    · by_cases hzero' : pidWidth b = 0
      · omega
      · have hroom := hle hzero' (by omega)
        omega
    · exact hle' hzero (by omega)

/-- **What has no room for its fields is refused.** -/
theorem createFromArray_short {data : List UInt8} (h : ¬HasRoom data) (fuel : ℕ)
    (ID : BitVec 32) : ∃ e, (createFromArray utf8 fuel ID (.wrap data)).1 = some (.error e) := by
  rw [createFromArray]
  cases hheader : readHeader (.wrap data) with
  | error e => exact ⟨e, rfl⟩
  | ok header =>
    simp only
    cases htask : readTask
        { (EavTask.new (some "FromArray") ID).1 with status := .obtained } header with
    | error e => exact ⟨e, rfl⟩
    | ok task =>
      -- all the fields have been read, so that there has been room for them
      exfalso
      apply h
      unfold readHeader at hheader
      simp only [bind_eq_ok_iff] at hheader
      obtain ⟨head, hhead, crc, -, hheader⟩ := hheader
      cases hheader
      rw [readTask, bind_eq_ok_iff] at htask
      obtain ⟨cmd, hcmd, htask⟩ := htask
      cases hcommand : Commands.values[cmd.toNat]? with
      | none =>
        simp only [hcommand, error_bind] at htask
        cases htask
      | some command =>
        simp only [hcommand, ok_bind, bind_eq_ok_iff] at htask
        obtain ⟨packetID, hid, ds, hds, -⟩ := htask
        exact hasRoom_of_read hhead hcmd hid hds

end Client
end PeeledOrange
