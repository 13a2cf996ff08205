import PeeledOrange.Client.Overrun
import PeeledOrange.Lib.History

/-!
# Records in any buffer

Nothing is known here of the bytes of a buffer, and its array may go on behind its limit.
A turn of the record loop that is followed by another one has read an entity, or an
attribute with its value.  The value of an attribute is where the bytes before it say, and
is as long as they say, which may be less than nothing.

## Main definitions

* `Located` — the loop stands before an attribute, and its value is here.
* `Present` — what is read of a value is there.

## Main results

* `exists_parseValue_iff` — a value is read just if it is there.
* `parseRecord_located`, `parseRecord_next` — **what a turn of the loop has read if another
  one follows.**
-/

namespace PeeledOrange
namespace Client

open Java

variable {utf8 : Charset} {b : ByteBuffer}

/-! ### Numbers -/

/-- A number that has been read is in the array. -/
theorem getBits_eq_ok {w pos n : ℕ} {data : List UInt8} (hdata : data.length < 2 ^ 31)
    (hpos : pos ≤ data.length) {v : BitVec w} (h : getBits w data pos n 0 0 = .ok v) :
    pos + n ≤ data.length := by
  by_contra hbeyond
  rw [getBits_beyond hdata 0 (by omega) (by omega)] at h
  cases h

/-- Two numbers, one after the other, that have been read are before the limit. -/
theorem fields_eq_ok (hlen : b.array.length < 2 ^ 31) {pos n m : ℕ} {num type : BitVec 32}
    (hpos : pos ≤ b.array.length) (hroom : ¬add32 (add32 pos n) m > b.limit)
    (hnum : getInt b.array pos n = .ok num) (htype : getInt b.array (add32 pos n) m = .ok type) :
    pos + n + m ≤ b.limit := by
  have hn := getBits_eq_ok hlen hpos hnum
  rw [add32_natCast (by omega)] at htype hroom
  have hm := getBits_eq_ok hlen hn htype
  rw [add32_natCast (by omega)] at hroom
  omega

/-! ### Values -/

/-- What is read of a value is there.  Of a number with a negative length nothing is read,
and a floating-point number has the bytes of its type. -/
def Present (b : ByteBuffer) (vt : ValueType) (start : ℕ) (len : ℤ) : Prop :=
  match vt with
  | .i8 | .i16 | .i32 | .i64 => start + len ≤ b.array.length
  | .f4 | .f8 => start + width vt ≤ b.limit
  | .s => 0 ≤ len ∧ start + len ≤ b.array.length
  | .b => 0 ≤ len ∧ start + len ≤ b.limit

section Value

variable {start : ℕ} {len : ℤ}

theorem exists_getBits_iff (w : ℕ) {data : List UInt8} (hdata : data.length < 2 ^ 31)
    (hstart : start ≤ data.length) :
    (∃ v, getBits w data start len.toNat 0 0 = .ok v) ↔ start + len ≤ data.length := by
  constructor
  · rintro ⟨v, hv⟩
    have hle := getBits_eq_ok hdata hstart hv
    omega
  · intro hle
    exact ⟨_, getBits_range w hdata (by omega)⟩

theorem exists_getNumber_iff (n : ℕ) :
    (∃ v, b.getNumber start n = .ok v) ↔ start + n ≤ b.limit := by
  rw [ByteBuffer.getNumber, ByteBuffer.getBytes]
  by_cases hle : start + n ≤ b.limit
  · rw [if_pos (by omega)]
    exact iff_of_true ⟨_, rfl⟩ hle
  · rw [if_neg (by omega)]
    exact iff_of_false (by simp) hle

theorem exists_newString_iff {data : List UInt8} :
    (∃ v, newString utf8 data start len = .ok v) ↔ 0 ≤ len ∧ start + len ≤ data.length := by
  rw [newString]
  by_cases hle : 0 ≤ len ∧ start + len ≤ data.length
  · rw [if_pos (by omega)]
    exact iff_of_true ⟨_, rfl⟩ hle
  · rw [if_neg (by omega)]
    exact iff_of_false (by simp) hle

theorem exists_nextBytes_iff (hstart : start ≤ b.limit) :
    (∃ r, (do
      let buf ← b.setPosition start
      let (bs, buf) ← buf.nextBytes len.toNat
      return (setValue utf8 (.byteBuffer (.wrap bs)), buf)) = .ok r) ↔
      start + len.toNat ≤ b.limit := by
  rw [ByteBuffer.setPosition, dif_pos (by omega), ok_bind]
  simp only [ByteBuffer.nextBytes, Int.toNat_natCast]
  by_cases hle : start + len.toNat ≤ b.limit
  · rw [dif_pos hle]
    exact iff_of_true ⟨_, rfl⟩ hle
  · rw [dif_neg hle]
    exact iff_of_false (by simp) hle

/-- What is done with a value that has been read does not fail. -/
theorem exists_return_iff {α β : Type} {x : Except Throwable α} {f : α → β} :
    (∃ r, (do return f (← x)) = Except.ok r) ↔ ∃ v, x = .ok v := by
  cases x with
  | error e => simp
  | ok v => exact iff_of_true ⟨_, rfl⟩ ⟨v, rfl⟩

/-- **A value is read just if what is read of it is there.** -/
theorem exists_parseValue_iff (hlen : b.array.length < 2 ^ 31) (hstart : start ≤ b.limit)
    (vt : ValueType) : (∃ r, parseValue utf8 b vt start len = .ok r) ↔ Present b vt start len := by
  have hle := b.limit_le
  have hint : (∃ v, getInt b.array start len = .ok v) ↔ start + len ≤ b.array.length :=
    exists_getBits_iff 32 hlen (by omega)
  have hlong : (∃ v, getLong b.array start len = .ok v) ↔ start + len ≤ b.array.length :=
    exists_getBits_iff 64 hlen (by omega)
  cases vt with
  | i8 => exact exists_return_iff.trans hint
  | i16 => exact exists_return_iff.trans hint
  | i32 => exact exists_return_iff.trans hint
  | i64 => exact exists_return_iff.trans hlong
  | f4 => exact exists_return_iff.trans (exists_getNumber_iff 4)
  | f8 => exact exists_return_iff.trans (exists_getNumber_iff 8)
  | s => exact exists_return_iff.trans exists_newString_iff
  | b =>
    simp only [parseValue, Present, ByteBuffer.allocate]
    by_cases hneg : len < 0
    · rw [if_pos hneg, error_bind]
      exact iff_of_false (by simp) (by omega)
    · rw [if_neg hneg, ok_bind, exists_nextBytes_iff hstart]
      omega

theorem parseValue_moved {vt : ValueType} {pos : ℤ} {av : AttributeValue} {buf : ByteBuffer}
    (h : parseValue utf8 b vt pos len = .ok (av, buf)) : b.Moved buf := by
  have hsame : ∀ {α : Type} {x : Except Throwable α} {f : α → AttributeValue},
      (do return (f (← x), b)) = Except.ok (av, buf) → b.Moved buf := by
    intro α x f h
    obtain ⟨v, -, h⟩ := bind_eq_ok_iff.mp h
    cases h
    exact .refl b
  cases vt with
  | b =>
    obtain ⟨_, -, h⟩ := bind_eq_ok_iff.mp h
    obtain ⟨c, hset, h⟩ := bind_eq_ok_iff.mp h
    obtain ⟨⟨bs, d⟩, hnext, h⟩ := bind_eq_ok_iff.mp h
    cases h
    exact (ByteBuffer.setPosition_moved hset).trans (ByteBuffer.nextBytes_moved hnext)
  | _ => exact hsame h

theorem parsePayload_next {st st' : Parser} {key : DualKey} {vt : ValueType} {pos : ℤ}
    (h : parsePayload utf8 st key vt pos len = .ok (.next st')) :
    add32 pos len ≤ st.buf.limit ∧ st'.pos = add32 pos len ∧ st.buf.Moved st'.buf ∧
      ∃ r, parseValue utf8 st.buf vt pos len = .ok r := by
  rw [parsePayload] at h
  split at h
  · cases h
  · obtain ⟨⟨av, buf⟩, hvalue, h⟩ := bind_eq_ok_iff.mp h
    cases h
    exact ⟨by omega, rfl, parseValue_moved hvalue, _, hvalue⟩

end Value

/-! ### Records -/

/-- The value of an attribute whose number and type end here: its type, where it starts,
and how long it says that it is. -/
def ValueAt (b : ByteBuffer) (head : UInt8) (pos : ℕ) (vt : ValueType) (start : ℕ) (len : ℤ) :
    Prop :=
  ∃ tag size : UInt8, b.get pos = .ok tag ∧ b.get (pos + 1 : ℕ) = .ok size ∧
    tag.toNat ≤ ValueType.b.ordinal ∧ ValueType.values.getD tag.toNat .b = vt ∧
      if head &&& 0x80 = 0 then
        start = pos + 2 + size.toNat ∧ start ≤ b.limit ∧
          len = (readInt ((b.array.drop (pos + 2)).take size.toNat)).toInt
      else start = pos + 2 ∧ len = size.toNat

/-- The loop stands before an attribute of the last entity, and this is its value. -/
def Located (st : Parser) (vt : ValueType) (start : ℕ) (len : ℤ) : Prop :=
  ∃ (pos : ℕ) (head : UInt8), st.pos = pos ∧ st.buf.get pos = .ok head ∧ head &&& 0x40 ≠ 0 ∧
    st.entities ≠ [] ∧ ValueAt st.buf head (pos + 1 + numWidth head + typeWidth head) vt start len

section Record

variable {st st' : Parser} {vt : ValueType} {start : ℕ} {len : ℤ}

theorem ValueAt.bounds {head : UInt8} {pos : ℕ} (h : ValueAt b head pos vt start len) :
    pos + 2 ≤ start ∧ start ≤ b.limit ∧ -2 ^ 31 ≤ len ∧ len < 2 ^ 31 := by
  obtain ⟨tag, size, -, hsize, -, -, h⟩ := h
  have hlt := ByteBuffer.get_eq_ok hsize
  have hbyte := size.toNat_lt
  split at h
  · obtain ⟨rfl, hle, rfl⟩ := h
    exact ⟨by omega, hle, BitVec.le_toInt _, BitVec.toInt_lt⟩
  · obtain ⟨rfl, rfl⟩ := h
    omega

theorem ValueAt.moved {b' : ByteBuffer} {head : UInt8} {pos : ℕ}
    (h : ValueAt b head pos vt start len) (hmoved : b.Moved b') :
    ValueAt b' head pos vt start len := by
  obtain ⟨tag, size, htag, hsize, h⟩ := h
  refine ⟨tag, size, (hmoved.get_eq _).trans htag, (hmoved.get_eq _).trans hsize, ?_⟩
  rwa [hmoved.limit_eq, hmoved.array_eq]

theorem Located.bounds (h : Located st vt start len) :
    0 ≤ st.pos ∧ st.pos + 3 ≤ start ∧ start ≤ st.buf.limit ∧ -2 ^ 31 ≤ len ∧ len < 2 ^ 31 := by
  obtain ⟨pos, head, hpos, -, -, -, hvalue⟩ := h
  have hbounds := hvalue.bounds
  omega

variable (hlen : st.buf.array.length < 2 ^ 31)

include hlen

theorem parseAttribute_at {head : UInt8} {pos : ℕ} (hne : st.entities ≠ [])
    (h : ValueAt st.buf head pos vt start len) (key : DualKey) :
    parseAttribute utf8 st head key pos = parsePayload utf8 st key vt start len := by
  obtain ⟨tag, size, htag, hsize, hle, rfl, h⟩ := h
  have hlimit := st.buf.limit_le
  rw [parseAttribute_get hlen hne head key htag hsize, if_neg (by omega)]
  by_cases hwide : head &&& 0x80 = 0
  · rw [if_pos hwide] at h ⊢
    obtain ⟨rfl, hroom, rfl⟩ := h
    have hnumber : getInt st.buf.array (pos + 2 : ℕ) size.toNat = _ :=
      getBits_range 32 hlen (by omega)
    rw [add32_natCast (by omega), if_neg (by omega), hnumber, ok_bind]
    rfl
  · rw [if_neg hwide] at h ⊢
    obtain ⟨rfl, rfl⟩ := h
    rfl

theorem parseRecord_located (h : Located st vt start len) :
    ∃ key, parseRecord utf8 st = parsePayload utf8 st key vt start len := by
  have hbounds := h.bounds
  obtain ⟨pos, head, hpos, hhead, hattr, hne, hvalue⟩ := h
  have hlimit := st.buf.limit_le
  have hle := hvalue.bounds
  obtain ⟨num, type, hnum, htype⟩ := @fields_ok st.buf hlen (pos + 1) (numWidth head)
    (typeWidth head) (by omega)
  have hend : add32 (add32 (pos + 1 : ℕ) (numWidth head)) (typeWidth head) =
      (pos + 1 + numWidth head + typeWidth head : ℕ) := by
    rw [add32_natCast (by omega), add32_natCast (by omega)]
  refine ⟨⟨num, type⟩, ?_⟩
  rw [← parseAttribute_at hlen hne hvalue, parseRecord_get hlen hpos hhead, if_neg (by omega), hnum,
    ok_bind, htype, ok_bind, if_neg hattr, hend]

/-- An attribute that is followed by another record has an entity, and two bytes at least. -/
theorem gets_of_parseAttribute {head : UInt8} {pos : ℕ} {key : DualKey}
    (h : parseAttribute utf8 st head key pos = .ok (.next st')) :
    st.entities ≠ [] ∧ ∃ tag size, st.buf.get pos = .ok tag ∧
      st.buf.get (pos + 1 : ℕ) = .ok size := by
  have hlimit := st.buf.limit_le
  rw [parseAttribute] at h
  by_cases hnil : st.entities = []
  · rw [if_pos hnil] at h
    cases h
  rw [if_neg hnil] at h
  split at h
  · cases h
  obtain ⟨tag, htag, h⟩ := bind_eq_ok_iff.mp h
  have hlt := ByteBuffer.get_eq_ok htag
  simp only at h
  split at h
  · cases h
  obtain ⟨size, hsize, -⟩ := bind_eq_ok_iff.mp h
  rw [add32_one (by omega)] at hsize
  exact ⟨hnil, tag, size, htag, hsize⟩

theorem parseAttribute_next {head : UInt8} {pos : ℕ} {key : DualKey}
    (h : parseAttribute utf8 st head key pos = .ok (.next st')) :
    st.entities ≠ [] ∧ ∃ vt start len, ValueAt st.buf head pos vt start len ∧
      parsePayload utf8 st key vt start len = .ok (.next st') := by
  have hlimit := st.buf.limit_le
  obtain ⟨hne, tag, size, htag, hsize⟩ := gets_of_parseAttribute hlen h
  have hlt := ByteBuffer.get_eq_ok hsize
  refine ⟨hne, ?_⟩
  rw [parseAttribute_get hlen hne head key htag hsize] at h
  split at h
  · cases h
  split at h
  · rename_i hwide
    split at h
    · cases h
    rename_i hroom
    obtain ⟨number, hnumber, h⟩ := bind_eq_ok_iff.mp h
    have hin := @getBits_eq_ok _ (pos + 2) _ _ hlen (by omega) _ hnumber
    have hrange : getInt st.buf.array (pos + 2 : ℕ) size.toNat = _ := getBits_range 32 hlen hin
    rw [hrange] at hnumber
    cases hnumber
    rw [add32_natCast (by omega)] at h hroom
    refine ⟨_, _, _, ⟨tag, size, htag, hsize, by omega, rfl, ?_⟩, h⟩
    rw [if_pos hwide]
    exact ⟨rfl, by omega, rfl⟩
  · rename_i hwide
    refine ⟨_, _, _, ⟨tag, size, htag, hsize, by omega, rfl, ?_⟩, h⟩
    rw [if_neg hwide]
    exact ⟨rfl, rfl⟩

/-- **A turn that is followed by another one** has read an entity, of which at least the first
byte is passed, or an attribute. -/
theorem parseRecord_next (h : parseRecord utf8 st = .ok (.next st')) :
    0 ≤ st.pos ∧ st.pos < st.buf.limit ∧
      (st.pos + 1 ≤ st'.pos ∧ st'.pos ≤ st.buf.limit ∧ st.buf.Moved st'.buf ∨
        ∃ vt start len key, Located st vt start len ∧
          parsePayload utf8 st key vt start len = .ok (.next st')) := by
  have hlimit := st.buf.limit_le
  obtain ⟨head, hhead, -⟩ := bind_eq_ok_iff.mp h
  have hlt := ByteBuffer.get_eq_ok hhead
  refine ⟨hlt.1, hlt.2, ?_⟩
  obtain ⟨pos, hpos⟩ := Int.eq_ofNat_of_zero_le hlt.1
  rw [hpos] at hhead
  rw [parseRecord_get hlen hpos hhead] at h
  split at h
  · cases h
  rename_i hroom
  obtain ⟨num, hnum, h⟩ := bind_eq_ok_iff.mp h
  obtain ⟨type, htype, h⟩ := bind_eq_ok_iff.mp h
  have hle := fields_eq_ok hlen (by omega) hroom hnum htype
  have hend : add32 (add32 (pos + 1 : ℕ) (numWidth head)) (typeWidth head) =
      (pos + 1 + numWidth head + typeWidth head : ℕ) := by
    rw [add32_natCast (by omega), add32_natCast (by omega)]
  rw [hend] at h
  split at h
  · -- an entity ends behind its numbers
    cases h
    simp only
    exact .inl ⟨by omega, by omega, .refl _⟩
  · obtain ⟨hne, vt, start, len, hvalue, h⟩ := parseAttribute_next hlen h
    exact .inr ⟨vt, start, len, _, ⟨pos, head, hpos, hhead, ‹_›, hne, hvalue⟩, h⟩

theorem parseRecord_moved (h : parseRecord utf8 st = .ok (.next st')) : st.buf.Moved st'.buf := by
  obtain ⟨-, -, ⟨-, -, hmoved⟩ | ⟨vt, start, len, key, -, hpayload⟩⟩ := parseRecord_next hlen h
  · exact hmoved
  · obtain ⟨-, -, hmoved, -⟩ := parsePayload_next hpayload
    exact hmoved

end Record

/-! ### From the header to the records -/

/-- The buffer passes the stage of the header: there are `ds` bytes of records, and the loop
starts here. -/
def Passes (b : ByteBuffer) (ds : ℤ) (st : Parser) : Prop :=
  st.entities = [] ∧ ∃ h, readHeader b = .ok h ∧
    ∀ task, ∃ task', readTask task h = .ok (task', st.pos, ds, st.buf)

/-- The loop has come to this place, through these. -/
structure Arrives (utf8 : Charset) (b : ByteBuffer) (ds : ℤ) (st₀ : Parser)
    (hist : List (Parser × Unit)) (st : Parser) : Prop where
  passes : Passes b ds st₀
  run : History.Run (fun st _ st' => TurnsTo utf8 (add32 st₀.pos ds) st st') st₀ hist st

/-- A turn of the record loop begins here. -/
def Begins (utf8 : Charset) (b : ByteBuffer) (st : Parser) : Prop :=
  ∃ ds st₀ hist, Arrives utf8 b ds st₀ hist st ∧ add32 st.pos eavHeaderSize ≤ add32 st₀.pos ds

/-- What has been read if the header is not refused. -/
theorem readTask_eq_ok {h : PacketHeader} {task task' : EavTask} {pos ds : ℤ} {buf : ByteBuffer}
    (hread : readTask task h = .ok (task', pos, ds, buf)) :
    ∃ cmd command packetID size, h.buf.get 3 = .ok cmd ∧
      Commands.values[cmd.toNat]? = some command ∧
      getInt h.buf.array packetHeaderSize h.pidLen = .ok packetID ∧
      getInt h.buf.array (packetHeaderSize + h.pidLen : ℕ) h.dsLen = .ok size ∧
      crc16 h.buf pos (if size.toInt > 0xFFFF then 0xFFFF else size.toInt) = .ok (h.crc1, buf) ∧
      pos = (packetHeaderSize + h.pidLen + h.dsLen : ℕ) ∧ ds = size.toInt := by
  obtain ⟨cmd, hcmd, hread⟩ := bind_eq_ok_iff.mp hread
  cases hcommand : Commands.values[cmd.toNat]? with
  | none =>
    rw [hcommand] at hread
    cases hread
  | some command =>
    rw [hcommand] at hread
    replace hread := (ok_bind command _).symm.trans hread
    obtain ⟨packetID, hid, hread⟩ := bind_eq_ok_iff.mp hread
    obtain ⟨size, hsize, hread⟩ := bind_eq_ok_iff.mp hread
    obtain ⟨⟨crc, buf'⟩, hcrc, hread⟩ := bind_eq_ok_iff.mp hread
    simp only at hread
    -- the last check is that of the checksum
    by_cases hne : h.crc1 ≠ crc
    · rw [if_pos hne] at hread
      cases hread
    · rw [if_neg hne] at hread
      rw [not_not] at hne
      cases hread
      exact ⟨cmd, command, packetID, size, hcmd, hcommand, hid, hsize, hne ▸ hcrc, rfl, rfl⟩

/-- What is read after the header does not depend on the task that it is read for. -/
theorem readTask_any {h : PacketHeader} {task task' : EavTask} {pos ds : ℤ} {buf : ByteBuffer}
    (hread : readTask task h = .ok (task', pos, ds, buf)) (task₁ : EavTask) :
    ∃ task₁', readTask task₁ h = .ok (task₁', pos, ds, buf) := by
  obtain ⟨cmd, command, packetID, size, hcmd, hcommand, hid, hsize, hcrc, rfl, rfl⟩ :=
    readTask_eq_ok hread
  rw [readTask, hcmd, ok_bind]
  simp only [hcommand, hid, hsize, hcrc, ok_bind]
  rw [if_neg (not_not.mpr rfl)]
  exact ⟨_, rfl⟩

/-- The records are behind the header, in the same buffer. -/
theorem Passes.bounds {ds : ℤ} {st : Parser} (h : Passes b ds st) :
    st.buf.array = b.array ∧ st.buf.limit = b.limit ∧ 0 ≤ st.pos ∧ st.pos < 2 ^ 31 ∧
      -2 ^ 31 ≤ ds ∧ ds < 2 ^ 31 := by
  obtain ⟨-, header, hheader, hread⟩ := h
  obtain ⟨task', hread⟩ := hread (EavTask.new none 1).1
  obtain ⟨-, -, -, size, -, -, -, -, hcrc, hpos, rfl⟩ := readTask_eq_ok hread
  obtain ⟨head, -, hheader⟩ := bind_eq_ok_iff.mp hheader
  obtain ⟨crc, -, hheader⟩ := bind_eq_ok_iff.mp hheader
  cases hheader
  have hmoved := crc16_moved hcrc
  have hp := UInt8.toNat_lt (head &&& 0x03)
  have hd := UInt8.toNat_lt ((head &&& 0x1C) >>> 2)
  simp only [packetHeaderSize] at hpos
  exact ⟨hmoved.array_eq, hmoved.limit_eq, by omega, by omega, BitVec.le_toInt _, BitVec.toInt_lt⟩

/-- The buffer stays the same, wherever the loop comes to. -/
theorem Arrives.buf_eq (hlen : b.array.length < 2 ^ 31) {ds : ℤ} {st₀ st : Parser}
    {hist : List (Parser × Unit)} (h : Arrives utf8 b ds st₀ hist st) :
    st.buf.array = b.array ∧ st.buf.limit = b.limit := by
  obtain ⟨harray, hlimit, -⟩ := h.passes.bounds
  apply @History.Run.invariant Parser Unit _ st₀ st hist
    (fun st => st.buf.array = b.array ∧ st.buf.limit = b.limit) ?_ h.run ⟨harray, hlimit⟩
  rintro st - st' ⟨harr, hlim⟩ hturn
  have hmoved := parseRecord_moved (harr ▸ hlen) hturn.2
  exact ⟨hmoved.array_eq.trans harr, hmoved.limit_eq.trans hlim⟩

/-- The loop makes the task. -/
theorem createFromArray_of_passes (utf8 : Charset) {ds : ℤ} {st : Parser} (h : Passes b ds st)
    (ID : BitVec 32) : ∃ task : EavTask, ∀ fuel, (createFromArray utf8 fuel ID b).1 =
      (parseLoop utf8 (add32 st.pos ds) fuel st).map fun r =>
        r.map fun st => { task with entities := st.entities } := by
  obtain ⟨hnil, header, hheader, hread⟩ := h
  obtain ⟨task, htask⟩ := hread
    { (EavTask.new (some "FromArray") ID).1 with status := .obtained }
  refine ⟨task, fun fuel => ?_⟩
  simp only [createFromArray, hheader, htask, ← hnil]

/-- Otherwise the header is refused. -/
theorem createFromArray_of_not_passes (utf8 : Charset) (h : ∀ ds st, ¬Passes b ds st)
    (ID : BitVec 32) : ∃ e, ∀ fuel, (createFromArray utf8 fuel ID b).1 = some (.error e) := by
  simp only [createFromArray]
  cases hheader : readHeader b with
  | error e => exact ⟨e, fun _ => rfl⟩
  | ok header =>
    cases htask : readTask { (EavTask.new (some "FromArray") ID).1 with status := .obtained }
      header with
    | error e => exact ⟨e, fun _ => by simp only [htask]⟩
    | ok r =>
      obtain ⟨task, pos, ds, buf⟩ := r
      exact absurd ⟨rfl, header, hheader, readTask_any htask⟩ (h ds ⟨[], pos, buf⟩)

/-- There is one place only where the records of a buffer start. -/
theorem Passes.unique {ds ds' : ℤ} {st st' : Parser} (h : Passes b ds st)
    (h' : Passes b ds' st') : ds' = ds ∧ st' = st := by
  obtain ⟨hnil, header, hheader, hread⟩ := h
  obtain ⟨hnil', header', hheader', hread'⟩ := h'
  cases hheader.symm.trans hheader'
  obtain ⟨task, htask⟩ := hread (EavTask.new none 1).1
  obtain ⟨task', htask'⟩ := hread' (EavTask.new none 1).1
  have heq := htask.symm.trans htask'
  simp only [Except.ok.injEq, Prod.mk.injEq] at heq
  obtain ⟨-, hpos, rfl, hbuf⟩ := heq
  exact ⟨rfl, by rw [Parser.mk.injEq, hnil, hnil', hpos, hbuf]; exact ⟨rfl, rfl, rfl⟩⟩

/-! ### A packet of three records -/

/-- A packet of an entity with a number and a text. -/
def several : ByteBuffer := .wrap [5, 26, 130, 2, 1, 18, 9, 1, 2, 201, 3, 4, 1, 2, 0, 1, 209, 5,
  44, 1, 6, 2, 97, 98]

/-- A buffer behind its bytes, as the header leaves it. -/
def behind (b : ByteBuffer) : ByteBuffer :=
  { b with position := b.limit, order := .littleEndian, position_le := Nat.le_refl _ }

theorem passes_several : Passes several 18 ⟨[], 6, behind several⟩ :=
  ⟨rfl, ⟨1, 1, 0x821A#16, several.setOrder .littleEndian⟩, by decide,
    @readTask_any _ (EavTask.new none 1).1
      { (EavTask.new none 1).1 with command := .writeAttribute, packetID := 1 } _ _ _
      (by decide +kernel)⟩

/-- The loop comes to the entity, -/
def atEntity : Parser := ⟨[], 6, behind several⟩

/-- to the number, -/
def atNumber : Parser := ⟨[EntityM.new 1 2], 9, behind several⟩

/-- to the text, -/
def atText : Parser :=
  ⟨putLast [EntityM.new 1 2] ⟨3, 4⟩ (setValue .utf8 (.short 256)), 16, behind several⟩

/-- and to the end. -/
def atEnd : Parser :=
  ⟨putLast atText.entities ⟨5, 300⟩ (setValue .utf8 (.string "ab")), 24, behind several⟩

theorem parseRecord_several : parseRecord .utf8 atEntity = .ok (.next atNumber) ∧
    parseRecord .utf8 atNumber = .ok (.next atText) ∧
    parseRecord .utf8 atText = .ok (.next atEnd) :=
  ⟨by decide +kernel, by decide +kernel, by decide +kernel⟩

/-- It comes to nothing else. -/
theorem begins_several {st : Parser} (h : Begins .utf8 several st) :
    st = atEntity ∨ st = atNumber ∨ st = atText := by
  obtain ⟨ds, st₀, hist, ⟨hpasses, hrun⟩, hguard⟩ := h
  obtain ⟨rfl, rfl⟩ := passes_several.unique hpasses
  obtain ⟨hentity, hnumber, htext⟩ := parseRecord_several
  have hplaces : (st = atEntity ∨ st = atNumber ∨ st = atText) ∨
      ¬add32 st.pos eavHeaderSize ≤ 24 := by
    apply @History.Run.invariant Parser Unit _ _ st hist
      (fun st => (st = atEntity ∨ st = atNumber ∨ st = atText) ∨
        ¬add32 st.pos eavHeaderSize ≤ 24) ?_ hrun (.inl (.inl rfl))
    rintro _ - st' ((rfl | rfl | rfl) | hend) ⟨hturn, hrecord⟩
    · cases hentity.symm.trans hrecord
      exact .inl (.inr (.inl rfl))
    · cases hnumber.symm.trans hrecord
      exact .inl (.inr (.inr rfl))
    · -- this turn ends at the end of the records
      cases htext.symm.trans hrecord
      exact .inr (by decide)
    · exact absurd hturn hend
  exact hplaces.resolve_right fun hend => hend hguard

end Client
end PeeledOrange
