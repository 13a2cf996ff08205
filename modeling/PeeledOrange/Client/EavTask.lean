import PeeledOrange.Client.EgtsCrc
import PeeledOrange.Client.Eav

/-!
# Requests and answers

A task holds a command, a packet ID and entities.  `setRequestData` makes a packet of
them: it runs over the entities once for the sizes, allocates the packet, and runs over
them once more to fill it in.  `createFromArray` makes a task of a packet: it reads the
header, compares the checksum, and then reads one record after the other.

Numbers have as many bytes as they need, and lengths are in front of what they are the
length of.  The record loop need not come to an end for what has not been made by
`setRequestData`, so that it takes the number of turns it may make; `none` is for a
loop that has not ended.

## Main definitions

* `getIncrementID` — the next packet ID.
* `bytes`, `array`, `getInt`, `getLong`, `optimizeData` — numbers.
* `setRequestData` — the packet of a task.
* `parseRecord`, `parseLoop`, `createFromArray` — the task of a packet.
-/

namespace PeeledOrange
namespace Client

open Java

/-! ### Tasks -/

/-- `EavTask.Commands`. -/
inductive Commands
  | readEntity | readAttribute | writeAttribute | deleteEntity | deleteAttribute | createEntity
  | readHistory | writeHistory | readFile | writeFile | readAllDescrs
  deriving DecidableEq, Repr

/-- `values`. -/
def Commands.values : List Commands :=
  [readEntity, readAttribute, writeAttribute, deleteEntity, deleteAttribute, createEntity,
    readHistory, writeHistory, readFile, writeFile, readAllDescrs]

/-- `ordinal`. -/
def Commands.ordinal : Commands → ℕ
  | readEntity => 0 | readAttribute => 1 | writeAttribute => 2 | deleteEntity => 3
  | deleteAttribute => 4 | createEntity => 5 | readHistory => 6 | writeHistory => 7
  | readFile => 8 | writeFile => 9 | readAllDescrs => 10

/-- `EavTask.MessageType`. -/
inductive MessageType
  | unknown | connect | task | ping
  deriving DecidableEq, Repr

/-- `AbstractTask.StatusEnum`. -/
inductive StatusEnum
  | prepared | requested | done | exspired | obtained
  deriving DecidableEq, Repr

/-- `EavTask`. -/
structure EavTask where
  name : Option String
  command : Commands
  messageType : MessageType
  entities : List EntityM
  packetID : BitVec 32
  requestData : ByteBuffer
  status : StatusEnum
  deriving DecidableEq, Repr

/-- `getIncrementID`: the packet ID, and `ID` after it. -/
def getIncrementID (ID : BitVec 32) : BitVec 32 × BitVec 32 :=
  -- 0xFFFF is not given out
  let ID := if (ID + 1).toInt > 0xFFFF then 1 else ID
  (ID, ID + 1)

/-- `ID` after `n` packet IDs have been drawn. -/
def drawn : ℕ → BitVec 32
  | 0 => 1
  | n + 1 => (getIncrementID (drawn n)).2

/-- The constructor: a task, and `ID` after it. -/
def EavTask.new (name : Option String) (ID : BitVec 32) : EavTask × BitVec 32 :=
  let (packetID, ID) := getIncrementID ID
  (⟨name, .readEntity, .unknown, [], packetID, .wrap [], .prepared⟩, ID)

/-! ### Numbers -/

/-- How many bytes a number needs. -/
def bytes (v : BitVec 32) : ℕ :=
  if v.toInt < 0 then 4
  else
    -- the shift keeps the sign: each mask has one more byte set than the one before
    match (List.range 4).find? fun i => v &&& (0xFF000000#32).sshiftRight (i * 8) ≠ 0 with
    | some i => 4 - i
    | none => 0

/-- The bytes of a number, the least significant one first. -/
def array (data : BitVec 32) : List UInt8 :=
  [.ofBitVec ((data &&& 0x000000FF).setWidth 8),
    .ofBitVec (((data &&& 0x0000FF00).sshiftRight 8).setWidth 8),
    .ofBitVec (((data &&& 0x00FF0000).sshiftRight 16).setWidth 8),
    .ofBitVec (((data &&& 0xFF000000).sshiftRight 24).setWidth 8)]

/-- The element of an array at an index. -/
def element (data : List UInt8) (i : ℤ) : Except Throwable UInt8 :=
  if 0 ≤ i ∧ i < data.length then .ok (data.getD i.toNat 0) else .error .arrayIndexOutOfBounds

/-- The loop of `getInt` and `getLong`, in a number of `w` bits, with `n` turns left; the
distance of a shift is taken modulo the width. -/
def getBits (w : ℕ) (data : List UInt8) (offset : ℤ) : ℕ → ℕ → BitVec w →
    Except Throwable (BitVec w)
  | 0, _, res => .ok res
  | n + 1, i, res => do
    let b ← element data (add32 offset i)
    getBits w data offset n (i + 1) (res ||| b.toBitVec.setWidth w <<< (i * 8 % w))

/-- `getInt`. -/
def getInt (data : List UInt8) (offset len : ℤ) : Except Throwable (BitVec 32) :=
  getBits 32 data offset len.toNat 0 0

/-- `getLong`. -/
def getLong (data : List UInt8) (offset len : ℤ) : Except Throwable (BitVec 64) :=
  getBits 64 data offset len.toNat 0 0

/-- `optimizeData`: the leading zeros are left out, and the bytes are reversed.  An array
with no bytes has no first one. -/
def optimizeData (src : ByteBuffer) : Except Throwable ByteBuffer :=
  if src.array = [] then .error .arrayIndexOutOfBounds
  else
    let dst := ByteBuffer.wrap (Bytes.trim src.array).reverse
    .ok { dst with position := dst.limit, position_le := Nat.le_refl _ }

/-! ### The packet of a task -/

/-- `PACKET_HEADER_SIZE`. -/
def packetHeaderSize : ℕ := 4

/-- `EAV_HEADER_SIZE`. -/
def eavHeaderSize : ℕ := 1

/-- The buffer of a value: the first pass reverses numbers, by the order of the types. -/
def buffered (av : AttributeValue) : Except Throwable ByteBuffer :=
  if av.valueType.ordinal < ValueType.f4.ordinal then optimizeData av.value else .ok av.value

/-- The first pass, for an attribute: the size, and the buffers of the values. -/
def measureAttribute (st : ℤ × List ByteBuffer) (a : Attribute) :
    Except Throwable (ℤ × List ByteBuffer) := do
  let ds := add32 st.1 eavHeaderSize
  let ds := add32 ds (bytes a.num)
  let ds := add32 ds (bytes a.type)
  let bb ← buffered a.value
  let len := bb.array.length
  let ds :=
    if len < 256 then add32 ds (add32 2 len)
    else add32 ds (add32 (add32 2 (bytes (BitVec.ofNat 32 len))) len)
  return (ds, st.2 ++ [bb])

/-- The first pass, for an entity. -/
def measureEntity (st : ℤ × List ByteBuffer) (e : EntityL) :
    Except Throwable (ℤ × List ByteBuffer) :=
  let ds := add32 st.1 eavHeaderSize
  let ds := add32 ds (bytes e.num)
  let ds := add32 ds (bytes e.type)
  e.attributes.foldlM measureAttribute (ds, st.2)

/-- The second pass, for an attribute: the packet, and the buffers that are left. -/
def writeAttribute (st : ByteBuffer × List ByteBuffer) (a : Attribute) :
    Except Throwable (ByteBuffer × List ByteBuffer) := do
  let numLen := bytes a.num
  let typeLen := bytes a.type
  let header := numLen ||| typeLen <<< 3 ||| 1 <<< 6
  match st.2 with
  | [] => .error .nullPointer
  | bb :: list =>
    let len := bb.array.length
    let lenLen := bytes (BitVec.ofNat 32 len)
    -- a length of 0 is one byte, too
    let lenLen := if lenLen = 0 then 1 else lenLen
    let header := if lenLen < 2 then header ||| 1 <<< 7 else header
    let buf ← st.1.put [UInt8.ofNat header]
    let buf ← buf.putFirst (array a.num) numLen
    let buf ← buf.putFirst (array a.type) typeLen
    let buf ← buf.put [UInt8.ofNat a.value.valueType.ordinal]
    let buf ← if lenLen > 1 then buf.put [UInt8.ofNat lenLen] else .ok buf
    let buf ← buf.putFirst (array (BitVec.ofNat 32 len)) lenLen
    let buf ← buf.putFirst bb.array len
    return (buf, list)

/-- The second pass, for an entity. -/
def writeEntity (st : ByteBuffer × List ByteBuffer) (e : EntityL) :
    Except Throwable (ByteBuffer × List ByteBuffer) := do
  let numLen := bytes e.num
  let typeLen := bytes e.type
  let buf ← st.1.put [UInt8.ofNat (numLen ||| typeLen <<< 3)]
  let buf ← buf.putFirst (array e.num) numLen
  let buf ← buf.putFirst (array e.type) typeLen
  e.attributes.foldlM writeAttribute (buf, st.2)

/-- `setRequestData`. -/
def setRequestData (task : EavTask) (es : List EntityL) : Except Throwable EavTask := do
  let pidLen := bytes task.packetID
  let (ds, list) ← es.foldlM measureEntity (0, [])
  let dsLen := bytes (BitVec.ofInt 32 ds)
  let size := add32 (packetHeaderSize + pidLen + dsLen) ds
  let buf ← ByteBuffer.allocate size
  let buf ← buf.putAt 0 (UInt8.ofNat (pidLen ||| dsLen <<< 2))
  let buf ← buf.putAt 3 (UInt8.ofNat task.command.ordinal)
  let buf ← buf.setPosition packetHeaderSize
  let buf ← buf.putFirst (array task.packetID) pidLen
  let buf ← buf.putFirst (array (BitVec.ofInt 32 ds)) dsLen
  let (buf, _) ← es.foldlM writeEntity (buf, list)
  let pos := packetHeaderSize + pidLen + dsLen
  -- only so many bytes are in the checksum
  let (crc, buf) ← crc16 buf pos (if ds > 0xFFFF then 0xFFFF else ds)
  let buf ← buf.setPosition 1
  let buf ← buf.putFirst (array (crc.signExtend 32)) 2
  return { task with requestData := buf }

/-! ### The task of a packet -/

/-- What the record loop has read: the entities, of which the last one takes the next
attributes, and where it stands. -/
structure Parser where
  entities : List EntityM
  pos : ℤ
  buf : ByteBuffer
  deriving DecidableEq, Repr

/-- A turn of the record loop is followed by another one, or leaves the loop. -/
inductive Turn
  | next (st : Parser)
  | leave (st : Parser)
  deriving DecidableEq, Repr

/-- An attribute of the last entity. -/
def putLast : List EntityM → DualKey → AttributeValue → List EntityM
  | [], _, _ => []
  | [e], key, av => [{ e with attributes := e.attributes.put key av }]
  | e :: es, key, av => e :: putLast es key av

variable (utf8 : Charset)

/-- `new String` for a range of an array. -/
def newString (data : List UInt8) (offset len : ℤ) : Except Throwable String :=
  if 0 ≤ offset ∧ 0 ≤ len ∧ offset + len ≤ data.length then
    .ok (utf8.decode ((data.drop offset.toNat).take len.toNat))
  else .error .stringIndexOutOfBounds

/-- The `switch` over the type of a value, and the buffer after it. -/
def parseValue (buf : ByteBuffer) (vtype : ValueType) (pos len : ℤ) :
    Except Throwable (AttributeValue × ByteBuffer) :=
  let data := buf.array
  match vtype with
  | .i8 => do return (setValue utf8 (.byte ((← getInt data pos len).setWidth 8)), buf)
  | .i16 => do return (setValue utf8 (.short ((← getInt data pos len).setWidth 16)), buf)
  | .i32 => do return (setValue utf8 (.integer (← getInt data pos len)), buf)
  | .i64 => do return (setValue utf8 (.long (← getLong data pos len)), buf)
  | .f4 => do return (setValue utf8 (.float (← buf.getNumber pos 4)), buf)
  | .f8 => do return (setValue utf8 (.double (← buf.getNumber pos 8)), buf)
  | .s => do return (setValue utf8 (.string (← newString utf8 data pos len)), buf)
  | .b => do
    let _ ← ByteBuffer.allocate len
    let buf ← buf.setPosition pos
    let (bs, buf) ← buf.nextBytes len.toNat
    return (setValue utf8 (.byteBuffer (.wrap bs)), buf)

/-- The value of an attribute is read, and put into the last entity. -/
def parsePayload (st : Parser) (key : DualKey) (vtype : ValueType) (pos len : ℤ) :
    Except Throwable Turn := do
  if add32 pos len > st.buf.limit then return .leave { st with pos := pos }
  let (av, buf) ← parseValue utf8 st.buf vtype pos len
  return .next ⟨putLast st.entities key av, add32 pos len, buf⟩

/-- The rest of a turn, for an attribute whose number and type have been read. -/
def parseAttribute (st : Parser) (head : UInt8) (key : DualKey) (pos : ℤ) :
    Except Throwable Turn := do
  if st.entities = [] then return .leave { st with pos := pos }
  if add32 pos 2 > st.buf.limit then return .leave { st with pos := pos }
  let vt ← st.buf.get pos
  let pos := add32 pos 1
  if vt.toNat > ValueType.b.ordinal then throw (.exception "Invalid attribute value type")
  let vtype := ValueType.values.getD vt.toNat .b
  let len ← st.buf.get pos
  let pos := add32 pos 1
  if head &&& 0x80 = 0 then
    -- the byte is the width of the length
    if add32 pos len.toNat > st.buf.limit then return .leave { st with pos := pos }
    let number ← getInt st.buf.array pos len.toNat
    parsePayload utf8 st key vtype (add32 pos len.toNat) number.toInt
  else parsePayload utf8 st key vtype pos len.toNat

/-- A turn of the record loop. -/
def parseRecord (st : Parser) : Except Throwable Turn := do
  let data := st.buf.array
  let head ← st.buf.get st.pos
  let numLen := (head &&& 0x07).toNat
  let typeLen := ((head &&& 0x38) >>> 3).toNat
  let pos := add32 st.pos eavHeaderSize
  if add32 (add32 pos numLen) typeLen > st.buf.limit then return .leave { st with pos := pos }
  let num ← getInt data pos numLen
  let pos := add32 pos numLen
  let type ← getInt data pos typeLen
  let pos := add32 pos typeLen
  if head &&& 0x40 = 0 then
    return .next { st with entities := st.entities ++ [EntityM.new num type], pos := pos }
  parseAttribute utf8 st head ⟨num, type⟩ pos

/-- The record loop, in `fuel` turns. -/
def parseLoop (size : ℤ) : ℕ → Parser → Option (Except Throwable Parser)
  | 0, _ => none
  | fuel + 1, st =>
    if add32 st.pos eavHeaderSize ≤ size then
      match parseRecord utf8 st with
      | .error e => some (.error e)
      | .ok (.leave st) => some (.ok st)
      | .ok (.next st) => parseLoop size fuel st
    else some (.ok st)

/-- What the header of a packet says: the widths, and the checksum. -/
structure PacketHeader where
  pidLen : ℕ
  dsLen : ℕ
  crc1 : BitVec 16
  buf : ByteBuffer
  deriving DecidableEq, Repr

/-- The header is read. -/
def readHeader (buf : ByteBuffer) : Except Throwable PacketHeader := do
  let head ← buf.get 0
  let pidLen := (head &&& 0x03).toNat
  let dsLen := ((head &&& 0x1C) >>> 2).toNat
  let buf := buf.setOrder .littleEndian
  let crc1 ← buf.getNumber 1 2
  return ⟨pidLen, dsLen, crc1, buf⟩

/-- The command, the packet ID and the size are read, and the checksum is compared: the
task, and where its records are. -/
def readTask (task : EavTask) (h : PacketHeader) :
    Except Throwable (EavTask × ℤ × ℤ × ByteBuffer) := do
  let cmd ← h.buf.get 3
  -- as a `byte`, the index is negative from 128 on
  let command ← match Commands.values[cmd.toNat]? with
    | some command => Except.ok command
    | none => .error .arrayIndexOutOfBounds
  let data := h.buf.array
  let packetID ← getInt data packetHeaderSize h.pidLen
  let pos := packetHeaderSize + h.pidLen
  let ds ← getInt data pos h.dsLen
  let pos := pos + h.dsLen
  let crcLen := if ds.toInt > 0xFFFF then 0xFFFF else ds.toInt
  let (crc2, buf) ← crc16 h.buf pos crcLen
  if h.crc1 ≠ crc2 then throw (.exception "EAV task parser, crc does not converge")
  return ({ task with command := command, packetID := packetID }, pos, ds.toInt, buf)

/-- `createFromArray`, in at most `fuel` turns of its loop: the task, and `ID` after it,
which is drawn from if there is a header. -/
def createFromArray (fuel : ℕ) (ID : BitVec 32) (buf : ByteBuffer) :
    Option (Except Throwable EavTask) × BitVec 32 :=
  match readHeader buf with
  | .error e => (some (.error e), ID)
  | .ok h =>
    let (task, ID) := EavTask.new (some "FromArray") ID
    match readTask { task with status := .obtained } h with
    | .error e => (some (.error e), ID)
    | .ok (task, pos, ds, buf) =>
      let result := parseLoop utf8 (add32 pos ds) fuel ⟨[], pos, buf⟩
      (result.map fun r => r.map fun st => { task with entities := st.entities }, ID)

end Client
end PeeledOrange
