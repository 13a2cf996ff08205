import PeeledOrange.Lib.Java

/-!
# Entities, attributes and values

The model of data that the client and the server exchange.  An entity has a number and
a type and attributes, which have a number, a type and a value.  `EntityL` has its
attributes in a list, and `EntityM` in a map.

A value is an object of one of eight classes, and is kept as the bytes of a buffer.  Of
floating-point numbers only their bits matter.

## Main definitions

* `Value` — what a value is made of; `AttributeValue`, `setValue` — how it is kept.
* `Attribute`, `DualKey`, `EntityL`, `EntityM`.
* `AttributesMap` — the `put`s that a map is made of.
* `EntityM.createFrom` — an entity with a map from one with a list.
-/

namespace PeeledOrange
namespace Client

open Java

/-- `AttributeValue.ValueType`. -/
inductive ValueType
  | i8 | i16 | i32 | i64 | f4 | f8 | s | b
  deriving DecidableEq, Repr

/-- `ordinal`. -/
def ValueType.ordinal : ValueType → ℕ
  | i8 => 0 | i16 => 1 | i32 => 2 | i64 => 3 | f4 => 4 | f8 => 5 | s => 6 | b => 7

/-- `values`. -/
def ValueType.values : List ValueType := [i8, i16, i32, i64, f4, f8, s, b]

/-- An object of which a value is made: a number, as its bits, a string or a buffer. -/
inductive Value
  | byte (v : BitVec 8)
  | short (v : BitVec 16)
  | integer (v : BitVec 32)
  | long (v : BitVec 64)
  | float (v : BitVec 32)
  | double (v : BitVec 64)
  | string (v : String)
  | byteBuffer (v : ByteBuffer)
  deriving DecidableEq, Repr

/-- `AttributeValue`. -/
structure AttributeValue where
  valueType : ValueType
  value : ByteBuffer
  deriving DecidableEq, Repr

/-- `setValue`, for a new value.  A new buffer has the most significant byte first; the
bytes of a string are put at its position.  The branch for `Double` tests for `Float`
once more, so that a `Double` goes where all other objects go. -/
def setValue (utf8 : Charset) : Value → AttributeValue
  | .string v =>
    let buf := utf8.encode v
    ⟨.s, { ByteBuffer.wrap buf with position := buf.length, position_le := Nat.le_refl _ }⟩
  | .byteBuffer v => ⟨.b, v⟩
  | .byte v => ⟨.i8, .wrap (Bytes.bigEndian 1 v.toNat)⟩
  | .short v => ⟨.i16, .wrap (Bytes.bigEndian 2 v.toNat)⟩
  | .integer v => ⟨.i32, .wrap (Bytes.bigEndian 4 v.toNat)⟩
  | .long v => ⟨.i64, .wrap (Bytes.bigEndian 8 v.toNat)⟩
  | .float v => ⟨.f4, .wrap (Bytes.bigEndian 4 v.toNat)⟩
  -- no branch is for `Double`, and the last one stores the integer 0
  | .double _ => ⟨.i32, .wrap (Bytes.bigEndian 4 0)⟩

/-- `duplicate`. -/
def AttributeValue.duplicate (av : AttributeValue) : AttributeValue :=
  { av with value := av.value.duplicate }

/-- `Attribute`. -/
structure Attribute where
  num : BitVec 32
  type : BitVec 32
  value : AttributeValue
  deriving DecidableEq, Repr

/-- `DualKey`. -/
structure DualKey where
  num : BitVec 32
  type : BitVec 32
  deriving DecidableEq, Repr

/-- `AttributesMap`, as the `put`s it is made of, in order.  Two of them are equal if the
`put`s are, but different `put`s may make the same map. -/
structure AttributesMap where
  puts : List (DualKey × AttributeValue)
  deriving DecidableEq, Repr

/-- `put`. -/
def AttributesMap.put (m : AttributesMap) (key : DualKey) (value : AttributeValue) :
    AttributesMap := ⟨m.puts ++ [(key, value)]⟩

/-- `EntityL`. -/
structure EntityL where
  num : BitVec 32
  type : BitVec 32
  attributes : List Attribute
  deriving DecidableEq, Repr

/-- `EntityM`. -/
structure EntityM where
  num : BitVec 32
  type : BitVec 32
  attributes : AttributesMap
  deriving DecidableEq, Repr

/-- The constructor of `EntityM`. -/
def EntityM.new (num type : BitVec 32) : EntityM := ⟨num, type, ⟨[]⟩⟩

/-- `createFrom`. -/
def EntityM.createFrom (el : EntityL) : EntityM :=
  el.attributes.foldl
    (fun em a => { em with
      attributes := em.attributes.put ⟨a.num, a.type⟩ a.value.duplicate })
    (EntityM.new el.num el.type)

end Client
end PeeledOrange
