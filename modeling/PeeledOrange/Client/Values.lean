import PeeledOrange.Client.EavTask

/-!
# Values that are read back

`setValue` keeps a value as the bytes of a buffer, with its type beside it, and `getValue`
makes an object of that type of the bytes.  An object of seven of the eight classes comes
back as it is.  The branch for the eighth asks for the wrong class, so that a `Double` is
kept as the integer 0.

## Main definitions

* `getValue` — the object that is read back.
* `Value.valueType`, `Value.Equals` — the type for a class, and `equals`.
* `Stores` — a value comes back.
* `Constructed` — the values that there are.

## Main results

* `getValue_setValue` — what comes back of each class.
* `stores_iff` — **every value comes back, but for a double.**
-/

namespace PeeledOrange
namespace Client

open Java

/-- `getValue`. -/
def AttributeValue.getValue (utf8 : Charset) (av : AttributeValue) : Except Throwable Value :=
  match av.valueType with
  | .i8 => do return .byte (← av.value.get 0).toBitVec
  | .i16 => do return .short (← av.value.getNumber 0 2)
  | .i32 => do return .integer (← av.value.getNumber 0 4)
  | .i64 => do return .long (← av.value.getNumber 0 8)
  | .f4 => do return .float (← av.value.getNumber 0 4)
  | .f8 => do return .double (← av.value.getNumber 0 8)
  | .s => do return .string (← newString utf8 av.value.array 0 av.value.capacity)
  | .b => .ok (.byteBuffer av.value)

/-- The type for the class of a value. -/
def Value.valueType : Value → ValueType
  | .byte _ => .i8
  | .short _ => .i16
  | .integer _ => .i32
  | .long _ => .i64
  | .float _ => .f4
  | .double _ => .f8
  | .string _ => .s
  | .byteBuffer _ => .b

/-- `equals`: buffers are equal if the bytes that remain in them are. -/
def Value.Equals : Value → Value → Prop
  | .byteBuffer v, .byteBuffer v' => v.remaining = v'.remaining
  | v, v' => v = v'

theorem Value.Equals.refl (v : Value) : v.Equals v := by
  cases v <;> rfl

variable {utf8 : Charset}

/-- This keeps a value: it has the type for it, and a value that equals it is read back. -/
def Keeps (utf8 : Charset) (av : AttributeValue) (v : Value) : Prop :=
  av.valueType = v.valueType ∧ ∃ v', av.getValue utf8 = .ok v' ∧ v'.Equals v

/-- A new `AttributeValue` keeps the value it is made of, and so does its duplicate. -/
def Stores (utf8 : Charset) (v : Value) : Prop :=
  Keeps utf8 (setValue utf8 v) v ∧ Keeps utf8 (setValue utf8 v).duplicate v

/-- The values that there are: new ones, and duplicates. -/
inductive Constructed (utf8 : Charset) : AttributeValue → Prop
  | new (v : Value) : Constructed utf8 (setValue utf8 v)
  | duplicate {av : AttributeValue} : Constructed utf8 av → Constructed utf8 av.duplicate

/-! ### What comes back -/

theorem get_wrap (v : BitVec 8) :
    (ByteBuffer.wrap (Bytes.bigEndian 1 v.toNat)).get 0 = .ok ⟨v⟩ := by
  have hbyte : UInt8.ofNat v.toNat = ⟨v⟩ := by
    rw [← UInt8.toBitVec_inj]
    show BitVec.ofNat 8 v.toNat = v
    rw [BitVec.ofNat_toNat, BitVec.setWidth_eq]
  rw [← hbyte]
  rfl

/-- The bytes of a string are those of its whole buffer. -/
theorem newString_encode (v : String) :
    newString utf8 (utf8.encode v) 0 (utf8.encode v).length = .ok v := by
  rw [newString, if_pos (by omega), Int.toNat_natCast]
  show Except.ok (utf8.decode ((utf8.encode v).take (utf8.encode v).length)) = _
  rw [List.take_length, utf8.decode_encode]

/-- What comes back of a value: of a double it is the integer 0. -/
def Value.stored : Value → Value
  | .double _ => .integer 0
  | v => v

theorem getValue_setValue (v : Value) : (setValue utf8 v).getValue utf8 = .ok v.stored := by
  cases v with
  | byte v =>
    simp only [setValue, AttributeValue.getValue, get_wrap]
    rfl
  | short v =>
    have hback := ByteBuffer.getNumber_wrap 2 v
    simp only [setValue, AttributeValue.getValue, hback]
    rfl
  | integer v =>
    have hback := ByteBuffer.getNumber_wrap 4 v
    simp only [setValue, AttributeValue.getValue, hback]
    rfl
  | long v =>
    have hback := ByteBuffer.getNumber_wrap 8 v
    simp only [setValue, AttributeValue.getValue, hback]
    rfl
  | float v =>
    have hback := ByteBuffer.getNumber_wrap 4 v
    simp only [setValue, AttributeValue.getValue, hback]
    rfl
  | double v => rfl
  | string v =>
    have hback := @newString_encode utf8 v
    simp only [setValue, AttributeValue.getValue, ByteBuffer.capacity, ByteBuffer.wrap,
      Nat.sub_zero, hback]
    rfl
  | byteBuffer v => rfl

/-- Whatever is not a buffer is kept in the order that new buffers have. -/
theorem getValue_duplicate (v : Value) :
    ∃ v', (setValue utf8 v).duplicate.getValue utf8 = .ok v' ∧ v'.Equals v.stored := by
  have hsame := @getValue_setValue utf8 v
  cases v with
  | byteBuffer v =>
    -- the duplicate is another buffer over the same bytes
    exact ⟨.byteBuffer v.duplicate, rfl, rfl⟩
  | byte v => exact ⟨_, hsame, .refl _⟩
  | short v => exact ⟨_, hsame, .refl _⟩
  | integer v => exact ⟨_, hsame, .refl _⟩
  | long v => exact ⟨_, hsame, .refl _⟩
  | float v => exact ⟨_, hsame, .refl _⟩
  | double v => exact ⟨_, hsame, .refl _⟩
  | string v => exact ⟨_, hsame, .refl _⟩

/-- A duplicate is the value itself, but for a buffer. -/
theorem Constructed.exists_setValue {av : AttributeValue} (h : Constructed utf8 av)
    (hb : av.valueType ≠ .b) : ∃ v, av = setValue utf8 v := by
  induction h with
  | new v => exact ⟨v, rfl⟩
  | duplicate _ ih =>
    obtain ⟨v, rfl⟩ := ih hb
    refine ⟨v, ?_⟩
    cases v with
    | byteBuffer v => exact absurd rfl hb
    | _ => rfl

theorem stored_eq_iff (v : Value) : v.stored = v ↔ ∀ x, v ≠ .double x := by
  cases v <;> simp [Value.stored]

theorem valueType_setValue (v : Value) : (setValue utf8 v).valueType = v.stored.valueType := by
  cases v <;> rfl

/-- **Every value comes back, but for a double.** -/
theorem stores_iff (v : Value) : Stores utf8 v ↔ ∀ x, v ≠ .double x := by
  constructor
  · rintro ⟨⟨htype, -⟩, -⟩ x rfl
    exact ValueType.noConfusion htype
  · intro hv
    have htype := @valueType_setValue utf8 v
    have hback := @getValue_setValue utf8 v
    obtain ⟨v', hduplicate, hequals⟩ := @getValue_duplicate utf8 v
    rw [(stored_eq_iff v).mpr hv] at htype hback hequals
    exact ⟨⟨htype, v, hback, .refl v⟩, htype, v', hduplicate, hequals⟩

/-- One and a half is kept as the integer 0. -/
theorem not_stores_double : ¬∀ v : Value, Stores .utf8 v := by
  intro h
  obtain ⟨⟨htype, -⟩, -⟩ := h (.double 0x3FF8000000000000)
  exact absurd htype (by decide)

end Client
end PeeledOrange
