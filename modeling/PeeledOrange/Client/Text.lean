import PeeledOrange.Lib.Numeral
import PeeledOrange.Client.Values

/-!
# Values as texts

`toString` makes a text of a value, and `fromString` a value of a text and a type.
Numbers are printed in decimal.  They are read in decimal as well, but for those of type
`i64`, which are read in radix 16: only one digit is the same number in both.

## Main definitions

* `Texts` — what the classes of the language make of texts.
* `AttributeValue.toString`, `fromString` — values to texts, and back.
* `TextRoundTrips` — a value comes back.

## Main results

* `valueOf_repr` — a number that is read in decimal is the one that has been printed.
* `valueOf_hex_iff` — **in radix 16, only one digit is.**
* `textRoundTrips_iff` — **a value comes back from its text, but for an `i64` with more than
  one digit.**
-/

namespace PeeledOrange
namespace Client

open Java Numeral

/-- What the classes of the language make of texts: which characters are digits, the texts
of floating-point numbers and of buffers, and the floating-point numbers of texts. -/
structure Texts where
  digits : Digits
  floatToString : BitVec 32 → String
  doubleToString : BitVec 64 → String
  bufferToString : ByteBuffer → String
  floatValueOf : String → Except Throwable (BitVec 32)
  doubleValueOf : String → Except Throwable (BitVec 64)

variable (utf8 : Charset) (texts : Texts)

/-- `toString`. -/
def AttributeValue.toString (av : AttributeValue) : Except Throwable String := do
  match ← av.getValue utf8 with
  | .byte v => return v.toInt.repr
  | .short v => return v.toInt.repr
  | .integer v => return v.toInt.repr
  | .long v => return v.toInt.repr
  | .float v => return texts.floatToString v
  | .double v => return texts.doubleToString v
  | .string v => return v
  | .byteBuffer v => return texts.bufferToString v

/-- `valueOf` of the class of numbers of `w` bits, in a radix; a `NumberFormatException` is
an `IllegalArgumentException`. -/
def valueOf (w radix : ℕ) (s : String) : Except Throwable (BitVec w) :=
  match parse texts.digits radix s with
  | some n =>
    if -2 ^ (w - 1) ≤ n ∧ n < 2 ^ (w - 1) then .ok (BitVec.ofInt w n) else .error .illegalArgument
  | none => .error .illegalArgument

/-- `fromString`. -/
def fromString (s : String) : ValueType → Except Throwable AttributeValue
  | .i8 => do return setValue utf8 (.byte (← valueOf texts 8 10 s))
  | .i16 => do return setValue utf8 (.short (← valueOf texts 16 10 s))
  | .i32 => do return setValue utf8 (.integer (← valueOf texts 32 10 s))
  -- the radix is 16 for this type alone
  | .i64 => do return setValue utf8 (.long (← valueOf texts 64 16 s))
  | .f4 => do return setValue utf8 (.float (← texts.floatValueOf s))
  | .f8 => do return setValue utf8 (.double (← texts.doubleValueOf s))
  | .s => .ok (setValue utf8 (.string s))
  | .b => do
    let capacity ← valueOf texts 8 10 s
    let bb ← ByteBuffer.allocate capacity.toInt
    return setValue utf8 (.byteBuffer bb)

/-- The text of a value is read as a value of its type, which is the same value. -/
def TextRoundTrips (av : AttributeValue) : Prop :=
  ∃ s av', av.toString utf8 texts = .ok s ∧ fromString utf8 texts s av.valueType = .ok av' ∧
    av'.valueType = av.valueType ∧ ∃ v, av.getValue utf8 = .ok v ∧ av'.getValue utf8 = .ok v

variable {utf8 texts}

/-! ### Numbers -/

/-- A number that is read in decimal is the one that has been printed. -/
theorem valueOf_repr {w : ℕ} (v : BitVec w) : valueOf texts w 10 v.toInt.repr = .ok v := by
  have hle := BitVec.le_toInt v
  have hlt := @BitVec.toInt_lt w v
  rw [valueOf, parse_repr_ten]
  dsimp only
  rw [if_pos ⟨hle, hlt⟩, BitVec.ofInt_toInt]

/-- **In radix 16, only one digit is the number that has been printed.** -/
theorem valueOf_hex_iff (v : BitVec 64) :
    valueOf texts 64 16 v.toInt.repr = .ok v ↔ -9 ≤ v.toInt ∧ v.toInt ≤ 9 := by
  rw [← @parse_repr_iff texts.digits 16 (by decide), valueOf]
  constructor
  · intro hok
    cases hparse : parse texts.digits 16 v.toInt.repr with
    | none =>
      rw [hparse] at hok
      cases hok
    | some n =>
      rw [hparse] at hok
      dsimp only at hok
      split at hok
      next hrange =>
        rw [← Except.ok.inj hok, BitVec.toInt_ofInt_eq_self (by decide) hrange.1 hrange.2]
      · cases hok
  · intro hparse
    have hle := BitVec.le_toInt v
    have hlt := @BitVec.toInt_lt 64 v
    rw [hparse]
    dsimp only
    rw [if_pos ⟨hle, hlt⟩, BitVec.ofInt_toInt]

/-! ### The round trip -/

theorem textRoundTrips_of {v : Value} {s : String}
    (htext : (setValue utf8 v).toString utf8 texts = .ok s)
    (hback : fromString utf8 texts s (setValue utf8 v).valueType = .ok (setValue utf8 v)) :
    TextRoundTrips utf8 texts (setValue utf8 v) :=
  ⟨s, _, htext, hback, rfl, _, getValue_setValue v, getValue_setValue v⟩

/-- What is printed and read in decimal comes back. -/
theorem textRoundTrips_decimal {w : ℕ} {make : BitVec w → Value} (v : BitVec w)
    (htext : (setValue utf8 (make v)).toString utf8 texts = .ok v.toInt.repr)
    (hback : ∀ s, fromString utf8 texts s (setValue utf8 (make v)).valueType =
      valueOf texts w 10 s >>= fun v => .ok (setValue utf8 (make v))) :
    TextRoundTrips utf8 texts (setValue utf8 (make v)) := by
  refine textRoundTrips_of htext ?_
  rw [hback, valueOf_repr, ok_bind]

theorem toString_setValue (v : Value) : (setValue utf8 v).toString utf8 texts =
    match v.stored with
    | .byte v => .ok v.toInt.repr
    | .short v => .ok v.toInt.repr
    | .integer v => .ok v.toInt.repr
    | .long v => .ok v.toInt.repr
    | .float v => .ok (texts.floatToString v)
    | .double v => .ok (texts.doubleToString v)
    | .string v => .ok v
    | .byteBuffer v => .ok (texts.bufferToString v) := by
  rw [AttributeValue.toString, getValue_setValue]
  rfl

theorem setValue_long_inj {v v' : BitVec 64}
    (h : setValue utf8 (.long v) = setValue utf8 (.long v')) : v = v' := by
  have hback := congrArg (AttributeValue.getValue utf8) h
  rw [getValue_setValue, getValue_setValue] at hback
  cases hback
  rfl

/-- The text of a long comes back just if `valueOf` makes the same number of it. -/
theorem textRoundTrips_long_iff (v : BitVec 64) :
    TextRoundTrips utf8 texts (setValue utf8 (.long v)) ↔
      valueOf texts 64 16 v.toInt.repr = .ok v := by
  have htext := @toString_setValue utf8 texts (.long v)
  constructor
  · rintro ⟨s, av', hs, hav', -, x, hx, hx'⟩
    obtain rfl := Except.ok.inj (htext.symm.trans hs)
    obtain ⟨v', hv', rfl⟩ : ∃ v', valueOf texts 64 16 v.toInt.repr = .ok v' ∧
        setValue utf8 (.long v') = av' := by
      obtain ⟨v', hv', hav'⟩ := bind_eq_ok_iff.mp hav'
      exact ⟨v', hv', Except.ok.inj hav'⟩
    rw [getValue_setValue] at hx hx'
    cases hx.trans hx'.symm
    exact hv'
  · intro hv
    refine textRoundTrips_of htext ?_
    show (valueOf texts 64 16 v.toInt.repr >>= fun v => .ok (setValue utf8 (.long v))) = _
    rw [hv, ok_bind]

/-- **A value comes back from its text, but for an `i64` with more than one digit.** -/
theorem textRoundTrips_iff {av : AttributeValue} (h : Constructed utf8 av)
    (ht : av.valueType ∈ [ValueType.i8, .i16, .i32, .i64, .s]) :
    TextRoundTrips utf8 texts av ↔
      ∀ v : BitVec 64, av = setValue utf8 (.long v) → -9 ≤ v.toInt ∧ v.toInt ≤ 9 := by
  obtain ⟨x, rfl⟩ := h.exists_setValue (fun hb => by simp [hb] at ht)
  -- a value of another type is not a long
  have hother : (setValue utf8 x).valueType ≠ .i64 → TextRoundTrips utf8 texts (setValue utf8 x) →
      (TextRoundTrips utf8 texts (setValue utf8 x) ↔ ∀ v : BitVec 64,
        setValue utf8 x = setValue utf8 (.long v) → -9 ≤ v.toInt ∧ v.toInt ≤ 9) := by
    intro htype hround
    exact ⟨fun _ v hv => absurd (congrArg AttributeValue.valueType hv) htype, fun _ => hround⟩
  cases x with
  | byte v =>
    exact hother ValueType.noConfusion
      (textRoundTrips_decimal v (toString_setValue (.byte v)) fun _ => rfl)
  | short v =>
    exact hother ValueType.noConfusion
      (textRoundTrips_decimal v (toString_setValue (.short v)) fun _ => rfl)
  | integer v =>
    exact hother ValueType.noConfusion
      (textRoundTrips_decimal v (toString_setValue (.integer v)) fun _ => rfl)
  | long v =>
    rw [textRoundTrips_long_iff, valueOf_hex_iff]
    constructor
    · intro hone v' hv'
      rwa [← setValue_long_inj hv']
    · intro hall
      exact hall v rfl
  | float v => exact absurd ht (by simp [setValue])
  | double v =>
    -- a double has been kept as the integer 0
    exact hother ValueType.noConfusion (@textRoundTrips_decimal utf8 texts 32 Value.integer 0
      (toString_setValue (.integer 0)) fun _ => rfl)
  | string v =>
    exact hother ValueType.noConfusion (textRoundTrips_of (toString_setValue (.string v)) rfl)
  | byteBuffer v => exact absurd ht (by simp [setValue])

/-- The digits of ASCII, and texts of integers alone. -/
def integerTexts : Texts where
  digits := .ascii
  floatToString _ := ""
  doubleToString _ := ""
  bufferToString _ := ""
  floatValueOf _ := .error .illegalArgument
  doubleValueOf _ := .error .illegalArgument

theorem textRoundTrips_nine : TextRoundTrips .utf8 integerTexts (setValue .utf8 (.long (-9))) := by
  refine (textRoundTrips_iff (.new _) (by decide)).mpr fun v hv => ?_
  rw [← setValue_long_inj hv]
  decide

/-- Ten is printed as `10`, which is read as sixteen. -/
theorem not_textRoundTrips_ten :
    (setValue .utf8 (.long 10)).toString .utf8 integerTexts = .ok "10" ∧
      fromString .utf8 integerTexts "10" .i64 = .ok (setValue .utf8 (.long 16)) ∧
      ¬TextRoundTrips .utf8 integerTexts (setValue .utf8 (.long 10)) := by
  refine ⟨rfl, ?_, fun hround => ?_⟩
  · have hten : "10" = (10 : ℤ).repr := rfl
    have hread : reread 16 10 = 16 := by decide
    show (valueOf integerTexts 64 16 "10" >>= fun v => .ok (setValue .utf8 (.long v))) = _
    rw [valueOf, hten, parse_repr (by decide)]
    simp [hread]
  · rw [textRoundTrips_long_iff, valueOf_hex_iff] at hround
    exact absurd hround (by decide)

end Client
end PeeledOrange
