import PeeledOrange.Client.Records
import PeeledOrange.Lib.Traced

/-!
# What the record loop reads

The limit of a buffer is where its content ends; the array may go on.  Each turn of the
record loop is run here with a trace of what it reads, and of what it allocates.  Its
comparisons with the limit are of sums that may become negative, a length may be negative
from the start, and the bytes of a floating-point number are read without a comparison.

## Main definitions

* `tracedRecord` — a turn of the record loop, with its trace.
* `Faulty` — a record of which more is read than there is.
* `ReadsWithin` — the loop stays within the buffer, and ends as it is meant to.

## Main results

* `result_tracedRecord` — without the trace, this is a turn of the loop.
* `readsWithin_iff` — **the loop stays within the buffer if and only if it comes to no
  record that is faulty.**
-/

namespace PeeledOrange
namespace Client

open Java

/-! ### Turns with a trace -/

/-- Bytes that are read, from an index on, or a buffer that is allocated. -/
inductive Access
  | read (start len : ℤ)
  | allocate (size : ℤ)
  deriving DecidableEq, Repr

/-- The bytes are in front of the limit, or the size is one that a buffer may have. -/
def Access.Within (limit : ℕ) : Access → Prop
  | .read start len => 0 ≤ start ∧ 0 ≤ len ∧ start + len ≤ limit
  | .allocate size => 0 ≤ size

instance (limit : ℕ) : DecidablePred (Access.Within limit)
  | .read start len => inferInstanceAs (Decidable (0 ≤ start ∧ 0 ≤ len ∧ start + len ≤ limit))
  | .allocate size => inferInstanceAs (Decidable (0 ≤ size))

/-- `getBits`, with a trace. -/
def tracedBits (w : ℕ) (data : List UInt8) (offset : ℤ) : ℕ → ℕ → BitVec w →
    Traced Access Throwable (BitVec w)
  | 0, _, res => return res
  | n + 1, i, res => do
    let b ← .access (.read (add32 offset i) 1) (element data (add32 offset i))
    tracedBits w data offset n (i + 1) (res ||| b.toBitVec.setWidth w <<< (i * 8 % w))

/-- `getInt`, with a trace. -/
def tracedInt (data : List UInt8) (offset len : ℤ) : Traced Access Throwable (BitVec 32) :=
  tracedBits 32 data offset len.toNat 0 0

/-- `getLong`, with a trace. -/
def tracedLong (data : List UInt8) (offset len : ℤ) : Traced Access Throwable (BitVec 64) :=
  tracedBits 64 data offset len.toNat 0 0

/-- A byte of a buffer, with a trace. -/
def tracedGet (buf : ByteBuffer) (i : ℤ) : Traced Access Throwable UInt8 :=
  .access (.read i 1) (buf.get i)

variable (utf8 : Charset)

/-- `parseValue`, with a trace. -/
def tracedValue (buf : ByteBuffer) (vtype : ValueType) (pos len : ℤ) :
    Traced Access Throwable (AttributeValue × ByteBuffer) :=
  let data := buf.array
  match vtype with
  | .i8 => do return (setValue utf8 (.byte ((← tracedInt data pos len).setWidth 8)), buf)
  | .i16 => do return (setValue utf8 (.short ((← tracedInt data pos len).setWidth 16)), buf)
  | .i32 => do return (setValue utf8 (.integer (← tracedInt data pos len)), buf)
  | .i64 => do return (setValue utf8 (.long (← tracedLong data pos len)), buf)
  | .f4 => do return (setValue utf8 (.float (← .access (.read pos 4) (buf.getNumber pos 4))), buf)
  | .f8 => do return (setValue utf8 (.double (← .access (.read pos 8) (buf.getNumber pos 8))), buf)
  | .s => do
    return (setValue utf8 (.string (← .access (.read pos len) (newString utf8 data pos len))), buf)
  | .b => do
    let _ ← .access (.allocate len) (ByteBuffer.allocate len)
    let buf ← .lift (buf.setPosition pos)
    let (bs, buf) ← .access (.read buf.position len) (buf.nextBytes len.toNat)
    return (setValue utf8 (.byteBuffer (.wrap bs)), buf)

/-- `parsePayload`, with a trace. -/
def tracedPayload (st : Parser) (key : DualKey) (vtype : ValueType) (pos len : ℤ) :
    Traced Access Throwable Turn := do
  if add32 pos len > st.buf.limit then return .leave { st with pos := pos }
  let (av, buf) ← tracedValue utf8 st.buf vtype pos len
  return .next ⟨putLast st.entities key av, add32 pos len, buf⟩

/-- `parseAttribute`, with a trace. -/
def tracedAttribute (st : Parser) (head : UInt8) (key : DualKey) (pos : ℤ) :
    Traced Access Throwable Turn := do
  if st.entities = [] then return .leave { st with pos := pos }
  if add32 pos 2 > st.buf.limit then return .leave { st with pos := pos }
  let vt ← tracedGet st.buf pos
  let pos := add32 pos 1
  if vt.toNat > ValueType.b.ordinal then
    .lift (.error (.exception "Invalid attribute value type"))
  else
    let vtype := ValueType.values.getD vt.toNat .b
    let len ← tracedGet st.buf pos
    let pos := add32 pos 1
    if head &&& 0x80 = 0 then
      if add32 pos len.toNat > st.buf.limit then return .leave { st with pos := pos }
      let number ← tracedInt st.buf.array pos len.toNat
      tracedPayload utf8 st key vtype (add32 pos len.toNat) number.toInt
    else tracedPayload utf8 st key vtype pos len.toNat

/-- `parseRecord`, with a trace. -/
def tracedRecord (st : Parser) : Traced Access Throwable Turn := do
  let data := st.buf.array
  let head ← tracedGet st.buf st.pos
  let numLen := (head &&& 0x07).toNat
  let typeLen := ((head &&& 0x38) >>> 3).toNat
  let pos := add32 st.pos eavHeaderSize
  if add32 (add32 pos numLen) typeLen > st.buf.limit then return .leave { st with pos := pos }
  let num ← tracedInt data pos numLen
  let pos := add32 pos numLen
  let type ← tracedInt data pos typeLen
  let pos := add32 pos typeLen
  if head &&& 0x40 = 0 then
    return .next { st with entities := st.entities ++ [EntityM.new num type], pos := pos }
  tracedAttribute utf8 st head ⟨num, type⟩ pos

/-! ### Without the trace -/

theorem result_tracedBits (w : ℕ) (data : List UInt8) (offset : ℤ) (n i : ℕ) (res : BitVec w) :
    (tracedBits w data offset n i res).result = getBits w data offset n i res := by
  induction n generalizing i res with
  | zero => rfl
  | succ n ih =>
    rw [tracedBits, getBits, Traced.result_bind, Traced.result_access]
    exact bind_congr fun b => ih _ _

@[simp] theorem result_tracedInt (data : List UInt8) (offset len : ℤ) :
    (tracedInt data offset len).result = getInt data offset len :=
  result_tracedBits _ _ _ _ _ _

@[simp] theorem result_tracedLong (data : List UInt8) (offset len : ℤ) :
    (tracedLong data offset len).result = getLong data offset len :=
  result_tracedBits _ _ _ _ _ _

@[simp] theorem result_tracedGet (buf : ByteBuffer) (i : ℤ) :
    (tracedGet buf i).result = buf.get i := rfl

theorem result_tracedValue (buf : ByteBuffer) (vt : ValueType) (pos len : ℤ) :
    (tracedValue utf8 buf vt pos len).result = parseValue utf8 buf vt pos len := by
  cases vt <;> simp only [tracedValue, parseValue, Traced.result_bind, Traced.result_access,
    Traced.result_lift, result_tracedInt, result_tracedLong] <;> rfl

theorem result_tracedPayload (st : Parser) (key : DualKey) (vt : ValueType) (pos len : ℤ) :
    (tracedPayload utf8 st key vt pos len).result = parsePayload utf8 st key vt pos len := by
  rw [tracedPayload, parsePayload, Traced.result_ite, Traced.result_bind, result_tracedValue]
  rfl

theorem result_tracedAttribute (st : Parser) (head : UInt8) (key : DualKey) (pos : ℤ) :
    (tracedAttribute utf8 st head key pos).result = parseAttribute utf8 st head key pos := by
  simp only [tracedAttribute, parseAttribute, Traced.result_bind, Traced.result_ite,
    result_tracedGet, result_tracedInt, result_tracedPayload]
  rfl

/-- Without the trace, this is a turn of the loop. -/
theorem result_tracedRecord (st : Parser) :
    (tracedRecord utf8 st).result = parseRecord utf8 st := by
  simp only [tracedRecord, parseRecord, Traced.result_bind, Traced.result_ite, result_tracedGet,
    result_tracedInt, result_tracedAttribute]
  rfl

/-! ### Records of which more is read than there is -/

/-- More than is there is read of the value, although its length has been compared. -/
def ValueFaulty (limit : ℕ) (vt : ValueType) (start : ℕ) (len : ℤ) : Prop :=
  match vt with
  | .i8 | .i16 | .i32 | .i64 => 2 ^ 31 ≤ start + len
  | .f4 | .f8 => (start + len ≤ limit ∨ 2 ^ 31 ≤ start + len) ∧ limit < start + width vt
  | .s | .b => len < 0 ∨ 2 ^ 31 ≤ start + len

/-- And of an attribute whose number and type end here: its type, the width of its length and
its length may be where no array has bytes. -/
def AttributeFaulty (b : ByteBuffer) (head : UInt8) (pos : ℕ) : Prop :=
  (2 ^ 31 ≤ pos + 2 ∧ ∀ tag, b.get pos = .ok tag → tag.toNat ≤ ValueType.b.ordinal) ∨
    (∃ tag size : UInt8, b.get pos = .ok tag ∧ b.get (pos + 1 : ℕ) = .ok size ∧
      tag.toNat ≤ ValueType.b.ordinal ∧ head &&& 0x80 = 0 ∧ 2 ^ 31 ≤ pos + 2 + size.toNat) ∨
    ∃ vt start len, ValueAt b head pos vt start len ∧ ValueFaulty b.limit vt start len

/-- And of the record that is next, which may be outside of the buffer. -/
def Faulty (st : Parser) : Prop :=
  ¬(0 ≤ st.pos ∧ st.pos < st.buf.limit) ∨
    ∃ (pos : ℕ) (head : UInt8), st.pos = pos ∧ st.buf.get pos = .ok head ∧
      (2 ^ 31 ≤ pos + 1 + numWidth head + typeWidth head ∨
        pos + 1 + numWidth head + typeWidth head ≤ st.buf.limit ∧ head &&& 0x40 ≠ 0 ∧
          st.entities ≠ [] ∧
            AttributeFaulty st.buf head (pos + 1 + numWidth head + typeWidth head))

/-- Nothing is read from outside of the buffer, and nothing is thrown but what the loop
throws itself. -/
def Safe {α : Type} (limit : ℕ) (x : Traced Access Throwable α) : Prop :=
  x.Sound (Access.Within limit) (· = .exception "Invalid attribute value type")

section Safe

variable {utf8} {b : ByteBuffer}

theorem safe_pure {α : Type} (limit : ℕ) (a : α) : Safe limit (pure a) := Traced.sound_pure a

theorem safe_bind {α β : Type} {limit : ℕ} {x : Traced Access Throwable α}
    {f : α → Traced Access Throwable β} :
    Safe limit (x >>= f) ↔ Safe limit x ∧ ∀ a, x.result = .ok a → Safe limit (f a) :=
  Traced.sound_bind

/-- What is done with what has been read does no harm. -/
theorem safe_return_iff {α β : Type} {limit : ℕ} {x : Traced Access Throwable α} {f : α → β} :
    Safe limit (do return f (← x)) ↔ Safe limit x := by
  rw [safe_bind]
  exact and_iff_left fun a _ => safe_pure limit _

/-- An access that does not fail if it is allowed. -/
theorem safe_access_iff {α : Type} {limit : ℕ} {i : Access} {r : Except Throwable α}
    (h : i.Within limit → ∃ a, r = .ok a) : Safe limit (.access i r) ↔ i.Within limit := by
  rw [Safe, Traced.sound_access_iff]
  refine and_iff_left_of_imp fun hi => ?_
  obtain ⟨a, rfl⟩ := h hi
  simp

theorem safe_read_iff {α : Type} {limit : ℕ} {start len : ℤ} {r : Except Throwable α}
    (h : 0 ≤ start → 0 ≤ len → start + len ≤ limit → ∃ a, r = .ok a) :
    Safe limit (.access (.read start len) r) ↔ 0 ≤ start ∧ 0 ≤ len ∧ start + len ≤ limit :=
  safe_access_iff fun hi => h hi.1 hi.2.1 hi.2.2

theorem exists_get {i : ℤ} (hi : 0 ≤ i ∧ i < b.limit) : ∃ x, b.get i = .ok x :=
  ⟨_, if_pos hi⟩

theorem safe_get_iff {i : ℤ} : Safe b.limit (tracedGet b i) ↔ 0 ≤ i ∧ i < b.limit := by
  rw [tracedGet, safe_read_iff fun hi _ hlt => exists_get ⟨hi, by omega⟩]
  omega

/-- The bytes of a number are in front of the limit, or there are none. -/
theorem safe_bits_iff {w limit offset : ℕ} {data : List UInt8} (hdata : data.length < 2 ^ 31)
    (hlimit : limit ≤ data.length) (n : ℕ) : ∀ {i : ℕ} {res : BitVec w}, offset + i ≤ limit →
      (Safe limit (tracedBits w data offset n i res) ↔ offset + i + n ≤ limit) := by
  induction n with
  | zero => exact fun hle => iff_of_true (safe_pure limit _) hle
  | succ n ih =>
    intro i res hle
    have hadd : add32 offset i = (offset + i : ℕ) := add32_natCast (by omega)
    have helement : offset + i < limit →
        ∃ b, element data (offset + i : ℕ) = .ok b := fun hlt => ⟨_, if_pos (by omega)⟩
    rw [tracedBits, safe_bind, hadd, Traced.result_access,
      safe_read_iff fun _ _ hlt => helement (by omega)]
    constructor
    · rintro ⟨⟨-, -, hlt⟩, hrest⟩
      obtain ⟨b, hb⟩ := helement (by omega)
      have hle' := (ih (by omega)).mp (hrest b hb)
      omega
    · intro hle'
      exact ⟨⟨by omega, by omega, by omega⟩, fun b _ => (ih (by omega)).mpr (by omega)⟩

variable {start : ℕ} {len : ℤ}

theorem safe_number_iff (n : ℕ) :
    Safe b.limit (.access (.read start n) (b.getNumber start n)) ↔ start + n ≤ b.limit := by
  rw [safe_read_iff fun _ _ hle => (exists_getNumber_iff n).mpr (by omega)]
  omega

theorem safe_string_iff :
    Safe b.limit (.access (.read start len) (newString utf8 b.array start len)) ↔
    0 ≤ len ∧ start + len ≤ b.limit := by
  have hle := b.limit_le
  rw [safe_read_iff fun _ h0 hend => exists_newString_iff.mpr ⟨h0, by omega⟩]
  omega

theorem safe_nextBytes_iff (hstart : start ≤ b.limit) : (Safe b.limit do
      let buf ← .lift (b.setPosition start)
      let (bs, buf) ← .access (.read buf.position len) (buf.nextBytes len.toNat)
      return (setValue utf8 (.byteBuffer (.wrap bs)), buf)) ↔
    0 ≤ len ∧ start + len ≤ b.limit := by
  obtain ⟨c, hset⟩ : ∃ c, b.setPosition start = .ok c := ⟨_, dif_pos ⟨by omega, by omega⟩⟩
  obtain ⟨hpos, hlimit⟩ := ByteBuffer.setPosition_eq_ok hset
  have hlift : Safe b.limit (.lift (.ok c)) := by simp [Safe, Traced.sound_lift_iff]
  have hread : Safe b.limit (.access (.read c.position len) (c.nextBytes len.toNat)) ↔
      0 ≤ (c.position : ℤ) ∧ 0 ≤ len ∧ c.position + len ≤ b.limit :=
    safe_read_iff fun _ _ hle => ⟨_, dif_pos (by omega)⟩
  rw [hset, safe_bind, and_iff_right hlift]
  simp only [Traced.result_lift, Except.ok.injEq, forall_eq']
  rw [safe_bind, and_iff_left fun r _ => safe_pure _ _, hread]
  omega

theorem safe_bytes_iff (hstart : start ≤ b.limit) : Safe b.limit (tracedValue utf8 b .b start len) ↔
    0 ≤ len ∧ start + len ≤ b.limit := by
  have hallocate : Safe b.limit (.access (.allocate len) (ByteBuffer.allocate len)) ↔ 0 ≤ len :=
    safe_access_iff fun h => ⟨_, if_neg (Int.not_lt.mpr h)⟩
  simp only [tracedValue]
  rw [safe_bind, hallocate]
  refine and_congr_right fun hlen => ?_
  obtain ⟨bb, hbb⟩ : ∃ bb, ByteBuffer.allocate len = .ok bb := ⟨_, if_neg (Int.not_lt.mpr hlen)⟩
  rw [Traced.result_access, hbb]
  constructor
  · intro h
    exact ((safe_nextBytes_iff hstart).mp (h bb rfl)).2
  · intro hle _ _
    exact (safe_nextBytes_iff hstart).mpr ⟨hlen, hle⟩

/-- **More than is there is read of a value** just if it is faulty. -/
theorem safe_value_iff (hlen : b.array.length < 2 ^ 31) (hstart : start ≤ b.limit)
    (hroom : start + len ≤ b.limit ∨ 2 ^ 31 ≤ start + len) (vt : ValueType) :
    Safe b.limit (tracedValue utf8 b vt start len) ↔ ¬ValueFaulty b.limit vt start len := by
  have hle := b.limit_le
  have hint : Safe b.limit (tracedInt b.array start len) ↔ start + len.toNat ≤ b.limit :=
    safe_bits_iff hlen (by omega) len.toNat (i := 0) hstart
  have hlong : Safe b.limit (tracedLong b.array start len) ↔ start + len.toNat ≤ b.limit :=
    safe_bits_iff hlen (by omega) len.toNat (i := 0) hstart
  cases vt with
  | i8 | i16 | i32 =>
    simp only [tracedValue, safe_return_iff, hint, ValueFaulty]
    omega
  | i64 =>
    simp only [tracedValue, safe_return_iff, hlong, ValueFaulty]
    omega
  | f4 =>
    refine safe_return_iff.trans ((safe_number_iff 4).trans ?_)
    simp only [ValueFaulty, width]
    omega
  | f8 =>
    refine safe_return_iff.trans ((safe_number_iff 8).trans ?_)
    simp only [ValueFaulty, width]
    omega
  | s =>
    refine safe_return_iff.trans (safe_string_iff.trans ?_)
    simp only [ValueFaulty]
    omega
  | b =>
    refine (safe_bytes_iff hstart).trans ?_
    simp only [ValueFaulty]
    omega

theorem safe_payload_iff {st : Parser} (hlen : st.buf.array.length < 2 ^ 31)
    (hstart : start ≤ st.buf.limit) (hmin : -2 ^ 31 ≤ len) (hmax : len < 2 ^ 31) (key : DualKey)
    (vt : ValueType) : Safe st.buf.limit (tracedPayload utf8 st key vt start len) ↔
      ¬ValueFaulty st.buf.limit vt start len := by
  have hle := st.buf.limit_le
  rw [tracedPayload]
  split
  · rename_i hroom
    refine iff_of_true (safe_pure _ _) ?_
    unfold add32 wrap32 at hroom
    cases vt <;> simp only [ValueFaulty] <;> omega
  · rename_i hroom
    rw [safe_bind, safe_value_iff hlen hstart (by unfold add32 wrap32 at hroom; omega)]
    exact and_iff_left fun r _ => safe_pure _ _

/-- What makes an attribute faulty whose type and byte after it are in the buffer. -/
theorem attributeFaulty_iff (hlen : b.array.length < 2 ^ 31) {head : UInt8} {pos : ℕ}
    {tag size : UInt8} (htag : b.get pos = .ok tag) (hsize : b.get (pos + 1 : ℕ) = .ok size)
    (hle : tag.toNat ≤ ValueType.b.ordinal) :
    AttributeFaulty b head pos ↔
      if head &&& 0x80 = 0 then
        2 ^ 31 ≤ pos + 2 + size.toNat ∨ pos + 2 + size.toNat ≤ b.limit ∧
          ValueFaulty b.limit (ValueType.values.getD tag.toNat .b) (pos + 2 + size.toNat)
            (readInt ((b.array.drop (pos + 2)).take size.toNat)).toInt
      else ValueFaulty b.limit (ValueType.values.getD tag.toNat .b) (pos + 2) size.toNat := by
  have hlimit := b.limit_le
  have hlt := ByteBuffer.get_eq_ok hsize
  have hbytes : ∀ {tag' size'}, b.get pos = .ok tag' → b.get (pos + 1 : ℕ) = .ok size' →
      tag' = tag ∧ size' = size := by
    intro tag' size' htag' hsize'
    rw [htag] at htag'
    rw [hsize] at hsize'
    cases htag'
    cases hsize'
    exact ⟨rfl, rfl⟩
  constructor
  · rintro (⟨hfar, -⟩ | ⟨tag', size', htag', hsize', -, hwide, hfar⟩ |
      ⟨vt, start, len, ⟨tag', size', htag', hsize', -, rfl, hvalue⟩, hfaulty⟩)
    · -- both bytes are there
      omega
    · obtain ⟨rfl, rfl⟩ := hbytes htag' hsize'
      rw [if_pos hwide]
      exact .inl hfar
    · obtain ⟨rfl, rfl⟩ := hbytes htag' hsize'
      split at hvalue
      · obtain ⟨rfl, hroom, rfl⟩ := hvalue
        rw [if_pos ‹_›]
        exact .inr ⟨hroom, hfaulty⟩
      · obtain ⟨rfl, rfl⟩ := hvalue
        rwa [if_neg ‹_›]
  · intro h
    split at h
    · rename_i hwide
      rcases h with hfar | ⟨hroom, hfaulty⟩
      · exact .inr (.inl ⟨tag, size, htag, hsize, hle, hwide, hfar⟩)
      · exact .inr (.inr ⟨_, _, _, ⟨tag, size, htag, hsize, hle, rfl,
          by rw [if_pos hwide]; exact ⟨rfl, hroom, rfl⟩⟩, hfaulty⟩)
    · rename_i hwide
      exact .inr (.inr ⟨_, _, _, ⟨tag, size, htag, hsize, hle, rfl,
        by rw [if_neg hwide]; exact ⟨rfl, rfl⟩⟩, h⟩)

section Records

variable {st : Parser} (hlen : st.buf.array.length < 2 ^ 31)

include hlen

/-- The value, after a length that has a width. -/
theorem safe_wide_iff {pos : ℕ} (hpos : pos ≤ st.buf.limit) (key : DualKey) (vt : ValueType)
    {n : ℕ} (hn : n < 2 ^ 8) : (Safe st.buf.limit do
      if add32 pos n > st.buf.limit then return .leave { st with pos := pos }
      let number ← tracedInt st.buf.array pos n
      tracedPayload utf8 st key vt (add32 pos n) number.toInt) ↔
    ¬(2 ^ 31 ≤ pos + n ∨ pos + n ≤ st.buf.limit ∧ ValueFaulty st.buf.limit vt (pos + n)
      (readInt ((st.buf.array.drop pos).take n)).toInt) := by
  have hlimit := st.buf.limit_le
  split
  · rename_i hroom
    obtain ⟨hbeyond, hint⟩ := (lt_add32_iff (by omega)).mp hroom
    exact iff_of_true (safe_pure _ _) (by omega)
  · rename_i hroom
    have hint : Safe st.buf.limit (tracedInt st.buf.array pos n) ↔ pos + n ≤ st.buf.limit :=
      safe_bits_iff hlen (by omega) n (i := 0) hpos
    rw [safe_bind, hint, result_tracedInt]
    by_cases hfits : pos + n ≤ st.buf.limit
    · have hnumber : getInt st.buf.array pos n = .ok (readInt ((st.buf.array.drop pos).take n)) :=
        getBits_range 32 hlen (by omega)
      have hpayload := @safe_payload_iff utf8 (pos + n)
        (readInt ((st.buf.array.drop pos).take n)).toInt st hlen hfits (BitVec.le_toInt _)
        BitVec.toInt_lt key vt
      simp only [hnumber, Except.ok.injEq, forall_eq']
      have hnot : ¬2 ^ 31 ≤ pos + n := by omega
      rw [add32_natCast (by omega), hpayload]
      simp only [hfits, hnot, true_and, false_or]
    · rw [gt_iff_lt, lt_add32_iff (by omega)] at hroom
      exact iff_of_false (fun h => hfits h.1) (by omega)

theorem safe_attribute_iff {pos : ℕ} (hpos : pos ≤ st.buf.limit) (hne : st.entities ≠ [])
    (head : UInt8) (key : DualKey) : Safe st.buf.limit (tracedAttribute utf8 st head key pos) ↔
      ¬AttributeFaulty st.buf head pos := by
  have hlimit := st.buf.limit_le
  have hguard : (st.buf.limit : ℤ) < add32 pos 2 ↔ st.buf.limit < pos + 2 ∧ pos + 2 < 2 ^ 31 :=
    @lt_add32_iff pos 2 st.buf.limit (by omega)
  rw [tracedAttribute, if_neg hne]
  by_cases hroom : st.buf.limit < pos + 2 ∧ pos + 2 < 2 ^ 31
  · -- the loop ends at its comparison
    rw [if_pos (hguard.mpr hroom)]
    refine iff_of_true (safe_pure _ _) ?_
    rintro (⟨hfar, -⟩ | ⟨tag, size, -, hsize, -⟩ | ⟨vt, start, len, hvalue, -⟩)
    · omega
    · have hlt := ByteBuffer.get_eq_ok hsize
      omega
    · have hbounds := hvalue.bounds
      omega
  rw [if_neg fun h => hroom (hguard.mp h), safe_bind, safe_get_iff]
  by_cases hlt : pos < st.buf.limit
  · obtain ⟨tag, htag⟩ := @exists_get st.buf pos (by omega)
    rw [and_iff_right (by omega), result_tracedGet, htag]
    simp only [Except.ok.injEq, forall_eq']
    split
    · rename_i hinvalid
      -- the exception that the loop throws itself
      refine iff_of_true (by simp [Safe, Traced.sound_lift_iff]) ?_
      rintro (⟨-, htags⟩ | ⟨tag', -, htag', -, hle, -⟩ | ⟨_, _, _, ⟨tag', -, htag', -, hle, -⟩, -⟩)
      · exact absurd (htags tag htag) (by omega)
      · cases htag.symm.trans htag'
        omega
      · cases htag.symm.trans htag'
        omega
    · rename_i hle
      rw [add32_one (by omega), safe_bind, safe_get_iff]
      by_cases hlt' : pos + 1 < st.buf.limit
      · obtain ⟨size, hsize⟩ := @exists_get st.buf (pos + 1 : ℕ) (by omega)
        rw [and_iff_right (by omega), result_tracedGet, hsize,
          attributeFaulty_iff hlen htag hsize (by omega)]
        simp only [Except.ok.injEq, forall_eq']
        rw [add32_one (by omega)]
        by_cases hwide : head &&& 0x80 = 0
        · rw [if_pos hwide, if_pos hwide]
          exact safe_wide_iff hlen (by omega) key _ size.toNat_lt
        · rw [if_neg hwide, if_neg hwide]
          exact safe_payload_iff hlen (by omega) (by omega) (by have := size.toNat_lt; omega) key _
      · -- the byte after the type is where no array has one
        refine iff_of_false (fun h => hlt' (by omega)) (not_not.mpr (.inl ⟨by omega, ?_⟩))
        intro tag' htag'
        cases htag.symm.trans htag'
        omega
  · -- so is the type
    refine iff_of_false (fun h => hlt (by omega)) (not_not.mpr (.inl ⟨by omega, ?_⟩))
    intro tag htag
    have hin := ByteBuffer.get_eq_ok htag
    omega

omit hlen in
theorem faulty_iff {pos : ℕ} {head : UInt8} (hpos : st.pos = pos)
    (hhead : st.buf.get pos = .ok head) :
    Faulty st ↔ 2 ^ 31 ≤ pos + 1 + numWidth head + typeWidth head ∨
      pos + 1 + numWidth head + typeWidth head ≤ st.buf.limit ∧ head &&& 0x40 ≠ 0 ∧
        st.entities ≠ [] ∧
          AttributeFaulty st.buf head (pos + 1 + numWidth head + typeWidth head) := by
  constructor
  · rintro (hout | ⟨pos', head', hpos', hhead', h⟩)
    · rw [hpos] at hout
      exact absurd (ByteBuffer.get_eq_ok hhead) hout
    · obtain rfl : pos' = pos := by omega
      cases hhead.symm.trans hhead'
      exact h
  · intro h
    exact .inr ⟨pos, head, hpos, hhead, h⟩

/-- **A turn stays within the buffer** unless the record is faulty. -/
theorem safe_record_iff : Safe st.buf.limit (tracedRecord utf8 st) ↔ ¬Faulty st := by
  have hlimit := st.buf.limit_le
  rw [tracedRecord, safe_bind, safe_get_iff, result_tracedGet]
  by_cases hin : 0 ≤ st.pos ∧ st.pos < st.buf.limit
  · obtain ⟨pos, hpos⟩ := Int.eq_ofNat_of_zero_le hin.1
    obtain ⟨head, hhead⟩ := exists_get hin
    rw [hpos] at hhead
    have hnum := numWidth_lt head
    have htype := typeWidth_lt head
    rw [and_iff_right hin, hpos, hhead, faulty_iff hpos hhead, add32_eavHeaderSize (by omega)]
    simp only [Except.ok.injEq, forall_eq', ← numWidth.eq_1, ← typeWidth.eq_1]
    split
    · rename_i hroom
      rw [add32_add32] at hroom
      obtain ⟨hbeyond, hint⟩ := (lt_wrap32_iff (by omega)).mp hroom
      exact iff_of_true (safe_pure _ _) (by omega)
    · rename_i hroom
      have hfirst : Safe st.buf.limit (tracedInt st.buf.array (pos + 1 : ℕ) (numWidth head)) ↔
          pos + 1 + numWidth head ≤ st.buf.limit :=
        safe_bits_iff hlen (by omega) (numWidth head) (i := 0) (by omega)
      rw [safe_bind, hfirst]
      by_cases hfits : pos + 1 + numWidth head + typeWidth head ≤ st.buf.limit
      · have hnot : ¬2 ^ 31 ≤ pos + 1 + numWidth head + typeWidth head := by omega
        obtain ⟨num, type, hnum, htype⟩ := @fields_ok st.buf hlen (pos + 1) (numWidth head)
          (typeWidth head) (by omega)
        have hnext : add32 (pos + 1 : ℕ) (numWidth head) = (pos + 1 + numWidth head : ℕ) :=
          add32_natCast (by omega)
        have hsecond : Safe st.buf.limit
            (tracedInt st.buf.array (pos + 1 + numWidth head : ℕ) (typeWidth head)) :=
          (safe_bits_iff hlen (by omega) (typeWidth head) (i := 0) (by omega)).mpr hfits
        rw [hnext] at htype ⊢
        rw [and_iff_right (by omega), result_tracedInt, hnum]
        simp only [Except.ok.injEq, forall_eq', hnot, false_or, hfits, true_and]
        rw [safe_bind, and_iff_right hsecond, result_tracedInt, htype]
        simp only [Except.ok.injEq, forall_eq']
        rw [add32_natCast (by omega)]
        by_cases hentity : head &&& 0x40 = 0
        · rw [if_pos hentity]
          exact iff_of_true (safe_pure _ _) fun h => h.1 hentity
        · rw [if_neg hentity]
          by_cases hnil : st.entities = []
          · rw [tracedAttribute, if_pos hnil]
            exact iff_of_true (safe_pure _ _) fun h => h.2.1 hnil
          · rw [safe_attribute_iff hlen hfits hnil]
            exact not_congr ⟨fun h => ⟨hentity, hnil, h⟩, fun h => h.2.2⟩
      · -- the numbers end where no array has bytes
        rw [gt_iff_lt, add32_add32, lt_wrap32_iff (by omega)] at hroom
        refine iff_of_false ?_ (not_not.mpr (.inl (by omega)))
        rintro ⟨hle, hrest⟩
        have hnumber : getInt st.buf.array (pos + 1 : ℕ) (numWidth head) = _ :=
          getBits_range 32 hlen (by omega)
        have hsecond := (safe_bind.mp (hrest _ (by rw [result_tracedInt, hnumber]))).1
        rw [add32_natCast (by omega)] at hsecond
        have := (safe_bits_iff hlen (by omega) (typeWidth head) (i := 0) (by omega)).mp hsecond
        omega
  · exact iff_of_false (fun h => hin h.1) (not_not.mpr (.inl hin))

end Records

end Safe

/-! ### The loop -/

/-- The loop reads nothing from outside of the buffer, and ends at the end of the records, at
one of its comparisons, or by the exception that it throws itself. -/
structure ReadsWithin (utf8 : Charset) (b : ByteBuffer) : Prop where
  safe : ∀ st, Begins utf8 b st → Safe b.limit (tracedRecord utf8 st)
  ends : ∀ ds st fuel e, Passes b ds st →
    parseLoop utf8 (add32 st.pos ds) fuel st = some (.error e) →
      e = .exception "Invalid attribute value type"

variable {utf8} {b : ByteBuffer}

/-- What the loop throws is thrown by one of its turns. -/
theorem exists_begins_of_error {ds : ℤ} {st₀ : Parser} {e : Throwable} (fuel : ℕ) :
    ∀ {hist st}, Arrives utf8 b ds st₀ hist st →
      parseLoop utf8 (add32 st₀.pos ds) fuel st = some (.error e) →
        ∃ st', Begins utf8 b st' ∧ parseRecord utf8 st' = .error e := by
  induction fuel with
  | zero =>
    intro hist st h herror
    cases herror
  | succ fuel ih =>
    intro hist st h herror
    rw [parseLoop] at herror
    split at herror
    · rename_i hguard
      cases hrecord : parseRecord utf8 st with
      | error e' =>
        rw [hrecord] at herror
        cases herror
        exact ⟨st, ⟨ds, st₀, hist, h, hguard⟩, hrecord⟩
      | ok turn =>
        rw [hrecord] at herror
        cases turn with
        | leave st' => cases herror
        | next st' => exact ih ⟨h.passes, h.run.step () ⟨hguard, hrecord⟩⟩ herror
    · cases herror

/-- **The loop stays within the buffer** if and only if it comes to no record that is
faulty. -/
theorem readsWithin_iff (hlen : b.array.length < 2 ^ 31) :
    ReadsWithin utf8 b ↔ ∀ st, Begins utf8 b st → ¬Faulty st := by
  have hsafe : ∀ st, Begins utf8 b st →
      (Safe b.limit (tracedRecord utf8 st) ↔ ¬Faulty st) := by
    rintro st ⟨ds, st₀, hist, h, -⟩
    obtain ⟨harray, hlimit⟩ := h.buf_eq hlen
    rw [← hlimit]
    exact safe_record_iff (by rwa [harray])
  constructor
  · intro h st hbegins
    exact (hsafe st hbegins).mp (h.safe st hbegins)
  · intro h
    have hall := fun st hbegins => (hsafe st hbegins).mpr (h st hbegins)
    refine ⟨hall, fun ds st fuel e hpasses herror => ?_⟩
    obtain ⟨st', hbegins, hrecord⟩ := exists_begins_of_error fuel ⟨hpasses, .start⟩ herror
    exact (hall st' hbegins).2 e (by rw [result_tracedRecord, hrecord])

/-- The three records of a packet are read from their own bytes. -/
theorem readsWithin_several : ReadsWithin .utf8 several := by
  refine (readsWithin_iff (by decide)).mpr fun st hbegins => ?_
  have hsafe : Safe st.buf.limit (tracedRecord .utf8 st) := by
    obtain ⟨hentity, hnumber, htext⟩ := parseRecord_several
    obtain rfl | rfl | rfl := begins_several hbegins
    · refine ⟨by decide +kernel, fun e he => ?_⟩
      rw [result_tracedRecord, hentity] at he
      cases he
    · refine ⟨by decide +kernel, fun e he => ?_⟩
      rw [result_tracedRecord, hnumber] at he
      cases he
    · refine ⟨by decide +kernel, fun e he => ?_⟩
      rw [result_tracedRecord, htext] at he
      cases he
  have hlen : st.buf.array.length < 2 ^ 31 := by
    obtain rfl | rfl | rfl := begins_several hbegins <;> decide
  exact (safe_record_iff hlen).mp hsafe

/-- An entity, and an attribute that is a `float` without bytes. -/
def noFloat : ByteBuffer := .wrap [4, 0xF3, 0x6E, 0, 4, 0, 0xC0, 4, 0]

theorem passes_noFloat : Passes noFloat 4 ⟨[], 5, behind noFloat⟩ :=
  ⟨rfl, ⟨0, 1, 0x6EF3#16, noFloat.setOrder .littleEndian⟩, by decide,
    @readTask_any _ (EavTask.new none 1).1 { (EavTask.new none 1).1 with packetID := 0 } _ _ _
      (by decide +kernel)⟩

/-- Its four bytes are read from behind the limit. -/
theorem not_readsWithin_noFloat :
    (createFromArray .utf8 2 1 noFloat).1 = some (.error .indexOutOfBounds) ∧
      ¬ReadsWithin .utf8 noFloat := by
  refine ⟨by decide +kernel, fun h => ?_⟩
  have hloop : parseLoop .utf8 (add32 5 4) 2 ⟨[], 5, behind noFloat⟩ =
      some (.error .indexOutOfBounds) := by decide
  have heq := h.ends 4 _ 2 _ passes_noFloat hloop
  cases heq

end Client
end PeeledOrange
