import PeeledOrange.Lib.Bytes
import Mathlib.Data.Int.Order.Basic
import Mathlib.Data.List.GetD

/-!
# Java: arithmetic, exceptions and byte buffers

What programs need of the language and of `java.nio.ByteBuffer`.  An `int` that is
counted with is an integer, wrapped to 32 bits by each addition; an `int` that is a
pattern of bits is a `BitVec 32`.

A buffer is a part of its backing array, with a limit and a position in it.  An
access out of the limit throws, as the documentation says, and changes nothing.

## Main definitions

* `add32` — addition of `int`s.
* `Throwable` — what may be thrown.
* `ByteBuffer` — a buffer, which keeps its position within its limit, and its limit
  within its array.
* `ByteBuffer.Over`, `ByteBuffer.Starts` — a buffer over a whole array, or over one that starts
  with some bytes; `ByteBuffer.Contains` — over one that has them where the buffer begins.
* `Charset` — how strings are encoded.

## Main results

* `ByteBuffer.put_put` — **to put bytes and then more is to put them all.**
* `ByteBuffer.getNumber_wrap` — a number is read back from its bytes.
-/

namespace Java

/-! ### Arithmetic -/

/-- An integer, wrapped to the range of `int`. -/
def wrap32 (n : ℤ) : ℤ := (2 ^ 31 + n) % 2 ^ 32 - 2 ^ 31

/-- Addition of `int`s. -/
def add32 (a b : ℤ) : ℤ := wrap32 (a + b)

theorem wrap32_of_lt {n : ℤ} (h : -2 ^ 31 ≤ n) (h' : n < 2 ^ 31) : wrap32 n = n := by
  unfold wrap32
  omega

theorem add32_of_lt {a b : ℤ} (h : -2 ^ 31 ≤ a + b) (h' : a + b < 2 ^ 31) : add32 a b = a + b :=
  wrap32_of_lt h h'

theorem add32_eq {a b : ℤ} {c : ℕ} (h : a + b = c) (hc : c < 2 ^ 31) : add32 a b = c := by
  rw [add32_of_lt (by omega) (by omega), h]

theorem add32_natCast {a n : ℕ} (h : a + n < 2 ^ 31) : add32 a n = (a + n : ℕ) :=
  add32_eq (Nat.cast_add a n).symm h

theorem add32_one {a : ℕ} (h : a + 1 < 2 ^ 31) : add32 a 1 = (a + 1 : ℕ) :=
  add32_eq (Nat.cast_succ a).symm h

/-- A number is seen to exceed a bound unless it is too large for an `int`. -/
theorem lt_wrap32_iff {a m : ℕ} (h : a < 2 ^ 32) :
    (m : ℤ) < wrap32 a ↔ m < a ∧ a < 2 ^ 31 := by
  unfold wrap32
  omega

theorem lt_add32_iff {a n m : ℕ} (h : a + n < 2 ^ 32) :
    (m : ℤ) < add32 a n ↔ m < a + n ∧ a + n < 2 ^ 31 := by
  rw [add32, ← Nat.cast_add, lt_wrap32_iff h]

@[simp] theorem wrap32_wrap32_add (a b : ℤ) : wrap32 (wrap32 a + b) = wrap32 (a + b) := by
  unfold wrap32
  omega

@[simp] theorem wrap32_add_wrap32 (a b : ℤ) : wrap32 (a + wrap32 b) = wrap32 (a + b) := by
  unfold wrap32
  omega

/-! ### Exceptions -/

/-- What may be thrown. -/
inductive Throwable
  | indexOutOfBounds
  | arrayIndexOutOfBounds
  | stringIndexOutOfBounds
  | bufferUnderflow
  | bufferOverflow
  | illegalArgument
  | nullPointer
  /-- `java.lang.Exception`, with its message. -/
  | exception (message : String)
  deriving DecidableEq, Repr

@[simp] theorem ok_bind {α β : Type} (a : α) (f : α → Except Throwable β) :
    (Except.ok a >>= f) = f a := rfl

@[simp] theorem error_bind {α β : Type} (e : Throwable) (f : α → Except Throwable β) :
    (Except.error e >>= f) = .error e := rfl

theorem bind_eq_ok_iff {α β : Type} {x : Except Throwable α} {f : α → Except Throwable β} {b : β} :
    (x >>= f) = .ok b ↔ ∃ a, x = .ok a ∧ f a = .ok b := by
  cases x with
  | error e => simp
  | ok a => simp

/-- What each step of a loop that does not throw has checked holds of every element. -/
theorem forall_of_foldlM_eq_ok {α σ : Type} {f : σ → α → Except Throwable σ} {P : α → Prop}
    (hf : ∀ st x st', f st x = .ok st' → P x) {l : List α} :
    ∀ {st st' : σ}, l.foldlM f st = .ok st' → ∀ x ∈ l, P x := by
  induction l with
  | nil => exact fun _ _ hx => nomatch hx
  | cons y l ih =>
    intro st st' h
    rw [List.foldlM_cons, bind_eq_ok_iff] at h
    obtain ⟨st₁, hy, hl⟩ := h
    exact List.forall_mem_cons.mpr ⟨hf _ _ _ hy, ih hl⟩

/-! ### Strings -/

/-- How strings are encoded; what has been encoded is decoded again. -/
structure Charset where
  encode : String → List UInt8
  decode : List UInt8 → String
  decode_encode : ∀ s, decode (encode s) = s

/-- `StandardCharsets.UTF_8`, for bytes that encode a string. -/
def Charset.utf8 : Charset where
  encode s := s.toUTF8.data.toList
  decode bs := (String.fromUTF8? ⟨bs.toArray⟩).getD ""
  decode_encode s := by
    have hvalid : s.toUTF8.IsValidUTF8 := s.isValidUTF8
    rw [Array.toArray_toList, String.fromUTF8?, dif_pos hvalid]
    rfl

/-! ### Byte buffers -/

/-- The order in which a buffer holds the bytes of a number. -/
inductive ByteOrder
  | bigEndian
  | littleEndian
  deriving DecidableEq, Repr

/-- `java.nio.ByteBuffer`. -/
@[ext] structure ByteBuffer where
  array : List UInt8
  arrayOffset : ℕ
  limit : ℕ
  position : ℕ
  order : ByteOrder
  position_le : position ≤ limit
  limit_le : arrayOffset + limit ≤ array.length
  deriving DecidableEq, Repr

namespace ByteBuffer

/-- `ByteBuffer.wrap`. -/
def wrap (bs : List UInt8) : ByteBuffer where
  array := bs
  arrayOffset := 0
  limit := bs.length
  position := 0
  order := .bigEndian
  position_le := Nat.zero_le _
  limit_le := Nat.le_of_eq (Nat.zero_add _)

/-- `ByteBuffer.allocate`. -/
def allocate (capacity : ℤ) : Except Throwable ByteBuffer :=
  if capacity < 0 then .error .illegalArgument
  else .ok (wrap (List.replicate capacity.toNat 0))

/-- The buffer covers this whole array, and is at this position in it. -/
structure Over (b : ByteBuffer) (bs : List UInt8) (pos : ℕ) : Prop where
  array_eq : b.array = bs
  arrayOffset_eq : b.arrayOffset = 0
  limit_eq : b.limit = bs.length
  position_eq : b.position = pos

/-- The buffer covers its whole array, and nothing of it has been passed. -/
def Covers (b : ByteBuffer) : Prop := b.Over b.array 0

variable (b : ByteBuffer)

/-- `capacity`, of a buffer that ends with its array. -/
def capacity : ℕ := b.array.length - b.arrayOffset

/-- The bytes from the position to the limit. -/
def remaining : List UInt8 :=
  (b.array.drop (b.arrayOffset + b.position)).take (b.limit - b.position)

/-- `order`. -/
def setOrder (order : ByteOrder) : ByteBuffer := { b with order := order }

/-- `duplicate`, which has the same content, and the order that new buffers have. -/
def duplicate : ByteBuffer := b.setOrder .bigEndian

/-- `position`. -/
def setPosition (n : ℤ) : Except Throwable ByteBuffer :=
  if h : 0 ≤ n ∧ n ≤ b.limit then
    .ok { b with position := n.toNat, position_le := by omega }
  else .error .illegalArgument

/-- `get` at an index. -/
def get (i : ℤ) : Except Throwable UInt8 :=
  if 0 ≤ i ∧ i < b.limit then .ok (b.array.getD (b.arrayOffset + i.toNat) 0)
  else .error .indexOutOfBounds

/-- The `n` bytes of a number at an index. -/
def getBytes (i : ℤ) (n : ℕ) : Except Throwable (List UInt8) :=
  if 0 ≤ i ∧ i + n ≤ b.limit then .ok ((b.array.drop (b.arrayOffset + i.toNat)).take n)
  else .error .indexOutOfBounds

/-- The number that `n` bytes at an index stand for, in the order of the buffer:
`getShort`, `getFloat` and `getDouble`, as bits. -/
def getNumber (i : ℤ) (n : ℕ) : Except Throwable (BitVec (8 * n)) := do
  let bs ← b.getBytes i n
  return BitVec.ofNat _ (Bytes.toNat (if b.order = .littleEndian then bs else bs.reverse))

/-- `get` at the position, which it passes. -/
def next : Except Throwable (UInt8 × ByteBuffer) :=
  if h : b.position < b.limit then
    .ok (b.array.getD (b.arrayOffset + b.position) 0,
      { b with position := b.position + 1, position_le := h })
  else .error .bufferUnderflow

/-- `get` into an array of `n` bytes. -/
def nextBytes (n : ℕ) : Except Throwable (List UInt8 × ByteBuffer) :=
  if h : b.position + n ≤ b.limit then
    .ok ((b.array.drop (b.arrayOffset + b.position)).take n,
      { b with position := b.position + n, position_le := h })
  else .error .bufferUnderflow

/-- The array with other bytes from index `i` on. -/
def splice (l : List UInt8) (i : ℕ) (bs : List UInt8) : List UInt8 :=
  l.take i ++ bs ++ l.drop (i + bs.length)

theorem length_splice {l bs : List UInt8} {i : ℕ} (h : i + bs.length ≤ l.length) :
    (splice l i bs).length = l.length := by
  simp only [splice, List.length_append, List.length_take, List.length_drop]
  omega

/-- `put` of bytes at the position, which passes them. -/
def put (bs : List UInt8) : Except Throwable ByteBuffer :=
  if h : b.position + bs.length ≤ b.limit then
    .ok { b with
      array := splice b.array (b.arrayOffset + b.position) bs
      position := b.position + bs.length
      position_le := h
      limit_le := by
        have hle := b.limit_le
        rw [length_splice (by omega)]
        exact hle }
  else .error .bufferOverflow

/-- `put` of the first `n` bytes of an array. -/
def putFirst (bs : List UInt8) (n : ℕ) : Except Throwable ByteBuffer :=
  if n ≤ bs.length then b.put (bs.take n) else .error .indexOutOfBounds

/-- `put` of a byte at an index. -/
def putAt (i : ℤ) (x : UInt8) : Except Throwable ByteBuffer :=
  if 0 ≤ i ∧ i < b.limit then
    .ok { b with
      array := b.array.set (b.arrayOffset + i.toNat) x
      limit_le := by
        rw [List.length_set]
        exact b.limit_le }
  else .error .indexOutOfBounds

/-! ### What has not thrown -/

section Ok

variable {b b' : ByteBuffer}

theorem allocate_eq_ok {capacity : ℤ} (h : allocate capacity = .ok b) :
    (b.limit : ℤ) = capacity := by
  unfold allocate at h
  split at h
  · cases h
  · cases h
    simp only [wrap, List.length_replicate]
    omega

theorem get_eq_ok {i : ℤ} {x : UInt8} (h : b.get i = .ok x) : 0 ≤ i ∧ i < b.limit := by
  unfold get at h
  split at h
  · assumption
  · cases h

theorem setPosition_eq_ok {n : ℤ} (h : b.setPosition n = .ok b') :
    (b'.position : ℤ) = n ∧ b'.limit = b.limit := by
  unfold setPosition at h
  split at h
  · cases h
    exact ⟨by simp only; omega, rfl⟩
  · cases h

/-- Only the position is another one. -/
structure Moved (b b' : ByteBuffer) : Prop where
  array_eq : b'.array = b.array
  arrayOffset_eq : b'.arrayOffset = b.arrayOffset
  limit_eq : b'.limit = b.limit
  order_eq : b'.order = b.order

theorem Moved.refl (b : ByteBuffer) : b.Moved b := ⟨rfl, rfl, rfl, rfl⟩

theorem Moved.trans {b'' : ByteBuffer} (h : b.Moved b') (h' : b'.Moved b'') : b.Moved b'' :=
  ⟨h'.1.trans h.1, h'.2.trans h.2, h'.3.trans h.3, h'.4.trans h.4⟩

theorem Moved.symm (h : b.Moved b') : b'.Moved b := ⟨h.1.symm, h.2.symm, h.3.symm, h.4.symm⟩

theorem Moved.get_eq (h : b.Moved b') (i : ℤ) : b'.get i = b.get i := by
  rw [get, get, h.array_eq, h.arrayOffset_eq, h.limit_eq]

theorem setPosition_moved {n : ℤ} (h : b.setPosition n = .ok b') : b.Moved b' := by
  unfold setPosition at h
  split at h
  · cases h
    exact ⟨rfl, rfl, rfl, rfl⟩
  · cases h

theorem next_moved {x : UInt8} (h : b.next = .ok (x, b')) : b.Moved b' := by
  unfold next at h
  split at h
  · cases h
    exact ⟨rfl, rfl, rfl, rfl⟩
  · cases h

theorem nextBytes_moved {n : ℕ} {bs : List UInt8} (h : b.nextBytes n = .ok (bs, b')) :
    b.Moved b' := by
  unfold nextBytes at h
  split at h
  · cases h
    exact ⟨rfl, rfl, rfl, rfl⟩
  · cases h

theorem put_eq_ok {bs : List UInt8} (h : b.put bs = .ok b') :
    b'.position = b.position + bs.length ∧ b'.limit = b.limit := by
  unfold put at h
  split at h
  · cases h
    exact ⟨rfl, rfl⟩
  · cases h

theorem putAt_eq_ok {i : ℤ} {x : UInt8} (h : b.putAt i x = .ok b') : b'.limit = b.limit := by
  unfold putAt at h
  split at h
  · cases h
    rfl
  · cases h

end Ok

/-! ### Putting bytes one after the other -/

variable {b}

theorem splice_splice {l bs bs' : List UInt8} {i : ℕ}
    (h : i + bs.length + bs'.length ≤ l.length) :
    splice (splice l i bs) (i + bs.length) bs' = splice l i (bs ++ bs') := by
  have hlen : (l.take i ++ bs).length = i + bs.length := by
    simp only [List.length_append, List.length_take]
    omega
  unfold splice
  rw [← hlen, List.take_left, Nat.add_comm _ bs'.length, Nat.add_comm, ← List.drop_drop,
    List.drop_left, List.drop_drop, List.append_assoc (l.take i) bs bs', hlen, List.length_append,
    Nat.add_assoc]

theorem put_nil : b.put [] = .ok b := by
  have hlen : b.position + ([] : List UInt8).length ≤ b.limit := b.position_le
  rw [put, dif_pos hlen]
  congr 1
  ext1 <;> simp [splice]

/-- **To put bytes and then more is to put them all.** -/
theorem put_put (bs bs' : List UInt8) :
    (b.put bs >>= fun b => b.put bs') = b.put (bs ++ bs') := by
  have hle := b.limit_le
  by_cases h : b.position + bs.length ≤ b.limit
  · by_cases h' : b.position + bs.length + bs'.length ≤ b.limit
    · have hall : b.position + (bs ++ bs').length ≤ b.limit := by
        rw [List.length_append]
        omega
      rw [put, dif_pos h, put, dif_pos hall]
      show put _ bs' = _
      rw [put, dif_pos h']
      congr 1
      have hsplice := @splice_splice b.array bs bs' (b.arrayOffset + b.position) (by omega)
      rw [Nat.add_assoc b.arrayOffset] at hsplice
      ext1
      · exact hsplice
      all_goals simp [Nat.add_assoc]
    · have hall : ¬b.position + (bs ++ bs').length ≤ b.limit := by
        rw [List.length_append]
        omega
      rw [put, dif_pos h, put, dif_neg hall]
      show put _ bs' = _
      rw [put, dif_neg h']
  · have hall : ¬b.position + (bs ++ bs').length ≤ b.limit := by
      rw [List.length_append]
      omega
    rw [put, dif_neg h, put, dif_neg hall]
    rfl

/-! ### Buffers over a whole array -/

theorem over_wrap (bs : List UInt8) : (wrap bs).Over bs 0 := ⟨rfl, rfl, rfl, rfl⟩

theorem Moved.over {b b' : ByteBuffer} {bs : List UInt8} {pos : ℕ} (h : b.Moved b')
    (hover : b.Over bs pos) : b'.Over bs b'.position :=
  ⟨h.1.trans hover.1, h.2.trans hover.2, h.3.trans hover.3, rfl⟩

/-- What there is to a buffer that covers its whole array, but for the order. -/
theorem Covers.duplicate_eq (h : b.Covers) : b.duplicate = wrap b.array := by
  obtain ⟨-, hoffset, hlimit, hpos⟩ := h
  ext1
  · rfl
  · exact hoffset
  · exact hlimit
  · exact hpos
  · rfl

theorem allocate_eq (n : ℕ) : allocate n = .ok (wrap (List.replicate n 0)) := by
  rw [allocate, if_neg (by omega), Int.toNat_natCast]

/-- A number is read back from its bytes. -/
theorem getNumber_wrap (n : ℕ) (v : BitVec (8 * n)) :
    (wrap (Bytes.bigEndian n v.toNat)).getNumber 0 n = .ok v := by
  have hlen : (Bytes.bigEndian n v.toNat).length = n := by
    rw [Bytes.bigEndian, List.length_reverse, Bytes.length_littleEndian]
  have hlt : v.toNat < 256 ^ n := by
    have hpow : 256 ^ n = 2 ^ (8 * n) := by rw [Nat.pow_mul]
    rw [hpow]
    exact v.isLt
  have hnat : Bytes.toNat (Bytes.bigEndian n v.toNat).reverse = v.toNat := by
    rw [Bytes.bigEndian, List.reverse_reverse, Bytes.toNat_littleEndian_of_lt hlt]
  have hlim : 0 ≤ (0 : ℤ) ∧ (0 : ℤ) + n ≤ (wrap (Bytes.bigEndian n v.toNat)).limit := by
    show 0 ≤ (0 : ℤ) ∧ (0 : ℤ) + n ≤ ((Bytes.bigEndian n v.toNat).length : ℕ)
    omega
  have hbytes : (Bytes.bigEndian n v.toNat).take n = Bytes.bigEndian n v.toNat :=
    List.take_of_length_le (Nat.le_of_eq hlen)
  have horder : ¬(wrap (Bytes.bigEndian n v.toNat)).order = .littleEndian := by simp [wrap]
  rw [getNumber, getBytes, if_pos hlim, ok_bind, if_neg horder]
  show Except.ok (BitVec.ofNat (8 * n) (Bytes.toNat
    ((Bytes.bigEndian n v.toNat).take n).reverse)) = _
  rw [hbytes, hnat, BitVec.ofNat_toNat, BitVec.setWidth_eq]

variable {bs pre old post : List UInt8} {pos : ℕ}

theorem Over.setOrder (h : b.Over bs pos) (order : ByteOrder) : (b.setOrder order).Over bs pos :=
  ⟨h.1, h.2, h.3, h.4⟩

theorem Over.setPosition (h : b.Over bs pos) {n : ℕ} (hn : n ≤ bs.length) :
    ∃ b', b.setPosition n = .ok b' ∧ b'.Over bs n := by
  have hlim : 0 ≤ (n : ℤ) ∧ (n : ℤ) ≤ b.limit := by
    rw [h.limit_eq]
    omega
  rw [ByteBuffer.setPosition, dif_pos hlim]
  exact ⟨_, rfl, h.array_eq, h.arrayOffset_eq, h.limit_eq, Int.toNat_natCast n⟩

theorem Over.putAt (h : b.Over bs pos) {i : ℕ} (hi : i < bs.length) (x : UInt8) :
    ∃ b', b.putAt i x = .ok b' ∧ b'.Over (bs.set i x) pos := by
  have hlim : 0 ≤ (i : ℤ) ∧ (i : ℤ) < b.limit := by
    rw [h.limit_eq]
    omega
  rw [ByteBuffer.putAt, if_pos hlim]
  refine ⟨_, rfl, ?_, h.arrayOffset_eq, ?_, h.position_eq⟩
  · simp only [h.array_eq, h.arrayOffset_eq, Nat.zero_add, Int.toNat_natCast]
  · rw [List.length_set]
    exact h.limit_eq

/-- Bytes at the position make way for as many others. -/
theorem Over.put (h : b.Over (pre ++ old ++ post) pre.length) (new : List UInt8)
    (hlen : new.length = old.length) :
    ∃ b', b.put new = .ok b' ∧ b'.Over (pre ++ new ++ post) (pre.length + new.length) := by
  have hle : b.position + new.length ≤ b.limit := by
    rw [h.position_eq, h.limit_eq, List.length_append, List.length_append]
    omega
  rw [ByteBuffer.put, dif_pos hle]
  refine ⟨_, rfl, ?_, h.arrayOffset_eq, ?_, ?_⟩
  · simp [h.array_eq, h.arrayOffset_eq, h.position_eq, splice, hlen]
  · simp [h.limit_eq, hlen]
  · simp [h.position_eq]

theorem Over.get {x : UInt8} (h : b.Over (pre ++ x :: post) pos) : b.get pre.length = .ok x := by
  have hlim : 0 ≤ (pre.length : ℤ) ∧ (pre.length : ℤ) < b.limit := by
    rw [h.limit_eq, List.length_append, List.length_cons]
    omega
  rw [ByteBuffer.get, if_pos hlim, h.array_eq, h.arrayOffset_eq, Nat.zero_add, Int.toNat_natCast,
    List.getD_append_right _ _ _ _ (Nat.le_refl _), Nat.sub_self, List.getD_cons_zero]

theorem Over.getBytes (h : b.Over (pre ++ bs ++ post) pos) :
    b.getBytes pre.length bs.length = .ok bs := by
  have hlim : 0 ≤ (pre.length : ℤ) ∧ (pre.length : ℤ) + bs.length ≤ b.limit := by
    rw [h.limit_eq, List.length_append, List.length_append]
    omega
  rw [ByteBuffer.getBytes, if_pos hlim, h.array_eq, h.arrayOffset_eq, Nat.zero_add,
    Int.toNat_natCast, List.append_assoc, List.drop_left, List.take_left]

theorem Over.getNumber_bytes (h : b.Over (pre ++ bs ++ post) pos) (horder : b.order = .littleEndian)
    {n : ℕ} (hn : bs.length = n) :
    b.getNumber pre.length n = .ok (BitVec.ofNat (8 * n) (Bytes.toNat bs)) := by
  subst hn
  rw [ByteBuffer.getNumber, h.getBytes, ok_bind, if_pos horder]
  rfl

theorem Over.getNumber {n v : ℕ} (h : b.Over (pre ++ Bytes.littleEndian n v ++ post) pos)
    (horder : b.order = .littleEndian) :
    b.getNumber pre.length n = .ok (BitVec.ofNat (8 * n) v) := by
  rw [h.getNumber_bytes horder (Bytes.length_littleEndian n v), Bytes.toNat_littleEndian]
  congr 1
  rw [← BitVec.toNat_inj, BitVec.toNat_ofNat, BitVec.toNat_ofNat, Nat.pow_mul, Nat.mod_mod]

theorem Over.nextBytes (h : b.Over (pre ++ bs ++ post) pre.length) :
    ∃ b', b.nextBytes bs.length = .ok (bs, b') ∧
      b'.Over (pre ++ bs ++ post) (pre.length + bs.length) := by
  have hle : b.position + bs.length ≤ b.limit := by
    rw [h.position_eq, h.limit_eq, List.length_append, List.length_append]
    omega
  have hbytes : (b.array.drop (b.arrayOffset + b.position)).take bs.length = bs := by
    rw [h.array_eq, h.arrayOffset_eq, h.position_eq, Nat.zero_add, List.append_assoc,
      List.drop_left, List.take_left]
  rw [ByteBuffer.nextBytes, dif_pos hle, hbytes]
  refine ⟨_, rfl, h.array_eq, h.arrayOffset_eq, h.limit_eq, ?_⟩
  simp only [h.position_eq]

/-! ### Buffers that start with bytes -/

/-- The buffer ends at this limit and starts with these bytes, as its array does. -/
structure Starts (b : ByteBuffer) (bs : List UInt8) (n : ℕ) : Prop where
  array_eq : ∃ rest, b.array = bs ++ rest
  arrayOffset_eq : b.arrayOffset = 0
  limit_eq : b.limit = n
  length_le : bs.length ≤ n
  length_lt : b.array.length < 2 ^ 31

theorem Over.starts (h : b.Over bs pos) (hlen : bs.length < 2 ^ 31) : b.Starts bs bs.length where
  array_eq := ⟨[], by rw [h.array_eq, List.append_nil]⟩
  arrayOffset_eq := h.arrayOffset_eq
  limit_eq := h.limit_eq
  length_le := Nat.le_refl _
  length_lt := by
    rw [h.array_eq]
    exact hlen

theorem starts_wrap (bs rest : List UInt8) (hlen : (bs ++ rest).length < 2 ^ 31) :
    (wrap (bs ++ rest)).Starts bs (bs ++ rest).length where
  array_eq := ⟨rest, rfl⟩
  arrayOffset_eq := rfl
  limit_eq := rfl
  length_le := by
    rw [List.length_append]
    omega
  length_lt := hlen

theorem Moved.starts {b b' : ByteBuffer} {n : ℕ} (h : b.Moved b') (hstarts : b.Starts bs n) :
    b'.Starts bs n where
  array_eq := by
    rw [h.array_eq]
    exact hstarts.array_eq
  arrayOffset_eq := h.arrayOffset_eq.trans hstarts.arrayOffset_eq
  limit_eq := h.limit_eq.trans hstarts.limit_eq
  length_le := hstarts.length_le
  length_lt := by
    rw [h.array_eq]
    exact hstarts.length_lt

namespace Starts

variable {n : ℕ} (h : b.Starts bs n)

include h

theorem limit_le_length : n ≤ b.array.length := by
  have hle := b.limit_le
  rw [h.arrayOffset_eq, h.limit_eq] at hle
  omega

theorem setOrder (order : ByteOrder) : (b.setOrder order).Starts bs n :=
  ⟨h.1, h.2, h.3, h.4, h.5⟩

theorem get {i : ℕ} (hi : i < bs.length) : b.get i = .ok (bs.getD i 0) := by
  have hle := h.length_le
  have hlim : 0 ≤ (i : ℤ) ∧ (i : ℤ) < b.limit := by
    rw [h.limit_eq]
    omega
  obtain ⟨rest, harray⟩ := h.array_eq
  rw [ByteBuffer.get, if_pos hlim, harray, h.arrayOffset_eq, Nat.zero_add, Int.toNat_natCast,
    List.getD_append _ _ _ _ hi]

/-- Beyond the limit there is nothing. -/
theorem get_beyond {i : ℤ} (hi : i < 0 ∨ n ≤ i) : b.get i = .error .indexOutOfBounds := by
  rw [ByteBuffer.get, if_neg]
  rw [h.limit_eq]
  omega

theorem take_drop {i m : ℕ} (hle : i + m ≤ bs.length) :
    (b.array.drop i).take m = (bs.drop i).take m := by
  obtain ⟨rest, harray⟩ := h.array_eq
  rw [harray, List.drop_append_of_le_length (by omega), List.take_append_of_le_length]
  rw [List.length_drop]
  omega

theorem getNumber {i m : ℕ} (hle : i + m ≤ bs.length) (horder : b.order = .littleEndian) :
    b.getNumber i m = .ok (BitVec.ofNat (8 * m) (Bytes.toNat ((bs.drop i).take m))) := by
  have hlimit := h.length_le
  have hlim : 0 ≤ (i : ℤ) ∧ (i : ℤ) + m ≤ b.limit := by
    rw [h.limit_eq]
    omega
  rw [ByteBuffer.getNumber, ByteBuffer.getBytes, if_pos hlim, ok_bind, if_pos horder,
    h.arrayOffset_eq, Nat.zero_add, Int.toNat_natCast, h.take_drop hle]
  rfl

theorem setPosition {i : ℕ} (hi : i ≤ bs.length) :
    ∃ b', b.setPosition i = .ok b' ∧ b.Moved b' ∧ b'.position = i := by
  have hle := h.length_le
  have hlim : 0 ≤ (i : ℤ) ∧ (i : ℤ) ≤ b.limit := by
    rw [h.limit_eq]
    omega
  rw [ByteBuffer.setPosition, dif_pos hlim]
  exact ⟨_, rfl, ⟨rfl, rfl, rfl, rfl⟩, Int.toNat_natCast i⟩

theorem nextBytes {m : ℕ} (hle : b.position + m ≤ bs.length) :
    ∃ b', b.nextBytes m = .ok ((bs.drop b.position).take m, b') ∧ b.Moved b' := by
  have hlimit := h.length_le
  have hlim : b.position + m ≤ b.limit := by
    rw [h.limit_eq]
    omega
  have hbytes : (b.array.drop (b.arrayOffset + b.position)).take m =
      (bs.drop b.position).take m := by
    rw [h.arrayOffset_eq, Nat.zero_add, h.take_drop hle]
  rw [ByteBuffer.nextBytes, dif_pos hlim, hbytes]
  exact ⟨_, rfl, rfl, rfl, rfl, rfl⟩

end Starts

/-! ### Buffers that begin anywhere in their array -/

/-- The buffer ends at this limit and starts with these bytes, wherever in its array it
begins. -/
structure Contains (b : ByteBuffer) (bs : List UInt8) (n : ℕ) : Prop where
  array_eq : ∃ pre rest, b.array = pre ++ bs ++ rest ∧ pre.length = b.arrayOffset
  limit_eq : b.limit = n
  length_le : bs.length ≤ n
  length_lt : b.array.length < 2 ^ 31

/-- The buffer over the part of its array where it begins. -/
def rebase (b : ByteBuffer) : ByteBuffer where
  array := b.array.drop b.arrayOffset
  arrayOffset := 0
  limit := b.limit
  position := b.position
  order := b.order
  position_le := b.position_le
  limit_le := by
    have hle := b.limit_le
    rw [List.length_drop]
    omega

theorem rebase_eq (h : b.arrayOffset = 0) : b.rebase = b := by
  ext1
  · show b.array.drop b.arrayOffset = b.array
    rw [h, List.drop_zero]
  · exact h.symm
  all_goals rfl

theorem Starts.contains {n : ℕ} (h : b.Starts bs n) : b.Contains bs n where
  array_eq := by
    obtain ⟨rest, harray⟩ := h.array_eq
    exact ⟨[], rest, by rw [harray, List.nil_append], h.arrayOffset_eq.symm⟩
  limit_eq := h.limit_eq
  length_le := h.length_le
  length_lt := h.length_lt

theorem Contains.rebase {n : ℕ} (h : b.Contains bs n) : b.rebase.Starts bs n where
  array_eq := by
    obtain ⟨pre, rest, harray, hoffset⟩ := h.array_eq
    refine ⟨rest, ?_⟩
    show b.array.drop b.arrayOffset = bs ++ rest
    rw [harray, ← hoffset, List.append_assoc, List.drop_left]
  arrayOffset_eq := rfl
  limit_eq := h.limit_eq
  length_le := h.length_le
  length_lt := by
    have hlt := h.length_lt
    show (b.array.drop b.arrayOffset).length < 2 ^ 31
    rw [List.length_drop]
    omega

/-- What is read through the buffer is read at the same indices. -/
theorem get_rebase (i : ℤ) : b.rebase.get i = b.get i := by
  have hbyte : (b.array.drop b.arrayOffset).getD (0 + i.toNat) 0 =
      b.array.getD (b.arrayOffset + i.toNat) 0 := by
    rw [Nat.zero_add, List.getD_eq_getElem?_getD, List.getElem?_drop,
      ← List.getD_eq_getElem?_getD]
  rw [get, get, ← hbyte]
  rfl

theorem getNumber_rebase (i : ℤ) (n : ℕ) : b.rebase.getNumber i n = b.getNumber i n := by
  have hbytes : (b.array.drop b.arrayOffset).drop (0 + i.toNat) =
      b.array.drop (b.arrayOffset + i.toNat) := by
    rw [Nat.zero_add, List.drop_drop]
  rw [getNumber, getNumber, getBytes, getBytes, ← hbytes]
  rfl

end ByteBuffer

end Java
