import PeeledOrange.Lib.Rounding
import Mathlib.Data.Int.Notation
import Mathlib.Tactic.SplitIfs
import Mathlib.Tactic.ByContra

/-!
# The receive buffer of a connection

`TCPServer::ConnectionProcessing` receives what is there into the free part of
the buffer, and unless the handler has asked for more bytes than that, hands the
buffer to `OnReadData`, which says how many bytes at the front it has used up.
What is left is moved to the front of a buffer of the capacity that is computed
from the bytes the handler asks for next, or from the bytes left.

The fields are `uint32_t`; where the source subtracts, the result wraps.  The
bytes of a new array are indeterminate; here they are 0, and nothing depends on
them.  A copy that does not fit its buffer is recorded as an `Access`, and the
model goes on as if the buffer were larger: nothing is claimed of such a state.

## Main definitions

* `ConnectionData` — `connection_data_t`, with its `DataStorage`.
* `requiredCapacity` — the capacity for a number of bytes.
* `Outcome`, `Access` — what the handler leaves; what the code does to the buffer.
* `connectionProcessing` — one call of `ConnectionProcessing`.

## Main results

* `lt_requiredCapacity` — the capacity exceeds the number of bytes it is for.
* `connectionProcessing_view` — when the handler is called, and on what.
-/

namespace PeeledOrange
namespace Server

/-! ### The data -/

/-- `uint32_t` subtraction of two values in range. -/
def sub32 (a b : ℕ) : ℕ := (2 ^ 32 + a - b) % 2 ^ 32

theorem sub32_of_le {a b : ℕ} (hb : b ≤ a) (ha : a < 2 ^ 32) : sub32 a b = a - b := by
  unfold sub32
  omega

/-- `data_storage_t`; `data` is the whole allocated array. -/
structure DataStorage where
  data : List UInt8
  size : ℕ
  capacity : ℕ
  pos : ℕ
  deriving DecidableEq, Repr

/-- `connection_data_t`; `close_connection` is used as a flag. -/
structure ConnectionData where
  sockFd : ℤ
  requiredSize : ℕ
  lastTime : ℕ
  timeout : ℕ
  closeConnection : Bool
  input : DataStorage
  deriving DecidableEq, Repr

/-- `RECV_BUFFER_SIZE`. -/
def recvBufferSize : ℕ := 1024

/-- `ceil((float) x / (float) RECV_BUFFER_SIZE) * RECV_BUFFER_SIZE + RECV_BUFFER_SIZE`,
as a `uint32_t`.  Only the conversion of `x` rounds: the division is by a power of two, and
what is computed from its quotient has at most 23 significant bits.  A result of 2³² or more,
which the standard leaves undefined, keeps its lower bits, as with 64-bit conversions. -/
def requiredCapacity (x : ℕ) : ℕ :=
  ((Rounding.roundTo 24 x + (recvBufferSize - 1)) / recvBufferSize * recvBufferSize +
    recvBufferSize) % 2 ^ 32

/-- What `OnReadData` leaves in the connection. -/
structure Outcome where
  pos : ℕ
  requiredSize : ℕ
  closeConnection : Bool
  timeout : ℕ
  deriving DecidableEq, Repr

/-- What `ConnectionProcessing` does to the buffer. -/
inductive Access
  /-- `ReceiveData` is called, with this size and capacity. -/
  | receive (size capacity : ℕ)
  /-- `memcpy` of `n` bytes from `pos` to the front of a buffer of this capacity, the
  same buffer or a new one. -/
  | copy (inPlace : Bool) (pos n capacity : ℕ)
  deriving DecidableEq, Repr

/-- Write `bs` at offset `i`. -/
def overwrite (l : List UInt8) (i : ℕ) (bs : List UInt8) : List UInt8 :=
  l.take i ++ bs ++ l.drop (i + bs.length)

/-! ### `ConnectionProcessing` -/

namespace ConnectionData

variable (cd : ConnectionData)

/-- The length that `ReceiveData` passes to `recv`. -/
def room : ℕ := sub32 cd.input.capacity cd.input.size

/-- The bytes have been received. -/
def receive (now : ℕ) (bs : List UInt8) : ConnectionData :=
  { cd with
    lastTime := now
    input := { cd.input with
      data := overwrite cd.input.data cd.input.size bs
      size := (cd.input.size + bs.length) % 2 ^ 32 } }

/-- `required_size = 0`. -/
def clearRequired : ConnectionData := { cd with requiredSize := 0 }

/-- `OnReadData` has returned. -/
def handle (o : Outcome) : ConnectionData :=
  { cd with
    requiredSize := o.requiredSize
    closeConnection := o.closeConnection
    timeout := o.timeout
    input := { cd.input with pos := o.pos } }

/-- `input.size -= input.pos`. -/
def consume : ConnectionData :=
  { cd with input := { cd.input with size := sub32 cd.input.size cd.input.pos } }

/-- The bytes left, and where they are. -/
def rest : List UInt8 := (cd.input.data.drop cd.input.pos).take cd.input.size

/-- The capacity the buffer is to have next. -/
def nextCapacity : ℕ :=
  requiredCapacity (if cd.requiredSize ≠ 0 then cd.requiredSize else cd.input.size)

/-- The bytes left are moved to the front of a buffer of the next capacity. -/
def compact : ConnectionData :=
  if cd.input.capacity ≠ cd.nextCapacity then
    { cd with input := { cd.input with
        data := overwrite (List.replicate cd.nextCapacity 0) 0 cd.rest
        capacity := cd.nextCapacity
        pos := 0 } }
  else
    { cd with input := { cd.input with
        data := overwrite cd.input.data 0 cd.rest
        pos := 0 } }

/-- The `memcpy` that does it; there is none if no bytes are left. -/
def copies : List Access :=
  if cd.input.size ≠ 0 then
    [.copy (cd.input.capacity == cd.nextCapacity) cd.input.pos cd.input.size cd.nextCapacity]
  else []

end ConnectionData

/-- What a call of `ConnectionProcessing` comes to. -/
structure Processed where
  /-- The connection, as it is left or as it is passed to `Disconnect`. -/
  connection : ConnectionData
  /-- `Disconnect` is called. -/
  disconnected : Bool
  /-- The bytes in the buffer when `OnReadData` is called, if it is. -/
  view : Option (List UInt8)
  accesses : List Access
  deriving DecidableEq, Repr

/-- `ConnectionProcessing`, given what `recv` returns (nothing if it fails, no bytes
if the peer has closed) and what `OnReadData` leaves if it is called. -/
def connectionProcessing (maxHeaderSize now : ℕ) (cd : ConnectionData)
    (received : Option (List UInt8)) (o : Outcome) : Processed :=
  let call := [Access.receive cd.input.size cd.input.capacity]
  match received with
  | none | some [] => ⟨cd, true, none, call⟩
  | some bs =>
    let cd := cd.receive now bs
    if cd.requiredSize ≠ 0 ∧ cd.requiredSize > cd.input.size then ⟨cd, false, none, call⟩
    else
      let cd := cd.clearRequired
      let view := some (cd.input.data.take cd.input.size)
      let cd := cd.handle o
      if cd.closeConnection then ⟨cd, true, view, call⟩
      else
        let cd := cd.consume
        if cd.requiredSize = 0 ∧ cd.input.size > maxHeaderSize then ⟨cd, true, view, call⟩
        else ⟨cd.compact, false, view, call ++ cd.copies⟩

/-! ### The capacity -/

/-- The capacity exceeds the number of bytes it is for. -/
theorem lt_requiredCapacity {x : ℕ} (hx : x < 2 ^ 31) : x < requiredCapacity x := by
  have hulp : Rounding.ulp 24 x ≤ 2 ^ 7 := Rounding.ulp_le hx
  have hround := Rounding.le_roundTo 24 x
  have hround' := Rounding.roundTo_le 24 x
  unfold requiredCapacity recvBufferSize
  omega

/-- No array is smaller than a receive buffer. -/
theorem recvBufferSize_le {x : ℕ} (hx : x < 2 ^ 31) : recvBufferSize ≤ requiredCapacity x := by
  have hulp : Rounding.ulp 24 x ≤ 2 ^ 7 := Rounding.ulp_le hx
  have hround := Rounding.roundTo_le 24 x
  unfold requiredCapacity recvBufferSize
  omega

/-- And by two receive buffers at most: multiples of a receive buffer are not rounded. -/
theorem requiredCapacity_le {x : ℕ} (hx : x < 2 ^ 31) :
    requiredCapacity x ≤ x + 2 * recvBufferSize := by
  have hdvd : Rounding.ulp 24 x ∣ (x + 1023) / 1024 * 1024 := by
    have hsize : x.size ≤ 31 := Nat.size_le.mpr hx
    have hpow : Rounding.ulp 24 x ∣ 2 ^ 10 := Nat.pow_dvd_pow 2 (by omega)
    exact Nat.dvd_trans hpow (Nat.dvd_mul_left ..)
  have hround := Rounding.roundTo_le_of_dvd hdvd (by omega)
  have hmod := Nat.mod_le ((Rounding.roundTo 24 x + (recvBufferSize - 1)) / recvBufferSize *
    recvBufferSize + recvBufferSize) (2 ^ 32)
  unfold requiredCapacity
  unfold recvBufferSize at hmod ⊢
  omega

/-- The capacity is a `uint32_t`. -/
theorem requiredCapacity_lt (x : ℕ) : requiredCapacity x < 2 ^ 32 := Nat.mod_lt _ (by decide)

/-! ### Writing into an array -/

theorem length_overwrite {l bs : List UInt8} {i : ℕ} (h : i + bs.length ≤ l.length) :
    (overwrite l i bs).length = l.length := by
  simp only [overwrite, List.length_append, List.length_take, List.length_drop]
  omega

theorem take_overwrite {l bs : List UInt8} {i : ℕ} (h : i ≤ l.length) :
    (overwrite l i bs).take (i + bs.length) = l.take i ++ bs := by
  have hlen : (l.take i ++ bs).length = i + bs.length := by simp [h]
  rw [overwrite, ← hlen]
  exact List.take_left ..

/-! ### What a call does -/

/-- A buffer between two calls: an array of its capacity, with the bytes in it at the
front and none of them used up. -/
structure DataStorage.Sound (input : DataStorage) : Prop where
  length : input.data.length = input.capacity
  capacity : input.capacity < 2 ^ 32
  size : input.size ≤ input.capacity
  pos : input.pos = 0

namespace ConnectionData

variable {cd : ConnectionData} {bs : List UInt8} {now : ℕ} {o : Outcome}

/-- The bytes in the buffer. -/
def bytes (cd : ConnectionData) : List UInt8 := cd.input.data.take cd.input.size

/-- The peer may send this: there is room for it, and the size stays in range. -/
structure Accepts (cd : ConnectionData) (bs : List UInt8) : Prop where
  room : bs.length ≤ cd.room
  size : cd.input.size + bs.length < 2 ^ 31

/-- With `n` more bytes there are fewer than the handler has asked for. -/
def Waits (cd : ConnectionData) (n : ℕ) : Prop :=
  cd.requiredSize ≠ 0 ∧ cd.input.size + n < cd.requiredSize

instance (n : ℕ) : Decidable (cd.Waits n) :=
  inferInstanceAs (Decidable (cd.requiredSize ≠ 0 ∧ cd.input.size + n < cd.requiredSize))

/-- When these bytes are received, the handler is called. -/
def Calls (cd : ConnectionData) (bs : List UInt8) : Prop := bs ≠ [] ∧ ¬cd.Waits bs.length

/-- What is left of the received bytes when the handler has returned. -/
def left (cd : ConnectionData) (now : ℕ) (bs : List UInt8) (o : Outcome) : ConnectionData :=
  ((cd.receive now bs).clearRequired.handle o).consume

theorem room_eq (h : cd.input.Sound) : cd.room = cd.input.capacity - cd.input.size :=
  sub32_of_le h.size h.capacity

theorem length_bytes (h : cd.input.Sound) : cd.bytes.length = cd.input.size := by
  have hlen := h.length
  have hsize := h.size
  rw [bytes, List.length_take]
  omega

theorem receive_size (ha : cd.Accepts bs) :
    (cd.receive now bs).input.size = cd.input.size + bs.length :=
  Nat.mod_eq_of_lt (Nat.lt_trans ha.size (by decide))

theorem consume_size : cd.consume.input.size = sub32 cd.input.size cd.input.pos := rfl

theorem handle_size : (cd.clearRequired.handle o).input.size = cd.input.size := rfl

theorem handle_pos : (cd.clearRequired.handle o).input.pos = o.pos := rfl

@[simp] theorem left_data :
    (cd.left now bs o).input.data = (cd.receive now bs).input.data := rfl

@[simp] theorem left_pos : (cd.left now bs o).input.pos = o.pos := rfl

@[simp] theorem left_requiredSize : (cd.left now bs o).requiredSize = o.requiredSize := rfl

theorem left_size (ha : cd.Accepts bs) (hpos : o.pos ≤ cd.input.size + bs.length) :
    (cd.left now bs o).input.size = cd.input.size + bs.length - o.pos := by
  have hsize := ha.size
  rw [left, consume_size, handle_size, handle_pos, receive_size ha]
  exact sub32_of_le hpos (by omega)

section Receive

variable (h : cd.input.Sound) (ha : cd.Accepts bs)

include h ha

theorem size_add_length_le : cd.input.size + bs.length ≤ cd.input.capacity := by
  have hroom := ha.room
  rw [room_eq h] at hroom
  have hsize := h.size
  omega

theorem receive_bytes : (cd.receive now bs).bytes = cd.bytes ++ bs := by
  have hlen := h.length
  have hsize := h.size
  rw [bytes, receive_size ha]
  exact take_overwrite (by omega)

theorem receive_sound : (cd.receive now bs).input.Sound where
  length := by
    have hlen := h.length
    have hle := size_add_length_le h ha
    exact (length_overwrite (by omega)).trans h.length
  capacity := h.capacity
  size := by
    rw [receive_size ha]
    exact size_add_length_le h ha
  pos := h.pos

/-- The bytes left are the received ones without those used up. -/
theorem left_rest (hpos : o.pos ≤ cd.input.size + bs.length) :
    (cd.left now bs o).rest = (cd.bytes ++ bs).drop o.pos := by
  have hbytes : (cd.receive now bs).bytes = cd.bytes ++ bs := receive_bytes h ha
  rw [← hbytes, rest, left_size ha hpos, bytes, receive_size ha, List.drop_take, left_data,
    left_pos]

end Receive

/-- Moving the bytes left to the front keeps them, if they fit. -/
theorem compact_bytes (hrest : cd.rest.length = cd.input.size) : cd.compact.bytes = cd.rest := by
  have htake : ∀ l : List UInt8, (overwrite l 0 cd.rest).take cd.input.size = cd.rest := fun l => by
    have h : (overwrite l 0 cd.rest).take (0 + cd.rest.length) = l.take 0 ++ cd.rest :=
      take_overwrite (Nat.zero_le _)
    rwa [Nat.zero_add, hrest, List.take_zero, List.nil_append] at h
  unfold compact bytes
  split
  · exact htake _
  · exact htake _

theorem compact_capacity : cd.compact.input.capacity = cd.nextCapacity := by
  unfold compact
  split
  · rfl
  · rename_i h
    exact not_not.mp h

theorem compact_size : cd.compact.input.size = cd.input.size := by
  unfold compact
  split <;> rfl

theorem compact_requiredSize : cd.compact.requiredSize = cd.requiredSize := by
  unfold compact
  split <;> rfl

/-- The next buffer is in order if what is left fits. -/
theorem compact_sound (hrest : cd.rest.length = cd.input.size)
    (hlen : cd.input.data.length = cd.input.capacity) (hfit : cd.input.size ≤ cd.nextCapacity)
    (hcap : cd.nextCapacity < 2 ^ 32) : cd.compact.input.Sound where
  length := by
    rw [compact_capacity]
    unfold compact
    split
    · -- a new array
      refine (length_overwrite ?_).trans (List.length_replicate ..)
      rw [List.length_replicate]
      omega
    · -- the same array
      rename_i h
      have heq : cd.input.capacity = cd.nextCapacity := not_not.mp h
      refine (length_overwrite ?_).trans (hlen.trans heq)
      omega
  capacity := by rw [compact_capacity]; exact hcap
  size := by rw [compact_capacity, compact_size]; exact hfit
  pos := by
    unfold compact
    split <;> rfl

end ConnectionData

section Cases

variable {cd : ConnectionData} {bs : List UInt8} {o : Outcome} (maxHeaderSize now : ℕ)

/-- `recv` fails, or the peer has closed. -/
theorem connectionProcessing_closed {received : Option (List UInt8)}
    (hr : received.getD [] = []) : connectionProcessing maxHeaderSize now cd received o =
      ⟨cd, true, none, [.receive cd.input.size cd.input.capacity]⟩ := by
  rcases received with _ | _ | _
  · rfl
  · rfl
  · cases hr

/-- The early return. -/
theorem connectionProcessing_return (hbs : bs ≠ []) (hw : (cd.receive now bs).requiredSize ≠ 0 ∧
      (cd.receive now bs).requiredSize > (cd.receive now bs).input.size) :
    connectionProcessing maxHeaderSize now cd (some bs) o =
      ⟨cd.receive now bs, false, none, [.receive cd.input.size cd.input.capacity]⟩ := by
  obtain ⟨b, bs, rfl⟩ := List.exists_cons_of_ne_nil hbs
  exact if_pos hw

/-- Past the early return. -/
theorem connectionProcessing_call (hbs : bs ≠ []) (hw : ¬((cd.receive now bs).requiredSize ≠ 0 ∧
      (cd.receive now bs).requiredSize > (cd.receive now bs).input.size)) :
    connectionProcessing maxHeaderSize now cd (some bs) o =
      if o.closeConnection = true then
        ⟨(cd.receive now bs).clearRequired.handle o, true, some (cd.receive now bs).bytes,
          [.receive cd.input.size cd.input.capacity]⟩
      else if o.requiredSize = 0 ∧ (cd.left now bs o).input.size > maxHeaderSize then
        ⟨cd.left now bs o, true, some (cd.receive now bs).bytes,
          [.receive cd.input.size cd.input.capacity]⟩
      else ⟨(cd.left now bs o).compact, false, some (cd.receive now bs).bytes,
        .receive cd.input.size cd.input.capacity :: (cd.left now bs o).copies⟩ := by
  obtain ⟨b, bs, rfl⟩ := List.exists_cons_of_ne_nil hbs
  exact if_neg hw

/-- The handler has asked for more. -/
theorem connectionProcessing_wait (ha : cd.Accepts bs) (hbs : bs ≠ []) (hw : cd.Waits bs.length) :
    connectionProcessing maxHeaderSize now cd (some bs) o =
      ⟨cd.receive now bs, false, none, [.receive cd.input.size cd.input.capacity]⟩ := by
  refine connectionProcessing_return maxHeaderSize now hbs ⟨hw.1, ?_⟩
  rw [ConnectionData.receive_size ha]
  exact hw.2

variable (h : cd.input.Sound) (ha : cd.Accepts bs) (hbs : bs ≠ [])

include h ha hbs

/-- The handler is called. -/
theorem connectionProcessing_handle (hw : ¬cd.Waits bs.length) :
    connectionProcessing maxHeaderSize now cd (some bs) o =
      if o.closeConnection = true then
        ⟨(cd.receive now bs).clearRequired.handle o, true, some (cd.bytes ++ bs),
          [.receive cd.input.size cd.input.capacity]⟩
      else if o.requiredSize = 0 ∧ (cd.left now bs o).input.size > maxHeaderSize then
        ⟨cd.left now bs o, true, some (cd.bytes ++ bs),
          [.receive cd.input.size cd.input.capacity]⟩
      else ⟨(cd.left now bs o).compact, false, some (cd.bytes ++ bs),
        .receive cd.input.size cd.input.capacity :: (cd.left now bs o).copies⟩ := by
  have hbytes : (cd.receive now bs).bytes = cd.bytes ++ bs := ConnectionData.receive_bytes h ha
  have hsize : (cd.receive now bs).input.size = cd.input.size + bs.length :=
    ConnectionData.receive_size ha
  rw [← hbytes]
  refine connectionProcessing_call maxHeaderSize now hbs fun hwait => hw ⟨hwait.1, ?_⟩
  rw [← hsize]
  exact hwait.2

/-- The handler is called as soon as what it has asked for is there, and finds all
bytes it has not used up. -/
theorem connectionProcessing_view :
    (connectionProcessing maxHeaderSize now cd (some bs) o).view =
      if cd.requiredSize = 0 ∨ cd.requiredSize ≤ (cd.bytes ++ bs).length
      then some (cd.bytes ++ bs) else none := by
  have hlen : (cd.bytes ++ bs).length = cd.input.size + bs.length := by
    rw [List.length_append, ConnectionData.length_bytes h]
  rw [hlen]
  by_cases hw : cd.Waits bs.length
  · rw [connectionProcessing_wait maxHeaderSize now ha hbs hw, if_neg]
    have hlt := hw.2
    rintro (h0 | hle)
    · exact hw.1 h0
    · omega
  · have hready : cd.requiredSize = 0 ∨ cd.requiredSize ≤ cd.input.size + bs.length := by
      by_contra hnot
      rw [not_or] at hnot
      exact hw ⟨hnot.1, by omega⟩
    rw [connectionProcessing_handle maxHeaderSize now h ha hbs hw, if_pos hready]
    split_ifs <;> rfl

end Cases

end Server
end PeeledOrange
