import PeeledOrange.Server.Buffer

/-!
# The byte stream of a connection

A connection receives chunks of whatever sizes the peer and the network make of
its stream, and the handler uses the stream up in pieces that need not match
them.  A run of a connection is recorded with the bytes received, the bytes the
handler has used up and what it has asked for, and with every access to the
buffer.  The invariant is that nothing is lost between the two: the bytes used up
and the bytes in the buffer make up the bytes received.

## Main definitions

* `Stream` — a connection with the record of its run.
* `HandlerRule`, `Run` — what the handler may do; the runs of a connection.
* `asksForMore` — the handler asks for nothing or for more than what is left.

## Main results

* `Run.connect`, `Run.receive` — the steps of a run.
* `faithful_of_run` — **no byte is lost or repeated, and the handler is called on
  the bytes not used up as soon as there are as many as it has asked for.**
-/

namespace PeeledOrange
namespace Server

/-! ### Runs of a connection -/

/-- A connection, with the record of its run. -/
structure Stream where
  connection : ConnectionData
  /-- It has not been disconnected. -/
  isOpen : Bool
  /-- The bytes received. -/
  received : List UInt8
  /-- The bytes the handler has used up. -/
  consumed : List UInt8
  /-- The number of bytes `OnConnect`, or the last `OnReadData`, has asked for. -/
  requested : ℕ
  accesses : List Access
  deriving DecidableEq, Repr

namespace Stream

/-- A connection that `OnEvent` has made, after `OnConnect`. -/
def connect (sockFd : ℤ) (data : List UInt8) (requiredSize now timeout : ℕ)
    (closeConnection : Bool) : Stream where
  connection := ⟨sockFd, requiredSize, now, timeout, closeConnection, ⟨data, 0, recvBufferSize, 0⟩⟩
  isOpen := true
  received := []
  consumed := []
  requested := requiredSize
  accesses := []

variable (s : Stream)

/-- `ConnectionProcessing` is called for the connection. -/
def receive (maxHeaderSize now : ℕ) (received : Option (List UInt8)) (o : Outcome) : Stream :=
  let r := connectionProcessing maxHeaderSize now s.connection received o
  { connection := r.connection
    isOpen := !r.disconnected
    received := s.received ++ received.getD []
    consumed := s.consumed ++ (r.view.getD []).take o.pos
    requested := if r.view.isSome then o.requiredSize else s.requested
    accesses := s.accesses ++ r.accesses }

/-- The bytes received and not used up. -/
def unconsumed : List UInt8 := s.received.drop s.consumed.length

end Stream

/-- What is required of the handler. -/
structure HandlerRule where
  /-- `OnConnect` may ask for this many bytes. -/
  connect : ℕ → Prop
  /-- `OnReadData` may leave this, called with `n` bytes in the buffer. -/
  read : ℕ → Outcome → Prop

/-- The handler keeps its position within the bytes, and the sizes in range. -/
def HandlerRule.InRange (H : HandlerRule) : Prop :=
  ∀ n o, H.read n o → o.pos ≤ n ∧ o.requiredSize < 2 ^ 31

/-- The states of a connection in its runs, for a server port with this
`max_header_size`. -/
inductive Run (H : HandlerRule) (maxHeaderSize : ℕ) : Stream → Prop
  | connect (sockFd : ℤ) (data : List UInt8) (requiredSize now timeout : ℕ)
      (closeConnection : Bool) : data.length = recvBufferSize → H.connect requiredSize →
      Run H maxHeaderSize (.connect sockFd data requiredSize now timeout closeConnection)
  | receive {s : Stream} (now : ℕ) (received : Option (List UInt8)) (o : Outcome) :
      Run H maxHeaderSize s → s.isOpen = true → s.connection.Accepts (received.getD []) →
      (s.connection.Calls (received.getD []) →
        H.read (s.connection.input.size + (received.getD []).length) o) →
      Run H maxHeaderSize (s.receive maxHeaderSize now received o)

/-! ### One step -/

section Step

variable {s : Stream} {o : Outcome} {bs : List UInt8} (maxHeaderSize now : ℕ)

/-- `recv` fails, or the peer has closed. -/
theorem Stream.receive_closed {received : Option (List UInt8)} (hr : received.getD [] = []) :
    (s.receive maxHeaderSize now received o).isOpen = false := by
  rw [receive, connectionProcessing_closed maxHeaderSize now hr]
  rfl

/-- A connection that stays open has received bytes; it waits for more, or it has
called the handler. -/
theorem Stream.receive_open {received : Option (List UInt8)}
    (hopen : (s.receive maxHeaderSize now received o).isOpen = true) :
    ∃ bs, received = some bs ∧ bs ≠ [] ∧
      (s.connection.Waits bs.length ∨ s.connection.Calls bs) := by
  cases hbs : received.getD [] with
  | nil =>
    rw [receive_closed maxHeaderSize now hbs] at hopen
    cases hopen
  | cons b bs =>
    have hne : b :: bs ≠ [] := List.cons_ne_nil b bs
    refine ⟨b :: bs, ?_, hne, ?_⟩
    · cases received with
      | none => cases hbs
      | some bs' => exact congrArg some hbs
    · by_cases hw : s.connection.Waits (b :: bs).length
      · exact .inl hw
      · exact .inr ⟨hne, hw⟩

/-- The handler has asked for more. -/
theorem Stream.receive_wait (ha : s.connection.Accepts bs) (hbs : bs ≠ [])
    (hw : s.connection.Waits bs.length) :
    s.receive maxHeaderSize now (some bs) o =
      { s with
        connection := s.connection.receive now bs
        isOpen := true
        received := s.received ++ bs
        accesses := s.accesses ++
          [.receive s.connection.input.size s.connection.input.capacity] } := by
  rw [receive, connectionProcessing_wait maxHeaderSize now ha hbs hw]
  simp

/-- The handler is called and the connection is kept. -/
theorem Stream.receive_handle (h : s.connection.input.Sound) (ha : s.connection.Accepts bs)
    (hc : s.connection.Calls bs)
    (hopen : (s.receive maxHeaderSize now (some bs) o).isOpen = true) :
    s.receive maxHeaderSize now (some bs) o =
      { connection := (s.connection.left now bs o).compact
        isOpen := true
        received := s.received ++ bs
        consumed := s.consumed ++ (s.connection.bytes ++ bs).take o.pos
        requested := o.requiredSize
        accesses := s.accesses ++ (.receive s.connection.input.size s.connection.input.capacity ::
          (s.connection.left now bs o).copies) } ∧ o.closeConnection = false := by
  have hcall := connectionProcessing_handle (o := o) maxHeaderSize now h ha hc.1 hc.2
  by_cases hclose : o.closeConnection = true
  · rw [receive, hcall, if_pos hclose] at hopen
    simp at hopen
  · rw [if_neg hclose] at hcall
    by_cases hheader : o.requiredSize = 0 ∧
        (s.connection.left now bs o).input.size > maxHeaderSize
    · rw [receive, hcall, if_pos hheader] at hopen
      simp at hopen
    · rw [if_neg hheader] at hcall
      rw [receive, hcall]
      exact ⟨rfl, by simpa using hclose⟩

/-- The handler is called, does not close the connection and asks for bytes. -/
theorem Stream.receive_isOpen (h : s.connection.input.Sound) (ha : s.connection.Accepts bs)
    (hc : s.connection.Calls bs) (hclose : o.closeConnection = false) (hreq : o.requiredSize ≠ 0) :
    (s.receive maxHeaderSize now (some bs) o).isOpen = true := by
  rw [receive, connectionProcessing_handle maxHeaderSize now h ha hc.1 hc.2, hclose,
    if_neg Bool.false_ne_true, if_neg fun hheader => hreq hheader.1]
  rfl

end Step

/-! ### Nothing is lost -/

/-- The handler asks for nothing or for more than what is left. -/
def asksForMore : HandlerRule where
  connect := fun _ => True
  read := fun n o => o.pos ≤ n ∧ o.requiredSize < 2 ^ 31 ∧
    (o.requiredSize = 0 ∨ n - o.pos < o.requiredSize)

/-- What holds of an open connection: the bytes used up and the bytes in the buffer
make up the bytes received, and at the next chunk the handler is called if what it
has asked for is there then, on all bytes not used up. -/
structure Stream.Faithful (maxHeaderSize : ℕ) (s : Stream) : Prop where
  intact : s.received = s.consumed ++ s.connection.input.data.take s.connection.input.size
  handler : ∀ (now : ℕ) (bs : List UInt8) (o : Outcome), bs ≠ [] → s.connection.Accepts bs →
    (connectionProcessing maxHeaderSize now s.connection (some bs) o).view =
      if s.requested = 0 ∨ s.requested ≤ (s.unconsumed ++ bs).length
      then some (s.unconsumed ++ bs) else none

/-- The invariant. -/
structure Stream.Intact (s : Stream) : Prop where
  sound : s.connection.input.Sound
  requested : s.connection.requiredSize = s.requested
  bytes : s.received = s.consumed ++ s.connection.bytes

namespace Stream.Intact

variable {s : Stream} {o : Outcome} {bs : List UInt8}

/-- What is not used up is what is in the buffer. -/
theorem unconsumed (h : s.Intact) : s.unconsumed = s.connection.bytes := by
  rw [Stream.unconsumed, h.bytes]
  exact List.drop_left ..

theorem faithful (h : s.Intact) (maxHeaderSize : ℕ) : s.Faithful maxHeaderSize where
  intact := h.bytes
  handler := fun now bs o hbs ha => by
    rw [connectionProcessing_view maxHeaderSize now h.sound ha hbs, h.unconsumed, h.requested]

theorem connect (sockFd : ℤ) {data : List UInt8} (requiredSize now timeout : ℕ)
    (closeConnection : Bool) (hdata : data.length = recvBufferSize) :
    (Stream.connect sockFd data requiredSize now timeout closeConnection).Intact where
  sound := ⟨hdata, show recvBufferSize < 2 ^ 32 by decide, Nat.zero_le _, rfl⟩
  requested := rfl
  bytes := rfl

/-- More bytes arrive than are handled. -/
theorem wait (h : s.Intact) (ha : s.connection.Accepts bs) (now : ℕ) {isOpen : Bool}
    {accesses : List Access} :
    Stream.Intact { s with
      connection := s.connection.receive now bs
      isOpen := isOpen
      received := s.received ++ bs
      accesses := accesses } where
  sound := ConnectionData.receive_sound h.sound ha
  requested := h.requested
  bytes := by
    show s.received ++ bs = s.consumed ++ (s.connection.receive now bs).bytes
    rw [ConnectionData.receive_bytes h.sound ha, h.bytes, List.append_assoc]

/-- The handler uses up bytes, and what is left fits the next buffer. -/
theorem handle (h : s.Intact) (ha : s.connection.Accepts bs) (now : ℕ)
    (hpos : o.pos ≤ s.connection.input.size + bs.length)
    (hfit : (s.connection.left now bs o).input.size ≤ (s.connection.left now bs o).nextCapacity)
    {isOpen : Bool} {accesses : List Access} :
    Stream.Intact {
      connection := (s.connection.left now bs o).compact
      isOpen := isOpen
      received := s.received ++ bs
      consumed := s.consumed ++ (s.connection.bytes ++ bs).take o.pos
      requested := o.requiredSize
      accesses := accesses } := by
  have hleft : (s.connection.left now bs o).rest = (s.connection.bytes ++ bs).drop o.pos :=
    ConnectionData.left_rest h.sound ha hpos
  have hrest : (s.connection.left now bs o).rest.length =
      (s.connection.left now bs o).input.size := by
    rw [hleft, ConnectionData.left_size ha hpos, List.length_drop, List.length_append,
      ConnectionData.length_bytes h.sound]
  refine ⟨ConnectionData.compact_sound hrest ?_ hfit ?_, ?_, ?_⟩
  · -- the buffer has not been touched yet
    have hsound : (s.connection.receive now bs).input.Sound :=
      ConnectionData.receive_sound h.sound ha
    exact hsound.length
  · exact requiredCapacity_lt _
  · exact ConnectionData.compact_requiredSize
  · -- what was used up and what is left make up what has been received
    show s.received ++ bs = s.consumed ++ (s.connection.bytes ++ bs).take o.pos ++
      (s.connection.left now bs o).compact.bytes
    rw [ConnectionData.compact_bytes hrest, hleft, List.append_assoc, List.take_append_drop,
      h.bytes, List.append_assoc]

end Stream.Intact

/-- What is left fits the next buffer if the handler asks for nothing or for more. -/
theorem ConnectionData.left_le_nextCapacity {cd : ConnectionData} {bs : List UInt8} {o : Outcome}
    (now : ℕ) (ha : cd.Accepts bs) (ho : asksForMore.read (cd.input.size + bs.length) o) :
    (cd.left now bs o).input.size ≤ (cd.left now bs o).nextCapacity := by
  obtain ⟨hpos, hsize, hreq⟩ := ho
  have hlt := ha.size
  have hleft : (cd.left now bs o).input.size = cd.input.size + bs.length - o.pos :=
    ConnectionData.left_size ha hpos
  unfold ConnectionData.nextCapacity
  rw [left_requiredSize]
  split_ifs with hzero
  · have hcap := lt_requiredCapacity hsize
    have hmore := hreq.resolve_left hzero
    omega
  · exact Nat.le_of_lt (lt_requiredCapacity (by omega))

theorem Run.intact {maxHeaderSize : ℕ} {s : Stream} (h : Run asksForMore maxHeaderSize s)
    (hopen : s.isOpen = true) : s.Intact := by
  induction h with
  | connect sockFd data requiredSize now timeout closeConnection hdata _ =>
    exact .connect sockFd _ now timeout closeConnection hdata
  | @receive s now received o _ hs ha ho ih =>
    have hi := ih hs
    obtain ⟨bs, rfl, hbs, hcase⟩ := Stream.receive_open maxHeaderSize now hopen
    simp only [Option.getD_some] at ha ho
    rcases hcase with hw | hc
    · rw [Stream.receive_wait maxHeaderSize now ha hbs hw]
      exact hi.wait ha now
    · have hread := ho hc
      rw [(Stream.receive_handle maxHeaderSize now hi.sound ha hc hopen).1]
      exact hi.handle ha now hread.1 (ConnectionData.left_le_nextCapacity now ha hread)

/-- **Stream integrity.**  While a connection is open, the bytes the handler has used
up and the bytes in the buffer make up the bytes received; and at every chunk the
handler is called, on exactly the bytes not used up, if and only if there are as
many as it has asked for. -/
theorem faithful_of_run {maxHeaderSize : ℕ} {s : Stream} (h : Run asksForMore maxHeaderSize s)
    (hopen : s.isOpen = true) : s.Faithful maxHeaderSize := (h.intact hopen).faithful maxHeaderSize

/-- `OnConnect` asks for 3 bytes, which come in two chunks with a fourth one; the
handler uses up 2 bytes and asks for 5. -/
def splitMessage : Stream :=
  ((Stream.connect 7 (List.replicate recvBufferSize 0) 3 0 60 false).receive 2048 1
    (some [1, 2]) ⟨0, 0, false, 60⟩).receive 2048 2 (some [3, 4]) ⟨2, 5, false, 60⟩

theorem faithful_splitMessage : splitMessage.consumed = [1, 2] ∧
    splitMessage.unconsumed = [3, 4] ∧ splitMessage.Faithful 2048 := by
  have hconnect : Run asksForMore 2048 _ := .connect 7 (List.replicate recvBufferSize 0) 3 0 60
    false List.length_replicate trivial
  have hfirst := hconnect.receive 1 (some [1, 2]) ⟨0, 0, false, 60⟩ rfl
    ⟨by decide +kernel, by decide +kernel⟩ fun _ => ⟨by decide, by decide, .inl rfl⟩
  have hsecond := hfirst.receive 2 (some [3, 4]) ⟨2, 5, false, 60⟩
    (by decide +kernel) ⟨by decide +kernel, by decide +kernel⟩
    fun _ => ⟨by decide +kernel, by decide, .inr (by decide +kernel)⟩
  exact ⟨by decide +kernel, by decide +kernel, faithful_of_run hsecond (by decide +kernel)⟩

end Server
end PeeledOrange
