import PeeledOrange.Server.Stream

/-!
# Room in the receive buffer

A call of `ReceiveData` is of use only if there is room in the buffer: with none,
`recv` is asked for no bytes and returns 0, which is taken for a close by the peer.
The buffer starts with `RECV_BUFFER_SIZE` bytes and gets another capacity only
after a call of `OnReadData`: one for the bytes asked for, if any are, whatever
number of bytes is left.  So a request made in `OnConnect` must fit the first
buffer, and with a request made in `OnReadData` what is left must fit the buffer
for that request, and leave room in it.

## Main definitions

* `Access.Within` — there is room to receive, and a copy fits its buffer.
* `HandlerRule.Fits` — the requests of the handler are of the kind above.

## Main results

* `within_iff_fits` — **every access of every run is within its buffer if and only
  if the requests of the handler fit.**
* `not_within_of_anyRequest` — with other handlers neither kind of access is.
-/

namespace PeeledOrange
namespace Server

/-- There is room to receive; a copy fits its buffer. -/
def Access.Within : Access → Prop
  | .receive size capacity => size < capacity
  | .copy _ _ n capacity => n ≤ capacity

/-- The handler closes the connection, or asks for nothing, or what it leaves of `n`
bytes is less than the capacity for its request. -/
def Outcome.Fits (n : ℕ) (o : Outcome) : Prop :=
  o.closeConnection = true ∨ o.requiredSize = 0 ∨ n - o.pos < requiredCapacity o.requiredSize

/-- What `OnConnect` asks for fits the first buffer, and what `OnReadData` leaves
fits, whenever it is called. -/
structure HandlerRule.Fits (H : HandlerRule) (maxHeaderSize : ℕ) : Prop where
  connect : ∀ requiredSize, H.connect requiredSize → requiredSize ≤ recvBufferSize
  read : ∀ (s : Stream) (bs : List UInt8) (o : Outcome), Run H maxHeaderSize s →
    s.isOpen = true → s.connection.Accepts bs → s.connection.Calls bs →
    H.read (s.connection.input.size + bs.length) o →
    o.Fits (s.connection.input.size + bs.length)

/-- The invariant: there is room in the buffer, and for what has been asked for. -/
structure Stream.Roomy (s : Stream) : Prop extends s.Intact where
  room : s.connection.input.size < s.connection.input.capacity
  required : s.connection.requiredSize ≤ s.connection.input.capacity

namespace Stream.Roomy

variable {s : Stream} {o : Outcome} {bs : List UInt8}

theorem connect (sockFd : ℤ) {data : List UInt8} {requiredSize : ℕ} (now timeout : ℕ)
    (closeConnection : Bool) (hdata : data.length = recvBufferSize)
    (hreq : requiredSize ≤ recvBufferSize) :
    (Stream.connect sockFd data requiredSize now timeout closeConnection).Roomy where
  toIntact := .connect sockFd _ now timeout closeConnection hdata
  room := show 0 < recvBufferSize by decide
  required := hreq

/-- More bytes arrive than are handled: still fewer than have been asked for. -/
theorem wait (h : s.Roomy) (ha : s.connection.Accepts bs) (hw : s.connection.Waits bs.length)
    (now : ℕ) {isOpen : Bool} {accesses : List Access} :
    Stream.Roomy { s with
      connection := s.connection.receive now bs
      isOpen := isOpen
      received := s.received ++ bs
      accesses := accesses } where
  toIntact := h.toIntact.wait ha now
  room := by
    show (s.connection.receive now bs).input.size < s.connection.input.capacity
    rw [ConnectionData.receive_size ha]
    exact Nat.lt_of_lt_of_le hw.2 h.required
  required := h.required

/-- A capacity is no less than the request it is for. -/
theorem required_le_nextCapacity {cd : ConnectionData} (h : cd.requiredSize < 2 ^ 31) :
    cd.requiredSize ≤ cd.nextCapacity := by
  unfold ConnectionData.nextCapacity
  split_ifs with hzero
  · exact Nat.le_of_lt (lt_requiredCapacity h)
  · rw [not_not.mp hzero]
    exact Nat.zero_le _

/-- The handler has returned, and there is room for more than what it has left. -/
theorem handle (h : s.Roomy) (ha : s.connection.Accepts bs) (now : ℕ)
    (hpos : o.pos ≤ s.connection.input.size + bs.length) (hsize : o.requiredSize < 2 ^ 31)
    (hroom : (s.connection.left now bs o).input.size < (s.connection.left now bs o).nextCapacity)
    {isOpen : Bool} {accesses : List Access} :
    Stream.Roomy {
      connection := (s.connection.left now bs o).compact
      isOpen := isOpen
      received := s.received ++ bs
      consumed := s.consumed ++ (s.connection.bytes ++ bs).take o.pos
      requested := o.requiredSize
      accesses := accesses } where
  toIntact := h.toIntact.handle ha now hpos (Nat.le_of_lt hroom)
  room := by
    show (s.connection.left now bs o).compact.input.size <
      (s.connection.left now bs o).compact.input.capacity
    rw [ConnectionData.compact_size, ConnectionData.compact_capacity]
    exact hroom
  required := by
    show (s.connection.left now bs o).compact.requiredSize ≤
      (s.connection.left now bs o).compact.input.capacity
    rw [ConnectionData.compact_requiredSize, ConnectionData.compact_capacity]
    exact required_le_nextCapacity hsize

end Stream.Roomy

/-- There is room for more than what is left if and only if the outcome fits. -/
theorem left_lt_nextCapacity_iff {cd : ConnectionData} {bs : List UInt8} {o : Outcome} (now : ℕ)
    (ha : cd.Accepts bs) (hpos : o.pos ≤ cd.input.size + bs.length)
    (hopen : o.closeConnection = false) :
    (cd.left now bs o).input.size < (cd.left now bs o).nextCapacity ↔
      o.Fits (cd.input.size + bs.length) := by
  have hlt := ha.size
  have hleft : (cd.left now bs o).input.size = cd.input.size + bs.length - o.pos :=
    ConnectionData.left_size ha hpos
  unfold ConnectionData.nextCapacity Outcome.Fits
  rw [ConnectionData.left_requiredSize, hopen]
  split_ifs with hzero
  · simp [hleft, hzero]
  · simp only [not_not.mp hzero, true_or, or_true, iff_true]
    exact lt_requiredCapacity (by omega)

/-- A call that disconnects only receives. -/
theorem accesses_of_disconnected {maxHeaderSize now : ℕ} {cd : ConnectionData}
    {received : Option (List UInt8)} {o : Outcome}
    (h : (connectionProcessing maxHeaderSize now cd received o).disconnected = true) :
    (connectionProcessing maxHeaderSize now cd received o).accesses =
      [.receive cd.input.size cd.input.capacity] := by
  revert h
  unfold connectionProcessing
  split
  · intro _; rfl
  · intro _; rfl
  · simp only
    split_ifs
    · intro _; rfl
    · intro _; rfl
    · intro _; rfl
    · intro h; cases h

/-- Every call receives first. -/
theorem Stream.receive_mem_accesses (s : Stream) (maxHeaderSize now : ℕ)
    (received : Option (List UInt8)) (o : Outcome) :
    .receive s.connection.input.size s.connection.input.capacity ∈
      (s.receive maxHeaderSize now received o).accesses := by
  refine List.mem_append_right _ ?_
  unfold connectionProcessing
  split
  · exact List.mem_cons_self
  · exact List.mem_cons_self
  · simp only
    split_ifs <;> exact List.mem_cons_self

/-- A copy fits if what is left does. -/
theorem copies_within {cd : ConnectionData} (h : cd.input.size ≤ cd.nextCapacity) :
    ∀ a ∈ cd.copies, a.Within := by
  unfold ConnectionData.copies
  split_ifs
  · exact List.forall_mem_singleton.mpr h
  · exact nofun

/-! ### Every access is within its buffer -/

section Fits

variable {H : HandlerRule} {maxHeaderSize : ℕ} {s : Stream}

/-- If the requests fit, the invariant holds in every run and every access so far was
within its buffer. -/
theorem Run.roomy (hH : H.InRange) (hfits : H.Fits maxHeaderSize) (h : Run H maxHeaderSize s) :
    (∀ a ∈ s.accesses, a.Within) ∧ (s.isOpen = true → s.Roomy) := by
  induction h with
  | connect sockFd data requiredSize now timeout closeConnection hdata hreq =>
    exact ⟨nofun, fun _ => .connect sockFd now timeout closeConnection hdata
      (hfits.connect _ hreq)⟩
  | @receive s now received o hrun hs ha ho ih =>
    obtain ⟨hacc, hroomy⟩ := ih
    have hi := hroomy hs
    -- what every call does first
    have hstart : ∀ a ∈ s.accesses ++
        [.receive s.connection.input.size s.connection.input.capacity], a.Within :=
      List.forall_mem_append.mpr ⟨hacc, List.forall_mem_cons.mpr ⟨hi.room, nofun⟩⟩
    cases hopen : (s.receive maxHeaderSize now received o).isOpen with
    | false =>
      refine ⟨?_, nofun⟩
      rw [Stream.receive, accesses_of_disconnected (by simpa [Stream.receive] using hopen)]
      exact hstart
    | true =>
      obtain ⟨bs, rfl, hbs, hcase⟩ := Stream.receive_open maxHeaderSize now hopen
      simp only [Option.getD_some] at ha ho
      rcases hcase with hw | hc
      · rw [Stream.receive_wait maxHeaderSize now ha hbs hw]
        exact ⟨hstart, fun _ => hi.wait ha hw now⟩
      · have hread := ho hc
        obtain ⟨hpos, hsize⟩ := hH _ _ hread
        obtain ⟨heq, hclose⟩ := Stream.receive_handle maxHeaderSize now hi.sound ha hc hopen
        have hroom := (left_lt_nextCapacity_iff now ha hpos hclose).mpr
          (hfits.read s bs o hrun hs ha hc hread)
        rw [heq]
        refine ⟨List.forall_mem_append.mpr ⟨hacc, List.forall_mem_cons.mpr ⟨hi.room, ?_⟩⟩,
          fun _ => hi.handle ha now hpos hsize hroom⟩
        exact copies_within (Nat.le_of_lt hroom)

/-- An open connection has room if the next call of `ReceiveData` has. -/
theorem Run.room (hall : ∀ t, Run H maxHeaderSize t → ∀ a ∈ t.accesses, a.Within)
    (h : Run H maxHeaderSize s) (hopen : s.isOpen = true)
    (hsize : s.connection.input.size < 2 ^ 31) :
    s.connection.input.size < s.connection.input.capacity := by
  have hnext : Run H maxHeaderSize (s.receive maxHeaderSize 0 none ⟨0, 0, false, 0⟩) :=
    h.receive 0 none _ hopen ⟨Nat.zero_le _, hsize⟩ fun hc => absurd rfl hc.1
  exact hall _ hnext _ (s.receive_mem_accesses maxHeaderSize 0 none _)

section Within

variable (hH : H.InRange) (hall : ∀ t, Run H maxHeaderSize t → ∀ a ∈ t.accesses, a.Within)

include hall

/-- A request in `OnConnect` that the first buffer does not hold: the buffer fills up. -/
theorem connect_le_of_within {requiredSize : ℕ} (hreq : H.connect requiredSize) :
    requiredSize ≤ recvBufferSize := by
  by_contra hgt
  have hdata : (List.replicate recvBufferSize (0 : UInt8)).length = recvBufferSize :=
    List.length_replicate ..
  -- a whole buffer of bytes arrives, and the handler still waits
  have hrun : Run H maxHeaderSize (.connect 0 (List.replicate recvBufferSize 0) requiredSize 0 0
    false) := .connect 0 _ _ 0 0 false hdata hreq
  have hi := Stream.Intact.connect 0 requiredSize 0 0 false hdata
  generalize hs : Stream.connect 0 (List.replicate recvBufferSize 0) requiredSize 0 0 false = s
    at hrun hi
  have hopen : s.isOpen = true := by rw [← hs]; rfl
  have hsize : s.connection.input.size = 0 := by rw [← hs]; rfl
  have hcap : s.connection.input.capacity = recvBufferSize := by rw [← hs]; rfl
  have hasked : s.connection.requiredSize = requiredSize := by rw [← hs]; rfl
  have ha : s.connection.Accepts (List.replicate recvBufferSize 0) := by
    refine ⟨?_, ?_⟩
    · rw [ConnectionData.room_eq hi.sound, hsize, hcap, hdata]
      exact Nat.le_refl _
    · rw [hsize, hdata]
      decide
  have hw : s.connection.Waits (List.replicate recvBufferSize (0 : UInt8)).length := by
    rw [hdata, ConnectionData.Waits, hsize, hasked]
    omega
  have hfull := hrun.receive 0 (some (List.replicate recvBufferSize 0))
    ⟨0, 0, false, 0⟩ hopen ha fun hc => absurd hw hc.2
  rw [Stream.receive_wait maxHeaderSize 0 ha (List.cons_ne_nil _ _) hw] at hfull
  have hsize' : (s.connection.receive 0 (List.replicate recvBufferSize 0)).input.size =
      recvBufferSize := by
    rw [ConnectionData.receive_size ha, hsize, hdata, Nat.zero_add]
  have hroom := hfull.room hall rfl (by rw [hsize']; decide)
  change (s.connection.receive 0 (List.replicate recvBufferSize 0)).input.size <
    s.connection.input.capacity at hroom
  rw [hsize', hcap] at hroom
  exact Nat.lt_irrefl _ hroom

include hH

/-- What the handler leaves without disconnecting leaves room in the next buffer. -/
theorem left_lt_of_within {bs : List UInt8} {o : Outcome} {now : ℕ} (h : Run H maxHeaderSize s)
    (hs : s.isOpen = true) (hi : s.Intact) (ha : s.connection.Accepts bs)
    (hc : s.connection.Calls bs) (hread : H.read (s.connection.input.size + bs.length) o)
    (hopen : (s.receive maxHeaderSize now (some bs) o).isOpen = true) :
    (s.connection.left now bs o).input.size < (s.connection.left now bs o).nextCapacity := by
  obtain ⟨hpos, -⟩ := hH _ _ hread
  have hlt := ha.size
  have hnext : Run H maxHeaderSize (s.receive maxHeaderSize now (some bs) o) :=
    h.receive now _ _ hs ha fun _ => hread
  have hroom := hnext.room hall hopen
  rw [(Stream.receive_handle maxHeaderSize now hi.sound ha hc hopen).1] at hroom
  simp only [ConnectionData.compact_size, ConnectionData.compact_capacity] at hroom
  refine hroom ?_
  rw [ConnectionData.left_size ha hpos]
  omega

theorem Run.roomy_of_within (h : Run H maxHeaderSize s) (hopen : s.isOpen = true) : s.Roomy := by
  induction h with
  | connect sockFd data requiredSize now timeout closeConnection hdata hreq =>
    exact .connect sockFd now timeout closeConnection hdata (connect_le_of_within hall hreq)
  | @receive s now received o hrun hs ha ho ih =>
    have hi := ih hs
    obtain ⟨bs, rfl, hbs, hcase⟩ := Stream.receive_open maxHeaderSize now hopen
    simp only [Option.getD_some] at ha ho
    rcases hcase with hw | hc
    · rw [Stream.receive_wait maxHeaderSize now ha hbs hw]
      exact hi.wait ha hw now
    · have hread := ho hc
      obtain ⟨hpos, hsize⟩ := hH _ _ hread
      have hroom := left_lt_of_within hH hall hrun hs hi.toIntact ha hc hread hopen
      rw [(Stream.receive_handle maxHeaderSize now hi.sound ha hc hopen).1]
      exact hi.handle ha now hpos hsize hroom

theorem fits_of_within : H.Fits maxHeaderSize where
  connect := fun _ hreq => connect_le_of_within hall hreq
  read := by
    intro s bs o h hs ha hc hread
    have hi := h.roomy_of_within hH hall hs
    obtain ⟨hpos, -⟩ := hH _ _ hread
    by_cases hclose : o.closeConnection = true
    · exact .inl hclose
    · have hkeep : o.closeConnection = false := by simpa using hclose
      by_cases hreq : o.requiredSize = 0
      · exact .inr (.inl hreq)
      · have hopen := Stream.receive_isOpen maxHeaderSize 0 hi.sound ha hc hkeep hreq
        exact (left_lt_nextCapacity_iff 0 ha hpos hkeep).mp
          (left_lt_of_within hH hall h hs hi.toIntact ha hc hread hopen)

end Within

end Fits

/-- **Every access is within its buffer**, in every run with a handler, if and only if
the requests of the handler fit: each call of `ReceiveData` has room, and each
`memcpy` fits. -/
theorem within_iff_fits {H : HandlerRule} (hH : H.InRange) (maxHeaderSize : ℕ) :
    (∀ s, Run H maxHeaderSize s → ∀ a ∈ s.accesses, a.Within) ↔ H.Fits maxHeaderSize :=
  ⟨fun hall => fits_of_within hH hall, fun hfits _ h => (h.roomy hH hfits).1⟩

/-- `OnConnect` asks for 1024 bytes at most, and `OnReadData` leaves fewer than that. -/
def modest : HandlerRule where
  connect := fun requiredSize => requiredSize ≤ 1024
  read := fun n o => o.pos ≤ n ∧ o.requiredSize < 2 ^ 31 ∧ n - o.pos < 1024

theorem modest_inRange : modest.InRange := fun _ _ h => ⟨h.1, h.2.1⟩

theorem modest_fits (maxHeaderSize : ℕ) : modest.Fits maxHeaderSize where
  connect := fun _ h => h
  read := fun s bs o _ _ _ _ h => by
    have hcap : 1024 ≤ requiredCapacity o.requiredSize := recvBufferSize_le h.2.1
    exact .inr (.inr (Nat.lt_of_lt_of_le h.2.2 hcap))

/-- `OnConnect` asks for 1024 bytes; they come in two chunks, and the handler leaves
24 of them and asks for 10. -/
def fillBuffer : Stream :=
  ((Stream.connect 7 (List.replicate recvBufferSize 0) 1024 0 60 false).receive 2048 1
    (some (List.replicate 1000 1)) ⟨0, 0, false, 60⟩).receive 2048 2
    (some (List.replicate 24 2)) ⟨1000, 10, false, 60⟩

theorem run_fillBuffer : Run modest 2048 fillBuffer := by
  have hconnect : Run modest 2048 _ := .connect 7 (List.replicate recvBufferSize 0) 1024 0 60 false
    List.length_replicate (Nat.le_refl _)
  have hfirst := hconnect.receive 1 (some (List.replicate 1000 1)) ⟨0, 0, false, 60⟩ rfl
    ⟨by decide +kernel, by decide +kernel⟩ fun _ => ⟨Nat.zero_le _, by decide, by decide +kernel⟩
  exact hfirst.receive 2 (some (List.replicate 24 2)) ⟨1000, 10, false, 60⟩
    (by decide +kernel) ⟨by decide +kernel, by decide +kernel⟩
    fun _ => ⟨by decide +kernel, by decide, by decide +kernel⟩

theorem within_fillBuffer : Access.copy false 1000 24 2048 ∈ fillBuffer.accesses ∧
    (Access.copy false 1000 24 2048).Within := by
  have hmem : Access.copy false 1000 24 2048 ∈ fillBuffer.accesses := by decide +kernel
  exact ⟨hmem, (within_iff_fits modest_inRange 2048).mpr (modest_fits 2048) _ run_fillBuffer _ hmem⟩

/-! ### Other handlers -/

/-- A handler may ask for any number of bytes, in `OnConnect` and in `OnReadData`. -/
def anyRequest : HandlerRule where
  connect := fun requiredSize => requiredSize < 2 ^ 24
  read := fun n o => o.pos ≤ n ∧ o.requiredSize < 2 ^ 24

/-- `OnConnect` asks for 2000 bytes, and 1024 are received. -/
def stuck : Stream :=
  (Stream.connect 7 (List.replicate recvBufferSize 0) 2000 0 60 false).receive 4096 1
    (some (List.replicate 1024 1)) ⟨0, 0, false, 60⟩

theorem run_stuck : Run anyRequest 4096 stuck := by
  have hconnect : Run anyRequest 4096 _ := .connect 7 (List.replicate recvBufferSize 0) 2000 0 60
    false List.length_replicate (show _ < 2 ^ 24 by decide)
  exact hconnect.receive 1 (some (List.replicate 1024 1)) ⟨0, 0, false, 60⟩ rfl
    ⟨by decide +kernel, by decide +kernel⟩ fun _ => ⟨Nat.zero_le _, by decide⟩

/-- The handler leaves 2048 bytes, and at the next one asks for 10 and leaves all. -/
def overflow : Stream :=
  (((Stream.connect 7 (List.replicate recvBufferSize 0) 0 0 60 false).receive 4096 1
    (some (List.replicate 1024 1)) ⟨0, 0, false, 60⟩).receive 4096 2
    (some (List.replicate 1024 1)) ⟨0, 0, false, 60⟩).receive 4096 3
    (some [1]) ⟨0, 10, false, 60⟩

theorem run_overflow : Run anyRequest 4096 overflow := by
  have hconnect : Run anyRequest 4096 _ := .connect 7 (List.replicate recvBufferSize 0) 0 0 60 false
    List.length_replicate (show _ < 2 ^ 24 by decide)
  have hfirst := hconnect.receive 1 (some (List.replicate 1024 1)) ⟨0, 0, false, 60⟩ rfl
    ⟨by decide +kernel, by decide +kernel⟩ fun _ => ⟨Nat.zero_le _, by decide⟩
  have hsecond := hfirst.receive 2 (some (List.replicate 1024 1)) ⟨0, 0, false, 60⟩
    (by decide +kernel) ⟨by decide +kernel, by decide +kernel⟩ fun _ => ⟨Nat.zero_le _, by decide⟩
  exact hsecond.receive 3 (some [1]) ⟨0, 10, false, 60⟩ (by decide +kernel)
    ⟨by decide +kernel, by decide +kernel⟩ fun _ => ⟨Nat.zero_le _, by decide⟩

/-- `ReceiveData` can be called with no room in the buffer, and `memcpy` can write
past the end of one. -/
theorem not_within_of_anyRequest :
    (¬∀ (maxHeaderSize : ℕ) (s : Stream), Run anyRequest maxHeaderSize s →
      ∀ size capacity, .receive size capacity ∈ s.accesses → size < capacity) ∧
    ¬∀ (maxHeaderSize : ℕ) (s : Stream), Run anyRequest maxHeaderSize s →
      ∀ inPlace pos n capacity, .copy inPlace pos n capacity ∈ s.accesses → n ≤ capacity := by
  refine ⟨fun h => ?_, fun h => ?_⟩
  · have hnext := run_stuck.receive 2 none ⟨0, 0, false, 60⟩
      (by decide +kernel) ⟨Nat.zero_le _, by decide +kernel⟩ fun _ => ⟨Nat.zero_le _, by decide⟩
    exact absurd (h 4096 _ hnext 1024 1024 (by decide +kernel)) (by decide)
  · exact absurd (h 4096 _ run_overflow false 0 2049 2048 (by decide +kernel)) (by decide)

end Server
end PeeledOrange
