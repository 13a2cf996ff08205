import PeeledOrange.Server.Stream

/-!
# The memory held for a connection

Only `ConnectionProcessing` allocates, and only on its last exit, where it has
either been asked for a number of bytes or has made sure that no more than
`max_header_size` bytes are left.  On the early return neither the buffer nor the
request changes.  So the peer alone cannot make the buffer grow.

## Main definitions

* `Stream.Frugal` — the capacity is bounded.

## Main results

* `frugal_of_run` — **an open connection never holds more than the larger of the
  header size and the handler's request, and two receive buffers.**
-/

namespace PeeledOrange
namespace Server

/-- The capacity is bounded by the header size and the request. -/
def Stream.Frugal (maxHeaderSize : ℕ) (s : Stream) : Prop :=
  s.connection.input.capacity ≤
    max maxHeaderSize s.connection.requiredSize + 2 * recvBufferSize

namespace Stream.Frugal

variable {s : Stream} {o : Outcome} {bs : List UInt8} {maxHeaderSize : ℕ}

theorem connect (sockFd : ℤ) (data : List UInt8) (requiredSize now timeout : ℕ)
    (closeConnection : Bool) :
    (Stream.connect sockFd data requiredSize now timeout closeConnection).Frugal maxHeaderSize := by
  show recvBufferSize ≤ max maxHeaderSize requiredSize + 2 * recvBufferSize
  omega

/-- The next capacity is bounded if what is left is, or something is asked for. -/
theorem nextCapacity_le {cd : ConnectionData} (hreq : cd.requiredSize < 2 ^ 31)
    (hleft : cd.input.size < 2 ^ 31)
    (hheader : ¬(cd.requiredSize = 0 ∧ cd.input.size > maxHeaderSize)) :
    cd.nextCapacity ≤ max maxHeaderSize cd.requiredSize + 2 * recvBufferSize := by
  unfold ConnectionData.nextCapacity
  split_ifs with hzero
  · have hcap := requiredCapacity_le hreq
    omega
  · have hcap := requiredCapacity_le hleft
    omega

/-- A call of `ConnectionProcessing` that does not disconnect keeps the bound. -/
theorem receive (h : s.Frugal maxHeaderSize) (now : ℕ) {received : Option (List UInt8)}
    (ha : s.connection.Accepts (received.getD []))
    (ho : s.connection.Calls (received.getD []) →
      o.pos ≤ s.connection.input.size + (received.getD []).length ∧ o.requiredSize < 2 ^ 31)
    (hopen : (s.receive maxHeaderSize now received o).isOpen = true) :
    (s.receive maxHeaderSize now received o).Frugal maxHeaderSize := by
  obtain ⟨bs, rfl, hbs, hcase⟩ := Stream.receive_open maxHeaderSize now hopen
  simp only [Option.getD_some] at ha ho
  rcases hcase with hw | hc
  · -- neither the buffer nor the request changes
    rw [Stream.receive_wait maxHeaderSize now ha hbs hw]
    exact h
  · obtain ⟨hpos, hreq⟩ := ho hc
    have hsize : (s.connection.left now bs o).input.size < 2 ^ 31 := by
      have hlt := ha.size
      rw [ConnectionData.left_size ha hpos]
      omega
    have hwait : ¬((s.connection.receive now bs).requiredSize ≠ 0 ∧
        (s.connection.receive now bs).requiredSize >
          (s.connection.receive now bs).input.size) := by
      rw [ConnectionData.receive_size ha]
      exact hc.2
    have hcall := connectionProcessing_call (o := o) maxHeaderSize now hbs hwait
    by_cases hclose : o.closeConnection = true
    · rw [Stream.receive, hcall, if_pos hclose] at hopen
      simp at hopen
    · rw [if_neg hclose] at hcall
      by_cases hheader : o.requiredSize = 0 ∧
          (s.connection.left now bs o).input.size > maxHeaderSize
      · rw [Stream.receive, hcall, if_pos hheader] at hopen
        simp at hopen
      · rw [if_neg hheader] at hcall
        rw [Stream.receive, hcall]
        show (s.connection.left now bs o).compact.input.capacity ≤
          max maxHeaderSize (s.connection.left now bs o).compact.requiredSize + 2 * recvBufferSize
        rw [ConnectionData.compact_capacity, ConnectionData.compact_requiredSize]
        exact nextCapacity_le hreq hsize hheader

end Stream.Frugal

/-- **The memory held for a connection is bounded.**  While a connection is open, its
buffer is no larger than two receive buffers and the larger of the header size and the
number of bytes the handler has asked for, however the peer cuts its stream. -/
theorem frugal_of_run {H : HandlerRule} (hH : H.InRange) {maxHeaderSize : ℕ} {s : Stream}
    (h : Run H maxHeaderSize s) (hopen : s.isOpen = true) : s.Frugal maxHeaderSize := by
  induction h with
  | connect sockFd data requiredSize now timeout closeConnection _ _ =>
    exact .connect sockFd data requiredSize now timeout closeConnection
  | receive now received o _ hs ha ho ih =>
    exact (ih hs).receive now ha (fun hc => hH _ _ (ho hc)) hopen

/-- Any request in range, whatever is left. -/
def inRange : HandlerRule where
  connect := fun requiredSize => requiredSize < 2 ^ 31
  read := fun n o => o.pos ≤ n ∧ o.requiredSize < 2 ^ 31

/-- A first chunk is left as it is, at the second one the handler asks for 3000 bytes. -/
def growing : Stream :=
  ((Stream.connect 7 (List.replicate recvBufferSize 0) 0 0 60 false).receive 2048 1
    (some (List.replicate 1000 1)) ⟨0, 0, false, 60⟩).receive 2048 2
    (some (List.replicate 24 2)) ⟨1000, 3000, false, 60⟩

theorem frugal_growing : growing.connection.input.capacity = 4096 ∧ growing.Frugal 2048 := by
  have hconnect : Run inRange 2048 _ := .connect 7 (List.replicate recvBufferSize 0) 0 0 60
    false List.length_replicate (show _ < 2 ^ 31 by decide)
  have hfirst := hconnect.receive 1 (some (List.replicate 1000 1)) ⟨0, 0, false, 60⟩ rfl
    ⟨by decide +kernel, by decide +kernel⟩
    fun _ => ⟨Nat.zero_le _, by decide⟩
  have hsecond := hfirst.receive 2 (some (List.replicate 24 2)) ⟨1000, 3000, false, 60⟩
    (by decide +kernel) ⟨by decide +kernel, by decide +kernel⟩
    fun _ => ⟨by decide +kernel, by decide⟩
  exact ⟨by decide +kernel, frugal_of_run (fun _ _ h => h) hsecond (by decide +kernel)⟩

end Server
end PeeledOrange
