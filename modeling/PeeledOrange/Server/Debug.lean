import PeeledOrange.Server.Capacity
import Mathlib.Data.List.Basic

/-!
# The build with `DEBUG_MODE`

With `DEBUG_MODE`, `ConnectionProcessing` disconnects a connection that has more bytes than
its buffer has room for, before it receives, and one whose handler has used up more bytes
than there are, before it subtracts.  Neither comes to pass with a handler whose position
is within the bytes and whose requests fit, so that both builds do the same for it.

With other handlers the copy that does not fit is not prevented: the check comes with the
next chunk.  But it is the last thing that is done to the buffer.

## Main definitions

* `connectionProcessingDebug` — one call of `ConnectionProcessing`, with the checks.
* `DebugRun` — the runs of a connection in this build.
* `Access.InBounds` — `ReceiveData` writes into the buffer, and a copy fits.

## Main results

* `debugRun_iff_run` — **with a handler whose requests fit, both builds have the same runs.**
* `guarded_of_debugRun` — **with any handler, an access out of bounds is the last one.**
-/

namespace PeeledOrange
namespace Server

/-! ### `ConnectionProcessing` -/

/-- `ConnectionProcessing`, as it is built with `DEBUG_MODE`. -/
def connectionProcessingDebug (maxHeaderSize now : ℕ) (cd : ConnectionData)
    (received : Option (List UInt8)) (o : Outcome) : Processed :=
  -- the first check
  if cd.input.size > cd.input.capacity then ⟨cd, true, none, []⟩
  else
    let call := [Access.receive cd.input.size cd.input.capacity]
    match received with
    | none | some [] => ⟨cd, true, none, call⟩
    | some bs =>
      let cd := cd.receive now bs
      if cd.requiredSize ≠ 0 ∧ cd.requiredSize > cd.input.size then ⟨cd, false, none, call⟩
      else
        let cd := cd.clearRequired
        let view := some (cd.input.data.take cd.input.size)
        let cd := cd.handle o
        if cd.closeConnection then ⟨cd, true, view, call⟩
        -- the second check
        else if cd.input.pos > cd.input.size then ⟨cd, true, view, call⟩
        else
          let cd := cd.consume
          if cd.requiredSize = 0 ∧ cd.input.size > maxHeaderSize then ⟨cd, true, view, call⟩
          else ⟨cd.compact, false, view, call ++ cd.copies⟩

/-- `ConnectionProcessing` is called for the connection, in this build. -/
def Stream.receiveDebug (s : Stream) (maxHeaderSize now : ℕ) (received : Option (List UInt8))
    (o : Outcome) : Stream :=
  let r := connectionProcessingDebug maxHeaderSize now s.connection received o
  { connection := r.connection
    isOpen := !r.disconnected
    received := s.received ++ received.getD []
    consumed := s.consumed ++ (r.view.getD []).take o.pos
    requested := if r.view.isSome then o.requiredSize else s.requested
    accesses := s.accesses ++ r.accesses }

/-- The states of a connection in its runs, in this build. -/
inductive DebugRun (H : HandlerRule) (maxHeaderSize : ℕ) : Stream → Prop
  | connect (sockFd : ℤ) (data : List UInt8) (requiredSize now timeout : ℕ)
      (closeConnection : Bool) : data.length = recvBufferSize → H.connect requiredSize →
      DebugRun H maxHeaderSize (.connect sockFd data requiredSize now timeout closeConnection)
  | receive {s : Stream} (now : ℕ) (received : Option (List UInt8)) (o : Outcome) :
      DebugRun H maxHeaderSize s → s.isOpen = true → s.connection.Accepts (received.getD []) →
      (s.connection.Calls (received.getD []) →
        H.read (s.connection.input.size + (received.getD []).length) o) →
      DebugRun H maxHeaderSize (s.receiveDebug maxHeaderSize now received o)

section Step

variable {cd : ConnectionData} {bs : List UInt8} {o : Outcome} (maxHeaderSize now : ℕ)

/-- The first check. -/
theorem connectionProcessingDebug_excess (h : cd.input.capacity < cd.input.size)
    (received : Option (List UInt8)) :
    connectionProcessingDebug maxHeaderSize now cd received o = ⟨cd, true, none, []⟩ := if_pos h

/-- **With room in the buffer, and a position within the bytes, both builds do the same.** -/
theorem connectionProcessingDebug_eq {received : Option (List UInt8)}
    (h : cd.input.size ≤ cd.input.capacity) (ha : cd.Accepts (received.getD []))
    (hpos : cd.Calls (received.getD []) →
      o.pos ≤ cd.input.size + (received.getD []).length) :
    connectionProcessingDebug maxHeaderSize now cd received o =
      connectionProcessing maxHeaderSize now cd received o := by
  rw [connectionProcessingDebug, if_neg (Nat.not_lt.mpr h)]
  unfold connectionProcessing
  rcases received with _ | _ | ⟨b, bs⟩
  · rfl
  · rfl
  · simp only [Option.getD_some] at ha hpos ⊢
    by_cases hwait : (cd.receive now (b :: bs)).requiredSize ≠ 0 ∧
        (cd.receive now (b :: bs)).requiredSize > (cd.receive now (b :: bs)).input.size
    · rw [if_pos hwait, if_pos hwait]
    · rw [if_neg hwait, if_neg hwait]
      have hle := hpos ⟨List.cons_ne_nil b bs, fun hw => hwait ⟨hw.1, by
        rw [ConnectionData.receive_size ha]
        exact hw.2⟩⟩
      have hsecond : ¬((cd.receive now (b :: bs)).clearRequired.handle o).input.pos >
          ((cd.receive now (b :: bs)).clearRequired.handle o).input.size := by
        rw [ConnectionData.handle_pos, ConnectionData.handle_size, ConnectionData.receive_size ha]
        exact Nat.not_lt.mpr hle
      rw [if_neg hsecond]

/-- The second check, or the handler has closed the connection. -/
theorem connectionProcessingDebug_beyond (h : cd.input.size ≤ cd.input.capacity)
    (ha : cd.Accepts bs) (hc : cd.Calls bs) (hpos : cd.input.size + bs.length < o.pos) :
    (connectionProcessingDebug maxHeaderSize now cd (some bs) o).disconnected = true ∧
      (connectionProcessingDebug maxHeaderSize now cd (some bs) o).accesses =
        [.receive cd.input.size cd.input.capacity] := by
  obtain ⟨hbs, hw⟩ := hc
  obtain ⟨b, bs, rfl⟩ := List.exists_cons_of_ne_nil hbs
  have hwait : ¬((cd.receive now (b :: bs)).requiredSize ≠ 0 ∧
      (cd.receive now (b :: bs)).requiredSize > (cd.receive now (b :: bs)).input.size) := by
    rw [ConnectionData.receive_size ha]
    exact hw
  have hsecond : ((cd.receive now (b :: bs)).clearRequired.handle o).input.pos >
      ((cd.receive now (b :: bs)).clearRequired.handle o).input.size := by
    rw [ConnectionData.handle_pos, ConnectionData.handle_size, ConnectionData.receive_size ha]
    exact hpos
  rw [connectionProcessingDebug, if_neg (Nat.not_lt.mpr h)]
  simp only
  rw [if_neg hwait, if_pos hsecond]
  split_ifs
  · exact ⟨rfl, rfl⟩
  · exact ⟨rfl, rfl⟩

end Step

/-! ### Handlers whose requests fit -/

section Fits

variable {H : HandlerRule} {maxHeaderSize : ℕ} {s : Stream}

/-- In a run of such a handler a step is the same in both builds. -/
theorem Stream.receiveDebug_eq (hH : H.InRange) (hi : s.Roomy) (now : ℕ)
    {received : Option (List UInt8)} {o : Outcome}
    (ha : s.connection.Accepts (received.getD []))
    (ho : s.connection.Calls (received.getD []) →
      H.read (s.connection.input.size + (received.getD []).length) o) :
    s.receiveDebug maxHeaderSize now received o = s.receive maxHeaderSize now received o := by
  rw [receiveDebug, receive, connectionProcessingDebug_eq maxHeaderSize now hi.sound.size ha
    fun hc => (hH _ _ (ho hc)).1]

/-- **With a handler whose requests fit, both builds have the same runs.** -/
theorem debugRun_iff_run (hH : H.InRange) (hfits : H.Fits maxHeaderSize) (s : Stream) :
    DebugRun H maxHeaderSize s ↔ Run H maxHeaderSize s := by
  constructor
  · intro h
    induction h with
    | connect sockFd data requiredSize now timeout closeConnection hdata hreq =>
      exact .connect sockFd data requiredSize now timeout closeConnection hdata hreq
    | @receive s now received o _ hs ha ho ih =>
      rw [Stream.receiveDebug_eq hH ((ih.roomy hH hfits).2 hs) now ha ho]
      exact ih.receive now received o hs ha ho
  · intro h
    induction h with
    | connect sockFd data requiredSize now timeout closeConnection hdata hreq =>
      exact .connect sockFd data requiredSize now timeout closeConnection hdata hreq
    | @receive s now received o hrun hs ha ho ih =>
      rw [← Stream.receiveDebug_eq hH ((hrun.roomy hH hfits).2 hs) now ha ho]
      exact ih.receive now received o hs ha ho

/-- The handler of `fillBuffer` is such a one. -/
theorem debugRun_fillBuffer : DebugRun modest 2048 fillBuffer :=
  (debugRun_iff_run modest_inRange (modest_fits 2048) fillBuffer).mpr run_fillBuffer

end Fits

/-! ### Any handler -/

/-- There is room for what has been received, or for what is copied. -/
def Access.InBounds : Access → Prop
  | .receive size capacity => size ≤ capacity
  | .copy _ _ n capacity => n ≤ capacity

/-- `ReceiveData` never writes past the end of a buffer, and a copy that does is the last
access. -/
structure Guarded (accesses : List Access) : Prop where
  receive : ∀ size capacity, .receive size capacity ∈ accesses → size ≤ capacity
  last : ∀ pre a post, accesses = pre ++ a :: post → ¬a.InBounds → post = []

/-- The invariant: all accesses have been in bounds, and the buffer is in order, or the last
one is a copy that has not been, and there are more bytes than there is room for. -/
inductive Stream.Checked (s : Stream) : Prop
  | inBounds : (∀ a ∈ s.accesses, a.InBounds) → (s.isOpen = true → s.connection.input.Sound) →
      Checked s
  | out (pre : List Access) (inPlace : Bool) (pos n capacity : ℕ) :
      s.accesses = pre ++ [.copy inPlace pos n capacity] → (∀ x ∈ pre, x.InBounds) →
      (s.isOpen = true → s.connection.input.capacity < s.connection.input.size) → Checked s

namespace Stream.Checked

variable {s : Stream}

theorem guarded (h : s.Checked) : Guarded s.accesses := by
  rcases h with ⟨hall, -⟩ | ⟨pre, inPlace, pos, n, capacity, heq, hall, -⟩
  · refine ⟨fun size capacity hmem => hall _ hmem, fun pre a post heq hout => ?_⟩
    exact absurd (hall a (by rw [heq]; simp)) hout
  · constructor
    · intro size capacity' hmem
      rw [heq] at hmem
      rcases List.mem_append.mp hmem with hmem | hmem
      · exact hall _ hmem
      · cases List.mem_singleton.mp hmem
    · intro pre' a post heq' hout
      rcases List.eq_nil_or_concat' post with rfl | ⟨init, last, rfl⟩
      · rfl
      · -- it would be before the last one
        have hpre : pre = pre' ++ a :: init := by
          rw [heq, ← List.cons_append, ← List.append_assoc] at heq'
          exact (List.append_inj' heq' rfl).1
        exact absurd (hall a (by rw [hpre]; simp)) hout

section Receive

variable {o : Outcome} {received : Option (List UInt8)} {bs : List UInt8}
  (maxHeaderSize now : ℕ)

/-- A call that only receives, and disconnects. -/
theorem of_disconnected (hall : ∀ a ∈ s.accesses, a.InBounds)
    (hi : s.connection.input.Sound)
    (hdis : (connectionProcessingDebug maxHeaderSize now s.connection received o).disconnected =
      true)
    (hacc : (connectionProcessingDebug maxHeaderSize now s.connection received o).accesses =
      [.receive s.connection.input.size s.connection.input.capacity]) :
    (s.receiveDebug maxHeaderSize now received o).Checked := by
  refine .inBounds ?_ fun hopen => ?_
  · rw [Stream.receiveDebug, hacc]
    exact List.forall_mem_append.mpr ⟨hall, List.forall_mem_singleton.mpr hi.size⟩
  · rw [Stream.receiveDebug, hdis] at hopen
    cases hopen

/-- What is left fits the next buffer, or the copy of it is out of bounds. -/
theorem compact (hall : ∀ a ∈ s.accesses, a.InBounds) (hi : s.connection.input.Sound)
    (ha : s.connection.Accepts bs) (hpos : o.pos ≤ s.connection.input.size + bs.length)
    {t : Stream}
    (hconnection : t.connection = (s.connection.left now bs o).compact)
    (haccesses : t.accesses = s.accesses ++
      (.receive s.connection.input.size s.connection.input.capacity ::
        (s.connection.left now bs o).copies)) : t.Checked := by
  have hleft := @ConnectionData.left_size s.connection bs now o ha hpos
  have hlt := ha.size
  have hreceive : (Access.receive s.connection.input.size s.connection.input.capacity).InBounds :=
    hi.size
  by_cases hfit : (s.connection.left now bs o).input.size ≤
      (s.connection.left now bs o).nextCapacity
  · have hrest := @ConnectionData.left_rest s.connection bs now o hi ha hpos
    have hlen : (s.connection.left now bs o).rest.length =
        (s.connection.left now bs o).input.size := by
      rw [hrest, hleft, List.length_drop, List.length_append, ConnectionData.length_bytes hi]
    have hcapacity : (s.connection.left now bs o).nextCapacity < 2 ^ 32 := requiredCapacity_lt _
    have hsound : (s.connection.receive now bs).input.Sound := ConnectionData.receive_sound hi ha
    refine .inBounds ?_ fun _ => ?_
    · rw [haccesses]
      refine List.forall_mem_append.mpr ⟨hall, List.forall_mem_cons.mpr ⟨hreceive, ?_⟩⟩
      unfold ConnectionData.copies
      split_ifs
      · exact List.forall_mem_singleton.mpr hfit
      · exact fun a ha => absurd ha List.not_mem_nil
    · rw [hconnection]
      exact ConnectionData.compact_sound hlen hsound.length hfit hcapacity
  · -- there is something to be copied, and the next buffer is too small for it
    have hout : t.accesses =
        (s.accesses ++ [.receive s.connection.input.size s.connection.input.capacity]) ++
          [.copy (s.connection.input.capacity == (s.connection.left now bs o).nextCapacity) o.pos
            (s.connection.left now bs o).input.size (s.connection.left now bs o).nextCapacity] := by
      rw [haccesses, ConnectionData.copies, if_pos (by omega), List.append_assoc]
      rfl
    refine .out _ _ _ _ _ hout
      (List.forall_mem_append.mpr ⟨hall, List.forall_mem_singleton.mpr hreceive⟩) fun _ => ?_
    rw [hconnection, ConnectionData.compact_capacity, ConnectionData.compact_size]
    omega

/-- What a call leaves. -/
theorem receiveDebug (h : s.Checked) (hs : s.isOpen = true)
    (ha : s.connection.Accepts (received.getD [])) :
    (s.receiveDebug maxHeaderSize now received o).Checked := by
  rcases h with ⟨hall, hsound⟩ | ⟨pre, inPlace, pos, n, capacity, heq, hall, hexcess⟩
  · have hi := hsound hs
    by_cases hpos : s.connection.Calls (received.getD []) →
        o.pos ≤ s.connection.input.size + (received.getD []).length
    · -- as in the other build
      have hsame := connectionProcessingDebug_eq maxHeaderSize now hi.size ha hpos
      have hstep : s.receiveDebug maxHeaderSize now received o =
          s.receive maxHeaderSize now received o := by
        rw [Stream.receiveDebug, Stream.receive, hsame]
      cases hopen : (s.receive maxHeaderSize now received o).isOpen with
      | false =>
        have hdis : (connectionProcessing maxHeaderSize now s.connection received o).disconnected =
            true := by simpa [Stream.receive] using hopen
        exact of_disconnected maxHeaderSize now hall hi (hsame ▸ hdis)
          (hsame ▸ accesses_of_disconnected hdis)
      | true =>
        rw [hstep]
        obtain ⟨bs, rfl, hbs, hcase⟩ := Stream.receive_open maxHeaderSize now hopen
        simp only [Option.getD_some] at ha hpos
        rcases hcase with hwait | hcalls
        · rw [Stream.receive_wait maxHeaderSize now ha hbs hwait]
          refine .inBounds ?_ fun _ => ConnectionData.receive_sound hi ha
          exact List.forall_mem_append.mpr ⟨hall, List.forall_mem_singleton.mpr hi.size⟩
        · obtain ⟨hstep, -⟩ := Stream.receive_handle maxHeaderSize now hi ha hcalls hopen
          rw [hstep]
          exact compact now hall hi ha (hpos hcalls) rfl rfl
    · -- the second check
      rw [Classical.not_imp] at hpos
      obtain ⟨hcalls, hbeyond⟩ := hpos
      cases received with
      | none => exact absurd rfl hcalls.1
      | some bs =>
        obtain ⟨hdis, hacc⟩ := connectionProcessingDebug_beyond maxHeaderSize now hi.size ha hcalls
          (Nat.lt_of_not_le hbeyond)
        exact of_disconnected maxHeaderSize now hall hi hdis hacc
  · -- the first check
    refine .out pre inPlace pos n capacity ?_ hall fun hopen => ?_
    · rw [Stream.receiveDebug, connectionProcessingDebug_excess maxHeaderSize now (hexcess hs), heq]
      exact List.append_nil _
    · rw [Stream.receiveDebug,
        connectionProcessingDebug_excess maxHeaderSize now (hexcess hs)] at hopen
      cases hopen

end Receive

end Stream.Checked

theorem DebugRun.checked {H : HandlerRule} {maxHeaderSize : ℕ} {s : Stream}
    (h : DebugRun H maxHeaderSize s) : s.Checked := by
  induction h with
  | connect sockFd data requiredSize now timeout closeConnection hdata _ =>
    exact .inBounds (fun a ha => absurd ha List.not_mem_nil) fun _ =>
      ⟨hdata, show recvBufferSize < 2 ^ 32 by decide, Nat.zero_le _, rfl⟩
  | receive now received o _ hs ha _ ih => exact ih.receiveDebug maxHeaderSize now hs ha

/-- The handler may leave any position, and ask for anything. -/
def anyOutcome : HandlerRule where
  connect := fun _ => True
  read := fun _ _ => True

/-- The handler leaves 2048 bytes; at the next one it asks for 10, and leaves all of them.  Then
the peer closes. -/
def overflowDebug : Stream :=
  ((((Stream.connect 7 (List.replicate recvBufferSize 0) 0 0 60 false).receiveDebug 4096 1
    (some (List.replicate 1024 1)) ⟨0, 0, false, 60⟩).receiveDebug 4096 2
    (some (List.replicate 1024 1)) ⟨0, 0, false, 60⟩).receiveDebug 4096 3
    (some [1]) ⟨0, 10, false, 60⟩).receiveDebug 4096 4 none ⟨0, 0, false, 60⟩

theorem debugRun_overflowDebug : DebugRun anyOutcome 4096 overflowDebug := by
  have hconnect : DebugRun anyOutcome 4096 _ := .connect 7 (List.replicate recvBufferSize 0) 0 0 60
    false List.length_replicate trivial
  have hfirst := hconnect.receive 1 (some (List.replicate 1024 1)) ⟨0, 0, false, 60⟩ rfl
    ⟨by decide +kernel, by decide +kernel⟩ fun _ => trivial
  have hsecond := hfirst.receive 2 (some (List.replicate 1024 1)) ⟨0, 0, false, 60⟩
    (by decide +kernel) ⟨by decide +kernel, by decide +kernel⟩ fun _ => trivial
  have hthird := hsecond.receive 3 (some [1]) ⟨0, 10, false, 60⟩ (by decide +kernel)
    ⟨by decide +kernel, by decide +kernel⟩ fun _ => trivial
  exact hthird.receive 4 none ⟨0, 0, false, 60⟩ (by decide +kernel)
    ⟨by decide +kernel, by decide +kernel⟩ fun _ => trivial

end Server
end PeeledOrange
