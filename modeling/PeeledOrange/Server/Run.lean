import PeeledOrange.Lib.History
import PeeledOrange.Server.Effects
import PeeledOrange.Server.Expire

/-!
# Runs of the server

The multiplexer calls the server for one thing at a time: the timer, or an event of
the batch.  A run is any sequence of these, in which the kernel gives out only
descriptors that are not open and the timer does nothing that is undefined.

## Main definitions

* `Input`, `TCPServer.Step`, `TCPServer.Run` — the runs, with their history.
* `TCPServer.Initial` — the server before it has started.
* `TCPServer.LegalBatch` — the kernel may give out these descriptors.

## Main results

* `Run.owned` — **in every run every descriptor has its owner.**
* `Run.mainLoop` — a turn of the loop of `MainThread` is such a run.
-/

namespace PeeledOrange
namespace Server

/-- What the multiplexer calls the server for. -/
inductive Input
  /-- `OnTimer`, at this time. -/
  | timer (time : ℕ)
  /-- An event of the batch. -/
  | event (e : Occurred)
  deriving DecidableEq, Repr

/-- The server handles an input. -/
def TCPServer.Step (s : TCPServer) : Input → TCPServer → Prop
  | .timer time, s' => s.onTimer time = .ok s'
  | .event e, s' => s.Legal e ∧ s' = s.onOccurred e

/-- A run of the server, with its history. -/
abbrev TCPServer.Run : TCPServer → List (TCPServer × Input) → TCPServer → Prop := History.Run Step

/-- The server before it has started: there are ports, but no connections. -/
structure TCPServer.Initial (s : TCPServer) : Prop where
  connections : ∀ k fd, s.find? k fd = none
  live : s.live = []
  log : s.log = []
  cursor : s.lastCheckedFd = 0

theorem TCPServer.Initial.owned {s : TCPServer} (h : s.Initial) : s.Owned := by
  have hnone : ∀ {k fd c}, ¬s.find? k fd = some c := fun hc => by
    rw [h.connections] at hc
    cases hc
  refine ⟨fun hc => (hnone hc).elim, fun hc => (hnone hc).elim, fun hc => (hnone hc).elim, ?_, ?_⟩
  · intro id
    rw [h.live]
    exact iff_of_false List.not_mem_nil fun ⟨_, _, _, hc, _⟩ => hnone hc
  · intro id hid
    rw [h.live] at hid
    cases hid

theorem TCPServer.Step.owned {s s' : TCPServer} {i : Input} (h : s.Owned) (hs : s.Step i s') :
    s'.Owned := by
  cases i with
  | timer time => exact (TCPServer.erases_onTimer h hs).owned
  | event e =>
    obtain ⟨hlegal, rfl⟩ := hs
    exact (TCPServer.follows_onOccurred h hlegal).owned

/-- **In every run every descriptor has its owner.** -/
theorem TCPServer.Run.owned {s₀ s : TCPServer} {hist : List (TCPServer × Input)}
    (h : s₀.Run hist s) (h₀ : s₀.Initial) : s.Owned :=
  h.invariant (fun _ _ _ => Step.owned) h₀.owned

/-! ### The loop of the multiplexer -/

namespace TCPServer

/-- What `OnTimer` makes of the state, if it is called. -/
def wake (s : TCPServer) : Option ℕ → Except Fault TCPServer
  | none => .ok s
  | some time => s.onTimer time

theorem mainLoop_eq_ok_iff {s s' : TCPServer} {timer : Option ℕ} {batch : List Occurred} :
    s.mainLoop timer batch = .ok s' ↔
      ∃ t, s.wake timer = .ok t ∧ batch.foldl onOccurred t = s' := by
  unfold mainLoop
  cases timer with
  | none => simp [wake]
  | some time =>
    cases htime : s.onTimer time with
    | error e => simp [wake, htime]
    | ok t => simp [wake, htime]

/-- The kernel may give out the descriptors of this batch. -/
def LegalBatch (s : TCPServer) : List Occurred → Prop
  | [] => True
  | e :: es => s.Legal e ∧ (s.onOccurred e).LegalBatch es

theorem run_batch : ∀ {batch : List Occurred} {s : TCPServer}, s.LegalBatch batch →
    ∃ hist, s.Run hist (batch.foldl onOccurred s) := by
  intro batch
  induction batch with
  | nil => intro s _; exact ⟨[], .start⟩
  | cons e es ih =>
    intro s hlegal
    obtain ⟨hist, hrun⟩ := ih hlegal.2
    have hfirst : s.Run [(s, .event e)] (s.onOccurred e) := History.Run.start.step _ ⟨hlegal.1, rfl⟩
    exact ⟨_, hfirst.append hrun⟩

end TCPServer

/-- A turn of the loop of `MainThread` is a part of a run. -/
theorem TCPServer.Run.mainLoop {s₀ s t s' : TCPServer} {hist : List (TCPServer × Input)}
    {timer : Option ℕ} {batch : List Occurred} (h : s₀.Run hist s) (ht : s.wake timer = .ok t)
    (hlegal : t.LegalBatch batch) (hs' : s.mainLoop timer batch = .ok s') :
    ∃ hist', s₀.Run hist' s' := by
  obtain ⟨t', ht', rfl⟩ := TCPServer.mainLoop_eq_ok_iff.mp hs'
  rw [ht] at ht'
  cases ht'
  obtain ⟨hist', hrun⟩ := TCPServer.run_batch hlegal
  cases timer with
  | none =>
    cases ht
    exact ⟨_, h.append hrun⟩
  | some time =>
    have htimer : s.Step (.timer time) t := ht
    exact ⟨_, (h.step _ htimer).append hrun⟩

/-! ### A server with one port -/

/-- A port that listens on descriptor 3. -/
def echoServer : TCPServer where
  nowTime := 0
  currentTime := 0
  serverPorts := OrderedMap.empty.insert 3 ⟨6999, 3, 100, 60, 4096, "echo", OrderedMap.empty⟩
  lastCheckedFd := 0
  nextId := 0
  live := []
  log := []

theorem initial_echoServer : echoServer.Initial where
  connections := fun k _ => TCPServer.getContext_eq_none rfl k
  live := rfl
  log := rfl
  cursor := rfl

/-- `accept` returns this descriptor; it is added to `epoll` or not. -/
def accepting (sockFd : ℤ) (added : Bool) : Occurred :=
  ⟨3, false, ⟨some sockFd, ⟨0, false, 60⟩, added, none, ⟨0, 0, false, 60⟩⟩⟩

/-- A byte is received and used up, and the handler closes the connection or not. -/
def reading (fd : ℤ) (closeConnection : Bool) : Occurred :=
  ⟨fd, false, ⟨none, ⟨0, false, 60⟩, true, some [1], ⟨1, 0, closeConnection, 60⟩⟩⟩

/-- The peer hangs up. -/
def hangingUp (fd : ℤ) : Occurred :=
  ⟨fd, true, ⟨none, ⟨0, false, 60⟩, true, none, ⟨0, 0, false, 60⟩⟩⟩

theorem TCPServer.legal_hangingUp {s : TCPServer} {fd : ℤ} : s.Legal (hangingUp fd) := nofun

theorem TCPServer.legal_reading {s : TCPServer} {fd : ℤ} {closeConnection : Bool} :
    s.Legal (reading fd closeConnection) := nofun

theorem TCPServer.legal_accepting {s : TCPServer} {sockFd : ℤ} {added : Bool} (h : 0 ≤ sockFd)
    (hport : s.port? sockFd = none) (hctx : s.getContext sockFd = none) :
    s.Legal (accepting sockFd added) := by
  rintro sockFd' heq
  obtain rfl : sockFd = sockFd' := Option.some.inj heq
  exact ⟨h, hport, getContext_eq_none hctx⟩

end Server
end PeeledOrange
