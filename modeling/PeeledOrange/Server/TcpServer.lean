import PeeledOrange.Lib.OrderedMap
import PeeledOrange.Server.Buffer
import Mathlib.Algebra.Order.Group.Int

/-!
# The server

`TCPServer` holds a map from listening descriptors to ports, and each port a map
from descriptors to connection objects.  The multiplexer waits for events, calls
`OnTimer`, and then passes each event of the batch on by its descriptor: to a
hang-up, to `accept` for a listening descriptor, or to the receive path of the
connection that has the descriptor.

The objects are told apart by an identity, since descriptors are used again.  A
context holds plain pointers, so what happens to an object is recorded together
with whether the object is alive at that moment: it is from `NewConnection` until
its `unique_ptr` is erased from the map or goes out of scope, when the destructor
closes the descriptor as well.

This is the build with neither `TLS_MODE` nor `DATABASE_CLIENT`.

## Main definitions

* `Connection`, `ServerPort`, `TCPServer` — the state.
* `Event` — what is recorded of a run.
* `eraseExpiredConnections`, `onTimer` — the timer; `Fault` is what is undefined there.
* `onEvent`, `onDisconnect` — the two ways to pass an event on.
* `mainLoop` — one turn of the loop of `MainThread`.
-/

namespace PeeledOrange
namespace Server

/-! ### The state -/

/-- A `connection_data_t` object. -/
structure Connection where
  id : ℕ
  data : ConnectionData
  deriving DecidableEq, Repr

/-- `server_port_t`. -/
structure ServerPort where
  port : ℤ
  sockFd : ℤ
  maxConns : ℕ
  connectTimeout : ℕ
  maxHeaderSize : ℕ
  name : String
  connections : OrderedMap ℤ Connection

/-- What an inheritor overrides. -/
inductive Callback
  | onConnect
  | onReadData
  | onDisconnect
  deriving DecidableEq, Repr

/-- What is recorded of a run, in order. -/
inductive Event
  /-- A callback is called for an object, which is alive or not. -/
  | call (f : Callback) (id : ℕ) (live : Bool)
  /-- The server itself uses an object through a pointer. -/
  | access (id : ℕ) (live : Bool)
  /-- An event for this descriptor is passed on to an object. -/
  | dispatch (fd : ℤ) (id : ℕ)
  /-- The destructor of an object runs. -/
  | destroy (id : ℕ)
  deriving DecidableEq, Repr

/-- `TCPServer`, with the record of its run. -/
structure TCPServer where
  nowTime : ℕ
  currentTime : ℕ
  serverPorts : OrderedMap ℤ ServerPort
  lastCheckedFd : ℤ
  /-- The identity of the next object. -/
  nextId : ℕ
  /-- The objects there are. -/
  live : List ℕ
  log : List Event

/-- `CHECK_EXPIRED_STEP`. -/
def checkExpiredStep : ℕ := 100

namespace TCPServer

variable (s : TCPServer)

/-- The port with this listening descriptor. -/
def port? (k : ℤ) : Option ServerPort := s.serverPorts.find? k

/-- The connection with this descriptor at a port. -/
def find? (k fd : ℤ) : Option Connection := (s.port? k).bind fun sp => sp.connections.find? fd

/-- Change the connections of a port. -/
def modifyConnections (k : ℤ) (f : OrderedMap ℤ Connection → OrderedMap ℤ Connection) :
    TCPServer :=
  { s with serverPorts := s.serverPorts.modify k fun sp =>
      { sp with connections := f sp.connections } }

/-- Record an event. -/
def record (e : Event) : TCPServer := { s with log := s.log ++ [e] }

/-- A callback is called. -/
def call (f : Callback) (id : ℕ) : TCPServer := s.record (.call f id (decide (id ∈ s.live)))

/-- An object is used through a pointer. -/
def access (id : ℕ) : TCPServer := s.record (.access id (decide (id ∈ s.live)))

/-- `NewConnection`. -/
def create : TCPServer := { s with nextId := s.nextId + 1, live := s.nextId :: s.live }

/-- The destructor of an object runs. -/
def destroy (id : ℕ) : TCPServer :=
  { s with live := s.live.filter (· ≠ id), log := s.log ++ [.destroy id] }

/-- `connections.erase(fd)`. -/
def eraseConnection (k fd : ℤ) : TCPServer :=
  match s.find? k fd with
  | none => s
  | some c => (s.modifyConnections k (·.erase fd)).destroy c.id

/-- `connections[fd] = std::move(c)`.  What the entry held is destroyed. -/
def assignConnection (k fd : ℤ) (c : Connection) : TCPServer :=
  let t := s.modifyConnections k (·.insert fd c)
  match s.find? k fd with
  | none => t
  | some old => t.destroy old.id

/-- The fields of the object change. -/
def setData (k fd : ℤ) (data : ConnectionData) : TCPServer :=
  s.modifyConnections k (·.modify fd fun c => { c with data := data })

/-- `getContext`: the port and the object of the connection with this descriptor. -/
def getContext (fd : ℤ) : Option (ℤ × ServerPort × Connection) :=
  s.serverPorts.entries.findSome? fun e =>
    (e.2.connections.find? fd).map fun c => (e.1, e.2, c)

end TCPServer

/-! ### The timer -/

/-- The condition of `EraseExpiredConnections`; the sum is one of `uint32_t`. -/
def ConnectionData.expired (now : ℕ) (cd : ConnectionData) : Bool :=
  (cd.lastTime + cd.timeout) % 2 ^ 32 < now

/-- Undefined behaviour in `EraseExpiredConnections`. -/
inductive Fault
  /-- `it_cnt++` on the end iterator of a connections map. -/
  | pastEnd
  deriving DecidableEq, Repr

/-- What the inner loop of `EraseExpiredConnections` leaves: the descriptors to
erase, the counter, and the descriptor at which it has stopped, if it has. -/
structure Scan where
  expiredConns : List ℤ
  counter : ℕ
  stopped : Option ℤ
  deriving DecidableEq, Repr

/-- The inner loop of `EraseExpiredConnections`, from an iterator on. -/
def scan (now : ℕ) : ℕ → List (ℤ × Connection) → Scan
  | counter, [] => ⟨[], counter, none⟩
  | counter, (fd, c) :: rest =>
    let marked := if c.data.expired now then [fd] else []
    if counter + 1 ≥ checkExpiredStep then ⟨marked, counter + 1, some fd⟩
    else
      let r := scan now (counter + 1) rest
      { r with expiredConns := marked ++ r.expiredConns }

namespace TCPServer

/-- The iterator at which the inner loop starts.  With a cursor it is past the entry
that `find` returns; if there is none, the first turn of the search loop already
increments the end iterator. -/
def resume (lastCheckedFd : ℤ) (connections : OrderedMap ℤ Connection) :
    Except Fault (List (ℤ × Connection)) :=
  if lastCheckedFd ≠ 0 then
    match connections.after? lastCheckedFd with
    | some it => .ok it
    | none => .error .pastEnd
  else .ok connections.entries

/-- The outer loop of `EraseExpiredConnections`, over the ports from an iterator on. -/
def scanPorts : List (ℤ × ServerPort) → ℕ → TCPServer → Except Fault (TCPServer × ℕ)
  | [], counter, s => .ok (s, counter)
  | (k, sp) :: rest, counter, s =>
    match resume s.lastCheckedFd sp.connections with
    | .error e => .error e
    | .ok it =>
      let r := scan s.nowTime counter it
      let s := { s with lastCheckedFd := r.stopped.getD 0 }
      let s := r.expiredConns.foldl (fun s fd => s.eraseConnection k fd) s
      scanPorts rest r.counter s

/-- `EraseExpiredConnections`. -/
def eraseExpiredConnections (s : TCPServer) : Except Fault TCPServer :=
  match scanPorts s.serverPorts.entries 0 s with
  | .error e => .error e
  | .ok (s, counter) =>
    .ok (if counter ≠ checkExpiredStep then { s with lastCheckedFd := 0 } else s)

/-- `OnTimer`, at this time. -/
def onTimer (time : ℕ) (s : TCPServer) : Except Fault TCPServer :=
  let s := { s with nowTime := time }
  if s.nowTime ≠ s.currentTime then
    eraseExpiredConnections { s with currentTime := s.nowTime }
  else if s.lastCheckedFd ≠ 0 then eraseExpiredConnections s
  else .ok s

end TCPServer

/-! ### The events -/

/-- What `OnConnect` leaves in the connection. -/
structure ConnectOutcome where
  requiredSize : ℕ
  closeConnection : Bool
  timeout : ℕ
  deriving DecidableEq, Repr

/-- What comes from outside while an event is passed on; `OnEvent` uses the first
three for a listening descriptor and the last two for a connection. -/
structure Outside where
  /-- What `accept` returns, if it does not fail. -/
  accepted : Option ℤ
  connected : ConnectOutcome
  /-- What `AddFD` returns. -/
  added : Bool
  /-- What `recv` returns. -/
  received : Option (List UInt8)
  outcome : Outcome
  deriving DecidableEq, Repr

/-- The object that `OnEvent` makes for a descriptor. -/
def newConnectionData (sockFd : ℤ) (now timeout : ℕ) : ConnectionData :=
  ⟨sockFd, 0, now, timeout, false, ⟨List.replicate recvBufferSize 0, 0, recvBufferSize, 0⟩⟩

/-- `OnConnect` has returned. -/
def ConnectionData.greet (cd : ConnectionData) (o : ConnectOutcome) : ConnectionData :=
  { cd with
    requiredSize := o.requiredSize
    closeConnection := o.closeConnection
    timeout := o.timeout }

namespace TCPServer

variable (s : TCPServer)

/-- `Disconnect`: the entry is erased, and with it the object, and then `OnDisconnect`
is called for it. -/
def disconnect (k : ℤ) (c : Connection) : TCPServer :=
  let s := s.access c.id
  let s := s.eraseConnection k c.data.sockFd
  s.call .onDisconnect c.id

/-- `ConnectionProcessing`: the object is used before the callback and after it. -/
def processConnection (k : ℤ) (sp : ServerPort) (c : Connection) (x : Outside) : TCPServer :=
  let r := connectionProcessing sp.maxHeaderSize s.nowTime c.data x.received x.outcome
  let s := s.access c.id
  let s := if r.view.isSome then (s.call .onReadData c.id).access c.id else s
  let s := s.setData k c.data.sockFd r.connection
  if r.disconnected then s.disconnect k { c with data := r.connection } else s

/-- The branch of `OnEvent` for a listening descriptor, once `accept` has returned. -/
def acceptConnection (k : ℤ) (sp : ServerPort) (sockFd : ℤ) (x : Outside) : TCPServer :=
  let id := s.nextId
  let cd := newConnectionData sockFd s.nowTime sp.connectTimeout
  let s := s.create
  let s := s.call .onConnect id
  if x.added then s.assignConnection k sockFd ⟨id, cd.greet x.connected⟩ else s.destroy id

/-- `OnEvent`. -/
def onEvent (fd : ℤ) (x : Outside) : TCPServer :=
  match s.port? fd with
  | some sp =>
    match x.accepted with
    | none => s
    | some sockFd => s.acceptConnection fd sp sockFd x
  | none =>
    match s.getContext fd with
    | none => s
    | some (k, sp, c) => (s.record (.dispatch fd c.id)).processConnection k sp c x

/-- `OnDisconnect` for a descriptor. -/
def onDisconnect (fd : ℤ) : TCPServer :=
  match s.getContext fd with
  | none => s
  | some (k, _, c) => (s.record (.dispatch fd c.id)).disconnect k c

end TCPServer

/-! ### The loop of the multiplexer -/

/-- An event of a batch: its descriptor, whether it is a hang-up (`EPOLLHUP`,
`EPOLLRDHUP` or `EPOLLERR`), and what comes from outside while it is passed on. -/
structure Occurred where
  fd : ℤ
  hangUp : Bool
  outside : Outside
  deriving DecidableEq, Repr

/-- The body of the loop over a batch. -/
def TCPServer.onOccurred (s : TCPServer) (e : Occurred) : TCPServer :=
  if e.hangUp then s.onDisconnect e.fd else s.onEvent e.fd e.outside

/-- One turn of the loop of `MainThread`: the time `OnTimer` reads, if it is called, and
the batch that `epoll_wait` has returned. -/
def TCPServer.mainLoop (s : TCPServer) (timer : Option ℕ) (batch : List Occurred) :
    Except Fault TCPServer :=
  match timer with
  | none => .ok (batch.foldl onOccurred s)
  | some time =>
    match s.onTimer time with
    | .error e => .error e
    | .ok s => .ok (batch.foldl onOccurred s)

end Server
end PeeledOrange
