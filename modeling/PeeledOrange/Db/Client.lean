import PeeledOrange.Lib.Callback
import Mathlib.Logic.Function.Basic
import Mathlib.Data.Int.Notation
import Mathlib.Data.List.Perm.Basic

/-!
# The abstract database client

`TAbstractDbClient` keeps a number of database connections, hands each free and
ready one a query, and queues the queries for which no connection is free.  The
work itself is done by hooks that an inheritor overrides (`DoQuery`,
`CheckResult`, `CheckConnect`, `DoConnect`, `DoPing`, `NewConnection`), and a
finished query goes to the callback `OnResult`.  A hook may call `Result` for
its own connection, and `OnResult` may call `Query`, so the member functions
nest without bound; they are programs of `Callback` for that reason.

Connection objects live behind pointers (`unique_ptr`), so `Client.conn` is the
heap and the two deques hold pointers.  The fields from `nextPtr` on are not in
the source: they record what has happened, for the statements to speak about.

## Main definitions

* `Client` — the state of the client, and the updates the source makes to it.
* `Call`, `Entry` — the hooks and the callback; the member functions to call.
* `query`, `nextQuery`, `result`, `dataProcessing`, `onTimer` — the functions.
* `HookRules`, `interface` — what the hooks and the callback may do.
-/

namespace PeeledOrange
namespace Db

open Callback

/-! ### The data -/

/-- `result_status_t`. -/
inductive ResultStatus
  | ok
  | error
  | expired
  deriving DecidableEq, Repr

/-- `query_data_t`; `id` is the identity of the object, one for each submission. -/
structure QueryData where
  id : ℕ
  fd : ℤ
  status : ResultStatus
  message : String
  deriving DecidableEq, Repr

/-- `connection_status_t`. -/
inductive ConnectionStatus
  | wait
  | connect
  | ready
  | error
  deriving DecidableEq, Repr

/-- `db_connection_t`. -/
structure DbConnection where
  fd : ℤ
  timestamp : ℤ
  status : ConnectionStatus
  query : Option QueryData
  deriving DecidableEq, Repr

/-- What the constructor of `db_connection_t` sets; it leaves the time stamp open. -/
def DbConnection.fresh : DbConnection := ⟨-1, 0, .wait, none⟩

/-- A `db_connection_t*`. -/
abbrev ConnPtr := ℕ

/-- The fields of `client_set_t` that the client reads. -/
structure ClientSet where
  maxQueueSize : ℕ
  connectTimeout : ℕ
  queryTimeout : ℕ
  deriving DecidableEq, Repr

/-- What is recorded of a run, in order. -/
inductive Event
  /-- The query was attached to the connection and `DoQuery` called. -/
  | start (c : ConnPtr) (id : ℕ)
  /-- `CheckResult` was called on the connection. -/
  | check (c : ConnPtr)
  /-- The timer expired the query of the connection. -/
  | expire (c : ConnPtr)
  deriving DecidableEq, Repr

/-- The state of `TAbstractDbClient`. -/
structure Client where
  /-- The settings. -/
  client : ClientSet
  /-- The heap of connection objects. -/
  conn : ConnPtr → DbConnection
  connections : List ConnPtr
  queries : List QueryData
  badConnections : List ConnPtr
  connected : Bool
  /-- What `time` reads. -/
  clock : ℤ
  /-- The next object that `NewConnection` returns. -/
  nextPtr : ConnPtr
  /-- The queries `Query` has taken. -/
  accepted : List ℕ
  /-- The queries `Query` has turned down. -/
  rejected : List ℕ
  /-- What `Query` has returned, for which query. -/
  returned : List (ℕ × Bool)
  /-- What was passed to `OnResult`. -/
  delivered : List QueryData
  /-- What was overwritten or destroyed in a connection's slot. -/
  lost : List QueryData
  log : List Event

/-- `IDLE_PING_TIME`. -/
def idlePingTime : ℤ := 3600

/-! ### The updates -/

namespace Client

variable (s : Client)

/-- Replace the object at `c`. -/
def setConn (c : ConnPtr) (d : DbConnection) : Client :=
  { s with conn := Function.update s.conn c d }

/-- `connection->query = q`.  Whatever the slot held is destroyed. -/
def attach (c : ConnPtr) (q : QueryData) : Client :=
  { s.setConn c { s.conn c with query := some q } with
    lost := s.lost ++ (s.conn c).query.toList
    log := s.log ++ [.start c q.id] }

/-- The attachment `Query` makes. -/
def start (c : ConnPtr) (pq : QueryData) : Client :=
  { s.attach c pq with accepted := s.accepted ++ [pq.id] }

/-- `queries.push_back(std::move(pq))`. -/
def enqueue (pq : QueryData) : Client :=
  { s with queries := s.queries ++ [pq], accepted := s.accepted ++ [pq.id] }

/-- `Query` returns false and its parameter is destroyed. -/
def reject (pq : QueryData) : Client := { s with rejected := s.rejected ++ [pq.id] }

/-- The attachment `NextQuery` makes, with the `pop_front`. -/
def next (c : ConnPtr) (q : QueryData) : Client :=
  { s.attach c q with queries := s.queries.tail }

/-- `move(cd->query)` into the parameter of `OnResult`. -/
def take (c : ConnPtr) (q : QueryData) : Client :=
  { s.setConn c { s.conn c with query := none } with delivered := s.delivered ++ [q] }

/-- `connection->timestamp = t`. -/
def setTimestamp (c : ConnPtr) (t : ℤ) : Client :=
  s.setConn c { s.conn c with timestamp := t }

/-- `connection->status = CONNECTION_ERROR`. -/
def setError (c : ConnPtr) : Client := s.setConn c { s.conn c with status := .error }

/-- `connected = b`. -/
def setConnected (b : Bool) : Client := { s with connected := b }

/-- The query data with the result of an expiry. -/
def expiredQuery (q : QueryData) (message : String) : QueryData :=
  { q with status := .expired, message := message }

/-- The three assignments of `OnTimer` on a query timeout. -/
def expire (c : ConnPtr) (q : QueryData) : Client :=
  { s.setConn c { s.conn c with
      query := some (expiredQuery q "Query timeout expired"), status := .error } with
    log := s.log ++ [.expire c] }

/-- The two assignments of `OnTimer` on a connect timeout. -/
def lapse (c : ConnPtr) (q : QueryData) : Client :=
  s.setConn c { s.conn c with query := some (expiredQuery q "Connect timeout expired") }

/-- The connection at index `i` is moved to `bad_connections` and replaced by the
object that `NewConnection` returns, before its constructor has run. -/
def retire (i : ℕ) (c : ConnPtr) (now : ℤ) : Client :=
  { (s.setTimestamp c now).setConn s.nextPtr .fresh with
    connections := s.connections.set i s.nextPtr
    badConnections := s.badConnections ++ [c]
    nextPtr := s.nextPtr + 1 }

/-- The age of `c` exceeds `bound`; the comparison is made in `time_t`. -/
def older (now : ℤ) (bound : ℤ) (c : ConnPtr) : Bool := now - (s.conn c).timestamp > bound

/-- The last loop of `OnTimer`: the bad connections past their time are erased,
and with them what they hold. -/
def sweep (now : ℤ) : Client :=
  { s with
    badConnections := s.badConnections.filter fun c => !s.older now s.client.connectTimeout c
    lost := s.lost ++
      (s.badConnections.filter (s.older now s.client.connectTimeout)).filterMap
        fun c => (s.conn c).query }

/-- `CheckResult` is about to be called. -/
def check (c : ConnPtr) : Client := { s with log := s.log ++ [.check c] }

/-- `Query` has returned. -/
def logReturn (id : ℕ) (ok : Bool) : Client := { s with returned := s.returned ++ [(id, ok)] }

/-- The connection is ready and holds no query. -/
def isFree (c : ConnPtr) : Bool := (s.conn c).status == .ready && (s.conn c).query.isNone

@[simp] theorem setConn_conn_self (c : ConnPtr) (d : DbConnection) :
    (s.setConn c d).conn c = d := Function.update_self ..

theorem setConn_conn_of_ne {x c : ConnPtr} (h : x ≠ c) (d : DbConnection) :
    (s.setConn c d).conn x = s.conn x := Function.update_of_ne h ..

@[simp] theorem setTimestamp_status (c : ConnPtr) (t : ℤ) (x : ConnPtr) :
    ((s.setTimestamp c t).conn x).status = (s.conn x).status := by
  by_cases hx : x = c
  · subst hx; simp [setTimestamp]
  · simp [setTimestamp, setConn_conn_of_ne s hx]

@[simp] theorem setTimestamp_query (c : ConnPtr) (t : ℤ) (x : ConnPtr) :
    ((s.setTimestamp c t).conn x).query = (s.conn x).query := by
  by_cases hx : x = c
  · subst hx; simp [setTimestamp]
  · simp [setTimestamp, setConn_conn_of_ne s hx]

@[simp] theorem retire_conn_nextPtr (i : ℕ) (c : ConnPtr) (now : ℤ) :
    (s.retire i c now).conn s.nextPtr = .fresh := Function.update_self ..

theorem retire_conn_of_ne {x : ConnPtr} (h : x ≠ s.nextPtr) (i : ℕ) (c : ConnPtr) (now : ℤ) :
    (s.retire i c now).conn x = (s.setTimestamp c now).conn x := Function.update_of_ne h ..

theorem retire_query_of_ne {x : ConnPtr} (h : x ≠ s.nextPtr) (i : ℕ) (c : ConnPtr) (now : ℤ) :
    ((s.retire i c now).conn x).query = (s.conn x).query := by
  rw [s.retire_conn_of_ne h, setTimestamp_query]

theorem retire_status_of_ne {x : ConnPtr} (h : x ≠ s.nextPtr) (i : ℕ) (c : ConnPtr) (now : ℤ) :
    ((s.retire i c now).conn x).status = (s.conn x).status := by
  rw [s.retire_conn_of_ne h, setTimestamp_status]

/-- A retired connection stays, and the one in its place is added. -/
theorem retire_perm {i : ℕ} {c : ConnPtr} (hi : s.connections[i]? = some c) (now : ℤ) :
    ((s.retire i c now).connections ++ (s.retire i c now).badConnections).Perm
      (s.nextPtr :: (s.connections ++ s.badConnections)) := by
  obtain ⟨hlt, rfl⟩ := List.getElem?_eq_some_iff.mp hi
  have hset := List.set_perm_cons_eraseIdx hlt s.nextPtr
  have herase := List.getElem_cons_eraseIdx_perm hlt
  calc List.Perm (s.connections.set i s.nextPtr ++ (s.badConnections ++ [s.connections[i]]))
        (s.nextPtr :: s.connections.eraseIdx i ++ s.connections[i] :: s.badConnections) :=
        hset.append (List.perm_append_singleton _ _)
    List.Perm _ (s.nextPtr :: (s.connections[i] :: s.connections.eraseIdx i ++ s.badConnections)) :=
        List.perm_middle.cons _
    List.Perm _ (s.nextPtr :: (s.connections ++ s.badConnections)) :=
        (herase.append_right _).cons _

/-- The initial state: any connections, in any status, and nothing submitted. -/
structure Initial : Prop where
  nodup : s.connections.Nodup
  bound : ∀ c ∈ s.connections, c < s.nextPtr
  query : ∀ c ∈ s.connections, (s.conn c).query = none
  queries : s.queries = []
  badConnections : s.badConnections = []
  accepted : s.accepted = []
  rejected : s.rejected = []
  returned : s.returned = []
  delivered : s.delivered = []
  lost : s.lost = []
  log : s.log = []

/-- A new client with these connection objects. -/
def ofConnections (client : ClientSet) (conns : List DbConnection) : Client where
  client := client
  conn := fun c => conns.getD c .fresh
  connections := List.range conns.length
  queries := []
  badConnections := []
  connected := false
  clock := 0
  nextPtr := conns.length
  accepted := []
  rejected := []
  returned := []
  delivered := []
  lost := []
  log := []

theorem initial_ofConnections (client : ClientSet) {conns : List DbConnection}
    (h : ∀ d ∈ conns, d.query = none) : (ofConnections client conns).Initial where
  nodup := List.nodup_range
  bound := fun _ hc => List.mem_range.mp hc
  query := fun c hc => by
    have hlt : c < conns.length := List.mem_range.mp hc
    show (conns.getD c .fresh).query = none
    rw [List.getD_eq_getElem?_getD, List.getElem?_eq_getElem hlt, Option.getD_some]
    exact h _ (List.getElem_mem hlt)
  queries := rfl
  badConnections := rfl
  accepted := rfl
  rejected := rfl
  returned := rfl
  delivered := rfl
  lost := rfl
  log := rfl

end Client

/-! ### The hooks, the callback and the member functions -/

/-- What the client calls.  `onResult` records the connection the query came
from, which the callback is not told. -/
inductive Call
  | doQuery (c : ConnPtr)
  | checkResult (c : ConnPtr)
  | checkConnect (c : ConnPtr)
  | doConnect (c : ConnPtr)
  | doPing (c : ConnPtr)
  | newConnection (c : ConnPtr)
  | onResult (c : ConnPtr) (q : QueryData)
  deriving DecidableEq, Repr

/-- The connection a call is about. -/
def Call.subject : Call → ConnPtr
  | .doQuery c | .checkResult c | .checkConnect c | .doConnect c | .doPing c
  | .newConnection c | .onResult c _ => c

/-- The connection a hook is called for. -/
def Call.owner : Call → Option ConnPtr
  | .doQuery c | .checkResult c | .checkConnect c | .doConnect c | .doPing c
  | .newConnection c => some c
  | .onResult _ _ => none

theorem Call.subject_of_owner {k : Call} {c : ConnPtr} (h : k.owner = some c) :
    k.subject = c := by
  cases k <;> cases h <;> rfl

/-- The member functions of the client: programs over its state, replied to with
the `bool` of `CheckConnect` (the other replies carry nothing). -/
abbrev DbProg := Prog Client Call Bool

/-- `Query`. -/
def query (pq : QueryData) : DbProg Bool := do
  let s ← Prog.read
  match s.connections.find? s.isFree with
  | some connection =>
    Prog.modify (·.start connection pq)
    let _ ← Prog.ask (.doQuery connection)
    Prog.modify fun s => s.setTimestamp connection s.clock
    return true
  | none =>
    if s.queries.length > s.client.maxQueueSize then
      Prog.modify (·.reject pq)
      return false
    else
      Prog.modify (·.enqueue pq)
      return true

/-- `isFitInQueue`; the sum is one of `size_t`. -/
def Client.isFitInQueue (s : Client) (size : ℕ) : Bool :=
  s.queries.length + size < s.client.maxQueueSize

/-- `NextQuery`. -/
def nextQuery (cd : ConnPtr) : DbProg Bool := do
  let s ← Prog.read
  match s.queries with
  | [] => return false
  | q :: _ =>
    Prog.modify (·.next cd q)
    let _ ← Prog.ask (.doQuery cd)
    Prog.modify fun s => s.setTimestamp cd s.clock
    return true

/-- `Result`, first statement: process the current query. -/
def deliver (cd : ConnPtr) : DbProg Unit := do
  let s ← Prog.read
  match (s.conn cd).query with
  | some q =>
    Prog.modify (·.take cd q)
    let _ ← Prog.ask (.onResult cd q)
  | none => return ()

/-- `Result`, second statement: if there is no active query but the connection is
ready, take the next one from the queue. -/
def refill (cd : ConnPtr) : DbProg Unit := do
  let s ← Prog.read
  Prog.when (s.isFree cd) do
    let _ ← nextQuery cd

/-- `Result`. -/
def result (cd : ConnPtr) : DbProg Unit := do
  deliver cd
  refill cd

/-- `DataProcessing`, the `switch` on the connection that was found. -/
def dispatch (connection : ConnPtr) : DbProg Unit := do
  let s ← Prog.read
  match (s.conn connection).status with
  | .ready =>
    Prog.when (s.conn connection).query.isSome do
      Prog.modify (·.check connection)
      let _ ← Prog.ask (.checkResult connection)
  | .connect =>
    let ready ← Prog.ask (.checkConnect connection)
    Prog.when ready do
      Prog.modify (·.setConnected true)
  | .wait | .error => return ()

/-- `DataProcessing`. -/
def dataProcessing (fd : ℤ) : DbProg Bool := do
  let s ← Prog.read
  match s.connections.find? fun c => (s.conn c).fd == fd with
  | none => return false
  | some connection =>
    dispatch connection
    return true

/-- The `CONNECTION_READY` case of `OnTimer`. -/
def onTimer.ready (now : ℤ) (connection : ConnPtr) : DbProg Unit := do
  let s ← Prog.read
  match (s.conn connection).query with
  | some q =>
    Prog.when (s.older now s.client.queryTimeout connection) do
      Prog.modify (·.expire connection q)
      result connection
  | none =>
    let started ← nextQuery connection
    let s ← Prog.read
    Prog.when (!started && s.older now idlePingTime connection) do
      let _ ← Prog.ask (.doPing connection)
      Prog.modify (·.setTimestamp connection now)

/-- The query of a connection whose connect timeout has expired is given back. -/
def onTimer.lapse (connection : ConnPtr) : DbProg Unit := do
  let s ← Prog.read
  match (s.conn connection).query with
  | some q =>
    Prog.modify (·.lapse connection q)
    result connection
  | none => return ()

/-- The `CONNECTION_CONNECT` case of `OnTimer`. -/
def onTimer.connect (now : ℤ) (connection : ConnPtr) : DbProg Unit := do
  let ready ← Prog.ask (.checkConnect connection)
  if ready then
    Prog.modify (·.setConnected true)
  else
    let s ← Prog.read
    Prog.when (s.older now s.client.connectTimeout connection) do
      onTimer.lapse connection
      Prog.modify (·.setError connection)

/-- The body of the loop of `OnTimer` at index `i`: false is a `return` out of
`OnTimer`. -/
def onTimer.visit (now : ℤ) (i : ℕ) : DbProg Bool := do
  let s ← Prog.read
  match s.connections[i]? with
  | none => return true
  | some connection =>
    match (s.conn connection).status with
    | .ready =>
      onTimer.ready now connection
      return true
    | .wait =>
      Prog.modify (·.setTimestamp connection now)
      let _ ← Prog.ask (.doConnect connection)
      let s ← Prog.read
      return s.connected
    | .connect =>
      onTimer.connect now connection
      return true
    | .error =>
      Prog.modify (·.setConnected false)
      Prog.when (s.older now s.client.connectTimeout connection) do
        Prog.modify (·.retire i connection now)
        let _ ← Prog.ask (.newConnection s.nextPtr)
      return false

/-- The loop of `OnTimer` over the `n` connections from index `i` on. -/
def onTimer.loop (now : ℤ) : ℕ → ℕ → DbProg Bool
  | 0, _ => return true
  | n + 1, i => do
    if ← onTimer.visit now i then onTimer.loop now n (i + 1) else return false

/-- `OnTimer`. -/
def onTimer (now : ℤ) : DbProg Unit := do
  let s ← Prog.read
  let finished ← onTimer.loop now s.connections.length 0
  Prog.when finished do
    Prog.modify (·.sweep now)

/-! ### The interface -/

/-- The member functions that are called from outside. -/
inductive Entry
  | query (pq : QueryData)
  | onTimer (now : ℤ)
  | dataProcessing (fd : ℤ)
  | result (c : ConnPtr)
  deriving DecidableEq, Repr

/-- What happens to the state between the member functions. -/
inductive Act
  /-- The clock moves. -/
  | clock (t : ℤ)
  /-- The running hook turns its connection object into `d`. -/
  | hook (c : ConnPtr) (d : DbConnection)
  deriving DecidableEq, Repr

/-- The program of an entry point; what `Query` returns is recorded. -/
def Entry.program : Entry → DbProg Unit
  | .query pq => do
    let ok ← Db.query pq
    Prog.modify (·.logReturn pq.id ok)
  | .onTimer now => Db.onTimer now
  | .dataProcessing fd => do let _ ← Db.dataProcessing fd
  | .result c => Db.result c

/-- Some pending call is a hook of `c`. -/
def Hooked (cs : List Call) (c : ConnPtr) : Prop := ∃ k ∈ cs, k.owner = some c

/-- What is required of the hooks of the inheritor. -/
structure HookRules where
  /-- A hook may turn its connection object into this one. -/
  act : DbConnection → DbConnection → Prop
  /-- A hook may return leaving its connection object like this, if no other hook
  of that connection is still running. -/
  done : DbConnection → Prop
  /-- `CheckConnect` may return this leaving its connection object like this. -/
  connects : Bool → DbConnection → Prop

/-- `k` is `OnResult`. -/
def Call.isResult : Call → Bool
  | .onResult _ _ => true
  | _ => false

/-- When the member functions are called: `Query`, `OnTimer` and `DataProcessing`
from outside, `Query` from `OnResult`, `Result` from `DoQuery` and `CheckResult`. -/
def mayEnter (cs : List Call) (s : Client) : Entry → Prop
  | .query pq => cs.head?.all Call.isResult = true ∧ pq.id ∉ s.accepted ∧ pq.id ∉ s.rejected
  | .onTimer _ => cs = []
  | .dataProcessing _ => cs = []
  | .result c => cs.head? = some (.doQuery c) ∨ cs.head? = some (.checkResult c)

/-- The effect of an act. -/
def Act.perform : Act → Client → Client
  | .clock t, s => { s with clock := t }
  | .hook c d, s => s.setConn c d

/-- The running hook changes its own connection: the status, the descriptor, the
time stamp and the contents of the attached query. -/
def mayAct (R : HookRules) (cs : List Call) (s : Client) : Act → Prop
  | .clock _ => True
  | .hook c d => cs.head?.bind Call.owner = some c ∧ R.act (s.conn c) d ∧
      d.query.map QueryData.id = (s.conn c).query.map QueryData.id

/-- The connection `CheckConnect` is called for. -/
def Call.connecting : Call → Option ConnPtr
  | .checkConnect c => some c
  | _ => none

/-- A call is replied to as the rules allow. -/
def mayReply (R : HookRules) : List Call → Bool → Client → Prop
  | [], _, _ => False
  | k :: cs, r, s => (∀ c ∈ k.connecting, R.connects r (s.conn c)) ∧
      ∀ c ∈ k.owner, Hooked cs c ∨ R.done (s.conn c)

/-- The client and the code around it. -/
def interface (R : HookRules) : Interface Client Call Bool Entry Act where
  entry := Entry.program
  act := Act.perform
  mayEnter := mayEnter
  mayAct := mayAct R
  mayReply := mayReply R

/-! ### Checking a schedule -/

section Decidable

variable (R : HookRules)

instance (cs : List Call) (c : ConnPtr) : Decidable (Hooked cs c) :=
  inferInstanceAs (Decidable (∃ k ∈ cs, k.owner = some c))

instance (cs : List Call) (s : Client) (e : Entry) :
    Decidable ((interface R).mayEnter cs s e) :=
  match e with
  | .query pq => inferInstanceAs (Decidable (_ = true ∧ pq.id ∉ s.accepted ∧ pq.id ∉ s.rejected))
  | .onTimer _ | .dataProcessing _ => inferInstanceAs (Decidable (cs = []))
  | .result c =>
    inferInstanceAs (Decidable (cs.head? = some (.doQuery c) ∨ cs.head? = some (.checkResult c)))

instance [DecidableRel R.act] (cs : List Call) (s : Client) (a : Act) :
    Decidable ((interface R).mayAct cs s a) :=
  match a with
  | .clock _ => .isTrue trivial
  | .hook c d => inferInstanceAs (Decidable (_ ∧ R.act (s.conn c) d ∧ _))

instance [DecidablePred R.done] [∀ r, DecidablePred (R.connects r)] (cs : List Call) (r : Bool)
    (s : Client) :
    Decidable ((interface R).mayReply cs r s) :=
  match cs with
  | [] => .isFalse id
  | k :: cs => inferInstanceAs (Decidable
      ((∀ c ∈ k.connecting, R.connects r (s.conn c)) ∧
        ∀ c ∈ k.owner, Hooked cs c ∨ R.done (s.conn c)))

end Decidable

end Db
end PeeledOrange
