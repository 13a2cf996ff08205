import PeeledOrange.Lib.Component
import PeeledOrange.Lib.BigStep
import PeeledOrange.Db.Delivery
import PeeledOrange.Server.Run

/-!
# The server with its database client

With `DATABASE_CLIENT` the server drives the database client: `OnTimer` calls its
`OnTimer` first, and `OnEvent` offers it every event that is not for a listening
descriptor before it looks for a connection.  The callbacks of the server may call
`Query`, and so may `OnResult`.

The server does not change while it has called out: of `accept`, `recv` and the callbacks
only what they leave matters to it, so they are one call that replies with that.  Where
`OnTimer` runs past the end of a map, the program calls out and is never replied to.

## Main definitions

* `State` — the database client and the server.
* `onTimer`, `onEvent`, `onDisconnect` — the functions that the multiplexer calls.
* `interface` — what the code around both may do.
* `Handles` — what a call of the multiplexer has come to when it returns.

## Main results

* `contract_of_server` — **what is known of the database client alone is known of it in the
  server.**
* `server_run` — **the server of any run has a run of its own.**
* `onEvent_handles` — **an event reaches the server if and only if the database client has no
  connection with its descriptor.**
-/

namespace PeeledOrange
namespace Engine

open Callback Server

/-! ### The programs -/

/-- The database client and the server. -/
abbrev State := Db.Client × TCPServer

/-- What is called. -/
inductive Call
  /-- A hook of the database client, or `OnResult`. -/
  | db (k : Db.Call)
  /-- `accept` or `recv` and the callbacks of the server, for an event or a hang-up. -/
  | serve (fd : ℤ) (hangUp : Bool)
  | onSecTimer
  /-- The behaviour is undefined. -/
  | undefined
  deriving DecidableEq, Repr

/-- The calls of the database client. -/
def Call.db? : Call → Option Db.Call
  | .db k => some k
  | _ => none

/-- What is replied. -/
inductive Reply
  | flag (b : Bool)
  | outside (x : Outside)
  deriving DecidableEq, Repr

/-- The reply to a call of the database client. -/
def Reply.toBool : Reply → Bool
  | .flag b => b
  | .outside _ => false

/-- The member functions of the server. -/
abbrev EngineProg := Prog State Call Reply

/-- A member function of the database client is called. -/
abbrev dbCall {α : Type} (p : Db.DbProg α) : EngineProg α := p.lift Call.db Reply.toBool

/-- The server is left with this. -/
def setServer (s : TCPServer) : EngineProg Unit := Prog.modify fun t => (t.1, s)

/-- The server passes an event on, once it is known what comes from outside. -/
def serve (fd : ℤ) (hangUp : Bool) : EngineProg Unit := do
  match ← Prog.ask (.serve fd hangUp) with
  | .flag _ => return ()
  | .outside x => Prog.modify fun t => (t.1, t.2.onOccurred ⟨fd, hangUp, x⟩)

/-- If there is a connection with this descriptor, the event is passed on to it. -/
def serveContext (fd : ℤ) (hangUp : Bool) : EngineProg Unit := do
  let t ← Prog.read
  match t.2.getContext fd with
  | none => return ()
  | some _ => serve fd hangUp

/-- `OnTimer`, at this time.  Nothing reads `now_time` while the database client is called. -/
def onTimer (time : ℕ) : EngineProg Unit := do
  dbCall (Db.onTimer time)
  let t ← Prog.read
  match t.2.onTimer time with
  | .error _ =>
    let _ ← Prog.ask .undefined
  | .ok s =>
    setServer s
    Prog.when (time ≠ t.2.currentTime) do
      let _ ← Prog.ask .onSecTimer

/-- `OnEvent`. -/
def onEvent (fd : ℤ) : EngineProg Unit := do
  let t ← Prog.read
  match t.2.port? fd with
  | some _ => serve fd false
  | none =>
    if ← dbCall (Db.dataProcessing fd) then return ()
    else serveContext fd false

/-- `OnDisconnect` for a descriptor. -/
def onDisconnect (fd : ℤ) : EngineProg Unit := serveContext fd true

/-! ### The interface -/

/-- The functions that are called from outside: three by the multiplexer, `Query` by the
callbacks, and `Result` by the hooks. -/
inductive Entry
  | onTimer (time : ℕ)
  | onEvent (fd : ℤ)
  | onDisconnect (fd : ℤ)
  | query (pq : Db.QueryData)
  | result (c : Db.ConnPtr)
  deriving DecidableEq, Repr

/-- The program of an entry point. -/
def Entry.program : Entry → EngineProg Unit
  | .onTimer time => Engine.onTimer time
  | .onEvent fd => Engine.onEvent fd
  | .onDisconnect fd => Engine.onDisconnect fd
  | .query pq => dbCall (Db.Entry.program (.query pq))
  | .result c => dbCall (Db.Entry.program (.result c))

/-- When the functions are called. -/
def mayEnter (ds : List Call) (t : State) : Entry → Prop
  | .onTimer _ | .onEvent _ | .onDisconnect _ => ds = []
  | .query pq => .undefined ∉ ds ∧ Db.mayEnter (ds.filterMap Call.db?) t.1 (.query pq)
  | .result c => .undefined ∉ ds ∧ Db.mayEnter (ds.filterMap Call.db?) t.1 (.result c)

/-- What is replied to a call. -/
def mayReply (R : Db.HookRules) : List Call → Reply → State → Prop
  | .db k :: ds, .flag b, t => Db.mayReply R (k :: ds.filterMap Call.db?) b t.1
  | .serve fd hangUp :: _, .outside x, t => t.2.Legal ⟨fd, hangUp, x⟩
  | .onSecTimer :: _, _, _ => True
  | _, _, _ => False

/-- The server, its database client, and the code around them. -/
def interface (R : Db.HookRules) : Interface State Call Reply Entry Db.Act where
  entry := Entry.program
  act := fun a t => (a.perform t.1, t.2)
  mayEnter := mayEnter
  mayAct := fun ds t a => Db.mayAct R (ds.filterMap Call.db?) t.1 a
  mayReply := mayReply R

/-! ### Checking a schedule -/

theorem legal_iff {s : TCPServer} {e : Occurred} : s.Legal e ↔ ∀ sockFd ∈ e.outside.accepted,
    0 ≤ sockFd ∧ s.port? sockFd = none ∧ s.getContext sockFd = none := by
  refine forall₂_congr fun sockFd _ => ⟨fun h => ⟨h.nonneg, h.port, ?_⟩, ?_⟩
  · cases hctx : s.getContext sockFd with
    | none => rfl
    | some r =>
      have hc := (TCPServer.getContext_eq_some hctx).2
      rw [h.connection] at hc
      cases hc
  · rintro ⟨hfd, hport, hctx⟩
    exact ⟨hfd, hport, TCPServer.getContext_eq_none hctx⟩

instance (s : TCPServer) (e : Occurred) : Decidable (s.Legal e) :=
  decidable_of_iff (∀ sockFd ∈ e.outside.accepted, 0 ≤ sockFd ∧
    (s.port? sockFd).isNone = true ∧ (s.getContext sockFd).isNone = true)
    (by simp only [legal_iff, Option.isNone_iff_eq_none])

variable {R : Db.HookRules}

instance (ds : List Call) (t : State) (e : Entry) : Decidable ((interface R).mayEnter ds t e) :=
  match e with
  | .onTimer _ | .onEvent _ | .onDisconnect _ => inferInstanceAs (Decidable (ds = []))
  | .query pq => inferInstanceAs (Decidable
      (_ ∧ (Db.interface R).mayEnter (ds.filterMap Call.db?) t.1 (.query pq)))
  | .result c => inferInstanceAs (Decidable
      (_ ∧ (Db.interface R).mayEnter (ds.filterMap Call.db?) t.1 (.result c)))

instance [DecidableRel R.act] (ds : List Call) (t : State) (a : Db.Act) :
    Decidable ((interface R).mayAct ds t a) :=
  inferInstanceAs (Decidable ((Db.interface R).mayAct (ds.filterMap Call.db?) t.1 a))

instance [DecidablePred R.done] [∀ r, DecidablePred (R.connects r)] (ds : List Call) (r : Reply)
    (t : State) : Decidable ((interface R).mayReply ds r t) :=
  match ds, r with
  | .db k :: ds, .flag b => inferInstanceAs (Decidable
      ((Db.interface R).mayReply (k :: ds.filterMap Call.db?) b t.1))
  | .serve fd hangUp :: _, .outside x => inferInstanceAs (Decidable (t.2.Legal ⟨fd, hangUp, x⟩))
  | .onSecTimer :: _, .flag _ | .onSecTimer :: _, .outside _ => .isTrue trivial
  | [], .flag _ | [], .outside _ | .db _ :: _, .outside _ | .serve _ _ :: _, .flag _
  | .undefined :: _, .flag _ | .undefined :: _, .outside _ => .isFalse id

/-! ### The database client as a component -/

/-- To the database client the server is unknown code. -/
theorem embeds : Embeds (Db.interface R) (interface R) Call.db Reply.toBool Call.db? where
  proj_call := fun _ => rfl
  act := fun _ _ a ha => .inr ⟨a, ha, rfl⟩
  reply := by
    intro c ds r t h
    cases r with
    | flag b => exact h
    | outside x => exact h.elim

/-! ### The database client in the server -/

section Contract

variable {K : Contract Db.Client Db.Call} {ds : List Call} {t : State}

theorem serve_safe (hI : Invariant (Db.interface R) K)
    (ht : K.boundary (ds.filterMap Call.db?) t.1) (fd : ℤ) (hangUp : Bool) :
    (serve fd hangUp).Safe (interface R) (K.lift Call.db?) ds
      (fun _ => (K.lift Call.db?).boundary ds) t := by
  rw [serve, Prog.safe_bind]
  refine (Prog.safe_other rfl ht).mono fun r t' ht' => ?_
  cases r with
  | flag b => exact ht'
  | outside x => exact hI.safe_rest ht'

theorem serveContext_safe (hI : Invariant (Db.interface R) K)
    (ht : K.boundary (ds.filterMap Call.db?) t.1) (fd : ℤ) (hangUp : Bool) :
    (serveContext fd hangUp).Safe (interface R) (K.lift Call.db?) ds
      (fun _ => (K.lift Call.db?).boundary ds) t := by
  rw [serveContext, Prog.safe_bind, Prog.safe_read]
  split
  · exact ht
  · exact serve_safe hI ht fd hangUp

/-- The entry points of the server keep a contract of the database client. -/
theorem Entry.safe (hI : Invariant (Db.interface R) K)
    (ht : K.boundary (ds.filterMap Call.db?) t.1) {e : Entry} (he : mayEnter ds t e) :
    e.program.Safe (interface R) (K.lift Call.db?) ds (fun _ => (K.lift Call.db?).boundary ds)
      t := by
  -- a function of the database client that returns with the boundary condition
  have hdb : ∀ {α : Type} {p : Db.DbProg α} {t : State},
      p.Safe (Db.interface R) K (ds.filterMap Call.db?)
        (fun _ => K.boundary (ds.filterMap Call.db?)) t.1 →
      (dbCall p).Safe (interface R) (K.lift Call.db?) ds
        (fun _ => (K.lift Call.db?).boundary ds) t := fun hp => hp.lift embeds
  cases e with
  | query pq => exact hdb (hI.entry _ _ (.query pq) ht he.2)
  | result c => exact hdb (hI.entry _ _ (.result c) ht he.2)
  | onDisconnect fd => exact serveContext_safe hI ht fd true
  | onTimer time =>
    obtain rfl : ds = [] := he
    rw [Entry.program, Engine.onTimer, Prog.safe_bind]
    refine (hdb (hI.entry _ _ (.onTimer time) ht rfl)).mono fun _ t' ht' => ?_
    rw [Prog.safe_bind, Prog.safe_read]
    split
    · rw [Prog.safe_bind]
      exact (Prog.safe_other rfl ht').mono fun _ _ h => h
    · rw [Prog.safe_bind]
      refine (hI.safe_rest ht').mono fun _ t'' ht'' => ?_
      rw [Prog.safe_when]
      refine ⟨fun _ => ?_, fun _ => ht''⟩
      rw [Prog.safe_bind]
      exact (Prog.safe_other rfl ht'').mono fun _ _ h => h
  | onEvent fd =>
    obtain rfl : ds = [] := he
    rw [Entry.program, Engine.onEvent, Prog.safe_bind, Prog.safe_read]
    split
    · exact serve_safe hI ht fd false
    · have hentry := hI.entry _ _ (.dataProcessing fd) ht rfl
      have hentry' : (Db.dataProcessing fd).Safe (Db.interface R) K []
          (fun _ => K.boundary []) t.1 := (Prog.safe_bind _ _ _ _).mp hentry
      rw [Prog.safe_bind]
      refine (hdb hentry').mono fun found t' ht' => ?_
      cases found with
      | true => exact ht'
      | false => exact serveContext_safe hI ht' fd false

/-- **What is known of the database client alone is known of it in the server**: a contract
that it keeps towards any code around it holds in every run of the server. -/
theorem contract_of_server (hI : Invariant (Db.interface R) K) {t₀ : State}
    (h₀ : K.boundary [] t₀.1) {cfg : Config State Call Reply}
    (h : Reachable (interface R) t₀ cfg) : K.moment cfg.state.1 ∧
      (cfg.running = none → K.boundary (cfg.calls.filterMap Call.db?) cfg.state.1) :=
  (hI.lift embeds fun _ _ _ ht he => Entry.safe hI ht he).reachable h₀ h

end Contract

/-- A client connects, and when a byte of its comes, its handler asks the database. -/
def askingMoves : List (Move Reply Entry Db.Act) :=
  [.enter (.onEvent 3), .reply (.outside (accepting 5 true).outside), .enter (.onEvent 5),
    .enter (.query ⟨7, 5, .ok, "select"⟩), .reply (.flag false),
    .reply (.outside (reading 5 false).outside)]

/-- A server with one port, and a database client with one ready connection. -/
def asked : State := (.ofConnections ⟨10, 5, 5⟩ [⟨4, 0, .ready, none⟩], echoServer)

/-- What comes of it. -/
def asking : Config State Call Reply :=
  play (interface Db.keepWhileBusy) 20 askingMoves (.idle asked)

theorem legalPlay_asking : LegalPlay (interface Db.keepWhileBusy) 20 askingMoves (.idle asked) := by
  decide +kernel

/-- The query has been taken, and waits in the slot of the connection. -/
theorem accounted_asking : asking.state.1.returned = [(7, true)] ∧ asking.state.1.slotIds = [7] ∧
    Db.Accounted asking.state.1 := by
  have hI := Db.Answering.kept.invariant
  have h₀ : (Db.Client.ofConnections ⟨10, 5, 5⟩ [⟨4, 0, .ready, none⟩]).Initial :=
    Db.Client.initial_ofConnections _ (by simp)
  have hreach : Reachable (interface Db.keepWhileBusy) asked asking :=
    (Reachable.idle _).play legalPlay_asking
  exact ⟨by decide +kernel, by decide +kernel,
    (contract_of_server hI ⟨Db.Base.of_initial h₀, Db.Answering.of_initial h₀⟩ hreach).1⟩

/-! ### The server in its runs -/

section Run

variable {s₀ s : TCPServer} {ds : List Call} {t : State}

/-- The server of this state has come from `s₀`. -/
def ServerRuns (s₀ s : TCPServer) : Prop := ∃ hist, TCPServer.Run s₀ hist s

theorem ServerRuns.step (h : ServerRuns s₀ s) {s' : TCPServer} {i : Input} (hs : s.Step i s') :
    ServerRuns s₀ s' := by
  obtain ⟨hist, hrun⟩ := h
  exact ⟨_, hrun.step i hs⟩

/-- At every moment the server has come from `s₀`. -/
def serverContract (s₀ : TCPServer) : Contract State Call where
  moment := fun t => ServerRuns s₀ t.2
  boundary := fun _ t => ServerRuns s₀ t.2
  later := fun _ _ => True

theorem dbCall_keeps {α : Type} (p : Db.DbProg α) (ht : ServerRuns s₀ t.2) :
    (dbCall p).Safe (interface R) (serverContract s₀) ds (fun _ t' => ServerRuns s₀ t'.2) t :=
  (Prog.Safe.frame (fun _ _ h => h) (fun _ _ _ => trivial) (fun _ _ => Iff.rfl) p ht).mono
    fun _ _ h => h.1

theorem serve_keeps (ht : ServerRuns s₀ t.2) (fd : ℤ) (hangUp : Bool) :
    (serve fd hangUp).Safe (interface R) (serverContract s₀) ds (fun _ t' => ServerRuns s₀ t'.2)
      t := by
  rw [serve, Prog.safe_bind]
  refine ⟨ht, fun r t' _ ht' hr => ?_⟩
  cases r with
  | flag b => exact ht'
  | outside x =>
    have hstep : t'.2.Step (.event ⟨fd, hangUp, x⟩) (t'.2.onOccurred ⟨fd, hangUp, x⟩) := ⟨hr, rfl⟩
    have hnext := ServerRuns.step ht' hstep
    exact ⟨hnext, trivial, hnext⟩

theorem serveContext_keeps (ht : ServerRuns s₀ t.2) (fd : ℤ) (hangUp : Bool) :
    (serveContext fd hangUp).Safe (interface R) (serverContract s₀) ds
      (fun _ t' => ServerRuns s₀ t'.2) t := by
  rw [serveContext, Prog.safe_bind, Prog.safe_read]
  split
  · exact ht
  · exact serve_keeps ht fd hangUp

theorem onTimer_keeps (ht : ServerRuns s₀ t.2) (time : ℕ) :
    (onTimer time).Safe (interface R) (serverContract s₀) ds (fun _ t' => ServerRuns s₀ t'.2)
      t := by
  rw [onTimer, Prog.safe_bind]
  refine (dbCall_keeps _ ht).mono fun _ t' ht' => ?_
  rw [Prog.safe_bind, Prog.safe_read]
  cases hs : t'.2.onTimer time with
  | error e => exact ⟨ht', fun _ _ _ _ hr => hr.elim⟩
  | ok s =>
    have hstep : t'.2.Step (.timer time) s := hs
    have hnext := ServerRuns.step ht' hstep
    refine ⟨hnext, trivial, ?_⟩
    show (Prog.when _ _).Safe _ _ _ _ (t'.1, s)
    rw [Prog.safe_when]
    exact ⟨fun _ => ⟨hnext, fun _ _ _ h _ => h⟩, fun _ => hnext⟩

theorem onEvent_keeps (ht : ServerRuns s₀ t.2) (fd : ℤ) :
    (onEvent fd).Safe (interface R) (serverContract s₀) ds (fun _ t' => ServerRuns s₀ t'.2) t := by
  rw [onEvent, Prog.safe_bind, Prog.safe_read]
  split
  · exact serve_keeps ht fd false
  · rw [Prog.safe_bind]
    refine (dbCall_keeps _ ht).mono fun found t' ht' => ?_
    cases found with
    | true => exact ht'
    | false => exact serveContext_keeps ht' fd false

theorem invariant_serverContract : Invariant (interface R) (serverContract s₀) where
  refl := fun _ => trivial
  trans := fun _ _ => trivial
  moment := fun _ _ h => h
  entry := by
    intro ds t e ht he
    cases e with
    | onTimer time => exact onTimer_keeps ht time
    | onEvent fd => exact onEvent_keeps ht fd
    | onDisconnect fd => exact serveContext_keeps ht fd true
    | query pq => exact dbCall_keeps _ ht
    | result c => exact dbCall_keeps _ ht
  act := fun _ _ _ ht _ => ⟨ht, trivial⟩

/-- **The server of any run has a run of its own**, so what holds of all runs of the server
holds of it with its database client. -/
theorem server_run {t₀ : State} {cfg : Config State Call Reply}
    (h : Reachable (interface R) t₀ cfg) : ∃ hist, TCPServer.Run t₀.2 hist cfg.state.2 :=
  (invariant_serverContract.reachable ⟨[], .start⟩ h).1

/-- The server has been told of the byte. -/
theorem server_run_asking : asking.state.2.log.contains (.dispatch 5 0) = true ∧
    ∃ hist, TCPServer.Run asked.2 hist asking.state.2 :=
  ⟨by decide +kernel, server_run (R := Db.keepWhileBusy) ((Reachable.idle _).play legalPlay_asking)⟩

end Run

/-! ### Events and their addressees -/

section Handles

/-- The code around, while a call of the multiplexer is going on: it does not call again. -/
def nested (R : Db.HookRules) : Interface State Call Reply Entry Db.Act :=
  (interface R).restrict fun ds _ _ => ds ≠ []

/-- A call of this function, made in `t`, has returned in `t'`. -/
def Handles (R : Db.HookRules) (t : State) (e : Entry) (t' : State) : Prop :=
  Relation.ReflTransGen (Step (nested R)) ⟨t, some e.program, []⟩ ⟨t', none, []⟩

variable {s : TCPServer} {Q : TCPServer → Prop} {ds : List Call} {t t' : State} {fd : ℤ}
  {e : Entry}

/-- The server is done: there is nothing left but `OnSecTimer`. -/
def settled (ds : List Call) : Bool := ds.getLast?.all (· == .onSecTimer)

/-- The server waits, as it is, for what it has called, and satisfies `Q` at the end. -/
def waits (s : TCPServer) (Q : TCPServer → Prop) : Contract State Call where
  moment := fun _ => True
  boundary := fun ds t => if settled ds then Q t.2 else t.2 = s
  later := fun _ _ => True

theorem dbCall_waits {α : Type} (p : Db.DbProg α) (ht : t.2 = s) :
    (dbCall p).Safe (nested R) (waits s Q) [] (fun a t' => t'.2 = s ∧ p.MayReturn t.1 a) t :=
  Prog.Safe.frame (I := (· = s)) (fun _ _ _ => trivial) (fun _ _ _ => trivial)
    (fun _ _ => Iff.rfl) p ht

theorem invariant_waits : Invariant (nested R) (waits s Q) where
  refl := fun _ => trivial
  trans := fun _ _ => trivial
  moment := fun _ _ _ => trivial
  entry := by
    rintro ds t e ht ⟨he, hne⟩
    -- what is called in a call is called in it
    have hsettled : ∀ d, settled (d :: ds) = settled ds := fun d => by
      obtain ⟨d', ds, rfl⟩ := List.exists_cons_of_ne_nil hne
      rw [settled, List.getLast?_cons_cons, settled]
    have hdb : ∀ {p : Db.DbProg Unit},
        (dbCall p).Safe (nested R) (waits s Q) ds (fun _ => (waits s Q).boundary ds) t := by
      intro p
      refine (Prog.Safe.frame (I := fun u => if settled ds then Q u else u = s)
        (fun _ _ _ => trivial) (fun _ _ _ => trivial) (fun c t => ?_) p ht).mono fun _ _ h => h.1
      show (if settled (.db c :: ds) then _ else _) ↔ _
      rw [hsettled]
    cases e with
    | onTimer _ => exact (hne he).elim
    | onEvent _ => exact (hne he).elim
    | onDisconnect _ => exact (hne he).elim
    | query pq => exact hdb
    | result c => exact hdb
  act := fun _ _ _ ht _ => ⟨ht, trivial⟩

theorem serve_waits (ht : t.2 = s) {hangUp : Bool}
    (hQ : ∀ x, s.Legal ⟨fd, hangUp, x⟩ → Q (s.onOccurred ⟨fd, hangUp, x⟩)) :
    (serve fd hangUp).Safe (nested R) (waits s Q) [] (fun _ t' => Q t'.2) t := by
  rw [serve, Prog.safe_bind]
  refine ⟨ht, fun r t' _ ht' hr => ?_⟩
  obtain rfl : t'.2 = s := ht'
  cases r with
  | flag b => exact hr.elim
  | outside x => exact ⟨trivial, trivial, hQ x hr⟩

/-- A connection of the database client has this descriptor. -/
def Listed (s : Db.Client) (fd : ℤ) : Prop := ∃ c ∈ s.connections, (s.conn c).fd = fd

/-- `DataProcessing` tells whether a connection has the descriptor. -/
theorem mayReturn_dataProcessing {s : Db.Client} {found : Bool}
    (h : (Db.dataProcessing fd).MayReturn s found) : found = true ↔ Listed s fd := by
  have hlisted : (s.connections.find? fun c => (s.conn c).fd == fd).isSome = true ↔
      Listed s fd := by
    simp [List.find?_isSome, Listed]
  rw [← hlisted]
  rw [Db.dataProcessing, Prog.mayReturn_read_bind] at h
  split at h
  · rename_i hnone
    rw [Prog.mayReturn_pure.mp h, hnone]
    rfl
  · rename_i c hsome
    rw [bind_pure_comp, Prog.mayReturn_map] at h
    obtain ⟨_, -, rfl⟩ := h
    rw [hsome]
    rfl

theorem returns_waits (h : Handles R t e t')
    (hp : e.program.Safe (nested R) (waits t.2 Q) [] (fun _ t' => Q t'.2) t) : Q t'.2 :=
  (invariant_waits (s := t.2) (Q := Q)).returns trivial hp h

theorem serveContext_waits (ht : t.2 = s) {hangUp : Bool}
    (hQ : ∀ x, s.Legal ⟨fd, hangUp, x⟩ → Q (s.onOccurred ⟨fd, hangUp, x⟩))
    (hnone : s.getContext fd = none → Q s) :
    (serveContext fd hangUp).Safe (nested R) (waits s Q) [] (fun _ t' => Q t'.2) t := by
  rw [serveContext, Prog.safe_bind, Prog.safe_read]
  split
  · rename_i hctx
    rw [ht] at hctx
    rw [Prog.safe_pure, ht]
    exact hnone hctx
  · exact serve_waits ht hQ

/-- What an event comes to in a server with this port and these listed descriptors. -/
theorem onEvent_waits (hport : t.2.port? fd = none → Listed t.1 fd → Q t.2)
    (hserved : (t.2.port? fd = none → ¬Listed t.1 fd) →
      ∀ x, t.2.Legal ⟨fd, false, x⟩ → Q (t.2.onEvent fd x)) :
    (onEvent fd).Safe (nested R) (waits t.2 Q) [] (fun _ t' => Q t'.2) t := by
  rw [onEvent, Prog.safe_bind, Prog.safe_read]
  cases hk : t.2.port? fd with
  | some sp => exact serve_waits rfl (hserved fun h => by rw [hk] at h; cases h)
  | none =>
    show (dbCall (Db.dataProcessing fd) >>= _).Safe _ _ _ _ t
    rw [Prog.safe_bind]
    refine (dbCall_waits _ rfl).mono fun found t' ⟨ht', hfound⟩ => ?_
    have hlisted := mayReturn_dataProcessing hfound
    cases found with
    | true =>
      show Q t'.2
      rw [ht']
      exact hport hk (hlisted.mp rfl)
    | false =>
      have hnot : ¬Listed t.1 fd := fun h => Bool.false_ne_true (hlisted.mpr h)
      have hserved' := hserved fun _ => hnot
      refine serveContext_waits ht' hserved' fun hctx => ?_
      -- nothing is there to be served
      have hidle : t.2.onEvent fd ⟨none, ⟨0, false, 0⟩, false, none, ⟨0, 0, false, 0⟩⟩ = t.2 := by
        rw [TCPServer.onEvent, hk]
        dsimp only
        rw [hctx]
      rw [← hidle]
      exact hserved' _ fun sockFd h => by cases h

/-- **An event reaches the server if and only if it is for a port, or the database client has
no connection with its descriptor.**  Else the server is as it was. -/
theorem onEvent_handles (h : Handles R t (.onEvent fd) t') :
    (t.2.port? fd = none ∧ Listed t.1 fd ∧ t'.2 = t.2) ∨
      ((t.2.port? fd = none → ¬Listed t.1 fd) ∧
        ∃ x, t.2.Legal ⟨fd, false, x⟩ ∧ t'.2 = t.2.onEvent fd x) := by
  refine returns_waits (Q := fun s' => (t.2.port? fd = none ∧ Listed t.1 fd ∧ s' = t.2) ∨
    ((t.2.port? fd = none → ¬Listed t.1 fd) ∧
      ∃ x, t.2.Legal ⟨fd, false, x⟩ ∧ s' = t.2.onEvent fd x)) h ?_
  exact onEvent_waits (fun hk hl => .inl ⟨hk, hl, rfl⟩) fun hs x hx => .inr ⟨hs, x, hx, rfl⟩

/-- A client has the descriptor of a connection that the database client has failed on. -/
def shadowed : State :=
  (.ofConnections ⟨10, 5, 5⟩ [⟨5, 0, .error, none⟩], echoServer.onOccurred (accepting 5 true))

theorem handles_shadowed : Handles Db.keepWhileBusy shadowed (.onEvent 5) shadowed :=
  Step.ticks ⟨shadowed, some (Entry.onEvent 5).program, []⟩ 6

/-- What it sends does not reach the server. -/
theorem onEvent_shadowed : (shadowed.2.find? 3 5).isSome = true ∧
    shadowed.2.port? 5 = none ∧ Listed shadowed.1 5 := by
  have hlisted : Listed shadowed.1 5 := ⟨0, List.mem_singleton.mpr rfl, rfl⟩
  rcases onEvent_handles handles_shadowed with ⟨hport, h, -⟩ | ⟨hserved, -⟩
  · exact ⟨by decide +kernel, hport, h⟩
  · exact absurd hlisted (hserved rfl)

end Handles

end Engine
end PeeledOrange
