import PeeledOrange.Server.Footprint
import PeeledOrange.Server.Limit
import Mathlib.Algebra.Group.Action.Defs
import Mathlib.Algebra.Order.BigOperators.Group.List
import Mathlib.Algebra.Order.Ring.Nat

/-!
# Connections do not touch each other

A server handles its connections one after the other, in whatever order their events
come, and all of them share the ports, the timer and the descriptors.  What has become of
a connection is what would have become of it alone: its life is told by what `accept` and
`OnConnect` have made of it and by what `recv` and `OnReadData` have done for it since.
So what has been shown of the runs of one connection holds of every connection of a
server.

## Main definitions

* `TCPServer.greeting`, `TCPServer.handing` — how an input makes a connection, and what it
  hands to one.
* `life` — the life of a connection, as the history of the server tells it.
* `TCPServer.Obeys` — `recv` and the handler keep to their rules at an input.

## Main results

* `touches_onOccurred` — what an event does to the connections.
* `isolated` — **every connection is what its life has made of it.**
* `faithful_of_server` — **no connection of a server loses, repeats or mixes up bytes.**
* `memory_le` — **the memory for all buffers is bounded by the limits of the ports.**
-/

namespace PeeledOrange
namespace Server

/-! ### The life of a connection -/

/-- What a connection is handed: what `recv` returns, what `OnReadData` leaves if it is
called, and when. -/
structure Chunk where
  now : ℕ
  received : Option (List UInt8)
  outcome : Outcome
  deriving DecidableEq, Repr

namespace TCPServer

variable (s : TCPServer) (id : ℕ)

/-- The connection that an input makes for the object with this identity, after
`OnConnect`. -/
def greeting : Input → Option Stream
  | .timer _ => none
  | .event e =>
    if e.hangUp then none
    else
      match s.port? e.fd, e.outside.accepted with
      | some _, some sockFd =>
        if e.outside.added ∧ s.nextId = id then
          some (.connect sockFd (List.replicate recvBufferSize 0) e.outside.connected.requiredSize
            s.nowTime e.outside.connected.timeout e.outside.connected.closeConnection)
        else none
      | _, _ => none

/-- What an input hands to the connection with this identity. -/
def handing : Input → Option Chunk
  | .timer _ => none
  | .event e =>
    if e.hangUp then none
    else
      match s.port? e.fd, s.getContext e.fd with
      | none, some (_, _, c) =>
        if c.id = id then some ⟨s.nowTime, e.outside.received, e.outside.outcome⟩ else none
      | _, _ => none

end TCPServer

/-- The life of a connection goes on with an input. -/
def Stream.liveOn (maxHeaderSize id : ℕ) (st : Option Stream) (e : TCPServer × Input) :
    Option Stream :=
  match st with
  | none => e.1.greeting id e.2
  | some st =>
    match e.1.handing id e.2 with
    | none => some st
    | some t => some (st.receive maxHeaderSize t.now t.received t.outcome)

/-- The life of a connection, as the history of the server tells it. -/
def life (maxHeaderSize id : ℕ) (hist : List (TCPServer × Input)) : Option Stream :=
  hist.foldl (Stream.liveOn maxHeaderSize id) none

theorem life_snoc (maxHeaderSize id : ℕ) (hist : List (TCPServer × Input))
    (e : TCPServer × Input) :
    life maxHeaderSize id (hist ++ [e]) =
      Stream.liveOn maxHeaderSize id (life maxHeaderSize id hist) e := by
  rw [life, List.foldl_append]
  rfl

namespace TCPServer

variable {s s' : TCPServer} {k k' fd fd' : ℤ} {c c' : Connection} {e : Occurred}

/-! ### The ports stay as they are configured -/

/-- The ports, without their connections. -/
def config (s : TCPServer) : OrderedMap ℤ ServerPort :=
  s.serverPorts.map fun _ sp => { sp with connections := .empty }

@[simp] theorem config_modifyConnections (f : OrderedMap ℤ Connection → OrderedMap ℤ Connection) :
    (s.modifyConnections k f).config = s.config := by
  rw [config, modifyConnections, OrderedMap.modify, OrderedMap.map_map]
  refine OrderedMap.map_congr fun x _ => ?_
  split_ifs <;> rfl

@[simp] theorem config_record (x : Event) : (s.record x).config = s.config := rfl

@[simp] theorem config_call (f : Callback) (id : ℕ) : (s.call f id).config = s.config := rfl

@[simp] theorem config_access (id : ℕ) : (s.access id).config = s.config := rfl

@[simp] theorem config_create : s.create.config = s.config := rfl

@[simp] theorem config_destroy (id : ℕ) : (s.destroy id).config = s.config := rfl

@[simp] theorem config_setData (data : ConnectionData) : (s.setData k fd data).config = s.config :=
  config_modifyConnections _

@[simp] theorem config_eraseConnection : (s.eraseConnection k fd).config = s.config := by
  unfold eraseConnection
  split
  · rfl
  · rw [config_destroy, config_modifyConnections]

@[simp] theorem config_assignConnection : (s.assignConnection k fd c).config = s.config := by
  unfold assignConnection
  split
  · rw [config_modifyConnections]
  · rw [config_destroy, config_modifyConnections]

@[simp] theorem config_disconnect : (s.disconnect k c).config = s.config := by
  simp [disconnect]

@[simp] theorem config_processConnection {sp : ServerPort} {x : Outside} :
    (s.processConnection k sp c x).config = s.config := by
  unfold processConnection
  dsimp only
  split_ifs <;> simp

@[simp] theorem config_acceptConnection {sp : ServerPort} {sockFd : ℤ} {x : Outside} :
    (s.acceptConnection k sp sockFd x).config = s.config := by
  unfold acceptConnection
  dsimp only
  split_ifs <;> simp

theorem config_onOccurred : (s.onOccurred e).config = s.config := by
  unfold onOccurred onDisconnect onEvent
  split_ifs
  · split <;> simp
  · split
    · split <;> simp
    · split <;> simp

theorem config_step {i : Input} (h : s.Owned) (hs : s.Step i s') : s'.config = s.config := by
  cases i with
  | timer time =>
    rw [config, (erases_onTimer h hs).serverPorts, OrderedMap.map_map]
    rfl
  | event e =>
    obtain ⟨-, rfl⟩ := hs
    exact config_onOccurred

/-- A port has its header size for good. -/
theorem maxHeaderSize_step {i : Input} (h : s.Owned) (hs : s.Step i s') {sp' : ServerPort}
    (hk : s'.port? k = some sp') : ∃ sp, s.port? k = some sp ∧
      sp.maxHeaderSize = sp'.maxHeaderSize ∧ sp.maxConns = sp'.maxConns := by
  have hconfig : s'.config.find? k = s.config.find? k := by rw [config_step h hs]
  rw [config, config, OrderedMap.find?_map, OrderedMap.find?_map] at hconfig
  rw [port?] at hk
  rw [hk, Option.map_some] at hconfig
  obtain ⟨sp, hsp, heq⟩ := Option.map_eq_some_iff.mp hconfig.symm
  injection heq
  exact ⟨sp, hsp, by assumption, by assumption⟩

/-! ### What an event does to the connections -/

/-- What an input does to the connection that is at an entry afterwards. -/
inductive Touches (s : TCPServer) (i : Input) (k fd : ℤ) (c' : Connection) : Prop
  /-- It was there before, and is handed nothing. -/
  | spared : s.find? k fd = some c' → s.handing c'.id i = none → Touches s i k fd c'
  /-- It was there before, and is handed something. -/
  | handed (c : Connection) (sp : ServerPort) (t : Chunk) : s.find? k fd = some c →
      s.port? k = some sp → c'.id = c.id → s.handing c.id i = some t →
      (connectionProcessing sp.maxHeaderSize t.now c.data t.received
        t.outcome).disconnected = false →
      c'.data = (connectionProcessing sp.maxHeaderSize t.now c.data t.received
        t.outcome).connection → Touches s i k fd c'
  /-- It is new. -/
  | greeted (st : Stream) : c'.id = s.nextId → s.greeting c'.id i = some st →
      st.connection = c'.data → st.isOpen = true → Touches s i k fd c'

theorem find?_disconnect : (s.disconnect k c).find? k' fd' =
    if k' = k ∧ fd' = c.data.sockFd then none else s.find? k' fd' :=
  find?_eraseConnection (s := s.access c.id)

/-- `OnDisconnect`: the connection is gone, and the others are as they were. -/
theorem touches_onDisconnect (hup : e.hangUp = true)
    (hc' : (s.onDisconnect e.fd).find? k fd = some c') : s.Touches (.event e) k fd c' := by
  have hnone : s.handing c'.id (.event e) = none := by
    rw [handing, hup]
    rfl
  refine .spared ?_ hnone
  unfold onDisconnect at hc'
  split at hc'
  · exact hc'
  · rw [find?_disconnect] at hc'
    split_ifs at hc'
    exact hc'

/-- A listening descriptor: there is one more connection, and the others are as they were. -/
theorem touches_acceptConnection (hup : e.hangUp = false) {sp : ServerPort}
    (hk : s.port? e.fd = some sp) {sockFd : ℤ} (hfd : s.Unused sockFd)
    (hacc : e.outside.accepted = some sockFd)
    (hc' : (s.acceptConnection e.fd sp sockFd e.outside).find? k fd = some c') :
    s.Touches (.event e) k fd c' := by
  have hnone : s.handing c'.id (.event e) = none := by
    simp only [handing, hup, hk, Bool.false_eq_true, if_false]
  unfold acceptConnection at hc'
  dsimp only at hc'
  split_ifs at hc' with hadded
  · rw [assignConnection_of_none (s := s.create.call _ _) (hfd.connection e.fd),
      find?_insert (s := s.create.call _ _) hk] at hc'
    split_ifs at hc' with heq
    · cases hc'
      have hgreet : s.greeting s.nextId (.event e) =
          some (.connect sockFd (List.replicate recvBufferSize 0) e.outside.connected.requiredSize
            s.nowTime e.outside.connected.timeout e.outside.connected.closeConnection) := by
        simp only [greeting, hup, hk, hacc, hadded, Bool.false_eq_true, if_false, and_self, if_true]
      exact .greeted _ rfl hgreet rfl rfl
    · exact .spared hc' hnone
  · exact .spared hc' hnone

/-- The descriptor of a connection: it is handed what there is, and kept or gone, and the
others are as they were. -/
theorem touches_processConnection (h : s.Owned) (hup : e.hangUp = false)
    (hk : s.port? e.fd = none) {k₀ : ℤ} {sp : ServerPort}
    (hctx : s.getContext e.fd = some (k₀, sp, c))
    (hc' : ((s.record (.dispatch e.fd c.id)).processConnection k₀ sp c e.outside).find? k fd =
      some c') : s.Touches (.event e) k fd c' := by
  obtain ⟨hport, hc⟩ := getContext_eq_some hctx
  have hhanding : ∀ id, s.handing id (.event e) =
      if c.id = id then some ⟨s.nowTime, e.outside.received, e.outside.outcome⟩ else none := by
    intro id
    simp only [handing, hup, hk, hctx, Bool.false_eq_true, if_false]
  by_cases heq : k = k₀ ∧ fd = e.fd
  · -- its own entry
    obtain ⟨rfl, rfl⟩ := heq
    rw [processConnection_eq (s := s.record _) (h.record _) hc] at hc'
    dsimp only at hc'
    split_ifs at hc' with hcl
    · rw [find?_disconnect, if_pos ⟨rfl, (connectionProcessing_sockFd.trans (h.key hc).1).symm⟩]
        at hc'
      cases hc'
    · have hdata := @find?_setData (s.record (.dispatch e.fd c.id)) k k e.fd e.fd
        (connectionProcessing sp.maxHeaderSize s.nowTime c.data e.outside.received
          e.outside.outcome).connection
      rw [if_pos ⟨rfl, rfl⟩] at hdata
      obtain ⟨c₁, hc₁, rfl⟩ := Option.map_eq_some_iff.mp (hdata.symm.trans hc')
      obtain rfl : c = c₁ := Option.some.inj (hc.symm.trans hc₁)
      refine .handed c sp _ hc hport rfl (by rw [hhanding, if_pos rfl]) ?_ rfl
      exact Bool.eq_false_iff.mpr fun hdis => hcl (disconnected_iff_closes.mp hdis)
  · -- any other one
    have hold : s.find? k fd = some c' := by
      rw [processConnection_eq (s := s.record _) (h.record _) hc] at hc'
      dsimp only at hc'
      have hset : ∀ data, (s.setData k₀ e.fd data).find? k fd = s.find? k fd := fun data => by
        rw [find?_setData, if_neg heq]
      split_ifs at hc' with hcl
      · rw [find?_disconnect] at hc'
        split_ifs at hc' with hgone
        exact (hset _).symm.trans hc'
      · exact (hset _).symm.trans hc'
    refine .spared hold ?_
    rw [hhanding, if_neg]
    intro hid
    obtain ⟨rfl, rfl⟩ := h.object hc hold hid
    exact heq ⟨rfl, rfl⟩

/-- **What an event does to the connections.** -/
theorem touches_onOccurred (h : s.Owned) (hlegal : s.Legal e)
    (hc' : (s.onOccurred e).find? k fd = some c') : s.Touches (.event e) k fd c' := by
  cases hup : e.hangUp with
  | true =>
    rw [onOccurred, if_pos hup] at hc'
    exact touches_onDisconnect hup hc'
  | false =>
    rw [onOccurred, hup, if_neg Bool.false_ne_true, onEvent] at hc'
    cases hk : s.port? e.fd with
    | some sp =>
      rw [hk] at hc'
      dsimp only at hc'
      cases hacc : e.outside.accepted with
      | none =>
        rw [hacc] at hc'
        refine .spared hc' ?_
        simp only [handing, hup, hk, Bool.false_eq_true, if_false]
      | some sockFd =>
        rw [hacc] at hc'
        exact touches_acceptConnection hup hk (hlegal sockFd hacc) hacc hc'
    | none =>
      rw [hk] at hc'
      dsimp only at hc'
      cases hctx : s.getContext e.fd with
      | none =>
        rw [hctx] at hc'
        refine .spared hc' ?_
        simp only [handing, hup, hk, hctx, Bool.false_eq_true, if_false]
      | some r =>
        rw [hctx] at hc'
        exact touches_processConnection h hup hk hctx hc'

/-- The timer hands nothing to a connection: it is gone, or as it was. -/
theorem touches_step {i : Input} (h : s.Owned) (hs : s.Step i s')
    (hc' : s'.find? k fd = some c') : s.Touches i k fd c' := by
  cases i with
  | timer time =>
    rw [(erases_onTimer h hs).find?] at hc'
    split_ifs at hc'
    exact .spared hc' rfl
  | event e =>
    obtain ⟨hlegal, rfl⟩ := hs
    exact touches_onOccurred h hlegal hc'

/-! ### Lives -/

theorem takes_of_greeting {id : ℕ} {st : Stream} (h : s.greeting id (.event e) = some st) :
    s.nextId = id ∧ ∃ sockFd, s.Takes e sockFd := by
  rw [greeting] at h
  by_cases hup : e.hangUp = true
  · rw [if_pos hup] at h
    cases h
  · rw [if_neg hup] at h
    split at h
    · rename_i hport hacc
      split_ifs at h with hadded
      exact ⟨hadded.2, _, Bool.eq_false_iff.mpr hup, by rw [hport]; exact Option.some_ne_none _,
        hacc, hadded.1⟩
    · cases h

/-- A connection that is made is the next one. -/
theorem greeting_eq_none {i : Input} {id : ℕ} (h : s.Owned) (hs : s.Step i s')
    (hid : s'.nextId ≤ id) : s.nextId ≤ id ∧ s.greeting id i = none := by
  cases i with
  | timer time =>
    rw [(erases_onTimer h hs).nextId] at hid
    exact ⟨hid, rfl⟩
  | event e =>
    obtain ⟨hlegal, rfl⟩ := hs
    have hfollows := follows_onOccurred h hlegal
    rw [hfollows.nextId] at hid
    have hle : s.nextId ≤ (s.effect e).next s.nextId := by
      cases s.effect e <;> simp [Effect.next]
    refine ⟨hle.trans hid, ?_⟩
    cases hgreeting : s.greeting id (.event e) with
    | none => rfl
    | some st =>
      -- it would have taken the next identity
      obtain ⟨rfl, sockFd, htakes⟩ := takes_of_greeting hgreeting
      rw [effect_eq_accept_iff.mpr ⟨rfl, htakes⟩] at hid
      exact absurd hid (Nat.not_succ_le_self _)

/-- Every connection is what its life has made of it, and its life satisfies `Q`. -/
structure Lives (Q : ℕ → Stream → Prop) (hist : List (TCPServer × Input)) (s : TCPServer) :
    Prop where
  life : ∀ {k fd c sp}, s.find? k fd = some c → s.port? k = some sp →
    ∃ st, life sp.maxHeaderSize c.id hist = some st ∧ st.connection = c.data ∧
      st.isOpen = true ∧ Q sp.maxHeaderSize st
  fresh : ∀ m id, s.nextId ≤ id → Server.life m id hist = none

theorem Lives.of_initial {Q : ℕ → Stream → Prop} (h : s.Initial) : Lives Q [] s where
  life := fun {k fd c sp} hc _ => by
    rw [h.connections] at hc
    cases hc
  fresh := fun _ _ _ => rfl

/-- Lives go on with an input. -/
theorem Lives.step {Q : ℕ → Stream → Prop} {hist : List (TCPServer × Input)} {i : Input}
    (hl : Lives Q hist s) (h : s.Owned) (hs : s.Step i s')
    (hgreet : ∀ m id st, s.greeting id i = some st → Q m st)
    (hreceive : ∀ k fd c sp t st, s.find? k fd = some c → s.port? k = some sp →
      s.handing c.id i = some t → st.connection = c.data → st.isOpen = true →
      Q sp.maxHeaderSize st →
      (st.receive sp.maxHeaderSize t.now t.received t.outcome).isOpen = true →
      Q sp.maxHeaderSize (st.receive sp.maxHeaderSize t.now t.received t.outcome)) :
    Lives Q (hist ++ [(s, i)]) s' where
  life := by
    intro k fd c' sp' hc' hk'
    obtain ⟨sp, hk, hsp, -⟩ := maxHeaderSize_step h hs hk'
    rw [← hsp, life_snoc]
    cases touches_step h hs hc' with
    | spared hc hnone =>
      obtain ⟨st, hst, hrest⟩ := hl.life hc hk
      refine ⟨st, ?_, hrest⟩
      rw [hst, Stream.liveOn]
      simp only [hnone]
    | handed c sp₁ t hc hk₁ hid hhanding hdis hdata =>
      obtain rfl : sp = sp₁ := Option.some.inj (hk.symm.trans hk₁)
      obtain ⟨st, hst, hconn, hopen, hQ⟩ := hl.life hc hk
      have hopen' : (st.receive sp.maxHeaderSize t.now t.received t.outcome).isOpen = true := by
        rw [Stream.receive, hconn, hdis]
        rfl
      refine ⟨_, ?_, ?_, hopen', hreceive k fd c sp t st hc hk hhanding hconn hopen hQ hopen'⟩
      · rw [hid, hst, Stream.liveOn]
        simp only [hhanding]
      · rw [hdata, Stream.receive, hconn]
    | greeted st hid hgreeting hconn hopen =>
      refine ⟨st, ?_, hconn, hopen, hgreet _ _ st hgreeting⟩
      rw [hl.fresh _ _ (Nat.le_of_eq hid.symm), Stream.liveOn]
      exact hgreeting
  fresh := by
    intro m id hid
    obtain ⟨hold, hnone⟩ := greeting_eq_none h hs hid
    rw [life_snoc, hl.fresh m id hold, Stream.liveOn]
    exact hnone

/-- `recv` and the handler keep to their rules at an input. -/
structure Obeys (H : HandlerRule) (s : TCPServer) (i : Input) : Prop where
  connect : ∀ id st, s.greeting id i = some st → H.connect st.requested
  accepts : ∀ k fd c t, s.find? k fd = some c → s.handing c.id i = some t →
    c.data.Accepts (t.received.getD [])
  read : ∀ k fd c t, s.find? k fd = some c → s.handing c.id i = some t →
    c.data.Calls (t.received.getD []) →
    H.read (c.data.input.size + (t.received.getD []).length) t.outcome

/-- What is made of a connection at the start, and by each step, is made of all. -/
theorem Run.lives {H : HandlerRule} {Q : ℕ → Stream → Prop} {s₀ : TCPServer}
    {hist : List (TCPServer × Input)} (h : s₀.Run hist s) (h₀ : s₀.Initial)
    (hobeys : ∀ e ∈ hist, e.1.Obeys H e.2)
    (hgreet : ∀ (t : TCPServer) i id m st, t.Obeys H i → t.greeting id i = some st → Q m st)
    (hreceive : ∀ m now received o st, Q m st → st.isOpen = true →
      st.connection.Accepts (received.getD []) →
      (st.connection.Calls (received.getD []) →
        H.read (st.connection.input.size + (received.getD []).length) o) →
      (st.receive m now received o).isOpen = true → Q m (st.receive m now received o)) :
    Lives Q hist s := by
  induction h with
  | start => exact .of_initial h₀
  | @step hist s s' i hrun hs ih =>
    have hlast := hobeys (s, i) (List.mem_append_right _ List.mem_cons_self)
    refine (ih fun e he => hobeys e (List.mem_append_left _ he)).step (Run.owned hrun h₀) hs
      (fun m id st hst => hgreet s i id m st hlast hst) ?_
    intro k fd c sp t st hc hk hhanding hconn hopen hQ hopen'
    refine hreceive _ _ _ _ st hQ hopen ?_ ?_ hopen'
    · rw [hconn]
      exact hlast.accepts k fd c t hc hhanding
    · rw [hconn]
      exact hlast.read k fd c t hc hhanding

theorem connects_of_greeting {i : Input} {id : ℕ} {st : Stream} (h : s.greeting id i = some st) :
    ∃ sockFd requiredSize now timeout closeConnection, st = .connect sockFd
      (List.replicate recvBufferSize 0) requiredSize now timeout closeConnection := by
  cases i with
  | timer time => cases h
  | event e =>
    rw [greeting] at h
    by_cases hup : e.hangUp = true
    · rw [if_pos hup] at h
      cases h
    · rw [if_neg hup] at h
      split at h
      · split_ifs at h
        cases h
        exact ⟨_, _, _, _, _, rfl⟩
      · cases h

/-- **Every connection is what its life has made of it**: what has happened to the other
connections in the meantime does not matter. -/
theorem isolated {s₀ : TCPServer} {hist : List (TCPServer × Input)} (h : s₀.Run hist s)
    (h₀ : s₀.Initial) {sp : ServerPort} (hc : s.find? k fd = some c) (hk : s.port? k = some sp) :
    ∃ st, life sp.maxHeaderSize c.id hist = some st ∧ st.connection = c.data ∧
      st.isOpen = true := by
  have hlives : Lives (fun _ _ => True) hist s := by
    clear hc hk
    induction h with
    | start => exact .of_initial h₀
    | step i hrun hs ih =>
      exact ih.step (Run.owned hrun h₀) hs (fun _ _ _ _ => trivial)
        fun _ _ _ _ _ _ _ _ _ _ _ _ _ => trivial
  obtain ⟨st, hst, hconn, hopen, -⟩ := hlives.life hc hk
  exact ⟨st, hst, hconn, hopen⟩

/-- Two clients connect. -/
def waiting : TCPServer :=
  (echoServer.onOccurred (accepting 5 true)).onOccurred (accepting 6 true)

/-- A byte comes from the first. -/
def attended : TCPServer := waiting.onOccurred (reading 5 false)

/-- What has happened to it. -/
def attendedHistory : List (TCPServer × Input) :=
  [(echoServer, .event (accepting 5 true)),
    (echoServer.onOccurred (accepting 5 true), .event (accepting 6 true)),
    (waiting, .event (reading 5 false))]

theorem run_attended : echoServer.Run attendedHistory attended := by
  have hfirst : echoServer.Step (.event (accepting 5 true)) _ :=
    ⟨legal_accepting (by decide) rfl rfl, rfl⟩
  have hsecond : (echoServer.onOccurred (accepting 5 true)).Step (.event (accepting 6 true))
      waiting := ⟨legal_accepting (by decide) rfl rfl, rfl⟩
  have hread : waiting.Step (.event (reading 5 false)) attended := ⟨legal_reading, rfl⟩
  exact ((History.Run.start.step _ hfirst).step _ hsecond).step _ hread

/-- The second connection is as `OnConnect` has left it. -/
theorem isolated_attended : ∃ c, attended.find? 3 6 = some c ∧
    ∃ st, life 4096 c.id attendedHistory = some st ∧ st.connection = c.data ∧
      st.isOpen = true := by
  have hc : attended.find? 3 6 = some _ := rfl
  have hk : attended.port? 3 = some _ := rfl
  exact ⟨_, hc, isolated run_attended initial_echoServer hc hk⟩

/-- The life of every connection of a server is a run of a connection. -/
theorem Run.lives_run {H : HandlerRule} {s₀ : TCPServer} {hist : List (TCPServer × Input)}
    (h : s₀.Run hist s) (h₀ : s₀.Initial) (hobeys : ∀ e ∈ hist, e.1.Obeys H e.2) :
    Lives (fun m st => Server.Run H m st) hist s := by
  refine h.lives h₀ hobeys (fun t i id m st ht hst => ?_)
    fun m now received o st hrun hopen ha ho _ => hrun.receive now received o hopen ha ho
  have hreq := ht.connect id st hst
  obtain ⟨sockFd, requiredSize, now, timeout, closeConnection, rfl⟩ := connects_of_greeting hst
  exact .connect sockFd _ requiredSize now timeout closeConnection List.length_replicate hreq

/-- **No connection of a server loses, repeats or mixes up bytes.**  The bytes that it has
received are those its handler has used up and those in its buffer. -/
theorem faithful_of_server {s₀ : TCPServer} {hist : List (TCPServer × Input)} (h : s₀.Run hist s)
    (h₀ : s₀.Initial) (hobeys : ∀ e ∈ hist, e.1.Obeys asksForMore e.2) {sp : ServerPort}
    (hc : s.find? k fd = some c) (hk : s.port? k = some sp) :
    ∃ st, life sp.maxHeaderSize c.id hist = some st ∧ st.connection = c.data ∧
      st.Faithful sp.maxHeaderSize := by
  obtain ⟨st, hst, hconn, hopen, hrun⟩ := (h.lives_run h₀ hobeys).life hc hk
  exact ⟨st, hst, hconn, (hrun.intact hopen).faithful _⟩

theorem connect_of_accepting {sockFd : ℤ} {added : Bool} {id : ℕ} {st : Stream}
    (h : s.greeting id (.event (accepting sockFd added)) = some st) :
    st.requested = 0 ∧ st.connection.closeConnection = false := by
  have hup : (accepting sockFd added).hangUp ≠ true := Bool.false_ne_true
  rw [greeting, if_neg hup] at h
  split at h
  · split_ifs at h
    cases h
    exact ⟨rfl, rfl⟩
  · cases h

theorem handing_accepting {sockFd : ℤ} {added : Bool} {id : ℕ} (hport : s.port? 3 ≠ none) :
    s.handing id (.event (accepting sockFd added)) = none := by
  have hup : (accepting sockFd added).hangUp ≠ true := Bool.false_ne_true
  rw [handing, if_neg hup]
  split
  · exact absurd (by assumption) hport
  · rfl

theorem handing_reading {closeConnection : Bool} {id : ℕ} {t : Chunk}
    (h : s.handing id (.event (reading fd closeConnection)) = some t) :
    t.received = some [1] ∧ t.outcome = ⟨1, 0, closeConnection, 60⟩ := by
  have hup : (reading fd closeConnection).hangUp ≠ true := Bool.false_ne_true
  rw [handing, if_neg hup] at h
  split at h
  · split_ifs at h
    cases h
    exact ⟨rfl, rfl⟩
  · cases h

/-- A client connects, and the handler asks for nothing. -/
theorem obeys_accepting {H : HandlerRule} {sockFd : ℤ} {added : Bool} (hconnect : H.connect 0)
    (hport : s.port? 3 ≠ none) : s.Obeys H (.event (accepting sockFd added)) where
  connect := fun id st hst => by
    rw [(connect_of_accepting hst).1]
    exact hconnect
  accepts := fun k fd c t _ ht => by
    rw [handing_accepting hport] at ht
    cases ht
  read := fun k fd c t _ ht => by
    rw [handing_accepting hport] at ht
    cases ht

theorem obeys_attended {H : HandlerRule} (hconnect : H.connect 0)
    (hread : H.read 1 ⟨1, 0, false, 60⟩) : ∀ e ∈ attendedHistory, e.1.Obeys H e.2 := by
  have hempty : ∀ {k fd c}, waiting.find? k fd = some c →
      c.data.input.size = 0 ∧ c.data.input.capacity = recvBufferSize := by
    intro k fd c hc
    have hall : ∀ e ∈ waiting.serverPorts.entries, ∀ d ∈ e.2.connections.entries,
        d.2.data.input.size = 0 ∧ d.2.data.input.capacity = recvBufferSize := by decide +kernel
    obtain ⟨sp, hk, hfind⟩ := Option.bind_eq_some_iff.mp hc
    exact hall _ (OrderedMap.find?_eq_some_iff.mp hk) _ (OrderedMap.find?_eq_some_iff.mp hfind)
  intro e he
  simp only [attendedHistory, List.mem_cons, List.not_mem_nil, or_false] at he
  rcases he with rfl | rfl | rfl
  · exact obeys_accepting hconnect (Option.some_ne_none _)
  · exact obeys_accepting hconnect (Option.some_ne_none _)
  · refine ⟨fun id st hst => ?_, fun k fd c t hc ht => ?_, fun k fd c t hc ht _ => ?_⟩
    · cases hst
    · obtain ⟨hsize, hcap⟩ := hempty hc
      refine ⟨?_, ?_⟩
      · rw [(handing_reading ht).1, ConnectionData.room, hsize, hcap]
        decide
      · rw [(handing_reading ht).1, hsize]
        decide
    · obtain ⟨hbs, ho⟩ := handing_reading ht
      rw [hbs, ho, (hempty hc).1]
      exact hread

/-- The first connection has received a byte, and its handler has used it up. -/
theorem faithful_attended : ∃ c, attended.find? 3 5 = some c ∧
    ∃ st, life 4096 c.id attendedHistory = some st ∧ st.connection = c.data ∧
      st.Faithful 4096 := by
  have hc : attended.find? 3 5 = some _ := rfl
  have hk : attended.port? 3 = some _ := rfl
  have hobeys : ∀ e ∈ attendedHistory, e.1.Obeys asksForMore e.2 :=
    obeys_attended trivial ⟨Nat.le_refl 1, by decide, .inl rfl⟩
  exact ⟨_, hc, faithful_of_server run_attended initial_echoServer hobeys hc hk⟩

/-! ### The memory -/

/-- The memory for the buffers of all connections. -/
def memory (s : TCPServer) : ℕ :=
  (s.serverPorts.entries.map fun e =>
    (e.2.connections.entries.map fun d => d.2.data.input.capacity).sum).sum

/-- What the ports are configured for, with requests of this size. -/
def allowance (s : TCPServer) (request : ℕ) : ℕ :=
  (s.serverPorts.entries.map fun e =>
    e.2.maxConns * (max e.2.maxHeaderSize request + 2 * recvBufferSize)).sum

end TCPServer

/-- The handler asks for no more than this. -/
structure HandlerRule.AtMost (H : HandlerRule) (request : ℕ) : Prop where
  connect : ∀ n, H.connect n → n ≤ request
  read : ∀ n o, H.read n o → o.requiredSize ≤ request

/-- A connection that is kept asks for what it has asked for, or what the handler asks for. -/
theorem Stream.requiredSize_receive {s : Stream} {o : Outcome} {received : Option (List UInt8)}
    {maxHeaderSize now : ℕ} (ha : s.connection.Accepts (received.getD []))
    (hopen : (s.receive maxHeaderSize now received o).isOpen = true) :
    (s.receive maxHeaderSize now received o).connection.requiredSize = s.connection.requiredSize ∨
      s.connection.Calls (received.getD []) ∧
        (s.receive maxHeaderSize now received o).connection.requiredSize = o.requiredSize := by
  obtain ⟨bs, rfl, hbs, hcase⟩ := Stream.receive_open maxHeaderSize now hopen
  simp only [Option.getD_some] at ha ⊢
  rcases hcase with hw | hc
  · rw [Stream.receive_wait maxHeaderSize now ha hbs hw]
    exact .inl rfl
  · refine .inr ⟨hc, ?_⟩
    have hwait : ¬((s.connection.receive now bs).requiredSize ≠ 0 ∧
        (s.connection.receive now bs).requiredSize >
          (s.connection.receive now bs).input.size) := by
      rw [ConnectionData.receive_size ha]
      exact hc.2
    show (connectionProcessing _ _ _ _ _).connection.requiredSize = _
    rw [connectionProcessing_call maxHeaderSize now hbs hwait]
    split_ifs
    · rfl
    · rfl
    · exact ConnectionData.compact_requiredSize

namespace TCPServer

variable {s : TCPServer}

/-- **The memory for all buffers is bounded by the limits of the ports**, if these are kept
and the handler is modest: by the larger of the header size and the largest request, and two
receive buffers, for each connection that a port is configured for. -/
theorem memory_le {H : HandlerRule} (hH : H.InRange) {request : ℕ} (hrequest : H.AtMost request)
    {s₀ : TCPServer} {hist : List (TCPServer × Input)} (h : s₀.Run hist s) (h₀ : s₀.Initial)
    (hobeys : ∀ e ∈ hist, e.1.Obeys H e.2) (hroom : ∀ e ∈ hist, e.1.HasRoom e.2) :
    s.memory ≤ s.allowance request := by
  have hlives : Lives (fun m st => st.Frugal m ∧ st.connection.requiredSize ≤ request) hist s := by
    refine h.lives h₀ hobeys (fun t i id m st ht hst => ?_) ?_
    · have hreq := hrequest.connect _ (ht.connect id st hst)
      obtain ⟨sockFd, requiredSize, now, timeout, closeConnection, rfl⟩ := connects_of_greeting hst
      exact ⟨.connect sockFd _ requiredSize now timeout closeConnection, hreq⟩
    · rintro m now received o st ⟨hfrugal, hreq⟩ - ha ho hopen
      refine ⟨hfrugal.receive now ha (fun hc => hH _ _ (ho hc)) hopen, ?_⟩
      rcases Stream.requiredSize_receive ha hopen with heq | ⟨hc, heq⟩
      · rw [heq]
        exact hreq
      · rw [heq]
        exact hrequest.read _ _ (ho hc)
  have hlimited : s.Limited := by
    clear hlives hobeys
    induction h with
    | start => exact h₀.limited
    | @step hist s s' i hrun hs ih =>
      have hlast := hroom (s, i) (List.mem_append_right _ List.mem_cons_self)
      exact (Step.limited_iff (Run.owned hrun h₀)
        (ih fun e he => hroom e (List.mem_append_left _ he)) hs).mpr hlast
  refine List.sum_le_sum fun e he => ?_
  obtain ⟨k, sp⟩ := e
  have hk : s.port? k = some sp := OrderedMap.find?_eq_some_iff.mpr he
  -- each buffer is bounded, and there are no more than the limit
  have hport : (sp.connections.entries.map fun d => d.2.data.input.capacity).sum ≤
      sp.connections.entries.length * (max sp.maxHeaderSize request + 2 * recvBufferSize) := by
    have hle := List.sum_le_card_nsmul (sp.connections.entries.map fun d => d.2.data.input.capacity)
      (max sp.maxHeaderSize request + 2 * recvBufferSize) ?_
    · rwa [List.length_map, smul_eq_mul] at hle
    · intro n hn
      obtain ⟨⟨fd, c⟩, hc, rfl⟩ := List.mem_map.mp hn
      have hfind : s.find? k fd = some c := by
        rw [find?, hk, Option.bind_some]
        exact OrderedMap.find?_eq_some_iff.mpr hc
      obtain ⟨st, -, hconn, -, hfrugal, hreq⟩ := hlives.life hfind hk
      rw [Stream.Frugal, hconn] at hfrugal
      rw [hconn] at hreq
      exact hfrugal.trans (Nat.add_le_add_right (max_le_max_left _ hreq) _)
  exact hport.trans (Nat.mul_le_mul_right _ (hlimited k sp hk))

/-- The handler asks for nothing. -/
def undemanding : HandlerRule where
  connect := fun requiredSize => requiredSize = 0
  read := fun n o => o.pos ≤ n ∧ o.requiredSize = 0

/-- Two connections hold two receive buffers each at most, and a hundred are allowed for. -/
theorem memory_attended : attended.memory ≤ attended.allowance 0 ∧
    attended.allowance 0 = 614400 := by
  have hrange : undemanding.InRange := fun n o ⟨hpos, hreq⟩ => ⟨hpos, by rw [hreq]; decide⟩
  have hmost : undemanding.AtMost 0 :=
    ⟨fun n hn => Nat.le_of_eq hn, fun n o ho => Nat.le_of_eq ho.2⟩
  have hobeys : ∀ e ∈ attendedHistory, e.1.Obeys undemanding e.2 :=
    obeys_attended rfl ⟨Nat.le_refl 1, rfl⟩
  refine ⟨memory_le hrange hmost run_attended initial_echoServer hobeys ?_, by decide +kernel⟩
  intro e he
  simp only [attendedHistory, List.mem_cons, List.not_mem_nil, or_false] at he
  rcases he with rfl | rfl | rfl
  · rintro sockFd sp - hsp
    obtain rfl : _ = sp := Option.some.inj hsp
    decide
  · rintro sockFd sp - hsp
    obtain rfl : _ = sp := Option.some.inj hsp
    decide
  · rintro sockFd sp htakes
    exact absurd rfl htakes.2.1

end TCPServer

end Server
end PeeledOrange
