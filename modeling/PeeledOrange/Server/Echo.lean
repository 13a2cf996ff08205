import PeeledOrange.Server.Opening

/-!
# The echo server

`EchoServer` sends back what is in the buffer whenever bytes have come.  It never says how
many bytes it has used up, so they all stay in the buffer: with each chunk everything is
sent again that has come so far, and once that is more than `max_header_size` the
connection is closed.

## Main definitions

* `EchoServer.onReadData` — what is sent, and what is left in the connection.
* `EchoRun` — the runs of a connection of the echo server.
* `prefixes` — the bytes up to each chunk.

## Main results

* `sent_of_echoRun` — **with each chunk all bytes so far are sent, until they are more than
  fit a header.**
* `echoes_iff` — **a client gets back what it has sent if and only if that was one chunk.**
* `echo_of_server` — the connections of an echo server are such runs.
-/

namespace PeeledOrange
namespace Server

/-! ### What is sent -/

/-- `OnReadData` of `EchoServer`: what it passes to `SendData`, and what it leaves in the
connection, which is what there was. -/
def EchoServer.onReadData (cd : ConnectionData) : List UInt8 × Outcome :=
  (cd.input.data.take cd.input.size,
    ⟨cd.input.pos, cd.requiredSize, cd.closeConnection, cd.timeout⟩)

/-- The connection, when `OnReadData` is called. -/
def ConnectionData.offered (cd : ConnectionData) (now : ℕ) (bs : List UInt8) : ConnectionData :=
  (cd.receive now bs).clearRequired

/-- What `OnReadData` of `EchoServer` leaves, if these bytes come. -/
def ConnectionData.echoed (cd : ConnectionData) (now : ℕ) (bs : List UInt8) : Outcome :=
  (EchoServer.onReadData (cd.offered now bs)).2

/-- The states of a connection of the echo server, with the chunks that have come and what
has been sent. -/
inductive EchoRun (maxHeaderSize : ℕ) :
    List (List UInt8) → Stream → List (List UInt8) → Prop
  | connect (sockFd : ℤ) (now timeout : ℕ) : EchoRun maxHeaderSize []
      (.connect sockFd (List.replicate recvBufferSize 0) 0 now timeout false) []
  | receive {chunks : List (List UInt8)} {s : Stream} {sent : List (List UInt8)}
      {bs : List UInt8} (now : ℕ) : EchoRun maxHeaderSize chunks s sent → s.isOpen = true →
      bs ≠ [] → s.connection.Accepts bs →
      EchoRun maxHeaderSize (chunks ++ [bs])
        (s.receive maxHeaderSize now (some bs) (s.connection.echoed now bs))
        (sent ++ (connectionProcessing maxHeaderSize now s.connection (some bs)
          (s.connection.echoed now bs)).view.toList)

/-- The bytes up to each chunk. -/
def prefixes (chunks : List (List UInt8)) : List (List UInt8) :=
  (List.range chunks.length).map fun i => (chunks.take (i + 1)).flatten

theorem prefixes_append (chunks : List (List UInt8)) (bs : List UInt8) :
    prefixes (chunks ++ [bs]) = prefixes chunks ++ [(chunks ++ [bs]).flatten] := by
  have hlast : (chunks ++ [bs]).take (chunks.length + 1) = chunks ++ [bs] :=
    List.take_of_length_le (by simp)
  rw [prefixes, List.length_append, List.length_singleton, List.range_succ, List.map_append,
    List.map_singleton, hlast, prefixes]
  congr 1
  refine List.map_congr_left fun i hi => ?_
  rw [List.take_append_of_le_length (List.mem_range.mp hi)]

/-! ### The runs -/

/-- All bytes that have come are in the buffer, and there is room for more. -/
structure Stream.Echoing (s : Stream) (whole : List UInt8) : Prop extends Stream.Intact s where
  received : s.received = whole
  consumed : s.consumed = []
  asked : s.requested = 0
  closeConnection : s.connection.closeConnection = false
  room : s.connection.input.size < s.connection.input.capacity

section Step

variable {s : Stream} {whole bs : List UInt8} (maxHeaderSize : ℕ) {now : ℕ}

theorem Stream.Echoing.buffer (h : s.Echoing whole) : s.connection.bytes = whole := by
  have hbytes := h.bytes
  rw [h.consumed, h.received] at hbytes
  exact hbytes.symm

/-- The handler is called at every chunk. -/
theorem Stream.Echoing.calls (h : s.Echoing whole) (hbs : bs ≠ []) : s.connection.Calls bs :=
  ⟨hbs, fun hw => hw.1 (h.requested.trans h.asked)⟩

/-- It leaves no trace. -/
theorem Stream.Echoing.echoed (h : s.Echoing whole) : s.connection.echoed now bs =
    ⟨0, 0, false, s.connection.timeout⟩ := by
  have hpos : (s.connection.offered now bs).input.pos = 0 := h.sound.pos
  have hclose : (s.connection.offered now bs).closeConnection = false := h.closeConnection
  rw [ConnectionData.echoed, EchoServer.onReadData, hpos, hclose]
  rfl

theorem Stream.Echoing.left_size (h : s.Echoing whole) (ha : s.connection.Accepts bs) :
    (s.connection.left now bs (s.connection.echoed now bs)).input.size = (whole ++ bs).length := by
  rw [ConnectionData.left_size ha (by rw [h.echoed]; exact Nat.zero_le _), h.echoed,
    List.length_append, ← h.buffer, ConnectionData.length_bytes h.sound]
  rfl

/-- All bytes are handed over, and the connection is closed if they do not fit a header. -/
theorem Stream.Echoing.processed (h : s.Echoing whole) (ha : s.connection.Accepts bs)
    (hbs : bs ≠ []) :
    (connectionProcessing maxHeaderSize now s.connection (some bs)
      (s.connection.echoed now bs)).view = some (whole ++ bs) ∧
    ((connectionProcessing maxHeaderSize now s.connection (some bs)
      (s.connection.echoed now bs)).disconnected = true ↔
        maxHeaderSize < (whole ++ bs).length) := by
  rw [connectionProcessing_handle maxHeaderSize now h.sound ha hbs (h.calls hbs).2,
    h.left_size ha, h.buffer, h.echoed, if_neg Bool.false_ne_true]
  split_ifs with hmore
  · exact ⟨rfl, iff_of_true rfl hmore.2⟩
  · exact ⟨rfl, iff_of_false (fun h => by cases h) fun hlt => hmore ⟨rfl, hlt⟩⟩

/-- A connection that is kept holds all bytes, and has room for more. -/
theorem Stream.Echoing.receive (h : s.Echoing whole) (ha : s.connection.Accepts bs)
    (hbs : bs ≠ [])
    (hopen : (s.receive maxHeaderSize now (some bs) (s.connection.echoed now bs)).isOpen = true) :
    (s.receive maxHeaderSize now (some bs) (s.connection.echoed now bs)).Echoing
      (whole ++ bs) := by
  have hread : asksForMore.read (s.connection.input.size + bs.length)
      (s.connection.echoed now bs) := by
    rw [h.echoed]
    exact ⟨Nat.zero_le _, Nat.two_pow_pos 31, .inl rfl⟩
  have hfit := ConnectionData.left_le_nextCapacity now ha hread
  obtain ⟨hpos, -⟩ := hread
  have hsize := ha.size
  rw [(Stream.receive_handle maxHeaderSize now h.sound ha (h.calls hbs) hopen).1]
  refine ⟨h.toIntact.handle ha now hpos hfit, ?_, ?_, ?_, ?_, ?_⟩
  · show s.received ++ bs = whole ++ bs
    rw [h.received]
  · show s.consumed ++ (s.connection.bytes ++ bs).take (s.connection.echoed now bs).pos = []
    rw [h.consumed, h.echoed]
    rfl
  · show (s.connection.echoed now bs).requiredSize = 0
    rw [h.echoed]
  · show (s.connection.left now bs (s.connection.echoed now bs)).compact.closeConnection = false
    have hclose : (s.connection.echoed now bs).closeConnection = false := by rw [h.echoed]
    unfold ConnectionData.compact
    split
    · exact hclose
    · exact hclose
  · -- the capacity is for what is left
    show (s.connection.left now bs (s.connection.echoed now bs)).compact.input.size <
      (s.connection.left now bs (s.connection.echoed now bs)).compact.input.capacity
    have hlt : (whole ++ bs).length < 2 ^ 31 := by
      rw [← h.buffer, List.length_append, ConnectionData.length_bytes h.sound]
      exact hsize
    rw [ConnectionData.compact_size, ConnectionData.compact_capacity, ConnectionData.nextCapacity,
      h.left_size ha, ConnectionData.left_requiredSize, h.echoed, if_neg (fun hne => hne rfl)]
    exact lt_requiredCapacity hlt

end Step

/-- What holds of every run: what was sent, and whether the connection is open. -/
theorem EchoRun.invariant {maxHeaderSize : ℕ} {chunks sent : List (List UInt8)} {s : Stream}
    (h : EchoRun maxHeaderSize chunks s sent) : sent = prefixes chunks ∧
      (s.isOpen = true ↔ chunks.flatten.length ≤ maxHeaderSize) ∧
      (s.isOpen = true → s.Echoing chunks.flatten) := by
  induction h with
  | connect sockFd now timeout =>
    refine ⟨rfl, iff_of_true rfl (Nat.zero_le _), fun _ => ?_⟩
    exact ⟨.connect sockFd 0 now timeout false List.length_replicate, rfl, rfl, rfl, rfl,
      Nat.zero_lt_succ _⟩
  | @receive chunks s sent bs now _ hs hbs ha ih =>
    obtain ⟨hsent, -, hecho⟩ := ih
    obtain ⟨hview, hdis⟩ := (hecho hs).processed maxHeaderSize ha hbs
    have hflat : (chunks ++ [bs]).flatten = chunks.flatten ++ bs := by simp
    rw [hview, prefixes_append, hflat, hsent]
    refine ⟨rfl, ?_, (hecho hs).receive maxHeaderSize ha hbs⟩
    rw [Stream.receive, Bool.not_eq_true', ← Bool.not_eq_true, hdis, Nat.not_lt]

/-- **With each chunk all bytes so far are sent**, and the connection is open until they are
more than fit a header. -/
theorem sent_of_echoRun {maxHeaderSize : ℕ} {chunks sent : List (List UInt8)} {s : Stream}
    (h : EchoRun maxHeaderSize chunks s sent) : sent = prefixes chunks ∧
      (s.isOpen = true ↔ chunks.flatten.length ≤ maxHeaderSize) :=
  ⟨h.invariant.1, h.invariant.2.1⟩

/-- The client sends 1, and then 2 and 3, which is more than fits a header. -/
theorem sent_twoChunks : ∃ s : Stream, EchoRun 2 [[1], [2, 3]] s [[1], [1, 2, 3]] ∧
    [[1], [1, 2, 3]] = prefixes [[1], [2, 3]] ∧ s.isOpen = false := by
  have hconnect : EchoRun 2 [] _ [] := .connect 7 0 60
  have hfirst := hconnect.receive 1 rfl (List.cons_ne_nil 1 []) ⟨by decide, by decide⟩
  have hsecond := hfirst.receive 2 (by decide +kernel) (List.cons_ne_nil 2 [3])
    ⟨by decide +kernel, by decide +kernel⟩
  obtain ⟨hsent, hopen⟩ := sent_of_echoRun hsecond
  refine ⟨_, hsent ▸ hsecond, rfl, Bool.eq_false_iff.mpr fun h => ?_⟩
  exact absurd (hopen.mp h) (by decide)

theorem EchoRun.ne_nil {maxHeaderSize : ℕ} {chunks sent : List (List UInt8)} {s : Stream}
    (h : EchoRun maxHeaderSize chunks s sent) : ∀ bs ∈ chunks, bs ≠ [] := by
  induction h with
  | connect => exact fun bs hbs => absurd hbs List.not_mem_nil
  | receive now _ _ hbs _ ih =>
    intro bs' hbs'
    rcases List.mem_append.mp hbs' with hbs' | hbs'
    · exact ih bs' hbs'
    · obtain rfl := List.mem_singleton.mp hbs'
      exact hbs

/-- Before the last chunk something has been sent, if there was another one. -/
theorem flatten_prefixes_eq_nil {chunks : List (List UInt8)} (h : ∀ bs ∈ chunks, bs ≠ []) :
    (prefixes chunks).flatten = [] ↔ chunks = [] := by
  rcases List.eq_nil_or_concat' chunks with rfl | ⟨init, last, rfl⟩
  · exact iff_of_true rfl rfl
  · refine iff_of_false (fun hnil => ?_) (by simp)
    have hlast : last = [] := by
      rw [prefixes_append, List.flatten_append] at hnil
      have hflat := (List.append_eq_nil_iff.mp hnil).2
      rw [List.flatten_singleton, List.flatten_append, List.flatten_singleton] at hflat
      exact (List.append_eq_nil_iff.mp hflat).2
    exact h last (List.mem_append_right _ List.mem_cons_self) hlast

/-- **A client gets back what it has sent if and only if that was one chunk.** -/
theorem echoes_iff {maxHeaderSize : ℕ} {chunks sent : List (List UInt8)} {s : Stream}
    (h : EchoRun maxHeaderSize chunks s sent) :
    sent.flatten = chunks.flatten ↔ chunks.length ≤ 1 := by
  have hne := h.ne_nil
  rw [h.invariant.1]
  rcases List.eq_nil_or_concat' chunks with rfl | ⟨init, last, rfl⟩
  · exact iff_of_true rfl (Nat.zero_le 1)
  · have hinit : ∀ bs ∈ init, bs ≠ [] := fun bs hbs => hne bs (List.mem_append_left _ hbs)
    rw [prefixes_append, List.flatten_append, List.flatten_singleton, List.append_left_eq_self,
      flatten_prefixes_eq_nil hinit, List.length_append, List.length_singleton]
    exact ⟨fun hnil => by rw [hnil]; exact Nat.le_refl 1,
      fun hle => List.length_eq_zero_iff.mp (by omega)⟩

/-- The client sends 1, and gets back 1. -/
theorem echoes_oneChunk : ∃ s : Stream, EchoRun 2048 [[1]] s [[1]] ∧
    ([[1]] : List (List UInt8)).flatten = [[1]].flatten := by
  have hconnect : EchoRun 2048 [] _ [] := .connect 7 0 60
  have hfirst := hconnect.receive 1 rfl (List.cons_ne_nil 1 []) ⟨by decide, by decide⟩
  exact ⟨_, hfirst, (echoes_iff hfirst).mpr (Nat.le_refl 1)⟩

/-! ### The connections of an echo server -/

namespace TCPServer

/-- The server is an echo server: `OnConnect` asks for nothing, and `OnReadData` leaves the
connection as it is. -/
structure Echoes (s : TCPServer) (i : Input) : Prop where
  connect : ∀ id st, s.greeting id i = some st →
    st.requested = 0 ∧ st.connection.closeConnection = false
  accepts : ∀ k fd c t, s.find? k fd = some c → s.handing c.id i = some t →
    c.data.Accepts (t.received.getD [])
  read : ∀ k fd c t, s.find? k fd = some c → s.handing c.id i = some t →
    t.outcome = c.data.echoed t.now (t.received.getD [])

/-- **The connections of an echo server are such runs**, so none of them holds more than
fits a header. -/
theorem echo_of_server {s₀ s : TCPServer} {hist : List (TCPServer × Input)} (h : s₀.Run hist s)
    (h₀ : s₀.Initial) (hechoes : ∀ e ∈ hist, e.1.Echoes e.2) {k fd : ℤ} {c : Connection}
    {sp : ServerPort} (hc : s.find? k fd = some c) (hk : s.port? k = some sp) :
    ∃ chunks st, EchoRun sp.maxHeaderSize chunks st (prefixes chunks) ∧
      life sp.maxHeaderSize c.id hist = some st ∧ st.connection = c.data ∧
      c.data.input.data.take c.data.input.size = chunks.flatten ∧
      chunks.flatten.length ≤ sp.maxHeaderSize := by
  have hlives : Lives (fun m st => ∃ chunks sent, EchoRun m chunks st sent) hist s := by
    clear hc hk
    induction h with
    | start => exact .of_initial h₀
    | @step hist s s' i hrun hs ih =>
      have hlast := hechoes (s, i) (List.mem_append_right _ List.mem_cons_self)
      refine (ih fun e he => hechoes e (List.mem_append_left _ he)).step (Run.owned hrun h₀) hs
        (fun m id st hst => ?_) ?_
      · obtain ⟨hreq, hclose⟩ := hlast.connect id st hst
        obtain ⟨sockFd, requiredSize, now, timeout, closeConnection, rfl⟩ :=
          connects_of_greeting hst
        obtain rfl : requiredSize = 0 := hreq
        obtain rfl : closeConnection = false := hclose
        exact ⟨[], [], .connect sockFd now timeout⟩
      · rintro k fd c sp t st hc - ht hconn hopen ⟨chunks, sent, hecho⟩ hopen'
        have ha := hlast.accepts k fd c t hc ht
        have ho := hlast.read k fd c t hc ht
        obtain ⟨bs, hbs, hne, -⟩ := Stream.receive_open _ t.now hopen'
        rw [hbs, Option.getD_some, ← hconn] at ha ho
        rw [hbs, ho]
        exact ⟨_, _, hecho.receive t.now hopen hne ha⟩
  obtain ⟨st, hst, hconn, hopen, chunks, sent, hecho⟩ := hlives.life hc hk
  obtain ⟨rfl, hle, hechoing⟩ := hecho.invariant
  refine ⟨chunks, st, hecho, hst, hconn, ?_, hle.mp hopen⟩
  have hbuffer := (hechoing hopen).buffer
  rwa [hconn] at hbuffer

/-- A byte comes, and the connection is left as it is. -/
def sending (fd : ℤ) : Occurred :=
  ⟨fd, false, ⟨none, ⟨0, false, 60⟩, true, some [1], ⟨0, 0, false, 60⟩⟩⟩

/-- A client connects to the echo server. -/
def greeted : TCPServer := echoServer.onOccurred (accepting 5 true)

theorem echoes_accepting : echoServer.Echoes (.event (accepting 5 true)) where
  connect := fun _ _ hst => connect_of_accepting hst
  accepts := fun k fd c t _ ht => by
    rw [handing_accepting (s := echoServer) (Option.some_ne_none _)] at ht
    cases ht
  read := fun k fd c t _ ht => by
    rw [handing_accepting (s := echoServer) (Option.some_ne_none _)] at ht
    cases ht

theorem echoes_sending : greeted.Echoes (.event (sending 5)) := by
  have hfresh : ∀ {k fd c}, greeted.find? k fd = some c →
      c.data = newConnectionData 5 0 60 := by
    intro k fd c hc
    have hall : ∀ e ∈ greeted.serverPorts.entries, ∀ d ∈ e.2.connections.entries,
        d.2.data = newConnectionData 5 0 60 := by decide +kernel
    obtain ⟨sp, hk, hfind⟩ := Option.bind_eq_some_iff.mp hc
    exact hall _ (OrderedMap.find?_eq_some_iff.mp hk) _ (OrderedMap.find?_eq_some_iff.mp hfind)
  have hturn : ∀ {id t}, greeted.handing id (.event (sending 5)) = some t →
      t = ⟨0, some [1], ⟨0, 0, false, 60⟩⟩ := by
    intro id t ht
    have hup : (sending 5).hangUp ≠ true := Bool.false_ne_true
    rw [handing, if_neg hup] at ht
    split at ht
    · split_ifs at ht
      exact (Option.some.inj ht).symm
    · cases ht
  refine ⟨fun id st hst => ?_, fun k fd c t hc ht => ?_, fun k fd c t hc ht => ?_⟩
  · cases hst
  · rw [hturn ht, hfresh hc]
    exact ⟨by decide, by decide⟩
  · rw [hturn ht, hfresh hc]
    rfl

/-- It holds the byte that has come. -/
theorem echo_greeted : ∃ c, (greeted.onOccurred (sending 5)).find? 3 5 = some c ∧ ∃ chunks st,
    EchoRun 4096 chunks st (prefixes chunks) ∧
      c.data.input.data.take c.data.input.size = chunks.flatten := by
  have haccept : echoServer.Step (.event (accepting 5 true)) greeted :=
    ⟨legal_accepting (by decide) rfl rfl, rfl⟩
  have hlegal : greeted.Legal (sending 5) := by
    rintro sockFd ⟨⟩
  have hsend : greeted.Step (.event (sending 5)) (greeted.onOccurred (sending 5)) := ⟨hlegal, rfl⟩
  have hrun := (History.Run.start.step _ haccept).step _ hsend
  have hc : (greeted.onOccurred (sending 5)).find? 3 5 = some _ := rfl
  have hk : (greeted.onOccurred (sending 5)).port? 3 = some _ := rfl
  have hechoes : ∀ e ∈ [(echoServer, Input.event (accepting 5 true))] ++
      [(greeted, Input.event (sending 5))], e.1.Echoes e.2 :=
    List.forall_mem_cons.mpr ⟨echoes_accepting, List.forall_mem_singleton.mpr echoes_sending⟩
  obtain ⟨chunks, st, hecho, -, -, hbytes, -⟩ :=
    echo_of_server hrun initial_echoServer hechoes hc hk
  exact ⟨_, hc, chunks, st, hecho, hbytes⟩

end TCPServer

end Server
end PeeledOrange
