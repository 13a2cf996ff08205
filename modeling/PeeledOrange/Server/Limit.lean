import PeeledOrange.Server.Run

/-!
# The connection limit

A port is configured with `max_conns`, the number of connections it is to have at
most.  `OnEvent` accepts whatever arrives, so that the limit is kept as long as
nobody connects to a port that is full, and no longer.

## Main definitions

* `TCPServer.Limited` — no port has more connections than it is configured for.
* `TCPServer.HasRoom` — what is accepted arrives at a port that is not full.

## Main results

* `Shrinks.onOccurred` — only an accepted connection makes a port grow.
* `limited_iff_hasRoom` — **the limit is kept all along a run if and only if every
  connection that is accepted finds room.**
-/

namespace PeeledOrange
namespace Server
namespace TCPServer

variable {s s' t : TCPServer} {k fd : ℤ} {sp : ServerPort} {c : Connection}

/-- No port has more connections than it is configured for. -/
def Limited (s : TCPServer) : Prop :=
  ∀ k sp, s.port? k = some sp → sp.connections.entries.length ≤ sp.maxConns

/-- If a connection is accepted, its port has fewer than it is configured for. -/
def HasRoom (s : TCPServer) : Input → Prop
  | .timer _ => True
  | .event e => ∀ sockFd sp, s.Takes e sockFd → s.port? e.fd = some sp →
      sp.connections.entries.length < sp.maxConns

/-! ### What makes a port no larger -/

/-- The ports keep their limits, and none has more connections than before. -/
def Shrinks (s s' : TCPServer) : Prop :=
  ∀ k sp', s'.port? k = some sp' → ∃ sp, s.port? k = some sp ∧ sp'.maxConns = sp.maxConns ∧
    sp'.connections.entries.length ≤ sp.connections.entries.length

namespace Shrinks

/-- The ports are the same. -/
theorem of_eq (h : s'.serverPorts = s.serverPorts) : Shrinks s s' := fun k sp' hsp' =>
  ⟨sp', by rw [port?, ← h]; exact hsp', rfl, le_rfl⟩

theorem trans (h : Shrinks s t) (h' : Shrinks t s') : Shrinks s s' := by
  intro k sp' hsp'
  obtain ⟨sp, hsp, hmax, hlen⟩ := h' k sp' hsp'
  obtain ⟨sp₀, hsp₀, hmax₀, hlen₀⟩ := h k sp hsp
  exact ⟨sp₀, hsp₀, hmax.trans hmax₀, hlen.trans hlen₀⟩

theorem limited (h : Shrinks s s') (hl : s.Limited) : s'.Limited := by
  intro k sp' hsp'
  obtain ⟨sp, hsp, hmax, hlen⟩ := h k sp' hsp'
  rw [hmax]
  exact hlen.trans (hl k sp hsp)

theorem modifyConnections {f : OrderedMap ℤ Connection → OrderedMap ℤ Connection}
    (hf : ∀ m, (f m).entries.length ≤ m.entries.length) (s : TCPServer) (k : ℤ) :
    Shrinks s (s.modifyConnections k f) := by
  intro k' sp' hsp'
  rw [port?_modifyConnections] at hsp'
  split_ifs at hsp' with hk
  · obtain ⟨sp, hsp, rfl⟩ := Option.map_eq_some_iff.mp hsp'
    exact ⟨sp, hsp, rfl, hf sp.connections⟩
  · exact ⟨sp', hsp', rfl, le_rfl⟩

theorem eraseConnection (s : TCPServer) (k fd : ℤ) : Shrinks s (s.eraseConnection k fd) := by
  cases hc : s.find? k fd with
  | none =>
    rw [eraseConnection_of_none hc]
    exact of_eq rfl
  | some c =>
    rw [eraseConnection_of_find? hc]
    have herase := modifyConnections (f := (·.erase fd)) (fun m => List.length_filter_le _ _) s k
    exact herase.trans (of_eq rfl)

theorem setData (s : TCPServer) (k fd : ℤ) (data : ConnectionData) :
    Shrinks s (s.setData k fd data) :=
  modifyConnections (fun _ => le_of_eq (List.length_map _)) s k

theorem disconnect (s : TCPServer) (k : ℤ) (c : Connection) : Shrinks s (s.disconnect k c) := by
  have herase := eraseConnection (s.access c.id) k c.data.sockFd
  exact ((of_eq rfl).trans herase).trans (of_eq rfl)

theorem processConnection (s : TCPServer) (k : ℤ) (sp : ServerPort) (c : Connection)
    (x : Outside) : Shrinks s (s.processConnection k sp c x) := by
  unfold TCPServer.processConnection
  generalize connectionProcessing sp.maxHeaderSize s.nowTime c.data x.received x.outcome = r
  dsimp only
  generalize ht : (if r.view.isSome = true
    then ((s.access c.id).call .onReadData c.id).access c.id else s.access c.id) = t
  have hsame : t.serverPorts = s.serverPorts := by
    rw [← ht]
    split_ifs <;> rfl
  have hset := (of_eq hsame).trans (setData t k c.data.sockFd r.connection)
  split_ifs
  · exact hset.trans (disconnect _ k _)
  · exact hset

theorem onDisconnect (s : TCPServer) (fd : ℤ) : Shrinks s (s.onDisconnect fd) := by
  unfold TCPServer.onDisconnect
  split
  · exact of_eq rfl
  · rename_i k _ c _
    have hrecord : Shrinks s (s.record (.dispatch fd c.id)) := of_eq rfl
    exact hrecord.trans (disconnect _ k c)

/-- A connection that is refused leaves the ports as they are. -/
theorem acceptConnection {sockFd : ℤ} {x : Outside} (h : x.added = false) :
    Shrinks s (s.acceptConnection k sp sockFd x) := by
  refine of_eq ?_
  rw [TCPServer.acceptConnection, h]
  rfl

/-- Only an accepted connection makes a port grow. -/
theorem onOccurred {e : Occurred} (h : ∀ sockFd, ¬s.Takes e sockFd) :
    Shrinks s (s.onOccurred e) := by
  unfold TCPServer.onOccurred
  split_ifs with hup
  · exact onDisconnect s e.fd
  · unfold onEvent
    split
    · -- a listening socket, on which nothing is accepted
      rename_i sp hsp
      split
      · exact of_eq rfl
      · rename_i sockFd hacc
        refine acceptConnection (Bool.eq_false_iff.mpr fun hadded => h sockFd ?_)
        exact ⟨Bool.eq_false_iff.mpr hup, by rw [hsp]; exact Option.some_ne_none _, hacc, hadded⟩
    · -- the socket of a connection, which may be erased
      split
      · exact of_eq rfl
      · rename_i k sp c _
        have hrecord : Shrinks s (s.record (.dispatch e.fd c.id)) := of_eq rfl
        exact hrecord.trans (processConnection _ k sp c e.outside)

/-- The timer only erases. -/
theorem onTimer (h : s.Owned) {time : ℕ} (hok : s.onTimer time = .ok s') : Shrinks s s' := by
  intro k sp' hsp'
  rw [(erases_onTimer h hok).port? k] at hsp'
  obtain ⟨sp, hsp, rfl⟩ := Option.map_eq_some_iff.mp hsp'
  exact ⟨sp, hsp, rfl, List.length_filter_le _ _⟩

end Shrinks

/-! ### What makes a port larger -/

/-- A connection that is accepted is one more at its port. -/
theorem port?_onOccurred_of_takes {e : Occurred} {sockFd : ℤ} (h : s.Takes e sockFd)
    (hfd : s.Unused sockFd) (hsp : s.port? e.fd = some sp) :
    (∃ sp', (s.onOccurred e).port? e.fd = some sp' ∧ sp'.maxConns = sp.maxConns ∧
      sp'.connections.entries.length = sp.connections.entries.length + 1) ∧
    ∀ k, k ≠ e.fd → (s.onOccurred e).port? k = s.port? k := by
  obtain ⟨hup, -, hacc, hadded⟩ := h
  have hfree : sp.connections.find? sockFd = none := by
    have hnone := hfd.connection e.fd
    rwa [find?, hsp, Option.bind_some] at hnone
  generalize hc : Connection.mk s.nextId ((newConnectionData sockFd s.nowTime
    sp.connectTimeout).greet e.outside.connected) = c
  have hports : (s.onOccurred e).serverPorts =
      (s.modifyConnections e.fd (·.insert sockFd c)).serverPorts := by
    unfold onOccurred onEvent acceptConnection
    simp only [hup, hsp, hacc, hadded, hc, Bool.false_eq_true, if_false, if_true]
    rw [assignConnection_of_none (s := s.create.call _ _) (hfd.connection e.fd)]
    rfl
  have hport : ∀ k, (s.onOccurred e).port? k =
      (s.modifyConnections e.fd (·.insert sockFd c)).port? k := fun k => by
    rw [port?, hports]
    rfl
  refine ⟨⟨{ sp with connections := sp.connections.insert sockFd c }, ?_, rfl,
    OrderedMap.length_insert c hfree⟩, fun k hk => ?_⟩
  · rw [hport, port?_modifyConnections, if_pos rfl, hsp]
    rfl
  · rw [hport, port?_modifyConnections, if_neg hk]

/-! ### The runs -/

/-- After an input the limit is kept if and only if what was accepted has found room. -/
theorem Step.limited_iff {i : Input} (h : s.Owned) (hl : s.Limited) (hs : s.Step i s') :
    s'.Limited ↔ s.HasRoom i := by
  cases i with
  | timer time => exact iff_of_true ((Shrinks.onTimer h hs).limited hl) trivial
  | event e =>
    obtain ⟨hlegal, rfl⟩ := hs
    by_cases htakes : ∃ sockFd, s.Takes e sockFd
    · -- one more at its own port
      obtain ⟨sockFd, htakes⟩ := htakes
      obtain ⟨sp, hsp⟩ := Option.ne_none_iff_exists'.mp htakes.2.1
      obtain ⟨⟨sp', hsp', hmax, hlen⟩, hother⟩ :=
        port?_onOccurred_of_takes htakes (hlegal sockFd htakes.2.2.1) hsp
      constructor
      · rintro hl' - sp₀ - hsp₀
        rw [hsp] at hsp₀
        cases hsp₀
        have hle := hl' e.fd sp' hsp'
        omega
      · intro hroom k sp₀ hsp₀
        by_cases hk : k = e.fd
        · subst hk
          rw [hsp'] at hsp₀
          cases hsp₀
          have hlt := hroom sockFd sp htakes hsp
          omega
        · rw [hother k hk] at hsp₀
          exact hl k sp₀ hsp₀
    · -- no port grows, and nothing needs room
      rw [not_exists] at htakes
      exact iff_of_true ((Shrinks.onOccurred htakes).limited hl)
        fun sockFd _ htakes' _ => absurd htakes' (htakes sockFd)

theorem Initial.limited (h : s.Initial) : s.Limited := by
  intro k sp hsp
  have hempty : sp.connections.entries = [] := by
    refine List.eq_nil_iff_forall_not_mem.mpr fun ⟨fd, c⟩ hmem => ?_
    have hnone := h.connections k fd
    rw [find?, hsp, Option.bind_some, OrderedMap.find?_eq_some_iff.mpr hmem] at hnone
    cases hnone
  rw [hempty]
  exact Nat.zero_le _

/-- **The limit is kept all along a run if and only if every connection that is accepted
finds room.** -/
theorem limited_iff_hasRoom {s₀ : TCPServer} {hist : List (TCPServer × Input)} (h₀ : s₀.Initial)
    (h : s₀.Run hist s) :
    ((∀ e ∈ hist, e.1.Limited) ∧ s.Limited) ↔ ∀ e ∈ hist, e.1.HasRoom e.2 :=
  h.forall_iff Limited Owned HasRoom (fun _ _ _ => Step.owned) (fun _ _ _ => Step.limited_iff)
    h₀.owned h₀.limited

/-- Nobody has connected yet when the connection is accepted. -/
theorem limited_greeted : ((∀ e ∈ [(echoServer, Input.event (accepting 5 true))], e.1.Limited) ∧
    (echoServer.onOccurred (accepting 5 true)).Limited) := by
  have haccept : echoServer.Step (.event (accepting 5 true)) _ :=
    ⟨legal_accepting (by decide) rfl rfl, rfl⟩
  refine (limited_iff_hasRoom initial_echoServer (History.Run.start.step _ haccept)).mpr
    fun e he => ?_
  obtain rfl := List.mem_singleton.mp he
  rintro sockFd sp - hsp
  obtain rfl : _ = sp := Option.some.inj hsp
  decide

/-- A port that listens on descriptor 3, for one connection. -/
def soloServer : TCPServer :=
  { echoServer with
    serverPorts := OrderedMap.empty.insert 3 ⟨6999, 3, 1, 60, 4096, "solo", OrderedMap.empty⟩ }

/-- Two clients connect to it. -/
theorem not_limited_of_two :
    ¬∀ (s₀ s : TCPServer) (hist : List (TCPServer × Input)), s₀.Initial → s₀.Run hist s →
      (∀ e ∈ hist, e.1.Limited) ∧ s.Limited := by
  intro h
  have hinitial : soloServer.Initial := ⟨fun k _ => getContext_eq_none rfl k, rfl, rfl, rfl⟩
  have hfirst : soloServer.Step (.event (accepting 5 true)) _ :=
    ⟨legal_accepting (by decide) rfl rfl, rfl⟩
  have hsecond : (soloServer.onOccurred (accepting 5 true)).Step (.event (accepting 6 true)) _ :=
    ⟨legal_accepting (by decide) rfl rfl, rfl⟩
  have hrun := (History.Run.start.step _ hfirst).step _ hsecond
  have hlimited := (h _ _ _ hinitial hrun).2 3 _ rfl
  exact absurd hlimited (by decide +kernel)

end TCPServer

end Server
end PeeledOrange
