import PeeledOrange.Server.Isolation

/-!
# Opening the server

`Open` reads the configuration of one instance after the other, and `AddListenSocket`
makes its listening socket.  Whichever of the calls for a socket fails, `Open` gives up:
the ports so far stay in the map, and the descriptor of the socket it has just made, if
there is one, belongs to nobody.

`IniFile` is a parameter: what is in the file is whatever it returns.  The outcomes of
`socket`, `bind`, `listen` and `epoll_ctl` come from outside.

## Main definitions

* `IniFile`, `IniFile.serverPort` — the configuration of an instance.
* `ListenOutcome` — what the calls for a listening socket return.
* `addListenSocket`, `Opening.open` — `AddListenSocket` and `Open`.
* `TCPServer.getPortByName` — the port of that name.

## Main results

* `accounts_open` — **what `Open` has left: the ports of the instances before the first that
  failed, and the descriptor that is lost.**
* `getPortByName_of_run` — **in every run of a server that is open, each name has its
  configured port.**
-/

namespace PeeledOrange
namespace Server

/-! ### The configuration -/

/-- `IniFile`, once it is open: what it returns for a section, a key and a default. -/
structure IniFile where
  readString : String → String → String → String
  readInteger : String → String → ℤ → ℤ

/-- The conversion to `uint32_t`. -/
def toUInt32 (n : ℤ) : ℕ := (n % 2 ^ 32).toNat

namespace IniFile

variable (ini : IniFile)

/-- `instances_count`. -/
def count : ℕ := toUInt32 (ini.readInteger "tcp server" "instances_count" 1)

/-- The name of an instance. -/
def name (i : ℕ) : String := ini.readString "tcp server" ("name_" ++ toString i) "noname"

/-- The port that is configured for a name. -/
def port (name : String) : ℤ := ini.readInteger "tcp server" (name ++ "_port") 80

/-- The configuration of an instance, with its socket. -/
def serverPort (i : ℕ) (sockFd : ℤ) : ServerPort where
  port := ini.port (ini.name i)
  sockFd := sockFd
  maxConns := toUInt32 (ini.readInteger "tcp server" (ini.name i ++ "_max_conns") 1024)
  connectTimeout := toUInt32 (ini.readInteger "tcp server" (ini.name i ++ "_connect_timeout") 60)
  maxHeaderSize := toUInt32 (ini.readInteger "tcp server" (ini.name i ++ "_max_header_size") 2048)
  name := ini.name i
  connections := .empty

end IniFile

/-! ### The sockets -/

/-- What the calls for a listening socket return. -/
structure ListenOutcome where
  /-- What `socket` returns, if it does not fail. -/
  socket : Option ℤ
  /-- `bind` does not fail. -/
  bound : Bool
  /-- `listen` does not fail. -/
  listening : Bool
  /-- What `AddFD` returns. -/
  added : Bool
  deriving DecidableEq, Repr

/-- The descriptor, if none of the calls fails. -/
def ListenOutcome.listener (o : ListenOutcome) : Option ℤ :=
  if o.bound && o.listening && o.added then o.socket else none

/-- A server that is being opened, with the descriptors that `socket` has returned: none of
them is ever closed. -/
structure Opening where
  server : TCPServer
  opened : List ℤ

/-- What the constructor of `TCPServer` makes at this time. -/
def TCPServer.new (time : ℕ) : TCPServer where
  nowTime := time
  currentTime := time
  serverPorts := .empty
  lastCheckedFd := 0
  nextId := 0
  live := []
  log := []

namespace Opening

/-- `AddListenSocket`, for an instance with this configuration. -/
def addListenSocket (p : Opening) (sp : ℤ → ServerPort) (o : ListenOutcome) : Opening × Bool :=
  match o.socket with
  | none => (p, false)
  | some sockFd =>
    let p := { p with opened := p.opened ++ [sockFd] }
    if !o.bound then (p, false)
    else if !o.listening then (p, false)
    else if !o.added then (p, false)
    else
      ({ p with server := { p.server with
          serverPorts := p.server.serverPorts.insert sockFd (sp sockFd) } }, true)

/-- The loop of `Open` over `n` instances from `i` on. -/
def addPorts (ini : IniFile) (outside : ℕ → ListenOutcome) (p : Opening) : ℕ → ℕ → Opening × Bool
  | 0, _ => (p, true)
  | n + 1, i =>
    match p.addListenSocket (ini.serverPort i) (outside i) with
    | (p, false) => (p, false)
    | (p, true) => p.addPorts ini outside n (i + 1)

end Opening

/-- `Open`: nothing is done if the configuration file is not available. -/
def Opening.open (p : Opening) (ini : Option IniFile) (outside : ℕ → ListenOutcome) :
    Opening × Bool :=
  match ini with
  | none => (p, false)
  | some ini => p.addPorts ini outside ini.count 0

/-- `getPortByName`. -/
def TCPServer.getPortByName (s : TCPServer) (name : String) : ℤ :=
  match s.serverPorts.entries.find? fun e => e.2.name == name with
  | some e => e.2.port
  | none => -1

/-! ### What `Open` leaves -/

/-- The descriptors that `socket` returns for the first `n` instances are all different: none
has been closed. -/
structure Fresh (n : ℕ) (outside : ℕ → ListenOutcome) : Prop where
  nonneg : ∀ i < n, ∀ fd, (outside i).socket = some fd → 0 ≤ fd
  ne : ∀ i j fd, i < j → j < n → (outside i).socket = some fd → (outside j).socket ≠ some fd

/-- The first `k` instances listen, each on its own socket, and these descriptors belong to
nobody. -/
structure Opened (ini : IniFile) (outside : ℕ → ListenOutcome) (k : ℕ) (lost : List ℤ)
    (p : Opening) : Prop where
  initial : p.server.Initial
  listening : ∀ i < k, (outside i).listener ≠ none
  ports : ∀ fd sp, p.server.port? fd = some sp ↔
    ∃ i < k, (outside i).listener = some fd ∧ sp = ini.serverPort i fd
  opened : p.opened = (List.range k).filterMap (fun i => (outside i).listener) ++ lost

variable {ini : IniFile} {outside : ℕ → ListenOutcome} {k : ℕ} {lost : List ℤ} {p : Opening}

theorem ListenOutcome.socket_of_listener {o : ListenOutcome} {fd : ℤ} (h : o.listener = some fd) :
    o.socket = some fd := by
  rw [listener] at h
  split_ifs at h
  exact h

namespace Opening

/-- `AddListenSocket` has failed: a socket that it has made stays open. -/
theorem addListenSocket_of_none {sp : ℤ → ServerPort} {o : ListenOutcome} (h : o.listener = none) :
    p.addListenSocket sp o = ({ p with opened := p.opened ++ o.socket.toList }, false) := by
  rw [addListenSocket]
  rw [ListenOutcome.listener] at h
  cases hs : o.socket with
  | none => simp
  | some fd =>
    rw [hs] at h
    cases hb : o.bound <;> cases hl : o.listening <;> cases ha : o.added <;> simp_all

/-- `AddListenSocket` has added a port. -/
theorem addListenSocket_of_some {sp : ℤ → ServerPort} {o : ListenOutcome} {fd : ℤ}
    (h : o.listener = some fd) : p.addListenSocket sp o =
      (⟨{ p.server with serverPorts := p.server.serverPorts.insert fd (sp fd) },
        p.opened ++ [fd]⟩, true) := by
  rw [addListenSocket, ListenOutcome.socket_of_listener h]
  rw [ListenOutcome.listener] at h
  split_ifs at h with hall
  simp only [Bool.and_eq_true] at hall
  obtain ⟨⟨hb, hl⟩, ha⟩ := hall
  rw [hb, hl, ha]
  rfl

end Opening

theorem Opened.new (time : ℕ) : Opened ini outside 0 [] ⟨.new time, []⟩ where
  initial := ⟨fun _ _ => rfl, rfl, rfl, rfl⟩
  listening := fun i hi => absurd hi (Nat.not_lt_zero i)
  ports := by
    intro fd sp
    refine iff_of_false ?_ ?_
    · intro h
      cases h
    · rintro ⟨i, hi, -⟩
      exact Nat.not_lt_zero i hi
  opened := rfl

/-- One more instance listens. -/
theorem Opened.add (h : Opened ini outside k [] p) {n : ℕ} (hfresh : Fresh n outside) (hk : k < n)
    {fd : ℤ} (hfd : (outside k).listener = some fd) : Opened ini outside (k + 1) []
      ⟨{ p.server with serverPorts := p.server.serverPorts.insert fd (ini.serverPort k fd) },
        p.opened ++ [fd]⟩ := by
  have hsocket := ListenOutcome.socket_of_listener hfd
  have hport : ∀ fd', TCPServer.port? { p.server with
      serverPorts := p.server.serverPorts.insert fd (ini.serverPort k fd) } fd' =
      if fd' = fd then some (ini.serverPort k fd) else p.server.port? fd' := fun fd' =>
    OrderedMap.find?_insert fd _ fd'
  refine ⟨⟨fun k' fd' => ?_, h.initial.live, h.initial.log, h.initial.cursor⟩, fun i hi => ?_,
    fun fd' sp => ?_, ?_⟩
  · rw [TCPServer.find?, hport]
    split_ifs
    · rfl
    · exact h.initial.connections k' fd'
  · rcases Nat.lt_succ_iff_lt_or_eq.mp hi with hlt | rfl
    · exact h.listening i hlt
    · rw [hfd]
      exact Option.some_ne_none fd
  · rw [hport]
    split_ifs with heq
    · subst heq
      rw [Option.some.injEq]
      constructor
      · rintro rfl
        exact ⟨k, Nat.lt_succ_self k, hfd, rfl⟩
      · rintro ⟨i, hi, hi', rfl⟩
        -- no other instance has this descriptor
        rcases Nat.lt_succ_iff_lt_or_eq.mp hi with hlt | rfl
        · exact absurd hsocket (hfresh.ne i k fd' hlt hk (ListenOutcome.socket_of_listener hi'))
        · rfl
    · rw [h.ports]
      constructor
      · rintro ⟨i, hi, hrest⟩
        exact ⟨i, Nat.lt_succ_of_lt hi, hrest⟩
      · rintro ⟨i, hi, hi', rfl⟩
        rcases Nat.lt_succ_iff_lt_or_eq.mp hi with hlt | rfl
        · exact ⟨i, hlt, hi', rfl⟩
        · exact absurd (Option.some.inj (hi'.symm.trans hfd)) heq
  · rw [h.opened, List.append_nil, List.append_nil, List.range_succ, List.filterMap_append]
    simp [hfd]

/-- The loop of `Open` ends with all instances, or at the first that fails. -/
theorem Opened.addPorts : ∀ {n k : ℕ} {p : Opening}, Opened ini outside k [] p →
    Fresh (k + n) outside →
    ((p.addPorts ini outside n k).2 = true ∧
      Opened ini outside (k + n) [] (p.addPorts ini outside n k).1) ∨
    ((p.addPorts ini outside n k).2 = false ∧ ∃ i < k + n, (outside i).listener = none ∧
      Opened ini outside i (outside i).socket.toList (p.addPorts ini outside n k).1) := by
  intro n
  induction n with
  | zero => intro k p h _; exact .inl ⟨rfl, h⟩
  | succ n ih =>
    intro k p h hfresh
    have hk : k < k + (n + 1) := Nat.lt_add_of_pos_right n.succ_pos
    rw [Opening.addPorts]
    cases hfd : (outside k).listener with
    | none =>
      rw [Opening.addListenSocket_of_none hfd]
      refine .inr ⟨rfl, k, hk, hfd, h.initial, h.listening, h.ports, ?_⟩
      rw [h.opened, List.append_nil]
    | some fd =>
      rw [Opening.addListenSocket_of_some hfd]
      have hnext := ih (h.add hfresh hk hfd) (by rwa [Nat.add_right_comm])
      rwa [Nat.add_right_comm] at hnext

/-- **What `Open` has left**, if it has read a configuration: either every instance listens
and every descriptor that was opened is the one of a port, or the instances before the first
that failed listen, and the socket that was made for that one, if any, is lost. -/
theorem accounts_open (time : ℕ) (h : Fresh ini.count outside) :
    ((Opening.open ⟨.new time, []⟩ (some ini) outside).2 = true ∧
      Opened ini outside ini.count [] (Opening.open ⟨.new time, []⟩ (some ini) outside).1) ∨
    ((Opening.open ⟨.new time, []⟩ (some ini) outside).2 = false ∧
      ∃ i < ini.count, (outside i).listener = none ∧
        Opened ini outside i (outside i).socket.toList
          (Opening.open ⟨.new time, []⟩ (some ini) outside).1) := by
  have hnew : Opened ini outside 0 [] ⟨.new time, []⟩ := .new time
  have hloop := hnew.addPorts (n := ini.count) (by rwa [Nat.zero_add])
  rwa [Nat.zero_add] at hloop

/-- Two instances without names, so both are for port 80. -/
def twoUnnamed : IniFile where
  readString := fun _ _ default => default
  readInteger := fun _ key default => if key = "instances_count" then 2 else default

/-- There is a socket for each, but the second cannot be bound. -/
def secondUnbound (i : ℕ) : ListenOutcome :=
  if i = 0 then ⟨some 3, true, true, true⟩
  else if i = 1 then ⟨some 4, false, true, true⟩
  else ⟨none, false, false, false⟩

/-- `Open` fails, with a port that listens and a descriptor that is lost. -/
theorem accounts_secondUnbound :
    (Opening.open ⟨.new 0, []⟩ (some twoUnnamed) secondUnbound).1.opened = [3] ++ [4] ∧
      ∃ i < twoUnnamed.count, (secondUnbound i).listener = none ∧
        Opened twoUnnamed secondUnbound i (secondUnbound i).socket.toList
          (Opening.open ⟨.new 0, []⟩ (some twoUnnamed) secondUnbound).1 := by
  have hcount : twoUnnamed.count = 2 := by decide
  have hfresh : Fresh twoUnnamed.count secondUnbound := by
    rw [hcount]
    refine ⟨fun i hi fd hfd => ?_, fun i j fd hij hj hi hfd => ?_⟩
    · obtain rfl | rfl : i = 0 ∨ i = 1 := by omega
      · cases hfd
        decide
      · cases hfd
        decide
    · obtain ⟨rfl, rfl⟩ : i = 0 ∧ j = 1 := by omega
      cases hi
      cases hfd
  rcases accounts_open 0 hfresh with ⟨hok, -⟩ | ⟨-, hfail⟩
  · exact absurd hok (by decide +kernel)
  · exact ⟨by decide +kernel, hfail⟩

/-! ### The ports by name -/

namespace TCPServer

/-- The connections do not matter to `getPortByName`. -/
theorem getPortByName_eq (s : TCPServer) (name : String) : s.getPortByName name =
    ((s.config.entries.find? fun e => e.2.name == name).map fun e => e.2.port).getD (-1) := by
  have hfind : (s.config.entries.find? fun e => e.2.name == name) =
      (s.serverPorts.entries.find? fun e => e.2.name == name).map
        fun e => (e.1, { e.2 with connections := .empty }) :=
    List.find?_map ..
  rw [getPortByName, hfind]
  cases s.serverPorts.entries.find? fun e => e.2.name == name <;> rfl

/-- The configuration is the same all along a run. -/
theorem Run.config {s₀ s : TCPServer} {hist : List (TCPServer × Input)} (h : s₀.Run hist s)
    (h₀ : s₀.Initial) : s.config = s₀.config := by
  have hstep : ∀ s i s', s.Owned ∧ s.config = s₀.config → Step s i s' →
      s'.Owned ∧ s'.config = s₀.config :=
    fun _ _ _ hs hstep => ⟨hstep.owned hs.1, (config_step hs.1 hstep).trans hs.2⟩
  exact (h.invariant hstep ⟨h₀.owned, rfl⟩).2

end TCPServer

/-- Each name has its configured port, once the instances listen. -/
theorem Opened.getPortByName (h : Opened ini outside k lost p) (name : String) :
    p.server.getPortByName name = if ∃ i < k, ini.name i = name then ini.port name else -1 := by
  rw [TCPServer.getPortByName]
  cases hfind : p.server.serverPorts.entries.find? fun e => e.2.name == name with
  | some e =>
    obtain ⟨fd, sp⟩ := e
    have hport := OrderedMap.find?_eq_some_iff.mpr (List.mem_of_find?_eq_some hfind)
    obtain ⟨i, hi, -, rfl⟩ := (h.ports fd sp).mp hport
    obtain rfl : ini.name i = name := by simpa [IniFile.serverPort] using List.find?_some hfind
    rw [if_pos ⟨i, hi, rfl⟩]
    rfl
  | none =>
    rw [if_neg]
    rintro ⟨i, hi, rfl⟩
    obtain ⟨fd, hfd⟩ := Option.ne_none_iff_exists'.mp (h.listening i hi)
    have hport := (h.ports fd (ini.serverPort i fd)).mpr ⟨i, hi, hfd, rfl⟩
    have hne := List.find?_eq_none.mp hfind _ (OrderedMap.find?_eq_some_iff.mp hport)
    simp [IniFile.serverPort] at hne

/-- **In every run of a server that is open, each name has its configured port**, and no
other name has one. -/
theorem getPortByName_of_run {time : ℕ} (hfresh : Fresh ini.count outside)
    (hopen : (Opening.open ⟨.new time, []⟩ (some ini) outside).2 = true) {s : TCPServer}
    {hist : List (TCPServer × Input)}
    (h : (Opening.open ⟨.new time, []⟩ (some ini) outside).1.server.Run hist s) (name : String) :
    s.getPortByName name =
      if ∃ i < ini.count, ini.name i = name then ini.port name else -1 := by
  rcases accounts_open time hfresh with ⟨-, hopened⟩ | ⟨hfail, -⟩
  · rw [TCPServer.getPortByName_eq, h.config hopened.initial, ← TCPServer.getPortByName_eq]
    exact hopened.getPortByName name
  · rw [hopen] at hfail
    cases hfail

/-- The configuration of the echo server. -/
def echoConfig : IniFile where
  readString := fun _ key default => if key = "name_0" then "echo" else default
  readInteger := fun _ key default =>
    if key = "instances_count" then 1
    else if key = "echo_port" then 6999
    else if key = "echo_max_conns" then 100
    else if key = "echo_connect_timeout" then 60
    else if key = "echo_max_header_size" then 2048
    else default

/-- Its socket has descriptor 3. -/
def echoSocket (i : ℕ) : ListenOutcome :=
  if i = 0 then ⟨some 3, true, true, true⟩ else ⟨none, false, false, false⟩

/-- After a client has connected, too, the port is the one in the configuration. -/
theorem getPortByName_echo : ((Opening.open ⟨.new 0, []⟩ (some echoConfig)
    echoSocket).1.server.onOccurred (accepting 5 true)).getPortByName "echo" = 6999 := by
  have hcount : echoConfig.count = 1 := by decide
  have hfresh : Fresh echoConfig.count echoSocket := by
    rw [hcount]
    refine ⟨fun i hi fd hfd => ?_, fun i j fd hij hj => ?_⟩
    · obtain rfl : i = 0 := by omega
      cases hfd
      decide
    · omega
  have haccept : (Opening.open ⟨.new 0, []⟩ (some echoConfig) echoSocket).1.server.Step
      (.event (accepting 5 true)) _ :=
    ⟨TCPServer.legal_accepting (by decide) (Option.isNone_iff_eq_none.mp (by decide +kernel))
      (Option.isNone_iff_eq_none.mp (by decide +kernel)), rfl⟩
  rw [getPortByName_of_run hfresh (by decide +kernel) (History.Run.start.step _ haccept), hcount,
    if_pos ⟨0, Nat.one_pos, by decide⟩]
  decide

end Server
end PeeledOrange
