import PeeledOrange.Server.Run

/-!
# The sliced scan

`EraseExpiredConnections` examines `CHECK_EXPIRED_STEP` connections a call and keeps
the descriptor at which it has stopped, to go on behind it in the next one.  Calls at
one time are to come to the same as one scan of everything.  They do not if the scan
stops in a port that is not the only one, since it goes on in the first one, or at a
connection that it has just erased: in either case the cursor is not found.

## Main definitions

* `TCPServer.Passes` — calls until the cursor is 0.
* `TCPServer.ScansAll` — the calls come to an end, and what is left is what a full
  scan leaves.
* `TCPServer.Sliceable` — the condition on the ports.

## Main results

* `passes_single` — the calls on one port.
* `scansAll_iff_sliceable` — **the sliced scan equals a full scan if and only if the
  ports are sliceable.**
* `not_scansAll_of_erased` — a port on which it does not.
-/

namespace PeeledOrange
namespace Server
namespace TCPServer

variable {s s' t : TCPServer} {k fd : ℤ} {sp : ServerPort} {c : Connection}

/-! ### The calls -/

/-- Calls of `EraseExpiredConnections`, with nothing in between, until the cursor is 0. -/
inductive Passes : TCPServer → TCPServer → Prop
  | last {s s' : TCPServer} : s.eraseExpiredConnections = .ok s' → s'.lastCheckedFd = 0 →
      Passes s s'
  | more {s t s' : TCPServer} : s.eraseExpiredConnections = .ok t → t.lastCheckedFd ≠ 0 →
      Passes t s' → Passes s s'

theorem not_passes_of_error {f : Fault} (h : s.eraseExpiredConnections = .error f) :
    ¬Passes s s' := by
  intro hp
  cases hp with
  | last hok _ =>
    rw [h] at hok
    cases hok
  | more hok _ _ =>
    rw [h] at hok
    cases hok

theorem passes_iff_of_zero (h : s.eraseExpiredConnections = .ok t) (ht : t.lastCheckedFd = 0) :
    Passes s s' ↔ s' = t := by
  constructor
  · intro hp
    cases hp with
    | last hok _ =>
      rw [h] at hok
      cases hok
      rfl
    | more hok hne _ =>
      rw [h] at hok
      cases hok
      exact absurd ht hne
  · rintro rfl
    exact .last h ht

theorem passes_iff_of_ne (h : s.eraseExpiredConnections = .ok t) (ht : t.lastCheckedFd ≠ 0) :
    Passes s s' ↔ Passes t s' := by
  constructor
  · intro hp
    cases hp with
    | last hok hzero =>
      rw [h] at hok
      cases hok
      exact absurd hzero ht
    | more hok _ hp =>
      rw [h] at hok
      cases hok
      exact hp
  · exact .more h ht

/-- The calls come to an end, and then exactly the connections are left that were there
and are not expired. -/
def ScansAll (s : TCPServer) : Prop :=
  ∃ s', Passes s s' ∧ ∀ k fd c, s'.find? k fd = some c ↔
    s.find? k fd = some c ∧ s.nowTime ≤ c.data.lastTime + c.data.timeout

/-- The sums of `last_time` and `timeout` are in range. -/
def NoWrap (s : TCPServer) : Prop :=
  ∀ k fd c, s.find? k fd = some c → c.data.lastTime + c.data.timeout < 2 ^ 32

/-- How many connections there are at these ports. -/
def total (ports : List (ℤ × ServerPort)) : ℕ :=
  (ports.map fun p => p.2.connections.entries.length).sum

@[simp] theorem total_nil : total [] = 0 := rfl

@[simp] theorem total_cons (p : ℤ × ServerPort) (ports : List (ℤ × ServerPort)) :
    total (p :: ports) = p.2.connections.entries.length + total ports := rfl

/-- None of these connections is expired. -/
def Fresh (now : ℕ) (l : List (ℤ × Connection)) : Prop :=
  ∀ e ∈ l, e.2.data.expired now = false

/-- The connections at which a scan stops are not expired. -/
def StopsFresh (now : ℕ) (l : List (ℤ × Connection)) : Prop :=
  ∀ i e, l[checkExpiredStep * i + (checkExpiredStep - 1)]? = some e →
    e.2.data.expired now = false

/-- The sliced scan goes through: one call is enough for all connections; or there is
one port, and no call stops at an expired connection; or the call stops at descriptor 0,
which stands for no cursor, goes on in the ports behind, and examines all there is but
connections that are not expired. -/
inductive Sliceable (s : TCPServer) : Prop
  | few : total s.serverPorts.entries < checkExpiredStep → Sliceable s
  | single {k : ℤ} {sp : ServerPort} : s.serverPorts.entries = [(k, sp)] →
      StopsFresh s.nowTime sp.connections.entries → Sliceable s
  | zero {before after : List (ℤ × ServerPort)} {k : ℤ} {sp : ServerPort} {c : Connection} :
      s.serverPorts.entries = before ++ (k, sp) :: after → total before < checkExpiredStep →
      sp.connections.entries[checkExpiredStep - 1 - total before]? = some (0, c) →
      (∀ p ∈ after.dropLast, p.2.connections.entries = []) →
      Fresh s.nowTime (sp.connections.entries.drop (checkExpiredStep - total before)) →
      (∀ p ∈ after, Fresh s.nowTime p.2.connections.entries.tail) → Sliceable s

/-! ### One call -/

theorem resume_zero {connections : OrderedMap ℤ Connection} (h : s.lastCheckedFd = 0) :
    resume s.lastCheckedFd connections = .ok connections.entries := by
  rw [resume, if_neg (not_not.mpr h)]

/-- The cursor is not in the next port. -/
theorem scanPorts_error {rest : List (ℤ × ServerPort)} {counter : ℕ} (h : s.lastCheckedFd ≠ 0)
    (hnone : sp.connections.find? s.lastCheckedFd = none) :
    scanPorts ((k, sp) :: rest) counter s = .error .pastEnd := by
  rw [scanPorts, resume, if_pos h, OrderedMap.after?, hnone]
  rfl

/-- Ports with too few connections to stop. -/
theorem scanPorts_few : ∀ {ports : List (ℤ × ServerPort)} {counter : ℕ} {s : TCPServer}
    (rest : List (ℤ × ServerPort)), s.lastCheckedFd = 0 → counter + total ports < checkExpiredStep →
    ∃ t, t.lastCheckedFd = 0 ∧
      scanPorts (ports ++ rest) counter s = scanPorts rest (counter + total ports) t := by
  intro ports
  induction ports with
  | nil => intro counter s rest h _; exact ⟨s, h, rfl⟩
  | cons p ports ih =>
    obtain ⟨k, sp⟩ := p
    intro counter s rest h hlt
    simp only [total_cons] at hlt ⊢
    have hall : examine counter sp.connections.entries = sp.connections.entries :=
      List.take_of_length_le (by omega)
    have hnone : sp.connections.entries[checkExpiredStep - 1 - counter]? = none :=
      List.getElem?_eq_none (by omega)
    rw [List.cons_append, scanPorts_cons (resume_zero h), hall, hnone, ← Nat.add_assoc]
    exact ih rest rfl (by omega)

/-- The port in which the call stops. -/
theorem scanPorts_stop {rest : List (ℤ × ServerPort)} {counter : ℕ} (h : s.lastCheckedFd = 0)
    (hlt : counter < checkExpiredStep)
    (hstop : sp.connections.entries[checkExpiredStep - 1 - counter]? = some (fd, c)) :
    ∃ t, t.lastCheckedFd = fd ∧
      scanPorts ((k, sp) :: rest) counter s = scanPorts rest checkExpiredStep t := by
  have hlen : checkExpiredStep - 1 - counter < sp.connections.entries.length :=
    (List.getElem?_eq_some_iff.mp hstop).1
  have hcount : counter + (examine counter sp.connections.entries).length = checkExpiredStep := by
    rw [examine, List.length_take]
    omega
  rw [scanPorts_cons (resume_zero h), hcount, hstop]
  exact ⟨_, rfl, rfl⟩

/-- With no cursor behind the step, the call goes through if there are connections in
the last port at most. -/
theorem scanPorts_late : ∀ {ports : List (ℤ × ServerPort)} {counter : ℕ} {s : TCPServer},
    s.lastCheckedFd = 0 → checkExpiredStep ≤ counter →
    (∀ p ∈ ports.dropLast, p.2.connections.entries = []) →
    ∃ t counter', scanPorts ports counter s = .ok (t, counter') ∧
      (t.lastCheckedFd = 0 ∨ counter' ≠ checkExpiredStep) := by
  intro ports
  induction ports with
  | nil => intro counter s h _ _; exact ⟨s, counter, rfl, .inl h⟩
  | cons p rest ih =>
    obtain ⟨k, sp⟩ := p
    intro counter s h hle hempty
    rw [scanPorts_cons (resume_zero h)]
    cases hentries : sp.connections.entries with
    | nil =>
      refine ih rfl (by simpa [examine] using hle) fun p hp => ?_
      cases rest with
      | nil => cases hp
      | cons q rest => exact hempty p (List.mem_cons_of_mem _ hp)
    | cons e es =>
      cases rest with
      | cons q rest =>
        have hnil := hempty (k, sp) List.mem_cons_self
        rw [hentries] at hnil
        cases hnil
      | nil =>
        refine ⟨_, _, rfl, .inr ?_⟩
        simp only [examine, List.length_take, List.length_cons]
        omega

/-- Connections in a port that is not the last one leave a cursor behind. -/
theorem scanPorts_late_error : ∀ {ports : List (ℤ × ServerPort)} {counter : ℕ} {s : TCPServer},
    s.lastCheckedFd = 0 → checkExpiredStep ≤ counter → Disjoint ports →
    (∀ p ∈ ports, ∀ e ∈ p.2.connections.entries, e.1 ≠ 0) →
    (∃ p ∈ ports.dropLast, p.2.connections.entries ≠ []) →
    scanPorts ports counter s = .error .pastEnd := by
  intro ports
  induction ports with
  | nil =>
    rintro counter s _ _ _ _ ⟨p, hp, -⟩
    cases hp
  | cons p rest ih =>
    obtain ⟨k, sp⟩ := p
    rintro counter s h hle hdis hne ⟨p, hp, hp'⟩
    cases rest with
    | nil => cases hp
    | cons q rest =>
      rw [scanPorts_cons (resume_zero h)]
      have hzero : checkExpiredStep - 1 - counter = 0 := by omega
      cases hentries : sp.connections.entries with
      | nil =>
        refine ih rfl (by simpa [examine] using hle) (List.pairwise_cons.mp hdis).2
          (fun p hp => hne p (List.mem_cons_of_mem _ hp)) ⟨p, ?_, hp'⟩
        rcases List.mem_cons.mp hp with rfl | hp
        · exact absurd hentries hp'
        · exact hp
      | cons e es =>
        -- the first connection is where the loop stops, and it is not in the next port
        obtain ⟨k', sp'⟩ := q
        have hmem : e ∈ sp.connections.entries := by rw [hentries]; exact List.mem_cons_self
        rw [hzero]
        refine scanPorts_error (hne _ List.mem_cons_self e hmem) ?_
        refine (List.pairwise_cons.mp hdis).1 _ List.mem_cons_self e.1 ?_
        have hfind : sp.connections.find? e.1 = some e.2 := OrderedMap.find?_eq_some_iff.mpr hmem
        simp [hfind]

theorem eraseExpired_of_ok {counter : ℕ}
    (h : scanPorts s.serverPorts.entries 0 s = .ok (t, counter)) :
    s.eraseExpiredConnections =
      .ok (if counter ≠ checkExpiredStep then t.pointTo 0 else t) := by
  rw [eraseExpiredConnections, h]
  rfl

theorem eraseExpired_of_error {f : Fault} (h : scanPorts s.serverPorts.entries 0 s = .error f) :
    s.eraseExpiredConnections = .error f := by
  rw [eraseExpiredConnections, h]

/-- With too few connections to stop, the call goes through. -/
theorem eraseExpired_few (h : s.lastCheckedFd = 0)
    (hlt : total s.serverPorts.entries < checkExpiredStep) :
    ∃ t, s.eraseExpiredConnections = .ok t ∧ t.lastCheckedFd = 0 := by
  obtain ⟨t, ht, hscan⟩ := scanPorts_few [] h (by rwa [Nat.zero_add])
  rw [List.append_nil, Nat.zero_add] at hscan
  rw [eraseExpired_of_ok (hscan.trans rfl), if_pos (Nat.ne_of_lt hlt)]
  exact ⟨_, rfl, rfl⟩

/-- The scan from the start stops at this connection. -/
structure StopsAt (s : TCPServer) (before : List (ℤ × ServerPort)) (k : ℤ) (sp : ServerPort)
    (after : List (ℤ × ServerPort)) (fd : ℤ) (c : Connection) : Prop where
  ports : s.serverPorts.entries = before ++ (k, sp) :: after
  few : total before < checkExpiredStep
  stop : sp.connections.entries[checkExpiredStep - 1 - total before]? = some (fd, c)

theorem exists_stop : ∀ {ports : List (ℤ × ServerPort)} {counter : ℕ},
    counter < checkExpiredStep → checkExpiredStep ≤ counter + total ports →
    ∃ before k sp after fd c, ports = before ++ (k, sp) :: after ∧
      counter + total before < checkExpiredStep ∧
      sp.connections.entries[checkExpiredStep - 1 - (counter + total before)]? = some (fd, c) := by
  intro ports
  induction ports with
  | nil =>
    intro counter hlt hle
    rw [total_nil] at hle
    omega
  | cons p ports ih =>
    obtain ⟨k, sp⟩ := p
    intro counter hlt hle
    simp only [total_cons] at hle
    by_cases hstop : counter + sp.connections.entries.length < checkExpiredStep
    · obtain ⟨before, k', sp', after, fd, c, heq, hbefore, hc⟩ := ih hstop (by omega)
      refine ⟨(k, sp) :: before, k', sp', after, fd, c, by rw [heq]; rfl, ?_, ?_⟩
      · simp only [total_cons]
        omega
      · simp only [total_cons]
        rwa [← Nat.add_assoc]
    · have hlen : checkExpiredStep - 1 - counter < sp.connections.entries.length := by omega
      exact ⟨[], k, sp, ports, _, _, rfl, hlt, List.getElem?_eq_getElem hlen⟩

theorem exists_stopsAt (h : checkExpiredStep ≤ total s.serverPorts.entries) :
    ∃ before k sp after fd c, StopsAt s before k sp after fd c := by
  obtain ⟨before, k, sp, after, fd, c, hports, hbefore, hc⟩ :=
    @exists_stop s.serverPorts.entries 0 (by decide) (by rwa [Nat.zero_add])
  rw [Nat.zero_add] at hbefore hc
  exact ⟨before, k, sp, after, fd, c, hports, hbefore, hc⟩

namespace StopsAt

variable {before after : List (ℤ × ServerPort)}

theorem scanPorts_eq (h : StopsAt s before k sp after fd c) (h₀ : s.lastCheckedFd = 0) :
    ∃ t, t.lastCheckedFd = fd ∧
      scanPorts s.serverPorts.entries 0 s = scanPorts after checkExpiredStep t := by
  obtain ⟨t, ht, hfew⟩ := scanPorts_few ((k, sp) :: after) h₀
    (by rw [Nat.zero_add]; exact h.few)
  rw [Nat.zero_add] at hfew
  obtain ⟨t', ht', hstop⟩ := @scanPorts_stop _ k fd sp c after _ ht h.few h.stop
  exact ⟨t', ht', by rw [h.ports, hfew, hstop]⟩

theorem mem (h : StopsAt s before k sp after fd c) : (k, sp) ∈ s.serverPorts.entries := by
  rw [h.ports]
  exact List.mem_append_right _ List.mem_cons_self

theorem find? (h : StopsAt s before k sp after fd c) : sp.connections.find? fd = some c :=
  OrderedMap.find?_eq_some_iff.mpr (List.mem_of_getElem? h.stop)

/-- It is in none of the ports behind. -/
theorem find?_after (h : StopsAt s before k sp after fd c) (ho : s.Owned) :
    ∀ p ∈ after, p.2.connections.find? fd = none := by
  have hdis := ho.disjoint
  rw [h.ports] at hdis
  obtain ⟨-, hdis, -⟩ := List.pairwise_append.mp hdis
  intro p hp
  refine (List.pairwise_cons.mp hdis).1 p hp fd ?_
  rw [h.find?]
  exact Option.some_ne_none _

/-- In the last port, the cursor stays. -/
theorem eraseExpired_last (h : StopsAt s before k sp [] fd c) (h₀ : s.lastCheckedFd = 0) :
    ∃ t, s.eraseExpiredConnections = .ok t ∧ t.lastCheckedFd = fd := by
  obtain ⟨t, ht, hscan⟩ := h.scanPorts_eq h₀
  rw [eraseExpired_of_ok (hscan.trans rfl), if_neg (not_not.mpr rfl)]
  exact ⟨t, rfl, ht⟩

/-- In another one, it is searched for in the next one. -/
theorem eraseExpired_error (h : StopsAt s before k sp after fd c) (h₀ : s.lastCheckedFd = 0)
    (ho : s.Owned) (hfd : fd ≠ 0) (hafter : after ≠ []) :
    s.eraseExpiredConnections = .error .pastEnd := by
  obtain ⟨t, rfl, hscan⟩ := h.scanPorts_eq h₀
  refine eraseExpired_of_error (hscan.trans ?_)
  cases after with
  | nil => exact absurd rfl hafter
  | cons p rest => exact scanPorts_error hfd (h.find?_after ho p List.mem_cons_self)

/-- Descriptor 0 leaves no cursor. -/
theorem eraseExpired_zero (h : StopsAt s before k sp after 0 c) (h₀ : s.lastCheckedFd = 0)
    (hempty : ∀ p ∈ after.dropLast, p.2.connections.entries = []) :
    ∃ t, s.eraseExpiredConnections = .ok t ∧ t.lastCheckedFd = 0 := by
  obtain ⟨t, ht, hscan⟩ := h.scanPorts_eq h₀
  obtain ⟨t', counter, hok, hend⟩ := scanPorts_late ht (Nat.le_refl _) hempty
  rw [eraseExpired_of_ok (hscan.trans hok)]
  refine ⟨_, rfl, ?_⟩
  split_ifs with hcounter
  · rfl
  · exact hend.resolve_right hcounter

theorem eraseExpired_zero_error (h : StopsAt s before k sp after 0 c) (h₀ : s.lastCheckedFd = 0)
    (ho : s.Owned) (hempty : ¬∀ p ∈ after.dropLast, p.2.connections.entries = []) :
    s.eraseExpiredConnections = .error .pastEnd := by
  obtain ⟨t, ht, hscan⟩ := h.scanPorts_eq h₀
  have hdis := ho.disjoint
  rw [h.ports] at hdis
  obtain ⟨-, hdis, -⟩ := List.pairwise_append.mp hdis
  refine eraseExpired_of_error (hscan.trans
    (scanPorts_late_error ht (Nat.le_refl _) (List.pairwise_cons.mp hdis).2 ?_ ?_))
  · rintro p hp ⟨fd, c'⟩ he rfl
    have hnone := h.find?_after ho p hp
    rw [OrderedMap.find?_eq_some_iff.mpr he] at hnone
    cases hnone
  · simpa only [not_forall, exists_prop] using hempty

end StopsAt

/-! ### One port -/

section Single

variable {it pre : List (ℤ × Connection)}

/-- The expired ones among these connections of a port. -/
def expiredAt (now : ℕ) (k : ℤ) (l : List (ℤ × Connection)) : List (ℤ × ℤ) :=
  expiredOf now (l.map fun e => (k, e.1, e.2))

theorem mem_expiredAt {now : ℕ} {l : List (ℤ × Connection)} :
    (k, fd) ∈ expiredAt now k l ↔ ∃ c, (fd, c) ∈ l ∧ c.data.expired now = true := by
  simp [expiredAt, expiredOf]

theorem expiredAt_append (now : ℕ) (k : ℤ) (l l' : List (ℤ × Connection)) :
    expiredAt now k (l ++ l') = expiredAt now k l ++ expiredAt now k l' := by
  rw [expiredAt, List.map_append, expiredOf_append, expiredAt, expiredAt]

/-- A call on one port. -/
theorem eraseExpired_single (hports : s.serverPorts.entries = [(k, sp)])
    (hresume : resume s.lastCheckedFd sp.connections = .ok it) :
    s.eraseExpiredConnections =
      let t := (s.eraseAll (expiredAt s.nowTime k (it.take checkExpiredStep))).pointTo
        (((it[checkExpiredStep - 1]?).map Prod.fst).getD 0)
      .ok (if (it.take checkExpiredStep).length ≠ checkExpiredStep then t.pointTo 0 else t) := by
  have hscan : scanPorts [(k, sp)] 0 s = _ := scanPorts_cons hresume
  rw [← hports] at hscan
  rw [eraseExpired_of_ok (hscan.trans rfl), Nat.zero_add]
  rfl

/-- What the next call finds, if the one before has stopped at a connection that is not
expired. -/
theorem without_eq {front rest : List (ℤ × Connection)} {e : ℤ × Connection} {now : ℕ}
    (hentries : sp.connections.entries = pre ++ (front ++ e :: rest))
    (hfresh : e.2.data.expired now = false) :
    ∃ pre', (sp.without k (expiredAt now k (front ++ [e]))).connections.entries =
      pre' ++ e :: rest := by
  have hsorted := sp.connections.sorted
  have hmem : ∀ {e' : ℤ × Connection}, e' ∈ e :: rest →
      (k, e'.1) ∉ expiredAt now k (front ++ [e]) := by
    intro e' he' hin
    obtain ⟨c, hc, hexp⟩ := mem_expiredAt.mp hin
    rw [hentries] at hsorted
    obtain ⟨-, hsorted, -⟩ := List.pairwise_append.mp hsorted
    obtain ⟨-, -, hlt⟩ := List.pairwise_append.mp hsorted
    rcases List.mem_append.mp hc with hc | hc
    · exact lt_irrefl _ (hlt _ hc e' he')
    · obtain rfl := List.mem_singleton.mp hc
      exact absurd hexp (Bool.eq_false_iff.mp hfresh)
  refine ⟨(pre ++ front).filter fun e' => decide ((k, e'.1) ∉ expiredAt now k (front ++ [e])), ?_⟩
  show (sp.connections.entries.filter fun e' => decide ((k, e'.1) ∉ _)) = _
  rw [hentries, ← List.append_assoc, List.filter_append]
  congr 1
  exact List.filter_eq_self.mpr fun e' he' => decide_eq_true (hmem he')

/-- With a connection at which it stops, a scan goes on behind it. -/
theorem stopsFresh_iff {now : ℕ} {e : ℤ × Connection}
    (he : it[checkExpiredStep - 1]? = some e) :
    StopsFresh now it ↔ e.2.data.expired now = false ∧
      StopsFresh now (it.drop checkExpiredStep) := by
  constructor
  · intro h
    refine ⟨h 0 e he, fun i e' he' => h (i + 1) e' ?_⟩
    rw [List.getElem?_drop] at he'
    rw [← he', Nat.mul_succ]
    congr 1
    omega
  · rintro ⟨hfresh, h⟩ i e' he'
    cases i with
    | zero =>
      rw [Nat.mul_zero, Nat.zero_add, he] at he'
      cases he'
      exact hfresh
    | succ i =>
      refine h i e' ?_
      rw [List.getElem?_drop, ← he', Nat.mul_succ]
      congr 1
      omega

theorem stopsFresh_of_few {now : ℕ} (h : it.length < checkExpiredStep) : StopsFresh now it := by
  intro i e he
  have hlt := (List.getElem?_eq_some_iff.mp he).1
  omega

/-- The connection at which a scan stops is not the first one, and so not 0. -/
theorem stop_ne_zero (ho : s.Owned) (hports : s.serverPorts.entries = [(k, sp)])
    (hentries : sp.connections.entries = pre ++ it) {e : ℤ × Connection}
    (he : it[checkExpiredStep - 1]? = some e) : e.1 ≠ 0 := by
  have hstep : checkExpiredStep = 100 := rfl
  have hlen := (List.getElem?_eq_some_iff.mp he).1
  obtain ⟨e₀, rest, rfl⟩ := List.exists_cons_of_length_pos (Nat.lt_of_le_of_lt (Nat.zero_le _) hlen)
  have hsorted := sp.connections.sorted
  rw [hentries] at hsorted
  obtain ⟨-, hsorted, -⟩ := List.pairwise_append.mp hsorted
  have hmem : e ∈ rest := by
    rw [hstep] at he
    exact List.mem_of_getElem? he
  have hlt := (List.pairwise_cons.mp hsorted).1 e hmem
  have hfind : s.find? k e₀.1 = some e₀.2 := by
    rw [find?, port?, OrderedMap.find?_eq_some_iff.mpr (show (k, sp) ∈ _ by rw [hports]; simp)]
    exact OrderedMap.find?_eq_some_iff.mpr (by rw [hentries]; simp)
  have hnonneg := (ho.key hfind).2.1
  omega

/-- A call on one port that stops at `e`. -/
theorem eraseExpired_stop (ho : s.Owned) (hports : s.serverPorts.entries = [(k, sp)])
    (hresume : resume s.lastCheckedFd sp.connections = .ok it) {e : ℤ × Connection}
    (he : it[checkExpiredStep - 1]? = some e) :
    ∃ t, s.eraseExpiredConnections = .ok t ∧ t.lastCheckedFd = e.1 ∧ t.nowTime = s.nowTime ∧
      Erases s t (expiredAt s.nowTime k (it.take checkExpiredStep)) ∧
      t.serverPorts.entries =
        [(k, sp.without k (expiredAt s.nowTime k (it.take checkExpiredStep)))] := by
  have hlt := (List.getElem?_eq_some_iff.mp he).1
  have hlen : (it.take checkExpiredStep).length = checkExpiredStep := by
    rw [List.length_take]
    omega
  have hcall := eraseExpired_single hports hresume
  simp only [he, ne_eq, hlen, not_true_eq_false, if_false, Option.map_some,
    Option.getD_some] at hcall
  generalize expiredAt s.nowTime k (it.take checkExpiredStep) = l at hcall ⊢
  have herases : Erases s ((s.eraseAll l).pointTo e.1) l :=
    (erases_eraseAll l ho).congr rfl rfl rfl rfl rfl rfl rfl
  refine ⟨_, hcall, rfl, eraseAll_nowTime l s, herases, ?_⟩
  rw [herases.serverPorts]
  show s.serverPorts.entries.map _ = _
  rw [hports]
  rfl

/-- A connection that has been erased is not found in the next call. -/
theorem eraseExpired_erased {l : List (ℤ × ℤ)}
    (hports : s.serverPorts.entries = [(k, sp.without k l)])
    (hne : s.lastCheckedFd ≠ 0) (hmem : (k, s.lastCheckedFd) ∈ l) :
    s.eraseExpiredConnections = .error .pastEnd := by
  refine eraseExpired_of_error ?_
  rw [hports]
  refine scanPorts_error hne ?_
  rw [ServerPort.without, OrderedMap.find?_filter, decide_eq_false (not_not.mpr hmem)]
  cases sp.connections.find? s.lastCheckedFd <;> rfl

/-- The calls on one port, from an iterator on. -/
theorem passes_single : ∀ (n : ℕ) {s : TCPServer} {sp : ServerPort}
    (it pre : List (ℤ × Connection)), it.length = n → s.Owned →
    s.serverPorts.entries = [(k, sp)] → sp.connections.entries = pre ++ it →
    resume s.lastCheckedFd sp.connections = .ok it →
    (StopsFresh s.nowTime it → ∃ s', Passes s s' ∧ Erases s s' (expiredAt s.nowTime k it)) ∧
      (¬StopsFresh s.nowTime it → ∀ s', ¬Passes s s') := by
  intro n
  induction n using Nat.strong_induction_on with
  | _ n ih =>
    intro s sp it pre hn ho hports hentries hresume
    by_cases hfew : it.length < checkExpiredStep
    · -- the last call
      have hcall := eraseExpired_single hports hresume
      have htake : it.take checkExpiredStep = it := List.take_of_length_le (by omega)
      simp only [htake, ne_eq, Nat.ne_of_lt hfew, not_false_eq_true, if_true] at hcall
      refine ⟨fun _ => ⟨_, .last hcall rfl, ?_⟩, fun hnot => absurd (stopsFresh_of_few hfew) hnot⟩
      exact (erases_eraseAll _ ho).congr rfl rfl rfl rfl rfl rfl rfl
    · -- a call that stops at `e`
      have hstep : checkExpiredStep = 100 := rfl
      have hlast : checkExpiredStep - 1 < it.length := by omega
      have he := List.getElem?_eq_getElem hlast
      generalize it[checkExpiredStep - 1] = e at he
      have hne := stop_ne_zero ho hports hentries he
      have htake : it.take checkExpiredStep = it.take (checkExpiredStep - 1) ++ [e] := by
        rw [show checkExpiredStep = checkExpiredStep - 1 + 1 from rfl, List.take_add_one]
        simp [he]
      obtain ⟨t, hcall, hcursor, hnow, herases, hports'⟩ := eraseExpired_stop ho hports hresume he
      rw [← hcursor] at hne
      have hpasses : ∀ {s'}, Passes s s' ↔ Passes t s' := passes_iff_of_ne hcall hne
      cases hexp : e.2.data.expired s.nowTime with
      | true =>
        have hmem : (k, t.lastCheckedFd) ∈ expiredAt s.nowTime k (it.take checkExpiredStep) :=
          mem_expiredAt.mpr ⟨e.2, by rw [htake, hcursor]; simp, hexp⟩
        refine ⟨fun hfresh => ?_, fun _ s' hp =>
          not_passes_of_error (eraseExpired_erased hports' hne hmem) (hpasses.mp hp)⟩
        rw [stopsFresh_iff he, hexp] at hfresh
        cases hfresh.1
      | false =>
        -- the next call goes on behind it
        have hsplit : it = it.take (checkExpiredStep - 1) ++ e :: it.drop checkExpiredStep := by
          have h := (List.take_append_drop checkExpiredStep it).symm
          rwa [htake, List.append_assoc, List.singleton_append] at h
        obtain ⟨pre', hentries'⟩ := without_eq (k := k)
          (hentries.trans (congrArg (pre ++ ·) hsplit)) hexp
        rw [← htake] at hentries'
        have hresume' : resume t.lastCheckedFd (sp.without k (expiredAt s.nowTime k
            (it.take checkExpiredStep))).connections = .ok (it.drop checkExpiredStep) := by
          rw [resume, if_pos hne, hcursor, OrderedMap.after?_eq_some hentries']
        have hnext := ih (it.drop checkExpiredStep).length (by rw [List.length_drop]; omega) _
          (pre' ++ [e]) rfl herases.owned hports'
          (by rw [hentries', List.append_assoc, List.singleton_append]) hresume'
        rw [hnow] at hnext
        rw [stopsFresh_iff he]
        refine ⟨fun hfresh => ?_, fun hnot s' hp =>
          hnext.2 (fun hfresh => hnot ⟨hexp, hfresh⟩) s' (hpasses.mp hp)⟩
        obtain ⟨s', hp, hnext'⟩ := hnext.1 hfresh.2
        refine ⟨s', hpasses.mpr hp, ?_⟩
        have htrans := herases.trans hnext'
        rwa [← expiredAt_append, List.take_append_drop] at htrans

end Single

/-! ### What is examined from the start -/

/-- These connections, with their port. -/
def atPort (k : ℤ) (l : List (ℤ × Connection)) : List (ℤ × ℤ × Connection) :=
  l.map fun e => (k, e.1, e.2)

theorem mem_atPort {k' : ℤ} {l : List (ℤ × Connection)} :
    (k', fd, c) ∈ atPort k l ↔ k' = k ∧ (fd, c) ∈ l := by
  simp [atPort, eq_comm, and_comm]

theorem examinedFrom_few : ∀ {ports : List (ℤ × ServerPort)} {counter : ℕ},
    counter + total ports < checkExpiredStep →
    examinedFrom (ports.map fun p => (p.1, p.2.connections.entries)) counter =
      ports.flatMap fun p => atPort p.1 p.2.connections.entries := by
  intro ports
  induction ports with
  | nil => intro counter _; rfl
  | cons p ports ih =>
    intro counter hlt
    simp only [total_cons] at hlt
    have hall : examine counter p.2.connections.entries = p.2.connections.entries :=
      List.take_of_length_le (by omega)
    rw [List.map_cons, examinedFrom, hall, ih (by omega), List.flatMap_cons, atPort]

theorem length_flatMap_atPort (ports : List (ℤ × ServerPort)) :
    (ports.flatMap fun p => atPort p.1 p.2.connections.entries).length = total ports := by
  simp [List.length_flatMap, atPort, total]

theorem examinedFrom_late : ∀ {ports : List (ℤ × ServerPort)} {counter : ℕ},
    checkExpiredStep ≤ counter →
    examinedFrom (ports.map fun p => (p.1, p.2.connections.entries)) counter =
      ports.flatMap fun p => atPort p.1 (p.2.connections.entries.take 1) := by
  intro ports
  induction ports with
  | nil => intro counter _; rfl
  | cons p ports ih =>
    intro counter hle
    have hone : examine counter p.2.connections.entries = p.2.connections.entries.take 1 := by
      rw [examine, show checkExpiredStep - 1 - counter + 1 = 1 by omega]
    rw [List.map_cons, examinedFrom, hone, ih (by omega), List.flatMap_cons, atPort]

theorem iterators_zero (h : s.lastCheckedFd = 0) :
    s.iterators = s.serverPorts.entries.map fun p => (p.1, p.2.connections.entries) := by
  unfold iterators
  cases s.serverPorts.entries with
  | nil => rfl
  | cons p rest => simp [h]

theorem examined_few (h : s.lastCheckedFd = 0)
    (hlt : total s.serverPorts.entries < checkExpiredStep) :
    s.examined = s.serverPorts.entries.flatMap fun p => atPort p.1 p.2.connections.entries := by
  rw [examined, iterators_zero h, examinedFrom_few (by rwa [Nat.zero_add])]

theorem StopsAt.examined {before after : List (ℤ × ServerPort)}
    (h : StopsAt s before k sp after fd c) (h₀ : s.lastCheckedFd = 0) :
    s.examined = (before.flatMap fun p => atPort p.1 p.2.connections.entries) ++
      (atPort k (sp.connections.entries.take (checkExpiredStep - total before)) ++
        after.flatMap fun p => atPort p.1 (p.2.connections.entries.take 1)) := by
  have hfew := h.few
  have hlen := (List.getElem?_eq_some_iff.mp h.stop).1
  have hexamine : examine (total before) sp.connections.entries =
      sp.connections.entries.take (checkExpiredStep - total before) := by
    rw [examine, show checkExpiredStep - 1 - total before + 1 = checkExpiredStep - total before by
      omega]
  have hcount : total before + (examine (total before) sp.connections.entries).length =
      checkExpiredStep := by
    rw [hexamine, List.length_take]
    omega
  rw [TCPServer.examined, iterators_zero h₀, h.ports, List.map_append, examinedFrom_append,
    examinedFrom_few (by rwa [Nat.zero_add]), length_flatMap_atPort, List.map_cons, examinedFrom,
    Nat.zero_add, hcount, examinedFrom_late (Nat.le_refl _), hexamine]
  rfl

/-! ### The condition -/

/-- All expired connections are among these. -/
def Covers (s : TCPServer) (l : List (ℤ × ℤ)) : Prop :=
  ∀ k fd c, s.find? k fd = some c → c.data.expired s.nowTime = true → (k, fd) ∈ l

/-- If expired connections are erased, those that are to be left are left if and only if
all expired ones are erased. -/
theorem left_iff_covers (hw : s.NoWrap) {l : List (ℤ × ℤ)} (he : Erases s s' l)
    (hl : ∀ k fd, (k, fd) ∈ l → ∃ c, s.find? k fd = some c ∧ c.data.expired s.nowTime = true) :
    (∀ k fd c, s'.find? k fd = some c ↔
      s.find? k fd = some c ∧ s.nowTime ≤ c.data.lastTime + c.data.timeout) ↔ s.Covers l := by
  have hexp : ∀ {k fd c}, s.find? k fd = some c →
      (c.data.expired s.nowTime = true ↔ ¬s.nowTime ≤ c.data.lastTime + c.data.timeout) := by
    intro k fd c hc
    rw [ConnectionData.expired, Nat.mod_eq_of_lt (hw k fd c hc), decide_eq_true_eq, Nat.not_le]
  constructor
  · intro h k fd c hc hexpired
    by_contra hnot
    have hleft : s'.find? k fd = some c := by rw [he.find?, if_neg hnot, hc]
    exact (hexp hc).mp hexpired ((h k fd c).mp hleft).2
  · intro h k fd c
    rw [he.find?]
    split_ifs with hmem
    · refine iff_of_false (by simp) ?_
      rintro ⟨hc, hle⟩
      obtain ⟨c', hc', hexpired⟩ := hl k fd hmem
      rw [hc] at hc'
      cases hc'
      exact (hexp hc).mp hexpired hle
    · refine ⟨fun hc => ⟨hc, ?_⟩, fun hc => hc.1⟩
      by_contra hle
      exact hmem (h k fd c hc ((hexp hc).mpr hle))

theorem find?_iff_mem : s.find? k fd = some c ↔
    ∃ sp, (k, sp) ∈ s.serverPorts.entries ∧ (fd, c) ∈ sp.connections.entries := by
  rw [TCPServer.find?, Option.bind_eq_some_iff]
  simp only [port?, OrderedMap.find?_eq_some_iff]

theorem mem_expiredEntries_iff :
    (k, fd) ∈ s.expiredEntries ↔
      ∃ c, (k, fd, c) ∈ s.examined ∧ c.data.expired s.nowTime = true := by
  simp [expiredEntries, expiredOf]

theorem covers_few (h : s.lastCheckedFd = 0)
    (hlt : total s.serverPorts.entries < checkExpiredStep) : s.Covers s.expiredEntries := by
  intro k fd c hc hexp
  obtain ⟨sp, hsp, hmem⟩ := find?_iff_mem.mp hc
  refine mem_expiredEntries_iff.mpr ⟨c, ?_, hexp⟩
  rw [examined_few h hlt]
  exact List.mem_flatMap.mpr ⟨(k, sp), hsp, mem_atPort.mpr ⟨rfl, hmem⟩⟩

/-- A descriptor is in front of a point of the map, or behind it. -/
theorem not_mem_drop_of_mem_take {n : ℕ} {m : OrderedMap ℤ Connection} {fd : ℤ} {c c' : Connection}
    (h : (fd, c) ∈ m.entries.take n) : (fd, c') ∉ m.entries.drop n := by
  intro h'
  have hsorted := m.sorted
  rw [← List.take_append_drop n m.entries] at hsorted
  exact absurd ((List.pairwise_append.mp hsorted).2.2 _ h _ h') (lt_irrefl fd)

namespace StopsAt

variable {before after : List (ℤ × ServerPort)}

/-- The ports in front of the one in which the scan stops, and those behind. -/
theorem keys (h : StopsAt s before k sp after fd c) :
    (∀ p ∈ before, p.1 < k) ∧ ∀ p ∈ after, k < p.1 := by
  have hsorted := s.serverPorts.sorted
  rw [h.ports] at hsorted
  obtain ⟨-, hrest, hlt⟩ := List.pairwise_append.mp hsorted
  exact ⟨fun p hp => hlt p hp _ List.mem_cons_self, (List.pairwise_cons.mp hrest).1⟩

theorem mem_examined (h : StopsAt s before k sp after fd c) (h₀ : s.lastCheckedFd = 0)
    {k' fd' : ℤ} {c' : Connection} : (k', fd', c') ∈ s.examined ↔
      (∃ p ∈ before, k' = p.1 ∧ (fd', c') ∈ p.2.connections.entries) ∨
      (k' = k ∧ (fd', c') ∈ sp.connections.entries.take (checkExpiredStep - total before)) ∨
      ∃ p ∈ after, k' = p.1 ∧ (fd', c') ∈ p.2.connections.entries.take 1 := by
  simp only [h.examined h₀, List.mem_append, List.mem_flatMap, mem_atPort]

/-- What is examined of the port in which the scan stops. -/
theorem mem_take_of_examined (h : StopsAt s before k sp after fd c) (h₀ : s.lastCheckedFd = 0)
    {fd' : ℤ} {c' : Connection} (hin : (k, fd', c') ∈ s.examined) :
    (fd', c') ∈ sp.connections.entries.take (checkExpiredStep - total before) := by
  obtain ⟨hbefore, hafter⟩ := h.keys
  rcases (h.mem_examined h₀).mp hin with ⟨p, hp, heq, -⟩ | ⟨-, hin⟩ | ⟨p, hp, heq, -⟩
  · exact absurd heq (hbefore p hp).ne'
  · exact hin
  · exact absurd heq (hafter p hp).ne

/-- What is examined of a port behind it. -/
theorem mem_take_of_examined_after (h : StopsAt s before k sp after fd c)
    (h₀ : s.lastCheckedFd = 0) {p : ℤ × ServerPort} (hp : p ∈ after) {fd' : ℤ} {c' : Connection}
    (hin : (p.1, fd', c') ∈ s.examined) : (fd', c') ∈ p.2.connections.entries.take 1 := by
  obtain ⟨hbefore, hafter⟩ := h.keys
  rcases (h.mem_examined h₀).mp hin with ⟨q, hq, heq, -⟩ | ⟨heq, -⟩ | ⟨q, hq, heq, hin⟩
  · exact absurd heq (lt_trans (hbefore q hq) (hafter p hp)).ne'
  · exact absurd heq (hafter p hp).ne'
  · have hmem : ∀ {r : ℤ × ServerPort}, r ∈ after → (r.1, r.2) ∈ s.serverPorts.entries := by
      intro r hr
      rw [h.ports]
      exact List.mem_append_right _ (List.mem_cons_of_mem _ hr)
    have hq' := hmem hq
    rw [← heq] at hq'
    rwa [OrderedMap.eq_of_mem (hmem hp) hq']

/-- The scan examines all connections but those that are behind where it stops in its
port, and behind the first one in the ports after it. -/
theorem covers_iff (h : StopsAt s before k sp after fd c) (h₀ : s.lastCheckedFd = 0) :
    s.Covers s.expiredEntries ↔
      Fresh s.nowTime (sp.connections.entries.drop (checkExpiredStep - total before)) ∧
        ∀ p ∈ after, Fresh s.nowTime p.2.connections.entries.tail := by
  constructor
  · intro hcovers
    refine ⟨fun e he => Bool.eq_false_iff.mpr fun hexp => ?_,
      fun p hp e he => Bool.eq_false_iff.mpr fun hexp => ?_⟩
    · -- at the port at which the step is completed
      have hc' : s.find? k e.1 = some e.2 :=
        find?_iff_mem.mpr ⟨sp, h.mem, List.mem_of_mem_drop he⟩
      obtain ⟨c', hin, -⟩ := mem_expiredEntries_iff.mp (hcovers k e.1 e.2 hc' hexp)
      exact not_mem_drop_of_mem_take (h.mem_take_of_examined h₀ hin) he
    · -- at a port after it, of which only the first connection is examined
      have hport : (p.1, p.2) ∈ s.serverPorts.entries := by
        rw [h.ports]
        exact List.mem_append_right _ (List.mem_cons_of_mem _ hp)
      have hc' : s.find? p.1 e.1 = some e.2 :=
        find?_iff_mem.mpr ⟨p.2, hport, List.mem_of_mem_tail he⟩
      obtain ⟨c', hin, -⟩ := mem_expiredEntries_iff.mp (hcovers p.1 e.1 e.2 hc' hexp)
      rw [← List.drop_one] at he
      exact not_mem_drop_of_mem_take (h.mem_take_of_examined_after h₀ hp hin) he
  · rintro ⟨hrest, htails⟩ k' fd' c' hc' hexp
    refine mem_expiredEntries_iff.mpr ⟨c', ?_, hexp⟩
    obtain ⟨sp', hsp', hmem⟩ := find?_iff_mem.mp hc'
    rw [h.ports] at hsp'
    rw [h.mem_examined h₀]
    rcases List.mem_append.mp hsp' with hsp' | hsp'
    · exact .inl ⟨_, hsp', rfl, hmem⟩
    · rcases List.mem_cons.mp hsp' with heq | hsp'
      · cases heq
        rw [← List.take_append_drop (checkExpiredStep - total before)
          sp.connections.entries] at hmem
        rcases List.mem_append.mp hmem with hmem | hmem
        · exact .inr (.inl ⟨rfl, hmem⟩)
        · rw [hrest _ hmem] at hexp
          cases hexp
      · rw [← List.take_append_drop 1 sp'.connections.entries] at hmem
        rcases List.mem_append.mp hmem with hmem | hmem
        · exact .inr (.inr ⟨_, hsp', rfl, hmem⟩)
        · rw [List.drop_one] at hmem
          rw [htails _ hsp' _ hmem] at hexp
          cases hexp

/-- The call after one that has stopped in a port that is not the first one. -/
theorem not_passes_last (h : StopsAt s before k sp [] fd c) (h₀ : s.lastCheckedFd = 0)
    (ho : s.Owned) (hfd : fd ≠ 0) (hbefore : before ≠ []) : ¬Passes s s' := by
  obtain ⟨t, hcall, rfl⟩ := h.eraseExpired_last h₀
  have herases := erases_eraseExpiredConnections ho hcall
  rw [passes_iff_of_ne hcall hfd]
  refine not_passes_of_error (f := .pastEnd) (eraseExpired_of_error ?_)
  obtain ⟨⟨k₀, sp₀⟩, rest, rfl⟩ := List.exists_cons_of_ne_nil hbefore
  have hports : t.serverPorts.entries = (k₀, sp₀.without k₀ s.expiredEntries) ::
      (rest ++ [(k, sp)]).map fun p => (p.1, p.2.without p.1 s.expiredEntries) := by
    rw [herases.serverPorts]
    show s.serverPorts.entries.map _ = _
    rw [h.ports]
    rfl
  -- the descriptor belongs to the last port
  have hdis := ho.disjoint
  rw [h.ports] at hdis
  have hnone : sp₀.connections.find? t.lastCheckedFd = none := by
    by_contra hne
    have hlast := (List.pairwise_cons.mp hdis).1 (k, sp) (by simp) _ hne
    rw [h.find?] at hlast
    cases hlast
  rw [hports]
  refine scanPorts_error hfd ?_
  rw [ServerPort.without, OrderedMap.find?_filter, hnone]
  rfl

end StopsAt

/-! ### The sliced scan -/

/-- If one call is enough, what matters is that it covers all expired connections. -/
theorem scansAll_iff_covers (ho : s.Owned) (hw : s.NoWrap)
    (hcall : s.eraseExpiredConnections = .ok t)
    (ht : t.lastCheckedFd = 0) : s.ScansAll ↔ s.Covers s.expiredEntries := by
  have hleft := left_iff_covers hw (erases_eraseExpiredConnections ho hcall)
    fun _ _ => mem_expiredEntries
  unfold ScansAll
  simp only [passes_iff_of_zero hcall ht, exists_eq_left]
  exact hleft

theorem scansAll_single (ho : s.Owned) (hw : s.NoWrap) (h₀ : s.lastCheckedFd = 0)
    (hports : s.serverPorts.entries = [(k, sp)]) :
    s.ScansAll ↔ StopsFresh s.nowTime sp.connections.entries := by
  obtain ⟨hpasses, hnot⟩ := passes_single _ sp.connections.entries [] rfl ho hports rfl
    (resume_zero h₀)
  constructor
  · rintro ⟨s', hp, -⟩
    by_contra hstops
    exact hnot hstops s' hp
  · intro hstops
    obtain ⟨s', hp, he⟩ := hpasses hstops
    have hmem : ∀ {k' fd c}, s.find? k' fd = some c ↔
        k' = k ∧ (fd, c) ∈ sp.connections.entries := by
      intro k' fd c
      rw [find?_iff_mem, hports]
      simp [and_assoc]
    refine ⟨s', hp, (left_iff_covers hw he fun k' fd hin => ?_).mpr fun k' fd c hc hexp => ?_⟩
    · obtain ⟨c, hin, hexp⟩ := mem_expiredOf hin
      exact ⟨c, hmem.mpr (mem_atPort.mp hin), hexp⟩
    · obtain ⟨rfl, hin⟩ := hmem.mp hc
      exact mem_expiredAt.mpr ⟨c, hin, hexp⟩

/-- **The sliced scan equals a full scan if and only if the ports are sliceable.** -/
theorem scansAll_iff_sliceable (ho : s.Owned) (hw : s.NoWrap) (h₀ : s.lastCheckedFd = 0) :
    s.ScansAll ↔ s.Sliceable := by
  constructor
  · intro hall
    by_cases hfew : total s.serverPorts.entries < checkExpiredStep
    · exact .few hfew
    · obtain ⟨before, k, sp, after, fd, c, h⟩ := exists_stopsAt (Nat.le_of_not_lt hfew)
      have ⟨s', hp, _⟩ := hall
      by_cases hfd : fd = 0
      · -- descriptor 0 is no cursor, and the next ports are begun
        subst hfd
        by_cases hempty : ∀ p ∈ after.dropLast, p.2.connections.entries = []
        · obtain ⟨t, hcall, ht⟩ := h.eraseExpired_zero h₀ hempty
          obtain ⟨hrest, htails⟩ :=
            (h.covers_iff h₀).mp ((scansAll_iff_covers ho hw hcall ht).mp hall)
          exact .zero h.ports h.few h.stop hempty hrest htails
        · exact absurd hp (not_passes_of_error (h.eraseExpired_zero_error h₀ ho hempty))
      · -- a cursor is looked for at the wrong port, unless there is only one
        cases after with
        | cons p rest =>
          exact absurd hp (not_passes_of_error
            (h.eraseExpired_error h₀ ho hfd (List.cons_ne_nil _ _)))
        | nil =>
          cases before with
          | cons p rest =>
            exact absurd hp (h.not_passes_last h₀ ho hfd (List.cons_ne_nil _ _))
          | nil => exact .single h.ports ((scansAll_single ho hw h₀ h.ports).mp hall)
  · intro hslice
    cases hslice with
    | few hfew =>
      obtain ⟨t, hcall, ht⟩ := eraseExpired_few h₀ hfew
      exact (scansAll_iff_covers ho hw hcall ht).mpr (covers_few h₀ hfew)
    | single hports hstops => exact (scansAll_single ho hw h₀ hports).mpr hstops
    | @zero before after k sp c hports hfew hstop hempty hrest htails =>
      have h : StopsAt s before k sp after 0 c := ⟨hports, hfew, hstop⟩
      obtain ⟨t, hcall, ht⟩ := h.eraseExpired_zero h₀ hempty
      exact (scansAll_iff_covers ho hw hcall ht).mpr ((h.covers_iff h₀).mpr ⟨hrest, htails⟩)

/-! ### Idle connections -/

/-- Connection `i` has descriptor `10 + i`, and has been idle since time 0. -/
def idleConnection (i : ℕ) : ℤ × Connection :=
  (10 + (i : ℤ), ⟨i, newConnectionData (10 + (i : ℤ)) 0 60⟩)

/-- At time 100 there are `n` idle connections at one port. -/
def idle (n : ℕ) : TCPServer where
  nowTime := 100
  currentTime := 100
  serverPorts := OrderedMap.empty.insert 3 ⟨6999, 3, 1000, 60, 4096, "echo",
    ⟨(List.range n).map idleConnection, List.pairwise_lt_range.map _ fun i j h => by
      simpa [idleConnection] using h⟩⟩
  lastCheckedFd := 0
  nextId := n
  live := List.range n
  log := []

theorem find?_idle {n : ℕ} : (idle n).find? k fd = some c ↔
    k = 3 ∧ ∃ i < n, idleConnection i = (fd, c) := by
  rw [find?_iff_mem]
  constructor
  · rintro ⟨sp, hsp, hmem⟩
    obtain heq : (k, sp) = _ := List.mem_singleton.mp hsp
    cases heq
    obtain ⟨i, hi, heq⟩ := List.mem_map.mp hmem
    exact ⟨rfl, i, List.mem_range.mp hi, heq⟩
  · rintro ⟨rfl, i, hi, heq⟩
    exact ⟨_, List.mem_singleton.mpr rfl, List.mem_map.mpr ⟨i, List.mem_range.mpr hi, heq⟩⟩

theorem owned_idle (n : ℕ) : (idle n).Owned where
  key := by
    intro k fd c hc
    obtain ⟨-, i, -, heq⟩ := find?_idle.mp hc
    cases heq
    refine ⟨rfl, by omega, OrderedMap.find?_eq_none_iff.mpr fun sp hsp => ?_⟩
    have hkey := congrArg Prod.fst (List.mem_singleton.mp hsp)
    simp only at hkey
    omega
  port := by
    intro k k' fd c c' hc hc'
    rw [(find?_idle.mp hc).1, (find?_idle.mp hc').1]
  object := by
    intro k fd c k' fd' c' hc hc' hid
    obtain ⟨rfl, i, -, heq⟩ := find?_idle.mp hc
    obtain ⟨rfl, j, -, heq'⟩ := find?_idle.mp hc'
    cases heq
    cases heq'
    obtain rfl : i = j := hid
    exact ⟨rfl, rfl⟩
  live := by
    intro id
    show id ∈ List.range n ↔ _
    rw [List.mem_range]
    constructor
    · intro hid
      exact ⟨3, _, _, find?_idle.mpr ⟨rfl, id, hid, rfl⟩, rfl⟩
    · rintro ⟨k, fd, c, hc, rfl⟩
      obtain ⟨-, i, hi, heq⟩ := find?_idle.mp hc
      cases heq
      exact hi
  fresh := List.mem_range.mp

theorem noWrap_idle (n : ℕ) : (idle n).NoWrap := by
  intro k fd c hc
  obtain ⟨-, i, -, heq⟩ := find?_idle.mp hc
  cases heq
  show 0 + 60 < 2 ^ 32
  decide

/-- One call erases 99 connections. -/
theorem scansAll_idle : (idle 99).ScansAll :=
  (scansAll_iff_sliceable (owned_idle 99) (noWrap_idle 99) rfl).mpr
    (.few (by simp [total, idle, OrderedMap.insert, OrderedMap.empty, checkExpiredStep]))

/-- The first call erases the first 100 of 150 connections, with the one at which it has
stopped; the second one does not find it. -/
theorem not_scansAll_of_erased :
    ¬∀ s : TCPServer, s.Owned → s.NoWrap → s.lastCheckedFd = 0 → s.ScansAll := by
  intro h
  have hall := h (idle 150) (owned_idle 150) (noWrap_idle 150) rfl
  have hstops := (scansAll_single (owned_idle 150) (noWrap_idle 150) rfl rfl).mp hall
  have hexp := hstops 0 (idleConnection 99) rfl
  exact Bool.noConfusion hexp

end TCPServer
end Server
end PeeledOrange
