import PeeledOrange.Server.Effects

/-!
# What a call of `EraseExpiredConnections` examines

A call goes through the ports in order and examines the connections of each, from
the cursor on in the first port and from the start in the others, until it has
examined `CHECK_EXPIRED_STEP` of them; of those it erases the expired ones.  A
cursor that is left behind before the last port is searched for in the next one,
and as descriptors are owned by one port, it is not there: what happens then is
undefined.

## Main definitions

* `examine`, `TCPServer.examined` — what a call examines.
* `TCPServer.expiredEntries` — what it is to erase.
* `TCPServer.Erases` — a state is left by erasing entries.
* `ConnectionData.Overdue` — the condition for a connection to be expired, over the
  integers.

## Main results

* `scan_eq` — the inner loop.
* `erases_eraseExpiredConnections`, `erases_onTimer` — **a call with defined
  behaviour erases the expired ones of what it examines.**
* `marked_iff_overdue` — **these are the overdue ones if and only if the sum of the time
  and the timeout fits in 32 bits.**
-/

namespace PeeledOrange
namespace Server

/-! ### The inner loop -/

/-- What the inner loop examines from an iterator on: up to the step, and one at least. -/
def examine (counter : ℕ) (it : List (ℤ × Connection)) : List (ℤ × Connection) :=
  it.take (checkExpiredStep - 1 - counter + 1)

/-- The inner loop marks the expired ones of what it examines, and stops at the last of
these if there is nothing missing. -/
theorem scan_eq (now : ℕ) : ∀ (it : List (ℤ × Connection)) (counter : ℕ),
    scan now counter it =
      ⟨((examine counter it).filter fun e => e.2.data.expired now).map Prod.fst,
        counter + (examine counter it).length,
        (it[checkExpiredStep - 1 - counter]?).map Prod.fst⟩ := by
  intro it
  induction it with
  | nil => intro counter; simp [scan, examine]
  | cons e rest ih =>
    intro counter
    obtain ⟨fd, c⟩ := e
    have hmark : ∀ l : List (ℤ × Connection),
        (if c.data.expired now then [fd] else []) ++
          (l.filter fun e => e.2.data.expired now).map Prod.fst =
        (((fd, c) :: l).filter fun e => e.2.data.expired now).map Prod.fst := fun l => by
      by_cases hexp : c.data.expired now = true <;> simp [hexp]
    have hstep : checkExpiredStep = 100 := rfl
    rw [scan]
    by_cases hstop : counter + 1 ≥ checkExpiredStep
    · have hzero : checkExpiredStep - 1 - counter = 0 := by omega
      have hone : examine counter ((fd, c) :: rest) = [(fd, c)] := by simp [examine, hzero]
      rw [if_pos hstop, hone, hzero, ← hmark []]
      simp
    · have hsucc : checkExpiredStep - 1 - counter = checkExpiredStep - 1 - (counter + 1) + 1 := by
        omega
      have hcons : examine counter ((fd, c) :: rest) = (fd, c) :: examine (counter + 1) rest := by
        rw [examine, List.take_succ_cons, examine, hsucc]
      rw [if_neg hstop, ih, hcons, ← hmark, hsucc]
      simp only [List.length_cons, List.getElem?_cons_succ, Scan.mk.injEq, true_and, and_true]
      omega

/-! ### The outer loop -/

/-- What a call examines, from these iterators of the ports on. -/
def examinedFrom : List (ℤ × List (ℤ × Connection)) → ℕ → List (ℤ × ℤ × Connection)
  | [], _ => []
  | (k, it) :: rest, counter =>
    (examine counter it).map (fun e => (k, e.1, e.2)) ++
      examinedFrom rest (counter + (examine counter it).length)

theorem examinedFrom_append : ∀ (its its' : List (ℤ × List (ℤ × Connection))) (counter : ℕ),
    examinedFrom (its ++ its') counter = examinedFrom its counter ++
      examinedFrom its' (counter + (examinedFrom its counter).length) := by
  intro its its'
  induction its with
  | nil => intro counter; rfl
  | cons i its ih =>
    intro counter
    obtain ⟨k, it⟩ := i
    simp only [List.cons_append, examinedFrom, ih, List.append_assoc, List.length_append,
      List.length_map, Nat.add_assoc]

/-- Of what is examined, what is expired. -/
def expiredOf (now : ℕ) (l : List (ℤ × ℤ × Connection)) : List (ℤ × ℤ) :=
  (l.filter fun t => t.2.2.data.expired now).map fun t => (t.1, t.2.1)

theorem expiredOf_append (now : ℕ) (l l' : List (ℤ × ℤ × Connection)) :
    expiredOf now (l ++ l') = expiredOf now l ++ expiredOf now l' := by
  simp [expiredOf]

theorem expiredOf_map (now : ℕ) (k : ℤ) (l : List (ℤ × Connection)) :
    expiredOf now (l.map fun e => (k, e.1, e.2)) =
      ((l.filter fun e => e.2.data.expired now).map Prod.fst).map (k, ·) := by
  induction l with
  | nil => rfl
  | cons e l ih =>
    simp only [expiredOf, List.map_cons, List.filter_cons] at ih ⊢
    split_ifs
    · rw [List.map_cons, List.map_cons, List.map_cons, ih]
    · exact ih

namespace TCPServer

variable {s : TCPServer} {k k' fd fd' : ℤ} {c : Connection}

/-- The iterators of the ports: at the cursor, if there is one, in the first port, and
at the start in the others. -/
def iterators (s : TCPServer) : List (ℤ × List (ℤ × Connection)) :=
  match s.serverPorts.entries with
  | [] => []
  | (k, sp) :: rest =>
    (k, if s.lastCheckedFd ≠ 0 then (sp.connections.after? s.lastCheckedFd).getD []
      else sp.connections.entries) :: rest.map fun e => (e.1, e.2.connections.entries)

/-- What a call of `EraseExpiredConnections` examines. -/
def examined (s : TCPServer) : List (ℤ × ℤ × Connection) := examinedFrom s.iterators 0

/-- What it is to erase. -/
def expiredEntries (s : TCPServer) : List (ℤ × ℤ) := expiredOf s.nowTime s.examined

/-- The entries are erased one by one. -/
def eraseAll (s : TCPServer) (l : List (ℤ × ℤ)) : TCPServer :=
  l.foldl (fun s m => s.eraseConnection m.1 m.2) s

theorem eraseAll_append (s : TCPServer) (l l' : List (ℤ × ℤ)) :
    s.eraseAll (l ++ l') = (s.eraseAll l).eraseAll l' := List.foldl_append ..

theorem eraseConnection_nowTime : (s.eraseConnection k fd).nowTime = s.nowTime := by
  unfold eraseConnection
  split <;> rfl

theorem eraseAll_nowTime : ∀ (l : List (ℤ × ℤ)) (s : TCPServer),
    (s.eraseAll l).nowTime = s.nowTime := by
  intro l
  induction l with
  | nil => intro s; rfl
  | cons m l ih => intro s; exact (ih _).trans eraseConnection_nowTime

/-- The cursor is at `x`. -/
def pointTo (s : TCPServer) (x : ℤ) : TCPServer := { s with lastCheckedFd := x }

/-- Where the cursor is does not matter to the entries. -/
theorem eraseConnection_pointTo (x k fd : ℤ) :
    (s.pointTo x).eraseConnection k fd = (s.eraseConnection k fd).pointTo x := by
  have hfind : (s.pointTo x).find? k fd = s.find? k fd := rfl
  unfold eraseConnection
  rw [hfind]
  cases s.find? k fd <;> rfl

theorem eraseAll_pointTo (x : ℤ) : ∀ (l : List (ℤ × ℤ)) (s : TCPServer),
    (s.pointTo x).eraseAll l = (s.eraseAll l).pointTo x := by
  intro l
  induction l with
  | nil => intro s; rfl
  | cons m l ih =>
    intro s
    show ((s.pointTo x).eraseConnection m.1 m.2).eraseAll l = _
    rw [eraseConnection_pointTo, ih]
    rfl

/-- The ports have no descriptor in common. -/
def Disjoint (ports : List (ℤ × ServerPort)) : Prop :=
  ports.Pairwise fun p q => ∀ fd, p.2.connections.find? fd ≠ none →
    q.2.connections.find? fd = none

/-- The inner loop and the erasures of one port. -/
theorem scanPorts_cons {sp : ServerPort} {rest : List (ℤ × ServerPort)} {counter : ℕ}
    {it : List (ℤ × Connection)} (hit : resume s.lastCheckedFd sp.connections = .ok it) :
    scanPorts ((k, sp) :: rest) counter s =
      scanPorts rest (counter + (examine counter it).length)
        ((s.eraseAll (expiredOf s.nowTime ((examine counter it).map fun e =>
          (k, e.1, e.2)))).pointTo
          (((it[checkExpiredStep - 1 - counter]?).map Prod.fst).getD 0)) := by
  rw [scanPorts, hit]
  simp only [scan_eq]
  rw [← eraseAll_pointTo, expiredOf_map, eraseAll]
  simp only [List.foldl_map]
  rfl

/-- A cursor that is left behind before the last port is in none of the next ones. -/
theorem resume_rest {sp sp' : ServerPort} {rest : List (ℤ × ServerPort)}
    (hdis : Disjoint ((k, sp) :: rest)) (hmem : (k', sp') ∈ rest) {n : ℕ}
    {it : List (ℤ × Connection)} (hsub : ∀ e ∈ it, e ∈ sp.connections.entries) {x : ℤ}
    (hx : x = ((it[n]?).map Prod.fst).getD 0) (hx0 : x ≠ 0) :
    sp'.connections.find? x = none := by
  cases hn : it[n]? with
  | none =>
    rw [hn] at hx
    exact absurd hx hx0
  | some e =>
    rw [hn] at hx
    obtain rfl : x = e.1 := hx
    have hin : sp.connections.find? e.1 = some e.2 :=
      OrderedMap.find?_eq_some_iff.mpr (hsub e (List.mem_of_getElem? hn))
    refine (List.pairwise_cons.mp hdis).1 _ hmem e.1 ?_
    rw [hin]
    exact Option.some_ne_none _

/-- The outer loop, if what it does is defined, from a cursor on that is in none of the
ports. -/
theorem scanPorts_rest : ∀ {ports : List (ℤ × ServerPort)} {counter counter' : ℕ}
    {s s' : TCPServer}, Disjoint ports →
    (s.lastCheckedFd ≠ 0 → ∀ p ∈ ports, p.2.connections.find? s.lastCheckedFd = none) →
    scanPorts ports counter s = .ok (s', counter') → ∃ x, s' =
      (s.eraseAll (expiredOf s.nowTime
        (examinedFrom (ports.map fun e => (e.1, e.2.connections.entries)) counter))).pointTo x := by
  intro ports
  induction ports with
  | nil =>
    intro counter counter' s s' _ _ h
    cases h
    exact ⟨s.lastCheckedFd, rfl⟩
  | cons p rest ih =>
    obtain ⟨k, sp⟩ := p
    intro counter counter' s s' hdis hcursor h
    have hzero : s.lastCheckedFd = 0 := by
      by_contra hne
      rw [scanPorts, resume, if_pos hne, OrderedMap.after?,
        hcursor hne _ List.mem_cons_self] at h
      cases h
    have hit : resume s.lastCheckedFd sp.connections = .ok sp.connections.entries := by
      rw [resume, if_neg (not_not.mpr hzero)]
    rw [scanPorts_cons hit] at h
    obtain ⟨x, hx⟩ := ih (List.pairwise_cons.mp hdis).2
      (fun hne p hp => resume_rest hdis hp (fun _ he => he) rfl hne) h
    have hnow : ∀ l y, ((s.eraseAll l).pointTo y).nowTime = s.nowTime :=
      fun l _ => eraseAll_nowTime l s
    refine ⟨x, ?_⟩
    rw [hx, eraseAll_pointTo, hnow, List.map_cons, examinedFrom, expiredOf_append,
      eraseAll_append]
    rfl

/-! ### The erasures -/

end TCPServer

/-- The port without these entries. -/
def ServerPort.without (sp : ServerPort) (k : ℤ) (l : List (ℤ × ℤ)) : ServerPort :=
  { sp with connections := sp.connections.filter fun fd _ => decide ((k, fd) ∉ l) }

theorem ServerPort.without_eq_self {sp : ServerPort} {k : ℤ} {l : List (ℤ × ℤ)}
    (h : ∀ e ∈ sp.connections.entries, (k, e.1) ∉ l) : sp.without k l = sp := by
  rw [without, OrderedMap.filter_eq_self fun e he => decide_eq_true (h e he)]

theorem ServerPort.without_without (sp : ServerPort) (k : ℤ) (l l' : List (ℤ × ℤ)) :
    (sp.without k l).without k l' = sp.without k (l ++ l') := by
  simp only [without, OrderedMap.filter_filter, List.mem_append, not_or, Bool.decide_and]

namespace TCPServer

variable {s s' : TCPServer} {k k' fd fd' : ℤ} {c : Connection}

theorem serverPorts_modifyConnections {f : OrderedMap ℤ Connection → OrderedMap ℤ Connection} :
    (s.modifyConnections k f).serverPorts = s.serverPorts.map fun k' sp =>
      if k' = k then { sp with connections := f sp.connections } else sp := rfl

theorem serverPorts_eraseConnection : (s.eraseConnection k fd).serverPorts =
    s.serverPorts.map fun k' sp => sp.without k' [(k, fd)] := by
  have hother : ∀ {k' : ℤ} {sp : ServerPort}, k' ≠ k → sp.without k' [(k, fd)] = sp :=
    fun hne => ServerPort.without_eq_self fun e _ => by simp [hne]
  cases hc : s.find? k fd with
  | none =>
    rw [eraseConnection_of_none hc, OrderedMap.map_eq_self]
    rintro ⟨k', sp⟩ hsp
    refine ServerPort.without_eq_self fun e he hmem => ?_
    obtain ⟨rfl, rfl⟩ : k' = k ∧ e.1 = fd := by simpa using hmem
    rw [find?, port?, OrderedMap.find?_eq_some_iff.mpr hsp] at hc
    exact OrderedMap.find?_eq_none_iff.mp hc e.2 he
  | some c =>
    rw [eraseConnection_of_find? hc]
    refine (@serverPorts_modifyConnections s k (·.erase fd)).trans
      (OrderedMap.map_congr fun e _ => ?_)
    split_ifs with hk
    · have hkept : (fun (fd' : ℤ) (_ : Connection) => fd' != fd) =
          fun fd' _ => decide ((e.1, fd') ∉ [(k, fd)]) := by
        funext fd' _
        by_cases hfd : fd' = fd <;> simp [hk, hfd]
      rw [ServerPort.without, OrderedMap.erase, hkept]
    · exact (hother hk).symm

theorem log_eraseConnection :
    ∃ ids : List ℕ, (s.eraseConnection k fd).log = s.log ++ ids.map .destroy := by
  cases hc : s.find? k fd with
  | none => exact ⟨[], by rw [eraseConnection_of_none hc]; simp⟩
  | some c => exact ⟨[c.id], by rw [eraseConnection_of_find? hc]; rfl⟩

theorem nextId_eraseConnection : (s.eraseConnection k fd).nextId = s.nextId := by
  unfold eraseConnection
  split <;> rfl

/-- `s'` is what `s` becomes if these entries are erased. -/
structure Erases (s s' : TCPServer) (l : List (ℤ × ℤ)) : Prop where
  owned : s'.Owned
  serverPorts : s'.serverPorts = s.serverPorts.map fun k sp => sp.without k l
  log : ∃ ids : List ℕ, s'.log = s.log ++ ids.map .destroy
  nextId : s'.nextId = s.nextId

theorem erases_eraseAll (l : List (ℤ × ℤ)) : ∀ {s : TCPServer}, s.Owned →
    Erases s (s.eraseAll l) l := by
  induction l with
  | nil =>
    intro s h
    refine ⟨h, ?_, ⟨[], by simp [eraseAll]⟩, rfl⟩
    exact (OrderedMap.map_eq_self fun e _ => ServerPort.without_eq_self fun _ _ => by simp).symm
  | cons m l ih =>
    obtain ⟨k, fd⟩ := m
    intro s h
    obtain ⟨howned, hports, ⟨ids, hlog⟩, hnext⟩ := ih (h.eraseConnection k fd)
    obtain ⟨ids', hlog'⟩ := @log_eraseConnection s k fd
    refine ⟨howned, ?_, ⟨ids' ++ ids, ?_⟩, hnext.trans nextId_eraseConnection⟩
    · show ((s.eraseConnection k fd).eraseAll l).serverPorts = _
      rw [hports, serverPorts_eraseConnection, OrderedMap.map_map]
      simp only [ServerPort.without_without, List.singleton_append]
    · show ((s.eraseConnection k fd).eraseAll l).log = _
      rw [hlog, hlog', List.map_append, List.append_assoc]

namespace Erases

variable {l : List (ℤ × ℤ)}

/-- Only the times and the cursor are other. -/
theorem congr {t t' : TCPServer} (h : Erases t t' l) (hports : s.serverPorts = t.serverPorts)
    (hlog : s.log = t.log) (hnext : s.nextId = t.nextId) (hports' : s'.serverPorts = t'.serverPorts)
    (hlive' : s'.live = t'.live) (hlog' : s'.log = t'.log) (hnext' : s'.nextId = t'.nextId) :
    Erases s s' l :=
  ⟨h.owned.congr hports' hlive' hnext', by rw [hports', hports, h.serverPorts],
    by rw [hlog', hlog]; exact h.log, by rw [hnext', hnext, h.nextId]⟩

theorem trans {t : TCPServer} {l' : List (ℤ × ℤ)} (h : Erases s t l) (h' : Erases t s' l') :
    Erases s s' (l ++ l') := by
  obtain ⟨ids, hlog⟩ := h.log
  obtain ⟨ids', hlog'⟩ := h'.log
  refine ⟨h'.owned, ?_, ⟨ids ++ ids', ?_⟩, h'.nextId.trans h.nextId⟩
  · rw [h'.serverPorts, h.serverPorts, OrderedMap.map_map]
    simp only [ServerPort.without_without]
  · rw [hlog', hlog, List.map_append, List.append_assoc]

theorem port? (h : Erases s s' l) (k : ℤ) :
    s'.port? k = (s.port? k).map fun sp => sp.without k l := by
  rw [TCPServer.port?, h.serverPorts, OrderedMap.find?_map]
  rfl

theorem find? (h : Erases s s' l) (k fd : ℤ) :
    s'.find? k fd = if (k, fd) ∈ l then none else s.find? k fd := by
  rw [TCPServer.find?, h.port?, TCPServer.find?]
  cases s.port? k with
  | none => simp
  | some sp =>
    simp only [Option.map_some, Option.bind_some, ServerPort.without, OrderedMap.find?_filter]
    split_ifs with hmem
    · cases sp.connections.find? fd <;> simp [hmem]
    · cases sp.connections.find? fd <;> simp [hmem]

theorem port?_eq_none (h : Erases s s' l) (k : ℤ) : s'.port? k = none ↔ s.port? k = none := by
  rw [h.port?]
  exact Option.map_eq_none_iff

end Erases

/-! ### A call -/

/-- What is examined is in front of one of the iterators. -/
theorem mem_examinedFrom : ∀ {its : List (ℤ × List (ℤ × Connection))} {counter : ℕ}
    {t : ℤ × ℤ × Connection}, t ∈ examinedFrom its counter →
    ∃ it, (t.1, it) ∈ its ∧ t.2 ∈ it := by
  intro its
  induction its with
  | nil => intro _ t h; cases h
  | cons i rest ih =>
    obtain ⟨k, it⟩ := i
    intro counter t h
    rw [examinedFrom, List.mem_append] at h
    rcases h with h | h
    · obtain ⟨e, he, rfl⟩ := List.mem_map.mp h
      exact ⟨it, List.mem_cons_self, List.mem_of_mem_take he⟩
    · obtain ⟨it', hmem, hin⟩ := ih h
      exact ⟨it', List.mem_cons_of_mem _ hmem, hin⟩

theorem mem_expiredOf {now : ℕ} {l : List (ℤ × ℤ × Connection)} (h : (k, fd) ∈ expiredOf now l) :
    ∃ c, (k, fd, c) ∈ l ∧ c.data.expired now = true := by
  obtain ⟨⟨k', fd', c⟩, ht, heq⟩ := List.mem_map.mp h
  cases heq
  exact ⟨c, List.mem_filter.mp ht⟩

/-- The iterators run through the entries of the ports. -/
theorem mem_iterators {it : List (ℤ × Connection)} (h : (k, it) ∈ s.iterators) :
    ∃ sp, (k, sp) ∈ s.serverPorts.entries ∧ ∀ e ∈ it, e ∈ sp.connections.entries := by
  unfold iterators at h
  split at h
  · cases h
  · rename_i k' sp rest hports
    rw [hports]
    rcases List.mem_cons.mp h with heq | h
    · cases heq
      refine ⟨sp, List.mem_cons_self, fun e he => ?_⟩
      split_ifs at he
      · cases hfind : sp.connections.find? s.lastCheckedFd with
        | none => simp [OrderedMap.after?, hfind] at he
        | some c =>
          rw [OrderedMap.after?, hfind] at he
          exact (List.mem_filter.mp he).1
      · exact he
    · obtain ⟨e, he, heq⟩ := List.mem_map.mp h
      cases heq
      exact ⟨e.2, List.mem_cons_of_mem _ he, fun _ h => h⟩

/-- What is to be erased is there, and it is expired. -/
theorem mem_expiredEntries (h : (k, fd) ∈ s.expiredEntries) :
    ∃ c, s.find? k fd = some c ∧ c.data.expired s.nowTime = true := by
  obtain ⟨c, hc, hexp⟩ := mem_expiredOf h
  obtain ⟨it, hit, hmem⟩ := mem_examinedFrom hc
  obtain ⟨sp, hsp, hsub⟩ := mem_iterators hit
  refine ⟨c, ?_, hexp⟩
  rw [find?, port?, OrderedMap.find?_eq_some_iff.mpr hsp]
  exact OrderedMap.find?_eq_some_iff.mpr (hsub _ hmem)

/-- The descriptors are owned by one port. -/
theorem Owned.disjoint (h : s.Owned) : Disjoint s.serverPorts.entries := by
  refine List.Pairwise.imp_of_mem ?_ s.serverPorts.sorted
  rintro ⟨k, sp⟩ ⟨k', sp'⟩ hsp hsp' hlt fd hfd
  have hfind : ∀ {k sp}, (k, sp) ∈ s.serverPorts.entries →
      s.find? k fd = sp.connections.find? fd := fun hmem => by
    rw [find?, port?, OrderedMap.find?_eq_some_iff.mpr hmem]
    rfl
  obtain ⟨c, hc⟩ := Option.ne_none_iff_exists'.mp hfd
  by_contra hne
  obtain ⟨c', hc'⟩ := Option.ne_none_iff_exists'.mp hne
  exact hlt.ne (h.port ((hfind hsp).trans hc) ((hfind hsp').trans hc'))

/-- In the first port the loop starts at the cursor. -/
theorem resume_eq_ok {x : ℤ} {m : OrderedMap ℤ Connection} {it : List (ℤ × Connection)}
    (h : resume x m = .ok it) :
    it = (if x ≠ 0 then (m.after? x).getD [] else m.entries) ∧ ∀ e ∈ it, e ∈ m.entries := by
  rw [resume] at h
  split_ifs at h ⊢ with hcur
  · cases hfind : m.find? x with
    | none =>
      rw [OrderedMap.after?, hfind] at h
      cases h
    | some c =>
      rw [OrderedMap.after?, hfind] at h ⊢
      cases h
      exact ⟨rfl, fun e he => (List.mem_filter.mp he).1⟩
  · cases h
    exact ⟨rfl, fun e he => he⟩

theorem iterators_of_resume {sp : ServerPort} {rest : List (ℤ × ServerPort)}
    {it : List (ℤ × Connection)} (hports : s.serverPorts.entries = (k, sp) :: rest)
    (h : resume s.lastCheckedFd sp.connections = .ok it) :
    s.iterators = (k, it) :: rest.map fun e => (e.1, e.2.connections.entries) := by
  rw [iterators, hports, (resume_eq_ok h).1]

/-- The outer loop erases the expired ones of what the call examines. -/
theorem scanPorts_eq (h : s.Owned) {counter : ℕ}
    (hok : scanPorts s.serverPorts.entries 0 s = .ok (s', counter)) :
    ∃ x, s' = (s.eraseAll s.expiredEntries).pointTo x := by
  have hdis := h.disjoint
  cases hports : s.serverPorts.entries with
  | nil =>
    have hnothing : s.expiredEntries = [] := by
      rw [expiredEntries, examined, iterators, hports]
      rfl
    rw [hports] at hok
    cases hok
    exact ⟨s.lastCheckedFd, by rw [hnothing]; rfl⟩
  | cons p rest =>
    obtain ⟨k, sp⟩ := p
    rw [hports] at hok hdis
    -- the first port is the only one that is begun at the cursor
    obtain ⟨it, hresume⟩ : ∃ it, resume s.lastCheckedFd sp.connections = .ok it := by
      cases hresume : resume s.lastCheckedFd sp.connections with
      | error e =>
        rw [scanPorts, hresume] at hok
        cases hok
      | ok it => exact ⟨it, rfl⟩
    have hsub := (resume_eq_ok hresume).2
    rw [scanPorts_cons hresume] at hok
    obtain ⟨x, hx⟩ := scanPorts_rest (List.pairwise_cons.mp hdis).2
      (fun hne p hp => resume_rest hdis hp hsub rfl hne) hok
    have hiterators := iterators_of_resume hports hresume
    have hnow : ∀ l y, ((s.eraseAll l).pointTo y).nowTime = s.nowTime :=
      fun l _ => eraseAll_nowTime l s
    refine ⟨x, ?_⟩
    rw [hx, eraseAll_pointTo, hnow, expiredEntries, examined, hiterators, examinedFrom,
      expiredOf_append, eraseAll_append]
    rfl

/-- **A call of `EraseExpiredConnections` with defined behaviour erases the expired
ones of what it examines.** -/
theorem erases_eraseExpiredConnections (h : s.Owned) (hok : s.eraseExpiredConnections = .ok s') :
    Erases s s' s.expiredEntries := by
  unfold eraseExpiredConnections at hok
  split at hok
  · cases hok
  · rename_i t counter hscan
    obtain ⟨x, rfl⟩ := scanPorts_eq h hscan
    have herases := erases_eraseAll s.expiredEntries h
    cases hok
    split_ifs
    · exact herases.congr rfl rfl rfl rfl rfl rfl rfl
    · exact herases.congr rfl rfl rfl rfl rfl rfl rfl

/-- What `OnTimer` is to erase at this time. -/
def timedOut (s : TCPServer) (time : ℕ) : List (ℤ × ℤ) :=
  if time ≠ s.currentTime ∨ s.lastCheckedFd ≠ 0 then { s with nowTime := time }.expiredEntries
  else []

theorem mem_timedOut {time : ℕ} (h : (k, fd) ∈ s.timedOut time) :
    ∃ c, s.find? k fd = some c ∧ c.data.expired time = true := by
  unfold timedOut at h
  split_ifs at h
  · exact mem_expiredEntries (s := { s with nowTime := time }) h
  · cases h

/-- **`OnTimer` erases what is timed out of what it examines.** -/
theorem erases_onTimer (h : s.Owned) {time : ℕ} (hok : s.onTimer time = .ok s') :
    Erases s s' (s.timedOut time) := by
  unfold onTimer at hok
  unfold timedOut
  simp only at hok
  split_ifs at hok with htime hcur
  · rw [if_pos (.inl htime)]
    refine (erases_eraseExpiredConnections (s := { s with nowTime := time, currentTime := time })
      (h.congr rfl rfl rfl) hok).congr rfl rfl rfl rfl rfl rfl rfl
  · rw [if_pos (.inr hcur)]
    exact (erases_eraseExpiredConnections (s := { s with nowTime := time })
      (h.congr rfl rfl rfl) hok).congr rfl rfl rfl rfl rfl rfl rfl
  · rw [if_neg (not_or.mpr ⟨htime, hcur⟩)]
    cases hok
    exact (erases_eraseAll [] h).congr rfl rfl rfl rfl rfl rfl rfl

end TCPServer

/-! ### The sum of the time and the timeout

The sum is taken modulo `2 ^ 32`.  Where it does not fit, it comes out smaller than the
time it started from, and a connection with a very large timeout is expired at once. -/

/-- Nothing has been received for longer than the timeout. -/
def ConnectionData.Overdue (now : ℕ) (cd : ConnectionData) : Prop :=
  (cd.timeout : ℤ) < (now : ℤ) - cd.lastTime

instance (now : ℕ) (cd : ConnectionData) : Decidable (cd.Overdue now) :=
  inferInstanceAs (Decidable ((cd.timeout : ℤ) < (now : ℤ) - cd.lastTime))

section Wrap

variable {now counter : ℕ} {cd : ConnectionData} {m : OrderedMap ℤ Connection}
  {pre it : List (ℤ × Connection)} {fd : ℤ} {c : Connection}

theorem ConnectionData.expired_of_wrap (htimeout : cd.timeout < 2 ^ 32) (hlast : cd.lastTime ≤ now)
    (hnow : now < 2 ^ 32) (hwrap : 2 ^ 32 ≤ cd.lastTime + cd.timeout) : cd.expired now = true := by
  have hsum : (cd.lastTime + cd.timeout) % 2 ^ 32 = cd.lastTime + cd.timeout - 2 ^ 32 := by
    rw [Nat.mod_eq_sub_mod hwrap, Nat.mod_eq_of_lt (by omega)]
  rw [expired, hsum, decide_eq_true_eq]
  omega

theorem ConnectionData.expired_iff_overdue (htimeout : cd.timeout < 2 ^ 32)
    (hlast : cd.lastTime ≤ now) (hnow : now < 2 ^ 32) :
    (cd.expired now = true ↔ cd.Overdue now) ↔ cd.lastTime + cd.timeout < 2 ^ 32 := by
  constructor
  · intro h
    by_contra hwrap
    rw [not_lt] at hwrap
    have hover := h.mp (expired_of_wrap htimeout hlast hnow hwrap)
    rw [Overdue] at hover
    omega
  · intro hfits
    rw [expired, Nat.mod_eq_of_lt hfits, decide_eq_true_eq, Overdue]
    omega

/-- Of what the inner loop examines, it marks what is expired. -/
theorem mem_expiredConns_iff (hm : m.entries = pre ++ it) (hc : (fd, c) ∈ examine counter it) :
    fd ∈ (scan now counter it).expiredConns ↔ c.data.expired now = true := by
  rw [scan_eq]
  simp only [List.mem_map, List.mem_filter]
  constructor
  · rintro ⟨⟨fd', c'⟩, ⟨hc', hexp⟩, rfl⟩
    -- there is only one entry at a descriptor
    have hmem : ∀ {e}, e ∈ examine counter it → e ∈ m.entries := fun he => by
      rw [hm]
      exact List.mem_append_right _ (List.mem_of_mem_take he)
    rwa [OrderedMap.eq_of_mem (hmem hc) (hmem hc')]
  · intro hexp
    exact ⟨(fd, c), ⟨hc, hexp⟩, rfl⟩

/-- **The inner loop marks exactly the overdue connections if and only if the sum of the
time and the timeout fits.** -/
theorem marked_iff_overdue (hm : m.entries = pre ++ it) (hc : (fd, c) ∈ examine counter it)
    (htimeout : c.data.timeout < 2 ^ 32) (hlast : c.data.lastTime ≤ now) (hnow : now < 2 ^ 32) :
    (fd ∈ (scan now counter it).expiredConns ↔ c.data.Overdue now) ↔
      c.data.lastTime + c.data.timeout < 2 ^ 32 := by
  rw [mem_expiredConns_iff hm hc]
  exact ConnectionData.expired_iff_overdue htimeout hlast hnow

/-- A connection on descriptor 5 from which something was received at 100. -/
def waiting (timeout : ℕ) : OrderedMap ℤ Connection :=
  OrderedMap.empty.insert 5 ⟨0, newConnectionData 5 100 timeout⟩

/-- The timeout is a minute, and it is over. -/
theorem marked_minute :
    5 ∈ (scan 161 0 (waiting 60).entries).expiredConns ↔
      (newConnectionData 5 100 60).Overdue 161 :=
  (@marked_iff_overdue 161 0 (waiting 60) [] _ 5 ⟨0, newConnectionData 5 100 60⟩ rfl
    List.mem_cons_self (by decide) (by decide) (by decide)).mpr (by decide)

/-- The timeout is as large as it can be, and the connection is expired at once. -/
theorem not_marked_iff_overdue :
    ¬∀ (now counter : ℕ) (m : OrderedMap ℤ Connection) (pre it : List (ℤ × Connection)) (fd : ℤ)
      (c : Connection), m.entries = pre ++ it → (fd, c) ∈ examine counter it →
      c.data.timeout < 2 ^ 32 → c.data.lastTime ≤ now → now < 2 ^ 32 →
      (fd ∈ (scan now counter it).expiredConns ↔ c.data.Overdue now) := by
  intro h
  have hiff := h 100 0 (waiting (2 ^ 32 - 1)) [] _ 5 ⟨0, newConnectionData 5 100 (2 ^ 32 - 1)⟩ rfl
    List.mem_cons_self (by decide) (by decide) (by decide)
  have hmarked : 5 ∈ (scan 100 0 (waiting (2 ^ 32 - 1)).entries).expiredConns := by decide
  exact absurd (hiff.mp hmarked) (by decide)

end Wrap

/-- **A call of `EraseExpiredConnections` parts with a connection that it examines if and
only if the connection is expired.** -/
theorem TCPServer.erased_iff_expired {s s' : TCPServer} {k fd : ℤ} {c : Connection} (h : s.Owned)
    (hok : s.eraseExpiredConnections = .ok s') (hc : (k, fd, c) ∈ s.examined) :
    s'.find? k fd = none ↔ c.data.expired s.nowTime = true := by
  have hfind : s.find? k fd = some c := by
    obtain ⟨it, hit, hmem⟩ := mem_examinedFrom hc
    obtain ⟨sp, hsp, hsub⟩ := mem_iterators hit
    rw [find?, port?, OrderedMap.find?_eq_some_iff.mpr hsp]
    exact OrderedMap.find?_eq_some_iff.mpr (hsub _ hmem)
  rw [(erases_eraseExpiredConnections h hok).find? k fd]
  constructor
  · intro hnone
    split_ifs at hnone with hmem
    · obtain ⟨c', hc', hexp⟩ := mem_expiredEntries hmem
      rw [hfind] at hc'
      cases hc'
      exact hexp
    · rw [hfind] at hnone
      cases hnone
  · intro hexp
    rw [if_pos]
    exact List.mem_map.mpr ⟨_, List.mem_filter.mpr ⟨hc, hexp⟩, rfl⟩

end Server
end PeeledOrange
