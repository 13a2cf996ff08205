import PeeledOrange.Db.Failure

/-!
# The order and the length of the queue

Queries are taken from the front of the queue, and put at its back.  That alone
does not make them start in the order of their submission: `Query` hands its
argument to a free connection without a look at the queue, and a connection can
become free while others wait, when it gets ready or in the middle of `Result`.
Nor does it bound the queue: `Query` compares the size before it pushes, and lets
one query too many in.  What is proved here is what holds as long as `Query` is
not called at such a moment.

## Main definitions

* `Client.started` — the queries that `DoQuery` has been called for, in order.
* `Client.InOrder` — of two accepted queries the one accepted first starts first.
* `Client.Orderly`, `Client.Roomy` — `Query` may be called.
* `Client.TakesAll` — a batch of calls of `Query` is accepted.

## Main results

* `inOrder_of_reachable` — **if no query is submitted past waiting ones to a free
  connection, queries start in order.**
* `bounded_of_reachable` — **if no query is submitted to a queue that is exactly full,
  the queue respects its limit**, and only a full queue turns a query down.
* `length_queries_le` — in any case it is exceeded by at most one.
* `isFitInQueue_iff_takesAll` — **`isFitInQueue` foretells a batch if and only if the queue
  does not come out at its limit or at one more.**
-/

namespace PeeledOrange
namespace Db

open Callback

/-! ### What happens to the queue -/

/-- The query that the event starts. -/
def Event.started : Event → Option ℕ
  | .start _ id => some id
  | .check _ | .expire _ => none

namespace Client

variable (s : Client)

/-- The queries that `DoQuery` has been called for, in order. -/
def started : List ℕ := s.log.filterMap Event.started

@[simp] theorem started_start (c : ConnPtr) (pq : QueryData) :
    (s.start c pq).started = s.started ++ [pq.id] := by
  simp [started, start, attach, Event.started]

@[simp] theorem started_next (c : ConnPtr) (q : QueryData) :
    (s.next c q).started = s.started ++ [q.id] := by
  simp [started, next, attach, Event.started]

@[simp] theorem started_check (c : ConnPtr) : (s.check c).started = s.started := by
  simp [started, check, Event.started]

@[simp] theorem started_expire (c : ConnPtr) (q : QueryData) :
    (s.expire c q).started = s.started := by
  simp [started, expire, Event.started]

end Client

/-- Outside `Query` the queue changes only where `NextQuery` takes its front. -/
theorem keptElsewhere_of_queue {R : HookRules} {I : Client → Prop}
    (hcongr : ∀ {s s' : Client}, I s → s'.client = s.client → s'.queries = s.queries →
      s'.accepted = s.accepted → s'.started = s.started → I s')
    (hnext : ∀ (s : Client) (c : ConnPtr) (q : QueryData) (rest : List QueryData),
      s.queries = q :: rest → I s → I (s.next c q)) :
    KeptElsewhere R I (fun _ s => I s) where
  moment := fun h => h
  pop := fun _ h _ => h
  clock := fun _ h => hcongr h rfl rfl rfl rfl
  act := fun _ h _ _ _ => hcongr h rfl rfl rfl rfl
  call := fun _ h _ _ => h
  check := fun _ h _ _ => hcongr h rfl rfl rfl (Client.started_check _ _)
  touch := fun _ _ h => hcongr h rfl rfl rfl rfl
  connected := fun _ h => hcongr h rfl rfl rfl rfl
  returns := fun h _ => hcongr h rfl rfl rfl rfl
  next := fun _ h _ _ hq => hnext _ _ _ _ hq h
  take := fun _ h _ _ => hcongr h rfl rfl rfl rfl
  expire := by
    intro s c q _ h _ _ _
    have he : I (s.expire c q) := hcongr h rfl rfl rfl (s.started_expire c q)
    exact ⟨he, fun _ _ => hcongr he rfl rfl rfl rfl⟩
  lapse := by
    intro s c q _ h _ _ _
    have hl : I (s.lapse c q) := hcongr h rfl rfl rfl rfl
    exact ⟨hl, fun _ _ => hcongr hl rfl rfl rfl rfl⟩
  giveUp := fun _ h _ _ => hcongr h rfl rfl rfl rfl
  retire := fun _ _ h _ _ => hcongr h rfl rfl rfl rfl
  sweep := fun _ _ h => hcongr h rfl rfl rfl rfl

/-! ### The order -/

/-- Of two accepted queries the one accepted first is started first. -/
def Client.InOrder (s : Client) : Prop := ∀ id₁ id₂ : ℕ, [id₁, id₂].Sublist s.accepted →
  id₂ ∈ s.started → [id₁, id₂].Sublist s.started

/-- No query waits for a connection that is free. -/
def Client.Orderly (s : Client) : Prop :=
  s.queries = [] ∨ ∀ c ∈ s.connections, s.isFree c = false

instance : DecidablePred Client.Orderly := fun s =>
  inferInstanceAs (Decidable (s.queries = [] ∨ ∀ c ∈ s.connections, s.isFree c = false))

/-- The invariant: what was accepted was started, in order, and the rest is waiting, in
order. -/
structure Fifo (s : Client) : Prop where
  nodup : s.accepted.Nodup
  split : s.started ++ s.queries.map QueryData.id = s.accepted

namespace Fifo

variable {R : HookRules} {s : Client}

theorem of_initial (h : s.Initial) : Fifo s where
  nodup := by rw [h.accepted]; exact List.nodup_nil
  split := by simp [Client.started, h.log, h.queries, h.accepted]

/-- What was started is an initial part of what was accepted. -/
theorem inOrder (h : Fifo s) : s.InOrder := by
  intro id₁ id₂ hsub hmem
  have hnodup := h.nodup
  rw [← h.split] at hsub hnodup
  obtain ⟨l₁, l₂, hl, h₁, h₂⟩ := List.sublist_append_iff.mp hsub
  -- the second of the two is not waiting, so neither is the first
  have hwait : id₂ ∉ s.queries.map QueryData.id := fun hw =>
    (List.nodup_append.mp hnodup).2.2 id₂ hmem id₂ hw rfl
  rcases List.eq_nil_or_concat l₂ with rfl | ⟨l, x, rfl⟩
  · rw [List.append_nil] at hl
    exact hl ▸ h₁
  · have hlast : id₂ = x := by
      have h := congrArg List.getLast? hl
      simpa using h
    exact absurd (h₂.subset (by simp [hlast])) hwait

theorem nodup_accept (h : Fifo s) {pq : QueryData} (hid : pq.id ∉ s.accepted) :
    (s.accepted ++ [pq.id]).Nodup := by
  rw [← List.concat_eq_append]
  exact h.nodup.concat hid

theorem keptUnder : KeptUnder R Client.Orderly Fifo fun _ s => Fifo s where
  toKeptElsewhere := by
    refine keptElsewhere_of_queue (fun h _ hq ha hs => ?_) fun s c q rest hq h => ?_
    · exact ⟨ha ▸ h.nodup, by rw [hs, hq, ha]; exact h.split⟩
    · refine ⟨h.nodup, ?_⟩
      show (s.next c q).started ++ s.queries.tail.map QueryData.id = s.accepted
      rw [s.started_next, ← h.split, hq]
      simp
  start := by
    intro cs s c pq _ h hP hc hfree hid
    -- a connection is free, so nothing is waiting
    have hempty : s.queries = [] := by
      rcases hP with hq | hnone
      · exact hq
      · rw [hnone c hc] at hfree
        cases hfree
    refine ⟨h.nodup_accept hid, ?_⟩
    show (s.start c pq).started ++ s.queries.map QueryData.id = s.accepted ++ [pq.id]
    rw [s.started_start, ← h.split, hempty]
    simp
  enqueue := by
    intro cs s pq _ h _ _ _ hid
    refine ⟨h.nodup_accept hid, ?_⟩
    show s.started ++ (s.queries ++ [pq]).map QueryData.id = s.accepted ++ [pq.id]
    rw [← h.split]
    simp
  reject := fun _ h _ _ => ⟨h.nodup, h.split⟩

/-- A query submitted past waiting ones to a free connection breaks the order. -/
theorem not_inOrder_start (h : Fifo s) {q : QueryData} {rest : List QueryData}
    (hq : s.queries = q :: rest) {pq : QueryData} (hid : pq.id ∉ s.accepted) (c : ConnPtr) :
    ¬(s.start c pq).InOrder := by
  have hacc : s.accepted = s.started ++ q.id :: rest.map QueryData.id := by
    rw [← h.split, hq, List.map_cons]
  have hmem : q.id ∈ s.accepted := by simp [hacc]
  have hnot : q.id ∉ s.started := by
    have hnodup := h.nodup
    rw [hacc] at hnodup
    exact fun hst => (List.nodup_append.mp hnodup).2.2 q.id hst q.id List.mem_cons_self rfl
  have hne : q.id ≠ pq.id := fun he => hid (he ▸ hmem)
  intro horder
  have hsub : [q.id, pq.id].Sublist (s.start c pq).accepted :=
    (List.singleton_sublist.mpr hmem).append (List.Sublist.refl [pq.id])
  have hstarted := horder q.id pq.id hsub (by simp)
  rw [s.started_start] at hstarted
  rcases List.mem_append.mp (hstarted.subset List.mem_cons_self) with hst | hst
  · exact hnot hst
  · exact hne (List.mem_singleton.mp hst)

end Fifo

/-- **If no query is submitted past waiting ones to a free connection, queries start in
the order of their submission**, at every moment of any run. -/
theorem inOrder_of_reachable {R : HookRules} {s₀ : Client} (h₀ : s₀.Initial)
    {cfg : Config Client Call Bool}
    (h : Reachable ((interface R).restrict (queryOnlyIf Client.Orderly)) s₀ cfg) :
    cfg.state.InOrder :=
  (Fifo.keptUnder.reachable h₀ (Fifo.of_initial h₀) h).1.inOrder

/-- One connection, which is being made, and room for this many queries. -/
def connecting (room : ℕ) : Client := .ofConnections ⟨room, 5, 5⟩ [⟨4, 0, .connect, none⟩]

/-- A query has to wait, the connection is made, and the timer starts the query; a second
one waits for the first to return. -/
def takeTurns : Config Client Call Bool :=
  play ((interface anyHooks).restrict (queryOnlyIf Client.Orderly)) 20
    [.enter (.query ⟨7, 3, .ok, "select"⟩), .enter (.dataProcessing 4),
      .act (.hook 0 ⟨4, 0, .ready, none⟩), .reply true, .enter (.onTimer 1), .reply false,
      .enter (.query ⟨8, 3, .ok, "insert"⟩), .enter (.dataProcessing 4), .enter (.result 0),
      .reply false]
    (.idle (connecting 10))

theorem inOrder_takeTurns : takeTurns.state.started = [7, 8] ∧ takeTurns.state.InOrder := by
  refine ⟨by decide +kernel, ?_⟩
  exact inOrder_of_reachable (Client.initial_ofConnections _ (by simp))
    ((Reachable.idle _).play (by decide +kernel))

/-- A second query arrives when the connection has been made and before the timer runs. -/
def overtake : Config Client Call Bool :=
  play (interface anyHooks) 20
    [.enter (.query ⟨7, 3, .ok, "select"⟩), .enter (.dataProcessing 4),
      .act (.hook 0 ⟨4, 0, .ready, none⟩), .reply true, .enter (.query ⟨8, 3, .ok, "insert"⟩)]
    (.idle (connecting 10))

/-- A waiting query can be overtaken. -/
theorem not_inOrder_of_anyHooks : ¬∀ (s₀ : Client) (cfg : Config Client Call Bool), s₀.Initial →
    Reachable (interface anyHooks) s₀ cfg → cfg.state.InOrder := by
  intro h
  have hreach : Reachable (interface anyHooks) (connecting 10) overtake :=
    (Reachable.idle _).play (by decide +kernel)
  have horder := h _ overtake (Client.initial_ofConnections _ (by simp)) hreach
  have hacc : overtake.state.accepted = [7, 8] ∧ overtake.state.started = [8] := by
    decide +kernel
  have hsub := horder 7 8 (by rw [hacc.1]) (by rw [hacc.2]; exact List.mem_singleton_self 8)
  rw [hacc.2] at hsub
  exact absurd hsub (by decide)

/-! ### The length -/

/-- The queue is not exactly full, or a connection is free. -/
def Client.Roomy (s : Client) : Prop :=
  s.queries.length ≠ s.client.maxQueueSize ∨ ∃ c ∈ s.connections, s.isFree c = true

instance : DecidablePred Client.Roomy := fun s =>
  inferInstanceAs (Decidable
    (s.queries.length ≠ s.client.maxQueueSize ∨ ∃ c ∈ s.connections, s.isFree c = true))

/-- The queue has at most this many queries more than it should. -/
def Client.AtMost (n : ℕ) (s : Client) : Prop := s.queries.length ≤ s.client.maxQueueSize + n

namespace Client.AtMost

variable {R : HookRules} {n : ℕ} {s : Client}

theorem of_initial (h : s.Initial) : s.AtMost n := by simp [AtMost, h.queries]

theorem keptElsewhere : KeptElsewhere R (AtMost n) fun _ s => s.AtMost n := by
  refine keptElsewhere_of_queue (fun h hc hq _ _ => ?_) fun s c q rest hq h => ?_
  · rw [AtMost, hc, hq]
    exact h
  · have htail : (s.next c q).queries.length ≤ s.queries.length := by
      show s.queries.tail.length ≤ _
      simp
    exact Nat.le_trans htail h

theorem keptUnder_roomy : KeptUnder R Client.Roomy (AtMost 0) fun _ s => s.AtMost 0 where
  toKeptElsewhere := keptElsewhere
  start := fun _ h _ _ _ _ => h
  enqueue := by
    intro cs s pq _ _ hP hnone hle _
    have hne : s.queries.length ≠ s.client.maxQueueSize := by
      rcases hP with hne | ⟨c, hc, hfree⟩
      · exact hne
      · rw [hnone c hc] at hfree
        cases hfree
    have hlen : (s.enqueue pq).queries.length = s.queries.length + 1 := by simp [Client.enqueue]
    show (s.enqueue pq).queries.length ≤ s.client.maxQueueSize + 0
    omega
  reject := fun _ h _ _ => h

theorem kept_one : Kept R (AtMost 1) fun _ s => s.AtMost 1 where
  toKeptElsewhere := keptElsewhere
  start := fun _ h _ _ _ => h
  enqueue := by
    intro cs s pq _ _ _ hle _
    have hlen : (s.enqueue pq).queries.length = s.queries.length + 1 := by simp [Client.enqueue]
    show (s.enqueue pq).queries.length ≤ s.client.maxQueueSize + 1
    omega
  reject := fun _ h _ => h

end Client.AtMost

/-- The limit is exceeded by at most one, in any run. -/
theorem length_queries_le {R : HookRules} {s₀ : Client} (h₀ : s₀.Initial)
    {cfg : Config Client Call Bool} (h : Reachable (interface R) s₀ cfg) :
    cfg.state.queries.length ≤ cfg.state.client.maxQueueSize + 1 :=
  (Client.AtMost.kept_one.reachable h₀ (.of_initial h₀) h).1

/-- `Query` turns a query down only if the queue is more than full and no connection is free. -/
theorem mayReturn_query_false {pq : QueryData} {s : Client} :
    (query pq).MayReturn s false ↔ s.client.maxQueueSize < s.queries.length ∧
      ∀ c ∈ s.connections, s.isFree c = false := by
  unfold query
  rw [Prog.mayReturn_read_bind]
  cases hf : s.connections.find? s.isFree with
  | some c =>
    have hfree := List.find?_some hf
    have hc := List.mem_of_find?_eq_some hf
    simp only [Prog.mayReturn_modify_bind, Prog.mayReturn_ask_bind, Prog.mayReturn_pure,
      Bool.false_eq_true, exists_false, false_iff, not_and]
    intro _ hnone
    rw [hnone c hc] at hfree
    cases hfree
  | none =>
    have hnone : ∀ c ∈ s.connections, s.isFree c = false := by
      simpa using List.find?_eq_none.mp hf
    simp only
    split_ifs with hfull
    · simpa using ⟨hfull, hnone⟩
    · simpa using fun hlt => absurd hlt hfull

/-- **If no query is submitted to a queue that is exactly full, the queue respects its
limit**, at every moment of any run; and in any run at all a query is turned down only if
the queue is full and no connection is ready and free. -/
theorem bounded_of_reachable {R : HookRules} {s₀ : Client} (h₀ : s₀.Initial) :
    (∀ cfg : Config Client Call Bool,
      Reachable ((interface R).restrict (queryOnlyIf Client.Roomy)) s₀ cfg →
        cfg.state.queries.length ≤ cfg.state.client.maxQueueSize) ∧
    ∀ cfg : Config Client Call Bool, Reachable (interface R) s₀ cfg → ∀ pq : QueryData,
      (query pq).MayReturn cfg.state false →
        cfg.state.client.maxQueueSize ≤ cfg.state.queries.length ∧
          ∀ c ∈ cfg.state.connections, cfg.state.isFree c = false := by
  constructor
  · intro cfg h
    exact (Client.AtMost.keptUnder_roomy.reachable h₀ (.of_initial h₀) h).1
  · intro cfg _ pq hret
    obtain ⟨hlt, hnone⟩ := mayReturn_query_false.mp hret
    exact ⟨Nat.le_of_lt hlt, hnone⟩

/-- The first query fills the queue, and is started before the second one arrives. -/
def drain : Config Client Call Bool :=
  play ((interface anyHooks).restrict (queryOnlyIf Client.Roomy)) 20
    [.enter (.query ⟨7, 3, .ok, "select"⟩), .enter (.dataProcessing 4),
      .act (.hook 0 ⟨4, 0, .ready, none⟩), .reply true, .enter (.onTimer 1), .reply false,
      .enter (.query ⟨8, 3, .ok, "insert"⟩)]
    (.idle (connecting 1))

theorem bounded_drain : drain.state.queries.map QueryData.id = [8] ∧
    drain.state.queries.length ≤ drain.state.client.maxQueueSize := by
  refine ⟨by decide +kernel, ?_⟩
  exact (bounded_of_reachable (Client.initial_ofConnections _ (by simp))).1 drain
    ((Reachable.idle _).play (by decide +kernel))

/-- Two queries arrive and have to wait. -/
def overfill : Config Client Call Bool :=
  play (interface anyHooks) 20
    [.enter (.query ⟨7, 3, .ok, "select"⟩), .enter (.query ⟨8, 3, .ok, "insert"⟩)]
    (.idle (connecting 1))

/-- The limit can be exceeded. -/
theorem not_bounded_of_anyHooks : ¬∀ (s₀ : Client) (cfg : Config Client Call Bool), s₀.Initial →
    Reachable (interface anyHooks) s₀ cfg →
      cfg.state.queries.length ≤ cfg.state.client.maxQueueSize := by
  intro h
  have hreach : Reachable (interface anyHooks) (connecting 1) overfill :=
    (Reachable.idle _).play (by decide +kernel)
  have hle := h _ overfill (Client.initial_ofConnections _ (by simp)) hreach
  exact absurd hle (by decide +kernel)

/-! ### Asking before a batch

`isFitInQueue` is to be asked before several queries are submitted in a row.  It wants
the queue to stay smaller than its limit, where `Query` lets it grow to one more than
that. -/

/-- Calls of `Query` in a row, with what they return. -/
def queryAll : List QueryData → DbProg (List Bool)
  | [] => return []
  | pq :: pqs => do
    let ok ← query pq
    let oks ← queryAll pqs
    return ok :: oks

/-- No connection is ready and free. -/
def Client.Busy (s : Client) : Prop := ∀ c ∈ s.connections, s.isFree c = false

instance : DecidablePred Client.Busy := fun s =>
  inferInstanceAs (Decidable (∀ c ∈ s.connections, s.isFree c = false))

/-- The calls of `Query` for these queries return, and all of them return true. -/
def Client.TakesAll (s : Client) (pqs : List QueryData) : Prop :=
  ∀ oks : List Bool, (queryAll pqs).MayReturn s oks ↔ oks = List.replicate pqs.length true

section Batch

variable {s : Client} {pq : QueryData} {pqs : List QueryData} {oks : List Bool}

/-- With no free connection `Query` does not call out. -/
theorem Client.Busy.mayReturn_query_bind {α : Type} (h : s.Busy) {f : Bool → DbProg α} {a : α} :
    (query pq >>= f).MayReturn s a ↔
      if s.queries.length > s.client.maxQueueSize then (f false).MayReturn (s.reject pq) a
      else (f true).MayReturn (s.enqueue pq) a := by
  have hnone : s.connections.find? s.isFree = none :=
    List.find?_eq_none.mpr fun c hc => by simp [h c hc]
  unfold query
  simp only [bind_assoc, Prog.mayReturn_read_bind, hnone]
  split_ifs
  · simp only [bind_assoc, pure_bind, Prog.mayReturn_modify_bind]
  · simp only [bind_assoc, pure_bind, Prog.mayReturn_modify_bind]

theorem Client.Busy.enqueue (h : s.Busy) : (s.enqueue pq).Busy := h

theorem Client.Busy.reject (h : s.Busy) : (s.reject pq).Busy := h

/-- The calls in a row return true as long as the queue is not more than full. -/
theorem Client.Busy.mayReturn_queryAll : ∀ {pqs : List QueryData} {s : Client} {oks : List Bool},
    s.Busy → ((queryAll pqs).MayReturn s oks ↔
      oks = List.replicate (min pqs.length (s.client.maxQueueSize + 1 - s.queries.length)) true ++
        List.replicate (pqs.length - (s.client.maxQueueSize + 1 - s.queries.length)) false) := by
  intro pqs
  induction pqs with
  | nil =>
    intro s oks _
    simp [queryAll]
  | cons pq pqs ih =>
    intro s oks h
    rw [queryAll, h.mayReturn_query_bind]
    simp only [bind_pure_comp, Prog.mayReturn_map, List.length_cons]
    split_ifs with hfull
    · have hzero : s.client.maxQueueSize + 1 - s.queries.length = 0 := by omega
      have hrest : (s.reject pq).client.maxQueueSize + 1 - (s.reject pq).queries.length = 0 := hzero
      simp only [ih h.reject, hrest, hzero, exists_eq_left]
      simp [List.replicate_succ]
    · -- one place less is left for the rest
      obtain ⟨room, hroom⟩ : ∃ room, s.client.maxQueueSize + 1 - s.queries.length = room + 1 :=
        ⟨s.client.maxQueueSize - s.queries.length, by omega⟩
      have hrest : (s.enqueue pq).client.maxQueueSize + 1 - (s.enqueue pq).queries.length =
          room := by
        show s.client.maxQueueSize + 1 - (s.queries ++ [pq]).length = room
        rw [List.length_append, List.length_singleton]
        omega
      simp only [ih h.enqueue, hrest, hroom, exists_eq_left]
      simp [List.replicate_succ]

/-- With no free connection all calls return true as long as at most one query too many
has to wait. -/
theorem Client.Busy.takesAll_iff (h : s.Busy) (hne : pqs ≠ []) :
    s.TakesAll pqs ↔ s.queries.length + pqs.length ≤ s.client.maxQueueSize + 1 := by
  have hpos : 0 < pqs.length := List.length_pos_iff.mpr hne
  constructor
  · intro hall
    have hsame := h.mayReturn_queryAll.mp ((hall _).mpr rfl)
    by_contra hlt
    have hmem : false ∈ List.replicate pqs.length true := by
      rw [hsame]
      exact List.mem_append_right _ (List.mem_replicate.mpr ⟨by omega, rfl⟩)
    exact Bool.noConfusion (List.eq_of_mem_replicate hmem)
  · intro hle oks
    have hmin : min pqs.length (s.client.maxQueueSize + 1 - s.queries.length) = pqs.length := by
      omega
    have hzero : pqs.length - (s.client.maxQueueSize + 1 - s.queries.length) = 0 := by omega
    rw [h.mayReturn_queryAll, hmin, hzero, List.replicate_zero, List.append_nil]

/-- **With no free connection, `isFitInQueue` says what the calls of `Query` will return if
and only if the queue does not come out at its limit or at one more.** -/
theorem isFitInQueue_iff_takesAll (h : s.Busy) (hne : pqs ≠ []) :
    (s.isFitInQueue pqs.length = true ↔ s.TakesAll pqs) ↔
      s.queries.length + pqs.length ≠ s.client.maxQueueSize ∧
        s.queries.length + pqs.length ≠ s.client.maxQueueSize + 1 := by
  rw [h.takesAll_iff hne, Client.isFitInQueue, decide_eq_true_eq]
  omega

/-- Two queries are asked for and submitted to an empty queue with room for ten. -/
theorem takesAll_connecting :
    (connecting 10).TakesAll [⟨7, 3, .ok, "select"⟩, ⟨8, 3, .ok, "insert"⟩] :=
  ((@isFitInQueue_iff_takesAll (connecting 10) [⟨7, 3, .ok, "select"⟩, ⟨8, 3, .ok, "insert"⟩]
    (by decide) (List.cons_ne_nil _ _)).mpr (by decide)).mp (by decide)

/-- A queue with room for one is said to have none. -/
theorem not_isFitInQueue_iff_takesAll :
    ¬∀ (s₀ : Client) (cfg : Config Client Call Bool) (pqs : List QueryData), s₀.Initial →
      Reachable (interface anyHooks) s₀ cfg → cfg.state.Busy → pqs ≠ [] →
      (cfg.state.isFitInQueue pqs.length = true ↔ cfg.state.TakesAll pqs) := by
  intro h
  have hbusy : (connecting 1).Busy := by decide
  have hiff := h (connecting 1) (Config.idle (connecting 1)) [⟨7, 3, .ok, "select"⟩]
    (Client.initial_ofConnections _ (by simp)) (Reachable.idle _) hbusy (List.cons_ne_nil _ _)
  have htakes : (connecting 1).TakesAll [⟨7, 3, .ok, "select"⟩] :=
    (hbusy.takesAll_iff (List.cons_ne_nil _ _)).mpr (by decide)
  exact absurd (hiff.mpr htakes) (by decide)

end Batch

end Db
end PeeledOrange
