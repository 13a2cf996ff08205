import PeeledOrange.Db.Delivery
import PeeledOrange.Db.Hooks
import PeeledOrange.Db.Queue
import Mathlib.Data.Fintype.EquivFin

/-!
# A query that is passed over for ever

`Result` passes the result to `OnResult` before it looks at the queue, and a query that is
submitted in `OnResult` finds the connection free.  So a caller that asks its next query
whenever it gets a result keeps the connection to itself, and what is in the queue waits,
also if the database answers every query at once and no connection ever fails.

## Main definitions

* `Client.Taken` — all connections are in use, and one of them can get a result.
* `Client.passOver` — a result of this one, with another query submitted in `OnResult`.
* `PassedOver` — a number of queries have overtaken what is in the queue.

## Main results

* `returns_passOver` — a call of `DataProcessing` may come to this.
* `starves` — **there is an endless run of such calls in which results are delivered and
  nothing in the queue is started.**
-/

namespace PeeledOrange
namespace Db

open Callback

/-! ### One result -/

namespace Client

/-- All connections are in use, and this one, which its descriptor leads to, is ready. -/
structure Taken (s : Client) (c : ConnPtr) : Prop where
  busy : s.Busy
  found : s.connections.find? (fun x => (s.conn x).fd == (s.conn c).fd) = some c
  ready : (s.conn c).status = .ready

/-- The result of `q` is delivered, and `pq` is submitted in `OnResult`. -/
def passOver (s : Client) (c : ConnPtr) (q pq : QueryData) : Client :=
  ((((s.check c).take c q).start c pq).setTimestamp c s.clock).logReturn pq.id true

variable {s : Client} {c : ConnPtr} {q pq : QueryData}

theorem Taken.mem (h : s.Taken c) : c ∈ s.connections := List.mem_of_find?_eq_some h.found

theorem Taken.query (h : s.Taken c) : ∃ q, (s.conn c).query = some q := by
  have hfree := h.busy c h.mem
  rw [isFree, h.ready] at hfree
  exact Option.ne_none_iff_exists'.mp fun hnone => by simp [hnone] at hfree

/-- When its query has been taken, the connection is the only one that is free. -/
theorem Taken.find?_take (h : s.Taken c) :
    ((s.check c).take c q).connections.find? ((s.check c).take c q).isFree = some c := by
  have hself : ((s.check c).take c q).isFree c = true :=
    isFree_iff.mpr ⟨by simp [take, check, h.ready], by simp [take]⟩
  cases hfind : ((s.check c).take c q).connections.find? ((s.check c).take c q).isFree with
  | none => exact absurd hself (by simpa using List.find?_eq_none.mp hfind c h.mem)
  | some x =>
    by_cases hx : x = c
    · rw [hx]
    · have hother : ((s.check c).take c q).conn x = s.conn x := setConn_conn_of_ne _ hx _
      have hfree := List.find?_some hfind
      rw [isFree, hother] at hfree
      exact absurd hfree (Bool.eq_false_iff.mp (h.busy x (List.mem_of_find?_eq_some hfind)))

theorem passOver_conn : (s.passOver c q pq).conn c =
    { s.conn c with query := some pq, timestamp := s.clock } := by
  simp [passOver, logReturn, setTimestamp, start, attach, take, check]

theorem passOver_conn_of_ne {x : ConnPtr} (hx : x ≠ c) :
    (s.passOver c q pq).conn x = s.conn x := by
  simp [passOver, logReturn, setTimestamp, start, attach, take, check, setConn, hx]

/-- It is then as before. -/
theorem Taken.passOver (h : s.Taken c) : (s.passOver c q pq).Taken c where
  busy := fun x hx => by
    by_cases hxc : x = c
    · rw [hxc, isFree, passOver_conn]
      simp
    · rw [isFree, passOver_conn_of_ne hxc]
      exact h.busy x hx
  found := by
    have hfd : ∀ x, ((s.passOver c q pq).conn x).fd = (s.conn x).fd := fun x => by
      by_cases hxc : x = c
      · rw [hxc, passOver_conn]
      · rw [passOver_conn_of_ne hxc]
    simp only [hfd]
    exact h.found
  ready := by
    rw [passOver_conn]
    exact h.ready

end Client

namespace Starvation

variable {s s' : Client} {c : ConnPtr} {q pq : QueryData} {cs : List Call} {m n : ℕ}

/-! ### The calls -/

/-- The database answers at once, and nothing is called from the outside. -/
abbrev Goes {α : Type} (cs : List Call) (p : DbProg α) (s : Client) (a : α) (s' : Client) : Prop :=
  Runs ((interface keepWhileBusy).restrict fromInside) cs p s a s'

/-- `Query` hands its argument to a free connection. -/
theorem query_goes (hfree : s.connections.find? s.isFree = some c) :
    Goes cs (Entry.query pq).program s ()
      (((s.start c pq).setTimestamp c s.clock).logReturn pq.id true) := by
  refine runs_bind.mpr ⟨true, (s.start c pq).setTimestamp c s.clock, ?_, runs_modify.mpr rfl⟩
  unfold query
  rw [runs_read_bind, hfree]
  refine runs_modify_bind.mpr (runs_ask_bind.mpr ⟨true, _, .refl, ?_, ?_⟩)
  · exact ⟨by simp [Call.connecting], fun _ _ => .inr trivial⟩
  · exact runs_modify_bind.mpr (runs_pure.mpr ⟨rfl, rfl⟩)

/-- `Result` finds that the connection is in use again. -/
theorem result_goes (h : s.Taken c) (hq : (s.conn c).query = some q)
    (hid : pq.id ∉ s.accepted ∧ pq.id ∉ s.rejected) :
    Goes [.checkResult c] (result c) (s.check c) () (s.passOver c q pq) := by
  refine runs_bind.mpr ⟨(), s.passOver c q pq, ?_, ?_⟩
  · have hcheck : ((s.check c).conn c).query = some q := hq
    unfold deliver
    rw [runs_read_bind, hcheck]
    refine runs_modify_bind.mpr (runs_ask_bind.mpr ⟨true, s.passOver c q pq, ?_, ?_, ?_⟩)
    · exact .enter (.query pq) ⟨⟨rfl, hid⟩, List.cons_ne_nil _ _⟩ (query_goes h.find?_take) .refl
    · exact ⟨by simp [Call.connecting], by simp [Call.owner]⟩
    · exact runs_pure.mpr ⟨rfl, rfl⟩
  · unfold refill
    rw [runs_read_bind]
    exact runs_when.mpr (.inr ⟨h.passOver.busy c h.mem, rfl⟩)

/-- `DataProcessing` passes over what is in the queue. -/
theorem dataProcessing_goes (h : s.Taken c) (hq : (s.conn c).query = some q)
    (hid : pq.id ∉ s.accepted ∧ pq.id ∉ s.rejected) :
    Goes [] (Entry.dataProcessing (s.conn c).fd).program s () (s.passOver c q pq) := by
  refine runs_bind.mpr ⟨true, s.passOver c q pq, ?_, runs_pure.mpr ⟨rfl, rfl⟩⟩
  unfold dataProcessing
  rw [runs_read_bind, h.found]
  refine runs_bind.mpr ⟨(), s.passOver c q pq, ?_, runs_pure.mpr ⟨rfl, rfl⟩⟩
  unfold dispatch
  rw [runs_read_bind, h.ready]
  refine runs_when.mpr (.inl ⟨by rw [hq]; rfl, runs_modify_bind.mpr (runs_ask_bind.mpr ?_)⟩)
  refine ⟨true, s.passOver c q pq, ?_, ?_, runs_pure.mpr ⟨rfl, rfl⟩⟩
  · exact .enter (.result c) ⟨.inr rfl, List.cons_ne_nil _ _⟩ (result_goes h hq hid) .refl
  · exact ⟨by simp [Call.connecting], fun _ _ => .inr trivial⟩

theorem returns_passOver (h : s.Taken c) (hq : (s.conn c).query = some q)
    (hid : pq.id ∉ s.accepted ∧ pq.id ∉ s.rejected) :
    Returns (interface keepWhileBusy) (.dataProcessing (s.conn c).fd) s (s.passOver c q pq) := by
  have hprog := (dataProcessing_goes h hq hid).steps .ret [] rfl
  rw [Prog.bind_ret] at hprog
  exact hprog.tail (.tick _)

/-! ### The run -/

/-- While `n` results were delivered, `n` queries were taken and started, and nothing that
is in the queue was.  No connection has failed or been replaced. -/
structure PassedOver (n : ℕ) (s s' : Client) : Prop where
  connections : s'.connections = s.connections
  status : ∀ x, (s'.conn x).status = (s.conn x).status
  fd : ∀ x, (s'.conn x).fd = (s.conn x).fd
  queries : s'.queries = s.queries
  delivered : s'.delivered.length = s.delivered.length + n
  overtaken : ∃ ids : List ℕ, ids.length = n ∧ s'.accepted = s.accepted ++ ids ∧
    s'.started = s.started ++ ids

theorem PassedOver.refl (s : Client) : PassedOver 0 s s :=
  ⟨rfl, fun _ => rfl, fun _ => rfl, rfl, rfl, [], rfl, (List.append_nil _).symm,
    (List.append_nil _).symm⟩

theorem PassedOver.trans {s'' : Client} (h : PassedOver m s s') (h' : PassedOver n s' s'') :
    PassedOver (m + n) s s'' where
  connections := h'.connections.trans h.connections
  status := fun x => (h'.status x).trans (h.status x)
  fd := fun x => (h'.fd x).trans (h.fd x)
  queries := h'.queries.trans h.queries
  delivered := by rw [h'.delivered, h.delivered, Nat.add_assoc]
  overtaken := by
    obtain ⟨ids, hlen, hacc, hstart⟩ := h.overtaken
    obtain ⟨ids', hlen', hacc', hstart'⟩ := h'.overtaken
    refine ⟨ids ++ ids', ?_, ?_, ?_⟩
    · rw [List.length_append, hlen, hlen']
    · rw [hacc', hacc, List.append_assoc]
    · rw [hstart', hstart, List.append_assoc]

theorem passedOver_passOver : PassedOver 1 s (s.passOver c q pq) where
  connections := rfl
  status := fun x => by
    by_cases hx : x = c
    · rw [hx, Client.passOver_conn]
    · rw [Client.passOver_conn_of_ne hx]
  fd := fun x => by
    by_cases hx : x = c
    · rw [hx, Client.passOver_conn]
    · rw [Client.passOver_conn_of_ne hx]
  queries := rfl
  delivered := List.length_append
  overtaken := ⟨[pq.id], rfl, rfl, by
    show (((s.check c).take c q).start c pq).started = _
    rw [Client.started_start]
    show (s.check c).started ++ _ = _
    rw [Client.started_check]⟩

/-- **There is an endless run of calls of `DataProcessing` in which results are delivered and
nothing in the queue is started**, from any moment at which all connections are in use. -/
theorem starves (h : s.Taken c) : ∃ f : ℕ → Client, f 0 = s ∧
    ∀ n, Returns (interface keepWhileBusy) (.dataProcessing (s.conn c).fd) (f n) (f (n + 1)) ∧
      PassedOver n s (f n) := by
  have hnext : ∀ t : Client, t.Taken c → ∃ t', t'.Taken c ∧
      Returns (interface keepWhileBusy) (.dataProcessing (t.conn c).fd) t t' ∧
        PassedOver 1 t t' := by
    intro t ht
    obtain ⟨q, hq⟩ := ht.query
    obtain ⟨id, hid⟩ := Infinite.exists_notMem_finset (t.accepted ++ t.rejected).toFinset
    have hnew : id ∉ t.accepted ∧ id ∉ t.rejected := by simpa using hid
    exact ⟨t.passOver c q ⟨id, q.fd, .ok, q.message⟩, ht.passOver,
      returns_passOver ht hq hnew, passedOver_passOver⟩
  choose! next htaken hreturns hpassed using hnext
  have hall : ∀ n, (next^[n] s).Taken c ∧ PassedOver n s (next^[n] s) := by
    intro n
    induction n with
    | zero => exact ⟨h, .refl s⟩
    | succ n ih =>
      rw [Function.iterate_succ_apply']
      exact ⟨htaken _ ih.1, ih.2.trans (hpassed _ ih.1)⟩
  refine ⟨fun n => next^[n] s, rfl, fun n => ⟨?_, (hall n).2⟩⟩
  show Returns _ _ (next^[n] s) (next^[n + 1] s)
  rw [Function.iterate_succ_apply', ← (hall n).2.fd c]
  exact hreturns _ (hall n).1

/-- Two queries are submitted to one connection. -/
def secondWaits : Config Client Call Bool :=
  play (interface keepWhileBusy) 20
    [.enter (.query ⟨7, 3, .ok, "select"⟩), .reply true, .enter (.query ⟨8, 3, .ok, "insert"⟩)]
    (.idle (.ofConnections ⟨10, 5, 5⟩ [⟨4, 0, .ready, none⟩]))

/-- The second one may wait for ever. -/
theorem starves_secondWaits : Reachable (interface keepWhileBusy)
      (.ofConnections ⟨10, 5, 5⟩ [⟨4, 0, .ready, none⟩]) secondWaits ∧
    secondWaits.calls = [] ∧ secondWaits.state.queries.map QueryData.id = [8] ∧
    ∃ f : ℕ → Client, f 0 = secondWaits.state ∧
      ∀ n, Returns (interface keepWhileBusy) (.dataProcessing 4) (f n) (f (n + 1)) ∧
        PassedOver n secondWaits.state (f n) :=
  ⟨(Reachable.idle _).play (by decide +kernel), by decide +kernel, by decide +kernel,
    @starves _ 0 ⟨by decide +kernel, by decide +kernel, by decide +kernel⟩⟩

end Starvation

end Db
end PeeledOrange
