import PeeledOrange.Db.Rules

/-!
# What a timer call does for the ready connections

`OnTimer` goes through the connections in order.  It gives up an overdue query of
a ready connection, and hands a free one the next query that waits.  But it does
not always get to the end: at a connection in the error state it returns, and at
one it has just begun to connect it returns if the client is not `connected`.  The
connections behind are then not looked at in this call.

## Main definitions

* `duringTimer` — the hooks and the callback while `OnTimer` runs.
* `Ticks` — a call of `OnTimer` may return in this state.
* `Serviced` — no ready connection keeps an overdue query, or goes without one
  while queries wait.
* `Unblocked` — no connection at which `OnTimer` may return has one behind it that
  it has something to do for.
* `Service.timerContract` — what holds while hooks run, by the connection that
  `OnTimer` is at.

## Main results

* `Service.serviced_of_ticks` — **where none is blocked, every call services the
  ready connections.**
-/

namespace PeeledOrange
namespace Db

open Callback

/-! ### A call of the timer -/

/-- The hooks that connect. -/
def Call.connects : Call → Bool
  | .doConnect _ | .checkConnect _ | .newConnection _ => true
  | .doQuery _ | .checkResult _ | .doPing _ | .onResult _ _ => false

/-- The other hooks do not make a connection ready that is not. -/
def staysDown : List Call → Client → Act → Prop
  | k :: _, s, .hook c d => k.connects = false → d.status = .ready → (s.conn c).status = .ready
  | _, _, _ => True

/-- A hook may do anything to its connection, and leave it in any state. -/
def freeHooks : HookRules where
  act := fun _ _ => True
  done := fun _ => True
  connects := fun _ _ => True

/-- The hooks and the callback while `OnTimer` runs: they submit no queries, and only
the hooks that connect make a connection ready. -/
def duringTimer : Interface Client Call Bool Entry Act :=
  { (interface freeHooks).restrict fun cs _ e => cs ≠ [] ∧ ∀ pq, e ≠ .query pq with
    mayAct := fun cs s a => mayAct freeHooks cs s a ∧ staysDown cs s a }

/-- Called in the first state, `OnTimer` may return in the second. -/
def Ticks (now : ℤ) (s s' : Client) : Prop :=
  Relation.ReflTransGen (Step duringTimer) ⟨s, some (onTimer now), []⟩ ⟨s', none, []⟩

namespace Client

variable (s : Client)

/-- Each connection object is owned once, and the next one is new. -/
structure Owned : Prop where
  nodup : (s.connections ++ s.badConnections).Nodup
  bound : ∀ c ∈ s.connections ++ s.badConnections, c < s.nextPtr

/-- The connection holds a query, and has for longer than `query_timeout`. -/
def isOverdue (now : ℤ) (c : ConnPtr) : Bool :=
  (s.conn c).query.isSome && s.older now s.client.queryTimeout c

/-- `OnTimer` may return at the connection. -/
def stopsAt (c : ConnPtr) : Bool :=
  (s.conn c).status == .error || (s.conn c).status == .wait && !s.connected

end Client

/-- If the connection is ready, it does not hold the query that was overdue in `s₀`,
and it holds one if any is waiting. -/
def Settled (s₀ : Client) (now : ℤ) (s : Client) (c : ConnPtr) : Prop :=
  (s.conn c).status = .ready →
    ¬(s₀.isOverdue now c = true ∧
      (s.conn c).query.map QueryData.id = (s₀.conn c).query.map QueryData.id) ∧
    (s.queries ≠ [] → (s.conn c).query ≠ none)

/-- Every connection that was ready in `s₀` is settled. -/
def Serviced (s₀ : Client) (now : ℤ) (s : Client) : Prop :=
  ∀ c ∈ s₀.connections, (s₀.conn c).status = .ready → Settled s₀ now s c

/-- Behind a connection at which `OnTimer` may return, no ready one has an overdue
query, and none is free unless the free ones in front take all that wait. -/
def Unblocked (s : Client) (now : ℤ) : Prop :=
  ∀ pre c post, s.connections = pre ++ c :: post → s.stopsAt c = true →
    (∀ x ∈ post, (s.conn x).status = .ready → s.isOverdue now x = false) ∧
    ((∃ x ∈ post, s.isFree x = true) → s.queries.length ≤ pre.countP s.isFree)

namespace Service

variable (s₀ : Client) (now : ℤ)

/-! ### The way through the connections -/

/-- `OnTimer` has gone through the connections `pre`, has not touched `post`, and has
handed out `n` queries or more. -/
structure Passed (pre post : List ConnPtr) (n : ℕ) (s : Client) : Prop where
  client : s.client = s₀.client
  connections : s.connections = s₀.connections
  nextPtr : s.nextPtr = s₀.nextPtr
  settled : ∀ x ∈ pre, (s₀.conn x).status = .ready → Settled s₀ now s x
  ahead : ∀ x ∈ post, s.conn x = s₀.conn x
  queries : s.queries.length ≤ s₀.queries.length - n
  connected : s₀.connected = true → s.connected = true

/-- `OnTimer` is at `c`.  If that was ready and still is, it was not overdue, and, once
it is `served`, it holds a query unless none waits. -/
structure Serving (pre : List ConnPtr) (c : ConnPtr) (post : List ConnPtr) (served : Bool)
    (s : Client) : Prop extends Passed s₀ now pre post ((pre ++ [c]).countP s₀.isFree) s where
  turn : (s₀.conn c).status = .ready → (s.conn c).status = .ready →
    s₀.isOverdue now c = false ∧ (served = true → (s.conn c).query = none → s.queries = [])

variable {s₀ now} {pre post : List ConnPtr} {c : ConnPtr} {n : ℕ} {s s' : Client}

/-- A connection that has not changed stays settled while the queue shrinks. -/
theorem settled_congr (h : Settled s₀ now s c) (hst : (s'.conn c).status = (s.conn c).status)
    (hq : (s'.conn c).query = (s.conn c).query) (hle : s'.queries.length ≤ s.queries.length) :
    Settled s₀ now s' c := by
  intro hready
  rw [hst] at hready
  obtain ⟨hold, hwait⟩ := h hready
  rw [hq]
  refine ⟨hold, fun hne => hwait ?_⟩
  rintro hnil
  rw [hnil, List.length_nil, Nat.le_zero] at hle
  exact hne (List.length_eq_zero_iff.mp hle)

/-- Of the connections only `c` changes, and the queue does not grow. -/
structure Touches (c : ConnPtr) (s s' : Client) : Prop where
  conn : ∀ x ≠ c, s'.conn x = s.conn x
  client : s'.client = s.client
  connections : s'.connections = s.connections
  nextPtr : s'.nextPtr = s.nextPtr
  queries : s'.queries.length ≤ s.queries.length
  connected : s.connected = true → s'.connected = true

namespace Touches

variable (s c)

theorem refl : Touches c s s := ⟨fun _ _ => rfl, rfl, rfl, rfl, Nat.le_refl _, id⟩

theorem setConn (d : DbConnection) : Touches c s (s.setConn c d) :=
  ⟨fun _ hx => s.setConn_conn_of_ne hx d, rfl, rfl, rfl, Nat.le_refl _, id⟩

theorem setTimestamp (t : ℤ) : Touches c s (s.setTimestamp c t) := setConn c s _

theorem setError : Touches c s (s.setError c) := setConn c s _

theorem take (q : QueryData) : Touches c s (s.take c q) :=
  ⟨(setConn c s _).conn, rfl, rfl, rfl, Nat.le_refl _, id⟩

theorem next (q : QueryData) : Touches c s (s.next c q) :=
  ⟨(setConn c s _).conn, rfl, rfl, rfl, by simp [Client.next], id⟩

theorem expire (q : QueryData) : Touches c s (s.expire c q) :=
  ⟨(setConn c s _).conn, rfl, rfl, rfl, Nat.le_refl _, id⟩

theorem lapse (q : QueryData) : Touches c s (s.lapse c q) := setConn c s _

theorem trans {s s' s'' : Client} {c : ConnPtr} (h : Touches c s s') (h' : Touches c s' s'') :
    Touches c s s'' where
  conn := fun x hx => (h'.conn x hx).trans (h.conn x hx)
  client := h'.client.trans h.client
  connections := h'.connections.trans h.connections
  nextPtr := h'.nextPtr.trans h.nextPtr
  queries := Nat.le_trans h'.queries h.queries
  connected := fun hco => h'.connected (h.connected hco)

theorem setConnected : Touches c s (s.setConnected true) :=
  ⟨fun _ _ => rfl, rfl, rfl, rfl, Nat.le_refl _, fun _ => rfl⟩

end Touches

/-- The object at `c`, which is neither in front nor behind, is touched. -/
theorem Passed.touch (h : Passed s₀ now pre post n s) (ht : Touches c s s') (hc : c ∉ pre ++ post)
    {m : ℕ} (hm : s'.queries.length ≤ s₀.queries.length - m) : Passed s₀ now pre post m s' := by
  rw [List.mem_append, not_or] at hc
  refine ⟨ht.client.trans h.client, ht.connections.trans h.connections,
    ht.nextPtr.trans h.nextPtr, fun x hx hr => ?_, fun x hx => ?_, hm,
    fun h₀ => ht.connected (h.connected h₀)⟩
  · have hne : x ≠ c := by rintro rfl; exact hc.1 hx
    have he := ht.conn x hne
    exact settled_congr (h.settled x hx hr) (by rw [he]) (by rw [he]) ht.queries
  · have hne : x ≠ c := by rintro rfl; exact hc.2 hx
    exact (ht.conn x hne).trans (h.ahead x hx)

theorem Passed.tail (h : Passed s₀ now pre (c :: post) n s) : Passed s₀ now pre post n s :=
  { h with ahead := fun x hx => h.ahead x (List.mem_cons_of_mem _ hx) }

/-- `OnTimer` turns to `c`. -/
theorem Passed.serving (h : Passed s₀ now pre (c :: post) n s) (ht : Touches c s s')
    (hc : c ∉ pre ++ post) {served : Bool}
    (hm : s'.queries.length ≤ s₀.queries.length - (pre ++ [c]).countP s₀.isFree)
    (hturn : (s₀.conn c).status = .ready → (s'.conn c).status = .ready →
      s₀.isOverdue now c = false ∧ (served = true → (s'.conn c).query = none → s'.queries = [])) :
    Serving s₀ now pre c post served s' :=
  ⟨h.tail.touch ht hc hm, hturn⟩

theorem Serving.touch {served served' : Bool} (h : Serving s₀ now pre c post served s)
    (ht : Touches c s s') (hc : c ∉ pre ++ post)
    (hturn : (s₀.conn c).status = .ready → (s'.conn c).status = .ready →
      s₀.isOverdue now c = false ∧ (served' = true → (s'.conn c).query = none → s'.queries = [])) :
    Serving s₀ now pre c post served' s' :=
  ⟨h.toPassed.touch ht hc (Nat.le_trans ht.queries h.queries), hturn⟩

/-- `OnTimer` is done with `c`. -/
theorem Serving.passed (h : Serving s₀ now pre c post true s) :
    Passed s₀ now (pre ++ [c]) post ((pre ++ [c]).countP s₀.isFree) s where
  client := h.client
  connections := h.connections
  nextPtr := h.nextPtr
  settled := by
    intro x hx hr
    rcases List.mem_append.mp hx with hx | hx
    · exact h.settled x hx hr
    · obtain rfl := List.mem_singleton.mp hx
      intro hready
      obtain ⟨hnot, hserved⟩ := h.turn hr hready
      refine ⟨fun hover => ?_, fun hne hq => hne (hserved rfl hq)⟩
      rw [hnot] at hover
      exact Bool.noConfusion hover.1
  ahead := h.ahead
  queries := h.queries
  connected := h.connected

/-- `OnTimer` may return at a connection that blocks none. -/
theorem Passed.serviced (h : Passed s₀ now pre post n s)
    (hall : ∀ x ∈ s₀.connections, (s₀.conn x).status = .ready → x ∈ pre ∨ x ∈ post)
    (hover : ∀ x ∈ post, (s₀.conn x).status = .ready → s₀.isOverdue now x = false)
    (hfree : (∃ x ∈ post, s₀.isFree x = true) → s₀.queries.length ≤ n) :
    Serviced s₀ now s := by
  intro x hx hr
  rcases hall x hx hr with hx | hx
  · exact h.settled x hx hr
  · intro _
    rw [h.ahead x hx]
    refine ⟨fun ho => ?_, fun hne hq => hne ?_⟩
    · rw [hover x hx hr] at ho
      exact Bool.noConfusion ho.1
    · have hle := hfree ⟨x, hx, isFree_iff.mpr ⟨hr, hq⟩⟩
      have hlen := h.queries
      exact List.length_eq_zero_iff.mp (by omega)

/-! ### What is kept towards the hooks -/

variable (s₀) in
/-- `OnTimer` is at `c`, and the calls `cs` are pending on its account. -/
structure At (cs : List Call) (pre : List ConnPtr) (c : ConnPtr) (post : List ConnPtr) : Prop where
  nodup : s₀.connections.Nodup
  split : s₀.connections = pre ++ c :: post
  about : ∀ k ∈ cs, k.subject = c ∧ ((s₀.conn c).status = .ready → k.connects = false)

variable (s₀ now) in
/-- What holds while these calls are pending; with none, `OnTimer` has returned.  The
first case is the replacement of a failed connection. -/
def Pending : List Call → Client → Prop
  | [], s => Serviced s₀ now s
  | k :: cs, s =>
    (∃ p, p ∉ s₀.connections ∧ k = .newConnection p ∧ cs = [] ∧ Serviced s₀ now s) ∨
    ∃ pre c post, At s₀ (k :: cs) pre c post ∧ Serving s₀ now pre c post (!k.isResult) s

variable (s₀ now) in
/-- The contract of `OnTimer`. -/
def timerContract : Contract Client Call where
  moment := fun _ => True
  boundary := Pending s₀ now
  later := fun _ _ => True

variable (s₀ now) in
/-- The verification condition of a function that `OnTimer` runs. -/
abbrev Tends {α : Type} (cs : List Call) (p : DbProg α) (Q : α → Client → Prop) (s : Client) :
    Prop :=
  p.Safe duringTimer (timerContract s₀ now) cs Q s

namespace At

variable {cs : List Call} {k : Call} {served : Bool}

theorem apart (h : At s₀ cs pre c post) : c ∉ pre ++ post := by
  have hn := h.nodup
  rw [h.split, List.nodup_middle, List.nodup_cons] at hn
  exact hn.1

theorem mem (h : At s₀ cs pre c post) : c ∈ s₀.connections := by simp [h.split]

theorem push (h : At s₀ cs pre c post) (hk : k.subject = c)
    (hcon : (s₀.conn c).status = .ready → k.connects = false) : At s₀ (k :: cs) pre c post :=
  ⟨h.nodup, h.split, List.forall_mem_cons.mpr ⟨⟨hk, hcon⟩, h.about⟩⟩

/-- There is one place `OnTimer` can be at. -/
theorem serving (h : At s₀ (k :: cs) pre c post) (hp : Pending s₀ now (k :: cs) s) :
    Serving s₀ now pre c post (!k.isResult) s := by
  obtain ⟨hk, -⟩ := h.about k List.mem_cons_self
  rcases hp with ⟨p, hp, rfl, -, -⟩ | ⟨pre', c', post', h', hs⟩
  · obtain rfl : p = c := hk
    exact absurd h.mem hp
  · obtain ⟨hk', -⟩ := h'.about k List.mem_cons_self
    obtain rfl : c = c' := hk.symm.trans hk'
    have hc := h.apart
    rw [List.mem_append, not_or] at hc
    have hsplit : pre ++ c :: post = pre' ++ c :: post' := h.split.symm.trans h'.split
    obtain ⟨rfl, -, rfl⟩ := (List.append_cons_inj_of_notMem hc.1 hc.2).mp hsplit
    exact hs

theorem setTimestamp (h : At s₀ cs pre c post) (hs : Serving s₀ now pre c post served s) (t : ℤ) :
    Serving s₀ now pre c post served (s.setTimestamp c t) := by
  refine hs.touch (.setTimestamp c s t) h.apart fun hr hready => ?_
  rw [Client.setTimestamp_status] at hready
  rw [Client.setTimestamp_query]
  exact hs.turn hr hready

/-- A call on account of `c`. -/
theorem ask (h : At s₀ cs pre c post) (hk : k.subject = c)
    (hcon : (s₀.conn c).status = .ready → k.connects = false)
    (hs : Serving s₀ now pre c post (!k.isResult) s) {Q : Bool → Client → Prop}
    (hQ : ∀ r s', Serving s₀ now pre c post (!k.isResult) s' → Q r s') :
    Tends s₀ now cs (Prog.ask k) Q s := by
  have hpush := h.push hk hcon
  exact ⟨.inr ⟨pre, c, post, hpush, hs⟩, fun r s' _ hp _ => hQ r s' (hpush.serving hp)⟩

/-! ### The functions -/

theorem modify (f : Client → Client) {Q : Unit → Client → Prop} (hQ : Q () (f s)) :
    Tends s₀ now cs (Prog.modify f) Q s := ⟨trivial, trivial, hQ⟩

/-- `NextQuery` serves a connection that holds no query. -/
theorem nextQuery (h : At s₀ cs pre c post) (hp : Passed s₀ now pre post n s)
    (hn : (pre ++ [c]).countP s₀.isFree ≤ n + 1)
    (hc : (s₀.conn c).status = .ready → s₀.isOverdue now c = false) :
    Tends s₀ now cs (nextQuery c) (fun _ s' => Serving s₀ now pre c post true s') s := by
  unfold Db.nextQuery
  simp only [Tends, Prog.safe_bind, Prog.safe_read]
  have hlen := hp.queries
  cases hq : s.queries with
  | nil =>
    exact ⟨hp.touch (.refl c s) h.apart (by simp [hq]), fun hr _ => ⟨hc hr, fun _ _ => hq⟩⟩
  | cons q rest =>
    simp only [Prog.safe_bind, Prog.safe_pure]
    refine modify _ (h.ask rfl (fun _ => rfl) ?_ fun r s' hs => ?_)
    · have hrest : (s.next c q).queries.length ≤
          s₀.queries.length - (pre ++ [c]).countP s₀.isFree := by
        rw [hq, List.length_cons] at hlen
        have htail : (s.next c q).queries = rest := by simp [Client.next, hq]
        rw [htail]
        omega
      refine ⟨hp.touch (.next c s q) h.apart hrest, fun hr _ => ⟨hc hr, fun _ hnone => ?_⟩⟩
      simp [Client.next, Client.attach] at hnone
    · exact modify _ (h.setTimestamp hs _)

/-- The second statement of `Result`. -/
theorem refill (h : At s₀ cs pre c post) (hs : Serving s₀ now pre c post served s) :
    Tends s₀ now cs (refill c) (fun _ s' => Serving s₀ now pre c post true s') s := by
  unfold Db.refill
  simp only [Tends, Prog.safe_bind, Prog.safe_read, Prog.safe_when, Prog.safe_pure]
  refine ⟨fun hfree => ?_, fun hfree => ?_⟩
  · obtain ⟨hready, -⟩ := isFree_iff.mp hfree
    exact h.nextQuery hs.toPassed (Nat.le_succ _) fun hr => (hs.turn hr hready).1
  · refine hs.touch (.refl c s) h.apart fun hr hready => ⟨(hs.turn hr hready).1, fun _ hnone => ?_⟩
    rw [isFree_iff.mpr ⟨hready, hnone⟩] at hfree
    exact Bool.noConfusion hfree

/-- `Result` serves the connection. -/
theorem result (h : At s₀ cs pre c post) (hs : Serving s₀ now pre c post served s) :
    Tends s₀ now cs (result c) (fun _ s' => Serving s₀ now pre c post true s') s := by
  unfold Db.result deliver
  simp only [Tends, Prog.safe_bind, Prog.safe_read]
  cases hq : (s.conn c).query with
  | none =>
    simp only [Prog.safe_pure]
    exact h.refill hs
  | some q =>
    simp only [Prog.safe_bind, Prog.safe_pure]
    refine modify _ (h.ask rfl (fun _ => rfl) ?_ fun _ _ h' => h.refill h')
    refine hs.touch (.take c s q) h.apart fun hr hready => ⟨(hs.turn hr ?_).1, fun hb => ?_⟩
    · simpa [Client.take] using hready
    · simp [Call.isResult] at hb

end At

/-- With the same queries in the same places, the connections are serviced as well. -/
theorem serviced_congr (h : Serviced s₀ now s)
    (hconn : ∀ x ∈ s₀.connections, (s'.conn x).status = (s.conn x).status ∧
      (s'.conn x).query = (s.conn x).query) (hq : s'.queries = s.queries) :
    Serviced s₀ now s' := fun x hx hr =>
  settled_congr (h x hx hr) (hconn x hx).1 (hconn x hx).2 (Nat.le_of_eq (congrArg _ hq))

/-- **The contract of `OnTimer` is kept**: by `Result`, and by what the hooks do. -/
theorem timerInvariant : Invariant duringTimer (timerContract s₀ now) where
  refl := fun _ => trivial
  trans := fun _ _ => trivial
  moment := fun _ _ _ => trivial
  entry := by
    rintro cs s e hp ⟨hmay, hne, hquery⟩
    cases e with
    | query pq => exact absurd rfl (hquery pq)
    -- these are not called while another call is pending
    | onTimer now => exact absurd hmay hne
    | dataProcessing fd => exact absurd hmay hne
    | result c =>
      cases cs with
      | nil => exact absurd rfl hne
      | cons k cs =>
        -- `Result` is called by a hook of the connection that `OnTimer` is at
        have hk : k.subject = c ∧ k.isResult = false ∧ ∀ p, k ≠ .newConnection p := by
          rcases hmay with hk | hk <;> obtain rfl := Option.some.inj hk <;>
            exact ⟨rfl, rfl, nofun⟩
        rcases hp with ⟨p, -, rfl, -, -⟩ | ⟨pre, c', post, h, hs⟩
        · exact absurd rfl (hk.2.2 p)
        · obtain rfl : c' = c := (h.about k List.mem_cons_self).1.symm.trans hk.1
          refine (h.result hs).mono fun _ s' hs' => .inr ⟨pre, c', post, h, ?_⟩
          rw [hk.2.1]
          exact hs'
  act := by
    rintro cs s a hp ⟨hmay, hdown⟩
    refine ⟨?_, trivial⟩
    cases a with
    | clock t =>
      cases cs with
      | nil => exact serviced_congr hp (fun _ _ => ⟨rfl, rfl⟩) rfl
      | cons k cs =>
        rcases hp with ⟨p, hp, hk, hcs, hs⟩ | ⟨pre, c, post, h, hs⟩
        · exact .inl ⟨p, hp, hk, hcs, serviced_congr hs (fun _ _ => ⟨rfl, rfl⟩) rfl⟩
        · exact .inr ⟨pre, c, post, h, hs.touch ⟨fun _ _ => rfl, rfl, rfl, rfl, Nat.le_refl _, id⟩
            h.apart hs.turn⟩
    | hook c d =>
      obtain ⟨hown, -, hid⟩ := hmay
      cases cs with
      | nil => simp at hown
      | cons k cs =>
        simp only [List.head?_cons, Option.bind_some] at hown
        have hsub := Call.subject_of_owner hown
        rcases hp with ⟨p, hp, rfl, hcs, hs⟩ | ⟨pre, c', post, h, hs⟩
        · -- the object of the new connection
          obtain rfl : p = c := hsub
          refine .inl ⟨p, hp, rfl, hcs, serviced_congr hs (fun x hx => ?_) rfl⟩
          have hne : x ≠ p := by rintro rfl; exact hp hx
          have he := s.setConn_conn_of_ne hne d
          exact ⟨congrArg DbConnection.status he, congrArg DbConnection.query he⟩
        · -- the connection itself; if it was ready, the hook is not one that connects
          obtain ⟨hc', hcon⟩ := h.about k List.mem_cons_self
          obtain rfl : c' = c := hc'.symm.trans hsub
          refine .inr ⟨pre, c', post, h, hs.touch (.setConn c' s d) h.apart fun hr hready => ?_⟩
          have hself : (duringTimer.act (.hook c' d) s).conn c' = d := s.setConn_conn_self c' d
          rw [hself] at hready ⊢
          obtain ⟨hnot, hserved⟩ := hs.turn hr (hdown (hcon hr) hready)
          refine ⟨hnot, fun hres hnone => hserved hres ?_⟩
          simpa [hnone] using hid.symm

/-! ### The loop -/

/-- A connection that was not free is not counted. -/
theorem Passed.queries_of_not_free (hp : Passed s₀ now pre post (pre.countP s₀.isFree) s)
    (hfree : s₀.isFree c = false) :
    s.queries.length ≤ s₀.queries.length - (pre ++ [c]).countP s₀.isFree := by
  have hlen := hp.queries
  simpa [List.countP_append, hfree] using hlen

namespace At

variable (h : At s₀ [] pre c post) (hp : Passed s₀ now pre (c :: post) (pre.countP s₀.isFree) s)

include h hp

/-- The `CONNECTION_READY` case. -/
theorem ready : Tends s₀ now [] (onTimer.ready now c)
    (fun _ s' => Serving s₀ now pre c post true s') s := by
  have hc : s.conn c = s₀.conn c := hp.ahead c List.mem_cons_self
  unfold onTimer.ready
  simp only [Tends, Prog.safe_bind, Prog.safe_read]
  cases hq : (s.conn c).query with
  | some q =>
    -- an overdue query is given up, and the connection is in the error state then
    have hfree : s₀.isFree c = false := by simp [Client.isFree, ← hc, hq]
    have hover : s₀.isOverdue now c = s.older now s.client.queryTimeout c := by
      simp [Client.isOverdue, Client.older, hp.client, ← hc, hq]
    simp only [Prog.safe_bind, Prog.safe_when]
    refine ⟨fun _ => ?_, fun hnot => ?_⟩
    · have hexpire : Serving s₀ now pre c post false (s.expire c q) := by
        refine hp.serving (.expire c s q) h.apart (hp.queries_of_not_free hfree) fun _ hready => ?_
        simp [Client.expire] at hready
      exact modify _ (h.result hexpire)
    · have hlen := hp.queries_of_not_free hfree
      refine hp.serving (.refl c s) h.apart hlen fun _ _ => ⟨hover.trans hnot, fun _ hnone => ?_⟩
      simp [hq] at hnone
  | none =>
    -- a free one takes a query, or is pinged if none waits
    have hover : s₀.isOverdue now c = false := by simp [Client.isOverdue, ← hc, hq]
    simp only [Prog.safe_bind, Prog.safe_read, Prog.safe_when]
    have hn : (pre ++ [c]).countP s₀.isFree ≤ pre.countP s₀.isFree + 1 := by
      rw [List.countP_append]
      exact Nat.add_le_add_left List.countP_le_length _
    refine (h.nextQuery hp.tail hn fun _ => hover).mono fun _ s' hs => ⟨fun _ => ?_, fun _ => hs⟩
    exact h.ask rfl (fun _ => rfl) hs fun _ s'' hs' => modify _ (h.setTimestamp hs' _)

omit hp in
/-- A connection that was not ready needs no service. -/
theorem serving_of_ne (hne : (s₀.conn c).status ≠ .ready) {served : Bool}
    (hs : Serving s₀ now pre c post served s) (ht : Touches c s s') :
    Serving s₀ now pre c post true s' :=
  hs.touch ht h.apart fun hr => absurd hr hne

/-- `OnTimer` turns to a connection that is not ready. -/
theorem turnTo (hne : (s₀.conn c).status ≠ .ready) (ht : Touches c s s') :
    Serving s₀ now pre c post true s' := by
  have hfree : s₀.isFree c = false := by simp [Client.isFree, hne]
  have hlen := Nat.le_trans ht.queries (hp.queries_of_not_free hfree)
  exact hp.serving ht h.apart hlen fun hr => absurd hr hne

/-- The `CONNECTION_CONNECT` case. -/
theorem connect (hne : (s₀.conn c).status ≠ .ready) : Tends s₀ now [] (onTimer.connect now c)
    (fun _ s' => Serving s₀ now pre c post true s') s := by
  unfold onTimer.connect
  simp only [Tends, Prog.safe_bind]
  refine h.ask rfl (fun hr => absurd hr hne) (h.turnTo hp hne (.refl c s)) fun r s1 h1 => ?_
  cases r with
  | true => exact modify _ (h.serving_of_ne hne h1 (.setConnected c s1))
  | false =>
    simp only [Bool.false_eq_true, if_false, Prog.safe_bind, Prog.safe_read, Prog.safe_when]
    refine ⟨fun _ => ?_, fun _ => h1⟩
    have hlapse : Tends s₀ now [] (onTimer.lapse c)
        (fun _ s' => Serving s₀ now pre c post true s') s1 := by
      unfold onTimer.lapse
      simp only [Tends, Prog.safe_bind, Prog.safe_read]
      cases (s1.conn c).query with
      | none => exact h1
      | some q =>
        simp only [Prog.safe_bind]
        exact modify _ (h.result (h.serving_of_ne hne h1 (.lapse c s1 q)))
    exact hlapse.mono fun _ s2 h2 => modify _ (h.serving_of_ne hne h2 (.setError c s2))

/-- `OnTimer` at one connection: it serves it and goes on, or returns. -/
theorem visit (hbound : ∀ x ∈ s₀.connections, x < s₀.nextPtr)
    (hstop : s₀.stopsAt c = true → ∀ s' n, Passed s₀ now pre post n s' →
      pre.countP s₀.isFree ≤ n → Serviced s₀ now s') :
    Tends s₀ now [] (onTimer.visit now pre.length)
      (fun go s' => (go = true → Serving s₀ now pre c post true s') ∧
        (go = false → Serviced s₀ now s')) s := by
  have hc : s.conn c = s₀.conn c := hp.ahead c List.mem_cons_self
  have hi : s.connections[pre.length]? = some c := by simp [hp.connections, h.split]
  unfold onTimer.visit
  simp only [Tends, Prog.safe_bind, Prog.safe_read, hi]
  cases hst : (s.conn c).status with
  | ready =>
    simp only [Prog.safe_bind, Prog.safe_pure]
    exact (h.ready hp).mono fun _ s' hs => ⟨fun _ => hs, fun hb => by simp at hb⟩
  | wait =>
    have hne : (s₀.conn c).status ≠ .ready := by simp [← hc, hst]
    simp only [Prog.safe_bind, Prog.safe_read, Prog.safe_pure]
    refine modify _ (h.ask rfl (fun hr => absurd hr hne)
      (h.turnTo hp hne (.setTimestamp c s now)) fun _ s1 h1 => ⟨fun _ => h1, fun hb => ?_⟩)
    -- if it returns, the client was not connected before either
    have hcon : s₀.connected = false := by
      cases h₀ : s₀.connected with
      | false => rfl
      | true => rw [h1.connected h₀] at hb; exact Bool.noConfusion hb
    refine hstop ?_ s1 _ h1.toPassed (List.sublist_append_left ..).countP_le
    simp [Client.stopsAt, ← hc, hst, hcon]
  | connect =>
    have hne : (s₀.conn c).status ≠ .ready := by simp [← hc, hst]
    simp only [Prog.safe_bind, Prog.safe_pure]
    exact (h.connect hp hne).mono fun _ s' hs => ⟨fun _ => hs, fun hb => by simp at hb⟩
  | error =>
    have hs : Serviced s₀ now s :=
      hstop (by simp [Client.stopsAt, ← hc, hst]) s _ hp.tail (Nat.le_refl _)
    have hnew : s.nextPtr ∉ s₀.connections := fun hm =>
      absurd (hbound _ hm) (Nat.not_lt_of_ge (Nat.le_of_eq hp.nextPtr.symm))
    simp only [Prog.safe_bind, Prog.safe_when, Prog.safe_pure]
    refine modify _ ⟨fun _ => modify _ ?_, fun _ => ⟨fun hb => by simp at hb, fun _ => ?_⟩⟩
    · -- the new object is none of those that are looked at
      refine ⟨.inl ⟨s.nextPtr, hnew, rfl, rfl, serviced_congr hs (fun x hx => ?_) rfl⟩,
        fun r s' _ hp' _ => ⟨fun hb => by simp at hb, fun _ => ?_⟩⟩
      · have hx' : x ≠ (s.setConnected false).nextPtr := by rintro rfl; exact hnew hx
        exact ⟨Client.retire_status_of_ne _ hx' _ c now, Client.retire_query_of_ne _ hx' _ c now⟩
      · rcases hp' with ⟨_, -, -, -, hs'⟩ | ⟨pre', c', post', h', -⟩
        · exact hs'
        · obtain rfl : s.nextPtr = c' := (h'.about _ List.mem_cons_self).1
          exact absurd h'.mem hnew
    · exact serviced_congr hs (fun _ _ => ⟨rfl, rfl⟩) rfl

end At

/-- The whole of `OnTimer`. -/
theorem onTimer_tends (hs : s.Owned) (hun : Unblocked s now) :
    Tends s now [] (onTimer now) (fun _ s' => Serviced s now s') s := by
  have hbound : ∀ x ∈ s.connections, x < s.nextPtr := fun x hx =>
    hs.bound x (List.mem_append_left _ hx)
  have hnodup : s.connections.Nodup := (List.nodup_append.mp hs.nodup).1
  -- by induction on the connections that are still to be visited
  have hloop : ∀ (post pre : List ConnPtr) (s' : Client), s.connections = pre ++ post →
      Passed s now pre post (pre.countP s.isFree) s' →
      Tends s now [] (onTimer.loop now post.length pre.length) (fun _ s'' => Serviced s now s'')
        s' := by
    intro post
    induction post with
    | nil =>
      intro pre s' hL hp x hx hr
      rw [hL, List.append_nil] at hx
      exact hp.settled x hx hr
    | cons c post ih =>
      intro pre s' hL hp
      have h : At s [] pre c post := ⟨hnodup, hL, by simp⟩
      simp only [List.length_cons, onTimer.loop, Tends, Prog.safe_bind]
      refine (h.visit hp hbound fun hstop s1 n h1 hn => ?_).mono fun go s1 h1 => ?_
      · obtain ⟨hover, hfree⟩ := hun pre c post hL hstop
        refine h1.serviced (fun x hx hr => ?_) hover fun hx => Nat.le_trans (hfree hx) hn
        rw [hL, List.mem_append, List.mem_cons] at hx
        rcases hx with hx | rfl | hx
        · exact .inl hx
        · simp [Client.stopsAt, hr] at hstop
        · exact .inr hx
      · cases go with
        | false => exact h1.2 rfl
        | true =>
          have h2 := ih (pre ++ [c]) s1 (by simp [hL]) (h1.1 rfl).passed
          rw [List.length_append] at h2
          exact h2
  unfold onTimer
  simp only [Tends, Prog.safe_bind, Prog.safe_read, Prog.safe_when]
  have hp : Passed s now [] s.connections 0 s :=
    ⟨rfl, rfl, rfl, by simp, fun _ _ => rfl, Nat.le_refl _, id⟩
  refine (hloop s.connections [] s rfl hp).mono fun finished s' hs' =>
    ⟨fun _ => At.modify _ (serviced_congr hs' (fun _ _ => ⟨rfl, rfl⟩) rfl), fun _ => hs'⟩

/-- **Where no connection is blocked, every call services the ready ones.** -/
theorem serviced_of_ticks (hs : s.Owned) (hun : Unblocked s now) (h : Ticks now s s') :
    Serviced s now s' :=
  timerInvariant.returns trivial (onTimer_tends hs hun) h

end Service

end Db
end PeeledOrange
