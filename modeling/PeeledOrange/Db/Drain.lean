import PeeledOrange.Db.Reconnect
import PeeledOrange.Db.Delivery

/-!
# Every query is answered

A query waits in the queue until a connection is free for it, and is with a connection
then until it is answered or the timer expires it, which costs the connection.  So with
the database in reach there is always something that `OnTimer` can do, unless all is done
or it has to wait for the time to pass; and what it does cannot go on for ever, since
each query can cost at most one connection, and each connection comes back in three
steps.  All of it is put into one number here, which every call that finds something to
do brings down.

## Main definitions

* `Client.load` — what is still to be done about the connections and the queries.
* `Client.HasWork` — `OnTimer` comes to a connection for which there is something to do.

## Main results

* `drains_of_run` — **`OnTimer` finds something to do at most as many times as the load says,
  and five for each query; when it does not any more, all connections are ready and no query
  is left.**
* `answers_of_run` — **and every query that the client has taken since it was made has been
  passed to `OnResult`, once.**
-/

namespace PeeledOrange
namespace Db

open Callback

/-! ### What is to be done -/

/-- The steps to being ready, and what the query can make of them: the timer may expire it,
and the connection with it. -/
def DbConnection.weight (d : DbConnection) : ℕ :=
  d.status.distance + if d.query.isSome then 4 else 0

/-- A connection without a query can take one. -/
theorem DbConnection.weight_attach {d d' : DbConnection} (hst : d'.status = d.status)
    (hq : d.query = none) : d'.weight ≤ d.weight + 4 := by
  rw [DbConnection.weight, DbConnection.weight, hst, hq]
  simp only [Option.isSome_none, Bool.false_eq_true, if_false]
  split_ifs <;> omega

namespace Client

variable (s : Client)

/-- What is still to be done about the connections. -/
def weights : ℕ := (s.connections.map fun c => (s.conn c).weight).sum

/-- What is still to be done. -/
def load : ℕ := s.weights + 5 * s.queries.length

/-- There is something to do for the connection: unless it is ready, and does not hold a
query that is overdue or could take one, or has failed just now. -/
def Wants (now : ℤ) (c : ConnPtr) : Prop :=
  ((s.conn c).status = .ready →
    s.isOverdue now c = true ∨ (s.conn c).query = none ∧ s.queries ≠ []) ∧
  ((s.conn c).status = .error → s.older now s.client.connectTimeout c = true)

/-- `OnTimer` comes to a connection for which there is something to do. -/
def HasWork (now : ℤ) : Prop :=
  ∃ pre c post, s.connections = pre ++ c :: post ∧ (∀ x ∈ pre, (s.conn x).status = .ready) ∧
    s.Wants now c

end Client

namespace Drain

/-- The code around the client, while a member function runs. -/
abbrev around : Interface Client Call Bool Entry Act := reachableDatabase.restrict fromInside

variable {s s₁ s' : Client} {cs : List Call} {c x : ConnPtr} {now : ℤ} {m n : ℕ}

/-- `n` of what is to be done is done; a query that is taken brings five. -/
abbrev Pays : ℕ → Client → Client → Prop := Falls Client.load fun s => 5 * s.accepted.length

/-! ### Changes of one connection -/

/-- The connections are the same but for one, which has become no heavier. -/
theorem weights_le (hc : s'.connections = s.connections)
    (hle : ∀ x ∈ s.connections, (s'.conn x).weight ≤ (s.conn x).weight) :
    s'.weights ≤ s.weights := by
  rw [Client.weights, hc]
  exact List.sum_le_sum hle

theorem weights_lt (hc : s'.connections = s.connections)
    (hle : ∀ x ∈ s.connections, (s'.conn x).weight ≤ (s.conn x).weight)
    (hlt : ∃ x ∈ s.connections, (s'.conn x).weight < (s.conn x).weight) :
    s'.weights < s.weights := by
  rw [Client.weights, hc]
  exact List.sum_lt_sum _ _ hle hlt

/-- An update of one connection makes all heavier by no more than it makes that one. -/
theorem weights_setConn_le (hs : s.Owned) {d : DbConnection}
    (hd : d.weight ≤ (s.conn c).weight + m) : (s.setConn c d).weights ≤ s.weights + m := by
  by_cases hc : c ∈ s.connections
  · have hsum := Reconnect.sum_map_of_alone (List.nodup_append.mp hs.nodup).1 hc
      (f := fun x => (s.conn x).weight) (g := fun x => ((s.setConn c d).conn x).weight)
      fun x hx => by rw [s.setConn_conn_of_ne hx]
    have hself : ((s.setConn c d).conn c).weight = d.weight := by rw [s.setConn_conn_self]
    have hw : (s.setConn c d).weights =
        (s.connections.map fun x => ((s.setConn c d).conn x).weight).sum := rfl
    rw [hw, Client.weights]
    omega
  · refine Nat.le_add_right_of_le (weights_le rfl fun x hx => ?_)
    have hxc : x ≠ c := by rintro rfl; exact hc hx
    rw [s.setConn_conn_of_ne hxc]

/-- A query of this status weighs as much. -/
theorem weight_congr {d d' : DbConnection} (hst : d'.status.distance ≤ d.status.distance)
    (hq : d'.query.map QueryData.id = d.query.map QueryData.id) : d'.weight ≤ d.weight := by
  have hsome : d'.query.isSome = d.query.isSome := by
    rw [← Option.isSome_map, hq, Option.isSome_map]
  rw [DbConnection.weight, DbConnection.weight, hsome]
  exact Nat.add_le_add_right hst _

theorem pays_refl (hs : s.Owned) : Pays 0 s s := ⟨hs, rfl, by omega⟩

/-- A connection changes and becomes no heavier. -/
theorem pays_setConn (hs : s.Owned) {d : DbConnection} (hd : d.weight ≤ (s.conn c).weight) :
    Pays 0 s (s.setConn c d) := by
  have hle : (s.setConn c d).weights ≤ s.weights + 0 := weights_setConn_le hs hd
  have hload : (s.setConn c d).load = (s.setConn c d).weights + 5 * s.queries.length := rfl
  refine ⟨owned_congr hs rfl rfl rfl, rfl, ?_⟩
  show 0 + (s.setConn c d).load + 5 * s.accepted.length ≤ s.load + 5 * s.accepted.length
  rw [hload, Client.load]
  omega

/-- Neither the connections change nor what is counted. -/
theorem pays_congr (h : Pays n s₁ s) (hconn : s'.conn = s.conn)
    (hc : s'.connections = s.connections) (hb : s'.badConnections = s.badConnections)
    (hn : s'.nextPtr = s.nextPtr) (hq : s'.queries.length = s.queries.length)
    (ha : s'.accepted.length = s.accepted.length) : Pays n s₁ s' := by
  have hw : s'.weights = s.weights := by rw [Client.weights, hconn, hc]; rfl
  have hle := h.le
  refine ⟨owned_congr h.owned hc hb hn, by rw [hc, h.length], ?_⟩
  have hload : s'.load = s.load := by rw [Client.load, hw, hq]; rfl
  omega

/-- A query from the queue costs less than it does in the queue. -/
theorem pays_next (hs : s.Owned) (hq : (s.conn c).query = none) {q : QueryData}
    {rest : List QueryData} (hqs : s.queries = q :: rest) : Pays 1 s (s.next c q) := by
  have hle := weights_setConn_le (m := 4) hs (c := c)
    (d := { s.conn c with query := some q }) (DbConnection.weight_attach rfl hq)
  have hw : (s.next c q).weights =
      (s.setConn c { s.conn c with query := some q }).weights := rfl
  have hqs' : (s.next c q).queries = rest := by simp [Client.next, hqs]
  refine ⟨owned_congr hs rfl rfl rfl, rfl, ?_⟩
  show 1 + (s.next c q).load + 5 * s.accepted.length ≤ s.load + 5 * s.accepted.length
  rw [Client.load, Client.load, hw, hqs', hqs, List.length_cons]
  omega

/-- A query that is taken brings what it costs. -/
theorem pays_start (hs : s.Owned) (hq : (s.conn c).query = none) (pq : QueryData) :
    Pays 0 s (s.start c pq) := by
  have hle := weights_setConn_le (m := 4) hs (c := c)
    (d := { s.conn c with query := some pq }) (DbConnection.weight_attach rfl hq)
  have hw : (s.start c pq).weights =
      (s.setConn c { s.conn c with query := some pq }).weights := rfl
  have hqs : (s.start c pq).queries = s.queries := rfl
  have ha : (s.start c pq).accepted.length = s.accepted.length + 1 := by simp [Client.start]
  refine ⟨owned_congr hs rfl rfl rfl, rfl, ?_⟩
  rw [Client.load, Client.load, hw, hqs, ha]
  omega

theorem pays_enqueue (hs : s.Owned) (pq : QueryData) : Pays 0 s (s.enqueue pq) := by
  have hw : (s.enqueue pq).weights = s.weights := rfl
  have hqs : (s.enqueue pq).queries.length = s.queries.length + 1 := by simp [Client.enqueue]
  have ha : (s.enqueue pq).accepted.length = s.accepted.length + 1 := by simp [Client.enqueue]
  refine ⟨owned_congr hs rfl rfl rfl, rfl, ?_⟩
  rw [Client.load, Client.load, hw, hqs, ha]
  omega

theorem pays_take (hs : s.Owned) (q : QueryData) : Pays 0 s (s.take c q) := by
  have hw : ({ s.conn c with query := none } : DbConnection).weight ≤ (s.conn c).weight := by
    simp [DbConnection.weight]
  exact pays_congr (pays_setConn hs hw) rfl rfl rfl rfl rfl rfl

theorem pays_setTimestamp (hs : s.Owned) (c : ConnPtr) (t : ℤ) : Pays 0 s (s.setTimestamp c t) :=
  pays_setConn hs (Nat.le_refl _)

theorem pays_setConnected (hs : s.Owned) (b : Bool) : Pays 0 s (s.setConnected b) :=
  pays_congr (pays_refl hs) rfl rfl rfl rfl rfl rfl

/-- A query that expires costs less than it has brought, with its connection. -/
theorem pays_expire (hs : s.Owned) (hc : c ∈ s.connections) (hst : (s.conn c).status = .ready)
    {q : QueryData} (hq : (s.conn c).query = some q) (q' : QueryData) :
    Pays 1 s ((s.expire c q).take c q') := by
  have hother : ∀ x, x ≠ c → ((s.expire c q).take c q').conn x = s.conn x := fun x hx =>
    ((s.expire c q).setConn_conn_of_ne hx _).trans (s.setConn_conn_of_ne hx _)
  have hold : (s.conn c).weight = 4 := by
    rw [DbConnection.weight, hst, hq]
    rfl
  have hnew : (((s.expire c q).take c q').conn c).weight = 3 := by
    simp [Client.take, Client.expire, DbConnection.weight, ConnectionStatus.distance]
  have hlt : ((s.expire c q).take c q').weights < s.weights := by
    refine weights_lt rfl (fun x _ => ?_) ⟨c, hc, by rw [hnew, hold]; decide⟩
    by_cases hx : x = c
    · subst hx
      rw [hnew, hold]
      decide
    · rw [hother x hx]
  have hload : ((s.expire c q).take c q').load =
      ((s.expire c q).take c q').weights + 5 * s.queries.length := rfl
  refine ⟨owned_congr hs rfl rfl rfl, rfl, ?_⟩
  show 1 + ((s.expire c q).take c q').load + 5 * s.accepted.length ≤
    s.load + 5 * s.accepted.length
  rw [hload, Client.load]
  omega

/-! ### The contract -/

/-- The contract of all that runs in between: nothing is added to what is to be done. -/
def paying (s₁ : Client) : Contract Client Call where
  moment := fun _ => True
  boundary := fun _ s => Pays 0 s₁ s
  later := fun _ _ => True

/-- The verification condition of a function that adds nothing. -/
abbrev Keeps (s₁ : Client) (cs : List Call) {α : Type} (p : DbProg α) (s : Client) : Prop :=
  p.Safe around (paying s₁) cs (fun _ s' => Pays 0 s₁ s') s

theorem nextQuery_keeps (h : Pays 0 s₁ s) (hq : (s.conn c).query = none) :
    Keeps s₁ cs (nextQuery c) s := by
  unfold nextQuery
  simp only [Keeps, Prog.safe_bind, Prog.safe_read]
  cases hqs : s.queries with
  | nil => exact h
  | cons q rest =>
    have hnext : Pays 0 s₁ (s.next c q) := (h.trans (pays_next h.owned hq hqs)).weaken
    simp only [Prog.safe_bind, Prog.safe_modify, Prog.safe_ask, Prog.safe_pure]
    refine ⟨trivial, trivial, hnext, fun r s' _ hs' _ => ⟨trivial, trivial, ?_⟩⟩
    exact hs'.trans (pays_setTimestamp hs'.owned c _)

theorem refill_keeps (h : Pays 0 s₁ s) : Keeps s₁ cs (refill c) s := by
  unfold refill
  simp only [Keeps, Prog.safe_bind, Prog.safe_read, Prog.safe_when, Prog.safe_pure]
  exact ⟨fun hfree => nextQuery_keeps h (isFree_iff.mp hfree).2, fun _ => h⟩

theorem result_keeps (h : Pays 0 s₁ s) : Keeps s₁ cs (result c) s := by
  unfold result deliver
  simp only [Keeps, Prog.safe_bind, Prog.safe_read]
  cases (s.conn c).query with
  | none => exact refill_keeps h
  | some q =>
    have htake : Pays 0 s₁ (s.take c q) := h.trans (pays_take h.owned q)
    simp only [Prog.safe_bind, Prog.safe_modify, Prog.safe_ask, Prog.safe_pure]
    exact ⟨trivial, trivial, htake, fun r s' _ hs' _ => refill_keeps hs'⟩

theorem query_keeps (h : Pays 0 s₁ s) (pq : QueryData) : Keeps s₁ cs (query pq) s := by
  unfold query
  simp only [Keeps, Prog.safe_bind, Prog.safe_read]
  cases hf : s.connections.find? s.isFree with
  | some c =>
    have hq : (s.conn c).query = none := (isFree_iff.mp (List.find?_some hf)).2
    simp only [Prog.safe_bind, Prog.safe_modify, Prog.safe_ask, Prog.safe_pure]
    refine ⟨trivial, trivial, h.trans (pays_start h.owned hq pq), fun r s' _ hs' _ => ?_⟩
    exact ⟨trivial, trivial, hs'.trans (pays_setTimestamp hs'.owned c _)⟩
  | none =>
    split_ifs with hfull
    · exact ⟨trivial, trivial, pays_congr h rfl rfl rfl rfl rfl rfl⟩
    · exact ⟨trivial, trivial, h.trans (pays_enqueue h.owned pq)⟩

/-- `Query`, with the record of what it returns. -/
theorem query_program_keeps (h : Pays 0 s₁ s) (pq : QueryData) :
    Keeps s₁ cs (Entry.query pq).program s := by
  show Keeps s₁ cs (do let ok ← query pq; Prog.modify (·.logReturn pq.id ok)) s
  simp only [Keeps, Prog.safe_bind]
  refine (query_keeps h pq).mono fun ok s' hs' => ?_
  exact ⟨trivial, trivial, pays_congr hs' rfl rfl rfl rfl rfl rfl⟩

/-- **Whatever runs in between adds nothing to what is to be done.** -/
theorem paying_invariant (s₁ : Client) : Invariant around (paying s₁) where
  refl := fun _ => trivial
  trans := fun _ _ => trivial
  moment := fun _ _ _ => trivial
  entry := by
    rintro cs s e h ⟨hmay, hne⟩
    cases e with
    | query pq => exact query_program_keeps h pq
    | onTimer now => exact absurd hmay hne
    | dataProcessing fd => exact absurd hmay hne
    | result c => exact result_keeps h
  act := by
    rintro cs s a h ⟨hmay, hnot⟩
    refine ⟨?_, trivial⟩
    cases a with
    | clock t => exact pays_congr h rfl rfl rfl rfl rfl rfl
    | hook c d => exact Falls.trans h (pays_setConn h.owned (weight_congr hnot hmay.2.2))

/-- What keeps the contract adds nothing. -/
theorem pays_of_runs {α : Type} {p : DbProg α} {a : α} (hp : Keeps s₁ cs p s)
    (h : Runs around cs p s a s') : Pays 0 s₁ s' := (h.safe (paying_invariant s₁) hp).2

/-! ### One connection -/

/-- A hook that calls nothing leaves its connection with its query, and no worse. -/
theorem silent_between {k : Call} (hk : k.owner = some c) (hsilent : k.silent = true)
    (h : Between around [k] s s') : Alone c s s' ∧
      (s'.conn c).status.distance ≤ (s.conn c).status.distance ∧
      (s'.conn c).query.map QueryData.id = (s.conn c).query.map QueryData.id := by
  refine alone_of_between (I := fun d => d.status.distance ≤ (s.conn c).status.distance ∧
    d.query.map QueryData.id = (s.conn c).query.map QueryData.id)
    (fun hI hnot hq => ?_) ⟨Nat.le_refl _, rfl⟩ hk hsilent h
  exact ⟨Nat.le_trans hnot hI.1, hq.trans hI.2⟩

/-- One connection alone changes, and gets lighter. -/
theorem alone_pays (h : Alone c s s') (hs : s.Owned) (hc : c ∈ s.connections)
    (hlt : (s'.conn c).weight < (s.conn c).weight) : Pays 1 s s' := by
  have hle : s'.weights < s.weights := by
    refine weights_lt h.connections (fun x _ => ?_) ⟨c, hc, hlt⟩
    by_cases hx : x = c
    · subst hx
      exact Nat.le_of_lt hlt
    · rw [h.other x hx]
  refine ⟨owned_congr hs h.connections h.badConnections h.nextPtr, by rw [h.connections], ?_⟩
  show 1 + s'.load + 5 * s.accepted.length ≤ s.load + 5 * s'.accepted.length
  rw [Client.load, Client.load, h.queries, h.accepted]
  omega

/-- With the same query, a connection that is closer to being ready is lighter. -/
theorem weight_lt {d d' : DbConnection} (hst : d'.status.distance < d.status.distance)
    (hq : d'.query.map QueryData.id = d.query.map QueryData.id) : d'.weight < d.weight := by
  have hsome : d'.query.isSome = d.query.isSome := by
    rw [← Option.isSome_map, hq, Option.isSome_map]
  rw [DbConnection.weight, DbConnection.weight, hsome]
  exact Nat.add_lt_add_right hst _

theorem retire_pays (hs : s.Owned) {i : ℕ} (hi : s.connections[i]? = some c)
    (hst : (s.conn c).status = .error)
    (h : Between around [.newConnection s.nextPtr] (s.retire i c now) s') : Pays 1 s s' := by
  have hsum := Reconnect.sum_map_retire hs hi (f := DbConnection.weight) (fun _ _ => rfl) now
  have hold : 3 ≤ (s.conn c).weight := by
    rw [DbConnection.weight, hst]
    exact Nat.le_add_right _ _
  have hfresh : DbConnection.fresh.weight = 2 := rfl
  have hretire : Pays 1 s (s.retire i c now) := by
    refine ⟨owned_retire hs hi now, List.length_set, ?_⟩
    have hw : (s.retire i c now).weights =
        ((s.retire i c now).connections.map fun x => ((s.retire i c now).conn x).weight).sum := rfl
    have hload : (s.retire i c now).load = (s.retire i c now).weights + 5 * s.queries.length := rfl
    show 1 + (s.retire i c now).load + 5 * s.accepted.length ≤ s.load + 5 * s.accepted.length
    rw [hload, Client.load, hw, Client.weights]
    omega
  have hhook := (h.kept (paying_invariant _) (pays_refl hretire.owned)).2
  exact hretire.trans hhook

/-- `Result` is called for a query that the timer has expired. -/
theorem result_expired_keeps {q q' : QueryData} (hs : ((s.expire c q).take c q').Owned)
    (hq : ((s.expire c q).conn c).query = some q') :
    Keeps ((s.expire c q).take c q') [] (result c) (s.expire c q) := by
  unfold result deliver
  simp only [Keeps, Prog.safe_bind, Prog.safe_read, hq, Prog.safe_modify, Prog.safe_ask,
    Prog.safe_pure]
  exact ⟨trivial, trivial, pays_refl hs, fun r s' _ hs' _ => refill_keeps hs'⟩

/-- `NextQuery` starts the query in front. -/
theorem nextQuery_starts {q : QueryData} {rest : List QueryData} (hqs : s.queries = q :: rest)
    (hs : (s.next c q).Owned) : Keeps (s.next c q) [] (nextQuery c) s := by
  unfold nextQuery
  simp only [Keeps, Prog.safe_bind, Prog.safe_read, hqs, Prog.safe_modify, Prog.safe_ask,
    Prog.safe_pure]
  refine ⟨trivial, trivial, pays_refl hs, fun r s' _ hs' _ => ⟨trivial, trivial, ?_⟩⟩
  exact Falls.trans hs' (pays_setTimestamp hs'.owned c _)

/-- With nothing in the queue it does nothing. -/
theorem nextQuery_nil {started : Bool} (hqs : s.queries = [])
    (h : Runs around [] (nextQuery c) s started s') : started = false ∧ s' = s := by
  unfold nextQuery at h
  rw [runs_read_bind] at h
  simp only [hqs] at h
  exact runs_pure.mp h

/-- The ping of a connection that has nothing to do. -/
theorem ping_runs {b : Bool} {u : Unit} (h : Runs around []
    (Prog.when b do
      let _ ← Prog.ask (.doPing c)
      Prog.modify (·.setTimestamp c now)) s u s') :
    Alone c s s' ∧ (s'.conn c).status.distance ≤ (s.conn c).status.distance ∧
      (s.Owned → Pays 0 s s') := by
  rcases runs_when.mp h with ⟨-, h⟩ | ⟨-, rfl⟩
  · rw [runs_ask_bind] at h
    obtain ⟨r, s₁, hbetween, -, h⟩ := h
    obtain rfl := runs_modify.mp h
    obtain ⟨halone, hle, -⟩ := silent_between rfl rfl hbetween
    refine ⟨halone.trans (.setConn c s₁ _), by rw [Client.setTimestamp_status]; exact hle,
      fun hs => ?_⟩
    have hping := (hbetween.kept (paying_invariant s) (pays_refl hs)).2
    exact hping.trans (pays_setTimestamp hping.owned c now)
  · exact ⟨.refl c s', Nat.le_refl _, pays_refl⟩

/-- The `CONNECTION_READY` case, with something to do. -/
theorem ready_pays {u : Unit} (h : Runs around [] (onTimer.ready now c) s u s') (hs : s.Owned)
    (hc : c ∈ s.connections) (hst : (s.conn c).status = .ready)
    (hwants : s.isOverdue now c = true ∨ (s.conn c).query = none ∧ s.queries ≠ []) :
    Pays 1 s s' := by
  unfold onTimer.ready at h
  rw [runs_read_bind] at h
  rcases hwants with hover | ⟨hnone, hne⟩
  · rw [Client.isOverdue, Bool.and_eq_true] at hover
    obtain ⟨q, hq⟩ := Option.isSome_iff_exists.mp hover.1
    rw [hq] at h
    rcases runs_when.mp h with ⟨-, h⟩ | ⟨hnot, -⟩
    · rw [runs_modify_bind] at h
      have hq' : ((s.expire c q).conn c).query =
          some (Client.expiredQuery q "Query timeout expired") := by
        simp [Client.expire, Client.setConn]
      have hexpire := pays_expire hs hc hst hq (Client.expiredQuery q "Query timeout expired")
      exact hexpire.trans (pays_of_runs (result_expired_keeps hexpire.owned hq') h)
    · exact absurd (hnot.symm.trans hover.2) (by decide)
  · obtain ⟨q, rest, hqs⟩ := List.exists_cons_of_ne_nil hne
    rw [hnone, runs_bind] at h
    obtain ⟨started, s₁, hnext, h⟩ := h
    rw [runs_read_bind] at h
    have hpays := pays_next hs hnone hqs
    have h₁ := hpays.trans (pays_of_runs (nextQuery_starts hqs hpays.owned) hnext)
    exact h₁.trans ((ping_runs h).2.2 h₁.owned)

/-- The `CONNECTION_READY` case, with nothing to do. -/
theorem ready_idle {u : Unit} (h : Runs around [] (onTimer.ready now c) s u s')
    (hst : (s.conn c).status = .ready)
    (hnot : ¬(s.isOverdue now c = true ∨ (s.conn c).query = none ∧ s.queries ≠ [])) :
    Alone c s s' ∧ (s'.conn c).status = .ready ∧ (s.Owned → Pays 0 s s') := by
  rw [not_or] at hnot
  unfold onTimer.ready at h
  rw [runs_read_bind] at h
  cases hq : (s.conn c).query with
  | some q =>
    rw [hq] at h
    rcases runs_when.mp h with ⟨hover, -⟩ | ⟨-, rfl⟩
    · exact absurd (by simp [Client.isOverdue, hq, hover]) hnot.1
    · exact ⟨.refl c s', hst, pays_refl⟩
  | none =>
    have hqs : s.queries = [] := by
      by_contra hne
      exact hnot.2 ⟨hq, hne⟩
    rw [hq, runs_bind] at h
    obtain ⟨started, s₁, hnext, h⟩ := h
    obtain ⟨-, rfl⟩ := nextQuery_nil hqs hnext
    rw [runs_read_bind] at h
    obtain ⟨halone, hle, hpays⟩ := ping_runs h
    rw [hst] at hle
    exact ⟨halone, ConnectionStatus.distance_eq_zero.mp (Nat.le_zero.mp hle), hpays⟩

/-- **Where it finds something to do, `OnTimer` does it.** -/
theorem visit_pays {i : ℕ} {go : Bool} (h : Runs around [] (onTimer.visit now i) s go s')
    (hs : s.Owned) (hi : s.connections[i]? = some c) (hwants : s.Wants now c) : Pays 1 s s' := by
  have hc : c ∈ s.connections := List.mem_of_getElem? hi
  unfold onTimer.visit at h
  rw [runs_read_bind] at h
  simp only [hi] at h
  cases hst : (s.conn c).status with
  | ready =>
    rw [hst, runs_bind] at h
    obtain ⟨u, s₁, h, hret⟩ := h
    obtain ⟨-, rfl⟩ := runs_pure.mp hret
    exact ready_pays h hs hc hst (hwants.1 hst)
  | wait =>
    rw [hst, runs_modify_bind, runs_ask_bind] at h
    obtain ⟨r, s₁, hbetween, hr, h⟩ := h
    rw [runs_read_bind] at h
    obtain ⟨-, rfl⟩ := runs_pure.mp h
    obtain ⟨halone, -, hq⟩ := silent_between rfl rfl hbetween
    have hle : (s'.conn c).status.distance ≤ 1 := hr.2
    have hold : (s.conn c).status.distance = 2 := by rw [hst]; rfl
    rw [Client.setTimestamp_query] at hq
    exact alone_pays ((Alone.setConn c s _).trans halone) hs hc (weight_lt (by omega) hq)
  | connect =>
    rw [hst, runs_bind] at h
    obtain ⟨u, s₁, h, hret⟩ := h
    obtain ⟨-, rfl⟩ := runs_pure.mp hret
    unfold onTimer.connect at h
    rw [runs_ask_bind] at h
    obtain ⟨r, s₂, hbetween, hr, h⟩ := h
    obtain ⟨halone, -, hq⟩ := silent_between rfl rfl hbetween
    obtain rfl : r = true := hr.2.1
    have hready : (s₂.conn c).status = .ready := hr.2.2
    obtain rfl := runs_modify.mp h
    have hlt : (s₂.conn c).status.distance < (s.conn c).status.distance := by
      rw [hready, hst]
      decide
    have hpays := alone_pays halone hs hc (weight_lt hlt hq)
    exact hpays.trans (pays_setConnected hpays.owned true)
  | error =>
    have hold : (s.setConnected false).older now s.client.connectTimeout c = true := hwants.2 hst
    rw [hst, runs_modify_bind, runs_bind] at h
    obtain ⟨u, s₁, h, hret⟩ := h
    obtain ⟨-, rfl⟩ := runs_pure.mp hret
    have hconnected := pays_setConnected hs false
    rcases runs_when.mp h with ⟨-, h⟩ | ⟨hnot, -⟩
    · rw [runs_modify_bind, runs_ask_bind] at h
      obtain ⟨r, s₂, hbetween, -, h⟩ := h
      obtain ⟨-, rfl⟩ := runs_pure.mp h
      exact hconnected.trans (retire_pays hconnected.owned hi hst hbetween)
    · exact absurd (hnot.symm.trans hold) (by decide)

/-- It goes on at a ready connection with nothing to do. -/
theorem visit_idle {i : ℕ} {go : Bool} (h : Runs around [] (onTimer.visit now i) s go s')
    (hi : s.connections[i]? = some c) (hst : (s.conn c).status = .ready)
    (hnot : ¬(s.isOverdue now c = true ∨ (s.conn c).query = none ∧ s.queries ≠ [])) :
    go = true ∧ Alone c s s' ∧ (s.Owned → Pays 0 s s') := by
  unfold onTimer.visit at h
  rw [runs_read_bind] at h
  simp only [hi, hst, runs_bind, runs_pure] at h
  obtain ⟨u, s₁, hrun, rfl, rfl⟩ := h
  obtain ⟨halone, -, hpays⟩ := ready_idle hrun hst hnot
  exact ⟨rfl, halone, hpays⟩

/-- It returns at a connection that has failed just now. -/
theorem visit_cooling {i : ℕ} {go : Bool} (h : Runs around [] (onTimer.visit now i) s go s')
    (hi : s.connections[i]? = some c) (hst : (s.conn c).status = .error)
    (hold : s.older now s.client.connectTimeout c = false) : s' = s.setConnected false := by
  unfold onTimer.visit at h
  rw [runs_read_bind] at h
  simp only [hi, hst] at h
  rw [runs_modify_bind, runs_bind] at h
  obtain ⟨u, s₁, h, hret⟩ := h
  obtain ⟨-, rfl⟩ := runs_pure.mp hret
  have hold' : (s.setConnected false).older now s.client.connectTimeout c = false := hold
  rcases runs_when.mp h with ⟨hyes, -⟩ | ⟨-, rfl⟩
  · exact absurd (hold'.symm.trans hyes) (by decide)
  · rfl

/-- Nothing is added at any connection. -/
theorem visit_adds_nothing {i : ℕ} {go : Bool}
    (h : Runs around [] (onTimer.visit now i) s go s') (hs : s.Owned) : Pays 0 s s' := by
  cases hi : s.connections[i]? with
  | none =>
    unfold onTimer.visit at h
    rw [runs_read_bind] at h
    simp only [hi] at h
    obtain ⟨-, rfl⟩ := runs_pure.mp h
    exact pays_refl hs
  | some c =>
    by_cases hwants : s.Wants now c
    · exact (visit_pays h hs hi hwants).weaken
    · rw [Client.Wants, Classical.not_and_iff_not_or_not] at hwants
      rcases hwants with hwants | hwants
      · rw [Classical.not_imp] at hwants
        exact (visit_idle h hi hwants.1 hwants.2).2.2 hs
      · rw [Classical.not_imp, Bool.not_eq_true] at hwants
        rw [visit_cooling h hi hwants.1 hwants.2]
        exact pays_setConnected hs false

/-! ### A call -/

theorem loop_adds_nothing : ∀ {n i : ℕ} {s : Client} {go : Bool},
    Runs around [] (onTimer.loop now n i) s go s' → s.Owned → Pays 0 s s' := by
  intro n
  induction n with
  | zero =>
    intro i s go h hs
    obtain ⟨-, rfl⟩ := runs_pure.mp h
    exact pays_refl hs
  | succ n ih =>
    intro i s go h hs
    simp only [onTimer.loop, runs_bind] at h
    obtain ⟨go', s₁, hvisit, h⟩ := h
    have h₁ := visit_adds_nothing hvisit hs
    cases go' with
    | true => exact h₁.trans (ih h h₁.owned)
    | false =>
      obtain ⟨-, rfl⟩ := runs_pure.mp h
      exact h₁

/-- What is to be done at the index the loop is at is done. -/
theorem loop_pays_at {i : ℕ} {go : Bool} (h : Runs around [] (onTimer.loop now (n + 1) i) s go s')
    (hs : s.Owned) (hi : s.connections[i]? = some c) (hwants : s.Wants now c) : Pays 1 s s' := by
  simp only [onTimer.loop, runs_bind] at h
  obtain ⟨go', s₁, hvisit, h⟩ := h
  have h₁ := visit_pays hvisit hs hi hwants
  cases go' with
  | true => exact h₁.trans (loop_adds_nothing h h₁.owned)
  | false =>
    obtain ⟨-, rfl⟩ := runs_pure.mp h
    exact h₁

/-- What is to be done for a connection stays to be done while another one changes. -/
theorem wants_congr {y : ConnPtr} (h : Alone y s s') (hcy : c ≠ y) (hwants : s.Wants now c) :
    s'.Wants now c := by
  have hconn := h.other c hcy
  obtain ⟨hready, herror⟩ := hwants
  refine ⟨fun hst => ?_, fun hst => ?_⟩
  · rw [hconn] at hst
    have hw := hready hst
    simp only [Client.isOverdue, Client.older, hconn, h.client, h.queries] at hw ⊢
    exact hw
  · rw [hconn] at hst
    have hw := herror hst
    simp only [Client.older, hconn, h.client] at hw ⊢
    exact hw

/-- The loop gets to the connection, or does something at one in front of it. -/
theorem loop_pays : ∀ {mid pre post : List ConnPtr} {s : Client} {go : Bool},
    s.connections = pre ++ (mid ++ c :: post) → (∀ x ∈ mid, (s.conn x).status = .ready) →
    s.Wants now c → s.Owned →
    Runs around [] (onTimer.loop now (mid.length + (post.length + 1)) pre.length) s go s' →
    Pays 1 s s' := by
  intro mid
  -- by induction on the ready connections in front of it
  induction mid with
  | nil =>
    intro pre post s go hL _ hwants hs h
    have hi : s.connections[pre.length]? = some c := by simp [hL]
    rw [List.length_nil, Nat.zero_add] at h
    exact loop_pays_at h hs hi hwants
  | cons y mid ih =>
    intro pre post s go hL hready hwants hs h
    have hi : s.connections[pre.length]? = some y := by simp [hL]
    have hy := hready y List.mem_cons_self
    have hlen : (y :: mid).length + (post.length + 1) = mid.length + (post.length + 1) + 1 := by
      rw [List.length_cons]
      omega
    rw [hlen] at h
    by_cases hwork : s.isOverdue now y = true ∨ (s.conn y).query = none ∧ s.queries ≠ []
    · exact loop_pays_at h hs hi ⟨fun _ => hwork, fun herr => by rw [hy] at herr; cases herr⟩
    · simp only [onTimer.loop, runs_bind] at h
      obtain ⟨go', s₁, hvisit, h⟩ := h
      obtain ⟨rfl, halone, hpays⟩ := visit_idle hvisit hi hy hwork
      have hnodup : s.connections.Nodup := (List.nodup_append.mp hs.nodup).1
      rw [hL, List.cons_append, List.nodup_middle, List.nodup_cons] at hnodup
      have hcy : c ≠ y := by rintro rfl; exact hnodup.1 (by simp)
      have hmid : ∀ x ∈ mid, (s₁.conn x).status = .ready := by
        intro x hx
        have hxy : x ≠ y := by rintro rfl; exact hnodup.1 (by simp [hx])
        rw [halone.other x hxy]
        exact hready x (List.mem_cons_of_mem _ hx)
      have hL₁ : s₁.connections = (pre ++ [y]) ++ (mid ++ c :: post) := by
        rw [halone.connections, hL]
        simp
      have hlen₁ : (pre ++ [y]).length = pre.length + 1 := by simp
      rw [← hlen₁] at h
      have h₁ := hpays hs
      exact h₁.trans (ih hL₁ hmid (wants_congr halone hcy hwants) h₁.owned h)

/-- The loop, and the sweep at most. -/
theorem onTimer_pays
    (hloop : ∀ {go s₁}, Runs around [] (onTimer.loop now s.connections.length 0) s go s₁ →
      Pays n s s₁) (h : Runs around [] (onTimer now) s () s') : Pays n s s' := by
  unfold onTimer at h
  rw [runs_read_bind, runs_bind] at h
  obtain ⟨finished, s₁, hrun, h⟩ := h
  have h₁ := hloop hrun
  rcases runs_when.mp h with ⟨-, h⟩ | ⟨-, rfl⟩
  · obtain rfl := runs_modify.mp h
    exact ⟨owned_sweep h₁.owned now, h₁.length, h₁.le⟩
  · exact h₁

/-- **A call of `OnTimer` that comes to something to do does something.** -/
theorem hasWork_pays (hs : s.Owned) (hwork : s.HasWork now)
    (h : Runs around [] (onTimer now) s () s') : Pays 1 s s' := by
  obtain ⟨pre, c, post, hL, hready, hwants⟩ := hwork
  refine onTimer_pays (fun hrun => ?_) h
  have hlen : s.connections.length = pre.length + (post.length + 1) := by rw [hL]; simp
  rw [hlen] at hrun
  have hnone : s.connections = [] ++ (pre ++ c :: post) := hL
  exact loop_pays hnone hready hwants hs hrun

theorem dataProcessing_keeps (hs : s.Owned) (fd : ℤ) : Keeps s [] (dataProcessing fd) s := by
  have hrefl := pays_refl hs
  unfold dataProcessing
  simp only [Keeps, Prog.safe_bind, Prog.safe_read]
  cases hf : s.connections.find? fun c => (s.conn c).fd == fd with
  | none => exact hrefl
  | some c =>
    unfold dispatch
    simp only [Prog.safe_bind, Prog.safe_read, Prog.safe_pure]
    cases (s.conn c).status with
    | ready =>
      have hcheck : Pays 0 s (s.check c) := pays_congr hrefl rfl rfl rfl rfl rfl rfl
      simp only [Prog.safe_bind, Prog.safe_when, Prog.safe_modify, Prog.safe_ask, Prog.safe_pure]
      exact ⟨fun _ => ⟨trivial, trivial, hcheck, fun _ _ _ hs' _ => hs'⟩, fun _ => hrefl⟩
    | connect =>
      simp only [Prog.safe_bind, Prog.safe_when, Prog.safe_modify, Prog.safe_ask]
      refine ⟨hrefl, fun r s' _ hs' _ => ⟨fun _ => ⟨trivial, trivial, ?_⟩, fun _ => hs'⟩⟩
      exact Falls.trans hs' (pays_setConnected hs'.owned true)
    | wait => exact hrefl
    | error => exact hrefl

/-- No call adds anything, but for the queries it takes. -/
theorem entry_adds_nothing {e : Entry} (hs : s.Owned) (hmay : mayEnter [] s e)
    (h : Runs around [] e.program s () s') : Pays 0 s s' := by
  cases e with
  | query pq =>
    have hkeeps : Keeps s [] (Entry.query pq).program s := query_program_keeps (pays_refl hs) pq
    exact pays_of_runs hkeeps h
  | onTimer now => exact onTimer_pays (fun hrun => loop_adds_nothing hrun hs) h
  | dataProcessing fd =>
    have h' : Runs around [] (do let _ ← dataProcessing fd) s () s' := h
    rw [runs_bind] at h'
    obtain ⟨b, s₁, hrun, hret⟩ := h'
    obtain ⟨-, rfl⟩ := runs_pure.mp hret
    exact pays_of_runs (dataProcessing_keeps hs fd) hrun
  | result c => simp [mayEnter] at hmay

/-! ### Runs -/

/-- After a call, only the clock moves. -/
theorem pays_of_returns {e : Entry} (h : Returns reachableDatabase e s s')
    (hrun : ∀ {s₁}, Runs around [] e.program s () s₁ → Pays n s s₁) : Pays n s s' := by
  obtain ⟨s₁, hruns, hbetween⟩ := runs_of_steps h
  have h₁ := hrun hruns
  have hidle := (hbetween.kept (paying_invariant s₁) (pays_refl h₁.owned)).2
  exact h₁.trans hidle

theorem pays_of_run (hs : s.Owned)
    (h : CountedRun reachableDatabase Client.HasWork n s s') : Pays n s s' := by
  induction h with
  | refl s => exact pays_refl hs
  | clock t _ ih => exact pays_congr (ih hs) rfl rfl rfl rfl rfl rfl
  | call e _ hmay _ hret ih =>
    have h₁ := ih hs
    exact h₁.trans (pays_of_returns hret fun hrun => entry_adds_nothing h₁.owned hmay hrun)
  | timer now _ hwork hret ih =>
    have h₁ := ih hs
    exact h₁.trans (pays_of_returns hret fun hrun => hasWork_pays h₁.owned hwork hrun)

/-- When nothing is to be done, all connections are ready and no query is left. -/
theorem idle_of_load (h : s.load = 0) :
    s.queries = [] ∧ ∀ c ∈ s.connections, (s.conn c).status = .ready ∧ (s.conn c).query = none := by
  rw [Client.load] at h
  refine ⟨List.length_eq_zero_iff.mp (by omega), fun c hc => ?_⟩
  have hw : (s.connections.map fun c => (s.conn c).weight).sum = 0 := by
    rw [Client.weights] at h
    omega
  have hc' : (s.conn c).weight = 0 := List.sum_eq_zero_iff.mp hw _ (List.mem_map_of_mem hc)
  rw [DbConnection.weight] at hc'
  refine ⟨ConnectionStatus.distance_eq_zero.mp (by omega), ?_⟩
  rw [← Option.not_isSome_iff_eq_none]
  intro hsome
  rw [if_pos hsome] at hc'
  omega

/-- When `OnTimer` will never find anything to do, it is the same. -/
theorem idle_of_never (hne : s.connections ≠ []) (h : ∀ now, ¬s.HasWork now) :
    s.queries = [] ∧ ∀ c ∈ s.connections, (s.conn c).status = .ready ∧ (s.conn c).query = none := by
  have hready : ∀ c ∈ s.connections, (s.conn c).status = .ready := by
    by_contra hnot
    obtain ⟨now, pre, c, post, hL, hpre, hst, hold⟩ := Reconnect.exists_due hnot
    exact h now ⟨pre, c, post, hL, hpre, fun hst' => absurd hst' hst, hold⟩
  -- so it comes to each of them
  have hnever : ∀ c ∈ s.connections, ∀ now, s.isOverdue now c = false ∧
      ((s.conn c).query = none → s.queries = []) := by
    intro c hc now
    obtain ⟨pre, post, hL⟩ := List.append_of_mem hc
    have hpre : ∀ x ∈ pre, (s.conn x).status = .ready := fun x hx =>
      hready x (by rw [hL]; exact List.mem_append_left _ hx)
    have hwants : ¬(s.isOverdue now c = true ∨ (s.conn c).query = none ∧ s.queries ≠ []) :=
      fun hwants => h now ⟨pre, c, post, hL, hpre, fun _ => hwants, fun herr => by
        rw [hready c hc] at herr
        cases herr⟩
    rw [not_or, not_and, not_not, Bool.not_eq_true] at hwants
    exact hwants
  have hquery : ∀ c ∈ s.connections, (s.conn c).query = none := by
    intro c hc
    have hover := (hnever c hc ((s.conn c).timestamp + s.client.queryTimeout + 1)).1
    have hold : s.older ((s.conn c).timestamp + s.client.queryTimeout + 1) s.client.queryTimeout c =
        true := by
      rw [Client.older, decide_eq_true_eq]
      omega
    rw [Client.isOverdue, hold, Bool.and_true] at hover
    exact Option.not_isSome_iff_eq_none.mp (by rw [hover]; decide)
  obtain ⟨c, hc⟩ := List.exists_mem_of_ne_nil _ hne
  exact ⟨(hnever c hc 0).2 (hquery c hc), fun x hx => ⟨hready x hx, hquery x hx⟩⟩

/-- **In a run `OnTimer` finds something to do at most as many times as the load says, and five
for each query that is taken in it.  After that many times, or when it will never find anything
any more, all connections are ready and no query is left.** -/
theorem drains_of_run (hs : s.Owned) (hne : s.connections ≠ [])
    (h : CountedRun reachableDatabase Client.HasWork n s s') :
    n ≤ s.load + 5 * (s'.accepted.length - s.accepted.length) ∧
      ((n = s.load + 5 * (s'.accepted.length - s.accepted.length) ∨ ∀ now, ¬s'.HasWork now) →
        s'.queries = [] ∧
          ∀ c ∈ s'.connections, (s'.conn c).status = .ready ∧ (s'.conn c).query = none) := by
  have hpays := pays_of_run hs h
  have hle := hpays.le
  refine ⟨by omega, ?_⟩
  rintro (hn | hnever)
  · exact idle_of_load (by omega)
  · refine idle_of_never (fun hnil => hne ?_) hnever
    rw [← List.length_eq_zero_iff, ← hpays.length, hnil, List.length_nil]

/-! ### The answers -/

/-- Hooks that make no connection worse take none out of the ready state. -/
theorem step_keepWhileBusy {cfg cfg' : Config Client Call Bool} (h : Step around cfg cfg') :
    Step (interface keepWhileBusy) cfg cfg' := by
  cases h with
  | tick => exact .tick _
  | enter e hrun hmay => exact .enter e hrun hmay.1
  | act a hrun hmay =>
    refine .act a hrun ?_
    obtain ⟨hfree, hnot⟩ := hmay
    cases a with
    | clock t => exact hfree
    | hook c d =>
      refine ⟨hfree.1, fun hready hne => absurd ?_ hne, hfree.2.2⟩
      have hle : d.status.distance ≤ (cfg.state.conn c).status.distance := hnot
      rw [hready] at hle
      exact ConnectionStatus.distance_eq_zero.mp (Nat.le_zero.mp hle)
  | @reply s k f rest r hmay =>
    refine .reply r ⟨fun c hc => ?_, hmay.1.2⟩
    obtain ⟨-, hadvances⟩ := hmay
    cases k with
    | checkConnect x =>
      obtain rfl : x = c := Option.some.inj hc
      exact iff_of_true hadvances.1 hadvances.2
    | doQuery x | checkResult x | doConnect x | doPing x | newConnection x | onResult x q =>
      simp [Call.connecting] at hc

/-- Each query that was taken is in one place. -/
abbrev Accounting : Client → Prop := Both keepWhileBusy (fun _ s => Answering s) []

theorem accounting_of_returns {e : Entry} (h : Accounting s) (hmay : mayEnter [] s e)
    (hret : Returns reachableDatabase e s s') : Accounting s' := by
  have hI := Answering.kept.invariant
  have hsteps := Relation.ReflTransGen.mono (fun _ _ => step_keepWhileBusy) _ _ hret
  exact hI.returns (hI.moment [] s h) (hI.entry [] s e h hmay) hsteps

theorem accounting_of_run {P : Client → ℤ → Prop} (hs : Accounting s)
    (h : CountedRun reachableDatabase P n s s') : Accounting s' := by
  induction h with
  | refl s => exact hs
  | clock t _ ih =>
    obtain ⟨hbase, hanswering⟩ := ih hs
    exact ⟨hbase.congr rfl rfl rfl fun _ _ => ⟨rfl, rfl⟩,
      hanswering.conserved.congr rfl rfl rfl rfl rfl rfl, hanswering.busy, hanswering.idle⟩
  | call e _ hmay _ hret ih => exact accounting_of_returns (ih hs) hmay hret
  | timer now _ _ hret ih => exact accounting_of_returns (e := .onTimer now) (ih hs) rfl hret

/-- What was taken is delivered, if it is neither in the queue nor with a connection. -/
theorem delivered_of_idle (h : Accounting s) (hq : s.queries = [])
    (hc : ∀ c ∈ s.connections, (s.conn c).query = none) :
    (s.delivered.map QueryData.id).Perm s.accepted ∧ s.accepted.Nodup := by
  have hslots : s.slotIds = [] := by
    refine List.filterMap_eq_nil_iff.mpr fun c hmem => ?_
    have hnone : (s.conn c).query = none := by
      rcases List.mem_append.mp hmem with hmem | hmem
      · exact hc c hmem
      · exact h.2.idle c hmem
    rw [Client.slot, hnone]
    rfl
  have hplaces := h.2.conserved.places
  rw [Client.placeIds, hq, hslots] at hplaces
  exact ⟨hplaces, h.2.conserved.nodup⟩

/-- Before a query has been taken, only the connections have to get ready. -/
theorem load_of_initial (hs : s.Initial) : s.load = s.distance := by
  have hweights : s.connections.map (fun c => (s.conn c).weight) =
      s.connections.map fun c => (s.conn c).status.distance := by
    refine List.map_congr_left fun c hc => ?_
    rw [DbConnection.weight, hs.query c hc]
    rfl
  rw [Client.load, Client.weights, hweights, hs.queries]
  rfl

/-- **From its start on, `OnTimer` finds something to do at most as many times as the
connections are away from being ready, and five for each query that the client has taken.
After that many times, or when it will never find anything any more, all connections are ready
and every query that was taken has been passed to `OnResult`, once.** -/
theorem answers_of_run (hs : s.Initial) (hne : s.connections ≠ [])
    (h : CountedRun reachableDatabase Client.HasWork n s s') :
    n ≤ s.distance + 5 * s'.accepted.length ∧
      ((n = s.distance + 5 * s'.accepted.length ∨ ∀ now, ¬s'.HasWork now) →
        (∀ c ∈ s'.connections, (s'.conn c).status = .ready) ∧
          (s'.delivered.map QueryData.id).Perm s'.accepted ∧ s'.accepted.Nodup) := by
  have hbase := @Base.of_initial keepWhileBusy s hs
  have hbound := drains_of_run ⟨hbase.nodup, hbase.bound⟩ hne h
  rw [load_of_initial hs, hs.accepted, List.length_nil, Nat.sub_zero] at hbound
  refine ⟨hbound.1, fun hdone => ?_⟩
  obtain ⟨hq, hc⟩ := hbound.2 hdone
  exact ⟨fun c hmem => (hc c hmem).1, delivered_of_idle
    (accounting_of_run ⟨hbase, .of_initial hs⟩ h) hq fun c hmem => (hc c hmem).2⟩

/-! ### A query that is answered -/

/-- A new client with one connection. -/
def started : Client := .ofConnections ⟨10, 5, 5⟩ [⟨3, 0, .wait, none⟩]

/-- A query that is taken before it is ready. -/
def asked : QueryData := ⟨7, -1, .ok, "select"⟩

/-- It waits, -/
def queued : Client := (started.enqueue asked).logReturn 7 true

/-- while the connection gets on its way, -/
def onItsWay : Client := (queued.setTimestamp 0 1).setConn 0 ⟨3, 1, .connect, none⟩

/-- and is ready. -/
def ready : Client := (onItsWay.setConn 0 ⟨3, 1, .ready, none⟩).setConnected true

/-- It is started, -/
def sent : Client := (ready.next 0 asked).setTimestamp 0 0

/-- and answered. -/
def answered : Client := (sent.check 0).take 0 asked

theorem run_answered : CountedRun reachableDatabase Client.HasWork 2 started answered :=
  have hqueued : Returns reachableDatabase (.query asked) started queued :=
    @returns_of_play reachableDatabase _ _ _ 20 [] (by decide) rfl
  have honItsWay : Returns reachableDatabase (.onTimer 1) queued onItsWay :=
    @returns_of_play reachableDatabase _ _ _ 20
      [.act (.hook 0 ⟨3, 1, .connect, none⟩), .reply false] (by decide) rfl
  have hready : Returns reachableDatabase (.dataProcessing 3) onItsWay ready :=
    @returns_of_play reachableDatabase _ _ _ 20
      [.act (.hook 0 ⟨3, 1, .ready, none⟩), .reply true] (by decide) rfl
  have hsent : Returns reachableDatabase (.onTimer 2) ready sent :=
    @returns_of_play reachableDatabase _ _ _ 20 [.reply false] (by decide) rfl
  have hanswered : Returns reachableDatabase (.dataProcessing 3) sent answered :=
    @returns_of_play reachableDatabase _ _ _ 8 [.enter (.result 0), .reply false, .reply false]
      (by decide +kernel) rfl
  .call (.dataProcessing 3) (.timer 2 (.call (.dataProcessing 3) (.timer 1
    (.call (.query asked) (.refl started) ⟨rfl, by decide, by decide⟩ (fun _ h => by cases h)
      hqueued)
    ⟨[], 0, [], rfl, by simp, And.intro (by decide) (by decide)⟩ honItsWay)
    rfl (fun _ h => by cases h) hready)
    ⟨[], 0, [], rfl, by simp, And.intro (by decide) (by decide)⟩ hsent)
    rfl (fun _ h => by cases h) hanswered

/-- There is nothing left to do. -/
theorem not_hasWork_answered (now : ℤ) : ¬answered.HasWork now := by
  rintro ⟨pre, c, post, hL, -, hwants⟩
  have hc : c ∈ answered.connections := by rw [hL]; simp
  obtain rfl : c = 0 := List.mem_singleton.mp hc
  rcases hwants.1 (by decide) with hover | ⟨-, hqs⟩
  · rw [Client.isOverdue, Bool.and_eq_true] at hover
    exact absurd hover.1 (by decide)
  · exact hqs (by decide)

/-- It has been delivered. -/
theorem answers_answered : answered.accepted = [7] ∧
    (answered.delivered.map QueryData.id).Perm answered.accepted :=
  ⟨by decide, ((answers_of_run (Client.initial_ofConnections ⟨10, 5, 5⟩ (by simp)) (by decide)
    run_answered).2 (.inr not_hasWork_answered)).2.1⟩

end Drain

end Db
end PeeledOrange
