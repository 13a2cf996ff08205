import PeeledOrange.Db.Hooks
import Mathlib.Algebra.Order.BigOperators.Group.List
import Mathlib.Algebra.Order.Ring.Nat

/-!
# How the connections come back

A failed connection is thrown away, the new object in its place waits, is connecting and
then ready, and `OnTimer` does one of these steps in a call, at the first connection that
is not ready; at a failed one, and at one that it begins to connect while the client is
not `connected`, it returns.  So how long the client takes to be back is a matter of the
number of calls, and of the queries that the timer expires in between, each of which
costs a ready connection.

## Main definitions

* `reachableDatabase` — the hooks while the database can be reached: they do not make
  a connection worse, and those that connect succeed.
* `Client.distance` — how many steps all connections are away from being ready.
* `Client.Due` — `OnTimer` comes to a connection for which it has one of them to do.

## Main results

* `exists_due` — as long as a connection is not ready, a call will be due.
* `recovers_of_run` — **there are at most as many such calls as the distance says, and three
  for each query that the timer has expired, and after that many all are ready.**
-/

namespace PeeledOrange
namespace Db

open Callback

/-! ### The hooks -/

/-- How many steps a connection is away from being ready. -/
def ConnectionStatus.distance : ConnectionStatus → ℕ
  | .ready => 0
  | .connect => 1
  | .wait => 2
  | .error => 3

theorem ConnectionStatus.distance_le (st : ConnectionStatus) : st.distance ≤ 3 := by
  cases st <;> decide

theorem ConnectionStatus.distance_eq_zero {st : ConnectionStatus} :
    st.distance = 0 ↔ st = .ready := by
  cases st <;> simp [ConnectionStatus.distance]

/-- No hook makes its connection worse. -/
def notWorse : Client → Act → Prop
  | s, .hook c d => d.status.distance ≤ (s.conn c).status.distance
  | _, .clock _ => True

/-- `DoConnect` gets its connection on the way, and `CheckConnect` finds it ready. -/
def advances : List Call → Bool → Client → Prop
  | .doConnect c :: _, _, s => (s.conn c).status.distance ≤ 1
  | .checkConnect c :: _, ready, s => ready = true ∧ (s.conn c).status = .ready
  | _, _, _ => True

/-- The client and the code around it, while the database can be reached. -/
abbrev reachableDatabase : Interface Client Call Bool Entry Act := underRules notWorse advances

section Decidable

variable (cs : List Call) (s : Client)

instance (a : Act) : Decidable (notWorse s a) :=
  match a with
  | .hook c d => inferInstanceAs (Decidable (d.status.distance ≤ (s.conn c).status.distance))
  | .clock _ => .isTrue trivial

instance (ready : Bool) : Decidable (advances cs ready s) :=
  match cs with
  | [] => .isTrue trivial
  | .doConnect c :: _ => inferInstanceAs (Decidable ((s.conn c).status.distance ≤ 1))
  | .checkConnect c :: _ => inferInstanceAs (Decidable (ready = true ∧ (s.conn c).status = .ready))
  | .doQuery _ :: _ | .checkResult _ :: _ | .doPing _ :: _ | .newConnection _ :: _
  | .onResult _ _ :: _ => .isTrue trivial

end Decidable

/-! ### The runs -/

namespace Client

variable (s : Client)

/-- How many steps the connections are away from being ready. -/
def distance : ℕ := (s.connections.map fun c => (s.conn c).status.distance).sum

/-- The first connection that is not ready has not failed, or has for longer than
`connect_timeout`. -/
def Due (now : ℤ) : Prop :=
  ∃ pre c post, s.connections = pre ++ c :: post ∧ (∀ x ∈ pre, (s.conn x).status = .ready) ∧
    (s.conn c).status ≠ .ready ∧
    ((s.conn c).status = .error → s.older now s.client.connectTimeout c = true)

end Client

namespace Reconnect

/-- The code around the client, while a member function runs. -/
abbrev around : Interface Client Call Bool Entry Act := reachableDatabase.restrict fromInside

variable {s s₁ s' : Client} {cs : List Call} {c x : ConnPtr} {now : ℤ}

/-! ### What is done for a ready connection -/

/-- The connections that are ready stay so, and the others are left alone. -/
structure Steady (s s' : Client) : Prop where
  client : s'.client = s.client
  connections : s'.connections = s.connections
  badConnections : s'.badConnections = s.badConnections
  nextPtr : s'.nextPtr = s.nextPtr
  expiries : s'.expiries = s.expiries
  ready : ∀ x, (s.conn x).status = .ready → (s'.conn x).status = .ready
  other : ∀ x, (s.conn x).status ≠ .ready → s'.conn x = s.conn x

namespace Steady

theorem refl (s : Client) : Steady s s := ⟨rfl, rfl, rfl, rfl, rfl, fun _ => id, fun _ _ => rfl⟩

/-- A ready connection changes and stays ready. -/
theorem setConn (h : Steady s₁ s) (hc : (s₁.conn c).status = .ready) {d : DbConnection}
    (hd : d.status = .ready) : Steady s₁ (s.setConn c d) where
  client := h.client
  connections := h.connections
  badConnections := h.badConnections
  nextPtr := h.nextPtr
  expiries := h.expiries
  ready := fun x hx => by
    by_cases hxc : x = c
    · subst hxc
      rw [Client.setConn_conn_self]
      exact hd
    · rw [s.setConn_conn_of_ne hxc]
      exact h.ready x hx
  other := fun x hx => by
    have hxc : x ≠ c := by rintro rfl; exact hx hc
    rw [s.setConn_conn_of_ne hxc]
    exact h.other x hx

/-- A connection is ready only if it has been. -/
theorem ready_iff (h : Steady s₁ s) : (s.conn x).status = .ready ↔ (s₁.conn x).status = .ready := by
  refine ⟨fun hx => ?_, h.ready x⟩
  by_contra hne
  rw [h.other x hne] at hx
  exact hne hx

theorem same (h : Steady s₁ s) (h' : SameConnections s s') : Steady s₁ s' where
  client := h'.client.trans h.client
  connections := h'.connections.trans h.connections
  badConnections := h'.badConnections.trans h.badConnections
  nextPtr := h'.nextPtr.trans h.nextPtr
  expiries := h'.expiries.trans h.expiries
  ready := fun x hx => by rw [h'.conn]; exact h.ready x hx
  other := fun x hx => by rw [h'.conn]; exact h.other x hx

end Steady

/-- What is done for ready connections leaves all steady. -/
theorem steady_harmless (s₁ : Client) :
    Harmless notWorse (fun c => (s₁.conn c).status = .ready) (Steady s₁) where
  free := fun h hfree => h.ready_iff.mp (isFree_iff.mp hfree).1
  same := Steady.same
  touch := fun h hc hd => h.setConn hc (hd.trans (h.ready _ hc))
  act := by
    intro s c d h hc hnot
    have hle : d.status.distance ≤ (s.conn c).status.distance := hnot
    rw [h.ready c hc] at hle
    exact h.setConn hc (ConnectionStatus.distance_eq_zero.mp (Nat.le_zero.mp hle))

/-- With no hook running, all is done for ready connections. -/
theorem hooked_nil_ready (s : Client) : ∀ x, Hooked [] x → (s.conn x).status = .ready :=
  fun x hx => absurd hx (not_hooked_nil x)

/-- A hook that connects changes its connection alone, and not for the worse. -/
theorem approaches {k : Call} (hk : k.owner = some c) (hsilent : k.silent = true)
    (h : Between around [k] s s') :
    Alone c s s' ∧ (s'.conn c).status.distance ≤ (s.conn c).status.distance := by
  refine alone_of_between (I := fun d => d.status.distance ≤ (s.conn c).status.distance)
    (fun hle hnot _ => ?_) (Nat.le_refl _) hk hsilent h
  exact Nat.le_trans hnot hle

/-! ### The distance -/

/-- The connections have come `n` steps closer, but for what the expiries cost. -/
abbrev Advance : ℕ → Client → Client → Prop := Falls Client.distance fun s => 3 * s.expiries

/-- None of the connections gets worse. -/
theorem advance_of_le (hs : s.Owned) (hc : s'.connections = s.connections)
    (hb : s'.badConnections = s.badConnections) (hn : s'.nextPtr = s.nextPtr)
    (he : s'.expiries = s.expiries)
    (hle : ∀ x ∈ s.connections, (s'.conn x).status.distance ≤ (s.conn x).status.distance) :
    Advance 0 s s' := by
  refine ⟨owned_congr hs hc hb hn, by rw [hc], ?_⟩
  have hsum : s'.distance ≤ s.distance := by
    rw [Client.distance, hc]
    exact List.sum_le_sum hle
  omega

/-- None of the connections gets worse, and one gets closer. -/
theorem advance_of_lt (hs : s.Owned) (hc : s'.connections = s.connections)
    (hb : s'.badConnections = s.badConnections) (hn : s'.nextPtr = s.nextPtr)
    (he : s'.expiries = s.expiries)
    (hle : ∀ x ∈ s.connections, (s'.conn x).status.distance ≤ (s.conn x).status.distance)
    (hlt : ∃ x ∈ s.connections, (s'.conn x).status.distance < (s.conn x).status.distance) :
    Advance 1 s s' := by
  refine ⟨owned_congr hs hc hb hn, by rw [hc], ?_⟩
  have hsum : s'.distance < s.distance := by
    rw [Client.distance, hc]
    exact List.sum_lt_sum _ _ hle hlt
  omega

theorem Steady.advance (h : Steady s s') (hs : s.Owned) : Advance 0 s s' := by
  refine advance_of_le hs h.connections h.badConnections h.nextPtr h.expiries fun x _ => ?_
  by_cases hx : (s.conn x).status = .ready
  · rw [h.ready x hx, hx]
  · rw [h.other x hx]

/-- Of the connections one changes, and not for the worse. -/
theorem alone_all_le (h : Alone c s s')
    (hle : (s'.conn c).status.distance ≤ (s.conn c).status.distance) (x : ConnPtr) :
    (s'.conn x).status.distance ≤ (s.conn x).status.distance := by
  by_cases hx : x = c
  · subst hx
    exact hle
  · rw [h.other x hx]

theorem alone_advance (h : Alone c s s') (hs : s.Owned)
    (hle : (s'.conn c).status.distance ≤ (s.conn c).status.distance) : Advance 0 s s' :=
  advance_of_le hs h.connections h.badConnections h.nextPtr h.expiries
    fun x _ => alone_all_le h hle x

theorem alone_advance_one (h : Alone c s s') (hs : s.Owned) (hc : c ∈ s.connections)
    (hlt : (s'.conn c).status.distance < (s.conn c).status.distance) : Advance 1 s s' :=
  advance_of_lt hs h.connections h.badConnections h.nextPtr h.expiries
    (fun x _ => alone_all_le h (Nat.le_of_lt hlt) x) ⟨c, hc, hlt⟩

theorem setConnected_advance (hs : s.Owned) (b : Bool) : Advance 0 s (s.setConnected b) :=
  advance_of_le hs rfl rfl rfl rfl fun _ _ => Nat.le_refl _

/-- Of a sum over the connections, one summand changes. -/
theorem sum_map_of_alone {l : List ConnPtr} (hl : l.Nodup) (hc : c ∈ l) {f g : ConnPtr → ℕ}
    (h : ∀ x, x ≠ c → g x = f x) : (l.map g).sum + f c = (l.map f).sum + g c := by
  have hother : (l.erase c).map g = (l.erase c).map f :=
    List.map_congr_left fun x hx => h x (hl.mem_erase_iff.mp hx).1
  rw [← List.sum_map_erase f hc, ← List.sum_map_erase g hc, hother]
  omega

/-- A query that is expired costs its connection. -/
theorem expire_advance (hs : s.Owned) (hc : c ∈ s.connections) (q q' : QueryData) :
    Advance 0 s ((s.expire c q).take c q') := by
  refine ⟨⟨hs.nodup, hs.bound⟩, rfl, ?_⟩
  have hexp : ((s.expire c q).take c q').expiries = s.expiries + 1 := by
    simp [Client.expiries, Client.take, Client.expire, Client.setConn, Event.isExpire]
  have hsum := sum_map_of_alone (List.nodup_append.mp hs.nodup).1 hc
    (f := fun x => (s.conn x).status.distance)
    (g := fun x => (((s.expire c q).take c q').conn x).status.distance) fun x hx => by
      rw [show ((s.expire c q).take c q').conn x = s.conn x from
        ((s.expire c q).setConn_conn_of_ne hx _).trans (s.setConn_conn_of_ne hx _)]
  have hself := ConnectionStatus.distance_le (((s.expire c q).take c q').conn c).status
  have hd : ((s.expire c q).take c q').distance =
      (s.connections.map fun x => (((s.expire c q).take c q').conn x).status.distance).sum := rfl
  rw [hexp, hd, Client.distance]
  omega

/-! ### One connection -/

/-- Of the connections that `OnTimer` has still to come to, those that are ready stay so,
and the others are left alone. -/
structure Passes (c : ConnPtr) (s s' : Client) : Prop where
  client : s'.client = s.client
  connections : s'.connections = s.connections
  ready : ∀ x, x ≠ c → (s.conn x).status = .ready → (s'.conn x).status = .ready
  other : ∀ x, x ≠ c → (s.conn x).status ≠ .ready → s'.conn x = s.conn x

theorem Steady.passes (h : Steady s s') (c : ConnPtr) : Passes c s s' :=
  ⟨h.client, h.connections, fun x _ => h.ready x, fun x _ => h.other x⟩

/-- `Result` is called for a query that the timer has expired. -/
theorem result_expired_keeps {q q' : QueryData} (hq : ((s.expire c q).conn c).query = some q') :
    Harmless.Keeps notWorse advances
      (fun x => (((s.expire c q).take c q').conn x).status = .ready)
      (Steady ((s.expire c q).take c q')) [] (result c) (s.expire c q) := by
  have hP := hooked_nil_ready ((s.expire c q).take c q')
  have hown : ∀ x, (Call.onResult c q').owner = some x →
      (((s.expire c q).take c q').conn x).status = .ready := by rintro x ⟨⟩
  unfold result deliver
  simp only [Harmless.Keeps, Prog.safe_bind, Prog.safe_read, hq, Prog.safe_modify, Prog.safe_pure]
  refine ⟨trivial, trivial, Harmless.ask hP (.refl _) _ hown fun _ s' h' => ?_⟩
  exact (steady_harmless _).refill hP h'

/-- The `CONNECTION_READY` case. -/
theorem ready_runs {u : Unit} (h : Runs around [] (onTimer.ready now c) s u s')
    (hs : s.Owned) (hc : c ∈ s.connections) (hst : (s.conn c).status = .ready) :
    Passes c s s' ∧ Advance 0 s s' := by
  have hJ := steady_harmless s
  unfold onTimer.ready at h
  rw [runs_read_bind] at h
  cases hq : (s.conn c).query with
  | some q =>
    rw [hq] at h
    rcases runs_when.mp h with ⟨-, h⟩ | ⟨-, rfl⟩
    · -- the query is given up, and nothing more is done for the connection
      rw [runs_modify_bind] at h
      have hq' : ((s.expire c q).conn c).query =
          some (Client.expiredQuery q "Query timeout expired") := by
        simp [Client.expire, Client.setConn]
      have hsteady := (steady_harmless _).of_runs (result_expired_keeps hq') h
      have hadvance := expire_advance hs hc q (Client.expiredQuery q "Query timeout expired")
      have hother : ∀ x, x ≠ c →
          ((s.expire c q).take c (Client.expiredQuery q "Query timeout expired")).conn x =
            s.conn x := fun x hx =>
        ((s.expire c q).setConn_conn_of_ne hx _).trans (s.setConn_conn_of_ne hx _)
      refine ⟨⟨hsteady.client, hsteady.connections, fun x hx hr => ?_, fun x hx hr => ?_⟩,
        hadvance.trans (hsteady.advance hadvance.owned)⟩
      · exact hsteady.ready x (by rw [hother x hx]; exact hr)
      · rw [hsteady.other x (by rw [hother x hx]; exact hr), hother x hx]
    · exact ⟨(Steady.refl s').passes c, (Steady.refl s').advance hs⟩
  | none =>
    -- the next query is taken, or the connection is pinged
    rw [hq, runs_bind] at h
    obtain ⟨started, s₁, hnext, h⟩ := h
    have h₁ := hJ.of_runs (hJ.nextQuery (hooked_nil_ready s) (.refl s) hst) hnext
    have hsteady : Steady s s' := by
      rw [runs_read_bind] at h
      rcases runs_when.mp h with ⟨-, h⟩ | ⟨-, rfl⟩
      · rw [runs_ask_bind] at h
        obtain ⟨r, s₂, hping, -, h⟩ := h
        obtain rfl := runs_modify.mp h
        have hown : ∀ x, (Call.doPing c).owner = some x → (s.conn x).status = .ready := by
          rintro x ⟨⟩
          exact hst
        exact hJ.setTimestamp (hJ.of_between h₁ hown hping) hst now
      · exact h₁
    exact ⟨hsteady.passes c, hsteady.advance hs⟩

/-- The `CONNECTION_WAIT` case: the connection is on its way. -/
theorem wait_runs (hs : s.Owned) (hc : c ∈ s.connections) (hst : (s.conn c).status = .wait)
    {r : Bool} (h : Between around [.doConnect c] (s.setTimestamp c now) s')
    (hr : around.mayReply [.doConnect c] r s') : Advance 1 s s' := by
  have halone := (Alone.setConn c s { s.conn c with timestamp := now }).trans
    (approaches rfl rfl h).1
  have hle : (s'.conn c).status.distance ≤ 1 := hr.2
  have hwait : (s.conn c).status.distance = 2 := by rw [hst]; rfl
  exact alone_advance_one halone hs hc (by omega)

/-- The `CONNECTION_CONNECT` case, with what it has in common with `DataProcessing`: the
connection is ready. -/
theorem checkConnect_runs (hs : s.Owned) (hc : c ∈ s.connections)
    (hst : (s.conn c).status = .connect) {r : Bool}
    (h : Between around [.checkConnect c] s s') (hr : around.mayReply [.checkConnect c] r s') :
    r = true ∧ Advance 1 s s' := by
  have halone := (approaches rfl rfl h).1
  have hready : (s'.conn c).status = .ready := hr.2.2
  have hlt : (s'.conn c).status.distance < (s.conn c).status.distance := by
    rw [hready, hst]
    decide
  exact ⟨hr.2.1, alone_advance_one halone hs hc hlt⟩

/-- Of a sum over the connections, the summand of the one that is replaced changes. -/
theorem sum_map_retire {i : ℕ} (hs : s.Owned) (hi : s.connections[i]? = some c)
    {f : DbConnection → ℕ} (hf : ∀ d t, f { d with timestamp := t } = f d) (now : ℤ) :
    ((s.retire i c now).connections.map fun x => f ((s.retire i c now).conn x)).sum +
      f (s.conn c) = (s.connections.map fun x => f (s.conn x)).sum + f .fresh := by
  obtain ⟨hlt, hget⟩ := List.getElem?_eq_some_iff.mp hi
  have hstamp : ∀ x, f ((s.setTimestamp c now).conn x) = f (s.conn x) := fun x => by
    by_cases hx : x = c
    · subst hx
      rw [Client.setTimestamp, Client.setConn_conn_self, hf]
    · rw [Client.setTimestamp, s.setConn_conn_of_ne hx]
  -- the others are as they were
  have hother : s.connections.map (fun x => f ((s.retire i c now).conn x)) =
      s.connections.map fun x => f (s.conn x) := List.map_congr_left fun x hx => by
    rw [s.retire_conn_of_ne (Nat.ne_of_lt (hs.bound x (List.mem_append_left _ hx))), hstamp]
  have hnew : ((s.retire i c now).connections.map fun x => f ((s.retire i c now).conn x)) =
      (s.connections.map fun x => f (s.conn x)).set i (f .fresh) := by
    rw [← hother]
    show (s.connections.set i s.nextPtr).map _ = _
    rw [List.map_set, Client.retire_conn_nextPtr]
  have hlt' : i < (s.connections.map fun x => f (s.conn x)).length := by simpa using hlt
  have hself : (s.connections.map fun x => f (s.conn x)) =
      (s.connections.map fun x => f (s.conn x)).set i (f (s.conn c)) := by
    have hat : (s.connections.map fun x => f (s.conn x))[i] = f (s.conn c) := by
      rw [List.getElem_map, hget]
    rw [← hat, List.set_getElem_self]
  rw [hnew, hself, List.set_set, List.sum_set, List.sum_set, if_pos hlt', if_pos hlt']
  omega

/-- A connection that has failed is replaced by one that waits. -/
theorem retire_runs (hs : s.Owned) {i : ℕ} (hi : s.connections[i]? = some c)
    (hst : (s.conn c).status = .error)
    (h : Between around [.newConnection s.nextPtr] (s.retire i c now) s') : Advance 1 s s' := by
  obtain ⟨halone, hle⟩ := approaches rfl rfl h
  have howned := owned_retire hs hi now
  refine Falls.trans ⟨howned, List.length_set, ?_⟩ (alone_advance halone howned hle)
  have hsum := sum_map_retire (f := fun d => d.status.distance) hs hi (fun _ _ => rfl) now
  have hexp : (s.retire i c now).expiries = s.expiries := rfl
  have hold : (s.conn c).status.distance = 3 := by rw [hst]; rfl
  have hfresh : DbConnection.fresh.status.distance = 2 := rfl
  rw [Client.distance, Client.distance]
  omega

/-- **At a connection that is not ready, `OnTimer` gets one step further**, if that has
not failed just now. -/
theorem visit_advances {i : ℕ} {go : Bool} (h : Runs around [] (onTimer.visit now i) s go s')
    (hs : s.Owned) (hi : s.connections[i]? = some c) (hst : (s.conn c).status ≠ .ready)
    (hold : (s.conn c).status = .error → s.older now s.client.connectTimeout c = true) :
    Advance 1 s s' := by
  have hc : c ∈ s.connections := List.mem_of_getElem? hi
  unfold onTimer.visit at h
  rw [runs_read_bind] at h
  simp only [hi] at h
  cases hst' : (s.conn c).status with
  | ready => exact absurd hst' hst
  | wait =>
    rw [hst'] at h
    simp only [runs_modify_bind, runs_ask_bind, runs_read_bind, runs_pure] at h
    obtain ⟨r, s₁, hbetween, hr, -, rfl⟩ := h
    exact wait_runs hs hc hst' hbetween hr
  | connect =>
    rw [hst'] at h
    rw [runs_bind] at h
    obtain ⟨u, s₁, h, hret⟩ := h
    obtain ⟨-, rfl⟩ := runs_pure.mp hret
    unfold onTimer.connect at h
    rw [runs_ask_bind] at h
    obtain ⟨r, s₂, hbetween, hr, h⟩ := h
    obtain ⟨rfl, hadvance⟩ := checkConnect_runs hs hc hst' hbetween hr
    obtain rfl := runs_modify.mp h
    exact hadvance.trans (setConnected_advance hadvance.owned true)
  | error =>
    have hold' : (s.setConnected false).older now s.client.connectTimeout c = true := hold hst'
    rw [hst'] at h
    rw [runs_modify_bind, runs_bind] at h
    obtain ⟨u, s₁, h, hret⟩ := h
    obtain ⟨-, rfl⟩ := runs_pure.mp hret
    have hconnected := setConnected_advance hs false
    rcases runs_when.mp h with ⟨-, h⟩ | ⟨hnot, -⟩
    · rw [runs_modify_bind, runs_ask_bind] at h
      obtain ⟨r, s₂, hbetween, -, h⟩ := h
      obtain ⟨-, rfl⟩ := runs_pure.mp h
      exact hconnected.trans (retire_runs hconnected.owned hi hst' hbetween)
    · exact absurd (hnot.symm.trans hold') (by decide)

/-- At a connection that has failed just now, it does not. -/
theorem visit_cooling {i : ℕ} {go : Bool} (h : Runs around [] (onTimer.visit now i) s go s')
    (hs : s.Owned) (hi : s.connections[i]? = some c) (hst : (s.conn c).status = .error)
    (hold : s.older now s.client.connectTimeout c = false) : Advance 0 s s' := by
  unfold onTimer.visit at h
  rw [runs_read_bind] at h
  simp only [hi, hst] at h
  rw [runs_modify_bind, runs_bind] at h
  obtain ⟨u, s₁, h, hret⟩ := h
  obtain ⟨-, rfl⟩ := runs_pure.mp hret
  have hold' : (s.setConnected false).older now s.client.connectTimeout c = false := hold
  rcases runs_when.mp h with ⟨hyes, -⟩ | ⟨-, rfl⟩
  · exact absurd (hold'.symm.trans hyes) (by decide)
  · exact setConnected_advance hs false

/-- It passes by a connection that is ready. -/
theorem visit_ready {i : ℕ} {go : Bool} (h : Runs around [] (onTimer.visit now i) s go s')
    (hs : s.Owned) (hi : s.connections[i]? = some c) (hst : (s.conn c).status = .ready) :
    go = true ∧ Passes c s s' ∧ Advance 0 s s' := by
  unfold onTimer.visit at h
  rw [runs_read_bind] at h
  simp only [hi, hst, runs_bind, runs_pure] at h
  obtain ⟨u, s₁, hrun, rfl, rfl⟩ := h
  exact ⟨rfl, ready_runs hrun hs (List.mem_of_getElem? hi) hst⟩

theorem visit_advance {i : ℕ} {go : Bool} (h : Runs around [] (onTimer.visit now i) s go s')
    (hs : s.Owned) : Advance 0 s s' := by
  cases hi : s.connections[i]? with
  | none =>
    unfold onTimer.visit at h
    rw [runs_read_bind] at h
    simp only [hi, runs_pure] at h
    obtain ⟨-, rfl⟩ := h
    exact (Steady.refl s').advance hs
  | some c =>
    by_cases hst : (s.conn c).status = .ready
    · exact (visit_ready h hs hi hst).2.2
    · by_cases hcool : (s.conn c).status = .error ∧ s.older now s.client.connectTimeout c = false
      · exact visit_cooling h hs hi hcool.1 hcool.2
      · refine (visit_advances h hs hi hst fun herr => ?_).weaken
        simpa using fun hold => hcool ⟨herr, hold⟩

/-! ### A call -/

theorem loop_advance : ∀ {n i : ℕ} {s : Client} {go : Bool},
    Runs around [] (onTimer.loop now n i) s go s' → s.Owned → Advance 0 s s' := by
  intro n
  induction n with
  | zero =>
    intro i s go h hs
    obtain ⟨-, rfl⟩ := runs_pure.mp h
    exact (Steady.refl s').advance hs
  | succ n ih =>
    intro i s go h hs
    simp only [onTimer.loop, runs_bind] at h
    obtain ⟨go', s₁, hvisit, h⟩ := h
    have h₁ := visit_advance hvisit hs
    cases go' with
    | true => exact h₁.trans (ih h h₁.owned)
    | false =>
      obtain ⟨-, rfl⟩ := runs_pure.mp h
      exact h₁

/-- The loop gets to the first connection that is not ready. -/
theorem loop_advances : ∀ {mid pre post : List ConnPtr} {s : Client} {go : Bool},
    s.connections = pre ++ (mid ++ c :: post) → (∀ x ∈ mid, (s.conn x).status = .ready) →
    (s.conn c).status ≠ .ready →
    ((s.conn c).status = .error → s.older now s.client.connectTimeout c = true) → s.Owned →
    Runs around [] (onTimer.loop now (mid.length + (post.length + 1)) pre.length) s go s' →
    Advance 1 s s' := by
  intro mid
  -- by induction on the ready connections in front of it
  induction mid with
  | nil =>
    intro pre post s go hL _ hst hold hs h
    have hi : s.connections[pre.length]? = some c := by simp [hL]
    simp only [List.length_nil, onTimer.loop, runs_bind] at h
    obtain ⟨go', s₁, hvisit, h⟩ := h
    have h₁ := visit_advances hvisit hs hi hst hold
    cases go' with
    | true => exact h₁.trans (loop_advance h h₁.owned)
    | false =>
      obtain ⟨-, rfl⟩ := runs_pure.mp h
      exact h₁
  | cons y mid ih =>
    intro pre post s go hL hready hst hold hs h
    have hi : s.connections[pre.length]? = some y := by simp [hL]
    have hnodup : s.connections.Nodup := (List.nodup_append.mp hs.nodup).1
    rw [hL, List.cons_append, List.nodup_middle, List.nodup_cons] at hnodup
    have hlen : (y :: mid).length + (post.length + 1) = mid.length + (post.length + 1) + 1 := by
      rw [List.length_cons]
      omega
    rw [hlen] at h
    simp only [onTimer.loop, runs_bind] at h
    obtain ⟨go', s₁, hvisit, h⟩ := h
    obtain ⟨rfl, hpass, h₁⟩ := visit_ready hvisit hs hi (hready y List.mem_cons_self)
    -- the one that is not ready is left alone
    have hcy : c ≠ y := by rintro rfl; exact hnodup.1 (by simp)
    have hconn : s₁.conn c = s.conn c := hpass.other c hcy hst
    have hmid : ∀ x ∈ mid, (s₁.conn x).status = .ready := by
      intro x hx
      have hxy : x ≠ y := by rintro rfl; exact hnodup.1 (by simp [hx])
      exact hpass.ready x hxy (hready x (List.mem_cons_of_mem _ hx))
    have hL₁ : s₁.connections = (pre ++ [y]) ++ (mid ++ c :: post) := by
      rw [hpass.connections, hL]
      simp
    have hlen₁ : (pre ++ [y]).length = pre.length + 1 := by simp
    rw [← hlen₁] at h
    refine h₁.trans (ih hL₁ hmid (by rw [hconn]; exact hst) ?_ h₁.owned h)
    rw [hconn, hpass.client]
    intro herr
    have hold' := hold herr
    simp only [Client.older, hconn] at hold' ⊢
    exact hold'

theorem sweep_advance (hs : s.Owned) (now : ℤ) : Advance 0 s (s.sweep now) := by
  refine ⟨owned_sweep hs now, rfl, ?_⟩
  have hd : (s.sweep now).distance = s.distance := rfl
  have he : (s.sweep now).expiries = s.expiries := rfl
  omega

/-- What `OnTimer` runs: the loop, and the sweep at most. -/
theorem onTimer_runs {n : ℕ}
    (hloop : ∀ {go s₁}, Runs around [] (onTimer.loop now s.connections.length 0) s go s₁ →
      Advance n s s₁) (h : Runs around [] (onTimer now) s () s') : Advance n s s' := by
  unfold onTimer at h
  rw [runs_read_bind, runs_bind] at h
  obtain ⟨finished, s₁, hrun, h⟩ := h
  have h₁ := hloop hrun
  rcases runs_when.mp h with ⟨-, h⟩ | ⟨-, rfl⟩
  · obtain rfl := runs_modify.mp h
    exact h₁.trans (sweep_advance h₁.owned now)
  · exact h₁

/-- **A call of `OnTimer` that is due gets the connections one step closer.** -/
theorem onTimer_advances (hs : s.Owned) (hdue : s.Due now)
    (h : Runs around [] (onTimer now) s () s') : Advance 1 s s' := by
  obtain ⟨pre, c, post, hL, hready, hst, hold⟩ := hdue
  refine onTimer_runs (fun hrun => ?_) h
  have hlen : s.connections.length = pre.length + (post.length + 1) := by rw [hL]; simp
  rw [hlen] at hrun
  have hnone : s.connections = [] ++ (pre ++ c :: post) := hL
  exact loop_advances hnone hready hst hold hs hrun

/-- `DataProcessing` does not take the connections further away. -/
theorem dataProcessing_advance {fd : ℤ} {b : Bool} (hs : s.Owned)
    (h : Runs around [] (dataProcessing fd) s b s') : Advance 0 s s' := by
  unfold dataProcessing at h
  rw [runs_read_bind] at h
  cases hf : s.connections.find? fun c => (s.conn c).fd == fd with
  | none =>
    simp only [hf, runs_pure] at h
    obtain ⟨-, rfl⟩ := h
    exact (Steady.refl s').advance hs
  | some c =>
    have hc : c ∈ s.connections := List.mem_of_find?_eq_some hf
    simp only [hf] at h
    rw [runs_bind] at h
    obtain ⟨u, s₁, h, hret⟩ := h
    obtain ⟨-, rfl⟩ := runs_pure.mp hret
    unfold dispatch at h
    rw [runs_read_bind] at h
    cases hst : (s.conn c).status with
    | ready =>
      rw [hst] at h
      rcases runs_when.mp h with ⟨-, h⟩ | ⟨-, rfl⟩
      · rw [runs_modify_bind, runs_ask_bind] at h
        obtain ⟨r, s₂, hbetween, -, h⟩ := h
        obtain ⟨-, rfl⟩ := runs_pure.mp h
        have hcheck : Steady s (s.check c) := by
          refine (Steady.refl s).same ⟨rfl, rfl, rfl, rfl, rfl, rfl, ?_⟩
          simp [Client.expiries, Client.check, Event.isExpire]
        have hown : ∀ x, (Call.checkResult c).owner = some x → (s.conn x).status = .ready := by
          rintro x ⟨⟩
          exact hst
        exact ((steady_harmless s).of_between hcheck hown hbetween).advance hs
      · exact (Steady.refl s').advance hs
    | connect =>
      rw [hst] at h
      rw [runs_ask_bind] at h
      obtain ⟨r, s₂, hbetween, hr, h⟩ := h
      obtain ⟨rfl, hadvance⟩ := checkConnect_runs hs hc hst hbetween hr
      rcases runs_when.mp h with ⟨-, h⟩ | ⟨hno, -⟩
      · obtain rfl := runs_modify.mp h
        exact (hadvance.trans (setConnected_advance hadvance.owned true)).weaken
      · exact absurd hno (by decide)
    | wait =>
      rw [hst] at h
      obtain ⟨-, rfl⟩ := runs_pure.mp h
      exact (Steady.refl s').advance hs
    | error =>
      rw [hst] at h
      obtain ⟨-, rfl⟩ := runs_pure.mp h
      exact (Steady.refl s').advance hs

/-- No call takes the connections further away, but for what the expiries cost. -/
theorem entry_advance {e : Entry} (hs : s.Owned) (hmay : mayEnter [] s e)
    (h : Runs around [] e.program s () s') : Advance 0 s s' := by
  cases e with
  | query pq =>
    have hJ := steady_harmless s
    exact (hJ.of_runs (hJ.query_program (hooked_nil_ready s) (.refl s) pq) h).advance hs
  | onTimer now => exact onTimer_runs (fun hrun => loop_advance hrun hs) h
  | dataProcessing fd =>
    have h' : Runs around [] (do let _ ← dataProcessing fd) s () s' := h
    rw [runs_bind] at h'
    obtain ⟨b, s₁, hrun, hret⟩ := h'
    obtain ⟨-, rfl⟩ := runs_pure.mp hret
    exact dataProcessing_advance hs hrun
  | result c => simp [mayEnter] at hmay

/-! ### Runs -/

/-- After a call, only the clock moves. -/
theorem advance_of_returns {n : ℕ} {e : Entry} (h : Returns reachableDatabase e s s')
    (hrun : ∀ {s₁}, Runs around [] e.program s () s₁ → Advance n s s₁) : Advance n s s' := by
  obtain ⟨s₁, hruns, hbetween⟩ := runs_of_steps h
  have h₁ := hrun hruns
  have hsteady := (steady_harmless s₁).of_idle (.refl s₁) hbetween
  exact h₁.trans (hsteady.advance h₁.owned)

/-- A run with `n` calls that are due gets `n` steps closer, but for what the expiries
cost. -/
theorem advance_of_run {n : ℕ} (hs : s.Owned)
    (h : CountedRun reachableDatabase Client.Due n s s') : Advance n s s' := by
  induction h with
  | refl s => exact (Steady.refl s).advance hs
  | clock t _ ih =>
    have h₁ := ih hs
    exact ⟨⟨h₁.owned.nodup, h₁.owned.bound⟩, h₁.length, h₁.le⟩
  | call e _ hmay _ hret ih =>
    have h₁ := ih hs
    exact h₁.trans (advance_of_returns hret fun hrun => entry_advance h₁.owned hmay hrun)
  | timer now _ hdue hret ih =>
    have h₁ := ih hs
    exact h₁.trans (advance_of_returns hret fun hrun => onTimer_advances h₁.owned hdue hrun)

/-- All connections are ready when nothing is left of the distance. -/
theorem ready_of_distance (h : s.distance = 0) : ∀ c ∈ s.connections, (s.conn c).status = .ready :=
  fun _ hc => ConnectionStatus.distance_eq_zero.mp
    (List.sum_eq_zero_iff.mp h _ (List.mem_map_of_mem hc))

/-- At the first connection that is not ready, `OnTimer` has something to do in due time. -/
theorem exists_due (h : ¬∀ c ∈ s.connections, (s.conn c).status = .ready) :
    ∃ now, s.Due now := by
  obtain ⟨x, hx⟩ := Classical.not_forall.mp h
  rw [Classical.not_imp] at hx
  have hsome : (s.connections.find? fun c => decide ((s.conn c).status ≠ .ready)).isSome :=
    List.find?_isSome.mpr ⟨x, hx.1, by simpa using hx.2⟩
  obtain ⟨c, hc⟩ := Option.isSome_iff_exists.mp hsome
  obtain ⟨hst, pre, post, hL, hpre⟩ := List.find?_eq_some_iff_append.mp hc
  refine ⟨(s.conn c).timestamp + s.client.connectTimeout + 1, pre, c, post, hL, fun y hy => ?_, ?_,
    fun _ => ?_⟩
  · simpa using hpre y hy
  · simpa using hst
  · rw [Client.older, decide_eq_true_eq]
    omega

/-- **In a run there are at most as many calls that are due as the connections are away from
being ready, and three for each query that has expired.  After that many, or when none will be
due any more, all connections are ready.** -/
theorem recovers_of_run {n : ℕ} (hs : s.Owned)
    (h : CountedRun reachableDatabase Client.Due n s s') :
    n ≤ s.distance + 3 * (s'.expiries - s.expiries) ∧
      ((n = s.distance + 3 * (s'.expiries - s.expiries) ∨ ∀ now, ¬s'.Due now) →
        ∀ c ∈ s'.connections, (s'.conn c).status = .ready) := by
  have hadvance := (advance_of_run hs h).le
  refine ⟨by omega, ?_⟩
  rintro (hn | hnever)
  · exact ready_of_distance (by omega)
  · by_contra hready
    obtain ⟨now, hdue⟩ := exists_due hready
    exact hnever now hdue

/-- The new connection is connecting, -/
def onItsWay : Client :=
  (replaced.setTimestamp 1 7).setConn 1 { replaced.conn 1 with timestamp := 7, status := .connect }

/-- and is ready. -/
def back : Client :=
  (onItsWay.setConn 1 { onItsWay.conn 1 with status := .ready }).setConnected true

theorem returns_replaced : Returns reachableDatabase (.onTimer 6) cutOff replaced :=
  @returns_of_play reachableDatabase (.onTimer 6) cutOff replaced 20 [.reply false]
    (by decide) rfl

theorem returns_onItsWay : Returns reachableDatabase (.onTimer 7) replaced onItsWay :=
  @returns_of_play reachableDatabase (.onTimer 7) replaced onItsWay 20
    [.act (.hook 1 { replaced.conn 1 with timestamp := 7, status := .connect }), .reply false]
    (by decide) rfl

theorem returns_back : Returns reachableDatabase (.onTimer 8) onItsWay back :=
  @returns_of_play reachableDatabase (.onTimer 8) onItsWay back 20
    [.act (.hook 1 { onItsWay.conn 1 with status := .ready }), .reply true]
    (by decide) rfl

/-- Three calls bring it back. -/
theorem run_back : CountedRun reachableDatabase Client.Due 3 cutOff back :=
  .timer 8 (.timer 7 (.timer 6 (.refl cutOff)
      ⟨[], 0, [], rfl, by simp, by decide, fun _ => by decide⟩ returns_replaced)
      ⟨[], 1, [], rfl, by simp, by decide, fun h => by cases h⟩ returns_onItsWay)
    ⟨[], 1, [], rfl, by simp, by decide, fun h => by cases h⟩ returns_back

/-- There is one connection, and no query has expired. -/
theorem recovers_back : back.connections = [1] ∧ (back.conn 1).status = .ready :=
  ⟨rfl, (recovers_of_run ⟨by decide, by decide⟩ run_back).2 (.inl (by decide)) 1 (by decide)⟩

end Reconnect

end Db
end PeeledOrange
