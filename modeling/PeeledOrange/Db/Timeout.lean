import PeeledOrange.Db.Rules

/-!
# A connection whose query has expired is not used again

A query that takes longer than `query_timeout` is given up while the server may
still be working on it, so the reply can come later, on the same socket.  The
connection is put into the error state before the callback runs, and every use of
a connection is guarded by the ready state; what has to be shown is that nothing
takes a listed or a bad connection back out of the error state.

## Main definitions

* `stayFailed` — the hooks never take a connection out of the error state.
* `Quiet` — after its expiry a connection is neither given a query nor checked.

## Main results

* `quiet_of_reachable` — **with such hooks, every run is quiet.**
-/

namespace PeeledOrange
namespace Db

open Callback

/-- A hook leaves a connection that has failed in the error state. -/
def stayFailed : HookRules where
  act := fun old new => old.status = .error → new.status = .error
  done := fun _ => True
  connects := fun _ _ => True

instance : DecidableRel stayFailed.act := fun old new =>
  inferInstanceAs (Decidable (old.status = .error → new.status = .error))

instance : DecidablePred stayFailed.done := fun _ => .isTrue trivial

instance (ready : Bool) : DecidablePred (stayFailed.connects ready) := fun _ => .isTrue trivial

/-- `e` is neither an attachment of a query to `c` nor a `CheckResult` on it. -/
def Event.Spares (c : ConnPtr) (e : Event) : Prop := e ≠ .check c ∧ ∀ id, e ≠ .start c id

/-- After the expiry of its query a connection object is never given a query again,
and `CheckResult` is never called on it again. -/
def Quiet (s : Client) : Prop :=
  s.log.Pairwise fun e e' => ∀ c, e = .expire c → e'.Spares c

/-- The invariant: a connection object whose query has expired is an existing one
and is in the error state. -/
structure Failed (s : Client) : Prop where
  quiet : Quiet s
  error : ∀ c, Event.expire c ∈ s.log → (s.conn c).status = .error ∧ c < s.nextPtr

namespace Failed

variable {R : HookRules} {cs : List Call} {s s' : Client} {c : ConnPtr}

theorem of_initial (h : s.Initial) : Failed s where
  quiet := by rw [Quiet, h.log]; exact List.Pairwise.nil
  error := by simp [h.log]

/-- The log is the same and failed connections stay failed. -/
theorem congr (h : Failed s) (hlog : s'.log = s.log) (hn : s.nextPtr ≤ s'.nextPtr)
    (hst : ∀ c < s.nextPtr, (s.conn c).status = .error → (s'.conn c).status = .error) :
    Failed s' where
  quiet := by rw [Quiet, hlog]; exact h.quiet
  error := by
    rw [hlog]
    intro c hc
    obtain ⟨he, hlt⟩ := h.error c hc
    exact ⟨hst c hlt he, Nat.lt_of_lt_of_le hlt hn⟩

/-- The object at `c` changes, and if it has failed it stays so. -/
theorem setConn (h : Failed s) {d : DbConnection}
    (hd : (s.conn c).status = .error → d.status = .error)
    (hconn : s'.conn = (s.setConn c d).conn) (hlog : s'.log = s.log)
    (hn : s'.nextPtr = s.nextPtr) : Failed s' := by
  refine h.congr hlog (Nat.le_of_eq hn.symm) fun x _ hx => ?_
  rw [hconn]
  by_cases hxc : x = c
  · subst hxc
    rw [s.setConn_conn_self]
    exact hd hx
  · rw [s.setConn_conn_of_ne hxc]
    exact hx

/-- A connection that is ready has not expired. -/
theorem not_expired (h : Failed s) (hready : (s.conn c).status = .ready) :
    Event.expire c ∉ s.log := fun hc => by
  have he := (h.error c hc).1
  rw [hready] at he
  cases he

/-- What is recorded of a ready connection comes after no expiry of it. -/
theorem record (h : Failed s) (hready : (s.conn c).status = .ready) {e : Event}
    (he : ∀ x ≠ c, e.Spares x) : (s.log ++ [e]).Pairwise fun e e' => ∀ c, e = .expire c →
      e'.Spares c := by
  refine List.pairwise_append.mpr ⟨h.quiet, List.pairwise_singleton .., ?_⟩
  rintro _ hx e' he' x rfl
  obtain rfl := List.mem_singleton.mp he'
  exact he x fun hxc => h.not_expired hready (hxc ▸ hx)

/-- A free connection takes a query. -/
theorem attach (h : Failed s) (hfree : s.isFree c = true) (q : QueryData) :
    Failed (s.attach c q) where
  quiet := h.record (isFree_iff.mp hfree).1 fun x hx =>
    ⟨nofun, fun id he => by cases he; exact hx rfl⟩
  error := fun x hx => by
    have hx' : Event.expire x ∈ s.log := by simpa [Client.attach] using hx
    have hxc : x ≠ c := by
      rintro rfl
      exact h.not_expired (isFree_iff.mp hfree).1 hx'
    exact ⟨(congrArg DbConnection.status (s.setConn_conn_of_ne hxc _)).trans (h.error x hx').1,
      (h.error x hx').2⟩

/-- The query of a ready connection expires. -/
theorem expire (h : Failed s) (hb : Base R cs s) (hc : c ∈ s.connections)
    (hready : (s.conn c).status = .ready) (q : QueryData) : Failed (s.expire c q) where
  quiet := h.record hready fun _ _ => ⟨nofun, nofun⟩
  error := fun x hx => by
    by_cases hxc : x = c
    · subst hxc
      exact ⟨congrArg DbConnection.status (s.setConn_conn_self ..), hb.bound x (by simp [hc])⟩
    · have hx' : Event.expire x ∈ s.log := by simpa [Client.expire, hxc] using hx
      exact ⟨(congrArg DbConnection.status (s.setConn_conn_of_ne hxc _)).trans (h.error x hx').1,
        (h.error x hx').2⟩

/-- A query is taken out of a slot. -/
theorem take (h : Failed s) (q : QueryData) : Failed (s.take c q) :=
  h.setConn (c := c) (d := { s.conn c with query := none }) (fun he => he) rfl rfl rfl

/-- **Every block keeps the invariant.** -/
theorem kept : Kept stayFailed Quiet fun _ s => Failed s where
  moment := fun h => h.quiet
  pop := fun _ h _ => h
  clock := fun _ h => ⟨h.quiet, h.error⟩
  act := fun _ h _ hact _ => h.setConn hact rfl rfl rfl
  call := fun _ h _ _ => h
  check := by
    intro s c _ h _ hready
    refine ⟨h.record hready fun x hx => ⟨fun he => by cases he; exact hx rfl, nofun⟩,
      fun x hx => ?_⟩
    exact h.error x (by simpa [Client.check] using hx)
  touch := by
    intro cs s c t h
    exact h.setConn (c := c) (d := { s.conn c with timestamp := t }) (fun he => he) rfl rfl rfl
  connected := fun _ h => ⟨h.quiet, h.error⟩
  returns := fun h _ => ⟨h.quiet, h.error⟩
  start := fun _ h _ hfree _ => ⟨(h.attach hfree _).quiet, (h.attach hfree _).error⟩
  enqueue := fun _ h _ _ _ => ⟨h.quiet, h.error⟩
  reject := fun _ h _ => ⟨h.quiet, h.error⟩
  next := fun _ h _ hfree _ => ⟨(h.attach hfree _).quiet, (h.attach hfree _).error⟩
  take := fun _ h _ _ => h.take _
  expire := fun hb h hc hready _ =>
    ⟨(h.expire hb hc hready _).quiet, fun q' _ => (h.expire hb hc hready _).take q'⟩
  lapse := by
    intro s c q _ h _ _ _
    have hl : Failed (s.lapse c q) :=
      h.setConn (c := c)
        (d := { s.conn c with query := some (Client.expiredQuery q "Connect timeout expired") })
        (fun he => he) rfl rfl rfl
    exact ⟨hl.quiet, fun q' _ => hl.take q'⟩
  giveUp := by
    intro s c _ h _ _
    exact h.setConn (c := c) (d := { s.conn c with status := .error }) (fun _ => rfl) rfl rfl rfl
  retire := by
    intro s i c now _ h _ _
    refine h.congr rfl (Nat.le_succ _) fun x hx he => ?_
    rw [s.retire_status_of_ne (Nat.ne_of_lt hx)]
    exact he
  sweep := fun _ _ h => ⟨h.quiet, h.error⟩

end Failed

/-- **No cross-delivery after a timeout.**  In every run whose hooks leave failed
connections failed, a connection object whose query the timer has expired is never
given a query again, and `CheckResult` is never called on it again. -/
theorem quiet_of_reachable {s₀ : Client} (h₀ : s₀.Initial) {cfg : Config Client Call Bool}
    (h : Reachable (interface stayFailed) s₀ cfg) : Quiet cfg.state :=
  (Failed.kept.reachable h₀ (Failed.of_initial h₀) h).1

/-- Two queries, the second of which is submitted by `OnResult` when the first one
has expired; later the socket of the connection becomes readable. -/
def expireAndResubmit : Config Client Call Bool :=
  play (interface stayFailed) 20
    [.enter (.query ⟨7, 3, .ok, "select"⟩), .reply false, .enter (.onTimer 10),
      .enter (.query ⟨8, 3, .ok, "insert"⟩), .reply false, .enter (.dataProcessing 4)]
    (.idle (.ofConnections ⟨10, 5, 5⟩ [⟨4, 0, .ready, none⟩]))

theorem quiet_expireAndResubmit : expireAndResubmit.state.log = [.start 0 7, .expire 0] ∧
    expireAndResubmit.state.queries.map QueryData.id = [8] ∧ Quiet expireAndResubmit.state := by
  refine ⟨by decide +kernel, by decide +kernel, ?_⟩
  exact quiet_of_reachable (Client.initial_ofConnections _ (by simp))
    ((Reachable.idle _).play (by decide +kernel))

end Db
end PeeledOrange
