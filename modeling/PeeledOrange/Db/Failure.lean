import PeeledOrange.Db.Rules

/-!
# What becomes of the query of a failed connection

`OnTimer` hands the query of a connection back when it times out, and when the
connection cannot be made, but not when it finds the connection in the error
state: there it moves the object to `bad_connections` as it is, and the sweep
destroys it later with the query in it.  So whether a query gets lost is up to
the hooks: none is if a hook that leaves its connection failed has called
`Result` for the query first.

## Main definitions

* `handBack` — the hooks return a failed connection without a query.
* `Intact` — no query has been destroyed, and none is on its way to be.

## Main results

* `intact_of_reachable` — **with hooks that hand back, no query is destroyed
  undelivered.**
* `not_lost_nil_of_anyHooks` — with other hooks one can be.
-/

namespace PeeledOrange
namespace Db

open Callback

/-- The connection has failed and still holds a query. -/
def DbConnection.Stranded (d : DbConnection) : Prop := d.status = .error ∧ d.query ≠ none

/-- A hook may do anything to its connection, but not return leaving it stranded, and
`CheckConnect` does not return false leaving it ready. -/
def handBack : HookRules where
  act := fun _ _ => True
  done := fun d => ¬d.Stranded
  connects := fun ready d => ready = false → d.status ≠ .ready

theorem handBack_honest : handBack.Honest := fun _ h => h rfl

/-- A hook may do anything to its connection; `CheckConnect` returns whether it has
made it ready. -/
def anyHooks : HookRules where
  act := fun _ _ => True
  done := fun _ => True
  connects := fun ready d => ready = true ↔ d.status = .ready

instance : DecidableRel handBack.act := fun _ _ => .isTrue trivial

instance : DecidablePred handBack.done := fun d =>
  inferInstanceAs (Decidable ¬(d.status = .error ∧ d.query ≠ none))

instance (ready : Bool) : DecidablePred (handBack.connects ready) := fun d =>
  inferInstanceAs (Decidable (ready = false → d.status ≠ .ready))

instance : DecidableRel anyHooks.act := fun _ _ => .isTrue trivial

instance : DecidablePred anyHooks.done := fun _ => .isTrue trivial

instance (ready : Bool) : DecidablePred (anyHooks.connects ready) := fun d =>
  inferInstanceAs (Decidable (ready = true ↔ d.status = .ready))

/-- No query has been destroyed undelivered, and no connection that is about to be
destroyed holds one. -/
structure Intact (s : Client) : Prop where
  lost : s.lost = []
  idle : ∀ c ∈ s.badConnections, (s.conn c).query = none

/-- The invariant: a connection is stranded only while a hook of it is running. -/
structure Returning (cs : List Call) (s : Client) : Prop extends Intact s where
  stranded : ∀ c ∈ s.connections, (s.conn c).Stranded → Hooked cs c

namespace Returning

variable {R : HookRules} {cs : List Call} {s s' : Client} {c : ConnPtr}

theorem of_initial (h : s.Initial) : Returning [] s where
  lost := h.lost
  idle := by simp [h.badConnections]
  stranded := fun c hc hst => absurd (h.query c hc) hst.2

/-- The object of a listed connection changes, and is stranded only if a hook of
it is running. -/
theorem setConn {cs' : List Call} (h : Returning cs s) (hb : Base R cs s) (hc : c ∈ s.connections)
    {d : DbConnection} (hd : d.Stranded → Hooked cs' c) (hcs : ∀ x, Hooked cs x → Hooked cs' x)
    (hconn : s'.conn = (s.setConn c d).conn) (hconns : s'.connections = s.connections)
    (hbad : s'.badConnections = s.badConnections) (hlost : s'.lost = s.lost) :
    Returning cs' s' where
  lost := by rw [hlost]; exact h.lost
  idle := by
    rw [hbad, hconn]
    intro x hx
    rw [s.setConn_conn_of_ne (hb.ne_of_bad hc hx)]
    exact h.idle x hx
  stranded := by
    rw [hconns, hconn]
    intro x hx hst
    by_cases hxc : x = c
    · subst hxc
      rw [s.setConn_conn_self] at hst
      exact hd hst
    · rw [s.setConn_conn_of_ne hxc] at hst
      exact hcs x (h.stranded x hx hst)

/-- A free connection takes a query; it is ready, so not stranded. -/
theorem attach (h : Returning cs s) (hb : Base R cs s) (hc : c ∈ s.connections)
    (hfree : s.isFree c = true) (q : QueryData)
    (hconn : s'.conn = (s.setConn c { s.conn c with query := some q }).conn)
    (hconns : s'.connections = s.connections) (hbad : s'.badConnections = s.badConnections)
    (hlost : s'.lost = s.lost ++ (s.conn c).query.toList) :
    Returning (.doQuery c :: cs) s' := by
  obtain ⟨hready, hnone⟩ := isFree_iff.mp hfree
  refine h.setConn hb hc (fun _ => hooked_cons.mpr (.inl rfl))
    (fun x hx => hooked_cons.mpr (.inr hx)) hconn hconns hbad ?_
  rw [hlost, hnone]
  exact List.append_nil _

theorem retire (h : Returning [] s) (hb : Base R [] s) {i : ℕ} (hi : s.connections[i]? = some c)
    (hst : (s.conn c).status = .error) (now : ℤ) :
    Returning [.newConnection s.nextPtr] (s.retire i c now) := by
  have hc : c ∈ s.connections := List.mem_of_getElem? hi
  have hnone : (s.conn c).query = none := by
    by_contra hq
    exact not_hooked_nil c (h.stranded c hc ⟨hst, hq⟩)
  have hold : ∀ x ∈ s.connections ++ s.badConnections, x ≠ s.nextPtr := fun _ hx =>
    hb.ne_nextPtr hx
  refine ⟨⟨h.lost, fun x hx => ?_⟩, fun x hx hstr => ?_⟩
  · -- what is retired held no query, as no hook was running
    have hx' : x ∈ s.badConnections ∨ x = c := by simpa [Client.retire] using hx
    rcases hx' with hx | rfl
    · rw [s.retire_query_of_ne (hold x (List.mem_append_right _ hx))]
      exact h.idle x hx
    · rw [s.retire_query_of_ne (hold x (List.mem_append_left _ hc))]
      exact hnone
  · rcases List.mem_or_eq_of_mem_set hx with hx | rfl
    · have hxn := hold x (List.mem_append_left _ hx)
      refine absurd (h.stranded x hx ?_) (not_hooked_nil x)
      exact ⟨(s.retire_status_of_ne hxn ..).symm.trans hstr.1,
        fun hn => hstr.2 ((s.retire_query_of_ne hxn ..).trans hn)⟩
    · -- the new one is in the hands of `NewConnection`
      exact hooked_cons.mpr (.inl rfl)

theorem sweep (h : Returning [] s) (now : ℤ) : Returning [] (s.sweep now) where
  lost := by
    have hgone : (s.badConnections.filter (s.older now s.client.connectTimeout)).filterMap
        (fun c => (s.conn c).query) = [] :=
      List.filterMap_eq_nil_iff.mpr fun c hc => h.idle c (List.mem_filter.mp hc).1
    show s.lost ++ _ = []
    rw [hgone, List.append_nil]
    exact h.lost
  idle := fun c hc => h.idle c (List.mem_filter.mp hc).1
  stranded := h.stranded

/-- **Every block keeps the invariant.** -/
theorem kept : Kept handBack Intact Returning where
  moment := fun h => h.toIntact
  pop := by
    intro k cs r s _ h hr
    refine ⟨h.toIntact, fun c hc hst => ?_⟩
    rcases hooked_cons.mp (h.stranded c hc hst) with hk | hh
    · exact (hr.2 c hk).resolve_right fun hdone => hdone hst
    · exact hh
  clock := fun _ h => ⟨⟨h.lost, h.idle⟩, h.stranded⟩
  act := fun hb h hk _ _ => h.setConn hb (hb.hook (hooked_cons.mpr (.inl hk)))
    (fun _ => hooked_cons.mpr (.inl hk)) (fun _ hx => hx) rfl rfl rfl rfl
  call := fun _ h _ _ =>
    ⟨h.toIntact, fun x hx hst => absurd (h.stranded x hx hst) (not_hooked_nil x)⟩
  check := fun _ h _ _ => ⟨⟨h.lost, h.idle⟩, h.stranded⟩
  touch := by
    intro cs s c t h
    refine ⟨⟨h.lost, fun x hx => ?_⟩, fun x hx hst => h.stranded x hx ?_⟩
    · rw [s.setTimestamp_query]
      exact h.idle x hx
    · exact ⟨(s.setTimestamp_status c t x).symm.trans hst.1,
        fun hn => hst.2 ((s.setTimestamp_query c t x).trans hn)⟩
  connected := fun _ h => ⟨⟨h.lost, h.idle⟩, h.stranded⟩
  returns := fun h _ => ⟨⟨h.lost, h.idle⟩, h.stranded⟩
  start := fun hb h hc hfree _ => h.attach hb hc hfree _ rfl rfl rfl rfl
  enqueue := fun _ h _ _ _ => ⟨⟨h.lost, h.idle⟩, h.stranded⟩
  reject := fun _ h _ => ⟨⟨h.lost, h.idle⟩, h.stranded⟩
  next := fun hb h hc hfree _ => h.attach hb hc hfree _ rfl rfl rfl rfl
  take := fun hb h hh _ => h.setConn hb (hb.hook hh) (fun hst => absurd rfl hst.2)
    (fun _ hx => hooked_cons.mpr (.inr hx)) rfl rfl rfl rfl
  expire := by
    intro s c q hb h hc hst hq
    refine ⟨⟨h.lost, fun x hx => ?_⟩, fun q' _ => ?_⟩
    · exact (congrArg DbConnection.query
        (s.setConn_conn_of_ne (hb.ne_of_bad hc hx) _)).trans (h.idle x hx)
    · refine h.setConn hb hc (d := { (s.expire c q).conn c with query := none })
        (fun hst => absurd rfl hst.2) (fun _ hx => absurd hx (not_hooked_nil _)) ?_ rfl rfl rfl
      simp [Client.take, Client.expire, Client.setConn]
  lapse := by
    intro s c q hb h hc hst hq
    refine ⟨⟨h.lost, fun x hx => ?_⟩, fun q' _ => ?_⟩
    · exact (congrArg DbConnection.query
        (s.setConn_conn_of_ne (hb.ne_of_bad hc hx) _)).trans (h.idle x hx)
    · refine h.setConn hb hc (d := { (s.lapse c q).conn c with query := none })
        (fun hst => absurd rfl hst.2) (fun _ hx => absurd hx (not_hooked_nil _)) ?_ rfl rfl rfl
      simp [Client.take, Client.lapse, Client.setConn]
  giveUp := by
    intro s c hb h hc hq
    exact h.setConn hb hc (d := { s.conn c with status := .error })
      (fun hst => absurd (hq handBack_honest) hst.2) (fun _ hx => hx) rfl rfl rfl rfl
  retire := fun now hb h hi hst => h.retire hb hi hst now
  sweep := fun now _ h => h.sweep now

end Returning

/-- **With hooks that hand back, no query is destroyed undelivered**, at any moment
of any run. -/
theorem intact_of_reachable {s₀ : Client} (h₀ : s₀.Initial) {cfg : Config Client Call Bool}
    (h : Reachable (interface handBack) s₀ cfg) : Intact cfg.state :=
  (Returning.kept.reachable h₀ (Returning.of_initial h₀) h).1

/-! ### A query handed back, and a lost one -/

/-- One ready connection. -/
def single : Client := .ofConnections ⟨10, 5, 5⟩ [⟨4, 0, .ready, none⟩]

/-- A query arrives and `DoQuery` marks its connection failed. -/
def failQuery : List (Move Bool Entry Act) :=
  [.enter (.query ⟨7, 3, .ok, "select"⟩),
    .act (.hook 0 ⟨4, 0, .error, some ⟨7, 3, .ok, "select"⟩⟩)]

/-- What the timer does about the failed connection: it is moved out of the way, its
successor connects, and it is erased. -/
def replaceFailed : List (Move Bool Entry Act) :=
  [.enter (.onTimer 10), .reply false,
    .enter (.onTimer 11), .act (.hook 1 ⟨6, 11, .connect, none⟩), .reply false,
    .enter (.onTimer 12), .act (.hook 1 ⟨6, 11, .ready, none⟩), .reply true,
    .enter (.onTimer 20)]

/-- `DoQuery` calls `Result` before it returns. -/
def giveBack : Config Client Call Bool :=
  play (interface handBack) 20
    (failQuery ++ [.enter (.result 0), .reply false, .reply false] ++ replaceFailed) (.idle single)

theorem intact_giveBack : giveBack.state.connections = [1] ∧
    giveBack.state.delivered.map QueryData.id = [7] ∧ Intact giveBack.state := by
  refine ⟨by decide +kernel, by decide +kernel, ?_⟩
  exact intact_of_reachable (Client.initial_ofConnections _ (by simp))
    ((Reachable.idle _).play (by decide +kernel))

/-- `DoQuery` returns at once. -/
def abandon : Config Client Call Bool :=
  play (interface anyHooks) 20 (failQuery ++ [.reply false] ++ replaceFailed) (.idle single)

/-- The query of a failed connection can be destroyed without having been passed to
`OnResult`. -/
theorem not_lost_nil_of_anyHooks : ¬∀ (s₀ : Client) (cfg : Config Client Call Bool), s₀.Initial →
    Reachable (interface anyHooks) s₀ cfg → cfg.state.lost = [] := by
  intro h
  have hreach : Reachable (interface anyHooks) single abandon :=
    (Reachable.idle _).play (by decide +kernel)
  have hlost := h single abandon (Client.initial_ofConnections _ (by simp)) hreach
  have hseven : abandon.state.lost.map QueryData.id = [7] ∧ abandon.state.delivered = [] := by
    decide +kernel
  rw [hlost] at hseven
  simp at hseven

end Db
end PeeledOrange
