import PeeledOrange.Db.Service

/-!
# The connections that a timer call does not come to

That `OnTimer` may return at a connection does harm only if there is something to do
behind it, and then it does harm in some run: in the quiet one, say, in which the
hooks change nothing and `CheckConnect` returns false.  In it the client does not
become connected, no connection takes more than one query, and so `OnTimer` returns
at the first connection at which it can, with as many queries left as there can be.

## Main definitions

* `Service.quietly` — the quiet run of a member function.
* `Service.Untouched` — what that run leaves behind the place at which it returns.

## Main results

* `serviced_iff_unblocked` — **every call services the ready connections if and
  only if none of them is blocked.**
-/

namespace PeeledOrange
namespace Db

open Callback

namespace Service

variable {s₀ s s' : Client} {now : ℤ} {pre post : List ConnPtr} {c : ConnPtr} {n : ℕ}

/-! ### The quiet run -/

/-- The hooks do nothing, and `CheckConnect` returns false. -/
abbrev quietly {α : Type} (p : DbProg α) (s : Client) : α × Client := p.quiet (fun _ => false) s

theorem ticks_quietly (now : ℤ) (s : Client) : Ticks now s (quietly (onTimer now) s).2 := by
  refine Prog.quiet_steps (fun k cs s => ?_) (onTimer now) s []
  exact ⟨fun _ _ => trivial, fun _ _ => .inr trivial⟩

theorem quietly_nextQuery_cons {q : QueryData} {rest : List QueryData}
    (hq : s.queries = q :: rest) :
    quietly (nextQuery c) s = (true, (s.next c q).setTimestamp c s.clock) := by
  simp [quietly, nextQuery, hq]
  rfl

theorem quietly_nextQuery_nil (hq : s.queries = []) : quietly (nextQuery c) s = (false, s) := by
  simp [quietly, nextQuery, hq]

/-- `Result` for a connection that is not ready. -/
theorem quietly_result {q : QueryData} (hq : (s.conn c).query = some q)
    (hst : (s.conn c).status ≠ .ready) : quietly (result c) s = ((), s.take c q) := by
  have hfree : (s.take c q).isFree c = false := by simp [Client.isFree, Client.take, hst]
  simp [quietly, result, deliver, refill, hq, hfree]

variable (s₀) in
/-- `OnTimer` has not touched `post`, and has handed out `n` queries. -/
structure Untouched (post : List ConnPtr) (n : ℕ) (s : Client) : Prop where
  ahead : ∀ x ∈ post, s.conn x = s₀.conn x
  queries : s.queries.length = s₀.queries.length - n

variable (s₀) in
/-- `OnTimer` comes to `post`. -/
structure Onward (post : List ConnPtr) (n : ℕ) (s : Client) : Prop extends
    Untouched s₀ post n s where
  connections : s.connections = s₀.connections
  nextPtr : s.nextPtr = s₀.nextPtr
  connected : s.connected = s₀.connected

theorem Onward.touch {m : ℕ} (h : Onward s₀ (c :: post) n s) (hc : c ∉ post) (ht : Touches c s s')
    (hq : s'.queries.length = s₀.queries.length - m) (hco : s'.connected = s.connected) :
    Onward s₀ post m s' where
  ahead := fun x hx => by
    have hne : x ≠ c := by rintro rfl; exact hc hx
    exact (ht.conn x hne).trans (h.ahead x (List.mem_cons_of_mem _ hx))
  queries := hq
  connections := ht.connections.trans h.connections
  nextPtr := ht.nextPtr.trans h.nextPtr
  connected := hco.trans h.connected

section Onward

variable (h : Onward s₀ (c :: post) (pre.countP s₀.isFree) s) (hc : c ∉ post)

include h hc

/-- A connection that was not free is left with the queue as it is. -/
theorem Onward.keep (hfree : s₀.isFree c = false) (ht : Touches c s s')
    (hq : s'.queries = s.queries) (hco : s'.connected = s.connected) :
    Onward s₀ post ((pre ++ [c]).countP s₀.isFree) s' := by
  refine h.touch hc ht ?_ hco
  rw [hq, h.queries, List.countP_append]
  simp [hfree]

variable (now)

/-- The `CONNECTION_READY` case. -/
theorem Onward.ready (hst : (s.conn c).status = .ready) :
    Onward s₀ post ((pre ++ [c]).countP s₀.isFree) (quietly (onTimer.ready now c) s).2 := by
  have he : s.conn c = s₀.conn c := h.ahead c List.mem_cons_self
  unfold onTimer.ready
  cases hq : (s.conn c).query with
  | some q =>
    -- its query goes to the callback, and it is not ready to take another
    have hfree : s₀.isFree c = false := by simp [Client.isFree, ← he, hq]
    have hq' : ((s.expire c q).conn c).query =
        some (Client.expiredQuery q "Query timeout expired") := by simp [Client.expire]
    have hst' : ((s.expire c q).conn c).status ≠ .ready := by simp [Client.expire]
    have hres := quietly_result hq' hst'
    unfold quietly at hres ⊢
    simp only [Prog.quiet_bind, Prog.quiet_read, hq, Prog.quiet_when, Prog.quiet_modify, hres]
    split
    · exact h.keep hc hfree ((Touches.expire c s q).trans (.take c _ _)) rfl rfl
    · exact h.keep hc hfree (.refl c s) rfl rfl
  | none =>
    have hcount : (pre ++ [c]).countP s₀.isFree = pre.countP s₀.isFree + 1 := by
      rw [List.countP_append]
      simp [Client.isFree, ← he, hst, hq]
    have hlen := h.queries
    cases hqs : s.queries with
    | nil =>
      -- as many were free as were waiting
      rw [hqs, List.length_nil] at hlen
      have hnext := quietly_nextQuery_nil (c := c) hqs
      unfold quietly at hnext ⊢
      simp only [Prog.quiet_bind, Prog.quiet_read, hq, hnext, Prog.quiet_when, Prog.quiet_ask,
        Prog.quiet_modify]
      split
      · refine h.touch hc (.setTimestamp c s now) ?_ rfl
        rw [show (s.setTimestamp c now).queries = s.queries from rfl, hqs, List.length_nil]
        omega
      · refine h.touch hc (.refl c s) ?_ rfl
        rw [hqs, List.length_nil]
        omega
    | cons q rest =>
      rw [hqs, List.length_cons] at hlen
      have hnext := quietly_nextQuery_cons (c := c) hqs
      unfold quietly at hnext ⊢
      simp only [Prog.quiet_bind, Prog.quiet_read, hq, hnext, Prog.quiet_when]
      simp only [Bool.not_true, Bool.false_and, Bool.false_eq_true, if_false]
      refine h.touch hc ((Touches.next c s q).trans (.setTimestamp c _ _)) ?_ rfl
      have htail : ((s.next c q).setTimestamp c s.clock).queries = rest := by
        simp [Client.setTimestamp, Client.setConn, Client.next, hqs]
      rw [htail]
      omega

/-- The `CONNECTION_CONNECT` case. -/
theorem Onward.connect (hst : (s.conn c).status = .connect) :
    Onward s₀ post ((pre ++ [c]).countP s₀.isFree) (quietly (onTimer.connect now c) s).2 := by
  have he : s.conn c = s₀.conn c := h.ahead c List.mem_cons_self
  have hfree : s₀.isFree c = false := by simp [Client.isFree, ← he, hst]
  unfold onTimer.connect onTimer.lapse
  cases hq : (s.conn c).query with
  | none =>
    simp only [quietly, Prog.quiet_bind, Prog.quiet_read, Prog.quiet_when, Prog.quiet_ask,
      Prog.quiet_modify, Prog.quiet_pure, hq, Bool.false_eq_true, if_false]
    split
    · exact h.keep hc hfree (.setError c s) rfl rfl
    · exact h.keep hc hfree (.refl c s) rfl rfl
  | some q =>
    have hq' : ((s.lapse c q).conn c).query =
        some (Client.expiredQuery q "Connect timeout expired") := by simp [Client.lapse]
    have hst' : ((s.lapse c q).conn c).status ≠ .ready := by simp [Client.lapse, hst]
    have hres := quietly_result hq' hst'
    unfold quietly at hres ⊢
    simp only [Prog.quiet_bind, Prog.quiet_read, Prog.quiet_when, Prog.quiet_ask,
      Prog.quiet_modify, hq, hres, Bool.false_eq_true, if_false]
    split
    · refine h.keep hc hfree (Touches.trans ?_ (.setError c _)) rfl rfl
      exact (Touches.lapse c s q).trans (.take c _ _)
    · exact h.keep hc hfree (.refl c s) rfl rfl

variable (hi : s.connections[pre.length]? = some c)

include hi

/-- `OnTimer` goes on after a connection at which it cannot return. -/
theorem Onward.visit (hstop : s₀.stopsAt c = false) :
    (quietly (onTimer.visit now pre.length) s).1 = true ∧
      Onward s₀ post ((pre ++ [c]).countP s₀.isFree)
        (quietly (onTimer.visit now pre.length) s).2 := by
  have he : s.conn c = s₀.conn c := h.ahead c List.mem_cons_self
  unfold onTimer.visit
  cases hst : (s.conn c).status with
  | ready =>
    have hready := h.ready now hc hst
    unfold quietly at hready ⊢
    simp only [Prog.quiet_bind, Prog.quiet_read, hi, hst, Prog.quiet_pure, true_and]
    exact hready
  | wait =>
    have hfree : s₀.isFree c = false := by simp [Client.isFree, ← he, hst]
    have hcon : s.connected = true := by
      rw [h.connected]
      simpa [Client.stopsAt, ← he, hst] using hstop
    simp only [quietly, Prog.quiet_bind, Prog.quiet_read, hi, hst, Prog.quiet_modify,
      Prog.quiet_ask, Prog.quiet_pure]
    exact ⟨hcon, h.keep hc hfree (.setTimestamp c s now) rfl rfl⟩
  | connect =>
    have hconnect := h.connect now hc hst
    unfold quietly at hconnect ⊢
    simp only [Prog.quiet_bind, Prog.quiet_read, hi, hst, Prog.quiet_pure, true_and]
    exact hconnect
  | error => simp [Client.stopsAt, ← he, hst] at hstop

/-- Where it can, it returns, and leaves what is behind. -/
theorem Onward.stop (hstop : s₀.stopsAt c = true) (hbound : ∀ x ∈ post, x < s₀.nextPtr) :
    (quietly (onTimer.visit now pre.length) s).1 = false ∧
      Untouched s₀ post (pre.countP s₀.isFree) (quietly (onTimer.visit now pre.length) s).2 := by
  have he : s.conn c = s₀.conn c := h.ahead c List.mem_cons_self
  have hmem : ∀ {x}, x ∈ post → x ≠ c := by rintro x hx rfl; exact hc hx
  have hahead : ∀ x ∈ post, s.conn x = s₀.conn x := fun x hx =>
    h.ahead x (List.mem_cons_of_mem _ hx)
  unfold onTimer.visit
  cases hst : (s.conn c).status with
  | ready => simp [Client.stopsAt, ← he, hst] at hstop
  | connect => simp [Client.stopsAt, ← he, hst] at hstop
  | wait =>
    have hcon : s.connected = false := by
      rw [h.connected]
      simpa [Client.stopsAt, ← he, hst] using hstop
    simp only [quietly, Prog.quiet_bind, Prog.quiet_read, hi, hst, Prog.quiet_modify,
      Prog.quiet_ask, Prog.quiet_pure]
    refine ⟨hcon, fun x hx => ?_, h.queries⟩
    exact (s.setConn_conn_of_ne (hmem hx) _).trans (hahead x hx)
  | error =>
    simp only [quietly, Prog.quiet_bind, Prog.quiet_read, hi, hst, Prog.quiet_modify,
      Prog.quiet_when, Prog.quiet_ask, Prog.quiet_pure, true_and]
    split
    · -- the failed one is replaced by an object that is none of those behind
      refine ⟨fun x hx => ?_, h.queries⟩
      have hx' : x ≠ (s.setConnected false).nextPtr := Nat.ne_of_lt (h.nextPtr ▸ hbound x hx)
      rw [Client.retire_conn_of_ne _ hx']
      exact (Client.setConn_conn_of_ne _ (hmem hx) _).trans (hahead x hx)
    · exact ⟨hahead, h.queries⟩

end Onward

variable (now) in
/-- The quiet run of the loop up to the first connection at which it can return. -/
theorem untouched_loop (hnodup : s₀.connections.Nodup)
    (hbound : ∀ x ∈ s₀.connections, x < s₀.nextPtr) (hstop : s₀.stopsAt c = true) :
    ∀ (mid pre : List ConnPtr) (s : Client), s₀.connections = pre ++ (mid ++ c :: post) →
      (∀ x ∈ mid, s₀.stopsAt x = false) →
      Onward s₀ (mid ++ c :: post) (pre.countP s₀.isFree) s →
      Untouched s₀ post ((pre ++ mid).countP s₀.isFree)
        (quietly (onTimer.loop now (mid ++ c :: post).length pre.length) s).2 := by
  intro mid
  induction mid with
  | nil =>
    intro pre s hL _ h
    have hi : s.connections[pre.length]? = some c := by simp [h.connections, hL]
    have hc : c ∉ post := by
      rw [hL, List.nil_append, List.nodup_append, List.nodup_cons] at hnodup
      exact hnodup.2.1.1
    obtain ⟨hgo, hrest⟩ := h.stop now hc hi hstop fun x hx => hbound x (by simp [hL, hx])
    unfold quietly at hgo hrest ⊢
    simp only [List.nil_append, List.length_cons, onTimer.loop, Prog.quiet_bind, hgo,
      List.append_nil]
    exact hrest
  | cons x mid ih =>
    intro pre s hL hmid h
    have hi : s.connections[pre.length]? = some x := by simp [h.connections, hL]
    have hx : x ∉ mid ++ c :: post := by
      rw [hL, List.cons_append, List.nodup_append, List.nodup_cons] at hnodup
      exact hnodup.2.1.1
    obtain ⟨hgo, hrest⟩ := h.visit now hx hi (hmid x List.mem_cons_self)
    unfold quietly at hgo hrest
    have hnext := ih (pre ++ [x]) _ (by simp [hL]) (fun y hy => hmid y (List.mem_cons_of_mem _ hy))
      hrest
    have happ : pre ++ [x] ++ mid = pre ++ x :: mid := by simp
    have hlen : (pre ++ [x]).length = pre.length + 1 := by simp
    rw [happ, hlen] at hnext
    unfold quietly at hnext ⊢
    simp only [List.cons_append, List.length_cons, onTimer.loop, Prog.quiet_bind, hgo, if_true]
    exact hnext

variable (now) in
/-- **`OnTimer` may return at the first connection at which it can**, and leave what
is behind. -/
theorem untouched_onTimer (hs : s₀.Owned) (hL : s₀.connections = pre ++ c :: post)
    (hpre : ∀ x ∈ pre, s₀.stopsAt x = false) (hstop : s₀.stopsAt c = true) :
    Untouched s₀ post (pre.countP s₀.isFree) (quietly (onTimer now) s₀).2 := by
  have hbound : ∀ x ∈ s₀.connections, x < s₀.nextPtr := fun x hx =>
    hs.bound x (List.mem_append_left _ hx)
  have h₀ : Onward s₀ (pre ++ c :: post) 0 s₀ := ⟨⟨fun _ _ => rfl, rfl⟩, rfl, rfl, rfl⟩
  have h := untouched_loop now (List.nodup_append.mp hs.nodup).1 hbound hstop pre [] s₀ hL
    hpre h₀
  rw [← hL, List.nil_append] at h
  unfold onTimer
  unfold quietly at h ⊢
  simp only [Prog.quiet_bind, Prog.quiet_read, Prog.quiet_when, Prog.quiet_modify]
  split
  · exact ⟨h.ahead, h.queries⟩
  · exact h

/-- A connection that is not touched is settled only if there is nothing to do for it. -/
theorem Untouched.settled (h : Untouched s₀ post n s) (hs : Serviced s₀ now s)
    (hL : ∀ x ∈ post, x ∈ s₀.connections) :
    (∀ x ∈ post, (s₀.conn x).status = .ready → s₀.isOverdue now x = false) ∧
      ((∃ x ∈ post, s₀.isFree x = true) → s₀.queries.length ≤ n) := by
  refine ⟨fun x hx hr => ?_, ?_⟩
  · have he := h.ahead x hx
    have hset := (hs x (hL x hx) hr (by rw [he]; exact hr)).1
    rw [he] at hset
    exact Bool.eq_false_iff.mpr fun ho => hset ⟨ho, rfl⟩
  · rintro ⟨x, hx, hfree⟩
    obtain ⟨hr, hnone⟩ := isFree_iff.mp hfree
    have he := h.ahead x hx
    have hset := (hs x (hL x hx) hr (by rw [he]; exact hr)).2
    rw [he] at hset
    have hnil : s.queries = [] := by
      by_contra hne
      exact hset hne hnone
    have hlen := h.queries
    rw [hnil, List.length_nil] at hlen
    omega

/-- What the first connection at which `OnTimer` can return does not block, none does. -/
theorem unblocked_of_first (hL : s.connections = pre ++ c :: post)
    (hpre : ∀ x ∈ pre, s.stopsAt x = false)
    (hover : ∀ x ∈ post, (s.conn x).status = .ready → s.isOverdue now x = false)
    (hfree : (∃ x ∈ post, s.isFree x = true) → s.queries.length ≤ pre.countP s.isFree) :
    Unblocked s now := by
  intro pre' c' post' hL' hstop'
  -- the connection comes no earlier than the first
  have hlater : pre <+: pre' ∧ post' ⊆ post := by
    rcases List.append_eq_append_iff.mp (hL.symm.trans hL') with ⟨as, rfl, has⟩ | ⟨bs, rfl, hbs⟩
    · refine ⟨List.prefix_append _ _, ?_⟩
      cases as with
      | nil =>
        obtain ⟨-, rfl⟩ := List.cons.inj has
        exact List.Subset.refl _
      | cons a as =>
        obtain ⟨-, rfl⟩ := List.cons.inj has
        exact fun x hx => by simp [hx]
    · cases bs with
      | nil =>
        obtain ⟨-, rfl⟩ := List.cons.inj hbs
        simp
      | cons b bs =>
        obtain ⟨rfl, -⟩ := List.cons.inj hbs
        rw [hpre c' (by simp)] at hstop'
        exact Bool.noConfusion hstop'
  refine ⟨fun x hx => hover x (hlater.2 hx), fun ⟨x, hx, hf⟩ => ?_⟩
  exact Nat.le_trans (hfree ⟨x, hlater.2 hx, hf⟩) hlater.1.sublist.countP_le

end Service

/-- **What the timer services.**  As long as only the hooks that connect make a connection
ready, every call of `OnTimer` services all connections that were ready before it if and only
if none of them is blocked: by a connection in the error state, or by one that waits to be
connected while the client is not connected. -/
theorem serviced_iff_unblocked {s : Client} (hs : s.Owned) (now : ℤ) :
    (∀ s', Ticks now s s' → Serviced s now s') ↔ Unblocked s now := by
  constructor
  · intro hall
    cases hfirst : s.connections.find? s.stopsAt with
    | none =>
      intro pre c post hL hstop
      have hnot := List.find?_eq_none.mp hfirst c (by simp [hL])
      exact absurd hstop hnot
    | some c =>
      obtain ⟨hstop, pre, post, hL, hpre⟩ := List.find?_eq_some_iff_append.mp hfirst
      have hpre' : ∀ x ∈ pre, s.stopsAt x = false := by simpa using hpre
      have hun := Service.untouched_onTimer now hs hL hpre' hstop
      obtain ⟨hover, hfree⟩ := hun.settled (hall _ (Service.ticks_quietly now s)) fun x hx => by
        simp [hL, hx]
      exact Service.unblocked_of_first hL hpre' hover hfree
  · intro hun s' h
    exact Service.serviced_of_ticks hs hun h

/-- A connection in the error state, and a ready one whose query is overdue at 10. -/
def failedFirst : Client :=
  .ofConnections ⟨10, 5, 5⟩ [⟨4, 10, .error, none⟩, ⟨5, 0, .ready, some ⟨7, 3, .ok, "select"⟩⟩]

/-- The same connections in the other order. -/
def failedLast : Client :=
  .ofConnections ⟨10, 5, 5⟩ [⟨5, 0, .ready, some ⟨7, 3, .ok, "select"⟩⟩, ⟨4, 10, .error, none⟩]

theorem serviced_failedLast :
    ((Service.quietly (onTimer 10) failedLast).2.conn 0).status = .error ∧
      Serviced failedLast 10 (Service.quietly (onTimer 10) failedLast).2 := by
  have hL : failedLast.connections = [0] ++ 1 :: [] := rfl
  have hun : Unblocked failedLast 10 :=
    Service.unblocked_of_first hL (by decide) (by simp) (by simp)
  refine ⟨by decide +kernel, (serviced_iff_unblocked ⟨by decide, by decide⟩ 10).mpr hun _ ?_⟩
  exact Service.ticks_quietly 10 failedLast

theorem not_serviced_failedFirst : ¬∀ (s s' : Client) (now : ℤ), s.Owned → Ticks now s s' →
    Serviced s now s' := by
  intro hall
  have hticks := Service.ticks_quietly 10 failedFirst
  have hserv := hall failedFirst _ 10 ⟨by decide, by decide⟩ hticks 1 (by decide) (by decide)
  exact (hserv (by decide +kernel)).1 ⟨by decide +kernel, by decide +kernel⟩

end Db
end PeeledOrange
