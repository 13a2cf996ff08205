import PeeledOrange.Db.Client
import Mathlib.Tactic.SplitIfs
import Mathlib.Data.List.Nodup

/-!
# What the member functions of the database client can do

The member functions are taken apart once, here, into the atomic blocks between
their outgoing calls.  `Kept` lists what an invariant must survive: one field for
each block, with everything the code has checked before it.  An invariant of the
whole client, at every moment and in the middle of nested calls, is then a proof
of `Kept`.

## Main definitions

* `Base` — the bookkeeping every invariant rests on: distinct objects, hooks run
  only for listed connections, and a connection whose query the timer has just
  handed back is left alone until the callback returns.
* `Kept` — the obligations of an invariant, block by block.

## Main results

* `Kept.invariant` — **an invariant that survives the blocks is one of the client.**
-/

namespace PeeledOrange
namespace Db

open Callback

/-! ### Pending calls -/

@[simp] theorem not_hooked_nil (c : ConnPtr) : ¬Hooked [] c := by simp [Hooked]

@[simp] theorem hooked_cons {k : Call} {cs : List Call} {c : ConnPtr} :
    Hooked (k :: cs) c ↔ k.owner = some c ∨ Hooked cs c := by simp [Hooked]

/-- `CheckConnect` never returns false with its connection ready. -/
def HookRules.Honest (R : HookRules) : Prop := ∀ d, R.connects false d → d.status ≠ .ready

/-- The timer itself is waiting for `OnResult` on a query of `c`: a query that
`Result` was called for with nothing else pending. -/
def Frozen (R : HookRules) (cs : List Call) (c : ConnPtr) : Prop :=
  R.Honest ∧ ∃ q, cs.getLast? = some (.onResult c q)

section Frozen

variable {R : HookRules} {cs : List Call}

@[simp] theorem not_frozen_nil (c : ConnPtr) : ¬Frozen R [] c := by simp [Frozen]

theorem Frozen.cons {c : ConnPtr} (k : Call) (h : Frozen R cs c) : Frozen R (k :: cs) c := by
  obtain ⟨hR, q, hq⟩ := h
  exact ⟨hR, q, by rw [List.getLast?_cons, hq]; rfl⟩

theorem frozen_cons {k : Call} {c : ConnPtr} (h : Frozen R (k :: cs) c) :
    Frozen R cs c ∨ R.Honest ∧ cs = [] ∧ ∃ q, k = .onResult c q := by
  obtain ⟨hR, q, hq⟩ := h
  cases cs with
  | nil => exact .inr ⟨hR, rfl, q, by simpa using hq⟩
  | cons k' cs => exact .inl ⟨hR, q, by simpa [List.getLast?_cons] using hq⟩

end Frozen

/-! ### The bookkeeping -/

/-- The bookkeeping every invariant rests on. -/
structure Base (R : HookRules) (cs : List Call) (s : Client) : Prop where
  nodup : (s.connections ++ s.badConnections).Nodup
  bound : ∀ c ∈ s.connections ++ s.badConnections, c < s.nextPtr
  subject : ∀ k ∈ cs, k.subject ∈ s.connections
  frozen : ∀ c, Frozen R cs c → (s.conn c).status ≠ .ready ∧ (s.conn c).query = none ∧
    ¬Hooked cs c

namespace Base

variable {R : HookRules} {cs : List Call} {s s' : Client} {c : ConnPtr}

/-- The connection of a running hook is listed. -/
theorem hook (h : Base R cs s) (hc : Hooked cs c) : c ∈ s.connections := by
  obtain ⟨k, hk, ho⟩ := hc
  exact Call.subject_of_owner ho ▸ h.subject k hk

/-- The lists are the same and a frozen connection is what it was. -/
theorem congr (h : Base R cs s) (hc : s'.connections = s.connections)
    (hb : s'.badConnections = s.badConnections) (hn : s'.nextPtr = s.nextPtr)
    (hf : ∀ c, Frozen R cs c → (s'.conn c).status = (s.conn c).status ∧
      (s'.conn c).query = (s.conn c).query) : Base R cs s' where
  nodup := by rw [hc, hb]; exact h.nodup
  bound := by rw [hc, hb, hn]; exact h.bound
  subject := by rw [hc]; exact h.subject
  frozen := fun c hfr => by
    rw [(hf c hfr).1, (hf c hfr).2]
    exact h.frozen c hfr

/-- Nothing but the object at `c` changes, and `c` is not frozen. -/
theorem setConn (h : Base R cs s) (hc : ¬Frozen R cs c) (d : DbConnection)
    (hs' : s'.conn = (s.setConn c d).conn) (hcs : s'.connections = s.connections)
    (hb : s'.badConnections = s.badConnections) (hn : s'.nextPtr = s.nextPtr) : Base R cs s' := by
  refine h.congr hcs hb hn fun c' hc' => ?_
  have hne : c' ≠ c := by rintro rfl; exact hc hc'
  rw [hs', s.setConn_conn_of_ne hne]
  exact ⟨rfl, rfl⟩

theorem pop {k : Call} (h : Base R (k :: cs) s) : Base R cs s where
  nodup := h.nodup
  bound := h.bound
  subject := fun k' hk' => h.subject k' (List.mem_cons_of_mem _ hk')
  frozen := fun c hc => by
    obtain ⟨h1, h2, h3⟩ := h.frozen c (hc.cons k)
    exact ⟨h1, h2, fun hh => h3 (hooked_cons.mpr (.inr hh))⟩

/-- A hook is called for a connection that is not frozen. -/
theorem push {k : Call} (h : Base R cs s) (hk : k.owner = some c) (hc : c ∈ s.connections)
    (hfr : ¬Frozen R cs c) : Base R (k :: cs) s where
  nodup := h.nodup
  bound := h.bound
  subject := List.forall_mem_cons.mpr ⟨Call.subject_of_owner hk ▸ hc, h.subject⟩
  frozen := fun c' hc' => by
    rcases frozen_cons hc' with hc' | ⟨-, -, q, rfl⟩
    · obtain ⟨h1, h2, h3⟩ := h.frozen c' hc'
      refine ⟨h1, h2, fun hh => ?_⟩
      rcases hooked_cons.mp hh with hk' | hh
      · rw [hk, Option.some.injEq] at hk'
        exact hfr (hk' ▸ hc')
      · exact h3 hh
    · simp [Call.owner] at hk

/-- `OnResult` is called: from the timer, if hooks are honest, for a connection that
is not ready and has given its query up, else with other calls pending. -/
theorem pushResult (h : Base R cs s) (hc : c ∈ s.connections) (q : QueryData)
    (ht : R.Honest → cs = [] → (s.conn c).status ≠ .ready ∧ (s.conn c).query = none) :
    Base R (.onResult c q :: cs) s where
  nodup := h.nodup
  bound := h.bound
  subject := List.forall_mem_cons.mpr ⟨hc, h.subject⟩
  frozen := fun c' hc' => by
    rcases frozen_cons hc' with hc' | ⟨hR, rfl, q', hq'⟩
    · obtain ⟨h1, h2, h3⟩ := h.frozen c' hc'
      refine ⟨h1, h2, fun hh => ?_⟩
      rcases hooked_cons.mp hh with hk' | hh
      · simp [Call.owner] at hk'
      · exact h3 hh
    · simp only [Call.onResult.injEq] at hq'
      obtain ⟨rfl, rfl⟩ := hq'
      obtain ⟨h1, h2⟩ := ht hR rfl
      exact ⟨h1, h2, by simp [Call.owner]⟩

theorem not_frozen_of_hooked (h : Base R cs s) (hc : Hooked cs c) : ¬Frozen R cs c :=
  fun hf => (h.frozen c hf).2.2 hc

theorem not_frozen_of_ready (h : Base R cs s) (hc : (s.conn c).status = .ready) : ¬Frozen R cs c :=
  fun hf => (h.frozen c hf).1 hc

/-- A listed connection is not a bad one. -/
theorem ne_of_bad (h : Base R cs s) (hc : c ∈ s.connections) {x : ConnPtr}
    (hx : x ∈ s.badConnections) : x ≠ c :=
  fun he => (List.nodup_append.mp h.nodup).2.2 c hc x hx he.symm

/-- The object that `NewConnection` returns is new. -/
theorem ne_nextPtr (h : Base R cs s) {x : ConnPtr} (hx : x ∈ s.connections ++ s.badConnections) :
    x ≠ s.nextPtr := Nat.ne_of_lt (h.bound x hx)

theorem of_initial (h : s.Initial) : Base R [] s where
  nodup := by rw [h.badConnections, List.append_nil]; exact h.nodup
  bound := by rw [h.badConnections, List.append_nil]; exact h.bound
  subject := by simp
  frozen := fun c hc => absurd hc (not_frozen_nil c)

end Base

/-! ### The record of a run -/

/-- What is recorded of a run only grows. -/
structure Grows (s s' : Client) : Prop where
  accepted : s.accepted <+: s'.accepted
  rejected : s.rejected <+: s'.rejected
  returned : s.returned <+: s'.returned
  delivered : s.delivered <+: s'.delivered
  lost : s.lost <+: s'.lost
  log : s.log <+: s'.log

namespace Grows

variable (s : Client) (c : ConnPtr) (q : QueryData)

/-- Whatever is not the record changes. -/
theorem of_eq {s s' : Client} (ha : s'.accepted = s.accepted) (hr : s'.rejected = s.rejected)
    (hret : s'.returned = s.returned) (hd : s'.delivered = s.delivered) (hl : s'.lost = s.lost)
    (hlog : s'.log = s.log) : Grows s s' := by
  constructor <;> simp [ha, hr, hret, hd, hl, hlog]

theorem refl : Grows s s := of_eq rfl rfl rfl rfl rfl rfl

theorem trans {s s' s'' : Client} (h : Grows s s') (h' : Grows s' s'') : Grows s s'' where
  accepted := h.accepted.trans h'.accepted
  rejected := h.rejected.trans h'.rejected
  returned := h.returned.trans h'.returned
  delivered := h.delivered.trans h'.delivered
  lost := h.lost.trans h'.lost
  log := h.log.trans h'.log

theorem setConn (d : DbConnection) : Grows s (s.setConn c d) := of_eq rfl rfl rfl rfl rfl rfl

theorem setTimestamp (t : ℤ) : Grows s (s.setTimestamp c t) := setConn s c _

theorem setConnected (b : Bool) : Grows s (s.setConnected b) := of_eq rfl rfl rfl rfl rfl rfl

theorem start : Grows s (s.start c q) := by
  constructor <;> simp [Client.start, Client.attach, Client.setConn]

theorem next : Grows s (s.next c q) := by
  constructor <;> simp [Client.next, Client.attach, Client.setConn]

theorem enqueue : Grows s (s.enqueue q) := by constructor <;> simp [Client.enqueue]

theorem reject : Grows s (s.reject q) := by constructor <;> simp [Client.reject]

theorem take : Grows s (s.take c q) := by constructor <;> simp [Client.take, Client.setConn]

theorem check : Grows s (s.check c) := by constructor <;> simp [Client.check]

theorem expire : Grows s (s.expire c q) := by
  constructor <;> simp [Client.expire, Client.setConn]

theorem logReturn (id : ℕ) (ok : Bool) : Grows s (s.logReturn id ok) := by
  constructor <;> simp [Client.logReturn]

theorem retire (i : ℕ) (now : ℤ) : Grows s (s.retire i c now) := of_eq rfl rfl rfl rfl rfl rfl

theorem sweep (now : ℤ) : Grows s (s.sweep now) := by constructor <;> simp [Client.sweep]

end Grows

/-! ### Free connections -/

theorem isFree_iff {s : Client} {c : ConnPtr} :
    s.isFree c = true ↔ (s.conn c).status = .ready ∧ (s.conn c).query = none := by
  simp [Client.isFree]

/-! ### The obligations -/

/-- What an invariant `J` has to survive outside `Query`, block by block, to give `M` at
every moment.  The hypotheses of a field are what the code has checked by then. -/
structure KeptElsewhere (R : HookRules) (M : Client → Prop) (J : List Call → Client → Prop) :
    Prop where
  /-- The invariant gives `M`. -/
  moment : ∀ {cs s}, J cs s → M s
  /-- A call is replied to. -/
  pop : ∀ {k cs r s}, Base R (k :: cs) s → J (k :: cs) s → mayReply R (k :: cs) r s → J cs s
  /-- The clock moves. -/
  clock : ∀ {cs s} (t : ℤ), J cs s → J cs { s with clock := t }
  /-- The running hook changes its connection. -/
  act : ∀ {k cs s c d}, Base R (k :: cs) s → J (k :: cs) s → k.owner = some c →
    R.act (s.conn c) d → d.query.map QueryData.id = (s.conn c).query.map QueryData.id →
    J (k :: cs) (s.setConn c d)
  /-- A hook other than `DoQuery` is called from outside any other call. -/
  call : ∀ {k s c}, Base R [] s → J [] s → k.owner = some c → c ∈ s.connections → J [k] s
  /-- `DataProcessing` turns to a ready connection with a query. -/
  check : ∀ {s c}, Base R [] s → J [] s → c ∈ s.connections → (s.conn c).status = .ready →
    J [] (s.check c)
  /-- A time stamp is set. -/
  touch : ∀ {cs s} (c : ConnPtr) (t : ℤ), J cs s → J cs (s.setTimestamp c t)
  /-- The `connected` flag is set. -/
  connected : ∀ {cs s} (b : Bool), J cs s → J cs (s.setConnected b)
  /-- `Query` returns. -/
  returns : ∀ {cs s id ok}, J cs s → (ok = true → id ∈ s.accepted) → J cs (s.logReturn id ok)
  /-- `NextQuery` attaches the front of the queue. -/
  next : ∀ {cs s c q rest}, Base R cs s → J cs s → c ∈ s.connections → s.isFree c = true →
    s.queries = q :: rest → J (.doQuery c :: cs) (s.next c q)
  /-- `Result` passes on a query, called by a hook. -/
  take : ∀ {cs s c q}, Base R cs s → J cs s → Hooked cs c → (s.conn c).query = some q →
    J (.onResult c q :: cs) (s.take c q)
  /-- `OnTimer` expires the query of a ready connection and `Result` passes it on. -/
  expire : ∀ {s c q}, Base R [] s → J [] s → c ∈ s.connections → (s.conn c).status = .ready →
    (s.conn c).query = some q → M (s.expire c q) ∧
      ∀ q', ((s.expire c q).conn c).query = some q' →
        J [.onResult c q'] ((s.expire c q).take c q')
  /-- `OnTimer` gives up the query of a connection that failed to connect and
  `Result` passes it on. -/
  lapse : ∀ {s c q}, Base R [] s → J [] s → c ∈ s.connections →
    (R.Honest → (s.conn c).status ≠ .ready) → (s.conn c).query = some q → M (s.lapse c q) ∧
      ∀ q', ((s.lapse c q).conn c).query = some q' →
        J [.onResult c q'] ((s.lapse c q).take c q')
  /-- `OnTimer` gives up a connection that failed to connect. -/
  giveUp : ∀ {s c}, Base R [] s → J [] s → c ∈ s.connections →
    (R.Honest → (s.conn c).query = none) → J [] (s.setError c)
  /-- `OnTimer` replaces a failed connection. -/
  retire : ∀ {s i c} (now : ℤ), Base R [] s → J [] s → s.connections[i]? = some c →
    (s.conn c).status = .error → J [.newConnection s.nextPtr] (s.retire i c now)
  /-- `OnTimer` erases bad connections. -/
  sweep : ∀ {s} (now : ℤ), Base R [] s → J [] s → J [] (s.sweep now)

/-- What an invariant `J` has to survive, block by block, to give `M` at every moment. -/
structure Kept (R : HookRules) (M : Client → Prop) (J : List Call → Client → Prop) : Prop extends
    KeptElsewhere R M J where
  /-- `Query` attaches its argument. -/
  start : ∀ {cs s c pq}, Base R cs s → J cs s → c ∈ s.connections → s.isFree c = true →
    pq.id ∉ s.accepted → J (.doQuery c :: cs) (s.start c pq)
  /-- `Query` queues its argument. -/
  enqueue : ∀ {cs s pq}, Base R cs s → J cs s → (∀ c ∈ s.connections, s.isFree c = false) →
    s.queries.length ≤ s.client.maxQueueSize → pq.id ∉ s.accepted → J cs (s.enqueue pq)
  /-- `Query` turns its argument down. -/
  reject : ∀ {cs s pq}, Base R cs s → J cs s → pq.id ∉ s.accepted → J cs (s.reject pq)

/-- The same, if `Query` is called only in states that satisfy `P`. -/
structure KeptUnder (R : HookRules) (P : Client → Prop) (M : Client → Prop)
    (J : List Call → Client → Prop) : Prop extends KeptElsewhere R M J where
  /-- `Query` attaches its argument. -/
  start : ∀ {cs s c pq}, Base R cs s → J cs s → P s → c ∈ s.connections → s.isFree c = true →
    pq.id ∉ s.accepted → J (.doQuery c :: cs) (s.start c pq)
  /-- `Query` queues its argument. -/
  enqueue : ∀ {cs s pq}, Base R cs s → J cs s → P s → (∀ c ∈ s.connections, s.isFree c = false) →
    s.queries.length ≤ s.client.maxQueueSize → pq.id ∉ s.accepted → J cs (s.enqueue pq)
  /-- `Query` turns its argument down. -/
  reject : ∀ {cs s pq}, Base R cs s → J cs s → P s → pq.id ∉ s.accepted → J cs (s.reject pq)

theorem Kept.under {R : HookRules} {M : Client → Prop} {J : List Call → Client → Prop}
    (hJ : Kept R M J) (P : Client → Prop) : KeptUnder R P M J where
  toKeptElsewhere := hJ.toKeptElsewhere
  start := fun hb h _ => hJ.start hb h
  enqueue := fun hb h _ => hJ.enqueue hb h
  reject := fun hb h _ => hJ.reject hb h

/-- `Query` is called only in states that satisfy `P`. -/
def queryOnlyIf (P : Client → Prop) : List Call → Client → Entry → Prop
  | _, s, .query _ => P s
  | _, _, _ => True

instance (P : Client → Prop) [DecidablePred P] (cs : List Call) (s : Client) (e : Entry) :
    Decidable (queryOnlyIf P cs s e) :=
  match e with
  | .query _ => inferInstanceAs (Decidable (P s))
  | .onTimer _ | .dataProcessing _ | .result _ => .isTrue trivial

/-! ### The member functions keep an invariant -/

section Pass

variable {R : HookRules} {M : Client → Prop} {J : List Call → Client → Prop}

/-- The invariant with the bookkeeping. -/
def Both (R : HookRules) (J : List Call → Client → Prop) (cs : List Call) (s : Client) : Prop :=
  Base R cs s ∧ J cs s

/-- The contract of the client for an invariant. -/
def contract (R : HookRules) (M : Client → Prop) (J : List Call → Client → Prop) :
    Contract Client Call where
  moment := M
  boundary := Both R J
  later := Grows

/-- The verification condition of a member function. -/
abbrev Sound (R : HookRules) (M : Client → Prop) (J : List Call → Client → Prop)
    (cs : List Call) {α : Type} (p : DbProg α) (Q : α → Client → Prop) (s : Client) : Prop :=
  p.Safe (interface R) (contract R M J) cs Q s

variable {cs : List Call} {s : Client} {c : ConnPtr}

theorem Both.pop (hJ : KeptElsewhere R M J) {k : Call} {r : Bool} (h : Both R J (k :: cs) s)
    (hr : mayReply R (k :: cs) r s) : Both R J cs s := ⟨h.1.pop, hJ.pop h.1 h.2 hr⟩

theorem Both.touch (hJ : KeptElsewhere R M J) (h : Both R J cs s) (c : ConnPtr) (t : ℤ) :
    Both R J cs (s.setTimestamp c t) :=
  ⟨h.1.congr rfl rfl rfl fun _ _ => ⟨s.setTimestamp_status .., s.setTimestamp_query ..⟩,
    hJ.touch c t h.2⟩

theorem Both.connected (hJ : KeptElsewhere R M J) (h : Both R J cs s) (b : Bool) :
    Both R J cs (s.setConnected b) :=
  ⟨h.1.congr rfl rfl rfl fun _ _ => ⟨rfl, rfl⟩, hJ.connected b h.2⟩

theorem Both.start {P : Client → Prop} (hJ : KeptUnder R P M J) (h : Both R J cs s) (hP : P s)
    {pq : QueryData} (hc : c ∈ s.connections) (hfree : s.isFree c = true)
    (hid : pq.id ∉ s.accepted) :
    Both R J (.doQuery c :: cs) (s.start c pq) := by
  have hfr : ¬Frozen R cs c := h.1.not_frozen_of_ready (isFree_iff.mp hfree).1
  have hb : Base R cs (s.start c pq) := h.1.setConn hfr _ rfl rfl rfl rfl
  exact ⟨hb.push rfl hc hfr, hJ.start h.1 h.2 hP hc hfree hid⟩

theorem Both.next (hJ : KeptElsewhere R M J) (h : Both R J cs s) {q : QueryData}
    {rest : List QueryData}
    (hc : c ∈ s.connections) (hfree : s.isFree c = true) (hq : s.queries = q :: rest) :
    Both R J (.doQuery c :: cs) (s.next c q) := by
  have hfr : ¬Frozen R cs c := h.1.not_frozen_of_ready (isFree_iff.mp hfree).1
  have hb : Base R cs (s.next c q) := h.1.setConn hfr _ rfl rfl rfl rfl
  exact ⟨hb.push rfl hc hfr, hJ.next h.1 h.2 hc hfree hq⟩

/-- A query taken out of the slot of a connection that no longer accepts one. -/
theorem Base.takeResult (h : Base R [] s) {q : QueryData} (hc : c ∈ s.connections)
    (hst : R.Honest → (s.conn c).status ≠ .ready) : Base R [.onResult c q] (s.take c q) := by
  have hb : Base R [] (s.take c q) := h.setConn (not_frozen_nil c) _ rfl rfl rfl rfl
  exact hb.pushResult hc q fun hR _ => ⟨by simpa [Client.take, Client.setConn] using hst hR,
    by simp [Client.take, Client.setConn]⟩

/-- `Query` returns true only for a query it has taken. -/
theorem query_sound {P : Client → Prop} (hJ : KeptUnder R P M J) (h : Both R J cs s) (hP : P s)
    {pq : QueryData} (hid : pq.id ∉ s.accepted) : Sound R M J cs (query pq)
      (fun ok s' => Both R J cs s' ∧ (ok = true → pq.id ∈ s'.accepted)) s := by
  unfold query
  simp only [Prog.safe_bind, Prog.safe_read]
  cases hf : s.connections.find? s.isFree with
  | some c =>
    have h1 := h.start hJ hP (List.mem_of_find?_eq_some hf) (List.find?_some hf) hid
    simp only [Prog.safe_bind, Prog.safe_modify, Prog.safe_ask, Prog.safe_pure]
    refine ⟨hJ.moment h1.2, .start s c pq, h1, fun r s' hl h2 hr => ?_⟩
    have h3 := (h2.pop hJ.toKeptElsewhere hr).touch hJ.toKeptElsewhere c s'.clock
    have hmem : pq.id ∈ (s.start c pq).accepted := by simp [Client.start]
    exact ⟨hJ.moment h3.2, .setTimestamp s' c _, h3, fun _ => hl.accepted.subset hmem⟩
  | none =>
    simp only
    split_ifs with hfull
    · -- the queue is full
      have hj := hJ.reject h.1 h.2 hP hid
      simp only [Prog.safe_bind, Prog.safe_modify, Prog.safe_pure]
      exact ⟨hJ.moment hj, .reject s pq, ⟨h.1.congr rfl rfl rfl fun _ _ => ⟨rfl, rfl⟩, hj⟩,
        fun hb => by simp at hb⟩
    · -- the query waits
      have hnone : ∀ c ∈ s.connections, s.isFree c = false := by
        simpa using List.find?_eq_none.mp hf
      have hj := hJ.enqueue h.1 h.2 hP hnone (by omega) hid
      simp only [Prog.safe_bind, Prog.safe_modify, Prog.safe_pure]
      exact ⟨hJ.moment hj, .enqueue s pq, ⟨h.1.congr rfl rfl rfl fun _ _ => ⟨rfl, rfl⟩, hj⟩,
        fun _ => by simp [Client.enqueue]⟩

/-- `NextQuery` returns false only with nothing done. -/
theorem nextQuery_sound (hJ : KeptElsewhere R M J) (h : Both R J cs s) (hc : c ∈ s.connections)
    (hfree : s.isFree c = true) :
    Sound R M J cs (nextQuery c)
      (fun b s' => Both R J cs s' ∧ c ∈ s'.connections ∧ (b = false → s' = s)) s := by
  unfold nextQuery
  simp only [Prog.safe_bind, Prog.safe_read]
  cases hq : s.queries with
  | nil => exact ⟨h, hc, fun _ => rfl⟩
  | cons q rest =>
    have h1 := h.next hJ hc hfree hq
    simp only [Prog.safe_bind, Prog.safe_modify, Prog.safe_ask, Prog.safe_pure]
    refine ⟨hJ.moment h1.2, .next s c q, h1, fun r s' _ h2 hr => ?_⟩
    have h3 := (h2.pop hJ hr).touch hJ c s'.clock
    exact ⟨hJ.moment h3.2, .setTimestamp s' c _, h3, h2.1.subject _ List.mem_cons_self,
      fun hne => Bool.noConfusion hne⟩

/-- The second statement of `Result`. -/
theorem refill_sound (hJ : KeptElsewhere R M J) (h : Both R J cs s) (hc : c ∈ s.connections)
    {Q : Unit → Client → Prop} (hQ : s.isFree c = false → Q () s)
    (hQ' : ∀ s', s.isFree c = true → Both R J cs s' → c ∈ s'.connections → Q () s') :
    Sound R M J cs (refill c) Q s := by
  unfold refill
  simp only [Prog.safe_bind, Prog.safe_read, Prog.safe_when, Prog.safe_pure]
  refine ⟨fun hfree => ?_, hQ⟩
  exact (nextQuery_sound hJ h hc hfree).mono fun _ s' h' => hQ' s' hfree h'.1 h'.2.1

/-- `Result`, called by a hook of the connection. -/
theorem result_sound (hJ : KeptElsewhere R M J) (h : Both R J cs s) (hh : Hooked cs c) :
    Sound R M J cs (result c) (fun _ s' => Both R J cs s') s := by
  have hc := h.1.hook hh
  unfold result deliver
  simp only [Prog.safe_bind, Prog.safe_read]
  cases hq : (s.conn c).query with
  | none =>
    simp only [Prog.safe_pure]
    exact refill_sound hJ h hc (fun _ => h) fun _ _ h' _ => h'
  | some q =>
    have hb : Base R cs (s.take c q) :=
      h.1.setConn (h.1.not_frozen_of_hooked hh) _ rfl rfl rfl rfl
    have hne : cs ≠ [] := by rintro rfl; simp at hh
    have h1 : Both R J (.onResult c q :: cs) (s.take c q) :=
      ⟨hb.pushResult hc q fun _ hnil => absurd hnil hne, hJ.take h.1 h.2 hh hq⟩
    simp only [Prog.safe_bind, Prog.safe_modify, Prog.safe_ask, Prog.safe_pure]
    refine ⟨hJ.moment h1.2, .take s c q, h1, fun r s' _ h2 hr => ?_⟩
    -- the callback has returned, and what it has submitted may be in the slot
    have h3 := h2.pop hJ hr
    exact refill_sound hJ h3 (h3.1.hook hh) (fun _ => h3) fun _ _ h' _ => h'

/-- `Result`, called by the timer: if hooks are honest, it leaves a connection that
is not ready without a query. -/
theorem result_sound_timer (hJ : KeptElsewhere R M J) {q : QueryData}
    (hq : (s.conn c).query = some q)
    (h : Both R J [.onResult c q] (s.take c q)) :
    Sound R M J [] (result c) (fun _ s' => Both R J [] s' ∧ c ∈ s'.connections ∧
      (R.Honest → (s'.conn c).query = none)) s := by
  unfold result deliver
  simp only [Prog.safe_bind, Prog.safe_read, hq, Prog.safe_modify, Prog.safe_ask,
    Prog.safe_pure]
  refine ⟨hJ.moment h.2, .take s c q, h, fun r s' _ h2 hr => ?_⟩
  have h3 := h2.pop hJ hr
  have hc : c ∈ s'.connections := h2.1.subject _ List.mem_cons_self
  refine refill_sound hJ h3 hc (fun _ => ⟨h3, hc, fun hR => (h2.1.frozen c ⟨hR, q, rfl⟩).2.1⟩)
    fun s'' hfree h4 hc4 => ⟨h4, hc4, fun hR => ?_⟩
  exact absurd (isFree_iff.mp hfree).1 (h2.1.frozen c ⟨hR, q, rfl⟩).1

/-- A hook other than `DoQuery` is called from outside any other call. -/
theorem Both.call (hJ : KeptElsewhere R M J) (h : Both R J [] s) {k : Call} (hk : k.owner = some c)
    (hc : c ∈ s.connections) : Both R J [k] s :=
  ⟨h.1.push hk hc (not_frozen_nil c), hJ.call h.1 h.2 hk hc⟩

theorem dataProcessing_sound (hJ : KeptElsewhere R M J) (h : Both R J [] s) (fd : ℤ) :
    Sound R M J [] (dataProcessing fd) (fun _ s' => Both R J [] s') s := by
  unfold dataProcessing
  simp only [Prog.safe_bind, Prog.safe_read]
  cases hf : s.connections.find? fun c => (s.conn c).fd == fd with
  | none => exact h
  | some c =>
    have hc : c ∈ s.connections := List.mem_of_find?_eq_some hf
    unfold dispatch
    simp only [Prog.safe_bind, Prog.safe_read, Prog.safe_pure]
    cases hst : (s.conn c).status with
    | ready =>
      simp only [Prog.safe_bind, Prog.safe_when, Prog.safe_modify, Prog.safe_ask, Prog.safe_pure]
      refine ⟨fun _ => ?_, fun _ => h⟩
      have h1 : Both R J [] (s.check c) :=
        ⟨h.1.congr rfl rfl rfl fun _ _ => ⟨rfl, rfl⟩, hJ.check h.1 h.2 hc hst⟩
      exact ⟨hJ.moment h1.2, .check s c, h1.call hJ rfl hc, fun r s' _ h2 hr => h2.pop hJ hr⟩
    | connect =>
      simp only [Prog.safe_bind, Prog.safe_when, Prog.safe_modify, Prog.safe_ask]
      refine ⟨h.call hJ rfl hc, fun r s' _ h2 hr => ⟨fun _ => ?_, fun _ => h2.pop hJ hr⟩⟩
      have h3 := (h2.pop hJ hr).connected hJ true
      exact ⟨hJ.moment h3.2, .setConnected s' _, h3⟩
    | wait => exact h
    | error => exact h

theorem onTimer_ready_sound (hJ : KeptElsewhere R M J) (h : Both R J [] s) (hc : c ∈ s.connections)
    (hst : (s.conn c).status = .ready) (now : ℤ) :
    Sound R M J [] (onTimer.ready now c) (fun _ s' => Both R J [] s') s := by
  unfold onTimer.ready
  simp only [Prog.safe_bind, Prog.safe_read]
  cases hq : (s.conn c).query with
  | some q =>
    simp only [Prog.safe_bind, Prog.safe_when, Prog.safe_modify]
    refine ⟨fun _ => ?_, fun _ => h⟩
    obtain ⟨hM, hJ'⟩ := hJ.expire h.1 h.2 hc hst hq
    have hq' : ((s.expire c q).conn c).query =
        some (Client.expiredQuery q "Query timeout expired") := by
      simp [Client.expire, Client.setConn]
    have hb : Base R [] (s.expire c q) := h.1.setConn (not_frozen_nil c) _ rfl rfl rfl rfl
    have hb' := hb.takeResult (q := Client.expiredQuery q "Query timeout expired") hc
      fun _ => by simp [Client.expire, Client.setConn]
    exact ⟨hM, .expire s c q,
      (result_sound_timer hJ hq' ⟨hb', hJ' _ hq'⟩).mono fun _ _ h' => h'.1⟩
  | none =>
    simp only [Prog.safe_bind, Prog.safe_read, Prog.safe_when, Prog.safe_modify, Prog.safe_ask]
    refine (nextQuery_sound hJ h hc (isFree_iff.mpr ⟨hst, hq⟩)).mono fun started s1 h1 => ?_
    refine ⟨fun hp => ?_, fun _ => h1.1⟩
    rw [Bool.and_eq_true, Bool.not_eq_true'] at hp
    obtain rfl := h1.2.2 hp.1
    refine ⟨h.call hJ rfl hc, fun r s' _ h2 hr => ?_⟩
    have h3 := (h2.pop hJ hr).touch hJ c now
    exact ⟨hJ.moment h3.2, .setTimestamp s' c now, h3⟩

theorem onTimer_lapse_sound (hJ : KeptElsewhere R M J) (h : Both R J [] s) (hc : c ∈ s.connections)
    (hst : R.Honest → (s.conn c).status ≠ .ready) :
    Sound R M J [] (onTimer.lapse c) (fun _ s' => Both R J [] s' ∧ c ∈ s'.connections ∧
      (R.Honest → (s'.conn c).query = none)) s := by
  unfold onTimer.lapse
  simp only [Prog.safe_bind, Prog.safe_read]
  cases hq : (s.conn c).query with
  | none => exact ⟨h, hc, fun _ => hq⟩
  | some q =>
    simp only [Prog.safe_bind, Prog.safe_modify]
    obtain ⟨hM, hJ'⟩ := hJ.lapse h.1 h.2 hc hst hq
    have hq' : ((s.lapse c q).conn c).query =
        some (Client.expiredQuery q "Connect timeout expired") := by
      simp [Client.lapse, Client.setConn]
    have hb : Base R [] (s.lapse c q) := h.1.setConn (not_frozen_nil c) _ rfl rfl rfl rfl
    have hb' := hb.takeResult (q := Client.expiredQuery q "Connect timeout expired") hc
      fun hR => by simpa [Client.lapse, Client.setConn] using hst hR
    exact ⟨hM, .setConn s c _, result_sound_timer hJ hq' ⟨hb', hJ' _ hq'⟩⟩

theorem onTimer_connect_sound (hJ : KeptElsewhere R M J) (h : Both R J [] s)
    (hc : c ∈ s.connections)
    (now : ℤ) : Sound R M J [] (onTimer.connect now c) (fun _ s' => Both R J [] s') s := by
  unfold onTimer.connect
  simp only [Prog.safe_bind, Prog.safe_ask]
  refine ⟨h.call hJ rfl hc, fun r s1 _ h1 hr => ?_⟩
  have h2 := h1.pop hJ hr
  cases r with
  | true =>
    have h3 := h2.connected hJ true
    exact ⟨hJ.moment h3.2, .setConnected s1 _, h3⟩
  | false =>
    have hc1 : c ∈ s1.connections := h1.1.subject _ List.mem_cons_self
    have hst : R.Honest → (s1.conn c).status ≠ .ready := fun hR => hR _ (hr.1 c rfl)
    simp only [Bool.false_eq_true, if_false, Prog.safe_bind, Prog.safe_read, Prog.safe_when,
      Prog.safe_modify]
    refine ⟨fun _ => ?_, fun _ => h2⟩
    refine (onTimer_lapse_sound hJ h2 hc1 hst).mono fun _ s3 h3 => ?_
    obtain ⟨h3, hc3, hq3⟩ := h3
    have hj := hJ.giveUp h3.1 h3.2 hc3 hq3
    exact ⟨hJ.moment hj, .setConn s3 c _, h3.1.setConn (not_frozen_nil c) _ rfl rfl rfl rfl, hj⟩

/-- The object that takes the place of a retired one is new. -/
theorem Base.retire (h : Base R [] s) {i : ℕ} (hi : s.connections[i]? = some c) (now : ℤ) :
    Base R [.newConnection s.nextPtr] (s.retire i c now) := by
  have hperm := s.retire_perm hi now
  have hnew : s.nextPtr ∉ s.connections ++ s.badConnections := fun hm =>
    absurd (h.bound _ hm) (Nat.lt_irrefl _)
  have hnodup := hperm.nodup_iff.mpr (List.nodup_cons.mpr ⟨hnew, h.nodup⟩)
  have hb : Base R [] (s.retire i c now) := by
    refine ⟨hnodup, ?_, by simp, fun x hx => absurd hx (not_frozen_nil x)⟩
    intro x hx
    rcases List.mem_cons.mp (hperm.mem_iff.mp hx) with rfl | hx
    · exact Nat.lt_succ_self _
    · exact Nat.lt_succ_of_lt (h.bound x hx)
  obtain ⟨hlt, -⟩ := List.getElem?_eq_some_iff.mp hi
  exact hb.push rfl (List.mem_set hlt _) (not_frozen_nil _)

theorem onTimer_visit_sound (hJ : KeptElsewhere R M J) (h : Both R J [] s) (now : ℤ) (i : ℕ) :
    Sound R M J [] (onTimer.visit now i) (fun _ s' => Both R J [] s') s := by
  unfold onTimer.visit
  simp only [Prog.safe_bind, Prog.safe_read]
  cases hi : s.connections[i]? with
  | none => exact h
  | some c =>
    have hc : c ∈ s.connections := List.mem_of_getElem? hi
    cases hst : (s.conn c).status with
    | ready =>
      simp only [hst, Prog.safe_bind, Prog.safe_pure]
      exact onTimer_ready_sound hJ h hc hst now
    | wait =>
      have h1 := h.touch hJ c now
      simp only [hst, Prog.safe_bind, Prog.safe_modify, Prog.safe_ask, Prog.safe_read,
        Prog.safe_pure]
      exact ⟨hJ.moment h1.2, .setTimestamp s c now, h1.call hJ rfl hc,
        fun r s' _ h2 hr => h2.pop hJ hr⟩
    | connect =>
      simp only [hst, Prog.safe_bind, Prog.safe_pure]
      exact onTimer_connect_sound hJ h hc now
    | error =>
      have h1 := h.connected hJ false
      simp only [hst, Prog.safe_bind, Prog.safe_modify, Prog.safe_when, Prog.safe_ask,
        Prog.safe_pure]
      refine ⟨hJ.moment h1.2, .setConnected s _, fun _ => ?_, fun _ => h1⟩
      have hj := hJ.retire now h1.1 h1.2 hi hst
      exact ⟨hJ.moment hj, .retire (s.setConnected false) c i now, ⟨h1.1.retire hi now, hj⟩,
        fun r s' _ h2 hr => h2.pop hJ hr⟩

theorem onTimer_loop_sound (hJ : KeptElsewhere R M J) (now : ℤ) : ∀ (n i : ℕ) {s : Client},
    Both R J [] s → Sound R M J [] (onTimer.loop now n i) (fun _ s' => Both R J [] s') s := by
  intro n
  induction n with
  | zero => intro i s h; exact h
  | succ n ih =>
    intro i s h
    unfold onTimer.loop
    simp only [Prog.safe_bind]
    refine (onTimer_visit_sound hJ h now i).mono fun go s' h' => ?_
    cases go with
    | true => exact ih (i + 1) h'
    | false => exact h'

theorem onTimer_sound (hJ : KeptElsewhere R M J) (h : Both R J [] s) (now : ℤ) :
    Sound R M J [] (onTimer now) (fun _ s' => Both R J [] s') s := by
  unfold onTimer
  simp only [Prog.safe_bind, Prog.safe_read, Prog.safe_when, Prog.safe_modify]
  refine (onTimer_loop_sound hJ now _ 0 h).mono fun finished s' h' => ?_
  refine ⟨fun _ => ?_, fun _ => h'⟩
  have hj := hJ.sweep now h'.1 h'.2
  have hsub : (s'.sweep now).badConnections.Sublist s'.badConnections := List.filter_sublist
  refine ⟨hJ.moment hj, .sweep s' now, ⟨?_, fun c hc => ?_, by simp,
    fun c hc => absurd hc (not_frozen_nil c)⟩, hj⟩
  · exact h'.1.nodup.sublist (List.Sublist.append_left hsub _)
  · exact h'.1.bound c ((List.Sublist.append_left hsub _).subset hc)

end Pass

/-- An invariant that survives the blocks under a condition on the calls of `Query` is one
of the client with such calls only. -/
theorem KeptUnder.invariant {R : HookRules} {P : Client → Prop} {M : Client → Prop}
    {J : List Call → Client → Prop} (hJ : KeptUnder R P M J) :
    Invariant ((interface R).restrict (queryOnlyIf P)) (contract R M J) where
  refl := Grows.refl
  trans := Grows.trans
  moment := fun _ _ h => hJ.moment h.2
  entry := by
    intro cs s e h hmay
    obtain ⟨hmay, hP⟩ := hmay
    refine Prog.safe_restrict.mpr ?_
    cases e with
    | query pq =>
      obtain ⟨-, hid, -⟩ := hmay
      show Sound R M J cs (do let ok ← query pq; Prog.modify (·.logReturn pq.id ok)) _ s
      simp only [Prog.safe_bind, Prog.safe_modify]
      refine (query_sound hJ h hP hid).mono fun ok s' h' => ?_
      have hj := hJ.returns h'.1.2 h'.2
      exact ⟨hJ.moment hj, .logReturn s' _ _,
        h'.1.1.congr rfl rfl rfl fun _ _ => ⟨rfl, rfl⟩, hj⟩
    | onTimer now =>
      obtain rfl : cs = [] := hmay
      exact onTimer_sound hJ.toKeptElsewhere h now
    | dataProcessing fd =>
      obtain rfl : cs = [] := hmay
      show Sound R M J [] (do let _ ← dataProcessing fd) _ s
      simp only [Prog.safe_bind, Prog.safe_pure]
      exact dataProcessing_sound hJ.toKeptElsewhere h fd
    | result c =>
      refine result_sound hJ.toKeptElsewhere h ?_
      rcases hmay with hk | hk
      · exact ⟨_, List.mem_of_head? hk, rfl⟩
      · exact ⟨_, List.mem_of_head? hk, rfl⟩
  act := by
    intro cs s a h hmay
    cases a with
    | clock t =>
      exact ⟨⟨h.1.congr rfl rfl rfl fun _ _ => ⟨rfl, rfl⟩, hJ.clock t h.2⟩,
        .of_eq rfl rfl rfl rfl rfl rfl⟩
    | hook c d =>
      obtain ⟨hc, hact, hq⟩ := hmay
      cases cs with
      | nil => simp at hc
      | cons k cs =>
        simp only [List.head?_cons, Option.bind_some] at hc
        have hh : Hooked (k :: cs) c := hooked_cons.mpr (.inl hc)
        exact ⟨⟨h.1.setConn (h.1.not_frozen_of_hooked hh) d rfl rfl rfl rfl,
          hJ.act h.1 h.2 hc hact hq⟩, .setConn s c d⟩

/-- **An invariant that survives the blocks is one of the client.** -/
theorem Kept.invariant {R : HookRules} {M : Client → Prop} {J : List Call → Client → Prop}
    (hJ : Kept R M J) : Invariant (interface R) (contract R M J) :=
  (hJ.under fun _ => True).invariant.of_restrict fun _ _ e => by cases e <;> exact trivial

/-- The invariant in every configuration that is reached with such calls of `Query` only. -/
theorem KeptUnder.reachable {R : HookRules} {P : Client → Prop} {M : Client → Prop}
    {J : List Call → Client → Prop} (hJ : KeptUnder R P M J) {s₀ : Client} (h₀ : s₀.Initial)
    (hJ₀ : J [] s₀) {cfg : Config Client Call Bool}
    (h : Reachable ((interface R).restrict (queryOnlyIf P)) s₀ cfg) :
    M cfg.state ∧ (cfg.running = none → Both R J cfg.calls cfg.state) :=
  hJ.invariant.reachable ⟨Base.of_initial h₀, hJ₀⟩ h

/-- **The invariant in every reachable configuration**, with `M` at every moment. -/
theorem Kept.reachable {R : HookRules} {M : Client → Prop} {J : List Call → Client → Prop}
    (hJ : Kept R M J) {s₀ : Client} (h₀ : s₀.Initial) (hJ₀ : J [] s₀)
    {cfg : Config Client Call Bool} (h : Reachable (interface R) s₀ cfg) :
    M cfg.state ∧ (cfg.running = none → Both R J cfg.calls cfg.state) :=
  hJ.invariant.reachable ⟨Base.of_initial h₀, hJ₀⟩ h

end Db
end PeeledOrange
