import PeeledOrange.Db.Service
import PeeledOrange.Lib.BigStep

/-!
# Hooks that keep to rules of their own

What the client does between two calls from the outside depends on what the hooks do, and
on which connections they are called for.  A hook is called for one connection, and what
it calls itself, `Result` and the callback with it, has to do with that one and with free
ones.  So a condition that what is done for some connections does not affect is kept as
long as the hooks that are called are those of such connections.

## Main definitions

* `underRules` — the client and the code around it, when the hooks keep to these rules.
* `Returns` — a member function that is called from the outside returns.
* `CountedRun` — runs from the outside, with the number of some calls of `OnTimer`.
* `Falls` — of what is counted, so much is gone, but for what some events have brought.
* `Harmless` — a condition that what is done for some of the connections does not affect.
* `Alone` — of the connections only one changes.

## Main results

* `Harmless.invariant` — **such a condition is kept while hooks of such connections run.**
* `alone_of_between` — a hook that calls nothing changes its own connection alone.
-/

namespace PeeledOrange
namespace Db

open Callback

/-! ### Calls from the outside -/

/-- The client and the code around it, when hooks keep to these rules in what they do, and
when they return. -/
def underRules (acts : Client → Act → Prop) (replies : List Call → Bool → Client → Prop) :
    Interface Client Call Bool Entry Act :=
  { interface freeHooks with
    mayAct := fun cs s a => mayAct freeHooks cs s a ∧ acts s a
    mayReply := fun cs r s => mayReply freeHooks cs r s ∧ replies cs r s }

/-- Nothing is called from the outside in the meantime. -/
def fromInside : List Call → Client → Entry → Prop := fun cs _ _ => cs ≠ []

/-- Called in the first state, the member function may return in the second. -/
def Returns (W : Interface Client Call Bool Entry Act) (e : Entry) (s s' : Client) : Prop :=
  Relation.ReflTransGen (Step (W.restrict fromInside)) ⟨s, some e.program, []⟩ ⟨s', none, []⟩

/-- A run from the outside, with the number of calls of `OnTimer` at which `P` holds. -/
inductive CountedRun (W : Interface Client Call Bool Entry Act) (P : Client → ℤ → Prop) :
    ℕ → Client → Client → Prop
  | refl (s : Client) : CountedRun W P 0 s s
  | clock {n : ℕ} {s s' : Client} (t : ℤ) : CountedRun W P n s s' →
      CountedRun W P n s { s' with clock := t }
  | call {n : ℕ} {s s' s'' : Client} (e : Entry) : CountedRun W P n s s' → mayEnter [] s' e →
      (∀ now, e = .onTimer now → ¬P s' now) → Returns W e s' s'' → CountedRun W P n s s''
  | timer {n : ℕ} {s s' s'' : Client} (now : ℤ) : CountedRun W P n s s' → P s' now →
      Returns W (.onTimer now) s' s'' → CountedRun W P (n + 1) s s''

section Decidable

variable {acts : Client → Act → Prop} {replies : List Call → Bool → Client → Prop}
  (cs : List Call) (s : Client)

instance : DecidableRel freeHooks.act := fun _ _ => .isTrue trivial

instance : DecidablePred freeHooks.done := fun _ => .isTrue trivial

instance (ready : Bool) : DecidablePred (freeHooks.connects ready) := fun _ => .isTrue trivial

instance (e : Entry) : Decidable (fromInside cs s e) := inferInstanceAs (Decidable (cs ≠ []))

instance (e : Entry) : Decidable ((underRules acts replies).mayEnter cs s e) :=
  inferInstanceAs (Decidable ((interface freeHooks).mayEnter cs s e))

instance (a : Act) [Decidable (acts s a)] : Decidable ((underRules acts replies).mayAct cs s a) :=
  inferInstanceAs (Decidable ((interface freeHooks).mayAct cs s a ∧ acts s a))

instance (ready : Bool) [Decidable (replies cs ready s)] :
    Decidable ((underRules acts replies).mayReply cs ready s) :=
  inferInstanceAs (Decidable ((interface freeHooks).mayReply cs ready s ∧ replies cs ready s))

end Decidable

/-- A call that returns by a schedule. -/
theorem returns_of_play {W : Interface Client Call Bool Entry Act} {e : Entry} {s s' : Client}
    {n : ℕ} {ms : List (Move Bool Entry Act)}
    (hlegal : LegalPlay (W.restrict fromInside) n ms (Config.tick^[n] ⟨s, some e.program, []⟩))
    (hdone : play (W.restrict fromInside) n ms (Config.tick^[n] ⟨s, some e.program, []⟩) =
      ⟨s', none, []⟩) : Returns W e s s' := by
  have h := (@Step.ticks _ _ _ _ _ (W.restrict fromInside) ⟨s, some e.program, []⟩ n).trans
    hlegal.steps
  rw [hdone] at h
  exact h

/-! ### What is done for some of the connections -/

/-- A query was expired by the timer. -/
def Event.isExpire : Event → Bool
  | .expire _ => true
  | .start _ _ | .check _ => false

/-- How many queries the timer has expired. -/
def Client.expiries (s : Client) : ℕ := s.log.countP Event.isExpire

/-- Nothing is changed but the queue, the clock and the record of the run. -/
structure SameConnections (s s' : Client) : Prop where
  conn : s'.conn = s.conn
  client : s'.client = s.client
  connections : s'.connections = s.connections
  badConnections : s'.badConnections = s.badConnections
  nextPtr : s'.nextPtr = s.nextPtr
  connected : s'.connected = s.connected
  expiries : s'.expiries = s.expiries

theorem SameConnections.refl (s : Client) : SameConnections s s :=
  ⟨rfl, rfl, rfl, rfl, rfl, rfl, rfl⟩

/-- What is done for connections that satisfy `P` does not affect `J`. -/
structure Harmless (acts : Client → Act → Prop) (P : ConnPtr → Prop) (J : Client → Prop) :
    Prop where
  /-- The free connections are such ones. -/
  free : ∀ {s x}, J s → s.isFree x = true → P x
  /-- The queue changes. -/
  same : ∀ {s s'}, J s → SameConnections s s' → J s'
  /-- The client changes such a connection, but not its status. -/
  touch : ∀ {s x d}, J s → P x → d.status = (s.conn x).status → J (s.setConn x d)
  /-- A hook of such a connection changes it. -/
  act : ∀ {s x d}, J s → P x → acts s (.hook x d) → J (s.setConn x d)

namespace Harmless

variable {acts : Client → Act → Prop} {replies : List Call → Bool → Client → Prop}
  {P : ConnPtr → Prop} {J : Client → Prop} {cs : List Call} {s s' : Client} {c : ConnPtr}

/-- The contract while hooks of such connections run. -/
def contract (P : ConnPtr → Prop) (J : Client → Prop) : Contract Client Call where
  moment := fun _ => True
  boundary := fun cs s => J s ∧ ∀ x, Hooked cs x → P x
  later := fun _ _ => True

/-- The verification condition of what is run for such connections. -/
abbrev Keeps (acts : Client → Act → Prop) (replies : List Call → Bool → Client → Prop)
    (P : ConnPtr → Prop) (J : Client → Prop) (cs : List Call) {α : Type} (p : DbProg α)
    (s : Client) : Prop :=
  p.Safe ((underRules acts replies).restrict fromInside) (contract P J) cs (fun _ s' => J s') s

/-- A call on account of such a connection, or of `OnResult`. -/
theorem ask (hP : ∀ x, Hooked cs x → P x) (hs : J s) (k : Call) (hk : ∀ x, k.owner = some x → P x)
    {Q : Bool → Client → Prop} (hQ : ∀ r s', J s' → Q r s') :
    (Prog.ask k : DbProg Bool).Safe ((underRules acts replies).restrict fromInside)
      (contract P J) cs Q s := by
  refine ⟨⟨hs, fun x hx => ?_⟩, fun r s' _ h' _ => hQ r s' h'.1⟩
  rcases hooked_cons.mp hx with hx | hx
  · exact hk x hx
  · exact hP x hx

variable (hJ : Harmless acts P J)

include hJ

theorem attach (hs : J s) (hc : P c) (q : QueryData) : J (s.attach c q) := by
  refine hJ.same (hJ.touch (d := { s.conn c with query := some q }) hs hc rfl)
    ⟨rfl, rfl, rfl, rfl, rfl, rfl, ?_⟩
  simp [Client.expiries, Client.attach, Client.setConn, Event.isExpire]

theorem start (hs : J s) (hc : P c) (q : QueryData) : J (s.start c q) :=
  hJ.same (hJ.attach hs hc q) ⟨rfl, rfl, rfl, rfl, rfl, rfl, rfl⟩

theorem next (hs : J s) (hc : P c) (q : QueryData) : J (s.next c q) :=
  hJ.same (hJ.attach hs hc q) ⟨rfl, rfl, rfl, rfl, rfl, rfl, rfl⟩

theorem take (hs : J s) (hc : P c) (q : QueryData) : J (s.take c q) :=
  hJ.same (hJ.touch (d := { s.conn c with query := none }) hs hc rfl)
    ⟨rfl, rfl, rfl, rfl, rfl, rfl, rfl⟩

theorem setTimestamp (hs : J s) (hc : P c) (t : ℤ) : J (s.setTimestamp c t) := hJ.touch hs hc rfl

theorem nextQuery (hP : ∀ x, Hooked cs x → P x) (hs : J s) (hc : P c) :
    Keeps acts replies P J cs (nextQuery c) s := by
  unfold Db.nextQuery
  simp only [Keeps, Prog.safe_bind, Prog.safe_read]
  cases s.queries with
  | nil => exact hs
  | cons q rest =>
    have hown : ∀ x, (Call.doQuery c).owner = some x → P x := by rintro x ⟨⟩; exact hc
    simp only [Prog.safe_bind, Prog.safe_modify, Prog.safe_pure]
    refine ⟨trivial, trivial, ask hP (hJ.next hs hc q) _ hown fun _ s' hs' => ?_⟩
    exact ⟨trivial, trivial, hJ.setTimestamp hs' hc _⟩

theorem refill (hP : ∀ x, Hooked cs x → P x) (hs : J s) :
    Keeps acts replies P J cs (refill c) s := by
  unfold Db.refill
  simp only [Keeps, Prog.safe_bind, Prog.safe_read, Prog.safe_when, Prog.safe_pure]
  exact ⟨fun hfree => hJ.nextQuery hP hs (hJ.free hs hfree), fun _ => hs⟩

theorem result (hP : ∀ x, Hooked cs x → P x) (hs : J s) (hc : P c) :
    Keeps acts replies P J cs (result c) s := by
  unfold Db.result deliver
  simp only [Keeps, Prog.safe_bind, Prog.safe_read]
  cases (s.conn c).query with
  | none => exact hJ.refill hP hs
  | some q =>
    have hown : ∀ x, (Call.onResult c q).owner = some x → P x := by rintro x ⟨⟩
    simp only [Prog.safe_bind, Prog.safe_modify, Prog.safe_pure]
    exact ⟨trivial, trivial, ask hP (hJ.take hs hc q) _ hown fun _ s' hs' => hJ.refill hP hs'⟩

theorem query (hP : ∀ x, Hooked cs x → P x) (hs : J s) (pq : QueryData) :
    Keeps acts replies P J cs (query pq) s := by
  unfold Db.query
  simp only [Keeps, Prog.safe_bind, Prog.safe_read]
  cases hf : s.connections.find? s.isFree with
  | some c =>
    have hc : P c := hJ.free hs (List.find?_some hf)
    have hown : ∀ x, (Call.doQuery c).owner = some x → P x := by rintro x ⟨⟩; exact hc
    simp only [Prog.safe_bind, Prog.safe_modify, Prog.safe_pure]
    refine ⟨trivial, trivial, ask hP (hJ.start hs hc pq) _ hown fun _ s' hs' => ?_⟩
    exact ⟨trivial, trivial, hJ.setTimestamp hs' hc _⟩
  | none =>
    have henqueue : J (s.enqueue pq) := hJ.same hs ⟨rfl, rfl, rfl, rfl, rfl, rfl, rfl⟩
    have hreject : J (s.reject pq) := hJ.same hs ⟨rfl, rfl, rfl, rfl, rfl, rfl, rfl⟩
    split_ifs with hfull
    · exact ⟨trivial, trivial, hreject⟩
    · exact ⟨trivial, trivial, henqueue⟩

/-- `Query`, with the record of what it returns. -/
theorem query_program (hP : ∀ x, Hooked cs x → P x) (hs : J s) (pq : QueryData) :
    Keeps acts replies P J cs (Entry.query pq).program s := by
  show Keeps acts replies P J cs
    (do let ok ← Db.query pq; Prog.modify (·.logReturn pq.id ok)) s
  simp only [Keeps, Prog.safe_bind]
  refine (hJ.query hP hs pq).mono fun ok s' hs' => ?_
  exact ⟨trivial, trivial, hJ.same hs' ⟨rfl, rfl, rfl, rfl, rfl, rfl, rfl⟩⟩

/-- **What is not affected is kept while hooks of such connections run.** -/
theorem invariant :
    Invariant ((underRules acts replies).restrict fromInside) (contract P J) where
  refl := fun _ => trivial
  trans := fun _ _ => trivial
  moment := fun _ _ _ => trivial
  entry := by
    rintro cs s e ⟨hs, hP⟩ ⟨hmay, hne⟩
    cases e with
    | query pq => exact (hJ.query_program hP hs pq).mono fun _ _ hs' => ⟨hs', hP⟩
    | onTimer now => exact absurd hmay hne
    | dataProcessing fd => exact absurd hmay hne
    | result c =>
      -- the hook that calls it is one of such a connection
      have hc : Hooked cs c := by
        rcases hmay with hk | hk
        · exact ⟨_, List.mem_of_head? hk, rfl⟩
        · exact ⟨_, List.mem_of_head? hk, rfl⟩
      exact (hJ.result hP hs (hP c hc)).mono fun _ _ hs' => ⟨hs', hP⟩
  act := by
    rintro cs s a ⟨hs, hP⟩ ⟨hmay, hacts⟩
    refine ⟨⟨?_, hP⟩, trivial⟩
    cases a with
    | clock t => exact hJ.same hs ⟨rfl, rfl, rfl, rfl, rfl, rfl, rfl⟩
    | hook c d =>
      cases cs with
      | nil => simp [mayAct] at hmay
      | cons k cs =>
        have hown : k.owner = some c := by simpa using hmay.1
        exact hJ.act hs (hP c (hooked_cons.mpr (.inl hown))) hacts

/-- What is run for such connections keeps the condition. -/
theorem of_runs {α : Type} {p : DbProg α} {a : α} (hp : Keeps acts replies P J cs p s)
    (h : Runs ((underRules acts replies).restrict fromInside) cs p s a s') : J s' :=
  (h.safe hJ.invariant hp).2

/-- A hook of such a connection keeps it. -/
theorem of_between {k : Call} (hs : J s) (hk : ∀ x, k.owner = some x → P x)
    (h : Between ((underRules acts replies).restrict fromInside) [k] s s') : J s' := by
  refine (h.kept hJ.invariant ⟨hs, fun x hx => ?_⟩).2.1
  obtain ⟨k', hk', hown⟩ := hx
  rw [List.mem_singleton.mp hk'] at hown
  exact hk x hown

/-- So does the code around, when no hook runs. -/
theorem of_idle (hs : J s)
    (h : Between ((underRules acts replies).restrict fromInside) [] s s') : J s' :=
  (h.kept hJ.invariant ⟨hs, fun x hx => absurd hx (not_hooked_nil x)⟩).2.1

end Harmless

/-! ### What is done by a hook that calls nothing -/

/-- A hook that connects or pings calls no member function. -/
def Call.silent : Call → Bool
  | .doConnect _ | .checkConnect _ | .newConnection _ | .doPing _ => true
  | .doQuery _ | .checkResult _ | .onResult _ _ => false

/-- Of the connections only `c` changes, and nothing else does but the clock. -/
structure Alone (c : ConnPtr) (s s' : Client) : Prop where
  client : s'.client = s.client
  connections : s'.connections = s.connections
  badConnections : s'.badConnections = s.badConnections
  nextPtr : s'.nextPtr = s.nextPtr
  connected : s'.connected = s.connected
  queries : s'.queries = s.queries
  accepted : s'.accepted = s.accepted
  expiries : s'.expiries = s.expiries
  other : ∀ x, x ≠ c → s'.conn x = s.conn x

section Alone

variable {acts : Client → Act → Prop} {replies : List Call → Bool → Client → Prop}
  {I : DbConnection → Prop} {s s' s'' : Client} {c : ConnPtr}

theorem Alone.refl (c : ConnPtr) (s : Client) : Alone c s s :=
  ⟨rfl, rfl, rfl, rfl, rfl, rfl, rfl, rfl, fun _ _ => rfl⟩

theorem Alone.setConn (c : ConnPtr) (s : Client) (d : DbConnection) : Alone c s (s.setConn c d) :=
  ⟨rfl, rfl, rfl, rfl, rfl, rfl, rfl, rfl, fun _ hx => s.setConn_conn_of_ne hx d⟩

theorem Alone.trans (h : Alone c s s') (h' : Alone c s' s'') : Alone c s s'' where
  client := h'.client.trans h.client
  connections := h'.connections.trans h.connections
  badConnections := h'.badConnections.trans h.badConnections
  nextPtr := h'.nextPtr.trans h.nextPtr
  connected := h'.connected.trans h.connected
  queries := h'.queries.trans h.queries
  accepted := h'.accepted.trans h.accepted
  expiries := h'.expiries.trans h.expiries
  other := fun x hx => (h'.other x hx).trans (h.other x hx)

/-- The contract while such hooks of `c` run, which keep it in `I`. -/
def whileSilent (c : ConnPtr) (I : DbConnection → Prop) (s₁ : Client) : Contract Client Call where
  moment := fun _ => True
  boundary := fun cs s => (Alone c s₁ s ∧ I (s.conn c)) ∧
    ∀ k ∈ cs, k.owner = some c ∧ k.silent = true
  later := fun _ _ => True

theorem whileSilent_invariant (hI : ∀ {s d}, I (s.conn c) → acts s (.hook c d) →
    d.query.map QueryData.id = (s.conn c).query.map QueryData.id → I d) (s₁ : Client) :
    Invariant ((underRules acts replies).restrict fromInside) (whileSilent c I s₁) where
  refl := fun _ => trivial
  trans := fun _ _ => trivial
  moment := fun _ _ _ => trivial
  entry := by
    -- nothing is called by such a hook
    rintro cs s e ⟨-, hcs⟩ ⟨hmay, hne⟩
    cases cs with
    | nil => exact absurd rfl hne
    | cons k cs =>
      obtain ⟨-, hk⟩ := hcs k List.mem_cons_self
      cases e with
      | query pq =>
        have hres : k.isResult = true := by simpa using hmay.1
        cases k <;> simp [Call.isResult, Call.silent] at hres hk
      | onTimer now => exact absurd hmay (List.cons_ne_nil k cs)
      | dataProcessing fd => exact absurd hmay (List.cons_ne_nil k cs)
      | result x =>
        rcases hmay with h' | h'
        · obtain rfl : k = .doQuery x := Option.some.inj h'
          simp [Call.silent] at hk
        · obtain rfl : k = .checkResult x := Option.some.inj h'
          simp [Call.silent] at hk
  act := by
    rintro cs s a ⟨⟨h, hc⟩, hcs⟩ ⟨hmay, hacts⟩
    refine ⟨⟨?_, hcs⟩, trivial⟩
    cases a with
    | clock t => exact ⟨⟨h.client, h.connections, h.badConnections, h.nextPtr, h.connected,
        h.queries, h.accepted, h.expiries, h.other⟩, hc⟩
    | hook x d =>
      cases cs with
      | nil => simp [mayAct] at hmay
      | cons k cs =>
        have hown : k.owner = some x := by simpa using hmay.1
        obtain ⟨hk, -⟩ := hcs k List.mem_cons_self
        obtain rfl : x = c := Option.some.inj (hown.symm.trans hk)
        refine ⟨h.trans (.setConn x s d), ?_⟩
        show I ((s.setConn x d).conn x)
        rw [Client.setConn_conn_self]
        exact hI hc hacts hmay.2.2

/-- **A hook that calls nothing changes its own connection alone.** -/
theorem alone_of_between (hI : ∀ {s d}, I (s.conn c) → acts s (.hook c d) →
      d.query.map QueryData.id = (s.conn c).query.map QueryData.id → I d) (hc : I (s.conn c))
    {k : Call} (hk : k.owner = some c) (hsilent : k.silent = true)
    (h : Between ((underRules acts replies).restrict fromInside) [k] s s') :
    Alone c s s' ∧ I (s'.conn c) := by
  have hkept := h.kept (whileSilent_invariant hI s)
    ⟨⟨.refl c s, hc⟩, fun k' hk' => by rw [List.mem_singleton.mp hk']; exact ⟨hk, hsilent⟩⟩
  exact hkept.2.1

end Alone

/-! ### Counting down -/

/-- Of what `count` counts `n` is gone, but for what those events have brought that `cost`
counts; and the connections are in order, and as many. -/
structure Falls (count cost : Client → ℕ) (n : ℕ) (s s' : Client) : Prop where
  owned : s'.Owned
  length : s'.connections.length = s.connections.length
  le : n + count s' + cost s ≤ count s + cost s'

section Falls

variable {count cost : Client → ℕ} {m n : ℕ} {s s' s'' : Client}

theorem Falls.trans (h : Falls count cost m s s') (h' : Falls count cost n s' s'') :
    Falls count cost (m + n) s s'' := by
  have hle := h.le
  have hle' := h'.le
  exact ⟨h'.owned, h'.length.trans h.length, by omega⟩

theorem Falls.weaken (h : Falls count cost n s s') : Falls count cost 0 s s' := by
  have hle := h.le
  exact ⟨h.owned, h.length, by omega⟩

end Falls

/-- The connections are the same. -/
theorem owned_congr {s s' : Client} (hs : s.Owned) (hc : s'.connections = s.connections)
    (hb : s'.badConnections = s.badConnections) (hn : s'.nextPtr = s.nextPtr) : s'.Owned :=
  ⟨by rw [hc, hb]; exact hs.nodup, by rw [hc, hb, hn]; exact hs.bound⟩

/-- The connections that are past their time have been erased. -/
theorem owned_sweep {s : Client} (hs : s.Owned) (now : ℤ) : (s.sweep now).Owned := by
  have hsub : (s.connections ++ (s.sweep now).badConnections).Sublist
      (s.connections ++ s.badConnections) := List.Sublist.append_left List.filter_sublist _
  exact ⟨hs.nodup.sublist hsub, fun c hc => hs.bound c (hsub.subset hc)⟩

/-- A connection has been replaced. -/
theorem owned_retire {s : Client} {c : ConnPtr} {i : ℕ} (hs : s.Owned)
    (hi : s.connections[i]? = some c) (now : ℤ) : (s.retire i c now).Owned := by
  have hbase : Base freeHooks [] s := ⟨hs.nodup, hs.bound, by simp, fun x hx =>
    absurd hx (not_frozen_nil x)⟩
  have hretire := hbase.retire hi now
  exact ⟨hretire.nodup, hretire.bound⟩

/-! ### A client that has lost its connection -/

/-- A client with one connection, which has failed. -/
def cutOff : Client := .ofConnections ⟨10, 5, 5⟩ [⟨-1, 0, .error, none⟩]

/-- It has been replaced. -/
def replaced : Client := (cutOff.setConnected false).retire 0 0 6

end Db
end PeeledOrange
