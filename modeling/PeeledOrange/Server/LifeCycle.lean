import PeeledOrange.Server.Run

/-!
# The notifications of a connection

`OnConnect` is called for every connection that is accepted.  Whether `OnDisconnect`
is called for it when it is gone depends on the way it goes: `Disconnect` calls it,
but a connection that `epoll` refuses is only destroyed, and so are those that are
timed out.

## Main definitions

* `connects`, `disconnects` — the notifications of a connection in a record.
* `TCPServer.Paired` — every connection that is gone was told so, once.
* `Input.Announced` — the input does not take a connection away in silence.
* `TCPServer.Turn` — a step, seen as what it does to the connections there are.

## Main results

* `paired_iff_announced` — **the notifications pair up in exactly the runs in which
  every input is announced.**
* `not_paired_of_silence` — a run in which they do not.
-/

namespace PeeledOrange
namespace Server

/-! ### The notifications -/

/-- `OnConnect` has been called for the connection. -/
def connects (log : List Event) (id : ℕ) : Prop := ∃ live, .call .onConnect id live ∈ log

/-- A call of `OnDisconnect` for the connection. -/
def Event.isDisconnect (id : ℕ) : Event → Bool
  | .call .onDisconnect id' _ => id' == id
  | _ => false

/-- How often `OnDisconnect` has been called for the connection. -/
def disconnects (log : List Event) (id : ℕ) : ℕ := log.countP (·.isDisconnect id)

theorem connects_append {log log' : List Event} {id : ℕ} :
    connects (log ++ log') id ↔ connects log id ∨ connects log' id := by
  simp only [connects, List.mem_append, exists_or]

theorem disconnects_append {log log' : List Event} {id : ℕ} :
    disconnects (log ++ log') id = disconnects log id + disconnects log' id :=
  List.countP_append

theorem connects_events {f : Effect} {n id : ℕ} :
    connects (f.events n) id ↔ f.created ≠ none ∧ id = n := by
  cases f with
  | handle k fd id' called => cases called <;> simp [connects, Effect.events, Effect.created, uses]
  | part k fd id' called =>
    rcases called with _ | _ | _ <;>
      simp [connects, Effect.events, Effect.created, uses, parting]
  | _ => simp [connects, Effect.events, Effect.created]

theorem disconnects_events {f : Effect} {n id : ℕ} :
    disconnects (f.events n) id = if f.parted = some id then 1 else 0 := by
  cases f with
  | handle k fd id' called => cases called <;> rfl
  | part k fd id' called =>
    rcases called with _ | _ | _ <;>
      simp [disconnects, Effect.events, Effect.parted, uses, parting, Event.isDisconnect,
        List.countP_cons]
  | _ => rfl

theorem not_connects_destroy {ids : List ℕ} {id : ℕ} : ¬connects (ids.map .destroy) id := by
  simp [connects]

theorem disconnects_destroy {ids : List ℕ} {id : ℕ} : disconnects (ids.map .destroy) id = 0 := by
  simp [disconnects, List.countP_eq_zero, Event.isDisconnect]

namespace TCPServer

variable {s s' : TCPServer}

/-- The connection is in the map of a port. -/
def Holds (s : TCPServer) (id : ℕ) : Prop := ∃ k fd, s.owner k fd = some id

/-- Every connection for which `OnConnect` was called and that is gone has had
`OnDisconnect` called for it exactly once. -/
def Paired (s : TCPServer) : Prop :=
  ∀ id, connects s.log id → ¬s.Holds id → disconnects s.log id = 1

theorem holds_iff (h : s.Owned) {id : ℕ} : s.Holds id ↔ id ∈ s.live := by
  simp only [h.live, Holds, owner, Option.map_eq_some_iff]

/-- A connection has one descriptor. -/
theorem owner_inj (h : s.Owned) {k k' fd fd' : ℤ} {id : ℕ} (hid : s.owner k fd = some id)
    (hid' : s.owner k' fd' = some id) : k = k' ∧ fd = fd' := by
  obtain ⟨c, hc, rfl⟩ := Option.map_eq_some_iff.mp hid
  obtain ⟨c', hc', heq⟩ := Option.map_eq_some_iff.mp hid'
  exact h.object hc hc' heq.symm

theorem Holds.lt (h : s.Owned) {id : ℕ} (hid : s.Holds id) : id < s.nextId :=
  h.fresh ((holds_iff h).mp hid)

/-! ### A step -/

/-- A step makes a connection or not, which is kept or not, tells one that it is gone
or none, and takes some away. -/
structure Turn (s s' : TCPServer) (created : Option Bool) (told : Option ℕ) (gone : ℕ → Prop) :
    Prop where
  owned : s'.Owned
  nextId : s'.nextId = if created = none then s.nextId else s.nextId + 1
  connects : ∀ id, connects s'.log id ↔ connects s.log id ∨ created ≠ none ∧ id = s.nextId
  disconnects : ∀ id, disconnects s'.log id =
    disconnects s.log id + if told = some id then 1 else 0
  holds : ∀ id, s'.Holds id ↔ s.Holds id ∧ ¬gone id ∨ created = some true ∧ id = s.nextId
  told : ∀ id, told = some id → s.Holds id ∧ gone id

/-- The abstract steps of the events. -/
theorem turn_of_follows (h : s.Owned) {e : Occurred} (hf : Follows s s' (s.effect e)) :
    Turn s s' (s.effect e).created (s.effect e).parted fun id => (s.effect e).parted = some id := by
  refine ⟨hf.owned, ?_, fun id => ?_, fun id => ?_, fun id => ?_, fun id hid => ?_⟩
  · rw [hf.nextId]
    cases s.effect e <;> simp [Effect.next, Effect.created]
  · rw [hf.log, connects_append, connects_events]
  · rw [hf.log, disconnects_append, disconnects_events]
  · rw [holds_iff hf.owned, hf.live, holds_iff h]
    cases s.effect e with
    | part k fd id' called =>
      simp [Effect.live, Effect.parted, Effect.created, eq_comm (a := id)]
    | accept k fd =>
      simp only [Effect.live, Effect.parted, Effect.created, List.mem_cons, reduceCtorEq,
        not_false_eq_true, and_true, true_and]
      exact or_comm
    | _ => simp [Effect.live, Effect.parted, Effect.created]
  · obtain ⟨-, k, hk, -⟩ := parted_effect hid
    exact ⟨⟨k, e.fd, hk⟩, hid⟩

/-- The timer takes connections away and tells none. -/
theorem turn_of_erases (h : s.Owned) {l : List (ℤ × ℤ)} (he : Erases s s' l) :
    Turn s s' none none fun id => ∃ k fd, (k, fd) ∈ l ∧ s.owner k fd = some id := by
  obtain ⟨ids, hlog⟩ := he.log
  have howner : ∀ k fd, s'.owner k fd = if (k, fd) ∈ l then none else s.owner k fd :=
    fun k fd => by
      rw [owner, he.find?, owner]
      split_ifs <;> rfl
  refine ⟨he.owned, he.nextId, fun id => ?_, fun id => ?_, fun id => ?_, ?_⟩
  · rw [hlog, connects_append]
    simp [not_connects_destroy]
  · rw [hlog, disconnects_append, disconnects_destroy]
    rfl
  · simp only [Holds, howner, reduceCtorEq, false_and, or_false]
    constructor
    · rintro ⟨k, fd, hid⟩
      split_ifs at hid with hmem
      refine ⟨⟨k, fd, hid⟩, ?_⟩
      rintro ⟨k', fd', hmem', hid'⟩
      obtain ⟨rfl, rfl⟩ := owner_inj h hid hid'
      exact hmem hmem'
    · rintro ⟨⟨k, fd, hid⟩, hnot⟩
      exact ⟨k, fd, by rw [if_neg fun hmem => hnot ⟨k, fd, hmem, hid⟩, hid]⟩
  · intro id htold
    cases htold

/-! ### The ledger -/

/-- The invariant: the connections there are have been told that they are there, and
not that they are gone, and the ones to come have not been told anything. -/
structure Ledger (s : TCPServer) : Prop where
  owned : s.Owned
  held : ∀ id, s.Holds id → connects s.log id ∧ disconnects s.log id = 0
  fresh : ∀ id, s.nextId ≤ id → ¬connects s.log id ∧ disconnects s.log id = 0

/-- A connection is gone in silence. -/
def Missed (s : TCPServer) : Prop :=
  ∃ id, connects s.log id ∧ ¬s.Holds id ∧ disconnects s.log id = 0

theorem Missed.not_paired (h : s.Missed) : ¬s.Paired := by
  obtain ⟨id, hcon, hgone, hzero⟩ := h
  intro hpaired
  have hone := hpaired id hcon hgone
  omega

theorem Initial.ledger (h : s.Initial) : s.Ledger where
  owned := h.owned
  held := fun id hid => by
    rw [holds_iff h.owned, h.live] at hid
    cases hid
  fresh := fun id _ => by
    rw [h.log]
    exact ⟨fun ⟨_, hmem⟩ => List.not_mem_nil hmem, rfl⟩

theorem Initial.paired (h : s.Initial) : s.Paired := fun id hcon => by
  rw [h.log] at hcon
  obtain ⟨_, hmem⟩ := hcon
  cases hmem

/-- A connection that has been in the record was not made now. -/
theorem Ledger.ne_nextId (h : s.Ledger) {id : ℕ} (hcon : connects s.log id) : id ≠ s.nextId := by
  rintro rfl
  exact (h.fresh _ (Nat.le_refl _)).1 hcon

namespace Turn

variable {created : Option Bool} {told : Option ℕ} {gone : ℕ → Prop}

theorem ledger (h : s.Ledger) (ht : Turn s s' created told gone) : s'.Ledger where
  owned := ht.owned
  held := fun id hid => by
    rw [ht.connects, ht.disconnects]
    rcases (ht.holds id).mp hid with ⟨hheld, hnot⟩ | ⟨hnew, rfl⟩
    · -- it was there before
      rw [if_neg fun htold => hnot (ht.told id htold).2]
      exact ⟨.inl (h.held id hheld).1, (h.held id hheld).2⟩
    · -- it has just been made
      have hnone : told ≠ some s.nextId := fun htold =>
        Nat.lt_irrefl _ ((ht.told _ htold).1.lt h.owned)
      rw [if_neg hnone]
      exact ⟨.inr ⟨by simp [hnew], rfl⟩, (h.fresh _ (Nat.le_refl _)).2⟩
  fresh := fun id hid => by
    rw [ht.nextId] at hid
    have hle : s.nextId ≤ id := by
      split_ifs at hid <;> omega
    have hnone : told ≠ some id := fun htold =>
      Nat.not_lt.mpr hle ((ht.told id htold).1.lt h.owned)
    rw [ht.connects, ht.disconnects, if_neg hnone]
    refine ⟨?_, (h.fresh id hle).2⟩
    rintro (hcon | ⟨hnew, rfl⟩)
    · exact (h.fresh id hle).1 hcon
    · rw [if_neg hnew] at hid
      omega

/-- If what is made is kept, and what is gone is told so, all stay paired. -/
theorem paired (h : s.Ledger) (hp : s.Paired) (ht : Turn s s' created told gone)
    (hkept : created ≠ some false) (htold : ∀ id, s.Holds id → gone id → told = some id) :
    s'.Paired := by
  intro id hcon hnot
  rw [ht.disconnects]
  rw [ht.holds, not_or] at hnot
  rcases (ht.connects id).mp hcon with hold | ⟨hnew, rfl⟩
  · by_cases hheld : s.Holds id
    · -- it has gone now, and it is told so
      have hgone : gone id := not_not.mp fun hg => hnot.1 ⟨hheld, hg⟩
      rw [if_pos (htold id hheld hgone), (h.held id hheld).2]
    · rw [if_neg fun ht' => hheld (ht.told id ht').1, hp id hold hheld]
  · refine absurd ⟨?_, rfl⟩ hnot.2
    rcases created with _ | _ | _
    · exact absurd rfl hnew
    · exact absurd rfl hkept
    · rfl

/-- What is made and not kept is missed. -/
theorem missed_of_refused (h : s.Ledger) (ht : Turn s s' (some false) told gone) :
    s'.Missed := by
  have hnone : told ≠ some s.nextId := fun htold =>
    Nat.lt_irrefl _ ((ht.told _ htold).1.lt h.owned)
  refine ⟨s.nextId, (ht.connects _).mpr (.inr ⟨by simp, rfl⟩), ?_, ?_⟩
  · rw [ht.holds]
    rintro (⟨hheld, -⟩ | ⟨hnew, -⟩)
    · exact Nat.lt_irrefl _ (hheld.lt h.owned)
    · cases hnew
  · rw [ht.disconnects, if_neg hnone]
    exact (h.fresh _ (Nat.le_refl _)).2

/-- What is gone and not told so is missed. -/
theorem missed_of_silence (h : s.Ledger) (ht : Turn s s' created told gone) {id : ℕ}
    (hheld : s.Holds id) (hgone : gone id) (htold : told ≠ some id) : s'.Missed := by
  have hcon := (h.held id hheld).1
  refine ⟨id, (ht.connects id).mpr (.inl hcon), ?_, ?_⟩
  · rw [ht.holds]
    rintro (⟨-, hnot⟩ | ⟨-, hnew⟩)
    · exact hnot hgone
    · exact h.ne_nextId hcon hnew
  · rw [ht.disconnects, if_neg htold]
    exact (h.held id hheld).2

/-- What is missed stays so. -/
theorem missed (h : s.Ledger) (hm : s.Missed) (ht : Turn s s' created told gone) : s'.Missed := by
  obtain ⟨id, hcon, hnot, hzero⟩ := hm
  refine ⟨id, (ht.connects id).mpr (.inl hcon), ?_, ?_⟩
  · rw [ht.holds]
    rintro (⟨hheld, -⟩ | ⟨-, hnew⟩)
    · exact hnot hheld
    · exact h.ne_nextId hcon hnew
  · rw [ht.disconnects, if_neg fun htold => hnot (ht.told id htold).1]
    exact hzero

end Turn

end TCPServer

/-! ### The runs -/

/-- The input does not take a connection away in silence: `AddFD` does not fail for an
accepted connection, and of what the timer examines nothing is expired. -/
def Input.Announced (s : TCPServer) : Input → Prop
  | .timer time => s.timedOut time = []
  | .event e => ¬s.Refuses e

namespace TCPServer

variable {s₀ s s' : TCPServer} {hist : List (TCPServer × Input)}

theorem Step.turn (h : s.Owned) {i : Input} (hs : s.Step i s') :
    ∃ created told gone, Turn s s' created told gone ∧
      (i.Announced s → created ≠ some false ∧ ∀ id, s.Holds id → gone id → told = some id) ∧
      (¬i.Announced s → created = some false ∨ ∃ id, s.Holds id ∧ gone id ∧ told ≠ some id) := by
  cases i with
  | timer time =>
    refine ⟨none, none, _, turn_of_erases h (erases_onTimer h hs), fun hnil => ⟨by simp, ?_⟩,
      fun hne => .inr ?_⟩
    · rintro id - ⟨k, fd, hmem, -⟩
      rw [show s.timedOut time = [] from hnil] at hmem
      cases hmem
    · obtain ⟨⟨k, fd⟩, hmem⟩ := List.exists_mem_of_ne_nil _ hne
      obtain ⟨c, hc, -⟩ := mem_timedOut hmem
      exact ⟨c.id, ⟨k, fd, owner_eq_some hc⟩, ⟨k, fd, hmem, owner_eq_some hc⟩, by simp⟩
  | event e =>
    obtain ⟨hlegal, rfl⟩ := hs
    have hrefuse : (s.effect e).created = some false ↔ s.Refuses e := by
      rw [← effect_eq_refuse_iff]
      cases s.effect e <;> simp [Effect.created]
    exact ⟨_, _, _, turn_of_follows h (follows_onOccurred h hlegal),
      fun hnot => ⟨fun heq => hnot (hrefuse.mp heq), fun _ _ hgone => hgone⟩,
      fun hnot => .inl (hrefuse.mpr (not_not.mp hnot))⟩

/-- **The notifications pair up in exactly the runs in which every input is
announced.** -/
theorem paired_iff_announced (h₀ : s₀.Initial) (h : s₀.Run hist s) :
    s.Paired ↔ ∀ e ∈ hist, e.2.Announced e.1 := by
  refine h.iff_forall Paired Ledger Missed (fun s i => i.Announced s) ?_ ?_ ?_ ?_
    (fun _ => Missed.not_paired) h₀.ledger h₀.paired
  · intro s i s' hl hs
    obtain ⟨_, _, _, ht, -⟩ := hs.turn hl.owned
    exact ht.ledger hl
  · intro s i s' hl hp hgood hs
    obtain ⟨_, _, _, ht, hkept, -⟩ := hs.turn hl.owned
    exact ht.paired hl hp (hkept hgood).1 (hkept hgood).2
  · intro s i s' hl hbad hs
    obtain ⟨_, _, _, ht, -, hlost⟩ := hs.turn hl.owned
    rcases hlost hbad with rfl | ⟨id, hheld, hgone, htold⟩
    · exact ht.missed_of_refused hl
    · exact ht.missed_of_silence hl hheld hgone htold
  · intro s i s' hl hm hs
    obtain ⟨_, _, _, ht, -⟩ := hs.turn hl.owned
    exact ht.missed hl hm

/-- A connection is accepted, and the handler closes it. -/
def served : TCPServer := (echoServer.onOccurred (accepting 5 true)).onOccurred (reading 5 true)

theorem paired_served : served.Paired ∧ disconnects served.log 0 = 1 := by
  have haccept : echoServer.Step (.event (accepting 5 true)) _ :=
    ⟨legal_accepting (by decide) rfl rfl, rfl⟩
  have hread : (echoServer.onOccurred (accepting 5 true)).Step (.event (reading 5 true)) served :=
    ⟨legal_reading, rfl⟩
  have hrun : echoServer.Run _ served := (History.Run.start.step _ haccept).step _ hread
  refine ⟨(paired_iff_announced initial_echoServer hrun).mpr fun e he => ?_, by decide +kernel⟩
  rcases List.mem_append.mp he with he | he
  · obtain rfl := List.mem_singleton.mp he
    exact fun hrefuses => Bool.noConfusion hrefuses.2.2.2
  · obtain rfl := List.mem_singleton.mp he
    exact fun hrefuses => hrefuses.2.2.1 rfl

/-- A connection is accepted, and nothing is received from it for 100 seconds. -/
def lapsed : TCPServer :=
  ((echoServer.onOccurred (accepting 5 true)).onTimer 100).toOption.getD echoServer

/-- The connection is destroyed, and no one is told. -/
theorem not_paired_of_silence :
    ¬∀ (s₀ s : TCPServer) (hist : List (TCPServer × Input)), s₀.Initial → s₀.Run hist s →
      s.Paired := by
  intro h
  have haccept : echoServer.Step (.event (accepting 5 true)) _ :=
    ⟨legal_accepting (by decide) rfl rfl, rfl⟩
  have hlapse : (echoServer.onOccurred (accepting 5 true)).Step (.timer 100) lapsed := rfl
  have hrun : echoServer.Run _ lapsed := (History.Run.start.step _ haccept).step _ hlapse
  have hpaired := h _ _ _ initial_echoServer hrun
  have howned := Run.owned hrun initial_echoServer
  have hone := hpaired 0 ⟨true, by decide +kernel⟩ fun hheld =>
    absurd ((holds_iff howned).mp hheld) (by decide +kernel)
  exact absurd hone (by decide +kernel)

end TCPServer

end Server
end PeeledOrange
