import PeeledOrange.Server.Run

/-!
# Descriptors as resources of the kernel

A descriptor is a number that the kernel gives out and takes back.  `accept` gives
one out, for the object that is then made for it, and the destructor of that object
takes it back; in between it is open, and the kernel does not give the same number
out again.  Of a descriptor the server knows only what is in its maps, so it has to
be shown that the open ones are those in the maps and those the ports listen on.

## Main definitions

* `Process` — the server, with the descriptors that `accept` has returned to it.
* `Process.IsOpen`, `Process.closes` — open descriptors; how often one was closed.
* `Process.Step` — the events, the timer, and expiry passes of any kind.

## Main results

* `made_onTimer`, `made_of_follows` — what is destroyed was alive, and what is alive
  was made.
* `Process.descriptors_of_run` — **in every run each descriptor in a map is open and has
  a unique owner, and each accepted one in no map has been closed exactly once.**
-/

namespace PeeledOrange
namespace Server

/-! ### Objects that were made -/

namespace TCPServer

variable {s s' : TCPServer} {k fd : ℤ}

/-- How often an object with this identity has been made: it is alive, or it has been
destroyed. -/
def made (s : TCPServer) (id : ℕ) : ℕ :=
  s.log.count (.destroy id) + if id ∈ s.live then 1 else 0

theorem made_eraseConnection (h : s.Owned) (id : ℕ) :
    (s.eraseConnection k fd).made id = s.made id := by
  cases hc : s.find? k fd with
  | none => rw [eraseConnection_of_none hc]
  | some c =>
    have hlive := h.mem_live hc
    rw [eraseConnection_of_find? hc]
    show (s.log ++ [Event.destroy c.id]).count (Event.destroy id) +
      (if id ∈ s.live.filter (· ≠ c.id) then 1 else 0) = s.made id
    rw [made, List.count_append]
    by_cases hid : id = c.id
    · subst hid
      simp [hlive]
    · simp [hid, Ne.symm hid]

theorem made_eraseAll (id : ℕ) (l : List (ℤ × ℤ)) : ∀ {s : TCPServer}, s.Owned →
    (s.eraseAll l).made id = s.made id := by
  induction l with
  | nil => intro s _; rfl
  | cons m l ih =>
    intro s h
    exact (ih (h.eraseConnection m.1 m.2)).trans (made_eraseConnection h id)

/-- `EraseExpiredConnections` destroys only what is alive. -/
theorem made_eraseExpiredConnections (h : s.Owned) (hok : s.eraseExpiredConnections = .ok s')
    (id : ℕ) : s'.made id = s.made id := by
  unfold eraseExpiredConnections at hok
  split at hok
  · cases hok
  · rename_i t counter hscan
    obtain ⟨x, rfl⟩ := scanPorts_eq h hscan
    have hmade : ((s.eraseAll s.expiredEntries).pointTo x).made id = s.made id :=
      made_eraseAll id _ h
    cases hok
    split_ifs <;> exact hmade

/-- `OnTimer` destroys only what is alive. -/
theorem made_onTimer (h : s.Owned) {time : ℕ} (hok : s.onTimer time = .ok s') (id : ℕ) :
    s'.made id = s.made id := by
  unfold onTimer at hok
  simp only at hok
  split_ifs at hok
  · exact made_eraseExpiredConnections (s := { s with nowTime := time, currentTime := time })
      (h.congr rfl rfl rfl) hok id
  · exact made_eraseExpiredConnections (s := { s with nowTime := time })
      (h.congr rfl rfl rfl) hok id
  · cases hok
    rfl

theorem count_destroy_events {f : Effect} {n id : ℕ} :
    (f.events n).count (.destroy id) =
      (if f = .refuse ∧ id = n then 1 else 0) + if f.parted = some id then 1 else 0 := by
  cases f with
  | handle k fd id' called => cases called <;> simp [Effect.events, Effect.parted, uses]
  | part k fd id' called =>
    rcases called with _ | _ | _ <;>
      simp [Effect.events, Effect.parted, uses, parting, List.count_cons]
  | refuse => simp [Effect.events, Effect.parted, List.count_cons, @eq_comm _ id]
  | _ => simp [Effect.events, Effect.parted]

/-- An event makes an object if `accept` returns a descriptor, and destroys only what is
alive. -/
theorem made_of_follows (h : s.Owned) {e : Occurred} (hf : Follows s s' (s.effect e)) (id : ℕ) :
    s'.made id = s.made id + if (s.effect e).created ≠ none ∧ id = s.nextId then 1 else 0 := by
  have hnew : s.nextId ∉ s.live := fun hmem => Nat.lt_irrefl _ (h.fresh hmem)
  have hlog : s'.log.count (.destroy id) =
      s.log.count (.destroy id) + ((s.effect e).events s.nextId).count (.destroy id) := by
    rw [hf.log, List.count_append]
  have hmem : id ∈ s'.live ↔ id ∈ (s.effect e).live s.nextId s.live := by rw [hf.live]
  rw [made, hlog, count_destroy_events, made]
  cases heff : s.effect e with
  | part k fd id' called =>
    rw [heff, Effect.live, List.mem_filter, decide_eq_true_eq] at hmem
    have hparted : (s.effect e).parted = some id' := by rw [heff]; rfl
    have hlive : id' ∈ s.live := by
      obtain ⟨-, k', hk', -⟩ := parted_effect hparted
      obtain ⟨c, hc, rfl⟩ := Option.map_eq_some_iff.mp hk'
      exact h.mem_live hc
    by_cases hid : id = id'
    · subst hid
      simp [Effect.parted, Effect.created, hmem, hlive]
    · simp [Effect.parted, Effect.created, hmem, hid, Ne.symm hid]
  | accept k fd =>
    rw [heff, Effect.live, List.mem_cons] at hmem
    by_cases hid : id = s.nextId
    · subst hid
      simp [Effect.parted, Effect.created, hmem, hnew]
    · simp [Effect.parted, Effect.created, hmem, hid]
  | refuse =>
    rw [heff, Effect.live] at hmem
    by_cases hid : id = s.nextId
    · subst hid
      simp [Effect.parted, Effect.created, hmem, hnew]
    · simp [Effect.parted, Effect.created, hmem, hid]
  | _ =>
    rw [heff, Effect.live] at hmem
    simp [Effect.parted, Effect.created, hmem]

/-! ### What `accept` returns -/

/-- What `accept` returns, if it is called. -/
def accepts (s : TCPServer) (e : Occurred) : Option ℤ :=
  if e.hangUp = false ∧ s.port? e.fd ≠ none then e.outside.accepted else none

/-- What `accept` would return does not matter if it is not called. -/
def unasked (s : TCPServer) (e : Occurred) : Occurred :=
  { e with outside := { e.outside with accepted := s.accepts e } }

theorem onOccurred_unasked (e : Occurred) : s.onOccurred (s.unasked e) = s.onOccurred e := by
  unfold onOccurred onEvent unasked accepts
  cases e.hangUp with
  | true => rfl
  | false =>
    cases s.port? e.fd with
    | none => simp [processConnection]
    | some sp => simp [acceptConnection]

theorem effect_unasked (e : Occurred) : s.effect (s.unasked e) = s.effect e := by
  unfold effect unasked accepts
  cases e.hangUp with
  | true => rfl
  | false =>
    cases s.port? e.fd with
    | none => simp
    | some sp => simp

/-- The server follows the abstract step if `accept`, when it is called, returns an unused
descriptor. -/
theorem follows_of_accepts (h : s.Owned) {e : Occurred}
    (hfd : ∀ fd, s.accepts e = some fd → s.Unused fd) :
    Follows s (s.onOccurred e) (s.effect e) := by
  have hlegal : s.Legal (s.unasked e) := hfd
  have hf := follows_onOccurred h hlegal
  rwa [onOccurred_unasked, effect_unasked] at hf

/-- A connection is made if and only if `accept` returns a descriptor. -/
theorem created_eq_none_iff {e : Occurred} : (s.effect e).created = none ↔ s.accepts e = none := by
  unfold effect accepts
  cases e.hangUp with
  | true => cases s.getContext e.fd <;> simp [Effect.created]
  | false =>
    cases s.port? e.fd with
    | none =>
      cases s.getContext e.fd with
      | none => simp [Effect.created]
      | some r =>
        have hnone : ¬((false = false) ∧ (none : Option ServerPort) ≠ none) := by simp
        rw [if_neg hnone]
        simp only [Bool.false_eq_true, if_false]
        split_ifs <;> simp [Effect.created]
    | some sp =>
      cases e.outside.accepted with
      | none => simp [Effect.created]
      | some sockFd => cases e.outside.added <;> simp [Effect.created]

/-- An owner is there already, or it is the new connection. -/
theorem owner_of_follows {e : Occurred} (hf : Follows s s' (s.effect e)) {id : ℕ}
    (hid : s'.owner k fd = some id) :
    s.owner k fd = some id ∨ id = s.nextId ∧ s.accepts e = some fd := by
  rw [hf.owner] at hid
  cases heff : s.effect e with
  | accept k' fd' =>
    rw [heff, Effect.owner] at hid
    split_ifs at hid with heq
    · obtain ⟨rfl, rfl⟩ := heq
      obtain ⟨rfl, hup, hport, hacc, -⟩ := effect_eq_accept_iff.mp heff
      refine .inr ⟨(Option.some.inj hid).symm, ?_⟩
      rw [accepts, if_pos ⟨hup, hport⟩, hacc]
    · exact .inl hid
  | part k' fd' id' called =>
    rw [heff, Effect.owner] at hid
    split_ifs at hid
    exact .inl hid
  | _ =>
    rw [heff] at hid
    exact .inl hid

end TCPServer

/-! ### The descriptors of the process -/

/-- The server, with what `accept` has returned to it and the identities of the objects
made for that. -/
structure Process where
  server : TCPServer
  accepted : List (ℕ × ℤ)

namespace Process

/-- How often the descriptor of this object has been closed: its destructor does it. -/
def closes (p : Process) (id : ℕ) : ℕ := p.server.log.count (.destroy id)

/-- A port listens on the descriptor, or it was accepted and has not been closed since. -/
def IsOpen (p : Process) (fd : ℤ) : Prop :=
  p.server.port? fd ≠ none ∨ ∃ id, (id, fd) ∈ p.accepted ∧ p.closes id = 0

/-- An event is passed on. -/
def onOccurred (p : Process) (e : Occurred) : Process where
  server := p.server.onOccurred e
  accepted := p.accepted ++ (p.server.accepts e).toList.map fun fd => (p.server.nextId, fd)

/-- These connections of a port are erased. -/
def expire (p : Process) (k : ℤ) (fds : List ℤ) : Process :=
  { p with server := p.server.eraseAll (fds.map (k, ·)) }

/-- What can happen: `OnTimer`, an expiry pass that erases any connections of a port, and
any event; if `accept` returns a descriptor, it is one that is not open. -/
inductive Step : Process → Process → Prop
  | timer {p : Process} {s' : TCPServer} (time : ℕ) : p.server.onTimer time = .ok s' →
      Step p { p with server := s' }
  | expire {p : Process} (k : ℤ) (fds : List ℤ) : Step p (p.expire k fds)
  | event {p : Process} (e : Occurred) :
      (∀ fd, p.server.accepts e = some fd → 0 ≤ fd ∧ ¬p.IsOpen fd) → Step p (p.onOccurred e)

/-- What can be reached from a server before it has started. -/
def Run (s₀ : TCPServer) : Process → Prop := Relation.ReflTransGen Step ⟨s₀, []⟩

/-- Who owns a descriptor, and what has become of those that no one owns. -/
structure Descriptors (p : Process) : Prop where
  /-- A descriptor is a key of one map at most. -/
  port : ∀ {k k' fd : ℤ} {c c' : Connection}, p.server.find? k fd = some c →
    p.server.find? k' fd = some c' → k = k'
  /-- It is the descriptor of its connection. -/
  key : ∀ {k fd : ℤ} {c : Connection}, p.server.find? k fd = some c → c.data.sockFd = fd
  /-- It was accepted for that connection, and has not been closed. -/
  isOpen : ∀ {k fd : ℤ} {c : Connection}, p.server.find? k fd = some c →
    p.IsOpen fd ∧ (c.id, fd) ∈ p.accepted ∧ p.closes c.id = 0
  /-- No port listens on it. -/
  listening : ∀ {k fd : ℤ} {c : Connection}, p.server.find? k fd = some c →
    p.server.port? fd = none
  /-- `getContext` finds the connection. -/
  context : ∀ {k fd : ℤ} {c : Connection}, p.server.find? k fd = some c →
    ∃ sp, p.server.port? k = some sp ∧ p.server.getContext fd = some (k, sp, c)
  /-- One that was accepted and is in no map has been closed exactly once. -/
  closed : ∀ {id : ℕ} {fd : ℤ}, (id, fd) ∈ p.accepted →
    (∀ k c, p.server.find? k fd = some c → c.id ≠ id) → p.closes id = 1

/-- The invariant: an object was made exactly once if something was accepted for it, and
else not at all, and the objects in the maps are under what was accepted for them. -/
structure Managed (p : Process) : Prop where
  owned : p.server.Owned
  owner : ∀ {k fd id}, p.server.owner k fd = some id → (id, fd) ∈ p.accepted
  unique : ∀ {id fd fd'}, (id, fd) ∈ p.accepted → (id, fd') ∈ p.accepted → fd = fd'
  made : ∀ {id fd}, (id, fd) ∈ p.accepted → p.server.made id = 1
  fresh : ∀ {id fd}, (id, fd) ∈ p.accepted → id < p.server.nextId
  unmade : ∀ {id}, p.server.nextId ≤ id → p.server.made id = 0

namespace Managed

variable {p : Process} {s' : TCPServer}

theorem of_initial {s₀ : TCPServer} (h : s₀.Initial) : Managed ⟨s₀, []⟩ where
  owned := h.owned
  owner := fun hid => by
    rw [TCPServer.owner, h.connections] at hid
    cases hid
  unique := fun hid => by cases hid
  made := fun hid => by cases hid
  fresh := fun hid => by cases hid
  unmade := fun _ => by simp [TCPServer.made, h.log, h.live]

/-- What is in a map was not closed. -/
theorem closes_eq_zero (h : p.Managed) {k fd : ℤ} {c : Connection}
    (hc : p.server.find? k fd = some c) : p.closes c.id = 0 := by
  have hmade := h.made (h.owner (TCPServer.owner_eq_some hc))
  rw [TCPServer.made, if_pos (h.owned.mem_live hc)] at hmade
  exact Nat.succ.inj hmade

theorem isOpen (h : p.Managed) {k fd : ℤ} {c : Connection} (hc : p.server.find? k fd = some c) :
    p.IsOpen fd :=
  .inr ⟨c.id, h.owner (TCPServer.owner_eq_some hc), h.closes_eq_zero hc⟩

/-- A descriptor that is not open is not used by the server. -/
theorem unused (h : p.Managed) {fd : ℤ} (hfd : 0 ≤ fd) (hopen : ¬p.IsOpen fd) :
    p.server.Unused fd where
  nonneg := hfd
  port := not_not.mp fun hport => hopen (.inl hport)
  connection := fun k => by
    cases hc : p.server.find? k fd with
    | none => rfl
    | some c => exact absurd (h.isOpen hc) hopen

theorem descriptors (h : p.Managed) : p.Descriptors where
  port := h.owned.port
  key := fun hc => (h.owned.key hc).1
  isOpen := fun hc =>
    ⟨h.isOpen hc, h.owner (TCPServer.owner_eq_some hc), h.closes_eq_zero hc⟩
  listening := fun hc => (h.owned.key hc).2.2
  context := fun hc => by
    obtain ⟨sp, hsp, -⟩ := Option.bind_eq_some_iff.mp hc
    exact ⟨sp, hsp, (TCPServer.getContext_eq_some_iff h.owned).mpr ⟨hsp, hc⟩⟩
  closed := by
    intro id fd hid hnone
    -- an object that is alive is in a map, under the descriptor it was made for
    have hdead : id ∉ p.server.live := fun hlive => by
      obtain ⟨k, fd', c, hc, rfl⟩ := h.owned.live.mp hlive
      obtain rfl := h.unique hid (h.owner (TCPServer.owner_eq_some hc))
      exact hnone k c hc rfl
    have hmade := h.made hid
    rwa [TCPServer.made, if_neg hdead] at hmade

/-- Entries are erased, and nothing but the objects in them is destroyed. -/
theorem erase (h : p.Managed) {l : List (ℤ × ℤ)} (he : TCPServer.Erases p.server s' l)
    (hmade : ∀ id, s'.made id = p.server.made id) : Managed { p with server := s' } where
  owned := he.owned
  owner := fun {k fd id} hid => by
    change s'.owner k fd = some id at hid
    rw [TCPServer.owner, he.find?] at hid
    split_ifs at hid
    · cases hid
    · exact h.owner hid
  unique := h.unique
  made := fun hid => (hmade _).trans (h.made hid)
  fresh := fun hid => by
    show _ < s'.nextId
    rw [he.nextId]
    exact h.fresh hid
  unmade := fun hid => by
    change s'.nextId ≤ _ at hid
    rw [he.nextId] at hid
    exact (hmade _).trans (h.unmade hid)

/-- A descriptor is accepted or not. -/
theorem mem_accepted {e : Occurred} {id : ℕ} {fd : ℤ} :
    (id, fd) ∈ (p.onOccurred e).accepted ↔
      (id, fd) ∈ p.accepted ∨ id = p.server.nextId ∧ p.server.accepts e = some fd := by
  simp only [onOccurred, List.mem_append, List.mem_map, Option.mem_toList, Prod.mk.injEq]
  refine or_congr_right ⟨?_, ?_⟩
  · rintro ⟨fd', hfd, rfl, rfl⟩
    exact ⟨rfl, hfd⟩
  · rintro ⟨rfl, hfd⟩
    exact ⟨fd, hfd, rfl, rfl⟩

theorem onOccurred (h : p.Managed) {e : Occurred}
    (hfd : ∀ fd, p.server.accepts e = some fd → 0 ≤ fd ∧ ¬p.IsOpen fd) :
    (p.onOccurred e).Managed := by
  have hf := TCPServer.follows_of_accepts h.owned fun fd hacc =>
    h.unused (hfd fd hacc).1 (hfd fd hacc).2
  have hmade := TCPServer.made_of_follows h.owned hf
  have hnext : (p.server.onOccurred e).nextId =
      if p.server.accepts e = none then p.server.nextId else p.server.nextId + 1 := by
    rw [hf.nextId]
    simp only [← TCPServer.created_eq_none_iff]
    cases p.server.effect e <;> simp [Effect.next, Effect.created]
  refine ⟨hf.owned, fun hid => ?_, fun hid hid' => ?_, fun {id fd} hid => ?_, fun {id fd} hid => ?_,
    fun {id} hid => ?_⟩
  · -- the owner of an entry has been accepted at it
    refine mem_accepted.mpr ?_
    rcases TCPServer.owner_of_follows hf hid with hold | hnew
    · exact .inl (h.owner hold)
    · exact .inr hnew
  · -- and at no other one, as an object that is accepted is new
    rcases mem_accepted.mp hid with hold | ⟨rfl, hacc⟩ <;>
      rcases mem_accepted.mp hid' with hold' | ⟨heq, hacc'⟩
    · exact h.unique hold hold'
    · exact absurd (heq ▸ h.fresh hold) (Nat.lt_irrefl _)
    · exact absurd (h.fresh hold') (Nat.lt_irrefl _)
    · exact Option.some.inj (hacc.symm.trans hacc')
  · -- it has been made once
    show (p.server.onOccurred e).made id = 1
    rw [hmade]
    rcases mem_accepted.mp hid with hold | ⟨rfl, hacc⟩
    · rw [if_neg fun hnew => absurd (hnew.2 ▸ h.fresh hold) (Nat.lt_irrefl _)]
      exact h.made hold
    · have hnew : (p.server.effect e).created ≠ none := fun hnone => by
        rw [TCPServer.created_eq_none_iff, hacc] at hnone
        cases hnone
      rw [if_pos ⟨hnew, rfl⟩, h.unmade (Nat.le_refl _)]
  · show id < (p.server.onOccurred e).nextId
    rw [hnext]
    rcases mem_accepted.mp hid with hold | ⟨rfl, hacc⟩
    · have hlt := h.fresh hold
      split_ifs
      · exact hlt
      · exact Nat.lt_succ_of_lt hlt
    · rw [if_neg (by simp [hacc])]
      exact Nat.lt_succ_self _
  · -- the objects to come have not been made
    change (p.server.onOccurred e).nextId ≤ id at hid
    show (p.server.onOccurred e).made id = 0
    rw [hnext] at hid
    rw [hmade, if_neg, h.unmade]
    · split_ifs at hid
      · exact hid
      · exact Nat.le_of_succ_le hid
    · rintro ⟨hnew, rfl⟩
      rw [if_neg (mt TCPServer.created_eq_none_iff.mpr hnew)] at hid
      omega

theorem step (h : p.Managed) {p' : Process} (hs : Step p p') : p'.Managed := by
  cases hs with
  | timer time hok =>
    exact h.erase (TCPServer.erases_onTimer h.owned hok) (TCPServer.made_onTimer h.owned hok)
  | expire k fds =>
    exact h.erase (TCPServer.erases_eraseAll _ h.owned)
      fun id => TCPServer.made_eraseAll id _ h.owned
  | event e hfd => exact h.onOccurred hfd

end Managed

/-- **Descriptor ownership.**  In every run in which `accept` returns only descriptors that
are not open, a descriptor in a map is in that map only, is the one of its connection,
is open, and is not one that a port listens on, and `getContext` finds the connection;
and every accepted descriptor that is in no map has been closed exactly once. -/
theorem descriptors_of_run {s₀ : TCPServer} (h₀ : s₀.Initial) {p : Process} (h : Run s₀ p) :
    p.Descriptors := by
  have hmanaged : p.Managed := by
    induction h with
    | refl => exact .of_initial h₀
    | tail _ hs ih => exact ih.step hs
  exact hmanaged.descriptors

/-- A connection is accepted and erased, and another one gets its descriptor. -/
def reusing : Process :=
  (((Process.mk echoServer []).onOccurred (accepting 5 true)).expire 3 [5]).onOccurred
    (accepting 5 true)

theorem descriptors_reusing : reusing.accepted = [(0, 5), (1, 5)] ∧ reusing.closes 0 = 1 ∧
    reusing.Descriptors := by
  have haccept : Step ⟨echoServer, []⟩ _ := .event (accepting 5 true) fun fd hfd => by
    obtain rfl : (5 : ℤ) = fd := Option.some.inj hfd
    refine ⟨by decide, ?_⟩
    rintro (hport | ⟨_, hmem, -⟩)
    · exact hport rfl
    · cases hmem
  have herase : Step ((Process.mk echoServer []).onOccurred (accepting 5 true)) _ := .expire 3 [5]
  have hreuse : Step (((Process.mk echoServer []).onOccurred (accepting 5 true)).expire 3 [5])
      reusing := .event (accepting 5 true) fun fd hfd => by
    obtain rfl : (5 : ℤ) = fd := Option.some.inj hfd
    refine ⟨by decide, ?_⟩
    rintro (hport | ⟨_, hmem, hzero⟩)
    · exact hport rfl
    · cases List.mem_singleton.mp hmem
      exact absurd hzero (by decide +kernel)
  have hrun : Run echoServer reusing :=
    ((Relation.ReflTransGen.single haccept).tail herase).tail hreuse
  exact ⟨by decide +kernel, by decide +kernel, descriptors_of_run initial_echoServer hrun⟩

end Process

end Server
end PeeledOrange
