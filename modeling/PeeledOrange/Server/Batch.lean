import PeeledOrange.Server.Run

/-!
# The events of a batch

An event carries its descriptor, and nothing else.  Between `epoll_wait` and the
event, `OnTimer` and the events before it may have closed the connection that it was
for, and `accept` may have given its descriptor to another one, which then gets the
event.

## Main definitions

* `TCPServer.Takes` — an event at which a descriptor is given to a new connection.
* `TCPServer.recorded` — what a batch adds to the record.
* `TCPServer.DispatchedToOwners` — no event of a batch has gone to another object than
  the one that owned the descriptor.

## Main results

* `mem_recorded_of_owner` — an event for a descriptor goes to the object that has it.
* `dispatchedToOwners_iff_notReused` — **no event of a batch goes astray if and only if
  no descriptor of a later event is given to a new connection.**
* `not_dispatchedToOwners_of_reuse` — a turn of the loop in which one does.
-/

namespace PeeledOrange
namespace Server
namespace TCPServer

variable {s t s' : TCPServer} {e : Occurred} {k fd : ℤ} {id : ℕ}

/-! ### An event -/

/-- An event is dispatched to the owner of its descriptor, if there is one. -/
theorem dispatch_mem_events_iff (h : s.Owned) {n : ℕ} :
    .dispatch fd id ∈ (s.effect e).events n ↔ fd = e.fd ∧ ∃ k, s.owner k e.fd = some id := by
  have huses : ∀ {called : Bool} {id' : ℕ}, .dispatch fd id ∉ uses called id' := by
    intro called id'
    cases called <;> simp [uses]
  by_cases hnone : ∀ k, s.owner k e.fd = none
  · rcases effect_of_no_owner hnone with heff | heff | ⟨sockFd, heff⟩ <;>
      simp [heff, Effect.events, hnone]
  · simp only [not_forall] at hnone
    obtain ⟨k, hk⟩ := hnone
    obtain ⟨id', hid'⟩ := Option.ne_none_iff_exists'.mp hk
    have howner : (∃ k, s.owner k e.fd = some id) ↔ id = id' := by
      constructor
      · rintro ⟨k', hid⟩
        obtain ⟨c, hc, rfl⟩ := Option.map_eq_some_iff.mp hid
        obtain ⟨c', hc', rfl⟩ := Option.map_eq_some_iff.mp hid'
        obtain rfl := h.port hc hc'
        rw [hc] at hc'
        cases hc'
        rfl
      · rintro rfl
        exact ⟨k, hid'⟩
    rw [howner]
    rcases effect_of_owner h hid' with ⟨called, heff⟩ | ⟨called, heff⟩
    · rw [heff]
      rcases called with _ | called
      · simp [Effect.events, parting]
      · simp [Effect.events, parting, huses]
    · rw [heff]
      simp [Effect.events, huses]

/-- A descriptor has its owner from before the event, or is given to a new one. -/
theorem owner_onOccurred (h : s.Owned) (hlegal : s.Legal e)
    (ho : (s.onOccurred e).owner k fd = some id) : s.owner k fd = some id ∨ s.Takes e fd := by
  rw [(follows_onOccurred h hlegal).owner] at ho
  cases heff : s.effect e with
  | accept k' fd' =>
    rw [heff, Effect.owner] at ho
    split_ifs at ho with heq
    · rw [heq.2]
      exact .inr (effect_eq_accept_iff.mp heff).2
    · exact .inl ho
  | part k' fd' id' called =>
    rw [heff, Effect.owner] at ho
    split_ifs at ho
    exact .inl ho
  | _ =>
    rw [heff] at ho
    exact .inl ho

/-- A descriptor keeps its owner until there is an event for it. -/
theorem owner_onOccurred_of_ne (h : s.Owned) (hlegal : s.Legal e) (ho : s.owner k fd = some id)
    (hne : e.fd ≠ fd) : (s.onOccurred e).owner k fd = some id := by
  rw [(follows_onOccurred h hlegal).owner]
  cases heff : s.effect e with
  | accept k' fd' =>
    -- the descriptor that `accept` returns has no owner
    have hunused := hlegal fd' (effect_eq_accept_iff.mp heff).2.2.2.1
    rw [Effect.owner, if_neg, ho]
    rintro ⟨rfl, rfl⟩
    rw [owner, hunused.connection] at ho
    cases ho
  | part k' fd' id' called =>
    obtain ⟨-, k'', -, called', heq⟩ := parted_effect (s := s) (e := e) (by rw [heff]; rfl)
    rw [heff] at heq
    cases heq
    rw [Effect.owner, if_neg fun heq => hne heq.2.symm, ho]
  | _ => exact ho

theorem owner_onOccurred_of_takes (h : s.Owned) (hlegal : s.Legal e) (ht : s.Takes e fd) :
    (s.onOccurred e).owner e.fd fd = some s.nextId := by
  rw [(follows_onOccurred h hlegal).owner, effect_eq_accept_iff.mpr ⟨rfl, ht⟩]
  exact if_pos ⟨rfl, rfl⟩

/-! ### A batch -/

/-- What a batch adds to the record. -/
def recorded (s : TCPServer) : List Occurred → List Event
  | [] => []
  | e :: es => (s.effect e).events s.nextId ++ (s.onOccurred e).recorded es

theorem log_foldl : ∀ {batch : List Occurred} {s : TCPServer}, s.Owned → s.LegalBatch batch →
    (batch.foldl onOccurred s).log = s.log ++ s.recorded batch := by
  intro batch
  induction batch with
  | nil => intro s _ _; exact (List.append_nil _).symm
  | cons e es ih =>
    intro s h hlegal
    have hf := follows_onOccurred h hlegal.1
    rw [List.foldl_cons, ih hf.owned hlegal.2, hf.log, recorded, List.append_assoc]

/-- An event for a descriptor goes to the object that has it. -/
theorem mem_recorded_of_owner : ∀ {batch : List Occurred} {s : TCPServer}, s.Owned →
    s.LegalBatch batch → s.owner k fd = some id → (∃ e ∈ batch, e.fd = fd) →
    .dispatch fd id ∈ s.recorded batch := by
  intro batch
  induction batch with
  | nil =>
    rintro s _ _ _ ⟨e, he, -⟩
    cases he
  | cons e es ih =>
    intro s h hlegal ho hmem
    by_cases heq : e.fd = fd
    · subst heq
      exact List.mem_append_left _ ((dispatch_mem_events_iff h).mpr ⟨rfl, k, ho⟩)
    · obtain ⟨e', he', rfl⟩ := hmem
      rcases List.mem_cons.mp he' with rfl | he'
      · exact absurd rfl heq
      · exact List.mem_append_right _ (ih (follows_onOccurred h hlegal.1).owned hlegal.2
          (owner_onOccurred_of_ne h hlegal.1 ho heq) ⟨e', he', rfl⟩)

/-- What is dispatched is for the descriptor of an event. -/
theorem fd_mem_of_recorded : ∀ {batch : List Occurred} {s : TCPServer}, s.Owned →
    s.LegalBatch batch → .dispatch fd id ∈ s.recorded batch → ∃ e ∈ batch, e.fd = fd := by
  intro batch
  induction batch with
  | nil =>
    intro s _ _ hmem
    cases hmem
  | cons e es ih =>
    intro s h hlegal hmem
    rcases List.mem_append.mp hmem with hmem | hmem
    · exact ⟨e, List.mem_cons_self, ((dispatch_mem_events_iff h).mp hmem).1.symm⟩
    · obtain ⟨e', he', heq⟩ := ih (follows_onOccurred h hlegal.1).owned hlegal.2 hmem
      exact ⟨e', List.mem_cons_of_mem _ he', heq⟩

/-- No descriptor of a later event is given to a new connection. -/
def NotReused (s : TCPServer) (batch : List Occurred) : Prop :=
  batch.Pairwise fun a e => ¬s.Takes a e.fd

theorem takes_congr (hports : ∀ k, t.port? k = none ↔ s.port? k = none) :
    t.Takes e fd ↔ s.Takes e fd := by
  unfold Takes
  simp only [ne_eq, hports]

theorem notReused_congr (hports : ∀ k, t.port? k = none ↔ s.port? k = none)
    {batch : List Occurred} : t.NotReused batch ↔ s.NotReused batch := by
  unfold NotReused
  simp only [takes_congr hports]

/-- If no descriptor is given to a new connection, the events go to the owners from
before the batch. -/
theorem owner_of_notReused : ∀ {batch : List Occurred} {s : TCPServer}, s.Owned →
    s.LegalBatch batch → s.NotReused batch → .dispatch fd id ∈ s.recorded batch →
    ∃ k, s.owner k fd = some id := by
  intro batch
  induction batch with
  | nil =>
    intro s _ _ _ hmem
    cases hmem
  | cons e es ih =>
    intro s h hlegal hreuse hmem
    obtain ⟨hhead, htail⟩ := List.pairwise_cons.mp hreuse
    have hf := follows_onOccurred h hlegal.1
    rcases List.mem_append.mp hmem with hmem | hmem
    · obtain ⟨rfl, ho⟩ := (dispatch_mem_events_iff h).mp hmem
      exact ho
    · obtain ⟨k, ho⟩ := ih hf.owned hlegal.2 ((notReused_congr hf.ports).mpr htail) hmem
      rcases owner_onOccurred h hlegal.1 ho with ho | htakes
      · exact ⟨k, ho⟩
      · obtain ⟨e', he', rfl⟩ := fd_mem_of_recorded hf.owned hlegal.2 hmem
        exact absurd htakes (hhead e' he')

/-- The identities of the owners from before the batch are below `n`: a descriptor of a
later event that is given to a new connection sends the event astray. -/
theorem notReused_of_owner {n : ℕ} : ∀ {batch : List Occurred} {s : TCPServer}, s.Owned →
    s.LegalBatch batch → n ≤ s.nextId → (∀ fd id, .dispatch fd id ∈ s.recorded batch → id < n) →
    s.NotReused batch := by
  intro batch
  induction batch with
  | nil => intro s _ _ _ _; exact List.Pairwise.nil
  | cons e es ih =>
    intro s h hlegal hn hall
    have hf := follows_onOccurred h hlegal.1
    refine List.pairwise_cons.mpr ⟨fun e' he' htakes => ?_, ?_⟩
    · have hmem := mem_recorded_of_owner hf.owned hlegal.2
        (owner_onOccurred_of_takes h hlegal.1 htakes) ⟨e', he', rfl⟩
      exact Nat.lt_irrefl _ (Nat.lt_of_lt_of_le (hall _ _ (List.mem_append_right _ hmem)) hn)
    · refine (notReused_congr hf.ports).mp (ih hf.owned hlegal.2 ?_ fun fd id hmem =>
        hall fd id (List.mem_append_right _ hmem))
      rw [hf.nextId]
      cases s.effect e <;> simp only [Effect.next] <;> omega

/-! ### A turn of the loop -/

/-- Since `epoll_wait` returned in state `s`, every event has gone to the object that
owned its descriptor then. -/
def DispatchedToOwners (s s' : TCPServer) : Prop :=
  ∀ fd id, .dispatch fd id ∈ s'.log.drop s.log.length → ∃ k, s.owner k fd = some id

/-- The timer takes owners away, and nothing else. -/
theorem erases_wake (h : s.Owned) {timer : Option ℕ} (ht : s.wake timer = .ok t) :
    ∃ l, Erases s t l := by
  cases timer with
  | none =>
    cases ht
    exact ⟨[], erases_eraseAll [] h⟩
  | some time => exact ⟨_, erases_onTimer h ht⟩

/-- **No event of a batch goes astray if and only if no descriptor of a later event is
given to a new connection.** -/
theorem dispatchedToOwners_iff_notReused {s₀ : TCPServer} {hist : List (TCPServer × Input)}
    (h₀ : s₀.Initial) (hrun : s₀.Run hist s) {timer : Option ℕ} {batch : List Occurred}
    (ht : s.wake timer = .ok t) (hlegal : t.LegalBatch batch)
    (hs' : s.mainLoop timer batch = .ok s') :
    s.DispatchedToOwners s' ↔ s.NotReused batch := by
  have h : s.Owned := Run.owned hrun h₀
  obtain ⟨l, he⟩ := erases_wake h ht
  obtain ⟨ids, hlog⟩ := he.log
  obtain ⟨t', ht', rfl⟩ := mainLoop_eq_ok_iff.mp hs'
  rw [ht] at ht'
  cases ht'
  have hmem : ∀ fd id, .dispatch fd id ∈ (batch.foldl onOccurred t).log.drop s.log.length ↔
      .dispatch fd id ∈ t.recorded batch := by
    intro fd id
    rw [log_foldl he.owned hlegal, hlog, List.append_assoc, List.drop_left]
    simp
  unfold DispatchedToOwners
  simp only [hmem, ← notReused_congr he.port?_eq_none]
  constructor
  · -- an object that is in the record was there before the batch
    intro hall
    refine notReused_of_owner he.owned hlegal (Nat.le_of_eq he.nextId.symm) fun fd id hid => ?_
    obtain ⟨k, ho⟩ := hall fd id hid
    obtain ⟨c, hc, rfl⟩ := Option.map_eq_some_iff.mp ho
    exact h.fresh (h.mem_live hc)
  · -- the owner after the timer is the one before it
    intro hreuse fd id hid
    obtain ⟨k, ho⟩ := owner_of_notReused he.owned hlegal hreuse hid
    refine ⟨k, ?_⟩
    rw [owner, he.find?] at ho
    split_ifs at ho
    · cases ho
    · exact ho

/-- A connection has descriptor 5. -/
def connected : TCPServer := echoServer.onOccurred (accepting 5 true)

theorem run_connected : echoServer.Run [(echoServer, .event (accepting 5 true))] connected := by
  have haccept : echoServer.Step (.event (accepting 5 true)) connected :=
    ⟨legal_accepting (by decide) rfl rfl, rfl⟩
  exact History.Run.start.step _ haccept

/-- In one batch `accept` returns 6, and a byte is received from 5. -/
theorem dispatchedToOwners_accepting_reading : connected.DispatchedToOwners
    ([accepting 6 true, reading 5 false].foldl onOccurred connected) := by
  have hlegal : connected.LegalBatch [accepting 6 true, reading 5 false] :=
    ⟨legal_accepting (by decide) rfl rfl, legal_reading, trivial⟩
  have hwake : connected.wake none = .ok connected := rfl
  have hloop := mainLoop_eq_ok_iff.mpr
    ⟨connected, hwake, Eq.refl ([accepting 6 true, reading 5 false].foldl onOccurred connected)⟩
  refine (dispatchedToOwners_iff_notReused initial_echoServer run_connected hwake hlegal
    hloop).mpr ?_
  refine List.pairwise_pair.mpr fun htakes => ?_
  exact absurd (Option.some.inj htakes.2.2.1) (by decide)

/-- The connection has timed out. -/
def timedOutConnected : TCPServer := (connected.onTimer 100).toOption.getD connected

/-- The timer closes 5, `accept` returns 5 again, and the byte that the batch has for 5
goes to the new connection. -/
theorem not_dispatchedToOwners_of_reuse :
    ¬∀ (s₀ s t s' : TCPServer) (hist : List (TCPServer × Input)) (timer : Option ℕ)
      (batch : List Occurred), s₀.Initial → s₀.Run hist s → s.wake timer = .ok t →
      t.LegalBatch batch → s.mainLoop timer batch = .ok s' → s.DispatchedToOwners s' := by
  intro h
  have hwake : connected.wake (some 100) = .ok timedOutConnected := rfl
  have hlegal : timedOutConnected.LegalBatch [accepting 5 true, reading 5 false] :=
    ⟨legal_accepting (by decide) rfl rfl, legal_reading, trivial⟩
  have hloop := mainLoop_eq_ok_iff.mpr ⟨timedOutConnected, hwake,
    Eq.refl ([accepting 5 true, reading 5 false].foldl onOccurred timedOutConnected)⟩
  have hall := h _ _ _ _ _ _ _ initial_echoServer run_connected hwake hlegal hloop
  obtain ⟨k, ho⟩ := hall 5 1 (by decide +kernel)
  obtain ⟨c, hc, hid⟩ := Option.map_eq_some_iff.mp ho
  have howned := Run.owned run_connected initial_echoServer
  have hlt : c.id < connected.nextId := howned.fresh (howned.mem_live hc)
  rw [hid] at hlt
  exact absurd hlt (by decide +kernel)

end TCPServer
end Server
end PeeledOrange
