import PeeledOrange.Server.Run

/-!
# The objects that callbacks see

The context that a callback gets holds a plain pointer to the connection object.  The
object is alive when `OnConnect` and `OnReadData` are called and whenever the server
uses it, but `Disconnect` erases the entry of the map, and the object with it, before
it calls `OnDisconnect` for the same context.

## Main definitions

* `Event.Live` — what is called or used is alive at that moment.
* `Input.Keeps` — the input does not part with a connection.

## Main results

* `live_iff_keeps` — **callbacks and accesses see only live objects in exactly the
  runs in which no connection is parted with.**
* `not_live_of_hangUp` — a run in which `OnDisconnect` is called for a dead object.
-/

namespace PeeledOrange
namespace Server

/-- The object that is called for or used is alive at that moment. -/
def Event.Live : Event → Prop
  | .call _ _ live | .access _ live => live = true
  | .dispatch _ _ | .destroy _ => True

instance : DecidablePred Event.Live
  | .call _ _ live | .access _ live => inferInstanceAs (Decidable (live = true))
  | .dispatch _ _ | .destroy _ => .isTrue trivial

/-- The input does not part with a connection. -/
def Input.Keeps (s : TCPServer) : Input → Prop
  | .timer _ => True
  | .event e => ¬s.Parts e

/-- What an event adds to the record sees a dead object only at the end of `Disconnect`. -/
theorem Effect.live_events {f : Effect} {n : ℕ} :
    (∀ e ∈ f.events n, e.Live) ↔ f.parted = none := by
  cases f with
  | handle k fd id called => cases called <;> simp [events, parted, uses, Event.Live]
  | part k fd id called =>
    have hdead : Event.call .onDisconnect id false ∈ (part k fd id called).events n := by
      simp [events, parting]
    exact iff_of_false (fun h => Bool.noConfusion (h _ hdead)) (Option.some_ne_none _)
  | _ => simp [events, parted, Event.Live]

namespace TCPServer

variable {s₀ s s' : TCPServer} {hist : List (TCPServer × Input)}

/-- A step adds to the record, and sees a dead object only if it parts with one. -/
theorem Step.log (h : s.Owned) {i : Input} (hs : s.Step i s') :
    ∃ l, s'.log = s.log ++ l ∧ ((∀ e ∈ l, e.Live) ↔ i.Keeps s) := by
  cases i with
  | timer time =>
    obtain ⟨ids, hlog⟩ := (erases_onTimer h hs).log
    exact ⟨_, hlog, iff_of_true (by simp [Event.Live]) trivial⟩
  | event e =>
    obtain ⟨hlegal, rfl⟩ := hs
    exact ⟨_, (follows_onOccurred h hlegal).log,
      Effect.live_events.trans parted_eq_none_iff⟩

/-- **Callbacks and accesses see only live objects in exactly the runs in which no
connection is parted with.** -/
theorem live_iff_keeps (h₀ : s₀.Initial) (h : s₀.Run hist s) :
    (∀ e ∈ s.log, e.Live) ↔ ∀ e ∈ hist, e.2.Keeps e.1 := by
  refine h.iff_forall (fun s => ∀ e ∈ s.log, e.Live) Owned (fun s => ∃ e ∈ s.log, ¬e.Live)
    (fun s i => i.Keeps s) (fun _ _ _ => Step.owned) ?_ ?_ ?_ ?_ h₀.owned ?_
  · -- an input that parts with no connection keeps the record good
    intro s i s' ho hlive hkeeps hs
    obtain ⟨l, hlog, hl⟩ := hs.log ho
    rw [hlog]
    exact List.forall_mem_append.mpr ⟨hlive, hl.mpr hkeeps⟩
  · -- one that does writes a dead object into it
    intro s i s' ho hparts hs
    obtain ⟨l, hlog, hl⟩ := hs.log ho
    rw [← hl] at hparts
    simp only [not_forall] at hparts
    obtain ⟨e, he, hdead⟩ := hparts
    exact ⟨e, by rw [hlog]; exact List.mem_append_right _ he, hdead⟩
  · -- and there it stays
    rintro s i s' ho ⟨e, he, hdead⟩ hs
    obtain ⟨l, hlog, -⟩ := hs.log ho
    exact ⟨e, by rw [hlog]; exact List.mem_append_left _ he, hdead⟩
  · rintro s ⟨e, he, hdead⟩ hlive
    exact hdead (hlive e he)
  · rw [h₀.log]
    exact nofun

/-- A connection is accepted, and the handler is called for a byte. -/
def reading₁ : TCPServer := (echoServer.onOccurred (accepting 5 true)).onOccurred (reading 5 false)

theorem run_reading₁ : echoServer.Run [(echoServer, .event (accepting 5 true)),
    (echoServer.onOccurred (accepting 5 true), .event (reading 5 false))] reading₁ := by
  have haccept : echoServer.Step (.event (accepting 5 true)) _ :=
    ⟨legal_accepting (by decide) rfl rfl, rfl⟩
  have hread :
      (echoServer.onOccurred (accepting 5 true)).Step (.event (reading 5 false)) reading₁ :=
    ⟨legal_reading, rfl⟩
  exact (History.Run.start.step _ haccept).step _ hread

theorem live_reading₁ : (∀ e ∈ reading₁.log, e.Live) ∧
    Event.call .onReadData 0 true ∈ reading₁.log := by
  refine ⟨(live_iff_keeps initial_echoServer run_reading₁).mpr fun e he => ?_, by decide +kernel⟩
  rcases List.mem_cons.mp he with rfl | he
  · exact parted_eq_none_iff.mp (by decide +kernel)
  · obtain rfl := List.mem_singleton.mp he
    exact parted_eq_none_iff.mp (by decide +kernel)

/-- The peer hangs up: the object is destroyed, and then `OnDisconnect` is called for it. -/
theorem not_live_of_hangUp :
    ¬∀ (s₀ s : TCPServer) (hist : List (TCPServer × Input)), s₀.Initial → s₀.Run hist s →
      ∀ e ∈ s.log, e.Live := by
  intro h
  have hup : reading₁.Step (.event (hangingUp 5)) _ := ⟨legal_hangingUp, rfl⟩
  have hdead : Event.call .onDisconnect 0 false ∈ (reading₁.onOccurred (hangingUp 5)).log := by
    decide +kernel
  exact Bool.noConfusion (h _ _ _ initial_echoServer (run_reading₁.step _ hup) _ hdead)

end TCPServer

end Server
end PeeledOrange
