import PeeledOrange.Server.FullScan

/-!
# The cursor of the scan

`EraseExpiredConnections` goes on behind the connection at which the last call has
stopped.  It looks for it in the first port, with a loop that increments the iterator
before it is compared with the end: if the connection is not there, the end itself is
incremented.  The connection may have gone in the meantime, the call that has stopped at
it may have erased it, or it may be at another port.  And a call that stops before the
last port goes on in the next one with the cursor that it has just set.

## Main definitions

* `TCPServer.Scannable` — a call finds its cursor, and sets none before the last port.
* `TCPServer.inputs`, `TCPServer.LegalInputs` — inputs that are handled one after the other.
* `TCPServer.Guarded` — the server is scannable whenever it is scanned.

## Main results

* `eraseExpired_ok_iff` — what a call does is defined just if the server is scannable.
* `run_inputs` — inputs that are handled make a run of the server.
* `inputs_ok_iff_guarded` — **what a run does is defined if and only if the server is
  scannable whenever it is scanned.**
* `not_inputs_ok` — a run that does something undefined.
-/

namespace PeeledOrange
namespace Server

/-! ### Iterators -/

/-- What is ahead of these iterators in all ports but the last. -/
def aheadOf (its : List (ℤ × List (ℤ × Connection))) : List (ℤ × ℤ × Connection) :=
  its.dropLast.flatMap fun i => i.2.map fun e => (i.1, e.1, e.2)

theorem aheadOf_cons {k : ℤ} {it : List (ℤ × Connection)}
    {rest : List (ℤ × List (ℤ × Connection))} (h : rest ≠ []) :
    aheadOf ((k, it) :: rest) = it.map (fun e => (k, e.1, e.2)) ++ aheadOf rest := by
  rw [aheadOf, List.dropLast_cons_of_ne_nil h]
  rfl

/-- No call with these iterators leaves a cursor before the last port. -/
def Through : ℕ → List (ℤ × List (ℤ × Connection)) → Prop
  | _, [] => True
  | counter, (_, it) :: rest =>
    (rest ≠ [] → ((it[checkExpiredStep - 1 - counter]?).map Prod.fst).getD 0 = 0) ∧
      Through (counter + (examine counter it).length) rest

/-- The ports are different, and have no descriptor in common. -/
def Separate (its : List (ℤ × List (ℤ × Connection))) : Prop :=
  its.Pairwise fun i j => i.1 ≠ j.1 ∧ ∀ e ∈ i.2, ∀ e' ∈ j.2, e.1 ≠ e'.1

theorem mem_aheadOf {its : List (ℤ × List (ℤ × Connection))} {t : ℤ × ℤ × Connection}
    (h : t ∈ aheadOf its) : ∃ i ∈ its, t.1 = i.1 ∧ t.2 ∈ i.2 := by
  obtain ⟨i, hi, ht⟩ := List.mem_flatMap.mp h
  obtain ⟨e, he, rfl⟩ := List.mem_map.mp ht
  exact ⟨i, List.dropLast_subset _ hi, rfl, he⟩

/-- Behind the step, the first connection leaves a cursor. -/
theorem through_late : ∀ {its : List (ℤ × List (ℤ × Connection))} {counter : ℕ},
    checkExpiredStep ≤ counter → (∀ i ∈ its, ∀ e ∈ i.2, e.1 ≠ 0) →
    (Through counter its ↔ aheadOf its = []) := by
  intro its
  induction its with
  | nil => intro _ _ _; exact iff_of_true trivial rfl
  | cons i rest ih =>
    obtain ⟨k, it⟩ := i
    intro counter hle hne
    cases rest with
    | nil => exact iff_of_true ⟨fun h => absurd rfl h, trivial⟩ rfl
    | cons j rest =>
      have hzero : checkExpiredStep - 1 - counter = 0 := by omega
      have hrest := @ih (counter + (examine counter it).length) (by omega)
        fun i hi => hne i (List.mem_cons_of_mem _ hi)
      rw [aheadOf_cons (List.cons_ne_nil _ _), List.append_eq_nil_iff, List.map_eq_nil_iff,
        Through, hrest, hzero]
      refine and_congr_left fun _ => ?_
      cases it with
      | nil => exact iff_of_true (fun _ => rfl) rfl
      | cons e es =>
        have hfd := hne _ List.mem_cons_self e List.mem_cons_self
        exact iff_of_false (fun h => hfd (h (List.cons_ne_nil _ _))) (List.cons_ne_nil _ _)

/-- Up to the step, the connection that completes it leaves none if it has descriptor 0;
the next one would leave one. -/
theorem through_iff : ∀ {its : List (ℤ × List (ℤ × Connection))} {counter : ℕ},
    counter < checkExpiredStep → Separate its →
    (Through counter its ↔ ∀ t, (aheadOf its)[checkExpiredStep - 1 - counter]? = some t →
      t.2.1 = 0 ∧ ∀ t' ∈ (aheadOf its).drop (checkExpiredStep - counter), t'.1 = t.1) := by
  intro its
  induction its with
  | nil => intro _ _ _; exact iff_of_true trivial nofun
  | cons i rest ih =>
    obtain ⟨k, it⟩ := i
    intro counter hlt hsep
    obtain ⟨hhead, hsep⟩ := List.pairwise_cons.mp hsep
    cases rest with
    | nil => exact iff_of_true ⟨fun h => absurd rfl h, trivial⟩ nofun
    | cons j rest =>
      rw [aheadOf_cons (List.cons_ne_nil _ _), Through]
      generalize htag : it.map (fun e => (k, e.1, e.2)) = tagged
      have hlen : tagged.length = it.length := by rw [← htag, List.length_map]
      by_cases hfew : counter + it.length < checkExpiredStep
      · -- this port is passed, and the step is completed behind it
        have hall : examine counter it = it := List.take_of_length_le (by omega)
        have hstep : checkExpiredStep - 1 - counter - tagged.length =
            checkExpiredStep - 1 - (counter + it.length) := by omega
        have hdrop : checkExpiredStep - counter - tagged.length =
            checkExpiredStep - (counter + it.length) := by omega
        have hnone : it[checkExpiredStep - 1 - counter]? = none := List.getElem?_eq_none (by omega)
        have hpassed : tagged.drop (checkExpiredStep - counter) = [] :=
          List.drop_of_length_le (by omega)
        rw [hall, ih hfew hsep, hnone, List.getElem?_append_right (by omega), List.drop_append,
          hpassed, List.nil_append, hstep, hdrop]
        exact and_iff_right fun _ => rfl
      · -- the step is completed here
        obtain ⟨e, he⟩ : ∃ e, it[checkExpiredStep - 1 - counter]? = some e :=
          ⟨_, List.getElem?_eq_getElem (by omega)⟩
        have hcount : counter + (examine counter it).length = checkExpiredStep := by
          rw [examine, List.length_take]
          omega
        have htagged : tagged[checkExpiredStep - 1 - counter]? = some (k, e.1, e.2) := by
          rw [← htag, List.getElem?_map, he]
          rfl
        have hmem : e ∈ it := List.mem_of_getElem? he
        rw [hcount, he, List.getElem?_append_left (by omega), htagged, List.drop_append]
        simp only [Option.map_some, Option.getD_some, ne_eq, reduceCtorEq, not_false_eq_true,
          forall_const, Option.some.injEq, forall_eq']
        refine and_congr_right fun hzero => ?_
        have hne : ∀ i ∈ j :: rest, ∀ e' ∈ i.2, e'.1 ≠ 0 := fun i hi e' he' =>
          hzero ▸ ((hhead i hi).2 e hmem e' he').symm
        rw [through_late (Nat.le_refl _) hne]
        constructor
        · intro hnil t' ht'
          rw [hnil, List.drop_nil, List.append_nil, ← htag] at ht'
          obtain ⟨e', -, rfl⟩ := List.mem_map.mp (List.mem_of_mem_drop ht')
          rfl
        · intro hsame
          refine List.eq_nil_iff_forall_not_mem.mpr fun t' ht' => ?_
          obtain ⟨i, hi, heq, -⟩ := mem_aheadOf ht'
          have hall := hsame t' (List.mem_append_right _ ?_)
          · exact (hhead i hi).1 (hall.symm.trans heq)
          · have hnone : checkExpiredStep - counter - tagged.length = 0 := by omega
            rw [hnone]
            exact ht'

/-! ### A call -/

namespace TCPServer

variable {s s' s₀ : TCPServer} {k fd : ℤ} {sp : ServerPort}

/-- The outer loop, from a cursor on that is in none of the ports. -/
theorem scanPorts_ok_iff : ∀ {ports : List (ℤ × ServerPort)} {counter : ℕ} {s : TCPServer},
    Disjoint ports →
    (s.lastCheckedFd ≠ 0 → ∀ p ∈ ports, p.2.connections.find? s.lastCheckedFd = none) →
    ((∃ r, scanPorts ports counter s = .ok r) ↔ (ports ≠ [] → s.lastCheckedFd = 0) ∧
      Through counter (ports.map fun p => (p.1, p.2.connections.entries))) := by
  intro ports
  induction ports with
  | nil => exact fun _ _ => iff_of_true ⟨_, rfl⟩ ⟨fun h => absurd rfl h, trivial⟩
  | cons p rest ih =>
    obtain ⟨k, sp⟩ := p
    intro counter s hdis hcursor
    by_cases hzero : s.lastCheckedFd = 0
    · rw [scanPorts_cons (resume_zero hzero), ih (List.pairwise_cons.mp hdis).2
        fun hne p hp => resume_rest hdis hp (fun _ he => he) rfl hne]
      simp only [List.map_cons, Through, ne_eq, List.map_eq_nil_iff]
      exact (and_iff_right fun _ => hzero).symm
    · rw [scanPorts_error hzero (hcursor hzero _ List.mem_cons_self)]
      exact iff_of_false (by simp) fun h => hzero (h.1 (List.cons_ne_nil _ _))

/-- The connections from the cursor on, in all ports but the last. -/
def ahead (s : TCPServer) : List (ℤ × ℤ × Connection) := aheadOf s.iterators

/-- The cursor, if there is one, is at the first port.  If there are so many connections
ahead of the last port that the step is completed there, it is so by descriptor 0, which
stands for no cursor, and those behind it are at its own port. -/
structure Scannable (s : TCPServer) : Prop where
  cursor : s.lastCheckedFd ≠ 0 → ∀ k sp, s.serverPorts.entries.head? = some (k, sp) →
    sp.connections.find? s.lastCheckedFd ≠ none
  step : ∀ k fd c, s.ahead[checkExpiredStep - 1]? = some (k, fd, c) →
    fd = 0 ∧ ∀ t ∈ s.ahead.drop checkExpiredStep, t.1 = k

theorem Scannable.congr (hports : s'.serverPorts = s.serverPorts)
    (hcursor : s'.lastCheckedFd = s.lastCheckedFd) : s'.Scannable ↔ s.Scannable := by
  have hahead : s'.ahead = s.ahead := by rw [ahead, iterators, hports, hcursor, ahead, iterators]
  constructor
  · rintro ⟨hfirst, hstep⟩
    rw [hports, hcursor] at hfirst
    rw [hahead] at hstep
    exact ⟨hfirst, hstep⟩
  · rintro ⟨hfirst, hstep⟩
    refine ⟨?_, ?_⟩
    · rwa [hports, hcursor]
    · rwa [hahead]

/-- The iterators of the ports have no descriptor in common. -/
theorem Owned.separate (h : s.Owned) : Separate s.iterators := by
  have hkeys : ∀ {k sp fd c} {it : List (ℤ × Connection)}, (k, sp) ∈ s.serverPorts.entries →
      (∀ e ∈ it, e ∈ sp.connections.entries) → (fd, c) ∈ it → s.find? k fd = some c := by
    intro k sp fd c it hsp hsub hmem
    rw [find?, port?, OrderedMap.find?_eq_some_iff.mpr hsp]
    exact OrderedMap.find?_eq_some_iff.mpr (hsub _ hmem)
  have hports : s.iterators.map Prod.fst = s.serverPorts.entries.map Prod.fst := by
    rw [iterators]
    split
    · rename_i hnil
      rw [hnil]
      rfl
    · rename_i hcons
      rw [hcons]
      simp
  have hsorted : s.iterators.Pairwise fun i j => i.1 < j.1 := by
    have hlt := List.pairwise_map.mpr s.serverPorts.sorted
    rw [← hports] at hlt
    exact List.pairwise_map.mp hlt
  refine hsorted.imp_of_mem ?_
  rintro ⟨k, it⟩ ⟨k', it'⟩ hi hj hlt
  obtain ⟨sp, hsp, hsub⟩ := mem_iterators hi
  obtain ⟨sp', hsp', hsub'⟩ := mem_iterators hj
  refine ⟨ne_of_lt hlt, ?_⟩
  rintro ⟨fd, c⟩ he ⟨fd', c'⟩ he' rfl
  exact absurd (h.port (hkeys hsp hsub he) (hkeys hsp' hsub' he')) (ne_of_lt hlt)

theorem eraseExpired_ok_iff_scanPorts : (∃ s', s.eraseExpiredConnections = .ok s') ↔
    ∃ r, scanPorts s.serverPorts.entries 0 s = .ok r := by
  rw [eraseExpiredConnections]
  cases scanPorts s.serverPorts.entries 0 s with
  | error e => exact iff_of_false (by simp) (by simp)
  | ok r => exact iff_of_true ⟨_, rfl⟩ ⟨_, rfl⟩

/-- The first port, where the loop starts at the cursor. -/
theorem resume_ok_iff {m : OrderedMap ℤ Connection} :
    (∃ it, resume s.lastCheckedFd m = .ok it) ↔
      (s.lastCheckedFd ≠ 0 → m.find? s.lastCheckedFd ≠ none) := by
  rw [resume]
  split_ifs with hcur
  · rw [OrderedMap.after?]
    cases m.find? s.lastCheckedFd with
    | none => exact iff_of_false (by simp) fun h => h hcur rfl
    | some c => exact iff_of_true ⟨_, rfl⟩ fun _ => Option.some_ne_none c
  · exact iff_of_true ⟨_, rfl⟩ fun h => absurd h hcur

/-- **What a call of `EraseExpiredConnections` does is defined just if the server is
scannable.** -/
theorem eraseExpired_ok_iff (h : s.Owned) :
    (∃ s', s.eraseExpiredConnections = .ok s') ↔ s.Scannable := by
  have hthrough : Through 0 s.iterators ↔
      ∀ k fd c, s.ahead[checkExpiredStep - 1]? = some (k, fd, c) →
      fd = 0 ∧ ∀ t ∈ s.ahead.drop checkExpiredStep, t.1 = k := by
    rw [through_iff (by decide) h.separate]
    exact ⟨fun hall k fd c ht => hall (k, fd, c) ht, fun hall t ht => hall t.1 t.2.1 t.2.2 ht⟩
  rw [eraseExpired_ok_iff_scanPorts]
  have hdis := h.disjoint
  cases hports : s.serverPorts.entries with
  | nil =>
    -- without ports there is nothing to do
    refine iff_of_true ⟨_, rfl⟩ ⟨fun _ k sp hhead => ?_, hthrough.mp ?_⟩
    · rw [hports] at hhead
      cases hhead
    · rw [iterators, hports]
      trivial
  | cons p rest =>
    obtain ⟨k, sp⟩ := p
    rw [hports] at hdis
    have hfirst : (s.lastCheckedFd ≠ 0 → ∀ k sp, s.serverPorts.entries.head? = some (k, sp) →
        sp.connections.find? s.lastCheckedFd ≠ none) ↔
        ∃ it, resume s.lastCheckedFd sp.connections = .ok it := by
      rw [resume_ok_iff, hports]
      refine imp_congr_right fun _ => ⟨fun hall => hall k sp rfl, ?_⟩
      rintro hfind k' sp' heq
      cases heq
      exact hfind
    have hcursor : s.Scannable ↔ (∃ it, resume s.lastCheckedFd sp.connections = .ok it) ∧
        Through 0 s.iterators := by
      rw [← hfirst, hthrough]
      exact ⟨fun hs => ⟨hs.1, hs.2⟩, fun hs => ⟨hs.1, hs.2⟩⟩
    rw [hcursor]
    cases hresume : resume s.lastCheckedFd sp.connections with
    | error e =>
      rw [scanPorts, hresume]
      exact iff_of_false (by simp) (by simp)
    | ok it =>
      rw [and_iff_right ⟨it, rfl⟩, scanPorts_cons hresume,
        scanPorts_ok_iff (List.pairwise_cons.mp hdis).2 fun hne p hp =>
          resume_rest hdis hp (resume_eq_ok hresume).2 rfl hne,
        iterators_of_resume hports hresume]
      simp only [Through, ne_eq, List.map_eq_nil_iff]
      rfl

/-! ### The runs -/

/-- `OnTimer` calls `EraseExpiredConnections` at this time. -/
def Scans (s : TCPServer) (time : ℕ) : Prop := time ≠ s.currentTime ∨ s.lastCheckedFd ≠ 0

/-- What `OnTimer` does is defined just if the server is scannable, if it is scanned. -/
theorem onTimer_ok_iff (h : s.Owned) (time : ℕ) :
    (∃ s', s.onTimer time = .ok s') ↔ (s.Scans time → s.Scannable) := by
  unfold onTimer Scans
  simp only
  split_ifs with htime hcur
  · have howned : Owned { s with nowTime := time, currentTime := time } := h.congr rfl rfl rfl
    have hsame : Scannable { s with nowTime := time, currentTime := time } ↔ s.Scannable :=
      Scannable.congr rfl rfl
    rw [eraseExpired_ok_iff howned, hsame]
    exact ⟨fun hs _ => hs, fun hs => hs (.inl htime)⟩
  · have howned : Owned { s with nowTime := time } := h.congr rfl rfl rfl
    have hsame : Scannable { s with nowTime := time } ↔ s.Scannable := Scannable.congr rfl rfl
    rw [eraseExpired_ok_iff howned, hsame]
    exact ⟨fun hs _ => hs, fun hs => hs (.inr hcur)⟩
  · exact iff_of_true ⟨_, rfl⟩ fun hs => absurd hs (not_or.mpr ⟨htime, hcur⟩)

/-- The inputs are handled one after the other. -/
def inputs : TCPServer → List Input → Except Fault TCPServer
  | s, [] => .ok s
  | s, .timer time :: is =>
    match s.onTimer time with
    | .error e => .error e
    | .ok s => s.inputs is
  | s, .event e :: is => (s.onOccurred e).inputs is

/-- The kernel may give out the descriptors of these inputs, as long as what is done is
defined. -/
def LegalInputs : TCPServer → List Input → Prop
  | _, [] => True
  | s, .timer time :: is => ∀ s', s.onTimer time = .ok s' → s'.LegalInputs is
  | s, .event e :: is => s.Legal e ∧ (s.onOccurred e).LegalInputs is

/-- The server is scannable whenever it is scanned. -/
def Guarded : TCPServer → List Input → Prop
  | _, [] => True
  | s, .timer time :: is =>
    (s.Scans time → s.Scannable) ∧ ∀ s', s.onTimer time = .ok s' → s'.Guarded is
  | s, .event e :: is => (s.onOccurred e).Guarded is

/-- Inputs that are handled make a run. -/
theorem run_inputs : ∀ {is : List Input} {s s' : TCPServer}, s.LegalInputs is →
    s.inputs is = .ok s' → ∃ hist, s.Run hist s' := by
  intro is
  induction is with
  | nil =>
    intro s s' _ hok
    cases hok
    exact ⟨[], .start⟩
  | cons i is ih =>
    intro s s' hl hok
    cases i with
    | timer time =>
      rw [inputs] at hok
      cases htime : s.onTimer time with
      | error e =>
        rw [htime] at hok
        cases hok
      | ok t =>
        rw [htime] at hok
        obtain ⟨hist, hrun⟩ := ih (hl t htime) hok
        have hfirst : s.Run [(s, .timer time)] t := History.Run.start.step _ htime
        exact ⟨_, hfirst.append hrun⟩
    | event e =>
      obtain ⟨hist, hrun⟩ := ih hl.2 hok
      have hfirst : s.Run [(s, .event e)] (s.onOccurred e) := History.Run.start.step _ ⟨hl.1, rfl⟩
      exact ⟨_, hfirst.append hrun⟩

theorem inputs_ok_iff : ∀ {is : List Input} {s : TCPServer}, s.Owned → s.LegalInputs is →
    ((∃ s', s.inputs is = .ok s') ↔ s.Guarded is) := by
  intro is
  induction is with
  | nil => exact fun _ _ => iff_of_true ⟨_, rfl⟩ trivial
  | cons i is ih =>
    intro s h hl
    cases i with
    | timer time =>
      rw [inputs, Guarded, ← onTimer_ok_iff h time]
      cases htime : s.onTimer time with
      | error e => exact iff_of_false (by simp) (by simp)
      | ok t =>
        have ht : t.Owned := (erases_onTimer h htime).owned
        refine (ih ht (hl t htime)).trans ⟨fun hg => ⟨⟨t, rfl⟩, ?_⟩, fun hg => hg.2 t rfl⟩
        rintro s' heq
        cases heq
        exact hg
    | event e => exact ih (follows_onOccurred h hl.1).owned hl.2

/-- **What a run does is defined if and only if the server is scannable whenever it is
scanned.** -/
theorem inputs_ok_iff_guarded {is : List Input} (h₀ : s₀.Initial) (hl : s₀.LegalInputs is) :
    (∃ s, s₀.inputs is = .ok s) ↔ s₀.Guarded is := inputs_ok_iff h₀.owned hl

/-- A connection is accepted, and the timer examines it. -/
theorem inputs_ok_of_one :
    ∃ s, echoServer.inputs [.event (accepting 5 true), .timer 1] = .ok s := by
  have hlegal : echoServer.LegalInputs [.event (accepting 5 true), .timer 1] :=
    ⟨legal_accepting (by decide) rfl rfl, fun _ _ => trivial⟩
  refine (inputs_ok_iff_guarded initial_echoServer hlegal).mpr ⟨fun _ => ⟨?_, ?_⟩, ?_⟩
  · exact fun hne => absurd rfl hne
  · exact nofun
  · exact fun _ _ => trivial

/-! ### A run that does something undefined -/

/-- `n` connections are accepted. -/
def crowd : ℕ → TCPServer
  | 0 => echoServer
  | n + 1 => (crowd n).onOccurred (accepting (10 + n) true)

/-- The descriptors that have not been given out are not open. -/
theorem unused_crowd (n : ℕ) :
    (crowd n).Owned ∧ (crowd n).port? 3 ≠ none ∧ ∀ fd ≥ (10 + n : ℤ), (crowd n).Unused fd := by
  induction n with
  | zero =>
    refine ⟨initial_echoServer.owned, Option.some_ne_none _, fun fd hfd => ⟨by omega, ?_, ?_⟩⟩
    · refine OrderedMap.find?_eq_none_iff.mpr fun sp hsp => ?_
      have hkey := congrArg Prod.fst (List.mem_singleton.mp hsp)
      simp only at hkey
      omega
    · exact fun k => initial_echoServer.connections k fd
  | succ n ih =>
    obtain ⟨howned, hport, hunused⟩ := ih
    have hlegal : (crowd n).Legal (accepting (10 + n) true) := by
      rintro sockFd heq
      obtain rfl : (10 + n : ℤ) = sockFd := Option.some.inj heq
      exact hunused _ (le_refl _)
    have heffect : (crowd n).effect (accepting (10 + n) true) = .accept 3 (10 + n) :=
      effect_eq_accept_iff.mpr ⟨rfl, rfl, hport, rfl, rfl⟩
    have hfollows := follows_onOccurred howned hlegal
    rw [heffect] at hfollows
    refine ⟨hfollows.owned, fun hnone => hport ((hfollows.ports 3).mp hnone), fun fd hfd => ?_⟩
    have hold := hunused fd (by omega)
    refine ⟨by omega, (hfollows.ports fd).mpr hold.port, fun k => ?_⟩
    have hnone := hfollows.owner k fd
    rw [Effect.owner, if_neg fun h => by omega, owner, owner, hold.connection k] at hnone
    exact Option.map_eq_none_iff.mp hnone

/-- They arrive one after the other. -/
def arrivals (n : ℕ) : List Input :=
  (List.range n).map fun i : ℕ => .event (accepting (10 + i) true)

theorem legalInputs_arrivals : ∀ {n : ℕ} {is : List Input}, (crowd n).LegalInputs is →
    echoServer.LegalInputs (arrivals n ++ is) := by
  intro n
  induction n with
  | zero => exact fun h => h
  | succ n ih =>
    intro is h
    rw [arrivals, List.range_succ, List.map_append, List.append_assoc]
    refine ih ⟨?_, h⟩
    rintro sockFd heq
    obtain rfl : (10 + n : ℤ) = sockFd := Option.some.inj heq
    exact (unused_crowd n).2.2 _ (le_refl _)

/-- A hundred connections are accepted at time 0, and nothing is received from them for a
hundred seconds.  The first call of the timer stops at the last one and erases it, and the
second call does not find it. -/
theorem not_inputs_ok : ¬∀ (s₀ : TCPServer) (is : List Input), s₀.Initial → s₀.LegalInputs is →
    ∃ s, s₀.inputs is = .ok s := by
  intro h
  have htimers : (crowd 100).LegalInputs [.timer 100, .timer 100] := fun _ _ _ _ => trivial
  obtain ⟨s, hs⟩ := h echoServer (arrivals 100 ++ [.timer 100, .timer 100]) initial_echoServer
    (legalInputs_arrivals htimers)
  have hfault : (echoServer.inputs (arrivals 100 ++ [.timer 100, .timer 100])).toBool = false := by
    decide +kernel
  rw [hs] at hfault
  cases hfault

end TCPServer

end Server
end PeeledOrange
