import PeeledOrange.Db.Hooks

/-!
# What an outage leaves behind

A failed connection is put aside when it is replaced, and destroyed in the last loop of
`OnTimer` some time later.  But while no connection can be made, `OnTimer` does not get
there: it returns at the first connection, which has failed or fails again.  So every
second of the calls in which it does something about that connection puts an object
aside, and none is destroyed before the database is back.

## Main definitions

* `unreachableDatabase` — the hooks while no connection can be made.
* `Client.Offline` — the client has got nowhere with its first connection.
* `Client.Attempts` — `OnTimer` does something about it.

## Main results

* `badConnections_of_outage` — **no connection that has been put aside is destroyed, and
  there is one more for every two such calls.**
-/

namespace PeeledOrange
namespace Db

open Callback

/-! ### The hooks -/

/-- `DoConnect` fails at once, `CheckConnect` finds nothing, and a new connection waits. -/
def refuses : List Call → Bool → Client → Prop
  | .doConnect c :: _, _, s => (s.conn c).status = .error
  | .checkConnect _ :: _, ready, _ => ready = false
  | .newConnection c :: _, _, s => (s.conn c).status = .wait
  | _, _, _ => True

/-- Any hook may do anything to its connection. -/
def anything : Client → Act → Prop := fun _ _ => True

/-- The client and the code around it, while no connection can be made. -/
abbrev unreachableDatabase : Interface Client Call Bool Entry Act := underRules anything refuses

section Decidable

variable (cs : List Call) (s : Client)

instance (a : Act) : Decidable (anything s a) := .isTrue trivial

instance (ready : Bool) : Decidable (refuses cs ready s) :=
  match cs with
  | [] => .isTrue trivial
  | .doConnect c :: _ => inferInstanceAs (Decidable ((s.conn c).status = .error))
  | .checkConnect _ :: _ => inferInstanceAs (Decidable (ready = false))
  | .newConnection c :: _ => inferInstanceAs (Decidable ((s.conn c).status = .wait))
  | .doQuery _ :: _ | .checkResult _ :: _ | .doPing _ :: _ | .onResult _ _ :: _ => .isTrue trivial

end Decidable

/-! ### The runs -/

namespace Client

variable (s : Client)

/-- The client is not connected, and its first connection has failed or waits. -/
def Offline : Prop :=
  s.connected = false ∧ ∃ c ∈ s.connections.head?, (s.conn c).status = .error ∨
    (s.conn c).status = .wait

/-- `OnTimer` does something about the first connection: it waits, or has failed and not
just now. -/
def Attempts (now : ℤ) : Prop :=
  ∃ c ∈ s.connections.head?, (s.conn c).status = .wait ∨
    s.older now s.client.connectTimeout c = true

/-- One if the first connection has failed. -/
def failed : ℕ := s.connections.head?.elim 0 fun c => if (s.conn c).status = .error then 1 else 0

theorem failed_of_head {c : ConnPtr} (hc : s.connections.head? = some c) :
    s.failed = if (s.conn c).status = .error then 1 else 0 := by
  rw [failed, hc]
  rfl

end Client

namespace Outage

/-- The code around the client, while a member function runs. -/
abbrev around : Interface Client Call Bool Entry Act := unreachableDatabase.restrict fromInside

variable {s s₁ s' : Client} {cs : List Call} {c x : ConnPtr} {now : ℤ} {n : ℕ}

/-- `n` times something was done about the first connection, and what has been put aside
is still there. -/
structure Tries (n : ℕ) (s s' : Client) : Prop where
  offline : s'.Offline
  kept : s.badConnections <+: s'.badConnections
  count : 2 * s'.badConnections.length + s'.failed = 2 * s.badConnections.length + s.failed + n

theorem Tries.trans {m : ℕ} {s'' : Client} (h : Tries m s s') (h' : Tries n s' s'') :
    Tries (m + n) s s'' := by
  have hle := h.count
  have hle' := h'.count
  exact ⟨h'.offline, h.kept.trans h'.kept, by omega⟩

/-! ### The other connections -/

/-- The first connection, `c`, is as it was. -/
structure Same (c : ConnPtr) (s s' : Client) : Prop where
  conn : s'.conn c = s.conn c
  connections : s'.connections = s.connections
  badConnections : s'.badConnections = s.badConnections
  connected : s'.connected = s.connected

theorem Same.refl (c : ConnPtr) (s : Client) : Same c s s := ⟨rfl, rfl, rfl, rfl⟩

/-- What is done for other connections leaves it so. -/
theorem same_harmless (hc : (s₁.conn c).status ≠ .ready) :
    Harmless anything (fun x => x ≠ c) (Same c s₁) where
  free := by
    rintro s x h hfree rfl
    have hready := (isFree_iff.mp hfree).1
    rw [h.conn] at hready
    exact hc hready
  same := fun h h' => ⟨(congrFun h'.conn _).trans h.conn, h'.connections.trans h.connections,
    h'.badConnections.trans h.badConnections, h'.connected.trans h.connected⟩
  touch := fun h hx _ => ⟨(Client.setConn_conn_of_ne _ hx.symm _).trans h.conn, h.connections,
    h.badConnections, h.connected⟩
  act := fun h hx _ => ⟨(Client.setConn_conn_of_ne _ hx.symm _).trans h.conn, h.connections,
    h.badConnections, h.connected⟩

theorem Same.tries (h : Same c s s') (hs : s.Offline) (hc : s.connections.head? = some c) :
    Tries 0 s s' := by
  have hc' : s'.connections.head? = some c := by rw [h.connections, hc]
  obtain ⟨hconnected, x, hx, hst⟩ := hs
  obtain rfl : c = x := Option.some.inj (hc.symm.trans hx)
  refine ⟨⟨h.connected.trans hconnected, c, hc', by rw [h.conn]; exact hst⟩, ?_, ?_⟩
  · exact ⟨[], by rw [List.append_nil, h.badConnections]⟩
  · rw [h.badConnections, s'.failed_of_head hc', s.failed_of_head hc, h.conn]
    rfl

/-! ### The calls -/

/-- A hook that connects changes its own connection alone. -/
theorem alone {k : Call} (hk : k.owner = some c) (hsilent : k.silent = true)
    (h : Between around [k] s s') : Alone c s s' :=
  (alone_of_between (I := fun _ => True) (fun _ _ _ => trivial) trivial hk hsilent h).1

/-- **`OnTimer` returns at the first connection**, and if it does something about it, this
is one more step between failing and being put aside. -/
theorem visit_offline {go : Bool} (h : Runs around [] (onTimer.visit now 0) s go s')
    (hs : s.Offline) : go = false ∧ (s.Attempts now → Tries 1 s s') ∧
      (¬s.Attempts now → Tries 0 s s') := by
  obtain ⟨hconnected, c, hc, hst⟩ := hs
  have hc : s.connections.head? = some c := hc
  have hi : s.connections[0]? = some c := by rw [← List.head?_eq_getElem?, hc]
  unfold onTimer.visit at h
  rw [runs_read_bind] at h
  simp only [hi] at h
  rcases hst with hst | hst
  · rw [hst] at h
    rw [runs_modify_bind, runs_bind] at h
    obtain ⟨u, s₁, h, hret⟩ := h
    obtain ⟨rfl, rfl⟩ := runs_pure.mp hret
    have hfailed : s.failed = 1 := by rw [s.failed_of_head hc, if_pos hst]
    refine ⟨rfl, ?_⟩
    rcases runs_when.mp h with ⟨hold, h⟩ | ⟨hnot, rfl⟩
    · -- it is put aside, and a new one waits in its place
      have hattempt : s.Attempts now := ⟨c, hc, .inr hold⟩
      rw [runs_modify_bind, runs_ask_bind] at h
      obtain ⟨r, s₂, hbetween, hr, h⟩ := h
      obtain ⟨-, rfl⟩ := runs_pure.mp h
      have halone := alone rfl rfl hbetween
      have hwait : (s'.conn s.nextPtr).status = .wait := hr.2
      have hhead : s'.connections.head? = some s.nextPtr := by
        rw [halone.connections]
        show (s.connections.set 0 s.nextPtr).head? = some s.nextPtr
        obtain ⟨rest, hrest⟩ : ∃ rest, s.connections = c :: rest := List.head?_eq_some_iff.mp hc
        rw [hrest]
        rfl
      have hbad : s'.badConnections = s.badConnections ++ [c] := halone.badConnections
      refine ⟨fun _ => ⟨⟨halone.connected, _, hhead, .inr hwait⟩, ?_, ?_⟩,
        fun hnot => absurd hattempt hnot⟩
      · rw [hbad]
        exact List.prefix_append _ _
      · rw [s'.failed_of_head hhead, hwait, hfailed, hbad, List.length_append,
          List.length_singleton, if_neg (by decide)]
        omega
    · -- it has failed just now
      have hnot' : ¬s.Attempts now := by
        rintro ⟨x, hx, hx'⟩
        obtain rfl : c = x := Option.some.inj (hc.symm.trans hx)
        rcases hx' with hx' | hx'
        · rw [hst] at hx'
          exact absurd hx' (by decide)
        · exact absurd (hx'.symm.trans hnot) (by decide)
      refine ⟨fun h => absurd h hnot', fun _ => ⟨⟨rfl, c, hc, .inl hst⟩, List.prefix_refl _, ?_⟩⟩
      rfl
  · -- it is connected, and fails
    rw [hst] at h
    rw [runs_modify_bind, runs_ask_bind] at h
    obtain ⟨r, s₂, hbetween, hr, h⟩ := h
    rw [runs_read_bind] at h
    obtain ⟨rfl, rfl⟩ := runs_pure.mp h
    have halone := (Alone.setConn c s { s.conn c with timestamp := now }).trans
      (alone rfl rfl hbetween)
    have herror : (s'.conn c).status = .error := hr.2
    have hhead : s'.connections.head? = some c := by rw [halone.connections, hc]
    refine ⟨halone.connected.trans hconnected, fun _ => ⟨⟨halone.connected.trans hconnected, c,
      hhead, .inl herror⟩, ?_, ?_⟩, fun hnot => absurd ⟨c, hc, .inl hst⟩ hnot⟩
    · exact ⟨[], by rw [List.append_nil, halone.badConnections]⟩
    · rw [s'.failed_of_head hhead, s.failed_of_head hc, herror, hst, halone.badConnections,
        if_pos rfl, if_neg (by decide)]

/-- So it does not get to the loop in which connections are destroyed. -/
theorem onTimer_offline (h : Runs around [] (onTimer now) s () s') (hs : s.Offline) :
    (s.Attempts now → Tries 1 s s') ∧ (¬s.Attempts now → Tries 0 s s') := by
  obtain ⟨-, c, hc, -⟩ := id hs
  obtain ⟨rest, hrest⟩ : ∃ rest, s.connections = c :: rest := List.head?_eq_some_iff.mp hc
  unfold onTimer at h
  rw [runs_read_bind, runs_bind, hrest, List.length_cons] at h
  obtain ⟨finished, s₁, hloop, h⟩ := h
  simp only [onTimer.loop, runs_bind] at hloop
  obtain ⟨go, s₂, hvisit, hloop⟩ := hloop
  obtain ⟨rfl, htries⟩ := visit_offline hvisit hs
  obtain ⟨rfl, rfl⟩ := runs_pure.mp hloop
  rcases runs_when.mp h with ⟨hno, -⟩ | ⟨-, rfl⟩
  · exact absurd hno (by decide)
  · exact htries

/-- `DataProcessing` has to do with other connections, and finds none connected. -/
theorem dataProcessing_offline {fd : ℤ} {b : Bool} (h : Runs around [] (dataProcessing fd) s b s')
    (hst : (s.conn c).status = .error ∨ (s.conn c).status = .wait) : Same c s s' := by
  have hne : (s.conn c).status ≠ .ready := by rcases hst with hst | hst <;> simp [hst]
  unfold dataProcessing at h
  rw [runs_read_bind] at h
  cases hf : s.connections.find? fun c => (s.conn c).fd == fd with
  | none =>
    simp only [hf] at h
    obtain ⟨-, rfl⟩ := runs_pure.mp h
    exact .refl c s'
  | some x =>
    simp only [hf] at h
    rw [runs_bind] at h
    obtain ⟨u, s₁, h, hret⟩ := h
    obtain ⟨-, rfl⟩ := runs_pure.mp hret
    unfold dispatch at h
    rw [runs_read_bind] at h
    cases hx : (s.conn x).status with
    | ready =>
      have hxc : x ≠ c := by rintro rfl; exact hne hx
      rw [hx] at h
      rcases runs_when.mp h with ⟨-, h⟩ | ⟨-, rfl⟩
      · rw [runs_modify_bind, runs_ask_bind] at h
        obtain ⟨r, s₂, hbetween, -, h⟩ := h
        obtain ⟨-, rfl⟩ := runs_pure.mp h
        have hcheck : Same c s (s.check x) := ⟨rfl, rfl, rfl, rfl⟩
        exact (same_harmless hne).of_between hcheck (by rintro y ⟨⟩; exact hxc) hbetween
      · exact .refl c s'
    | connect =>
      have hxc : x ≠ c := by
        rintro rfl
        rw [hx] at hst
        rcases hst with hst | hst <;> cases hst
      rw [hx] at h
      rw [runs_ask_bind] at h
      obtain ⟨r, s₂, hbetween, hr, h⟩ := h
      obtain rfl : r = false := hr.2
      have hsame := (same_harmless hne).of_between (.refl c s) (by rintro y ⟨⟩; exact hxc) hbetween
      rcases runs_when.mp h with ⟨hno, -⟩ | ⟨-, rfl⟩
      · exact absurd hno (by decide)
      · exact hsame
    | wait =>
      rw [hx] at h
      obtain ⟨-, rfl⟩ := runs_pure.mp h
      exact .refl c s'
    | error =>
      rw [hx] at h
      obtain ⟨-, rfl⟩ := runs_pure.mp h
      exact .refl c s'

/-- The code around the client leaves the first connection as it is. -/
theorem idle_offline (h : Between around [] s s') (hs : s.Offline) : Tries 0 s s' := by
  obtain ⟨-, c, hc, hst⟩ := id hs
  have hne : (s.conn c).status ≠ .ready := by rcases hst with hst | hst <;> simp [hst]
  exact ((same_harmless hne).of_idle (.refl c s) h).tries hs hc

/-- A call of another member function, or one of `OnTimer` that does nothing. -/
theorem entry_offline {e : Entry} (h : Runs around [] e.program s () s') (hs : s.Offline)
    (hmay : mayEnter [] s e) (hnot : ∀ now, e = .onTimer now → ¬s.Attempts now) :
    Tries 0 s s' := by
  obtain ⟨-, c, hc, hst⟩ := id hs
  have hne : (s.conn c).status ≠ .ready := by rcases hst with hst | hst <;> simp [hst]
  cases e with
  | query pq =>
    have hJ := same_harmless hne
    have hkeeps : Harmless.Keeps anything refuses (fun x => x ≠ c) (Same c s) []
        (Entry.query pq).program s :=
      hJ.query_program (fun x hx => absurd hx (not_hooked_nil x)) (.refl c s) pq
    exact (hJ.of_runs hkeeps h).tries hs hc
  | onTimer now => exact (onTimer_offline h hs).2 (hnot now rfl)
  | dataProcessing fd =>
    have h' : Runs around [] (do let _ ← dataProcessing fd) s () s' := h
    rw [runs_bind] at h'
    obtain ⟨b, s₁, hrun, hret⟩ := h'
    obtain ⟨-, rfl⟩ := runs_pure.mp hret
    exact (dataProcessing_offline hrun hst).tries hs hc
  | result c => simp [mayEnter] at hmay

theorem tries_of_run (hs : s.Offline)
    (h : CountedRun unreachableDatabase Client.Attempts n s s') : Tries n s s' := by
  induction h with
  | refl s => exact ⟨hs, List.prefix_refl _, rfl⟩
  | clock t _ ih =>
    have h₁ := ih hs
    exact ⟨h₁.offline, h₁.kept, h₁.count⟩
  | call e _ hmay hnot hret ih =>
    have h₁ := ih hs
    obtain ⟨s₂, hrun, hbetween⟩ := runs_of_steps hret
    have h₂ := entry_offline hrun h₁.offline hmay hnot
    exact h₁.trans (h₂.trans (idle_offline hbetween h₂.offline))
  | timer now _ hattempts hret ih =>
    have h₁ := ih hs
    obtain ⟨s₂, hrun, hbetween⟩ := runs_of_steps hret
    have h₂ := (onTimer_offline hrun h₁.offline).1 hattempts
    exact h₁.trans (h₂.trans (idle_offline hbetween h₂.offline))

/-- **While no connection can be made, no connection that has been put aside is destroyed,
and every second call that does something about the first one adds one to them.** -/
theorem badConnections_of_outage (hs : s.Offline)
    (h : CountedRun unreachableDatabase Client.Attempts n s s') :
    s.badConnections <+: s'.badConnections ∧
      s'.badConnections.length = s.badConnections.length + (n + s.failed) / 2 := by
  obtain ⟨-, hkept, hcount⟩ := tries_of_run hs h
  have hle : s'.failed ≤ 1 := by
    cases hc : s'.connections.head? with
    | none =>
      rw [Client.failed, hc]
      exact Nat.zero_le 1
    | some c =>
      rw [s'.failed_of_head hc]
      split_ifs <;> decide
  exact ⟨hkept, by omega⟩

/-- The new connection has failed again. -/
def cutOffAgain : Client :=
  (replaced.setTimestamp 1 7).setConn 1 { replaced.conn 1 with timestamp := 7, status := .error }

theorem returns_replaced : Returns unreachableDatabase (.onTimer 6) cutOff replaced :=
  @returns_of_play unreachableDatabase (.onTimer 6) cutOff replaced 20 [.reply false]
    (by decide) rfl

theorem returns_cutOffAgain : Returns unreachableDatabase (.onTimer 7) replaced cutOffAgain :=
  @returns_of_play unreachableDatabase (.onTimer 7) replaced cutOffAgain 20
    [.act (.hook 1 { replaced.conn 1 with timestamp := 7, status := .error }), .reply false]
    (by decide) rfl

theorem run_cutOffAgain :
    CountedRun unreachableDatabase Client.Attempts 2 cutOff cutOffAgain :=
  .timer 7 (.timer 6 (.refl cutOff) ⟨0, rfl, .inr (by decide)⟩ returns_replaced)
    ⟨1, rfl, .inl (by decide)⟩ returns_cutOffAgain

/-- One has been put aside, and the client is where it was. -/
theorem badConnections_cutOffAgain : cutOffAgain.badConnections.length = 1 ∧
    cutOffAgain.failed = cutOff.failed :=
  ⟨(badConnections_of_outage ⟨rfl, 0, rfl, .inl rfl⟩ run_cutOffAgain).2, by decide⟩

end Outage

end Db
end PeeledOrange
