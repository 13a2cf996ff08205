import PeeledOrange.Server.Ownership

/-!
# What an event comes to

Seen from outside, an event that is passed on does one of five things to the
connections: nothing, a new one is accepted, a new one is refused by `epoll`, one
is handled, or one is parted with.  Which of them it is can be read off the event
and the state before it.  `Effect` is that abstract step, with what it adds to the
record and what it does to the owners of the descriptors, and the functions of the
source follow it.

## Main definitions

* `ConnectionData.Closes`, `ConnectionData.Handles` — when a connection is given up,
  and when the handler is called for it.
* `Effect`, `TCPServer.effect` — the abstract step, and the one that an event makes.
* `TCPServer.Follows` — a state follows another by an abstract step.

## Main results

* `disconnected_iff_closes` — `ConnectionProcessing` disconnects for these reasons.
* `follows_onOccurred` — **the server follows the abstract step of each event.**
-/

namespace PeeledOrange
namespace Server

/-! ### Giving a connection up -/

/-- With these bytes the handler is called. -/
def ConnectionData.Handles (cd : ConnectionData) : Option (List UInt8) → Prop
  | none | some [] => False
  | some bs => ¬(cd.requiredSize ≠ 0 ∧ cd.requiredSize > (cd.input.size + bs.length) % 2 ^ 32)

/-- The connection is given up: `recv` fails or the peer has closed, or the handler is
called and closes it, or it leaves more than the header size without a request. -/
def ConnectionData.Closes (cd : ConnectionData) (maxHeaderSize : ℕ) (o : Outcome) :
    Option (List UInt8) → Prop
  | none | some [] => True
  | some bs => cd.Handles (some bs) ∧ (o.closeConnection = true ∨ o.requiredSize = 0 ∧
      sub32 ((cd.input.size + bs.length) % 2 ^ 32) o.pos > maxHeaderSize)

instance (cd : ConnectionData) : DecidablePred cd.Handles
  | none | some [] => .isFalse id
  | some (_ :: _) => inferInstanceAs (Decidable ¬(_ ∧ _))

instance (cd : ConnectionData) (maxHeaderSize : ℕ) (o : Outcome) :
    DecidablePred (cd.Closes maxHeaderSize o)
  | none | some [] => .isTrue trivial
  | some (b :: bs) => inferInstanceAs (Decidable (cd.Handles (some (b :: bs)) ∧ _))

section

variable {maxHeaderSize now : ℕ} {cd : ConnectionData} {received : Option (List UInt8)}
  {o : Outcome}

/-- The early return of `ConnectionProcessing` is taken if the handler is not called. -/
theorem waits_iff_not_handles {b : UInt8} {bs : List UInt8} :
    ((cd.receive now (b :: bs)).requiredSize ≠ 0 ∧
      (cd.receive now (b :: bs)).requiredSize > (cd.receive now (b :: bs)).input.size) ↔
      ¬cd.Handles (some (b :: bs)) := not_not.symm

theorem view_isSome_iff_handles :
    (connectionProcessing maxHeaderSize now cd received o).view.isSome = true ↔
      cd.Handles received := by
  rcases received with _ | _ | ⟨b, bs⟩
  · exact iff_of_false Bool.false_ne_true id
  · exact iff_of_false Bool.false_ne_true id
  · by_cases hh : cd.Handles (some (b :: bs))
    · refine iff_of_true ?_ hh
      rw [connectionProcessing_call maxHeaderSize now (List.cons_ne_nil b bs)
        fun hw => waits_iff_not_handles.mp hw hh]
      split_ifs <;> rfl
    · refine iff_of_false ?_ hh
      rw [connectionProcessing_return maxHeaderSize now (List.cons_ne_nil b bs)
        (waits_iff_not_handles.mpr hh)]
      exact Bool.false_ne_true

/-- `ConnectionProcessing` disconnects for these reasons and no others. -/
theorem disconnected_iff_closes :
    (connectionProcessing maxHeaderSize now cd received o).disconnected = true ↔
      cd.Closes maxHeaderSize o received := by
  rcases received with _ | _ | ⟨b, bs⟩
  · exact iff_of_true rfl trivial
  · exact iff_of_true rfl trivial
  · by_cases hh : cd.Handles (some (b :: bs))
    · rw [connectionProcessing_call maxHeaderSize now (List.cons_ne_nil b bs)
        fun hw => waits_iff_not_handles.mp hw hh]
      split_ifs with hclose hheader
      · exact iff_of_true rfl ⟨hh, .inl hclose⟩
      · exact iff_of_true rfl ⟨hh, .inr hheader⟩
      · exact iff_of_false (by simp) fun h => h.2.elim hclose hheader
    · rw [connectionProcessing_return maxHeaderSize now (List.cons_ne_nil b bs)
        (waits_iff_not_handles.mpr hh)]
      exact iff_of_false Bool.false_ne_true fun h => hh h.1

/-- `ConnectionProcessing` leaves the descriptor alone. -/
theorem connectionProcessing_sockFd :
    (connectionProcessing maxHeaderSize now cd received o).connection.sockFd = cd.sockFd := by
  rcases received with _ | _ | ⟨b, bs⟩
  · rfl
  · rfl
  · unfold connectionProcessing ConnectionData.compact
    simp only
    split_ifs <;> rfl

end

/-! ### The abstract step -/

/-- What an event comes to. -/
inductive Effect
  /-- Nothing. -/
  | ignore
  /-- A new connection at a port. -/
  | accept (k sockFd : ℤ)
  /-- A new connection that is not added to `epoll`. -/
  | refuse
  /-- The receive path of a connection that is kept, with or without the handler. -/
  | handle (k fd : ℤ) (id : ℕ) (called : Bool)
  /-- A connection is disconnected: at a hang-up, or from the receive path. -/
  | part (k fd : ℤ) (id : ℕ) (called : Option Bool)
  deriving DecidableEq, Repr

/-- The receive path uses its object, and around the handler if it calls it. -/
def uses (called : Bool) (id : ℕ) : List Event :=
  .access id true :: if called then [.call .onReadData id true, .access id true] else []

/-- `Disconnect` uses the object, destroys it, and calls the callback for it. -/
def parting (id : ℕ) : List Event :=
  [.access id true, .destroy id, .call .onDisconnect id false]

namespace Effect

variable (nextId : ℕ)

/-- What is added to the record. -/
def events : Effect → List Event
  | ignore => []
  | accept _ _ => [.call .onConnect nextId true]
  | refuse => [.call .onConnect nextId true, .destroy nextId]
  | handle _ fd id called => .dispatch fd id :: uses called id
  | part _ fd id called => .dispatch fd id :: ((called.elim [] (uses · id)) ++ parting id)

/-- The objects there are after it. -/
def live (ids : List ℕ) : Effect → List ℕ
  | ignore | refuse | handle _ _ _ _ => ids
  | accept _ _ => nextId :: ids
  | part _ _ id _ => ids.filter (· ≠ id)

/-- The identity of the next object after it. -/
def next : Effect → ℕ
  | ignore | handle _ _ _ _ | part _ _ _ _ => nextId
  | accept _ _ | refuse => nextId + 1

/-- The owners of the descriptors after it. -/
def owner (table : ℤ → ℤ → Option ℕ) : Effect → ℤ → ℤ → Option ℕ
  | ignore, k', fd' | refuse, k', fd' | handle _ _ _ _, k', fd' => table k' fd'
  | accept k fd, k', fd' => if k' = k ∧ fd' = fd then some nextId else table k' fd'
  | part k fd _ _, k', fd' => if k' = k ∧ fd' = fd then none else table k' fd'

/-- Whether a connection is made, and whether it is kept. -/
def created : Effect → Option Bool
  | accept _ _ => some true
  | refuse => some false
  | ignore | handle _ _ _ _ | part _ _ _ _ => none

/-- The connection that is parted with. -/
def parted : Effect → Option ℕ
  | part _ _ id _ => some id
  | ignore | accept _ _ | refuse | handle _ _ _ _ => none

end Effect

namespace TCPServer

variable {s : TCPServer} {k k' fd fd' : ℤ} {c : Connection}

/-- The object with this descriptor at a port. -/
def owner (s : TCPServer) (k fd : ℤ) : Option ℕ := (s.find? k fd).map Connection.id

/-- What an event comes to. -/
def effect (s : TCPServer) (e : Occurred) : Effect :=
  if e.hangUp then
    match s.getContext e.fd with
    | none => .ignore
    | some (k, _, c) => .part k e.fd c.id none
  else
    match s.port? e.fd with
    | some _ =>
      match e.outside.accepted with
      | none => .ignore
      | some sockFd => if e.outside.added then .accept e.fd sockFd else .refuse
    | none =>
      match s.getContext e.fd with
      | none => .ignore
      | some (k, sp, c) =>
        let called := decide (c.data.Handles e.outside.received)
        if c.data.Closes sp.maxHeaderSize e.outside.outcome e.outside.received
        then .part k e.fd c.id (some called)
        else .handle k e.fd c.id called

/-- A connection is accepted with this descriptor, and `AddFD` does not fail. -/
def Takes (s : TCPServer) (e : Occurred) (sockFd : ℤ) : Prop :=
  e.hangUp = false ∧ s.port? e.fd ≠ none ∧ e.outside.accepted = some sockFd ∧
    e.outside.added = true

/-- A connection is accepted, but `AddFD` fails. -/
def Refuses (s : TCPServer) (e : Occurred) : Prop :=
  e.hangUp = false ∧ s.port? e.fd ≠ none ∧ e.outside.accepted ≠ none ∧ e.outside.added = false

/-- A connection has the descriptor, and it hangs up or is given up. -/
def Parts (s : TCPServer) (e : Occurred) : Prop :=
  ∃ k sp c, s.getContext e.fd = some (k, sp, c) ∧ (e.hangUp = true ∨ s.port? e.fd = none ∧
    c.data.Closes sp.maxHeaderSize e.outside.outcome e.outside.received)

theorem effect_eq_refuse_iff {e : Occurred} : s.effect e = .refuse ↔ s.Refuses e := by
  unfold effect Refuses
  cases e.hangUp with
  | true =>
    cases s.getContext e.fd <;> simp
  | false =>
    cases s.port? e.fd with
    | none =>
      cases s.getContext e.fd with
      | none => simp
      | some r =>
        simp only [Bool.false_eq_true, if_false]
        split_ifs <;> simp
    | some sp =>
      cases e.outside.accepted with
      | none => simp
      | some sockFd => cases e.outside.added <;> simp

theorem effect_eq_accept_iff {e : Occurred} {sockFd : ℤ} :
    s.effect e = .accept k sockFd ↔ k = e.fd ∧ s.Takes e sockFd := by
  unfold effect Takes
  cases e.hangUp with
  | true =>
    cases s.getContext e.fd <;> simp
  | false =>
    cases s.port? e.fd with
    | none =>
      cases s.getContext e.fd with
      | none => simp
      | some r =>
        simp only [Bool.false_eq_true, if_false]
        split_ifs <;> simp
    | some sp =>
      cases e.outside.accepted with
      | none => simp
      | some sockFd' => cases e.outside.added <;> simp [eq_comm]

/-- The connection that is parted with is the one that has the descriptor. -/
theorem parted_effect {e : Occurred} {id : ℕ} (h : (s.effect e).parted = some id) :
    s.Parts e ∧ ∃ k, s.owner k e.fd = some id ∧ ∃ called, s.effect e = .part k e.fd id called := by
  unfold effect at h ⊢
  cases hup : e.hangUp with
  | true =>
    -- `OnDisconnect`
    simp only [hup, if_true] at h ⊢
    cases hctx : s.getContext e.fd with
    | none => simp [hctx, Effect.parted] at h
    | some r =>
      obtain ⟨k, sp, c⟩ := r
      simp only [hctx, Effect.parted, Option.some.injEq] at h ⊢
      subst h
      exact ⟨⟨k, sp, c, hctx, .inl hup⟩, k, by rw [owner, (getContext_eq_some hctx).2]; rfl,
        none, rfl⟩
  | false =>
    simp only [hup, Bool.false_eq_true, if_false] at h ⊢
    cases hport : s.port? e.fd with
    | some sp =>
      simp only [hport] at h
      cases hacc : e.outside.accepted with
      | none => simp [hacc, Effect.parted] at h
      | some sockFd =>
        simp only [hacc] at h
        split_ifs at h <;> cases h
    | none =>
      -- `ProcessConnection`, which may close the connection
      simp only [hport] at h ⊢
      cases hctx : s.getContext e.fd with
      | none => simp [hctx, Effect.parted] at h
      | some r =>
        obtain ⟨k, sp, c⟩ := r
        simp only [hctx] at h ⊢
        split_ifs at h ⊢ with hcl
        · cases h
          exact ⟨⟨k, sp, c, hctx, .inr ⟨hport, hcl⟩⟩, k,
            by rw [owner, (getContext_eq_some hctx).2]; rfl, _, rfl⟩
        · cases h

theorem parted_eq_none_iff {e : Occurred} : (s.effect e).parted = none ↔ ¬s.Parts e := by
  constructor
  · rintro hnone ⟨k, sp, c, hctx, hup | ⟨hport, hcl⟩⟩
    · simp [effect, hup, hctx, Effect.parted] at hnone
    · cases hup : e.hangUp with
      | true => simp [effect, hup, hctx, Effect.parted] at hnone
      | false => simp [effect, hup, hctx, hport, hcl, Effect.parted] at hnone
  · intro hnot
    cases hparted : (s.effect e).parted with
    | none => rfl
    | some id => exact absurd (parted_effect hparted).1 hnot

/-- An event for a descriptor that has an owner is passed on to it. -/
theorem effect_of_owner (h : s.Owned) {e : Occurred} {id : ℕ} (ho : s.owner k e.fd = some id) :
    (∃ called, s.effect e = .part k e.fd id called) ∨
      ∃ called, s.effect e = .handle k e.fd id called := by
  obtain ⟨c, hc, rfl⟩ := Option.map_eq_some_iff.mp ho
  obtain ⟨sp, hsp, -⟩ := Option.bind_eq_some_iff.mp hc
  have hctx : s.getContext e.fd = some (k, sp, c) := (getContext_eq_some_iff h).mpr ⟨hsp, hc⟩
  have hport : s.port? e.fd = none := (h.key hc).2.2
  unfold effect
  cases e.hangUp with
  | true => exact .inl ⟨none, by simp [hctx]⟩
  | false =>
    simp only [Bool.false_eq_true, if_false, hport, hctx]
    split_ifs
    · exact .inl ⟨_, rfl⟩
    · exact .inr ⟨_, rfl⟩

/-- An event for a descriptor that has none is for a port, or is ignored. -/
theorem effect_of_no_owner {e : Occurred} (hnone : ∀ k, s.owner k e.fd = none) :
    s.effect e = .ignore ∨ s.effect e = .refuse ∨ ∃ sockFd, s.effect e = .accept e.fd sockFd := by
  have hctx : s.getContext e.fd = none := by
    cases hctx : s.getContext e.fd with
    | none => rfl
    | some r =>
      obtain ⟨k, sp, c⟩ := r
      have hid := hnone k
      rw [owner, (getContext_eq_some hctx).2] at hid
      cases hid
  unfold effect
  cases e.hangUp with
  | true => exact .inl (by simp [hctx])
  | false =>
    cases s.port? e.fd with
    | none => exact .inl (by simp [hctx])
    | some sp =>
      cases e.outside.accepted with
      | none => exact .inl rfl
      | some sockFd =>
        cases e.outside.added with
        | true => exact .inr (.inr ⟨sockFd, rfl⟩)
        | false => exact .inr (.inl rfl)

/-- `accept` returns a descriptor that is not open. -/
def Legal (s : TCPServer) (e : Occurred) : Prop :=
  ∀ sockFd, e.outside.accepted = some sockFd → s.Unused sockFd

/-- `s'` follows `s` by an abstract step. -/
structure Follows (s s' : TCPServer) (f : Effect) : Prop where
  owned : s'.Owned
  log : s'.log = s.log ++ f.events s.nextId
  live : s'.live = f.live s.nextId s.live
  nextId : s'.nextId = f.next s.nextId
  owner : ∀ k fd, s'.owner k fd = f.owner s.nextId s.owner k fd
  ports : ∀ k, s'.port? k = none ↔ s.port? k = none

theorem Follows.ignore (h : s.Owned) : Follows s s .ignore where
  owned := h
  log := (List.append_nil _).symm
  live := rfl
  nextId := rfl
  owner := fun _ _ => rfl
  ports := fun _ => Iff.rfl

/-! ### The functions follow it -/

theorem owner_eq_some (hc : s.find? k fd = some c) : s.owner k fd = some c.id := by
  rw [owner, hc]
  rfl

theorem access_of_mem {id : ℕ} (h : id ∈ s.live) : s.access id = s.record (.access id true) := by
  rw [access, decide_eq_true h]

theorem call_of_mem {id : ℕ} (f : Callback) (h : id ∈ s.live) :
    s.call f id = s.record (.call f id true) := by
  rw [call, decide_eq_true h]

/-- The owners do not change with the fields of an object. -/
theorem owner_setData (data : ConnectionData) (k' fd' : ℤ) :
    (s.setData k fd data).owner k' fd' = s.owner k' fd' := by
  rw [owner, find?_setData, owner]
  split_ifs
  · cases s.find? k' fd' <;> rfl
  · rfl

/-- `Disconnect`. -/
theorem disconnect_eq (h : s.Owned) (hc : s.find? k fd = some c) {c' : Connection}
    (hid : c'.id = c.id) (hsock : c'.data.sockFd = fd) :
    s.disconnect k c' = { s.eraseConnection k fd with log := s.log ++ parting c.id } := by
  have hlive : c.id ∈ s.live := h.mem_live hc
  have hgone : c.id ∉ ((s.record (.access c.id true)).eraseConnection k fd).live := by
    rw [eraseConnection_of_find? (s := s.record _) (c := c) hc]
    simp [destroy]
  rw [disconnect, hid, hsock, access_of_mem hlive]
  simp only
  rw [call, decide_eq_false hgone, eraseConnection_of_find? (s := s.record _) (c := c) hc,
    eraseConnection_of_find? hc]
  simp [record, destroy, modifyConnections, parting]

/-- `Disconnect`, for an owner. -/
theorem follows_disconnect (h : s.Owned) (hc : s.find? k fd = some c) {c' : Connection}
    (hid : c'.id = c.id) (hsock : c'.data.sockFd = fd) {s₀ : TCPServer} (called : Option Bool)
    (hlog : s.log = s₀.log ++ .dispatch fd c.id :: called.elim [] (uses · c.id))
    (hlive : s.live = s₀.live) (hnext : s.nextId = s₀.nextId)
    (howner : ∀ k fd, s.owner k fd = s₀.owner k fd)
    (hports : ∀ k, s.port? k = none ↔ s₀.port? k = none) :
    Follows s₀ (s.disconnect k c') (.part k fd c.id called) := by
  rw [disconnect_eq h hc hid hsock]
  constructor
  · exact (h.eraseConnection k fd).congr rfl rfl rfl
  · show s.log ++ parting c.id = _
    rw [hlog]
    simp [Effect.events]
  · show (s.eraseConnection k fd).live = _
    rw [eraseConnection_of_find? hc]
    exact congrArg (List.filter (· ≠ c.id)) hlive
  · show (s.eraseConnection k fd).nextId = _
    rw [eraseConnection_of_find? hc]
    exact hnext
  · intro k' fd'
    show (s.eraseConnection k fd).owner k' fd' = if k' = k ∧ fd' = fd then none else s₀.owner k' fd'
    rw [owner, find?_eraseConnection, ← howner, owner]
    split_ifs <;> rfl
  · intro k'
    exact port?_eraseConnection_eq_none.trans (hports k')

/-- `ConnectionProcessing`, up to the point where it may disconnect. -/
theorem processConnection_eq (h : s.Owned) (hc : s.find? k fd = some c) (sp : ServerPort)
    (x : Outside) : s.processConnection k sp c x =
      let r := connectionProcessing sp.maxHeaderSize s.nowTime c.data x.received x.outcome
      let t := { s.setData k fd r.connection with
        log := s.log ++ uses (decide (c.data.Handles x.received)) c.id }
      if c.data.Closes sp.maxHeaderSize x.outcome x.received
      then t.disconnect k { c with data := r.connection } else t := by
  have hlive : c.id ∈ s.live := h.mem_live hc
  rw [processConnection, access_of_mem hlive,
    call_of_mem (s := s.record (.access c.id true)) _ hlive,
    access_of_mem (s := (s.record (.access c.id true)).record _) hlive, (h.key hc).1]
  simp only [disconnected_iff_closes, view_isSome_iff_handles]
  by_cases hh : c.data.Handles x.received
  · simp [hh, uses, record, setData, modifyConnections]
  · simp [hh, uses, record, setData, modifyConnections]

theorem follows_processConnection (h : s.Owned) {sp : ServerPort}
    (hc : s.find? k fd = some c) (x : Outside) :
    Follows s ((s.record (.dispatch fd c.id)).processConnection k sp c x)
      (if c.data.Closes sp.maxHeaderSize x.outcome x.received
        then .part k fd c.id (some (decide (c.data.Handles x.received)))
        else .handle k fd c.id (decide (c.data.Handles x.received))) := by
  have hsock : (connectionProcessing sp.maxHeaderSize s.nowTime c.data x.received
      x.outcome).connection.sockFd = fd := connectionProcessing_sockFd.trans (h.key hc).1
  rw [processConnection_eq (s := s.record _) (h.record _) hc]
  generalize hdata : (connectionProcessing sp.maxHeaderSize s.nowTime c.data x.received
    x.outcome).connection = data at hsock
  have hdata' : (connectionProcessing sp.maxHeaderSize (s.record (.dispatch fd c.id)).nowTime c.data
    x.received x.outcome).connection = data := hdata
  simp only [hdata']
  have howned : Owned { (s.record (.dispatch fd c.id)).setData k fd data with
      log := (s.record (.dispatch fd c.id)).log ++
        uses (decide (c.data.Handles x.received)) c.id } :=
    ((h.record _).setData hsock).congr rfl rfl rfl
  have hlog : (s.record (.dispatch fd c.id)).log ++ uses (decide (c.data.Handles x.received)) c.id =
      s.log ++ .dispatch fd c.id :: uses (decide (c.data.Handles x.received)) c.id := by
    simp [record]
  have hports : ∀ k', (s.setData k fd data).port? k' = none ↔ s.port? k' = none :=
    fun k' => port?_modifyConnections_eq_none _
  by_cases hcl : c.data.Closes sp.maxHeaderSize x.outcome x.received
  · -- the object is written back before it is destroyed
    rw [if_pos hcl, if_pos hcl]
    have hfind : (s.setData k fd data).find? k fd = some { c with data := data } := by
      rw [find?_setData, if_pos ⟨rfl, rfl⟩, hc]
      rfl
    exact follows_disconnect howned hfind rfl hsock (some _) hlog rfl rfl
      (fun k' fd' => owner_setData (s := s) data k' fd') hports
  · rw [if_neg hcl, if_neg hcl]
    exact ⟨howned, hlog, rfl, rfl, fun k' fd' => owner_setData (s := s) data k' fd', hports⟩

/-- A new connection at a port. -/
theorem follows_acceptConnection (h : s.Owned) {sp : ServerPort} (hk : s.port? k = some sp)
    {sockFd : ℤ} (hfd : s.Unused sockFd) (x : Outside) :
    Follows s (s.acceptConnection k sp sockFd x)
      (if x.added then .accept k sockFd else .refuse) := by
  -- the object is alive when `OnConnect` is called
  have hcall : s.create.call .onConnect s.nextId =
      (s.record (.call .onConnect s.nextId true)).create :=
    call_of_mem (s := s.create) _ List.mem_cons_self
  rw [acceptConnection]
  simp only [hcall]
  have howned := h.record (.call .onConnect s.nextId true)
  by_cases hadd : x.added = true
  · rw [if_pos hadd, if_pos hadd]
    generalize hc : Connection.mk s.nextId ((newConnectionData sockFd s.nowTime
      sp.connectTimeout).greet x.connected) = c
    have hid : c.id = s.nextId := by rw [← hc]
    have hsock : c.data.sockFd = sockFd := by rw [← hc]; rfl
    have hassign := assignConnection_of_none
      (s := (s.record (.call .onConnect s.nextId true)).create) (c := c) (hfd.connection k)
    refine ⟨howned.assign_new hk ⟨hfd.nonneg, hfd.port, hfd.connection⟩ hid hsock,
      ?_, ?_, ?_, ?_, ?_⟩
    · rw [hassign]
      rfl
    · rw [hassign]
      rfl
    · rw [hassign]
      rfl
    · intro k' fd'
      rw [hassign, owner, find?_insert
        (s := (s.record (.call .onConnect s.nextId true)).create) hk]
      show _ = if k' = k ∧ fd' = sockFd then some s.nextId else s.owner k' fd'
      split_ifs
      · exact congrArg some hid
      · rfl
    · intro k'
      rw [hassign]
      exact port?_modifyConnections_eq_none
        (s := (s.record (.call .onConnect s.nextId true)).create) _
  · rw [if_neg hadd, if_neg hadd]
    refine ⟨howned.destroy_new, ?_, ?_, rfl, fun _ _ => rfl, fun _ => Iff.rfl⟩
    · show (s.log ++ [_]) ++ [_] = s.log ++ [_, _]
      rw [List.append_assoc]
      rfl
    · exact h.live_create_destroy

/-- **The server follows the abstract step of each event.** -/
theorem follows_onOccurred (h : s.Owned) {e : Occurred} (hlegal : s.Legal e) :
    Follows s (s.onOccurred e) (s.effect e) := by
  unfold onOccurred effect
  cases e.hangUp with
  | true =>
    simp only [if_true, onDisconnect]
    cases hctx : s.getContext e.fd with
    | none => exact .ignore h
    | some r =>
      obtain ⟨k, sp, c⟩ := r
      obtain ⟨-, hc⟩ := getContext_eq_some hctx
      exact follows_disconnect (s := s.record _) (h.record _) hc rfl (h.key hc).1
        none rfl rfl rfl (fun _ _ => rfl) fun _ => Iff.rfl
  | false =>
    simp only [Bool.false_eq_true, if_false, onEvent]
    cases hport : s.port? e.fd with
    | some sp =>
      simp only
      cases hacc : e.outside.accepted with
      | none => exact .ignore h
      | some sockFd => exact follows_acceptConnection h hport (hlegal sockFd hacc) e.outside
    | none =>
      simp only
      cases hctx : s.getContext e.fd with
      | none => exact .ignore h
      | some r =>
        obtain ⟨k, sp, c⟩ := r
        exact follows_processConnection h (getContext_eq_some hctx).2 e.outside

end TCPServer

end Server
end PeeledOrange
