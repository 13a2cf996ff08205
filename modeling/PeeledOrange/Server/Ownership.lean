import PeeledOrange.Server.TcpServer
import Mathlib.Data.Option.Basic

/-!
# Who owns a descriptor

Every open connection has its object under its descriptor at one port, and the
objects there are are the ones in the maps: that is what lets a descriptor, or a
plain pointer in a context, stand for an object at all.  This module sees each
update of the server through `find?` and keeps that invariant.

## Main definitions

* `TCPServer.Owned` — the invariant.
* `TCPServer.Unused` — a descriptor that is not open, as `accept` returns them.

## Main results

* `TCPServer.getContext_eq_some_iff` — `getContext` finds the owner.
* `Owned.eraseConnection`, `Owned.destroy_new`, `Owned.assign_new`, `Owned.setData` —
  **the updates keep the invariant.**
-/

namespace PeeledOrange
namespace Server

namespace TCPServer

variable {s : TCPServer} {k k' fd fd' : ℤ} {c : Connection}

/-! ### The updates, seen through `find?` -/

theorem port?_modifyConnections (f : OrderedMap ℤ Connection → OrderedMap ℤ Connection) :
    (s.modifyConnections k f).port? k' =
      if k' = k then (s.port? k').map fun sp => { sp with connections := f sp.connections }
      else s.port? k' := OrderedMap.find?_modify ..

theorem find?_modifyConnections (f : OrderedMap ℤ Connection → OrderedMap ℤ Connection) :
    (s.modifyConnections k f).find? k' fd =
      if k' = k then (s.port? k').bind fun sp => (f sp.connections).find? fd
      else s.find? k' fd := by
  rw [find?, port?_modifyConnections]
  split_ifs
  · cases s.port? k' <;> rfl
  · rfl

/-- The ports stay where they are. -/
theorem port?_modifyConnections_eq_none
    (f : OrderedMap ℤ Connection → OrderedMap ℤ Connection) :
    (s.modifyConnections k f).port? k' = none ↔ s.port? k' = none := by
  rw [port?_modifyConnections]
  split_ifs
  · exact Option.map_eq_none_iff
  · exact Iff.rfl

theorem eraseConnection_of_find? (h : s.find? k fd = some c) :
    s.eraseConnection k fd = (s.modifyConnections k (·.erase fd)).destroy c.id := by
  rw [eraseConnection, h]

theorem eraseConnection_of_none (h : s.find? k fd = none) : s.eraseConnection k fd = s := by
  rw [eraseConnection, h]

theorem find?_eraseConnection : (s.eraseConnection k fd).find? k' fd' =
    if k' = k ∧ fd' = fd then none else s.find? k' fd' := by
  cases h : s.find? k fd with
  | none =>
    rw [eraseConnection_of_none h]
    split_ifs with heq
    · rw [heq.1, heq.2, h]
    · rfl
  | some c =>
    rw [eraseConnection_of_find? h]
    show (s.modifyConnections k (·.erase fd)).find? k' fd' = _
    rw [find?_modifyConnections]
    by_cases hk : k' = k
    · subst hk
      simp only [if_true, true_and, OrderedMap.find?_erase]
      split_ifs with hfd
      · exact Option.bind_fun_none _
      · rfl
    · rw [if_neg hk, if_neg fun heq => hk heq.1]

theorem port?_eraseConnection_eq_none :
    (s.eraseConnection k fd).port? k' = none ↔ s.port? k' = none := by
  cases h : s.find? k fd with
  | none => rw [eraseConnection_of_none h]
  | some c =>
    rw [eraseConnection_of_find? h]
    exact port?_modifyConnections_eq_none (s := s) (k := k) (·.erase fd)

/-- The entry was free. -/
theorem assignConnection_of_none (h : s.find? k fd = none) :
    s.assignConnection k fd c = s.modifyConnections k (·.insert fd c) := by
  rw [assignConnection, h]

theorem find?_insert {sp : ServerPort} (hk : s.port? k = some sp) :
    (s.modifyConnections k (·.insert fd c)).find? k' fd' =
      if k' = k ∧ fd' = fd then some c else s.find? k' fd' := by
  rw [find?_modifyConnections]
  by_cases hk' : k' = k
  · subst hk'
    rw [if_pos rfl, hk, Option.bind_some, OrderedMap.find?_insert]
    split_ifs with h1 h2 h2
    · rfl
    · exact absurd ⟨rfl, h1⟩ h2
    · exact absurd h2.2 h1
    · rw [find?, hk, Option.bind_some]
  · rw [if_neg hk', if_neg fun heq => hk' heq.1]

theorem find?_setData (data : ConnectionData) : (s.setData k fd data).find? k' fd' =
    if k' = k ∧ fd' = fd then (s.find? k' fd').map fun c => { c with data := data }
    else s.find? k' fd' := by
  rw [setData, find?_modifyConnections]
  by_cases hk : k' = k
  · subst hk
    simp only [if_true, true_and, OrderedMap.find?_modify]
    rw [find?]
    split_ifs
    · cases s.port? k' <;> rfl
    · rfl
  · rw [if_neg hk, if_neg fun heq => hk heq.1]

/-! ### The owner of a descriptor -/

/-- A descriptor that is not open: no port listens on it and no connection has it. -/
structure Unused (s : TCPServer) (fd : ℤ) : Prop where
  nonneg : 0 ≤ fd
  port : s.port? fd = none
  connection : ∀ k, s.find? k fd = none

/-- Every connection is under its descriptor, at one port, with an object of its own,
and there are no other objects. -/
structure Owned (s : TCPServer) : Prop where
  key : ∀ {k fd c}, s.find? k fd = some c → c.data.sockFd = fd ∧ 0 ≤ fd ∧ s.port? fd = none
  port : ∀ {k k' fd c c'}, s.find? k fd = some c → s.find? k' fd = some c' → k = k'
  object : ∀ {k fd c k' fd' c'}, s.find? k fd = some c → s.find? k' fd' = some c' →
    c.id = c'.id → k = k' ∧ fd = fd'
  live : ∀ {id}, id ∈ s.live ↔ ∃ k fd c, s.find? k fd = some c ∧ c.id = id
  fresh : ∀ {id}, id ∈ s.live → id < s.nextId

theorem getContext_eq_some {sp : ServerPort} (h : s.getContext fd = some (k, sp, c)) :
    s.port? k = some sp ∧ s.find? k fd = some c := by
  obtain ⟨⟨k', sp'⟩, hmem, he⟩ := List.exists_of_findSome?_eq_some h
  obtain ⟨c', hc', heq⟩ := Option.map_eq_some_iff.mp he
  simp only [Prod.mk.injEq] at heq
  obtain ⟨rfl, rfl, rfl⟩ := heq
  have hport : s.port? k' = some sp' := OrderedMap.find?_eq_some_iff.mpr hmem
  exact ⟨hport, by rw [find?, hport]; exact hc'⟩

theorem getContext_eq_none (h : s.getContext fd = none) (k : ℤ) : s.find? k fd = none := by
  rw [find?]
  cases hport : s.port? k with
  | none => rfl
  | some sp =>
    have hmem : (k, sp) ∈ s.serverPorts.entries := OrderedMap.find?_eq_some_iff.mp hport
    have hnone := List.findSome?_eq_none_iff.mp h _ hmem
    exact Option.map_eq_none_iff.mp hnone

/-- `getContext` finds the owner. -/
theorem getContext_eq_some_iff (h : s.Owned) {sp : ServerPort} :
    s.getContext fd = some (k, sp, c) ↔ s.port? k = some sp ∧ s.find? k fd = some c := by
  refine ⟨getContext_eq_some, fun ⟨hport, hfind⟩ => ?_⟩
  cases hctx : s.getContext fd with
  | none =>
    rw [getContext_eq_none hctx k] at hfind
    cases hfind
  | some r =>
    obtain ⟨k', sp', c'⟩ := r
    obtain ⟨hport', hfind'⟩ := getContext_eq_some hctx
    obtain rfl := h.port hfind hfind'
    rw [hport] at hport'
    rw [hfind] at hfind'
    cases hport'
    cases hfind'
    rfl

namespace Owned

/-- An object that is in the maps is alive. -/
theorem mem_live (h : s.Owned) (hc : s.find? k fd = some c) : c.id ∈ s.live :=
  h.live.mpr ⟨k, fd, c, hc, rfl⟩

/-- Only the record changes. -/
theorem congr {s' : TCPServer} (h : s.Owned) (hports : s'.serverPorts = s.serverPorts)
    (hlive : s'.live = s.live) (hnext : s'.nextId = s.nextId) : s'.Owned := by
  have hport : ∀ k, s'.port? k = s.port? k := fun k => by rw [port?, hports, port?]
  have hfind : ∀ k fd, s'.find? k fd = s.find? k fd := fun k fd => by rw [find?, hport, find?]
  constructor
  · intro k fd c hc
    rw [hfind] at hc
    rw [hport]
    exact h.key hc
  · intro k k' fd c c' hc hc'
    rw [hfind] at hc hc'
    exact h.port hc hc'
  · intro k fd c k' fd' c' hc hc' hid
    rw [hfind] at hc hc'
    exact h.object hc hc' hid
  · intro id
    simp only [hlive, hfind]
    exact h.live
  · intro id hid
    rw [hlive] at hid
    rw [hnext]
    exact h.fresh hid

theorem record (h : s.Owned) (e : Event) : (s.record e).Owned := h.congr rfl rfl rfl

/-- An entry is erased, and its object is gone. -/
theorem eraseConnection (h : s.Owned) (k fd : ℤ) : (s.eraseConnection k fd).Owned := by
  cases hc : s.find? k fd with
  | none => rw [eraseConnection_of_none hc]; exact h
  | some c =>
    have hlive : (s.eraseConnection k fd).live = s.live.filter (· ≠ c.id) := by
      rw [eraseConnection_of_find? hc]
      rfl
    have hnext : (s.eraseConnection k fd).nextId = s.nextId := by
      rw [eraseConnection_of_find? hc]
      rfl
    -- what is left was there before
    have hold : ∀ {k' fd' c'}, (s.eraseConnection k fd).find? k' fd' = some c' →
        ¬(k' = k ∧ fd' = fd) ∧ s.find? k' fd' = some c' := by
      intro k' fd' c' hc'
      rw [find?_eraseConnection] at hc'
      split_ifs at hc' with heq
      exact ⟨heq, hc'⟩
    constructor
    · intro k' fd' c' hc'
      rw [port?_eraseConnection_eq_none]
      exact h.key (hold hc').2
    · intro k' k'' fd' c' c'' hc' hc''
      exact h.port (hold hc').2 (hold hc'').2
    · intro k' fd' c' k'' fd'' c'' hc' hc'' hid
      exact h.object (hold hc').2 (hold hc'').2 hid
    · -- of the live objects, just the one of the entry is destroyed
      intro id
      rw [hlive, List.mem_filter, decide_eq_true_eq, h.live]
      constructor
      · rintro ⟨⟨k', fd', c', hc', rfl⟩, hne⟩
        refine ⟨k', fd', c', ?_, rfl⟩
        rw [find?_eraseConnection, if_neg, hc']
        rintro ⟨rfl, rfl⟩
        rw [hc] at hc'
        cases hc'
        exact hne rfl
      · rintro ⟨k', fd', c', hc', rfl⟩
        obtain ⟨hne, hc'⟩ := hold hc'
        exact ⟨⟨k', fd', c', hc', rfl⟩, fun hid => hne (h.object hc' hc hid)⟩
    · intro id hid
      rw [hlive, List.mem_filter] at hid
      rw [hnext]
      exact h.fresh hid.1

/-- The identity of a new object is not one of the others. -/
theorem live_create_destroy (h : s.Owned) : (s.create.destroy s.nextId).live = s.live := by
  show (s.nextId :: s.live).filter (· ≠ s.nextId) = s.live
  rw [List.filter_cons_of_neg (by simp), List.filter_eq_self]
  intro id hid
  simpa using Nat.ne_of_lt (h.fresh hid)

/-- A new object dies without having been put into a map. -/
theorem destroy_new (h : s.Owned) : (s.create.destroy s.nextId).Owned := by
  have hlive := h.live_create_destroy
  refine ⟨h.key, h.port, h.object, ?_, fun hid => ?_⟩
  · rw [hlive]
    exact h.live
  · rw [hlive] at hid
    exact Nat.lt_succ_of_lt (h.fresh hid)

/-- A new object is put into the map of a port, under an unused descriptor. -/
theorem assign_new (h : s.Owned) {sp : ServerPort} (hk : s.port? k = some sp) (hfd : s.Unused fd)
    (hid : c.id = s.nextId) (hsock : c.data.sockFd = fd) :
    (s.create.assignConnection k fd c).Owned := by
  rw [assignConnection_of_none (s := s.create) (hfd.connection k)]
  have hfind : ∀ k' fd', (s.create.modifyConnections k (·.insert fd c)).find? k' fd' =
      if k' = k ∧ fd' = fd then some c else s.find? k' fd' :=
    fun k' fd' => find?_insert (s := s.create) hk
  have hport : ∀ fd', (s.create.modifyConnections k (·.insert fd c)).port? fd' = none ↔
      s.port? fd' = none := fun fd' => port?_modifyConnections_eq_none (s := s.create) _
  have hnew : ∀ {k' fd' c'}, s.find? k' fd' = some c' → c'.id ≠ c.id := fun hc' => by
    rw [hid]
    exact Nat.ne_of_lt (h.fresh (h.mem_live hc'))
  have hunused : ∀ {k' c'}, s.find? k' fd = some c' → False := fun {k' _} hc' => by
    rw [hfd.connection k'] at hc'
    cases hc'
  constructor
  · -- the descriptor is the key
    intro k' fd' c' hc'
    rw [hfind] at hc'
    rw [hport]
    split_ifs at hc' with heq
    · cases hc'
      rw [heq.2]
      exact ⟨hsock, hfd.nonneg, hfd.port⟩
    · exact h.key hc'
  · -- no descriptor is at two ports
    intro k' k'' fd' c' c'' hc' hc''
    rw [hfind] at hc' hc''
    split_ifs at hc' hc'' with heq heq' heq'
    · rw [heq.1, heq'.1]
    · rw [heq.2] at hc''
      exact (hunused hc'').elim
    · rw [heq'.2] at hc'
      exact (hunused hc').elim
    · exact h.port hc' hc''
  · -- no object is at two entries
    intro k' fd' c' k'' fd'' c'' hc' hc'' heqid
    rw [hfind] at hc' hc''
    split_ifs at hc' hc'' with heq heq' heq'
    · exact ⟨heq.1.trans heq'.1.symm, heq.2.trans heq'.2.symm⟩
    · cases hc'
      exact absurd heqid.symm (hnew hc'')
    · cases hc''
      exact absurd heqid (hnew hc')
    · exact h.object hc' hc'' heqid
  · -- the live objects are those of the entries
    intro id
    simp only [hfind]
    show id ∈ s.nextId :: s.live ↔ _
    rw [List.mem_cons, h.live]
    constructor
    · rintro (rfl | ⟨k', fd', c', hc', rfl⟩)
      · exact ⟨k, fd, c, by rw [if_pos ⟨rfl, rfl⟩], hid⟩
      · refine ⟨k', fd', c', ?_, rfl⟩
        rw [if_neg, hc']
        rintro ⟨rfl, rfl⟩
        exact hunused hc'
    · rintro ⟨k', fd', c', hc', rfl⟩
      split_ifs at hc'
      · cases hc'
        exact .inl hid
      · exact .inr ⟨k', fd', c', hc', rfl⟩
  · -- the next object is a new one
    intro id hmem
    rcases List.mem_cons.mp hmem with rfl | hmem
    · exact Nat.lt_succ_self _
    · exact Nat.lt_succ_of_lt (h.fresh hmem)

/-- The fields of an object change, but not its descriptor. -/
theorem setData (h : s.Owned) {data : ConnectionData} (hsock : data.sockFd = fd) :
    (s.setData k fd data).Owned := by
  have hfind : ∀ {k' fd' c'}, (s.setData k fd data).find? k' fd' = some c' →
      ∃ c, s.find? k' fd' = some c ∧ c'.id = c.id ∧ (c'.data.sockFd = c.data.sockFd ∨
        c'.data.sockFd = fd') := by
    intro k' fd' c' hc'
    rw [find?_setData] at hc'
    split_ifs at hc' with heq
    · obtain ⟨c, hc, rfl⟩ := Option.map_eq_some_iff.mp hc'
      exact ⟨c, hc, rfl, .inr (hsock.trans heq.2.symm)⟩
    · exact ⟨c', hc', rfl, .inl rfl⟩
  constructor
  · intro k' fd' c' hc'
    obtain ⟨c, hc, -, hsock'⟩ := hfind hc'
    obtain ⟨hkey, hnonneg, hport⟩ := h.key hc
    refine ⟨?_, hnonneg, (port?_modifyConnections_eq_none _).mpr hport⟩
    rcases hsock' with heq | heq
    · exact heq.trans hkey
    · exact heq
  · intro k' k'' fd' c' c'' hc' hc''
    obtain ⟨_, hc', -⟩ := hfind hc'
    obtain ⟨_, hc'', -⟩ := hfind hc''
    exact h.port hc' hc''
  · intro k' fd' c' k'' fd'' c'' hc' hc'' hid
    obtain ⟨_, hc', heq', -⟩ := hfind hc'
    obtain ⟨_, hc'', heq'', -⟩ := hfind hc''
    exact h.object hc' hc'' (heq'.symm.trans (hid.trans heq''))
  · -- the same objects are live, at the same entries
    intro id
    show id ∈ s.live ↔ _
    rw [h.live]
    constructor
    · rintro ⟨k', fd', c, hc, rfl⟩
      by_cases heq : k' = k ∧ fd' = fd
      · refine ⟨k', fd', { c with data := data }, ?_, rfl⟩
        rw [find?_setData, if_pos heq, hc]
        rfl
      · refine ⟨k', fd', c, ?_, rfl⟩
        rw [find?_setData, if_neg heq, hc]
    · rintro ⟨k', fd', c', hc', rfl⟩
      obtain ⟨c, hc, heq, -⟩ := hfind hc'
      exact ⟨k', fd', c, hc, heq.symm⟩
  · exact h.fresh

end Owned

end TCPServer

end Server
end PeeledOrange
