import PeeledOrange.Db.Rules
import Mathlib.Data.List.Perm.Basic
import Mathlib.Data.List.Count

/-!
# Every query is answered once

A query that `Query` has taken is in one place at any moment: in the queue, in
the slot of one connection, or passed to `OnResult`.  The places are counted
together, so that being in one of them, being in no other, and never getting
lost are one statement: the identities of all places are a permutation of the
accepted ones.  That permutation is what every block keeps.

## Main definitions

* `Client.slotIds`, `Client.placeIds` — the queries in slots, and in any place.
* `keepWhileBusy` — a hook takes its connection out of the ready state only with
  no query attached.
* `Accounted` — each accepted query is in exactly one place.

## Main results

* `accounted_of_reachable` — **each accepted query is in exactly one place, is
  delivered at most once, and none is lost, at every moment of every run.**
-/

namespace PeeledOrange
namespace Db

open Callback
open scoped List

/-! ### A list of slots -/

section Slots

variable {κ ι : Type} [DecidableEq κ]

theorem filterMap_update_of_notMem (f : κ → Option ι) (v : Option ι) {c : κ} :
    ∀ {l : List κ}, c ∉ l → l.filterMap (Function.update f c v) = l.filterMap f := by
  intro l hc
  refine List.filterMap_congr fun x hx => ?_
  rw [Function.update_of_ne]
  rintro rfl
  exact hc hx

/-- Putting `v` into the slot `c` of a list of slots exchanges what it held for `v`. -/
theorem filterMap_update_perm (f : κ → Option ι) (v : Option ι) {c : κ} :
    ∀ {l : List κ}, l.Nodup → c ∈ l →
      (f c).toList ++ l.filterMap (Function.update f c v) ~ v.toList ++ l.filterMap f := by
  intro l
  induction l with
  | nil => intro _ hc; simp at hc
  | cons a l ih =>
    intro hnd hc
    obtain ⟨ha, hnd⟩ := List.nodup_cons.mp hnd
    -- the head of a list of slots, as a list
    have hcons : ∀ (g : κ → Option ι), (a :: l).filterMap g = (g a).toList ++ l.filterMap g := by
      intro g
      rw [List.filterMap_cons]
      cases g a <;> rfl
    rw [hcons, hcons]
    by_cases hac : a = c
    · subst hac
      rw [filterMap_update_of_notMem f v ha, Function.update_self, ← List.append_assoc,
        ← List.append_assoc]
      exact List.perm_append_comm.append_right _
    · have hcl : c ∈ l := (List.mem_cons.mp hc).resolve_left (Ne.symm hac)
      rw [Function.update_of_ne hac]
      have hswap : ∀ x y z : List ι, x ++ (y ++ z) ~ y ++ (x ++ z) := fun x y z => by
        rw [← List.append_assoc, ← List.append_assoc]
        exact List.perm_append_comm.append_right z
      calc (f c).toList ++ ((f a).toList ++ l.filterMap (Function.update f c v))
          ~ (f a).toList ++ ((f c).toList ++ l.filterMap (Function.update f c v)) := hswap _ _ _
        _ ~ (f a).toList ++ (v.toList ++ l.filterMap f) := (ih hnd hcl).append_left _
        _ ~ v.toList ++ ((f a).toList ++ l.filterMap f) := hswap _ _ _

/-- Replacing an empty slot's owner by another with an empty slot. -/
theorem filterMap_set_of_none {κ ι : Type} {f : κ → Option ι} {n : κ} (hn : f n = none) :
    ∀ {l : List κ} {i : ℕ}, (∀ x, l[i]? = some x → f x = none) →
      (l.set i n).filterMap f = l.filterMap f := by
  intro l
  induction l with
  | nil => intro i _; rfl
  | cons a l ih =>
    intro i hi
    cases i with
    | zero =>
      rw [List.set_cons_zero, List.filterMap_cons_none hn, List.filterMap_cons_none (hi a rfl)]
    | succ i =>
      rw [List.set_cons_succ, List.filterMap_cons, List.filterMap_cons,
        ih fun x hx => hi x (by simpa using hx)]

end Slots

/-! ### Places -/

namespace Client

variable (s : Client)

/-- The query in the slot of `c`. -/
def slot (c : ConnPtr) : Option ℕ := (s.conn c).query.map QueryData.id

/-- The queries in the slots of the connection objects there are. -/
def slotIds : List ℕ := (s.connections ++ s.badConnections).filterMap s.slot

/-- The queries in all places: queued, in a slot, or delivered. -/
def placeIds : List ℕ :=
  s.queries.map QueryData.id ++ (s.slotIds ++ s.delivered.map QueryData.id)

theorem slot_setConn (c : ConnPtr) (d : DbConnection) :
    (s.setConn c d).slot = Function.update s.slot c (d.query.map QueryData.id) := by
  funext x
  by_cases hx : x = c
  · subst hx; simp [slot, setConn]
  · simp [slot, setConn, Function.update_of_ne hx]

/-- A change that leaves the slot's query in place. -/
theorem slotIds_setConn {c : ConnPtr} {d : DbConnection}
    (h : d.query.map QueryData.id = s.slot c) : (s.setConn c d).slotIds = s.slotIds := by
  have hslot : (s.setConn c d).slot = s.slot := by
    rw [slot_setConn, h, Function.update_eq_self]
  show (s.connections ++ s.badConnections).filterMap (s.setConn c d).slot = s.slotIds
  rw [hslot, slotIds]

end Client

/-- Each query that `Query` has returned true for, and each that it is about to, is
in exactly one place; none is delivered twice, and none was overwritten or
destroyed undelivered. -/
structure Accounted (s : Client) : Prop where
  once : ∀ id, (id, true) ∈ s.returned ∨ id ∈ s.accepted → s.placeIds.count id = 1
  delivered : (s.delivered.map QueryData.id).Nodup
  lost : s.lost = []

/-- The places hold the accepted queries, each once. -/
structure Conserved (s : Client) : Prop where
  places : s.placeIds ~ s.accepted
  nodup : s.accepted.Nodup
  lost : s.lost = []
  returned : ∀ id, (id, true) ∈ s.returned → id ∈ s.accepted

theorem Conserved.accounted {s : Client} (h : Conserved s) : Accounted s where
  once := fun id hid => by
    rw [h.places.count_eq]
    exact List.count_eq_one_of_mem h.nodup (hid.elim (h.returned id) fun ha => ha)
  delivered := by
    have hnd : s.placeIds.Nodup := h.places.nodup_iff.mpr h.nodup
    exact (List.nodup_append.mp (List.nodup_append.mp hnd).2.1).2.1
  lost := h.lost

namespace Conserved

variable {s s' : Client} {c : ConnPtr}

/-- Nothing moves. -/
theorem congr (h : Conserved s) (hq : s'.queries = s.queries) (hsl : s'.slotIds = s.slotIds)
    (hd : s'.delivered = s.delivered) (ha : s'.accepted = s.accepted) (hl : s'.lost = s.lost)
    (hr : s'.returned = s.returned) : Conserved s' := by
  refine ⟨?_, by rw [ha]; exact h.nodup, by rw [hl]; exact h.lost,
    by rw [hr, ha]; exact h.returned⟩
  rw [Client.placeIds, hq, hsl, hd, ha]
  exact h.places

/-- A free slot takes a query. -/
theorem slotIds_attach (hb : (s.connections ++ s.badConnections).Nodup) (hc : c ∈ s.connections)
    (hfree : s.isFree c = true) (q : QueryData) :
    (s.attach c q).slotIds ~ q.id :: s.slotIds := by
  have hnone : s.slot c = none := by simp [Client.slot, (isFree_iff.mp hfree).2]
  have hp := filterMap_update_perm s.slot (some q.id) hb (List.mem_append_left _ hc)
  rw [hnone] at hp
  have hslot : (s.attach c q).slot = Function.update s.slot c (some q.id) := by
    rw [← Option.map_some (f := QueryData.id) (a := q)]
    exact s.slot_setConn c _
  show (s.connections ++ s.badConnections).filterMap (s.attach c q).slot ~ _
  rw [hslot]
  exact hp

theorem lost_attach (h : Conserved s) (hfree : s.isFree c = true) (q : QueryData) :
    (s.attach c q).lost = [] := by
  simp [Client.attach, h.lost, (isFree_iff.mp hfree).2]

theorem start (h : Conserved s) (hb : (s.connections ++ s.badConnections).Nodup)
    (hc : c ∈ s.connections) (hfree : s.isFree c = true) {pq : QueryData}
    (hid : pq.id ∉ s.accepted) : Conserved (s.start c pq) where
  places := by
    have hsl := slotIds_attach hb hc hfree pq
    calc (s.start c pq).placeIds
        ~ s.queries.map QueryData.id ++ ((pq.id :: s.slotIds) ++ s.delivered.map QueryData.id) :=
          (hsl.append_right _).append_left _
      _ ~ pq.id :: s.placeIds := List.perm_middle
      _ ~ pq.id :: s.accepted := h.places.cons _
      _ ~ s.accepted ++ [pq.id] := (List.perm_append_singleton _ _).symm
  nodup := by
    show (s.accepted ++ [pq.id]).Nodup
    rw [← List.concat_eq_append]
    exact h.nodup.concat hid
  lost := h.lost_attach hfree pq
  returned := fun id hid => List.mem_append_left _ (h.returned id hid)

theorem enqueue (h : Conserved s) {pq : QueryData} (hid : pq.id ∉ s.accepted) :
    Conserved (s.enqueue pq) where
  places := by
    have hmap : (s.enqueue pq).queries.map QueryData.id
        = s.queries.map QueryData.id ++ [pq.id] := by simp [Client.enqueue]
    show (s.enqueue pq).queries.map QueryData.id ++
      (s.slotIds ++ s.delivered.map QueryData.id) ~ s.accepted ++ [pq.id]
    rw [hmap, List.append_assoc]
    calc s.queries.map QueryData.id ++ ([pq.id] ++ (s.slotIds ++ s.delivered.map QueryData.id))
        ~ pq.id :: s.placeIds := List.perm_middle
      _ ~ pq.id :: s.accepted := h.places.cons _
      _ ~ s.accepted ++ [pq.id] := (List.perm_append_singleton _ _).symm
  nodup := by
    show (s.accepted ++ [pq.id]).Nodup
    rw [← List.concat_eq_append]
    exact h.nodup.concat hid
  lost := h.lost
  returned := fun id hid => List.mem_append_left _ (h.returned id hid)

theorem next (h : Conserved s) (hb : (s.connections ++ s.badConnections).Nodup)
    (hc : c ∈ s.connections) (hfree : s.isFree c = true) {q : QueryData} {rest : List QueryData}
    (hq : s.queries = q :: rest) : Conserved (s.next c q) where
  places := by
    have hsl := slotIds_attach hb hc hfree q
    show s.queries.tail.map QueryData.id ++
      ((s.attach c q).slotIds ++ s.delivered.map QueryData.id) ~ s.accepted
    rw [hq, List.tail_cons]
    calc rest.map QueryData.id ++ ((s.attach c q).slotIds ++ s.delivered.map QueryData.id)
        ~ rest.map QueryData.id ++ ((q.id :: s.slotIds) ++ s.delivered.map QueryData.id) :=
          (hsl.append_right _).append_left _
      _ ~ q.id :: (rest.map QueryData.id ++ (s.slotIds ++ s.delivered.map QueryData.id)) :=
          List.perm_middle
      _ ~ s.placeIds := by rw [Client.placeIds, hq]; exact List.Perm.refl _
      _ ~ s.accepted := h.places
  nodup := h.nodup
  lost := h.lost_attach hfree q
  returned := h.returned

theorem take (h : Conserved s) (hb : (s.connections ++ s.badConnections).Nodup)
    (hc : c ∈ s.connections) {q : QueryData} (hq : (s.conn c).query = some q) :
    Conserved (s.take c q) where
  places := by
    have hslot : s.slot c = some q.id := by simp [Client.slot, hq]
    have hp := filterMap_update_perm s.slot none hb (List.mem_append_left _ hc)
    rw [hslot] at hp
    have hsl : q.id :: (s.take c q).slotIds ~ s.slotIds := by
      have hupd : (s.take c q).slot = Function.update s.slot c none :=
        s.slot_setConn c { s.conn c with query := none }
      show q.id :: (s.connections ++ s.badConnections).filterMap (s.take c q).slot ~ _
      rw [hupd]
      exact hp
    have hdel : (s.take c q).delivered.map QueryData.id
        = s.delivered.map QueryData.id ++ [q.id] := by simp [Client.take]
    rw [Client.placeIds, hdel]
    refine List.Perm.trans (List.Perm.append_left _ ?_) h.places
    calc (s.take c q).slotIds ++ (s.delivered.map QueryData.id ++ [q.id])
        ~ q.id :: ((s.take c q).slotIds ++ s.delivered.map QueryData.id) := by
          rw [← List.append_assoc]; exact List.perm_append_singleton _ _
      _ ~ s.slotIds ++ s.delivered.map QueryData.id := by
          rw [← List.cons_append]; exact hsl.append_right _
  nodup := h.nodup
  lost := h.lost
  returned := h.returned

/-- The object at `c` changes but holds the same query. -/
theorem setConn (h : Conserved s) {d : DbConnection} (hd : d.query.map QueryData.id = s.slot c)
    (hs : s'.slotIds = (s.setConn c d).slotIds) (hq : s'.queries = s.queries)
    (hdel : s'.delivered = s.delivered) (ha : s'.accepted = s.accepted)
    (hl : s'.lost = s.lost) (hr : s'.returned = s.returned) : Conserved s' :=
  h.congr hq (by rw [hs, s.slotIds_setConn hd]) hdel ha hl hr

end Conserved

/-! ### The blocks -/

/-- A hook takes its connection out of the ready state only with no query attached,
and `CheckConnect` returns whether it has made its connection ready. -/
def keepWhileBusy : HookRules where
  act := fun old new => old.status = .ready → new.status ≠ .ready → old.query = none
  done := fun _ => True
  connects := fun ready d => ready = true ↔ d.status = .ready

theorem keepWhileBusy_honest : keepWhileBusy.Honest := fun d h hd => by simpa using h.mpr hd

instance : DecidableRel keepWhileBusy.act := fun old new =>
  inferInstanceAs (Decidable (old.status = .ready → new.status ≠ .ready → old.query = none))

instance : DecidablePred keepWhileBusy.done := fun _ => .isTrue trivial

instance (ready : Bool) : DecidablePred (keepWhileBusy.connects ready) := fun d =>
  inferInstanceAs (Decidable (ready = true ↔ d.status = .ready))

/-- The invariant: the places are conserved, and only ready connections hold queries. -/
structure Answering (s : Client) : Prop where
  conserved : Conserved s
  busy : ∀ c ∈ s.connections, (s.conn c).query ≠ none → (s.conn c).status = .ready
  idle : ∀ c ∈ s.badConnections, (s.conn c).query = none

namespace Answering

variable {R : HookRules} {cs : List Call} {s s' : Client} {c : ConnPtr}

theorem of_initial (h : s.Initial) : Answering s := by
  have hslots : s.slotIds = [] := by
    rw [Client.slotIds, h.badConnections, List.append_nil, List.filterMap_eq_nil_iff]
    intro c hc
    rw [Client.slot, h.query c hc]
    rfl
  refine ⟨⟨?_, by rw [h.accepted]; exact List.nodup_nil, h.lost, ?_⟩, fun c hc hq => ?_,
    fun c hc => ?_⟩
  · rw [Client.placeIds, h.queries, hslots, h.delivered, h.accepted]
    exact List.Perm.nil
  · intro id hid
    rw [h.returned] at hid
    simp at hid
  · exact absurd (h.query c hc) hq
  · rw [h.badConnections] at hc
    simp at hc

/-- The object of a listed connection changes, and holds a query only if ready. -/
theorem setConn (h : Answering s) (hb : Base R cs s) (hc : c ∈ s.connections) {d : DbConnection}
    (hd : d.query ≠ none → d.status = .ready) (hs' : s'.conn = (s.setConn c d).conn)
    (hcs : s'.connections = s.connections) (hbad : s'.badConnections = s.badConnections)
    (hcons : Conserved s') : Answering s' where
  conserved := hcons
  busy := by
    rw [hcs, hs']
    intro x hx hq
    by_cases hxc : x = c
    · subst hxc
      rw [s.setConn_conn_self] at hq ⊢
      exact hd hq
    · simp only [Client.setConn, Function.update_of_ne hxc] at hq ⊢
      exact h.busy x hx hq
  idle := by
    rw [hbad, hs']
    intro x hx
    rw [s.setConn_conn_of_ne (hb.ne_of_bad hc hx)]
    exact h.idle x hx

theorem retire (h : Answering s) (hb : Base R [] s) {i : ℕ} (hi : s.connections[i]? = some c)
    (hst : (s.conn c).status = .error) (now : ℤ) : Answering (s.retire i c now) := by
  have hc : c ∈ s.connections := List.mem_of_getElem? hi
  have hnone : (s.conn c).query = none := by
    by_contra hq
    have := h.busy c hc hq
    rw [hst] at this
    simp at this
  have hold : ∀ x ∈ s.connections ++ s.badConnections, x ≠ s.nextPtr := fun _ hx =>
    hb.ne_nextPtr hx
  -- neither the retired object nor the new one holds a query
  have hslots : (s.retire i c now).slotIds = s.slotIds := by
    have hslot : ∀ x ∈ s.connections ++ s.badConnections,
        (s.retire i c now).slot x = s.slot x := fun x hx => by
      rw [Client.slot, s.retire_query_of_ne (hold x hx), Client.slot]
    have hslotc : (s.retire i c now).slot c = none := by
      rw [hslot c (List.mem_append_left _ hc), Client.slot, hnone]
      rfl
    have hslotn : (s.retire i c now).slot s.nextPtr = none := by
      rw [Client.slot, s.retire_conn_nextPtr]
      rfl
    show (s.connections.set i s.nextPtr ++ (s.badConnections ++ [c])).filterMap
      (s.retire i c now).slot = s.slotIds
    rw [List.filterMap_append, List.filterMap_append,
      filterMap_set_of_none hslotn (by rw [hi]; rintro x ⟨⟩; exact hslotc),
      List.filterMap_cons_none hslotc, List.filterMap_nil, List.append_nil,
      ← List.filterMap_append]
    exact List.filterMap_congr hslot
  refine ⟨h.conserved.congr rfl hslots rfl rfl rfl rfl, fun x hx hq => ?_, fun x hx => ?_⟩
  · rcases List.mem_or_eq_of_mem_set hx with hx | rfl
    · have hxn := hold x (List.mem_append_left _ hx)
      rw [s.retire_query_of_ne hxn] at hq
      rw [s.retire_status_of_ne hxn]
      exact h.busy x hx hq
    · rw [s.retire_conn_nextPtr] at hq
      exact absurd rfl hq
  · rcases List.mem_append.mp hx with hx | hx
    · rw [s.retire_query_of_ne (hold x (List.mem_append_right _ hx))]
      exact h.idle x hx
    · obtain rfl := List.mem_singleton.mp hx
      rw [s.retire_query_of_ne (hold x (List.mem_append_left _ hc))]
      exact hnone

theorem sweep (h : Answering s) (now : ℤ) : Answering (s.sweep now) := by
  have hslot : ∀ c ∈ s.badConnections, s.slot c = none := fun c hc => by
    rw [Client.slot, h.idle c hc]
    rfl
  have hsub : ∀ c ∈ (s.sweep now).badConnections, c ∈ s.badConnections := fun c hc =>
    (List.mem_filter.mp hc).1
  have hnil : ∀ l : List ConnPtr, (∀ c ∈ l, c ∈ s.badConnections) → l.filterMap s.slot = [] :=
    fun l hl => List.filterMap_eq_nil_iff.mpr fun c hc => hslot c (hl c hc)
  have hslots : (s.sweep now).slotIds = s.slotIds := by
    show (s.connections ++ (s.sweep now).badConnections).filterMap s.slot = s.slotIds
    rw [Client.slotIds, List.filterMap_append, List.filterMap_append, hnil _ hsub,
      hnil s.badConnections fun _ hc => hc]
  have hlost : (s.sweep now).lost = s.lost := by
    have hgone : (s.badConnections.filter (s.older now s.client.connectTimeout)).filterMap
        (fun c => (s.conn c).query) = [] :=
      List.filterMap_eq_nil_iff.mpr fun c hc => h.idle c (List.mem_filter.mp hc).1
    show s.lost ++ _ = s.lost
    rw [hgone, List.append_nil]
  exact ⟨h.conserved.congr rfl hslots rfl rfl hlost rfl, h.busy, fun c hc => h.idle c (hsub c hc)⟩

/-- **Every block keeps the invariant.** -/
theorem kept : Kept keepWhileBusy Accounted fun _ s => Answering s where
  moment := fun h => h.conserved.accounted
  pop := fun _ h _ => h
  clock := fun _ h => ⟨h.conserved.congr rfl rfl rfl rfl rfl rfl, h.busy, h.idle⟩
  act := by
    intro k cs s c d hb h hk hact hd
    have hc : c ∈ s.connections := hb.hook (hooked_cons.mpr (.inl hk))
    refine h.setConn hb hc (fun hq => ?_) rfl rfl rfl
      (h.conserved.setConn hd rfl rfl rfl rfl rfl rfl)
    -- a query stays attached, so the connection was ready and the hook leaves it so
    have hold : (s.conn c).query ≠ none := fun hn => hq (by simpa [hn] using hd)
    by_contra hst
    exact hold (hact (h.busy c hc hold) hst)
  call := fun _ h _ _ => h
  check := fun _ h _ _ => ⟨h.conserved.congr rfl rfl rfl rfl rfl rfl, h.busy, h.idle⟩
  touch := by
    intro cs s c t h
    have hcons : Conserved (s.setTimestamp c t) :=
      h.conserved.setConn (c := c) (d := { s.conn c with timestamp := t }) rfl rfl rfl rfl rfl rfl
        rfl
    refine ⟨hcons, fun x hx hq => ?_, fun x hx => ?_⟩
    · rw [s.setTimestamp_status]
      exact h.busy x hx (by rwa [s.setTimestamp_query] at hq)
    · rw [s.setTimestamp_query]
      exact h.idle x hx
  connected := fun _ h => ⟨h.conserved.congr rfl rfl rfl rfl rfl rfl, h.busy, h.idle⟩
  returns := fun h hok =>
    ⟨⟨h.conserved.places, h.conserved.nodup, h.conserved.lost, fun id hid => by
      rcases List.mem_append.mp hid with hid | hid
      · exact h.conserved.returned id hid
      · obtain ⟨rfl, rfl⟩ := Prod.mk.injEq .. ▸ List.mem_singleton.mp hid
        exact hok rfl⟩, h.busy, h.idle⟩
  start := by
    intro cs s c pq hb h hc hfree hid
    exact h.setConn hb hc (d := { s.conn c with query := some pq })
      (fun _ => (isFree_iff.mp hfree).1) rfl rfl rfl (h.conserved.start hb.nodup hc hfree hid)
  enqueue := fun _ h _ _ hid => ⟨h.conserved.enqueue hid, h.busy, h.idle⟩
  reject := fun _ h _ => ⟨h.conserved.congr rfl rfl rfl rfl rfl rfl, h.busy, h.idle⟩
  next := by
    intro cs s c q rest hb h hc hfree hq
    exact h.setConn hb hc (d := { s.conn c with query := some q })
      (fun _ => (isFree_iff.mp hfree).1) rfl rfl rfl (h.conserved.next hb.nodup hc hfree hq)
  take := fun hb h hh hq =>
    h.setConn hb (hb.hook hh) (fun hn => absurd rfl hn) rfl rfl rfl
      (h.conserved.take hb.nodup (hb.hook hh) hq)
  expire := by
    intro s c q hb h hc hst hq
    have hcons : Conserved (s.expire c q) :=
      h.conserved.setConn (by simp [Client.slot, hq, Client.expiredQuery]) rfl rfl rfl rfl rfl
        rfl
    refine ⟨hcons.accounted, fun q' hq' => ?_⟩
    refine h.setConn hb hc (d := { (s.expire c q).conn c with query := none })
      (fun hn => absurd rfl hn) ?_ rfl rfl (hcons.take hb.nodup hc hq')
    simp [Client.take, Client.expire, Client.setConn]
  lapse := by
    intro s c q hb h hc hst hq
    have hcons : Conserved (s.lapse c q) :=
      h.conserved.setConn (by simp [Client.slot, hq, Client.expiredQuery]) rfl rfl rfl rfl rfl
        rfl
    refine ⟨hcons.accounted, fun q' hq' => ?_⟩
    refine h.setConn hb hc (d := { (s.lapse c q).conn c with query := none })
      (fun hn => absurd rfl hn) ?_ rfl rfl (hcons.take hb.nodup hc hq')
    simp [Client.take, Client.lapse, Client.setConn]
  giveUp := by
    intro s c hb h hc hq
    exact h.setConn hb hc (d := { s.conn c with status := .error })
      (fun hn => absurd (hq keepWhileBusy_honest) hn)
      rfl rfl rfl (h.conserved.setConn (c := c) (d := { s.conn c with status := .error })
        rfl rfl rfl rfl rfl rfl rfl)
  retire := fun now hb h hi hst => h.retire hb hi hst now
  sweep := fun now _ h => h.sweep now

end Answering

/-- **Every query is answered once.**  At every moment of every run, in the middle
of nested calls too, a query that `Query` has taken is in exactly one place, none
has been passed to `OnResult` twice, and none was overwritten or destroyed before
it was. -/
theorem accounted_of_reachable {s₀ : Client} (h₀ : s₀.Initial) {cfg : Config Client Call Bool}
    (h : Reachable (interface keepWhileBusy) s₀ cfg) : Accounted cfg.state :=
  (Answering.kept.reachable h₀ (Answering.of_initial h₀) h).1

/-- `Query` on a client with one ready connection, whose `DoQuery` has the result
at once. -/
def answerAtOnce : Config Client Call Bool :=
  play (interface keepWhileBusy) 20
    [.enter (.query ⟨7, 3, .ok, "select"⟩), .enter (.result 0), .reply false, .reply false]
    (.idle (.ofConnections ⟨10, 5, 5⟩ [⟨4, 0, .ready, none⟩]))

theorem accounted_answerAtOnce : answerAtOnce.state.returned = [(7, true)] ∧
    answerAtOnce.state.delivered.map QueryData.id = [7] ∧ Accounted answerAtOnce.state := by
  refine ⟨by decide +kernel, by decide +kernel, ?_⟩
  exact accounted_of_reachable (Client.initial_ofConnections _ (by simp))
    ((Reachable.idle _).play (by decide +kernel))

end Db
end PeeledOrange
