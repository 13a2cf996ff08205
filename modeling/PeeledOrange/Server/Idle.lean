import PeeledOrange.Lib.Sweep
import PeeledOrange.Server.Cursor
import PeeledOrange.Server.Isolation

/-!
# How long an idle connection stays

A call of `EraseExpiredConnections` examines a slice of the connections, and between two
calls others may come and go, ahead of the cursor and behind it.  Still no connection can be
passed over for ever: a slice that is not the last one has `CHECK_EXPIRED_STEP` different
descriptors, so that the cursor gets to the end after as many calls as the largest
descriptor allows, and starts again.  So there is a bound on how often the connections are
scanned while one of them is expired.

This is so with one port.  With more of them the cursor may come to be that of a connection
of another port.

## Main definitions

* `TCPServer.Solo` — there is one port.
* `TCPServer.scanning` — an input at which the connections are scanned.
* `TCPServer.ExpiredAt` — a connection is expired if they are scanned.

## Main results

* `misses_onTimer` — a scan that leaves an expired connection has not come to it.
* `scans_le_of_expired` — **a connection is gone after as many scans as the descriptors allow
  for.**
-/

namespace PeeledOrange
namespace Server

open Sweep

/-! ### What a slice leaves out -/

section Slice

variable {it : List (ℤ × Connection)} {x : ℤ} {i : ℕ} {e e' : ℤ × Connection}

/-- Different descriptors behind a cursor are some way behind it. -/
theorem le_of_getElem? (hsorted : it.Pairwise fun a b => a.1 < b.1) (hbehind : ∀ e ∈ it, x < e.1)
    (he : it[i]? = some e) : x + i + 1 ≤ e.1 := by
  induction it generalizing x i with
  | nil => cases he
  | cons e₀ it ih =>
    have hlt := hbehind e₀ List.mem_cons_self
    obtain ⟨hfirst, hsorted⟩ := List.pairwise_cons.mp hsorted
    cases i with
    | zero =>
      obtain rfl := Option.some.inj he
      omega
    | succ i =>
      have hle := ih hsorted hfirst he
      omega

/-- What is left out is behind the last one. -/
theorem lt_of_not_mem_take (hsorted : it.Pairwise fun a b => a.1 < b.1) (he : it[i]? = some e)
    (hmem : e' ∈ it) (hnot : e' ∉ it.take (i + 1)) : e.1 < e'.1 := by
  have hdrop : e' ∈ it.drop (i + 1) := by
    rw [← List.take_append_drop (i + 1) it] at hmem
    exact (List.mem_append.mp hmem).resolve_left hnot
  have htake : e ∈ it.take (i + 1) := by
    rw [List.take_add_one, he]
    simp
  rw [← List.take_append_drop (i + 1) it] at hsorted
  exact (List.pairwise_append.mp hsorted).2.2 e htake e' hdrop

end Slice

namespace TCPServer

variable {s s' s₀ : TCPServer} {k fd : ℤ} {sp : ServerPort} {c : Connection} {n : ℕ}

/-! ### A call -/

/-- There is one port. -/
def Solo (s : TCPServer) (k : ℤ) : Prop := ∃ sp, s.serverPorts.entries = [(k, sp)]

/-- The connections of a port have descriptors from 1 to `n`. -/
def DescriptorsUpTo (s : TCPServer) (k : ℤ) (n : ℕ) : Prop :=
  ∀ fd, s.find? k fd ≠ none → 0 < fd ∧ fd ≤ n

theorem find?_of_ports (hports : s.serverPorts.entries = [(k, sp)]) (fd : ℤ) :
    s.find? k fd = sp.connections.find? fd := by
  rw [find?, port?, OrderedMap.find?_eq_some_iff.mpr (show (k, sp) ∈ _ by rw [hports]; simp)]
  rfl

/-- The connections that a call starts with are those behind the cursor. -/
theorem mem_resume_iff (hports : s.serverPorts.entries = [(k, sp)]) (hfds : s.DescriptorsUpTo k n)
    {it : List (ℤ × Connection)} (hresume : resume s.lastCheckedFd sp.connections = .ok it)
    (e : ℤ × Connection) : e ∈ it ↔ s.find? k e.1 = some e.2 ∧ s.lastCheckedFd < e.1 := by
  have hentry : s.find? k e.1 = some e.2 ↔ e ∈ sp.connections.entries := by
    rw [find?_of_ports hports]
    exact OrderedMap.find?_eq_some_iff
  rw [hentry, (resume_eq_ok hresume).1]
  split_ifs with hcur
  · cases hfind : sp.connections.find? s.lastCheckedFd with
    | none =>
      rw [resume, if_pos hcur, OrderedMap.after?, hfind] at hresume
      cases hresume
    | some c =>
      rw [OrderedMap.after?, hfind, Option.map_some, Option.getD_some, List.mem_filter,
        decide_eq_true_eq]
  · refine (and_iff_left_of_imp fun hmem => ?_).symm
    rw [not_not.mp hcur]
    refine (hfds e.1 ?_).1
    rw [hentry.mpr hmem]
    exact Option.some_ne_none _

theorem sorted_resume {it : List (ℤ × Connection)} {x : ℤ} {m : OrderedMap ℤ Connection}
    (hresume : resume x m = .ok it) : it.Pairwise fun a b => a.1 < b.1 := by
  rw [(resume_eq_ok hresume).1]
  split_ifs
  · rw [OrderedMap.after?]
    cases m.find? x with
    | none => exact List.Pairwise.nil
    | some c => exact m.sorted.filter _
  · exact m.sorted

/-- A call on one port stops at the last connection of a slice. -/
theorem lastCheckedFd_eraseExpired (hports : s.serverPorts.entries = [(k, sp)])
    {it : List (ℤ × Connection)} (hresume : resume s.lastCheckedFd sp.connections = .ok it)
    (hok : s.eraseExpiredConnections = .ok s') :
    s'.lastCheckedFd = ((it[checkExpiredStep - 1]?).map Prod.fst).getD 0 := by
  rw [eraseExpired_single hports hresume] at hok
  cases hok
  split_ifs with hlen
  · have hnone : it[checkExpiredStep - 1]? = none := by
      rw [List.length_take] at hlen
      have hstep : checkExpiredStep = 100 := rfl
      exact List.getElem?_eq_none (by omega)
    rw [hnone]
    rfl
  · rfl

theorem exists_resume (hports : s.serverPorts.entries = [(k, sp)])
    (hok : s.eraseExpiredConnections = .ok s') :
    ∃ it, resume s.lastCheckedFd sp.connections = .ok it := by
  cases hresume : resume s.lastCheckedFd sp.connections with
  | ok it => exact ⟨it, rfl⟩
  | error f =>
    have hscan : scanPorts s.serverPorts.entries 0 s = .error f := by
      rw [hports, scanPorts, hresume]
    rw [eraseExpired_of_error hscan] at hok
    cases hok

/-- **A call that leaves an expired connection has not come to it.** -/
theorem misses_eraseExpired (h : s.Owned) (hsolo : s.Solo k) (hfds : s.DescriptorsUpTo k n)
    (hok : s.eraseExpiredConnections = .ok s') (hc : s.find? k fd = some c)
    (hexp : c.data.expired s.nowTime = true) (hstays : s'.find? k fd ≠ none) :
    Misses checkExpiredStep n fd s.lastCheckedFd s'.lastCheckedFd := by
  obtain ⟨sp, hports⟩ := hsolo
  obtain ⟨it, hresume⟩ := exists_resume hports hok
  have hmem := mem_resume_iff hports hfds hresume
  have hsorted := sorted_resume hresume
  have hleft : (fd, c) ∉ it.take checkExpiredStep := by
    intro htake
    refine hstays ((erased_iff_expired h hok ?_).mpr hexp)
    rw [examined, iterators_of_resume hports hresume, examinedFrom]
    exact List.mem_append_left _ (List.mem_map.mpr ⟨(fd, c), htake, rfl⟩)
  rw [lastCheckedFd_eraseExpired hports hresume hok]
  cases hstop : it[checkExpiredStep - 1]? with
  | none =>
    -- everything behind the cursor has been examined
    have hall : it.take checkExpiredStep = it :=
      List.take_of_length_le (by have := List.getElem?_eq_none_iff.mp hstop; omega)
    rw [hall, hmem] at hleft
    exact .back (not_lt.mp fun hlt => hleft ⟨hc, hlt⟩)
  | some e =>
    have he : e ∈ it := List.mem_of_getElem? hstop
    refine .on ?_ ?_ fun hahead => ?_
    · have hle := le_of_getElem? hsorted (fun e' he' => ((hmem e').mp he').2) hstop
      have hstep : checkExpiredStep = 100 := rfl
      rw [hstep] at hle ⊢
      simp only [Option.map_some, Option.getD_some]
      omega
    · have hin := ((hmem e).mp he).1
      exact (hfds e.1 (by rw [hin]; exact Option.some_ne_none _)).2
    · exact lt_of_not_mem_take hsorted hstop ((hmem (fd, c)).mpr ⟨hc, hahead⟩) hleft

/-- The cursor is a descriptor, or 0. -/
theorem nonneg_eraseExpired (h : s.Owned) (hsolo : s.Solo k)
    (hok : s.eraseExpiredConnections = .ok s') : 0 ≤ s'.lastCheckedFd := by
  obtain ⟨sp, hports⟩ := hsolo
  obtain ⟨it, hresume⟩ := exists_resume hports hok
  rw [lastCheckedFd_eraseExpired hports hresume hok]
  cases hstop : it[checkExpiredStep - 1]? with
  | none => exact le_refl 0
  | some e =>
    have hentry := (resume_eq_ok hresume).2 e (List.mem_of_getElem? hstop)
    have hfind : s.find? k e.1 = some e.2 := by
      rw [find?_of_ports hports]
      exact OrderedMap.find?_eq_some_iff.mpr hentry
    exact (h.key hfind).2.1

/-! ### The timer -/

/-- A call of `OnTimer` that scans is one of `EraseExpiredConnections` at this time. -/
theorem onTimer_of_scans {time : ℕ} (hscans : s.Scans time) (hok : s.onTimer time = .ok s') :
    ∃ t : TCPServer, t.serverPorts = s.serverPorts ∧ t.live = s.live ∧ t.nextId = s.nextId ∧
      t.lastCheckedFd = s.lastCheckedFd ∧ t.nowTime = time ∧
      t.eraseExpiredConnections = .ok s' := by
  unfold onTimer at hok
  simp only at hok
  split_ifs at hok with htime hcur
  · exact ⟨{ s with nowTime := time, currentTime := time }, rfl, rfl, rfl, rfl, rfl, hok⟩
  · exact ⟨{ s with nowTime := time }, rfl, rfl, rfl, rfl, rfl, hok⟩
  · exact absurd hscans (not_or.mpr ⟨htime, hcur⟩)

theorem lastCheckedFd_of_not_scans {time : ℕ} (hscans : ¬s.Scans time)
    (hok : s.onTimer time = .ok s') : s'.lastCheckedFd = s.lastCheckedFd := by
  obtain ⟨htime, hcur⟩ := not_or.mp hscans
  unfold onTimer at hok
  simp only [if_neg htime, if_neg hcur] at hok
  cases hok
  rfl

/-- **A scan that leaves an expired connection has not come to it.** -/
theorem misses_onTimer (h : s.Owned) (hsolo : s.Solo k) (hfds : s.DescriptorsUpTo k n) {time : ℕ}
    (hscans : s.Scans time) (hok : s.onTimer time = .ok s') (hc : s.find? k fd = some c)
    (hexp : c.data.expired time = true) (hstays : s'.find? k fd ≠ none) :
    Misses checkExpiredStep n fd s.lastCheckedFd s'.lastCheckedFd := by
  obtain ⟨t, hports, hlive, hnext, hcursor, rfl, hcall⟩ := onTimer_of_scans hscans hok
  have hfind : ∀ fd, t.find? k fd = s.find? k fd := fun fd => by
    rw [find?, port?, hports, find?, port?]
  rw [← hcursor]
  refine misses_eraseExpired (h.congr hports hlive hnext) ?_ (fun fd => ?_) hcall
    ((hfind fd).trans hc) hexp hstays
  · rwa [Solo, hports]
  · rw [hfind]
    exact hfds fd

/-! ### The steps -/

@[simp] theorem lastCheckedFd_eraseConnection :
    (s.eraseConnection k fd).lastCheckedFd = s.lastCheckedFd := by
  unfold eraseConnection
  split <;> rfl

@[simp] theorem lastCheckedFd_disconnect :
    (s.disconnect k c).lastCheckedFd = s.lastCheckedFd := lastCheckedFd_eraseConnection

theorem lastCheckedFd_processConnection {x : Outside} :
    (s.processConnection k sp c x).lastCheckedFd = s.lastCheckedFd := by
  unfold processConnection
  dsimp only
  split_ifs <;> simp [setData, modifyConnections, call, access, record]

theorem lastCheckedFd_acceptConnection {sockFd : ℤ} {x : Outside} :
    (s.acceptConnection k sp sockFd x).lastCheckedFd = s.lastCheckedFd := by
  unfold acceptConnection assignConnection
  dsimp only
  split_ifs
  · split <;> rfl
  · rfl

/-- An event leaves the cursor where it is. -/
theorem lastCheckedFd_onOccurred (e : Occurred) :
    (s.onOccurred e).lastCheckedFd = s.lastCheckedFd := by
  unfold onOccurred onDisconnect onEvent
  split_ifs
  · split
    · rfl
    · exact lastCheckedFd_disconnect
  · split
    · split
      · rfl
      · exact lastCheckedFd_acceptConnection
    · split
      · rfl
      · exact lastCheckedFd_processConnection

/-- The port stays the only one. -/
theorem Solo.step {i : Input} (hsolo : s.Solo k) (h : s.Owned) (hs : s.Step i s') : s'.Solo k := by
  obtain ⟨sp, hports⟩ := hsolo
  have hconfig := congrArg OrderedMap.entries (config_step h hs)
  simp only [config, OrderedMap.map, hports, List.map_cons, List.map_nil] at hconfig
  obtain ⟨e, he, hkey⟩ := List.map_eq_singleton_iff.mp hconfig
  obtain rfl := congrArg Prod.fst hkey
  exact ⟨e.2, he⟩

theorem nonneg_step {i : Input} (hsolo : s.Solo k) (h : s.Owned) (hx : 0 ≤ s.lastCheckedFd)
    (hs : s.Step i s') : 0 ≤ s'.lastCheckedFd := by
  cases i with
  | timer time =>
    by_cases hscans : s.Scans time
    · obtain ⟨t, hports, hlive, hnext, -, -, hcall⟩ := onTimer_of_scans hscans hs
      exact nonneg_eraseExpired (h.congr hports hlive hnext) (by rwa [Solo, hports]) hcall
    · rwa [lastCheckedFd_of_not_scans hscans hs]
  | event e =>
    obtain ⟨-, rfl⟩ := hs
    rwa [lastCheckedFd_onOccurred]

/-- The identities of new objects go up. -/
theorem nextId_le_step {i : Input} (h : s.Owned) (hs : s.Step i s') : s.nextId ≤ s'.nextId := by
  cases i with
  | timer time => exact (erases_onTimer h hs).nextId.ge
  | event e =>
    obtain ⟨hlegal, rfl⟩ := hs
    rw [(follows_onOccurred h hlegal).nextId]
    cases s.effect e <;> simp [Effect.next]

/-- What owns a descriptor has done so before, unless it is new. -/
theorem owner_of_step {i : Input} {id : ℕ} (h : s.Owned) (hid : id < s.nextId) (hs : s.Step i s')
    (ho : s'.owner k fd = some id) : s.owner k fd = some id := by
  cases i with
  | timer time =>
    rw [owner, (erases_onTimer h hs).find?] at ho
    split_ifs at ho
    · cases ho
    · exact ho
  | event e =>
    obtain ⟨hlegal, rfl⟩ := hs
    have howner := (follows_onOccurred h hlegal).owner k fd
    rw [ho] at howner
    cases heffect : s.effect e with
    | ignore | refuse | handle _ _ _ _ =>
      rw [heffect] at howner
      exact howner.symm
    | accept k' fd' =>
      rw [heffect, Effect.owner] at howner
      split_ifs at howner
      · obtain rfl := Option.some.inj howner
        exact absurd hid (Nat.lt_irrefl _)
      · exact howner.symm
    | part k' fd' _ _ =>
      rw [heffect, Effect.owner] at howner
      split_ifs at howner
      exact howner.symm

/-! ### The runs -/

instance (s : TCPServer) (time : ℕ) : Decidable (s.Scans time) :=
  inferInstanceAs (Decidable (time ≠ s.currentTime ∨ s.lastCheckedFd ≠ 0))

/-- The connections are scanned at an input. -/
def scanning (e : TCPServer × Input) : Bool :=
  match e.2 with
  | .timer time => decide (e.1.Scans time)
  | .event _ => false

/-- If the connections are scanned at an input, the one with this descriptor is expired. -/
def ExpiredAt (s : TCPServer) (k fd : ℤ) : Input → Prop
  | .timer time => s.Scans time → ∀ c, s.find? k fd = some c → c.data.expired time = true
  | .event _ => True

/-- What holds all along a run of a server with one port. -/
structure Sweeping (s : TCPServer) (k : ℤ) : Prop where
  owned : s.Owned
  solo : s.Solo k
  cursor : 0 ≤ s.lastCheckedFd

theorem Sweeping.step {i : Input} (h : s.Sweeping k) (hs : s.Step i s') : s'.Sweeping k where
  owned := Step.owned h.owned hs
  solo := h.solo.step h.owned hs
  cursor := nonneg_step h.solo h.owned h.cursor hs

/-- A scan that misses the connection brings the rank of the cursor down, and nothing else
changes it. -/
theorem rank_step {i : Input} {id : ℕ} (h : s.Sweeping k) (hfds : s.DescriptorsUpTo k n)
    (hexp : s.ExpiredAt k fd i) (ho : s.owner k fd = some id) (ho' : s'.owner k fd = some id)
    (hs : s.Step i s') :
    rank checkExpiredStep n fd s'.lastCheckedFd + (if scanning (s, i) then 1 else 0) ≤
      rank checkExpiredStep n fd s.lastCheckedFd := by
  cases i with
  | timer time =>
    by_cases hscans : s.Scans time
    · rw [scanning, if_pos (decide_eq_true hscans)]
      obtain ⟨c, hc, -⟩ := Option.map_eq_some_iff.mp ho
      have hstays : s'.find? k fd ≠ none := fun hnone => by
        rw [owner, hnone] at ho'
        cases ho'
      have hpos := (hfds fd (by rw [hc]; exact Option.some_ne_none c)).1
      have hmisses := misses_onTimer h.owned h.solo hfds hscans hs hc (hexp hscans c hc) hstays
      exact hmisses.rank_lt (by decide) hpos
    · rw [scanning, if_neg (by simpa using hscans), lastCheckedFd_of_not_scans hscans hs]
      exact Nat.le_refl _
  | event e =>
    obtain ⟨-, rfl⟩ := hs
    rw [lastCheckedFd_onOccurred]
    exact Nat.le_refl _

/-- **A connection is gone after as many scans as the descriptors allow for**, if each of them
finds it expired, whatever else goes on between them. -/
theorem scans_le_of_expired {pre post : List (TCPServer × Input)} {id : ℕ} (h : s₀.Run pre s)
    (h₀ : s₀.Initial) (hsolo : s₀.Solo k) (h' : s.Run post s') (ho : s.owner k fd = some id)
    (ho' : s'.owner k fd = some id) (hfds : ∀ e ∈ post, e.1.DescriptorsUpTo k n)
    (hexp : ∀ e ∈ post, e.1.ExpiredAt k fd e.2) :
    post.countP scanning ≤ n / checkExpiredStep + 1 := by
  have hs : s.Sweeping k := @History.Run.invariant _ _ _ _ _ _ (Sweeping · k)
    (fun _ _ _ => Sweeping.step) h ⟨h₀.owned, hsolo, h₀.cursor.ge⟩
  obtain ⟨c, hc, rfl⟩ := Option.map_eq_some_iff.mp ho
  have hsum := h'.countP_add_le scanning
    (fun s => rank checkExpiredStep n fd s.lastCheckedFd)
    (fun s => s.Sweeping k ∧ c.id < s.nextId) (fun s => s.owner k fd = some c.id)
    (fun _ _ _ hi hstep => ⟨hi.1.step hstep, Nat.lt_of_lt_of_le hi.2
      (nextId_le_step hi.1.owned hstep)⟩)
    (fun _ _ _ hi hq hstep => owner_of_step hi.1.owned hi.2 hstep hq)
    ⟨hs, hs.owned.fresh (hs.owned.mem_live hc)⟩
    (fun _ _ _ he hi hq hq' hstep => rank_step hi.1 (hfds _ he) (hexp _ he) hq hq' hstep) ho'
  cases post with
  | nil => exact Nat.zero_le _
  | cons e post =>
    have hfirst : e.1 = s := h'.fst_head e rfl
    have hfd := hfds e List.mem_cons_self fd
    rw [hfirst, hc] at hfd
    obtain ⟨hpos, hle⟩ := hfd (Option.some_ne_none c)
    have hrank := @rank_le checkExpiredStep n s.lastCheckedFd fd hs.cursor hpos hle
    rw [Int.toNat_natCast] at hrank
    omega

theorem run_crowd (n : ℕ) : ∃ hist, echoServer.Run hist (crowd n) := by
  induction n with
  | zero => exact ⟨[], .start⟩
  | succ n ih =>
    obtain ⟨hist, hrun⟩ := ih
    have hlegal : (crowd n).Legal (accepting (10 + n) true) := by
      rintro sockFd heq
      obtain rfl : (10 + n : ℤ) = sockFd := Option.some.inj heq
      exact (unused_crowd n).2.2 _ (le_refl _)
    have hstep : (crowd n).Step (.event (accepting (10 + n) true)) (crowd (n + 1)) := ⟨hlegal, rfl⟩
    exact ⟨_, hrun.step _ hstep⟩

/-- Of 101 connections that are expired, a scan leaves the last one. -/
theorem crowd_scanned :
    (∀ e ∈ (crowd 101).serverPorts.entries, ∀ e' ∈ e.2.connections.entries,
      0 < e'.1 ∧ e'.1 ≤ 110) ∧ (crowd 101).owner 3 110 = some 100 ∧
      ((crowd 101).find? 3 110).all (·.data.expired 100) = true ∧
      ((crowd 101).onTimer 100).toOption.bind (·.owner 3 110) = some 100 := by
  decide +kernel

/-- It is one of the two that there may be. -/
theorem scans_le_crowd : ∃ s, (crowd 101).onTimer 100 = .ok s ∧ s.owner 3 110 = some 100 ∧
    [(crowd 101, Input.timer 100)].countP scanning ≤ 110 / checkExpiredStep + 1 := by
  obtain ⟨pre, hpre⟩ := run_crowd 101
  obtain ⟨hfds, howner, hexpired, hcall⟩ := crowd_scanned
  generalize crowd 101 = s₁ at hpre hfds howner hexpired hcall ⊢
  cases hok : s₁.onTimer 100 with
  | error f =>
    rw [hok] at hcall
    cases hcall
  | ok s =>
    rw [hok] at hcall
    have hpost : s₁.Run [(s₁, .timer 100)] s := History.Run.start.step _ hok
    refine ⟨s, rfl, hcall, scans_le_of_expired hpre initial_echoServer ⟨_, rfl⟩ hpost howner hcall
      (fun e he => ?_) (fun e he => ?_)⟩
    · obtain rfl := List.mem_singleton.mp he
      intro fd hfd
      obtain ⟨c, hc⟩ := Option.ne_none_iff_exists'.mp hfd
      obtain ⟨sp, hsp, hc⟩ := Option.bind_eq_some_iff.mp hc
      exact hfds _ (OrderedMap.find?_eq_some_iff.mp hsp) _ (OrderedMap.find?_eq_some_iff.mp hc)
    · obtain rfl := List.mem_singleton.mp he
      intro _ c hc
      rwa [hc] at hexpired

end TCPServer

end Server
end PeeledOrange
