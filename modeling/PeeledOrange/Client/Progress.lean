import PeeledOrange.Client.Records

/-!
# The record loop makes progress

A turn of the record loop passes the first byte of a record at least, so that the loop
comes to an end, unless the length of a value leads back: the length is an `int`, which is
added to the position whatever it is.  Nothing is read of an integer of negative length,
and a floating-point number is read whatever its length is.  Strings and buffers of negative
length are refused.

## Main definitions

* `Retreats` — a record that leads back to where it starts, or to before it.
* `Terminates` — a task is made or something is thrown, and each turn makes progress.

## Main results

* `terminates_iff` — **the parser terminates, and each turn makes progress, if and only if
  the loop comes to no record that leads back.**
-/

namespace PeeledOrange
namespace Client

open Java

variable {utf8 : Charset} {b : ByteBuffer}

/-! ### Records that lead back -/

/-- The value is read, and its length leads back to `pos` or before it.  An `int` that is
too large becomes negative. -/
def LeadsBack (limit : ℕ) (pos : ℤ) (vt : ValueType) (start : ℕ) (len : ℤ) : Prop :=
  match vt with
  | .i8 | .i16 | .i32 | .i64 => start + len ≤ pos
  | .f4 | .f8 => start + width vt ≤ limit ∧ (start + len ≤ pos ∨ 2 ^ 31 ≤ start + len)
  | .s | .b => False

/-- The record leads back to where it starts, or to before it. -/
def Retreats (st : Parser) : Prop :=
  ∃ vt start len, Located st vt start len ∧ LeadsBack st.buf.limit st.pos vt start len

theorem leadsBack_iff (hlen : b.array.length < 2 ^ 31) {pos : ℤ} {vt : ValueType} {start : ℕ}
    {len : ℤ} (hpos : 0 ≤ pos) (hstart : pos + 3 ≤ start) (hlimit : start ≤ b.limit)
    (hmin : -2 ^ 31 ≤ len) (hmax : len < 2 ^ 31) :
    LeadsBack b.limit pos vt start len ↔ Present b vt start len ∧ add32 start len ≤ pos := by
  have hle := b.limit_le
  have hback : add32 start len ≤ pos ↔ start + len ≤ pos ∨ 2 ^ 31 ≤ start + len := by
    unfold add32 wrap32
    omega
  rw [hback]
  cases vt with
  | i8 | i16 | i32 | i64 =>
    show start + len ≤ pos ↔ start + len ≤ b.array.length ∧ _
    omega
  | f4 | f8 => exact Iff.rfl
  | s | b => exact iff_of_false id (by simp only [Present]; omega)

/-- **A turn that is followed by another one makes progress** unless the record leads back. -/
theorem advances_iff {st : Parser} (hlen : st.buf.array.length < 2 ^ 31) :
    (∀ st', parseRecord utf8 st = .ok (.next st') → st.pos + 1 ≤ st'.pos) ↔ ¬Retreats st := by
  constructor
  · -- a record that leads back is followed by another turn
    rintro hadv ⟨vt, start, len, hloc, hback⟩
    obtain ⟨hpos, hstart, hlimit, hmin, hmax⟩ := hloc.bounds
    obtain ⟨hpresent, hle⟩ := (leadsBack_iff hlen hpos hstart hlimit hmin hmax).mp hback
    obtain ⟨key, hrecord⟩ := @parseRecord_located utf8 st vt start len hlen hloc
    obtain ⟨⟨av, buf⟩, hvalue⟩ := (@exists_parseValue_iff utf8 _ _ _ hlen hlimit vt).mpr hpresent
    rw [hrecord, parsePayload, if_neg (by omega), hvalue] at hadv
    have hnext := hadv _ rfl
    simp only at hnext
    omega
  · intro hnot st' hrecord
    obtain ⟨-, -, ⟨hadv, -, -⟩ | ⟨vt, start, len, key, hloc, hpayload⟩⟩ :=
      parseRecord_next hlen hrecord
    · exact hadv
    · -- an attribute is followed by what its length says
      obtain ⟨hpos, hstart, hlimit, hmin, hmax⟩ := hloc.bounds
      obtain ⟨-, hnext, -, hvalue⟩ := parsePayload_next hpayload
      have hpresent := (exists_parseValue_iff hlen hlimit vt).mp hvalue
      by_contra hback
      exact hnot ⟨vt, start, len, hloc,
        (leadsBack_iff hlen hpos hstart hlimit hmin hmax).mpr ⟨hpresent, by omega⟩⟩

/-! ### The loop -/

/-- The parser comes to an end, and each turn of its loop that is followed by another one
passes a byte, so that there are at most as many of them as there are bytes of records. -/
structure Terminates (utf8 : Charset) (b : ByteBuffer) : Prop where
  returns : ∀ ID, ∃ fuel r, (createFromArray utf8 fuel ID b).1 = some r
  advances : ∀ st st', Begins utf8 b st → parseRecord utf8 st = .ok (.next st') →
    st.pos + 1 ≤ st'.pos
  bounded : ∀ ds st₀ hist st, Arrives utf8 b ds st₀ hist st → hist.length ≤ ds.toNat

section Loop

variable (hlen : b.array.length < 2 ^ 31)
  (hadv : ∀ st st', Begins utf8 b st → parseRecord utf8 st = .ok (.next st') →
    st.pos + 1 ≤ st'.pos)
  {ds : ℤ} {st₀ : Parser}

include hlen hadv

/-- The loop comes to an end: what is left of the longest array becomes shorter. -/
theorem exists_parseLoop {hist : List (Parser × Unit)} {st : Parser}
    (h : Arrives utf8 b ds st₀ hist st) :
    ∃ fuel r, parseLoop utf8 (add32 st₀.pos ds) fuel st = some r := by
  -- by induction on what is left of the longest array
  induction hn : (2 ^ 31 - st.pos).toNat using Nat.strong_induction_on generalizing hist st with
  | _ n ih =>
    by_cases hguard : add32 st.pos eavHeaderSize ≤ add32 st₀.pos ds
    · cases hrecord : parseRecord utf8 st with
      | error e => exact ⟨1, _, parseLoop_error hguard hrecord 0⟩
      | ok turn =>
        cases turn with
        | leave st' => exact ⟨1, _, parseLoop_leave hguard hrecord 0⟩
        | next st' =>
          have hst : st.buf.array.length < 2 ^ 31 := (h.buf_eq hlen).1 ▸ hlen
          have hlimit := st.buf.limit_le
          obtain ⟨hge, hlt, -⟩ := parseRecord_next hst hrecord
          have hpos := hadv st st' ⟨ds, st₀, hist, h, hguard⟩ hrecord
          obtain ⟨fuel, r, hr⟩ := ih (2 ^ 31 - st'.pos).toNat (by omega)
            ⟨h.passes, h.run.step () ⟨hguard, hrecord⟩⟩ rfl
          exact ⟨fuel + 1, r, by rw [parseLoop_next hguard hrecord, hr]⟩
    · exact ⟨1, _, parseLoop_end hguard 0⟩

/-- Each turn so far has passed a byte, all of them before the end. -/
theorem length_le {hist : List (Parser × Unit)} {st : Parser}
    (h : Arrives utf8 b ds st₀ hist st) :
    st₀.pos + hist.length ≤ st.pos ∧ hist.length ≤ ds.toNat := by
  obtain ⟨-, -, hpos, hsmall, hmin, hmax⟩ := h.passes.bounds
  obtain ⟨hpasses, hrun⟩ := h
  induction hrun with
  | start => exact ⟨by simp, Nat.zero_le _⟩
  | @step hist st st' i hrun hturn ih =>
    obtain ⟨hguard, hrecord⟩ := hturn
    have hst : st.buf.array.length < 2 ^ 31 := (Arrives.buf_eq hlen ⟨hpasses, hrun⟩).1 ▸ hlen
    have hlimit := st.buf.limit_le
    obtain ⟨hge, hlt, -⟩ := parseRecord_next hst hrecord
    have hnext := hadv st st' ⟨ds, st₀, hist, ⟨hpasses, hrun⟩, hguard⟩ hrecord
    rw [List.length_append, List.length_singleton]
    simp only [eavHeaderSize] at hguard
    unfold add32 wrap32 at hguard
    omega

end Loop

/-- **The parser terminates, and each turn makes progress**, if and only if the loop comes to
no record that leads back. -/
theorem terminates_iff (hlen : b.array.length < 2 ^ 31) :
    Terminates utf8 b ↔ ∀ st, Begins utf8 b st → ¬Retreats st := by
  have harray : ∀ st, Begins utf8 b st → st.buf.array.length < 2 ^ 31 := by
    rintro st ⟨ds, st₀, hist, h, -⟩
    rw [(h.buf_eq hlen).1]
    exact hlen
  constructor
  · intro h st hbegins
    exact (advances_iff (harray st hbegins)).mp fun st' => h.advances st st' hbegins
  · intro h
    have hadv : ∀ st st', Begins utf8 b st → parseRecord utf8 st = .ok (.next st') →
        st.pos + 1 ≤ st'.pos := fun st st' hbegins =>
      (advances_iff (harray st hbegins)).mpr (h st hbegins) st'
    refine ⟨fun ID => ?_, hadv, fun ds st₀ hist st harrives => (length_le hlen hadv harrives).2⟩
    by_cases hpasses : ∃ ds st, Passes b ds st
    · -- the header is taken, and the loop comes to an end
      obtain ⟨ds, st, hpasses⟩ := hpasses
      obtain ⟨task, hmade⟩ := createFromArray_of_passes utf8 hpasses ID
      obtain ⟨fuel, r, hr⟩ := exists_parseLoop hlen hadv ⟨hpasses, .start⟩
      exact ⟨fuel, _, by rw [hmade, hr]; rfl⟩
    · obtain ⟨e, he⟩ := createFromArray_of_not_passes utf8
        (fun ds st hst => hpasses ⟨ds, st, hst⟩) ID
      exact ⟨0, _, he 0⟩

/-- Each of the three records of a packet leads on. -/
theorem terminates_several : Terminates .utf8 several := by
  refine (terminates_iff (by decide)).mpr fun st hbegins => ?_
  have hadvances : ∀ st', parseRecord .utf8 st = .ok (.next st') → st.pos + 1 ≤ st'.pos := by
    intro st' hrecord
    obtain ⟨hentity, hnumber, htext⟩ := parseRecord_several
    obtain rfl | rfl | rfl := begins_several hbegins
    · cases hentity.symm.trans hrecord
      decide
    · cases hnumber.symm.trans hrecord
      decide
    · cases htext.symm.trans hrecord
      decide
  have hlen : st.buf.array.length < 2 ^ 31 := by
    obtain rfl | rfl | rfl := begins_several hbegins <;> decide
  exact (advances_iff hlen).mp hadvances

/-- The loop never leaves a record that leads back to where it starts. -/
theorem parseLoop_eq_none {size : ℤ} {vt : ValueType} {start : ℕ} {len : ℤ} (fuel : ℕ) :
    ∀ {st : Parser}, st.buf.array.length < 2 ^ 31 → add32 st.pos eavHeaderSize ≤ size →
      Located st vt start len → Present st.buf vt start len → add32 start len = st.pos →
        parseLoop utf8 size fuel st = none := by
  induction fuel with
  | zero => exact fun _ _ _ _ _ => rfl
  | succ fuel ih =>
    intro st hlen hguard hloc hpresent hself
    have hbounds := hloc.bounds
    obtain ⟨key, hrecord⟩ := @parseRecord_located utf8 st vt start len hlen hloc
    obtain ⟨⟨av, buf⟩, hvalue⟩ :=
      (@exists_parseValue_iff utf8 _ _ _ hlen hbounds.2.2.1 vt).mpr hpresent
    have hmoved := parseValue_moved hvalue
    have hnext : parseRecord utf8 st = .ok (.next ⟨putLast st.entities key av, st.pos, buf⟩) := by
      rw [hrecord, parsePayload, if_neg (by omega), hvalue, hself]
      rfl
    have hlen' : buf.array.length < 2 ^ 31 := by rwa [hmoved.array_eq]
    have hpresent' : Present buf vt start len := by
      cases vt <;> simpa only [Present, hmoved.array_eq, hmoved.limit_eq] using hpresent
    -- the record is as it was, and its entity has the attribute (again)
    rw [parseLoop_next hguard hnext]
    obtain ⟨pos, head, hpos, hhead, hattr, hne, hat⟩ := hloc
    exact ih hlen' hguard ⟨pos, head, hpos, (hmoved.get_eq _).trans hhead, hattr,
      putLast_ne_nil hne key av, hat.moved hmoved⟩ hpresent' hself

/-- An entity, and an attribute of which the length is -7, as many bytes as are before its
value. -/
def looping : ByteBuffer :=
  .wrap [4, 0x82, 0xDB, 0, 8, 0, 0x40, 0, 4, 0xF9, 0xFF, 0xFF, 0xFF]

theorem passes_looping : Passes looping 8 ⟨[], 5, behind looping⟩ :=
  ⟨rfl, ⟨0, 1, 0xDB82#16, looping.setOrder .littleEndian⟩, by decide,
    @readTask_any _ (EavTask.new none 1).1 { (EavTask.new none 1).1 with packetID := 0 } _ _ _
      (by decide +kernel)⟩

/-- No task is made of it, and nothing is thrown, however many turns the loop has. -/
theorem not_terminates_looping :
    (∀ fuel ID, (createFromArray .utf8 fuel ID looping).1 = none) ∧
      ¬Terminates .utf8 looping := by
  have hentity : parseRecord .utf8 ⟨[], 5, behind looping⟩ =
      .ok (.next ⟨[EntityM.new 0 0], 6, behind looping⟩) := by decide
  have hloc : Located ⟨[EntityM.new 0 0], 6, behind looping⟩ .i8 13 (-7) :=
    ⟨6, 0x40, rfl, by decide, by decide, by decide, 0, 4, by decide, by decide, by decide,
      by decide, by decide⟩
  have hpresent : Present (behind looping) .i8 13 (-7) := by
    show ((13 : ℕ) : ℤ) + -7 ≤ (13 : ℕ)
    decide
  have hnone : ∀ fuel ID, (createFromArray .utf8 fuel ID looping).1 = none := by
    intro fuel ID
    obtain ⟨task, hmade⟩ := createFromArray_of_passes .utf8 passes_looping ID
    rw [hmade]
    cases fuel with
    | zero => rfl
    | succ fuel =>
      rw [parseLoop_next (by decide) hentity,
        parseLoop_eq_none fuel (by decide) (by decide) hloc hpresent (by decide)]
      rfl
  refine ⟨hnone, fun h => ?_⟩
  obtain ⟨fuel, r, hr⟩ := h.returns 1
  rw [hnone] at hr
  cases hr

end Client
end PeeledOrange
