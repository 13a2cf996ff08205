import PeeledOrange.Client.Parse
import PeeledOrange.Lib.Lockstep

/-!
# Records that run over the end

The record loop ends where the header says, but a record that has been begun is compared
with the limit of the buffer only: if it says that it is longer than the packet, what comes
after the packet is read into it.  A floating-point number has as many bytes as it needs,
whatever its length says.

Two buffers that start with the same packet are read side by side here, one turn of the
record loop: they are read alike unless the record runs over the end of the packet.

## Main definitions

* `Cut` — a record that says that it is longer than the packet.
* `Strays` — and one of which anything is read from after the packet.
* `Same` — two parsers at the same place of the same packet.

## Main results

* `parseRecord_agree` — **a record that does not stray is read alike from all buffers.**
* `parseRecord_congr` — **where a buffer stands does not matter to a turn.**
* `parseRecord_of_cut`, `parseRecord_of_number` — what becomes of the others in a buffer that
  ends with the packet.
-/

namespace PeeledOrange
namespace Client

open Java Lockstep

variable {utf8 : Charset}

/-! ### Numbers and values -/

/-- The buffer starts with the packet, and has the least significant byte first. -/
structure Ready (b : ByteBuffer) (p : List UInt8) (n : ℕ) : Prop where
  starts : b.Starts p n
  order : b.order = .littleEndian

theorem Ready.moved {b b' : ByteBuffer} {p : List UInt8} {n : ℕ} (h : Ready b p n)
    (hmoved : b.Moved b') : Ready b' p n :=
  ⟨hmoved.starts h.starts, hmoved.order_eq.trans h.order⟩

/-- How many bytes are read of a value, whatever its length is. -/
def width : ValueType → ℕ
  | .f4 => 4
  | .f8 => 8
  | _ => 0

/-- What ends within the packet, as an `int`, does so unless it is too long for any array. -/
theorem le_or_of_add32_le {pos n m : ℕ} (h : add32 pos n ≤ m) :
    pos + n ≤ m ∨ 2 ^ 31 ≤ pos + n := by
  unfold add32 wrap32 at h
  omega

theorem add32_add32 (pos a t : ℕ) : add32 (add32 pos a) t = wrap32 (pos + a + t : ℕ) := by
  rw [add32, add32, wrap32_wrap32_add, Nat.cast_add, Nat.cast_add]

theorem toNat_le_or_of_add32_le {pos m : ℕ} {len : ℤ} (hpos : pos ≤ m) (h : add32 pos len ≤ m) :
    pos + len.toNat ≤ m ∨ 2 ^ 31 ≤ pos + len.toNat := by
  rcases Int.le_total 0 len with hlen | hlen
  · obtain ⟨n, rfl⟩ := Int.eq_ofNat_of_zero_le hlen
    exact le_or_of_add32_le h
  · rw [Int.toNat_eq_zero.mpr hlen]
    exact .inl hpos

section Values

variable {b b' : ByteBuffer} {p : List UInt8} {n n' : ℕ} (h : Ready b p n) (h' : Ready b' p n')

include h h'

theorem getBits_same (w : ℕ) {pos len : ℕ} (hpos : pos ≤ p.length)
    (hfits : pos + len ≤ p.length ∨ 2 ^ 31 ≤ pos + len) :
    getBits w b.array pos len 0 0 = getBits w b'.array pos len 0 0 := by
  have hlt := h.starts.length_lt
  have hlt' := h'.starts.length_lt
  rcases hfits with hfits | hfar
  · rw [getBits_starts h.starts w hfits, getBits_starts h'.starts w hfits]
  · have hle := h.starts.limit_le_length
    have hle' := h'.starts.limit_le_length
    have hbs := h.starts.length_le
    have hbs' := h'.starts.length_le
    rw [getBits_beyond hlt 0 (by omega) (by omega), getBits_beyond hlt' 0 (by omega) (by omega)]

theorem newString_same {pos : ℕ} {len : ℤ}
    (hfits : pos + len.toNat ≤ p.length ∨ 2 ^ 31 ≤ pos + len.toNat) :
    newString utf8 b.array pos len = newString utf8 b'.array pos len := by
  have hlt := h.starts.length_lt
  have hlt' := h'.starts.length_lt
  have hle := h.starts.limit_le_length
  have hle' := h'.starts.limit_le_length
  have hbs := h.starts.length_le
  have hbs' := h'.starts.length_le
  by_cases hneg : len < 0
  · rw [newString, if_neg (by omega), newString, if_neg (by omega)]
  rcases hfits with hfits | hfar
  · rw [newString, if_pos (by omega), newString, if_pos (by omega), Int.toNat_natCast,
      h.starts.take_drop hfits, h'.starts.take_drop hfits]
  · rw [newString, if_neg (by omega), newString, if_neg (by omega)]

/-- Both values are the same, and so are the buffers that are left. -/
def SameValue (p : List UInt8) (n n' : ℕ) (r r' : AttributeValue × ByteBuffer) : Prop :=
  r'.1 = r.1 ∧ Ready r.2 p n ∧ Ready r'.2 p n'

/-- The bytes of a value that has no type of its own. -/
theorem nextBytes_agree {pos m : ℕ} (hpos : pos ≤ p.length)
    (hfits : pos + m ≤ p.length ∨ 2 ^ 31 ≤ pos + m) :
    Agree (SameValue p n n')
      (do
        let buf ← b.setPosition pos
        let (bs, buf) ← buf.nextBytes m
        return (setValue utf8 (.byteBuffer (.wrap bs)), buf))
      (do
        let buf ← b'.setPosition pos
        let (bs, buf) ← buf.nextBytes m
        return (setValue utf8 (.byteBuffer (.wrap bs)), buf)) := by
  obtain ⟨c, hset, hmoved, hcpos⟩ := h.starts.setPosition hpos
  obtain ⟨c', hset', hmoved', hcpos'⟩ := h'.starts.setPosition hpos
  have hc := h.moved hmoved
  have hc' := h'.moved hmoved'
  rw [hset, hset', ok_bind, ok_bind]
  rcases hfits with hfits | hfar
  · obtain ⟨d, hnext, hd⟩ := hc.starts.nextBytes (hcpos ▸ hfits)
    obtain ⟨d', hnext', hd'⟩ := hc'.starts.nextBytes (hcpos' ▸ hfits)
    rw [hnext, hnext', hcpos, hcpos']
    exact .ok ⟨rfl, hc.moved hd, hc'.moved hd'⟩
  · -- there is no array of that length
    have hlt := hc.starts.length_lt
    have hlt' := hc'.starts.length_lt
    have hle := hc.starts.limit_le_length
    have hle' := hc'.starts.limit_le_length
    rw [ByteBuffer.nextBytes, dif_neg (by rw [hc.starts.limit_eq]; omega), ByteBuffer.nextBytes,
      dif_neg (by rw [hc'.starts.limit_eq]; omega)]
    exact .error _ _

/-- **A value that does not stray is read alike.** -/
theorem parseValue_agree {vt : ValueType} {pos : ℕ} {len : ℤ} (hpos : pos ≤ p.length)
    (hfits : add32 pos len ≤ p.length) (hwidth : pos + width vt ≤ p.length) :
    Agree (SameValue p n n') (parseValue utf8 b vt pos len) (parseValue utf8 b' vt pos len) := by
  have hfits' := toNat_le_or_of_add32_le hpos hfits
  have hint : getInt b.array pos len = getInt b'.array pos len :=
    getBits_same h h' 32 hpos hfits'
  have hlong : getLong b.array pos len = getLong b'.array pos len :=
    getBits_same h h' 64 hpos hfits'
  have hnumber : ∀ m, pos + m ≤ p.length → b.getNumber pos m = b'.getNumber pos m := fun m hm => by
    rw [h.starts.getNumber hm h.order, h'.starts.getNumber hm h'.order]
  have hsame : ∀ av, Agree (SameValue p n n') (Except.ok (ε := Throwable) (av, b)) (.ok (av, b')) :=
    fun av => .ok ⟨rfl, h, h'⟩
  cases vt with
  | i8 =>
    simp only [parseValue, hint]
    exact .bind_same _ fun v => hsame _
  | i16 =>
    simp only [parseValue, hint]
    exact .bind_same _ fun v => hsame _
  | i32 =>
    simp only [parseValue, hint]
    exact .bind_same _ fun v => hsame _
  | i64 =>
    simp only [parseValue, hlong]
    exact .bind_same _ fun v => hsame _
  | f4 =>
    simp only [parseValue, hnumber 4 hwidth]
    exact .bind_same _ fun v => hsame _
  | f8 =>
    simp only [parseValue, hnumber 8 hwidth]
    exact .bind_same _ fun v => hsame _
  | s =>
    simp only [parseValue, newString_same h h' hfits']
    exact .bind_same _ fun v => hsame _
  | b =>
    simp only [parseValue]
    exact .bind_same _ fun _ => nextBytes_agree h h' hpos hfits'

end Values

/-! ### Records -/

/-- One of the comparisons with the limit would fail for an attribute if the limit was the
end of the packet, or its value, by its type, its place and its length, is one of these. -/
def AttributeOverruns (p : List UInt8) (V : ValueType → ℕ → ℤ → Prop) (head : UInt8) (pos : ℕ) :
    Prop :=
  let vt := (p.getD pos 0).toNat
  let len := (p.getD (pos + 1) 0).toNat
  (p.length : ℤ) < add32 pos 2 ∨
    pos + 2 ≤ p.length ∧ vt ≤ ValueType.b.ordinal ∧
      if head &&& 0x80 = 0 then
        (p.length : ℤ) < add32 (pos + 2 : ℕ) len ∨
          pos + 2 + len ≤ p.length ∧ V (ValueType.values.getD vt .b) (pos + 2 + len)
            (readInt ((p.drop (pos + 2)).take len)).toInt
      else V (ValueType.values.getD vt .b) (pos + 2) len

/-- And for a record: an attribute without an entity is left as it is. -/
def RecordOverruns (p : List UInt8) (V : ValueType → ℕ → ℤ → Prop) (es : List EntityM) (pos : ℕ) :
    Prop :=
  let head := p.getD pos 0
  if head &&& 0x40 = 0 then
    (p.length : ℤ) < add32 (add32 (pos + 1 : ℕ) (numWidth head)) (typeWidth head)
  else
    es ≠ [] ∧ ((p.length : ℤ) < add32 (add32 (pos + 1 : ℕ) (numWidth head)) (typeWidth head) ∨
      pos + 1 + numWidth head + typeWidth head ≤ p.length ∧
        AttributeOverruns p V head (pos + 1 + numWidth head + typeWidth head))

/-- And for the record that is next. -/
def Overruns (p : List UInt8) (V : ValueType → ℕ → ℤ → Prop) (st : Parser) : Prop :=
  ∃ pos : ℕ, st.pos = pos ∧ pos < p.length ∧ RecordOverruns p V st.entities pos

/-- The record says that it is longer than the packet. -/
def Cut (p : List UInt8) : Parser → Prop :=
  Overruns p fun _ pos len => (p.length : ℤ) < add32 pos len

/-- Or it has a floating-point number that is. -/
def Strays (p : List UInt8) : Parser → Prop :=
  Overruns p fun vt pos len => (p.length : ℤ) < add32 pos len ∨ p.length < pos + width vt

section Cases

variable {p : List UInt8} {V V' V'' : ValueType → ℕ → ℤ → Prop}

/-- A comparison that fails does so whatever the values are, and these are of either kind. -/
theorem AttributeOverruns.cases (hV : ∀ vt pos len, V vt pos len → V' vt pos len ∨ V'' vt pos len)
    {head : UInt8} {pos : ℕ} (h : AttributeOverruns p V head pos) :
    AttributeOverruns p V' head pos ∨ AttributeOverruns p V'' head pos := by
  unfold AttributeOverruns at *
  by_cases hlong : head &&& 0x80 = 0
  · simp only [if_pos hlong] at h ⊢
    rcases h with hcut | ⟨hfits, hvt, hcut | ⟨hfits', hvalue⟩⟩
    · exact .inl (.inl hcut)
    · exact .inl (.inr ⟨hfits, hvt, .inl hcut⟩)
    · exact (hV _ _ _ hvalue).imp (fun hv => .inr ⟨hfits, hvt, .inr ⟨hfits', hv⟩⟩)
        fun hv => .inr ⟨hfits, hvt, .inr ⟨hfits', hv⟩⟩
  · simp only [if_neg hlong] at h ⊢
    rcases h with hcut | ⟨hfits, hvt, hvalue⟩
    · exact .inl (.inl hcut)
    · exact (hV _ _ _ hvalue).imp (fun hv => .inr ⟨hfits, hvt, hv⟩)
        fun hv => .inr ⟨hfits, hvt, hv⟩

theorem Overruns.cases (hV : ∀ vt pos len, V vt pos len → V' vt pos len ∨ V'' vt pos len)
    {st : Parser} (h : Overruns p V st) : Overruns p V' st ∨ Overruns p V'' st := by
  obtain ⟨pos, hpos, hlt, h⟩ := h
  unfold Overruns RecordOverruns at *
  by_cases hattr : p.getD pos 0 &&& 0x40 = 0
  · exact .inl ⟨pos, hpos, hlt, by simpa only [if_pos hattr] using h⟩
  simp only [if_neg hattr] at h
  obtain ⟨hne, hcut | ⟨hfits, hover⟩⟩ := h
  · exact .inl ⟨pos, hpos, hlt, by rw [if_neg hattr]; exact ⟨hne, .inl hcut⟩⟩
  · refine (hover.cases hV).imp (fun hover => ⟨pos, hpos, hlt, ?_⟩)
      (fun hover => ⟨pos, hpos, hlt, ?_⟩)
    · rw [if_neg hattr]
      exact ⟨hne, .inr ⟨hfits, hover⟩⟩
    · rw [if_neg hattr]
      exact ⟨hne, .inr ⟨hfits, hover⟩⟩

theorem Overruns.mono (hV : ∀ vt pos len, V vt pos len → V' vt pos len) {st : Parser}
    (h : Overruns p V st) : Overruns p V' st :=
  (h.cases fun vt pos len hvalue => .inl (hV vt pos len hvalue)).elim id id

end Cases

/-- A record that strays without being cut does so for its number. -/
theorem Strays.number {p : List UInt8} {st : Parser} (h : Strays p st) (hcut : ¬Cut p st) :
    Overruns p (fun vt pos len => ¬(p.length : ℤ) < add32 pos len ∧ p.length < pos + width vt)
      st := by
  refine (h.cases fun vt pos len hvalue => ?_).resolve_left hcut
  by_cases hlong : (p.length : ℤ) < add32 pos len
  · exact .inl hlong
  · exact .inr ⟨hlong, hvalue.resolve_left hlong⟩

/-- The entities are the same, and both are at the same place. -/
structure Same (p : List UInt8) (n n' : ℕ) (st st' : Parser) : Prop where
  entities_eq : st'.entities = st.entities
  pos_eq : st'.pos = st.pos
  ready : Ready st.buf p n
  ready' : Ready st'.buf p n'

theorem Same.symm {p : List UInt8} {n n' : ℕ} {st st' : Parser} (h : Same p n n' st st') :
    Same p n' n st' st :=
  ⟨h.entities_eq.symm, h.pos_eq.symm, h.ready', h.ready⟩

/-- Both go on alike, or both leave the loop with the same entities. -/
inductive SameTurn (p : List UInt8) (n n' : ℕ) : Turn → Turn → Prop
  | next {st st' : Parser} (h : Same p n n' st st') : SameTurn p n n' (.next st) (.next st')
  | leave {st st' : Parser} (h : st'.entities = st.entities) :
      SameTurn p n n' (.leave st) (.leave st')

section Records

variable {p : List UInt8} {n n' : ℕ} {st st' : Parser}

theorem parsePayload_agree (h : Same p n n' st st') (key : DualKey) {vt : ValueType} {pos : ℕ}
    {len : ℤ} (hpos : pos ≤ p.length) (hfits : add32 pos len ≤ p.length)
    (hwidth : pos + width vt ≤ p.length) :
    Agree (SameTurn p n n') (parsePayload utf8 st key vt pos len)
      (parsePayload utf8 st' key vt pos len) := by
  have hlimit := h.ready.starts.limit_eq
  have hlimit' := h.ready'.starts.limit_eq
  have hle := h.ready.starts.length_le
  have hle' := h.ready'.starts.length_le
  rw [parsePayload, if_neg (by omega), parsePayload, if_neg (by omega), h.entities_eq]
  exact (parseValue_agree h.ready h.ready' hpos hfits hwidth).bind fun r r' hr =>
    .ok (.next ⟨by rw [hr.1], rfl, hr.2.1, hr.2.2⟩)

/-- No array is long enough for the attribute. -/
theorem parseAttribute_far (hst : st.buf.Starts p n) (hne : st.entities ≠ []) (head : UInt8)
    (key : DualKey) {pos : ℕ} (hpos : pos ≤ p.length) (hfar : 2 ^ 31 ≤ pos + 2) :
    ∃ e, parseAttribute utf8 st head key pos = .error e := by
  have hle := hst.length_le
  have hlt := hst.length_lt
  have hlimit := hst.limit_le_length
  have hwrap : ¬(st.buf.limit : ℤ) < add32 pos 2 := by
    rw [show add32 pos 2 = add32 pos (2 : ℕ) from rfl, lt_add32_iff (by omega)]
    omega
  rw [parseAttribute, if_neg hne, if_neg hwrap]
  cases hget : st.buf.get pos with
  | error e => exact ⟨e, rfl⟩
  | ok vt =>
    rw [ok_bind]
    by_cases hvt : vt.toNat > ValueType.b.ordinal
    · exact ⟨_, by rw [if_pos hvt]; rfl⟩
    · -- the byte after the type is where no array has one
      have hbeyond := hst.get_beyond (i := add32 pos 1) (by unfold add32 wrap32; omega)
      exact ⟨.indexOutOfBounds, by rw [if_neg hvt, hbeyond]; rfl⟩

/-- A value after its length, if the length has a width of its own. -/
theorem parsePayload_agree_long (h : Same p n n' st st') (key : DualKey) (vt : ValueType)
    {pos m : ℕ} (hpos : pos ≤ p.length) (hroom : ¬(p.length : ℤ) < add32 pos m)
    (hvalue : pos + m ≤ p.length →
      ¬((p.length : ℤ) < add32 (pos + m : ℕ) (readInt ((p.drop pos).take m)).toInt ∨
        p.length < pos + m + width vt)) :
    Agree (SameTurn p n n')
      (getInt st.buf.array pos m >>= fun number =>
        parsePayload utf8 st key vt (add32 pos m) number.toInt)
      (getInt st'.buf.array pos m >>= fun number =>
        parsePayload utf8 st' key vt (add32 pos m) number.toInt) := by
  have hst := h.ready.starts
  have hst' := h.ready'.starts
  have hlt := hst.length_lt
  have hlimit := hst.limit_le_length
  have hle := hst.length_le
  have hsame : getInt st.buf.array pos m = getInt st'.buf.array pos m :=
    getBits_same h.ready h.ready' 32 hpos (le_or_of_add32_le (Int.not_lt.mp hroom))
  rw [← hsame]
  rcases le_or_of_add32_le (Int.not_lt.mp hroom) with hfits | hfar
  · have hadd : add32 pos m = (pos + m : ℕ) := add32_natCast (by omega)
    have hget : getInt st.buf.array pos m = _ := getBits_starts hst 32 hfits
    have hin := hvalue hfits
    rw [not_or, Int.not_lt, Nat.not_lt] at hin
    rw [hget, ok_bind, ok_bind, hadd]
    exact parsePayload_agree h key hfits hin.1 hin.2
  · -- no array is long enough for the length
    have hbeyond : getInt st.buf.array pos m = _ := getBits_beyond hlt 0 (by omega) (by omega)
    rw [hbeyond]
    exact .error _ _

theorem parseAttribute_agree (h : Same p n n' st st') (hne : st.entities ≠ []) (head : UInt8)
    (key : DualKey) {pos : ℕ} (hpos : pos ≤ p.length)
    (hin : ¬AttributeOverruns p (fun vt pos len => (p.length : ℤ) < add32 pos len ∨
      p.length < pos + width vt) head pos) :
    Agree (SameTurn p n n') (parseAttribute utf8 st head key pos)
      (parseAttribute utf8 st' head key pos) := by
  have hst := h.ready.starts
  have hst' := h.ready'.starts
  have hne' : st'.entities ≠ [] := by
    rw [h.entities_eq]
    exact hne
  have hle := hst.length_le
  have hle' := hst'.length_le
  rw [AttributeOverruns, not_or] at hin
  obtain ⟨htwo, hin⟩ := hin
  rcases le_or_of_add32_le (n := 2) (Int.not_lt.mp htwo) with hfits | hfar
  · rw [parseAttribute_starts hst hne head key hfits,
      parseAttribute_starts hst' hne' head key hfits]
    by_cases hvt : (p.getD pos 0).toNat > ValueType.b.ordinal
    · rw [if_pos hvt, if_pos hvt]
      exact .error _ _
    rw [if_neg hvt, if_neg hvt]
    replace hin := fun hvalue => hin ⟨hfits, Nat.le_of_not_lt hvt, hvalue⟩
    by_cases hlong : head &&& 0x80 = 0
    · rw [if_pos hlong] at hin ⊢
      rw [if_pos hlong]
      rw [imp_false, not_or] at hin
      obtain ⟨hroom, hvalue⟩ := hin
      rw [if_neg (by omega), if_neg (by omega)]
      exact parsePayload_agree_long h key _ hfits hroom fun hfits' hv => hvalue ⟨hfits', hv⟩
    · rw [if_neg hlong] at hin ⊢
      rw [if_neg hlong]
      rw [imp_false, not_or, Int.not_lt, Nat.not_lt] at hin
      exact parsePayload_agree h key hfits hin.1 hin.2
  · exact .of_error (parseAttribute_far hst hne head key hpos hfar)
      (parseAttribute_far hst' hne' head key hpos hfar)

/-- No array is long enough for both numbers. -/
theorem fields_far {α : Type} {b : ByteBuffer} (hb : b.Starts p n) {pos a t : ℕ}
    (hpos : pos ≤ p.length) (hfar : 2 ^ 31 ≤ pos + a + t)
    (f : BitVec 32 → BitVec 32 → Except Throwable α) :
    ∃ e, (getInt b.array pos a >>= fun num => getInt b.array (add32 pos a) t >>= f num) =
      .error e := by
  have hlt := hb.length_lt
  have hle := hb.length_le
  have hlimit := hb.limit_le_length
  by_cases hfits : pos + a ≤ b.array.length
  · cases hnum : getInt b.array pos a with
    | error e => exact ⟨e, rfl⟩
    | ok num =>
      have hadd : add32 pos a = (pos + a : ℕ) := add32_natCast (by omega)
      have hbeyond : getInt b.array (pos + a : ℕ) t = _ :=
        getBits_beyond hlt 0 (by omega) (by omega)
      exact ⟨_, by rw [ok_bind, hadd, hbeyond, error_bind]⟩
  · have hbeyond : getInt b.array pos a = _ := getBits_beyond hlt 0 (by omega) (by omega)
    exact ⟨_, by rw [hbeyond, error_bind]⟩

/-- Both numbers are in the array. -/
theorem fields_ok {b : ByteBuffer} (hlt : b.array.length < 2 ^ 31) {pos a t : ℕ}
    (hle : pos + a + t ≤ b.array.length) :
    ∃ num type, getInt b.array pos a = .ok num ∧ getInt b.array (add32 pos a) t = .ok type := by
  have hadd : add32 pos a = (pos + a : ℕ) := add32_natCast (by omega)
  rw [hadd]
  exact ⟨_, _, getBits_range 32 hlt (by omega), getBits_range 32 hlt hle⟩

theorem fields_agree {α α' : Type} {R : α → α' → Prop} {b b' : ByteBuffer} (h : Ready b p n)
    (h' : Ready b' p n') {pos a t : ℕ} (hpos : pos ≤ p.length)
    (hfits : pos + a + t ≤ p.length ∨ 2 ^ 31 ≤ pos + a + t)
    {f : BitVec 32 → BitVec 32 → Except Throwable α}
    {f' : BitVec 32 → BitVec 32 → Except Throwable α'}
    (hf : ∀ num type, pos + a + t ≤ p.length → Agree R (f num type) (f' num type)) :
    Agree R (getInt b.array pos a >>= fun num => getInt b.array (add32 pos a) t >>= f num)
      (getInt b'.array pos a >>= fun num => getInt b'.array (add32 pos a) t >>= f' num) := by
  rcases hfits with hfits | hfar
  · have hlt := h.starts.length_lt
    have hlimit := h.starts.limit_le_length
    have hle := h.starts.length_le
    have hadd : add32 pos a = (pos + a : ℕ) := add32_natCast (by omega)
    have hnum : getInt b.array pos a = getInt b'.array pos a :=
      getBits_same h h' 32 hpos (.inl (by omega))
    have htype : getInt b.array (pos + a : ℕ) t = getInt b'.array (pos + a : ℕ) t :=
      getBits_same h h' 32 (by omega) (.inl hfits)
    rw [hadd, hnum, htype]
    exact .bind_same _ fun num => .bind_same _ fun type => hf num type hfits
  · exact .of_error (fields_far h.starts hpos hfar f) (fields_far h'.starts hpos hfar f')

/-- Both numbers are in the packet, unless they are too long for any array. -/
theorem fits_or_far {pos a t : ℕ} (h : ¬(p.length : ℤ) < add32 (add32 pos a) t) :
    pos + a + t ≤ p.length ∨ 2 ^ 31 ≤ pos + a + t := by
  rw [add32_add32] at h
  unfold wrap32 at h
  omega

/-- An entity is read alike. -/
theorem parseRecord_agree_entity (h : Same p n n' st st') {pos : ℕ} (hpos : st.pos = pos)
    (hlt : pos < p.length) {head : UInt8} (hhead : p.getD pos 0 = head)
    (hentity : head &&& 0x40 = 0)
    (hroom : ¬(p.length : ℤ) < add32 (add32 (pos + 1 : ℕ) (numWidth head)) (typeWidth head)) :
    Agree (SameTurn p n n') (parseRecord utf8 st) (parseRecord utf8 st') := by
  have hst := h.ready.starts
  have hst' := h.ready'.starts
  have hint := hst.length_lt
  have hlimit := hst.limit_le_length
  have hle := hst.length_le
  have hle' := hst'.length_le
  rw [parseRecord_starts hst hpos hlt hhead,
    parseRecord_starts hst' (h.pos_eq.trans hpos) hlt hhead, if_neg (by omega), if_neg (by omega)]
  apply fields_agree h.ready h.ready' hlt (fits_or_far hroom)
  intro num type _
  rw [if_pos hentity, if_pos hentity, h.entities_eq]
  exact .ok (.next ⟨rfl, rfl, h.ready, h.ready'⟩)

/-- An attribute without an entity ends the loop. -/
theorem parseRecord_orphan (hst : st.buf.Starts p n) {pos : ℕ} (hpos : st.pos = pos)
    (hlt : pos < p.length) {head : UInt8} (hhead : p.getD pos 0 = head)
    (hattr : head &&& 0x40 ≠ 0) (hnil : st.entities = [])
    (hint : pos + 1 + numWidth head + typeWidth head < 2 ^ 31) :
    ∃ st', parseRecord utf8 st = .ok (.leave st') ∧ st'.entities = st.entities := by
  have hlimit := hst.limit_le_length
  have hend := add32_add32 (pos + 1) (numWidth head) (typeWidth head)
  rw [wrap32_of_lt (by omega) (by omega)] at hend
  rw [parseRecord_starts hst hpos hlt hhead]
  by_cases hroom : add32 (add32 (pos + 1 : ℕ) (numWidth head)) (typeWidth head) > n
  · rw [if_pos hroom]
    exact ⟨_, rfl, rfl⟩
  · obtain ⟨num, type, hnum, htype⟩ := @fields_ok st.buf hst.length_lt (pos + 1) (numWidth head)
      (typeWidth head) (by omega)
    rw [if_neg hroom, hnum, ok_bind, htype, ok_bind, if_neg hattr, parseAttribute, if_pos hnil]
    exact ⟨_, rfl, rfl⟩

/-- It is read alike, wherever its end is. -/
theorem parseRecord_agree_orphan (h : Same p n n' st st') {pos : ℕ} (hpos : st.pos = pos)
    (hlt : pos < p.length) {head : UInt8} (hhead : p.getD pos 0 = head)
    (hattr : head &&& 0x40 ≠ 0) (hnil : st.entities = []) :
    Agree (SameTurn p n n') (parseRecord utf8 st) (parseRecord utf8 st') := by
  have hst := h.ready.starts
  have hst' := h.ready'.starts
  have hpos' := h.pos_eq.trans hpos
  rcases Nat.lt_or_ge (pos + 1 + numWidth head + typeWidth head) (2 ^ 31) with hint | hfar
  · obtain ⟨st₁, hleave, heq⟩ :=
      @parseRecord_orphan utf8 _ _ _ hst _ hpos hlt _ hhead hattr hnil hint
    obtain ⟨st₁', hleave', heq'⟩ := @parseRecord_orphan utf8 _ _ _ hst' _ hpos' hlt _ hhead hattr
      (h.entities_eq.trans hnil) hint
    rw [hleave, hleave']
    exact .ok (.leave (heq'.trans (h.entities_eq.trans heq.symm)))
  · have hint := hst.length_lt
    have hlimit := hst.limit_le_length
    have hle := hst.length_le
    have hnum := numWidth_lt head
    have htype := typeWidth_lt head
    have hwrap : add32 (add32 (pos + 1 : ℕ) (numWidth head)) (typeWidth head) < 0 := by
      rw [add32_add32]
      unfold wrap32
      omega
    rw [parseRecord_starts hst hpos hlt hhead, parseRecord_starts hst' hpos' hlt hhead,
      if_neg (by omega), if_neg (by omega)]
    exact fields_agree h.ready h.ready' hlt (.inr hfar) fun _ _ hfits => by omega

/-- An attribute of an entity is read alike if it does not stray. -/
theorem parseRecord_agree_attribute (h : Same p n n' st st') {pos : ℕ} (hpos : st.pos = pos)
    (hlt : pos < p.length) {head : UInt8} (hhead : p.getD pos 0 = head)
    (hattr : head &&& 0x40 ≠ 0) (hne : st.entities ≠ [])
    (hroom : ¬(p.length : ℤ) < add32 (add32 (pos + 1 : ℕ) (numWidth head)) (typeWidth head))
    (hin : pos + 1 + numWidth head + typeWidth head ≤ p.length →
      ¬AttributeOverruns p (fun vt pos len => (p.length : ℤ) < add32 pos len ∨
        p.length < pos + width vt) head (pos + 1 + numWidth head + typeWidth head)) :
    Agree (SameTurn p n n') (parseRecord utf8 st) (parseRecord utf8 st') := by
  have hst := h.ready.starts
  have hst' := h.ready'.starts
  have hint := hst.length_lt
  have hlimit := hst.limit_le_length
  have hle := hst.length_le
  have hle' := hst'.length_le
  rw [parseRecord_starts hst hpos hlt hhead,
    parseRecord_starts hst' (h.pos_eq.trans hpos) hlt hhead, if_neg (by omega), if_neg (by omega)]
  apply fields_agree h.ready h.ready' hlt (fits_or_far hroom)
  intro num type hfits
  rw [if_neg hattr, if_neg hattr, add32_add32, wrap32_of_lt (by omega) (by omega)]
  exact parseAttribute_agree h hne _ _ hfits (hin hfits)

/-- **A record that does not stray is read alike from all buffers.** -/
theorem parseRecord_agree (h : Same p n n' st st') (hguard : add32 st.pos eavHeaderSize ≤ p.length)
    (hin : ¬Strays p st) :
    Agree (SameTurn p n n') (parseRecord utf8 st) (parseRecord utf8 st') := by
  have hst := h.ready.starts
  have hst' := h.ready'.starts
  by_cases hpos : ∃ pos : ℕ, st.pos = pos ∧ pos < p.length
  · obtain ⟨pos, hpos, hlt⟩ := hpos
    replace hin := fun hover => hin ⟨pos, hpos, hlt, hover⟩
    rw [imp_false, RecordOverruns] at hin
    by_cases hattr : p.getD pos 0 &&& 0x40 = 0
    · rw [if_pos hattr] at hin
      exact parseRecord_agree_entity h hpos hlt rfl hattr hin
    · rw [if_neg hattr, not_and] at hin
      by_cases hnil : st.entities = []
      · exact parseRecord_agree_orphan h hpos hlt rfl hattr hnil
      · obtain ⟨hroom, hin⟩ := not_or.mp (hin hnil)
        exact parseRecord_agree_attribute h hpos hlt rfl hattr hnil hroom fun hfits hover =>
          hin ⟨hfits, hover⟩
  · -- there is no record in any array
    have hbeyond : st.pos < 0 ∨ 2 ^ 31 - 1 ≤ st.pos := by
      by_contra hnot
      rw [add32_of_lt (by rw [eavHeaderSize]; omega) (by rw [eavHeaderSize]; omega),
        eavHeaderSize] at hguard
      exact hpos ⟨st.pos.toNat, by omega, by omega⟩
    have hlt := hst.length_lt
    have hlimit := hst.limit_le_length
    have hlt' := hst'.length_lt
    have hlimit' := hst'.limit_le_length
    have hget := hst.get_beyond (i := st.pos) (by omega)
    have hget' := hst'.get_beyond (i := st.pos) (by omega)
    rw [parseRecord, parseRecord, h.pos_eq, hget, hget']
    exact .error _ _

/-- Where the buffer stands does not matter to a turn. -/
theorem parsePayload_congr (h : Same p n n st st') (hmoved : st.buf.Moved st'.buf) (key : DualKey)
    (vt : ValueType) (pos len : ℤ) :
    Agree (SameTurn p n n) (parsePayload utf8 st key vt pos len)
      (parsePayload utf8 st' key vt pos len) := by
  have hsame : ∀ av, Agree (SameValue p n n) (Except.ok (ε := Throwable) (av, st.buf))
      (.ok (av, st'.buf)) := fun av => .ok ⟨rfl, h.ready, h.ready'⟩
  have hnumber : ∀ m, st'.buf.getNumber pos m = st.buf.getNumber pos m := fun m => by
    rw [ByteBuffer.getNumber, ByteBuffer.getNumber, ByteBuffer.getBytes, ByteBuffer.getBytes,
      hmoved.array_eq, hmoved.arrayOffset_eq, hmoved.limit_eq, hmoved.order_eq]
  have hvalue : Agree (SameValue p n n) (parseValue utf8 st.buf vt pos len)
      (parseValue utf8 st'.buf vt pos len) := by
    cases vt with
    | b =>
      -- the position is set before the bytes are read
      simp only [parseValue]
      refine .bind_same _ fun _ => ?_
      have hset : st'.buf.setPosition pos = st.buf.setPosition pos := by
        simp only [ByteBuffer.setPosition, hmoved.array_eq, hmoved.arrayOffset_eq, hmoved.limit_eq,
          hmoved.order_eq]
      rw [hset]
      cases hbuf : st.buf.setPosition pos with
      | error e => exact .error e e
      | ok buf =>
        have hready := h.ready.moved (ByteBuffer.setPosition_moved hbuf)
        rw [ok_bind]
        cases hnext : buf.nextBytes len.toNat with
        | error e => exact .error e e
        | ok r =>
          obtain ⟨bs, buf'⟩ := r
          have hready' := hready.moved (ByteBuffer.nextBytes_moved hnext)
          exact .ok ⟨rfl, hready', hready'⟩
    | _ =>
      simp only [parseValue, hmoved.array_eq, hnumber]
      exact .bind_same _ fun v => hsame _
  rw [parsePayload, parsePayload, hmoved.limit_eq, h.entities_eq]
  split
  · exact .ok (.leave rfl)
  · exact hvalue.bind fun r r' hr => .ok (.next ⟨by rw [hr.1], rfl, hr.2.1, hr.2.2⟩)

/-- Nor to one that reads an attribute. -/
theorem parseAttribute_congr (h : Same p n n st st') (hmoved : st.buf.Moved st'.buf) (head : UInt8)
    (key : DualKey) (pos : ℤ) :
    Agree (SameTurn p n n) (parseAttribute utf8 st head key pos)
      (parseAttribute utf8 st' head key pos) := by
  rw [parseAttribute, parseAttribute, h.entities_eq, hmoved.limit_eq]
  by_cases hnil : st.entities = []
  · rw [if_pos hnil, if_pos hnil]
    exact .ok (.leave rfl)
  rw [if_neg hnil, if_neg hnil]
  by_cases hroom : add32 pos 2 > st.buf.limit
  · rw [if_pos hroom, if_pos hroom]
    exact .ok (.leave rfl)
  rw [if_neg hroom, if_neg hroom, hmoved.get_eq]
  refine .bind_same _ fun vt => ?_
  simp only [hmoved.get_eq, hmoved.array_eq]
  split
  · exact .error _ _
  refine .bind_same _ fun len => ?_
  split
  · split
    · exact .ok (.leave rfl)
    · exact .bind_same _ fun number => parsePayload_congr h hmoved _ _ _ _
  · exact parsePayload_congr h hmoved _ _ _ _

/-- **Where the buffer stands does not matter to a turn.** -/
theorem parseRecord_congr (h : Same p n n st st') (hmoved : st.buf.Moved st'.buf) :
    Agree (SameTurn p n n) (parseRecord utf8 st) (parseRecord utf8 st') := by
  rw [parseRecord, parseRecord, h.pos_eq, hmoved.get_eq, hmoved.limit_eq, hmoved.array_eq,
    h.entities_eq]
  refine .bind_same _ fun head => ?_
  simp only
  split
  · exact .ok (.leave rfl)
  refine .bind_same _ fun num => .bind_same _ fun type => ?_
  split
  · exact .ok (.next ⟨rfl, rfl, h.ready, h.ready'⟩)
  · exact parseAttribute_congr h hmoved _ _ _

/-! ### Turns that end the loop -/

theorem parsePayload_leave {key : DualKey} {vt : ValueType} {pos len : ℤ}
    (h : parsePayload utf8 st key vt pos len = .ok (.leave st')) : st'.entities = st.entities := by
  rw [parsePayload] at h
  split at h
  · cases h
    rfl
  · obtain ⟨⟨av, buf⟩, -, h⟩ := bind_eq_ok_iff.mp h
    cases h

theorem parseAttribute_leave {head : UInt8} {key : DualKey} {pos : ℤ}
    (h : parseAttribute utf8 st head key pos = .ok (.leave st')) : st'.entities = st.entities := by
  rw [parseAttribute] at h
  split at h
  · cases h
    rfl
  split at h
  · cases h
    rfl
  obtain ⟨vt, -, h⟩ := bind_eq_ok_iff.mp h
  simp only at h
  split at h
  · cases h
  obtain ⟨len, -, h⟩ := bind_eq_ok_iff.mp h
  split at h
  · split at h
    · cases h
      rfl
    · obtain ⟨number, -, h⟩ := bind_eq_ok_iff.mp h
      exact parsePayload_leave h
  · exact parsePayload_leave h

/-- A turn that ends the loop leaves the entities alone. -/
theorem parseRecord_leave (h : parseRecord utf8 st = .ok (.leave st')) :
    st'.entities = st.entities := by
  rw [parseRecord] at h
  obtain ⟨head, -, h⟩ := bind_eq_ok_iff.mp h
  simp only at h
  split at h
  · cases h
    rfl
  obtain ⟨num, -, h⟩ := bind_eq_ok_iff.mp h
  obtain ⟨type, -, h⟩ := bind_eq_ok_iff.mp h
  split at h
  · cases h
  · exact parseAttribute_leave h

/-! ### Buffers that end with the packet -/

section Ending

variable {V : ValueType → ℕ → ℤ → Prop} {Q : Except Throwable Turn → Prop}

/-- What is true of a turn that leaves the loop, and of one for such a value, is true of the
turn for an attribute that runs over the end. -/
theorem parseAttribute_of_overruns (hst : st.buf.Starts p p.length) (hne : st.entities ≠ [])
    {head : UInt8} (key : DualKey) {pos : ℕ}
    (hleave : AttributeOverruns p (fun _ _ _ => False) head pos → ∀ pos', Q (.ok (.leave
      { st with pos := pos' })))
    (hvalue : ∀ key vt pos len, pos ≤ p.length → V vt pos len →
      Q (parsePayload utf8 st key vt (pos : ℕ) len))
    (h : AttributeOverruns p V head pos) : Q (parseAttribute utf8 st head key pos) := by
  have hlt := hst.length_lt
  have hlimit := hst.limit_le_length
  rcases h with hcut | ⟨hfits, hvt, h⟩
  · rw [parseAttribute, if_neg hne, hst.limit_eq, if_pos hcut]
    exact hleave (.inl hcut) _
  rw [parseAttribute_starts hst hne head key hfits, if_neg (by omega)]
  by_cases hlong : head &&& 0x80 = 0
  · rw [if_pos hlong] at h ⊢
    rcases h with hcut | ⟨hfits', h⟩
    · rw [if_pos hcut]
      exact hleave (.inr ⟨hfits, hvt, by rw [if_pos hlong]; exact .inl hcut⟩) _
    · have hpos : add32 (pos + 2 : ℕ) (p.getD (pos + 1) 0).toNat =
          (pos + 2 + (p.getD (pos + 1) 0).toNat : ℕ) := add32_natCast (by omega)
      have hget : getInt st.buf.array (pos + 2 : ℕ) (p.getD (pos + 1) 0).toNat = _ :=
        getBits_starts hst 32 hfits'
      rw [hpos, if_neg (by omega), hget, ok_bind]
      exact hvalue _ _ _ _ hfits' h
  · rw [if_neg hlong] at h ⊢
    exact hvalue _ _ _ _ hfits h

/-- And for a record.  Where the loop is left, a comparison has failed. -/
theorem parseRecord_of_overruns (hst : st.buf.Starts p p.length)
    (hleave : Overruns p (fun _ _ _ => False) st → ∀ pos', Q (.ok (.leave
      { st with pos := pos' })))
    (hvalue : ∀ key vt pos len, pos ≤ p.length → V vt pos len →
      Q (parsePayload utf8 st key vt (pos : ℕ) len))
    (h : Overruns p V st) : Q (parseRecord utf8 st) := by
  have hlt := hst.length_lt
  have hlimit := hst.limit_le_length
  obtain ⟨pos, hpos, hpos', h⟩ := h
  replace hleave := fun hover => hleave ⟨pos, hpos, hpos', hover⟩
  rw [RecordOverruns] at h hleave
  rw [parseRecord_starts hst hpos hpos' rfl]
  generalize p.getD pos 0 = head at *
  by_cases hattr : head &&& 0x40 = 0
  · rw [if_pos hattr] at h hleave
    rw [if_pos h]
    exact hleave h _
  rw [if_neg hattr] at h hleave
  obtain ⟨hne, hcut | ⟨hfits, h⟩⟩ := h
  · rw [if_pos hcut]
    exact hleave ⟨hne, .inl hcut⟩ _
  · have hadd : add32 (pos + 1 : ℕ) (numWidth head) = (pos + 1 + numWidth head : ℕ) :=
      add32_natCast (by omega)
    have hend : add32 (pos + 1 + numWidth head : ℕ) (typeWidth head) =
        (pos + 1 + numWidth head + typeWidth head : ℕ) := add32_natCast (by omega)
    have hnum : getInt st.buf.array (pos + 1 : ℕ) (numWidth head) = _ :=
      getBits_starts hst 32 (by omega)
    have htype : getInt st.buf.array (pos + 1 + numWidth head : ℕ) (typeWidth head) = _ :=
      getBits_starts hst 32 hfits
    rw [hadd, hend, if_neg (by omega), hnum, ok_bind, htype, ok_bind, if_neg hattr]
    exact parseAttribute_of_overruns hst hne _ (fun hover => hleave ⟨hne, .inr ⟨hfits, hover⟩⟩)
      hvalue h

end Ending

/-- A record that is longer than the packet ends the loop. -/
theorem parseRecord_of_cut (hst : st.buf.Starts p p.length) (h : Cut p st) :
    ∃ st', parseRecord utf8 st = .ok (.leave st') ∧ st'.entities = st.entities := by
  apply parseRecord_of_overruns (Q := fun r => ∃ st', r = .ok (.leave st') ∧
    st'.entities = st.entities) hst (fun _ pos' => ⟨_, rfl, rfl⟩) _ h
  intro key vt pos len _ hcut
  rw [parsePayload, hst.limit_eq, if_pos hcut]
  exact ⟨_, rfl, rfl⟩

/-- One that strays for its number alone is refused: the bytes of the number are not all
there. -/
theorem parseRecord_of_number (hst : st.buf.Starts p p.length) (h : Strays p st)
    (hcut : ¬Cut p st) : ∃ e, parseRecord utf8 st = .error e := by
  apply parseRecord_of_overruns (Q := fun r => ∃ e, r = .error e) hst
    (fun hover => absurd (hover.mono fun _ _ _ => False.elim) hcut) _ (h.number hcut)
  rintro key vt pos len hpos ⟨hfits, hwidth⟩
  have hnumber : ∀ m, p.length < pos + m → st.buf.getNumber pos m = .error .indexOutOfBounds := by
    intro m hm
    rw [ByteBuffer.getNumber, ByteBuffer.getBytes, hst.limit_eq, if_neg (by omega)]
    rfl
  refine ⟨.indexOutOfBounds, ?_⟩
  rw [parsePayload, hst.limit_eq, if_neg hfits]
  cases vt with
  | f4 =>
    simp only [parseValue, hnumber 4 hwidth]
    rfl
  | f8 =>
    simp only [parseValue, hnumber 8 hwidth]
    rfl
  | i8 => exact absurd hwidth (Nat.not_lt.mpr hpos)
  | i16 => exact absurd hwidth (Nat.not_lt.mpr hpos)
  | i32 => exact absurd hwidth (Nat.not_lt.mpr hpos)
  | i64 => exact absurd hwidth (Nat.not_lt.mpr hpos)
  | s => exact absurd hwidth (Nat.not_lt.mpr hpos)
  | b => exact absurd hwidth (Nat.not_lt.mpr hpos)

/-- After a record that strays there is no other one. -/
theorem parseRecord_of_strays (hst : st.buf.Starts p p.length) (h : Strays p st) (st' : Parser) :
    parseRecord utf8 st ≠ .ok (.next st') := by
  intro hnext
  by_cases hcut : Cut p st
  · obtain ⟨st₁, hleave, -⟩ := @parseRecord_of_cut utf8 p st hst hcut
    exact nomatch hleave.symm.trans hnext
  · obtain ⟨e, he⟩ := @parseRecord_of_number utf8 p st hst h hcut
    exact nomatch he.symm.trans hnext

end Records

end Client
end PeeledOrange
