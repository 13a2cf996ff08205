import PeeledOrange.Client.Frame
import PeeledOrange.Client.Keys
import PeeledOrange.Client.Overrun
import PeeledOrange.Client.Records
import Mathlib.Logic.Relation

/-!
# What comes after a packet

A buffer may hold more than a packet.  What is made of the packet does not depend on it as
long as each record that the loop comes to is in the packet, with all that is read of it.
A record that says that it is longer ends the loop in a buffer that ends with the packet.
In a longer buffer it is read on, and does no harm only if it is idle there: if it is an
attribute that the map of its entity has already, whatever comes after the packet.

Some of a packet is read through the array of its buffer, at the indices of the buffer: a
buffer that begins elsewhere in its array is read at two places.

## Main definitions

* `SameOutcome` — both throw, or tasks that hold the same are made of both.
* `ReadsArray`, `Aligned` — what is read through the array of a buffer, and where this is right.
* `Independent` — what comes after a packet does not matter.
* `Comes` — where the record loop looks for a record of a packet.
* `Rests`, `Idle` — a turn that makes no difference, and a record whose turns do not.
* `Undisturbed` — two parsers between which what comes after the packet makes none.

## Main results

* `createFromArray_rebase` — **what is not read through the array does not depend on it.**
* `independent_packet` — **what comes after a packet does not matter if each record that strays
  is cut and idle**, and what is true if it does not matter.
-/

namespace PeeledOrange
namespace Client

open Java Lockstep

variable {utf8 : Charset}

/-! ### Buffers that begin elsewhere -/

section Rebase

variable {f : Frame} {b : ByteBuffer} {n : ℕ}

/-- Something of the packet is read through the array of its buffer: there is a command, and
a packet ID or a size. -/
def ReadsArray (f : Frame) : Prop :=
  (∃ command, Commands.values[f.cmd.toNat]? = some command) ∧
    (f.packetID.length ≠ 0 ∨ f.size.length ≠ 0)

/-- The buffer begins where its array does, or this does not matter to the packet. -/
def Aligned (f : Frame) (b : ByteBuffer) : Prop := ReadsArray f → b.arrayOffset = 0

theorem readHeader_rebase (b : ByteBuffer) : readHeader b =
    (readHeader b.rebase).map fun h => { h with buf := b.setOrder .littleEndian } := by
  have hcrc : (b.rebase.setOrder .littleEndian).getNumber 1 2 =
      (b.setOrder .littleEndian).getNumber 1 2 :=
    @ByteBuffer.getNumber_rebase (b.setOrder .littleEndian) 1 2
  rw [readHeader, readHeader, ByteBuffer.get_rebase]
  simp only [hcrc]
  cases b.get 0 with
  | error e => rfl
  | ok head => cases (b.setOrder .littleEndian).getNumber 1 2 <;> rfl

/-- Of a header with neither a packet ID nor a size nothing is read through the array. -/
theorem readTask_bare {buf : ByteBuffer} (hlimit : 4 ≤ buf.limit) (hint : buf.limit < 2 ^ 31)
    {cmd : UInt8} (hget : buf.get 3 = .ok cmd) {command : Commands}
    (hcmd : Commands.values[cmd.toNat]? = some command) (task : EavTask) (crc : BitVec 16) :
    ∃ buf', readTask task ⟨0, 0, crc, buf⟩ =
      if crc ≠ crcOf [] then .error (.exception "EAV task parser, crc does not converge")
      else .ok ({ task with command := command, packetID := 0 }, 4, 0, buf') := by
  obtain ⟨buf', hcrc⟩ : ∃ buf', crc16 buf 4 0 = .ok (crcOf [], buf') :=
    ⟨_, @crc16_range buf 4 0 hlimit hint⟩
  have hnone : ∀ offset, getInt buf.array offset (0 : ℕ) = .ok 0 := fun _ => rfl
  have hcovered :
      (if (0 : BitVec 32).toInt > 0xFFFF then 0xFFFF else (0 : BitVec 32).toInt) = 0 := by
    decide
  refine ⟨buf', ?_⟩
  rw [readTask, hget, ok_bind]
  simp only [hcmd, hnone, ok_bind, hcovered]
  show (crc16 buf 4 0 >>= _) = _
  rw [hcrc, ok_bind]
  rfl

/-- If the array is not read, it does not matter where in it the buffer begins. -/
theorem createFromArray_of_not_readsArray (hb : b.Contains f.bytes n) (h : ¬ReadsArray f) (fuel : ℕ)
    (ID : BitVec 32) :
    (createFromArray utf8 fuel ID b).1 = (createFromArray utf8 fuel ID b.rebase).1 := by
  have hstarts := hb.rebase
  have hheader := f.readHeader_eq hstarts
  have hheader' := readHeader_rebase b
  have hget : b.get 3 = .ok f.cmd := by
    rw [← ByteBuffer.get_rebase]
    exact Frame.get_cmd hstarts
  rw [hheader] at hheader'
  cases hcmd : Commands.values[f.cmd.toNat]? with
  | none =>
    rw [Frame.createFromArray_of_no_command hstarts hcmd]
    have hget' : (b.setOrder .littleEndian).get 3 = .ok f.cmd := hget
    simp only [createFromArray, hheader', Except.map, readTask, hget', ok_bind, hcmd, error_bind]
  | some command =>
    have hwidths : f.packetID.length = 0 ∧ f.size.length = 0 := by
      by_contra hne
      exact h ⟨⟨command, hcmd⟩, by omega⟩
    have hroom : 4 ≤ b.limit := by
      have hle := hb.length_le
      have hlength : f.bytes.length = f.start.length + f.rest.length := List.length_append
      rw [f.length_start, packetHeaderSize] at hlength
      rw [hb.limit_eq]
      omega
    have hint : b.limit < 2 ^ 31 := by
      have hlt := hb.length_lt
      have hle := b.limit_le
      omega
    rw [hwidths.1, hwidths.2] at hheader hheader'
    obtain ⟨c, hc⟩ := @readTask_bare (b.setOrder .littleEndian) hroom hint _ hget _ hcmd
      { (EavTask.new (some "FromArray") ID).1 with status := .obtained } f.crc1
    obtain ⟨c', hc'⟩ := @readTask_bare (b.rebase.setOrder .littleEndian) hroom hint _
      (Frame.get_cmd (hstarts.setOrder .littleEndian)) _ hcmd
      { (EavTask.new (some "FromArray") ID).1 with status := .obtained } f.crc1
    simp only [createFromArray, hheader, hheader', Except.map, hc, hc']
    by_cases hcrc : f.crc1 ≠ crcOf []
    · simp only [if_pos hcrc]
    · -- there are no records
      have hend : ¬add32 4 eavHeaderSize ≤ add32 4 0 := by decide
      simp only [if_neg hcrc]
      cases fuel with
      | zero => rfl
      | succ fuel => simp only [parseLoop, if_neg hend]; rfl

/-- **What is not read through the array does not depend on it.** -/
theorem createFromArray_rebase (hb : b.Contains f.bytes n) (h : Aligned f b) (fuel : ℕ)
    (ID : BitVec 32) :
    (createFromArray utf8 fuel ID b).1 = (createFromArray utf8 fuel ID b.rebase).1 := by
  by_cases hreads : ReadsArray f
  · rw [ByteBuffer.rebase_eq (h hreads)]
  · exact createFromArray_of_not_readsArray hb hreads fuel ID

end Rebase

/-! ### The record loop -/

/-- A turn that ends the loop, or after which the loop ends with entities that hold the same. -/
inductive Rests (p : List UInt8) (es : List EntityM) : Except Throwable Turn → Prop
  | leave {st' : Parser} (h : st'.entities = es) : Rests p es (.ok (.leave st'))
  | next {st' : Parser} (h : SameEntities st'.entities es)
      (hend : ¬add32 st'.pos eavHeaderSize ≤ p.length) : Rests p es (.ok (.next st'))

/-- Whatever comes after the packet, the turn for this record makes no difference. -/
def Idle (utf8 : Charset) (p : List UInt8) (st : Parser) : Prop :=
  ∀ n buf, Ready buf p n → Rests p st.entities (parseRecord utf8 { st with buf := buf })

/-- A turn after which the loop looks for a record of the packet again. -/
def GoesOn (p : List UInt8) (r : Except Throwable Turn) : Prop :=
  ∃ st', r = .ok (.next st') ∧ add32 st'.pos eavHeaderSize ≤ p.length

/-- Both parsers have entities that hold the same. -/
def SameRead (r r' : Parser) : Prop := SameEntities r.entities r'.entities

theorem SameRead.of_eq {r r' : Parser} (h : r.entities = r'.entities) : SameRead r r' :=
  SameEntities.of_eq h

variable {p : List UInt8} {n n' : ℕ}

/-- A turn is the same in a buffer that ends with the packet and in a longer one, or it makes
no difference in either. -/
theorem turn_cases {st st' : Parser} (h : Same p p.length n' st st')
    (hguard : add32 st.pos eavHeaderSize ≤ p.length)
    (hidle : Strays p st → Cut p st ∧ Idle utf8 p st) :
    Agree (SameTurn p p.length n') (parseRecord utf8 st) (parseRecord utf8 st') ∨
      (∃ st₁, parseRecord utf8 st = .ok (.leave st₁) ∧ st₁.entities = st.entities) ∧
        Rests p st.entities (parseRecord utf8 st') := by
  by_cases hstrays : Strays p st
  · obtain ⟨hcut, hidle⟩ := hidle hstrays
    have hrests := hidle n' st'.buf h.ready'
    rw [← h.entities_eq, ← h.pos_eq] at hrests
    refine .inr ⟨parseRecord_of_cut h.ready.starts hcut, ?_⟩
    rw [← h.entities_eq]
    exact hrests
  · exact .inl (parseRecord_agree h hguard hstrays)

/-- What has come to an end does not go on. -/
theorem parseLoop_add {size : ℤ} {fuel : ℕ} {st : Parser} {r : Except Throwable Parser}
    (h : parseLoop utf8 size fuel st = some r) (k : ℕ) :
    parseLoop utf8 size (fuel + k) st = some r := by
  induction fuel generalizing st with
  | zero => cases h
  | succ fuel ih =>
    rw [Nat.add_right_comm, parseLoop]
    rw [parseLoop] at h
    split at h
    · rw [if_pos ‹_›]
      cases hrecord : parseRecord utf8 st with
      | error e =>
        rw [hrecord] at h
        exact h
      | ok turn =>
        rw [hrecord] at h
        cases turn with
        | leave st₁ => exact h
        | next st₁ => exact ih h
    · rw [if_neg ‹_›]
      exact h

/-- The loop comes to the same in any number of turns. -/
theorem parseLoop_unique {size : ℤ} {fuel fuel' : ℕ} {st : Parser} {r r' : Except Throwable Parser}
    (h : parseLoop utf8 size fuel st = some r) (h' : parseLoop utf8 size fuel' st = some r') :
    r = r' := by
  have hmore := parseLoop_add h' fuel
  rw [Nat.add_comm, parseLoop_add h fuel'] at hmore
  exact Option.some.inj hmore

/-- The loop, from a parser on. -/
abbrev loopFrom (utf8 : Charset) (p : List UInt8) (st : Parser) (fuel : ℕ) :
    Option (Except Throwable Parser) := parseLoop utf8 p.length fuel st

variable (utf8 p n') in
/-- Both parsers are at the same place, and no record that the loop comes to from there makes a
difference for what comes after the packet. -/
def Undisturbed (st st' : Parser) : Prop :=
  Same p p.length n' st st' ∧ ∀ st₁, Relation.ReflTransGen (TurnsTo utf8 p.length) st st₁ →
    add32 st₁.pos eavHeaderSize ≤ p.length → Strays p st₁ → Cut p st₁ ∧ Idle utf8 p st₁

/-- The loop keeps pace in a buffer that ends with the packet and in a longer one. -/
theorem parseLoop_paced :
    Paced SameRead (loopFrom utf8 p) (loopFrom utf8 p) (Undisturbed utf8 p n') := by
  rintro st st' ⟨h, hin⟩
  by_cases hguard : add32 st.pos eavHeaderSize ≤ p.length
  · have hguard' : add32 st'.pos eavHeaderSize ≤ p.length := h.pos_eq ▸ hguard
    rcases turn_cases h hguard (hin st .refl hguard) with hagree | ⟨⟨st₁, hleave, heq⟩, hrests⟩
    · generalize hx : parseRecord utf8 st = x at hagree
      generalize hx' : parseRecord utf8 st' = x' at hagree
      cases hagree with
      | error e e' =>
        exact .inl ⟨_, _, .error e e', ⟨1, parseLoop_error hguard hx 0⟩, 1,
          parseLoop_error hguard' hx' 0⟩
      | ok hturn =>
        cases hturn with
        | leave heq =>
          exact .inl ⟨_, _, .ok (.of_eq heq.symm), ⟨1, parseLoop_leave hguard hx 0⟩, 1,
            parseLoop_leave hguard' hx' 0⟩
        | next hsame =>
          exact .inr ⟨_, _, ⟨hsame, fun st₁ hst₁ => hin st₁ (.head ⟨hguard, hx⟩ hst₁)⟩,
            parseLoop_next hguard hx, parseLoop_next hguard' hx'⟩
    · -- the record is cut, and the longer buffer takes a turn more at most
      have hend := @parseLoop_leave utf8 p.length _ _ hguard hleave 0
      generalize hx' : parseRecord utf8 st' = x' at hrests
      cases hrests with
      | leave heq' =>
        exact .inl ⟨_, _, .ok (.of_eq (heq.trans heq'.symm)), ⟨1, hend⟩, 1,
          parseLoop_leave hguard' hx' 0⟩
      | next hsame hover =>
        exact .inl ⟨_, _, .ok ((SameRead.of_eq heq).trans hsame.symm), ⟨1, hend⟩, 2,
          (parseLoop_next hguard' hx' 1).trans (parseLoop_end hover 0)⟩
  · exact .inl ⟨_, _, .ok (.of_eq h.entities_eq.symm), ⟨1, parseLoop_end hguard 0⟩, 1,
      parseLoop_end (by rwa [h.pos_eq]) 0⟩

section Follow

variable {st st' : Parser} (h : Undisturbed utf8 p n' st st')

include h

/-- What the loop comes to in a buffer that ends with the packet, it comes to in all. -/
theorem parseLoop_follows : Follows SameRead (loopFrom utf8 p st) (loopFrom utf8 p st') :=
  parseLoop_paced.follows (fun _ => rfl) (fun _ _ _ _ _ => parseLoop_unique) h

/-- And what it comes to in any of them, it comes to in a buffer that ends with the packet. -/
theorem follows_parseLoop : Follows (flip SameRead) (loopFrom utf8 p st') (loopFrom utf8 p st) :=
  parseLoop_paced.symm.follows (fun _ => rfl) (fun _ _ _ _ _ => parseLoop_unique) h

end Follow

/-- Where the loop comes to in a buffer that ends with the packet, it comes to in all. -/
theorem TurnsTo.same {st st₁ c : Parser} (h : Same p p.length n' st c)
    (hturn : TurnsTo utf8 p.length st st₁) :
    ∃ c₁, TurnsTo utf8 p.length c c₁ ∧ Same p p.length n' st₁ c₁ := by
  obtain ⟨hguard, hnext⟩ := hturn
  -- a record that is followed by another one does not stray
  have hagree := @parseRecord_agree utf8 p _ n' st c h hguard fun hstrays =>
    parseRecord_of_strays h.ready.starts hstrays _ hnext
  rw [hnext] at hagree
  generalize hx : parseRecord utf8 c = x at hagree
  cases hagree with
  | ok hturn =>
    cases hturn with
    | next hsame => exact ⟨_, ⟨h.pos_eq ▸ hguard, hx⟩, hsame⟩

theorem exists_turns_same {st st₁ c : Parser} (h : Same p p.length n' st c)
    (hturns : Relation.ReflTransGen (TurnsTo utf8 p.length) st st₁) :
    ∃ c₁, Relation.ReflTransGen (TurnsTo utf8 p.length) c c₁ ∧ Same p p.length n' st₁ c₁ := by
  induction hturns with
  | refl => exact ⟨c, .refl, h⟩
  | tail _ hturn ih =>
    obtain ⟨c₁, hc₁, hsame⟩ := ih
    obtain ⟨c₂, hc₂, hsame'⟩ := hturn.same hsame
    exact ⟨c₂, hc₁.tail hc₂, hsame'⟩

/-- The loop goes on from where it has come to, in the same buffer. -/
theorem exists_parseLoop_eq {size : ℤ} {st st₁ : Parser} (hlen : st.buf.array.length < 2 ^ 31)
    (hturns : Relation.ReflTransGen (TurnsTo utf8 size) st st₁) :
    st.buf.Moved st₁.buf ∧
      ∃ k, ∀ fuel, parseLoop utf8 size (fuel + k) st = parseLoop utf8 size fuel st₁ := by
  induction hturns with
  | refl => exact ⟨.refl _, 0, fun _ => rfl⟩
  | tail _ hturn ih =>
    obtain ⟨hmoved, k, hloop⟩ := ih
    obtain ⟨hguard, hnext⟩ := hturn
    refine ⟨hmoved.trans (parseRecord_moved (by rwa [hmoved.array_eq]) hnext), k + 1,
      fun fuel => ?_⟩
    rw [← parseLoop_next hguard hnext fuel, ← hloop]
    congr 1
    omega

theorem Overruns.of_same {V : ValueType → ℕ → ℤ → Prop} {st st' : Parser} (h : Overruns p V st)
    (hsame : Same p n n' st st') : Overruns p V st' := by
  obtain ⟨pos, hpos, hlt, hover⟩ := h
  exact ⟨pos, hsame.pos_eq.trans hpos, hlt, by rwa [hsame.entities_eq]⟩

/-- What a turn makes of the loop, if the loop comes to the entities that have been read. -/
theorem rests_or_goesOn {st r : Parser} (hguard : add32 st.pos eavHeaderSize ≤ p.length) {fuel : ℕ}
    (h : parseLoop utf8 p.length fuel st = some (.ok r))
    (hsame : SameEntities r.entities st.entities) :
    Rests p st.entities (parseRecord utf8 st) ∨ GoesOn p (parseRecord utf8 st) := by
  cases fuel with
  | zero => cases h
  | succ fuel =>
    cases hrecord : parseRecord utf8 st with
    | error e => cases (parseLoop_error hguard hrecord fuel).symm.trans h
    | ok turn =>
      cases turn with
      | leave st₁ => exact .inl (.leave (parseRecord_leave hrecord))
      | next st₁ =>
        by_cases hgoes : add32 st₁.pos eavHeaderSize ≤ p.length
        · exact .inr ⟨st₁, rfl, hgoes⟩
        · have hrest := (parseLoop_next hguard hrecord fuel).symm.trans h
          cases fuel with
          | zero => cases hrest
          | succ fuel =>
            obtain rfl := Except.ok.inj (Option.some.inj
              ((parseLoop_end hgoes fuel).symm.trans hrest))
            exact .inl (.next hsame hgoes)

/-- It makes the same of the loop wherever the buffer stands. -/
theorem rests_or_goesOn_congr {x x' : Except Throwable Turn} (h : Agree (SameTurn p n n) x x')
    {es : List EntityM} (hx : Rests p es x ∨ GoesOn p x) : Rests p es x' ∨ GoesOn p x' := by
  cases h with
  | error e e' =>
    rcases hx with hx | ⟨_, hx, -⟩
    · cases hx
    · cases hx
  | ok hturn =>
    cases hturn with
    | leave heq =>
      rcases hx with hx | ⟨_, hx, -⟩
      · cases hx with
        | leave hx => exact .inl (.leave (heq.trans hx))
      · cases hx
    | next hsame =>
      rcases hx with hx | ⟨_, hx, hgoes⟩
      · cases hx with
        | next hx hend =>
          exact .inl (.next (by rwa [hsame.entities_eq]) (by rwa [hsame.pos_eq]))
      · cases hx
        exact .inr ⟨_, rfl, by rwa [hsame.pos_eq]⟩

/-! ### Packets -/

/-- Something is thrown. -/
def Throws (utf8 : Charset) (ID : BitVec 32) (b : ByteBuffer) : Prop :=
  Leads (fun fuel => (createFromArray utf8 fuel ID b).1) fun r => ∃ e, r = .error e

/-- A task with this command, this packet ID and entities that hold the same is made. -/
def Returns (utf8 : Charset) (ID : BitVec 32) (b : ByteBuffer) (command : Commands)
    (packetID : BitVec 32) (es : List EntityM) : Prop :=
  Leads (fun fuel => (createFromArray utf8 fuel ID b).1) fun r => ∃ got, r = .ok got ∧
    got.command = command ∧ got.packetID = packetID ∧ SameEntities got.entities es

/-- Both throw, or tasks that hold the same are made of both; or neither comes to an end. -/
structure SameOutcome (utf8 : Charset) (b b' : ByteBuffer) : Prop where
  throws_iff : ∀ ID ID', Throws utf8 ID b ↔ Throws utf8 ID' b'
  returns_iff : ∀ ID ID' command packetID es,
    Returns utf8 ID b command packetID es ↔ Returns utf8 ID' b' command packetID es

/-- What comes after the packet does not matter. -/
def Independent (utf8 : Charset) (f : Frame) : Prop :=
  ∀ b b' n n', b.Contains f.bytes n → b'.Contains f.bytes n' → Aligned f b → Aligned f b' →
    SameOutcome utf8 b b'

/-- Two tasks with the same command and packet ID, and entities that hold the same. -/
def SameTask (got got' : EavTask) : Prop :=
  got.command = got'.command ∧ got.packetID = got'.packetID ∧
    SameEntities got.entities got'.entities

theorem Throws.of_follows {b b' : ByteBuffer} {ID ID' : BitVec 32}
    (h : Follows SameTask (fun fuel => (createFromArray utf8 fuel ID b).1)
      (fun fuel => (createFromArray utf8 fuel ID' b').1)) :
    Throws utf8 ID b → Throws utf8 ID' b' := by
  refine h.leads fun r r' hagree => ?_
  rintro ⟨e, rfl⟩
  cases hagree with
  | error _ e' => exact ⟨e', rfl⟩

theorem Returns.of_follows {b b' : ByteBuffer} {ID ID' : BitVec 32}
    (h : Follows SameTask (fun fuel => (createFromArray utf8 fuel ID b).1)
      (fun fuel => (createFromArray utf8 fuel ID' b').1)) {command : Commands}
    {packetID : BitVec 32} {es : List EntityM} :
    Returns utf8 ID b command packetID es → Returns utf8 ID' b' command packetID es := by
  refine h.leads fun r r' hagree => ?_
  rintro ⟨got, rfl, rfl, rfl, hes⟩
  cases hagree with
  | ok hsame =>
    obtain ⟨hcommand, hid, hentities⟩ := hsame
    exact ⟨_, rfl, hcommand.symm, hid.symm, hentities.symm.trans hes⟩

theorem SameOutcome.of_follows {b b' : ByteBuffer}
    (h : ∀ ID ID', Follows SameTask (fun fuel => (createFromArray utf8 fuel ID b).1)
      (fun fuel => (createFromArray utf8 fuel ID' b').1))
    (h' : ∀ ID ID', Follows SameTask (fun fuel => (createFromArray utf8 fuel ID' b').1)
      (fun fuel => (createFromArray utf8 fuel ID b).1)) : SameOutcome utf8 b b' where
  throws_iff ID ID' := ⟨.of_follows (h ID ID'), .of_follows (h' ID ID')⟩
  returns_iff ID ID' _ _ _ := ⟨.of_follows (h ID ID'), .of_follows (h' ID ID')⟩

theorem SameOutcome.symm {b b' : ByteBuffer} (h : SameOutcome utf8 b b') :
    SameOutcome utf8 b' b :=
  ⟨fun ID ID' => (h.throws_iff ID' ID).symm, fun ID ID' command packetID es =>
    (h.returns_iff ID' ID command packetID es).symm⟩

theorem SameOutcome.trans {b b' b'' : ByteBuffer} (h : SameOutcome utf8 b b')
    (h' : SameOutcome utf8 b' b'') : SameOutcome utf8 b b'' :=
  ⟨fun ID ID' => (h.throws_iff ID ID).trans (h'.throws_iff ID ID'),
    fun ID ID' command packetID es => (h.returns_iff ID ID command packetID es).trans
      (h'.returns_iff ID ID' command packetID es)⟩

/-- The packet is accepted, and the record loop comes to this place, where it looks for a
record. -/
structure Comes (utf8 : Charset) (f : Frame) (st : Parser) : Prop where
  command : ∃ command, Commands.values[f.cmd.toNat]? = some command
  accepted : f.Accepted
  turns : ∃ buf, Ready buf f.bytes f.bytes.length ∧
    Relation.ReflTransGen (TurnsTo utf8 f.bytes.length) ⟨[], f.start.length, buf⟩ st
  guard : add32 st.pos eavHeaderSize ≤ f.bytes.length

section Packets

variable {f : Frame} (hds : f.ds = f.rest.length)

include hds

theorem covered_le_length : f.covered ≤ f.rest.length := by
  rw [Frame.covered, hds]
  split <;> omega

theorem size_eq (hlen : f.bytes.length < 2 ^ 31) : add32 f.start.length f.ds = f.bytes.length := by
  rw [Frame.bytes, List.length_append] at hlen ⊢
  rw [hds, add32_of_lt (by omega) (by omega), Nat.cast_add]

variable (utf8) in
/-- What is made of a packet that is accepted, in any buffer. -/
theorem createFromArray_starts {command : Commands}
    (hcmd : Commands.values[f.cmd.toNat]? = some command) (haccepted : f.Accepted)
    {b : ByteBuffer} (hb : b.Starts f.bytes n) :
    ∃ buf, (b.setOrder .littleEndian).Moved buf ∧ Ready buf f.bytes n ∧ ∀ fuel ID,
      (createFromArray utf8 fuel ID b).1 =
        (parseLoop utf8 f.bytes.length fuel ⟨[], f.start.length, buf⟩).map fun r =>
          r.map fun st => f.task command ID st.entities := by
  have hlt := hb.length_lt
  have hle := hb.limit_le_length
  have hbs := hb.length_le
  obtain ⟨buf, hmoved, hread⟩ := Frame.createFromArray_of_accepted utf8 hb hcmd haccepted
  rw [size_eq hds (by omega)] at hread
  exact ⟨buf, hmoved, ⟨hmoved.starts (hb.setOrder _), hmoved.order_eq⟩, hread⟩

variable (utf8) in
/-- A packet that is not accepted is refused, in any buffer. -/
theorem createFromArray_refused
    (h : ¬((∃ command, Commands.values[f.cmd.toNat]? = some command) ∧ f.Accepted))
    {b : ByteBuffer} (hb : b.Starts f.bytes n) (fuel : ℕ) (ID : BitVec 32) :
    ∃ e, (createFromArray utf8 fuel ID b).1 = some (.error e) := by
  cases hcmd : Commands.values[f.cmd.toNat]? with
  | none => exact ⟨_, Frame.createFromArray_of_no_command hb hcmd fuel ID⟩
  | some command =>
    exact ⟨_, Frame.createFromArray_of_crc_ne hb hcmd (covered_le_length hds)
      (fun hcrc => h ⟨⟨command, hcmd⟩, covered_le_length hds, hcrc⟩) fuel ID⟩

/-- The outcome is that of a buffer that ends with the packet. -/
theorem sameOutcome_of_ending
    (hin : ∀ st, Comes utf8 f st → Strays f.bytes st → Cut f.bytes st ∧ Idle utf8 f.bytes st)
    {b b' : ByteBuffer} (hb : b.Starts f.bytes f.bytes.length) (hb' : b'.Starts f.bytes n') :
    SameOutcome utf8 b b' := by
  by_cases haccepted : (∃ command, Commands.values[f.cmd.toNat]? = some command) ∧ f.Accepted
  · obtain ⟨⟨command, hcmd⟩, hmatch⟩ := haccepted
    obtain ⟨buf, -, hbuf, hread⟩ := createFromArray_starts utf8 hds hcmd hmatch hb
    obtain ⟨buf', -, hbuf', hread'⟩ := createFromArray_starts utf8 hds hcmd hmatch hb'
    have hsame : Same f.bytes f.bytes.length n' ⟨[], f.start.length, buf⟩
        ⟨[], f.start.length, buf'⟩ := ⟨rfl, rfl, hbuf, hbuf'⟩
    have hundisturbed : Undisturbed utf8 f.bytes n' ⟨[], f.start.length, buf⟩
        ⟨[], f.start.length, buf'⟩ := ⟨hsame, fun st hturns hguard =>
      hin st ⟨⟨command, hcmd⟩, hmatch, ⟨buf, hbuf, hturns⟩, hguard⟩⟩
    apply SameOutcome.of_follows
    · intro ID ID'
      simp only [hread, hread']
      exact (parseLoop_follows hundisturbed).map fun st st' h => ⟨rfl, rfl, h⟩
    · intro ID ID'
      simp only [hread, hread']
      exact (follows_parseLoop hundisturbed).map fun st st' h => ⟨rfl, rfl, h.symm⟩
  · have hrefused := fun ID fuel => createFromArray_refused utf8 hds haccepted hb fuel ID
    have hrefused' := fun ID fuel => createFromArray_refused utf8 hds haccepted hb' fuel ID
    exact .of_follows (fun ID ID' => .of_error (hrefused ID) (hrefused' ID'))
      fun ID ID' => .of_error (hrefused' ID') (hrefused ID)

omit hds in
/-- The outcomes are those of the buffers over the parts of their arrays where they begin. -/
theorem sameOutcome_of_rebase {b b' : ByteBuffer} (hb : b.Contains f.bytes n)
    (hb' : b'.Contains f.bytes n') (h : Aligned f b) (h' : Aligned f b')
    (hsame : SameOutcome utf8 b.rebase b'.rebase) : SameOutcome utf8 b b' := by
  have hthrows := hsame.throws_iff
  have hreturns := hsame.returns_iff
  simp only [Throws, Returns, ← createFromArray_rebase hb h, ← createFromArray_rebase hb' h']
    at hthrows hreturns
  exact ⟨hthrows, hreturns⟩

/-- **What comes after a packet does not matter** if each record that strays is cut, and idle. -/
theorem independent_of_idle
    (hin : ∀ st, Comes utf8 f st → Strays f.bytes st → Cut f.bytes st ∧ Idle utf8 f.bytes st) :
    Independent utf8 f := by
  intro b b' n n' hb hb' haligned haligned'
  have hlt := hb.rebase.length_lt
  have hle := hb.rebase.limit_le_length
  have hbs := hb.length_le
  have hending := Frame.starts_bytes (f := f) (by omega)
  exact sameOutcome_of_rebase hb hb' haligned haligned'
    ((sameOutcome_of_ending hds hin hending hb.rebase).symm.trans
      (sameOutcome_of_ending hds hin hending hb'.rebase))

/-- Where nothing comes after the packet, a cut record ends the loop: a task with the entities
that have been read is made. -/
theorem returns_of_cut {st : Parser} (hcomes : Comes utf8 f st) (hcut : Cut f.bytes st)
    {b : ByteBuffer} (hb : b.Starts f.bytes f.bytes.length) (ID : BitVec 32) :
    ∃ command, Commands.values[f.cmd.toNat]? = some command ∧
      Returns utf8 ID b command (readInt f.packetID) st.entities := by
  obtain ⟨⟨command, hcmd⟩, haccepted, ⟨buf, hbuf, hturns⟩, hguard⟩ := hcomes
  obtain ⟨c, -, hc, hread⟩ := createFromArray_starts utf8 hds hcmd haccepted hb
  obtain ⟨c₁, hc₁, hsame⟩ := exists_turns_same
    (⟨rfl, rfl, hbuf, hc⟩ : Same f.bytes f.bytes.length f.bytes.length ⟨[], f.start.length, buf⟩
      ⟨[], f.start.length, c⟩) hturns
  obtain ⟨-, k, hloop⟩ := exists_parseLoop_eq hc.starts.length_lt hc₁
  obtain ⟨r, hleave, hr⟩ :=
    @parseRecord_of_cut utf8 f.bytes c₁ hsame.ready'.starts (Overruns.of_same hcut hsame)
  have hend := @parseLoop_leave utf8 f.bytes.length _ _ (hsame.pos_eq ▸ hguard) hleave 0
  refine ⟨command, hcmd, 1 + k, .ok (f.task command ID r.entities), ?_, _, rfl, rfl, rfl,
    .of_eq (hr.trans hsame.entities_eq)⟩
  show (createFromArray utf8 (1 + k) ID b).1 = _
  rw [hread, hloop, hend]
  rfl

/-- And one that strays for its number alone is refused. -/
theorem throws_of_number {st : Parser} (hcomes : Comes utf8 f st) (hstrays : Strays f.bytes st)
    (hcut : ¬Cut f.bytes st) {b : ByteBuffer} (hb : b.Starts f.bytes f.bytes.length)
    (ID : BitVec 32) : Throws utf8 ID b := by
  obtain ⟨⟨command, hcmd⟩, haccepted, ⟨buf, hbuf, hturns⟩, hguard⟩ := hcomes
  obtain ⟨c, -, hc, hread⟩ := createFromArray_starts utf8 hds hcmd haccepted hb
  obtain ⟨c₁, hc₁, hsame⟩ := exists_turns_same
    (⟨rfl, rfl, hbuf, hc⟩ : Same f.bytes f.bytes.length f.bytes.length ⟨[], f.start.length, buf⟩
      ⟨[], f.start.length, c⟩) hturns
  obtain ⟨-, k, hloop⟩ := exists_parseLoop_eq hc.starts.length_lt hc₁
  have hcut₁ : ¬Cut f.bytes c₁ := fun hcut₁ => hcut (Overruns.of_same hcut₁ hsame.symm)
  obtain ⟨e, he⟩ := @parseRecord_of_number utf8 f.bytes c₁ hsame.ready'.starts
    (Overruns.of_same hstrays hsame) hcut₁
  have hend := @parseLoop_error utf8 f.bytes.length _ _ (hsame.pos_eq ▸ hguard) he 0
  refine ⟨1 + k, .error e, ?_, e, rfl⟩
  show (createFromArray utf8 (1 + k) ID b).1 = _
  rw [hread, hloop, hend]
  rfl

/-- If a task with the entities that have been read is made of a buffer, then the turn for the
record makes no difference there, or the loop goes on after it. -/
theorem rests_or_goesOn_of_returns {st : Parser} (hcomes : Comes utf8 f st) {buf : ByteBuffer}
    (hbuf : Ready buf f.bytes n) {ID : BitVec 32} {command : Commands} {packetID : BitVec 32}
    (h : Returns utf8 ID buf command packetID st.entities) :
    Rests f.bytes st.entities (parseRecord utf8 { st with buf := buf }) ∨
      GoesOn f.bytes (parseRecord utf8 { st with buf := buf }) := by
  obtain ⟨⟨command', hcmd⟩, haccepted, ⟨buf₀, hbuf₀, hturns⟩, hguard⟩ := hcomes
  obtain ⟨c, hmoved, hc, hread⟩ := createFromArray_starts utf8 hds hcmd haccepted hbuf.starts
  obtain ⟨c₁, hc₁, hsame⟩ := exists_turns_same
    (⟨rfl, rfl, hbuf₀, hc⟩ : Same f.bytes f.bytes.length n ⟨[], f.start.length, buf₀⟩
      ⟨[], f.start.length, c⟩) hturns
  obtain ⟨hmoved₁, k, hloop⟩ := exists_parseLoop_eq hc.starts.length_lt hc₁
  -- the loop comes to these entities from here as well
  obtain ⟨fuel, _, hmade, got, rfl, -, -, hgot⟩ := h
  replace hmade := (hread fuel ID).symm.trans hmade
  obtain ⟨x, hx, hmap⟩ := Option.map_eq_some_iff.mp hmade
  cases x with
  | error e => cases hmap
  | ok r =>
    cases hmap
    have hrest := (hloop fuel).symm.trans (parseLoop_add hx k)
    have hturn := rests_or_goesOn (hsame.pos_eq ▸ hguard) hrest
      (hgot.trans (.of_eq hsame.entities_eq.symm))
    rw [hsame.entities_eq] at hturn
    -- the buffer stands elsewhere there
    refine rests_or_goesOn_congr (parseRecord_congr ⟨?_, ?_, hsame.ready', hbuf⟩ ?_) hturn
    · exact hsame.entities_eq.symm
    · exact hsame.pos_eq.symm
    · exact (hmoved.trans hmoved₁).symm.trans ⟨rfl, rfl, rfl, hbuf.order⟩

end Packets

/-! ### Examples -/

/-- What is made of a buffer does not change with more turns. -/
theorem createFromArray_add {fuel : ℕ} {ID : BitVec 32} {b : ByteBuffer}
    {r : Except Throwable EavTask}
    (h : (createFromArray utf8 fuel ID b).1 = some r) (k : ℕ) :
    (createFromArray utf8 (fuel + k) ID b).1 = some r := by
  rw [createFromArray] at h ⊢
  cases hheader : readHeader b with
  | error e =>
    rw [hheader] at h
    exact h
  | ok header =>
    rw [hheader] at h
    simp only at h ⊢
    cases htask : readTask
        { (EavTask.new (some "FromArray") ID).1 with status := .obtained } header with
    | error e =>
      rw [htask] at h
      exact h
    | ok x =>
      rw [htask] at h
      simp only [Option.map_eq_some_iff] at h ⊢
      obtain ⟨r', hloop, hr⟩ := h
      exact ⟨r', parseLoop_add hloop k, hr⟩

/-- A packet of one entity with an attribute that is put twice.  The second time it has two
bytes, of which the second one is not in the packet; but the first one alone is its value. -/
def repeatedFrame : Frame where
  head := 4
  crc := [0xB7, 0xF0]
  cmd := 0
  packetID := []
  size := [9]
  rest := [0, 0xC0, 0, 1, 5, 0xC0, 0, 2, 5]
  length_crc := rfl
  length_packetID := by decide
  length_size := by decide

/-- The entities after the first attribute. -/
def repeatedRead : List EntityM :=
  putLast [EntityM.new 0 0] ⟨0, 0⟩ (setValue .utf8 (.byte 5))

/-- The buffer that the parser has of it. -/
def repeatedBuffer : ByteBuffer := (ByteBuffer.wrap repeatedFrame.bytes).setOrder .littleEndian

/-- The loop comes to the entity, to the attribute and to what is cut. -/
theorem comes_repeated {st : Parser} (h : Comes .utf8 repeatedFrame st) :
    st.entities = [] ∧ st.pos = (5 : ℕ) ∨ st.entities = [EntityM.new 0 0] ∧ st.pos = (6 : ℕ) ∨
      st.entities = repeatedRead ∧ st.pos = (10 : ℕ) := by
  obtain ⟨buf, hbuf, hturns⟩ := h.turns
  have hready : Ready repeatedBuffer repeatedFrame.bytes repeatedFrame.bytes.length :=
    ⟨(Frame.starts_bytes (by decide)).setOrder _, rfl⟩
  obtain ⟨c, hc, hsame⟩ := exists_turns_same
    (⟨rfl, rfl, hbuf, hready⟩ : Same repeatedFrame.bytes repeatedFrame.bytes.length
      repeatedFrame.bytes.length ⟨[], repeatedFrame.start.length, buf⟩
      ⟨[], repeatedFrame.start.length, repeatedBuffer⟩) hturns
  rw [← hsame.entities_eq, ← hsame.pos_eq]
  have hentity : parseRecord .utf8 ⟨[], repeatedFrame.start.length, repeatedBuffer⟩ =
      .ok (.next ⟨[EntityM.new 0 0], 6, repeatedBuffer⟩) := by decide
  have hattr : parseRecord .utf8 ⟨[EntityM.new 0 0], 6, repeatedBuffer⟩ =
      .ok (.next ⟨repeatedRead, 10, repeatedBuffer⟩) := by decide
  have hcut : parseRecord .utf8 ⟨repeatedRead, 10, repeatedBuffer⟩ =
      .ok (.leave ⟨repeatedRead, 13, repeatedBuffer⟩) := by decide
  rcases hc.cases_head with rfl | ⟨c₁, ⟨-, hturn⟩, hc⟩
  · exact .inl ⟨rfl, rfl⟩
  cases hentity.symm.trans hturn
  rcases hc.cases_head with rfl | ⟨c₂, ⟨-, hturn⟩, hc⟩
  · exact .inr (.inl ⟨rfl, rfl⟩)
  cases hattr.symm.trans hturn
  rcases hc.cases_head with rfl | ⟨c₃, ⟨-, hturn⟩, -⟩
  · exact .inr (.inr ⟨rfl, rfl⟩)
  · exact nomatch hcut.symm.trans hturn

/-- A number of two bytes, as a `byte`, is the first one. -/
theorem setWidth_readInt (b c : UInt8) : (readInt [b, c]).setWidth 8 = b.toBitVec := by
  have hlength : [b, c].length ≤ 4 := Nat.le_of_ble_eq_true rfl
  have hbytes : Bytes.toNat [b, c] = b.toNat + 256 * c.toNat := by
    simp [Bytes.toNat, Nat.ofDigits_cons]
  have hb := b.toNat_lt
  have hc := c.toNat_lt
  rw [readInt_eq hlength, hbytes, ← BitVec.toNat_inj, BitVec.toNat_setWidth, BitVec.toNat_ofNat,
    UInt8.toNat_toBitVec]
  omega

/-- Whatever the second byte is, the value is the first one. -/
theorem idle_repeated {buf : ByteBuffer} (hbuf : Ready buf repeatedFrame.bytes n) :
    Rests repeatedFrame.bytes repeatedRead (parseRecord .utf8 ⟨repeatedRead, (10 : ℕ), buf⟩) := by
  have hst := hbuf.starts
  have hle := hst.length_le
  have hlength : repeatedFrame.bytes.length = 14 := by decide
  have hne : repeatedRead ≠ [] := by decide
  have hnone : ∀ offset, getInt buf.array offset (0 : ℕ) = .ok 0 := fun _ => rfl
  have hpos : add32 (add32 (10 + 1 : ℕ) (0 : ℕ)) (0 : ℕ) = (11 : ℕ) := by decide
  have hend : add32 (13 : ℕ) (2 : ℕ) = 15 := by decide
  -- its number and its type have no bytes, and its length is 2
  have hrecord : parseRecord .utf8 ⟨repeatedRead, (10 : ℕ), buf⟩ =
      parsePayload .utf8 ⟨repeatedRead, (10 : ℕ), buf⟩ ⟨0, 0⟩ .i8 (13 : ℕ) (2 : ℕ) := by
    rw [@parseRecord_starts .utf8 _ n ⟨repeatedRead, (10 : ℕ), buf⟩ hst 10 rfl (by decide) 0xC0
      (by decide), show numWidth 0xC0 = 0 from rfl, show typeWidth 0xC0 = 0 from rfl, hpos,
      if_neg (by omega), hnone, ok_bind, hnone, ok_bind, if_neg (by decide),
      @parseAttribute_starts .utf8 _ n ⟨repeatedRead, (10 : ℕ), buf⟩ hst hne 0xC0 ⟨0, 0⟩ 11
        (by decide), if_neg (by decide), if_neg (by decide)]
    rfl
  rw [hrecord, parsePayload, hst.limit_eq, hend]
  by_cases hroom : (15 : ℤ) > n
  · rw [if_pos hroom]
    exact .leave rfl
  · -- there is a second byte
    have hlimit := hst.limit_le_length
    obtain ⟨rest, harray⟩ := hst.array_eq
    cases rest with
    | nil =>
      rw [harray, List.append_nil] at hlimit
      omega
    | cons c rest =>
      have hmore : buf.Starts (repeatedFrame.bytes ++ [c]) n := by
        refine ⟨⟨rest, by rw [harray, List.append_assoc]; rfl⟩, hst.arrayOffset_eq, hst.limit_eq,
          ?_, hst.length_lt⟩
        rw [List.length_append, hlength, List.length_singleton]
        omega
      have hnumber : getInt buf.array (13 : ℕ) (2 : ℕ) = .ok (readInt [5, c]) :=
        @getBits_starts _ _ _ hmore 32 13 2 (by
          rw [List.length_append, hlength, List.length_singleton])
      have hsame : SameEntities (putLast repeatedRead ⟨0, 0⟩ (setValue .utf8 (.byte 5)))
          repeatedRead := rfl
      rw [if_neg hroom]
      simp only [parseValue, hnumber, ok_bind, setWidth_readInt]
      exact .next hsame (show ¬add32 15 eavHeaderSize ≤ repeatedFrame.bytes.length by decide)

/-- A packet that ends in an entity, before its number. -/
def cutFrame : Frame where
  head := 4
  crc := [0xD1, 0xF1]
  cmd := 0
  packetID := []
  size := [1]
  rest := [1]
  length_crc := rfl
  length_packetID := by decide
  length_size := by decide

end Client
end PeeledOrange
