import PeeledOrange.Client.Corruption
import PeeledOrange.Client.Keys

/-!
# Headers in which a bit has been altered

The checksum of a packet covers the bytes after the header only.  What the fields of the
header say is taken as it comes, except that the checksum has to be that of as many bytes
as the size says.  So a bit that has been altered in the checksum is always noticed, one
in the command if it is then none, one in the packet ID never, and one in the size or in
the widths if the checksum of the bytes that are then covered is another one.  A smaller
size whose checksum is the same does no harm if the attributes that it cuts off leave the
map of their entity as it is without them.

## Main definitions

* `flipAt` — a bit of some bytes is altered.
* `Detected` — a packet is refused, or what is made of it is the same.
* `Enough` — the records before a place are enough for what is made of all of them.
* `Matches` — the fields fit, and the checksum is that of the bytes that it covers.
* `Harmless` — the bits that may be altered.

## Main results

* `detected_flipAt` — **which altered bits of the header are noticed.**
-/

namespace PeeledOrange
namespace Client

open Java

variable {utf8 : Charset}

/-! ### Altered bits -/

/-- Bit `k` of a byte is altered. -/
def flipBit (k : ℕ) (b : UInt8) : UInt8 := b ^^^ .ofNat (2 ^ k)

/-- Bit `k` of byte `i` is altered. -/
def flipAt (p : List UInt8) (i k : ℕ) : List UInt8 := p.modify i (flipBit k)

theorem flipBit_ne {k : ℕ} (hk : k < 8) (b : UInt8) : flipBit k b ≠ b := by
  intro h
  have hzero : UInt8.ofNat (2 ^ k) = 0 := by
    rw [← UInt8.zero_xor (a := UInt8.ofNat (2 ^ k)), ← UInt8.xor_self (a := b), UInt8.xor_assoc]
    exact congrArg (b ^^^ ·) h
  have hall : ∀ k < 8, UInt8.ofNat (2 ^ k) ≠ 0 := by decide
  exact hall k hk hzero

@[simp] theorem length_flipAt (p : List UInt8) (i k : ℕ) : (flipAt p i k).length = p.length :=
  List.length_modify ..

theorem flipAt_append_right (l l' : List UInt8) (i k : ℕ) :
    flipAt (l ++ l') (l.length + i) k = l ++ flipAt l' i k := by
  induction l with
  | nil => rw [List.nil_append, List.nil_append, List.length_nil, Nat.zero_add]
  | cons b l ih =>
    rw [List.cons_append, List.cons_append, ← ih, List.length_cons, Nat.add_right_comm]
    exact List.modify_succ_cons ..

theorem flipAt_append_left {l : List UInt8} {i : ℕ} (hi : i < l.length) (l' : List UInt8) (k : ℕ) :
    flipAt (l ++ l') i k = flipAt l i k ++ l' := by
  induction l generalizing i with
  | nil => exact absurd hi (Nat.not_lt_zero i)
  | cons b l ih =>
    cases i with
    | zero => rfl
    | succ i =>
      have hrest := ih (Nat.lt_of_succ_lt_succ hi)
      simp only [flipAt, List.cons_append, List.modify_succ_cons] at hrest ⊢
      rw [hrest]

theorem flipAt_ne {p : List UInt8} {i k : ℕ} (hi : i < p.length) (hk : k < 8) :
    flipAt p i k ≠ p := by
  intro h
  have hbyte := congrArg (fun l => l[i]?) h
  rw [flipAt] at hbyte
  simp only [List.getElem?_modify_eq, List.getElem?_eq_getElem hi] at hbyte
  exact flipBit_ne hk _ (Option.some.inj hbyte)

/-! ### What is noticed -/

/-- The bytes are refused, or what is made of them has the command and the packet ID of the
packet, and entities that hold the same as those that are made of it. -/
def Detected (utf8 : Charset) (task : EavTask) (es : List EntityL) (data : List UInt8) : Prop :=
  ∀ ID, ∃ least, ∀ fuel ≥ least,
    (∃ e, (createFromArray utf8 fuel ID (.wrap data)).1 = some (.error e)) ∨
      ∃ got, (createFromArray utf8 fuel ID (.wrap data)).1 = some (.ok got) ∧
        got.command = task.command ∧ got.packetID = task.packetID ∧
          SameEntities got.entities (es.map (EntityL.received utf8))

/-- The fields fit the bytes, and the checksum is that of the bytes that it covers. -/
def Matches (data : List UInt8) : Prop := ∃ f : Frame, f.bytes = data ∧ f.Accepted

variable {task : EavTask} {es : List EntityL} {data : List UInt8}

theorem detected_of_error
    (h : ∀ fuel ID, ∃ e, (createFromArray utf8 fuel ID (.wrap data)).1 = some (.error e)) :
    Detected utf8 task es data :=
  fun ID => ⟨0, fun fuel _ => .inl (h fuel ID)⟩

theorem detected_of_not_matches (hlen : data.length < 2 ^ 31) (h : ¬Matches data) :
    Detected utf8 task es data := by
  apply detected_of_error
  intro fuel ID
  by_cases hroom : HasRoom data
  · obtain ⟨f, rfl⟩ := exists_frame hroom
    exact Frame.createFromArray_of_not_accepted hlen (fun haccepted => h ⟨f, rfl, haccepted⟩)
      fuel ID
  · exact createFromArray_short hroom fuel ID

/-- What is made of the bytes decides. -/
theorem detected_iff_of_eq {got : BitVec 32 → EavTask} {least : ℕ}
    (h : ∀ fuel ≥ least, ∀ ID,
      (createFromArray utf8 fuel ID (.wrap data)).1 = some (.ok (got ID))) :
    Detected utf8 task es data ↔ ∀ ID, (got ID).command = task.command ∧
      (got ID).packetID = task.packetID ∧
        SameEntities (got ID).entities (es.map (EntityL.received utf8)) := by
  constructor
  · intro hdetected ID
    obtain ⟨least', hleast'⟩ := hdetected ID
    rcases hleast' (least + least') (by omega) with ⟨e, he⟩ | ⟨got', hgot', hsame⟩
    · rw [h _ (by omega)] at he
      cases he
    · rw [h _ (by omega)] at hgot'
      cases hgot'
      exact hsame
  · exact fun hsame ID => ⟨least, fun fuel hfuel => .inr ⟨_, h fuel hfuel ID, hsame ID⟩⟩

/-! ### The bytes of the header -/

theorem flipAt_head (k : ℕ) : flipAt (packet task es) 0 k =
    flipBit k (packetHead task es) :: (packet task es).tail := rfl

theorem flipAt_checksum {i : ℕ} (hi : i < 2) (k : ℕ) :
    flipAt (packet task es) (1 + i) k =
      packetHead task es :: flipAt (checksum es) i k ++ (packet task es).drop 3 := by
  have hsplit : packet task es =
      [packetHead task es] ++ (checksum es ++ (packet task es).drop 3) := rfl
  conv_lhs => rw [hsplit]
  rw [← List.length_singleton (a := packetHead task es), flipAt_append_right,
    flipAt_append_left (by rw [length_checksum]; exact hi)]
  rfl

variable (hid : bytes task.packetID ≤ 3)

theorem flipAt_cmd (k : ℕ) : flipAt (packet task es) 3 k =
    ((packetFrame task es hid).withCmd (flipBit k (.ofNat task.command.ordinal))).bytes := by
  have hlength : (packetHead task es :: checksum es).length + 0 = 3 := by
    rw [List.length_cons, length_checksum]
  rw [packet, packetStart, List.append_assoc, ← hlength, flipAt_append_right]
  show _ = (packetHead task es :: checksum es ++ _) ++ body es
  rw [List.append_assoc]
  rfl

theorem flipAt_packetID {i : ℕ} (hi : i < bytes task.packetID) (k : ℕ) :
    flipAt (packet task es) (4 + i) k =
      ((packetFrame task es hid).withPacketID (flipAt (number task.packetID) i k)
        (length_flipAt ..)).bytes := by
  have hlength :
      (packetHead task es :: checksum es ++ [UInt8.ofNat task.command.ordinal]).length = 4 := by
    rw [List.length_append, List.length_cons, length_checksum]
    rfl
  have hsplit : packet task es =
      (packetHead task es :: checksum es ++ [UInt8.ofNat task.command.ordinal]) ++
        (number task.packetID ++ (number (BitVec.ofNat 32 (body es).length) ++ body es)) := by
    simp [packet, packetStart]
  rw [hsplit, ← hlength, flipAt_append_right, flipAt_append_left (by rw [length_number]; exact hi)]
  simp [Frame.bytes, Frame.start, Frame.withPacketID, packetFrame]

theorem flipAt_size {i : ℕ} (hi : i < bytes (BitVec.ofNat 32 (body es).length)) (k : ℕ) :
    flipAt (packet task es) (4 + bytes task.packetID + i) k =
      ((packetFrame task es hid).withSize (flipAt (packetFrame task es hid).size i k)
        (length_flipAt ..)).bytes := by
  have hlength : (packetHead task es :: checksum es ++ UInt8.ofNat task.command.ordinal ::
      number task.packetID).length = 4 + bytes task.packetID := by
    rw [List.length_append, List.length_cons, List.length_cons, length_checksum, length_number]
    omega
  have hsplit : packet task es =
      (packetHead task es :: checksum es ++ .ofNat task.command.ordinal :: number task.packetID) ++
        (number (BitVec.ofNat 32 (body es).length) ++ body es) := by
    simp [packet, packetStart]
  rw [hsplit, ← hlength, flipAt_append_right, flipAt_append_left (by rw [length_number]; exact hi)]
  simp [Frame.bytes, Frame.start, Frame.withSize, packetFrame]

/-! ### Records that are read -/

/-- All these records start before this place. -/
def StartBefore (rs : List Record) (n : ℕ) : Prop :=
  ∀ l r l', rs = l ++ r :: l' → (l.flatMap Record.encode).length < n

/-- The records that start before this place are enough: what is left out of them are
attributes of the last entity, whose map is the same without them. -/
def Enough (utf8 : Charset) (es : List EntityL) (n : ℕ) : Prop :=
  ∃ (es₀ : List EntityL) (e : EntityL) (as as' : List Attribute),
    es = es₀ ++ [{ e with attributes := as ++ as' }] ∧
    StartBefore (records (es₀ ++ [{ e with attributes := as }])) n ∧
    n ≤ (body (es₀ ++ [{ e with attributes := as }])).length ∧
    (EntityL.received utf8 { e with attributes := as }).content =
      (EntityL.received utf8 { e with attributes := as ++ as' }).content

/-- The records that start before a place are followed by ones that do not. -/
theorem exists_starting_before (rs : List Record) (n : ℕ) :
    ∃ l l', rs = l ++ l' ∧ StartBefore l n ∧ (l' = [] ∨ n ≤ (l.flatMap Record.encode).length) := by
  induction rs generalizing n with
  | nil => exact ⟨[], [], rfl, fun l₁ r l₂ h => absurd h (by simp), .inl rfl⟩
  | cons r rs ih =>
    by_cases hzero : n = 0
    · exact ⟨[], r :: rs, rfl, fun l₁ r l₂ h => absurd h (by simp), .inr (by omega)⟩
    · obtain ⟨l, l', hl, hstarts, hend⟩ := ih (n - r.encode.length)
      refine ⟨r :: l, l', by rw [hl, List.cons_append], fun l₁ x l₂ h => ?_, ?_⟩
      · cases l₁ with
        | nil => exact Nat.pos_of_ne_zero hzero
        | cons y l₁ =>
          obtain ⟨rfl, hrest⟩ := List.cons.inj h
          have hlt := hstarts l₁ x l₂ hrest
          rw [List.flatMap_cons, List.length_append]
          omega
      · refine hend.imp id fun hle => ?_
        rw [List.flatMap_cons, List.length_append]
        omega

/-- Records that start before a place where others end are no more than those. -/
theorem eq_nil_of_startBefore {l x : List Record} {n : ℕ} (h : StartBefore (l ++ x) n)
    (hend : n ≤ (l.flatMap Record.encode).length) : x = [] := by
  cases x with
  | nil => rfl
  | cons r x => exact absurd (h l r x rfl) (Nat.not_lt.mpr hend)

/-- There is one way only to take the records that start before a place. -/
theorem startBefore_unique {l l' m m' : List Record} {n : ℕ} (heq : l ++ l' = m ++ m')
    (hl : StartBefore l n) (hlend : n ≤ (l.flatMap Record.encode).length) (hm : StartBefore m n)
    (hmend : n ≤ (m.flatMap Record.encode).length) : l = m := by
  rcases List.append_eq_append_iff.mp heq with ⟨x, rfl, -⟩ | ⟨x, rfl, -⟩
  · rw [eq_nil_of_startBefore hm hlend, List.append_nil]
  · rw [eq_nil_of_startBefore hl hmend, List.append_nil]

/-- The first records of entities end in one of them, after some of its attributes. -/
theorem exists_begun {l l' : List Record} (hl : records es = l ++ l') (hne : l ≠ []) :
    ∃ (es₀ : List EntityL) (e : EntityL) (as as' : List Attribute) (es₁ : List EntityL),
      es = es₀ ++ { e with attributes := as ++ as' } :: es₁ ∧
        l = records (es₀ ++ [{ e with attributes := as }]) := by
  induction es generalizing l with
  | nil => exact absurd (List.append_eq_nil_iff.mp hl.symm).1 hne
  | cons e es ih =>
    rw [records, List.flatMap_cons, ← records] at hl
    rcases List.append_eq_append_iff.mp hl with ⟨x, rfl, hx⟩ | ⟨x, hx, -⟩
    · -- the whole first entity, and what is taken of the others
      by_cases hnil : x = []
      · exact ⟨[], e, e.attributes, [], es, by simp, by simp [records, hnil]⟩
      · obtain ⟨es₀, e₁, as, as', es₁, rfl, rfl⟩ := ih hx hnil
        exact ⟨e :: es₀, e₁, as, as', es₁, rfl, by simp [records]⟩
    · obtain ⟨r, l, rfl⟩ := List.exists_cons_of_ne_nil hne
      obtain ⟨rfl, hattrs⟩ := List.cons.inj hx
      obtain ⟨as, as', has, rfl, rfl⟩ := List.map_eq_append_iff.mp hattrs
      exact ⟨[], e, as, as', es, by simp [← has], by simp [records, EntityL.records]⟩

/-- **What is made of the records that start before a place is what is made of all** if they
are enough. -/
theorem sameEntities_iff_enough (hne : es ≠ []) {l l' : List Record} (hl : records es = l ++ l')
    {n : ℕ} (hstarts : StartBefore l n) (hend : n ≤ (l.flatMap Record.encode).length) :
    SameEntities (l.foldl (Record.add utf8) []) (es.map (EntityL.received utf8)) ↔
      Enough utf8 es n := by
  constructor
  · intro hsame
    have hlength := hsame.length_eq
    by_cases hnil : l = []
    · -- no entity at all
      rw [hnil, List.length_map] at hlength
      exact absurd (List.length_eq_zero_iff.mp hlength.symm) hne
    obtain ⟨es₀, e, as, as', es₁, rfl, rfl⟩ := exists_begun hl hnil
    rw [foldl_add_records, List.nil_append] at hsame hlength
    obtain rfl : es₁ = [] := by
      simp only [List.length_map, List.length_append, List.length_cons, List.length_nil] at hlength
      exact List.length_eq_zero_iff.mp (by omega)
    rw [List.map_append, List.map_append] at hsame
    exact ⟨es₀, e, as, as', rfl, hstarts, by rwa [← flatMap_encode_records],
      (sameEntities_append_iff _ _ _).mp hsame⟩
  · rintro ⟨es₀, e, as, as', rfl, hstarts', hend', hcontent⟩
    rw [← flatMap_encode_records] at hend'
    have hsplit : records (es₀ ++ [{ e with attributes := as ++ as' }]) =
        records (es₀ ++ [{ e with attributes := as }]) ++ as'.map .attr := by
      simp [records, EntityL.records]
    rw [startBefore_unique (hl.symm.trans hsplit) hstarts hend hstarts' hend', foldl_add_records,
      List.nil_append, List.map_append, List.map_append]
    exact (sameEntities_append_iff _ _ _).mpr hcontent

/-- What is made of a packet with other fields in its header, as long as the checksum is
that of the bytes that it covers. -/
theorem createFromArray_of_rest {f : Frame}
    (hes : ∀ e ∈ es, ∀ a ∈ e.attributes, Readable utf8 a.value)
    (hlen : f.bytes.length < 2 ^ 31 - 1) {command : Commands}
    (hcmd : Commands.values[f.cmd.toNat]? = some command) (haccepted : f.Accepted)
    (hrest : f.rest = body es) {l l' : List Record} (hl : records es = l ++ l')
    (hstarts : ∀ l₁ r l₂, l = l₁ ++ r :: l₂ → ((l₁.flatMap Record.encode).length : ℤ) < f.ds)
    (hend : f.ds ≤ (l.flatMap Record.encode).length) {fuel : ℕ} (hfuel : l.length + 1 ≤ fuel)
    (ID : BitVec 32) :
    (createFromArray utf8 fuel ID (.wrap f.bytes)).1 =
      some (.ok (f.task command ID (l.foldl (Record.add utf8) []))) := by
  have hpost : f.rest = l.flatMap Record.encode ++ l'.flatMap Record.encode := by
    rw [hrest, ← flatMap_encode_records, hl, List.flatMap_append]
  exact Frame.createFromArray_until hlen hcmd haccepted
    (fun r hr => readable_records hes r (by rw [hl]; exact List.mem_append_left _ hr))
    (head?_of_records_eq hl) hpost hstarts hend hfuel ID

/-- And the size is that of the records. -/
theorem createFromArray_of_ds_eq {f : Frame}
    (hes : ∀ e ∈ es, ∀ a ∈ e.attributes, Readable utf8 a.value)
    (hlen : f.bytes.length < 2 ^ 31 - 1) {command : Commands}
    (hcmd : Commands.values[f.cmd.toNat]? = some command) (haccepted : f.Accepted)
    (hrest : f.rest = body es) (hds : f.ds = (body es).length) :
    ∀ fuel ≥ turns es + 1, ∀ ID, (createFromArray utf8 fuel ID (.wrap f.bytes)).1 =
      some (.ok (f.task command ID (es.map (EntityL.received utf8)))) := by
  intro fuel hfuel ID
  rw [← length_records] at hfuel
  have hread := createFromArray_of_rest hes hlen hcmd haccepted hrest (List.append_nil _).symm
    (fun l₁ r l₂ hl => by
      rw [hds]
      exact Nat.cast_lt.mpr (length_flatMap_lt hl))
    (by rw [hds, flatMap_encode_records]) hfuel ID
  rwa [foldl_add_records, List.nil_append] at hread

/-! ### The fields -/

section Fields

variable (hes : ∀ e ∈ es, ∀ a ∈ e.attributes, Readable utf8 a.value)
  (hsize : (body es).length ≤ 65535)

include hid hsize in
/-- A packet that the checksum covers is short. -/
theorem length_packet_lt : (packet task es).length < 2 ^ 31 - 1 := by
  have hstart := (packetFrame task es hid).length_start_le
  have hbytes : (packet task es).length =
      (packetFrame task es hid).start.length + (body es).length := by
    rw [packet, List.length_append]
    rfl
  omega

include hid hsize in
theorem detected_flipAt_checksum {i : ℕ} (hi : i < 2) {k : ℕ} (hk : k < 8) :
    Detected utf8 task es (flipAt (packet task es) (1 + i) k) := by
  have hlen := length_packet_lt hid hsize
  rw [flipAt_checksum hi]
  exact detected_of_error fun fuel ID => ⟨_, createFromArray_of_checksum_ne hid (by omega)
    (by rw [length_flipAt, length_checksum])
    (flipAt_ne (by rw [length_checksum]; exact hi) hk) fuel ID⟩

theorem ordinal_of_getElem? {i : ℕ} {command : Commands}
    (h : Commands.values[i]? = some command) : i = command.ordinal := by
  have hlt : i < 11 := (List.getElem?_eq_some_iff.mp h).choose
  interval_cases i <;> cases h <;> rfl

include hid hes hsize in
/-- A command byte that has been altered is noticed if it is that of no command. -/
theorem detected_flipAt_cmd_iff {k : ℕ} (hk : k < 8) :
    Detected utf8 task es (flipAt (packet task es) 3 k) ↔
      Commands.values[(flipBit k (.ofNat task.command.ordinal)).toNat]? = none := by
  have hlen := length_packet_lt hid hsize
  have haccepted := accepted_packetFrame hid (show (packet task es).length < 2 ^ 31 by omega)
  have hds := ds_packetFrame hid (show (packet task es).length < 2 ^ 31 by omega)
  have hbytes := congrArg List.length (@flipAt_cmd task es hid k)
  rw [length_flipAt] at hbytes
  rw [flipAt_cmd hid]
  cases hcmd : Commands.values[(flipBit k (.ofNat task.command.ordinal)).toNat]? with
  | none =>
    exact iff_of_true (detected_of_error fun fuel ID =>
      ⟨_, Frame.createFromArray_of_no_command (Frame.starts_bytes (by omega)) hcmd fuel ID⟩) rfl
  | some command =>
    refine iff_of_false (fun hdetected => ?_) nofun
    have hread := createFromArray_of_ds_eq
      (f := (packetFrame task es hid).withCmd (flipBit k (.ofNat task.command.ordinal))) hes
      (by omega) hcmd haccepted rfl hds
    obtain ⟨hsame, -, -⟩ := (detected_iff_of_eq hread).mp hdetected 1
    -- the index says which command it is
    have hordinal : command.ordinal = task.command.ordinal := congrArg Commands.ordinal hsame
    have hnat : (flipBit k (.ofNat task.command.ordinal)).toNat =
        (UInt8.ofNat task.command.ordinal).toNat := by
      calc _ = command.ordinal := ordinal_of_getElem? hcmd
        _ = task.command.ordinal := hordinal
        _ = _ := (ordinal_of_getElem? (getElem_values_ordinal task.command)).symm
    exact flipBit_ne hk _ (UInt8.toNat_inj.mp hnat)

include hid hes hsize in
/-- A packet ID that has been altered is not noticed. -/
theorem not_detected_flipAt_packetID {i : ℕ} (hi : i < bytes task.packetID) {k : ℕ} (hk : k < 8) :
    ¬Detected utf8 task es (flipAt (packet task es) (4 + i) k) := by
  have hlen := length_packet_lt hid hsize
  have haccepted := accepted_packetFrame hid (show (packet task es).length < 2 ^ 31 by omega)
  have hds := ds_packetFrame hid (show (packet task es).length < 2 ^ 31 by omega)
  have hbytes := congrArg List.length (@flipAt_packetID task es hid i hi k)
  rw [length_flipAt] at hbytes
  rw [flipAt_packetID hid hi]
  intro hdetected
  have hread := createFromArray_of_ds_eq
    (f := (packetFrame task es hid).withPacketID (flipAt (number task.packetID) i k)
      (length_flipAt ..)) hes (by omega) (getElem_values_ordinal task.command) haccepted rfl hds
  obtain ⟨-, hsame, -⟩ := (detected_iff_of_eq hread).mp hdetected 1
  -- the number is that of other bytes
  have hnumber : readInt (flipAt (number task.packetID) i k) = readInt (number task.packetID) :=
    hsame.trans (readInt_number _).symm
  have hwidth := bytes_le task.packetID
  exact flipAt_ne (by rw [length_number]; exact hi) hk
    (readInt_inj (by rw [length_flipAt, length_number]; exact hwidth) (length_flipAt ..) hnumber)

/-- The size after a bit of it has been altered. -/
def flippedSize (es : List EntityL) (i k : ℕ) : ℕ :=
  Bytes.toNat (flipAt (number (BitVec.ofNat 32 (body es).length)) i k)

include hsize in
theorem bytes_size_le : bytes (BitVec.ofNat 32 (body es).length) ≤ 2 := by
  rw [bytes_le_iff _ (by decide), BitVec.toNat_ofNat]
  omega

include hsize in
/-- What the size says, and what the checksum covers then. -/
theorem ds_withSize_flipAt (i k : ℕ) :
    ((packetFrame task es hid).withSize (flipAt (packetFrame task es hid).size i k)
        (length_flipAt ..)).ds = flippedSize es i k ∧
      ((packetFrame task es hid).withSize (flipAt (packetFrame task es hid).size i k)
        (length_flipAt ..)).covered = flippedSize es i k := by
  have hlength : (flipAt (number (BitVec.ofNat 32 (body es).length)) i k).length ≤ 2 := by
    rw [length_flipAt, length_number]
    exact bytes_size_le hsize
  have hlt : flippedSize es i k < 256 ^ 2 :=
    Nat.lt_of_lt_of_le (Bytes.toNat_lt _) (Nat.pow_le_pow_right (by decide) hlength)
  have hds : ((packetFrame task es hid).withSize (flipAt (packetFrame task es hid).size i k)
      (length_flipAt ..)).ds = flippedSize es i k := by
    show (readInt (flipAt (number (BitVec.ofNat 32 (body es).length)) i k)).toInt = _
    rw [readInt_eq (Nat.le_trans hlength (by decide))]
    exact toInt_ofNat (Nat.lt_trans hlt (by decide))
  refine ⟨hds, ?_⟩
  rw [Frame.covered, hds, if_neg (by omega), Int.toNat_natCast]

omit hid in
include hes in
/-- If the checksum is still that of the bytes that it covers, then the records that start
before the size have to be enough. -/
theorem detected_iff_of_accepted {f : Frame} (hlen : f.bytes.length < 2 ^ 31 - 1)
    (hcmd : Commands.values[f.cmd.toNat]? = some task.command)
    (hpid : readInt f.packetID = task.packetID) (hrest : f.rest = body es)
    (haccepted : f.Accepted) {n : ℕ} (hds : f.ds = n) (hne : es ≠ [])
    (hn : n ≤ (body es).length) : Detected utf8 task es f.bytes ↔ Enough utf8 es n := by
  obtain ⟨l, l', hl, hstarts, hend⟩ := exists_starting_before (records es) n
  have hends : n ≤ (l.flatMap Record.encode).length := by
    rcases hend with rfl | hend
    · rw [List.append_nil] at hl
      rwa [← hl, flatMap_encode_records]
    · exact hend
  have hread := fun fuel (hfuel : fuel ≥ l.length + 1) =>
    createFromArray_of_rest hes hlen hcmd haccepted hrest hl
      (fun l₁ r l₂ h => by rw [hds]; exact Nat.cast_lt.mpr (hstarts l₁ r l₂ h))
      (by rw [hds]; exact Nat.cast_le.mpr hends) hfuel
  rw [detected_iff_of_eq hread, ← sameEntities_iff_enough hne hl hstarts hends]
  exact ⟨fun hsame => (hsame 1).2.2, fun hsame ID => ⟨rfl, hpid, hsame⟩⟩

omit hid in
include hes in
/-- Another size, in front of the same records and after the same checksum. -/
theorem detected_iff_of_size {f : Frame} (hlen : f.bytes.length < 2 ^ 31 - 1)
    (hcmd : Commands.values[f.cmd.toNat]? = some task.command)
    (hpid : readInt f.packetID = task.packetID) (hrest : f.rest = body es)
    (hcrc : f.crc1 = crcOf (body es)) {n : ℕ} (hds : f.ds = n) (hcovered : f.covered = n)
    (hne : es ≠ []) :
    Detected utf8 task es f.bytes ↔
      (body es).length < n ∨ crcOf ((body es).take n) ≠ crcOf (body es) ∨ Enough utf8 es n := by
  have hfits : f.Accepted ↔ ¬(body es).length < n ∧ crcOf ((body es).take n) = crcOf (body es) := by
    rw [Frame.Accepted, hcrc, Frame.crc2, hcovered, hrest, Nat.not_lt, eq_comm]
  by_cases haccepted : f.Accepted
  · obtain ⟨hn, hsame⟩ := hfits.mp haccepted
    rw [detected_iff_of_accepted hes hlen hcmd hpid hrest haccepted hds hne (Nat.le_of_not_lt hn)]
    exact ⟨fun henough => .inr (.inr henough), fun hor =>
      (hor.resolve_left hn).resolve_left (not_not.mpr hsame)⟩
  · refine iff_of_true (detected_of_error fun fuel ID =>
      Frame.createFromArray_of_not_accepted (by omega) haccepted fuel ID) ?_
    by_contra hnot
    rw [not_or, not_or, not_not] at hnot
    exact haccepted (hfits.mpr ⟨hnot.1, hnot.2.1⟩)

include hid hes hsize in
/-- A size that has been altered is noticed if it is larger, if the checksum of as many bytes
is another one, or if the records that start before it are enough. -/
theorem detected_flipAt_size_iff {i : ℕ} (hi : i < bytes (BitVec.ofNat 32 (body es).length))
    (k : ℕ) :
    Detected utf8 task es (flipAt (packet task es) (4 + bytes task.packetID + i) k) ↔
      (body es).length < flippedSize es i k ∨
        crcOf ((body es).take (flippedSize es i k)) ≠ crcOf (body es) ∨
          Enough utf8 es (flippedSize es i k) := by
  have hlen := length_packet_lt hid hsize
  have hbytes := congrArg List.length (@flipAt_size task es hid i hi k)
  rw [length_flipAt] at hbytes
  obtain ⟨hds, hcovered⟩ := @ds_withSize_flipAt task es hid hsize i k
  -- the size of no entities has no bytes
  have hne : es ≠ [] := by
    rintro rfl
    exact Nat.not_lt_zero i hi
  rw [flipAt_size hid hi]
  exact detected_iff_of_size (f := (packetFrame task es hid).withSize
    (flipAt (packetFrame task es hid).size i k) (length_flipAt ..)) hes (by omega)
    (getElem_values_ordinal task.command) (readInt_number _) rfl
    ((crc1_packetFrame hid).trans (congrArg crcOf (List.take_of_length_le hsize))) hds hcovered hne

/-- The bits beside the width of the packet ID leave it. -/
theorem pidWidth_flipBit {p d k : ℕ} (hp : p ≤ 3) (hd : d ≤ 2) (hk : k < 8) (htwo : 2 ≤ k) :
    pidWidth (flipBit k (.ofNat (p ||| d <<< 2))) = p := by
  have hall : ∀ p ≤ 3, ∀ d ≤ 2, ∀ k < 8, 2 ≤ k →
      pidWidth (flipBit k (UInt8.ofNat (p ||| d <<< 2))) = p := by
    decide +kernel
  exact hall p hp d hd k hk htwo

/-- The bits beside the width of the size leave it. -/
theorem dsWidth_flipBit {p d k : ℕ} (hp : p ≤ 3) (hd : d ≤ 2) (hk : k < 8) (hfive : 5 ≤ k) :
    dsWidth (flipBit k (.ofNat (p ||| d <<< 2))) = d := by
  have hall : ∀ p ≤ 3, ∀ d ≤ 2, ∀ k < 8, 5 ≤ k →
      dsWidth (flipBit k (UInt8.ofNat (p ||| d <<< 2))) = d := by
    decide +kernel
  exact hall p hp d hd k hk hfive

/-- A bit of the width of the size makes it none or larger. -/
theorem dsWidth_flipBit_ne {p d k : ℕ} (hp : p ≤ 3) (hd : d ≤ 2) (htwo : 2 ≤ k) (hfive : k < 5) :
    (dsWidth (flipBit k (.ofNat (p ||| d <<< 2))) = 0 → d ≠ 0) ∧
      (dsWidth (flipBit k (.ofNat (p ||| d <<< 2))) ≠ 0 →
        d < dsWidth (flipBit k (.ofNat (p ||| d <<< 2)))) := by
  have hall : ∀ p ≤ 3, ∀ d ≤ 2, ∀ k < 5, 2 ≤ k →
      dsWidth (flipBit k (UInt8.ofNat (p ||| d <<< 2))) = 0 → d ≠ 0 := by
    decide +kernel
  have hall' : ∀ p ≤ 3, ∀ d ≤ 2, ∀ k < 5, 2 ≤ k →
      dsWidth (flipBit k (UInt8.ofNat (p ||| d <<< 2))) ≠ 0 →
        d < dsWidth (flipBit k (UInt8.ofNat (p ||| d <<< 2))) := by
    decide +kernel
  exact ⟨hall p hp d hd k hfive htwo, hall' p hp d hd k hfive htwo⟩

include hid hes hsize in
/-- The bits beside the widths do not matter. -/
theorem detected_flipAt_head {k : ℕ} (hk : k < 8) (hfive : 5 ≤ k) :
    Detected utf8 task es (flipAt (packet task es) 0 k) := by
  have hlen := length_packet_lt hid hsize
  have haccepted := accepted_packetFrame hid (show (packet task es).length < 2 ^ 31 by omega)
  have hds := ds_packetFrame hid (show (packet task es).length < 2 ^ 31 by omega)
  have hpid := pidWidth_flipBit hid (bytes_size_le hsize) hk (by omega)
  have hwidth := dsWidth_flipBit hid (bytes_size_le hsize) hk hfive
  have hbits := head_bits hid (bytes_le (BitVec.ofNat 32 (body es).length))
  have hread := createFromArray_of_ds_eq
    (f := (packetFrame task es hid).withHead (flipBit k (packetHead task es))
      (hpid.trans hbits.1.symm) (hwidth.trans hbits.2.symm)) hes hlen
    (getElem_values_ordinal task.command) haccepted rfl hds
  exact (detected_iff_of_eq hread).mpr fun ID => ⟨rfl, readInt_number _, rfl⟩

/-- A negative size is that of no records. -/
theorem not_detected_of_ds_nonpos {f : Frame} (hlen : f.bytes.length < 2 ^ 31 - 1)
    {command : Commands} (hcmd : Commands.values[f.cmd.toNat]? = some command)
    (haccepted : f.Accepted) (hds : f.ds ≤ 0) (hne : body es ≠ []) :
    ¬Detected utf8 task es f.bytes := by
  have hread := fun fuel (hfuel : fuel ≥ ([] : List Record).length + 1) =>
    @Frame.createFromArray_until utf8 f hlen command hcmd haccepted [] f.rest
      (fun r hr => absurd hr List.not_mem_nil) (fun r hr => nomatch hr) rfl
      (fun l r l' h => absurd h (by simp)) hds fuel hfuel
  rw [detected_iff_of_eq hread]
  intro hdetected
  have hlength := (hdetected 1).2.2.length_eq
  rw [List.length_map] at hlength
  exact hne (by rw [List.length_eq_zero_iff.mp hlength.symm]; rfl)

/-- A wider size that says more than none says more than there are bytes. -/
theorem ds_nonpos_of_append {f : Frame} {x : List UInt8} (haccepted : f.Accepted)
    (hsize : (body es).length ≤ 65535)
    (hf : f.size = number (BitVec.ofNat 32 (body es).length) ++ x)
    (hlt : f.rest.length < (body es).length) : f.ds ≤ 0 := by
  by_contra hpos
  have hle : (body es).length ≤ (readInt f.size).toNat := by
    calc (body es).length = (BitVec.ofNat 32 (body es).length).toNat := by
          rw [BitVec.toNat_ofNat]
          omega
      _ = (readInt (number (BitVec.ofNat 32 (body es).length))).toNat := by rw [readInt_number]
      _ ≤ (readInt f.size).toNat := by
          rw [readInt, readInt, hf, orBytes_append]
          exact le_orBytes ..
  have hds : f.ds = (readInt f.size).toNat := by
    rw [Frame.ds, BitVec.toInt_eq_toNat_cond] at hpos ⊢
    split at hpos
    · rw [if_pos ‹_›]
    · omega
  have hfits := haccepted.1
  rw [Frame.covered] at hfits
  split at hfits <;> omega

omit hid in
/-- Behind another first byte that leaves the width of the packet ID, the fields up to it are
the same. -/
theorem fields_of_head {f : Frame} {head : UInt8} (h : f.bytes = head :: (packet task es).tail)
    (hpid : pidWidth head = bytes task.packetID) :
    f.head = head ∧ f.cmd = .ofNat task.command.ordinal ∧
      f.size ++ f.rest = number (BitVec.ofNat 32 (body es).length) ++ body es := by
  have hfields : f.head :: (f.crc ++ f.cmd :: (f.packetID ++ (f.size ++ f.rest))) =
      head :: (checksum es ++ .ofNat task.command.ordinal ::
        (number task.packetID ++ (number (BitVec.ofNat 32 (body es).length) ++ body es))) := by
    simpa [Frame.bytes, Frame.start, packet, packetStart] using h
  obtain ⟨hhead, hfields⟩ := List.cons.inj hfields
  obtain ⟨-, hfields⟩ := List.append_inj hfields (by rw [f.length_crc, length_checksum])
  obtain ⟨hcmd, hfields⟩ := List.cons.inj hfields
  obtain ⟨-, hfields⟩ := List.append_inj hfields (by
    rw [f.length_packetID, hhead, hpid, length_number])
  exact ⟨hhead, hcmd, hfields⟩

omit hid in
include hsize in
/-- With another width that is none or larger, the size is none. -/
theorem ds_nonpos_of_width {f : Frame} (haccepted : f.Accepted)
    (hfields : f.size ++ f.rest = number (BitVec.ofNat 32 (body es).length) ++ body es)
    (hnone : dsWidth f.head = 0 → bytes (BitVec.ofNat 32 (body es).length) ≠ 0)
    (hlarger : dsWidth f.head ≠ 0 → bytes (BitVec.ofNat 32 (body es).length) < dsWidth f.head) :
    f.ds ≤ 0 ∧ body es ≠ [] := by
  have hlengths := congrArg List.length hfields
  rw [List.length_append, List.length_append, length_number, f.length_size] at hlengths
  by_cases hzero : dsWidth f.head = 0
  · have hempty : f.size = [] := List.eq_nil_of_length_eq_zero (f.length_size.trans hzero)
    refine ⟨?_, fun hnil => hnone hzero (by rw [hnil]; rfl)⟩
    rw [Frame.ds, hempty]
    decide
  · have hlt := hlarger hzero
    obtain ⟨x, hsizes, hbody⟩ : ∃ x, f.size = number (BitVec.ofNat 32 (body es).length) ++ x ∧
        body es = x ++ f.rest := by
      rcases List.append_eq_append_iff.mp hfields with ⟨x, hx, hx'⟩ | ⟨x, hx, hx'⟩
      · exfalso
        have hlonger := congrArg List.length hx
        rw [List.length_append, length_number, f.length_size] at hlonger
        omega
      · exact ⟨x, hx, hx'⟩
    refine ⟨ds_nonpos_of_append haccepted hsize hsizes (by omega), fun hnil => ?_⟩
    -- a size that is wider has bytes of the entities in it
    obtain ⟨hx, -⟩ := List.append_eq_nil_iff.mp (hbody.symm.trans hnil)
    have hlonger := f.length_size
    rw [hsizes, hx, List.append_nil, length_number] at hlonger
    omega

include hid hsize in
/-- If the width of the size is another one, and the packet is not refused, then the size is
none, and so are the entities. -/
theorem not_detected_flipAt_dsWidth {k : ℕ} (htwo : 2 ≤ k) (hfive : k < 5)
    (h : Matches (flipAt (packet task es) 0 k)) :
    ¬Detected utf8 task es (flipAt (packet task es) 0 k) := by
  have hlen := length_packet_lt hid hsize
  obtain ⟨f, hbytes, haccepted⟩ := h
  have hshort : f.bytes.length < 2 ^ 31 - 1 := by
    rw [hbytes, length_flipAt]
    exact hlen
  have hpid := pidWidth_flipBit hid (bytes_size_le hsize) (show k < 8 by omega) htwo
  obtain ⟨hnone, hlarger⟩ := dsWidth_flipBit_ne hid (bytes_size_le hsize) htwo hfive
  obtain ⟨hhead, hcmd, hfields⟩ := fields_of_head (hbytes.trans (flipAt_head k)) hpid
  rw [packetHead] at hhead
  rw [← hhead] at hnone hlarger
  obtain ⟨hds, hne⟩ := ds_nonpos_of_width hsize haccepted hfields hnone hlarger
  have hcommand : Commands.values[f.cmd.toNat]? = some task.command := by
    rw [hcmd]
    exact getElem_values_ordinal task.command
  rw [← hbytes]
  exact not_detected_of_ds_nonpos hshort hcommand haccepted hds hne

end Fields

/-! ### The whole header -/

/-- The bits that may be altered: byte `i` of the packet, and bit `k` of it.  The packet ID
is not among them. -/
inductive Harmless (utf8 : Charset) (task : EavTask) (es : List EntityL) : ℕ → ℕ → Prop
  /-- The widths stay, or the fields that they make do not fit the bytes. -/
  | head {k : ℕ} (h : 5 ≤ k ∨ ¬Matches (flipAt (packet task es) 0 k)) : Harmless utf8 task es 0 k
  | checksum {i k : ℕ} (hi : i < 2) : Harmless utf8 task es (1 + i) k
  /-- There is no such command. -/
  | cmd {k : ℕ} (h : Commands.values[(flipBit k (.ofNat task.command.ordinal)).toNat]? = none) :
      Harmless utf8 task es 3 k
  /-- The size is larger, the checksum of as many bytes is another one, or the records that
  start before it are enough. -/
  | size {i k : ℕ} (hi : i < bytes (BitVec.ofNat 32 (body es).length))
      (h : (body es).length < flippedSize es i k ∨
        crcOf ((body es).take (flippedSize es i k)) ≠ crcOf (body es) ∨
          Enough utf8 es (flippedSize es i k)) :
      Harmless utf8 task es (4 + bytes task.packetID + i) k

/-- A harmless bit is noticed. -/
theorem Harmless.detected {i k : ℕ} (h : Harmless utf8 task es i k) (hid : bytes task.packetID ≤ 3)
    (hes : ∀ e ∈ es, ∀ a ∈ e.attributes, Readable utf8 a.value)
    (hsize : (body es).length ≤ 65535) (hk : k < 8) :
    Detected utf8 task es (flipAt (packet task es) i k) := by
  cases h with
  | head h =>
    rcases h with hfive | hmatches
    · exact detected_flipAt_head hid hes hsize hk hfive
    · have hlen := length_packet_lt hid hsize
      exact detected_of_not_matches (by rw [length_flipAt]; omega) hmatches
  | checksum hi => exact detected_flipAt_checksum hid hsize hi hk
  | cmd h => exact (detected_flipAt_cmd_iff hid hes hsize hk).mpr h
  | size hi h => exact (detected_flipAt_size_iff hid hes hsize hi _).mpr h

/-- **Which altered bits of the header are noticed.**  For the width of the packet ID, which
is in the first two bits, only one direction is true: the records that start elsewhere may
make no sense, and be refused for it. -/
theorem detected_flipAt {p : List UInt8} (hid : Issued task.packetID)
    (hes : ∀ e ∈ es, ∀ a ∈ e.attributes, Readable utf8 a.value) (h : Sent task es p)
    (hsize : (body es).length ≤ 65535) {i k : ℕ} (hi : i < (packetStart task es).length)
    (hk : k < 8) :
    (Harmless utf8 task es i k → Detected utf8 task es (flipAt p i k)) ∧
      ((i = 0 → 2 ≤ k) → Detected utf8 task es (flipAt p i k) → Harmless utf8 task es i k) := by
  obtain rfl := h.eq_packet
  refine ⟨fun hharmless => hharmless.detected hid.bytes_le hes hsize hk, fun htwo hdetected => ?_⟩
  rw [length_packetStart, packetHeaderSize] at hi
  rcases Nat.lt_or_ge i 4 with hfour | hfour
  · -- the widths, the checksum and the command
    obtain rfl | ⟨j, hj, rfl⟩ | rfl : i = 0 ∨ (∃ j < 2, i = 1 + j) ∨ i = 3 := by
      by_cases hpos : i = 0 ∨ i = 3
      · exact hpos.imp id .inr
      · exact .inr (.inl ⟨i - 1, by omega, by omega⟩)
    · refine .head ?_
      by_contra hnot
      rw [not_or, not_not] at hnot
      exact not_detected_flipAt_dsWidth hid.bytes_le hsize (htwo rfl) (by omega) hnot.2 hdetected
    · exact .checksum hj
    · exact .cmd ((detected_flipAt_cmd_iff hid.bytes_le hes hsize hk).mp hdetected)
  · -- the packet ID and the size
    obtain ⟨j, rfl⟩ := Nat.exists_eq_add_of_le hfour
    by_cases hj : j < bytes task.packetID
    · exact absurd hdetected (not_detected_flipAt_packetID hid.bytes_le hes hsize hj hk)
    · obtain ⟨j, rfl⟩ := Nat.exists_eq_add_of_le (Nat.le_of_not_lt hj)
      have hj' : j < bytes (BitVec.ofNat 32 (body es).length) := by omega
      rw [← Nat.add_assoc] at hdetected ⊢
      exact .size hj' ((detected_flipAt_size_iff hid.bytes_le hes hsize hj' k).mp hdetected)

/-- An attribute that is written twice, with the same string. -/
def writtenTwice : List EntityL :=
  [⟨0, 0, List.replicate 2 ⟨0, 0, setValue .utf8 (.string "aagihq")⟩⟩]

/-- A bit of the size is altered.  The checksum happens to be the same, and the attribute that
is cut off has been written before. -/
theorem detected_flipAt_writtenTwice :
    Detected .utf8 sampleTask writtenTwice (flipAt (packet sampleTask writtenTwice) 5 4) := by
  have hread : ∀ e ∈ writtenTwice, ∀ a ∈ e.attributes, Readable .utf8 a.value := by
    intro e he a ha
    obtain rfl := List.mem_singleton.mp he
    rw [List.eq_of_mem_replicate ha]
    exact .made (.string "aagihq")
  have hsent : Sent sampleTask writtenTwice (packet sampleTask writtenTwice) :=
    .of_packet (fun e he a ha => (hread e he a ha).storable) (by decide +kernel)
  have hsize : flippedSize writtenTwice 0 4 = 3 := by decide +kernel
  -- the entity is at 0 and the attribute at 1, and 3 is within it
  have hstarts : StartBefore (records
      [⟨0, 0, [⟨0, 0, setValue .utf8 (.string "aagihq")⟩]⟩]) 3 := by
    intro l r l' hl
    match l, hl with
    | [], _ => decide
    | [_], hl =>
      obtain ⟨rfl, -⟩ := List.cons.inj hl
      decide
    | _ :: _ :: l, hl => exact absurd (congrArg List.length hl) (by simp [records, EntityL.records])
  have henough : Enough .utf8 writtenTwice (flippedSize writtenTwice 0 4) := by
    rw [hsize]
    exact ⟨[], ⟨0, 0, []⟩, [⟨0, 0, setValue .utf8 (.string "aagihq")⟩],
      [⟨0, 0, setValue .utf8 (.string "aagihq")⟩], rfl, hstarts, by decide +kernel,
      by decide +kernel⟩
  exact (detected_flipAt ⟨0, rfl⟩ hread hsent (by decide +kernel) (by decide +kernel)
    (by decide)).1 (.size (i := 0) (by decide +kernel) (.inr (.inr henough)))

/-- A bit of the command is altered: the attribute is not written, but the entity is deleted. -/
theorem not_detected_flipAt_sample :
    Issued sampleTask.packetID ∧ Sent sampleTask (zeros 1) (packet sampleTask (zeros 1)) ∧
      (body (zeros 1)).length ≤ 65535 ∧ 3 < (packetStart sampleTask (zeros 1)).length ∧
      ¬Detected .utf8 sampleTask (zeros 1) (flipAt (packet sampleTask (zeros 1)) 3 0) := by
  have hsent : Sent sampleTask (zeros 1) (packet sampleTask (zeros 1)) :=
    .of_packet (fun e he a ha => (sendable_zeros 1 e he a ha).storable) (by decide +kernel)
  refine ⟨⟨0, rfl⟩, hsent, by decide +kernel, by decide +kernel, fun hdetected => ?_⟩
  have hnone := (detected_flipAt_cmd_iff (by decide)
    (fun e he a ha => (sendable_zeros 1 e he a ha).readable) (by decide +kernel)
    (by decide)).mp hdetected
  exact absurd hnone (by decide)

end Client
end PeeledOrange
