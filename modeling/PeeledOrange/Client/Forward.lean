import PeeledOrange.Client.Records
import PeeledOrange.Client.Floats
import PeeledOrange.Client.Values
import PeeledOrange.Client.Keys

/-!
# What has been read is sent on

Whoever passes a task on goes through the maps of its entities, from the smallest key to the
largest one, and makes a packet of what is there.  The values that have been read can all be
sent, whatever the packet was that they came in.  They come back as they were, except for
the floating-point numbers, of which the bytes come in the other order; after one more such
packet these are as they were, too.

## Main definitions

* `Parsed` — the values that the parser makes.
* `AttributeValue.turned` — a value, with the bytes of a floating-point number turned round.
* `AttributeValue.getInt` — the number that a value is, as an `int`.
* `EntityM.listed` — an entity, with the entries of its map in a list.
* `Forwards` — a packet is made of entities, and read.

## Main results

* `getValue_of_createFromArray` — **whatever has been read, `getValue` finds a value.**
* `forwards_of_createFromArray` — **what has been read is sent on**, with the bytes of its
  floating-point numbers in the other order.
* `forwards_twice` — **over two packets the maps of all entities are as they were.**
-/

namespace PeeledOrange
namespace Client

open Java RedBlack Serial

variable {utf8 : Charset}

/-! ### The values that the parser makes -/

/-- Values that the parser makes: no doubles, and buffers over arrays of their own. -/
inductive Parsed (utf8 : Charset) : AttributeValue → Prop
  | byte (v : BitVec 8) : Parsed utf8 (setValue utf8 (.byte v))
  | short (v : BitVec 16) : Parsed utf8 (setValue utf8 (.short v))
  | integer (v : BitVec 32) : Parsed utf8 (setValue utf8 (.integer v))
  | long (v : BitVec 64) : Parsed utf8 (setValue utf8 (.long v))
  | float (v : BitVec 32) : Parsed utf8 (setValue utf8 (.float v))
  | string (v : String) : Parsed utf8 (setValue utf8 (.string v))
  | bytes (bs : List UInt8) : Parsed utf8 (setValue utf8 (.byteBuffer (.wrap bs)))

/-- A value, with the bytes of a floating-point number turned round. -/
def AttributeValue.turned (av : AttributeValue) : AttributeValue :=
  if av.valueType = .f4 then { av with value := .wrap av.value.array.reverse } else av

/-- All values that these entities have been given are such. -/
def AllParsed (utf8 : Charset) (es : List EntityM) : Prop :=
  ∀ e ∈ es, ∀ p ∈ e.attributes.puts, Parsed utf8 p.2

namespace Parsed

variable {av : AttributeValue}

theorem readable (h : Parsed utf8 av) : Readable utf8 av := by
  cases h <;> exact .made _

/-- **A value comes back as it is, or turned round.** -/
theorem received_eq (h : Parsed utf8 av) : received utf8 av = av.turned := by
  cases h with
  | float v =>
    have hbytes := Bytes.littleEndian_toNat (Bytes.bigEndian 4 v.toNat)
    have hlen : (Bytes.bigEndian 4 v.toNat).length = 4 := by
      rw [Bytes.bigEndian, List.length_reverse, Bytes.length_littleEndian]
    have hlt := Bytes.toNat_lt (Bytes.bigEndian 4 v.toNat)
    rw [hlen] at hbytes hlt
    show setValue utf8 (.float (BitVec.ofNat 32 (Bytes.toNat (Bytes.bigEndian 4 v.toNat)))) =
      ⟨.f4, .wrap (Bytes.bigEndian 4 v.toNat).reverse⟩
    rw [setValue, BitVec.toNat_ofNat, show (2 : ℕ) ^ 32 = 256 ^ 4 from rfl, Nat.mod_eq_of_lt hlt,
      Bytes.bigEndian, hbytes]
  | _ => rfl

theorem turned (h : Parsed utf8 av) : Parsed utf8 av.turned := by
  rw [← h.received_eq]
  cases h with
  | byte v => exact .byte v
  | short v => exact .short v
  | integer v => exact .integer v
  | long v => exact .long v
  | float v => exact .float _
  | string v => exact .string v
  | bytes bs => exact .bytes bs

/-- **What is turned round twice is as it was.** -/
theorem turned_turned (h : Parsed utf8 av) : av.turned.turned = av := by
  cases h with
  | float v =>
    show (⟨.f4, .wrap (Bytes.bigEndian 4 v.toNat).reverse.reverse⟩ : AttributeValue) = _
    rw [List.reverse_reverse]
    rfl
  | _ => rfl

/-- As many bytes are sent of it either way. -/
theorem length_payload_turned (h : Parsed utf8 av) :
    (payload av.turned).length = (payload av).length := by
  cases h with
  | float v => exact List.length_reverse
  | _ => rfl

/-- It is made of an object, which is not a double. -/
theorem exists_setValue (h : Parsed utf8 av) :
    ∃ v, av = setValue utf8 v ∧ ∀ x, v ≠ .double x := by
  cases h <;> exact ⟨_, rfl, fun x hx => Value.noConfusion hx⟩

end Parsed

/-- **A value that is read is one of these.** -/
theorem parsed_of_parseValue {buf buf' : ByteBuffer} {vt : ValueType} {pos len : ℤ}
    {av : AttributeValue} (h : parseValue utf8 buf vt pos len = .ok (av, buf')) :
    Parsed utf8 av := by
  have hmade : ∀ {α : Type} {x : Except Throwable α} {f : α → AttributeValue},
      (∀ v, Parsed utf8 (f v)) → (do return (f (← x), buf)) = Except.ok (av, buf') →
        Parsed utf8 av := by
    intro α x f hf h
    obtain ⟨v, -, h⟩ := bind_eq_ok_iff.mp h
    cases h
    exact hf v
  cases vt with
  | i8 => exact hmade (fun v => .byte _) h
  | i16 => exact hmade (fun v => .short _) h
  | i32 => exact hmade .integer h
  | i64 => exact hmade .long h
  | f4 => exact hmade .float h
  | f8 =>
    -- a double is kept as the integer 0
    exact hmade (fun v => .integer 0) h
  | s => exact hmade .string h
  | b =>
    obtain ⟨_, -, h⟩ := bind_eq_ok_iff.mp h
    obtain ⟨c, -, h⟩ := bind_eq_ok_iff.mp h
    obtain ⟨⟨bs, d⟩, -, h⟩ := bind_eq_ok_iff.mp h
    cases h
    exact .bytes bs

/-! ### The record loop -/

theorem allParsed_putLast {es : List EntityM} (hes : AllParsed utf8 es) (key : DualKey)
    {av : AttributeValue} (hav : Parsed utf8 av) : AllParsed utf8 (putLast es key av) := by
  induction es with
  | nil => exact hes
  | cons e es ih =>
    cases es with
    | nil =>
      intro e' he' p hp
      obtain rfl := List.mem_singleton.mp he'
      rcases List.mem_append.mp hp with hp | hp
      · exact hes e List.mem_cons_self p hp
      · obtain rfl := List.mem_singleton.mp hp
        exact hav
    | cons e₁ es =>
      intro e' he'
      rcases List.mem_cons.mp he' with rfl | he'
      · exact hes e' List.mem_cons_self
      · exact ih (fun x hx => hes x (List.mem_cons_of_mem e hx)) e' he'

/-- What the loop goes on with, or is left with. -/
def Turn.parser : Turn → Parser
  | next st => st
  | leave st => st

section Turns

variable {st : Parser} {turn : Turn}

theorem allParsed_payload {key : DualKey} {vt : ValueType} {pos len : ℤ}
    (hst : AllParsed utf8 st.entities) (h : parsePayload utf8 st key vt pos len = .ok turn) :
    AllParsed utf8 turn.parser.entities := by
  rw [parsePayload] at h
  split at h
  · cases h
    exact hst
  · obtain ⟨⟨av, buf⟩, hvalue, h⟩ := bind_eq_ok_iff.mp h
    cases h
    exact allParsed_putLast hst key (parsed_of_parseValue hvalue)

theorem allParsed_attribute {head : UInt8} {key : DualKey} {pos : ℤ}
    (hst : AllParsed utf8 st.entities) (h : parseAttribute utf8 st head key pos = .ok turn) :
    AllParsed utf8 turn.parser.entities := by
  rw [parseAttribute] at h
  split at h
  · cases h
    exact hst
  split at h
  · cases h
    exact hst
  obtain ⟨tag, -, h⟩ := bind_eq_ok_iff.mp h
  simp only at h
  split at h
  · cases h
  obtain ⟨size, -, h⟩ := bind_eq_ok_iff.mp h
  split at h
  · -- the length is a number of its own
    split at h
    · cases h
      exact hst
    · obtain ⟨number, -, h⟩ := bind_eq_ok_iff.mp h
      exact allParsed_payload hst h
  · exact allParsed_payload hst h

theorem allParsed_record (hst : AllParsed utf8 st.entities)
    (h : parseRecord utf8 st = .ok turn) : AllParsed utf8 turn.parser.entities := by
  rw [parseRecord] at h
  obtain ⟨head, -, h⟩ := bind_eq_ok_iff.mp h
  dsimp only at h
  split at h
  · cases h
    exact hst
  obtain ⟨num, -, h⟩ := bind_eq_ok_iff.mp h
  obtain ⟨type, -, h⟩ := bind_eq_ok_iff.mp h
  split at h
  · -- a new entity has no attributes yet
    cases h
    intro e he
    rcases List.mem_append.mp he with he | he
    · exact hst e he
    · obtain rfl := List.mem_singleton.mp he
      exact fun p hp => absurd hp List.not_mem_nil
  · exact allParsed_attribute hst h

end Turns

theorem allParsed_loop {size : ℤ} {fuel : ℕ} {st st' : Parser} (hst : AllParsed utf8 st.entities)
    (h : parseLoop utf8 size fuel st = some (.ok st')) : AllParsed utf8 st'.entities := by
  induction fuel generalizing st with
  | zero => cases h
  | succ fuel ih =>
    rw [parseLoop] at h
    split at h
    · split at h
      · cases h
      next st₁ hrecord =>
        cases h
        exact allParsed_record hst hrecord
      next st₁ hrecord => exact ih (allParsed_record hst hrecord) h
    · cases h
      exact hst

theorem allParsed_of_createFromArray {fuel : ℕ} {ID : BitVec 32} {buf : ByteBuffer} {task : EavTask}
    (h : (createFromArray utf8 fuel ID buf).1 = some (.ok task)) :
    AllParsed utf8 task.entities := by
  rw [createFromArray] at h
  split at h
  · cases h
  dsimp only at h
  split at h
  · cases h
  next task₁ pos ds buf₁ hread =>
    obtain ⟨r, hloop, h⟩ := Option.map_eq_some_iff.mp h
    cases r with
    | error e => cases h
    | ok st =>
      cases h
      exact allParsed_loop (fun e he => absurd he List.not_mem_nil) hloop

/-! ### What is found in them -/

/-- `getInt`. -/
def AttributeValue.getInt (av : AttributeValue) : Except Throwable (BitVec 32) :=
  match av.valueType with
  | .i8 => do return (← av.value.get 0).toBitVec.signExtend 32
  | .i16 => do return (← av.value.getNumber 0 2).signExtend 32
  | .i32 => av.value.getNumber 0 4
  | .i64 => do return (← av.value.getNumber 0 8).setWidth 32
  | .f4 | .f8 | .s | .b => return 0

/-- The `int` for a number: of a `Long` it is the lower half, and of what is not a whole
number it is 0. -/
def Value.intValue : Value → BitVec 32
  | .byte v => v.signExtend 32
  | .short v => v.signExtend 32
  | .integer v => v
  | .long v => v.setWidth 32
  | .float _ | .double _ | .string _ | .byteBuffer _ => 0

/-- `getInt` agrees with `getValue`. -/
theorem getInt_of_getValue {av : AttributeValue} {v : Value} (h : av.getValue utf8 = .ok v) :
    av.getInt = .ok v.intValue := by
  obtain ⟨vt, b⟩ := av
  cases vt with
  | b =>
    cases h
    rfl
  | i8 | i16 | i32 | i64 =>
    obtain ⟨x, hx, h⟩ := bind_eq_ok_iff.mp h
    cases h
    simp only [AttributeValue.getInt, hx]
    rfl
  | f4 | f8 | s =>
    obtain ⟨x, -, h⟩ := bind_eq_ok_iff.mp h
    cases h
    rfl

/-- **Whatever has been read, `getValue` finds a value of the class for its type**, and the
same is made of it again.  It is never a double, and `getInt` finds the same number. -/
theorem getValue_of_createFromArray {fuel : ℕ} {ID : BitVec 32} {buf : ByteBuffer} {task : EavTask}
    (h : (createFromArray utf8 fuel ID buf).1 = some (.ok task)) :
    ∀ e ∈ task.entities, ∀ p ∈ e.attributes.puts, ∃ v, p.2.getValue utf8 = .ok v ∧
      v.valueType = p.2.valueType ∧ setValue utf8 v = p.2 ∧ (∀ x, v ≠ .double x) ∧
        p.2.getInt = .ok v.intValue := by
  intro e he p hp
  obtain ⟨v, hv, hdouble⟩ := (allParsed_of_createFromArray h e he p hp).exists_setValue
  have hstored : v.stored = v := (stored_eq_iff v).mpr hdouble
  have hvalue : p.2.getValue utf8 = .ok v := by rw [hv, getValue_setValue, hstored]
  refine ⟨v, hvalue, ?_, hv.symm, hdouble, getInt_of_getValue hvalue⟩
  rw [hv, valueType_setValue, hstored]

/-- Two entities, one of them with numbers and a text. -/
def mixed : List EntityL :=
  [⟨1, 2, [⟨3, 4, setValue .utf8 (.float 0x3F800000)⟩, ⟨-1, 4, setValue .utf8 (.short 256)⟩,
    ⟨5, 300, setValue .utf8 (.string "ab")⟩]⟩, ⟨0, 0, []⟩]

/-- What is read of a packet of them. -/
def readMixed : List EntityM := mixed.map (EntityL.received .utf8)

theorem createFromArray_mixed : (createFromArray .utf8 9 1 (.wrap (packet sampleTask mixed))).1 =
    some (.ok (obtained sampleTask 1 readMixed)) := by
  refine createFromArray_eq ⟨0, rfl⟩ (fun e he a ha => ?_) (by decide +kernel) 1 (by decide)
  simp only [mixed, List.mem_cons, List.not_mem_nil, or_false] at he
  rcases he with rfl | rfl
  · simp only [List.mem_cons, List.not_mem_nil, or_false] at ha
    rcases ha with rfl | rfl | rfl
    · exact .made (.float 0x3F800000)
    · exact .made (.short 256)
    · exact .made (.string "ab")
  · cases ha

theorem getValue_readMixed : ∃ task, (createFromArray .utf8 9 1
    (.wrap (packet sampleTask mixed))).1 = some (.ok task) ∧
      ∀ e ∈ task.entities, ∀ p ∈ e.attributes.puts, ∃ v, p.2.getValue .utf8 = .ok v ∧
        v.valueType = p.2.valueType ∧ setValue .utf8 v = p.2 ∧ (∀ x, v ≠ .double x) ∧
          p.2.getInt = .ok v.intValue :=
  ⟨_, createFromArray_mixed, getValue_of_createFromArray createFromArray_mixed⟩

/-! ### Sending on -/

/-- An entity with a list, from one with a map: the entries of the map, in order. -/
def EntityM.listed (e : EntityM) : EntityL where
  num := e.num
  type := e.type
  attributes := (entries e.attributes.tree).map fun p => ⟨p.1.num, p.1.type, p.2⟩

/-- An entity whose entries have been put into a new map, turned round. -/
def EntityM.turned (e : EntityM) : EntityM where
  num := e.num
  type := e.type
  attributes := ⟨(entries e.attributes.tree).map fun p => (p.1, p.2.turned)⟩

/-- A packet is made of the entries of these entities, and it is read as the others. -/
def Forwards (utf8 : Charset) (task : EavTask) (es es' : List EntityM) : Prop :=
  ∃ sent, setRequestData task (es.map EntityM.listed) = .ok sent ∧
    ∀ ID, ∃ least, ∀ fuel ≥ least, ∃ got,
      (createFromArray utf8 fuel ID (.wrap sent.requestData.array)).1 = some (.ok got) ∧
        got.command = task.command ∧ got.packetID = task.packetID ∧ got.entities = es'

/-- The values of a map are among those that have been put. -/
theorem AllParsed.entries {es : List EntityM} (h : AllParsed utf8 es) :
    ∀ e ∈ es, ∀ p ∈ entries e.attributes.tree, Parsed utf8 p.2 := by
  intro e he p hp
  obtain ⟨q, hq, hvalue⟩ := exists_put_of_mem hp
  rw [hvalue]
  exact h e he q hq

theorem AllParsed.listed {es : List EntityM} (h : AllParsed utf8 es) :
    ∀ e ∈ es.map EntityM.listed, ∀ a ∈ e.attributes, Parsed utf8 a.value := by
  intro e he a ha
  obtain ⟨em, hem, rfl⟩ := List.mem_map.mp he
  obtain ⟨p, hp, rfl⟩ := List.mem_map.mp ha
  exact h.entries em hem p hp

theorem AllParsed.turned {es : List EntityM} (h : AllParsed utf8 es) :
    AllParsed utf8 (es.map EntityM.turned) := by
  intro e he p hp
  obtain ⟨em, hem, rfl⟩ := List.mem_map.mp he
  obtain ⟨q, hq, rfl⟩ := List.mem_map.mp hp
  exact (h.entries em hem q hq).turned

/-- What comes back of an entity, if its values are those that the parser makes. -/
theorem received_listed {e : EntityM} (h : ∀ p ∈ entries e.attributes.tree, Parsed utf8 p.2) :
    e.listed.received utf8 = e.turned := by
  rw [EntityL.received_eq_puts, EntityM.listed, EntityM.turned, List.map_map]
  exact congrArg (fun puts => (⟨e.num, e.type, ⟨puts⟩⟩ : EntityM))
    (List.map_congr_left fun p hp => congrArg (Prod.mk p.1) (h p hp).received_eq)

/-- Entities are sent on if their values are those that the parser makes. -/
theorem forwards_of_allParsed {task : EavTask} {es : List EntityM} (hes : AllParsed utf8 es)
    (hid : Issued task.packetID)
    (hlen : (packet task (es.map EntityM.listed)).length < 2 ^ 31 - 1) :
    Forwards utf8 task es (es.map EntityM.turned) := by
  have hlisted := hes.listed
  have hread : ∀ e ∈ es.map EntityM.listed, ∀ a ∈ e.attributes, Readable utf8 a.value :=
    fun e he a ha => (hlisted e he a ha).readable
  obtain ⟨buf, hsent, harray⟩ := @setRequestData_eq task _
    (fun e he a ha => (hread e he a ha).storable) (by omega)
  have hback : (es.map EntityM.listed).map (EntityL.received utf8) = es.map EntityM.turned := by
    rw [List.map_map]
    exact List.map_congr_left fun e he => received_listed (hes.entries e he)
  refine ⟨_, hsent, fun ID => ⟨turns (es.map EntityM.listed) + 1, fun fuel hfuel =>
    ⟨obtained task ID (es.map EntityM.turned), ?_, rfl, rfl, rfl⟩⟩⟩
  simp only [harray]
  rw [createFromArray_eq hid hread hlen ID hfuel, hback]

/-- **What has been read is sent on.**  Whatever packet the entities came in, a packet is made
of their maps, and the same is read of it, but with the bytes of each floating-point number
turned round. -/
theorem forwards_of_createFromArray {fuel : ℕ} {ID : BitVec 32} {buf : ByteBuffer}
    {got task : EavTask} (h : (createFromArray utf8 fuel ID buf).1 = some (.ok got))
    (hid : Issued task.packetID)
    (hlen : (packet task (got.entities.map EntityM.listed)).length < 2 ^ 31 - 1) :
    Forwards utf8 task got.entities (got.entities.map EntityM.turned) :=
  forwards_of_allParsed (allParsed_of_createFromArray h) hid hlen

theorem forwards_readMixed : ∃ got, (createFromArray .utf8 9 1
    (.wrap (packet sampleTask mixed))).1 = some (.ok got) ∧
      Forwards .utf8 sampleTask got.entities (got.entities.map EntityM.turned) :=
  ⟨_, createFromArray_mixed,
    forwards_of_createFromArray createFromArray_mixed ⟨0, rfl⟩ (by decide +kernel)⟩

/-! ### Sending on twice -/

section Twice

variable {K : Set DualKey} {es : List EntityM}

/-- All keys of these entities are among some. -/
def KeysIn (K : Set DualKey) (es : List EntityM) : Prop :=
  ∀ e ∈ es, ∀ p ∈ e.attributes.puts, p.1 ∈ K

/-- The entries of a map that has come back are those that have been sent, in order. -/
theorem entries_turned (hK : Orders compareKeys K) {e : EntityM}
    (he : ∀ p ∈ e.attributes.puts, p.1 ∈ K) :
    entries e.turned.attributes.tree = (entries e.attributes.tree).map fun p => (p.1, p.2.turned) :=
  entries_ofPuts_of_sorted hK ((sorted_ofPuts hK he).map AttributeValue.turned)

theorem keys_turned (hK : Orders compareKeys K) {e : EntityM}
    (he : ∀ p ∈ e.attributes.puts, p.1 ∈ K) : ∀ p ∈ e.turned.attributes.puts, p.1 ∈ K :=
  ((sorted_ofPuts hK he).map AttributeValue.turned).keys

/-- **After two packets, the entries of a map are as they were.** -/
theorem entries_turned_turned (hK : Orders compareKeys K) {e : EntityM}
    (hkeys : ∀ p ∈ e.attributes.puts, p.1 ∈ K)
    (hvalues : ∀ p ∈ entries e.attributes.tree, Parsed utf8 p.2) :
    entries e.turned.turned.attributes.tree = entries e.attributes.tree := by
  rw [entries_turned hK (keys_turned hK hkeys), entries_turned hK hkeys, List.map_map]
  refine (List.map_congr_left fun p hp => ?_).trans (List.map_id _)
  exact Prod.ext rfl (hvalues p hp).turned_turned

theorem length_attributeBytes_turned (key : DualKey) {av : AttributeValue} (h : Parsed utf8 av) :
    (attributeBytes ⟨key.num, key.type, av.turned⟩).length =
      (attributeBytes ⟨key.num, key.type, av⟩).length := by
  simp only [attributeBytes, List.length_append, List.length_cons, length_recordStart,
    h.length_payload_turned]

/-- The records of entities that have come back are as long as those that have been sent. -/
theorem length_body_turned (hK : Orders compareKeys K) (hkeys : KeysIn K es)
    (hes : AllParsed utf8 es) :
    (body ((es.map EntityM.turned).map EntityM.listed)).length =
      (body (es.map EntityM.listed)).length := by
  have hentity : ∀ e ∈ es,
      (entityBytes e.turned.listed).length = (entityBytes e.listed).length := by
    intro e he
    have hattributes : e.turned.listed.attributes =
        (entries e.attributes.tree).map fun p => ⟨p.1.num, p.1.type, p.2.turned⟩ := by
      rw [EntityM.listed, entries_turned hK (hkeys e he), List.map_map]
      rfl
    have hbefore : e.listed.attributes =
        (entries e.attributes.tree).map fun p => ⟨p.1.num, p.1.type, p.2⟩ := rfl
    rw [entityBytes, entityBytes, hattributes, hbefore, List.length_append, List.length_append,
      length_recordStart, length_recordStart, List.length_flatMap, List.length_flatMap,
      List.map_map, List.map_map]
    refine congrArg (fun l : List ℕ => 1 + bytes e.num + bytes e.type + l.sum) ?_
    exact List.map_congr_left fun p hp =>
      length_attributeBytes_turned p.1 (hes.entries e he p hp)
  rw [body, body, List.length_flatMap, List.length_flatMap, List.map_map, List.map_map,
    List.map_map]
  exact congrArg List.sum (List.map_congr_left hentity)

/-- So the second packet is as long as if these were in it. -/
theorem length_packet_turned (hK : Orders compareKeys K) (hkeys : KeysIn K es)
    (hes : AllParsed utf8 es) (task : EavTask) :
    (packet task ((es.map EntityM.turned).map EntityM.listed)).length =
      (packet task (es.map EntityM.listed)).length := by
  rw [packet, packet, List.length_append, List.length_append, length_packetStart,
    length_packetStart, length_body_turned hK hkeys hes]

/-- An entity is as it was, as far as its map can tell. -/
structure Unchanged (K : Set DualKey) (e e' : EntityM) : Prop where
  num : e'.num = e.num
  type : e'.type = e.type
  entries : entries e'.attributes.tree = entries e.attributes.tree
  get : ∀ key ∈ K, e'.attributes.get key = e.attributes.get key

/-- The same is found in maps of the same entries. -/
theorem unchanged_turned_turned (hK : Orders compareKeys K) {e : EntityM}
    (hkeys : ∀ p ∈ e.attributes.puts, p.1 ∈ K)
    (hvalues : ∀ p ∈ entries e.attributes.tree, Parsed utf8 p.2) :
    Unchanged K e e.turned.turned where
  num := rfl
  type := rfl
  entries := entries_turned_turned hK hkeys hvalues
  get key hkey := by
    have hentries := entries_turned_turned hK hkeys hvalues
    have hsorted : Sorted compareKeys K (RedBlack.entries e.attributes.tree) :=
      sorted_ofPuts hK hkeys
    refine Option.ext fun v => ?_
    rw [AttributesMap.get, AttributesMap.get, get_eq_some_iff hK hkey (hentries ▸ hsorted),
      get_eq_some_iff hK hkey hsorted, hentries]

/-- **Over two packets the maps of all entities are as they were**, if their keys are within
half of the circle of all `int`s.  So whoever passes on what has been passed on has the
floating-point numbers back. -/
theorem forwards_twice {fuel : ℕ} {ID : BitVec 32} {buf : ByteBuffer} {got task task' : EavTask}
    (h : (createFromArray utf8 fuel ID buf).1 = some (.ok got))
    (htypes : WithinHalf (types K)) (hnums : ∀ t, WithinHalf (nums K t))
    (hkeys : KeysIn K got.entities) (hid : Issued task.packetID) (hid' : Issued task'.packetID)
    (hlen : (packet task (got.entities.map EntityM.listed)).length < 2 ^ 31 - 1)
    (hlen' : (packet task' (got.entities.map EntityM.listed)).length < 2 ^ 31 - 1) :
    ∃ es es', Forwards utf8 task got.entities es ∧ Forwards utf8 task' es es' ∧
      List.Forall₂ (Unchanged K) got.entities es' := by
  have hK := orders_of_withinHalf htypes hnums
  have hparsed := allParsed_of_createFromArray h
  rw [← length_packet_turned hK hkeys hparsed] at hlen'
  refine ⟨_, _, forwards_of_allParsed hparsed hid hlen,
    forwards_of_allParsed hparsed.turned hid' hlen', ?_⟩
  rw [List.map_map, List.forall₂_map_right_iff, List.forall₂_same]
  exact fun e he => unchanged_turned_turned hK (hkeys e he) (hparsed.entries e he)

/-- The keys of `mixed`. -/
def mixedKeys : List DualKey := [⟨3, 4⟩, ⟨-1, 4⟩, ⟨5, 300⟩]

theorem forwards_twice_readMixed : ∃ got, (createFromArray .utf8 9 1
    (.wrap (packet sampleTask mixed))).1 = some (.ok got) ∧
      ∃ es es', Forwards .utf8 sampleTask got.entities es ∧ Forwards .utf8 sampleTask es es' ∧
        List.Forall₂ (Unchanged {key | key ∈ mixedKeys}) got.entities es' := by
  refine ⟨_, createFromArray_mixed, ?_⟩
  have htypes : WithinHalf (types {key | key ∈ mixedKeys}) := by
    refine ⟨4, ?_⟩
    rintro t ⟨n, hkey⟩
    have hall : ∀ key ∈ mixedKeys, 2 * (key.type - 4).toNat < 2 ^ 32 := by decide
    exact hall _ hkey
  have hnums : ∀ t, WithinHalf (nums {key | key ∈ mixedKeys} t) := by
    refine fun t => ⟨-1, ?_⟩
    rintro n hkey
    have hall : ∀ key ∈ mixedKeys, 2 * (key.num - -1).toNat < 2 ^ 32 := by decide
    exact hall _ hkey
  have hkeys : KeysIn {key | key ∈ mixedKeys} (obtained sampleTask 1 readMixed).entities := by
    have hall : ∀ e ∈ readMixed, ∀ p ∈ e.attributes.puts, p.1 ∈ mixedKeys := by decide +kernel
    exact hall
  exact forwards_twice createFromArray_mixed htypes hnums hkeys ⟨0, rfl⟩ ⟨0, rfl⟩
    (by decide +kernel) (by decide +kernel)

end Twice

end Client
end PeeledOrange
