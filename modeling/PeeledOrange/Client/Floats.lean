import PeeledOrange.Client.RoundTrip
import PeeledOrange.Client.Sent
import Mathlib.Data.List.Forall2

/-!
# Floating-point numbers on the wire

The bytes of a floating-point number are stored with the most significant one first, the
second pass copies them as they are, and the parser reads them with the least significant
one first: a number comes back with its bytes in the other order.  Of a double nothing
comes back, since `setValue` has no branch for it.

## Main definitions

* `FloatsSurvive` — the floating-point numbers of a packet come back as they are.

## Main results

* `received_float` — what comes back of a number.
* `floatsSurvive_iff` — **the numbers of a packet come back as they are just if the bytes of
  each are the same in the other order.**
-/

namespace PeeledOrange
namespace Client

open Java

variable {utf8 : Charset}

/-- What is put for an attribute is under its key, and has its type and its bytes. -/
def Survives (a : Attribute) (put : DualKey × AttributeValue) : Prop :=
  put.1 = ⟨a.num, a.type⟩ ∧ put.2.valueType = a.value.valueType ∧
    put.2.value.array = a.value.value.array

/-- The value is a floating-point number. -/
def AttributeValue.IsFloat (av : AttributeValue) : Prop :=
  av.valueType = .f4 ∨ av.valueType = .f8

/-- A task is made of a packet, and the floating-point numbers among these attributes are
in it as they are. -/
def FloatsSurvive (utf8 : Charset) (es : List EntityL) (p : List UInt8) : Prop :=
  ∀ ID, ∃ least, ∀ fuel ≥ least, ∃ got,
    (createFromArray utf8 fuel ID (.wrap p)).1 = some (.ok got) ∧
      List.Forall₂ (fun e em => List.Forall₂ (fun a put => a.value.IsFloat → Survives a put)
        e.attributes em.attributes.puts) es got.entities

/-- The bytes of a number come back in the other order. -/
theorem received_float {av : AttributeValue} (h : Readable utf8 av) (hf4 : av.valueType = .f4) :
    (received utf8 av).valueType = .f4 ∧
      (received utf8 av).value.array = av.value.array.reverse := by
  cases h with
  | double v => cases hf4
  | made v =>
    cases v with
    | float v =>
      refine ⟨rfl, ?_⟩
      have hlen : (Bytes.bigEndian 4 v.toNat).length = 4 := by
        rw [Bytes.bigEndian, List.length_reverse, Bytes.length_littleEndian]
      have hnat : (BitVec.ofNat 32 (Bytes.toNat (Bytes.bigEndian 4 v.toNat))).toNat =
          Bytes.toNat (Bytes.bigEndian 4 v.toNat) := by
        have hlt := Bytes.toNat_lt (Bytes.bigEndian 4 v.toNat)
        rw [hlen] at hlt
        exact Nat.mod_eq_of_lt hlt
      have hbytes := Bytes.littleEndian_toNat (Bytes.bigEndian 4 v.toNat)
      rw [hlen] at hbytes
      show Bytes.bigEndian 4 (BitVec.ofNat 32 (Bytes.toNat (Bytes.bigEndian 4 v.toNat))).toNat =
        (Bytes.bigEndian 4 v.toNat).reverse
      rw [hnat, Bytes.bigEndian, hbytes]
    | byte v => cases hf4
    | short v => cases hf4
    | integer v => cases hf4
    | long v => cases hf4
    | double v => cases hf4
    | string v => cases hf4
    | byteBuffer v => cases hf4

/-- What comes back of a double is an integer. -/
theorem received_double {av : AttributeValue} (hf8 : av.valueType = .f8) :
    (received utf8 av).valueType = .i32 := by
  rw [received, hf8]
  rfl

theorem survives_received_iff {a : Attribute} (h : Readable utf8 a.value) :
    (a.value.IsFloat → Survives a (⟨a.num, a.type⟩, received utf8 a.value)) ↔
      a.value.valueType ≠ .f8 ∧
        (a.value.valueType = .f4 → a.value.value.array.reverse = a.value.value.array) := by
  constructor
  · intro hsurvives
    refine ⟨fun hf8 => ?_, fun hf4 => ?_⟩
    · obtain ⟨-, htype, -⟩ := hsurvives (.inr hf8)
      rw [received_double hf8, hf8] at htype
      cases htype
    · obtain ⟨-, -, harray⟩ := hsurvives (.inl hf4)
      rwa [(received_float h hf4).2] at harray
  · rintro ⟨hf8, hf4⟩ (hfloat | hdouble)
    · obtain ⟨htype, harray⟩ := received_float h hfloat
      exact ⟨rfl, htype.trans hfloat.symm, harray.trans (hf4 hfloat)⟩
    · exact absurd hdouble hf8

theorem entities_survive_iff {es : List EntityL}
    (hes : ∀ e ∈ es, ∀ a ∈ e.attributes, Readable utf8 a.value) :
    List.Forall₂ (fun (e : EntityL) (em : EntityM) =>
        List.Forall₂ (fun a put => a.value.IsFloat → Survives a put) e.attributes
          em.attributes.puts)
      es (es.map (EntityL.received utf8)) ↔
      ∀ e ∈ es, ∀ a ∈ e.attributes, a.value.valueType ≠ .f8 ∧
        (a.value.valueType = .f4 → a.value.value.array.reverse = a.value.value.array) := by
  rw [List.forall₂_map_right_iff, List.forall₂_same]
  refine forall₂_congr fun e he => ?_
  rw [EntityL.received_eq_puts, List.forall₂_map_right_iff, List.forall₂_same]
  exact forall₂_congr fun a ha => survives_received_iff (hes e he a ha)

/-- If all numbers come back as they are, their bytes are the same in the other order. -/
theorem reverse_eq_of_floatsSurvive {task : EavTask} {es : List EntityL}
    (hid : Issued task.packetID) (hes : ∀ e ∈ es, ∀ a ∈ e.attributes, Readable utf8 a.value)
    (hlen : (packet task es).length < 2 ^ 31) (h : FloatsSurvive utf8 es (packet task es)) :
    (packet task es).length < 2 ^ 31 - 1 ∧ ∀ e ∈ es, ∀ a ∈ e.attributes, a.value.valueType ≠ .f8 ∧
      (a.value.valueType = .f4 → a.value.value.array.reverse = a.value.value.array) := by
  obtain ⟨least, hleast⟩ := h 1
  have hshort : (packet task es).length < 2 ^ 31 - 1 := by
    -- a longer packet is no packet, and one of that length is not read to its end
    refine Nat.lt_of_le_of_ne (by omega) fun hlongest => ?_
    obtain ⟨got, hgot, -⟩ := hleast (least + 1 + turns es) (by omega)
    rw [createFromArray_longest hid hes hlongest] at hgot
    exact nomatch hgot
  obtain ⟨got, hgot, hentities⟩ := hleast (least + (turns es + 1)) (by omega)
  rw [createFromArray_eq hid hes hshort 1 (by omega)] at hgot
  obtain rfl := Except.ok.inj (Option.some.inj hgot)
  exact ⟨hshort, (entities_survive_iff hes).mp hentities⟩

/-- **The floating-point numbers of a packet come back as they are** just if the packet is
shorter than `2 ^ 31 - 1` bytes, there is no double, and the bytes of each number are the
same in the other order. -/
theorem floatsSurvive_iff {task : EavTask} {es : List EntityL} {p : List UInt8}
    (hid : Issued task.packetID) (hes : ∀ e ∈ es, ∀ a ∈ e.attributes, Readable utf8 a.value)
    (h : Sent task es p) :
    FloatsSurvive utf8 es p ↔
      p.length < 2 ^ 31 - 1 ∧ ∀ e ∈ es, ∀ a ∈ e.attributes, a.value.valueType ≠ .f8 ∧
        (a.value.valueType = .f4 → a.value.value.array.reverse = a.value.value.array) := by
  have hlen := h.length_lt
  obtain rfl := h.eq_packet
  refine ⟨reverse_eq_of_floatsSurvive hid hes hlen, ?_⟩
  rintro ⟨hshort, hentities⟩ ID
  exact ⟨turns es + 1, fun fuel hfuel =>
    ⟨_, createFromArray_eq hid hes hshort ID hfuel, (entities_survive_iff hes).mpr hentities⟩⟩

/-- An entity with this number for its attribute. -/
def float (v : BitVec 32) : List EntityL := [⟨1, 2, [⟨3, 4, setValue .utf8 (.float v)⟩]⟩]

theorem readable_float (v : BitVec 32) : ∀ e ∈ float v, ∀ a ∈ e.attributes,
    Readable .utf8 a.value := by
  intro e he a ha
  obtain rfl := List.mem_singleton.mp he
  obtain rfl := List.mem_singleton.mp ha
  exact .made (.float v)

/-- Zero comes back as it is. -/
theorem floatsSurvive_zero : FloatsSurvive .utf8 (float 0) (packet sampleTask (float 0)) := by
  have hsent : Sent sampleTask (float 0) (packet sampleTask (float 0)) :=
    .of_packet (fun e he a ha => (readable_float 0 e he a ha).storable) (by decide +kernel)
  refine (floatsSurvive_iff ⟨0, rfl⟩ (readable_float 0) hsent).mpr ⟨by decide +kernel, ?_⟩
  intro e he a ha
  obtain rfl := List.mem_singleton.mp he
  obtain rfl := List.mem_singleton.mp ha
  exact ⟨by decide, fun _ => rfl⟩

/-- One does not. -/
theorem not_floatsSurvive_one :
    Issued sampleTask.packetID ∧
    Sent sampleTask (float 0x3F800000) (packet sampleTask (float 0x3F800000)) ∧
      ¬FloatsSurvive .utf8 (float 0x3F800000) (packet sampleTask (float 0x3F800000)) := by
  have hsent : Sent sampleTask (float 0x3F800000) (packet sampleTask (float 0x3F800000)) :=
    .of_packet (fun e he a ha => (readable_float _ e he a ha).storable) (by decide +kernel)
  refine ⟨⟨0, rfl⟩, hsent, fun hsurvives => ?_⟩
  obtain ⟨-, hall⟩ :=
    reverse_eq_of_floatsSurvive ⟨0, rfl⟩ (readable_float _) hsent.length_lt hsurvives
  obtain ⟨-, hreverse⟩ := hall _ (List.mem_singleton.mpr rfl) _ (List.mem_singleton.mpr rfl)
  exact absurd (hreverse rfl) (by decide)

end Client
end PeeledOrange
