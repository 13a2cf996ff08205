import PeeledOrange.Lib.RedBlack
import PeeledOrange.Lib.Serial
import PeeledOrange.Client.Eav

/-!
# Keys of attributes

An `AttributesMap` is a tree of keys, which `compareTo` compares by the differences of
their types and numbers.  A difference of two `int`s may be too large for an `int`, and
has the wrong sign then.  Among keys that are far enough apart the tree is not in order,
and an attribute that has been put may not be found.

## Main definitions

* `DualKey.compareTo`, `DualKey.equals` — how keys are compared.
* `AttributesMap.tree`, `AttributesMap.get` — a map, and what is found in it.
* `SameEntities` — entities with the same entries in their maps.
* `KeysOrdered` — what a tree asks of its keys, and what it gives for that.

## Main results

* `orders_of_withinHalf`, `withinHalf_of_orders` — keys whose types, and whose numbers of
  each type, lie within half of the circle of all `int`s are those that are ordered.
* `keysOrdered_iff` — **attributes are found just under such keys.**
-/

namespace PeeledOrange
namespace Client

open RedBlack Serial

/-- `compareTo`. -/
def DualKey.compareTo (key o : DualKey) : BitVec 32 :=
  if key.type = o.type then key.num - o.num else key.type - o.type

/-- `equals`, for a key. -/
def DualKey.equals (key o : DualKey) : Bool := key.num = o.num ∧ key.type = o.type

/-- What a tree asks for: the sign of the `int`. -/
def compareKeys (key o : DualKey) : ℤ := (key.compareTo o).toInt

/-- The tree of a map. -/
def AttributesMap.tree (m : AttributesMap) : Tree DualKey AttributeValue :=
  ofPuts compareKeys m.puts

/-- `get`. -/
def AttributesMap.get (m : AttributesMap) (key : DualKey) : Option AttributeValue :=
  RedBlack.get compareKeys key m.tree

/-- What an entity holds: its number, its type and the entries of its map. -/
def EntityM.content (e : EntityM) : BitVec 32 × BitVec 32 × List (DualKey × AttributeValue) :=
  (e.num, e.type, entries e.attributes.tree)

/-- The entities hold the same, whatever has been put into their maps for it. -/
def SameEntities (es es' : List EntityM) : Prop :=
  es.map EntityM.content = es'.map EntityM.content

/-- Keys are totally ordered, and attributes that have been put are found under them. -/
structure KeysOrdered (K : Set DualKey) : Prop where
  sign : ∀ a ∈ K, ∀ b ∈ K, (a.compareTo b).toInt.sign = -(b.compareTo a).toInt.sign
  trans : ∀ a ∈ K, ∀ b ∈ K, ∀ c ∈ K, (a.compareTo b).toInt < 0 → (b.compareTo c).toInt < 0 →
    (a.compareTo c).toInt < 0
  equals : ∀ a ∈ K, ∀ b ∈ K, (a.compareTo b).toInt = 0 ↔ a.equals b = true
  found : ∀ m : AttributesMap, (∀ e ∈ m.puts, e.1 ∈ K) → ∀ key ∈ K,
    m.get key = lastPut m.puts key

/-- The types of keys. -/
def types (K : Set DualKey) : Set (BitVec 32) := {t | ∃ n, ⟨n, t⟩ ∈ K}

/-- The numbers of keys of a type. -/
def nums (K : Set DualKey) (t : BitVec 32) : Set (BitVec 32) := {n | ⟨n, t⟩ ∈ K}

variable {K : Set DualKey}

/-! ### Entities that hold the same -/

theorem SameEntities.of_eq {es es' : List EntityM} (h : es = es') : SameEntities es es' :=
  congrArg _ h

theorem SameEntities.symm {es es' : List EntityM} (h : SameEntities es es') :
    SameEntities es' es := Eq.symm h

theorem SameEntities.trans {es es' es'' : List EntityM} (h : SameEntities es es')
    (h' : SameEntities es' es'') : SameEntities es es'' := Eq.trans h h'

theorem SameEntities.length_eq {es es' : List EntityM} (h : SameEntities es es') :
    es.length = es'.length := by
  have hlength := congrArg List.length h
  rwa [List.length_map, List.length_map] at hlength

/-- The last of the entities decides if the others are the same. -/
theorem sameEntities_append_iff (es : List EntityM) (e e' : EntityM) :
    SameEntities (es ++ [e]) (es ++ [e']) ↔ e.content = e'.content := by
  rw [SameEntities, List.map_append, List.map_append, List.append_cancel_left_eq,
    List.map_singleton, List.map_singleton, List.singleton_inj]

/-! ### Comparing keys -/

theorem compareKeys_of_eq {a b : DualKey} (h : a.type = b.type) :
    compareKeys a b = (a.num - b.num).toInt := by
  rw [compareKeys, DualKey.compareTo, if_pos h]

theorem compareKeys_of_ne {a b : DualKey} (h : a.type ≠ b.type) :
    compareKeys a b = (a.type - b.type).toInt := by
  rw [compareKeys, DualKey.compareTo, if_neg h]

theorem toInt_sub_eq_zero_iff (x y : BitVec 32) : (x - y).toInt = 0 ↔ x = y := by
  rw [← BitVec.toInt_zero, BitVec.toInt_inj]
  exact sub_eq_zero

theorem compareKeys_eq_zero_iff (a b : DualKey) : compareKeys a b = 0 ↔ a = b := by
  by_cases htype : a.type = b.type
  · rw [compareKeys_of_eq htype, toInt_sub_eq_zero_iff]
    constructor
    · intro hnum
      obtain ⟨n, t⟩ := a
      cases hnum
      cases htype
      rfl
    · exact congrArg DualKey.num
  · rw [compareKeys_of_ne htype, toInt_sub_eq_zero_iff]
    exact ⟨fun h => absurd h htype, congrArg DualKey.type⟩

/-- A key comes before those of a type that comes after its own. -/
theorem compareKeys_of_precedes {t t' : BitVec 32} (h : Precedes t t') (n n' : BitVec 32) :
    compareKeys ⟨n, t⟩ ⟨n', t'⟩ < 0 := by
  have hne : t ≠ t' := by
    rintro rfl
    exact not_precedes_self t h
  rw [@compareKeys_of_ne ⟨n, t⟩ ⟨n', t'⟩ hne]
  exact h

theorem equals_iff (a b : DualKey) : a.equals b = true ↔ a = b := by
  obtain ⟨n, t⟩ := a
  obtain ⟨n', t'⟩ := b
  simp [DualKey.equals]

/-- **Within half of the circle, keys are ordered.** -/
theorem orders_of_withinHalf (htypes : WithinHalf (types K)) (hnums : ∀ t, WithinHalf (nums K t)) :
    Orders compareKeys K := by
  obtain ⟨t₀, ht₀⟩ := htypes
  choose n₀ hn₀ using hnums
  -- the difference of two keys is that of their distances from the first ones
  have htype : ∀ a ∈ K, ∀ b ∈ K, a.type ≠ b.type →
      compareKeys a b = (a.type - t₀).toNat - (b.type - t₀).toNat := by
    intro a ha b hb hne
    rw [compareKeys_of_ne hne]
    exact toInt_sub_eq (ht₀ _ ⟨_, ha⟩) (ht₀ _ ⟨_, hb⟩)
  have hnum : ∀ a ∈ K, ∀ b ∈ K, a.type = b.type →
      compareKeys a b = (a.num - n₀ a.type).toNat - (b.num - n₀ b.type).toNat := by
    intro a ha b hb heq
    have hb' : b.num ∈ nums K a.type := by
      rw [heq]
      exact hb
    rw [compareKeys_of_eq heq, ← heq]
    exact toInt_sub_eq (hn₀ _ _ ha) (hn₀ _ _ hb')
  refine ⟨?_, ?_, fun a _ b _ => compareKeys_eq_zero_iff a b⟩
  · intro a ha b hb
    have hneg : compareKeys a b = -compareKeys b a := by
      by_cases heq : a.type = b.type
      · rw [hnum a ha b hb heq, hnum b hb a ha heq.symm, neg_sub]
      · rw [htype a ha b hb heq, htype b hb a ha (Ne.symm heq), neg_sub]
    rw [hneg, Int.sign_neg]
  · intro a ha b hb c hc hab hbc
    by_cases hab' : a.type = b.type
    · by_cases hbc' : b.type = c.type
      · rw [hnum a ha b hb hab'] at hab
        rw [hnum b hb c hc hbc'] at hbc
        rw [hnum a ha c hc (hab'.trans hbc')]
        omega
      · rw [htype b hb c hc hbc'] at hbc
        rw [htype a ha c hc (by rwa [hab']), hab']
        exact hbc
    · rw [htype a ha b hb hab'] at hab
      by_cases hbc' : b.type = c.type
      · rw [htype a ha c hc (by rwa [← hbc']), ← hbc']
        exact hab
      · rw [htype b hb c hc hbc'] at hbc
        have hne : a.type ≠ c.type := by
          intro heq
          rw [heq] at hab
          omega
        rw [htype a ha c hc hne]
        omega

/-- **Keys that are ordered lie within half of the circle.** -/
theorem withinHalf_of_orders
    (htrans : ∀ a ∈ K, ∀ b ∈ K, ∀ c ∈ K, compareKeys a b < 0 → compareKeys b c < 0 →
      compareKeys a c < 0) :
    WithinHalf (types K) ∧ ∀ t, WithinHalf (nums K t) := by
  have hself : ∀ a : DualKey, ¬compareKeys a a < 0 := fun a => by
    rw [(compareKeys_eq_zero_iff a a).mpr rfl]
    exact Int.lt_irrefl 0
  constructor
  · rw [withinHalf_iff]
    rintro t ⟨n, ha⟩ t' ⟨n', hb⟩ t'' ⟨n'', hc⟩ h h'
    have hab := compareKeys_of_precedes h n n'
    by_cases heq : t = t''
    · -- the two types would come before each other
      subst heq
      have hba := compareKeys_of_precedes h' n' n
      exact absurd (htrans _ ha _ hb _ ha hab hba) (hself _)
    · have hac := htrans _ ha _ hb _ hc hab (compareKeys_of_precedes h' n' n'')
      rwa [@compareKeys_of_ne ⟨n, t⟩ ⟨n'', t''⟩ heq] at hac
  · intro t
    rw [withinHalf_iff]
    intro n ha n' hb n'' hc h h'
    have hac := htrans ⟨n, t⟩ ha ⟨n', t⟩ hb ⟨n'', t⟩ hc
    simp only [compareKeys_of_eq] at hac
    exact hac h h'

/-- **Attributes are found just under keys whose types, and whose numbers of each type, lie
within half of the circle.** -/
theorem keysOrdered_iff (K : Set DualKey) :
    KeysOrdered K ↔ WithinHalf (types K) ∧ ∀ t, WithinHalf (nums K t) := by
  constructor
  · intro h
    exact withinHalf_of_orders h.trans
  · rintro ⟨htypes, hnums⟩
    have horders := orders_of_withinHalf htypes hnums
    exact {
      sign := horders.sign
      trans := horders.trans
      equals := fun a _ b _ => (compareKeys_eq_zero_iff a b).trans (equals_iff a b).symm
      found := fun m hm key hkey => get_ofPuts horders hm hkey }

/-- A map of three attributes, whose keys are too far apart. -/
def lostMap : AttributesMap :=
  (((⟨[]⟩ : AttributesMap).put ⟨5, 0⟩ (setValue .utf8 (.byte 1))).put
    ⟨0, 0x80000000⟩ (setValue .utf8 (.byte 2))).put ⟨3, 0⟩ (setValue .utf8 (.byte 3))

/-- Two keys come before each other, three in a circle, and of three attributes that have
been put the first is not found. -/
theorem not_keysOrdered_univ :
    (DualKey.compareTo ⟨0, 0⟩ ⟨0, 0x80000000⟩).toInt < 0 ∧
      (DualKey.compareTo ⟨0, 0x80000000⟩ ⟨0, 0⟩).toInt < 0 ∧
      (DualKey.compareTo ⟨0, 0⟩ ⟨0x60000000, 0⟩).toInt < 0 ∧
      (DualKey.compareTo ⟨0x60000000, 0⟩ ⟨0xC0000000, 0⟩).toInt < 0 ∧
      (DualKey.compareTo ⟨0xC0000000, 0⟩ ⟨0, 0⟩).toInt < 0 ∧
      lostMap.get ⟨5, 0⟩ = none ∧ ¬KeysOrdered Set.univ := by
  refine ⟨by decide, by decide, by decide, by decide, by decide, rfl, fun h => ?_⟩
  have hsame := h.sign ⟨0, 0⟩ trivial ⟨0, 0x80000000⟩ trivial
  exact absurd hsame (by decide)

end Client
end PeeledOrange
