import Mathlib.Order.Lattice
import Mathlib.Data.List.Basic
import Mathlib.Data.List.Pairwise
import Mathlib.Tactic.SplitIfs

/-!
# Maps that are iterated in the order of their keys

A map as the list of its entries in strictly increasing order of the keys, which
is the order in which an iterator runs through it.  An iterator is the list of
entries from where it stands; the one past the last entry is the empty list.

## Main definitions

* `OrderedMap` — the entries, with their order.
* `find?`, `insert`, `filter`, `erase`, `map`, `modify` — the operations.
* `after?` — the iterator past the entry at a key.

## Main results

* `find?_eq_some_iff` — a key is found with the value it is listed with.
* `length_insert` — a new entry is one more.
* `find?_insert`, `find?_filter`, `find?_erase`, `find?_map`, `find?_modify` —
  **each operation, seen through `find?`.**
-/

/-- A map whose entries are listed in increasing order of the keys. -/
structure OrderedMap (κ β : Type) [LT κ] where
  entries : List (κ × β)
  sorted : entries.Pairwise fun a b => a.1 < b.1

namespace OrderedMap

variable {κ β γ : Type} [LinearOrder κ] (m : OrderedMap κ β) (k : κ)

@[ext] theorem ext {m m' : OrderedMap κ β} (h : m.entries = m'.entries) : m = m' := by
  cases m
  cases m'
  congr

instance [DecidableEq β] : DecidableEq (OrderedMap κ β) := fun m m' =>
  decidable_of_iff (m.entries = m'.entries) ⟨ext, congrArg entries⟩

/-- No entries. -/
def empty : OrderedMap κ β := ⟨[], List.Pairwise.nil⟩

/-- The value at a key. -/
def find? : Option β := (m.entries.find? fun e => e.1 == k).map Prod.snd

/-- Only the entries that satisfy `p`. -/
def filter (p : κ → β → Bool) : OrderedMap κ β :=
  ⟨m.entries.filter fun e => p e.1 e.2, m.sorted.filter _⟩

/-- Without the entry at `k`. -/
def erase : OrderedMap κ β := m.filter fun k' _ => k' != k

/-- Another value at each key. -/
def map (f : κ → β → γ) : OrderedMap κ γ :=
  ⟨m.entries.map fun e => (e.1, f e.1 e.2), m.sorted.map _ fun _ _ h => h⟩

/-- Another value at `k`, if there is one. -/
def modify (f : β → β) : OrderedMap κ β := m.map fun k' v => if k' = k then f v else v

/-- The value `v` at `k`, in place of the one there may be. -/
def insert (v : β) : OrderedMap κ β where
  entries := (m.entries.filter fun e => e.1 < k) ++ (k, v) :: m.entries.filter fun e => k < e.1
  sorted := by
    refine List.pairwise_append.mpr
      ⟨m.sorted.filter _, List.pairwise_cons.mpr ⟨?_, m.sorted.filter _⟩, ?_⟩
    · intro e he
      simpa using (List.mem_filter.mp he).2
    · intro e he e' he'
      have hlt : e.1 < k := by simpa using (List.mem_filter.mp he).2
      rcases List.mem_cons.mp he' with rfl | he'
      · exact hlt
      · exact lt_trans hlt (by simpa using (List.mem_filter.mp he').2)

/-- The iterator past the entry at `k`, if there is such an entry. -/
def after? : Option (List (κ × β)) :=
  (m.find? k).map fun _ => m.entries.filter fun e => k < e.1

/-! ### Keys and values -/

variable {m k}

/-- The entries at a key are one. -/
theorem eq_of_mem {v v' : β} (h : (k, v) ∈ m.entries) (h' : (k, v') ∈ m.entries) : v = v' := by
  by_contra hne
  have hkeys : m.entries.Pairwise fun a b => a.1 ≠ b.1 := m.sorted.imp fun hab => ne_of_lt hab
  have : Std.Symm fun a b : κ × β => a.1 ≠ b.1 := ⟨fun _ _ hab => hab.symm⟩
  exact hkeys.forall h h' (fun he => hne (Prod.mk.inj he).2) rfl

/-- A key is found with the value it is listed with. -/
theorem find?_eq_some_iff {v : β} : m.find? k = some v ↔ (k, v) ∈ m.entries := by
  unfold find?
  constructor
  · intro h
    obtain ⟨⟨k', v'⟩, he, rfl⟩ := Option.map_eq_some_iff.mp h
    obtain rfl : k' = k := by simpa using List.find?_some he
    exact List.mem_of_find?_eq_some he
  · intro h
    cases hf : m.entries.find? fun e => e.1 == k with
    | none => exact absurd (List.find?_eq_none.mp hf _ h) (by simp)
    | some e =>
      obtain ⟨k', v'⟩ := e
      obtain rfl : k' = k := by simpa using List.find?_some hf
      exact congrArg some (eq_of_mem (List.mem_of_find?_eq_some hf) h)

theorem find?_eq_none_iff : m.find? k = none ↔ ∀ v, (k, v) ∉ m.entries := by
  rw [Option.eq_none_iff_forall_ne_some]
  exact forall_congr' fun v => not_congr find?_eq_some_iff

/-- What is listed at a key determines what is found there. -/
theorem find?_congr {m : OrderedMap κ β} {o : Option β}
    (h : ∀ v, (k, v) ∈ m.entries ↔ o = some v) : m.find? k = o :=
  Option.ext fun v => find?_eq_some_iff.trans (h v)

/-! ### The operations, seen through the entries -/

theorem map_congr {f g : κ → β → γ} (h : ∀ e ∈ m.entries, f e.1 e.2 = g e.1 e.2) :
    m.map f = m.map g :=
  ext (List.map_congr_left fun e he => by rw [h e he])

theorem map_eq_self {f : κ → β → β} (h : ∀ e ∈ m.entries, f e.1 e.2 = e.2) : m.map f = m :=
  ext ((List.map_congr_left fun e he => congrArg (e.1, ·) (h e he)).trans m.entries.map_id)

theorem map_map {δ : Type} (f : κ → β → γ) (g : κ → γ → δ) :
    (m.map f).map g = m.map fun k v => g k (f k v) := ext (by simp [map])

theorem filter_eq_self {p : κ → β → Bool} (h : ∀ e ∈ m.entries, p e.1 e.2 = true) :
    m.filter p = m := ext (List.filter_eq_self.mpr h)

theorem filter_filter (p q : κ → β → Bool) :
    (m.filter p).filter q = m.filter fun k v => p k v && q k v :=
  ext (by simp [filter, Bool.and_comm])

/-- The iterator past an entry runs through the entries behind it. -/
theorem after?_eq_some {pre post : List (κ × β)} {v : β} (h : m.entries = pre ++ (k, v) :: post) :
    m.after? k = some post := by
  have hfind : m.find? k = some v := find?_eq_some_iff.mpr (by rw [h]; simp)
  have hsorted := m.sorted
  rw [h] at hsorted
  obtain ⟨-, hpost, hlt⟩ := List.pairwise_append.mp hsorted
  have hpre : (pre.filter fun e => k < e.1) = [] := List.filter_eq_nil_iff.mpr fun e he =>
    by simpa using le_of_lt (hlt e he _ List.mem_cons_self)
  have hpost' : (post.filter fun e => k < e.1) = post := List.filter_eq_self.mpr fun e he =>
    by simpa using (List.pairwise_cons.mp hpost).1 e he
  rw [after?, hfind, Option.map_some, h, List.filter_append, hpre,
    List.filter_cons_of_neg (by simp), hpost', List.nil_append]

/-! ### The operations, seen through `find?` -/

theorem find?_filter (p : κ → β → Bool) (k : κ) :
    (m.filter p).find? k = (m.find? k).filter (p k) := by
  refine find?_congr fun v => ?_
  rw [Option.filter_eq_some_iff, find?_eq_some_iff]
  exact List.mem_filter

theorem find?_erase (k k' : κ) : (m.erase k).find? k' = if k' = k then none else m.find? k' := by
  rw [erase, find?_filter]
  split_ifs with h
  · subst h
    cases m.find? k' <;> simp
  · cases m.find? k' <;> simp [h]

theorem find?_map (f : κ → β → γ) (k : κ) : (m.map f).find? k = (m.find? k).map (f k) := by
  refine find?_congr fun v => ?_
  rw [Option.map_eq_some_iff]
  constructor
  · intro h
    obtain ⟨⟨k', v'⟩, he, hkv⟩ := List.mem_map.mp h
    obtain ⟨rfl, rfl⟩ := Prod.mk.inj hkv
    exact ⟨v', find?_eq_some_iff.mpr he, rfl⟩
  · rintro ⟨v', hv', rfl⟩
    exact List.mem_map.mpr ⟨(k, v'), find?_eq_some_iff.mp hv', rfl⟩

theorem find?_modify (f : β → β) (k k' : κ) :
    (m.modify k f).find? k' = if k' = k then (m.find? k').map f else m.find? k' := by
  rw [modify, find?_map]
  split_ifs with h
  · rfl
  · simp

/-- An entry at a new key is one more. -/
theorem length_insert (v : β) (h : m.find? k = none) :
    (m.insert k v).entries.length = m.entries.length + 1 := by
  have hbehind : (m.entries.filter fun e => k < e.1) =
      m.entries.filter fun e => !decide (e.1 < k) := by
    refine List.filter_congr fun e he => ?_
    have hne : e.1 ≠ k := fun heq => find?_eq_none_iff.mp h e.2 (by rw [← heq]; exact he)
    rw [← decide_not, decide_eq_decide, not_lt]
    exact ⟨le_of_lt, fun hle => lt_of_le_of_ne hle hne.symm⟩
  have hsplit := List.length_eq_length_filter_add (l := m.entries) fun e => decide (e.1 < k)
  simp only [insert, List.length_append, List.length_cons, hbehind]
  omega

theorem find?_insert (k : κ) (v : β) (k' : κ) :
    (m.insert k v).find? k' = if k' = k then some v else m.find? k' := by
  refine find?_congr fun v' => ?_
  have hmem : (k', v') ∈ (m.insert k v).entries ↔
      (k' < k ∧ (k', v') ∈ m.entries) ∨ (k' = k ∧ v' = v) ∨ k < k' ∧ (k', v') ∈ m.entries := by
    simp [insert, and_comm]
  rw [hmem]
  split_ifs with h
  · subst h
    simp only [lt_irrefl, false_and, true_and, false_or, or_false, Option.some.injEq]
    exact eq_comm
  · rw [find?_eq_some_iff]
    rcases lt_or_gt_of_ne h with hlt | hgt
    · simp [h, hlt, lt_asymm hlt]
    · simp [h, hgt, lt_asymm hgt]

end OrderedMap
