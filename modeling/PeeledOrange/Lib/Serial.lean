import Mathlib.Data.Fintype.EquivFin
import Mathlib.Data.Fintype.Card
import Mathlib.Data.BitVec
import Mathlib.Order.WellFounded

/-!
# Numbers in a circle

The numbers of `w` bits are a circle, in which one number comes before another if the
signed difference of the two is negative.  This is no order of the whole circle: a
number and its opposite come before each other.  It is one of the numbers of a set just
if they all lie within half of the circle.

## Main definitions

* `Precedes` — one number comes before another.
* `WithinHalf` — a set lies within half of the circle.

## Main results

* `toInt_sub_eq` — within half of the circle, the signed difference is the difference.
* `withinHalf_iff` — **numbers are ordered just if they lie within half of the circle.**
-/

namespace Serial

variable {w : ℕ}

/-- One number comes before another. -/
def Precedes (a b : BitVec w) : Prop := (a - b).toInt < 0

/-- From some number on, less than half of the circle has to be gone through for all
numbers of the set. -/
def WithinHalf (T : Set (BitVec w)) : Prop := ∃ base, ∀ a ∈ T, 2 * (a - base).toNat < 2 ^ w

theorem not_precedes_self (a : BitVec w) : ¬Precedes a a := by
  rw [Precedes, BitVec.sub_self, BitVec.toInt_zero]
  exact Int.lt_irrefl 0

/-- Within half of the circle, the signed difference is the difference. -/
theorem toInt_sub_eq {a b base : BitVec w} (ha : 2 * (a - base).toNat < 2 ^ w)
    (hb : 2 * (b - base).toNat < 2 ^ w) :
    (a - b).toInt = (a - base).toNat - (b - base).toNat := by
  have hsub : a - b = (a - base) - (b - base) := (sub_sub_sub_cancel_right a b base).symm
  rw [hsub, BitVec.toInt_sub, BitVec.toInt_eq_toNat_of_lt ha, BitVec.toInt_eq_toNat_of_lt hb]
  generalize (a - base).toNat = x at *
  generalize (b - base).toNat = y at *
  have hcast : ((2 ^ w : ℕ) : ℤ) = 2 ^ w := by push_cast; rfl
  rw [Int.bmod_eq_of_le]
  · omega
  · omega

/-- Numbers that are ordered have a first one. -/
theorem exists_first {T : Set (BitVec w)} (hT : T.Nonempty)
    (htrans : ∀ a ∈ T, ∀ b ∈ T, ∀ c ∈ T, Precedes a b → Precedes b c → Precedes a c) :
    ∃ base ∈ T, ∀ a ∈ T, ¬Precedes a base := by
  have hfinite : Finite (BitVec w) :=
    Finite.of_injective BitVec.toFin fun _ _ h => BitVec.eq_of_toFin_eq h
  let before : T → T → Prop := fun a b => Precedes a.1 b.1
  have : IsTrans T before := ⟨fun a b c => htrans a a.2 b b.2 c c.2⟩
  have : Std.Irrefl before := ⟨fun a => not_precedes_self a.1⟩
  obtain ⟨x, hx⟩ := hT
  obtain ⟨base, -, hbase⟩ :=
    (Finite.wellFounded_of_trans_of_irrefl before).has_min Set.univ ⟨⟨x, hx⟩, trivial⟩
  exact ⟨base.1, base.2, fun a ha => hbase ⟨a, ha⟩ trivial⟩

/-- **Numbers are ordered just if they lie within half of the circle.** -/
theorem withinHalf_iff (T : Set (BitVec w)) : WithinHalf T ↔
    ∀ a ∈ T, ∀ b ∈ T, ∀ c ∈ T, Precedes a b → Precedes b c → Precedes a c := by
  constructor
  · rintro ⟨base, hbase⟩ a ha b hb c hc hab hbc
    rw [Precedes, toInt_sub_eq (hbase a ha) (hbase b hb)] at hab
    rw [Precedes, toInt_sub_eq (hbase b hb) (hbase c hc)] at hbc
    rw [Precedes, toInt_sub_eq (hbase a ha) (hbase c hc)]
    omega
  · intro htrans
    rcases T.eq_empty_or_nonempty with rfl | hT
    · exact ⟨0, fun a ha => ha.elim⟩
    · -- the first number is the one to start from
      obtain ⟨base, -, hbase⟩ := exists_first hT htrans
      refine ⟨base, fun a ha => ?_⟩
      have hnot := hbase a ha
      rw [Precedes, BitVec.toInt_neg_iff] at hnot
      omega

end Serial
