import Mathlib.Init

/-!
# Computations that leave a trace

A computation that may throw, together with what it has accessed until it ended.  To say
of a program that it accesses only what it may, its operations are replaced by ones that
leave a trace; without the trace they are the same program.

## Main definitions

* `Traced` — a result, and what has been accessed for it.
* `Traced.Sound` — only what is allowed is accessed, and only what is allowed is thrown.

## Main results

* `Traced.result_bind` — without the trace, one computation after another.
* `Traced.sound_bind` — **one computation after another is sound just if the first is, and
  the second is for what the first one returns.**
-/

/-- What a computation has accessed, and what it has come to. -/
structure Traced (ι ε α : Type) where
  trace : List ι
  result : Except ε α

namespace Traced

variable {ι ε α β : Type}

instance : Monad (Traced ι ε) where
  pure a := ⟨[], .ok a⟩
  bind x f :=
    match x.result with
    | .ok a => ⟨x.trace ++ (f a).trace, (f a).result⟩
    | .error e => ⟨x.trace, .error e⟩

/-- An access, and what comes of it. -/
def access (i : ι) (result : Except ε α) : Traced ι ε α := ⟨[i], result⟩

/-- What is done without an access. -/
def lift (result : Except ε α) : Traced ι ε α := ⟨[], result⟩

/-! ### Without the trace -/

@[simp] theorem result_access (i : ι) (r : Except ε α) : (access i r).result = r := rfl

@[simp] theorem result_lift (r : Except ε α) : (lift r : Traced ι ε α).result = r := rfl

@[simp] theorem result_bind (x : Traced ι ε α) (f : α → Traced ι ε β) :
    (x >>= f).result = x.result >>= fun a => (f a).result := by
  obtain ⟨trace, result⟩ := x
  cases result with
  | error e => rfl
  | ok a => rfl

@[simp] theorem result_ite {c : Prop} [Decidable c] (x y : Traced ι ε α) :
    (if c then x else y).result = if c then x.result else y.result :=
  apply_ite result c x y

/-! ### What may be accessed -/

section Sound

variable (P : ι → Prop) (E : ε → Prop)

/-- Only this is accessed, and only this is thrown. -/
def Sound (x : Traced ι ε α) : Prop := (∀ i ∈ x.trace, P i) ∧ ∀ e, x.result = .error e → E e

variable {P E}

@[simp] theorem sound_pure (a : α) : (pure a : Traced ι ε α).Sound P E :=
  ⟨by simp [pure], by simp⟩

theorem sound_access_iff {i : ι} {r : Except ε α} :
    (access i r).Sound P E ↔ P i ∧ ∀ e, r = .error e → E e := by
  simp only [Sound, access, List.forall_mem_singleton]

theorem sound_lift_iff {r : Except ε α} :
    (lift r : Traced ι ε α).Sound P E ↔ ∀ e, r = .error e → E e := by
  simp [Sound, lift]

/-- One computation after another. -/
theorem sound_bind {x : Traced ι ε α} {f : α → Traced ι ε β} :
    (x >>= f).Sound P E ↔ x.Sound P E ∧ ∀ a, x.result = .ok a → (f a).Sound P E := by
  obtain ⟨trace, result⟩ := x
  cases result with
  | error e => simp [Sound, bind]
  | ok a =>
    simp only [Sound, bind, List.forall_mem_append]
    constructor
    · rintro ⟨⟨hx, hf⟩, hr⟩
      refine ⟨⟨hx, by simp⟩, ?_⟩
      rintro _ ⟨⟩
      exact ⟨hf, hr⟩
    · rintro ⟨⟨hx, -⟩, hall⟩
      obtain ⟨hf, hr⟩ := hall a rfl
      exact ⟨⟨hx, hf⟩, hr⟩

end Sound

end Traced
