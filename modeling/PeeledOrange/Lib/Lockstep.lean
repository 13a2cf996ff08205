import Mathlib.Data.Nat.Notation
import Mathlib.Data.Option.Basic

/-!
# Computations in lockstep

Two computations that are to be compared are run side by side: they agree if both throw,
whatever they throw, or if both have a result and these belong together.  What agrees may
be followed by what agrees, so that two programs of the same shape are compared one step
after the other.  Of loops that need not end, and need not take as many turns as each other,
one follows the other.

## Main definitions

* `Agree` — both computations throw, or their results belong together.
* `Leads` — the results of a computation that may run for any number of turns.
* `Follows` — a computation that comes to whatever another one comes to.
* `Paced` — two loops that go on, turn by turn, from states that belong together.

## Main results

* `Agree.bind` — **what agrees may be followed by what agrees.**
* `Follows.leads` — **what a computation that is followed comes to is come to.**
* `Paced.follows` — **of two loops that keep pace one follows the other.**
-/

namespace Lockstep

variable {ε α α' β β' : Type}

/-- Both computations throw, or both have results that belong together. -/
inductive Agree (R : α → α' → Prop) : Except ε α → Except ε α' → Prop
  | error (e e' : ε) : Agree R (.error e) (.error e')
  | ok {a : α} {a' : α'} (h : R a a') : Agree R (.ok a) (.ok a')

namespace Agree

variable {R : α → α' → Prop} {S : β → β' → Prop} {x : Except ε α} {x' : Except ε α'}

theorem of_error (h : ∃ e, x = .error e) (h' : ∃ e, x' = .error e) : Agree R x x' := by
  obtain ⟨e, rfl⟩ := h
  obtain ⟨e', rfl⟩ := h'
  exact .error e e'

/-- **What agrees may be followed by what agrees.** -/
theorem bind (h : Agree R x x') {f : α → Except ε β} {f' : α' → Except ε β'}
    (hf : ∀ a a', R a a' → Agree S (f a) (f' a')) : Agree S (x >>= f) (x' >>= f') := by
  cases h with
  | error e e' => exact .error e e'
  | ok h => exact hf _ _ h

/-- After the same computation. -/
theorem bind_same (x : Except ε α) {f : α → Except ε β} {f' : α → Except ε β'}
    (hf : ∀ a, Agree S (f a) (f' a)) : Agree S (x >>= f) (x >>= f') := by
  cases x with
  | error e => exact .error e e
  | ok a => exact hf a

theorem symm (h : Agree R x x') : Agree (flip R) x' x := by
  cases h with
  | error e e' => exact .error e' e
  | ok h => exact .ok h

theorem map (h : Agree R x x') {f : α → β} {f' : α' → β'} (hf : ∀ a a', R a a' → S (f a) (f' a')) :
    Agree S (x.map f) (x'.map f') := by
  cases h with
  | error e e' => exact .error e e'
  | ok h => exact .ok (hf _ _ h)

end Agree

/-! ### Any number of turns -/

/-- What the computation comes to, if it has turns enough. -/
def Leads (run : ℕ → Option (Except ε α)) (P : Except ε α → Prop) : Prop :=
  ∃ fuel r, run fuel = some r ∧ P r

/-- What the first computation comes to, the second one comes to as well, in as many turns as
it needs. -/
def Follows (R : α → α' → Prop) (run : ℕ → Option (Except ε α))
    (run' : ℕ → Option (Except ε α')) : Prop :=
  ∀ fuel r, run fuel = some r → ∃ fuel' r', run' fuel' = some r' ∧ Agree R r r'

namespace Follows

variable {R : α → α' → Prop} {S : β → β' → Prop} {run : ℕ → Option (Except ε α)}
  {run' : ℕ → Option (Except ε α')}

theorem of_error (h : ∀ fuel, ∃ e, run fuel = some (.error e))
    (h' : ∀ fuel, ∃ e, run' fuel = some (.error e)) : Follows R run run' := by
  intro fuel r hr
  obtain ⟨e, he⟩ := h fuel
  obtain ⟨e', he'⟩ := h' fuel
  rw [he] at hr
  cases hr
  exact ⟨fuel, _, he', .error e e'⟩

/-- What is made of results that belong together belongs together. -/
theorem map (h : Follows R run run') {f : α → β} {f' : α' → β'}
    (hf : ∀ a a', R a a' → S (f a) (f' a')) :
    Follows S (fun fuel => (run fuel).map fun r => r.map f)
      (fun fuel => (run' fuel).map fun r => r.map f') := by
  intro fuel r hr
  obtain ⟨r₁, hr₁, rfl⟩ := Option.map_eq_some_iff.mp hr
  obtain ⟨fuel', r', hr', hagree⟩ := h fuel r₁ hr₁
  exact ⟨fuel', _, Option.map_eq_some_iff.mpr ⟨r', hr', rfl⟩, hagree.map hf⟩

/-- **What a computation that is followed comes to is come to.** -/
theorem leads (h : Follows R run run') {P : Except ε α → Prop} {P' : Except ε α' → Prop}
    (hP : ∀ r r', Agree R r r' → P r → P' r') (hleads : Leads run P) : Leads run' P' := by
  obtain ⟨fuel, r, hr, hp⟩ := hleads
  obtain ⟨fuel', r', hr', hagree⟩ := h fuel r hr
  exact ⟨fuel', r', hr', hP r r' hagree hp⟩

end Follows

/-! ### Loops -/

section Paced

variable {σ σ' : Type} {R : α → α' → Prop} {run : σ → ℕ → Option (Except ε α)}
  {run' : σ' → ℕ → Option (Except ε α')} {I : σ → σ' → Prop} {s : σ} {s' : σ'}

/-- From states that belong together both loops come to results that do, or both go on to such
states with the next turn. -/
def Paced (R : α → α' → Prop) (run : σ → ℕ → Option (Except ε α))
    (run' : σ' → ℕ → Option (Except ε α')) (I : σ → σ' → Prop) : Prop :=
  ∀ s s', I s s' →
    (∃ r r', Agree R r r' ∧ (∃ k, run s k = some r) ∧ ∃ k, run' s' k = some r') ∨
      ∃ t t', I t t' ∧ (∀ k, run s (k + 1) = run t k) ∧ ∀ k, run' s' (k + 1) = run' t' k

theorem Paced.symm (h : Paced R run run' I) : Paced (flip R) run' run (flip I) := by
  intro s' s hI
  rcases h s s' hI with ⟨r, r', hagree, hr, hr'⟩ | ⟨t, t', ht, hrun, hrun'⟩
  · exact .inl ⟨r', r, hagree.symm, hr', hr⟩
  · exact .inr ⟨t', t, ht, hrun', hrun⟩

/-- **Of two loops that keep pace one follows the other**, if it comes to nothing without a turn,
and to the same in any number of turns. -/
theorem Paced.follows (h : Paced R run run' I) (hzero : ∀ s, run s 0 = none)
    (hsame : ∀ s k k' r r', run s k = some r → run s k' = some r' → r = r') (hI : I s s') :
    Follows R (run s) (run' s') := by
  intro fuel r hr
  induction fuel generalizing s s' with
  | zero => exact absurd ((hzero s).symm.trans hr) nofun
  | succ fuel ih =>
    rcases h s s' hI with ⟨r₁, r', hagree, ⟨k, hk⟩, k', hk'⟩ | ⟨t, t', ht, hrun, hrun'⟩
    · obtain rfl := hsame s _ _ _ _ hr hk
      exact ⟨k', r', hk', hagree⟩
    · obtain ⟨fuel', r', hr', hagree⟩ := ih ht ((hrun fuel).symm.trans hr)
      exact ⟨fuel' + 1, r', (hrun' fuel').trans hr', hagree⟩

end Paced

end Lockstep
