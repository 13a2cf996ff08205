import Mathlib.Data.Nat.Notation

/-!
# Runs with their history

A run of a system is a sequence of steps, each of which handles one input.  What a
run has come through is its history: the inputs, each with the state in which it was
handled.  An invariant says what holds in every state of every run; a *defect* is
something that a state has once and for all as soon as an input of a certain kind
has been handled, so that the inputs of a history decide whether a state has it.

## Main definitions

* `History.Run` — a run, with its history.
* `History.Since` — something has happened, and nothing since then but this.

## Main results

* `Run.invariant` — what each step keeps holds in every state.
* `Run.iff_forall` — **a property that inputs of one kind keep, and those of the other
  kind spoil for good, holds if and only if the history has no input of the other
  kind.**
* `Run.forall_iff` — a property holds all along a run if and only if every input is one
  after which it holds.
* `Run.countP_add_le` — **there are as many inputs that bring a rank down as it allows.**
-/

namespace History

variable {σ ι : Type} (Step : σ → ι → σ → Prop)

/-- A run from a state, with its history. -/
inductive Run (s₀ : σ) : List (σ × ι) → σ → Prop
  | start : Run s₀ [] s₀
  | step {hist : List (σ × ι)} {s s' : σ} (i : ι) :
      Run s₀ hist s → Step s i s' → Run s₀ (hist ++ [(s, i)]) s'

variable {Step} {s₀ s : σ} {hist : List (σ × ι)}

namespace Run

/-- What each step keeps holds in every state. -/
theorem invariant {Inv : σ → Prop} (hstep : ∀ s i s', Inv s → Step s i s' → Inv s')
    (h : Run Step s₀ hist s) (h₀ : Inv s₀) : Inv s := by
  induction h with
  | start => exact h₀
  | step i _ hs ih => exact hstep _ i _ ih hs

/-- A property that good inputs keep and bad inputs spoil for good. -/
theorem iff_forall (P Inv Spoilt : σ → Prop) (Good : σ → ι → Prop)
    (hinv : ∀ s i s', Inv s → Step s i s' → Inv s')
    (hgood : ∀ s i s', Inv s → P s → Good s i → Step s i s' → P s')
    (hbad : ∀ s i s', Inv s → ¬Good s i → Step s i s' → Spoilt s')
    (hkeep : ∀ s i s', Inv s → Spoilt s → Step s i s' → Spoilt s')
    (hnot : ∀ s, Spoilt s → ¬P s)
    (h : Run Step s₀ hist s) (h₀ : Inv s₀) (hP : P s₀) :
    P s ↔ ∀ e ∈ hist, Good e.1 e.2 := by
  -- either every input so far was good, or the state is spoilt
  have hcases : ((∀ e ∈ hist, Good e.1 e.2) ∧ P s) ∨
      ((∃ e ∈ hist, ¬Good e.1 e.2) ∧ Spoilt s) := by
    induction h with
    | start => exact .inl ⟨nofun, hP⟩
    | @step hist s s' i hrun hs ih =>
      have hs₀ := invariant hinv hrun h₀
      rcases ih with ⟨hall, hp⟩ | ⟨⟨e, he, hbad'⟩, hspoilt⟩
      · by_cases hg : Good s i
        · refine .inl ⟨fun e he => ?_, hgood s i s' hs₀ hp hg hs⟩
          rcases List.mem_append.mp he with he | he
          · exact hall e he
          · obtain rfl := List.mem_singleton.mp he
            exact hg
        · exact .inr ⟨⟨(s, i), List.mem_append_right _ List.mem_cons_self, hg⟩,
            hbad s i s' hs₀ hg hs⟩
      · exact .inr ⟨⟨e, List.mem_append_left _ he, hbad'⟩, hkeep s i s' hs₀ hspoilt hs⟩
  rcases hcases with ⟨hall, hp⟩ | ⟨⟨e, he, hbad'⟩, hspoilt⟩
  · exact iff_of_true hp hall
  · exact iff_of_false (hnot s hspoilt) fun hall => hbad' (hall e he)

/-- A property that holds after an input if and only if the input is good. -/
theorem forall_iff (P Inv : σ → Prop) (Good : σ → ι → Prop)
    (hinv : ∀ s i s', Inv s → Step s i s' → Inv s')
    (hstep : ∀ s i s', Inv s → P s → Step s i s' → (P s' ↔ Good s i))
    (h : Run Step s₀ hist s) (h₀ : Inv s₀) (hP : P s₀) :
    ((∀ e ∈ hist, P e.1) ∧ P s) ↔ ∀ e ∈ hist, Good e.1 e.2 := by
  induction h with
  | start => exact ⟨fun _ => nofun, fun _ => ⟨nofun, hP⟩⟩
  | @step hist s s' i hrun hs ih =>
    have hs₀ := invariant hinv hrun h₀
    simp only [List.forall_mem_append, List.forall_mem_singleton]
    rw [← ih]
    constructor
    · rintro ⟨hall, hp'⟩
      exact ⟨hall, (hstep s i s' hs₀ hall.2 hs).mp hp'⟩
    · rintro ⟨hall, hgood⟩
      exact ⟨hall, (hstep s i s' hs₀ hall.2 hs).mpr hgood⟩

/-- As long as `Q`, which does not come back once it is lost, each of some inputs takes one
from a rank, and no input adds to it. -/
theorem countP_add_le (P : σ × ι → Bool) (rank : σ → ℕ) (Inv Q : σ → Prop)
    (hinv : ∀ s i s', Inv s → Step s i s' → Inv s')
    (hback : ∀ s i s', Inv s → Q s' → Step s i s' → Q s)
    (h : Run Step s₀ hist s) (h₀ : Inv s₀)
    (hstep : ∀ s i s', (s, i) ∈ hist → Inv s → Q s → Q s' → Step s i s' →
      rank s' + (if P (s, i) then 1 else 0) ≤ rank s) (hQ : Q s) :
    hist.countP P + rank s ≤ rank s₀ := by
  induction h with
  | start => simp
  | @step hist s s' i hrun hs ih =>
    have hs₀ := invariant hinv hrun h₀
    have hQs := hback s i s' hs₀ hQ hs
    have hpaid := hstep s i s' (List.mem_append_right _ List.mem_cons_self) hs₀ hQs hQ hs
    have hbefore := ih (fun s i s' he => hstep s i s' (List.mem_append_left _ he)) hQs
    rw [List.countP_append, List.countP_singleton]
    omega

theorem eq_of_nil (h : Run Step s₀ hist s) (hnil : hist = []) : s = s₀ := by
  cases h with
  | start => rfl
  | step _ _ _ => exact absurd hnil (List.append_ne_nil_of_right_ne_nil _ (List.cons_ne_nil _ _))

/-- A history begins with the state that its run begins with. -/
theorem fst_head (h : Run Step s₀ hist s) : ∀ e ∈ hist.head?, e.1 = s₀ := by
  induction h with
  | start => exact fun e he => by cases he
  | @step hist s s' i hrun hs ih =>
    cases hist with
    | nil =>
      intro e he
      obtain rfl := Option.some.inj he
      exact eq_of_nil hrun rfl
    | cons e hist => exact ih

/-- Runs are put one after the other. -/
theorem append {hist' : List (σ × ι)} {s' : σ} (h : Run Step s₀ hist s)
    (h' : Run Step s hist' s') : Run Step s₀ (hist ++ hist') s' := by
  induction h' with
  | start => rwa [List.append_nil]
  | step i _ hs ih =>
    rw [← List.append_assoc]
    exact ih.step i hs

end Run

section Since

variable {P : List ι → ι → Prop} {Q : ι → Prop} {l : List ι} {i : ι}

/-- There has been an input with `P`, which may depend on those before it, and since then
only such with `Q`. -/
def Since (P : List ι → ι → Prop) (Q : ι → Prop) (l : List ι) : Prop :=
  ∃ pre i post, l = pre ++ i :: post ∧ P pre i ∧ ∀ j ∈ post, Q j

theorem not_since_nil : ¬Since P Q [] := by
  rintro ⟨pre, i, post, h, -⟩
  exact List.append_ne_nil_of_right_ne_nil pre (List.cons_ne_nil i post) h.symm

/-- What comes last decides, or leaves it as it was. -/
theorem since_append_singleton : Since P Q (l ++ [i]) ↔ P l i ∨ Q i ∧ Since P Q l := by
  constructor
  · rintro ⟨pre, j, post, h, hP, hQ⟩
    obtain rfl | ⟨post, k, rfl⟩ := post.eq_nil_or_concat
    · obtain ⟨rfl, rfl⟩ := List.append_singleton_inj.mp h
      exact .inl hP
    · rw [List.concat_eq_append, ← List.cons_append, ← List.append_assoc] at h
      obtain ⟨rfl, rfl⟩ := List.append_singleton_inj.mp h
      rw [List.concat_eq_append, List.forall_mem_append] at hQ
      exact .inr ⟨hQ.2 i List.mem_cons_self, pre, j, post, rfl, hP, hQ.1⟩
  · rintro (hP | ⟨hQ, pre, j, post, rfl, hP, hpost⟩)
    · exact ⟨l, i, [], rfl, hP, List.forall_mem_nil _⟩
    · refine ⟨pre, j, post ++ [i], List.append_assoc pre (j :: post) [i], hP, ?_⟩
      exact List.forall_mem_append.mpr ⟨hpost, List.forall_mem_singleton.mpr hQ⟩

end Since

end History
