import PeeledOrange.Lib.Callback

/-!
# A component inside a program

A component that a bigger program uses has a part of the state to itself, and what it
calls out for is a part of what the program calls out for.  Its member functions are run
by the program on that part, in between what the program does itself; what is known of
the component alone is then known of it there, since to the component the rest of the
program is unknown code like any other.

## Main definitions

* `Prog.lift` — a program of the component, as one of the whole.
* `Embeds` — towards the component the unknown code keeps to its rules.
* `Contract.lift` — a contract of the component, as one of the whole.

## Main results

* `Prog.Safe.lift` — what is safe for the component is safe for the whole.
* `Invariant.lift` — **a contract of the component is kept if the entry points of the whole
  keep it.**
* `Prog.Safe.frame` — the component leaves the rest of the state alone, and returns what it
  may return.
-/

namespace Callback

section Component

variable {σ υ C D ρ R α β E F A B : Type}

/-- A program of the component, as a part of a bigger one. -/
def Prog.lift (ι : C → D) (π : R → ρ) : Prog σ C ρ α → Prog (σ × υ) D R α
  | .ret a => .ret a
  | .get k => .get fun t => (k t.1).lift ι π
  | .put s k => .get fun t => .put (s, t.2) (k.lift ι π)
  | .call c k => .call (ι c) fun r => (k (π r)).lift ι π

/-- Towards the component, the code around the whole keeps to its rules; `proj` tells which
calls are those of the component. -/
structure Embeds (W : Interface σ C ρ E A) (V : Interface (σ × υ) D R F B) (ι : C → D)
    (π : R → ρ) (proj : D → Option C) : Prop where
  proj_call : ∀ c, proj (ι c) = some c
  act : ∀ ds t b, V.mayAct ds t b → (V.act b t).1 = t.1 ∨
    ∃ a, W.mayAct (ds.filterMap proj) t.1 a ∧ (V.act b t).1 = W.act a t.1
  reply : ∀ c ds r t, V.mayReply (ι c :: ds) r t →
    W.mayReply (c :: ds.filterMap proj) (π r) t.1

/-- A contract of the component, as one of the whole. -/
def Contract.lift (proj : D → Option C) (K : Contract σ C) : Contract (σ × υ) D where
  moment := fun t => K.moment t.1
  boundary := fun ds t => K.boundary (ds.filterMap proj) t.1
  later := fun t t' => K.later t.1 t'.1

variable {W : Interface σ C ρ E A} {V : Interface (σ × υ) D R F B} {ι : C → D} {π : R → ρ}
  {proj : D → Option C} {K : Contract σ C} {ds : List D}

/-- What is safe for the component is safe for the whole. -/
theorem Prog.Safe.lift (h : Embeds W V ι π proj) {p : Prog σ C ρ α} :
    ∀ {Q : α → σ → Prop} {t : σ × υ}, p.Safe W K (ds.filterMap proj) Q t.1 →
      (p.lift ι π).Safe V (K.lift proj) ds (fun a t' => Q a t'.1) t := by
  induction p with
  | ret a => intro Q t hp; exact hp
  | get k ih => intro Q t hp; exact ih t.1 hp
  | put s k ih => intro Q t hp; exact ⟨hp.1, hp.2.1, ih hp.2.2⟩
  | call c k ih =>
    intro Q t hp
    have hcalls : (ι c :: ds).filterMap proj = c :: ds.filterMap proj :=
      List.filterMap_cons_some (h.proj_call c)
    refine ⟨?_, fun r t' hlater hboundary hr => ih (π r) ?_⟩
    · show K.boundary ((ι c :: ds).filterMap proj) t.1
      rw [hcalls]
      exact hp.1
    · have hboundary' : K.boundary ((ι c :: ds).filterMap proj) t'.1 := hboundary
      rw [hcalls] at hboundary'
      exact hp.2 (π r) t'.1 hlater hboundary' (h.reply c ds r t' hr)

/-- What the program does to the rest of the state does not concern the component. -/
theorem Invariant.safe_rest (hI : Invariant W K) {f : σ × υ → υ} {t : σ × υ}
    (ht : K.boundary (ds.filterMap proj) t.1) :
    (Prog.modify fun t => (t.1, f t)).Safe V (K.lift proj) ds
      (fun _ => (K.lift proj).boundary ds) t :=
  ⟨hI.moment _ _ ht, hI.refl _, ht⟩

/-- When the program calls out for itself, the component may be used in the meantime. -/
theorem Prog.safe_other {d : D} (hd : proj d = none) {t : σ × υ}
    (ht : K.boundary (ds.filterMap proj) t.1) :
    (Prog.ask d).Safe V (K.lift proj) ds (fun _ => (K.lift proj).boundary ds) t := by
  have hcalls : (d :: ds).filterMap proj = ds.filterMap proj := List.filterMap_cons_none hd
  refine ⟨?_, fun r t' _ hboundary _ => ?_⟩
  · show K.boundary ((d :: ds).filterMap proj) t.1
    rw [hcalls]
    exact ht
  · have hboundary' : K.boundary ((d :: ds).filterMap proj) t'.1 := hboundary
    rw [hcalls] at hboundary'
    exact hboundary'

/-- **A contract of the component is kept if the entry points of the whole keep it.** -/
theorem Invariant.lift (hI : Invariant W K) (h : Embeds W V ι π proj)
    (hentry : ∀ ds t f, K.boundary (ds.filterMap proj) t.1 → V.mayEnter ds t f →
      (V.entry f).Safe V (K.lift proj) ds (fun _ => (K.lift proj).boundary ds) t) :
    Invariant V (K.lift proj) where
  refl := fun t => hI.refl t.1
  trans := hI.trans
  moment := fun _ _ ht => hI.moment _ _ ht
  entry := hentry
  act := by
    intro ds t b ht hmay
    show K.boundary (ds.filterMap proj) (V.act b t).1 ∧ K.later t.1 (V.act b t).1
    rcases h.act ds t b hmay with heq | ⟨a, ha, heq⟩
    · rw [heq]
      exact ⟨ht, hI.refl _⟩
    · rw [heq]
      exact hI.act _ _ a ht ha

/-- The component leaves the rest of the state alone: what holds of the rest when it is
called, and is kept by whoever has control in the meantime, holds when it returns. -/
theorem Prog.Safe.frame {L : Contract (σ × υ) D} {I : υ → Prop}
    (hmoment : ∀ s u, I u → L.moment (s, u)) (hlater : ∀ s s' u, L.later (s, u) (s', u))
    (hcall : ∀ c t, L.boundary (ι c :: ds) t ↔ I t.2) (p : Prog σ C ρ α) :
    ∀ {t : σ × υ}, I t.2 →
      (p.lift ι π).Safe V L ds (fun a t' => I t'.2 ∧ p.MayReturn t.1 a) t := by
  induction p with
  | ret a => intro t ht; exact ⟨ht, .ret a t.1⟩
  | get k ih => intro t ht; exact (ih t.1 ht).mono fun _ _ h => ⟨h.1, .get h.2⟩
  | put s k ih =>
    intro t ht
    have hk := ih (t := (s, t.2)) ht
    exact ⟨hmoment _ _ ht, hlater _ _ _, hk.mono fun _ _ h => ⟨h.1, .put h.2⟩⟩
  | call c k ih =>
    intro t ht
    exact ⟨(hcall c t).mpr ht, fun r t' _ ht' _ =>
      (ih (π r) ((hcall c t').mp ht')).mono fun _ _ h => ⟨h.1, .call (π r) h.2⟩⟩

end Component

end Callback
