import PeeledOrange.Lib.Callback

/-!
# The runs of a part of a program

A run of a whole program is a sequence of steps on configurations, and what a part of the
program does in it cannot be read off without the stack.  Here a run is put together from
the runs of its parts instead, and what the unknown code does while a call is pending is
put together from its acts and the runs of the entry points that it invokes.  Parts are
then reasoned about one after the other, each under a contract of its own.

## Main definitions

* `Runs`, `Between` — what a part does, and what the unknown code does meanwhile.
* `Finishes` — what is still to happen in a configuration.

## Main results

* `runs_bind` — a sequence runs one part after the other.
* `runs_of_steps`, `Runs.steps` — **a program that returns in a sequence of steps has run,**
  and the other way round.
* `LegalPlay.steps` — the moves of a schedule can be made from any configuration.
* `Prog.Safe.runs` — **a safe part returns in a state that its contract allows.**
-/

namespace Callback

section BigStep

variable {σ C ρ E A α β : Type} (W : Interface σ C ρ E A)

mutual

/-- With the calls `cs` pending, the program turns one state into another and returns. -/
inductive Runs : {α : Type} → List C → Prog σ C ρ α → σ → α → σ → Prop
  | ret {α : Type} {cs : List C} {a : α} {s : σ} : Runs cs (.ret a) s a s
  | get {α : Type} {cs : List C} {k : σ → Prog σ C ρ α} {s s' : σ} {a : α} :
      Runs cs (k s) s a s' → Runs cs (.get k) s a s'
  | put {α : Type} {cs : List C} {s₁ : σ} {k : Prog σ C ρ α} {s s' : σ} {a : α} :
      Runs cs k s₁ a s' → Runs cs (.put s₁ k) s a s'
  | call {α : Type} {cs : List C} {c : C} {k : ρ → Prog σ C ρ α} {s s₁ s' : σ} {r : ρ} {a : α} :
      Between (c :: cs) s s₁ → W.mayReply (c :: cs) r s₁ → Runs cs (k r) s₁ a s' →
      Runs cs (.call c k) s a s'

/-- With the calls `cs` pending, the unknown code turns one state into another. -/
inductive Between : List C → σ → σ → Prop
  | refl {cs : List C} {s : σ} : Between cs s s
  | act {cs : List C} {s s' : σ} (a : A) : W.mayAct cs s a → Between cs (W.act a s) s' →
      Between cs s s'
  | enter {cs : List C} {s s₁ s' : σ} (e : E) : W.mayEnter cs s e →
      Runs cs (W.entry e) s () s₁ → Between cs s₁ s' → Between cs s s'

end

/-! ### Taking runs apart -/

variable {W} {cs : List C} {s s' : σ} {a : α} {b : β}

theorem runs_pure {a' : α} : Runs W cs (pure a) s a' s' ↔ a' = a ∧ s' = s := by
  constructor
  · intro h
    cases h
    exact ⟨rfl, rfl⟩
  · rintro ⟨rfl, rfl⟩
    exact .ret

/-- **A sequence runs one part after the other.** -/
theorem runs_bind' {f : α → Prog σ C ρ β} : ∀ {p : Prog σ C ρ α} {s : σ},
    Runs W cs (p.bind f) s b s' ↔ ∃ a s₁, Runs W cs p s a s₁ ∧ Runs W cs (f a) s₁ b s' := by
  intro p
  induction p with
  | ret a =>
    intro s
    constructor
    · exact fun h => ⟨a, s, .ret, h⟩
    · rintro ⟨_, _, h, h'⟩
      cases h
      exact h'
  | get k ih =>
    intro s
    constructor
    · intro h
      cases h with
      | get h =>
        obtain ⟨a, s₁, h₁, h₂⟩ := (ih s).mp h
        exact ⟨a, s₁, .get h₁, h₂⟩
    · rintro ⟨a, s₁, h₁, h₂⟩
      cases h₁ with
      | get h₁ => exact .get ((ih s).mpr ⟨a, s₁, h₁, h₂⟩)
  | put s₀ k ih =>
    intro s
    constructor
    · intro h
      cases h with
      | put h =>
        obtain ⟨a, s₁, h₁, h₂⟩ := ih.mp h
        exact ⟨a, s₁, .put h₁, h₂⟩
    · rintro ⟨a, s₁, h₁, h₂⟩
      cases h₁ with
      | put h₁ => exact .put (ih.mpr ⟨a, s₁, h₁, h₂⟩)
  | call c k ih =>
    intro s
    constructor
    · intro h
      cases h with
      | @call _ _ _ _ _ _ _ r _ hbetween hr h =>
        obtain ⟨a, s₁, h₁, h₂⟩ := (ih r).mp h
        exact ⟨a, s₁, .call hbetween hr h₁, h₂⟩
    · rintro ⟨a, s₁, h₁, h₂⟩
      cases h₁ with
      | @call _ _ _ _ _ _ _ r _ hbetween hr h₁ =>
        exact .call hbetween hr ((ih r).mpr ⟨a, s₁, h₁, h₂⟩)

theorem runs_bind {p : Prog σ C ρ α} {f : α → Prog σ C ρ β} :
    Runs W cs (p >>= f) s b s' ↔ ∃ a s₁, Runs W cs p s a s₁ ∧ Runs W cs (f a) s₁ b s' :=
  runs_bind'

theorem runs_read {t : σ} : Runs W cs (Prog.read : Prog σ C ρ σ) s t s' ↔
    t = s ∧ s' = s := by
  constructor
  · intro h
    cases h with
    | get h => exact runs_pure.mp h
  · exact fun h => .get (runs_pure.mpr h)

theorem runs_modify {f : σ → σ} {u : Unit} :
    Runs W cs (Prog.modify f : Prog σ C ρ Unit) s u s' ↔ s' = f s := by
  constructor
  · intro h
    cases h with
    | get h =>
      cases h with
      | put h => exact (runs_pure.mp h).2
  · exact fun h => .get (.put (runs_pure.mpr ⟨rfl, h⟩))

theorem runs_ask {c : C} {r : ρ} : Runs W cs (Prog.ask c : Prog σ C ρ ρ) s r s' ↔
    Between W (c :: cs) s s' ∧ W.mayReply (c :: cs) r s' := by
  constructor
  · intro h
    cases h with
    | call hbetween hr h =>
      obtain ⟨rfl, rfl⟩ := runs_pure.mp h
      exact ⟨hbetween, hr⟩
  · exact fun h => .call h.1 h.2 .ret

theorem runs_read_bind {f : σ → Prog σ C ρ β} :
    Runs W cs (Prog.read >>= f) s b s' ↔ Runs W cs (f s) s b s' := by
  rw [runs_bind]
  constructor
  · rintro ⟨_, _, h, h'⟩
    obtain ⟨rfl, rfl⟩ := runs_read.mp h
    exact h'
  · exact fun h => ⟨s, s, runs_read.mpr ⟨rfl, rfl⟩, h⟩

theorem runs_modify_bind {g : σ → σ} {f : Unit → Prog σ C ρ β} :
    Runs W cs (Prog.modify g >>= f) s b s' ↔ Runs W cs (f ()) (g s) b s' := by
  rw [runs_bind]
  constructor
  · rintro ⟨_, _, h, h'⟩
    obtain rfl := runs_modify.mp h
    exact h'
  · exact fun h => ⟨(), g s, runs_modify.mpr rfl, h⟩

theorem runs_ask_bind {c : C} {f : ρ → Prog σ C ρ β} :
    Runs W cs (Prog.ask c >>= f) s b s' ↔ ∃ r s₁, Between W (c :: cs) s s₁ ∧
      W.mayReply (c :: cs) r s₁ ∧ Runs W cs (f r) s₁ b s' := by
  rw [runs_bind]
  constructor
  · rintro ⟨r, s₁, h, h'⟩
    obtain ⟨hbetween, hr⟩ := runs_ask.mp h
    exact ⟨r, s₁, hbetween, hr, h'⟩
  · rintro ⟨r, s₁, hbetween, hr, h⟩
    exact ⟨r, s₁, runs_ask.mpr ⟨hbetween, hr⟩, h⟩

theorem runs_when {c : Bool} {p : Prog σ C ρ Unit} {u : Unit} :
    Runs W cs (Prog.when c p) s u s' ↔
      (c = true ∧ Runs W cs p s u s') ∨ (c = false ∧ s' = s) := by
  cases c with
  | false =>
    refine Iff.trans (@runs_pure _ _ _ _ _ _ W cs s s' () u) ?_
    simp
  | true => simp [Prog.when]

/-! ### Small steps -/

variable (W) in
/-- The calls in progress are replied to one after the other, and when all have been, the
state is this. -/
def FinishesIdle (s' : σ) : σ → List (C × (ρ → Prog σ C ρ Unit)) → Prop
  | s, [] => Between W [] s s'
  | s, (c, k) :: rest => ∃ s₁ r s₂, Between W (c :: rest.map Prod.fst) s s₁ ∧
      W.mayReply (c :: rest.map Prod.fst) r s₁ ∧ Runs W (rest.map Prod.fst) (k r) s₁ () s₂ ∧
      FinishesIdle s' s₂ rest

variable (W) in
/-- The running program runs, and the calls in progress are replied to. -/
def Finishes (s' : σ) (cfg : Config σ C ρ) : Prop :=
  match cfg.running with
  | some p => ∃ s₁, Runs W cfg.calls p cfg.state () s₁ ∧ FinishesIdle W s' s₁ cfg.pending
  | none => FinishesIdle W s' cfg.state cfg.pending

/-- What the unknown code does first is a part of what it does. -/
theorem FinishesIdle.between {s s₁ s' : σ} {rest : List (C × (ρ → Prog σ C ρ Unit))}
    (hb : ∀ t, Between W (rest.map Prod.fst) s₁ t → Between W (rest.map Prod.fst) s t)
    (h : FinishesIdle W s' s₁ rest) : FinishesIdle W s' s rest := by
  cases rest with
  | nil => exact hb s' h
  | cons ck rest =>
    obtain ⟨t, r, t', hbetween, hrest⟩ := h
    exact ⟨t, r, t', hb t hbetween, hrest⟩

theorem Finishes.step {cfg cfg' : Config σ C ρ} (hs : Step W cfg cfg') (h : Finishes W s' cfg') :
    Finishes W s' cfg := by
  cases hs with
  | tick =>
    obtain ⟨s, running, rest⟩ := cfg
    cases running with
    | none => exact h
    | some p =>
      cases p with
      | ret u => exact ⟨s, .ret, h⟩
      | get k =>
        obtain ⟨s₁, hrun, hrest⟩ := h
        exact ⟨s₁, .get hrun, hrest⟩
      | put t k =>
        obtain ⟨s₁, hrun, hrest⟩ := h
        exact ⟨s₁, .put hrun, hrest⟩
      | call c k =>
        obtain ⟨s₁, r, s₂, hbetween, hr, hrun, hrest⟩ := h
        exact ⟨s₂, .call hbetween hr hrun, hrest⟩
  | enter e hrun hmay =>
    obtain ⟨s, running, rest⟩ := cfg
    obtain rfl : running = none := hrun
    obtain ⟨s₁, hrun, hrest⟩ := h
    exact FinishesIdle.between (fun t ht => .enter e hmay hrun ht) hrest
  | act a hrun hmay =>
    obtain ⟨s, running, rest⟩ := cfg
    obtain rfl : running = none := hrun
    exact FinishesIdle.between (fun t ht => .act a hmay ht) h
  | @reply s c k rest r hmay =>
    obtain ⟨s₁, hrun, hrest⟩ := h
    exact ⟨s, r, s₁, .refl, hmay, hrun, hrest⟩

/-- **A program that returns in a sequence of steps has run**; the unknown code may have
gone on after it. -/
theorem runs_of_steps {p : Prog σ C ρ Unit}
    (h : Relation.ReflTransGen (Step W) ⟨s, some p, []⟩ ⟨s', none, []⟩) :
    ∃ s₁, Runs W [] p s () s₁ ∧ Between W [] s₁ s' := by
  have hfin : ∀ {cfg : Config σ C ρ}, Relation.ReflTransGen (Step W) cfg ⟨s', none, []⟩ →
      Finishes W s' cfg := by
    intro cfg h
    induction h using Relation.ReflTransGen.head_induction_on with
    | refl => exact .refl
    | head hs _ ih => exact ih.step hs
  exact hfin h

mutual

/-- **A run of a part is a sequence of steps**, whatever is to be done after it. -/
theorem Runs.steps {α : Type} {cs : List C} {p : Prog σ C ρ α} {s s' : σ} {a : α}
    (h : Runs W cs p s a s') : ∀ (f : α → Prog σ C ρ Unit)
      (rest : List (C × (ρ → Prog σ C ρ Unit))), rest.map Prod.fst = cs →
      Relation.ReflTransGen (Step W) ⟨s, some (p.bind f), rest⟩ ⟨s', some (f a), rest⟩ :=
  match h with
  | .ret => fun _ _ _ => .refl
  | .get h => fun f rest hcs => .head (.tick _) (h.steps f rest hcs)
  | .put h => fun f rest hcs => .head (.tick _) (h.steps f rest hcs)
  | .call (k := k) (c := c) (r := r) hb hr h => fun f rest hcs => by
    have hcalls : ((c, fun r => (k r).bind f) :: rest).map Prod.fst = c :: _ :=
      congrArg (c :: ·) hcs
    refine .head (.tick _) ((hb.steps _ hcalls).trans ?_)
    exact .head (.reply r (by rw [hcs]; exact hr)) (h.steps f rest hcs)

/-- What the unknown code does is a sequence of steps. -/
theorem Between.steps {cs : List C} {s s' : σ} (h : Between W cs s s') :
    ∀ (rest : List (C × (ρ → Prog σ C ρ Unit))), rest.map Prod.fst = cs →
      Relation.ReflTransGen (Step W) ⟨s, none, rest⟩ ⟨s', none, rest⟩ :=
  match h with
  | .refl => fun _ _ => .refl
  | .act a hmay h => fun rest hcs =>
    .head (.act a rfl (by rw [Config.calls, hcs]; exact hmay)) (h.steps rest hcs)
  | .enter e hmay hrun h => fun rest hcs => by
    have hprog := hrun.steps .ret rest hcs
    rw [Prog.bind_ret] at hprog
    refine .head (.enter e rfl (by rw [Config.calls, hcs]; exact hmay)) (hprog.trans ?_)
    exact .head (.tick _) (h.steps rest hcs)

end

/-! ### Runs by a schedule -/

/-- A program may run on for any number of steps. -/
theorem Step.ticks (cfg : Config σ C ρ) (n : ℕ) :
    Relation.ReflTransGen (Step W) cfg (Config.tick^[n] cfg) := by
  induction n with
  | zero => exact .refl
  | succ n ih =>
    rw [Function.iterate_succ_apply']
    exact ih.tail (.tick _)

/-- **The moves of a schedule can be made one after the other.** -/
theorem LegalPlay.steps {n : ℕ} : ∀ {ms : List (Move ρ E A)} {cfg : Config σ C ρ},
    LegalPlay W n ms cfg → Relation.ReflTransGen (Step W) cfg (play W n ms cfg) := by
  intro ms
  induction ms with
  | nil => exact fun _ => .refl
  | cons m ms ih => exact fun h => .head h.1.step ((Step.ticks _ n).trans (ih h.2))

/-! ### Contracts -/

variable {K : Contract σ C}

mutual

/-- **A safe part returns in a state that its contract allows.** -/
theorem Runs.safe {α : Type} {cs : List C} {p : Prog σ C ρ α} {s s' : σ} {a : α}
    (hI : Invariant W K) (h : Runs W cs p s a s') :
    ∀ {Q : α → σ → Prop}, p.Safe W K cs Q s → K.later s s' ∧ Q a s' :=
  match h with
  | .ret => fun hp => ⟨hI.refl _, hp⟩
  | .get h => fun hp => h.safe hI hp
  | .put h => fun hp =>
    have hk := h.safe hI hp.2.2
    ⟨hI.trans hp.2.1 hk.1, hk.2⟩
  | .call hb hr h => fun hp =>
    have hbetween := hb.kept hI hp.1
    have hk := h.safe hI (hp.2 _ _ hbetween.1 hbetween.2 hr)
    ⟨hI.trans hbetween.1 hk.1, hk.2⟩

/-- The unknown code keeps the contract. -/
theorem Between.kept {cs : List C} {s s' : σ} (hI : Invariant W K) (h : Between W cs s s') :
    K.boundary cs s → K.later s s' ∧ K.boundary cs s' :=
  match h with
  | .refl => fun hs => ⟨hI.refl _, hs⟩
  | .act a hmay h => fun hs =>
    have hact := hI.act _ _ a hs hmay
    have hk := h.kept hI hact.1
    ⟨hI.trans hact.2 hk.1, hk.2⟩
  | .enter e hmay hrun h => fun hs =>
    have hentry := hrun.safe hI (hI.entry _ _ e hs hmay)
    have hk := h.kept hI hentry.2
    ⟨hI.trans hentry.1 hk.1, hk.2⟩

end

end BigStep

end Callback
