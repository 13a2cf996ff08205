import Mathlib.Logic.Relation
import Mathlib.Logic.Function.Iterate

/-!
# Programs that call out and may be re-entered

A component that hands control to code it does not know (a callback, an
overridden method) is a program with holes: at each hole the unknown code runs,
may change some of the state itself, may call back into the component through
its entry points, and finally replies.  The calls nest, so the component is in
general in the middle of several of its own functions at once.

A `Prog` is such a program as a tree of atomic state accesses and outgoing
calls.  An `Interface` says which entry points there are and what the unknown
code may do while a given stack of calls is pending.  The meaning is a
transition system on configurations that carry the whole stack, so what is
proved of a reachable configuration holds in the middle of nested calls too.

## Main definitions

* `Prog`, `Prog.bind` — programs, and their sequencing (a lawful monad).
* `Interface`, `Config`, `Step`, `Reachable` — the small-step meaning.
* `Interface.restrict` — the entry points may be invoked only under a condition.
* `Prog.MayReturn` — what a program may return, whatever the unknown code does.
* `Prog.quiet` — the run in which the unknown code does nothing but reply.
* `Move`, `play` — runs by a given schedule of the unknown code.
* `Contract` — what is kept up: a condition on every moment, one on the moments at
  which the unknown code has control, and a relation from each state to the later ones.
* `Prog.Safe` — the verification condition of a program: what must hold at each
  write and at each outgoing call, and what may be assumed after a call.
* `Invariant` — a contract that entry points and unknown code keep.

## Main results

* `Prog.safe_bind`, `Prog.Safe.mono` — the rules by which conditions compose.
* `Invariant.reachable` — **a contract that every entry point and every act of
  the unknown code keeps holds in every reachable configuration.**
* `Invariant.returns` — **a safe program returns in a state that the contract allows.**
-/

namespace Callback

/-! ### Programs -/

/-- A program over the state `σ` that calls out through `C`, is replied to in
`ρ`, and returns an `α`. -/
inductive Prog (σ C ρ α : Type) : Type
  /-- Return. -/
  | ret (a : α) : Prog σ C ρ α
  /-- Read the state. -/
  | get (k : σ → Prog σ C ρ α) : Prog σ C ρ α
  /-- Replace the state. -/
  | put (s : σ) (k : Prog σ C ρ α) : Prog σ C ρ α
  /-- Hand control to the unknown code until it replies. -/
  | call (c : C) (k : ρ → Prog σ C ρ α) : Prog σ C ρ α

namespace Prog

variable {σ C ρ α β : Type}

/-- Sequencing. -/
def bind : Prog σ C ρ α → (α → Prog σ C ρ β) → Prog σ C ρ β
  | ret a, f => f a
  | get k, f => get fun s => (k s).bind f
  | put s k, f => put s (k.bind f)
  | call c k, f => call c fun r => (k r).bind f

instance : Monad (Prog σ C ρ) where
  pure := ret
  bind := bind

theorem bind_ret : ∀ p : Prog σ C ρ α, p.bind ret = p := by
  intro p
  induction p with
  | ret a => rfl
  | get k ih => exact congrArg get (funext ih)
  | put s k ih => exact congrArg (put s) ih
  | call c k ih => exact congrArg (call c) (funext ih)

theorem bind_bind {γ : Type} (f : α → Prog σ C ρ β) (g : β → Prog σ C ρ γ) :
    ∀ p : Prog σ C ρ α, (p.bind f).bind g = p.bind fun a => (f a).bind g := by
  intro p
  induction p with
  | ret a => rfl
  | get k ih => exact congrArg get (funext ih)
  | put s k ih => exact congrArg (put s) ih
  | call c k ih => exact congrArg (call c) (funext ih)

instance : LawfulMonad (Prog σ C ρ) :=
  LawfulMonad.mk' _ bind_ret (fun _ _ => rfl) fun p f g => bind_bind f g p

/-- The current state. -/
def read : Prog σ C ρ σ := get ret

/-- Change the state by `f`. -/
def modify (f : σ → σ) : Prog σ C ρ Unit := get fun s => put (f s) (ret ())

/-- Call out and return the reply. -/
def ask (c : C) : Prog σ C ρ ρ := call c ret

/-- Run `p` if `b` holds. -/
def when (b : Bool) (p : Prog σ C ρ Unit) : Prog σ C ρ Unit := if b then p else ret ()

end Prog

/-! ### Their meaning -/

/-- What the unknown code may do.  Each clause sees the pending calls, innermost
first; with none pending it is the outside world that acts. -/
structure Interface (σ C ρ E A : Type) where
  /-- The entry points. -/
  entry : E → Prog σ C ρ Unit
  /-- The direct changes of the state. -/
  act : A → σ → σ
  /-- Entry `e` may be invoked. -/
  mayEnter : List C → σ → E → Prop
  /-- The change `a` may be made. -/
  mayAct : List C → σ → A → Prop
  /-- The innermost call may be replied to. -/
  mayReply : List C → ρ → σ → Prop

/-- The entry points may be invoked only under this condition, too. -/
def Interface.restrict {σ C ρ E A : Type} (W : Interface σ C ρ E A) (P : List C → σ → E → Prop) :
    Interface σ C ρ E A :=
  { W with mayEnter := fun cs s e => W.mayEnter cs s e ∧ P cs s e }

instance {σ C ρ E A : Type} (W : Interface σ C ρ E A) (P : List C → σ → E → Prop) (cs : List C)
    (s : σ) (e : E) [Decidable (W.mayEnter cs s e)] [Decidable (P cs s e)] :
    Decidable ((W.restrict P).mayEnter cs s e) :=
  inferInstanceAs (Decidable (W.mayEnter cs s e ∧ P cs s e))

instance {σ C ρ E A : Type} (W : Interface σ C ρ E A) (P : List C → σ → E → Prop) (cs : List C)
    (s : σ) (a : A) [h : Decidable (W.mayAct cs s a)] :
    Decidable ((W.restrict P).mayAct cs s a) := h

instance {σ C ρ E A : Type} (W : Interface σ C ρ E A) (P : List C → σ → E → Prop) (cs : List C)
    (r : ρ) (s : σ) [h : Decidable (W.mayReply cs r s)] :
    Decidable ((W.restrict P).mayReply cs r s) := h

/-- From this state the program may return this, whatever the unknown code does to the
state and replies at each call. -/
inductive Prog.MayReturn {σ C ρ α : Type} : Prog σ C ρ α → σ → α → Prop
  | ret (a : α) (s : σ) : MayReturn (.ret a) s a
  | get {k : σ → Prog σ C ρ α} {s : σ} {a : α} : MayReturn (k s) s a → MayReturn (.get k) s a
  | put {s' : σ} {k : Prog σ C ρ α} {s : σ} {a : α} : MayReturn k s' a → MayReturn (.put s' k) s a
  | call {c : C} {k : ρ → Prog σ C ρ α} {s s' : σ} {a : α} (r : ρ) :
      MayReturn (k r) s' a → MayReturn (.call c k) s a

section MayReturn

variable {σ C ρ α β : Type} {s : σ} {a : α} {b : β}

@[simp] theorem Prog.mayReturn_pure {a' : α} :
    (pure a' : Prog σ C ρ α).MayReturn s a ↔ a = a' := by
  constructor
  · intro h
    cases h
    rfl
  · rintro rfl
    exact .ret _ _

@[simp] theorem Prog.mayReturn_read_bind {f : σ → Prog σ C ρ β} :
    (Prog.read >>= f).MayReturn s b ↔ (f s).MayReturn s b :=
  ⟨fun | .get h => h, .get⟩

@[simp] theorem Prog.mayReturn_modify_bind {g : σ → σ} {f : Unit → Prog σ C ρ β} :
    (Prog.modify g >>= f).MayReturn s b ↔ (f ()).MayReturn (g s) b :=
  ⟨fun | .get (.put h) => h, fun h => .get (.put h)⟩

@[simp] theorem Prog.mayReturn_ask_bind {c : C} {f : ρ → Prog σ C ρ β} :
    (Prog.ask c >>= f).MayReturn s b ↔ ∃ r s', (f r).MayReturn s' b :=
  ⟨fun | .call r h => ⟨r, _, h⟩, fun ⟨r, _, h⟩ => .call r h⟩

@[simp] theorem Prog.mayReturn_modify {g : σ → σ} {u : Unit} :
    (Prog.modify g : Prog σ C ρ Unit).MayReturn s u :=
  .get (.put (.ret u (g s)))

/-- What is made of the result does not matter to the run. -/
@[simp] theorem Prog.mayReturn_map {f : α → β} : ∀ {p : Prog σ C ρ α} {s : σ},
    (f <$> p).MayReturn s b ↔ ∃ a, p.MayReturn s a ∧ b = f a := by
  intro p
  induction p with
  | ret a =>
    intro s
    refine Prog.mayReturn_pure.trans ⟨fun hb => ⟨a, .ret a s, hb⟩, ?_⟩
    rintro ⟨a', h, rfl⟩
    cases h
    rfl
  | get k ih =>
    intro s
    constructor
    · intro h
      cases h with
      | get h =>
        obtain ⟨a, ha, hb⟩ := (ih s).mp h
        exact ⟨a, .get ha, hb⟩
    · rintro ⟨a, h, hb⟩
      cases h with
      | get h => exact .get ((ih s).mpr ⟨a, h, hb⟩)
  | put s' k ih =>
    intro s
    constructor
    · intro h
      cases h with
      | put h =>
        obtain ⟨a, ha, hb⟩ := ih.mp h
        exact ⟨a, .put ha, hb⟩
    · rintro ⟨a, h, hb⟩
      cases h with
      | put h => exact .put (ih.mpr ⟨a, h, hb⟩)
  | call c k ih =>
    intro s
    constructor
    · intro h
      cases h with
      | call r h =>
        obtain ⟨a, ha, hb⟩ := (ih r).mp h
        exact ⟨a, .call r ha, hb⟩
    · rintro ⟨a, h, hb⟩
      cases h with
      | call r h => exact .call r ((ih r).mpr ⟨a, h, hb⟩)

end MayReturn

/-- The run in which the unknown code does nothing but give these replies: what is
returned, and the state then. -/
def Prog.quiet {σ C ρ α : Type} (reply : C → ρ) : Prog σ C ρ α → σ → α × σ
  | .ret a, s => (a, s)
  | .get k, s => (k s).quiet reply s
  | .put s' k, _ => k.quiet reply s'
  | .call c k, s => (k (reply c)).quiet reply s

section Quiet

variable {σ C ρ α β : Type} (reply : C → ρ)

@[simp] theorem Prog.quiet_pure (a : α) (s : σ) :
    (pure a : Prog σ C ρ α).quiet reply s = (a, s) := rfl

@[simp] theorem Prog.quiet_read (s : σ) : (Prog.read : Prog σ C ρ σ).quiet reply s = (s, s) := rfl

@[simp] theorem Prog.quiet_modify (f : σ → σ) (s : σ) :
    (Prog.modify f : Prog σ C ρ Unit).quiet reply s = ((), f s) := rfl

@[simp] theorem Prog.quiet_ask (c : C) (s : σ) :
    (Prog.ask c : Prog σ C ρ ρ).quiet reply s = (reply c, s) := rfl

@[simp] theorem Prog.quiet_when (b : Bool) (p : Prog σ C ρ Unit) (s : σ) :
    (Prog.when b p).quiet reply s = if b then p.quiet reply s else ((), s) := by
  cases b <;> rfl

theorem Prog.quiet_bind' (f : α → Prog σ C ρ β) : ∀ (p : Prog σ C ρ α) (s : σ),
    (p.bind f).quiet reply s = (f (p.quiet reply s).1).quiet reply (p.quiet reply s).2 := by
  intro p
  induction p with
  | ret a => intro s; rfl
  | get k ih => intro s; exact ih s s
  | put s' k ih => intro s; exact ih s'
  | call c k ih => intro s; exact ih (reply c) s

@[simp] theorem Prog.quiet_bind (f : α → Prog σ C ρ β) (p : Prog σ C ρ α) (s : σ) :
    (p >>= f).quiet reply s = (f (p.quiet reply s).1).quiet reply (p.quiet reply s).2 :=
  Prog.quiet_bind' reply f p s

end Quiet

/-- A configuration: the state, the program that is running, if one is (else the
unknown code has control), and the calls in progress with what is to be done
after each. -/
structure Config (σ C ρ : Type) where
  /-- The state. -/
  state : σ
  /-- The running program. -/
  running : Option (Prog σ C ρ Unit)
  /-- The calls in progress, innermost first. -/
  pending : List (C × (ρ → Prog σ C ρ Unit))

namespace Config

variable {σ C ρ : Type}

/-- Nothing has been invoked yet. -/
def idle (s : σ) : Config σ C ρ := ⟨s, none, []⟩

/-- The pending calls, innermost first. -/
def calls (cfg : Config σ C ρ) : List C := cfg.pending.map Prod.fst

/-- One internal step of the running program. -/
def tick (cfg : Config σ C ρ) : Config σ C ρ :=
  match cfg.running with
  | none => cfg
  | some (.ret _) => { cfg with running := none }
  | some (.get k) => { cfg with running := some (k cfg.state) }
  | some (.put s k) => { cfg with state := s, running := some k }
  | some (.call c k) => { cfg with running := none, pending := (c, k) :: cfg.pending }

end Config

section Semantics

variable {σ C ρ E A : Type} (W : Interface σ C ρ E A)

/-- One step: an internal one of the running program, or one of the unknown code. -/
inductive Step : Config σ C ρ → Config σ C ρ → Prop
  | tick (cfg : Config σ C ρ) : Step cfg cfg.tick
  | enter {cfg : Config σ C ρ} (e : E) : cfg.running = none →
      W.mayEnter cfg.calls cfg.state e → Step cfg { cfg with running := some (W.entry e) }
  | act {cfg : Config σ C ρ} (a : A) : cfg.running = none →
      W.mayAct cfg.calls cfg.state a → Step cfg { cfg with state := W.act a cfg.state }
  | reply {s : σ} {c : C} {k : ρ → Prog σ C ρ Unit}
      {rest : List (C × (ρ → Prog σ C ρ Unit))} (r : ρ) :
      W.mayReply (c :: rest.map Prod.fst) r s →
      Step ⟨s, none, (c, k) :: rest⟩ ⟨s, some (k r), rest⟩

/-- What can be reached from the idle configuration at `s₀`. -/
def Reachable (s₀ : σ) : Config σ C ρ → Prop :=
  Relation.ReflTransGen (Step W) (Config.idle s₀)

variable {W}

theorem Reachable.idle (s₀ : σ) : Reachable W s₀ (Config.idle s₀) := Relation.ReflTransGen.refl

theorem Reachable.step {s₀ : σ} {cfg cfg' : Config σ C ρ} (h : Reachable W s₀ cfg)
    (hs : Step W cfg cfg') : Reachable W s₀ cfg' := Relation.ReflTransGen.tail h hs

/-- What can be reached under a condition can be reached without it. -/
theorem Reachable.of_restrict {P : List C → σ → E → Prop} {s₀ : σ} {cfg : Config σ C ρ}
    (h : Reachable (W.restrict P) s₀ cfg) : Reachable W s₀ cfg := by
  induction h with
  | refl => exact .idle s₀
  | tail _ hs ih =>
    refine ih.step ?_
    cases hs with
    | tick => exact .tick _
    | enter e hrun hmay => exact .enter e hrun hmay.1
    | act a hrun hmay => exact .act a hrun hmay
    | reply r hmay => exact .reply r hmay

/-- The running program may run on for any number of steps. -/
theorem Reachable.ticks {s₀ : σ} {cfg : Config σ C ρ} (h : Reachable W s₀ cfg) (n : ℕ) :
    Reachable W s₀ (Config.tick^[n] cfg) := by
  induction n with
  | zero => exact h
  | succ n ih =>
    rw [Function.iterate_succ_apply']
    exact ih.step (.tick _)

/-- The quiet run is a run, if the replies are allowed. -/
theorem Prog.quiet_steps {reply : C → ρ} (hr : ∀ c cs s, W.mayReply (c :: cs) (reply c) s) :
    ∀ (p : Prog σ C ρ Unit) (s : σ) (rest : List (C × (ρ → Prog σ C ρ Unit))),
      Relation.ReflTransGen (Step W) ⟨s, some p, rest⟩ ⟨(p.quiet reply s).2, none, rest⟩ := by
  intro p
  induction p with
  | ret a =>
    intro s rest
    exact .single (.tick ⟨s, some (.ret a), rest⟩)
  | get k ih =>
    intro s rest
    exact .head (.tick ⟨s, some (.get k), rest⟩) (ih s s rest)
  | put s' k ih =>
    intro s rest
    exact .head (.tick ⟨s, some (.put s' k), rest⟩) (ih s' rest)
  | call c k ih =>
    intro s rest
    refine .head (.tick ⟨s, some (.call c k), rest⟩) ?_
    exact .head (.reply (reply c) (hr c _ s)) (ih (reply c) s rest)

/-! ### Schedules -/

/-- A choice of the unknown code. -/
inductive Move (ρ E A : Type) : Type
  /-- Invoke an entry point. -/
  | enter (e : E)
  /-- Change the state directly. -/
  | act (a : A)
  /-- Reply to the innermost call. -/
  | reply (r : ρ)

variable (W)

/-- The effect of a move. -/
def Move.perform : Move ρ E A → Config σ C ρ → Config σ C ρ
  | .enter e, cfg => { cfg with running := some (W.entry e) }
  | .act a, cfg => { cfg with state := W.act a cfg.state }
  | .reply r, ⟨s, _, (_, k) :: rest⟩ => ⟨s, some (k r), rest⟩
  | .reply _, ⟨s, running, []⟩ => ⟨s, running, []⟩

/-- The move is allowed. -/
def Move.Legal (m : Move ρ E A) (cfg : Config σ C ρ) : Prop :=
  cfg.running.isNone = true ∧ match m with
  | .enter e => W.mayEnter cfg.calls cfg.state e
  | .act a => W.mayAct cfg.calls cfg.state a
  | .reply r => cfg.pending.isEmpty = false ∧ W.mayReply cfg.calls r cfg.state

/-- The moves in order, the running program going on for `n` steps after each. -/
def play (n : ℕ) : List (Move ρ E A) → Config σ C ρ → Config σ C ρ
  | [], cfg => cfg
  | m :: ms, cfg => play n ms (Config.tick^[n] (m.perform W cfg))

/-- Each of the moves is allowed when its turn comes. -/
def LegalPlay (n : ℕ) : List (Move ρ E A) → Config σ C ρ → Prop
  | [], _ => True
  | m :: ms, cfg => m.Legal W cfg ∧ LegalPlay n ms (Config.tick^[n] (m.perform W cfg))

section Decidable

variable [∀ cs s e, Decidable (W.mayEnter cs s e)] [∀ cs s a, Decidable (W.mayAct cs s a)]
  [∀ cs r s, Decidable (W.mayReply cs r s)]

instance (m : Move ρ E A) (cfg : Config σ C ρ) : Decidable (m.Legal W cfg) :=
  match m with
  | .enter e => inferInstanceAs (Decidable (_ ∧ W.mayEnter cfg.calls cfg.state e))
  | .act a => inferInstanceAs (Decidable (_ ∧ W.mayAct cfg.calls cfg.state a))
  | .reply r => inferInstanceAs (Decidable (_ ∧ _ ∧ W.mayReply cfg.calls r cfg.state))

instance LegalPlay.decidable (n : ℕ) :
    ∀ (ms : List (Move ρ E A)) (cfg : Config σ C ρ), Decidable (LegalPlay W n ms cfg)
  | [], _ => .isTrue trivial
  | _ :: ms, _ => @instDecidableAnd _ _ _ (LegalPlay.decidable n ms _)

end Decidable

variable {W}

theorem Move.Legal.step {m : Move ρ E A} {cfg : Config σ C ρ} (h : m.Legal W cfg) :
    Step W cfg (m.perform W cfg) := by
  obtain ⟨s, running, pending⟩ := cfg
  obtain ⟨hrun, h⟩ := h
  obtain rfl : running = none := Option.isNone_iff_eq_none.mp hrun
  cases m with
  | enter e => exact .enter e rfl h
  | act a => exact .act a rfl h
  | reply r =>
    obtain ⟨hne, hmay⟩ := h
    cases pending with
    | nil => simp at hne
    | cons ck rest => exact .reply r hmay

/-- **A schedule of allowed moves can be played.** -/
theorem Reachable.play {s₀ : σ} {n : ℕ} : ∀ {ms : List (Move ρ E A)} {cfg : Config σ C ρ},
    Reachable W s₀ cfg → LegalPlay W n ms cfg → Reachable W s₀ (play W n ms cfg) := by
  intro ms
  induction ms with
  | nil => intro cfg h _; exact h
  | cons m ms ih => intro cfg h hl; exact ih ((h.step hl.1.step).ticks n) hl.2

end Semantics

/-! ### Verification conditions -/

/-- What a component keeps up towards the unknown code. -/
structure Contract (σ C : Type) where
  /-- Holds at every moment. -/
  moment : σ → Prop
  /-- Holds whenever the unknown code has control, of the calls then pending. -/
  boundary : List C → σ → Prop
  /-- Relates every state to all later ones. -/
  later : σ → σ → Prop

section Safe

variable {σ C ρ E A α β : Type} (W : Interface σ C ρ E A) (K : Contract σ C) (cs : List C)

/-- `p.Safe W K cs Q s`: run from `s` with the calls `cs` pending, `p` writes only
states that the contract allows at that moment, calls out only in states where the
boundary condition holds of the calls then pending, and returns in `Q`, provided
the unknown code keeps to the contract until it replies. -/
def Prog.Safe : Prog σ C ρ α → (α → σ → Prop) → σ → Prop
  | .ret a, Q, s => Q a s
  | .get k, Q, s => (k s).Safe Q s
  | .put s' k, Q, s => K.moment s' ∧ K.later s s' ∧ k.Safe Q s'
  | .call c k, Q, s => K.boundary (c :: cs) s ∧ ∀ r s', K.later s s' →
      K.boundary (c :: cs) s' → W.mayReply (c :: cs) r s' → (k r).Safe Q s'

variable {W K cs}

@[simp] theorem Prog.safe_ret (a : α) (Q : α → σ → Prop) (s : σ) :
    (Prog.ret a : Prog σ C ρ α).Safe W K cs Q s ↔ Q a s := Iff.rfl

@[simp] theorem Prog.safe_pure (a : α) (Q : α → σ → Prop) (s : σ) :
    (pure a : Prog σ C ρ α).Safe W K cs Q s ↔ Q a s := Iff.rfl

@[simp] theorem Prog.safe_read (Q : σ → σ → Prop) (s : σ) :
    (Prog.read : Prog σ C ρ σ).Safe W K cs Q s ↔ Q s s := Iff.rfl

@[simp] theorem Prog.safe_modify (f : σ → σ) (Q : Unit → σ → Prop) (s : σ) :
    (Prog.modify f : Prog σ C ρ Unit).Safe W K cs Q s ↔
      K.moment (f s) ∧ K.later s (f s) ∧ Q () (f s) := Iff.rfl

@[simp] theorem Prog.safe_ask (c : C) (Q : ρ → σ → Prop) (s : σ) :
    (Prog.ask c : Prog σ C ρ ρ).Safe W K cs Q s ↔ K.boundary (c :: cs) s ∧ ∀ r s',
      K.later s s' → K.boundary (c :: cs) s' → W.mayReply (c :: cs) r s' → Q r s' := Iff.rfl

@[simp] theorem Prog.safe_when (b : Bool) (p : Prog σ C ρ Unit) (Q : Unit → σ → Prop) (s : σ) :
    (Prog.when b p).Safe W K cs Q s ↔ (b = true → p.Safe W K cs Q s) ∧ (b = false → Q () s) := by
  cases b <;> simp [Prog.when]

theorem Prog.safe_bind' : ∀ (p : Prog σ C ρ α) (f : α → Prog σ C ρ β) (Q : β → σ → Prop)
    (s : σ), (p.bind f).Safe W K cs Q s ↔
      p.Safe W K cs (fun a s' => (f a).Safe W K cs Q s') s := by
  intro p f Q
  induction p with
  | ret a => intro s; rfl
  | get k ih => intro s; exact ih s s
  | put s' k ih => intro s; exact and_congr_right fun _ => and_congr_right fun _ => ih s'
  | call c k ih =>
    intro s
    refine and_congr_right fun _ => forall_congr' fun r => forall_congr' fun s' => ?_
    exact imp_congr_right fun _ => imp_congr_right fun _ => imp_congr_right fun _ => ih r s'

/-- **The rule of sequencing.** -/
@[simp] theorem Prog.safe_bind (p : Prog σ C ρ α) (f : α → Prog σ C ρ β) (Q : β → σ → Prop)
    (s : σ) : (p >>= f).Safe W K cs Q s ↔
      p.Safe W K cs (fun a s' => (f a).Safe W K cs Q s') s := Prog.safe_bind' p f Q s

/-- **The rule of consequence.** -/
theorem Prog.Safe.mono {p : Prog σ C ρ α} {Q Q' : α → σ → Prop} (hQ : ∀ a s, Q a s → Q' a s) :
    ∀ {s : σ}, p.Safe W K cs Q s → p.Safe W K cs Q' s := by
  induction p with
  | ret a => intro s h; exact hQ a s h
  | get k ih => intro s h; exact ih s h
  | put s' k ih => intro s h; exact ⟨h.1, h.2.1, ih h.2.2⟩
  | call c k ih => intro s h; exact ⟨h.1, fun r s' hl hI hr => ih r (h.2 r s' hl hI hr)⟩

/-- What is safe does not depend on when the entry points may be invoked. -/
theorem Prog.safe_restrict {P : List C → σ → E → Prop} {p : Prog σ C ρ α} {Q : α → σ → Prop} :
    ∀ {s : σ}, p.Safe (W.restrict P) K cs Q s ↔ p.Safe W K cs Q s := by
  induction p with
  | ret a => intro s; rfl
  | get k ih => intro s; exact ih s
  | put s' k ih => intro s; exact and_congr_right fun _ => and_congr_right fun _ => ih
  | call c k ih =>
    intro s
    refine and_congr_right fun _ => forall_congr' fun r => forall_congr' fun s' => ?_
    exact imp_congr_right fun _ => imp_congr_right fun _ => imp_congr_right fun _ => ih r

variable (W K) in
/-- The contract is kept by whatever the unknown code may do. -/
structure Invariant : Prop where
  /-- No time passes. -/
  refl : ∀ s, K.later s s
  /-- Time passes. -/
  trans : ∀ {s s' s''}, K.later s s' → K.later s' s'' → K.later s s''
  /-- A state in which the unknown code has control is allowed at that moment. -/
  moment : ∀ cs s, K.boundary cs s → K.moment s
  /-- The entry points are safe. -/
  entry : ∀ cs s e, K.boundary cs s → W.mayEnter cs s e →
    (W.entry e).Safe W K cs (fun _ s' => K.boundary cs s') s
  /-- The direct changes are harmless. -/
  act : ∀ cs s a, K.boundary cs s → W.mayAct cs s a →
    K.boundary cs (W.act a s) ∧ K.later s (W.act a s)

variable (W K) in
/-- What is left to do after each call in progress is safe, seen from the state
`s`, which is later than the one the call was made in. -/
def SafeStack (s : σ) : List (C × (ρ → Prog σ C ρ Unit)) → Prop
  | [] => True
  | (c, k) :: rest => SafeStack s rest ∧
      ∀ r s', K.later s s' → K.boundary (c :: rest.map Prod.fst) s' →
        W.mayReply (c :: rest.map Prod.fst) r s' →
        (k r).Safe W K (rest.map Prod.fst) (fun _ => K.boundary (rest.map Prod.fst)) s'

/-- A condition on the invocations that always holds is none. -/
theorem Invariant.of_restrict {P : List C → σ → E → Prop} (hI : Invariant (W.restrict P) K)
    (hP : ∀ cs s e, P cs s e) : Invariant W K where
  refl := hI.refl
  trans := hI.trans
  moment := hI.moment
  entry := fun cs s e h hmay => Prog.safe_restrict.mp (hI.entry cs s e h ⟨hmay, hP cs s e⟩)
  act := hI.act

theorem SafeStack.later (hI : Invariant W K) {s s' : σ} (hs : K.later s s') :
    ∀ {st : List (C × (ρ → Prog σ C ρ Unit))}, SafeStack W K s st → SafeStack W K s' st := by
  intro st
  induction st with
  | nil => intro _; trivial
  | cons ck rest ih =>
    intro h
    exact ⟨ih h.1, fun r t ht => h.2 r t (hI.trans hs ht)⟩

variable (W K) in
/-- The invariant of configurations that carries the induction over runs. -/
structure Config.Good (cfg : Config σ C ρ) : Prop where
  moment : K.moment cfg.state
  idle : cfg.running = none → K.boundary cfg.calls cfg.state
  running : ∀ p, cfg.running = some p →
    p.Safe W K cfg.calls (fun _ => K.boundary cfg.calls) cfg.state
  stack : SafeStack W K cfg.state cfg.pending

theorem Config.Good.tick (hI : Invariant W K) {cfg : Config σ C ρ} (h : cfg.Good W K) :
    cfg.tick.Good W K := by
  obtain ⟨s, running, pending⟩ := cfg
  cases running with
  | none => exact h
  | some p =>
    have hp := h.running p rfl
    cases p with
    | ret a => exact ⟨h.moment, fun _ => hp, fun _ hq => by simp [Config.tick] at hq, h.stack⟩
    | get k =>
      refine ⟨h.moment, fun hn => by simp [Config.tick] at hn, fun q hq => ?_, h.stack⟩
      simp only [Config.tick, Option.some.injEq] at hq
      exact hq ▸ hp
    | put s' k =>
      -- time passes for the calls in progress
      refine ⟨hp.1, fun hn => by simp [Config.tick] at hn, fun q hq => ?_,
        h.stack.later hI hp.2.1⟩
      simp only [Config.tick, Option.some.injEq] at hq
      exact hq ▸ hp.2.2
    | call c k =>
      -- the rest of the program is one more thing to be done
      exact ⟨hI.moment _ _ hp.1, fun _ => hp.1, fun _ hq => by simp [Config.tick] at hq,
        h.stack, hp.2⟩

theorem Config.Good.step (hI : Invariant W K) {cfg cfg' : Config σ C ρ}
    (h : cfg.Good W K) (hs : Step W cfg cfg') : cfg'.Good W K := by
  cases hs with
  | tick => exact h.tick hI
  | enter e hrun hmay =>
    refine ⟨h.moment, fun hn => by simp at hn, fun p hp => ?_, h.stack⟩
    simp only [Option.some.injEq] at hp
    exact hp ▸ hI.entry _ _ e (h.idle hrun) hmay
  | act a hrun hmay =>
    obtain ⟨hb, hl⟩ := hI.act _ _ _ (h.idle hrun) hmay
    exact ⟨hI.moment _ _ hb, fun _ => hb, fun p hp => by simp [hrun] at hp, h.stack.later hI hl⟩
  | reply r hmay =>
    refine ⟨h.moment, fun hn => by simp at hn, fun p hp => ?_, h.stack.1⟩
    simp only [Option.some.injEq] at hp
    exact hp ▸ h.stack.2 r _ (hI.refl _) (h.idle rfl) hmay

/-- What a good configuration leads to is good. -/
theorem Config.Good.steps (hI : Invariant W K) {cfg cfg' : Config σ C ρ} (h : cfg.Good W K)
    (hs : Relation.ReflTransGen (Step W) cfg cfg') : cfg'.Good W K := by
  induction hs with
  | refl => exact h
  | tail _ hs ih => exact ih.step hI hs

/-- **A safe program returns in a state that the contract allows.** -/
theorem Invariant.returns (hI : Invariant W K) {p : Prog σ C ρ Unit} {s s' : σ} (hs : K.moment s)
    (hp : p.Safe W K [] (fun _ => K.boundary []) s)
    (h : Relation.ReflTransGen (Step W) ⟨s, some p, []⟩ ⟨s', none, []⟩) : K.boundary [] s' := by
  have h₀ : Config.Good W K ⟨s, some p, []⟩ := by
    refine ⟨hs, fun hn => by simp at hn, fun q hq => ?_, trivial⟩
    simp only [Option.some.injEq] at hq
    exact hq ▸ hp
  exact (h₀.steps hI h).idle rfl

/-- **A contract holds in every reachable configuration**: its condition on
moments always, and the boundary condition whenever the unknown code has control. -/
theorem Invariant.reachable (hI : Invariant W K) {s₀ : σ} (h₀ : K.boundary [] s₀)
    {cfg : Config σ C ρ} (h : Reachable W s₀ cfg) :
    K.moment cfg.state ∧ (cfg.running = none → K.boundary cfg.calls cfg.state) := by
  have hidle : (Config.idle s₀).Good W K :=
    ⟨hI.moment _ _ h₀, fun _ => h₀, fun _ hp => by simp [Config.idle] at hp, trivial⟩
  have hgood := hidle.steps hI h
  exact ⟨hgood.moment, hgood.idle⟩

end Safe

end Callback
