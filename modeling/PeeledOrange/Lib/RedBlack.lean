import Mathlib.Data.Int.Order.Basic
import Mathlib.Data.List.Induction
import Mathlib.Data.Set.Basic

/-!
# Red-black trees

A map as a red-black tree, with the insertion of `java.util.TreeMap`.  An entry is
searched for from the root downwards.  A new entry is put where the search has ended, as
a red leaf; if it comes below another red entry, colours are changed from there upwards,
until there is nothing to be done, or a rotation or two end it.

Keys are compared by any function whose sign is looked at.  What a tree holds is the list
of its entries from left to right, which rotations leave alone.  If the function orders
the keys, this list is in order, and what has been put is found.

## Main definitions

* `Tree`, `Frame` — a tree, and a step on the way down into one.
* `rotateLeft`, `rotateRight`, `fixAfterInsertion`, `put`, `get` — the algorithms.
* `entries` — what a tree holds.
* `Orders`, `Sorted` — a function orders keys, and entries are in order.
* `PutInto` — an entry has been put into a list.
* `Reached` — where the search for a key has come to.
* `ofPuts`, `lastPut` — the tree of some `put`s, and the last one of a key.

## Main results

* `entries_fixAfterInsertion` — to repair a tree leaves its entries alone.
* `entries_put` — **an entry is put among the others, in order.**
* `get_put`, `get_ofPuts` — **what has been put last is found, if the keys are ordered.**
* `entries_ofPuts_of_sorted` — **entries that are put in order are those of the tree.**
-/

namespace RedBlack

/-- The colour of an entry. -/
inductive Color
  | red | black
  deriving DecidableEq, Repr

variable {κ ν : Type}

/-- A tree of entries. -/
inductive Tree (κ ν : Type)
  | nil
  | node (color : Color) (left : Tree κ ν) (entry : κ × ν) (right : Tree κ ν)

/-- Which child the search went on with. -/
inductive Dir
  | left | right
  deriving DecidableEq, Repr

/-- The other child. -/
def Dir.other : Dir → Dir
  | left => right
  | right => left

/-- A step of the search: an entry, and its child that the search did not go on with. -/
structure Frame (κ ν : Type) where
  dir : Dir
  color : Color
  entry : κ × ν
  sibling : Tree κ ν

/-! ### The algorithms -/

/-- A tree in the place that the search went on with. -/
def Frame.attach (f : Frame κ ν) (t : Tree κ ν) : Tree κ ν :=
  match f.dir with
  | .left => .node f.color t f.entry f.sibling
  | .right => .node f.color f.sibling f.entry t

/-- A tree in the place that a search came to; the last step comes first. -/
def plug : Tree κ ν → List (Frame κ ν) → Tree κ ν
  | t, [] => t
  | t, f :: path => plug (f.attach t) path

/-- `colorOf`; where there is no entry, it is black. -/
def colorOf : Tree κ ν → Color
  | .nil => .black
  | .node color _ _ _ => color

/-- `setColor`. -/
def setColor (color : Color) : Tree κ ν → Tree κ ν
  | .nil => .nil
  | .node _ left entry right => .node color left entry right

/-- `rotateLeft`. -/
def rotateLeft : Tree κ ν → Tree κ ν
  | .node c l e (.node c' l' e' r') => .node c' (.node c l e l') e' r'
  | t => t

/-- `rotateRight`. -/
def rotateRight : Tree κ ν → Tree κ ν
  | .node c (.node c' l' e' r') e r => .node c' l' e' (.node c r' e r)
  | t => t

/-- The rotation that moves the root down on this side. -/
def rotate : Dir → Tree κ ν → Tree κ ν
  | .left => rotateLeft
  | .right => rotateRight

/-- `fixAfterInsertion`, for a red entry at the root of a tree `x` and the steps to it:
its parent, its grandparent and so on.  The root of the whole tree is not red. -/
def fixAfterInsertion : Tree κ ν → List (Frame κ ν) → Tree κ ν
  | x, [] => x
  | x, [parent] => parent.attach x
  | x, parent :: grandparent :: path =>
    if parent.color = .black then plug x (parent :: grandparent :: path)
    else if colorOf grandparent.sibling = .red then
      -- the grandparent becomes red, and its two children black
      let p := { parent with color := .black }.attach x
      let g := { grandparent with color := .red, sibling := setColor .black grandparent.sibling }
      fixAfterInsertion (g.attach p) path
    else
      -- an inner grandchild is moved to the outside first
      let p := if parent.dir = grandparent.dir then parent.attach x
        else rotate grandparent.dir (parent.attach x)
      let g := { grandparent with color := .red }
      plug (rotate grandparent.dir.other (g.attach (setColor .black p))) path

variable (cmp : κ → κ → ℤ)

/-- The search for the place of a key, below the steps that it has made, and what is put
there. -/
def putAt (key : κ) (value : ν) : Tree κ ν → List (Frame κ ν) → Tree κ ν
  | .nil, path => setColor .black (fixAfterInsertion (.node .red .nil (key, value) .nil) path)
  | .node c l e r, path =>
    if cmp key e.1 < 0 then putAt key value l (⟨.left, c, e, r⟩ :: path)
    else if 0 < cmp key e.1 then putAt key value r (⟨.right, c, e, l⟩ :: path)
    else plug (.node c l (e.1, value) r) path

/-- `put`. -/
def put (t : Tree κ ν) (key : κ) (value : ν) : Tree κ ν := putAt cmp key value t []

/-- `get`. -/
def get (key : κ) : Tree κ ν → Option ν
  | .nil => none
  | .node _ l e r =>
    if cmp key e.1 < 0 then get key l
    else if 0 < cmp key e.1 then get key r
    else some e.2

/-- The tree that `put`s make, in order. -/
def ofPuts (puts : List (κ × ν)) : Tree κ ν := puts.foldl (fun t e => put cmp t e.1 e.2) .nil

/-! ### What a tree holds -/

/-- The entries of a tree, from left to right. -/
def entries : Tree κ ν → List (κ × ν)
  | .nil => []
  | .node _ l e r => entries l ++ e :: entries r

/-- The entries to the left of the place that a search came to. -/
def before : List (Frame κ ν) → List (κ × ν)
  | [] => []
  | ⟨.left, _, _, _⟩ :: path => before path
  | ⟨.right, _, e, t⟩ :: path => before path ++ (entries t ++ [e])

/-- The entries to the right of it. -/
def after : List (Frame κ ν) → List (κ × ν)
  | [] => []
  | ⟨.left, _, e, t⟩ :: path => e :: entries t ++ after path
  | ⟨.right, _, _, _⟩ :: path => after path

@[simp] theorem entries_setColor (color : Color) (t : Tree κ ν) :
    entries (setColor color t) = entries t := by
  cases t <;> rfl

@[simp] theorem entries_rotateLeft (t : Tree κ ν) : entries (rotateLeft t) = entries t := by
  match t with
  | .nil => rfl
  | .node _ _ _ .nil => rfl
  | .node _ _ _ (.node _ _ _ _) => simp [rotateLeft, entries]

@[simp] theorem entries_rotateRight (t : Tree κ ν) : entries (rotateRight t) = entries t := by
  match t with
  | .nil => rfl
  | .node _ .nil _ _ => rfl
  | .node _ (.node _ _ _ _) _ _ => simp [rotateRight, entries]

@[simp] theorem entries_rotate (dir : Dir) (t : Tree κ ν) : entries (rotate dir t) = entries t := by
  cases dir with
  | left => exact entries_rotateLeft t
  | right => exact entries_rotateRight t

theorem entries_plug (t : Tree κ ν) (path : List (Frame κ ν)) :
    entries (plug t path) = before path ++ entries t ++ after path := by
  induction path generalizing t with
  | nil => simp [plug, before, after]
  | cons f path ih =>
    obtain ⟨dir, c, e, s⟩ := f
    rw [plug, ih]
    cases dir <;> simp [Frame.attach, entries, before, after]

/-- Colours, and how the tree is put together, do not matter to the entries. -/
theorem entries_attach_congr {f f' : Frame κ ν} {t t' : Tree κ ν} (hdir : f.dir = f'.dir)
    (hentry : f.entry = f'.entry) (hsibling : entries f.sibling = entries f'.sibling)
    (ht : entries t = entries t') : entries (f.attach t) = entries (f'.attach t') := by
  obtain ⟨dir, c, e, s⟩ := f
  obtain ⟨dir', c', e', s'⟩ := f'
  cases hdir
  cases hentry
  cases dir <;> simp_all [Frame.attach, entries]

/-- **To repair a tree leaves its entries alone.** -/
theorem entries_fixAfterInsertion (x : Tree κ ν) (path : List (Frame κ ν)) :
    entries (fixAfterInsertion x path) = before path ++ entries x ++ after path := by
  rw [← entries_plug]
  induction path using List.twoStepInduction generalizing x with
  | nil => rfl
  | singleton parent => rfl
  | cons_cons parent grandparent path ih _ =>
    rw [fixAfterInsertion]
    split
    · rfl
    · split
      · rw [ih, plug, plug, entries_plug, entries_plug]
        congr 2
        exact entries_attach_congr rfl rfl (entries_setColor _ _)
          (entries_attach_congr rfl rfl rfl rfl)
      · rw [plug, plug, entries_plug, entries_plug, entries_rotate]
        congr 2
        refine entries_attach_congr rfl rfl rfl ?_
        rw [entries_setColor]
        split
        · rfl
        · exact entries_rotate _ _

/-! ### Keys that are ordered -/

/-- The function orders these keys, and is 0 for equal ones alone. -/
structure Orders (K : Set κ) : Prop where
  sign : ∀ a ∈ K, ∀ b ∈ K, (cmp a b).sign = -(cmp b a).sign
  trans : ∀ a ∈ K, ∀ b ∈ K, ∀ c ∈ K, cmp a b < 0 → cmp b c < 0 → cmp a c < 0
  eq_zero : ∀ a ∈ K, ∀ b ∈ K, cmp a b = 0 ↔ a = b

/-- The keys of the entries are among these, and in order. -/
structure Sorted (K : Set κ) (l : List (κ × ν)) : Prop where
  keys : ∀ e ∈ l, e.1 ∈ K
  pairwise : l.Pairwise fun e e' => cmp e.1 e'.1 < 0

/-- An entry has been put into a list: between the smaller keys and the larger ones, for
what was there with its own key. -/
def PutInto (key : κ) (value : ν) (l l' : List (κ × ν)) : Prop :=
  ∃ pre old post, l = pre ++ (old ++ post) ∧ l' = pre ++ (key, value) :: post ∧
    (∀ x ∈ old, x.1 = key) ∧ (∀ x ∈ pre, cmp x.1 key < 0) ∧ ∀ x ∈ post, cmp key x.1 < 0

variable {cmp} {K : Set κ} {key : κ} {value : ν}

theorem Orders.neg_of_pos (hK : Orders cmp K) {a b : κ} (ha : a ∈ K) (hb : b ∈ K)
    (h : 0 < cmp a b) : cmp b a < 0 := by
  have hsign := hK.sign b hb a ha
  rw [Int.sign_eq_one_of_pos h] at hsign
  exact Int.sign_eq_neg_one_iff_neg.mp hsign

theorem Orders.ne_of_neg (hK : Orders cmp K) {a b : κ} (ha : a ∈ K) (hb : b ∈ K)
    (h : cmp a b < 0) : a ≠ b := by
  intro heq
  have hzero := (hK.eq_zero a ha b hb).mpr heq
  omega

namespace Sorted

theorem sublist {l l' : List (κ × ν)} (h : Sorted cmp K l) (hsub : l'.Sublist l) :
    Sorted cmp K l' :=
  ⟨fun e he => h.keys e (hsub.subset he), h.pairwise.sublist hsub⟩

theorem left {c : Color} {l r : Tree κ ν} {e : κ × ν} (h : Sorted cmp K (entries (.node c l e r))) :
    Sorted cmp K (entries l) := h.sublist (List.sublist_append_left _ _)

theorem right {c : Color} {l r : Tree κ ν} {e : κ × ν}
    (h : Sorted cmp K (entries (.node c l e r))) : Sorted cmp K (entries r) :=
  h.sublist ((List.sublist_cons_self _ _).trans (List.sublist_append_right _ _))

/-- The entry at the root is between those to its left and those to its right. -/
theorem root {c : Color} {l r : Tree κ ν} {e : κ × ν} (h : Sorted cmp K (entries (.node c l e r))) :
    e.1 ∈ K ∧ (∀ x ∈ entries l, cmp x.1 e.1 < 0) ∧ ∀ x ∈ entries r, cmp e.1 x.1 < 0 := by
  obtain ⟨-, hright, hcross⟩ := List.pairwise_append.mp h.pairwise
  exact ⟨h.keys e (List.mem_append_right _ List.mem_cons_self),
    fun x hx => hcross x hx e List.mem_cons_self, (List.pairwise_cons.mp hright).1⟩

/-- What has been put into a list that is in order leaves it in order. -/
theorem putInto {l l' : List (κ × ν)} (h : Sorted cmp K l) (hkey : key ∈ K)
    (hput : PutInto cmp key value l l') : Sorted cmp K l' := by
  obtain ⟨pre, old, post, rfl, rfl, -, hpre, hpost⟩ := hput
  obtain ⟨hleft, hright, hcross⟩ := List.pairwise_append.mp h.pairwise
  constructor
  · intro x hx
    rcases List.mem_append.mp hx with hx | hx
    · exact h.keys x (List.mem_append_left _ hx)
    · rcases List.mem_cons.mp hx with rfl | hx
      · exact hkey
      · exact h.keys x (List.mem_append_right _ (List.mem_append_right _ hx))
  · refine List.pairwise_append.mpr ⟨hleft, ?_, ?_⟩
    · exact List.pairwise_cons.mpr ⟨hpost, (List.pairwise_append.mp hright).2.1⟩
    · intro x hx y hy
      rcases List.mem_cons.mp hy with rfl | hy
      · exact hpre x hx
      · exact hcross x hx y (List.mem_append_right _ hy)

/-- It is there with its value, and everything with another key as before. -/
theorem mem_putInto (hK : Orders cmp K) {l l' : List (κ × ν)} (h : Sorted cmp K l) (hkey : key ∈ K)
    (hput : PutInto cmp key value l l') (x : κ × ν) :
    x ∈ l' ↔ x = (key, value) ∨ x.1 ≠ key ∧ x ∈ l := by
  obtain ⟨pre, old, post, rfl, rfl, hold, hpre, hpost⟩ := hput
  have hleft : x ∈ pre → x.1 ≠ key := fun hx =>
    hK.ne_of_neg (h.keys x (List.mem_append_left _ hx)) hkey (hpre x hx)
  have hright : x ∈ post → x.1 ≠ key := fun hx =>
    (hK.ne_of_neg hkey (h.keys x (List.mem_append_right _ (List.mem_append_right _ hx)))
      (hpost x hx)).symm
  simp only [List.mem_append, List.mem_cons]
  constructor
  · rintro (hx | hx | hx)
    · exact .inr ⟨hleft hx, .inl hx⟩
    · exact .inl hx
    · exact .inr ⟨hright hx, .inr (.inr hx)⟩
  · rintro (hx | ⟨hne, hx | hx | hx⟩)
    · exact .inr (.inl hx)
    · exact .inl hx
    · exact absurd (hold x hx) hne
    · exact .inr (.inr hx)

end Sorted

/-- The search for a key has come to a tree: the key belongs between the entries to the left
of it and those to the right. -/
structure Reached (cmp : κ → κ → ℤ) (K : Set κ) (key : κ) (t : Tree κ ν) (path : List (Frame κ ν)) :
    Prop where
  sorted : Sorted cmp K (entries (plug t path))
  before_lt : ∀ x ∈ before path, cmp x.1 key < 0
  lt_after : ∀ x ∈ after path, cmp key x.1 < 0

namespace Reached

variable {c : Color} {l r : Tree κ ν} {e : κ × ν} {path : List (Frame κ ν)}

theorem subtree {t : Tree κ ν} (h : Reached cmp K key t path) : Sorted cmp K (entries t) := by
  have hsorted := h.sorted
  rw [entries_plug] at hsorted
  exact hsorted.sublist ((List.sublist_append_right _ _).trans (List.sublist_append_left _ _))

/-- A step to the left leaves the entry and what is to its right behind. -/
theorem left (hK : Orders cmp K) (hkey : key ∈ K) (h : Reached cmp K key (.node c l e r) path)
    (hneg : cmp key e.1 < 0) : Reached cmp K key l (⟨.left, c, e, r⟩ :: path) where
  sorted := h.sorted
  before_lt := h.before_lt
  lt_after x hx := by
    obtain ⟨he, -, hr⟩ := h.subtree.root
    simp only [after, List.cons_append, List.mem_cons, List.mem_append] at hx
    rcases hx with rfl | hx | hx
    · exact hneg
    · exact hK.trans key hkey e.1 he x.1 (h.subtree.right.keys x hx) hneg (hr x hx)
    · exact h.lt_after x hx

/-- A step to the right leaves the entry and what is to its left behind. -/
theorem right (hK : Orders cmp K) (hkey : key ∈ K) (h : Reached cmp K key (.node c l e r) path)
    (hpos : 0 < cmp key e.1) : Reached cmp K key r (⟨.right, c, e, l⟩ :: path) where
  sorted := h.sorted
  before_lt x hx := by
    obtain ⟨he, hl, -⟩ := h.subtree.root
    have hback := hK.neg_of_pos hkey he hpos
    simp only [before, List.mem_append, List.mem_singleton] at hx
    rcases hx with hx | hx | rfl
    · exact h.before_lt x hx
    · exact hK.trans x.1 (h.subtree.left.keys x hx) e.1 he key hkey (hl x hx) hback
    · exact hback
  lt_after := h.lt_after

/-- Where there is no entry, a new one is put. -/
theorem putInto_nil (h : Reached cmp K key .nil path) :
    PutInto cmp key value (entries (plug .nil path)) (entries (putAt cmp key value .nil path)) := by
  refine ⟨before path, [], after path, ?_, ?_, fun _ hx => absurd hx List.not_mem_nil,
    h.before_lt, h.lt_after⟩
  · simp [entries_plug, entries]
  · rw [putAt, entries_setColor, entries_fixAfterInsertion]
    simp [entries]

/-- Where the key is, its value is replaced. -/
theorem putInto_node (h : Reached cmp K key (.node c l e r) path) (heq : key = e.1) :
    PutInto cmp key value (entries (plug (.node c l e r) path))
      (entries (plug (.node c l (e.1, value) r) path)) := by
  obtain ⟨-, hl, hr⟩ := h.subtree.root
  refine ⟨before path ++ entries l, [e], entries r ++ after path, ?_, ?_, ?_, ?_, ?_⟩
  · simp [entries_plug, entries]
  · simp [entries_plug, entries, heq]
  · intro x hx
    rw [List.mem_singleton.mp hx, heq]
  · intro x hx
    rcases List.mem_append.mp hx with hx | hx
    · exact h.before_lt x hx
    · rw [heq]
      exact hl x hx
  · intro x hx
    rcases List.mem_append.mp hx with hx | hx
    · rw [heq]
      exact hr x hx
    · exact h.lt_after x hx

end Reached

/-- **An entry is put among all the entries, wherever the search for its key has come to.** -/
theorem entries_putAt (hK : Orders cmp K) (hkey : key ∈ K) {t : Tree κ ν} {path : List (Frame κ ν)}
    (h : Reached cmp K key t path) :
    PutInto cmp key value (entries (plug t path)) (entries (putAt cmp key value t path)) := by
  induction t generalizing path with
  | nil => exact h.putInto_nil
  | node c l e r ihl ihr =>
    rw [putAt]
    by_cases hneg : cmp key e.1 < 0
    · rw [if_pos hneg]
      exact ihl (h.left hK hkey hneg)
    · rw [if_neg hneg]
      by_cases hpos : 0 < cmp key e.1
      · rw [if_pos hpos]
        exact ihr (h.right hK hkey hpos)
      · have heq : key = e.1 := (hK.eq_zero key hkey e.1 h.subtree.root.1).mp (by omega)
        rw [if_neg hpos]
        exact h.putInto_node heq

/-- **An entry is put among the others, in order.** -/
theorem entries_put (hK : Orders cmp K) (hkey : key ∈ K) {t : Tree κ ν}
    (ht : Sorted cmp K (entries t)) :
    PutInto cmp key value (entries t) (entries (put cmp t key value)) :=
  @entries_putAt κ ν cmp K key value hK hkey t []
    ⟨ht, fun _ hx => absurd hx List.not_mem_nil, fun _ hx => absurd hx List.not_mem_nil⟩

/-- What is found at a key is what the tree holds there. -/
theorem get_eq_some_iff (hK : Orders cmp K) (hkey : key ∈ K) {t : Tree κ ν}
    (ht : Sorted cmp K (entries t)) : get cmp key t = some value ↔ (key, value) ∈ entries t := by
  have hself : ¬cmp key key < 0 := fun h => hK.ne_of_neg hkey hkey h rfl
  induction t with
  | nil => simp [get, entries]
  | node c l e r ihl ihr =>
    obtain ⟨he, hl, hr⟩ := ht.root
    simp only [get, entries, List.mem_append, List.mem_cons]
    by_cases hneg : cmp key e.1 < 0
    · have hroot : (key, value) ≠ e := by
        rintro rfl
        exact hself hneg
      have hright : (key, value) ∉ entries r := fun hx =>
        hself (hK.trans _ hkey _ he _ hkey hneg (hr _ hx))
      rw [if_pos hneg]
      exact (ihl ht.left).trans (by simp [hroot, hright])
    · rw [if_neg hneg]
      by_cases hpos : 0 < cmp key e.1
      · have hback := hK.neg_of_pos hkey he hpos
        have hroot : (key, value) ≠ e := by
          rintro rfl
          exact hself hback
        have hleft : (key, value) ∉ entries l := fun hx =>
          hself (hK.trans _ hkey _ he _ hkey (hl _ hx) hback)
        rw [if_pos hpos]
        exact (ihr ht.right).trans (by simp [hroot, hleft])
      · obtain rfl : key = e.1 := (hK.eq_zero key hkey e.1 he).mp (by omega)
        have hleft : (e.1, value) ∉ entries l := fun hx => hself (hl (e.1, value) hx)
        have hright : (e.1, value) ∉ entries r := fun hx => hself (hr (e.1, value) hx)
        have hroot : (e.1, value) = e ↔ e.2 = value :=
          ⟨fun h => (congrArg Prod.snd h).symm, fun h => Prod.ext rfl h.symm⟩
        rw [if_neg hpos, Option.some.injEq]
        simp [hleft, hright, hroot]

/-! ### Runs -/

variable [DecidableEq κ]

/-- **What has been put last is found, and everything else as before.** -/
theorem get_put (hK : Orders cmp K) (hkey : key ∈ K) {t : Tree κ ν}
    (ht : Sorted cmp K (entries t)) {key' : κ} (hkey' : key' ∈ K) :
    get cmp key' (put cmp t key value) = if key' = key then some value else get cmp key' t := by
  have hput := @entries_put κ ν cmp K key value hK hkey t ht
  refine Option.ext fun v => ?_
  rw [get_eq_some_iff hK hkey' (ht.putInto hkey hput), ht.mem_putInto hK hkey hput]
  split
  next heq => simp [heq, eq_comm]
  next hne => simp [hne, get_eq_some_iff hK hkey' ht]

/-- The value that has been put last at a key. -/
def lastPut : List (κ × ν) → κ → Option ν
  | [], _ => none
  | e :: puts, key => (lastPut puts key).or (if key = e.1 then some e.2 else none)

/-- **What has been put last at a key is found there.** -/
theorem get_ofPuts (hK : Orders cmp K) {puts : List (κ × ν)} (hputs : ∀ e ∈ puts, e.1 ∈ K)
    (hkey : key ∈ K) : get cmp key (ofPuts cmp puts) = lastPut puts key := by
  -- from any tree in order, with what is there where nothing is put
  have hfrom : ∀ t : Tree κ ν, Sorted cmp K (entries t) →
      get cmp key (puts.foldl (fun t e => put cmp t e.1 e.2) t) =
        (lastPut puts key).or (get cmp key t) := by
    induction puts with
    | nil => exact fun _ _ => rfl
    | cons e puts ih =>
      intro t ht
      have he : e.1 ∈ K := hputs e List.mem_cons_self
      rw [List.foldl_cons, ih (fun x hx => hputs x (List.mem_cons_of_mem _ hx)) _
        (ht.putInto he (entries_put hK he ht)), get_put hK he ht hkey, lastPut, Option.or_assoc]
      split <;> rfl
  rw [ofPuts, hfrom .nil ⟨fun _ hx => absurd hx List.not_mem_nil, List.Pairwise.nil⟩]
  exact Option.or_none

/-! ### Passes over a tree -/

omit [DecidableEq κ] in
theorem ofPuts_append (puts : List (κ × ν)) (e : κ × ν) :
    ofPuts cmp (puts ++ [e]) = put cmp (ofPuts cmp puts) e.1 e.2 := by
  rw [ofPuts, List.foldl_append]
  rfl

omit [DecidableEq κ] in
/-- Whatever a search comes to, nothing is in the tree after it but what has been there and
what is put. -/
theorem mem_entries_putAt {t : Tree κ ν} {path : List (Frame κ ν)} {x : κ × ν}
    (hx : x ∈ entries (putAt cmp key value t path)) :
    x ∈ entries (plug t path) ∨ x.2 = value := by
  induction t generalizing path with
  | nil =>
    rw [putAt, entries_setColor, entries_fixAfterInsertion] at hx
    rw [entries_plug]
    simp only [entries, List.nil_append, List.append_nil, List.mem_append, List.mem_singleton]
      at hx ⊢
    rcases hx with (hx | rfl) | hx
    · exact .inl (.inl hx)
    · exact .inr rfl
    · exact .inl (.inr hx)
  | node c l e r ihl ihr =>
    rw [putAt] at hx
    split_ifs at hx
    · exact ihl hx
    · exact ihr hx
    · rw [entries_plug] at hx ⊢
      simp only [entries, List.mem_append, List.mem_cons] at hx ⊢
      rcases hx with (hx | hx | rfl | hx) | hx
      · exact .inl (.inl (.inl hx))
      · exact .inl (.inl (.inr (.inl hx)))
      · exact .inr rfl
      · exact .inl (.inl (.inr (.inr (.inr hx))))
      · exact .inl (.inr hx)

omit [DecidableEq κ] in
/-- Each value of a tree has been put. -/
theorem exists_put_of_mem {puts : List (κ × ν)} {x : κ × ν} (hx : x ∈ entries (ofPuts cmp puts)) :
    ∃ e ∈ puts, x.2 = e.2 := by
  induction puts using List.reverseRecOn with
  | nil => exact absurd hx List.not_mem_nil
  | append_singleton puts e ih =>
    rw [ofPuts_append] at hx
    rcases mem_entries_putAt hx with hx | hx
    · obtain ⟨e', he', hvalue⟩ := ih hx
      exact ⟨e', List.mem_append_left _ he', hvalue⟩
    · exact ⟨e, List.mem_append_right _ (List.mem_singleton_self e), hx⟩

omit [DecidableEq κ] in
/-- A tree is in order, whatever the order of its `put`s. -/
theorem sorted_ofPuts (hK : Orders cmp K) {puts : List (κ × ν)} (hputs : ∀ e ∈ puts, e.1 ∈ K) :
    Sorted cmp K (entries (ofPuts cmp puts)) := by
  induction puts using List.reverseRecOn with
  | nil => exact ⟨fun _ hx => absurd hx List.not_mem_nil, List.Pairwise.nil⟩
  | append_singleton puts e ih =>
    have he : e.1 ∈ K := hputs e (List.mem_append_right _ (List.mem_singleton_self e))
    have hsorted := ih fun x hx => hputs x (List.mem_append_left _ hx)
    rw [ofPuts_append]
    exact hsorted.putInto he (entries_put hK he hsorted)

omit [DecidableEq κ] in
/-- What matters to the order are the keys. -/
theorem Sorted.map {l : List (κ × ν)} (h : Sorted cmp K l) (f : ν → ν) :
    Sorted cmp K (l.map fun e => (e.1, f e.2)) := by
  constructor
  · intro x hx
    obtain ⟨e, he, rfl⟩ := List.mem_map.mp hx
    exact h.keys e he
  · rw [List.pairwise_map]
    exact h.pairwise

omit [DecidableEq κ] in
/-- **Entries that are put in order are those of the tree.** -/
theorem entries_ofPuts_of_sorted (hK : Orders cmp K) {l : List (κ × ν)} (h : Sorted cmp K l) :
    entries (ofPuts cmp l) = l := by
  induction l using List.reverseRecOn with
  | nil => rfl
  | append_singleton l e ih =>
    have hl : Sorted cmp K l := h.sublist (List.sublist_append_left l [e])
    have he : e.1 ∈ K := h.keys e (List.mem_append_right _ (List.mem_singleton_self e))
    obtain ⟨-, -, hcross⟩ := List.pairwise_append.mp h.pairwise
    have hlast : ∀ x ∈ l, cmp x.1 e.1 < 0 := fun x hx => hcross x hx e (List.mem_singleton_self e)
    have hself : ¬cmp e.1 e.1 < 0 := fun hneg => hK.ne_of_neg he he hneg rfl
    have htree := ih hl
    obtain ⟨pre, old, post, hold, hnew, hkeys, -, hpost⟩ :=
      @entries_put κ ν cmp K e.1 e.2 hK he _ (htree ▸ hl)
    rw [htree] at hold
    -- all other keys are smaller, so that the entry is the last one
    obtain rfl : old = [] := List.eq_nil_iff_forall_not_mem.mpr fun x hx => by
      have hneg := hlast x (by rw [hold]; simp [hx])
      rw [hkeys x hx] at hneg
      exact hself hneg
    obtain rfl : post = [] := List.eq_nil_iff_forall_not_mem.mpr fun x hx => by
      have hmem : x ∈ l := by rw [hold]; simp [hx]
      exact hself (hK.trans _ he _ (hl.keys x hmem) _ he (hpost x hx) (hlast x hmem))
    rw [ofPuts_append, hnew, hold]
    simp

end RedBlack
