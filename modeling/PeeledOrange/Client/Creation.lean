import PeeledOrange.Client.RoundTrip
import PeeledOrange.Client.Sent
import Mathlib.Data.List.Nodup

/-!
# Packet IDs that are drawn

Each task draws a packet ID when it is made, by whichever function makes it.  What has
been read has the packet ID of its packet in the end, but has drawn one all the same,
unless it has no header.

The IDs go round a cycle of 65534: the counter is set back to 1 when it has come to
65535, before it is given out.

## Main definitions

* `create`, `createConnect`, `createGetAllDescriptors`, `createPing`, `createObtained` — the
  functions that make tasks.
* `Creation` — a call of one of them; `Creation.run` — what it makes.
* `after`, `drawnBy` — the counter after calls, and the IDs that they have drawn.
* `DrawsApart` — the IDs that calls draw do not collide early.

## Main results

* `toNat_nthID` — the cycle.
* `drawnBy_eq` — calls draw IDs of the cycle, one after the other.
* `drawsApart` — **packet IDs do not collide early.**
-/

namespace PeeledOrange
namespace Client

open Java

/-! ### The functions that make tasks -/

/-- The value of a string; `null` is an object of none of the classes. -/
def ofString (utf8 : Charset) : Option String → AttributeValue
  | some s => setValue utf8 (.string s)
  -- the last branch stores the integer 0
  | none => setValue utf8 (.integer 0)

/-- `GET_DESCRIPTORS_FLAG`. -/
def getDescriptorsFlag : BitVec 8 := 1

/-- `GET_PROFILE_FLAG`. -/
def getProfileFlag : BitVec 8 := 2

/-- `GET_CHILDREN_FLAG`. -/
def getChildrenFlag : BitVec 8 := 4

/-- `create`. -/
def create (cmd : Commands) (es : List EntityL) (ID : BitVec 32) :
    Except Throwable EavTask × BitVec 32 :=
  let (task, ID) := EavTask.new none ID
  (setRequestData { task with command := cmd, messageType := .task } es, ID)

/-- `createConnect`. -/
def createConnect (utf8 : Charset) (clientID pass : Option String) (ID : BitVec 32) :
    Except Throwable EavTask × BitVec 32 :=
  let (task, ID) := EavTask.new (some "CONNECT") ID
  let flags := getDescriptorsFlag ||| getProfileFlag ||| getChildrenFlag
  let e : EntityL := ⟨0, 2, [⟨0, 1000, ofString utf8 clientID⟩, ⟨0, 1001, ofString utf8 pass⟩,
    ⟨0, 1123, setValue utf8 (.byte flags)⟩]⟩
  (setRequestData { task with messageType := .connect } [e], ID)

/-- `createGetAllDescriptors`. -/
def createGetAllDescriptors (ID : BitVec 32) : Except Throwable EavTask × BitVec 32 :=
  let (task, ID) := EavTask.new (some "DESCRIPTORS") ID
  (setRequestData { task with messageType := .task, command := .readAllDescrs } [], ID)

/-- `createPing`. -/
def createPing (ID : BitVec 32) : Except Throwable EavTask × BitVec 32 :=
  let (task, ID) := EavTask.new (some "PING") ID
  (setRequestData { task with messageType := .ping } [], ID)

/-- `createObtained`. -/
def createObtained (name : Option String) (ID : BitVec 32) : EavTask × BitVec 32 :=
  let (task, ID) := EavTask.new name ID
  ({ task with status := .obtained }, ID)

/-- A call of a function that makes a task. -/
inductive Creation
  | create (cmd : Commands) (es : List EntityL)
  | createConnect (clientID pass : Option String)
  | createGetAllDescriptors
  | createPing
  | createObtained (name : Option String)
  | createFromArray (fuel : ℕ) (buf : ByteBuffer)

variable (utf8 : Charset)

namespace Creation

/-- What a call makes, and `ID` after it. -/
def run : Creation → BitVec 32 → Option (Except Throwable EavTask) × BitVec 32
  | create cmd es, ID => (Client.create cmd es ID).map some id
  | createConnect clientID pass, ID => (Client.createConnect utf8 clientID pass ID).map some id
  | createGetAllDescriptors, ID => (Client.createGetAllDescriptors ID).map some id
  | createPing, ID => (Client.createPing ID).map some id
  | createObtained name, ID => (Client.createObtained name ID).map (fun task => some (.ok task)) id
  | createFromArray fuel buf, ID => Client.createFromArray utf8 fuel ID buf

/-- The packet IDs that a call draws: one, but for a packet with no header. -/
def draws : Creation → BitVec 32 → List (BitVec 32)
  | createFromArray _ buf, ID =>
    match readHeader buf with
    | .error _ => []
    | .ok _ => [(getIncrementID ID).1]
  | _, ID => [(getIncrementID ID).1]

/-- The task of a call keeps the packet ID that it has drawn. -/
def Keeps : Creation → Prop
  | createFromArray _ _ => False
  | _ => True

end Creation

/-- `ID` after calls. -/
def after : List Creation → BitVec 32 → BitVec 32
  | [], ID => ID
  | c :: cs, ID => after cs (c.run utf8 ID).2

/-- The packet IDs that calls draw, in order. -/
def drawnBy : List Creation → BitVec 32 → List (BitVec 32)
  | [], _ => []
  | c :: cs, ID => c.draws ID ++ drawnBy cs (c.run utf8 ID).2

/-- The packet IDs that calls draw do not collide early. -/
structure DrawsApart (cs : List Creation) : Prop where
  /-- An ID that is drawn is no wider than two bytes, and neither 0 nor 0xFFFF. -/
  range : ∀ id ∈ drawnBy utf8 cs 1, 1 ≤ id.toNat ∧ id.toNat ≤ 65534
  /-- Of 65534 draws one after the other, no two are equal. -/
  distinct : ∀ i, (((drawnBy utf8 cs 1).drop i).take 65534).Nodup
  /-- The packet ID of a task that keeps it is the one that has been drawn for it. -/
  keeps : ∀ pre c since task, cs = pre ++ c :: since → c.Keeps →
    (c.run utf8 (after utf8 pre 1)).1 = some (.ok task) →
      c.draws (after utf8 pre 1) = [task.packetID]
  /-- It is not drawn once more while fewer than 65534 tasks have been made since. -/
  outstanding : ∀ pre c since task, cs = pre ++ c :: since → c.Keeps →
    (c.run utf8 (after utf8 pre 1)).1 = some (.ok task) →
      (drawnBy utf8 since (after utf8 (pre ++ [c]) 1)).length < 65534 →
        task.packetID ∉ drawnBy utf8 since (after utf8 (pre ++ [c]) 1)

variable {utf8}

/-! ### The cycle -/

/-- The packet ID that is drawn after `n` others. -/
def nthID (n : ℕ) : BitVec 32 := (getIncrementID (drawn n)).1

theorem toNat_drawn_succ (n : ℕ) : (drawn (n + 1)).toNat = (nthID n).toNat + 1 := by
  have hle := (getIncrementID_le (drawn_le n)).1
  exact toNat_add_one (hle.trans (by decide))

/-- **The cycle: 1 comes after 65534.** -/
theorem toNat_nthID (n : ℕ) : (nthID n).toNat = n % 65534 + 1 := by
  induction n with
  | zero => rfl
  | succ n ih =>
    have hdrawn := toNat_drawn_succ n
    rw [nthID, toNat_getIncrementID (drawn_le _), hdrawn, ih]
    split <;> omega

theorem nodup_nthID {n m : ℕ} (hm : m ≤ 65534) : ((List.range' n m).map nthID).Nodup := by
  refine List.Nodup.map_on (fun i hi j hj heq => ?_) List.nodup_range'
  have hnat := congrArg BitVec.toNat heq
  rw [toNat_nthID, toNat_nthID] at hnat
  rw [List.mem_range'_1] at hi hj
  omega

/-- An ID is not drawn again before 65534 others have been. -/
theorem nthID_notMem {n m : ℕ} (hm : m < 65534) : nthID n ∉ (List.range' (n + 1) m).map nthID := by
  have hall := @nodup_nthID n (m + 1) hm
  rw [List.range'_succ, List.map_cons, List.nodup_cons] at hall
  exact hall.1

/-! ### Calls -/

/-- **A call draws the next ID of the cycle, or none.** -/
theorem Creation.run_drawn (c : Creation) (n : ℕ) :
    ∃ m ≤ 1, c.draws (drawn n) = (List.range' n m).map nthID ∧
      (c.run utf8 (drawn n)).2 = drawn (n + m) := by
  cases c with
  | createFromArray fuel buf =>
    rw [draws, run, Client.createFromArray]
    cases readHeader buf with
    | error e => exact ⟨0, by decide, rfl, rfl⟩
    | ok h =>
      refine ⟨1, by decide, rfl, ?_⟩
      -- the ID has been drawn whatever becomes of the packet
      dsimp only
      split <;> rfl
  | _ => exact ⟨1, by decide, rfl, rfl⟩

/-- **Calls draw IDs of the cycle, one after the other.** -/
theorem drawnBy_eq (cs : List Creation) (n : ℕ) :
    ∃ m, drawnBy utf8 cs (drawn n) = (List.range' n m).map nthID ∧
      after utf8 cs (drawn n) = drawn (n + m) := by
  induction cs generalizing n with
  | nil => exact ⟨0, rfl, rfl⟩
  | cons c cs ih =>
    obtain ⟨m, -, hdraws, hID⟩ := @Creation.run_drawn utf8 c n
    obtain ⟨m', hdraws', hID'⟩ := ih (n + m)
    refine ⟨m + m', ?_, ?_⟩
    · rw [drawnBy, hID, hdraws, hdraws', ← List.map_append, List.range'_append_1]
    · rw [after, hID, hID', Nat.add_assoc]

/-- The first call draws the first ID of the cycle. -/
theorem drawnBy_one (cs : List Creation) :
    ∃ m, drawnBy utf8 cs 1 = (List.range' 0 m).map nthID ∧ after utf8 cs 1 = drawn m := by
  obtain ⟨m, hdraws, hID⟩ := @drawnBy_eq utf8 cs 0
  rw [Nat.zero_add] at hID
  exact ⟨m, hdraws, hID⟩

theorem after_append (cs : List Creation) (c : Creation) (ID : BitVec 32) :
    after utf8 (cs ++ [c]) ID = (c.run utf8 (after utf8 cs ID)).2 := by
  induction cs generalizing ID with
  | nil => rfl
  | cons c' cs ih => exact ih _

theorem packetID_setRequestData {task task' : EavTask} {es : List EntityL}
    (h : setRequestData task es = .ok task') : task'.packetID = task.packetID := by
  obtain ⟨hstorable, hlen⟩ := setRequestData_eq_ok h
  obtain ⟨buf, hbuf, -⟩ := setRequestData_eq hstorable hlen
  rw [h] at hbuf
  cases hbuf
  rfl

theorem Creation.draws_eq {c : Creation} {ID : BitVec 32} {task : EavTask} (hc : c.Keeps)
    (h : (c.run utf8 ID).1 = some (.ok task)) : c.draws ID = [task.packetID] := by
  cases c with
  | createFromArray fuel buf => exact hc.elim
  | createObtained name =>
    cases h
    rfl
  | _ =>
    -- the packet of the task is made, and its ID stays
    rw [packetID_setRequestData (Option.some.inj h)]
    rfl

/-- A task keeps the ID of the cycle that it has drawn, and the next one comes after it. -/
theorem Creation.run_keeps {c : Creation} {n : ℕ} {task : EavTask} (hc : c.Keeps)
    (h : (c.run utf8 (drawn n)).1 = some (.ok task)) :
    task.packetID = nthID n ∧ (c.run utf8 (drawn n)).2 = drawn (n + 1) := by
  obtain ⟨m, -, hdraws, hID⟩ := @Creation.run_drawn utf8 c n
  rw [draws_eq hc h] at hdraws
  have hone : 1 = m := by simpa using congrArg List.length hdraws
  subst hone
  have hid : [task.packetID] = [nthID n] := hdraws
  exact ⟨List.singleton_inj.mp hid, hID⟩

/-- **Packet IDs do not collide early.** -/
theorem drawsApart (utf8 : Charset) (cs : List Creation) : DrawsApart utf8 cs where
  range id hid := by
    obtain ⟨m, hdraws, -⟩ := @drawnBy_one utf8 cs
    rw [hdraws] at hid
    obtain ⟨n, -, rfl⟩ := List.mem_map.mp hid
    rw [toNat_nthID]
    omega
  distinct i := by
    obtain ⟨m, hdraws, -⟩ := @drawnBy_one utf8 cs
    rw [hdraws, ← List.map_drop, List.drop_range', ← List.map_take]
    rcases Nat.le_total (m - i) 65534 with hle | hge
    · rw [List.take_range'_of_length_le hle]
      exact nodup_nthID hle
    · rw [List.take_range'_of_length_ge hge]
      exact nodup_nthID (Nat.le_refl _)
  keeps pre c since task _ hc h := Creation.draws_eq hc h
  outstanding pre c since task _ hc h hlen := by
    obtain ⟨n, -, hpre⟩ := @drawnBy_one utf8 pre
    rw [hpre] at h
    obtain ⟨hid, hID⟩ := Creation.run_keeps hc h
    -- those that have been drawn since come after the one of the task
    obtain ⟨m, hsince, -⟩ := @drawnBy_eq utf8 since (n + 1)
    rw [after_append, hpre, hID, hsince] at hlen ⊢
    rw [List.length_map, List.length_range'] at hlen
    rw [hid]
    exact nthID_notMem hlen

end Client
end PeeledOrange
