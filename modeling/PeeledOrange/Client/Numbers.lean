import PeeledOrange.Client.EavTask
import Mathlib.Data.List.Find
import Mathlib.Data.List.GetD
import Mathlib.Tactic.IntervalCases

/-!
# Numbers on the wire

What the functions for numbers come to: `array` gives the little-endian bytes of a
number, of which `bytes` are enough, and `getInt` and `getLong` read them back.

## Main results

* `array_eq`, `bytes_le_iff` — the bytes of a number, and how many it needs.
* `getInt_eq`, `getLong_eq` — **a number is read back from its bytes.**
* `optimizeData_eq` — what is left of a number that has been stored in a buffer.
-/

namespace PeeledOrange
namespace Client

open Java

/-! ### Writing -/

theorem getLsbD_mask {i : ℕ} (hi : i < 8) : (0xFF#32).getLsbD i = true := by
  revert i
  decide

/-- Byte `k / 8` of a number, as `array` picks it. -/
theorem ofBitVec_and_sshiftRight (v : BitVec 32) {k : ℕ} (hk : k + 8 ≤ 32) :
    UInt8.ofBitVec (((v &&& (0xFF#32 <<< k)).sshiftRight k).setWidth 8) =
      UInt8.ofNat (v.toNat / 2 ^ k) := by
  have heq : ((v &&& (0xFF#32 <<< k)).sshiftRight k).setWidth 8 = v.extractLsb' k 8 := by
    ext i hi
    have hmask := getLsbD_mask hi
    have hlt : k + i < 32 := by omega
    have hle : ¬ 32 ≤ i := by omega
    simp [BitVec.getLsbD_sshiftRight, hlt, hle, hmask]
  rw [heq, ← UInt8.toNat_inj, UInt8.toNat_ofBitVec, BitVec.extractLsb'_toNat,
    Nat.shiftRight_eq_div_pow, UInt8.toNat_ofNat']

theorem array_eq (v : BitVec 32) : array v = Bytes.littleEndian 4 v.toNat := by
  have hfirst : UInt8.ofBitVec ((v &&& 0xFF).setWidth 8) = UInt8.ofNat v.toNat := by
    have h := ofBitVec_and_sshiftRight v (k := 0) (by decide)
    rwa [BitVec.sshiftRight_zero, Nat.pow_zero, Nat.div_one] at h
  have hrest : array v =
      UInt8.ofBitVec ((v &&& 0xFF).setWidth 8) :: [8, 16, 24].map fun k =>
        UInt8.ofBitVec (((v &&& (0xFF#32 <<< k)).sshiftRight k).setWidth 8) := rfl
  simp only [hrest, hfirst, List.map_cons, List.map_nil]
  rw [ofBitVec_and_sshiftRight v (by decide), ofBitVec_and_sshiftRight v (by decide),
    ofBitVec_and_sshiftRight v (by decide)]
  simp only [Bytes.littleEndian, Nat.div_div_eq_div_mul]
  rfl

/-- A number has no bit set from `k` on just if it is less than `2 ^ k`. -/
theorem and_shiftLeft_eq_zero_iff (v : BitVec 32) (k : ℕ) :
    v &&& (BitVec.allOnes 32 <<< k) = 0#32 ↔ v.toNat < 2 ^ k := by
  have hshift : v &&& (BitVec.allOnes 32 <<< k) = 0#32 ↔ v >>> k = 0#32 := by
    constructor
    · intro h
      apply BitVec.eq_of_getLsbD_eq
      intro i _
      have hbit := congrArg (fun w => w.getLsbD (k + i)) h
      simp only [BitVec.getLsbD_and, BitVec.getLsbD_shiftLeft, BitVec.getLsbD_zero,
        BitVec.getLsbD_allOnes] at hbit
      rw [BitVec.getLsbD_ushiftRight, BitVec.getLsbD_zero]
      by_cases hlt : k + i < 32
      · have hle : i < 32 := by omega
        simpa [hlt, hle] using hbit
      · exact BitVec.getLsbD_of_ge _ _ (by omega)
    · intro h
      apply BitVec.eq_of_getLsbD_eq
      intro i _
      have hbit := congrArg (fun w => w.getLsbD (i - k)) h
      simp only [BitVec.getLsbD_ushiftRight, BitVec.getLsbD_zero] at hbit
      rw [BitVec.getLsbD_and, BitVec.getLsbD_shiftLeft, BitVec.getLsbD_zero]
      by_cases hlt : i < k
      · simp [hlt]
      · rw [Nat.add_sub_cancel' (Nat.le_of_not_lt hlt)] at hbit
        rw [hbit, Bool.false_and]
  rw [hshift, ← BitVec.toNat_inj, BitVec.toNat_ushiftRight, Nat.shiftRight_eq_div_pow,
    BitVec.toNat_zero, Nat.div_eq_zero_iff_lt (Nat.two_pow_pos k)]

theorem find?_turns (p : ℕ → Prop) [DecidablePred p] :
    (match [0, 1, 2, 3].find? fun i => decide (p i) with | some i => 4 - i | none => 0) =
      if p 0 then 4 else if p 1 then 3 else if p 2 then 2 else if p 3 then 1 else 0 := by
  simp only [List.find?_cons, List.find?_nil]
  by_cases h0 : p 0
  · simp [h0]
  by_cases h1 : p 1
  · simp [h0, h1]
  by_cases h2 : p 2
  · simp [h0, h1, h2]
  by_cases h3 : p 3 <;> simp [h0, h1, h2, h3]

theorem bytes_eq (v : BitVec 32) :
    bytes v =
      if 256 ^ 3 ≤ v.toNat then 4 else if 256 ^ 2 ≤ v.toNat then 3
      else if 256 ^ 1 ≤ v.toNat then 2 else if 256 ^ 0 ≤ v.toNat then 1 else 0 := by
  have hmask : ∀ i < 4,
      (v &&& (0xFF000000#32).sshiftRight (i * 8) ≠ 0 ↔ 256 ^ (3 - i) ≤ v.toNat) := by
    intro i hi
    have heq : ∀ i < 4, (0xFF000000#32).sshiftRight (i * 8) =
        BitVec.allOnes 32 <<< (8 * (3 - i)) := by decide
    have h := not_congr (and_shiftLeft_eq_zero_iff v (8 * (3 - i)))
    rw [Nat.pow_mul, Nat.not_lt] at h
    rw [heq i hi]
    exact h
  have hneg : v.toInt < 0 ↔ 2 ^ 31 ≤ v.toNat := by
    rw [BitVec.toInt_eq_toNat_cond]
    split <;> omega
  have hfind : ((List.range 4).find? fun i => v &&& (0xFF000000#32).sshiftRight (i * 8) ≠ 0) =
      [0, 1, 2, 3].find? fun i => 256 ^ (3 - i) ≤ v.toNat :=
    List.find?_congr fun i hi => decide_eq_decide.mpr (hmask i (List.mem_range.mp hi))
  have hlt := v.isLt
  unfold bytes
  rw [hfind]
  -- a negative number is one of four bytes
  by_cases hbig : 2 ^ 31 ≤ v.toNat
  · rw [if_pos (hneg.mpr hbig), if_pos (by omega)]
  · rw [if_neg (hneg.not.mpr hbig)]
    exact find?_turns fun i => 256 ^ (3 - i) ≤ v.toNat

theorem bytes_le (v : BitVec 32) : bytes v ≤ 4 := by
  rw [bytes_eq]
  split_ifs <;> decide

/-- A number needs `n` bytes at most just if it fits in `n` bytes. -/
theorem bytes_le_iff (v : BitVec 32) {n : ℕ} (hn : n ≤ 4) : bytes v ≤ n ↔ v.toNat < 256 ^ n := by
  have hlt := v.isLt
  rw [bytes_eq]
  interval_cases n <;> split_ifs <;> omega

theorem lt_bytes (v : BitVec 32) : v.toNat < 256 ^ bytes v :=
  (bytes_le_iff v (bytes_le v)).mp (Nat.le_refl _)

/-! ### Reading -/

theorem element_append (pre post : List UInt8) (b : UInt8) :
    element (pre ++ b :: post) pre.length = .ok b := by
  have hlt : 0 ≤ (pre.length : ℤ) ∧ (pre.length : ℤ) < (pre ++ b :: post).length := by
    rw [List.length_append, List.length_cons]
    omega
  rw [element, if_pos hlt, Int.toNat_natCast, List.getD_append_right _ _ _ _ (Nat.le_refl _),
    Nat.sub_self, List.getD_cons_zero]

/-- What one turn of the loop does to the number that has been read. -/
theorem toNat_or_shiftLeft {w i : ℕ} {res : BitVec w} (b : UInt8) (hi : 8 * (i + 1) ≤ w)
    (hres : res.toNat < 256 ^ i) :
    (res ||| b.toBitVec.setWidth w <<< (i * 8 % w)).toNat = res.toNat + 256 ^ i * b.toNat := by
  have hpow : 256 ^ i = 2 ^ (8 * i) := by rw [Nat.pow_mul]
  have hb : b.toNat < 2 ^ 8 := b.toNat_lt
  have hbyte : b.toNat < 2 ^ w :=
    Nat.lt_of_lt_of_le hb (Nat.pow_le_pow_right (by decide) (by omega))
  have hshift : b.toNat * 2 ^ (8 * i) < 2 ^ w := by
    calc b.toNat * 2 ^ (8 * i) < 2 ^ 8 * 2 ^ (8 * i) :=
          Nat.mul_lt_mul_of_pos_right hb (Nat.two_pow_pos _)
      _ = 2 ^ (8 * (i + 1)) := by rw [← Nat.pow_add, Nat.mul_succ, Nat.add_comm]
      _ ≤ 2 ^ w := Nat.pow_le_pow_right (by decide) hi
  rw [hpow] at hres ⊢
  rw [Nat.mod_eq_of_lt (by omega), Nat.mul_comm i, BitVec.toNat_or, BitVec.toNat_shiftLeft,
    BitVec.toNat_setWidth, UInt8.toNat_toBitVec, Nat.mod_eq_of_lt hbyte, Nat.shiftLeft_eq,
    Nat.mod_eq_of_lt hshift, Nat.or_comm, Nat.mul_comm, ← Nat.two_pow_add_eq_or_of_lt hres,
    Nat.add_comm]

/-- The number that the loop makes of bytes, however many there are. -/
def orBytes {w : ℕ} : List UInt8 → ℕ → BitVec w → BitVec w
  | [], _, res => res
  | b :: bs, i, res => orBytes bs (i + 1) (res ||| b.toBitVec.setWidth w <<< (i * 8 % w))

/-- The number that `getInt` makes of bytes. -/
def readInt (bs : List UInt8) : BitVec 32 := orBytes bs 0 0

theorem getBits_append {w offset : ℕ} {bs post : List UInt8} :
    ∀ {pre : List UInt8} {i : ℕ} {res : BitVec w}, offset + i = pre.length →
      (pre ++ bs ++ post).length < 2 ^ 31 →
      getBits w (pre ++ bs ++ post) offset bs.length i res = .ok (orBytes bs i res) := by
  induction bs with
  | nil => exact fun _ _ => rfl
  | cons b bs ih =>
    intro pre i res hi hlen
    have hadd : add32 offset i = pre.length := by
      rw [List.length_append, List.length_append] at hlen
      rw [add32_of_lt (by omega) (by omega)]
      omega
    have hpre : pre ++ b :: (bs ++ post) = (pre ++ [b]) ++ bs ++ post := by simp
    have hlast : offset + (i + 1) = (pre ++ [b]).length := by
      rw [List.length_append, List.length_singleton]
      omega
    rw [List.length_cons, getBits, hadd, List.append_assoc, List.cons_append, element_append,
      ok_bind, hpre, ih hlast (by rw [← hpre]; simpa using hlen)]
    rfl

/-- If the bytes fit the number, they are its digits. -/
theorem orBytes_eq {w : ℕ} {bs : List UInt8} {i : ℕ} {res : BitVec w}
    (hw : 8 * (i + bs.length) ≤ w) (hres : res.toNat < 256 ^ i) :
    orBytes bs i res = BitVec.ofNat w (res.toNat + 256 ^ i * Bytes.toNat bs) := by
  induction bs generalizing i res with
  | nil =>
    rw [Bytes.toNat_nil, Nat.mul_zero, Nat.add_zero, BitVec.ofNat_toNat, BitVec.setWidth_eq]
    rfl
  | cons b bs ih =>
    -- what has been read is below the bits that the next byte is put into
    rw [List.length_cons] at hw
    have hres' := toNat_or_shiftLeft b (show 8 * (i + 1) ≤ w by omega) hres
    have hlt : res.toNat + 256 ^ i * b.toNat < 256 ^ (i + 1) := by
      have hb : b.toNat + 1 ≤ 256 := b.toNat_lt
      calc res.toNat + 256 ^ i * b.toNat < 256 ^ i * (b.toNat + 1) := by rw [Nat.mul_succ]; omega
        _ ≤ 256 ^ i * 256 := Nat.mul_le_mul_left _ hb
    rw [orBytes, ih (by omega) (by rwa [hres']), hres', Bytes.toNat_cons, Nat.mul_add,
      ← Nat.mul_assoc, ← Nat.pow_succ, Nat.add_assoc]

theorem orBytes_append {w : ℕ} (bs bs' : List UInt8) (i : ℕ) (res : BitVec w) :
    orBytes (bs ++ bs') i res = orBytes bs' (i + bs.length) (orBytes bs i res) := by
  induction bs generalizing i res with
  | nil => rfl
  | cons b bs ih =>
    rw [List.cons_append, orBytes, ih, List.length_cons, Nat.add_assoc, Nat.add_comm 1]
    rfl

/-- More bytes only set more bits. -/
theorem le_orBytes {w : ℕ} (bs : List UInt8) (i : ℕ) (res : BitVec w) :
    res.toNat ≤ (orBytes bs i res).toNat := by
  induction bs generalizing i res with
  | nil => exact Nat.le_refl _
  | cons b bs ih =>
    refine Nat.le_trans ?_ (ih _ _)
    rw [BitVec.toNat_or]
    exact Nat.left_le_or

theorem readInt_eq {bs : List UInt8} (hbs : bs.length ≤ 4) :
    readInt bs = BitVec.ofNat 32 (Bytes.toNat bs) := by
  rw [readInt, orBytes_eq (by omega) (by decide)]
  simp

theorem toNat_readInt {bs : List UInt8} (hbs : bs.length ≤ 4) :
    (readInt bs).toNat = Bytes.toNat bs := by
  rw [readInt_eq hbs, BitVec.toNat_ofNat]
  exact Nat.mod_eq_of_lt (Nat.lt_of_lt_of_le (Bytes.toNat_lt bs)
    (Nat.pow_le_pow_right (by decide) hbs))

theorem readInt_inj {bs bs' : List UInt8} (hbs : bs.length ≤ 4) (hlen : bs.length = bs'.length)
    (h : readInt bs = readInt bs') : bs = bs' := by
  apply Bytes.toNat_inj hlen
  rw [← toNat_readInt hbs, ← toNat_readInt (hlen ▸ hbs), h]

theorem getInt_append {pre bs post : List UInt8} (hlen : (pre ++ bs ++ post).length < 2 ^ 31) :
    getInt (pre ++ bs ++ post) pre.length bs.length = .ok (readInt bs) :=
  @getBits_append 32 pre.length bs post pre 0 0 rfl hlen

/-- **A number is read back from its bytes.** -/
theorem getInt_eq {pre bs post : List UInt8} (hlen : (pre ++ bs ++ post).length < 2 ^ 31)
    (hbs : bs.length ≤ 4) :
    getInt (pre ++ bs ++ post) pre.length bs.length = .ok (BitVec.ofNat 32 (Bytes.toNat bs)) := by
  rw [getInt_append hlen, readInt_eq hbs]

theorem getLong_eq {pre bs post : List UInt8} (hlen : (pre ++ bs ++ post).length < 2 ^ 31)
    (hbs : bs.length ≤ 8) :
    getLong (pre ++ bs ++ post) pre.length bs.length = .ok (BitVec.ofNat 64 (Bytes.toNat bs)) := by
  have h := @getBits_append 64 pre.length bs post pre 0 0 rfl hlen
  rw [orBytes_eq (by omega) (by decide)] at h
  simpa [getLong] using h

/-- Bytes that are not there are not read. -/
theorem getBits_short {w offset : ℕ} {data : List UInt8} {n i : ℕ} (res : BitVec w) (hn : n ≠ 0)
    (hlt : data.length < offset + i + n) (hint : offset + i + n < 2 ^ 31) :
    getBits w data offset n i res = .error .arrayIndexOutOfBounds := by
  induction n generalizing i res with
  | zero => exact absurd rfl hn
  | succ n ih =>
    rw [getBits, add32_natCast (by omega), element]
    by_cases hin : offset + i < data.length
    · rw [if_pos (by omega), ok_bind]
      exact ih _ (by omega) (by omega) (by omega)
    · rw [if_neg (by omega), error_bind]

/-- A number that runs over the end of an array of any length is not read. -/
theorem getBits_beyond {w offset : ℕ} {data : List UInt8} (hdata : data.length < 2 ^ 31)
    {n i : ℕ} (res : BitVec w) (hle : offset + i ≤ data.length)
    (hlt : data.length < offset + i + n) :
    getBits w data offset n i res = .error .arrayIndexOutOfBounds := by
  induction n generalizing i res with
  | zero => omega
  | succ n ih =>
    rw [getBits, add32_natCast (by omega), element]
    by_cases hin : offset + i < data.length
    · rw [if_pos (by omega), ok_bind]
      exact ih _ (by omega) (by omega)
    · rw [if_neg (by omega), error_bind]

/-- The bytes that are there are read. -/
theorem getBits_range (w : ℕ) {data : List UInt8} (hdata : data.length < 2 ^ 31) {offset n : ℕ}
    (hle : offset + n ≤ data.length) :
    getBits w data offset n 0 0 = .ok (orBytes ((data.drop offset).take n) 0 0) := by
  have hsplit : data.take offset ++ (data.drop offset).take n ++ (data.drop offset).drop n =
      data := by
    rw [List.append_assoc, List.take_append_drop, List.take_append_drop]
  have htake : (data.take offset).length = offset := List.length_take_of_le (by omega)
  have hdrop : ((data.drop offset).take n).length = n :=
    List.length_take_of_le (by rw [List.length_drop]; omega)
  have hget := @getBits_append w offset ((data.drop offset).take n) ((data.drop offset).drop n)
    (data.take offset) 0 0 htake.symm (by rwa [hsplit])
  rwa [hsplit, hdrop] at hget

/-- The bytes of an array that starts with some bytes are theirs. -/
theorem getBits_starts {b : ByteBuffer} {bs : List UInt8} {limit : ℕ} (hb : b.Starts bs limit)
    (w : ℕ) {offset n : ℕ} (hle : offset + n ≤ bs.length) :
    getBits w b.array offset n 0 0 = .ok (orBytes ((bs.drop offset).take n) 0 0) := by
  have hbs := hb.length_le
  have hlimit := hb.limit_le_length
  rw [getBits_range w hb.length_lt (by omega), hb.take_drop hle]

/-! ### Stored numbers -/

theorem optimizeData_eq {src : ByteBuffer} (h : src.array ≠ []) :
    ∃ dst, optimizeData src = .ok dst ∧ dst.array = (Bytes.trim src.array).reverse := by
  rw [optimizeData, if_neg h]
  exact ⟨_, rfl, rfl⟩

end Client
end PeeledOrange
