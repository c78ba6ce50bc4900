import Mathlib.Data.BitVec
import Mathlib.Tactic.Ring
import Mathlib.Tactic.Push

set_option autoImplicit false

namespace SsAdma

def table : List ℤ :=
  [-1, 0] ++ List.replicate 2 1 ++ List.replicate 4 2 ++ List.replicate 8 3 ++ List.replicate 16 4 ++ List.replicate 32 5 ++
    List.replicate 64 6 ++ List.replicate 128 7

def tableBit (x : BitVec 32) : ℤ :=
  let a : ℕ := if x ≤ 0xffff then (if x ≤ 0xff then 0 else 8) else (if x ≤ 0xffffff then 16 else 24)
  table.getD (x >>> a).toNat 0 + a

def lsBit (i : BitVec 32) : ℤ := tableBit (i &&& -i)

def msBit (i : BitVec 32) : ℤ := tableBit i

def andNot (x m : ℕ) : ℕ := x ^^^ (x &&& m)

-- int takes the low 32 bits of a size_t, and a shift its amount.
def msShift (r : ℕ) : ℕ := (msBit (BitVec.ofNat 32 r)).toNat

def mappingInsert (r : ℕ) : ℕ × ℕ :=
  if r < 128 then (0, r / (128 / 32))
  else
    let fl := msShift r
    (fl - 6, (r >>> (fl - 5)) - 32)

-- *_r, *_fl and *_sl
def mappingSearch (r : ℕ) : ℕ × ℕ × ℕ :=
  if r < 128 then (r, 0, r / (128 / 32))
  else
    let t := (1 <<< (msShift r - 5)) - 1
    let r := r + t
    let fl := msShift r
    (andNot r t, fl - 6, (r >>> (fl - 5)) - 32)

theorem table_log2 : ∀ n < 256, n ≠ 0 → table.getD n 0 = Nat.log2 n := by decide +kernel

theorem log2_div_pow (x a : ℕ) (large : 2 ^ a ≤ x) : Nat.log2 (x / 2 ^ a) + a = Nat.log2 x := by
  have some : x / 2 ^ a ≠ 0 := Nat.div_ne_zero_iff.mpr ⟨(Nat.two_pow_pos a).ne', large⟩
  obtain ⟨low, high⟩ := (Nat.log2_eq_iff some).mp rfl
  symm
  refine (Nat.log2_eq_iff (fun zero => some (by rw [zero, Nat.zero_div]))).mpr ⟨?_, ?_⟩
  · rw [pow_add]
    exact (Nat.le_div_iff_mul_le (Nat.two_pow_pos a)).mp low
  · rw [add_right_comm, pow_add]
    exact (Nat.div_lt_iff_lt_mul (Nat.two_pow_pos a)).mp high

theorem tableBit_log2 (x : BitVec 32) (nonzero : x ≠ 0) : tableBit x = Nat.log2 x.toNat := by
  have some : x.toNat ≠ 0 := fun zero => nonzero (BitVec.eq_of_toNat_eq zero)
  -- the part of x the table is asked for
  have looked (a : ℕ) (low : 2 ^ a ≤ x.toNat) (high : x.toNat < 2 ^ (a + 8)) :
      table.getD (x >>> a).toNat 0 + a = Nat.log2 x.toNat := by
    have inside : x.toNat / 2 ^ a < 256 := Nat.div_lt_of_lt_mul (by rwa [show 2 ^ a * 256 = 2 ^ (a + 8) from (pow_add 2 a 8).symm])
    have above : x.toNat / 2 ^ a ≠ 0 := Nat.div_ne_zero_iff.mpr ⟨(Nat.two_pow_pos a).ne', low⟩
    rw [BitVec.toNat_ushiftRight, Nat.shiftRight_eq_div_pow, table_log2 _ inside above, ← log2_div_pow _ a low]
    push_cast
    rfl
  unfold tableBit
  simp only [BitVec.le_def]
  have bound := x.isLt
  by_cases half : x.toNat ≤ 0xffff
  · by_cases byte : x.toNat ≤ 0xff
    · simpa [half, byte] using looked 0 (by omega) (by omega)
    · simpa [half, byte] using looked 8 (by omega) (by omega)
  · by_cases three : x.toNat ≤ 0xffffff
    · simpa [half, three] using looked 16 (by omega) (by omega)
    · simpa [half, three] using looked 24 (by omega) (by omega)

theorem and_neg_twoPow {w : ℕ} (x : BitVec w) (k : ℕ) (set : x.getLsbD k = true) (lowest : ∀ j < k, x.getLsbD j = false) :
    x &&& -x = BitVec.twoPow w k := by
  have inside : k < w := BitVec.lt_of_getLsbD set
  apply BitVec.eq_of_getLsbD_eq
  intro j _
  rw [BitVec.getLsbD_and, BitVec.getLsbD_neg, BitVec.getLsbD_twoPow]
  rcases lt_trichotomy j k with below | rfl | above
  · simp [lowest j below, (Nat.ne_of_lt below).symm]
  · have none : ¬ ∃ i < j, x.getLsbD i = true := by
      rintro ⟨i, low, bit⟩
      simp [lowest i low] at bit
    simp [set, none, inside]
  · have lower : ∃ i < j, x.getLsbD i = true := ⟨k, above, set⟩
    have far : j < w := by assumption
    simp only [lower, far, decide_true, Bool.true_and, Bool.xor_true, Bool.and_not_self, inside]
    simp [Nat.ne_of_lt above]

theorem lsBit_zero : lsBit 0 = -1 := by decide

theorem lsBit_lowest (x : BitVec 32) (nonzero : x ≠ 0) :
    ∃ k : ℕ, k < 32 ∧ lsBit x = k ∧ x.getLsbD k = true ∧ ∀ j < k, x.getLsbD j = false := by
  have some : ∃ k, x.getLsbD k = true := by
    by_contra none
    push Not at none
    refine nonzero (BitVec.eq_of_getLsbD_eq fun i _ => ?_)
    simpa using none i
  have set := Nat.find_spec some
  have lowest : ∀ j < Nat.find some, x.getLsbD j = false := fun j below => by simpa using Nat.find_min some below
  have inside : Nat.find some < 32 := BitVec.lt_of_getLsbD set
  refine ⟨Nat.find some, inside, ?_, set, lowest⟩
  have bit := BitVec.toNat_twoPow_of_lt inside
  rw [lsBit, and_neg_twoPow x _ set lowest, tableBit_log2, bit, Nat.log2_two_pow]
  intro zero
  rw [zero] at bit
  have := Nat.two_pow_pos (Nat.find some)
  simp at bit
  omega

theorem lowest_le {w : ℕ} {x : BitVec w} {k j : ℕ} (lowest : ∀ i < k, x.getLsbD i = false) (bit : x.getLsbD j = true) : k ≤ j := by
  by_contra lower
  simp [lowest j (Nat.not_le.mp lower)] at bit

theorem msShift_log2 (r : ℕ) (some : 0 < r) (below : r < 2 ^ 32) : msShift r = Nat.log2 r := by
  have value : (BitVec.ofNat 32 r).toNat = r := by
    rw [BitVec.toNat_ofNat]
    exact Nat.mod_eq_of_lt below
  rw [msShift, msBit, tableBit_log2, value]
  · rfl
  · intro zero
    rw [zero] at value
    simp at value
    omega

theorem andNot_low (x k : ℕ) : andNot x (2 ^ k - 1) = x / 2 ^ k * 2 ^ k := by
  rw [andNot, Nat.and_two_pow_sub_one_eq_mod]
  apply Nat.eq_of_testBit_eq
  intro j
  rw [Nat.testBit_xor, Nat.testBit_mod_two_pow, Nat.testBit_mul_two_pow, Nat.testBit_div_two_pow]
  by_cases low : j < k
  · simp [low, Nat.not_le.mpr low]
  · rw [Nat.not_lt] at low
    simp [Nat.not_lt.mpr low, low, Nat.sub_add_cancel low]

def classFloor (fl sl : ℕ) : ℕ := if fl = 0 then 4 * sl else (32 + sl) * 2 ^ (fl + 1)

def ClassLe (a b : ℕ × ℕ) : Prop := a.1 < b.1 ∨ a.1 = b.1 ∧ a.2 ≤ b.2

instance (a b : ℕ × ℕ) : Decidable (ClassLe a b) := inferInstanceAs (Decidable (_ ∨ _))

theorem classFloor_step (fl sl : ℕ) : classFloor fl sl < classFloor fl (sl + 1) := by
  unfold classFloor
  split
  · omega
  · exact Nat.mul_lt_mul_of_pos_right (by omega) (Nat.two_pow_pos _)

theorem classFloor_level (fl : ℕ) : classFloor fl 32 = classFloor (fl + 1) 0 := by
  unfold classFloor
  cases fl with
  | zero => rfl
  | succ fl =>
      rw [if_neg (by omega), if_neg (by omega), pow_succ 2 (fl + 1 + 1)]
      ring

theorem classFloor_mono (fl : ℕ) {sl more : ℕ} (le : sl ≤ more) : classFloor fl sl ≤ classFloor fl more :=
  monotone_nat_of_le_succ (fun n => (classFloor_step fl n).le) le

theorem classFloor_levels {fl high : ℕ} (le : fl ≤ high) : classFloor fl 0 ≤ classFloor high 0 := by
  have grows : Monotone fun n => classFloor n 0 := by
    refine monotone_nat_of_le_succ fun n => ?_
    rw [← classFloor_level n]
    exact classFloor_mono n (Nat.zero_le 32)
  exact grows le

theorem classFloor_le {a b : ℕ × ℕ} (inside : a.2 < 32) (le : ClassLe a b) : classFloor a.1 a.2 ≤ classFloor b.1 b.2 := by
  obtain ⟨fl, sl⟩ := a
  obtain ⟨high, more⟩ := b
  rcases le with lower | ⟨same, within⟩
  · calc classFloor fl sl ≤ classFloor fl 32 := classFloor_mono fl inside.le
      _ = classFloor (fl + 1) 0 := classFloor_level fl
      _ ≤ classFloor high 0 := classFloor_levels lower
      _ ≤ classFloor high more := classFloor_mono high (Nat.zero_le more)
  · obtain rfl : fl = high := same
    exact classFloor_mono fl within

theorem classFloor_lt {a b : ℕ × ℕ} (inside : a.2 < 32) (lower : ¬ ClassLe b a) : classFloor a.1 (a.2 + 1) ≤ classFloor b.1 b.2 := by
  obtain ⟨fl, sl⟩ := a
  obtain ⟨high, more⟩ := b
  simp only [ClassLe, not_or, not_and, not_lt, not_le] at lower inside ⊢
  rcases Nat.lt_or_ge fl high with less | rest
  · calc classFloor fl (sl + 1) ≤ classFloor fl 32 := classFloor_mono fl inside
      _ = classFloor (fl + 1) 0 := classFloor_level fl
      _ ≤ classFloor high 0 := classFloor_levels less
      _ ≤ classFloor high more := classFloor_mono high (Nat.zero_le more)
  · obtain rfl : high = fl := le_antisymm rest lower.1
    exact classFloor_mono high (lower.2 rfl)

theorem level_parts (r m : ℕ) (low : 32 * 2 ^ m ≤ r) (high : r < 64 * 2 ^ m) (inside : m + 5 < 32) :
    msShift r = m + 5 ∧ 32 ≤ r / 2 ^ m ∧ r / 2 ^ m < 64 := by
  have power : 2 ^ (m + 5) = 32 * 2 ^ m := by rw [pow_add, mul_comm]; rfl
  have next : 2 ^ (m + 5 + 1) = 64 * 2 ^ m := by rw [add_assoc, pow_add, mul_comm]; rfl
  have some := Nat.two_pow_pos m
  have below : r < 2 ^ 32 := lt_of_lt_of_le (next ▸ high) (Nat.pow_le_pow_right (by decide) inside)
  refine ⟨?_, (Nat.le_div_iff_mul_le some).mpr low, (Nat.div_lt_iff_lt_mul some).mpr high⟩
  rw [msShift_log2 r (by omega) below]
  exact (Nat.log2_eq_iff (by omega)).mpr ⟨power ▸ low, next ▸ high⟩

theorem level_exists (r : ℕ) (large : 128 ≤ r) (below : r < 2 ^ 30) :
    ∃ m, 2 ≤ m ∧ m ≤ 24 ∧ 32 * 2 ^ m ≤ r ∧ r < 64 * 2 ^ m := by
  have some : r ≠ 0 := by omega
  have low : 7 ≤ Nat.log2 r := (Nat.le_log2 some).mpr (by omega)
  have high : Nat.log2 r < 30 := (Nat.log2_lt some).mpr below
  obtain ⟨atLeast, less⟩ := (Nat.log2_eq_iff some).mp rfl
  refine ⟨Nat.log2 r - 5, by omega, by omega, ?_, ?_⟩
  · rwa [show 32 * 2 ^ (Nat.log2 r - 5) = 2 ^ Nat.log2 r by
      rw [show (32 : ℕ) = 2 ^ 5 by rfl, ← pow_add, Nat.add_sub_cancel' (by omega)]]
  · rwa [show 64 * 2 ^ (Nat.log2 r - 5) = 2 ^ (Nat.log2 r + 1) by
      rw [show (64 : ℕ) = 2 ^ 6 by rfl, ← pow_add, show 6 + (Nat.log2 r - 5) = Nat.log2 r + 1 by omega]]

theorem classFloor_high (m sl : ℕ) (some : 2 ≤ m) : classFloor (m - 1) sl = (32 + sl) * 2 ^ m := by
  rw [classFloor, if_neg (by omega), Nat.sub_add_cancel (by omega)]

theorem mappingInsert_class (r : ℕ) (below : r < 2 ^ 30) :
    (mappingInsert r).1 < 24 ∧ (mappingInsert r).2 < 32 ∧ classFloor (mappingInsert r).1 (mappingInsert r).2 ≤ r ∧
      r < classFloor (mappingInsert r).1 ((mappingInsert r).2 + 1) := by
  unfold mappingInsert
  split
  · rename_i small
    simp only [classFloor, if_true]
    omega
  · rename_i large
    obtain ⟨m, some, most, low, high⟩ := level_exists r (by omega) below
    obtain ⟨level, atLeast, less⟩ := level_parts r m low high (by omega)
    have parts := Nat.div_add_mod r (2 ^ m)
    have rest := Nat.mod_lt r (Nat.two_pow_pos m)
    simp only [level, Nat.add_sub_cancel, Nat.shiftRight_eq_div_pow, show m + 5 - 6 = m - 1 by omega, classFloor_high m _ some]
    refine ⟨by omega, by omega, ?_, ?_⟩
    · rw [show 32 + (r / 2 ^ m - 32) = r / 2 ^ m by omega]
      exact Nat.div_mul_le_self r (2 ^ m)
    · rw [show 32 + (r / 2 ^ m - 32 + 1) = r / 2 ^ m + 1 by omega, add_mul, one_mul, mul_comm]
      omega

theorem mappingSearch_class (r : ℕ) (whole : 16 ∣ r) (room : r ≤ 2 ^ 30 - 2 ^ 24) :
    (mappingSearch r).2.1 < 24 ∧ (mappingSearch r).2.2 < 32 ∧
      classFloor (mappingSearch r).2.1 (mappingSearch r).2.2 = (mappingSearch r).1 ∧ 16 ∣ (mappingSearch r).1 ∧
      r ≤ (mappingSearch r).1 ∧ (mappingSearch r).1 ≤ r + r / 32 := by
  unfold mappingSearch
  split
  · rename_i small
    simp only [classFloor, if_true]
    omega
  · rename_i large
    obtain ⟨m, some, most, low, high⟩ := level_exists r (by omega) (by omega)
    obtain ⟨level, -, -⟩ := level_parts r m low high (by omega)
    have power := Nat.two_pow_pos m
    have slack : 2 ^ m ≤ r / 32 := (Nat.le_div_iff_mul_le (by decide)).mpr (mul_comm 32 (2 ^ m) ▸ low)
    simp only [level, Nat.add_sub_cancel, Nat.one_shiftLeft, andNot_low, Nat.shiftRight_eq_div_pow]
    generalize up : r + (2 ^ m - 1) = s
    have parts := Nat.div_add_mod s (2 ^ m)
    have rest := Nat.mod_lt s power
    rw [mul_comm] at parts
    -- the rounded size is a multiple of 16, as it is r itself for small parts
    have whole_up : 16 ∣ s / 2 ^ m * 2 ^ m := by
      by_cases coarse : 4 ≤ m
      · exact Dvd.dvd.mul_left (pow_dvd_pow 2 coarse) _
      · have divides : 2 ^ m ∣ r := (pow_dvd_pow 2 (by omega : m ≤ 4)).trans whole
        obtain ⟨q, rfl⟩ := divides
        have exact_up : s / 2 ^ m = q := by
          rw [← up, Nat.mul_add_div power, Nat.div_eq_of_lt (by omega), Nat.add_zero]
        rwa [exact_up, mul_comm]
    have classed : msShift s - 6 < 24 ∧ s / 2 ^ (msShift s - 5) - 32 < 32 ∧
        classFloor (msShift s - 6) (s / 2 ^ (msShift s - 5) - 32) = s / 2 ^ m * 2 ^ m := by
      rcases Nat.lt_or_ge s (64 * 2 ^ m) with same | above
      · obtain ⟨level, atLeast, less⟩ := level_parts s m (by omega) same (by omega)
        rw [level, Nat.add_sub_cancel, show m + 5 - 6 = m - 1 by omega, classFloor_high m _ some,
          show 32 + (s / 2 ^ m - 32) = s / 2 ^ m by omega]
        exact ⟨by omega, by omega, rfl⟩
      · -- rounding up has reached the next power of two
        have next : 2 ^ (m + 1) = 2 * 2 ^ m := by rw [pow_succ, mul_comm]
        have early : m ≤ 23 := by
          by_contra last
          obtain rfl : m = 24 := by omega
          omega
        obtain ⟨level, -, -⟩ := level_parts s (m + 1) (by omega) (by omega) (by omega)
        have first : s / 2 ^ (m + 1) = 32 := by
          rw [next]
          exact Nat.div_eq_of_lt_le (by omega) (by omega)
        have parted : s / 2 ^ m = 64 := Nat.div_eq_of_lt_le (by omega) (by omega)
        rw [level, Nat.add_sub_cancel, show m + 1 + 5 - 6 = m + 1 - 1 by omega, classFloor_high (m + 1) _ (by omega), first, parted]
        exact ⟨by omega, by decide, by omega⟩
    exact ⟨classed.1, classed.2.1, classed.2.2, whole_up, by omega, by omega⟩

theorem suits_iff (r s : ℕ) (whole : 16 ∣ r) (room : r ≤ 2 ^ 30 - 2 ^ 24) (below : s < 2 ^ 30) :
    ClassLe (mappingSearch r).2 (mappingInsert s) ↔ (mappingSearch r).1 ≤ s := by
  obtain ⟨_, inside, floor, _, _, _⟩ := mappingSearch_class r whole room
  obtain ⟨_, within, low, high⟩ := mappingInsert_class s below
  constructor
  · intro le
    rw [← floor]
    exact (classFloor_le inside le).trans low
  · intro large
    by_contra lower
    have above := classFloor_lt within lower
    omega

end SsAdma
