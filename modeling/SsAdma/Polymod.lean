import SsAdma.Gf2Poly

set_option autoImplicit false

namespace SsAdma

open Polynomial Gf2Poly

def fls8 (n : ℕ) : ℕ :=
  if n &&& 0xf0 ≠ 0 then (if n &&& 0xc0 ≠ 0 then (n >>> 7) + 7 else (n >>> 5) + 5)
  else if n &&& 0x0c ≠ 0 then (n >>> 3) + 3
  else n - ((n + 1) >>> 2)

def fls16 (n : ℕ) : ℕ := if n &&& 0xff00 ≠ 0 then fls8 (n >>> 8) + 8 else fls8 n

def fls32 (n : ℕ) : ℕ := if n &&& 0xffff0000 ≠ 0 then fls16 (n >>> 16) + 16 else fls16 n

-- An argument of fls32 is an unsigned, which keeps the low 32 bits.
def fls64 (n : BitVec 64) : ℕ :=
  if n &&& 0xffffffff00000000 ≠ 0 then fls32 ((n >>> 32).toNat % 2 ^ 32) + 32 else fls32 (n.toNat % 2 ^ 32)

-- The loop over i = n - 1, ..., 0.
def polymodHigh (d : BitVec 64) : ℕ → BitVec 64 × BitVec 64 → BitVec 64 × BitVec 64
  | 0, n => n
  | i + 1, (nh, nl) =>
      polymodHigh d i (if nh &&& (1#64 <<< i) ≠ 0 then (nh ^^^ (d >>> (63 - i)), nl ^^^ (d <<< (i + 1))) else (nh, nl))

-- The loop over i = k + n - 1, ..., k.
def polymodLow (d : BitVec 64) (k : ℕ) : ℕ → BitVec 64 → BitVec 64
  | 0, nl => nl
  | n + 1, nl => polymodLow d k n (if nl &&& (1#64 <<< (k + n)) ≠ 0 then nl ^^^ (d >>> (63 - (k + n))) else nl)

def msb64 : BitVec 64 := 0x8000000000000000

def polymod (nh nl d : BitVec 64) : BitVec 64 :=
  let k := fls64 d - 1
  let dTop := d <<< (63 - k)
  let n := if nh ≠ 0 then polymodHigh dTop 63 (if nh &&& msb64 ≠ 0 then nh ^^^ dTop else nh, nl) else (nh, nl)
  polymodLow dTop k (64 - k) n.2

-- The pair behind the loop over i = 1, ..., n.
def polymultLoop (x y : BitVec 64) : ℕ → BitVec 64 × BitVec 64
  | 0 => (0, if x &&& 1 ≠ 0 then y else 0)
  | i + 1 =>
      let p := polymultLoop x y i
      if x &&& (1#64 <<< (i + 1)) ≠ 0 then (p.1 ^^^ (y >>> (64 - (i + 1))), p.2 ^^^ (y <<< (i + 1))) else p

def polymult (x y : BitVec 64) : BitVec 64 × BitVec 64 := polymultLoop x y 63

def polymmult (x y d : BitVec 64) : BitVec 64 :=
  let p := polymult x y
  polymod p.1 p.2 d

structure BitLength (n k : ℕ) : Prop where
  below : n < 2 ^ k
  above : n ≠ 0 → 2 ^ k ≤ 2 * n

theorem bitLength_fls8 (n : ℕ) (small : n < 2 ^ 8) : BitLength n (fls8 n) := by
  have table : ∀ m < 256, m < 2 ^ fls8 m ∧ (m ≠ 0 → 2 ^ fls8 m ≤ 2 * m) := by decide +kernel
  exact ⟨(table n small).1, (table n small).2⟩

theorem and_upper_iff (n a b : ℕ) (small : n < 2 ^ (a + b)) : n &&& ((2 ^ b - 1) <<< a) ≠ 0 ↔ 2 ^ a ≤ n := by
  have same : n &&& ((2 ^ b - 1) <<< a) = (n >>> a) <<< a := by
    apply Nat.eq_of_testBit_eq
    intro i
    simp only [Nat.testBit_and, Nat.testBit_shiftLeft, Nat.testBit_shiftRight, Nat.testBit_two_pow_sub_one]
    by_cases above : a ≤ i
    · by_cases inside : i - a < b
      · simp [above, inside]
      · have clear : n.testBit i = false :=
          Nat.testBit_lt_two_pow (lt_of_lt_of_le small (Nat.pow_le_pow_right (by decide) (by omega)))
        simp [above, inside, clear]
    · simp [above]
  have positive : 0 < 2 ^ a := Nat.two_pow_pos a
  rw [same, Nat.shiftLeft_eq, Nat.shiftRight_eq_div_pow, ← Nat.pos_iff_ne_zero]
  constructor
  · intro nonzero
    by_contra below
    rw [Nat.div_eq_of_lt (not_le.mp below)] at nonzero
    simp at nonzero
  · intro above
    exact Nat.mul_pos (Nat.div_pos above positive) positive

theorem bitLength_shift (n a k : ℕ) (large : 2 ^ a ≤ n) (upper : BitLength (n >>> a) k) : BitLength n (k + a) := by
  have positive : 0 < 2 ^ a := Nat.two_pow_pos a
  rw [Nat.shiftRight_eq_div_pow] at upper
  have nonzero : n / 2 ^ a ≠ 0 := (Nat.div_pos large positive).ne'
  constructor
  · rw [Nat.pow_add]
    exact Nat.lt_mul_of_div_lt upper.below positive
  · intro _
    calc 2 ^ (k + a) = 2 ^ k * 2 ^ a := Nat.pow_add 2 k a
      _ ≤ 2 * (n / 2 ^ a) * 2 ^ a := Nat.mul_le_mul_right _ (upper.above nonzero)
      _ = 2 * (n / 2 ^ a * 2 ^ a) := Nat.mul_assoc _ _ _
      _ ≤ 2 * n := Nat.mul_le_mul_left 2 (Nat.div_mul_le_self n (2 ^ a))

theorem shiftRight_lt (n a b : ℕ) (small : n < 2 ^ (a + b)) : n >>> a < 2 ^ b := by
  rw [Nat.shiftRight_eq_div_pow]
  exact Nat.div_lt_of_lt_mul (by rwa [← Nat.pow_add])

theorem bitLength_fls16 (n : ℕ) (small : n < 2 ^ 16) : BitLength n (fls16 n) := by
  unfold fls16
  have mask := and_upper_iff n 8 8 small
  split
  · rename_i upper
    exact bitLength_shift n 8 _ (mask.mp upper) (bitLength_fls8 _ (shiftRight_lt n 8 8 small))
  · rename_i upper
    exact bitLength_fls8 n (not_le.mp (fun large => upper (mask.mpr large)))

theorem bitLength_fls32 (n : ℕ) (small : n < 2 ^ 32) : BitLength n (fls32 n) := by
  unfold fls32
  have mask := and_upper_iff n 16 16 small
  split
  · rename_i upper
    exact bitLength_shift n 16 _ (mask.mp upper) (bitLength_fls16 _ (shiftRight_lt n 16 16 small))
  · rename_i upper
    exact bitLength_fls16 n (not_le.mp (fun large => upper (mask.mpr large)))

theorem bitLength_fls64 (n : BitVec 64) : BitLength n.toNat (fls64 n) := by
  have mask : n &&& 0xffffffff00000000 ≠ 0 ↔ 2 ^ 32 ≤ n.toNat := by
    rw [← and_upper_iff n.toNat 32 32 n.isLt, ne_eq, ← BitVec.toNat_inj, BitVec.toNat_and]
    rfl
  unfold fls64
  split
  · rename_i upper
    have half : n.toNat >>> 32 < 2 ^ 32 := shiftRight_lt n.toNat 32 32 n.isLt
    rw [BitVec.toNat_ushiftRight, Nat.mod_eq_of_lt half]
    exact bitLength_shift _ 32 _ (mask.mp upper) (bitLength_fls32 _ half)
  · rename_i upper
    have half : n.toNat < 2 ^ 32 := not_le.mp (fun large => upper (mask.mpr large))
    rw [Nat.mod_eq_of_lt half]
    exact bitLength_fls32 _ half

theorem fls64_bounds (d : BitVec 64) (nonzero : d ≠ 0) :
    2 ^ (fls64 d - 1) ≤ d.toNat ∧ d.toNat < 2 ^ (fls64 d - 1 + 1) ∧ fls64 d - 1 ≤ 63 := by
  have length := bitLength_fls64 d
  have positive : d.toNat ≠ 0 := fun zero => nonzero (BitVec.eq_of_toNat_eq zero)
  have some : fls64 d ≠ 0 := by
    intro none
    have below := length.below
    rw [none] at below
    omega
  have top : fls64 d - 1 + 1 = fls64 d := by omega
  have low := length.above positive
  rw [← top, Nat.pow_succ] at low
  refine ⟨by omega, top ▸ length.below, ?_⟩
  have room : 2 ^ (fls64 d - 1) < 2 ^ 64 := lt_of_le_of_lt (show 2 ^ (fls64 d - 1) ≤ d.toNat by omega) d.isLt
  have inside := (Nat.pow_lt_pow_iff_right (by decide : 1 < 2)).mp room
  omega

theorem degree_fls64 (d : BitVec 64) (nonzero : d ≠ 0) : (bits d).degree = (fls64 d - 1 : ℕ) :=
  degree_poly _ _ (fls64_bounds d nonzero).1 (fls64_bounds d nonzero).2.1

-- A pair of words as one polynomial.
noncomputable def wide (n : BitVec 64 × BitVec 64) : (ZMod 2)[X] := bits n.1 * X ^ 64 + bits n.2

theorem getLsbD_shifted_top (d : BitVec 64) (i : ℕ) (top : d.getLsbD 63 = true) (inside : i < 64) :
    (d >>> (63 - i)).getLsbD i = true := by
  rw [BitVec.getLsbD_ushiftRight, show 63 - i + i = 63 by omega]
  exact top

theorem shifted_small (d : BitVec 64) (i : ℕ) (inside : i < 64) : (d >>> (63 - i)).toNat < 2 ^ (i + 1) := by
  rw [BitVec.toNat_ushiftRight]
  exact shiftRight_lt _ _ _ (lt_of_lt_of_le d.isLt (Nat.pow_le_pow_right (by decide) (by omega)))

theorem wide_subtract (d nh nl : BitVec 64) (s : ℕ) (inside : s ≤ 64) :
    wide (nh ^^^ (d >>> (64 - s)), nl ^^^ (d <<< s)) = wide (nh, nl) + bits d * X ^ s := by
  rw [← bits_spill d s inside]
  simp only [wide, bits_xor]
  ring

theorem polymodHigh_clears (d : BitVec 64) (top : d.getLsbD 63 = true) (i : ℕ) (nh nl : BitVec 64) (inside : i ≤ 63)
    (small : nh.toNat < 2 ^ i) :
    (polymodHigh d i (nh, nl)).1 = 0 ∧ bits d ∣ wide (nh, nl) + wide (polymodHigh d i (nh, nl)) := by
  induction i generalizing nh nl with
  | zero =>
      have zero : nh = 0 := BitVec.eq_of_toNat_eq (by simpa using small)
      refine ⟨zero, ?_⟩
      rw [polymodHigh, add_self]
      exact dvd_zero _
  | succ i ih =>
      have place : 64 - (i + 1) = 63 - i := by omega
      rw [polymodHigh]
      by_cases bit : nh.getLsbD i = true
      · have less := xor_lt_of_top nh (d >>> (63 - i)) small (shifted_small d i (by omega)) bit
          (getLsbD_shifted_top d i top (by omega))
        have subtract := wide_subtract d nh nl (i + 1) (by omega)
        rw [place] at subtract
        rw [if_pos ((and_bit_iff nh i (by omega)).mpr bit)]
        obtain ⟨clear, divides⟩ := ih _ (nl ^^^ (d <<< (i + 1))) (by omega) less
        refine ⟨clear, ?_⟩
        rw [subtract] at divides
        exact dvd_of_subtracted _ _ _ _ divides
      · have clearBit : nh.getLsbD i = false := by simpa using bit
        rw [if_neg (fun set => bit ((and_bit_iff nh i (by omega)).mp set))]
        exact ih nh nl (by omega) (lt_of_top_clear nh small clearBit)

theorem polymodLow_reduces (d : BitVec 64) (k n : ℕ) (nl : BitVec 64) (dTop : BitVec 64)
    (places : ∀ j < n, bits (dTop >>> (63 - (k + j))) = bits d * X ^ j) (top : dTop.getLsbD 63 = true)
    (inside : k + n ≤ 64) (small : nl.toNat < 2 ^ (k + n)) :
    (polymodLow dTop k n nl).toNat < 2 ^ k ∧ bits d ∣ bits nl + bits (polymodLow dTop k n nl) := by
  induction n generalizing nl with
  | zero =>
      refine ⟨small, ?_⟩
      rw [polymodLow, add_self]
      exact dvd_zero _
  | succ n ih =>
      have others : ∀ j < n, bits (dTop >>> (63 - (k + j))) = bits d * X ^ j := fun j less => places j (by omega)
      rw [polymodLow]
      by_cases bit : nl.getLsbD (k + n) = true
      · have less := xor_lt_of_top nl (dTop >>> (63 - (k + n))) small (shifted_small dTop (k + n) (by omega)) bit
          (getLsbD_shifted_top dTop (k + n) top (by omega))
        rw [if_pos ((and_bit_iff nl (k + n) (by omega)).mpr bit)]
        obtain ⟨reduced, divides⟩ := ih _ others (by omega) less
        refine ⟨reduced, ?_⟩
        rw [bits_xor, places n (by omega)] at divides
        exact dvd_of_subtracted _ _ _ _ divides
      · have clearBit : nl.getLsbD (k + n) = false := by simpa using bit
        rw [if_neg (fun set => bit ((and_bit_iff nl (k + n) (by omega)).mp set))]
        exact ih nl others (by omega) (lt_of_top_clear nl small clearBit)

theorem top_bit_set (d : BitVec 64) (nonzero : d ≠ 0) : (d <<< (63 - (fls64 d - 1))).getLsbD 63 = true := by
  obtain ⟨low, high, inside⟩ := fls64_bounds d nonzero
  generalize fls64 d - 1 = k at low high inside
  rw [BitVec.getLsbD_shiftLeft, show 63 - (63 - k) = k by omega]
  by_contra clear
  have below := lt_of_top_clear d high (by simpa [show 63 - k ≤ 63 by omega] using clear)
  omega

theorem moved_down (d : BitVec 64) (nonzero : d ≠ 0) (j : ℕ) (inside : j < 64 - (fls64 d - 1)) :
    bits ((d <<< (63 - (fls64 d - 1))) >>> (63 - (fls64 d - 1 + j))) = bits d * X ^ j := by
  obtain ⟨_, high, _⟩ := fls64_bounds d nonzero
  generalize fls64 d - 1 = k at high inside
  have fits : ∀ s, s ≤ 63 - k → d.toNat * 2 ^ s < 2 ^ 64 := by
    intro s room
    calc d.toNat * 2 ^ s < 2 ^ (k + 1) * 2 ^ s := Nat.mul_lt_mul_of_pos_right high (Nat.two_pow_pos s)
      _ = 2 ^ (k + 1 + s) := (Nat.pow_add 2 (k + 1) s).symm
      _ ≤ 2 ^ 64 := Nat.pow_le_pow_right (by decide) (by omega)
  have same : (d <<< (63 - k)) >>> (63 - (k + j)) = d <<< j := by
    apply BitVec.eq_of_toNat_eq
    rw [BitVec.toNat_ushiftRight, BitVec.toNat_shiftLeft, BitVec.toNat_shiftLeft, Nat.shiftLeft_eq, Nat.shiftLeft_eq,
      Nat.mod_eq_of_lt (fits (63 - k) le_rfl), Nat.mod_eq_of_lt (fits j (by omega)), Nat.shiftRight_eq_div_pow,
      show 63 - k = j + (63 - (k + j)) by omega, Nat.pow_add, ← Nat.mul_assoc]
    exact Nat.mul_div_cancel _ (Nat.two_pow_pos _)
  rw [same, bits_shiftLeft d j (fits j (by omega))]

theorem top_dvd (d : BitVec 64) (nonzero : d ≠ 0) : bits d ∣ bits (d <<< (63 - (fls64 d - 1))) := by
  have inside := (fls64_bounds d nonzero).2.2
  have moved := moved_down d nonzero (63 - (fls64 d - 1)) (by omega)
  rw [show 63 - (fls64 d - 1 + (63 - (fls64 d - 1))) = 0 by omega, BitVec.ushiftRight_zero] at moved
  rw [moved]
  exact dvd_mul_right _ _

theorem high_removed (dTop nh nl : BitVec 64) (top : dTop.getLsbD 63 = true) :
    let n := if nh ≠ 0 then polymodHigh dTop 63 (if nh &&& msb64 ≠ 0 then nh ^^^ dTop else nh, nl) else (nh, nl)
    n.1 = 0 ∧ bits dTop ∣ wide (nh, nl) + wide n := by
  intro n
  by_cases zero : nh = 0
  · rw [show n = (nh, nl) from if_neg (fun some => some zero)]
    refine ⟨zero, ?_⟩
    rw [add_self]
    exact dvd_zero _
  · rw [show n = polymodHigh dTop 63 (if nh &&& msb64 ≠ 0 then nh ^^^ dTop else nh, nl) from if_pos zero]
    have test := and_bit_iff nh 63 (by decide)
    rw [show 1#64 <<< 63 = msb64 from rfl] at test
    by_cases bit : nh.getLsbD 63 = true
    · have less := xor_lt_of_top nh dTop nh.isLt dTop.isLt bit top
      obtain ⟨clear, divides⟩ := polymodHigh_clears dTop top 63 (nh ^^^ dTop) nl le_rfl less
      rw [if_pos (test.mpr bit)]
      refine ⟨clear, ?_⟩
      have subtract : wide (nh ^^^ dTop, nl) = wide (nh, nl) + bits dTop * X ^ 64 := by
        simp only [wide, bits_xor]
        ring
      rw [subtract] at divides
      exact dvd_of_subtracted _ _ _ _ divides
    · rw [if_neg (fun set => bit (test.mp set))]
      exact polymodHigh_clears dTop top 63 nh nl le_rfl (lt_of_top_clear nh nh.isLt (by simpa using bit))

theorem bits_polymod (nh nl d : BitVec 64) (nonzero : d ≠ 0) :
    bits (polymod nh nl d) = (bits nh * X ^ 64 + bits nl) % bits d := by
  obtain ⟨clear, removed⟩ := high_removed (d <<< (63 - (fls64 d - 1))) nh nl (top_bit_set d nonzero)
  have inside := (fls64_bounds d nonzero).2.2
  generalize pair : (if nh ≠ 0 then polymodHigh (d <<< (63 - (fls64 d - 1))) 63
    (if nh &&& msb64 ≠ 0 then nh ^^^ (d <<< (63 - (fls64 d - 1))) else nh, nl) else (nh, nl)) = n at clear removed
  have room : fls64 d - 1 + (64 - (fls64 d - 1)) = 64 := by omega
  obtain ⟨reduced, divides⟩ := polymodLow_reduces d (fls64 d - 1) (64 - (fls64 d - 1)) n.2 (d <<< (63 - (fls64 d - 1)))
    (moved_down d nonzero) (top_bit_set d nonzero) room.le (by rw [room]; exact n.2.isLt)
  have result : polymod nh nl d = polymodLow (d <<< (63 - (fls64 d - 1))) (fls64 d - 1) (64 - (fls64 d - 1)) n.2 := by
    rw [← pair]
    rfl
  have low : wide n = bits n.2 := by rw [wide, clear, bits_zero, zero_mul, zero_add]
  rw [result]
  symm
  apply mod_unique
  · rw [degree_fls64 d nonzero]
    exact degree_poly_lt _ _ reduced
  · have first := (top_dvd d nonzero).trans removed
    rw [low] at first
    have both := dvd_add first divides
    rwa [add_assoc, ← add_assoc (bits n.2), add_self, zero_add] at both

theorem polymultLoop_product (x y : BitVec 64) (n : ℕ) (inside : n < 64) :
    wide (polymultLoop x y n) = poly (x.toNat % 2 ^ (n + 1)) * bits y := by
  have lowBits : ∀ m, poly (x.toNat % 2 ^ (m + 1)) = poly (x.toNat % 2 ^ m) + if x.getLsbD m then X ^ m else 0 := by
    intro m
    ext i
    rw [coeff_add, coeff_poly, coeff_poly, Nat.testBit_mod_two_pow, Nat.testBit_mod_two_pow]
    rw [show x.getLsbD m = x.toNat.testBit m from rfl]
    by_cases same : i = m
    · subst same
      cases x.toNat.testBit i <;> simp
    · by_cases below : i < m
      · cases x.toNat.testBit m <;> simp [below, show i < m + 1 by omega, coeff_X_pow, same]
      · cases x.toNat.testBit m <;> simp [below, show ¬ i < m + 1 by omega, coeff_X_pow, same]
  induction n with
  | zero =>
      have test := and_bit_iff x 0 (by decide)
      rw [show 1#64 <<< 0 = 1 from rfl] at test
      rw [polymultLoop, lowBits 0, Nat.pow_zero, Nat.mod_one, poly_zero, wide, bits_zero]
      by_cases bit : x.getLsbD 0 = true
      · rw [if_pos (test.mpr bit), if_pos bit]
        simp
      · rw [if_neg (fun set => bit (test.mp set)), if_neg bit, bits_zero]
        simp
  | succ n ih =>
      have test := and_bit_iff x (n + 1) (by omega)
      have loop := ih (by omega)
      rw [polymultLoop, lowBits (n + 1), add_mul, ← loop]
      by_cases bit : x.getLsbD (n + 1) = true
      · rw [if_pos (test.mpr bit), if_pos bit, wide_subtract y _ _ (n + 1) (by omega)]
        ring
      · rw [if_neg (fun set => bit (test.mp set)), if_neg bit, zero_mul, add_zero]

theorem bits_polymult (x y : BitVec 64) :
    bits (polymult x y).1 * X ^ 64 + bits (polymult x y).2 = bits x * bits y := by
  have loop := polymultLoop_product x y 63 (by decide)
  rwa [Nat.mod_eq_of_lt x.isLt] at loop

theorem bits_polymmult (x y d : BitVec 64) (nonzero : d ≠ 0) : bits (polymmult x y d) = bits x * bits y % bits d := by
  rw [polymmult, bits_polymod _ _ _ nonzero, bits_polymult]

theorem poly_arithmetic (d : BitVec 64) (nonzero : d ≠ 0) :
    (∀ nh nl, bits (polymod nh nl d) = (bits nh * X ^ 64 + bits nl) % bits d) ∧
    (∀ x y, bits (polymult x y).1 * X ^ 64 + bits (polymult x y).2 = bits x * bits y) ∧
    ∀ x y, polymmult (polymod 0 x d) (polymod 0 y d) d = polymmult x y d := by
  refine ⟨fun nh nl => bits_polymod nh nl d nonzero, bits_polymult, fun x y => bits_injective _ _ ?_⟩
  have low (z : BitVec 64) : bits (polymod 0 z d) = bits z % bits d := by
    rw [bits_polymod 0 z d nonzero]
    rw [bits_zero, zero_mul, zero_add]
  rw [bits_polymmult _ _ _ nonzero, bits_polymmult _ _ _ nonzero, low, low, mul_mod_left, mul_comm, mul_mod_left, mul_comm]

theorem poly_arithmetic_byte :
    (∀ nh nl, bits (polymod nh nl 0x11b) = (bits nh * X ^ 64 + bits nl) % bits (0x11b : BitVec 64)) ∧
    (∀ x y, bits (polymult x y).1 * X ^ 64 + bits (polymult x y).2 = bits x * bits y) ∧
    ∀ x y, polymmult (polymod 0 x 0x11b) (polymod 0 y 0x11b) 0x11b = polymmult x y 0x11b :=
  poly_arithmetic 0x11b (by decide)

end SsAdma
