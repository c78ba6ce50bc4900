import Mathlib.Algebra.Polynomial.FieldDivision
import Mathlib.Algebra.Field.ZMod
import Mathlib.Data.BitVec

set_option autoImplicit false

namespace Gf2Poly

open Polynomial

-- The polynomial over GF(2) whose coefficients are the bits of a number.
noncomputable def poly (n : ℕ) : (ZMod 2)[X] := ∑ i ∈ Finset.range n, if n.testBit i then X ^ i else 0

theorem coeff_poly (n k : ℕ) : (poly n).coeff k = if n.testBit k then 1 else 0 := by
  have term : ∀ i, (if n.testBit i then (X ^ i : (ZMod 2)[X]) else 0).coeff k = if i = k ∧ n.testBit k then 1 else 0 := by
    intro i
    by_cases same : i = k
    · subst same
      cases n.testBit i <;> simp
    · cases n.testBit i <;> simp [coeff_X_pow, same, Ne.symm same]
  rw [poly, finsetSum_coeff, Finset.sum_congr rfl (fun i _ => term i)]
  by_cases inside : k < n
  · rw [Finset.sum_eq_single k (fun i _ other => if_neg (fun both => other both.1))
      (fun outside => absurd (Finset.mem_range.mpr inside) outside)]
    simp
  · have clear : n.testBit k = false := Nat.testBit_lt_two_pow (lt_of_le_of_lt (not_lt.mp inside) Nat.lt_two_pow_self)
    simp [clear]

theorem poly_xor (a b : ℕ) : poly (a ^^^ b) = poly a + poly b := by
  ext k
  rw [coeff_add, coeff_poly, coeff_poly, coeff_poly, Nat.testBit_xor]
  cases a.testBit k <;> cases b.testBit k <;> rfl

theorem poly_zero : poly 0 = 0 := rfl

theorem poly_two_pow (k : ℕ) : poly (2 ^ k) = X ^ k := by
  ext i
  rw [coeff_poly, coeff_X_pow, Nat.testBit_two_pow]
  by_cases same : k = i
  · simp [same]
  · simp [same, Ne.symm same]

theorem poly_one : poly 1 = 1 := by simpa using poly_two_pow 0

theorem poly_shiftLeft (a k : ℕ) : poly (a <<< k) = poly a * X ^ k := by
  ext i
  rw [coeff_mul_X_pow', coeff_poly, coeff_poly, Nat.testBit_shiftLeft]
  by_cases above : k ≤ i <;> simp [above]

theorem poly_injective (a b : ℕ) (same : poly a = poly b) : a = b := by
  apply Nat.eq_of_testBit_eq
  intro i
  have coeff := congrArg (fun p => p.coeff i) same
  simp only [coeff_poly] at coeff
  cases ha : a.testBit i <;> cases hb : b.testBit i <;> simp_all

theorem degree_poly_lt (n k : ℕ) (bound : n < 2 ^ k) : (poly n).degree < k := by
  rw [degree_lt_iff_coeff_zero]
  intro i above
  rw [coeff_poly, Nat.testBit_lt_two_pow (lt_of_lt_of_le bound (Nat.pow_le_pow_right (by decide) above))]
  rfl

theorem lt_of_degree_poly (n k : ℕ) (small : (poly n).degree < k) : n < 2 ^ k := by
  apply Nat.lt_pow_two_of_testBit
  intro i above
  have clear := degree_lt_iff_coeff_zero _ _ |>.mp small i above
  rw [coeff_poly] at clear
  cases bit : n.testBit i with
  | false => rfl
  | true => simp [bit] at clear

theorem degree_poly (n k : ℕ) (low : 2 ^ k ≤ n) (high : n < 2 ^ (k + 1)) : (poly n).degree = k := by
  have below : (poly n).degree < (k + 1 : ℕ) := degree_poly_lt n (k + 1) high
  have upTo : (poly n).degree ≤ k := by
    rw [degree_le_iff_coeff_zero]
    intro i above
    exact degree_lt_iff_coeff_zero _ _ |>.mp below i (WithBot.coe_lt_coe.mp above)
  have above : ¬ (poly n).degree < k := fun small => absurd (lt_of_degree_poly n k small) (not_lt.mpr low)
  exact le_antisymm upTo (not_lt.mp above)

theorem add_self (p : (ZMod 2)[X]) : p + p = 0 := CharTwo.add_self_eq_zero p

theorem eq_of_add_eq (p q r : (ZMod 2)[X]) (sum : p + q = r) : p = r + q := by
  rw [← sum, add_assoc, add_self, add_zero]

theorem mod_unique (p d r : (ZMod 2)[X]) (small : r.degree < d.degree) (differ : d ∣ p + r) : p % d = r := by
  have split : p = (p + r) + r := by rw [add_assoc, add_self, add_zero]
  rw [split, add_mod, (EuclideanDomain.mod_eq_zero).mpr differ, zero_add]
  exact (mod_eq_self_iff (fun zero => by simp [zero] at small)).mpr small

theorem dvd_add_mod (p d : (ZMod 2)[X]) : d ∣ p + p % d := by
  have split : p % d = p + d * (p / d) := eq_of_add_eq _ _ _ ((add_comm _ _).trans (EuclideanDomain.div_add_mod p d))
  rw [split, ← add_assoc, add_self, zero_add]
  exact dvd_mul_right d _

theorem mod_eq_mod_iff (p q d : (ZMod 2)[X]) : p % d = q % d ↔ d ∣ p + q := by
  rw [← EuclideanDomain.mod_eq_zero, add_mod]
  constructor
  · intro same
    rw [same, add_self]
  · intro zero
    simpa using eq_of_add_eq _ _ _ zero

theorem mul_mod_left (p q d : (ZMod 2)[X]) : (p % d * q) % d = (p * q) % d := by
  rw [mod_eq_mod_iff, ← add_mul, add_comm]
  exact (dvd_add_mod p d).mul_right q

theorem dvd_of_subtracted (d p q c : (ZMod 2)[X]) (divides : d ∣ p + d * c + q) : d ∣ p + q := by
  have whole : p + q = p + d * c + q + d * c := by
    rw [add_right_comm (p + d * c) q (d * c), add_assoc p, add_self, add_zero]
  rw [whole]
  exact dvd_add divides (dvd_mul_right d c)

theorem mod_mod (p d : (ZMod 2)[X]) : p % d % d = p % d := by
  rw [mod_eq_mod_iff, add_comm]
  exact dvd_add_mod p d

theorem degree_mod_lt (p d : (ZMod 2)[X]) (nonzero : d ≠ 0) : (p % d).degree < d.degree :=
  EuclideanDomain.mod_lt p nonzero

theorem dvd_mul_X_pow (d p : (ZMod 2)[X]) (constant : d.coeff 0 = 1) (k : ℕ) (divides : d ∣ p * X ^ k) : d ∣ p := by
  have coprime : IsCoprime d (X ^ k) := by
    refine IsCoprime.pow_right ?_
    rw [isCoprime_comm, (irreducible_X : Irreducible (X : (ZMod 2)[X])).coprime_iff_not_dvd, X_dvd_iff, constant]
    exact one_ne_zero
  exact coprime.dvd_of_dvd_mul_right divides

theorem burst_detected (d p q e : (ZMod 2)[X]) (k : ℕ) (constant : d.coeff 0 = 1) (differ : p + q = e * X ^ k)
    (small : e.degree < d.degree) (nonzero : e ≠ 0) : p % d ≠ q % d := by
  intro same
  have divides : d ∣ e * X ^ k := differ ▸ (mod_eq_mod_iff p q d).mp same
  have factor : d ∣ e := dvd_mul_X_pow d e constant k divides
  exact absurd (degree_le_of_dvd factor nonzero) (not_le.mpr small)

-- The same polynomials for the words of a machine.
noncomputable def bits {w : ℕ} (x : BitVec w) : (ZMod 2)[X] := poly x.toNat

theorem coeff_bits {w : ℕ} (x : BitVec w) (k : ℕ) : (bits x).coeff k = if x.getLsbD k then 1 else 0 := coeff_poly x.toNat k

theorem bits_zero (w : ℕ) : bits (0 : BitVec w) = 0 := by simp [bits, poly_zero]

theorem bits_xor {w : ℕ} (x y : BitVec w) : bits (x ^^^ y) = bits x + bits y := by
  rw [bits, BitVec.toNat_xor, poly_xor, bits, bits]

theorem bits_injective {w : ℕ} (x y : BitVec w) (same : bits x = bits y) : x = y :=
  BitVec.eq_of_toNat_eq (poly_injective _ _ same)

theorem degree_bits_lt {w : ℕ} (x : BitVec w) : (bits x).degree < w := degree_poly_lt _ _ x.isLt

theorem bits_setWidth {w : ℕ} (x : BitVec w) (v : ℕ) (wider : w ≤ v) : bits (x.setWidth v) = bits x := by
  rw [bits, bits, BitVec.toNat_setWidth, Nat.mod_eq_of_lt (lt_of_lt_of_le x.isLt (Nat.pow_le_pow_right (by decide) wider))]

theorem bits_spill {w : ℕ} (x : BitVec w) (s : ℕ) (inside : s ≤ w) :
    bits (x >>> (w - s)) * X ^ w + bits (x <<< s) = bits x * X ^ s := by
  ext k
  simp only [coeff_add, coeff_mul_X_pow', coeff_bits, BitVec.getLsbD_ushiftRight, BitVec.getLsbD_shiftLeft]
  by_cases high : w ≤ k
  · have index : w - s + (k - w) = k - s := by omega
    simp [high, not_lt.mpr high, show s ≤ k by omega, index]
  · by_cases low : s ≤ k <;> simp [high, low, not_le.mp high, show k < s ↔ ¬ s ≤ k by omega]

theorem bits_shiftLeft {w : ℕ} (x : BitVec w) (s : ℕ) (fits : x.toNat * 2 ^ s < 2 ^ w) : bits (x <<< s) = bits x * X ^ s := by
  rw [bits, BitVec.toNat_shiftLeft, Nat.shiftLeft_eq, Nat.mod_eq_of_lt fits, ← Nat.shiftLeft_eq, poly_shiftLeft, bits]

theorem bits_or {w : ℕ} (x y : BitVec w) (s : ℕ) (low : x.toNat < 2 ^ s) : bits (x ||| (y <<< s)) = bits x + bits (y <<< s) := by
  rw [← bits_xor]
  congr 1
  apply BitVec.eq_of_getLsbD_eq
  intro i inside
  simp only [BitVec.getLsbD_or, BitVec.getLsbD_xor, BitVec.getLsbD_shiftLeft]
  by_cases above : s ≤ i
  · have clear : x.getLsbD i = false := Nat.testBit_lt_two_pow (lt_of_lt_of_le low (Nat.pow_le_pow_right (by decide) above))
    simp [clear]
  · simp [not_le.mp above]

theorem poly_split (n s : ℕ) : poly n = poly (n % 2 ^ s) + poly (n >>> s) * X ^ s := by
  ext i
  rw [coeff_add, coeff_mul_X_pow', coeff_poly, coeff_poly, coeff_poly, Nat.testBit_mod_two_pow, Nat.testBit_shiftRight]
  by_cases above : s ≤ i
  · simp [above, not_lt.mpr above]
  · simp [above, not_le.mp above]

theorem xor_lt_of_top {w i : ℕ} (x y : BitVec w) (xSmall : x.toNat < 2 ^ (i + 1)) (ySmall : y.toNat < 2 ^ (i + 1))
    (xTop : x.getLsbD i = true) (yTop : y.getLsbD i = true) : (x ^^^ y).toNat < 2 ^ i := by
  apply Nat.lt_pow_two_of_testBit
  intro k above
  rw [BitVec.toNat_xor, Nat.testBit_xor]
  by_cases same : k = i
  · subst same
    rw [show x.toNat.testBit k = true from xTop, show y.toNat.testBit k = true from yTop]
    rfl
  · have beyond : 2 ^ (i + 1) ≤ 2 ^ k := Nat.pow_le_pow_right (by decide) (by omega)
    rw [Nat.testBit_lt_two_pow (lt_of_lt_of_le xSmall beyond), Nat.testBit_lt_two_pow (lt_of_lt_of_le ySmall beyond)]
    rfl

theorem lt_of_top_clear {w i : ℕ} (x : BitVec w) (small : x.toNat < 2 ^ (i + 1)) (clear : x.getLsbD i = false) :
    x.toNat < 2 ^ i := by
  apply Nat.lt_pow_two_of_testBit
  intro k above
  by_cases same : k = i
  · rw [same]
    exact clear
  · exact Nat.testBit_lt_two_pow (lt_of_lt_of_le small (Nat.pow_le_pow_right (by decide) (by omega)))

theorem and_bit_iff {w : ℕ} (x : BitVec w) (i : ℕ) (inside : i < w) : x &&& (1#w <<< i) ≠ 0 ↔ x.getLsbD i = true := by
  rw [show 1#w <<< i = BitVec.twoPow w i from rfl, BitVec.and_twoPow]
  cases bit : x.getLsbD i with
  | false => simp
  | true =>
      have nonzero : BitVec.twoPow w i ≠ 0 := by
        intro zero
        have own := congrArg (fun y => y.getLsbD i) zero
        simp [inside] at own
      exact iff_of_true nonzero rfl

end Gf2Poly
