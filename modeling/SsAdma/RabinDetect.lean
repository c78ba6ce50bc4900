import SsAdma.Rabin

set_option autoImplicit false

namespace SsAdma

open Polynomial Gf2Poly

theorem degree_message (bytes : List (BitVec 8)) : (message bytes).degree < (8 * bytes.length : ℕ) := by
  induction bytes using List.reverseRecOn with
  | nil => simp [message]
  | append_singleton bytes m ih =>
      rw [message_append, List.length_append, List.length_singleton, degree_lt_iff_coeff_zero]
      intro i above
      rw [coeff_add, coeff_mul_X_pow', if_pos (by omega), degree_lt_iff_coeff_zero _ _ |>.mp ih (i - 8) (by omega),
        degree_lt_iff_coeff_zero _ _ |>.mp (degree_bits_lt m) i (by omega), add_zero]

theorem message_injective (a b : List (BitVec 8)) (length : a.length = b.length) (same : message a = message b) : a = b := by
  induction a generalizing b with
  | nil => exact (List.length_eq_zero_iff.mp length.symm).symm
  | cons x a ih =>
      cases b with
      | nil => simp at length
      | cons y b =>
          have rest : a.length = b.length := by simpa using length
          rw [message_cons, message_cons, rest] at same
          have aLow : (message a).degree < (8 * b.length : ℕ) := rest ▸ degree_message a
          have heads : bits x = bits y := by
            ext i
            have place := congrArg (fun p => p.coeff (i + 8 * b.length)) same
            simpa [coeff_mul_X_pow, degree_lt_iff_coeff_zero _ _ |>.mp aLow (i + 8 * b.length) (by omega),
              degree_lt_iff_coeff_zero _ _ |>.mp (degree_message b) (i + 8 * b.length) (by omega)] using place
          rw [heads] at same
          rw [bits_injective x y heads, ih b rest (add_left_cancel same)]

theorem message_burst (before a b behind : List (BitVec 8)) (length : a.length = b.length) :
    message (before ++ (a ++ behind)) + message (before ++ (b ++ behind)) = (message a + message b) * X ^ (8 * behind.length) := by
  rw [message_concat, message_concat, message_concat, message_concat, List.length_append, List.length_append, length]
  rw [add_add_add_comm, add_self, zero_add, add_add_add_comm, add_self, add_zero, add_mul]

theorem coeff_zero_of_odd (poly : BitVec 64) (odd : poly.getLsbD 0 = true) : (bits poly).coeff 0 = 1 := by
  rw [coeff_bits, if_pos odd]

theorem rabin_burst (poly : BitVec 64) (large : 0x100 ≤ poly.toNat) (odd : poly.getLsbD 0 = true) (size : ℕ) (nonempty : 0 < size)
    (firstCalls secondCalls : List RabinCall) (first second before a b behind : List (BitVec 8))
    (firstWindow : lastBytes size first = before ++ (a ++ behind)) (secondWindow : lastBytes size second = before ++ (b ++ behind))
    (length : a.length = b.length) (short : 8 * a.length ≤ fls64 poly - 1) (differ : a ≠ b) :
    ∃ s t, (Rabin.statics size).run poly size (.init :: (firstCalls ++ .reset :: first.map .slide8)) = some s ∧
      (Rabin.statics size).run poly size (.init :: (secondCalls ++ .reset :: second.map .slide8)) = some t ∧
      s.fingerprint ≠ t.fingerprint := by
  obtain ⟨s, firstRan, firstValue⟩ := reset_window poly large size nonempty firstCalls first
  obtain ⟨t, secondRan, secondValue⟩ := reset_window poly large size nonempty secondCalls second
  refine ⟨s, t, firstRan, secondRan, fun same => ?_⟩
  have differs : message a + message b ≠ 0 := by
    intro zero
    have equal : message a = message b := by simpa using eq_of_add_eq _ _ _ zero
    exact differ (message_injective a b length equal)
  have small : (message a + message b).degree < (bits poly).degree := by
    rw [(degree_poly_bits poly large).1]
    have bound : ((8 * a.length : ℕ) : WithBot ℕ) ≤ (fls64 poly - 1 : ℕ) := by exact_mod_cast short
    have left := lt_of_lt_of_le (degree_message a) bound
    have right := lt_of_lt_of_le (degree_message b) (length ▸ bound)
    exact lt_of_le_of_lt (degree_add_le _ _) (max_lt left right)
  refine burst_detected (bits poly) _ _ _ _ (coeff_zero_of_odd poly odd) (message_burst before a b behind length) small differs ?_
  rw [← firstWindow, ← secondWindow, ← firstValue, ← secondValue, same]

theorem rabin_burst_last_byte : ∃ s t,
    (Rabin.statics rabinWindowSize).run rabinPoly rabinWindowSize (.init :: ([] ++ .reset :: [1, 2].map .slide8)) = some s ∧
      (Rabin.statics rabinWindowSize).run rabinPoly rabinWindowSize (.init :: ([.slide8 9] ++ .reset :: [1, 3].map .slide8)) = some t ∧
      s.fingerprint ≠ t.fingerprint :=
  rabin_burst rabinPoly (by decide) (by decide) rabinWindowSize (by decide) [] [.slide8 9] [1, 2] [1, 3]
    (List.replicate 46 0 ++ [1]) [2] [3] [] (by decide) (by decide) (by decide) (by decide) (by decide)

theorem rabin_second_init (poly : BitVec 64) (large : 0x100 ≤ poly.toNat) (odd : poly.getLsbD 0 = true) (size : ℕ)
    (nonempty : 0 < size) (calls : List RabinCall) (bytes : List (BitVec 8)) :
    ∃ s t, (Rabin.statics size).run poly size (.init :: calls) = some s ∧
      (Rabin.statics size).run poly size (.init :: (calls ++ .init :: bytes.map .slide8)) = some t ∧
      (bits t.fingerprint = message (lastBytes size bytes) % bits poly ↔ s.fingerprint = 0) := by
  obtain ⟨s, ran, before⟩ := started_refines poly large size nonempty calls
  obtain ⟨again, called, restarted⟩ := init_refines poly large size s _ before.position before.fingerprint
  obtain ⟨t, slid, refines⟩ := run_refines poly large size nonempty again _ restarted (bytes.map .slide8)
  refine ⟨s, t, ran, ?_, ?_⟩
  · rw [← List.cons_append, run_append, ran, Option.bind_some, Rabin.run, List.foldlM_cons,
      show s.call poly size .init = some again from called]
    exact slid
  · rw [refines.fingerprint, RabinWindow.call, ← before.fingerprint,
      slides_bytes _ size nonempty ⟨bits s.fingerprint, List.replicate size 0⟩ List.length_replicate, RabinWindow.fingerprint,
      ← lastBytes, mod_eq_mod_iff, add_assoc, add_self, add_zero]
    constructor
    · intro divides
      have factor := dvd_mul_X_pow (bits poly) _ (coeff_zero_of_odd poly odd) _ divides
      have zero : bits s.fingerprint = 0 := by
        by_contra some
        have small := degree_mod_lt (RabinWindow.stale (RabinWindow.run (bits poly) size ⟨0, List.replicate size 0⟩ calls) +
          message (RabinWindow.run (bits poly) size ⟨0, List.replicate size 0⟩ calls).bytes) (bits poly) (bits_poly_ne_zero poly large)
        rw [← RabinWindow.fingerprint, ← before.fingerprint] at small
        exact absurd (degree_le_of_dvd factor some) (not_le.mpr small)
      exact bits_injective _ _ (zero.trans (bits_zero 64).symm)
    · intro zero
      rw [zero]
      change bits poly ∣ bits (0 : BitVec 64) * X ^ (8 * bytes.length)
      rw [bits_zero, zero_mul]
      exact dvd_zero _

theorem rabin_second_init_first_byte : ∃ s t,
    (Rabin.statics rabinWindowSize).run rabinPoly rabinWindowSize (.init :: [.slide8 1]) = some s ∧
      (Rabin.statics rabinWindowSize).run rabinPoly rabinWindowSize (.init :: ([.slide8 1] ++ .init :: [2].map .slide8)) = some t ∧
      (bits t.fingerprint = message (lastBytes rabinWindowSize [2]) % bits rabinPoly ↔ s.fingerprint = 0) :=
  rabin_second_init rabinPoly (by decide) (by decide) rabinWindowSize (by decide) [.slide8 1] [2]

end SsAdma
