import SsAdma.Polymod
import Mathlib.Data.List.Rotate

set_option autoImplicit false

namespace SsAdma

open Polynomial Gf2Poly

-- The statics of the fingerprint. The polynomial and the window size are the
-- parameters of the functions.
structure Rabin where
  T : List (BitVec 64)
  shift : ℕ
  fingerprint : BitVec 64
  bufpos : ℤ
  U : List (BitVec 64)
  buf : List (BitVec 8)
deriving DecidableEq, Repr

def rabinPoly : BitVec 64 := 0xb15e234bd3792f63
def rabinWindowSize : ℕ := 48

def Rabin.statics (size : ℕ) : Rabin :=
  ⟨List.replicate 256 0, 0, 0, -1, List.replicate 256 0, List.replicate size 0⟩

-- none is an index outside the table.
def Rabin.append8 (s : Rabin) (p : BitVec 64) (m : BitVec 8) : Option (BitVec 64) := do
  let t ← s.T[(p >>> s.shift).toNat]?
  return ((p <<< 8) ||| m.setWidth 64) ^^^ t

def Rabin.appendZeros (s : Rabin) : ℕ → BitVec 64 → Option (BitVec 64)
  | 0, sizeshift => some sizeshift
  | n + 1, sizeshift => (s.append8 sizeshift 0).bind (s.appendZeros n)

def tableT (poly : BitVec 64) : List (BitVec 64) :=
  let xshift := fls64 poly - 1
  let t1 := polymod 0 (1#64 <<< xshift) poly
  (List.range 256).map (fun j => polymmult (BitVec.ofNat 64 j) t1 poly ||| (BitVec.ofNat 64 j <<< xshift))

def tableU (poly sizeshift : BitVec 64) : List (BitVec 64) :=
  (List.range 256).map (fun i => polymmult (BitVec.ofNat 64 i) sizeshift poly)

def rabinInit (poly : BitVec 64) (size : ℕ) (s : Rabin) : Option Rabin := do
  let loaded := { s with shift := fls64 poly - 1 - 8, T := tableT poly }
  let sizeshift ← loaded.appendZeros (size - 1) 1
  return { loaded with U := tableU poly sizeshift, buf := List.replicate size 0 }

def rabinReset (size : ℕ) (s : Rabin) : Rabin := { s with fingerprint := 0, buf := List.replicate size 0 }

def rabinSlide8 (size : ℕ) (s : Rabin) (m : BitVec 8) : Option Rabin := do
  let bufpos := if s.bufpos + 1 ≥ size then 0 else s.bufpos + 1
  let om ← s.buf[bufpos.toNat]?
  let u ← s.U[om.toNat]?
  let fingerprint ← s.append8 (s.fingerprint ^^^ u) m
  return { s with bufpos := bufpos, buf := s.buf.set bufpos.toNat m, fingerprint := fingerprint }

inductive RabinCall where
  | init
  | reset
  | slide8 (m : BitVec 8)
deriving DecidableEq, Repr

def Rabin.call (poly : BitVec 64) (size : ℕ) (s : Rabin) : RabinCall → Option Rabin
  | .init => rabinInit poly size s
  | .reset => some (rabinReset size s)
  | .slide8 m => rabinSlide8 size s m

-- The polynomial of a message, its first byte in the highest place.
noncomputable def message (bytes : List (BitVec 8)) : (ZMod 2)[X] := bytes.foldl (fun p m => p * X ^ 8 + bits m) 0

-- What the fingerprint is for: the remainder of the last bytes. A second init
-- clears the window and keeps the fingerprint, which is never slid out.
structure RabinWindow where
  stale : (ZMod 2)[X]
  bytes : List (BitVec 8)

noncomputable def RabinWindow.fingerprint (p : (ZMod 2)[X]) (w : RabinWindow) : (ZMod 2)[X] := (w.stale + message w.bytes) % p

noncomputable def RabinWindow.call (p : (ZMod 2)[X]) (size : ℕ) (w : RabinWindow) : RabinCall → RabinWindow
  | .init => ⟨w.fingerprint p, List.replicate size 0⟩
  | .reset => ⟨0, List.replicate size 0⟩
  | .slide8 m => ⟨w.stale * X ^ 8, w.bytes.tail ++ [m]⟩

def Rabin.run (poly : BitVec 64) (size : ℕ) (s : Rabin) (calls : List RabinCall) : Option Rabin :=
  calls.foldlM (Rabin.call poly size) s

noncomputable def RabinWindow.run (p : (ZMod 2)[X]) (size : ℕ) (w : RabinWindow) (calls : List RabinCall) : RabinWindow :=
  calls.foldl (RabinWindow.call p size) w

def lastBytes (size : ℕ) (bytes : List (BitVec 8)) : List (BitVec 8) := (List.replicate size 0 ++ bytes).drop bytes.length

theorem message_append (before : List (BitVec 8)) (m : BitVec 8) : message (before ++ [m]) = message before * X ^ 8 + bits m := by
  simp [message, List.foldl_append]

theorem message_concat (before behind : List (BitVec 8)) :
    message (before ++ behind) = message before * X ^ (8 * behind.length) + message behind := by
  induction behind using List.reverseRecOn with
  | nil => simp [message]
  | append_singleton behind m ih =>
      rw [← List.append_assoc, message_append, ih, message_append, List.length_append, List.length_singleton,
        Nat.mul_add, pow_add]
      ring

theorem message_cons (m : BitVec 8) (behind : List (BitVec 8)) :
    message (m :: behind) = bits m * X ^ (8 * behind.length) + message behind := by
  have head : message [m] = bits m := by simp [message]
  rw [← List.singleton_append, message_concat, head]

theorem message_zeros (n : ℕ) : message (List.replicate n 0) = 0 := by
  induction n with
  | zero => rfl
  | succ n ih => rw [List.replicate_succ, message_cons, ih, bits_zero, zero_mul, add_zero]

theorem rotate_set {A : Type} (ring : List A) (m : A) (r : ℕ) (inside : r < ring.length) :
    (ring.set r m).rotate (r + 1) = (ring.rotate r).tail ++ [m] := by
  rw [List.rotate_eq_drop_append_take (by rw [List.length_set]; omega), List.rotate_eq_drop_append_take inside.le,
    List.drop_set_of_lt (by omega), List.drop_eq_getElem_cons inside]
  simp [List.take_add_one, inside, List.take_set_of_le]

theorem rotate_head {A : Type} (ring : List A) (r : ℕ) (inside : r < ring.length) :
    ring.rotate r = ring[r] :: (ring.rotate r).tail := by
  rw [List.rotate_eq_drop_append_take inside.le, List.drop_eq_getElem_cons inside]
  rfl

theorem degree_poly_bits (poly : BitVec 64) (large : 0x100 ≤ poly.toNat) :
    (bits poly).degree = (fls64 poly - 1 : ℕ) ∧ 8 ≤ fls64 poly - 1 ∧ fls64 poly - 1 ≤ 63 := by
  have nonzero : poly ≠ 0 := fun zero => by simp [zero] at large
  obtain ⟨_, high, inside⟩ := fls64_bounds poly nonzero
  refine ⟨degree_fls64 poly nonzero, ?_, inside⟩
  by_contra short
  have below : 2 ^ (fls64 poly - 1 + 1) ≤ 2 ^ 8 := Nat.pow_le_pow_right (by decide) (by omega)
  omega

theorem bits_poly_ne_zero (poly : BitVec 64) (large : 0x100 ≤ poly.toNat) : bits poly ≠ 0 := by
  intro zero
  have degree := (degree_poly_bits poly large).1
  rw [zero, degree_zero] at degree
  exact WithBot.bot_ne_coe degree

theorem toNat_lt_of_mod (poly r : BitVec 64) (p : (ZMod 2)[X]) (large : 0x100 ≤ poly.toNat) (value : bits r = p % bits poly) :
    r.toNat < 2 ^ (fls64 poly - 1) := by
  have nonzero := bits_poly_ne_zero poly large
  apply lt_of_degree_poly
  rw [← (degree_poly_bits poly large).1]
  rw [show Gf2Poly.poly r.toNat = p % bits poly from value]
  exact degree_mod_lt p (bits poly) nonzero

structure RabinLoaded (poly : BitVec 64) (s : Rabin) : Prop where
  shift : s.shift = fls64 poly - 1 - 8
  T : s.T = tableT poly

theorem bits_tableT (poly : BitVec 64) (large : 0x100 ≤ poly.toNat) (j : ℕ) (inside : j < 256) :
    ∃ t, (tableT poly)[j]? = some t ∧
      bits t = bits (BitVec.ofNat 64 j) * X ^ (fls64 poly - 1) % bits poly + bits (BitVec.ofNat 64 j <<< (fls64 poly - 1)) := by
  have nonzero : poly ≠ 0 := fun zero => by simp [zero] at large
  have places := (degree_poly_bits poly large).2.2
  have power : bits (1#64 <<< (fls64 poly - 1)) = X ^ (fls64 poly - 1) := by
    rw [bits, show 1#64 <<< (fls64 poly - 1) = BitVec.twoPow 64 (fls64 poly - 1) from rfl,
      BitVec.toNat_twoPow_of_lt (by omega), poly_two_pow]
  refine ⟨polymmult (BitVec.ofNat 64 j) (polymod 0 (1#64 <<< (fls64 poly - 1)) poly) poly |||
    (BitVec.ofNat 64 j <<< (fls64 poly - 1)), by simp [tableT, inside], ?_⟩
  have product := bits_polymmult (BitVec.ofNat 64 j) (polymod 0 (1#64 <<< (fls64 poly - 1)) poly) poly nonzero
  rw [bits_or _ _ _ (toNat_lt_of_mod poly _ _ large product), product, bits_polymod _ _ _ nonzero, power,
    bits_zero, zero_mul, zero_add, mul_comm, mul_mod_left, mul_comm]

theorem shifts_cancel (p : BitVec 64) (x : ℕ) (eight : 8 ≤ x) (places : x ≤ 63) :
    bits (p <<< 8) + bits ((p >>> (x - 8)) <<< x) = bits p * X ^ 8 + bits (p >>> (x - 8)) * X ^ x := by
  have dropped : p >>> (64 - 8) = (p >>> (x - 8)) >>> (64 - x) := by
    rw [← BitVec.shiftRight_add, show x - 8 + (64 - x) = 64 - 8 by omega]
  have cancel : ∀ a b c : (ZMod 2)[X], a + b = c + a + (c + b) := by
    intro a b c
    rw [add_add_add_comm, add_self, zero_add]
  rw [← bits_spill p 8 (by decide), ← bits_spill (p >>> (x - 8)) x (by omega), dropped]
  exact cancel _ _ _

theorem lower_moved (p : BitVec 64) (x : ℕ) (eight : 8 ≤ x) :
    ((p.toNat % 2 ^ (x - 8)) <<< 8) < 2 ^ x ∧
      bits p * X ^ 8 + bits (p >>> (x - 8)) * X ^ x = Gf2Poly.poly ((p.toNat % 2 ^ (x - 8)) <<< 8) := by
  have places : x - 8 + 8 = x := by omega
  constructor
  · rw [Nat.shiftLeft_eq, show 2 ^ x = 2 ^ (x - 8) * 2 ^ 8 by rw [← Nat.pow_add, places]]
    exact Nat.mul_lt_mul_of_pos_right (Nat.mod_lt _ (Nat.two_pow_pos _)) (by decide)
  · rw [poly_shiftLeft, bits, bits, BitVec.toNat_ushiftRight, poly_split p.toNat (x - 8), add_mul, mul_assoc, ← pow_add,
      places, add_assoc, add_self, add_zero]

theorem append8_remainder (poly : BitVec 64) (large : 0x100 ≤ poly.toNat) (s : Rabin) (loaded : RabinLoaded poly s) (p : BitVec 64)
    (small : p.toNat < 2 ^ (fls64 poly - 1)) (m : BitVec 8) :
    ∃ r, s.append8 p m = some r ∧ bits r = (bits p * X ^ 8 + bits m) % bits poly := by
  obtain ⟨degree, eight, places⟩ := degree_poly_bits poly large
  generalize size : fls64 poly - 1 = x at *
  have index : (p >>> (x - 8)).toNat < 256 := by
    rw [BitVec.toNat_ushiftRight]
    exact shiftRight_lt p.toNat (x - 8) 8 (by rwa [show x - 8 + 8 = x by omega])
  obtain ⟨t, read, value⟩ := bits_tableT poly large _ index
  rw [size, BitVec.ofNat_toNat, BitVec.setWidth_eq] at value
  refine ⟨((p <<< 8) ||| m.setWidth 64) ^^^ t, ?_, ?_⟩
  · simp only [Rabin.append8, loaded.T, loaded.shift, size, read]
    rfl
  have byte : (m.setWidth 64).toNat < 2 ^ 8 := by
    rw [BitVec.toNat_setWidth, Nat.mod_eq_of_lt (lt_of_lt_of_le m.isLt (by decide))]
    exact m.isLt
  obtain ⟨fits, lower⟩ := lower_moved p x eight
  have result : bits (((p <<< 8) ||| m.setWidth 64) ^^^ t) =
      Gf2Poly.poly ((p.toNat % 2 ^ (x - 8)) <<< 8) + bits m + bits (p >>> (x - 8)) * X ^ x % bits poly := by
    rw [bits_xor, BitVec.or_comm, bits_or _ _ _ byte, bits_setWidth m 64 (by decide), value, ← lower,
      ← shifts_cancel p x eight places]
    ring
  rw [result]
  symm
  apply mod_unique
  · have high : (bits (p >>> (x - 8)) * X ^ x % bits poly).degree < (bits poly).degree :=
      degree_mod_lt _ _ (fun zero => by simp [zero] at degree)
    have low : (Gf2Poly.poly ((p.toNat % 2 ^ (x - 8)) <<< 8)).degree < (bits poly).degree := by
      rw [degree]
      exact degree_poly_lt _ _ fits
    have middle : (bits m).degree < (bits poly).degree := by
      rw [degree]
      exact lt_of_lt_of_le (degree_bits_lt m) (by exact_mod_cast eight)
    exact lt_of_le_of_lt (degree_add_le _ _) (max_lt (lt_of_le_of_lt (degree_add_le _ _) (max_lt low middle)) high)
  · rw [← lower]
    have rest := dvd_add_mod (bits (p >>> (x - 8)) * X ^ x) (bits poly)
    have cancel : ∀ a b c d : (ZMod 2)[X], a + b + (a + c + b + d) = c + d := by
      intro a b c d
      rw [show a + b + (a + c + b + d) = (a + a) + (b + b) + (c + d) by ring, add_self, add_self, zero_add, zero_add]
    rwa [cancel]

theorem appendZeros_remainder (poly : BitVec 64) (large : 0x100 ≤ poly.toNat) (s : Rabin) (loaded : RabinLoaded poly s) (n : ℕ)
    (p : BitVec 64) (q : (ZMod 2)[X]) (value : bits p = q % bits poly) :
    ∃ r, s.appendZeros n p = some r ∧ bits r = (q * X ^ (8 * n)) % bits poly := by
  induction n generalizing p q with
  | zero => exact ⟨p, rfl, by simpa using value⟩
  | succ n ih =>
      obtain ⟨next, appended, nextValue⟩ := append8_remainder poly large s loaded p (toNat_lt_of_mod poly p q large value) 0
      rw [bits_zero, add_zero, value, mul_mod_left] at nextValue
      obtain ⟨r, rest, result⟩ := ih next (q * X ^ 8) nextValue
      refine ⟨r, by rw [Rabin.appendZeros, appended]; exact rest, ?_⟩
      rw [result, mul_assoc, ← pow_add, show 8 + 8 * n = 8 * (n + 1) by omega]

structure Refines (poly : BitVec 64) (size : ℕ) (s : Rabin) (w : RabinWindow) : Prop where
  loaded : RabinLoaded poly s
  U : ∃ sizeshift, s.U = tableU poly sizeshift ∧ bits sizeshift = X ^ (8 * (size - 1)) % bits poly
  ring : s.buf.length = size
  position : -1 ≤ s.bufpos ∧ s.bufpos < size
  bytes : w.bytes = s.buf.rotate (s.bufpos + 1).toNat
  fingerprint : bits s.fingerprint = w.fingerprint (bits poly)

theorem init_refines (poly : BitVec 64) (large : 0x100 ≤ poly.toNat) (size : ℕ) (s : Rabin) (w : RabinWindow)
    (position : -1 ≤ s.bufpos ∧ s.bufpos < size) (fingerprint : bits s.fingerprint = w.fingerprint (bits poly)) :
    ∃ t, rabinInit poly size s = some t ∧ Refines poly size t (w.call (bits poly) size .init) := by
  have loaded : RabinLoaded poly { s with shift := fls64 poly - 1 - 8, T := tableT poly } := ⟨rfl, rfl⟩
  have one : bits (1 : BitVec 64) = 1 % bits poly := by
    rw [show bits (1 : BitVec 64) = 1 from poly_one]
    refine ((mod_eq_self_iff (bits_poly_ne_zero poly large)).mpr ?_).symm
    rw [degree_one, (degree_poly_bits poly large).1]
    have eight := (degree_poly_bits poly large).2.1
    exact_mod_cast (by omega : 0 < fls64 poly - 1)
  obtain ⟨sizeshift, shifted, value⟩ := appendZeros_remainder poly large _ loaded (size - 1) 1 1 one
  rw [one_mul] at value
  refine ⟨{ s with shift := fls64 poly - 1 - 8, T := tableT poly, U := tableU poly sizeshift, buf := List.replicate size 0 },
    ?_, ⟨rfl, rfl⟩, ⟨sizeshift, rfl, value⟩, List.length_replicate, position, (List.rotate_replicate _ _ _).symm, ?_⟩
  · simp only [rabinInit, shifted]
    rfl
  · rw [RabinWindow.call, RabinWindow.fingerprint, message_zeros, add_zero]
    exact fingerprint.trans (by rw [RabinWindow.fingerprint, mod_mod])

theorem reset_refines (poly : BitVec 64) (size : ℕ) (s : Rabin) (w : RabinWindow) (refines : Refines poly size s w) :
    Refines poly size (rabinReset size s) (w.call (bits poly) size .reset) where
  loaded := ⟨refines.loaded.shift, refines.loaded.T⟩
  U := refines.U
  ring := List.length_replicate
  position := refines.position
  bytes := (List.rotate_replicate _ _ _).symm
  fingerprint := by
    rw [RabinWindow.call, RabinWindow.fingerprint, message_zeros, add_zero, EuclideanDomain.zero_mod]
    exact bits_zero 64

theorem oldest_removed (d stale : (ZMod 2)[X]) (m : BitVec 8) (rest : List (BitVec 8)) (f u : (ZMod 2)[X])
    (whole : f = (stale + message (m :: rest)) % d) (entry : u = bits m * (X ^ (8 * rest.length) % d) % d) :
    f + u = (stale + message rest) % d := by
  have place : u = bits m * X ^ (8 * rest.length) % d := by rw [entry, mul_comm, mul_mod_left, mul_comm]
  rw [whole, place, ← add_mod, message_cons]
  congr 1
  rw [add_left_comm, add_right_comm, add_self, zero_add]

theorem position_next (size : ℕ) (bufpos : ℤ) (low : -1 ≤ bufpos) (high : bufpos < size) (nonempty : 0 < size) (ring : List (BitVec 8))
    (length : ring.length = size) :
    ∃ r < size, (if bufpos + 1 ≥ size then 0 else bufpos + 1) = (r : ℤ) ∧ ring.rotate (bufpos + 1).toNat = ring.rotate r := by
  by_cases wraps : bufpos + 1 ≥ size
  · refine ⟨0, nonempty, by simp [wraps], ?_⟩
    rw [show (bufpos + 1).toNat = ring.length by omega, List.rotate_length, List.rotate_zero]
  · exact ⟨(bufpos + 1).toNat, by omega, by rw [if_neg wraps]; omega, rfl⟩

theorem slide8_refines (poly : BitVec 64) (large : 0x100 ≤ poly.toNat) (size : ℕ) (nonempty : 0 < size) (s : Rabin) (w : RabinWindow)
    (refines : Refines poly size s w) (m : BitVec 8) :
    ∃ t, rabinSlide8 size s m = some t ∧ Refines poly size t (w.call (bits poly) size (.slide8 m)) := by
  obtain ⟨r, inside, place, same⟩ := position_next size s.bufpos refines.position.1 refines.position.2 nonempty s.buf refines.ring
  have inRing : r < s.buf.length := by rw [refines.ring]; exact inside
  obtain ⟨sizeshift, U, shifted⟩ := refines.U
  have nonzero : poly ≠ 0 := fun zero => by simp [zero] at large
  have oldest : w.bytes = s.buf[r] :: w.bytes.tail := by
    rw [refines.bytes, same]
    exact rotate_head s.buf r inRing
  have long : w.bytes.tail.length = size - 1 := by
    rw [List.length_tail, refines.bytes, List.length_rotate, refines.ring]
  have slot : s.U[(s.buf[r]).toNat]? = some (polymmult (BitVec.ofNat 64 (s.buf[r]).toNat) sizeshift poly) := by
    rw [U]
    simp [tableU, (s.buf[r]).isLt]
  -- The value of the oldest byte in the fingerprint is the entry of U.
  have slid : bits (s.fingerprint ^^^ polymmult (BitVec.ofNat 64 (s.buf[r]).toNat) sizeshift poly) =
      (w.stale + message w.bytes.tail) % bits poly := by
    have byte : bits (BitVec.ofNat 64 (s.buf[r]).toNat) = bits s.buf[r] := by
      rw [BitVec.ofNat_toNat, bits_setWidth _ 64 (by decide)]
    rw [bits_xor]
    apply oldest_removed (bits poly) w.stale s.buf[r]
    · rw [← oldest]
      exact refines.fingerprint
    · rw [bits_polymmult _ _ _ nonzero, byte, shifted, long]
  obtain ⟨f, appended, value⟩ := append8_remainder poly large s refines.loaded _ (toNat_lt_of_mod poly _ _ large slid) m
  refine ⟨{ s with bufpos := r, buf := s.buf.set r m, fingerprint := f }, ?_, ⟨refines.loaded.shift, refines.loaded.T⟩,
    ⟨sizeshift, U, shifted⟩, ?_, ⟨by change (-1 : ℤ) ≤ r; omega, by change (r : ℤ) < size; omega⟩, ?_, ?_⟩
  · simp only [rabinSlide8, place, Int.toNat_natCast, List.getElem?_eq_getElem inRing]
    simp only [Option.bind_eq_bind, Option.bind_some, slot, appended]
    rfl
  · rw [List.length_set, refines.ring]
  · rw [RabinWindow.call, refines.bytes, same, show ((r : ℤ) + 1).toNat = r + 1 by omega]
    exact (rotate_set s.buf m r inRing).symm
  · rw [value, slid, RabinWindow.call, RabinWindow.fingerprint, message_append, add_mod, mul_mod_left, ← add_mod]
    congr 1
    ring

theorem call_refines (poly : BitVec 64) (large : 0x100 ≤ poly.toNat) (size : ℕ) (nonempty : 0 < size) (s : Rabin) (w : RabinWindow)
    (refines : Refines poly size s w) (c : RabinCall) :
    ∃ t, s.call poly size c = some t ∧ Refines poly size t (w.call (bits poly) size c) := by
  cases c with
  | init => exact init_refines poly large size s w refines.position refines.fingerprint
  | reset => exact ⟨_, rfl, reset_refines poly size s w refines⟩
  | slide8 m => exact slide8_refines poly large size nonempty s w refines m

theorem run_refines (poly : BitVec 64) (large : 0x100 ≤ poly.toNat) (size : ℕ) (nonempty : 0 < size) (s : Rabin) (w : RabinWindow)
    (refines : Refines poly size s w) (calls : List RabinCall) :
    ∃ t, s.run poly size calls = some t ∧ Refines poly size t (w.run (bits poly) size calls) := by
  induction calls generalizing s w with
  | nil => exact ⟨s, rfl, refines⟩
  | cons c calls ih =>
      obtain ⟨next, called, nextRefines⟩ := call_refines poly large size nonempty s w refines c
      obtain ⟨t, rest, result⟩ := ih next _ nextRefines
      refine ⟨t, ?_, result⟩
      rw [Rabin.run, List.foldlM_cons, called]
      exact rest

theorem started_refines (poly : BitVec 64) (large : 0x100 ≤ poly.toNat) (size : ℕ) (nonempty : 0 < size) (calls : List RabinCall) :
    ∃ t, (Rabin.statics size).run poly size (.init :: calls) = some t ∧
      Refines poly size t (RabinWindow.run (bits poly) size ⟨0, List.replicate size 0⟩ calls) := by
  have fresh : bits (Rabin.statics size).fingerprint = RabinWindow.fingerprint (bits poly) ⟨0, List.replicate size 0⟩ := by
    rw [RabinWindow.fingerprint, message_zeros, add_zero, EuclideanDomain.zero_mod]
    exact bits_zero 64
  have cleared : RabinWindow.fingerprint (bits poly) ⟨0, List.replicate size 0⟩ = 0 := fresh.symm.trans (bits_zero 64)
  have place : -1 ≤ (Rabin.statics size).bufpos ∧ (Rabin.statics size).bufpos < size := by
    change (-1 : ℤ) ≤ -1 ∧ (-1 : ℤ) < size
    omega
  obtain ⟨loaded, called, refines⟩ := init_refines poly large size _ _ place fresh
  rw [RabinWindow.call, cleared] at refines
  obtain ⟨t, rest, result⟩ := run_refines poly large size nonempty loaded _ refines calls
  refine ⟨t, ?_, result⟩
  rw [Rabin.run, List.foldlM_cons, show (Rabin.statics size).call poly size .init = some loaded from called]
  exact rest

theorem slides_bytes (p : (ZMod 2)[X]) (size : ℕ) (nonempty : 0 < size) (w : RabinWindow) (full : w.bytes.length = size)
    (bytes : List (BitVec 8)) :
    w.run p size (bytes.map .slide8) = ⟨w.stale * X ^ (8 * bytes.length), (w.bytes ++ bytes).drop bytes.length⟩ := by
  induction bytes generalizing w with
  | nil => simp [RabinWindow.run]
  | cons m bytes ih =>
      obtain ⟨oldest, rest, held⟩ : ∃ oldest rest, w.bytes = oldest :: rest :=
        List.exists_cons_of_ne_nil (fun nil => by simp [nil] at full; omega)
      have step := ih (w.call p size (.slide8 m)) (by
        rw [RabinWindow.call]
        simp only [held, List.length_cons] at full ⊢
        simpa using full)
      rw [RabinWindow.run, List.map_cons, List.foldl_cons]
      refine step.trans ?_
      simp only [RabinWindow.call, held, List.tail_cons, List.length_cons, List.append_assoc, List.cons_append,
        List.nil_append, List.drop_succ_cons, mul_assoc, ← pow_add]
      rw [show 8 + 8 * bytes.length = 8 * (bytes.length + 1) by omega]

theorem run_append (poly : BitVec 64) (size : ℕ) (s : Rabin) (before behind : List RabinCall) :
    s.run poly size (before ++ behind) = (s.run poly size before).bind (fun t => t.run poly size behind) :=
  List.foldlM_append

theorem reset_window (poly : BitVec 64) (large : 0x100 ≤ poly.toNat) (size : ℕ) (nonempty : 0 < size) (calls : List RabinCall)
    (bytes : List (BitVec 8)) :
    ∃ t, (Rabin.statics size).run poly size (.init :: (calls ++ .reset :: bytes.map .slide8)) = some t ∧
      bits t.fingerprint = message (lastBytes size bytes) % bits poly := by
  obtain ⟨t, ran, refines⟩ := started_refines poly large size nonempty (calls ++ .reset :: bytes.map .slide8)
  refine ⟨t, ran, ?_⟩
  rw [refines.fingerprint, RabinWindow.run, List.foldl_append, List.foldl_cons]
  have slid := slides_bytes (bits poly) size nonempty ⟨0, List.replicate size 0⟩ List.length_replicate bytes
  rw [RabinWindow.run] at slid
  rw [RabinWindow.call, slid, RabinWindow.fingerprint, zero_mul, zero_add, lastBytes]

theorem rabin_window (poly : BitVec 64) (large : 0x100 ≤ poly.toNat) (size : ℕ) (nonempty : 0 < size)
    (firstCalls secondCalls : List RabinCall) (first second : List (BitVec 8)) :
    ∃ s t, (Rabin.statics size).run poly size (.init :: (firstCalls ++ .reset :: first.map .slide8)) = some s ∧
      (Rabin.statics size).run poly size (.init :: (secondCalls ++ .reset :: second.map .slide8)) = some t ∧
      bits s.fingerprint = message (lastBytes size first) % bits poly ∧
      (s.fingerprint = t.fingerprint ↔ bits poly ∣ message (lastBytes size first) + message (lastBytes size second)) := by
  obtain ⟨s, firstRan, firstValue⟩ := reset_window poly large size nonempty firstCalls first
  obtain ⟨t, secondRan, secondValue⟩ := reset_window poly large size nonempty secondCalls second
  refine ⟨s, t, firstRan, secondRan, firstValue, ?_⟩
  rw [← mod_eq_mod_iff, ← firstValue, ← secondValue]
  exact ⟨congrArg bits, bits_injective _ _⟩

theorem rabin_window_two_bytes : ∃ s t,
    (Rabin.statics rabinWindowSize).run rabinPoly rabinWindowSize (.init :: ([.slide8 9] ++ .reset :: [1, 2].map .slide8)) = some s ∧
      (Rabin.statics rabinWindowSize).run rabinPoly rabinWindowSize (.init :: ([] ++ .reset :: [1, 3].map .slide8)) = some t ∧
      bits s.fingerprint = message (lastBytes rabinWindowSize [1, 2]) % bits rabinPoly ∧
      (s.fingerprint = t.fingerprint ↔
        bits rabinPoly ∣ message (lastBytes rabinWindowSize [1, 2]) + message (lastBytes rabinWindowSize [1, 3])) :=
  rabin_window rabinPoly (by decide) rabinWindowSize (by decide) [.slide8 9] [] [1, 2] [1, 3]

end SsAdma
