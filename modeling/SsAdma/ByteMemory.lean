import Mathlib.Data.BitVec

set_option autoImplicit false

namespace ByteMemory

def storeAt (buf : ℕ → BitVec 8) (off : ℕ) (bytes : List (BitVec 8)) (k : ℕ) : BitVec 8 :=
  if off ≤ k then (bytes[k - off]?).getD (buf k) else buf k

theorem storeAt_inside (buf : ℕ → BitVec 8) (off : ℕ) (bytes : List (BitVec 8)) (k : ℕ) (inside : k < bytes.length) :
    storeAt buf off bytes (off + k) = bytes[k] := by
  rw [storeAt, if_pos (Nat.le_add_right off k), Nat.add_sub_cancel_left, List.getElem?_eq_getElem inside, Option.getD_some]

theorem storeAt_before (buf : ℕ → BitVec 8) (off : ℕ) (bytes : List (BitVec 8)) (k : ℕ) (before : k < off) :
    storeAt buf off bytes k = buf k := by
  rw [storeAt, if_neg (by omega)]

theorem storeAt_behind (buf : ℕ → BitVec 8) (off : ℕ) (bytes : List (BitVec 8)) (k : ℕ)
    (behind : off + bytes.length ≤ k) : storeAt buf off bytes k = buf k := by
  rw [storeAt, List.getElem?_eq_none (by omega), Option.getD_none, ite_self]

theorem storeAt_nil (buf : ℕ → BitVec 8) (off : ℕ) : storeAt buf off [] = buf := by
  funext k
  rw [storeAt, List.getElem?_nil, Option.getD_none, ite_self]

theorem storeAt_append (buf : ℕ → BitVec 8) (off : ℕ) (first second : List (BitVec 8)) :
    storeAt (storeAt buf off first) (off + first.length) second = storeAt buf off (first ++ second) := by
  funext k
  rcases Nat.lt_or_ge k off with before | behind
  · rw [storeAt_before _ _ _ k (by omega), storeAt_before _ _ _ k before, storeAt_before _ _ _ k before]
  · rcases Nat.lt_or_ge k (off + first.length) with inside | after
    · rw [storeAt_before _ _ _ k inside, storeAt, storeAt, if_pos behind, if_pos behind,
        List.getElem?_append_left (by omega)]
    · rw [storeAt, if_pos after, storeAt_behind _ _ _ k after, storeAt, if_pos behind,
        List.getElem?_append_right (by omega), Nat.sub_add_eq]

theorem store_bytes {A : Type} (byte : A → BitVec 8) (list : List A) (buf : ℕ → BitVec 8) (off : ℕ) :
    list.foldl (fun o a => (storeAt o.1 o.2 [byte a], o.2 + 1)) (buf, off) =
      (storeAt buf off (list.map byte), off + list.length) := by
  induction list generalizing buf off with
  | nil => rw [List.foldl_nil, List.map_nil, storeAt_nil, List.length_nil, Nat.add_zero]
  | cons a rest ih =>
      have joined := storeAt_append buf off [byte a] (rest.map byte)
      rw [List.length_singleton, List.singleton_append] at joined
      rw [List.foldl_cons, ih, joined, List.map_cons, List.length_cons, Nat.add_assoc, Nat.add_comm 1]

theorem storeAt_range (buf : ℕ → BitVec 8) (bytes : List (BitVec 8)) :
    (List.range bytes.length).map (storeAt buf 0 bytes) = bytes := by
  refine List.ext_getElem (by simp) fun k within inside => ?_
  have held := storeAt_inside buf 0 bytes k inside
  rw [Nat.zero_add] at held
  rw [List.getElem_map, List.getElem_range, held]

theorem and_bit_zero (b : BitVec 8) (bit : ℕ) (inside : bit < 8) : b &&& (1#8 <<< bit) = 0 ↔ b.getLsbD bit = false := by
  rw [← BitVec.twoPow_eq, BitVec.and_twoPow]
  cases up : b.getLsbD bit with
  | false => simp
  | true =>
      have positive : (BitVec.twoPow 8 bit).getLsbD bit = true := by
        rw [BitVec.getLsbD_twoPow]
        simp [inside]
      simp only [if_true, Bool.true_eq_false, iff_false]
      intro zero
      rw [zero] at positive
      simp at positive

end ByteMemory
