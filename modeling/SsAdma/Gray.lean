import Mathlib.Data.BitVec

set_option autoImplicit false

namespace Gray

def gray {w : Nat} (a : BitVec w) : BitVec w := a ^^^ (a >>> 1)

theorem gray_xor {w : Nat} (a b : BitVec w) : gray a ^^^ gray b = gray (a ^^^ b) := by
  apply BitVec.eq_of_getLsbD_eq
  intro i _
  simp only [gray, BitVec.getLsbD_xor, BitVec.getLsbD_ushiftRight]
  cases a.getLsbD i <;> cases b.getLsbD i <;> cases a.getLsbD (1 + i) <;> cases b.getLsbD (1 + i) <;> rfl

theorem gray_zero_only {w : Nat} (a : BitVec w) (zero : gray a = 0) : a = 0 := by
  have same : a = a >>> 1 := BitVec.xor_eq_zero_iff.mp zero
  have halved : a.toNat = a.toNat / 2 := by
    simpa [Nat.shiftRight_eq_div_pow] using congrArg BitVec.toNat same
  apply BitVec.eq_of_toNat_eq
  have zeroNat : a.toNat = 0 := by omega
  simp [zeroNat]

theorem gray_injective {w : Nat} (a b : BitVec w) (same : gray a = gray b) : a = b := by
  have zero : gray (a ^^^ b) = 0 := by
    rw [← gray_xor, same]
    exact BitVec.xor_self
  exact BitVec.xor_eq_zero_iff.mp (gray_zero_only _ zero)

theorem gray_count_eq {w : Nat} (j k : Nat) :
    gray (BitVec.ofNat w j) = gray (BitVec.ofNat w k) ↔ j % 2 ^ w = k % 2 ^ w := by
  constructor
  · intro same
    simpa using congrArg BitVec.toNat (gray_injective _ _ same)
  · intro same
    have equal : BitVec.ofNat w j = BitVec.ofNat w k := BitVec.eq_of_toNat_eq (by simpa using same)
    rw [equal]

end Gray
