import Mathlib.Tactic.IntervalCases
import SsAdma.ByteMemory
import SsAdma.Loop

set_option autoImplicit false

namespace SsAdma

open ByteMemory

inductive VcdLine where
  | time (cnt : ℕ)
  | change (bits : List Bool) (sym : ℕ)

def num_to_str (num : BitVec 64) (bit sym : ℕ) : VcdLine :=
  .change (if bit > 1 then (List.range bit).reverse.map num.getLsbD else [decide (num ≠ 0)]) sym

-- int, and a sign on its way to uint64_t.
def get4bytes (x : ℕ → BitVec 8) (y : ℕ) : BitVec 64 :=
  ((x y).setWidth 32 <<< 24 + (x (y - 1)).setWidth 32 <<< 16 + (x (y - 2)).setWidth 32 <<< 8 +
    (x (y - 3)).setWidth 32).signExtend 64

def flagSignals (b : BitVec 8) (bits : List ℕ) : List (BitVec 64 × ℕ) :=
  bits.map fun bit => ((b &&& (1#8 <<< bit)).setWidth 64, 1)

-- The calls of num_to_str for one record, in their order: the PCI bus, its 64-bit
-- half, the states, the Wishbone lines and CNT.
def recordSignals (buf : ℕ → BitVec 8) : List (BitVec 64 × ℕ) :=
  [(get4bytes buf 11, 32), (((buf 7 &&& 0xf0) >>> 4).setWidth 64, 4)] ++ flagSignals (buf 7) [3, 2, 1, 0] ++
    flagSignals (buf 6) [7, 6, 5, 4, 3, 2, 1, 0] ++
    [(get4bytes buf 5, 32), (((buf 1 &&& 0xf0) >>> 4).setWidth 64, 4)] ++ flagSignals (buf 1) [3, 2, 1, 0] ++
    [((buf 0 >>> 4 &&& 0xf).setWidth 64, 4), ((buf 0 >>> 1 &&& 0x7).setWidth 64, 3)] ++
    flagSignals (buf 12) [7, 6, 5, 4, 3, 2, 1, 0] ++
    [(((buf 14).setWidth 32 <<< 8 + (buf 13).setWidth 32).setWidth 64, 16)]

def changes (sym : ℕ) (signals : List (BitVec 64 × ℕ)) : List VcdLine :=
  (signals.zipIdx sym).map fun p => num_to_str p.1.1 p.1.2 p.2

def recordChanges (buf : ℕ → BitVec 8) : List VcdLine := changes 0x61 (recordSignals buf)

def recordLines (cnt : ℕ) (buf : ℕ → BitVec 8) : List VcdLine := .time cnt :: recordChanges buf

-- buf is an offset into the memory that holds the buffer, fp what has been
-- printed to the dump and reads the offsets read.
structure PciAcq where
  buf : ℕ
  len : ℤ
  cnt : ℕ
  fp : List VcdLine
  reads : List ℕ

variable (mem : ℕ → BitVec 8)

def PciAcq.synced (s : PciAcq) : Bool := mem (s.buf + 15) == 0xaa

def PciAcq.advance (s : PciAcq) : PciAcq :=
  { s with buf := s.buf + 1, len := s.len - 1, reads := s.reads ++ [s.buf + 1 + 15] }

def PciAcq.finished (s : PciAcq) : Bool := decide (s.len ≤ 16)

-- A record without its trailer goes to stderr, with the time in the dump.
def PciAcq.record (s : PciAcq) : PciAcq :=
  let s := { s with fp := s.fp ++ [.time s.cnt], reads := s.reads ++ List.range' s.buf 16 }
  if mem (s.buf + 15) ≠ 0xaa then s
  else
    { s with
      fp := s.fp ++ recordChanges fun y => mem (s.buf + y)
      cnt := s.cnt + 1
      len := s.len - 16
      buf := s.buf + 16 }

def pciacqSync (fuel : ℕ) (len : ℤ) : Option PciAcq :=
  Loop.run (PciAcq.synced mem) PciAcq.advance fuel (PciAcq.advance ⟨0, len, 0, [], []⟩)

def pciacq_insert (fuel : ℕ) (len : ℤ) : Option PciAcq :=
  (pciacqSync mem fuel len).bind (Loop.run PciAcq.finished (PciAcq.record mem) fuel)

structure Alike (a b : ℕ → BitVec 8) : Prop where
  state : a 0 >>> 1 = b 0 >>> 1
  rest : ∀ y, 1 ≤ y → y < 15 → a y = b y

theorem changes_append (sym : ℕ) (first second : List (BitVec 64 × ℕ)) :
    changes sym (first ++ second) = changes sym first ++ changes (sym + first.length) second := by
  rw [changes, List.zipIdx_append, List.map_append, changes, changes]

theorem changes_length (sym : ℕ) (signals : List (BitVec 64 × ℕ)) : (changes sym signals).length = signals.length := by
  rw [changes, List.length_map, List.length_zipIdx]

theorem flagSignals_length (b : BitVec 8) (bits : List ℕ) : (flagSignals b bits).length = bits.length :=
  List.length_map _

theorem changes_append_same (sym : ℕ) (first second first' second' : List (BitVec 64 × ℕ))
    (length : first.length = first'.length) :
    changes sym (first ++ second) = changes sym (first' ++ second') ↔
      changes sym first = changes sym first' ∧ changes (sym + first.length) second = changes (sym + first.length) second' := by
  have same : (changes sym first).length = (changes sym first').length := by rw [changes_length, changes_length, length]
  rw [changes_append, changes_append, ← length]
  exact ⟨fun all => List.append_inj all same, fun ⟨front, back⟩ => by rw [front, back]⟩

theorem changes_bits (sym bit : ℕ) (num other : BitVec 64) (several : bit > 1) :
    changes sym [(num, bit)] = changes sym [(other, bit)] ↔ ∀ i < bit, num.getLsbD i = other.getLsbD i := by
  simp [changes, num_to_str, several]

theorem flag_zero (b : BitVec 8) (bit : ℕ) (inside : bit < 8) :
    (b &&& (1#8 <<< bit)).setWidth 64 = 0 ↔ b.getLsbD bit = false := by
  rw [← and_bit_zero b bit inside]
  generalize b &&& (1#8 <<< bit) = masked
  have small := masked.isLt
  rw [BitVec.toNat_eq, BitVec.toNat_eq (y := 0), BitVec.toNat_setWidth, Nat.mod_eq_of_lt (by omega)]
  exact Iff.rfl

theorem changes_flags (sym : ℕ) (a b : BitVec 8) (bits : List ℕ) (inside : ∀ bit ∈ bits, bit < 8) :
    changes sym (flagSignals a bits) = changes sym (flagSignals b bits) ↔ ∀ bit ∈ bits, a.getLsbD bit = b.getLsbD bit := by
  induction bits generalizing sym with
  | nil => simp [flagSignals]
  | cons bit rest ih =>
      have split (c : BitVec 8) : flagSignals c (bit :: rest) = flagSignals c [bit] ++ flagSignals c rest := rfl
      have one : changes sym (flagSignals a [bit]) = changes sym (flagSignals b [bit]) ↔ a.getLsbD bit = b.getLsbD bit := by
        have zero (c : BitVec 8) := flag_zero c bit (inside bit (by simp))
        simp only [changes, flagSignals, num_to_str, List.map_cons, List.map_nil, List.zipIdx_singleton, List.cons.injEq,
          VcdLine.change.injEq, gt_iff_lt, Nat.lt_irrefl, if_false, and_true, decide_eq_decide, ne_eq, not_iff_not, zero]
        cases a.getLsbD bit <;> cases b.getLsbD bit <;> decide
      rw [split, split, changes_append_same sym (flagSignals a [bit]) _ (flagSignals b [bit]) _ rfl, one,
        ih _ fun k member => inside k (by simp [member]), List.forall_mem_cons]

theorem get4bytes_bits (a : ℕ → BitVec 8) (y i : ℕ) (inside : i < 32) :
    (get4bytes a y).getLsbD i = (a y ++ a (y - 1) ++ a (y - 2) ++ a (y - 3)).getLsbD i := by
  have joined : (a y).setWidth 32 <<< 24 + (a (y - 1)).setWidth 32 <<< 16 + (a (y - 2)).setWidth 32 <<< 8 +
      (a (y - 3)).setWidth 32 = a y ++ a (y - 1) ++ a (y - 2) ++ a (y - 3) := by
    have b1 := (a (y - 1)).isLt
    have b2 := (a (y - 2)).isLt
    have b3 := (a (y - 3)).isLt
    apply BitVec.eq_of_toNat_eq
    rw [BitVec.toNat_append, BitVec.toNat_append, BitVec.toNat_append, ← Nat.shiftLeft_add_eq_or_of_lt b3,
      ← Nat.shiftLeft_add_eq_or_of_lt b2, ← Nat.shiftLeft_add_eq_or_of_lt b1]
    simp only [BitVec.toNat_add, BitVec.toNat_shiftLeft, BitVec.toNat_setWidth, Nat.shiftLeft_eq]
    omega
  rw [get4bytes, joined, BitVec.getLsbD_signExtend]
  simp [inside]
  omega

theorem append_byte_same {w : ℕ} (front front' : BitVec w) (byte byte' : BitVec 8) :
    front ++ byte = front' ++ byte' ↔ front = front' ∧ byte = byte' := by
  refine ⟨fun same => ?_, fun ⟨first, last⟩ => by rw [first, last]⟩
  have bound := byte.isLt
  have bound' := byte'.isLt
  have numbers := congrArg BitVec.toNat same
  rw [BitVec.toNat_append, BitVec.toNat_append, ← Nat.shiftLeft_add_eq_or_of_lt bound,
    ← Nat.shiftLeft_add_eq_or_of_lt bound', Nat.shiftLeft_eq, Nat.shiftLeft_eq] at numbers
  exact ⟨BitVec.eq_of_toNat_eq (by omega), BitVec.eq_of_toNat_eq (by omega)⟩

theorem changes_get4bytes (sym : ℕ) (a b : ℕ → BitVec 8) (y : ℕ) :
    changes sym [(get4bytes a y, 32)] = changes sym [(get4bytes b y, 32)] ↔
      a y = b y ∧ a (y - 1) = b (y - 1) ∧ a (y - 2) = b (y - 2) ∧ a (y - 3) = b (y - 3) := by
  have whole : (∀ i < 32, (get4bytes a y).getLsbD i = (get4bytes b y).getLsbD i) ↔
      a y ++ a (y - 1) ++ a (y - 2) ++ a (y - 3) = b y ++ b (y - 1) ++ b (y - 2) ++ b (y - 3) := by
    constructor
    · intro bits
      apply BitVec.eq_of_getLsbD_eq
      intro i inside
      rw [← get4bytes_bits a y i inside, ← get4bytes_bits b y i inside]
      exact bits i inside
    · intro same i inside
      rw [get4bytes_bits a y i inside, get4bytes_bits b y i inside, same]
  rw [changes_bits sym 32 _ _ (by decide), whole, append_byte_same, append_byte_same, append_byte_same, and_assoc, and_assoc]

theorem two_bytes_bits (high low : BitVec 8) (i : ℕ) (inside : i < 16) :
    ((high.setWidth 32 <<< 8 + low.setWidth 32).setWidth 64).getLsbD i = (high ++ low).getLsbD i := by
  have joined : high.setWidth 32 <<< 8 + low.setWidth 32 = (high ++ low).setWidth 32 := by
    have bound := low.isLt
    apply BitVec.eq_of_toNat_eq
    rw [BitVec.toNat_setWidth, BitVec.toNat_append, ← Nat.shiftLeft_add_eq_or_of_lt bound]
    simp only [BitVec.toNat_add, BitVec.toNat_shiftLeft, BitVec.toNat_setWidth, Nat.shiftLeft_eq]
    omega
  rw [joined, BitVec.getLsbD_setWidth, BitVec.getLsbD_setWidth, decide_eq_true (by omega : i < 64),
    decide_eq_true (by omega : i < 32), Bool.true_and, Bool.true_and]

theorem changes_two_bytes (sym : ℕ) (high low high' low' : BitVec 8) :
    changes sym [((high.setWidth 32 <<< 8 + low.setWidth 32).setWidth 64, 16)] =
        changes sym [((high'.setWidth 32 <<< 8 + low'.setWidth 32).setWidth 64, 16)] ↔ high = high' ∧ low = low' := by
  rw [changes_bits sym 16 _ _ (by decide), ← append_byte_same]
  constructor
  · intro bits
    apply BitVec.eq_of_getLsbD_eq
    intro i inside
    rw [← two_bytes_bits high low i inside, ← two_bytes_bits high' low' i inside]
    exact bits i inside
  · intro same i inside
    rw [two_bytes_bits high low i inside, two_bytes_bits high' low' i inside, same]

theorem high_half_bit (c : BitVec 8) (i : ℕ) (inside : i < 4) :
    (((c &&& 0xf0) >>> 4).setWidth 64).getLsbD i = c.getLsbD (4 + i) := by
  have mask := (by decide : ∀ i < 4, (0xf0 : BitVec 8).getLsbD (4 + i) = true) i inside
  rw [BitVec.getLsbD_setWidth, BitVec.getLsbD_ushiftRight, BitVec.getLsbD_and, mask, Bool.and_true]
  simp only [Bool.and_eq_right_iff_imp, decide_eq_true_eq]
  omega

theorem changes_half (sym flag : ℕ) (a b : BitVec 8) :
    changes sym [(((a &&& 0xf0) >>> 4).setWidth 64, 4)] = changes sym [(((b &&& 0xf0) >>> 4).setWidth 64, 4)] ∧
        changes flag (flagSignals a [3, 2, 1, 0]) = changes flag (flagSignals b [3, 2, 1, 0]) ↔ a = b := by
  rw [changes_bits sym 4 _ _ (by decide), changes_flags flag a b _ (by decide)]
  refine ⟨fun ⟨high, low⟩ => BitVec.eq_of_getLsbD_eq fun i inside => ?_, fun same => by simp [same]⟩
  by_cases upper : 4 ≤ i
  · have bit := high (i - 4) (by omega)
    rwa [high_half_bit a _ (by omega), high_half_bit b _ (by omega), Nat.add_sub_cancel' upper] at bit
  · refine low i ?_
    simp only [List.mem_cons]
    omega

theorem changes_byte (sym : ℕ) (a b : BitVec 8) :
    changes sym (flagSignals a [7, 6, 5, 4, 3, 2, 1, 0]) = changes sym (flagSignals b [7, 6, 5, 4, 3, 2, 1, 0]) ↔ a = b := by
  rw [changes_flags sym a b _ (by decide)]
  refine ⟨fun bits => BitVec.eq_of_getLsbD_eq fun i inside => bits i ?_, fun same => by simp [same]⟩
  simp only [List.mem_cons]
  omega

theorem low_mask_bit (c mask : BitVec 8) (shift width i : ℕ) (up : ∀ i < width, mask.getLsbD i = true) (inside : i < width)
    (room : width ≤ 64) : ((c >>> shift &&& mask).setWidth 64).getLsbD i = c.getLsbD (shift + i) := by
  rw [BitVec.getLsbD_setWidth, BitVec.getLsbD_and, BitVec.getLsbD_ushiftRight, up i inside, Bool.and_true]
  simp only [Bool.and_eq_right_iff_imp, decide_eq_true_eq]
  omega

theorem changes_states (sym sym' : ℕ) (a b : BitVec 8) :
    changes sym [((a >>> 4 &&& 0xf).setWidth 64, 4)] = changes sym [((b >>> 4 &&& 0xf).setWidth 64, 4)] ∧
        changes sym' [((a >>> 1 &&& 0x7).setWidth 64, 3)] = changes sym' [((b >>> 1 &&& 0x7).setWidth 64, 3)] ↔
      a >>> 1 = b >>> 1 := by
  have upper (c : BitVec 8) (i : ℕ) (inside : i < 4) := low_mask_bit c 0xf 4 4 i (by decide) inside (by decide)
  have lower (c : BitVec 8) (i : ℕ) (inside : i < 3) := low_mask_bit c 0x7 1 3 i (by decide) inside (by decide)
  rw [changes_bits sym 4 _ _ (by decide), changes_bits sym' 3 _ _ (by decide)]
  constructor
  · rintro ⟨high, low⟩
    apply BitVec.eq_of_getLsbD_eq
    intro i inside
    rw [BitVec.getLsbD_ushiftRight, BitVec.getLsbD_ushiftRight]
    by_cases low' : i < 3
    · have bit := low i low'
      rwa [lower a i low', lower b i low'] at bit
    by_cases high' : i < 7
    · have bit := high (i - 3) (by omega)
      have place : 4 + (i - 3) = 1 + i := by omega
      rwa [upper a _ (by omega), upper b _ (by omega), place] at bit
    · rw [BitVec.getLsbD_of_ge a (1 + i) (by omega), BitVec.getLsbD_of_ge b (1 + i) (by omega)]
  · intro same
    have bits (i : ℕ) : a.getLsbD (1 + i) = b.getLsbD (1 + i) := by
      rw [← BitVec.getLsbD_ushiftRight, ← BitVec.getLsbD_ushiftRight, same]
    refine ⟨fun i inside => ?_, fun i inside => ?_⟩
    · have place : 4 + i = 1 + (3 + i) := by omega
      rw [upper a i inside, upper b i inside, place]
      exact bits (3 + i)
    · rw [lower a i inside, lower b i inside]
      exact bits i

theorem recordChanges_same (a b : ℕ → BitVec 8) : recordChanges a = recordChanges b ↔ Alike a b := by
  have pair (p q : BitVec 64 × ℕ) : [p, q] = [p] ++ [q] := rfl
  simp (disch := simp [flagSignals_length]) only [recordChanges, recordSignals, pair, changes_append_same, changes_get4bytes,
    changes_two_bytes, changes_byte]
  constructor
  · rintro ⟨⟨⟨⟨⟨⟨⟨⟨⟨b11, b10, b9, b8⟩, half7⟩, flags7⟩, b6⟩, ⟨b5, b4, b3, b2⟩, half1⟩, flags1⟩, states⟩, b12⟩, b14, b13⟩
    have b7 := (changes_half _ _ (a 7) (b 7)).mp ⟨half7, flags7⟩
    have b1 := (changes_half _ _ (a 1) (b 1)).mp ⟨half1, flags1⟩
    refine ⟨(changes_states _ _ (a 0) (b 0)).mp states, fun y low high => ?_⟩
    interval_cases y <;> assumption
  · rintro ⟨state, rest⟩
    have half7 (sym flag : ℕ) := (changes_half sym flag (a 7) (b 7)).mpr (rest 7 (by decide) (by decide))
    have half1 (sym flag : ℕ) := (changes_half sym flag (a 1) (b 1)).mpr (rest 1 (by decide) (by decide))
    refine ⟨⟨⟨⟨⟨⟨⟨⟨⟨?_, ?_, ?_, ?_⟩, (half7 _ 0).1⟩, (half7 0 _).2⟩, ?_⟩, ⟨?_, ?_, ?_, ?_⟩, (half1 _ 0).1⟩, (half1 0 _).2⟩,
      (changes_states _ _ (a 0) (b 0)).mpr state⟩, ?_⟩, ?_, ?_⟩
    all_goals exact rest _ (by decide) (by decide)

end SsAdma
