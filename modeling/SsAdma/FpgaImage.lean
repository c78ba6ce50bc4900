import SsAdma.BitRead
import SsAdma.Ep3
import SsAdma.SpiHost

set_option autoImplicit false

namespace SsAdma

open ByteMemory

def expandByte (src : ℕ → BitVec 8) (o : (ℕ → BitVec 8) × ℕ) (k : ℕ) : (ℕ → BitVec 8) × ℕ :=
  bitsDown.foldl (fun o i => (storeAt o.1 o.2 [if src k &&& (1#8 <<< i) ≠ 0 then 1 else 0], o.2 + 1)) o

def bufcopy (dst src : ℕ → BitVec 8) (size : BitVec 32) (serial : ℤ) : (ℕ → BitVec 8) × BitVec 32 :=
  let len := if serial ≠ 0 then size * 8 else size
  if serial = 0 then (storeAt dst 0 ((List.range size.toNat).map src), len)
  else (((List.range size.toNat).foldl (expandByte src) (dst, 0)).1, len)

def EP1_INFO : ℕ := 7
def E_OEC : ℕ := 4

-- struct ep1_command with its registers at 0, as { 0 } leaves them and as &= keeps
-- them.
def ep1Command (bits : List ℕ) : List (BitVec 8) := flags bits :: List.replicate 11 0

structure FpgaLoad where
  transfers : List (ℕ × List (BitVec 8))
  ret : ℤ

-- image is what bit_read returned, o what malloc did. What comes back over
-- endpoint 1 matters only by FPGA_STATUS; the rest of it is printed.
def fpga_load_image (image : Option BitScan) (serial : ℤ) (o : ℕ → BitVec 8) (FPGA_STATUS : BitVec 8) : FpgaLoad :=
  match image with
  | none => ⟨[], -1⟩
  | some image =>
      let (o, len) := bufcopy o image.bitBuf image.length serial
      let ep : Ep6Command := ⟨flags [SPI_BOOT_FPGA], BitVec.ofInt 8 serial, 0, fun _ => 0⟩
      let asked := [(6, ep.packet 0), (1, ep1Command [EP1_INFO])]
      if FPGA_STATUS ≠ 0 then ⟨asked, -1⟩
      else
        let o := if serial = 2 then storeAt o 0 (List.replicate len.toNat 0) else o
        let sent := (3, (List.range len.toNat).map o)
        ⟨asked ++ [sent, (1, ep1Command [EP1_INFO, E_OEC])], len.toInt⟩

def BitScan.payload (image : BitScan) : List (BitVec 8) := (List.range image.length.toNat).map image.bitBuf

def msbFirst (t : BitVec 8) : List (BitVec 8) := (List.range 8).map fun i => if t.getMsbD i then 1 else 0

theorem bits_msbFirst (t : BitVec 8) : (bitsDown.map fun i => if t &&& (1#8 <<< i) ≠ 0 then (1 : BitVec 8) else 0) = msbFirst t := by
  have order : bitsDown = (List.range 8).map (7 - ·) := rfl
  rw [order, List.map_map, msbFirst]
  refine List.map_congr_left fun i member => ?_
  have inside := List.mem_range.mp member
  have zero := and_bit_zero t (7 - i) (by omega)
  have bit : t.getMsbD i = t.getLsbD (7 - i) := by rw [BitVec.getMsbD, decide_eq_true inside, Bool.true_and]
  simp only [Function.comp_apply, ne_eq, zero, bit]
  cases t.getLsbD (7 - i) <;> rfl

theorem msbFirst_length (t : BitVec 8) : (msbFirst t).length = 8 := by
  rw [msbFirst, List.length_map, List.length_range]

theorem expandByte_msbFirst (src : ℕ → BitVec 8) (o : (ℕ → BitVec 8) × ℕ) (k : ℕ) :
    expandByte src o k = (storeAt o.1 o.2 (msbFirst (src k)), o.2 + (msbFirst (src k)).length) := by
  have stored := store_bytes (fun i => if src k &&& (1#8 <<< i) ≠ 0 then (1 : BitVec 8) else 0) bitsDown o.1 o.2
  rw [bits_msbFirst] at stored
  exact stored

theorem expand_msbFirst (src dst : ℕ → BitVec 8) (list : List ℕ) (off : ℕ) :
    list.foldl (expandByte src) (dst, off) =
      (storeAt dst off ((list.map src).flatMap msbFirst), off + ((list.map src).flatMap msbFirst).length) := by
  induction list generalizing dst off with
  | nil => rw [List.foldl_nil, List.map_nil, List.flatMap_nil, storeAt_nil, List.length_nil, Nat.add_zero]
  | cons k rest ih =>
      rw [List.foldl_cons, expandByte_msbFirst, ih, storeAt_append, List.map_cons, List.flatMap_cons, List.length_append,
        Nat.add_assoc]

theorem flatMap_msbFirst_length (bytes : List (BitVec 8)) : (bytes.flatMap msbFirst).length = bytes.length * 8 := by
  simp only [List.length_flatMap, msbFirst_length, List.map_const', List.sum_replicate_nat]

def prepared (image : BitScan) (serial : ℤ) : List (BitVec 8) :=
  if serial = 0 then image.payload
  else if serial = 2 then List.replicate (image.length.toNat * 8) 0
  else image.payload.flatMap msbFirst

theorem payload_length (image : BitScan) : image.payload.length = image.length.toNat := by
  rw [BitScan.payload, List.length_map, List.length_range]

theorem bufcopy_parallel (dst : ℕ → BitVec 8) (image : BitScan) :
    bufcopy dst image.bitBuf image.length 0 = (storeAt dst 0 image.payload, image.length) := by
  rw [bufcopy, if_pos rfl, if_neg (by simp)]
  rfl

theorem bufcopy_serial (dst : ℕ → BitVec 8) (image : BitScan) (serial : ℤ) (other : serial ≠ 0) :
    bufcopy dst image.bitBuf image.length serial = (storeAt dst 0 (image.payload.flatMap msbFirst), image.length * 8) := by
  rw [bufcopy, if_neg other, if_pos other, expand_msbFirst]
  rfl

theorem load_prepared (image : BitScan) (fits : image.length.toNat ≤ bitBufSize) (serial : ℤ) (o : ℕ → BitVec 8)
    (bytes : List (BitVec 8)) :
    (3, bytes) ∈ (fpga_load_image (some image) serial o 0).transfers ↔ bytes = prepared image serial := by
  have size : bitBufSize = 2097152 := rfl
  have eight : (image.length * 8).toNat = image.length.toNat * 8 := by
    have factor : (8 : BitVec 32).toNat = 8 := rfl
    rw [BitVec.toNat_mul, factor]
    exact Nat.mod_eq_of_lt (by omega)
  have sent (other a b c : List (BitVec 8)) : (3, bytes) ∈ [(6, a), (1, b)] ++ [(3, other), (1, c)] ↔ bytes = other := by simp
  rw [fpga_load_image, prepared]
  by_cases parallel : serial = 0
  · subst parallel
    have held := storeAt_range o image.payload
    rw [payload_length] at held
    rw [if_pos rfl, bufcopy_parallel]
    dsimp only
    rw [if_neg (by simp), if_neg (by decide), held, sent]
  · rw [if_neg parallel, bufcopy_serial o image serial parallel]
    dsimp only
    rw [if_neg (by simp), eight]
    by_cases blank : serial = 2
    · have held := storeAt_range (storeAt o 0 (image.payload.flatMap msbFirst)) (List.replicate (image.length.toNat * 8) 0)
      rw [List.length_replicate] at held
      rw [if_pos blank, if_pos blank, held, sent]
    · have held := storeAt_range o (image.payload.flatMap msbFirst)
      rw [flatMap_msbFirst_length, payload_length] at held
      rw [if_neg blank, if_neg blank, held, sent]

structure WholeImage (image : BitScan) (serial : ℤ) (o : ℕ → BitVec 8) : Prop where
  inside : ∀ k < image.length.toNat, k < bitBufSize
  clocked : ∀ bytes, (3, bytes) ∈ (fpga_load_image (some image) serial o 0).transfers →
    Delivers bytes ∧ bytes = if serial = 0 then image.payload else image.payload.flatMap msbFirst

theorem msbFirst_zero (t : BitVec 8) : (∀ b ∈ msbFirst t, b = 0) ↔ t = 0 := by
  constructor
  · intro zeros
    apply BitVec.eq_of_getMsbD_eq
    intro i inside
    have zero := zeros _ (List.mem_map_of_mem (List.mem_range.mpr inside))
    cases bit : t.getMsbD i with
    | false => simp
    | true => simp [bit] at zero
  · rintro rfl
    decide

theorem flatMap_msbFirst_zero (bytes : List (BitVec 8)) :
    List.replicate (bytes.length * 8) 0 = bytes.flatMap msbFirst ↔ ∀ b ∈ bytes, b = 0 := by
  rw [eq_comm, List.eq_replicate_iff, flatMap_msbFirst_length, eq_self_iff_true, true_and]
  constructor
  · intro zeros t member
    exact (msbFirst_zero t).mp fun b inside => zeros b (List.mem_flatMap.mpr ⟨t, member, inside⟩)
  · intro zeros b member
    obtain ⟨t, inside, bit⟩ := List.mem_flatMap.mp member
    exact (msbFirst_zero t).mpr (zeros t inside) b bit

theorem whole_prepared (image : BitScan) (fits : image.length.toNat ≤ bitBufSize) (serial : ℤ) (o : ℕ → BitVec 8) :
    WholeImage image serial o ↔ 8 ∣ (prepared image serial).length ∧
      prepared image serial = if serial = 0 then image.payload else image.payload.flatMap msbFirst := by
  rw [← delivers_iff]
  constructor
  · intro whole
    exact whole.clocked _ ((load_prepared image fits serial o _).mpr rfl)
  · intro delivered
    refine ⟨fun k inside => Nat.lt_of_lt_of_le inside fits, fun bytes sent => ?_⟩
    rw [(load_prepared image fits serial o bytes).mp sent]
    exact delivered

theorem prepared_iff (image : BitScan) (serial : ℤ) :
    (8 ∣ (prepared image serial).length ∧
        prepared image serial = if serial = 0 then image.payload else image.payload.flatMap msbFirst) ↔
      (serial = 0 → 8 ∣ image.length.toNat) ∧ (serial = 2 → ∀ b ∈ image.payload, b = 0) := by
  rw [prepared]
  by_cases parallel : serial = 0
  · have other : serial ≠ 2 := by omega
    rw [if_pos parallel, if_pos parallel, payload_length]
    exact ⟨fun ⟨eights, _⟩ => ⟨fun _ => eights, fun blank => absurd blank other⟩, fun ⟨eights, _⟩ => ⟨eights parallel, rfl⟩⟩
  · have eights : 8 ∣ image.length.toNat * 8 := Nat.dvd_mul_left 8 _
    by_cases blank : serial = 2
    · have zero := flatMap_msbFirst_zero image.payload
      rw [payload_length] at zero
      rw [if_neg parallel, if_pos blank, if_neg parallel, List.length_replicate, zero]
      exact ⟨fun ⟨_, zeros⟩ => ⟨fun h => absurd h parallel, fun _ => zeros⟩, fun ⟨_, zeros⟩ => ⟨eights, zeros blank⟩⟩
    · rw [if_neg parallel, if_neg blank, if_neg parallel, flatMap_msbFirst_length, payload_length]
      exact iff_of_true ⟨eights, rfl⟩ ⟨fun h => absurd h parallel, fun h => absurd h blank⟩

theorem fpga_load_image_iff (image : BitScan) (serial : ℤ) (o : ℕ → BitVec 8) :
    WholeImage image serial o ↔
      image.length.toNat ≤ bitBufSize ∧ (serial = 0 → 8 ∣ image.length.toNat) ∧
        (serial = 2 → ∀ b ∈ image.payload, b = 0) := by
  by_cases fits : image.length.toNat ≤ bitBufSize
  · rw [whole_prepared image fits, prepared_iff, and_iff_right fits]
  · refine iff_of_false (fun whole => ?_) fun ⟨within, _⟩ => fits within
    exact Nat.lt_irrefl bitBufSize (whole.inside bitBufSize (Nat.lt_of_not_le fits))

-- Four bytes in parallel mode: OUT3BC / 8 is zero.
theorem parallel_tail_lost : ¬ WholeImage ⟨0x65, 0, 0, 0, 4, 4, [], fun _ => 0xff, [0, 1, 2, 3]⟩ 0 fun _ => 0 := by
  rw [whole_prepared _ (by decide)]
  rintro ⟨eights, _⟩
  revert eights
  decide

end SsAdma
