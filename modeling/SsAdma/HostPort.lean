import SsAdma.Wbm
import Mathlib.Data.Fintype.Basic

set_option autoImplicit false

namespace SsAdma

structure HostPort where
  wbm : Wbm
  spiReg : BitVec 8
  spiOutReg : BitVec 8
  spiEnReg : BitVec 8
deriving DecidableEq, Repr

structure HostPortIn where
  wbm : WbmIn
  wbsStbI : Bool
deriving DecidableEq, Repr

def HostPortIn.offset (i : HostPortIn) : BitVec 5 := i.wbm.wbsAdrI.extractLsb' 2 5

def HostPortIn.writes (i : HostPortIn) : Bool := i.wbm.wbsWeI && i.wbm.validAccess

def HostPort.step (p : HostPort) (i : HostPortIn) : HostPort where
  wbm := p.wbm.step i.wbm
  spiReg := if i.writes && i.offset == 0x1f then i.wbm.wbsDatI.extractLsb' 16 8 else p.spiReg
  spiOutReg := if i.writes && i.offset == 0x19 then i.wbm.wbsDatI.extractLsb' 24 8 else p.spiOutReg
  spiEnReg := if i.writes && i.offset == 0x1a then i.wbm.wbsDatI.extractLsb' 24 8 else p.spiEnReg

inductive HostReg where
  | ccr | intEnable | ndar | spiOut | spiEn | spi
deriving DecidableEq, Repr

instance : Fintype HostReg where
  elems := {.ccr, .intEnable, .ndar, .spiOut, .spiEn, .spi}
  complete reg := by cases reg <;> decide

def HostReg.offset : HostReg → BitVec 5
  | .ccr => 0
  | .intEnable => 1
  | .ndar => 3
  | .spiOut => 0x19
  | .spiEn => 0x1a
  | .spi => 0x1f

def HostReg.Same (p p' : HostPort) : HostReg → Prop
  | .ccr =>
      p.wbm.enable = p'.wbm.enable ∧ p.wbm.append = p'.wbm.append ∧ p.wbm.wbIntClear = p'.wbm.wbIntClear ∧
        p.wbm.sysRstReg = p'.wbm.sysRstReg
  | .intEnable => p.wbm.wbIntEnable = p'.wbm.wbIntEnable
  | .ndar => p.wbm.ndar = p'.wbm.ndar ∧ p.wbm.ndarDirty = p'.wbm.ndarDirty
  | .spiOut => p.spiOutReg = p'.spiOutReg
  | .spiEn => p.spiEnReg = p'.spiEnReg
  | .spi => p.spiReg = p'.spiReg

def HostPortIn.unwritten (i : HostPortIn) : HostPortIn := { i with wbm := { i.wbm with wbsWeI := false } }

def HostPortIn.carrying (i : HostPortIn) (dat : BitVec 32) : HostPortIn := { i with wbm := { i.wbm with wbsDatI := dat } }

def HostPortIn.addresses (i : HostPortIn) (reg : HostReg) : Bool :=
  i.wbm.wbsCycI && i.wbsStbI && i.writes && i.offset == reg.offset

-- A register changes through the host port where the period with the write and
-- the same period without it leave different values; the DMA side changes some
-- of them in both.
def HostPort.Framed (p : HostPort) (i : HostPortIn) : Prop :=
  ∀ reg : HostReg, ¬ reg.Same (p.step i) (p.step i.unwritten) → i.addresses reg = true

-- Which addresses load one register at most, and that one only in an open bus
-- cycle. CCR, the interrupt enable and NDAR look at two address bits, the SPI
-- registers at five, and no register at wbs_cyc_i or wbs_stb_i.
def HostPort.Unaliased (p : HostPort) (i : HostPortIn) : Prop :=
  i.writes = true →
    i.offset.extractLsb' 0 2 = 2#2 ∧ i.offset ≠ 0x1a ∨
    i.offset.extractLsb' 0 2 = 3#2 ∧ i.offset ≠ 0x1f ∧ p.wbm.enable = true ∨
    i.wbm.wbsCycI = true ∧ i.wbsStbI = true ∧
      (i.offset = 0 ∨ i.offset = 1 ∨ i.offset = 3 ∨ i.offset = 0x1a ∨ i.offset = 0x1f ∧ p.wbm.enable = true)

instance (p : HostPort) (i : HostPortIn) : Decidable (p.Unaliased i) := inferInstanceAs (Decidable (_ → _))

def HostReg.decodes (off : BitVec 5) : HostReg → Bool
  | .ccr => off.extractLsb' 0 2 == 0#2
  | .intEnable => off.extractLsb' 0 2 == 1#2
  | .ndar => off.extractLsb' 0 2 == 3#2
  | reg => off == reg.offset

def HostPort.loads (p : HostPort) (i : HostPortIn) (reg : HostReg) : Bool :=
  !(reg == .ndar && p.wbm.enable) && (i.writes && reg.decodes i.offset)

theorem HostPortIn.hits_offset (i : HostPortIn) (register : BitVec 2) :
    i.wbm.hits register = (i.writes && i.offset.extractLsb' 0 2 == register) := by
  have low : i.offset.extractLsb' 0 2 = i.wbm.wbsAdrI.extractLsb' 2 2 := by
    apply BitVec.eq_of_getLsbD_eq
    intro k below
    have inside : k < 5 := by omega
    simp [offset, below, inside]
  rw [low]
  rfl

theorem HostPortIn.unwritten_hits (i : HostPortIn) (register : BitVec 2) : i.unwritten.wbm.hits register = false := rfl

theorem HostPort.unloaded_same (p : HostPort) (i : HostPortIn) (reg : HostReg) (unloaded : p.loads i reg = false) :
    reg.Same (p.step i) (p.step i.unwritten) := by
  cases reg with
  | ccr =>
      have still : i.wbm.ccrWe = false := (i.hits_offset 0).trans unloaded
      have stillToo : i.unwritten.wbm.ccrWe = false := i.unwritten_hits 0
      simp only [HostReg.Same, step, Wbm.step, still, stillToo]
      exact ⟨rfl, rfl, rfl, rfl⟩
  | intEnable =>
      have still : i.wbm.hits 1 = false := (i.hits_offset 1).trans unloaded
      simp only [HostReg.Same, step, Wbm.step, still, i.unwritten_hits 1, Bool.false_eq_true, if_false]
  | ndar =>
      have still : p.wbm.ndarWe i.wbm = false := by
        rw [Wbm.ndarWe, i.hits_offset 3, Bool.and_comm]
        exact unloaded
      have stillToo : p.wbm.ndarWe i.unwritten.wbm = false := by
        rw [Wbm.ndarWe, i.unwritten_hits 3]
        rfl
      simp only [HostReg.Same, step, Wbm.step, still, stillToo]
      exact ⟨rfl, rfl⟩
  | spiOut | spiEn | spi =>
      exact if_neg (ne_true_of_eq_false unloaded)

theorem other_bit (k : Nat) (below : k < 32) (bit : Bool) : ∃ dat : BitVec 32, dat[k] ≠ bit :=
  ⟨if bit then 0 else BitVec.twoPow 32 k, by cases bit <;> simp⟩

theorem other_field (lsb n : Nat) (inside : lsb < 32) (nonempty : 0 < n) (field : BitVec n) :
    ∃ dat : BitVec 32, dat.extractLsb' lsb n ≠ field := by
  obtain ⟨dat, differs⟩ := other_bit lsb inside (field.getLsbD 0)
  refine ⟨dat, fun same => differs ?_⟩
  rw [← same]
  simp [nonempty, BitVec.getLsbD_eq_getElem inside]

theorem HostPort.loaded_changes (p : HostPort) (i : HostPortIn) (reg : HostReg) (loaded : p.loads i reg = true) :
    ∃ dat, ¬ reg.Same (p.step (i.carrying dat)) (p.step (i.carrying dat).unwritten) := by
  cases reg with
  | ccr =>
      have hit (dat : BitVec 32) : (i.carrying dat).wbm.ccrWe = true := (i.hits_offset 0).trans loaded
      obtain ⟨dat, differs⟩ := other_bit 1 (by decide) p.wbm.enable
      exact ⟨dat, fun same => differs ((if_pos (hit dat)).symm.trans same.1)⟩
  | intEnable =>
      have hit (dat : BitVec 32) : (i.carrying dat).wbm.hits 1 = true := (i.hits_offset 1).trans loaded
      obtain ⟨dat, differs⟩ := other_bit 30 (by decide) p.wbm.wbIntEnable
      exact ⟨dat, fun same => differs ((if_pos (hit dat)).symm.trans same)⟩
  | ndar =>
      have hit (dat : BitVec 32) : p.wbm.ndarWe (i.carrying dat).wbm = true := by
        rw [Wbm.ndarWe, (i.carrying dat).hits_offset 3, Bool.and_comm]
        exact loaded
      obtain ⟨dat, differs⟩ := other_field 3 29 (by decide) (by decide) p.wbm.ndar
      exact ⟨dat, fun same => differs ((if_pos (hit dat)).symm.trans same.1)⟩
  | spiOut =>
      obtain ⟨dat, differs⟩ := other_field 24 8 (by decide) (by decide) p.spiOutReg
      exact ⟨dat, fun same => differs ((if_pos loaded).symm.trans same)⟩
  | spiEn =>
      obtain ⟨dat, differs⟩ := other_field 24 8 (by decide) (by decide) p.spiEnReg
      exact ⟨dat, fun same => differs ((if_pos loaded).symm.trans same)⟩
  | spi =>
      obtain ⟨dat, differs⟩ := other_field 16 8 (by decide) (by decide) p.spiReg
      exact ⟨dat, fun same => differs ((if_pos loaded).symm.trans same)⟩

theorem HostPort.framed_iff_loads (p : HostPort) (i : HostPortIn) :
    (∀ dat, p.Framed (i.carrying dat)) ↔ ∀ reg, p.loads i reg = true → i.addresses reg = true := by
  constructor
  · intro framed reg loaded
    obtain ⟨dat, changed⟩ := p.loaded_changes i reg loaded
    exact framed dat reg changed
  · intro aimed dat reg changed
    apply aimed
    cases loaded : p.loads i reg with
    | true => rfl
    | false => exact absurd (p.unloaded_same (i.carrying dat) reg (by cases reg <;> exact loaded)) changed

theorem decoding_exact (off : BitVec 5) (cyc stb enable : Bool) :
    (∀ reg : HostReg, reg.decodes off = true → (reg == .ndar && enable) = false →
      cyc = true ∧ stb = true ∧ off = reg.offset) ↔
    off.extractLsb' 0 2 = 2#2 ∧ off ≠ 0x1a ∨
      off.extractLsb' 0 2 = 3#2 ∧ off ≠ 0x1f ∧ enable = true ∨
      cyc = true ∧ stb = true ∧ (off = 0 ∨ off = 1 ∨ off = 3 ∨ off = 0x1a ∨ off = 0x1f ∧ enable = true) := by
  revert off
  cases cyc <;> cases stb <;> cases enable <;> decide +kernel

theorem host_writes_framed_iff (p : HostPort) (i : HostPortIn) :
    (∀ dat, p.Framed (i.carrying dat)) ↔ p.Unaliased i := by
  rw [p.framed_iff_loads i, HostPort.Unaliased, ← decoding_exact]
  constructor
  · intro aimed writes reg decodes ungated
    have addressed := aimed reg (by simp [HostPort.loads, writes, decodes, ungated])
    simpa [HostPortIn.addresses, writes, and_assoc] using addressed
  · intro aimed reg loaded
    obtain ⟨ungated, writes, decodes⟩ : (reg == .ndar && p.wbm.enable) = false ∧ i.writes = true ∧ reg.decodes i.offset = true := by
      simpa only [HostPort.loads, Bool.and_eq_true, Bool.not_eq_true'] using loaded
    obtain ⟨cyc, stb, offset⟩ := aimed writes reg decodes ungated
    simp [HostPortIn.addresses, writes, cyc, stb, offset]

def spiWrite : HostPortIn where
  wbm :=
    { wbsCycI := true, wbsWeI := true, wbsAdrI := 0x47c, wbsDatI := 0x00100000, ndarDirtyClear := false, appendClear := false }
  wbsStbI := true

theorem spi_write_arms_ndar : ¬ HostPort.Framed ⟨.reset 0, 0, 0, 0⟩ spiWrite := by
  intro framed
  have armed := framed .ndar (fun same => absurd same.2 (by decide))
  exact absurd armed (by decide)

end SsAdma
