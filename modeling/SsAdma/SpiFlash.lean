import SsAdma.ByteMemory
import SsAdma.SpiBus

set_option autoImplicit false

namespace SpiFlash

open ByteMemory SpiBus

-- Bytes on the wire, most significant bit first. An incomplete byte is dropped.
def byteBits (t : BitVec 8) : List Bool := [7, 6, 5, 4, 3, 2, 1, 0].map t.getLsbD

def toBytes : List Bool → List (BitVec 8)
  | b7 :: b6 :: b5 :: b4 :: b3 :: b2 :: b1 :: b0 :: rest =>
      BitVec.ofBoolListBE [b7, b6, b5, b4, b3, b2, b1, b0] :: toBytes rest
  | _ => []

structure Program where
  addr : BitVec 24
  data : List (BitVec 8)
deriving DecidableEq, Repr

-- A serial flash with a write enable latch and 256 byte pages. busy counts what
-- is left of the program under way in changes of the wires; bits is what was
-- clocked in since the device was selected.
structure Flash where
  mem : ℕ → BitVec 8
  wel : Bool
  busy : ℕ
  programs : List Program
  ready : Bool
  bits : List Bool
  so : Bool

def address (a2 a1 a0 : BitVec 8) : BitVec 24 := a2 ++ a1 ++ a0

def Flash.status (f : Flash) : BitVec 8 := (if f.busy = 0 then 0 else 1) ||| (if f.wel then 2 else 0)

def Flash.answerTo (f : Flash) : List (BitVec 8) → BitVec 8
  | 0x05 :: _ => f.status
  | 0x03 :: a2 :: a1 :: a0 :: rest =>
      if f.ready then f.mem (address a2 a1 a0 + BitVec.ofNat 24 rest.length).toNat else 0xff
  | _ => 0xff

def Flash.answer (f : Flash) : BitVec 8 := f.answerTo (toBytes f.bits)

def Flash.nextBit (f : Flash) : Bool := f.answer.getLsbD (7 - f.bits.length % 8)

-- The page buffer: bytes behind the end of the page go to its start.
def fill (off : ℕ) : List (BitVec 8) → (ℕ → BitVec 8) → ℕ → BitVec 8
  | [], buffer => buffer
  | byte :: rest, buffer => fill (off + 1) rest (fun k => if k = off % 256 then byte else buffer k)

def programmed (mem : ℕ → BitVec 8) (addr : BitVec 24) (data : List (BitVec 8)) (k : ℕ) : BitVec 8 :=
  if k / 256 = addr.toNat / 256 then mem k &&& fill (addr.toNat % 256) data (fun _ => 0xff) (k % 256) else mem k

def Flash.execute (duration : ℕ → ℕ) (f : Flash) : List (BitVec 8) → Flash
  | [0x06] => { f with wel := true }
  | [0x04] => { f with wel := false }
  | 0x02 :: a2 :: a1 :: a0 :: byte :: rest =>
      if f.wel then
        { f with
          mem := programmed f.mem (address a2 a1 a0) (byte :: rest)
          wel := false
          busy := duration f.programs.length
          programs := f.programs ++ [⟨address a2 a1 a0, byte :: rest⟩] }
      else f
  | _ => f

def Flash.deselect (duration : ℕ → ℕ) (f : Flash) : Flash :=
  if f.ready = true ∧ f.bits.length % 8 = 0 then f.execute duration (toBytes f.bits) else f

def Flash.tick (f : Flash) : Flash := { f with busy := f.busy - 1 }

-- Data is taken on the rising edge and driven on the falling one.
def Flash.clockIn (bit : Bool) (f : Flash) : Flash := { f with bits := f.bits ++ [bit] }

def Flash.drive (f : Flash) : Flash := { f with so := f.nextBit }

def Flash.select (f : Flash) : Flash := { f with ready := f.busy = 0, bits := [], so := true }

def Flash.react (duration : ℕ → ℕ) (old new : Pins) (f : Flash) : Flash :=
  let f := f.tick
  if old.sel && !new.sel then f.select
  else if !old.sel && new.sel then f.deselect duration
  else if new.sel then f
  else if !old.sck && new.sck then f.clockIn new.mosi
  else if old.sck && !new.sck then f.drive
  else f

def flash (duration : ℕ → ℕ) : Device Flash where
  react := Flash.react duration
  miso := Flash.so

theorem toBytes_byte (t : BitVec 8) (rest : List Bool) : toBytes (byteBits t ++ rest) = t :: toBytes rest := by
  have same : BitVec.ofBoolListBE (byteBits t) = t := by
    refine BitVec.eq_of_getLsbD_eq fun i inside => ?_
    have width : i < 8 := inside
    have bits : i = 0 ∨ i = 1 ∨ i = 2 ∨ i = 3 ∨ i = 4 ∨ i = 5 ∨ i = 6 ∨ i = 7 := by omega
    rcases bits with rfl | rfl | rfl | rfl | rfl | rfl | rfl | rfl <;>
      simp [byteBits]
  exact congrArg (· :: toBytes rest) same

theorem toBytes_bytes (bytes : List (BitVec 8)) (part : List Bool) (short : part.length < 8) :
    toBytes (bytes.flatMap byteBits ++ part) = bytes := by
  induction bytes with
  | nil =>
      rw [List.flatMap_nil, List.nil_append]
      unfold toBytes
      split
      · exact absurd short (by simp)
      · rfl
  | cons t rest ih => rw [List.flatMap_cons, List.append_assoc, toBytes_byte, ih]

theorem bytes_length (bytes : List (BitVec 8)) : (bytes.flatMap byteBits).length = 8 * bytes.length := by
  induction bytes with
  | nil => rfl
  | cons t rest ih => rw [List.flatMap_cons, List.length_append, ih, List.length_cons, Nat.mul_succ, Nat.add_comm]; rfl

theorem toBytes_whole (bytes : List (BitVec 8)) : toBytes (bytes.flatMap byteBits) = bytes := by
  have none := toBytes_bytes bytes [] (by simp)
  rwa [List.append_nil] at none

theorem deselect_whole (duration : ℕ → ℕ) (f : Flash) (bytes : List (BitVec 8)) (whole : f.bits = bytes.flatMap byteBits) :
    f.deselect duration = if f.ready then f.execute duration bytes else f := by
  rw [Flash.deselect, whole, bytes_length, toBytes_whole, Nat.mul_mod_right]
  simp

theorem fill_page (off : ℕ) (data : List (BitVec 8)) (buffer : ℕ → BitVec 8) (room : off + data.length ≤ 256) :
    fill off data buffer = storeAt buffer off data := by
  induction data generalizing off buffer with
  | nil =>
      funext k
      rw [fill, storeAt, List.getElem?_nil, Option.getD_none, ite_self]
  | cons byte rest ih =>
      rw [List.length_cons] at room
      rw [fill, ih (off + 1) _ (by omega), Nat.mod_eq_of_lt (by omega)]
      funext k
      rcases Nat.lt_trichotomy k off with before | here | behind
      · rw [storeAt_before _ _ _ _ (by omega), storeAt_before _ _ _ _ before, if_neg (by omega)]
      · rw [here, storeAt_before _ _ _ _ (by omega), if_pos rfl]
        exact (storeAt_inside buffer off (byte :: rest) 0 (by simp)).symm
      · have next : k - off = k - (off + 1) + 1 := by omega
        rw [storeAt, storeAt, if_pos (Nat.succ_le_of_lt behind), if_pos behind.le, if_neg behind.ne', next,
          List.getElem?_cons_succ]

theorem programmed_erased (mem : ℕ → BitVec 8) (addr : BitVec 24) (data : List (BitVec 8))
    (aligned : addr.toNat % 256 = 0) (room : data.length ≤ 256)
    (erased : ∀ k, addr.toNat ≤ k → k < addr.toNat + data.length → mem k = 0xff) :
    programmed mem addr data = storeAt mem addr.toNat data := by
  funext k
  rw [programmed, aligned, fill_page 0 data _ (by omega)]
  split
  case isTrue page =>
    have place : k = addr.toNat + k % 256 := by omega
    rcases Nat.lt_or_ge (k % 256) data.length with inside | behind
    · have stored := storeAt_inside (fun _ => 0xff) 0 data (k % 256) inside
      rw [Nat.zero_add] at stored
      have kept := storeAt_inside mem addr.toNat data (k % 256) inside
      rw [← place] at kept
      rw [stored, kept, erased k (by omega) (by omega)]
      exact BitVec.allOnes_and
    · rw [storeAt_behind _ 0 data _ (by omega), storeAt_behind _ _ _ _ (by omega)]
      exact BitVec.and_allOnes
  case isFalse other =>
    rcases Nat.lt_or_ge k addr.toNat with before | behind
    · rw [storeAt_before _ _ _ _ before]
    · rw [storeAt_behind _ _ _ _ (by omega)]

end SpiFlash
