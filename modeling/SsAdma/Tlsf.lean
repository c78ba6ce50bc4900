import SsAdma.TlsfMap
import Mathlib.Logic.Function.Basic

set_option autoImplicit false

namespace SsAdma

-- tlsf_t without the list of areas, with the memory its pointers lead to.
-- sizeof(void *) is 8, a pointer that is NULL is 0, and a word of memory is told
-- by its first byte: of a block at b these are prev_hdr at b, size at b + 8,
-- free_ptr.prev at b + 16 and free_ptr.next at b + 24. The buffer lies from
-- b + 16 on. The signature is the low half of the first word of the pool.
structure Tlsf where
  flBitmap : BitVec 32
  slBitmap : ℕ → BitVec 32
  matrix : ℕ → ℕ → ℕ
  mem : ℕ → ℕ

-- size & BLOCK_SIZE
def blockSize (word : ℕ) : ℕ := word &&& (0xffffffff - 7)

def roundupSize (r : ℕ) : ℕ := andNot (r + 15) 15

def rounddownSize (r : ℕ) : ℕ := andNot r 15

def setBit (nr : ℕ) (word : BitVec 32) : BitVec 32 := word ||| (1#32 <<< (nr &&& 0x1f))

def clearBit (nr : ℕ) (word : BitVec 32) : BitVec 32 := word &&& ~~~ (1#32 <<< (nr &&& 0x1f))

namespace Tlsf

def write (t : Tlsf) (adr val : ℕ) : Tlsf := { t with mem := Function.update t.mem adr val }

@[simp] theorem write_same (t : Tlsf) (adr val : ℕ) : (t.write adr val).mem adr = val := by simp [write]

theorem write_other (t : Tlsf) (adr val : ℕ) {w : ℕ} (other : w ≠ adr) : (t.write adr val).mem w = t.mem w := by
  simp [write, other]

def setMatrix (t : Tlsf) (fl sl b : ℕ) : Tlsf :=
  { t with matrix := fun i j => if i = fl ∧ j = sl then b else t.matrix i j }

def setFreePtr (t : Tlsf) (b prev next : ℕ) : Tlsf := (t.write (b + 16) prev).write (b + 24) next

def clearClass (t : Tlsf) (fl sl : ℕ) : Tlsf :=
  let t := { t with slBitmap := Function.update t.slBitmap fl (clearBit sl (t.slBitmap fl)) }
  if t.slBitmap fl = 0 then { t with flBitmap := clearBit fl t.flBitmap } else t

def findSuitableBlock (t : Tlsf) (fl sl : ℕ) : ℕ × ℕ × ℕ :=
  let tmp := t.slBitmap fl &&& (BitVec.allOnes 32 <<< sl)
  if tmp ≠ 0 then
    let sl := (lsBit tmp).toNat
    (t.matrix fl sl, fl, sl)
  else
    let found := lsBit (t.flBitmap &&& (BitVec.allOnes 32 <<< (fl + 1)))
    if found > 0 then
      let fl := found.toNat
      let sl := (lsBit (t.slBitmap fl)).toNat
      (t.matrix fl sl, fl, sl)
    else (0, 0, 0)

def extractBlockHdr (t : Tlsf) (b fl sl : ℕ) : Tlsf :=
  let t := t.setMatrix fl sl (t.mem (b + 24))
  let t := if t.matrix fl sl ≠ 0 then t.write (t.matrix fl sl + 16) 0 else t.clearClass fl sl
  t.setFreePtr b 0 0

-- EXTRACT_BLOCK: the neighbours of b, the class when b is its head, and b itself.
def unlink (t : Tlsf) (b : ℕ) : Tlsf :=
  let t := if t.mem (b + 24) ≠ 0 then t.write (t.mem (b + 24) + 16) (t.mem (b + 16)) else t
  if t.mem (b + 16) ≠ 0 then t.write (t.mem (b + 16) + 24) (t.mem (b + 24)) else t

def leaveClass (t : Tlsf) (b fl sl : ℕ) : Tlsf :=
  if t.matrix fl sl = b then
    let t := t.setMatrix fl sl (t.mem (b + 24))
    if t.matrix fl sl = 0 then t.clearClass fl sl else t
  else t

def extractBlock (t : Tlsf) (b fl sl : ℕ) : Tlsf := ((t.unlink b).leaveClass b fl sl).setFreePtr b 0 0

def insertBlock (t : Tlsf) (b fl sl : ℕ) : Tlsf :=
  let t := t.setFreePtr b 0 (t.matrix fl sl)
  let t := if t.matrix fl sl ≠ 0 then t.write (t.matrix fl sl + 16) b else t
  let t := t.setMatrix fl sl b
  { t with
    slBitmap := Function.update t.slBitmap fl (setBit sl (t.slBitmap fl))
    flBitmap := setBit fl t.flBitmap }

-- The tail of a block becomes a free block of its own, as realloc_ex has it
-- twice.
def splitBlock (t : Tlsf) (b nextB size tmpSize : ℕ) : Tlsf :=
  let tmpSize := tmpSize - 16
  let tmpB := b + 16 + size
  let t := t.write (tmpB + 8) (tmpSize ||| 1 ||| 0)
  let t := t.write nextB tmpB
  let t := t.write (nextB + 8) (t.mem (nextB + 8) ||| 2)
  let t := t.insertBlock tmpB (mappingInsert tmpSize).1 (mappingInsert tmpSize).2
  t.write (b + 8) (size ||| (t.mem (b + 8) &&& 2))

def useBlock (t : Tlsf) (b size : ℕ) : Tlsf :=
  let nextB := b + 16 + blockSize (t.mem (b + 8))
  let tmpSize := blockSize (t.mem (b + 8)) - size
  if tmpSize ≥ 32 then
    let tmpSize := tmpSize - 16
    let b2 := b + 16 + size
    let t := t.write (b2 + 8) (tmpSize ||| 1 ||| 0)
    let t := t.write nextB b2
    let t := t.insertBlock b2 (mappingInsert tmpSize).1 (mappingInsert tmpSize).2
    t.write (b + 8) (size ||| (t.mem (b + 8) &&& 2))
  else
    let t := t.write (nextB + 8) (andNot (t.mem (nextB + 8)) 2)
    t.write (b + 8) (andNot (t.mem (b + 8)) 1)

def mallocEx (t : Tlsf) (size : ℕ) : ℕ × Tlsf :=
  let size := if size < 16 then 16 else roundupSize size
  let (size, fl, sl) := mappingSearch size
  let (b, fl, sl) := t.findSuitableBlock fl sl
  if b = 0 then (0, t) else (b + 16, (t.extractBlockHdr b fl sl).useBlock b size)

-- The first if of free_ex: the block behind b joins it.
def mergeNext (t : Tlsf) (b : ℕ) : Tlsf :=
  let tmpB := b + 16 + blockSize (t.mem (b + 8))
  if t.mem (tmpB + 8) &&& 1 ≠ 0 then
    let (fl, sl) := mappingInsert (blockSize (t.mem (tmpB + 8)))
    let t := t.extractBlock tmpB fl sl
    t.write (b + 8) (t.mem (b + 8) + (blockSize (t.mem (tmpB + 8)) + 16))
  else t

-- The second one: b joins the block before it.
def mergePrev (t : Tlsf) (b : ℕ) : ℕ × Tlsf :=
  if t.mem (b + 8) &&& 2 ≠ 0 then
    let tmpB := t.mem b
    let (fl, sl) := mappingInsert (blockSize (t.mem (tmpB + 8)))
    let t := t.extractBlock tmpB fl sl
    (tmpB, t.write (tmpB + 8) (t.mem (tmpB + 8) + (blockSize (t.mem (b + 8)) + 16)))
  else (b, t)

def giveBlock (t : Tlsf) (b : ℕ) : Tlsf :=
  let (fl, sl) := mappingInsert (blockSize (t.mem (b + 8)))
  let t := t.insertBlock b fl sl
  let tmpB := b + 16 + blockSize (t.mem (b + 8))
  let t := t.write (tmpB + 8) (t.mem (tmpB + 8) ||| 2)
  t.write tmpB b

def freeEx (t : Tlsf) (ptr : ℕ) : Tlsf :=
  if ptr = 0 then t
  else
    let b := ptr - 16
    let t := t.write (b + 8) (t.mem (b + 8) ||| 1)
    let t := t.setFreePtr b 0 0
    let t := t.mergeNext b
    let (b, t) := t.mergePrev b
    t.giveBlock b

def shrinkBlock (t : Tlsf) (b size : ℕ) : Tlsf :=
  let nextB := b + 16 + blockSize (t.mem (b + 8))
  let tmpSize := blockSize (t.mem (b + 8))
  if t.mem (nextB + 8) &&& 1 ≠ 0 then
    let (fl, sl) := mappingInsert (blockSize (t.mem (nextB + 8)))
    let t := t.extractBlock nextB fl sl
    let tmpSize := tmpSize + (blockSize (t.mem (nextB + 8)) + 16)
    let nextB := nextB + 16 + blockSize (t.mem (nextB + 8))
    let tmpSize := tmpSize - size
    if tmpSize ≥ 32 then t.splitBlock b nextB size tmpSize else t
  else
    let tmpSize := tmpSize - size
    if tmpSize ≥ 32 then t.splitBlock b nextB size tmpSize else t

def growBlock (t : Tlsf) (b size : ℕ) : Tlsf :=
  let t := t.mergeNext b
  let nextB := b + 16 + blockSize (t.mem (b + 8))
  let t := t.write nextB b
  let t := t.write (nextB + 8) (andNot (t.mem (nextB + 8)) 2)
  let tmpSize := blockSize (t.mem (b + 8)) - size
  if tmpSize ≥ 32 then t.splitBlock b nextB size tmpSize else t

def memcpy (t : Tlsf) (dst src n : ℕ) : Tlsf :=
  { t with mem := fun w => if dst ≤ w ∧ w < dst + n ∧ (w - dst) % 8 = 0 then t.mem (src + (w - dst)) else t.mem w }

-- none: the memcpy to NULL that follows when malloc_ex has found nothing.
def reallocEx (t : Tlsf) (ptr newSize : ℕ) : Option (ℕ × Tlsf) :=
  if ptr = 0 then if newSize ≠ 0 then some (t.mallocEx newSize) else some (0, t)
  else if newSize = 0 then some (0, t.freeEx ptr)
  else
    let b := ptr - 16
    let nextB := b + 16 + blockSize (t.mem (b + 8))
    let newSize := if newSize < 16 then 16 else roundupSize newSize
    let tmpSize := blockSize (t.mem (b + 8))
    if newSize ≤ tmpSize then some (b + 16, t.shrinkBlock b newSize)
    else if t.mem (nextB + 8) &&& 1 ≠ 0 ∧ newSize ≤ tmpSize + blockSize (t.mem (nextB + 8)) then
      some (b + 16, t.growBlock b newSize)
    else
      let (ptrAux, t) := t.mallocEx newSize
      let cpsize := if blockSize (t.mem (b + 8)) > newSize then newSize else blockSize (t.mem (b + 8))
      if ptrAux = 0 then none else some (ptrAux, (t.memcpy ptrAux ptr cpsize).freeEx ptr)

-- sizeof(tlsf_t) is 6264, ROUNDUP_SIZE makes 6272 of it.
def headSize : ℕ := 6264

-- process_area: the area_info_t in a block of its own, the one block and the last
-- header, lb.
def processArea (t : Tlsf) (area size : ℕ) : ℕ × Tlsf :=
  let ib := area
  let t := t.write (ib + 8) (roundupSize 16 ||| 0 ||| 0)
  let b := ib + 16 + blockSize (t.mem (ib + 8))
  let t := t.write (b + 8) (rounddownSize (size - 3 * 16 - blockSize (t.mem (ib + 8))) ||| 0 ||| 0)
  let t := t.setFreePtr b 0 0
  let lb := b + 16 + blockSize (t.mem (b + 8))
  let t := t.write lb b
  let t := t.write (lb + 8) (0 ||| 0 ||| 2)
  let t := t.write (ib + 24) 0
  (ib, t.write (ib + 16) lb)

def tlsfSignature : ℕ := 0x2A59FA59

def Signed (t : Tlsf) (pool : ℕ) : Prop := t.mem pool % 2 ^ 32 = tlsfSignature

instance (t : Tlsf) (pool : ℕ) : Decidable (t.Signed pool) := instDecidableEqNat _ _

-- memset and the signature behind it; t is what the pool's memory holds before.
def newHead (t : Tlsf) (pool : ℕ) : Tlsf :=
  Tlsf.write { flBitmap := 0, slBitmap := fun _ => 0, matrix := fun _ _ => 0, mem := t.mem } pool tlsfSignature

-- none: the pool is refused. One that is signed is left as it is.
def initMemoryPool (poolSize pool : ℕ) (t : Tlsf) : Option (ℕ × Tlsf) :=
  if pool = 0 ∨ poolSize = 0 ∨ poolSize < headSize + 16 * 8 then none
  else if pool &&& 7 ≠ 0 then none
  else if t.Signed pool then some (blockSize (t.mem (pool + roundupSize headSize + 8)), t)
  else
    let (ib, t) := (t.newHead pool).processArea (pool + roundupSize headSize) (rounddownSize (poolSize - headSize))
    let b := ib + 16 + blockSize (t.mem (ib + 8))
    let t := t.freeEx (b + 16)
    some (blockSize (t.mem (b + 8)), t)

end Tlsf

end SsAdma
