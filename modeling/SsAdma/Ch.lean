import SsAdma.FifoControl
import SsAdma.Copy

set_option autoImplicit false

namespace SsAdma

-- A 65-bit FIFO word: bit 64 is the end-of-stream flag.
structure RamWord where
  last : Bool
  data : BitVec 64
deriving DecidableEq, Repr, Inhabited

structure Fifo where
  control : FifoControl 8
  ram : Tpram 9 RamWord

def Fifo.live (f : Fifo) (clear : Bool) : Fifo := { f with control := f.control.live clear }

-- The RAM has no reset. Its addresses and its write enable come from the live
-- control registers.
def Fifo.step (f : Fifo) (clear renable wenable : Bool) (di : RamWord) : Fifo :=
  let f := f.live clear
  { control := f.control.step clear renable wenable
    ram := f.ram.step (f.control.wallowOut wenable) f.control.waddr di (f.control.raddrOut renable) }

def Fifo.dout (f : Fifo) : RamWord := f.ram.doRegB

structure Ch where
  src : Fifo
  dst : Fifo
  ocnt : BitVec 16

structure ChIn where
  srcXfer : Bool
  dstXfer : Bool
  srcLast : Bool
  srcDatO : BitVec 32
  srcDat64O : BitVec 32
  mReset : Bool
  mod : ModOut

def Ch.live (c : Ch) (mReset : Bool) : Ch := { c with src := c.src.live mReset, dst := c.dst.live mReset }

def Ch.srcStop (c : Ch) : Bool := c.src.control.almostFullOut
def Ch.dstStop (c : Ch) : Bool := c.dst.control.almostEmptyOut
def Ch.srcStart (c : Ch) : Bool := !c.src.control.halfFullOut
def Ch.dstStart (c : Ch) (mEndn : Bool) : Bool :=
  c.dst.control.halfFullOut || (!mEndn && !c.dst.control.emptyOut)
def Ch.srcEnd (_ : Ch) : Bool := false
def Ch.dstEnd (c : Ch) : Bool := c.dst.dout.last

def Ch.step (c : Ch) (i : ChIn) : Ch where
  src := c.src.step i.mReset (!i.mod.mSrcGetn) i.srcXfer ⟨i.srcLast, i.srcDat64O ++ i.srcDatO⟩
  dst := c.dst.step i.mReset (i.dstXfer && !c.dstEnd) (!i.mod.mDstPutn) ⟨i.mod.mDstLast, i.mod.mDst⟩
  ocnt :=
    if i.mReset then 0
    else if !i.mod.mDstPutn && !i.mod.mDstLast then c.ocnt + 1
    else c.ocnt

end SsAdma
