import Mathlib.Data.BitVec

set_option autoImplicit false

namespace SsAdma

-- fifo_control with ADDR_LENGTH = n + 1 and both clocks the same. The
-- two_left and three_left outputs and the registers only they read are not
-- connected anywhere and are left out.
structure FifoControl (n : Nat) where
  raddr : BitVec (n + 1)
  raddrPlusOne : BitVec (n + 1)
  rgreyMinus2 : BitVec (n + 1)
  rgreyMinus1 : BitVec (n + 1)
  rgreyAddr : BitVec (n + 1)
  rgreyNext : BitVec (n + 1)
  waddr : BitVec (n + 1)
  wgreyMinus1 : BitVec (n + 1)
  wgreyAddr : BitVec (n + 1)
  wgreyNext : BitVec (n + 1)
  wclkSyncRgreyMinus2 : BitVec (n + 1)
  wclkRgreyMinus2 : BitVec (n + 1)
  rclkSyncWgreyAddr : BitVec (n + 1)
  rclkWgreyAddr : BitVec (n + 1)
deriving DecidableEq, Repr

variable {n : Nat}

-- {addr[MSB], addr[MSB:1] ^ addr[MSB-1:0]}
def calcGrey (addr : BitVec (n + 1)) : BitVec (n + 1) :=
  BitVec.cons addr.msb (addr.extractLsb' 1 n ^^^ addr.extractLsb' 0 n)

def FifoControl.cleared : FifoControl n where
  raddr := 4
  raddrPlusOne := 5
  rgreyMinus2 := 0
  rgreyMinus1 := 1
  rgreyAddr := 3
  rgreyNext := 2
  waddr := 4
  wgreyMinus1 := 1
  wgreyAddr := 3
  wgreyNext := 2
  wclkSyncRgreyMinus2 := 0
  wclkRgreyMinus2 := 0
  rclkSyncWgreyAddr := 3
  rclkWgreyAddr := 3

-- clear_in is asynchronous: while it is high every register already shows its
-- initial value.
def FifoControl.live (f : FifoControl n) (clearIn : Bool) : FifoControl n :=
  if clearIn then .cleared else f

def FifoControl.fullOut (f : FifoControl n) : Bool := f.wgreyMinus1 = f.wclkRgreyMinus2
def FifoControl.almostFullOut (f : FifoControl n) : Bool := f.wgreyAddr = f.wclkRgreyMinus2
def FifoControl.emptyOut (f : FifoControl n) : Bool := f.rgreyAddr = f.rclkWgreyAddr
def FifoControl.almostEmptyOut (f : FifoControl n) : Bool := f.rgreyNext = f.rclkWgreyAddr

def FifoControl.fifoFullness (f : FifoControl n) : BitVec (n + 2) :=
  if f.raddr < f.waddr then BitVec.cons false f.waddr - BitVec.cons false f.raddr
  else BitVec.cons true f.waddr - BitVec.cons false f.raddr

def FifoControl.halfFullOut (f : FifoControl n) : Bool := f.fifoFullness[n]

def FifoControl.wallowOut (f : FifoControl n) (wenableIn : Bool) : Bool := wenableIn && !f.fullOut
def FifoControl.rallowOut (f : FifoControl n) (renableIn : Bool) : Bool := renableIn && !f.emptyOut

def FifoControl.raddrOut (f : FifoControl n) (renableIn : Bool) : BitVec (n + 1) :=
  if f.rallowOut renableIn then f.raddrPlusOne else f.raddr

def FifoControl.advance (f : FifoControl n) (renableIn wenableIn : Bool) : FifoControl n :=
  let rallow := f.rallowOut renableIn
  let wallow := f.wallowOut wenableIn
  { raddr := if rallow then f.raddrPlusOne else f.raddr
    raddrPlusOne := if rallow then f.raddrPlusOne + 1 else f.raddrPlusOne
    rgreyMinus2 := if rallow then f.rgreyMinus1 else f.rgreyMinus2
    rgreyMinus1 := if rallow then f.rgreyAddr else f.rgreyMinus1
    rgreyAddr := if rallow then f.rgreyNext else f.rgreyAddr
    rgreyNext := if rallow then calcGrey f.raddr else f.rgreyNext
    waddr := if wallow then f.waddr + 1 else f.waddr
    wgreyMinus1 := if wallow then f.wgreyAddr else f.wgreyMinus1
    wgreyAddr := if wallow then f.wgreyNext else f.wgreyAddr
    wgreyNext := if wallow then calcGrey f.waddr else f.wgreyNext
    wclkSyncRgreyMinus2 := f.rgreyMinus2
    wclkRgreyMinus2 := f.wclkSyncRgreyMinus2
    rclkSyncWgreyAddr := f.wgreyAddr
    rclkWgreyAddr := f.rclkSyncWgreyAddr }

def FifoControl.step (f : FifoControl n) (clearIn renableIn wenableIn : Bool) : FifoControl n :=
  if clearIn then .cleared else f.advance renableIn wenableIn

-- Generic two-port RAM: port A writes, port B reads through do_reg_b and sees
-- the content from before the edge.
structure Tpram (aw : Nat) (W : Type) where
  mem : BitVec aw → W
  doRegB : W

def Tpram.step {aw : Nat} {W : Type} (ram : Tpram aw W) (weA : Bool) (addrA : BitVec aw) (diA : W)
    (addrB : BitVec aw) : Tpram aw W where
  mem := if weA then fun addr => if addr = addrA then diA else ram.mem addr else ram.mem
  doRegB := ram.mem addrB

end SsAdma
