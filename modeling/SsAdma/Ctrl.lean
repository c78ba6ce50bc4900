import Mathlib.Data.BitVec

set_option autoImplicit false

namespace SsAdma

-- A lane is 0 or 1. Literals of the type take this proof by its name.
instance lanesNeZero : NeZero 2 := ⟨by decide⟩

inductive CtrlState where
  | sIdle | sCmd0 | sNext0 | sCmd1 | sWait0 | sCtl0 | sTr0 | sWait1 | sCtl1 | sTr1 | sNext1 | sCyc0 | sCyc1
deriving DecidableEq, Repr, Inhabited

-- Registers of the job controller. Byte addresses [31:3] are word addresses.
-- wbs_stb4, wbs_cab4 and wbs_sel4 are left out: the mixer reads none of them;
-- wbs_pref4 is 0. csr is never assigned.
structure Ctrl where
  state : CtrlState
  appendClear : Bool
  wbsCyc4 : Bool
  wbsWe4 : Bool
  wbsAdr4R : BitVec 29
  appendMode : Bool
  ndarDirtyClear : Bool
  inc : BitVec 2
  cdar : BitVec 29
  darR : BitVec 29
  ctlAdr0 : BitVec 29
  ctlAdr1 : BitVec 29
  nextDesc : BitVec 29
  dc0R : BitVec 16
  dc1R : BitVec 16
  wbIntReg : Bool
  mEnable0 : Bool
  mEnable1 : Bool
  mReset0 : Bool
  mReset1 : Bool
  mCyc0 : BitVec 32
  mCyc1 : BitVec 32
deriving DecidableEq, Repr, Inhabited

-- c_done0, c_done2, err0 and err2 enter ctrl and are read nowhere.
structure CtrlIn where
  wbRst : Bool := false
  wbsDatO4 : BitVec 32
  wbsDat64O4 : BitVec 32
  wbsAck4 : Bool
  wbsErr4 : Bool := false
  wbsRty4 : Bool
  cDone1 : Bool
  cDone3 : Bool
  ndarDirty : Bool
  ndar : BitVec 29
  wbIntClear : Bool
  wbIntEnable : Bool
  append : Bool
  enable : Bool
  ocnt0 : BitVec 16
  ocnt1 : BitVec 16
  err1 : BitVec 3
  err3 : BitVec 3
  wbsCycI : Bool
deriving DecidableEq, Repr

structure CtrlOut where
  stateN : CtrlState
  appendClearN : Bool
  appendModeN : Bool
  wbsAdr4N : BitVec 29
  wbsCyc4N : Bool
  wbsWe4N : Bool
  incReset : Bool
  darN : BitVec 29
  wbIntSet : Bool
  ndarDirtyClearN : Bool
  mEnable0N : Bool
  mEnable1N : Bool
  mCyc0Start : Bool
  mCyc1Start : Bool
deriving DecidableEq, Repr

def CtrlIn.acked (i : CtrlIn) : Bool := i.wbsAck4 && !i.wbsRty4 && !i.wbsErr4

def Ctrl.hold (c : Ctrl) : CtrlOut where
  stateN := c.state
  appendClearN := false
  appendModeN := c.appendMode
  wbsAdr4N := 0
  wbsCyc4N := c.wbsCyc4
  wbsWe4N := c.wbsWe4
  incReset := false
  darN := c.darR
  wbIntSet := false
  ndarDirtyClearN := false
  mEnable0N := c.mEnable0
  mEnable1N := c.mEnable1
  mCyc0Start := false
  mCyc1Start := false

def CtrlOut.burst (n : CtrlOut) (adr : BitVec 29) (we : Bool) (stateN : CtrlState) : CtrlOut :=
  { n with wbsAdr4N := adr, wbsCyc4N := true, wbsWe4N := we, incReset := true, stateN := stateN }

def Ctrl.lastWord (c : Ctrl) (i : CtrlIn) : Bool := i.acked && c.inc == 3

def Ctrl.burstWord (c : Ctrl) (i : CtrlIn) (stateN : CtrlState) : CtrlOut :=
  if c.lastWord i then { c.hold with wbsCyc4N := false, stateN := stateN } else c.hold

def Ctrl.comb (c : Ctrl) (i : CtrlIn) : CtrlOut :=
  match c.state with
  | .sIdle =>
      let n := if i.enable && i.ndarDirty then { c.hold.burst i.ndar false .sCmd0 with ndarDirtyClearN := true } else c.hold
      -- "end if" in the source: this test is made after the other, not instead
      if i.enable && i.append then { n.burst c.darR false .sCmd0 with appendModeN := true } else n
  | .sCmd0 => c.burstWord i .sNext0
  | .sNext0 =>
      let n :=
        if c.dc0R.getLsbD 10 then c.hold.burst c.nextDesc false (if c.appendMode then .sCmd0 else .sCmd1)
        else { c.hold with stateN := if c.appendMode then .sIdle else .sWait0 }
      if c.appendMode then { n with appendClearN := true, appendModeN := false }
      else { n with mEnable0N := true, mCyc0Start := !c.mEnable0 }
  | .sCmd1 => c.burstWord i .sWait0
  | .sWait0 =>
      let n :=
        if i.cDone1 then
          if c.dc0R.getLsbD 7 then c.hold.burst c.ctlAdr0 true .sCtl0 else { c.hold with stateN := .sTr0 }
        else c.hold
      { n with mEnable1N := c.dc0R.getLsbD 10, mCyc1Start := !c.mEnable1 }
  | .sCtl0 => c.burstWord i .sTr0
  | .sTr0 => if i.wbsCycI then { c.hold with stateN := .sCyc0 } else c.hold
  | .sCyc0 =>
      let n := if c.dc0R.getLsbD 10 then { c.hold with stateN := .sWait1 } else { c.hold with darN := c.cdar, stateN := .sIdle }
      { n with wbIntSet := c.dc0R.getLsbD 11, mEnable0N := false }
  | .sWait1 =>
      if i.cDone3 then
        if c.dc1R.getLsbD 7 then c.hold.burst c.ctlAdr1 true .sCtl1 else { c.hold with stateN := .sTr1 }
      else c.hold
  | .sCtl1 => c.burstWord i .sTr1
  | .sTr1 => if i.wbsCycI then { c.hold with stateN := .sCyc1 } else c.hold
  | .sCyc1 =>
      { c.hold with
        stateN := if c.dc1R.getLsbD 10 then .sNext1 else .sIdle
        darN := c.cdar
        wbIntSet := c.dc1R.getLsbD 11
        mEnable1N := false }
  | .sNext1 => c.hold.burst c.nextDesc false .sCmd0

-- wb_rst_i is asynchronous except for m_cyc1, and the registers of the
-- descriptor and of the burst have no reset.
def Ctrl.live (c : Ctrl) (wbRst : Bool) : Ctrl :=
  if wbRst then
    { c with
      state := .sIdle
      appendClear := false
      wbsCyc4 := false
      appendMode := false
      ndarDirtyClear := false
      darR := 0
      wbIntReg := false
      mReset0 := true
      mReset1 := true
      mEnable0 := false
      mEnable1 := false
      mCyc0 := 0 }
  else c

def Ctrl.ssWe0 (c : Ctrl) (i : CtrlIn) : Bool := c.state == .sCmd0 && i.wbsAck4 && !c.appendMode
def Ctrl.ssWe2 (c : Ctrl) (i : CtrlIn) : Bool := c.state == .sCmd1 && i.wbsAck4
def Ctrl.ssDone0 (c : Ctrl) : Bool := c.state == .sTr0
def Ctrl.ssDone2 (c : Ctrl) : Bool := c.state == .sTr1
def Ctrl.busy (c : Ctrl) : Bool := c.state != .sIdle
def Ctrl.dc0 (c : Ctrl) : BitVec 24 := c.dc0R.setWidth 24
def Ctrl.dc1 (c : Ctrl) : BitVec 24 := c.dc1R.setWidth 24
def Ctrl.wbIntO (c : Ctrl) (wbIntEnable : Bool) : Bool := c.wbIntReg && wbIntEnable

def Ctrl.ctl0 (c : Ctrl) (i : CtrlIn) : BitVec 64 :=
  if c.inc = 0 then (i.ocnt0 ++ (0 : BitVec 3)).setWidth 64
  else if c.inc = 1 then i.err1.setWidth 64
  else if c.inc = 2 then c.mCyc0.setWidth 64
  else ((0 : BitVec 8) ++ (0 : BitVec 8) ++ c.dc0R).setWidth 64

def Ctrl.ctl1 (c : Ctrl) (i : CtrlIn) : BitVec 64 :=
  if c.inc = 0 then (i.ocnt1 ++ (0 : BitVec 3)).setWidth 64
  else if c.inc = 1 then i.err3.setWidth 64
  else if c.inc = 2 then c.mCyc1.setWidth 64
  else ((1 : BitVec 8) ++ (0 : BitVec 8) ++ c.dc1R).setWidth 64

def Ctrl.wbsDatI4 (c : Ctrl) (i : CtrlIn) : BitVec 64 := if c.state = .sCtl0 then c.ctl0 i else c.ctl1 i

def Ctrl.wbIntNext (c : Ctrl) (i : CtrlIn) (wbIntSet : Bool) : Bool :=
  match i.wbIntClear, wbIntSet with
  | false, false => c.wbIntO i.wbIntEnable
  | false, true => true
  | true, false => false
  | true, true => c.wbIntO i.wbIntEnable

def Ctrl.latch (c : Ctrl) (i : CtrlIn) (n : CtrlOut) : Ctrl where
  state := n.stateN
  appendClear := n.appendClearN
  wbsCyc4 := n.wbsCyc4N
  wbsWe4 := n.wbsWe4N
  wbsAdr4R := if n.incReset then n.wbsAdr4N else if i.acked then c.wbsAdr4R + 1 else c.wbsAdr4R
  appendMode := n.appendModeN
  ndarDirtyClear := n.ndarDirtyClearN
  inc := if n.incReset then 0 else if i.acked then c.inc + 1 else c.inc
  cdar := if (c.state == .sCmd0 || c.state == .sCmd1) && i.wbsAck4 && c.inc == 0 then c.wbsAdr4R else c.cdar
  darR := n.darN
  ctlAdr0 := if c.state == .sCmd0 && i.wbsAck4 && c.inc == 0 then i.wbsDat64O4.extractLsb' 3 29 else c.ctlAdr0
  ctlAdr1 := if c.state == .sCmd1 && i.wbsAck4 && c.inc == 0 then i.wbsDat64O4.extractLsb' 3 29 else c.ctlAdr1
  nextDesc :=
    if (c.state == .sCmd0 || c.state == .sCmd1) && i.wbsAck4 && c.inc == 0 then i.wbsDatO4.extractLsb' 3 29
    else c.nextDesc
  dc0R := if c.state == .sCmd0 && i.wbsAck4 && c.inc == 1 then i.wbsDatO4.extractLsb' 0 16 else c.dc0R
  dc1R := if c.state == .sCmd1 && i.wbsAck4 && c.inc == 1 then i.wbsDatO4.extractLsb' 0 16 else c.dc1R
  wbIntReg := c.wbIntNext i n.wbIntSet
  mEnable0 := n.mEnable0N
  mEnable1 := n.mEnable1N
  mReset0 := c.state == .sTr0
  mReset1 := c.state == .sTr1
  mCyc0 := if n.mCyc0Start then 0 else c.mCyc0 + 1
  mCyc1 := if n.mCyc1Start then 0 else c.mCyc1 + 1

def Ctrl.step (c : Ctrl) (i : CtrlIn) : Ctrl :=
  let c := c.live i.wbRst
  let next := c.latch i (c.comb i)
  if i.wbRst then { next with mCyc1 := 0 }.live true else next

end SsAdma
