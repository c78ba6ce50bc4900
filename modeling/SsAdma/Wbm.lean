import SsAdma.Ctrl

set_option autoImplicit false

namespace SsAdma

-- The host registers of wbm that ctrl reads. The register read-out and the
-- wbs_ack_o, wbs_err_o lines (never assigned) are left out.
structure Wbm where
  ndarDirty : Bool
  ndar : BitVec 29
  enable : Bool
  wbIntClear : Bool
  append : Bool
  sysRstReg : Bool
  wbIntEnable : Bool
deriving DecidableEq, Repr

structure WbmIn where
  wbsCycI : Bool
  wbsWeI : Bool
  wbsAdrI : BitVec 32
  wbsDatI : BitVec 32
  ndarDirtyClear : Bool
  appendClear : Bool
deriving DecidableEq, Repr

def WbmIn.validAccess (i : WbmIn) : Bool := i.wbsAdrI[10]

def WbmIn.hits (i : WbmIn) (register : BitVec 2) : Bool :=
  i.wbsWeI && i.validAccess && i.wbsAdrI.extractLsb' 2 2 == register

def WbmIn.ccrWe (i : WbmIn) : Bool := i.hits 0

-- to write NDAR must disable enable
def Wbm.ndarWe (w : Wbm) (i : WbmIn) : Bool := i.hits 3 && !w.enable

def Wbm.reset (ndar : BitVec 29) : Wbm where
  ndarDirty := false
  ndar := ndar
  enable := false
  wbIntClear := false
  append := false
  sysRstReg := false
  wbIntEnable := false

def Wbm.step (w : Wbm) (i : WbmIn) : Wbm where
  ndarDirty := if w.ndarWe i then true else if i.ndarDirtyClear then false else w.ndarDirty
  ndar := if w.ndarWe i then i.wbsDatI.extractLsb' 3 29 else w.ndar
  enable := if i.ccrWe then i.wbsDatI.getLsbD 1 else w.enable
  wbIntClear := if i.ccrWe then i.wbsDatI.getLsbD 2 else false
  append := if i.ccrWe then i.wbsDatI.getLsbD 0 else if i.appendClear then false else w.append
  sysRstReg := if i.ccrWe then i.wbsDatI.getLsbD 31 else w.sysRstReg
  wbIntEnable := if i.hits 1 then i.wbsDatI.getLsbD 30 else w.wbIntEnable

-- wbm with ctrl. sys_rst, which bit 31 of CCR drives, resets ctrl and not wbm.
structure Host where
  wbm : Wbm
  ctrl : Ctrl
deriving DecidableEq, Repr

structure HostIn where
  wbsCycI : Bool
  wbsWeI : Bool
  wbsAdrI : BitVec 32
  wbsDatI : BitVec 32
  wbsDatO4 : BitVec 32
  wbsDat64O4 : BitVec 32
  wbsAck4 : Bool
  wbsErr4 : Bool
  wbsRty4 : Bool
  cDone1 : Bool
  cDone3 : Bool
  ocnt0 : BitVec 16
  ocnt1 : BitVec 16
  err1 : BitVec 3
  err3 : BitVec 3
deriving DecidableEq, Repr

def HostIn.idle : HostIn where
  wbsCycI := false
  wbsWeI := false
  wbsAdrI := 0
  wbsDatI := 0
  wbsDatO4 := 0
  wbsDat64O4 := 0
  wbsAck4 := false
  wbsErr4 := false
  wbsRty4 := false
  cDone1 := false
  cDone3 := false
  ocnt0 := 0
  ocnt1 := 0
  err1 := 0
  err3 := 0

def HostIn.write (i : HostIn) (adr dat : BitVec 32) : HostIn :=
  { i with wbsCycI := true, wbsWeI := true, wbsAdrI := adr ||| 0x400, wbsDatI := dat }

def HostIn.ack (i : HostIn) (dat : BitVec 32) : HostIn := { i with wbsAck4 := true, wbsDatO4 := dat }

def HostIn.done (i : HostIn) : HostIn := { i with cDone1 := true }

def Host.ctrlIn (h : Host) (i : HostIn) : CtrlIn where
  wbRst := h.wbm.sysRstReg
  wbsDatO4 := i.wbsDatO4
  wbsDat64O4 := i.wbsDat64O4
  wbsAck4 := i.wbsAck4
  wbsErr4 := i.wbsErr4
  wbsRty4 := i.wbsRty4
  cDone1 := i.cDone1
  cDone3 := i.cDone3
  ndarDirty := h.wbm.ndarDirty
  ndar := h.wbm.ndar
  wbIntClear := h.wbm.wbIntClear
  wbIntEnable := h.wbm.wbIntEnable
  append := h.wbm.append
  enable := h.wbm.enable
  ocnt0 := i.ocnt0
  ocnt1 := i.ocnt1
  err1 := i.err1
  err3 := i.err3
  wbsCycI := i.wbsCycI

def Host.live (h : Host) : Host := { h with ctrl := h.ctrl.live h.wbm.sysRstReg }

def Host.wbmIn (h : Host) (i : HostIn) : WbmIn where
  wbsCycI := i.wbsCycI
  wbsWeI := i.wbsWeI
  wbsAdrI := i.wbsAdrI
  wbsDatI := i.wbsDatI
  ndarDirtyClear := h.live.ctrl.ndarDirtyClear
  appendClear := h.live.ctrl.appendClear

def Host.step (h : Host) (i : HostIn) : Host where
  wbm := h.wbm.step (h.wbmIn i)
  ctrl := h.ctrl.step (h.ctrlIn i)

-- Both resets are held together; the registers without one are arbitrary.
def Host.reset (ndar : BitVec 29) (ctrl : Ctrl) : Host where
  wbm := .reset ndar
  ctrl := { ctrl with mCyc1 := 0 }.live true

end SsAdma
