import SsAdma.CtrlStep
import SsAdma.Mixer
import SsAdma.SsSgStep

set_option autoImplicit false

namespace SsAdma

instance enginesNeZero : NeZero 4 := ⟨by decide⟩

-- defparam r_k.rw
def writer (k : Fin 4) : Bool := k.val % 2 == 1

-- The five bus masters: r_0 to r_3 and ctrl. Engines 0 and 1 serve channel 0,
-- engines 2 and 3 channel 1.
structure Masters where
  sg : Fin 4 → SsSg
  ctrl : Ctrl

structure ChLines where
  ssStart : Bool
  ssEnd : Bool
  ssStop : Bool
  dat : BitVec 64
deriving DecidableEq, Repr

structure MastersIn where
  wbRst : Bool := false
  bus : Fin 5 → SlaveBus
  ch : Fin 4 → ChLines
  ocnt0 : BitVec 16
  ocnt1 : BitVec 16
  ndarDirty : Bool
  ndar : BitVec 29
  wbIntClear : Bool
  wbIntEnable : Bool
  append : Bool
  enable : Bool
  wbsCycI : Bool

def MastersIn.quiet : MastersIn where
  bus _ := ⟨false, false, false, 0, 0⟩
  ch _ := ⟨false, false, false, 0⟩
  ocnt0 := 0
  ocnt1 := 0
  ndarDirty := false
  ndar := 0
  wbIntClear := false
  wbIntEnable := false
  append := false
  enable := false
  wbsCycI := false

def MastersIn.start (ndar : BitVec 29) : MastersIn := { MastersIn.quiet with ndarDirty := true, ndar := ndar, enable := true }
def MastersIn.host : MastersIn := { MastersIn.quiet with wbsCycI := true }
def MastersIn.ack (dat : BitVec 32) : MastersIn :=
  { MastersIn.quiet with bus := fun k => ⟨decide (k = 4), false, false, dat, 0⟩ }

def Masters.live (m : Masters) (wbRst : Bool) : Masters where
  sg k := (m.sg k).live wbRst
  ctrl := m.ctrl.live wbRst

def Masters.ctrlIn (m : Masters) (i : MastersIn) : CtrlIn where
  wbRst := i.wbRst
  wbsDatO4 := (i.bus 4).dat
  wbsDat64O4 := (i.bus 4).dat64
  wbsAck4 := (i.bus 4).ack
  wbsErr4 := (i.bus 4).err
  wbsRty4 := (i.bus 4).rty
  cDone1 := (m.sg 1).cDone
  cDone3 := (m.sg 3).cDone
  ndarDirty := i.ndarDirty
  ndar := i.ndar
  wbIntClear := i.wbIntClear
  wbIntEnable := i.wbIntEnable
  append := i.append
  enable := i.enable
  ocnt0 := i.ocnt0
  ocnt1 := i.ocnt1
  err1 := (m.sg 1).err
  err3 := (m.sg 3).err
  wbsCycI := i.wbsCycI

def Masters.ssWe (m : Masters) (i : MastersIn) (k : Fin 4) : Bool :=
  if k < 2 then (m.live i.wbRst).ctrl.ssWe0 (m.ctrlIn i) else (m.live i.wbRst).ctrl.ssWe2 (m.ctrlIn i)

def Masters.ssDone (m : Masters) (i : MastersIn) (k : Fin 4) : Bool :=
  if k < 2 then (m.live i.wbRst).ctrl.ssDone0 else (m.live i.wbRst).ctrl.ssDone2

def Masters.sgIn (m : Masters) (i : MastersIn) (k : Fin 4) : SsSgIn where
  wbRst := i.wbRst
  wbsDatO := (i.bus k.castSucc).dat
  wbsDat64O := (i.bus k.castSucc).dat64
  wbsAck := (i.bus k.castSucc).ack
  wbsErr := (i.bus k.castSucc).err
  wbsRty := (i.bus k.castSucc).rty
  ssDat := (i.bus 4).dat
  ssWe := m.ssWe i k
  ssAdr := m.ctrl.inc
  ssDone := m.ssDone i k
  ssDc := if k < 2 then m.ctrl.dc0 else m.ctrl.dc1
  ssStart := (i.ch k).ssStart
  ssEnd := (i.ch k).ssEnd
  ssStop := (i.ch k).ssStop

def Masters.step (m : Masters) (i : MastersIn) : Masters where
  sg k := (m.sg k).step (writer k) (m.sgIn i k)
  ctrl := m.ctrl.step (m.ctrlIn i)

def Masters.masterBus (m : Masters) (i : MastersIn) (k : Fin 5) : MasterBus :=
  if h : k.val < 4 then
    let r := (m.live i.wbRst).sg ⟨k.val, h⟩
    let dat := (i.ch ⟨k.val, h⟩).dat
    { cyc := r.wbsCyc, we := r.wbsWe, pref := r.wbsPref, adr := r.wbsAdrR ++ (0 : BitVec 3)
      dat := dat.extractLsb' 0 32, dat64 := dat.extractLsb' 32 32 }
  else
    let c := (m.live i.wbRst).ctrl
    let dat := c.wbsDatI4 (m.ctrlIn i)
    { cyc := c.wbsCyc4, we := c.wbsWe4, pref := false, adr := c.wbsAdr4R ++ (0 : BitVec 3)
      dat := dat.extractLsb' 0 32, dat64 := dat.extractLsb' 32 32 }

-- Reset leaves the engines and ctrl as their live view shows them; registers
-- without a reset are arbitrary.
def Masters.reset (m : Masters) : Masters where
  sg := (m.live true).sg
  ctrl := { m.ctrl with mCyc1 := 0 }.live true

def Masters.CycScoped (m : Masters) : Prop := ∀ k, (m.sg k).CycScoped

theorem Masters.reset_cycScoped (m : Masters) : m.reset.CycScoped := fun _ => rfl

theorem Masters.step_cycScoped (m : Masters) (i : MastersIn) (inside : m.CycScoped) : (m.step i).CycScoped :=
  fun k => (m.sg k).step_cycScoped (writer k) (m.sgIn i k) (inside k)

end SsAdma
