import SsAdma.BusError
import SsAdma.JobServe
import SsAdma.CopyRun

set_option autoImplicit false

namespace SsAdma

structure Chip where
  shared : Shared
  ch : Fin 2 → Ch
  copy : Fin 2 → Copy
  mem : Mem

def Chip.masters (s : Chip) : Masters := s.shared.masters
def Chip.ctrl (s : Chip) : Ctrl := s.shared.masters.ctrl

def Chip.chan (s : Chip) (lane : Fin 2) : Chan where
  src := s.masters.sg (srcOf lane)
  dst := s.masters.sg (dstOf lane)
  ch := s.ch lane
  copy := s.copy lane

-- The lines between ctrl, ch and mod. m_reset is up as long as the reset is.
def Chip.mReset (s : Chip) (wbRst : Bool) (lane : Fin 2) : Bool := (s.masters.live wbRst).ctrl.mReset lane

def Chip.modIn (s : Chip) (wbRst : Bool) (lane : Fin 2) : ModIn where
  mReset := s.mReset wbRst lane
  mEnable := (s.masters.live wbRst).ctrl.mEnable lane
  dc := (s.ctrl.dcR lane).setWidth 24
  mSrc := (s.ch lane).src.dout.data
  mSrcLast := (s.ch lane).src.dout.last
  mSrcAlmostEmpty := ((s.ch lane).live (s.mReset wbRst lane)).src.control.almostEmptyOut
  mSrcEmpty := ((s.ch lane).live (s.mReset wbRst lane)).src.control.emptyOut
  mDstAlmostFull := ((s.ch lane).live (s.mReset wbRst lane)).dst.control.almostFullOut
  mDstFull := ((s.ch lane).live (s.mReset wbRst lane)).dst.control.fullOut

def Chip.mod (s : Chip) (wbRst : Bool) (lane : Fin 2) : ModOut := (s.copy lane).out (s.modIn wbRst lane)

-- ch.v drives no data for the source engine, which never writes.
def Chip.chLines (s : Chip) (wbRst : Bool) (k : Fin 4) : ChLines :=
  let ch := (s.ch (laneOf k)).live (s.mReset wbRst (laneOf k))
  if writer k then
    { ssStart := ch.dstStart (s.mod wbRst (laneOf k)).mEndn, ssEnd := ch.dstEnd, ssStop := ch.dstStop, dat := ch.dst.dout.data }
  else { ssStart := ch.srcStart, ssEnd := ch.srcEnd, ssStop := ch.srcStop, dat := 0 }

def Chip.lines (s : Chip) (i : SharedIn) : MastersIn :=
  { i.lines with ch := s.chLines i.lines.wbRst, ocnt0 := (s.ch 0).ocnt, ocnt1 := (s.ch 1).ocnt }

def Chip.request (s : Chip) (i : SharedIn) : MasterBus := s.shared.bus.toSlave (s.masters.masterBus (s.lines i))

def MasterBus.word (b : MasterBus) : BitVec 29 := wordAddr b.adr

def Chip.answer (s : Chip) (i : SharedIn) : SlaveBus :=
  if i.slave.ack && !(s.request i).we then
    { i.slave with
      dat := (s.mem (s.request i).word).extractLsb' 0 32
      dat64 := (s.mem (s.request i).word).extractLsb' 32 32 }
  else i.slave

def Chip.sharedIn (s : Chip) (i : SharedIn) : SharedIn := ⟨s.answer i, s.lines i⟩

def Chip.mastersIn (s : Chip) (i : SharedIn) : MastersIn := s.shared.mastersIn (s.sharedIn i)

def Chip.writes (s : Chip) (i : SharedIn) : List (BitVec 29 × BitVec 64) :=
  if i.slave.ack && (s.request i).cyc && (s.request i).we then
    [((s.request i).word, (s.request i).dat64 ++ (s.request i).dat)]
  else []

def Chip.sgOut (s : Chip) (i : SharedIn) (k : Fin 4) : SsSgOut :=
  ((s.masters.live i.lines.wbRst).sg k).comb (writer k) (s.masters.sgIn (s.mastersIn i) k)

def Chip.chIn (s : Chip) (i : SharedIn) (lane : Fin 2) : ChIn where
  srcXfer := (s.sgOut i (srcOf lane)).ssXfer
  dstXfer := (s.sgOut i (dstOf lane)).ssXfer
  srcLast := (s.sgOut i (srcOf lane)).ssLast
  srcDatO := ((s.mastersIn i).bus (srcOf lane).castSucc).dat
  srcDat64O := ((s.mastersIn i).bus (srcOf lane).castSucc).dat64
  mReset := s.mReset i.lines.wbRst lane
  mod := s.mod i.lines.wbRst lane

def Chip.step (s : Chip) (i : SharedIn) : Chip where
  shared := s.shared.step (s.sharedIn i)
  ch lane := ((s.ch lane).live (s.mReset i.lines.wbRst lane)).step (s.chIn i lane)
  copy lane := (s.copy lane).step (s.modIn i.lines.wbRst lane)
  mem := (s.writes i).foldl Mem.write s.mem

-- The reset clears everything but the RAMs of the FIFOs and the memory. It is
-- held over a clock edge, so c_done is low behind it.
def Chip.reset (m : Masters) (ch : Fin 2 → Ch) (mem : Mem) : Chip where
  shared := Shared.reset { m with sg := fun k => { m.sg k with cDone := false } }
  ch lane := (ch lane).live true
  copy _ := .sIdle
  mem := mem

def Masters.cmd (m : Masters) (i : MastersIn) (lane : Fin 2) : ChanCmd where
  ssDat := (i.bus 4).dat
  ssWe := m.ctrl.ssWe (m.ctrlIn i) lane
  ssAdr := m.ctrl.inc
  ssDone := m.ctrl.ssDone lane
  dc := (m.ctrl.dcR lane).setWidth 24
  mReset := m.ctrl.mReset lane
  mEnable := m.ctrl.mEnable lane

def Chip.cmd (s : Chip) (i : SharedIn) (lane : Fin 2) : ChanCmd := s.masters.cmd (s.mastersIn i) lane
def Chip.bus (s : Chip) (i : SharedIn) (k : Fin 4) : BusIn := ((s.mastersIn i).bus k.castSucc).busIn

theorem Masters.live_running (m : Masters) : m.live false = m := rfl

theorem Masters.sgIn_cmd {m : Masters} {i : MastersIn} (exclusive : Exclusive m i) (k : Fin 4) :
    m.sgIn i k = SsAdma.sgIn (m.cmd i (laneOf k)) (i.bus k.castSucc).busIn (i.ch k).ssStart (i.ch k).ssEnd (i.ch k).ssStop := by
  have dc : (if k < 2 then m.ctrl.dc0 else m.ctrl.dc1) = (m.ctrl.dcR (laneOf k)).setWidth 24 := by
    unfold laneOf Ctrl.dcR Ctrl.dc0 Ctrl.dc1
    split <;> rfl
  have rty : (i.bus k.castSucc).rty = (i.bus k.castSucc).busIn.resp.isRty := by
    unfold SlaveBus.busIn
    cases ack : (i.bus k.castSucc).ack with
    | true => simp [Resp.isRty, (exclusive.answered _ ack).1]
    | false => cases (i.bus k.castSucc).rty <;> rfl
  have ack : (i.bus k.castSucc).ack = (i.bus k.castSucc).busIn.resp.isAck := by
    unfold SlaveBus.busIn
    cases (i.bus k.castSucc).ack <;> cases (i.bus k.castSucc).rty <;> rfl
  have low : (i.bus k.castSucc).busIn.dat.extractLsb' 0 32 = (i.bus k.castSucc).dat := BitVec.extractLsb'_append_eq_right
  have high : (i.bus k.castSucc).busIn.dat.extractLsb' 32 32 = (i.bus k.castSucc).dat64 := BitVec.extractLsb'_append_eq_left
  unfold Masters.sgIn SsAdma.sgIn
  rw [low, high, ← ack, ← rty, dc, ssWe_lane exclusive, ssDone_lane exclusive, exclusive.running, exclusive.noError]
  rfl

theorem writer_srcOf (lane : Fin 2) : writer (srcOf lane) = false := by
  revert lane
  decide

theorem writer_dstOf (lane : Fin 2) : writer (dstOf lane) = true := by
  revert lane
  decide

theorem Chip.chan_step (s : Chip) (i : SharedIn) (exclusive : Exclusive s.masters (s.mastersIn i)) (lane : Fin 2) :
    (s.step i).chan lane = (s.chan lane).step (s.cmd i lane) (s.bus i (srcOf lane)) (s.bus i (dstOf lane)) := by
  have running : i.lines.wbRst = false := exclusive.running
  have srcIn := Masters.sgIn_cmd exclusive (srcOf lane)
  have dstIn := Masters.sgIn_cmd exclusive (dstOf lane)
  rw [laneOf_srcOf] at srcIn
  rw [laneOf_dstOf] at dstIn
  have srcLines : (s.mastersIn i).ch (srcOf lane) = s.chLines false (srcOf lane) := by rw [← running]; rfl
  have dstLines : (s.mastersIn i).ch (dstOf lane) = s.chLines false (dstOf lane) := by rw [← running]; rfl
  rw [srcLines] at srcIn
  rw [dstLines] at dstIn
  simp only [chLines, writer_srcOf, writer_dstOf, laneOf_srcOf, laneOf_dstOf, Bool.false_eq_true, if_false, if_true] at srcIn dstIn
  have src : (s.step i).masters.sg (srcOf lane) = (s.masters.sg (srcOf lane)).step false (s.masters.sgIn (s.mastersIn i) (srcOf lane)) := by
    rw [← writer_srcOf lane]
    rfl
  have dst : (s.step i).masters.sg (dstOf lane) = (s.masters.sg (dstOf lane)).step true (s.masters.sgIn (s.mastersIn i) (dstOf lane)) := by
    rw [← writer_dstOf lane]
    rfl
  have srcOut : s.sgOut i (srcOf lane) = (s.masters.sg (srcOf lane)).comb false (s.masters.sgIn (s.mastersIn i) (srcOf lane)) := by
    rw [sgOut, running, Masters.live_running, writer_srcOf]
  have dstOut : s.sgOut i (dstOf lane) = (s.masters.sg (dstOf lane)).comb true (s.masters.sgIn (s.mastersIn i) (dstOf lane)) := by
    rw [sgOut, running, Masters.live_running, writer_dstOf]
  have low : (s.bus i (srcOf lane)).dat.extractLsb' 0 32 = ((s.mastersIn i).bus (srcOf lane).castSucc).dat :=
    BitVec.extractLsb'_append_eq_right
  have high : (s.bus i (srcOf lane)).dat.extractLsb' 32 32 = ((s.mastersIn i).bus (srcOf lane).castSucc).dat64 :=
    BitVec.extractLsb'_append_eq_left
  have ch : (s.step i).ch lane = ((s.ch lane).live (s.ctrl.mReset lane)).step (s.chIn i lane) := by
    change ((s.ch lane).live (s.mReset i.lines.wbRst lane)).step _ = _
    rw [running]
    rfl
  have copy : (s.step i).copy lane = (s.copy lane).step (SsAdma.modIn (s.cmd i lane) ((s.ch lane).live (s.ctrl.mReset lane))) := by
    change (s.copy lane).step (s.modIn i.lines.wbRst lane) = _
    rw [running]
    rfl
  rw [srcIn] at src srcOut
  rw [dstIn] at dst dstOut
  change Chan.mk ((s.step i).masters.sg (srcOf lane)) ((s.step i).masters.sg (dstOf lane)) ((s.step i).ch lane) ((s.step i).copy lane) = _
  rw [src, dst, ch, copy, chIn, srcOut, dstOut, running, ← low, ← high]
  rfl

end SsAdma
