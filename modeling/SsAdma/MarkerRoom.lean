import SsAdma.JobLoad
import SsAdma.SrcRoom
import SsAdma.Clocked

set_option autoImplicit false

namespace SsAdma

structure SrcBench where
  src : SsSg
  ch : Ch
  loaded : Nat

structure SrcBenchIn where
  lines : CtrlLines
  bus : BusIn
  others : ChIn

def SrcBench.srcIn (job : JobDesc) (b : SrcBench) (i : SrcBenchIn) : SsSgIn :=
  sgIn (job.cmd b.loaded i.lines) i.bus b.ch.srcStart b.ch.srcEnd b.ch.srcStop

def SrcBench.srcOut (job : JobDesc) (b : SrcBench) (i : SrcBenchIn) : SsSgOut := b.src.comb false (b.srcIn job i)

def SrcBench.step (job : JobDesc) (b : SrcBench) (i : SrcBenchIn) : SrcBench where
  src := b.src.step false (b.srcIn job i)
  ch :=
    b.ch.step
      { i.others with
        srcXfer := (b.srcOut job i).ssXfer
        srcLast := (b.srcOut job i).ssLast
        srcDatO := (b.srcIn job i).wbsDatO
        srcDat64O := (b.srcIn job i).wbsDat64O
        mReset := false }
  loaded := i.lines.count b.loaded

def SrcBench.handed (job : JobDesc) (b : SrcBench) (i : SrcBenchIn) : RamWord :=
  ⟨(b.srcOut job i).ssLast, (b.srcIn job i).wbsDat64O ++ (b.srcIn job i).wbsDatO⟩

def SrcBench.StoresWord (job : JobDesc) (b : SrcBench) : Prop :=
  ∀ i, (b.srcOut job i).ssXfer = true →
    b.ch.src.control.fullOut = false ∧
      (b.step job i).ch.src.control.waddr = b.ch.src.control.waddr + 1 ∧
      (b.step job i).ch.src.ram.mem b.ch.src.control.waddr = b.handed job i

-- The final word of a list bypasses the test of almost_full_out, and its marker
-- follows one period later: that word must not be the last the FIFO has room
-- for as the writer sees it.
def SparesMarkerRoom (b : SrcBench) (i : SrcBenchIn) : Prop :=
  ¬ (b.src.state = .sBReq ∧ i.bus.resp = .ack ∧ b.src.sgLen = 1#16 ∧ b.src.sgLast = true ∧
    b.ch.src.control.almostFullOut = true ∧
    b.ch.src.control.wclkSyncRgreyMinus2 = b.ch.src.control.wclkRgreyMinus2)

instance (b : SrcBench) (i : SrcBenchIn) : Decidable (SparesMarkerRoom b i) := inferInstanceAs (Decidable (¬ _))

structure SrcBench.Roomy (b : SrcBench) (q : ChQueue) : Prop where
  fifo : b.ch.src.Holds q
  room : b.src.state = .sBReq → q.full = false

section

variable {b : SrcBench} {q : ChQueue}

theorem SrcBench.Roomy.xfer (job : JobDesc) (b : SrcBench) (i : SrcBenchIn) :
    (b.srcOut job i).ssXfer =
      (decide (b.src.state = .sBReq) && i.bus.resp.isAck || decide (b.src.state = .sNext) && b.src.sgLast) :=
  (b.src.comb_xfer false (job.cmd b.loaded i.lines) i.bus b.ch.srcStart b.ch.srcEnd b.ch.srcStop).1

theorem SrcBench.stored (job : JobDesc) (b : SrcBench) (i : SrcBenchIn) (hands : (b.srcOut job i).ssXfer = true)
    (room : b.ch.src.control.fullOut = false) :
    (b.step job i).ch.src.control.waddr = b.ch.src.control.waddr + 1 ∧
      (b.step job i).ch.src.ram.mem b.ch.src.control.waddr = b.handed job i := by
  have allowed : b.ch.src.control.wallowOut (b.srcOut job i).ssXfer = true := by
    simp [FifoControl.wallowOut, hands, room]
  constructor
  · exact if_pos allowed
  · have written : (b.step job i).ch.src.ram.mem =
        fun addr => if addr = b.ch.src.control.waddr then b.handed job i else b.ch.src.ram.mem addr := if_pos allowed
    rw [written]
    exact if_pos rfl

theorem SrcBench.Roomy.stores_iff (roomy : b.Roomy q) (job : JobDesc) :
    b.StoresWord job ↔ (b.src.state = .sNext ∧ b.src.sgLast = true → q.full = false) := by
  have full := ofQueue_fullOut q
  rw [← roomy.fifo.control] at full
  constructor
  · rintro stores ⟨state, last⟩
    rw [← full]
    exact (stores ⟨⟨false, 0, 0, 0, false⟩, ⟨.wait, 0⟩, ⟨false, false, false, 0, 0, false, {}⟩⟩
      (by rw [SrcBench.Roomy.xfer]; simp [state, last])).1
  · intro spare i hands
    have room : b.ch.src.control.fullOut = false := by
      rw [full]
      rw [SrcBench.Roomy.xfer, Bool.or_eq_true, Bool.and_eq_true, Bool.and_eq_true, decide_eq_true_eq, decide_eq_true_eq] at hands
      rcases hands with ⟨burst, _⟩ | ⟨state, last⟩
      · exact roomy.room burst
      · exact spare ⟨state, last⟩
    exact ⟨room, b.stored job i hands room⟩

def SrcBench.put (job : JobDesc) (b : SrcBench) (i : SrcBenchIn) : Option RamWord :=
  if (b.srcOut job i).ssXfer then some (b.handed job i) else none

theorem SrcBench.Roomy.step (roomy : b.Roomy q) (job : JobDesc) (i : SrcBenchIn) :
    (b.step job i).Roomy (q.step (b.put job i) (!i.others.mod.mSrcGetn)) where
  fifo := Fifo.holds_step b.ch.src q (!i.others.mod.mSrcGetn) (b.srcOut job i).ssXfer (b.handed job i) roomy.fifo
  room := by
    refine b.src.keeps_room b.ch q roomy.fifo roomy.room (job.cmd b.loaded i.lines) rfl i.bus b.ch.srcEnd _ _ ?_
    intro burst resp
    have quiet : (b.srcOut job i).ssXfer = false := by
      rw [SrcBench.Roomy.xfer, Resp.isAck_decide]
      simp [burst, resp]
    simp [SrcBench.put, quiet]

theorem SrcBench.Roomy.fills_iff (roomy : b.Roomy q) (word : RamWord) (get : Bool) (room : q.full = false) :
    (q.step (some word) get).full = true ↔
      b.ch.src.control.almostFullOut = true ∧ b.ch.src.control.wclkSyncRgreyMinus2 = b.ch.src.control.wclkRgreyMinus2 := by
  have bounds := q.bounds
  have lag := q.readsLag
  have below := q.not_full_iff.mp room
  have fill : (q.step (some word) get).full = decide ((q.pushed ++ q.accepted (some word)).length = q.poppedOnce + 511) := rfl
  rw [fill, q.accepted_not_full _ room, roomy.fifo.control, ofQueue_almostFullOut]
  simp only [FifoControl.ofQueue, FifoControl.ofCounts, Gray.gray_count_eq, decide_eq_true_eq, List.length_append,
    Option.toList_some, List.length_singleton]
  omega

theorem SrcBench.Roomy.spares_iff (roomy : b.Roomy q) (job : JobDesc) (i : SrcBenchIn) :
    (b.step job i).StoresWord job ↔ SparesMarkerRoom b i := by
  have ends : (b.step job i).src.state = .sNext ∧ (b.step job i).src.sgLast = true ↔
      b.src.state = .sBReq ∧ i.bus.resp = .ack ∧ b.src.sgLen = 1#16 ∧ b.src.sgLast = true :=
    b.src.enters_listEnd false (job.cmd b.loaded i.lines) i.bus _ _ _ rfl
  rw [(roomy.step job i).stores_iff job, ends]
  unfold SparesMarkerRoom
  have fills (final : b.src.state = .sBReq ∧ i.bus.resp = .ack) := by
    have hands : (b.srcOut job i).ssXfer = true := by
      rw [SrcBench.Roomy.xfer]
      simp [final, Resp.isAck]
    have put : b.put job i = some (b.handed job i) := if_pos hands
    have edge := roomy.fills_iff (b.handed job i) (!i.others.mod.mSrcGetn) (roomy.room final.1)
    rwa [← put] at edge
  constructor
  · rintro spare ⟨burst, resp, len, last, almost, still⟩
    have room := spare ⟨burst, resp, len, last⟩
    rw [(fills ⟨burst, resp⟩).mpr ⟨almost, still⟩] at room
    exact absurd room (by decide)
  · rintro spare ⟨burst, resp, len, last⟩
    refine Bool.eq_false_iff.mpr fun full => ?_
    obtain ⟨almost, still⟩ := (fills ⟨burst, resp⟩).mp full
    exact spare ⟨burst, resp, len, last, almost, still⟩

end

structure SrcBench.Fresh (b : SrcBench) : Prop where
  engine : b.src.Closed
  fifo : b.ch.src.control = .cleared

theorem handed_words_stored_iff (job : JobDesc) (start : SrcBench) (inputs : List SrcBenchIn) (fresh : start.Fresh) :
    Clocked.Always (SrcBench.step job) (SrcBench.StoresWord job) start inputs ↔
      Clocked.Admits (SrcBench.step job) SparesMarkerRoom start inputs := by
  have roomy : start.Roomy .nil := ⟨start.ch.src.holds_cleared fresh.fifo, fun burst => by simp [fresh.engine.idle] at burst⟩
  exact Clocked.always_iff_admits (SrcBench.step job) SparesMarkerRoom (SrcBench.StoresWord job) (fun b => ∃ q, b.Roomy q)
    (fun b i ⟨_, roomy⟩ _ => ⟨_, roomy.step job i⟩) (fun b i ⟨_, roomy⟩ _ => roomy.spares_iff job i) start inputs
    ⟨.nil, roomy⟩ ((roomy.stores_iff job).mpr (by simp [fresh.engine.idle]))

def srcJob : JobDesc := { nextDesc := 0, dcFc := 0x16, srcDesc := 0x800, dstDesc := 0 }

def srcPowerUp : SrcBench where
  src :=
    { wbsCyc := false, wbsWe := false, wbsPref := false, wbsAdrR := 0, state := .sIdle, cnt := false, io := false,
      err := 0, sgLast := false, sgLen := 0, sgAddr := 0, sgNext := 0, cDone := false }
  ch := ⟨⟨.cleared, ⟨fun _ => default, default⟩⟩, ⟨.cleared, ⟨fun _ => default, default⟩⟩, 0⟩
  loaded := 0

def stalled (resp : Resp) (dat : BitVec 64) : SrcBenchIn where
  lines := { give := true, idleDat := 0, idleAdr := 0, oldDc := 0, mEnable := true }
  bus := ⟨resp, dat⟩
  others := ⟨false, false, false, 0, 0, false, {}⟩

def fullSegment : List SrcBenchIn :=
  List.replicate 5 (stalled .wait 0) ++ [stalled .ack 0x0001000000100ff8, stalled .ack 0, stalled .wait 0] ++
    List.replicate 511 (stalled .ack 7)

set_option maxRecDepth 100000 in
theorem marker_refused :
    srcPowerUp.Fresh ∧ ¬ Clocked.Always (SrcBench.step srcJob) (SrcBench.StoresWord srcJob) srcPowerUp fullSegment := by
  refine ⟨⟨⟨rfl, rfl, rfl⟩, rfl⟩, fun stores => ?_⟩
  have last := Clocked.always_last _ (SrcBench.StoresWord srcJob) _ _ stores (stalled .wait 0)
  have ran : ((Clocked.run (SrcBench.step srcJob) srcPowerUp fullSegment).srcOut srcJob (stalled .wait 0)).ssXfer = true ∧
      (Clocked.run (SrcBench.step srcJob) srcPowerUp fullSegment).ch.src.control.fullOut = true := by
    decide +kernel
  exact absurd (last ran.1).1 (by simp [ran.2])

theorem few_words_stored :
    Clocked.Always (SrcBench.step srcJob) (SrcBench.StoresWord srcJob) srcPowerUp (fullSegment.take 20) :=
  (handed_words_stored_iff srcJob srcPowerUp (fullSegment.take 20) ⟨⟨rfl, rfl, rfl⟩, rfl⟩).mpr (by decide +kernel)

end SsAdma
