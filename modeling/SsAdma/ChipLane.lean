import SsAdma.ChipBench
import SsAdma.DstWrites

set_option autoImplicit false

namespace SsAdma

-- A job descriptor in memory: ctrl hands over the low halves of four words.
def jobAt (mem : Mem) (desc : BitVec 29) : JobDesc where
  nextDesc := (mem desc).extractLsb' 0 32
  dcFc := (mem (desc + 1)).extractLsb' 0 32
  srcDesc := (mem (desc + 2)).extractLsb' 0 32
  dstDesc := (mem (desc + 3)).extractLsb' 0 32

def statusAt (mem : Mem) (desc : BitVec 29) : BitVec 29 := wordAddr ((mem desc).extractLsb' 32 32)

theorem jobAt_word (mem : Mem) (desc : BitVec 29) (loaded : ℕ) (below : loaded < 4) :
    (jobAt mem desc).word loaded = (mem (desc + BitVec.ofNat 29 loaded)).extractLsb' 0 32 := by
  obtain rfl | rfl | rfl | rfl : loaded = 0 ∨ loaded = 1 ∨ loaded = 2 ∨ loaded = 3 := by omega
  · rw [show BitVec.ofNat 29 0 = 0#29 from rfl, BitVec.add_zero]
    rfl
  · rfl
  · rfl
  · rfl

structure CopyPlan where
  kept : BitVec 29 → Prop
  src : List (BitVec 29)
  dst : List (BitVec 29)

def CopyPlan.Spares (plan : CopyPlan) (adr : BitVec 29) : Prop := ¬ plan.kept adr ∧ adr ∉ plan.dst

structure CopyPlan.Fits (plan : CopyPlan) (mem : Mem) (desc : BitVec 29) : Prop where
  job : CopyJob (jobAt mem desc) mem plan.kept plan.src plan.dst
  desc : ∀ k < 4, plan.kept (desc + BitVec.ofNat 29 k)

def CopyPlan.Landed (plan : CopyPlan) (mem now : Mem) : Prop := ∀ pair ∈ plan.dst.zip plan.src, now pair.1 = mem pair.2

structure CopyNote where
  desc : BitVec 29
  loaded : ℕ
  mem : Mem

def Chip.gives (s : Chip) (i : SharedIn) (lane : Fin 2) : Bool := s.ctrl.ssWe (s.masters.ctrlIn (s.mastersIn i)) lane

def Chip.note (s : Chip) (notes : Fin 2 → Option CopyNote) (i : SharedIn) (lane : Fin 2) : Option CopyNote :=
  if s.gives i lane then
    if s.ctrl.inc = 0#2 then some ⟨s.ctrl.wbsAdr4R, 1, s.mem⟩
    else (notes lane).map (fun n => { n with loaded := n.loaded + 1 })
  else if s.ctrl.stage lane = .retiring then none
  else notes lane

structure Working (plan : CopyPlan) (s : Chip) (lane : Fin 2) (n : CopyNote) : Prop where
  serves : s.ctrl.Serves lane (jobAt n.mem n.desc) n.loaded
  fits : plan.Fits n.mem n.desc
  address : s.ctrl.stage lane = .loading → s.ctrl.wbsAdr4R = n.desc + BitVec.ofNat 29 n.loaded
  status : s.ctrl.ctlAdr lane = statusAt n.mem n.desc
  writing : s.ctrl.stage lane = .writing →
    (s.masters.sg (dstOf lane)).state = .sEnd ∧ s.ctrl.wbsAdr4R = statusAt n.mem n.desc + s.ctrl.inc.setWidth 29
  copying : ∃ qs qd written,
    (s.bench lane n.loaded).Copying (jobAt n.mem n.desc) n.mem plan.kept plan.src plan.dst qs qd written

def SsSg.Quiet (r : SsSg) : Prop := (r.wbsCyc && r.wbsWe) = false

def SsSg.Resting (r : SsSg) : Prop := r.state = .sIdle ∧ r.wbsCyc = false

def Stage.working : Stage → Bool
  | .loading | .running | .writing => true
  | .free | .closing | .retiring => false

inductive LaneHolds (plan : BitVec 29 → CopyPlan) (s : Chip) (lane : Fin 2) : Option CopyNote → Prop
  | free (stage : s.ctrl.stage lane = .free) (closed : (s.chan lane).Closed) : LaneHolds plan s lane none
  | working (n : CopyNote) (stage : (s.ctrl.stage lane).working = true) (works : Working (plan n.desc) s lane n) :
      LaneHolds plan s lane (some n)
  | closing (n : CopyNote) (stage : s.ctrl.stage lane = .closing) (landed : (plan n.desc).Landed n.mem s.mem)
      (src : (s.masters.sg (srcOf lane)).Quiet) (dst : (s.masters.sg (dstOf lane)).Quiet) : LaneHolds plan s lane (some n)
  | retiring (n : CopyNote) (stage : s.ctrl.stage lane = .retiring) (landed : (plan n.desc).Landed n.mem s.mem)
      (src : (s.masters.sg (srcOf lane)).Resting) (dst : (s.masters.sg (dstOf lane)).Resting) (resets : s.ctrl.mReset lane = true) :
      LaneHolds plan s lane (some n)

def Ctrl.ResetScoped (c : Ctrl) : Prop :=
  ∀ lane, c.mReset lane = true → c.stage lane = .closing ∨ c.stage lane = .retiring ∨ c.state = .sIdle

structure ChipHolds (plan : BitVec 29 → CopyPlan) (p : Chip × (Fin 2 → Option CopyNote)) : Prop where
  dispatch : Dispatch p.1.masters
  granted : p.1.shared.bus.Granted
  resets : p.1.ctrl.ResetScoped
  lanes : ∀ lane, LaneHolds plan p.1 lane (p.2 lane)

structure ChipPeriod (plan : BitVec 29 → CopyPlan) (p : Chip × (Fin 2 → Option CopyNote)) (i : SharedIn) : Prop where
  fair : SlaveFair p.1 i
  fits : ∀ lane, p.1.gives i lane = true → p.1.ctrl.inc = 0#2 → (plan p.1.ctrl.wbsAdr4R).Fits p.1.mem p.1.ctrl.wbsAdr4R
  apart : ∀ lane other n m, lane ≠ other → p.2 lane = some n → p.2 other = some m →
    ∀ adr ∈ (plan n.desc).dst, (plan m.desc).Spares adr
  status : ∀ lane other n m, p.2 lane = some n → p.2 other = some m →
    ∀ word : BitVec 2, (plan m.desc).Spares (statusAt n.mem n.desc + word.setWidth 29)
  fresh : ∀ lane n, p.2 lane = some n → EndIsFresh (p.1.bench lane n.loaded) (p.1.benchIn i lane)

theorem SsSg.Resting.quiet {r : SsSg} (rests : r.Resting) : r.Quiet := by rw [Quiet, rests.2, Bool.false_and]

theorem SsSg.rest_closed (rw : Bool) (r : SsSg) (i : SsSgIn) (rests : r.Resting) (running : i.wbRst = false)
    (quiet : i.ssWe = false) : (r.step rw i).Closed := by
  refine ⟨r.step_idle rw i rests.1 quiet, ?_, ?_⟩
  · rw [step_running rw _ i running]
    simp [latch, comb, hold, rests.1, rests.2]
  · rw [step_running rw _ i running]
    simp [latch, rests.1]

theorem SsSg.done_resting (rw : Bool) (r : SsSg) (i : SsSgIn) (done : i.ssDone = true) : (r.step rw i).Resting :=
  ⟨r.step_closed rw i done, by simp [step, latch, done]⟩

theorem Fifo.rest_cleared (f : Fifo) (clear : Bool) (di : RamWord) (cleared : f.control = .cleared) :
    (f.step clear false false di).control = .cleared := by
  have still : (FifoControl.cleared : FifoControl 8).advance false false = .cleared := by decide
  cases clear with
  | true => rfl
  | false =>
      change f.control.advance false false = .cleared
      rw [cleared]
      exact still

theorem Copy.out_idle (copy : Copy) (i : ModIn) (idle : copy.live i.mReset = .sIdle) :
    (copy.out i).mSrcGetn = true ∧ (copy.out i).mDstPutn = true := by
  simp only [Copy.out, idle]
  split <;> exact ⟨rfl, rfl⟩

theorem Chan.rest_closed (c : Chan) (cmd : ChanCmd) (srcBus dstBus : BusIn) (src : c.src.Resting) (dst : c.dst.Resting)
    (rests : cmd.mReset = true ∨ c.ch.src.control = .cleared ∧ c.ch.dst.control = .cleared ∧ c.copy = .sIdle)
    (quiet : cmd.ssWe = false) : (c.step cmd srcBus dstBus).Closed := by
  obtain ⟨srcFifo, dstFifo, idle⟩ : (c.ch.live cmd.mReset).src.control = .cleared ∧
      (c.ch.live cmd.mReset).dst.control = .cleared ∧ c.copy.live cmd.mReset = .sIdle := by
    cases reset : cmd.mReset with
    | true => exact ⟨rfl, rfl, rfl⟩
    | false => exact rests.resolve_left (by simp [reset])
  obtain ⟨noGet, noPut⟩ := c.copy.out_idle (SsAdma.modIn cmd (c.ch.live cmd.mReset)) idle
  refine ⟨c.src.rest_closed false _ src rfl quiet, c.dst.rest_closed true _ dst rfl quiet, ?_, ?_, ?_⟩
  · have noXfer : ∀ bus start ended stop, (c.src.comb false (sgIn cmd bus start ended stop)).ssXfer = false := by
      intro bus start ended stop
      simp [SsSg.comb, SsSg.hold, src.1]
    simp only [Chan.step, Ch.step, noGet, noXfer]
    exact Fifo.rest_cleared _ _ _ srcFifo
  · have noXfer : ∀ bus start ended stop, (c.dst.comb true (sgIn cmd bus start ended stop)).ssXfer = false := by
      intro bus start ended stop
      simp [SsSg.comb, SsSg.hold, dst.1]
    simp only [Chan.step, Ch.step, noPut, noXfer]
    exact Fifo.rest_cleared _ _ _ dstFifo
  · have empty : (SsAdma.modIn cmd (c.ch.live cmd.mReset)).mSrcEmpty = true := by
      change (c.ch.live cmd.mReset).src.control.emptyOut = true
      rw [srcFifo]
      decide
    change c.copy.step (SsAdma.modIn cmd (c.ch.live cmd.mReset)) = .sIdle
    cases reset : cmd.mReset with
    | true => simp [Copy.step, SsAdma.modIn, reset]
    | false =>
        rw [reset] at idle
        rw [Copy.step, if_neg (by simp [SsAdma.modIn, reset]), show c.copy = .sIdle from idle, Copy.next, ← reset, empty]
        simp

end SsAdma
