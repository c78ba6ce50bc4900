import SsAdma.Copy
import SsAdma.DstOrder

set_option autoImplicit false

namespace SsAdma

-- simp leaves the bits of dc as getLsbD.
attribute [-simp] BitVec.getLsbD_eq_getElem

inductive Fill where
  | sIdle | sRun | sWait | sEnd
deriving DecidableEq, Repr

def Fill.live (state : Fill) (mReset : Bool) : Fill := if mReset then .sIdle else state

-- {64{o}} is 64 copies of the byte, of which m_dst takes the low 64 bits.
def fillDst (dc : BitVec 24) : BitVec 64 := ((dc.extractLsb' 16 8).replicate 64).setWidth 64

def Fill.out (state : Fill) (i : ModIn) : ModOut :=
  let state := state.live i.mReset
  if i.dc.getLsbD 3 then
    { mSrcGetn := false
      mDstPutn := !decide (state = .sRun)
      mDst := fillDst i.dc
      mDstLast := false
      mEndn := false }
  else {}

def Fill.next (state : Fill) (i : ModIn) : Fill :=
  match state with
  | .sIdle => if i.mEnable && i.dc.getLsbD 3 && !i.mDstFull then .sRun else .sIdle
  | .sRun => if i.mDstFull then .sWait else .sRun
  | .sWait => if !i.mDstFull then .sRun else .sWait
  | .sEnd => .sEnd

def Fill.step (state : Fill) (i : ModIn) : Fill := if i.mReset then .sIdle else state.next i

def fillWord (pattern : BitVec 8) : RamWord := ⟨false, pattern.replicate 8⟩

theorem replicate_low : ∀ pattern : BitVec 8, (pattern.replicate 64).setWidth 64 = pattern.replicate 8 := by
  decide +kernel

theorem fillDst_eq (dc : BitVec 24) : fillDst dc = (fillWord (dc.extractLsb' 16 8)).data := replicate_low _

theorem fill_out (fill : Fill) (cmd : ChanCmd) (ch : Ch) (notReset : cmd.mReset = false)
    (selected : fill ≠ .sIdle → cmd.dc.getLsbD 3 = true) :
    (!(fill.out (modIn cmd ch)).mDstPutn) = decide (fill = .sRun) ∧
      (fill = .sRun → (⟨(fill.out (modIn cmd ch)).mDstLast, (fill.out (modIn cmd ch)).mDst⟩ : RamWord) =
        fillWord (cmd.dc.extractLsb' 16 8)) := by
  cases dc : cmd.dc.getLsbD 3 with
  | true => simp [Fill.out, Fill.live, modIn, notReset, dc, fillDst_eq, fillWord]
  | false =>
      have idle : fill = .sIdle := by
        by_contra other
        simp [selected other] at dc
      simp [Fill.out, modIn, dc, idle]

inductive FillPhase (q : ChQueue) : Fill → Prop
  | idle (unused : q.pushed = []) : FillPhase q .sIdle
  | first (few : q.pushed.length ≤ 2)
      (lag : q.pushedOnce = q.pushed.length - 1 ∧ q.pushedTwice = q.pushed.length - 2) : FillPhase q .sRun
  | ahead (margin : q.popped + 3 ≤ q.pushed.length) : FillPhase q .sRun
  | waiting (filled : q.popped + 508 ≤ q.pushed.length) : FillPhase q .sWait

structure FillSide (word : RamWord) (fill : Fill) (q : ChQueue) : Prop where
  pushed : ∀ pushed ∈ q.pushed, pushed = word
  phase : FillPhase q fill

section

variable {word : RamWord} {fill : Fill} {q : ChQueue}

theorem FillPhase.margin (phase : FillPhase q fill) (visible : q.empty = false) : q.popped + 3 ≤ q.pushed.length := by
  have seen := q.not_empty_iff.mp visible
  have bounds := q.bounds
  cases phase with
  | idle unused =>
      have empty : q.pushed.length = 0 := by simp [unused]
      omega
  | first few lag => omega
  | ahead margin => exact margin
  | waiting filled => omega

theorem margin_visible (margin : q.popped + 3 ≤ q.pushed.length) : q.empty = false := by
  have lag := q.writesLag
  exact q.not_empty_iff.mpr (by omega)

theorem margin_kept (put : Option RamWord) (get : Bool) (margin : q.popped + 3 ≤ q.pushed.length) :
    (q.step put get).empty = false := by
  have lag := q.writesLag
  have short := q.taken_bound get
  apply (q.step put get).not_empty_iff.mpr
  change q.popped + q.taken get < q.pushedOnce
  omega

theorem fill_next (fill : Fill) (cmd : ChanCmd) (ch : Ch) (dstFifo : ch.dst.Holds q) (notReset : cmd.mReset = false) :
    fill.step (modIn cmd ch) =
      match fill with
      | .sIdle => if (cmd.mEnable && cmd.dc.getLsbD 3) && !q.full then .sRun else .sIdle
      | .sRun => if q.full then .sWait else .sRun
      | .sWait => if !q.full then .sRun else .sWait
      | .sEnd => .sEnd := by
  have full : ch.dst.control.fullOut = q.full := by rw [dstFifo.control, ofQueue_fullOut]
  cases fill <;> simp [Fill.step, Fill.next, modIn, notReset, full]

theorem FillPhase.step (phase : FillPhase q fill) (ch : Ch) (dstFifo : ch.dst.Holds q) (cmd : ChanCmd)
    (notReset : cmd.mReset = false) (get : Bool) :
    FillPhase (q.step (if fill = .sRun then some word else none) get) (fill.step (modIn cmd ch)) := by
  rw [fill_next fill cmd ch dstFifo notReset]
  have bounds := q.bounds
  have reads := q.readsLag
  have short := q.taken_bound get
  have quiet := q.step_quiet get
  have popped (put : Option RamWord) : (q.step put get).popped = q.popped + q.taken get := rfl
  cases phase with
  | idle unused =>
      have empty : q.pushed.length = 0 := by simp [unused]
      rw [if_neg (by decide)]
      cases (cmd.mEnable && cmd.dc.getLsbD 3) && !q.full with
      | false => exact .idle (quiet.trans unused)
      | true =>
          refine .first (by rw [quiet]; omega) ⟨?_, ?_⟩
          · change q.pushed.length = _
            rw [quiet]
            omega
          · change q.pushedOnce = _
            rw [quiet]
            omega
  | first few lag =>
      have room : q.full = false := q.not_full_iff.mpr (by omega)
      have available := q.taken_available get
      have length : (q.step (some word) get).pushed.length = q.pushed.length + 1 := by simp [q.step_put, room]
      simp only [room, if_true, Bool.false_eq_true, if_false]
      by_cases more : q.pushed.length ≤ 1
      · refine .first (by omega) ⟨?_, ?_⟩
        · change q.pushed.length = _
          omega
        · change q.pushedOnce = _
          omega
      · exact .ahead (by rw [popped, length]; omega)
  | ahead margin =>
      have available := q.taken_available get
      simp only [if_true]
      cases full : q.full with
      | true =>
          have stuck : q.pushed.length = q.poppedTwice + 511 := of_decide_eq_true full
          have length : (q.step (some word) get).pushed.length = q.pushed.length := by simp [q.step_put, full]
          exact .waiting (by rw [popped, length]; omega)
      | false =>
          have length : (q.step (some word) get).pushed.length = q.pushed.length + 1 := by simp [q.step_put, full]
          exact .ahead (by rw [popped, length]; omega)
  | waiting filled =>
      cases full : q.full with
      | true =>
          have stuck : q.pushed.length = q.poppedTwice + 511 := of_decide_eq_true full
          exact .waiting (by rw [popped, if_neg (by decide), quiet]; omega)
      | false => exact .ahead (by rw [popped, if_neg (by decide), quiet]; omega)

-- A put that meets a full FIFO is dropped; every word is the same, so none is
-- missed.
theorem FillSide.step (side : FillSide word fill q) (ch : Ch) (dstFifo : ch.dst.Holds q) (cmd : ChanCmd)
    (notReset : cmd.mReset = false) (get : Bool) :
    FillSide word (fill.step (modIn cmd ch)) (q.step (if fill = .sRun then some word else none) get) := by
  refine ⟨?_, side.phase.step ch dstFifo cmd notReset get⟩
  intro pushed member
  change pushed ∈ q.pushed ++ q.accepted _ at member
  rcases List.mem_append.mp member with old | new
  · exact side.pushed pushed old
  · unfold DelayQueue.accepted at new
    split_ifs at new <;> simp_all

end

end SsAdma
