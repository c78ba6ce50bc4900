import SsAdma.CopyJob
import SsAdma.FifoQueue
import Mathlib.Tactic.ByContra
import Mathlib.Tactic.SplitIfs

set_option autoImplicit false

namespace SsAdma

-- simp leaves the bits of dc as getLsbD.
attribute [-simp] BitVec.getLsbD_eq_getElem

structure CopyOrder (copy : Copy) (qs qd : ChQueue) : Prop where
  moved : qd.pushed = qs.pushed.take qs.popped
  running : copy = .sRun → qs.empty = false ∧ qd.full = false
  ended : copy = .sEnd ↔ ∃ word ∈ qd.pushed, word.last = true

theorem copy_out (copy : Copy) (cmd : ChanCmd) (ch : Ch) (notReset : cmd.mReset = false)
    (selected : copy ≠ .sIdle → cmd.dc.getLsbD 4 = true) :
    (!(copy.out (modIn cmd ch)).mSrcGetn) = decide (copy = .sRun) ∧
      (!(copy.out (modIn cmd ch)).mDstPutn) = decide (copy = .sRun) ∧
      (copy = .sRun → (copy.out (modIn cmd ch)).mDst = ch.src.dout.data ∧
        (copy.out (modIn cmd ch)).mDstLast = ch.src.dout.last) := by
  cases dc : cmd.dc.getLsbD 4 with
  | true => simp [Copy.out, Copy.live, modIn, notReset, dc]
  | false =>
      have idle : copy = .sIdle := by
        by_contra other
        simp [selected other] at dc
      simp [Copy.out, modIn, dc, idle]

section

variable {copy : Copy} {qs qd : ChQueue} {ch : Ch}

theorem CopyOrder.step_run (order : CopyOrder copy qs qd) (srcFifo : ch.src.Holds qs) (dstFifo : ch.dst.Holds qd)
    (cmd : ChanCmd) (notReset : cmd.mReset = false) (run : copy = .sRun) (put : Option RamWord) (get : Bool) :
    CopyOrder (copy.step (modIn cmd ch)) (qs.step put true) (qd.step (some ch.src.dout) get) := by
  obtain ⟨visible, room⟩ := order.running run
  have seen := qs.not_empty_iff.mp visible
  have space := qd.not_full_iff.mp room
  have bounds := qs.bounds
  have inside : qs.popped < qs.pushed.length := by omega
  have head := srcFifo.head inside (qs.ready_of_not_empty visible)
  have takes : qs.taken true = 1 := by simp [DelayQueue.taken, visible]
  have next : copy.step (modIn cmd ch) =
      if ch.src.dout.last then .sEnd
      else if ch.dst.control.fullOut || ch.dst.control.almostFullOut then .sWait
      else if ch.src.control.emptyOut || ch.src.control.almostEmptyOut then .sWait
      else .sRun := by
    simp [Copy.step, Copy.next, run, modIn, notReset]
  have pushed : (qd.step (some ch.src.dout) get).pushed = qd.pushed ++ [ch.src.dout] := by simp [qd.step_put, room]
  constructor
  · change _ = (qs.pushed ++ qs.accepted put).take (qs.popped + qs.taken true)
    rw [pushed, takes, List.take_append_of_le_length inside, List.take_succ_eq_append_getElem inside, order.moved, head]
  · intro still
    rw [next] at still
    split_ifs at still with marker stop starved
    rw [dstFifo.control, ofQueue_almostFullOut] at stop
    rw [srcFifo.control, ofQueue_almostEmptyOut] at starved
    have spare : qd.pushed.length ≠ qd.poppedTwice + 510 := by
      intro last
      simp [last] at stop
    have more : qs.pushedTwice ≠ qs.popped + 1 := by
      intro last
      simp [last] at starved
    have short := qd.accepted_length (some ch.src.dout)
    exact ⟨qs.not_empty_step put true (by omega), qd.not_full_step _ get (by omega)⟩
  · have unmarked : ¬ ∃ word ∈ qd.pushed, word.last = true := by
      rw [← order.ended, run]
      decide
    rw [next, pushed]
    simp only [List.mem_append, List.mem_singleton, or_and_right, exists_or, exists_eq_left, unmarked, false_or]
    cases ch.src.dout.last with
    | true => simp
    | false =>
        simp only [Bool.false_eq_true, if_false, iff_false]
        split_ifs <;> decide

theorem CopyOrder.step_still (order : CopyOrder copy qs qd) (srcFifo : ch.src.Holds qs) (dstFifo : ch.dst.Holds qd)
    (cmd : ChanCmd) (notReset : cmd.mReset = false) (still : copy ≠ .sRun) (put : Option RamWord) (get : Bool) :
    CopyOrder (copy.step (modIn cmd ch)) (qs.step put false) (qd.step none get) := by
  have bounds := qs.bounds
  have pushed := qd.step_quiet get
  have takes : qs.taken false = 0 := rfl
  have next : copy.step (modIn cmd ch) = copy ∨
      copy.step (modIn cmd ch) = .sRun ∧ copy ≠ .sEnd ∧ qs.empty = false ∧ qd.full = false := by
    rw [← ofQueue_emptyOut, ← ofQueue_fullOut, ← srcFifo.control, ← dstFifo.control]
    cases copy with
    | sRun => exact absurd rfl still
    | sEnd => exact .inl (by simp [Copy.step, Copy.next, modIn, notReset])
    | sIdle =>
        cases go : cmd.mEnable && cmd.dc.getLsbD 4 with
        | false => exact .inl (by simp [Copy.step, Copy.next, modIn, notReset, go])
        | true =>
            cases empty : ch.src.control.emptyOut <;> cases full : ch.dst.control.fullOut <;>
              simp [Copy.step, Copy.next, modIn, notReset, go, empty, full]
    | sWait =>
        cases empty : ch.src.control.emptyOut <;> cases full : ch.dst.control.fullOut <;>
          simp [Copy.step, Copy.next, modIn, notReset, empty, full]
  constructor
  · change _ = (qs.pushed ++ qs.accepted put).take (qs.popped + qs.taken false)
    rw [pushed, takes, List.take_append_of_le_length (by omega)]
    exact order.moved
  · intro run
    obtain ⟨visible, room⟩ : qs.empty = false ∧ qd.full = false := by
      rcases next with same | ⟨_, _, shown⟩
      · exact absurd (same.symm.trans run) still
      · exact shown
    have space := qd.not_full_iff.mp room
    exact ⟨qs.not_empty_kept put false visible takes, qd.not_full_step none get (by simpa [DelayQueue.accepted] using space)⟩
  · rw [pushed, ← order.ended]
    rcases next with same | ⟨starts, notEnd, _⟩
    · rw [same]
    · simp [starts, notEnd]

end

theorem CopyOrder.step (copy : Copy) (qs qd : ChQueue) (order : CopyOrder copy qs qd) (ch : Ch)
    (srcFifo : ch.src.Holds qs) (dstFifo : ch.dst.Holds qd) (cmd : ChanCmd) (notReset : cmd.mReset = false)
    (selected : copy ≠ .sIdle → cmd.dc.getLsbD 4 = true) (put : Option RamWord) (get : Bool) :
    CopyOrder (copy.step (modIn cmd ch)) (qs.step put (!(copy.out (modIn cmd ch)).mSrcGetn))
      (qd.step (if !(copy.out (modIn cmd ch)).mDstPutn then
        some ⟨(copy.out (modIn cmd ch)).mDstLast, (copy.out (modIn cmd ch)).mDst⟩ else none) get) := by
  obtain ⟨gets, puts, word⟩ := copy_out copy cmd ch notReset selected
  rw [gets, puts]
  by_cases run : copy = .sRun
  · rw [(word run).1, (word run).2]
    simpa [run] using order.step_run srcFifo dstFifo cmd notReset run put get
  · simpa [run] using order.step_still srcFifo dstFifo cmd notReset run put get

end SsAdma
