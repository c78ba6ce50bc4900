import SsAdma.CopyOrder

set_option autoImplicit false

namespace SsAdma

structure CopySide (data : List (BitVec 64)) (copy : Copy) (qs qd : ChQueue) : Prop where
  moved : qd.pushed = qs.pushed.take qs.popped
  running : copy = .sRun → qs.empty = false ∧ qd.full = false
  ended : copy = .sEnd ↔ data.length < qd.pushed.length

theorem CopySide.count (data : List (BitVec 64)) (copy : Copy) (qs qd : ChQueue) (side : CopySide data copy qs qd) :
    qd.pushed.length = qs.popped := by
  have bounds := qs.bounds
  rw [side.moved, List.length_take]
  omega

theorem Streamed.marked_iff (data : List (BitVec 64)) (pushed : List RamWord) (streamed : Streamed data pushed) :
    (∃ word ∈ pushed, word.last = true) ↔ data.length < pushed.length := by
  constructor
  · rintro ⟨word, member, last⟩
    obtain ⟨j, below, rfl⟩ := List.getElem_of_mem member
    obtain ⟨_, mark, _⟩ := streamed.word data pushed j below
    have atEnd := of_decide_eq_true (mark.symm.trans last)
    omega
  · intro more
    exact ⟨pushed[data.length], List.getElem_mem more, (streamed.word data pushed data.length more).2.1.trans (by simp)⟩

theorem CopySide.step (data : List (BitVec 64)) (copy : Copy) (qs qd : ChQueue) (side : CopySide data copy qs qd) (ch : Ch)
    (srcFifo : ch.src.Holds qs) (dstFifo : ch.dst.Holds qd) (stream : Streamed data qs.pushed) (cmd : ChanCmd)
    (notReset : cmd.mReset = false) (selected : copy ≠ .sIdle → cmd.dc.getLsbD 4 = true) (put : Option RamWord) (get : Bool) :
    CopySide data (copy.step (modIn cmd ch)) (qs.step put (!(copy.out (modIn cmd ch)).mSrcGetn))
      (qd.step (if !(copy.out (modIn cmd ch)).mDstPutn then
        some ⟨(copy.out (modIn cmd ch)).mDstLast, (copy.out (modIn cmd ch)).mDst⟩ else none) get) := by
  have front : qd.pushed <+: qs.pushed := side.moved ▸ List.take_prefix _ _
  have order : CopyOrder copy qs qd :=
    ⟨side.moved, side.running, side.ended.trans (stream.front data qs.pushed qd.pushed front).marked_iff.symm⟩
  have next := order.step copy qs qd ch srcFifo dstFifo cmd notReset selected put get
  refine ⟨next.moved, next.running, ?_⟩
  rw [next.ended, Streamed.marked_iff]
  -- what is put was taken from what had been pushed before this period
  have available := qs.taken_available (!(copy.out (modIn cmd ch)).mSrcGetn)
  have bounds := qs.bounds
  refine stream.front data qs.pushed _ ?_
  rw [next.moved]
  change (qs.pushed ++ qs.accepted put).take (qs.popped + qs.taken _) <+: _
  rw [List.take_append_of_le_length (by omega)]
  exact List.take_prefix _ _

end SsAdma
