import SsAdma.SgWalk
import SsAdma.FifoQueue

set_option autoImplicit false

namespace SsAdma

theorem Fifo.Holds.half_empty {q : ChQueue} (ch : Ch) (holds : ch.src.Holds q) (start : ch.srcStart = true) :
    q.pushed.length < q.poppedTwice + 300 := by
  have bounds := q.bounds
  have lag := q.readsLag
  unfold Ch.srcStart at start
  rw [holds.control, ofQueue_halfFullOut] at start
  have below : ¬ 256 ≤ q.pushed.length - q.popped := by simpa using start
  omega

theorem SsSg.keeps_room (r : SsSg) (ch : Ch) (q : ChQueue) (holds : ch.src.Holds q) (room : r.state = .sBReq → q.full = false)
    (cmd : ChanCmd) (notDone : cmd.ssDone = false) (bus : BusIn) (ended : Bool) (put : Option RamWord) (get : Bool)
    (quiet : r.state = .sBReq → bus.resp ≠ .ack → put = none)
    (state : (r.step false (sgIn cmd bus ch.srcStart ended ch.srcStop)).state = .sBReq) :
    (q.step put get).full = false := by
  have short := q.accepted_length put
  apply q.not_full_step
  rcases r.enters_sBReq false cmd bus _ _ _ notDone state with ⟨before, goesOn⟩ | ⟨_, start⟩
  · have seen := q.not_full_iff.mp (room before)
    by_cases resp : bus.resp = .ack
    · have notAlmost : q.pushed.length ≠ q.poppedTwice + 510 := by
        have stop : ch.srcStop = false := (goesOn resp).1
        simpa [Ch.srcStop, holds.control, ofQueue_almostFullOut] using stop
      omega
    · simpa [quiet before resp, DelayQueue.accepted] using seen
  · have far := holds.half_empty ch start
    omega

theorem SsSg.enters_listEnd (rw : Bool) (r : SsSg) (cmd : ChanCmd) (bus : BusIn) (start ended stop : Bool)
    (notDone : cmd.ssDone = false) :
    (r.step rw (sgIn cmd bus start ended stop)).state = .sNext ∧ (r.step rw (sgIn cmd bus start ended stop)).sgLast = true ↔
      r.state = .sBReq ∧ bus.resp = .ack ∧ r.sgLen = 1#16 ∧ r.sgLast = true := by
  cases state : r.state with
  | sBReq =>
      by_cases resp : bus.resp = .ack
      · rw [r.step_sBReq_ack rw cmd bus _ _ _ notDone state resp]
        by_cases final : r.sgLen = 1#16
        · simp [resp, final]
        · cases stop || ended <;> simp [final]
      · rw [r.step_sBReq_hold rw cmd bus _ _ _ notDone state resp]
        cases r.io <;> simp [resp]
  | sIdle =>
      rw [r.step_sIdle rw cmd bus _ _ _ notDone state]
      cases cmd.ssWe <;> simp
  | sCmd =>
      rw [r.step_sCmd rw cmd bus _ _ _ notDone state]
      split_ifs <;> simp [state]
  | sDReq =>
      rw [r.step_sDReq rw cmd bus _ _ _ notDone state]
      split_ifs <;> simp [state]
  | sBWait =>
      rw [r.step_sBWait rw cmd bus _ _ _ notDone state]
      split_ifs <;> simp [state]
  | sNext =>
      rw [r.step_sNext rw cmd bus _ _ _ notDone state]
      split_ifs <;> simp
  | sEnd =>
      rw [r.step_sEnd rw cmd bus _ _ _ notDone state]
      simp [state]
  | sPanic =>
      rw [r.step_running rw _ rfl]
      simp [latch, comb, hold, sgIn, notDone, state]

end SsAdma
