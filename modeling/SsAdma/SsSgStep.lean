import SsAdma.SsSg
import Mathlib.Tactic.SplitIfs

set_option autoImplicit false

namespace SsAdma

theorem SsSg.step_running (rw : Bool) (r : SsSg) (i : SsSgIn) (running : i.wbRst = false) :
    r.step rw i = r.latch i (r.comb rw i) := by
  simp [step, live, running]

def SsSg.CycScoped (r : SsSg) : Prop :=
  r.wbsCyc = (decide (r.state = .sDReq) || decide (r.state = .sBReq) || decide (r.state = .sPanic))

theorem SsSg.CycScoped.released {r : SsSg} (inside : r.CycScoped) (ended : r.state = .sEnd) : r.wbsCyc = false := by
  rw [CycScoped, ended] at inside
  exact inside

theorem SsSg.live_cycScoped (r : SsSg) (wbRst : Bool) (inside : r.CycScoped) : (r.live wbRst).CycScoped := by
  cases wbRst with
  | false => exact inside
  | true => rfl

theorem SsSg.comb_cycScoped (rw : Bool) (r : SsSg) (i : SsSgIn) (inside : r.CycScoped) :
    (r.comb rw i).wbsCycN = (decide ((r.comb rw i).stateN = .sDReq) || decide ((r.comb rw i).stateN = .sBReq) ||
      decide ((r.comb rw i).stateN = .sPanic)) := by
  unfold CycScoped at inside
  cases state : r.state with
  | sIdle => cases write : i.ssWe <;> simp [comb, hold, state, write] <;> simpa [state] using inside
  | sCmd =>
      rw [state] at inside
      have down : r.wbsCyc = false := inside
      simp only [comb, state]
      split
      · split
        · split <;> simp [hold, state, down]
        · split
          · simp only [hold]
            split
            · simp [down]
            · split <;> simp [down]
          · simp [hold, state, down]
      · simp [hold, state, down]
  | sDReq =>
      simp only [comb, state, hold]
      split
      · split <;> simp
      · rfl
      · rfl
  | sBReq =>
      simp only [comb, state, hold]
      split
      · split
        · rfl
        · split <;> rfl
      · split <;> rfl
      · rfl
      · rfl
  | sBWait =>
      rw [state] at inside
      have down : r.wbsCyc = false := inside
      simp only [comb, state]
      split
      · simp [hold, down]
      · split
        · rfl
        · simp [hold, state, down]
  | sNext =>
      rw [state] at inside
      have down : r.wbsCyc = false := inside
      simp only [comb, state]
      split
      · simp [hold, down]
      · rfl
  | sEnd =>
      rw [state] at inside
      have down : r.wbsCyc = false := inside
      simp only [comb, state]
      split <;> simp [hold, state, down]
  | sPanic =>
      rw [state] at inside
      have up : r.wbsCyc = true := inside
      simp [comb, hold, state, up]

theorem SsSg.step_cycScoped (rw : Bool) (r : SsSg) (i : SsSgIn) (inside : r.CycScoped) : (r.step rw i).CycScoped := by
  have combined := (r.live i.wbRst).comb_cycScoped rw i (r.live_cycScoped i.wbRst inside)
  unfold step CycScoped latch
  cases closed : i.wbRst || i.ssDone with
  | true => rfl
  | false => exact combined

def SsSgIn.acks (i : SsSgIn) : Bool := i.wbsAck && !i.wbsRty && !i.wbsErr
def SsSgIn.fails (i : SsSgIn) : Bool := i.wbsErr && !i.wbsAck && !i.wbsRty

section

variable (rw : Bool) (r : SsSg) (i : SsSgIn)

theorem SsSg.stateN_sDReq (state : r.state = .sDReq) :
    (r.comb rw i).stateN =
      if i.acks then (if r.cnt then .sBWait else .sDReq) else if i.fails then .sPanic else .sDReq := by
  unfold comb hold SsSgIn.acks SsSgIn.fails
  rw [state]
  cases i.wbsAck <;> cases i.wbsRty <;> cases i.wbsErr <;> cases r.cnt <;> rfl

theorem SsSg.cntN_sDReq (state : r.state = .sDReq) : (r.comb rw i).cntN = (r.cnt || i.acks) := by
  unfold comb hold SsSgIn.acks
  rw [state]
  cases i.wbsAck <;> cases i.wbsRty <;> cases i.wbsErr <;> cases r.cnt <;> rfl

theorem SsSg.stateN_sBReq (state : r.state = .sBReq) :
    (r.comb rw i).stateN =
      if i.acks then (if r.sgLen = 1#16 then .sNext else if i.ssStop || i.ssEnd then .sBWait else .sBReq)
      else if i.fails then .sPanic
      else if r.io && !i.wbsAck && !i.wbsErr then .sBWait else .sBReq := by
  unfold comb hold SsSgIn.acks SsSgIn.fails
  rw [state]
  cases i.wbsAck <;> cases i.wbsRty <;> cases i.wbsErr <;> cases r.io <;> simp only [apply_ite SsSgOut.stateN] <;> rfl

theorem SsSg.stateN_sBWait (state : r.state = .sBWait) :
    (r.comb rw i).stateN = if i.ssEnd && r.io then .sEnd else if i.ssStart then .sBReq else .sBWait := by
  simp only [comb, state, hold, apply_ite SsSgOut.stateN]

theorem SsSg.stateN_sNext (state : r.state = .sNext) :
    (r.comb rw i).stateN = if r.sgLast then .sEnd else .sDReq := by
  simp only [comb, state, hold, apply_ite SsSgOut.stateN]

theorem SsSg.cntN_sNext (state : r.state = .sNext) : (r.comb rw i).cntN = (r.cnt && r.sgLast) := by
  simp only [comb, state, hold, apply_ite SsSgOut.cntN]
  cases r.sgLast <;> simp

theorem SsSg.stateN_others (notDesc : r.state ≠ .sDReq) (notBuffer : r.state ≠ .sBReq) (notWait : r.state ≠ .sBWait)
    (notNext : r.state ≠ .sNext) :
    (r.comb rw i).stateN = .sIdle ∨ (r.comb rw i).stateN = .sCmd ∨ (r.comb rw i).stateN = .sNext ∨
      (r.comb rw i).stateN = .sEnd ∨ (r.comb rw i).stateN = .sPanic := by
  cases state : r.state with
  | sDReq => exact absurd state notDesc
  | sBReq => exact absurd state notBuffer
  | sBWait => exact absurd state notWait
  | sNext => exact absurd state notNext
  | sIdle =>
      simp only [comb, state, hold]
      cases i.ssWe <;> simp
  | sCmd =>
      simp only [comb, state, hold, apply_ite SsSgOut.stateN]
      split_ifs <;> simp
  | sEnd =>
      simp only [comb, state, hold, apply_ite SsSgOut.stateN]
      simp
  | sPanic => simp [comb, state, hold]

end
theorem SsSg.step_closed (rw : Bool) (r : SsSg) (i : SsSgIn) (done : i.ssDone = true) : (r.step rw i).state = .sIdle := by
  simp [step, latch, done]

theorem SsSg.step_idle (rw : Bool) (r : SsSg) (i : SsSgIn) (idle : r.state = .sIdle) (silent : i.ssWe = false) :
    (r.step rw i).state = .sIdle := by
  have idleLive : (r.live i.wbRst).state = .sIdle := by
    unfold live
    split <;> [rfl; exact idle]
  simp [step, latch, comb, idleLive, silent]

theorem SsSg.step_command (rw : Bool) (r : SsSg) (i : SsSgIn) (running : i.wbRst = false) (notDone : i.ssDone = false)
    (opened : r.state = .sIdle ∧ i.ssWe = true ∨ r.state = .sCmd ∧ (i.ssWe = true → i.ssAdr ≠ 3)) :
    (r.step rw i).state = .sCmd := by
  rw [step_running rw r i running]
  rcases opened with ⟨idle, write⟩ | ⟨cmd, early⟩
  · simp [latch, comb, running, notDone, idle, write]
  · cases write : i.ssWe with
    | false => simp [latch, comb, hold, running, notDone, cmd, write]
    | true =>
        have notLast := early write
        simp only [latch, comb, running, notDone, cmd, write, notLast]
        simp only [Bool.or_false, Bool.false_eq_true, if_false, if_true]
        split
        · split <;> exact cmd
        · exact cmd

theorem SsSg.step_end (rw : Bool) (r : SsSg) (i : SsSgIn) (running : i.wbRst = false) (notDone : i.ssDone = false)
    (ended : r.state = .sEnd) : (r.step rw i).state = .sEnd := by
  rw [step_running rw r i running]
  simp only [latch, comb, running, notDone, ended]
  simp only [Bool.or_false, Bool.false_eq_true, if_false]
  split <;> [exact ended; exact ended]

end SsAdma
