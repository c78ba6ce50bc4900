import Mathlib.Tactic.SplitIfs
import SsAdma.Ctrl

set_option autoImplicit false

namespace SsAdma

theorem Ctrl.live_running (c : Ctrl) : c.live false = c := rfl

theorem Ctrl.step_running (c : Ctrl) (i : CtrlIn) (running : i.wbRst = false) : c.step i = c.latch i (c.comb i) := by
  simp [step, live, running]

theorem Ctrl.lastWord_iff (c : Ctrl) (i : CtrlIn) : c.lastWord i = true ↔ i.acked = true ∧ c.inc = 3#2 := by
  simp [lastWord]

theorem Ctrl.comb_stateN (c : Ctrl) (i : CtrlIn) :
    (c.comb i).stateN =
      match c.state with
      | .sIdle => if i.enable && (i.ndarDirty || i.append) then .sCmd0 else .sIdle
      | .sCmd0 => if c.lastWord i then .sNext0 else .sCmd0
      | .sNext0 =>
          if c.dc0R.getLsbD 10 then (if c.appendMode then .sCmd0 else .sCmd1)
          else (if c.appendMode then .sIdle else .sWait0)
      | .sCmd1 => if c.lastWord i then .sWait0 else .sCmd1
      | .sWait0 => if i.cDone1 then (if c.dc0R.getLsbD 7 then .sCtl0 else .sTr0) else .sWait0
      | .sCtl0 => if c.lastWord i then .sTr0 else .sCtl0
      | .sTr0 => if i.wbsCycI then .sCyc0 else .sTr0
      | .sCyc0 => if c.dc0R.getLsbD 10 then .sWait1 else .sIdle
      | .sWait1 => if i.cDone3 then (if c.dc1R.getLsbD 7 then .sCtl1 else .sTr1) else .sWait1
      | .sCtl1 => if c.lastWord i then .sTr1 else .sCtl1
      | .sTr1 => if i.wbsCycI then .sCyc1 else .sTr1
      | .sCyc1 => if c.dc1R.getLsbD 10 then .sNext1 else .sIdle
      | .sNext1 => .sCmd0 := by
  cases state : c.state <;>
    simp [comb, state, burstWord, CtrlOut.burst, hold, apply_ite CtrlOut.stateN]
  cases i.enable <;> cases i.ndarDirty <;> cases i.append <;> rfl

theorem Ctrl.comb_incReset (c : Ctrl) (i : CtrlIn) :
    (c.comb i).incReset =
      match c.state with
      | .sIdle => i.enable && (i.ndarDirty || i.append)
      | .sNext0 => c.dc0R.getLsbD 10
      | .sWait0 => i.cDone1 && c.dc0R.getLsbD 7
      | .sWait1 => i.cDone3 && c.dc1R.getLsbD 7
      | .sNext1 => true
      | _ => false := by
  cases state : c.state <;>
    simp [comb, state, burstWord, CtrlOut.burst, hold, apply_ite CtrlOut.incReset]
  cases i.enable <;> cases i.ndarDirty <;> cases i.append <;> rfl

theorem Ctrl.comb_wbsCyc4N (c : Ctrl) (i : CtrlIn) :
    (c.comb i).wbsCyc4N =
      match c.state with
      | .sCmd0 | .sCmd1 | .sCtl0 | .sCtl1 => !c.lastWord i && c.wbsCyc4
      | _ => (c.comb i).incReset || c.wbsCyc4 := by
  rw [comb_incReset]
  cases state : c.state <;>
    simp [comb, state, burstWord, CtrlOut.burst, hold, apply_ite CtrlOut.wbsCyc4N] <;> grind

theorem Ctrl.comb_wbsWe4N (c : Ctrl) (i : CtrlIn) :
    (c.comb i).wbsWe4N = if (c.comb i).incReset then c.state == .sWait0 || c.state == .sWait1 else c.wbsWe4 := by
  rw [comb_incReset]
  cases state : c.state <;>
    simp [comb, state, burstWord, CtrlOut.burst, hold, apply_ite CtrlOut.wbsWe4N] <;> grind

theorem Ctrl.comb_ndarDirtyClearN (c : Ctrl) (i : CtrlIn) :
    (c.comb i).ndarDirtyClearN = (c.state == .sIdle && i.enable && i.ndarDirty) := by
  cases state : c.state <;>
    simp [comb, state, burstWord, CtrlOut.burst, hold, apply_ite CtrlOut.ndarDirtyClearN]

theorem Ctrl.comb_appendClearN (c : Ctrl) (i : CtrlIn) :
    (c.comb i).appendClearN = (c.state == .sNext0 && c.appendMode) := by
  cases state : c.state <;>
    simp [comb, state, burstWord, CtrlOut.burst, hold, apply_ite CtrlOut.appendClearN]

theorem Ctrl.comb_wbIntSet (c : Ctrl) (i : CtrlIn) :
    (c.comb i).wbIntSet = ((c.state == .sCyc0 && c.dc0R.getLsbD 11) || (c.state == .sCyc1 && c.dc1R.getLsbD 11)) := by
  cases state : c.state <;>
    simp [comb, state, burstWord, CtrlOut.burst, hold, apply_ite CtrlOut.wbIntSet]

theorem Ctrl.comb_darN (c : Ctrl) (i : CtrlIn) :
    (c.comb i).darN =
      match c.state with
      | .sCyc0 => if c.dc0R.getLsbD 10 then c.darR else c.cdar
      | .sCyc1 => c.cdar
      | _ => c.darR := by
  cases state : c.state <;>
    simp [comb, state, burstWord, CtrlOut.burst, hold, apply_ite CtrlOut.darN]

theorem Ctrl.comb_appendModeN (c : Ctrl) (i : CtrlIn) :
    (c.comb i).appendModeN =
      if c.state = .sIdle then (i.enable && i.append) || c.appendMode
      else if c.state = .sNext0 then false else c.appendMode := by
  cases state : c.state <;>
    simp [comb, state, burstWord, CtrlOut.burst, hold, apply_ite CtrlOut.appendModeN]

theorem Ctrl.comb_mEnable0N (c : Ctrl) (i : CtrlIn) :
    (c.comb i).mEnable0N =
      match c.state with
      | .sNext0 => !c.appendMode || c.mEnable0
      | .sCyc0 => false
      | _ => c.mEnable0 := by
  cases state : c.state <;>
    simp [comb, state, burstWord, CtrlOut.burst, hold, apply_ite CtrlOut.mEnable0N]

theorem Ctrl.comb_mEnable1N (c : Ctrl) (i : CtrlIn) :
    (c.comb i).mEnable1N =
      match c.state with
      | .sWait0 => c.dc0R.getLsbD 10
      | .sCyc1 => false
      | _ => c.mEnable1 := by
  cases state : c.state <;>
    simp [comb, state, burstWord, CtrlOut.burst, hold, apply_ite CtrlOut.mEnable1N]

inductive BurstState : CtrlState → CtrlState → Prop where
  | cmd0 : BurstState .sCmd0 .sNext0
  | cmd1 : BurstState .sCmd1 .sWait0
  | ctl0 : BurstState .sCtl0 .sTr0
  | ctl1 : BurstState .sCtl1 .sTr1

theorem Ctrl.comb_burst (c : Ctrl) (i : CtrlIn) (next : CtrlState) (counting : BurstState c.state next) :
    c.comb i = c.burstWord i next := by
  unfold comb
  cases state : c.state <;> rw [state] at counting <;> cases counting <;> rfl

theorem Ctrl.step_burst (c : Ctrl) (i : CtrlIn) (next : CtrlState) (running : i.wbRst = false)
    (counting : BurstState c.state next) :
    (c.step i).state = (if c.lastWord i then next else c.state) ∧
    (c.step i).wbsCyc4 = (if c.lastWord i then false else c.wbsCyc4) ∧
    (c.step i).wbsWe4 = c.wbsWe4 ∧
    (c.step i).wbsAdr4R = (if i.acked then c.wbsAdr4R + 1 else c.wbsAdr4R) ∧
    (c.step i).inc = (if i.acked then c.inc + 1 else c.inc) ∧
    (c.step i).appendMode = c.appendMode ∧ (c.step i).darR = c.darR := by
  rw [step_running c i running, comb_burst c i next counting]
  cases last : c.lastWord i <;> simp [burstWord, latch, hold, last]

theorem CtrlIn.acked_eq (i : CtrlIn) (answered : i.wbsAck4 = true → i.wbsRty4 = false ∧ i.wbsErr4 = false) :
    i.acked = i.wbsAck4 := by
  cases ack : i.wbsAck4 with
  | false => simp [acked, ack]
  | true => simp [acked, ack, answered ack]

theorem Ctrl.step_stateN (c : Ctrl) (i : CtrlIn) (running : i.wbRst = false) : (c.step i).state = (c.comb i).stateN := by
  rw [step_running c i running]
  rfl

theorem Ctrl.step_opened (c : Ctrl) (i : CtrlIn) (running : i.wbRst = false) (opens : (c.comb i).incReset = true) :
    (c.step i).inc = 0#2 ∧ (c.step i).wbsAdr4R = (c.comb i).wbsAdr4N := by
  rw [step_running c i running]
  simp [latch, opens]

def CtrlState.reads : CtrlState → Bool
  | .sCmd0 | .sCmd1 => true
  | _ => false

def CtrlState.writes : CtrlState → Bool
  | .sCtl0 | .sCtl1 => true
  | _ => false

theorem Ctrl.comb_opens (c : Ctrl) (i : CtrlIn) (notReads : c.state.reads = false) (notWrites : c.state.writes = false) :
    (c.comb i).incReset = ((c.comb i).stateN.reads || (c.comb i).stateN.writes) ∧
    ((c.comb i).incReset = true → (c.comb i).stateN.writes = (c.state == .sWait0 || c.state == .sWait1)) := by
  rw [comb_incReset, comb_stateN]
  cases state : c.state <;> simp_all [CtrlState.reads, CtrlState.writes] <;> split_ifs <;> simp_all

structure Ctrl.CycScoped (c : Ctrl) : Prop where
  cycle : c.wbsCyc4 = (c.state.reads || c.state.writes)
  direction : c.wbsCyc4 = true → c.wbsWe4 = c.state.writes

theorem Ctrl.step_cycScoped (c : Ctrl) (i : CtrlIn) (running : i.wbRst = false) (inside : c.CycScoped) :
    (c.step i).CycScoped := by
  obtain ⟨cycle, direction⟩ := inside
  have burst (next : CtrlState) (counting : BurstState c.state next) (opened : c.wbsCyc4 = true)
      (leaves : (next.reads || next.writes) = false) : (c.step i).CycScoped := by
    obtain ⟨stateN, cycN, weN, _⟩ := c.step_burst i next running counting
    cases last : c.lastWord i with
    | true =>
        have down : (c.step i).wbsCyc4 = false := by simp [cycN, last]
        exact ⟨by simp [down, stateN, last, leaves], fun up => absurd (down.symm.trans up) Bool.false_ne_true⟩
    | false =>
        have stays : (c.step i).state = c.state := by simp [stateN, last]
        exact ⟨by simp [cycN, last, stays, cycle], fun _ => by rw [weN, stays, direction opened]⟩
  cases state : c.state with
  | sCmd0 => exact burst .sNext0 (state ▸ .cmd0) (by simp [cycle, state, CtrlState.reads]) rfl
  | sCmd1 => exact burst .sWait0 (state ▸ .cmd1) (by simp [cycle, state, CtrlState.reads]) rfl
  | sCtl0 => exact burst .sTr0 (state ▸ .ctl0) (by simp [cycle, state, CtrlState.writes]) rfl
  | sCtl1 => exact burst .sTr1 (state ▸ .ctl1) (by simp [cycle, state, CtrlState.writes]) rfl
  | _ =>
      have down : c.wbsCyc4 = false := by simp [cycle, state, CtrlState.reads, CtrlState.writes]
      obtain ⟨opens, writes⟩ := c.comb_opens i (by simp [state, CtrlState.reads]) (by simp [state, CtrlState.writes])
      have cycN : (c.comb i).wbsCyc4N = (c.comb i).incReset := by
        rw [comb_wbsCyc4N, down]
        simp [state]
      rw [step_running c i running]
      refine ⟨cycN.trans opens, fun up => ?_⟩
      have opened : (c.comb i).incReset = true := cycN.symm.trans up
      change (c.comb i).wbsWe4N = (c.comb i).stateN.writes
      rw [comb_wbsWe4N, if_pos opened, writes opened]

def Ctrl.ModeScoped (c : Ctrl) : Prop := c.appendMode = true → c.state = .sCmd0 ∨ c.state = .sNext0

theorem Ctrl.mode_outside (c : Ctrl) (inside : c.ModeScoped) (notCmd : c.state ≠ .sCmd0) (notNext : c.state ≠ .sNext0) :
    c.appendMode = false := by
  cases mode : c.appendMode with
  | false => rfl
  | true => cases inside mode with
    | inl cmd => exact absurd cmd notCmd
    | inr next => exact absurd next notNext

theorem Ctrl.step_modeScoped (c : Ctrl) (i : CtrlIn) (inside : c.ModeScoped) : (c.step i).ModeScoped := by
  cases reset : i.wbRst with
  | true => simp [ModeScoped, step, live, reset]
  | false =>
      rw [step_running c i reset]
      intro mode
      change (c.comb i).appendModeN = true at mode
      change (c.comb i).stateN = _ ∨ (c.comb i).stateN = _
      rw [comb_appendModeN] at mode
      by_cases idle : c.state = .sIdle
      · -- entered from S_IDLE, with the burst of the append branch
        have outside : c.appendMode = false := c.mode_outside inside (by simp [idle]) (by simp [idle])
        have append : (i.enable && i.append) = true := by simpa [idle, outside] using mode
        left
        simp [comb, idle, append, CtrlOut.burst]
      · by_cases next : c.state = .sNext0
        · simp [next] at mode
        · have before : c.appendMode = true := by simpa [idle, next] using mode
          have cmd : c.state = .sCmd0 := (inside before).resolve_right next
          rw [comb_burst c i .sNext0 (cmd ▸ .cmd0)]
          unfold burstWord
          split
          · exact Or.inr rfl
          · exact Or.inl cmd

end SsAdma
