import SsAdma.CtrlStep
import SsAdma.Wbm

set_option autoImplicit false

namespace SsAdma

theorem Host.live_of_running (h : Host) (running : h.wbm.sysRstReg = false) : h.live.ctrl = h.ctrl := by
  simp [live, Ctrl.live, running]

theorem Host.shown_by_step (shows : Ctrl → Prop) (hidden : ∀ c : Ctrl, ¬ shows (c.live true)) (h : Host) (i : HostIn)
    (shown : shows (h.step i).live.ctrl) :
    h.wbm.sysRstReg = false ∧ shows (h.ctrl.latch (h.ctrlIn i) (h.ctrl.comb (h.ctrlIn i))) := by
  cases after : (h.step i).wbm.sysRstReg with
  | true =>
      unfold live at shown
      rw [after] at shown
      exact absurd shown (hidden _)
  | false =>
      rw [live_of_running _ after] at shown
      change shows (h.ctrl.step (h.ctrlIn i)) at shown
      cases reset : h.wbm.sysRstReg with
      | true =>
          have resetIn : (h.ctrlIn i).wbRst = true := reset
          unfold Ctrl.step at shown
          rw [if_pos resetIn] at shown
          exact absurd shown (hidden _)
      | false =>
          rw [Ctrl.step_running _ _ reset] at shown
          exact ⟨rfl, shown⟩

end SsAdma
