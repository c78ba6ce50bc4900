import SsAdma.Clocked
import SsAdma.HostStep

set_option autoImplicit false

namespace SsAdma

def Host.wbIntSet (h : Host) (i : HostIn) : Bool := (h.live.ctrl.comb (h.ctrlIn i)).wbIntSet
def Host.wbIntO (h : Host) : Bool := h.live.ctrl.wbIntO h.wbm.wbIntEnable

-- A completion the host has not cleared since. A clear pulse in the period of
-- the set itself is not a clear of that completion; a soft reset drops all.
def Host.notePending (h : Host) (pending : Bool) (i : HostIn) : Bool :=
  if h.wbm.sysRstReg then false
  else if h.wbIntSet i then true
  else if h.wbm.wbIntClear then false
  else pending

def Host.stepPending : Host × Bool → HostIn → Host × Bool := Clocked.watch Host.step Host.notePending

def PendingVisible (s : Host × Bool) : Prop :=
  s.1.wbm.sysRstReg = false → s.2 = true → s.1.wbm.wbIntEnable = true → s.1.wbIntO = true

instance (s : Host × Bool) : Decidable (PendingVisible s) := inferInstanceAs (Decidable (_ → _))

-- wb_int_next feeds the masked output back: the register keeps its value only
-- while the interrupt is enabled, and a set that meets a clear only when the
-- output is already high.
def IntFedBack (s : Host × Bool) (i : HostIn) : Prop :=
  (s.1.live.ctrl.wbIntReg = true → s.1.wbIntSet i = false → s.1.wbm.wbIntClear = false → s.1.wbm.wbIntEnable = true) ∧
  (s.1.wbIntSet i = true → s.1.wbm.wbIntClear = true → s.1.wbIntO = true)

instance (s : Host × Bool) (i : HostIn) : Decidable (IntFedBack s i) := inferInstanceAs (Decidable (_ ∧ _))

def PendingHeld (s : Host × Bool) : Prop := s.1.wbm.sysRstReg = false → s.2 = true → s.1.ctrl.wbIntReg = true

theorem pending_held_step (s : Host × Bool) (i : HostIn) (held : PendingHeld s) (fedBack : IntFedBack s i) :
    PendingHeld (Host.stepPending s i) := by
  intro _ pending
  obtain ⟨h, before⟩ := s
  change (h.notePending before i) = true at pending
  change (h.ctrl.step (h.ctrlIn i)).wbIntReg = true
  unfold Host.notePending at pending
  cases reset : h.wbm.sysRstReg with
  | true => simp [reset] at pending
  | false =>
      have running : (h.ctrlIn i).wbRst = false := reset
      have live : h.live.ctrl = h.ctrl := h.live_of_running reset
      obtain ⟨unmasked, again⟩ := fedBack
      simp only [Host.wbIntSet, Host.wbIntO, live] at unmasked again pending
      rw [Ctrl.step_running _ _ running]
      change h.ctrl.wbIntNext (h.ctrlIn i) (h.ctrl.comb (h.ctrlIn i)).wbIntSet = true
      have clearLine : (h.ctrlIn i).wbIntClear = h.wbm.wbIntClear := rfl
      have enableLine : (h.ctrlIn i).wbIntEnable = h.wbm.wbIntEnable := rfl
      unfold Ctrl.wbIntNext
      rw [clearLine, enableLine]
      cases set : (h.ctrl.comb (h.ctrlIn i)).wbIntSet with
      | true =>
          cases clear : h.wbm.wbIntClear with
          | true => exact again set clear
          | false => rfl
      | false =>
          cases clear : h.wbm.wbIntClear with
          | true => simp [reset, set, clear] at pending
          | false =>
              have still : before = true := by simpa [reset, set, clear] using pending
              have register : h.ctrl.wbIntReg = true := held reset still
              simp [Ctrl.wbIntO, register, unmasked register set clear]

def Host.Start (s : Host × Bool) : Prop := ∃ ndar ctrl, s = (Host.reset ndar ctrl, false)

theorem pending_visible_if_fed_back (s : Host × Bool)
    (reached : Clocked.Reachable Host.stepPending IntFedBack Host.Start s) : PendingVisible s := by
  have held : PendingHeld s := by
    apply Clocked.invariant_reachable Host.stepPending IntFedBack Host.Start PendingHeld _ pending_held_step s reached
    rintro _ ⟨ndar, ctrl, rfl⟩ _ absurdity
    exact absurd absurdity Bool.false_ne_true
  intro reset pending enabled
  have register := held reset pending
  simp [Host.wbIntO, Host.live, Ctrl.live, Ctrl.wbIntO, reset, register, enabled]

def interruptJob : List HostIn :=
  [ HostIn.idle.write 0xc 0x100, HostIn.idle.write 0x4 0x40000000, HostIn.idle.write 0x0 0x2, HostIn.idle,
    HostIn.idle.ack 0, HostIn.idle.ack 0x800, HostIn.idle.ack 0, HostIn.idle.ack 0, HostIn.idle, HostIn.idle.done ]

theorem interrupt_stays_visible :
    PendingVisible (Clocked.run Host.stepPending (Host.reset 0 default, false)
      (interruptJob ++ [HostIn.idle.write 0x0 0x2, HostIn.idle, HostIn.idle])) :=
  pending_visible_if_fed_back _ ⟨_, _, ⟨0, default, rfl⟩, by decide +kernel, rfl⟩

-- The host masks the interrupt for one period after the job and unmasks it.
theorem masking_discards_interrupt :
    ¬ PendingVisible (Clocked.run Host.stepPending (Host.reset 0 default, false)
      (interruptJob ++ [HostIn.idle.write 0x4 0, HostIn.idle, HostIn.idle.write 0x4 0x40000000])) := by
  decide +kernel

end SsAdma
