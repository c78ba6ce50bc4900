import Mathlib.Tactic.ByContra
import SsAdma.Clocked
import SsAdma.HostStep

set_option autoImplicit false

namespace SsAdma

structure NdarWatch where
  burst : Option (BitVec 29 × BitVec 2)
  written : Option (BitVec 29)
deriving DecidableEq, Repr

def Host.ndarWe (h : Host) (i : HostIn) : Bool := h.wbm.ndarWe (h.wbmIn i)
def Host.acked (h : Host) (i : HostIn) : Bool := (h.ctrlIn i).acked

def Host.consumesNdar (h : Host) (i : HostIn) : Bool :=
  h.wbm.ndarDirty && h.live.ctrl.ndarDirtyClear && !h.ndarWe i

def Host.ndarBurst (h : Host) (g : NdarWatch) (i : HostIn) : Option (BitVec 29 × BitVec 2) :=
  if h.wbm.sysRstReg then none else if h.consumesNdar i then some (h.wbm.ndar, 0) else g.burst

def Host.noteNdar (h : Host) (g : NdarWatch) (i : HostIn) : NdarWatch where
  burst :=
    match h.ndarBurst g i with
    | none => none
    | some (base, words) =>
        if !h.acked i then some (base, words) else if words = 3 then none else some (base, words + 1)
  written :=
    if !h.live.ctrl.busy then none
    else if h.ndarWe i then some (i.wbsDatI.extractLsb' 3 29)
    else g.written

def Host.stepNdar : Host × NdarWatch → HostIn → Host × NdarWatch := Clocked.watch Host.step Host.noteNdar

structure DispatchesNdar (h : Host) (base : BitVec 29) (words : BitVec 2) (i : HostIn) : Prop where
  state : h.live.ctrl.state = .sCmd0
  cycle : h.live.ctrl.wbsCyc4 = true
  reads : h.live.ctrl.wbsWe4 = false
  address : h.live.ctrl.wbsAdr4R = base + words.setWidth 29
  word : h.live.ctrl.inc = words
  dispatch : h.live.ctrl.ssWe0 (h.ctrlIn i) = i.wbsAck4

structure NdarServed (s : Host × NdarWatch) (i : HostIn) : Prop where
  dispatched : ∀ base words, s.1.ndarBurst s.2 i = some (base, words) → DispatchesNdar s.1 base words i
  stillPending : ∀ value, s.2.written = some value → s.1.wbm.ndarDirty = true ∧ s.1.wbm.ndar = value

-- The append test of S_IDLE is not an else of the NDAR test.
def NdarAlone (s : Host × NdarWatch) (_ : HostIn) : Prop :=
  s.1.wbm.sysRstReg = false → s.1.live.ctrl.state = .sIdle → s.1.wbm.enable = true → s.1.wbm.ndarDirty = true →
    s.1.wbm.append = false

instance (s : Host × NdarWatch) (i : HostIn) : Decidable (NdarAlone s i) := inferInstanceAs (Decidable (_ → _))

structure BurstAt (h : Host) (base : BitVec 29) (words : BitVec 2) : Prop where
  state : h.ctrl.state = .sCmd0
  cycle : h.ctrl.wbsCyc4 = true
  reads : h.ctrl.wbsWe4 = false
  address : h.ctrl.wbsAdr4R = base + words.setWidth 29
  word : h.ctrl.inc = words
  dispatch : h.ctrl.appendMode = false

structure NdarInv (s : Host × NdarWatch) : Prop where
  burst : s.1.wbm.sysRstReg = false → ∀ base words, s.2.burst = some (base, words) → BurstAt s.1 base words
  clearing : s.1.live.ctrl.ndarDirtyClear = true → BurstAt s.1 s.1.wbm.ndar 0
  written : ∀ value, s.2.written = some value →
    s.1.wbm.ndarDirty = true ∧ s.1.wbm.ndar = value ∧ s.1.live.ctrl.ndarDirtyClear = false
  mode : s.1.ctrl.ModeScoped

theorem ndarBurst_at (s : Host × NdarWatch) (i : HostIn) (inv : NdarInv s) (base : BitVec 29) (words : BitVec 2)
    (under : s.1.ndarBurst s.2 i = some (base, words)) : s.1.wbm.sysRstReg = false ∧ BurstAt s.1 base words := by
  unfold Host.ndarBurst at under
  cases reset : s.1.wbm.sysRstReg with
  | true => simp [reset] at under
  | false =>
      refine ⟨rfl, ?_⟩
      by_cases consumes : s.1.consumesNdar i = true
      · obtain ⟨rfl, rfl⟩ : s.1.wbm.ndar = base ∧ 0 = words := by simpa [reset, consumes] using under
        have clear : s.1.live.ctrl.ndarDirtyClear = true := by
          simp only [Host.consumesNdar, Bool.and_eq_true] at consumes
          exact consumes.1.2
        exact inv.clearing clear
      · exact inv.burst reset base words (by simpa [reset, consumes] using under)

theorem word_offset_succ : ∀ words : BitVec 2, words ≠ 3 → (words + 1).setWidth 29 = words.setWidth 29 + (1 : BitVec 29) := by
  decide

theorem burst_at_step (h : Host) (i : HostIn) (base : BitVec 29) (words : BitVec 2) (running : h.wbm.sysRstReg = false)
    (at_ : BurstAt h base words) (more : (h.acked i && words == 3) = false) :
    BurstAt (h.step i) base (if h.acked i then words + 1 else words) := by
  obtain ⟨state, cycle, reads, address, word, dispatch⟩ := Ctrl.step_burst h.ctrl (h.ctrlIn i) .sNext0 running
    (at_.state ▸ .cmd0)
  have last : h.ctrl.lastWord (h.ctrlIn i) = false := by
    unfold Ctrl.lastWord
    rw [at_.word]
    exact more
  rw [last] at state cycle
  refine ⟨state.trans at_.state, cycle.trans at_.cycle, reads.trans at_.reads, ?_, ?_, ?_⟩
  · refine address.trans ?_
    rw [at_.address]
    change (if h.acked i then _ else _) = _
    cases acked : h.acked i with
    | false => rfl
    | true =>
        -- the count has not wrapped
        have small : words ≠ 3 := by simpa [acked] using more
        rw [if_pos rfl, if_pos rfl, word_offset_succ words small, BitVec.add_assoc]
  · refine word.trans ?_
    rw [at_.word]
    rfl
  · exact dispatch.1.trans at_.dispatch

theorem ndar_clear_from (h : Host) (i : HostIn) (pulse : (h.step i).live.ctrl.ndarDirtyClear = true) :
    h.wbm.sysRstReg = false ∧ h.ctrl.state = .sIdle ∧ h.wbm.enable = true ∧ h.wbm.ndarDirty = true := by
  obtain ⟨running, issued⟩ := Host.shown_by_step (fun c => c.ndarDirtyClear = true) (fun _ => Bool.false_ne_true) h i pulse
  change (h.ctrl.comb (h.ctrlIn i)).ndarDirtyClearN = true at issued
  rw [Ctrl.comb_ndarDirtyClearN] at issued
  simp only [Bool.and_eq_true, beq_iff_eq] at issued
  exact ⟨running, issued.1.1, issued.1.2, issued.2⟩

theorem idle_starts_burst (h : Host) (i : HostIn) (running : h.wbm.sysRstReg = false) (idle : h.ctrl.state = .sIdle)
    (enable : h.wbm.enable = true) (dirty : h.wbm.ndarDirty = true) (alone : h.wbm.append = false)
    (mode : h.ctrl.appendMode = false) : BurstAt (h.step i) (h.step i).wbm.ndar 0 := by
  have keeps : (h.step i).wbm.ndar = h.wbm.ndar := by
    change (if h.wbm.ndarWe (h.wbmIn i) then _ else _) = _
    simp [Wbm.ndarWe, enable]
  have opened : h.ctrl.comb (h.ctrlIn i) =
      { h.ctrl.hold.burst h.wbm.ndar false .sCmd0 with ndarDirtyClearN := true } := by
    simp [Ctrl.comb, idle, Host.ctrlIn, enable, dirty, alone]
  have stepped : (h.step i).ctrl = h.ctrl.latch (h.ctrlIn i) (h.ctrl.comb (h.ctrlIn i)) :=
    Ctrl.step_running _ _ running
  rw [opened] at stepped
  rw [keeps]
  constructor <;> rw [stepped]
  · rfl
  · rfl
  · rfl
  · change h.wbm.ndar = h.wbm.ndar + 0
    exact (BitVec.add_zero _).symm
  · rfl
  · exact mode

theorem ndar_inv_step (s : Host × NdarWatch) (i : HostIn) (inv : NdarInv s) (alone : NdarAlone s i) :
    NdarInv (Host.stepNdar s i) := by
  obtain ⟨h, g⟩ := s
  refine ⟨?_, ?_, ?_, Ctrl.step_modeScoped _ _ inv.mode⟩
  · intro _ base words under
    change (h.noteNdar g i).burst = some (base, words) at under
    cases current : h.ndarBurst g i with
    | none => simp [Host.noteNdar, current] at under
    | some request =>
        obtain ⟨was, count⟩ := request
        obtain ⟨running, at_⟩ := ndarBurst_at (h, g) i inv was count current
        have more : (h.acked i && count == 3) = false := by
          by_contra last
          simp only [Bool.not_eq_false, Bool.and_eq_true, beq_iff_eq] at last
          simp [Host.noteNdar, current, last.1, last.2] at under
        obtain ⟨rfl, rfl⟩ : was = base ∧ (if h.acked i then count + 1 else count) = words := by
          cases acked : h.acked i with
          | false => simpa [Host.noteNdar, current, acked] using under
          | true =>
              have counted : ¬count = 3 ∧ was = base ∧ count + 1 = words := by
                simpa [Host.noteNdar, current, acked] using under
              exact counted.2
        exact burst_at_step h i was count running at_ more
  · intro pulse
    obtain ⟨running, idle, enable, dirty⟩ := ndar_clear_from h i pulse
    have live : h.live.ctrl = h.ctrl := h.live_of_running running
    have mode : h.ctrl.appendMode = false := h.ctrl.mode_outside inv.mode (by simp [idle]) (by simp [idle])
    exact idle_starts_burst h i running idle enable dirty (alone running (by rw [live]; exact idle) enable dirty) mode
  · intro value held
    change (h.noteNdar g i).written = some value at held
    have busy : h.live.ctrl.busy = true := by
      by_contra idle
      simp [Host.noteNdar, idle] at held
    have quiet : (h.step i).live.ctrl.ndarDirtyClear = false := by
      by_contra pulse
      obtain ⟨running, idle, _⟩ := ndar_clear_from h i (by simpa using pulse)
      rw [h.live_of_running running] at busy
      simp [Ctrl.busy, idle] at busy
    refine ⟨?_, ?_, quiet⟩
    · change (if h.ndarWe i then true else if h.live.ctrl.ndarDirtyClear then false else h.wbm.ndarDirty) = true
      cases writes : h.ndarWe i with
      | true => rfl
      | false =>
          obtain ⟨dirty, _, still⟩ := inv.written value (by simpa [Host.noteNdar, busy, writes] using held)
          rw [still]
          exact dirty
    · change (if h.ndarWe i then i.wbsDatI.extractLsb' 3 29 else h.wbm.ndar) = value
      cases writes : h.ndarWe i with
      | true => simpa [Host.noteNdar, busy, writes] using held
      | false => exact (inv.written value (by simpa [Host.noteNdar, busy, writes] using held)).2.1

theorem ndar_served_here (s : Host × NdarWatch) (i : HostIn) (inv : NdarInv s) : NdarServed s i where
  dispatched := by
    intro base words under
    obtain ⟨running, at_⟩ := ndarBurst_at s i inv base words under
    have live : s.1.live.ctrl = s.1.ctrl := s.1.live_of_running running
    constructor <;> rw [live]
    · exact at_.state
    · exact at_.cycle
    · exact at_.reads
    · exact at_.address
    · exact at_.word
    · simp [Ctrl.ssWe0, at_.state, at_.dispatch, Host.ctrlIn]
  stillPending value held := ⟨(inv.written value held).1, (inv.written value held).2.1⟩

theorem ndar_inv_start (ndar : BitVec 29) (ctrl : Ctrl) : NdarInv (Host.reset ndar ctrl, ⟨none, none⟩) where
  burst _ _ _ absurdity := by cases absurdity
  clearing absurdity := by cases absurdity
  written _ absurdity := by cases absurdity
  mode absurdity := by cases absurdity

theorem start_requests_served (ndar : BitVec 29) (ctrl : Ctrl) (inputs : List HostIn)
    (alone : Clocked.Admits Host.stepNdar NdarAlone (Host.reset ndar ctrl, ⟨none, none⟩) inputs) :
    Clocked.Admits Host.stepNdar NdarServed (Host.reset ndar ctrl, ⟨none, none⟩) inputs :=
  Clocked.admits_of_invariant Host.stepNdar NdarAlone NdarServed NdarInv ndar_inv_step
    (fun s i inv _ => ndar_served_here s i inv) _ inputs (ndar_inv_start ndar ctrl) alone

theorem one_start_request_served :
    Clocked.Admits Host.stepNdar NdarServed (Host.reset 0 default, ⟨none, none⟩)
      [ HostIn.idle.write 0xc 0x100, HostIn.idle.write 0x0 0x2, HostIn.idle, HostIn.idle.write 0x0 0x0,
        (HostIn.idle.ack 0x300).write 0xc 0x400, HostIn.idle.ack 0, HostIn.idle.ack 0, HostIn.idle.ack 0, HostIn.idle ] :=
  start_requests_served 0 default _ (by decide +kernel)

-- NDAR and append are pending together: the burst of the consumed request is
-- at DAR, and in append mode.
theorem append_overrides_start_request :
    ¬ Clocked.Admits Host.stepNdar NdarServed (Host.reset 0 default, ⟨none, none⟩)
      [HostIn.idle.write 0xc 0x100, HostIn.idle.write 0x0 0x3, HostIn.idle, HostIn.idle] := by
  rintro ⟨_, _, _, served, _⟩
  have address := (served.dispatched 0x20 0 (by decide +kernel)).address
  exact absurd address (by decide +kernel)

end SsAdma
