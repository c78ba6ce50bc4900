import SsAdma.Clocked
import SsAdma.Lane
import SsAdma.Masters

set_option autoImplicit false

namespace SsAdma

def laneOf (k : Fin 4) : Fin 2 := if k < 2 then 0 else 1
def srcOf (lane : Fin 2) : Fin 4 := if lane = 0 then 0 else 2
def dstOf (lane : Fin 2) : Fin 4 := if lane = 0 then 1 else 3

theorem laneOf_srcOf (lane : Fin 2) : laneOf (srcOf lane) = lane := by
  revert lane
  decide

theorem laneOf_dstOf (lane : Fin 2) : laneOf (dstOf lane) = lane := by
  revert lane
  decide

-- A period of the bus as the slave protocol allows it: no error, and an
-- acknowledge reaches only a master that holds its cycle line, without a retry.
structure Exclusive (m : Masters) (i : MastersIn) : Prop where
  running : i.wbRst = false
  noError : ∀ k, (i.bus k).err = false
  answered : ∀ k, (i.bus k).ack = true → (i.bus k).rty = false ∧ (m.masterBus i k).cyc = true

instance (m : Masters) (i : MastersIn) : Decidable (Exclusive m i) :=
  decidable_of_iff (i.wbRst = false ∧ (∀ k, (i.bus k).err = false) ∧
      ∀ k, (i.bus k).ack = true → (i.bus k).rty = false ∧ (m.masterBus i k).cyc = true)
    ⟨fun all => ⟨all.1, all.2.1, all.2.2⟩, fun exclusive => ⟨exclusive.running, exclusive.noError, exclusive.answered⟩⟩

theorem Exclusive.ctrl_answered {m : Masters} {i : MastersIn} (exclusive : Exclusive m i) :
    (m.ctrlIn i).wbsAck4 = true → (m.ctrlIn i).wbsRty4 = false ∧ (m.ctrlIn i).wbsErr4 = false :=
  fun ack => ⟨(exclusive.answered 4 ack).1, exclusive.noError 4⟩

theorem Exclusive.ctrl_acked {m : Masters} {i : MastersIn} (exclusive : Exclusive m i) :
    (m.ctrlIn i).acked = (i.bus 4).ack := (m.ctrlIn i).acked_eq exclusive.ctrl_answered

theorem Exclusive.ctrl_holds {m : Masters} {i : MastersIn} (exclusive : Exclusive m i) (ack : (i.bus 4).ack = true) :
    m.ctrl.wbsCyc4 = true := by
  have cyc := (exclusive.answered 4 ack).2
  simpa [Masters.masterBus, Masters.live, Ctrl.live, exclusive.running] using cyc

theorem ssWe_lane {m : Masters} {i : MastersIn} (exclusive : Exclusive m i) (k : Fin 4) :
    m.ssWe i k = m.ctrl.ssWe (m.ctrlIn i) (laneOf k) := by
  unfold Masters.ssWe laneOf Ctrl.ssWe Masters.live
  rw [exclusive.running, Ctrl.live_running]
  split <;> rfl

theorem ssDone_lane {m : Masters} {i : MastersIn} (exclusive : Exclusive m i) (k : Fin 4) :
    m.ssDone i k = m.ctrl.ssDone (laneOf k) := by
  unfold Masters.ssDone laneOf Ctrl.ssDone Masters.live
  rw [exclusive.running, Ctrl.live_running]
  split <;> rfl

def Stage.Fits (stage : Stage) (r : SsSg) : Prop :=
  match stage with
  | .free | .retiring => r.state = .sIdle
  | .loading => r.state = .sCmd
  | .running | .writing | .closing => True

theorem stage_fits_step (lane : Fin 2) (c : Ctrl) (i : CtrlIn) (before after : Stage) (moved : LaneStep lane c i before after)
    (rw : Bool) (r : SsSg) (e : SsSgIn) (running : e.wbRst = false) (write : e.ssWe = c.ssWe i lane)
    (done : e.ssDone = c.ssDone lane) (word : e.ssAdr = c.inc) (fits : before.Fits r) : after.Fits (r.step rw e) := by
  cases moved with
  | rest silent _ => exact r.step_idle rw e fits (write.trans silent)
  | opened writes notDone => exact r.step_command rw e running (done.trans notDone) (Or.inl ⟨fits, write.trans writes⟩)
  | stalled silent notDone =>
      refine r.step_command rw e running (done.trans notDone) (Or.inr ⟨fits, fun writes => ?_⟩)
      exact absurd ((write.trans silent).symm.trans writes) Bool.false_ne_true
  | loaded _ notDone _ notLast =>
      exact r.step_command rw e running (done.trans notDone) (Or.inr ⟨fits, fun _ => by rw [word]; exact notLast⟩)
  | dispatched | runs | reports | skips | writes | written | waits => trivial
  | closed _ closing => exact r.step_closed rw e (done.trans closing)
  | retired silent _ => exact r.step_idle rw e fits (write.trans silent)

structure Dispatch (m : Masters) : Prop where
  linked : m.ctrl.Linked
  bus : m.ctrl.CycScoped
  mode : m.ctrl.ModeScoped
  engines : ∀ k, (m.sg k).CycScoped
  fits : ∀ k, (m.ctrl.stage (laneOf k)).Fits (m.sg k)

theorem dispatch_lane {m : Masters} {i : MastersIn} (exclusive : Exclusive m i) (dispatch : Dispatch m) (lane : Fin 2) :
    LaneStep lane m.ctrl (m.ctrlIn i) (m.ctrl.stage lane) ((m.step i).ctrl.stage lane) :=
  lane_step lane m.ctrl (m.ctrlIn i) exclusive.running dispatch.linked exclusive.ctrl_answered

theorem dispatch_step (m : Masters) (i : MastersIn) (dispatch : Dispatch m) (exclusive : Exclusive m i) :
    Dispatch (m.step i) where
  linked := m.ctrl.step_linked (m.ctrlIn i) exclusive.running dispatch.linked
  bus := m.ctrl.step_cycScoped (m.ctrlIn i) exclusive.running dispatch.bus
  mode := m.ctrl.step_modeScoped (m.ctrlIn i) dispatch.mode
  engines k := (m.sg k).step_cycScoped (writer k) (m.sgIn i k) (dispatch.engines k)
  fits k := stage_fits_step (laneOf k) m.ctrl (m.ctrlIn i) _ _ (dispatch_lane exclusive dispatch (laneOf k)) (writer k)
    (m.sg k) (m.sgIn i k) exclusive.running (ssWe_lane exclusive k) (ssDone_lane exclusive k) rfl (dispatch.fits k)

theorem dispatch_reset (m : Masters) : Dispatch m.reset where
  linked cmd := by cases cmd
  bus := ⟨rfl, fun up => absurd up Bool.false_ne_true⟩
  mode on := absurd on Bool.false_ne_true
  engines _ := rfl
  fits k := by
    have free : m.reset.ctrl.stage (laneOf k) = .free := by
      unfold Ctrl.stage
      split <;> rfl
    rw [free]
    rfl

def AfterReset (m : Masters) : Prop := ∃ powerOn : Masters, m = powerOn.reset

theorem dispatch_reachable (m : Masters) (reached : Clocked.Reachable Masters.step Exclusive AfterReset m) : Dispatch m := by
  apply Clocked.invariant_reachable Masters.step Exclusive AfterReset Dispatch _ dispatch_step m reached
  rintro _ ⟨powerOn, rfl⟩
  exact dispatch_reset powerOn

end SsAdma
