import SsAdma.Clocked
import SsAdma.Masters

set_option autoImplicit false

namespace SsAdma

structure Shared where
  masters : Masters
  bus : Bus

structure SharedIn where
  slave : SlaveBus
  lines : MastersIn

def Shared.mastersIn (s : Shared) (i : SharedIn) : MastersIn :=
  { i.lines with bus := fun k => s.bus.toMaster i.slave k }

def Shared.toSlave (s : Shared) (i : SharedIn) : MasterBus := s.bus.toSlave (s.masters.masterBus (s.mastersIn i))

def Shared.step (s : Shared) (i : SharedIn) : Shared where
  masters := s.masters.step (s.mastersIn i)
  bus := s.bus.step (fun k => (s.masters.masterBus (s.mastersIn i) k).cyc)

def Shared.reset (m : Masters) : Shared where
  masters := m.reset
  bus := Bus.reset

def Shared.fails (s : Shared) (i : SharedIn) : Bool :=
  i.slave.err && !i.slave.ack && !i.slave.rty && (s.toSlave i).cyc

def Shared.bystander (s : Shared) (i : SharedIn) (k : Fin 4) : Bool :=
  !s.bus.gntR[k.castSucc] && !s.masters.ssDone (s.mastersIn i) k

def SsSg.SameJob (before after : SsSg) : Prop :=
  after.state = before.state ∧ after.err = before.err ∧ after.cnt = before.cnt ∧ after.io = before.io ∧
  after.sgLast = before.sgLast ∧ after.sgLen = before.sgLen ∧ after.sgAddr = before.sgAddr ∧
  after.sgNext = before.sgNext ∧ after.wbsAdrR = before.wbsAdrR

def Shared.ErrorContained (s : Shared) (i : SharedIn) : Prop :=
  s.fails i = true → ∀ k, s.bystander i k = true →
    let before := (s.masters.live i.lines.wbRst).sg k
    let after := (s.step i).masters.sg k
    (before.wbsCyc = true → before.SameJob after) ∧ (after.state = .sPanic → before.state = .sPanic)

-- mixer.v hands wbm_err_i to all five masters, whoever holds the grant.
def Shared.NoneWaiting (s : Shared) (i : SharedIn) : Prop :=
  s.fails i = true → ∀ k, s.bystander i k = true →
    ((s.masters.live i.lines.wbRst).sg k).state ≠ .sDReq ∧ ((s.masters.live i.lines.wbRst).sg k).state ≠ .sBReq

theorem SsSg.panics_iff (rw : Bool) (r : SsSg) (i : SsSgIn) (running : i.wbRst = false) (notDone : i.ssDone = false)
    (waiting : r.state = .sDReq ∨ r.state = .sBReq) : (r.step rw i).state = .sPanic ↔ i.fails = true := by
  rw [step_running rw r i running]
  change (if i.wbRst || i.ssDone then SgState.sIdle else (r.comb rw i).stateN) = .sPanic ↔ _
  rw [running, notDone]
  unfold SsSgIn.fails comb hold
  rcases waiting with state | state
  · rw [state]
    cases i.wbsAck <;> cases i.wbsRty <;> cases i.wbsErr <;> cases r.cnt <;> simp
  · rw [state]
    cases i.wbsAck <;> cases i.wbsRty <;> cases i.wbsErr <;> cases r.io <;> simp <;> split_ifs <;> simp

theorem SsSg.panic_stays (rw : Bool) (r : SsSg) (i : SsSgIn) (running : i.wbRst = false) (notDone : i.ssDone = false)
    (stopped : r.state = .sPanic) : r.SameJob (r.step rw i) := by
  rw [step_running rw r i running]
  simp [SameJob, latch, comb, hold, running, notDone, stopped]

theorem SsSg.panic_from (rw : Bool) (r : SsSg) (i : SsSgIn) (running : i.wbRst = false)
    (panics : (r.step rw i).state = .sPanic) : r.state = .sDReq ∨ r.state = .sBReq ∨ r.state = .sPanic := by
  rw [step_running rw r i running] at panics
  change (if i.wbRst || i.ssDone then SgState.sIdle else (r.comb rw i).stateN) = .sPanic at panics
  cases closed : i.wbRst || i.ssDone with
  | true => simp [closed] at panics
  | false =>
      have entered : (r.comb rw i).stateN = .sPanic := by simpa [closed] using panics
      cases state : r.state with
      | sDReq => exact Or.inl rfl
      | sBReq => exact Or.inr (Or.inl rfl)
      | sPanic => exact Or.inr (Or.inr rfl)
      | sIdle =>
          simp only [comb, state] at entered
          split at entered <;> cases entered
      | sCmd =>
          simp only [comb, state, hold] at entered
          split at entered
          · split at entered
            · split at entered <;> cases entered
            · split at entered
              · split at entered
                · cases entered
                · split at entered <;> cases entered
              · cases entered
          · cases entered
      | sBWait =>
          simp only [comb, state, hold] at entered
          split at entered
          · cases entered
          · split at entered <;> cases entered
      | sNext =>
          simp only [comb, state, hold] at entered
          split at entered <;> cases entered
      | sEnd =>
          simp only [comb, state, hold] at entered
          split at entered <;> cases entered

def Shared.Sound (s : Shared) : Prop := s.masters.CycScoped

theorem Shared.step_sound (s : Shared) (i : SharedIn) (sound : s.Sound) : (s.step i).Sound :=
  s.masters.step_cycScoped _ sound

theorem Shared.bystander_running (s : Shared) (i : SharedIn) (k : Fin 4) (bystander : s.bystander i k = true) :
    s.masters.ssDone (s.mastersIn i) k = false := by
  simp only [Shared.bystander, Bool.and_eq_true, Bool.not_eq_true'] at bystander
  exact bystander.2

theorem Shared.error_contained_iff (s : Shared) (sound : s.Sound) (i : SharedIn) :
    s.ErrorContained i ↔ s.NoneWaiting i := by
  refine imp_congr_right fun fails => forall_congr' fun k => imp_congr_right fun bystander => ?_
  have notDone : (s.masters.sgIn (s.mastersIn i) k).ssDone = false := s.bystander_running i k bystander
  have failed : i.slave.err = true ∧ i.slave.ack = false ∧ i.slave.rty = false := by
    simp only [Shared.fails, Bool.and_eq_true, Bool.not_eq_true'] at fails
    exact ⟨fails.1.1.1, fails.1.1.2, fails.1.2⟩
  cases reset : i.lines.wbRst with
  | true =>
      -- in reset every engine shows S_IDLE and no request
      have idle : ((s.step i).masters.sg k).state = .sIdle := by
        have resetIn : (s.masters.sgIn (s.mastersIn i) k).wbRst = true := reset
        simp [Shared.step, Masters.step, SsSg.step, SsSg.latch, resetIn]
      refine iff_of_true ⟨?_, ?_⟩ ⟨?_, ?_⟩
      · exact fun up => absurd up Bool.false_ne_true
      · exact fun panics => absurd (idle.symm.trans panics) (by decide)
      · exact fun desc => absurd (show SgState.sIdle = .sDReq from desc) (by decide)
      · exact fun buffer => absurd (show SgState.sIdle = .sBReq from buffer) (by decide)
  | false =>
      have running : (s.masters.sgIn (s.mastersIn i) k).wbRst = false := reset
      have answered : (s.masters.sgIn (s.mastersIn i) k).fails = true := by
        change (i.slave.err && !mi s.bus.gnt i.slave.ack k.castSucc && !i.slave.rty) = true
        simp [mi, failed]
      change ((s.masters.sg k).wbsCyc = true → (s.masters.sg k).SameJob ((s.masters.sg k).step (writer k) _)) ∧
        (((s.masters.sg k).step (writer k) _).state = .sPanic → (s.masters.sg k).state = .sPanic) ↔
        (s.masters.sg k).state ≠ .sDReq ∧ (s.masters.sg k).state ≠ .sBReq
      constructor
      · rintro ⟨_, contained⟩
        refine not_or.mp fun waiting => ?_
        have stopped := contained ((SsSg.panics_iff (writer k) _ _ running notDone waiting).mpr answered)
        rcases waiting with desc | buffer
        · exact absurd (desc.symm.trans stopped) (by decide)
        · exact absurd (buffer.symm.trans stopped) (by decide)
      · rintro ⟨notDesc, notBuffer⟩
        refine ⟨fun up => ?_, fun panics => ?_⟩
        · have requesting := (sound k).symm.trans up
          have stopped : (s.masters.sg k).state = .sPanic := by simpa [notDesc, notBuffer] using requesting
          exact SsSg.panic_stays (writer k) _ _ running notDone stopped
        · exact ((SsSg.panic_from (writer k) _ _ running panics).resolve_left notDesc).resolve_left notBuffer

theorem errors_contained_iff (m : Masters) (inputs : List SharedIn) :
    Clocked.Admits Shared.step Shared.ErrorContained (Shared.reset m) inputs ↔
      Clocked.Admits Shared.step Shared.NoneWaiting (Shared.reset m) inputs :=
  Clocked.admits_congr Shared.step Shared.ErrorContained Shared.NoneWaiting Shared.Sound Shared.step_sound
    Shared.error_contained_iff (Shared.reset m) inputs m.reset_cycScoped

def slaveWaits : SharedIn := ⟨⟨false, false, false, 0, 0⟩, .quiet⟩
def slaveAcks (dat : BitVec 32) : SharedIn := ⟨⟨true, false, false, dat, 0⟩, .quiet⟩
def slaveFails : SharedIn := ⟨⟨false, true, false, 0, 0⟩, .quiet⟩

-- A copy job: the error of the source engine's descriptor read, its first bus
-- cycle, reaches the destination engine, which is still waiting for its own.
theorem error_reaches_waiting_engine :
    ¬ Clocked.Admits Shared.step Shared.ErrorContained (Shared.reset ⟨fun _ => default, default⟩)
      ([⟨slaveWaits.slave, .start 0⟩, slaveWaits, slaveWaits, slaveAcks 0, slaveAcks 0x16, slaveAcks 0, slaveAcks 0,
        slaveWaits, slaveWaits, slaveWaits] ++ [slaveFails]) := by
  intro contained
  have failing := ((Clocked.admits_append Shared.step Shared.ErrorContained _ _ _).mp contained).2.1
  have stopped := (failing (by decide +kernel) 1 (by decide +kernel)).2 (by decide +kernel)
  exact absurd stopped (by decide +kernel)

end SsAdma
