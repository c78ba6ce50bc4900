import SsAdma.BusError

set_option autoImplicit false

namespace SsAdma

structure PanicNote where
  failed : Fin 4 → Bool
  stuck : Fin 4 → Bool

def PanicNote.clean : PanicNote where
  failed _ := false
  stuck _ := false

def Shared.closes (s : Shared) (i : SharedIn) (k : Fin 4) : Bool :=
  i.lines.wbRst || s.masters.ssDone (s.mastersIn i) k

def Shared.struck (s : Shared) (i : SharedIn) (k : Fin 4) : Bool :=
  (decide ((s.masters.sg k).state = .sDReq) || decide ((s.masters.sg k).state = .sBReq)) &&
    (s.masters.sgIn (s.mastersIn i) k).fails

def Shared.note (s : Shared) (n : PanicNote) (i : SharedIn) : PanicNote where
  failed k := !s.closes i k && (n.failed k || s.struck i k)
  stuck k := decide ((s.masters.sg k).state = .sPanic) && decide (((s.step i).masters.sg k).state = .sPanic)

def Shared.requests (s : Shared) (k : Fin 5) : Bool :=
  if h : k.val < 4 then (s.masters.sg ⟨k.val, h⟩).wbsCyc else s.masters.ctrl.wbsCyc4

def Shared.HeldAt (s : Shared) (k : Fin 4) : Prop :=
  s.bus.gnt.getLsbD k = true ∧ (∃ j, j ≠ k.castSucc ∧ s.requests j = true) ∧ arbiterNext s.bus.gnt s.requests = s.bus.gnt

def GivesBusBack (pair : Shared × PanicNote) : Prop :=
  ∀ k, pair.2.stuck k = true → (pair.1.masters.sg k).wbsCyc = false ∧ ¬ pair.1.HeldAt k

-- S_PANIC holds wbs_cyc and has no exit of its own: a failed engine leaves it
-- only by ss_done or reset, and one period is what the error needs to show.
def FailedAreClosed (pair : Shared × PanicNote) (i : SharedIn) : Prop :=
  ∀ k, pair.2.failed k = true → pair.1.closes i k = true

instance (pair : Shared × PanicNote) (i : SharedIn) : Decidable (FailedAreClosed pair i) :=
  inferInstanceAs (Decidable (∀ k, pair.2.failed k = true → pair.1.closes i k = true))

structure Shared.Noted (s : Shared) (n : PanicNote) : Prop where
  sound : s.Sound
  failed : ∀ k, n.failed k = true ↔ (s.masters.sg k).state = .sPanic

theorem Shared.reset_noted (m : Masters) : (Shared.reset m).Noted .clean where
  sound := m.reset_cycScoped
  failed k := iff_of_false Bool.false_ne_true (show SgState.sIdle ≠ .sPanic by decide)

theorem Shared.closed_idle (s : Shared) (i : SharedIn) (k : Fin 4) (closed : s.closes i k = true) :
    ((s.step i).masters.sg k).state = .sIdle := by
  have cleared : ((s.masters.sgIn (s.mastersIn i) k).wbRst || (s.masters.sgIn (s.mastersIn i) k).ssDone) = true := closed
  change ((s.masters.sg k).step (writer k) _).state = _
  unfold SsSg.step SsSg.latch
  rw [cleared]
  rfl

theorem Shared.step_panics (s : Shared) (i : SharedIn) (k : Fin 4) (notClosed : s.closes i k = false) :
    ((s.step i).masters.sg k).state = .sPanic ↔ (s.masters.sg k).state = .sPanic ∨ s.struck i k = true := by
  obtain ⟨running, notDone⟩ := Bool.or_eq_false_iff.mp notClosed
  change ((s.masters.sg k).step (writer k) (s.masters.sgIn (s.mastersIn i) k)).state = _ ↔ _
  unfold Shared.struck
  by_cases waiting : (s.masters.sg k).state = .sDReq ∨ (s.masters.sg k).state = .sBReq
  · rw [SsSg.panics_iff (writer k) _ _ running notDone waiting]
    rcases waiting with state | state <;> simp [state]
  · obtain ⟨notDesc, notBuffer⟩ := not_or.mp waiting
    simp only [notDesc, notBuffer, decide_false, Bool.or_self, Bool.false_and, Bool.false_eq_true, or_false]
    constructor
    · intro panics
      exact ((SsSg.panic_from (writer k) _ _ running panics).resolve_left notDesc).resolve_left notBuffer
    · intro stopped
      exact (SsSg.panic_stays (writer k) _ _ running notDone stopped).1.trans stopped

theorem Shared.Noted.step (s : Shared) (n : PanicNote) (noted : s.Noted n) (i : SharedIn) :
    (s.step i).Noted (s.note n i) where
  sound := s.step_sound i noted.sound
  failed := by
    intro k
    unfold note
    cases closed : s.closes i k with
    | true => simp [s.closed_idle i k closed, closed]
    | false => simp [s.step_panics i k closed, closed, noted.failed k]

theorem Shared.Noted.gives_back_iff (s : Shared) (n : PanicNote) (noted : s.Noted n) (i : SharedIn) :
    GivesBusBack (s.step i, s.note n i) ↔ FailedAreClosed (s, n) i := by
  constructor
  · intro back k failed
    have stopped := (noted.failed k).mp failed
    cases closed : s.closes i k with
    | true => rfl
    | false =>
        have still := (s.step_panics i k closed).mpr (.inl stopped)
        have down := (back k (by simp [note, stopped, still])).1
        have up := (noted.step s n i).sound k
        simp [SsSg.CycScoped, still] at up
        exact absurd (up.symm.trans down) (by decide)
  · intro closed k stuck
    obtain ⟨before, after⟩ : (s.masters.sg k).state = .sPanic ∧ ((s.step i).masters.sg k).state = .sPanic := by
      simpa [note] using stuck
    have idle := s.closed_idle i k (closed k ((noted.failed k).mpr before))
    exact absurd (idle.symm.trans after) (by decide)

theorem gives_bus_back_iff (m : Masters) (inputs : List SharedIn) :
    Clocked.Always (Clocked.watch Shared.step Shared.note) GivesBusBack (Shared.reset m, .clean) inputs ↔
      Clocked.Admits (Clocked.watch Shared.step Shared.note) FailedAreClosed (Shared.reset m, .clean) inputs :=
  Clocked.always_iff_admits _ FailedAreClosed GivesBusBack (fun pair => pair.1.Noted pair.2)
    (fun pair i noted _ => noted.step pair.1 pair.2 i)
    (fun pair i noted _ => noted.gives_back_iff pair.1 pair.2 i)
    (Shared.reset m, .clean) inputs (Shared.reset_noted m)
    (by simp [GivesBusBack, PanicNote.clean])

-- A copy job whose first descriptor read fails: two periods later the source
-- engine still asks for the bus, and the arbiter stays at it.
theorem panicked_engine_holds_bus :
    ¬ Clocked.Always (Clocked.watch Shared.step Shared.note) GivesBusBack
      (Shared.reset ⟨fun _ => default, default⟩, .clean)
      [⟨slaveWaits.slave, .start 0⟩, slaveWaits, slaveWaits, slaveAcks 0, slaveAcks 0x16, slaveAcks 0, slaveAcks 0,
        slaveWaits, slaveWaits, slaveWaits, slaveFails, slaveWaits] := by
  intro back
  have last := Clocked.always_last _ GivesBusBack _ _ back 0 (by decide +kernel)
  exact absurd last.1 (by decide +kernel)

end SsAdma
