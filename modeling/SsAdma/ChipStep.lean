import SsAdma.ChipJob

set_option autoImplicit false

namespace SsAdma

section

variable {plan : BitVec 29 → CopyPlan} {s : Chip} {notes : Fin 2 → Option CopyNote} {i : SharedIn} {lane : Fin 2}

theorem Chip.note_silent (silent : s.gives i lane = false) (stage : s.ctrl.stage lane ≠ .retiring) :
    s.note notes i lane = notes lane := by simp [note, silent, stage]

theorem Chip.note_more {n : CopyNote} (gives : s.gives i lane = true) (later : s.ctrl.inc ≠ 0#2) (noted : notes lane = some n) :
    s.note notes i lane = some { n with loaded := n.loaded + 1 } := by simp [note, gives, later, noted]

theorem LaneHolds.free_step (holds : ChipHolds plan (s, notes)) (period : ChipPeriod plan (s, notes) i)
    (stage : s.ctrl.stage lane = .free) (closed : (s.chan lane).Closed) (noted : notes lane = none) :
    LaneHolds plan (s.step i) lane (s.note notes i lane) := by
  have moved : LaneStep lane s.ctrl (s.masters.ctrlIn (s.mastersIn i)) (s.ctrl.stage lane) ((s.step i).ctrl.stage lane) :=
    dispatch_lane (Chip.exclusive holds.granted period.fair) holds.dispatch lane
  generalize after : (s.step i).ctrl.stage lane = stageN at moved
  rw [stage] at moved
  cases moved with
  | rest silent _ =>
      rw [Chip.note_silent silent (by rw [stage]; decide), noted]
      exact .free after (Chip.free_step holds.granted period.fair closed silent)
  | opened gives _ first _ status =>
      have noteN : s.note notes i lane = some ⟨s.ctrl.wbsAdr4R, 1, s.mem⟩ := by
        simp only [Chip.note, show s.gives i lane = true from gives, first, if_true]
      rw [noteN]
      exact .working _ (by rw [after]; rfl) (Chip.opened_step holds period stage closed gives first after status)

theorem LaneHolds.working_step {n : CopyNote} (holds : ChipHolds plan (s, notes)) (period : ChipPeriod plan (s, notes) i)
    (busy : (s.ctrl.stage lane).working = true) (works : Working (plan n.desc) s lane n) (noted : notes lane = some n) :
    LaneHolds plan (s.step i) lane (s.note notes i lane) := by
  have exclusive : Exclusive s.masters (s.mastersIn i) := Chip.exclusive holds.granted period.fair
  have moved : LaneStep lane s.ctrl (s.masters.ctrlIn (s.mastersIn i)) (s.ctrl.stage lane) ((s.step i).ctrl.stage lane) :=
    dispatch_lane exclusive holds.dispatch lane
  have quiet (silent : s.gives i lane = false) : s.note notes i lane = some n := by
    rw [Chip.note_silent silent (Stage.working_cases busy).2, noted]
  have next (goesOn : (s.step i).ctrl.stage lane ≠ .closing) := works.step holds period noted busy goesOn
  generalize after : (s.step i).ctrl.stage lane = stageN at moved next
  generalize before : s.ctrl.stage lane = stage at moved busy next
  cases moved with
  | rest | opened | waits | closed | retired => simp [Stage.working] at busy
  | stalled silent _ _ _ same =>
      have still : (s.step i).ctrl.wbsAdr4R = s.ctrl.wbsAdr4R := by
        obtain ⟨counting, write⟩ := Ctrl.loading_burst before
        have address := (s.ctrl.step_burst (s.masters.ctrlIn (s.mastersIn i)) _ exclusive.running counting).2.2.2.1
        rw [CtrlIn.acked_eq _ exclusive.ctrl_answered, ← write, silent] at address
        exact address
      rw [quiet silent]
      have works' := next (by decide) same.1 (fun _ => ⟨rfl, by rw [show s.gives i lane = false from silent]; exact still⟩) (by simp)
      rw [show s.gives i lane = false from silent] at works'
      exact .working _ (by rw [after]; rfl) works'
  | loaded gives _ later _ _ status _ =>
      have steps : (s.step i).ctrl.wbsAdr4R = s.ctrl.wbsAdr4R + 1 := by
        obtain ⟨counting, write⟩ := Ctrl.loading_burst before
        have address := (s.ctrl.step_burst (s.masters.ctrlIn (s.mastersIn i)) _ exclusive.running counting).2.2.2.1
        rw [CtrlIn.acked_eq _ exclusive.ctrl_answered, ← write, gives] at address
        exact address
      rw [Chip.note_more gives later noted]
      have works' := next (by decide) status (fun _ => ⟨rfl, by rw [show s.gives i lane = true from gives]; exact steps⟩) (by simp)
      rw [show s.gives i lane = true from gives] at works'
      exact .working _ (by rw [after]; rfl) works'
  | dispatched gives _ last same =>
      rw [Chip.note_more gives (by rw [last]; decide) noted]
      have works' := next (by decide) same.1 (by simp) (by simp)
      rw [show s.gives i lane = true from gives] at works'
      exact .working _ (by rw [after]; rfl) works'
  | runs silent _ same =>
      rw [quiet silent]
      have works' := next (by decide) same.1 (by simp) (by simp)
      rw [show s.gives i lane = false from silent] at works'
      exact .working _ (by rw [after]; rfl) works'
  | reports silent _ done _ incN address same =>
      have stands := works.ended holds period.fair (works.done_ended done)
      rw [quiet silent]
      have works' := next (by decide) same.1 (by simp)
        (fun _ => ⟨stands, by rw [show (s.step i).ctrl.inc = 0#2 from incN]; exact address.trans (works.status.trans (by simp))⟩)
      rw [show s.gives i lane = false from silent] at works'
      exact .working _ (by rw [after]; rfl) works'
  | writes silent _ notLast incN address same =>
      obtain ⟨ended, here⟩ := works.writing before
      have stands := works.ended holds period.fair ended
      rw [quiet silent]
      have works' := next (by decide) same.1 (by simp) (fun _ => ⟨stands, ?_⟩)
      · rw [show s.gives i lane = false from silent] at works'
        exact .working _ (by rw [after]; rfl) works'
      · rw [show (s.step i).ctrl.inc = _ from incN, show (s.step i).ctrl.wbsAdr4R = _ from address, here]
        split
        · rename_i acked
          exact (BitVec.add_assoc _ _ 1#29).trans (congrArg _ (status_word _ (notLast acked)))
        · rfl
  | skips silent _ _ same =>
      have done := Ctrl.closing_done exclusive.running before after
      obtain ⟨landed, src, dst⟩ := works.closing_step holds period noted (by rw [before]; rfl) (works.done_ended done)
      rw [quiet silent]
      exact .closing _ after landed src dst
  | written silent =>
      obtain ⟨landed, src, dst⟩ := works.closing_step holds period noted (by rw [before]; rfl) (works.writing before).1
      rw [quiet silent]
      exact .closing _ after landed src dst

theorem LaneHolds.closing_step {n : CopyNote} (holds : ChipHolds plan (s, notes)) (period : ChipPeriod plan (s, notes) i)
    (stage : s.ctrl.stage lane = .closing) (landed : (plan n.desc).Landed n.mem s.mem)
    (quiet : (s.masters.sg (dstOf lane)).Quiet) (noted : notes lane = some n) :
    LaneHolds plan (s.step i) lane (s.note notes i lane) := by
  have exclusive : Exclusive s.masters (s.mastersIn i) := Chip.exclusive holds.granted period.fair
  have moved : LaneStep lane s.ctrl (s.masters.ctrlIn (s.mastersIn i)) (s.ctrl.stage lane) ((s.step i).ctrl.stage lane) :=
    dispatch_lane exclusive holds.dispatch lane
  have kept := Chip.landed_step holds period noted landed quiet
  generalize after : (s.step i).ctrl.stage lane = stageN at moved
  rw [stage] at moved
  cases moved with
  | waits silent done =>
      obtain ⟨src, dst⟩ := Chip.done_step exclusive done
      rw [Chip.note_silent silent (by rw [stage]; decide), noted]
      exact .closing _ after kept src.quiet dst.quiet
  | closed silent done =>
      obtain ⟨src, dst⟩ := Chip.done_step exclusive done
      rw [Chip.note_silent silent (by rw [stage]; decide), noted]
      exact .retiring _ after kept src dst ((mReset_step exclusive lane).trans done)

theorem LaneHolds.retiring_step (holds : ChipHolds plan (s, notes)) (period : ChipPeriod plan (s, notes) i)
    (stage : s.ctrl.stage lane = .retiring) (src : (s.masters.sg (srcOf lane)).Resting)
    (dst : (s.masters.sg (dstOf lane)).Resting) (resets : s.ctrl.mReset lane = true) :
    LaneHolds plan (s.step i) lane (s.note notes i lane) := by
  have exclusive : Exclusive s.masters (s.mastersIn i) := Chip.exclusive holds.granted period.fair
  have moved : LaneStep lane s.ctrl (s.masters.ctrlIn (s.mastersIn i)) (s.ctrl.stage lane) ((s.step i).ctrl.stage lane) :=
    dispatch_lane exclusive holds.dispatch lane
  generalize after : (s.step i).ctrl.stage lane = stageN at moved
  rw [stage] at moved
  cases moved with
  | retired silent _ =>
      have none : s.note notes i lane = none := by
        simp [Chip.note, show s.gives i lane = false from silent, stage]
      rw [none]
      refine .free after ?_
      rw [s.chan_step i exclusive lane]
      exact Chan.rest_closed _ _ _ _ src dst (.inl resets) silent

theorem ChipHolds.step (holds : ChipHolds plan (s, notes)) (period : ChipPeriod plan (s, notes) i) :
    ChipHolds plan (Clocked.watch Chip.step Chip.note (s, notes) i) where
  dispatch := dispatch_step s.masters (s.mastersIn i) holds.dispatch (Chip.exclusive holds.granted period.fair)
  granted := s.shared.bus.step_granted _ holds.granted
  resets := Chip.resets_step holds period.fair
  lanes lane := by
    change LaneHolds plan (s.step i) lane (s.note notes i lane)
    have inLane : LaneHolds plan s lane (notes lane) := holds.lanes lane
    generalize noted : notes lane = note at inLane
    cases inLane with
    | free stage closed => exact LaneHolds.free_step holds period stage closed noted
    | working n busy works => exact LaneHolds.working_step holds period busy works noted
    | closing n stage landed _ quiet => exact LaneHolds.closing_step holds period stage landed quiet noted
    | retiring n stage _ src dst resets => exact LaneHolds.retiring_step holds period stage src dst resets

end

end SsAdma
