import SsAdma.ChipWrites

set_option autoImplicit false

namespace SsAdma

theorem Bench.Copying.foreign {job : JobDesc} {mem : Mem} {kept : BitVec 29 → Prop} {srcWords dstWords : List (BitVec 29)} {b : Bench}
    {qs qd : ChQueue} {written : ℕ} (copying : b.Copying job mem kept srcWords dstWords qs qd written) (now : Mem)
    (same : ∀ adr, kept adr ∨ adr ∈ dstWords → now adr = b.mem adr) :
    ({ b with mem := now } : Bench).Copying job mem kept srcWords dstWords qs qd written where
  src := copying.src
  dst := copying.dst
  copy := copying.copy
  unloaded := copying.unloaded
  within := copying.within
  frame := fun adr inside => (same adr (.inl inside)).trans (copying.frame adr inside)
  landed := fun j listed read done => (same _ (.inr (List.getElem_mem listed))).trans (copying.landed j listed read done)
  finished := copying.finished
  done := copying.done

theorem Bench.Copying.all_landed {job : JobDesc} {mem : Mem} {kept : BitVec 29 → Prop} {srcWords dstWords : List (BitVec 29)}
    {b : Bench} {qs qd : ChQueue} {written : ℕ} (copying : b.Copying job mem kept srcWords dstWords qs qd written)
    (ended : b.chan.dst.state = .sEnd) : ∀ pair ∈ dstWords.zip srcWords, b.mem pair.1 = mem pair.2 := by
  intro pair member
  obtain ⟨j, below, entry⟩ := List.getElem_of_mem member
  rw [List.length_zip] at below
  have enough := copying.finished ended
  rw [← entry, List.getElem_zip]
  exact copying.landed j (by omega) (by omega) (by omega)

theorem Ctrl.gives_burst {c : Ctrl} {i : CtrlIn} {lane : Fin 2} (gives : c.ssWe i lane = true) :
    BurstState c.state (if lane = 0 then .sNext0 else .sWait0) ∧ c.state.reads = true ∧ i.wbsAck4 = true := by
  match lane with
  | 0 =>
      have parts : c.state = .sCmd0 ∧ i.wbsAck4 = true := by
        have all : (c.state == .sCmd0 && i.wbsAck4 && !c.appendMode) = true := gives
        simp only [Bool.and_eq_true, beq_iff_eq] at all
        exact all.1
      rw [parts.1]
      exact ⟨.cmd0, rfl, parts.2⟩
  | 1 =>
      have parts : c.state = .sCmd1 ∧ i.wbsAck4 = true := by
        have all : (c.state == .sCmd1 && i.wbsAck4) = true := gives
        simpa only [Bool.and_eq_true, beq_iff_eq] using all
      rw [parts.1]
      exact ⟨.cmd1, rfl, parts.2⟩

theorem Ctrl.loading_burst {c : Ctrl} {i : CtrlIn} {lane : Fin 2} (loading : c.stage lane = .loading) :
    BurstState c.state (if lane = 0 then .sNext0 else .sWait0) ∧ c.ssWe i lane = i.wbsAck4 := by
  match lane with
  | 0 =>
      change c.stage0 = .loading at loading
      cases state : c.state with
      | sCmd0 =>
          have mode : c.appendMode = false := by
            by_contra on
            simp [stage0, state, show c.appendMode = true by simpa using on] at loading
          exact ⟨.cmd0, by simp [ssWe, ssWe0, state, mode]⟩
      | sNext0 => cases mode : c.appendMode <;> simp [stage0, state, mode] at loading
      | _ => simp [stage0, state] at loading
  | 1 =>
      change c.stage1 = .loading at loading
      cases state : c.state with
      | sCmd1 => exact ⟨.cmd1, by simp [ssWe, ssWe2, state]⟩
      | sWait0 | sCtl0 | sTr0 | sCyc0 => cases cont : c.dc0R.getLsbD 10 <;> simp [stage1, state, -BitVec.getLsbD_eq_getElem, cont] at loading
      | _ => simp [stage1, state] at loading

theorem Ctrl.closing_done {c : Ctrl} {i : CtrlIn} {lane : Fin 2} (running : i.wbRst = false) (before : c.stage lane = .running)
    (after : (c.step i).stage lane = .closing) : i.cDone lane = true := by
  have next := c.step_stateN i running
  rw [comb_stateN] at next
  match lane with
  | 0 =>
      change c.stage0 = .running at before
      change (c.step i).stage0 = .closing at after
      have closing : (c.step i).state = .sTr0 := by
        unfold stage0 at after
        split at after <;> first | assumption | (split at after <;> simp at after) | simp at after
      rw [closing] at next
      change i.cDone1 = true
      by_contra none
      cases state : c.state <;> simp [state, stage0, none] at next before
      all_goals split_ifs at next
  | 1 =>
      change c.stage1 = .running at before
      change (c.step i).stage1 = .closing at after
      have closing : (c.step i).state = .sTr1 := by
        unfold stage1 at after
        split at after <;> first | assumption | (split at after <;> simp at after) | simp at after
      rw [closing] at next
      change i.cDone3 = true
      by_contra none
      cases state : c.state <;> simp [state, stage1, none] at next before
      all_goals split_ifs at next

theorem Ctrl.ResetScoped.down {c : Ctrl} {lane : Fin 2} (resets : c.ResetScoped) (active : c.state ≠ .sIdle)
    (stage : c.stage lane ≠ .closing ∧ c.stage lane ≠ .retiring) : c.mReset lane = false := by
  by_contra up
  rcases resets lane (by simpa using up) with closing | retiring | idle
  · exact stage.1 closing
  · exact stage.2 retiring
  · exact active idle

theorem Ctrl.Serves.below {c : Ctrl} {lane : Fin 2} {job : JobDesc} {loaded : ℕ} (serves : c.Serves lane job loaded)
    (loads : c.stage lane = .loading) : loaded < 4 := by
  cases serves with
  | waiting free => simp [free] at loads
  | loading _ _ more => exact more
  | running stage => rcases stage with stage | stage <;> simp [stage] at loads

theorem Stage.working_cases {stage : Stage} (working : stage.working = true) : stage ≠ .closing ∧ stage ≠ .retiring := by
  constructor <;> rintro rfl <;> simp [Stage.working] at working

theorem Ctrl.working_active {c : Ctrl} {lane : Fin 2} (working : (c.stage lane).working = true) : c.state ≠ .sIdle := by
  intro idle
  unfold stage at working
  split at working
  · simp [stage0, idle, Stage.working] at working
  · simp [stage1, idle, Stage.working] at working

section

variable {plan : BitVec 29 → CopyPlan} {s : Chip} {notes : Fin 2 → Option CopyNote} {i : SharedIn} {lane : Fin 2}

theorem Chip.ctrl_word (dispatch : Dispatch s.masters) (granted : s.shared.bus.Granted) (fair : SlaveFair s i)
    (reading : s.ctrl.state.reads = true) (heard : ((s.mastersIn i).bus 4).ack = true) :
    ((s.mastersIn i).bus 4).dat = (s.mem s.ctrl.wbsAdr4R).extractLsb' 0 32 ∧
      ((s.mastersIn i).bus 4).dat64 = (s.mem s.ctrl.wbsAdr4R).extractLsb' 32 32 ∧ s.writes i = [] := by
  have exclusive := Chip.exclusive granted fair
  have cyc := exclusive.ctrl_holds heard
  have ack : i.slave.ack = true := by
    by_contra none
    exact absurd ((s.silent i (by simpa using none) 4).symm.trans heard) Bool.false_ne_true
  obtain ⟨owner, owned⟩ := Chip.owned granted fair ack
  obtain rfl : (4 : Fin 5) = owner := of_decide_eq_true ((owned.heard 4).symm.trans heard)
  obtain ⟨_, we, word⟩ := Chip.request_ctrl fair owned
  have reads : (s.request i).we = false := by
    have direction := dispatch.bus.direction cyc
    have idle : s.ctrl.state.writes = false := by
      cases state : s.ctrl.state <;> simp [state, CtrlState.reads, CtrlState.writes] at reading ⊢
    exact we.trans (direction.trans idle)
  obtain ⟨low, high⟩ := Chip.read_word ack reads 4
  rw [word] at low high
  exact ⟨low, high, by simp [writes, reads]⟩

theorem Chip.given_word (dispatch : Dispatch s.masters) (granted : s.shared.bus.Granted) (fair : SlaveFair s i)
    (gives : s.gives i lane = true) :
    ((s.mastersIn i).bus 4).dat = (s.mem s.ctrl.wbsAdr4R).extractLsb' 0 32 ∧
      ((s.mastersIn i).bus 4).dat64 = (s.mem s.ctrl.wbsAdr4R).extractLsb' 32 32 ∧ s.writes i = [] := by
  obtain ⟨_, reading, heard⟩ := Ctrl.gives_burst gives
  exact Chip.ctrl_word dispatch granted fair reading heard

theorem Chip.gives_count {job : JobDesc} {loaded : ℕ} (exclusive : Exclusive s.masters (s.mastersIn i))
    (dispatch : Dispatch s.masters) (serves : s.ctrl.Serves lane job loaded) :
    (s.masters.lines (s.mastersIn i) lane).count loaded = if s.gives i lane then loaded + 1 else loaded := by
  have same : (s.masters.lines (s.mastersIn i) lane).gives loaded = s.gives i lane := serves.gives exclusive dispatch
  rw [CtrlLines.count, same]

theorem Chip.serves_step {job : JobDesc} {loaded : ℕ} (granted : s.shared.bus.Granted) (fair : SlaveFair s i)
    (dispatch : Dispatch s.masters) (serves : s.ctrl.Serves lane job loaded)
    (carried : s.gives i lane = true → ((s.mastersIn i).bus 4).dat = job.word loaded)
    (goesOn : (s.step i).ctrl.stage lane ≠ .closing) :
    (s.step i).ctrl.Serves lane job (if s.gives i lane then loaded + 1 else loaded) := by
  have exclusive := Chip.exclusive granted fair
  rw [← Chip.gives_count exclusive dispatch serves]
  exact (serves.step exclusive dispatch carried).resolve_right goesOn

theorem Chip.copying_step {job : JobDesc} {mem : Mem} {kept : BitVec 29 → Prop} {srcWords dstWords : List (BitVec 29)}
    {loaded : ℕ} {qs qd : ChQueue} {written : ℕ} (granted : s.shared.bus.Granted) (fair : SlaveFair s i)
    (dispatch : Dispatch s.masters) (serves : s.ctrl.Serves lane job loaded)
    (carried : s.gives i lane = true → ((s.mastersIn i).bus 4).dat = job.word loaded) (notReset : s.ctrl.mReset lane = false)
    (given : CopyJob job mem kept srcWords dstWords)
    (copying : (s.bench lane loaded).Copying job mem kept srcWords dstWords qs qd written)
    (fresh : EndIsFresh (s.bench lane loaded) (s.benchIn i lane))
    (same : ∀ adr, kept adr ∨ adr ∈ dstWords →
      (s.step i).mem adr = ((s.bench lane loaded).step job (s.benchIn i lane)).mem adr) :
    ∃ qs qd written, ((s.step i).bench lane (if s.gives i lane then loaded + 1 else loaded)).Copying job mem kept srcWords
      dstWords qs qd written := by
  have next := (copying.step given (s.benchIn i lane) fresh).foreign (s.step i).mem same
  rw [Chip.bench_step granted fair dispatch serves carried notReset] at next
  rw [← Chip.gives_count (Chip.exclusive granted fair) dispatch serves]
  exact ⟨_, _, _, next⟩

theorem Chip.free_step (granted : s.shared.bus.Granted) (fair : SlaveFair s i) (closed : (s.chan lane).Closed)
    (silent : s.gives i lane = false) : ((s.step i).chan lane).Closed := by
  rw [s.chan_step i (Chip.exclusive granted fair) lane]
  exact Chan.rest_closed _ _ _ _ ⟨closed.src.idle, closed.src.down⟩ ⟨closed.dst.idle, closed.dst.down⟩
    (.inr ⟨closed.srcFifo, closed.dstFifo, closed.copy⟩) silent

theorem Chip.opened_step (holds : ChipHolds plan (s, notes)) (period : ChipPeriod plan (s, notes) i)
    (stage : s.ctrl.stage lane = .free) (closed : (s.chan lane).Closed) (gives : s.gives i lane = true)
    (first : s.ctrl.inc = 0#2) (after : (s.step i).ctrl.stage lane = .loading)
    (status : (s.step i).ctrl.ctlAdr lane = ((s.mastersIn i).bus 4).dat64.extractLsb' 3 29) :
    Working (plan s.ctrl.wbsAdr4R) (s.step i) lane ⟨s.ctrl.wbsAdr4R, 1, s.mem⟩ := by
  have exclusive : Exclusive s.masters (s.mastersIn i) := Chip.exclusive holds.granted period.fair
  have fits := period.fits lane gives first
  obtain ⟨low, high, none⟩ := Chip.given_word holds.dispatch holds.granted period.fair gives
  obtain ⟨counting, reading, heard⟩ := Ctrl.gives_burst gives
  have serves : s.ctrl.Serves lane (jobAt s.mem s.ctrl.wbsAdr4R) 0 := .waiting stage
  have carried : s.gives i lane = true → ((s.mastersIn i).bus 4).dat = (jobAt s.mem s.ctrl.wbsAdr4R).word 0 := fun _ => low
  have active : s.ctrl.state ≠ .sIdle := by
    intro idle
    simp [idle, CtrlState.reads] at reading
  have notReset := holds.resets.down active (by rw [stage]; decide)
  have fresh : EndIsFresh (s.bench lane 0) (s.benchIn i lane) := by
    intro waits
    exact absurd (closed.dst.idle.symm.trans waits) (by decide)
  have silent : (s.bench lane 0).writes (s.benchIn i lane) = [] := by
    change SsSg.writeCycle (s.chan lane).dst _ _ = []
    simp [SsSg.writeCycle, closed.dst.down]
  have same : ∀ adr, (plan s.ctrl.wbsAdr4R).kept adr ∨ adr ∈ (plan s.ctrl.wbsAdr4R).dst →
      (s.step i).mem adr = ((s.bench lane 0).step (jobAt s.mem s.ctrl.wbsAdr4R) (s.benchIn i lane)).mem adr := by
    intro adr _
    change (s.writes i).foldl Mem.write s.mem adr = ((s.bench lane 0).writes (s.benchIn i lane)).foldl Mem.write s.mem adr
    rw [none, silent]
  have copying := Chip.copying_step holds.granted period.fair holds.dispatch serves carried notReset fits.job
    (Bench.Copying.initial _ _ _ _ (s.bench lane 0) fits.job closed rfl) fresh same
  have servesN := Chip.serves_step holds.granted period.fair holds.dispatch serves carried (by rw [after]; decide)
  rw [if_pos gives] at servesN
  rw [if_pos gives] at copying
  refine ⟨servesN, fits, fun _ => ?_, ?_, fun writing => ?_, copying⟩
  · have address := (s.ctrl.step_burst (s.masters.ctrlIn (s.mastersIn i)) _ exclusive.running counting).2.2.2.1
    rw [exclusive.ctrl_acked, show ((s.mastersIn i).bus 4).ack = true from heard] at address
    exact address
  · rw [status, high]
    rfl
  · rw [after] at writing
    cases writing

theorem Working.carried {n : CopyNote} (works : Working (plan n.desc) s lane n) (holds : ChipHolds plan (s, notes))
    (fair : SlaveFair s i) (busy : (s.ctrl.stage lane).working = true) (gives : s.gives i lane = true) :
    ((s.mastersIn i).bus 4).dat = (jobAt n.mem n.desc).word n.loaded := by
  obtain ⟨qs, qd, written, copying⟩ := works.copying
  obtain ⟨low, _, _⟩ := Chip.given_word holds.dispatch holds.granted fair gives
  have moved := dispatch_lane (Chip.exclusive holds.granted fair) holds.dispatch lane
  have loading : s.ctrl.stage lane = .loading := by
    rcases moved.writes_free_or_loading gives with ⟨free, _⟩ | loading
    · rw [show s.ctrl.stage lane = .free from free] at busy
      cases busy
    · exact loading
  have below : n.loaded < 4 := works.serves.below loading
  have read : s.mem (n.desc + BitVec.ofNat 29 n.loaded) = n.mem (n.desc + BitVec.ofNat 29 n.loaded) :=
    copying.frame _ (works.fits.desc n.loaded below)
  rw [low, works.address loading, jobAt_word n.mem n.desc n.loaded below, read]

theorem Working.copying_step {n : CopyNote} (works : Working (plan n.desc) s lane n) (holds : ChipHolds plan (s, notes))
    (period : ChipPeriod plan (s, notes) i) (noted : notes lane = some n) (busy : (s.ctrl.stage lane).working = true) :
    ∃ qs qd written, ((s.step i).bench lane (if s.gives i lane then n.loaded + 1 else n.loaded)).Copying (jobAt n.mem n.desc)
      n.mem (plan n.desc).kept (plan n.desc).src (plan n.desc).dst qs qd written := by
  obtain ⟨qs, qd, written, copying⟩ := works.copying
  exact Chip.copying_step holds.granted period.fair holds.dispatch works.serves (works.carried holds period.fair busy)
    (holds.resets.down (Ctrl.working_active busy) (Stage.working_cases busy)) works.fits.job copying (period.fresh lane n noted)
    (Chip.mem_step holds period lane n noted _ _)

theorem Working.step {n : CopyNote} (works : Working (plan n.desc) s lane n) (holds : ChipHolds plan (s, notes))
    (period : ChipPeriod plan (s, notes) i) (noted : notes lane = some n) (busy : (s.ctrl.stage lane).working = true)
    (goesOn : (s.step i).ctrl.stage lane ≠ .closing) (kept : (s.step i).ctrl.ctlAdr lane = s.ctrl.ctlAdr lane)
    (address : (s.step i).ctrl.stage lane = .loading → s.ctrl.stage lane = .loading ∧ (s.step i).ctrl.wbsAdr4R =
      if s.gives i lane then s.ctrl.wbsAdr4R + 1 else s.ctrl.wbsAdr4R)
    (writing : (s.step i).ctrl.stage lane = .writing → ((s.step i).masters.sg (dstOf lane)).state = .sEnd ∧
      (s.step i).ctrl.wbsAdr4R = statusAt n.mem n.desc + (s.step i).ctrl.inc.setWidth 29) :
    Working (plan n.desc) (s.step i) lane { n with loaded := if s.gives i lane then n.loaded + 1 else n.loaded } where
  serves := Chip.serves_step holds.granted period.fair holds.dispatch works.serves (works.carried holds period.fair busy) goesOn
  fits := works.fits
  address loads := by
    obtain ⟨before, next⟩ := address loads
    rw [next, works.address before]
    split
    · exact (BitVec.add_assoc n.desc _ 1#29).trans (congrArg _ (BitVec.ofNat_add n.loaded 1).symm)
    · rfl
  status := kept.trans works.status
  writing := writing
  copying := works.copying_step holds period noted busy

theorem Masters.cDone_lane (m : Masters) (i : MastersIn) (lane : Fin 2) :
    (m.ctrlIn i).cDone lane = (m.sg (dstOf lane)).cDone := by
  unfold CtrlIn.cDone dstOf
  split <;> rfl

theorem status_word (word : BitVec 2) (notLast : word ≠ 3#2) : word.setWidth 29 + 1#29 = (word + 1#2).setWidth 29 := by
  revert word
  decide

theorem Working.done_ended {n : CopyNote} (works : Working (plan n.desc) s lane n)
    (done : (s.masters.ctrlIn (s.mastersIn i)).cDone lane = true) : (s.masters.sg (dstOf lane)).state = .sEnd := by
  obtain ⟨qs, qd, written, copying⟩ := works.copying
  rw [Masters.cDone_lane] at done
  exact copying.done done

theorem Working.ended {n : CopyNote} (works : Working (plan n.desc) s lane n) (holds : ChipHolds plan (s, notes))
    (fair : SlaveFair s i) (ended : (s.masters.sg (dstOf lane)).state = .sEnd) :
    ((s.step i).masters.sg (dstOf lane)).state = .sEnd := by
  have exclusive := Chip.exclusive holds.granted fair
  refine SsSg.step_end (writer (dstOf lane)) (s.masters.sg (dstOf lane)) (s.masters.sgIn (s.mastersIn i) (dstOf lane))
    exclusive.running ?_ ended
  have notDone := ssDone_lane exclusive (dstOf lane)
  rw [laneOf_dstOf] at notDone
  exact notDone.trans (works.serves.notDone exclusive holds.dispatch)

theorem Working.closing_step {n : CopyNote} (works : Working (plan n.desc) s lane n) (holds : ChipHolds plan (s, notes))
    (period : ChipPeriod plan (s, notes) i) (noted : notes lane = some n) (busy : (s.ctrl.stage lane).working = true)
    (ended : (s.masters.sg (dstOf lane)).state = .sEnd) : (plan n.desc).Landed n.mem (s.step i).mem ∧
      ((s.step i).masters.sg (srcOf lane)).Quiet ∧ ((s.step i).masters.sg (dstOf lane)).Quiet := by
  obtain ⟨qs, qd, written, copying⟩ := works.copying_step holds period noted busy
  have stays := works.ended holds period.fair ended
  refine ⟨copying.all_landed stays, copying.src.onJob.writing.trans (Bool.and_false _), ?_⟩
  have notMoving : ((s.step i).chan lane).dst.state ≠ .sBReq := by
    intro moving
    exact absurd (stays.symm.trans moving) (by decide)
  exact copying.dst.onJob.writing.trans (by simp [Chip.bench, notMoving])

theorem Chip.done_step (exclusive : Exclusive s.masters (s.mastersIn i)) (done : s.ctrl.ssDone lane = true) :
    ((s.step i).masters.sg (srcOf lane)).Resting ∧ ((s.step i).masters.sg (dstOf lane)).Resting := by
  have src := ssDone_lane exclusive (srcOf lane)
  have dst := ssDone_lane exclusive (dstOf lane)
  rw [laneOf_srcOf] at src
  rw [laneOf_dstOf] at dst
  exact ⟨SsSg.done_resting _ _ _ (src.trans done), SsSg.done_resting _ _ _ (dst.trans done)⟩

theorem Chip.landed_step {n : CopyNote} (holds : ChipHolds plan (s, notes)) (period : ChipPeriod plan (s, notes) i)
    (noted : notes lane = some n) (landed : (plan n.desc).Landed n.mem s.mem) (quiet : (s.masters.sg (dstOf lane)).Quiet) :
    (plan n.desc).Landed n.mem (s.step i).mem := by
  intro pair member
  have silent : (s.bench lane n.loaded).writes (s.benchIn i lane) = [] := by
    change SsSg.writeCycle (s.masters.sg (dstOf lane)) _ _ = []
    rw [SsSg.writeCycle, show ((s.masters.sg (dstOf lane)).wbsCyc && (s.masters.sg (dstOf lane)).wbsWe) = false from quiet]
    rfl
  rw [Chip.mem_step holds period lane n noted (jobAt n.mem n.desc) n.loaded pair.1 (.inr (List.of_mem_zip member).1)]
  change ((s.bench lane n.loaded).writes (s.benchIn i lane)).foldl Mem.write s.mem pair.1 = _
  rw [silent]
  exact landed pair member

theorem Chip.resets_step (holds : ChipHolds plan (s, notes)) (fair : SlaveFair s i) : (s.step i).ctrl.ResetScoped := by
  have exclusive := Chip.exclusive holds.granted fair
  intro lane up
  have done : s.ctrl.ssDone lane = true := (mReset_step exclusive lane).symm.trans up
  have moved := dispatch_lane exclusive holds.dispatch lane
  have closing := moved.done_closing done
  rw [closing] at moved
  change LaneStep lane _ _ .closing ((s.step i).ctrl.stage lane) at moved
  generalize (s.step i).ctrl.stage lane = after at moved ⊢
  cases moved with
  | waits => exact .inl rfl
  | closed => exact .inr (.inl rfl)

end

end SsAdma
