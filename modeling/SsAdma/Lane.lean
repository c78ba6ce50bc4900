import Mathlib.Tactic.SplitIfs
import SsAdma.CtrlStep

set_option autoImplicit false

namespace SsAdma

-- simp leaves the bits of dc as getLsbD.
attribute [-simp] BitVec.getLsbD_eq_getElem

-- Where the job of one channel stands, read off the controller's state. A
-- channel is free also while the tail is re-read, and channel 1 while channel 0
-- runs a job without a successor.
inductive Stage where
  | free | loading | running | writing | closing | retiring
deriving DecidableEq, Repr

def Ctrl.stage0 (c : Ctrl) : Stage :=
  match c.state with
  | .sCmd0 => if c.appendMode || c.inc == 0 then .free else .loading
  | .sNext0 => if c.appendMode then .free else .running
  | .sCmd1 | .sWait0 => .running
  | .sCtl0 => .writing
  | .sTr0 => .closing
  | .sCyc0 => .retiring
  | .sIdle | .sWait1 | .sCtl1 | .sTr1 | .sCyc1 | .sNext1 => .free

def Ctrl.stage1 (c : Ctrl) : Stage :=
  match c.state with
  | .sCmd1 => if c.inc == 0 then .free else .loading
  | .sWait0 | .sCtl0 | .sTr0 | .sCyc0 => if c.dc0R.getLsbD 10 then .running else .free
  | .sWait1 => .running
  | .sCtl1 => .writing
  | .sTr1 => .closing
  | .sCyc1 => .retiring
  | .sIdle | .sCmd0 | .sNext0 | .sNext1 => .free

def Ctrl.stage (c : Ctrl) (lane : Fin 2) : Stage := if lane = 0 then c.stage0 else c.stage1
def Ctrl.ssWe (c : Ctrl) (i : CtrlIn) (lane : Fin 2) : Bool := if lane = 0 then c.ssWe0 i else c.ssWe2 i
def Ctrl.ssDone (c : Ctrl) (lane : Fin 2) : Bool := if lane = 0 then c.ssDone0 else c.ssDone2
def Ctrl.ctlAdr (c : Ctrl) (lane : Fin 2) : BitVec 29 := if lane = 0 then c.ctlAdr0 else c.ctlAdr1
def Ctrl.dcR (c : Ctrl) (lane : Fin 2) : BitVec 16 := if lane = 0 then c.dc0R else c.dc1R
def CtrlIn.cDone (i : CtrlIn) (lane : Fin 2) : Bool := if lane = 0 then i.cDone1 else i.cDone3

def Ctrl.SameJob (lane : Fin 2) (before after : Ctrl) : Prop :=
  after.ctlAdr lane = before.ctlAdr lane ∧ after.dcR lane = before.dcR lane

inductive LaneStep (lane : Fin 2) (c : Ctrl) (i : CtrlIn) : Stage → Stage → Prop where
  | rest : c.ssWe i lane = false → c.ssDone lane = false → LaneStep lane c i .free .free
  | opened : c.ssWe i lane = true → c.ssDone lane = false → c.inc = 0#2 → (c.step i).inc = 1#2 →
      (c.step i).ctlAdr lane = i.wbsDat64O4.extractLsb' 3 29 → LaneStep lane c i .free .loading
  | stalled : c.ssWe i lane = false → c.ssDone lane = false → c.inc ≠ 0#2 → (c.step i).inc = c.inc →
      c.SameJob lane (c.step i) → LaneStep lane c i .loading .loading
  | loaded : c.ssWe i lane = true → c.ssDone lane = false → c.inc ≠ 0#2 → c.inc ≠ 3#2 → (c.step i).inc = c.inc + 1#2 →
      (c.step i).ctlAdr lane = c.ctlAdr lane →
      (c.step i).dcR lane = (if c.inc = 1#2 then i.wbsDatO4.extractLsb' 0 16 else c.dcR lane) →
      LaneStep lane c i .loading .loading
  | dispatched : c.ssWe i lane = true → c.ssDone lane = false → c.inc = 3#2 → c.SameJob lane (c.step i) →
      LaneStep lane c i .loading .running
  | runs : c.ssWe i lane = false → c.ssDone lane = false → c.SameJob lane (c.step i) →
      LaneStep lane c i .running .running
  | reports : c.ssWe i lane = false → c.ssDone lane = false → i.cDone lane = true → (c.dcR lane).getLsbD 7 = true →
      (c.step i).inc = 0#2 → (c.step i).wbsAdr4R = c.ctlAdr lane → c.SameJob lane (c.step i) →
      LaneStep lane c i .running .writing
  | skips : c.ssWe i lane = false → c.ssDone lane = false → ¬(c.dcR lane).getLsbD 7 = true → c.SameJob lane (c.step i) →
      LaneStep lane c i .running .closing
  | writes : c.ssWe i lane = false → c.ssDone lane = false → (i.acked = true → c.inc ≠ 3#2) →
      (c.step i).inc = (if i.acked then c.inc + 1#2 else c.inc) →
      (c.step i).wbsAdr4R = (if i.acked then c.wbsAdr4R + 1 else c.wbsAdr4R) → c.SameJob lane (c.step i) →
      LaneStep lane c i .writing .writing
  | written : c.ssWe i lane = false → c.ssDone lane = false → i.acked = true → c.inc = 3#2 →
      c.SameJob lane (c.step i) → LaneStep lane c i .writing .closing
  | waits : c.ssWe i lane = false → c.ssDone lane = true → c.SameJob lane (c.step i) →
      LaneStep lane c i .closing .closing
  | closed : c.ssWe i lane = false → c.ssDone lane = true → c.SameJob lane (c.step i) →
      LaneStep lane c i .closing .retiring
  | retired : c.ssWe i lane = false → c.ssDone lane = false → LaneStep lane c i .retiring .free

def Ctrl.Linked (c : Ctrl) : Prop := c.state = .sCmd1 → c.dc0R.getLsbD 10 = true

theorem word_cases : ∀ word : BitVec 2, word = 0#2 ∨ word = 1#2 ∨ word = 2#2 ∨ word = 3#2 := by
  decide

theorem word_succ_ne_zero : ∀ word : BitVec 2, word ≠ 3#2 → word + 1#2 ≠ 0#2 := by
  decide

theorem Ctrl.step_linked (c : Ctrl) (i : CtrlIn) (running : i.wbRst = false) (linked : c.Linked) : (c.step i).Linked := by
  rw [step_running c i running]
  intro loads
  change (c.comb i).stateN = .sCmd1 at loads
  change (if c.state == .sCmd0 && i.wbsAck4 && c.inc == 1 then i.wbsDatO4.extractLsb' 0 16 else c.dc0R).getLsbD 10 = true
  rw [comb_stateN] at loads
  cases state : c.state with
  | sNext0 =>
      cases cont : c.dc0R.getLsbD 10 with
      | true => exact cont
      | false => cases mode : c.appendMode <;> simp [state, cont, mode] at loads
  | sCmd1 => exact linked state
  | sNext1 => simp [state] at loads
  | sCyc1 | sIdle | sCmd0 | sTr0 | sCyc0 | sTr1 | sCtl0 | sCtl1 =>
      simp only [state] at loads
      split at loads <;> cases loads
  | sWait0 | sWait1 =>
      simp only [state] at loads
      split at loads
      · split at loads <;> cases loads
      · cases loads

theorem Ctrl.step_sameJob0 (c : Ctrl) (i : CtrlIn) (running : i.wbRst = false) (away : c.state ≠ .sCmd0) :
    c.SameJob 0 (c.step i) := by
  rw [step_running c i running]
  simp [SameJob, ctlAdr, dcR, latch, away]

theorem Ctrl.step_sameJob1 (c : Ctrl) (i : CtrlIn) (running : i.wbRst = false) (away : c.state ≠ .sCmd1) :
    c.SameJob 1 (c.step i) := by
  rw [step_running c i running]
  simp [SameJob, ctlAdr, dcR, latch, away]

theorem Ctrl.stage0_cmd0_opened (c : Ctrl) (cmd : c.state = .sCmd0) (first : c.inc = 0#2) : c.stage0 = .free := by
  simp [stage0, cmd, first]

theorem Ctrl.stage1_cmd1_opened (c : Ctrl) (cmd : c.state = .sCmd1) (first : c.inc = 0#2) : c.stage1 = .free := by
  simp [stage1, cmd, first]

-- The same four kinds of states serve both channels: S_CMDn loads the engines,
-- S_WAITn waits for them, S_CTLn reports, S_TRn waits for the host.
section

variable (lane : Fin 2) {c : Ctrl} {i : CtrlIn}

theorem LaneStep.loads (write : c.ssWe i lane = i.acked) (open_ : c.ssDone lane = false)
    (before : c.stage lane = if c.inc = 0#2 then .free else .loading)
    (stays : c.lastWord i = false → (c.step i).stage lane = if (c.step i).inc = 0#2 then .free else .loading)
    (leaves : c.lastWord i = true → (c.step i).stage lane = .running)
    (incN : (c.step i).inc = if i.acked then c.inc + 1 else c.inc)
    (adrN : (c.step i).ctlAdr lane =
      if i.acked && c.inc == 0#2 then i.wbsDat64O4.extractLsb' 3 29 else c.ctlAdr lane)
    (dcN : (c.step i).dcR lane = if i.acked && c.inc == 1#2 then i.wbsDatO4.extractLsb' 0 16 else c.dcR lane) :
    LaneStep lane c i (c.stage lane) ((c.step i).stage lane) := by
  rw [before]
  cases ack : i.acked with
  | false =>
      simp only [ack, Bool.false_and, Bool.false_eq_true, if_false] at write incN adrN dcN
      rw [stays (by simp [Ctrl.lastWord, ack]), incN]
      by_cases first : c.inc = 0#2
      · rw [if_pos first]
        exact .rest write open_
      · rw [if_neg first]
        exact .stalled write open_ first incN ⟨adrN, dcN⟩
  | true =>
      simp only [ack, Bool.true_and, if_true] at write incN adrN dcN
      by_cases first : c.inc = 0#2
      · have count : (c.step i).inc = 1#2 := by rw [incN, first]; rfl
        have more : (c.step i).stage lane = .loading := by
          rw [stays (by simp [Ctrl.lastWord, first]), count]
          rfl
        rw [if_pos first, more]
        exact .opened write open_ first count (by simpa [first] using adrN)
      · have address : (c.step i).ctlAdr lane = c.ctlAdr lane := by simpa [first] using adrN
        rw [if_neg first]
        by_cases last : c.inc = 3#2
        · rw [leaves ((c.lastWord_iff i).mpr ⟨ack, last⟩)]
          exact .dispatched write open_ last ⟨address, by simp [dcN, last]⟩
        · have more : (c.step i).stage lane = .loading := by
            rw [stays (by simp [Ctrl.lastWord, last]), incN]
            exact if_neg (word_succ_ne_zero c.inc last)
          rw [more]
          exact .loaded write open_ first last incN address (by simpa using dcN)

theorem LaneStep.awaits (quiet : c.ssWe i lane = false) (open_ : c.ssDone lane = false)
    (same : c.SameJob lane (c.step i)) (before : c.stage lane = .running)
    (after : (c.step i).stage lane =
      if i.cDone lane then (if (c.dcR lane).getLsbD 7 then .writing else .closing) else .running)
    (opened : i.cDone lane = true → (c.dcR lane).getLsbD 7 = true →
      (c.step i).inc = 0#2 ∧ (c.step i).wbsAdr4R = c.ctlAdr lane) :
    LaneStep lane c i (c.stage lane) ((c.step i).stage lane) := by
  rw [before, after]
  cases done : i.cDone lane with
  | false => exact .runs quiet open_ same
  | true =>
      by_cases report : (c.dcR lane).getLsbD 7 = true
      · obtain ⟨incN, address⟩ := opened done report
        simp only [report, if_true]
        exact .reports quiet open_ done report incN address same
      · simp only [report, if_true]
        exact .skips quiet open_ report same

theorem LaneStep.reporting (quiet : c.ssWe i lane = false) (open_ : c.ssDone lane = false)
    (same : c.SameJob lane (c.step i)) (before : c.stage lane = .writing)
    (after : (c.step i).stage lane = if c.lastWord i then .closing else .writing)
    (incN : (c.step i).inc = if i.acked then c.inc + 1 else c.inc)
    (adrN : (c.step i).wbsAdr4R = if i.acked then c.wbsAdr4R + 1 else c.wbsAdr4R) :
    LaneStep lane c i (c.stage lane) ((c.step i).stage lane) := by
  rw [before, after]
  cases last : c.lastWord i with
  | true =>
      obtain ⟨ack, third⟩ := (c.lastWord_iff i).mp last
      exact .written quiet open_ ack third same
  | false =>
      have more : i.acked = true → c.inc ≠ 3#2 := by simpa [Ctrl.lastWord] using last
      exact .writes quiet open_ more incN adrN same

theorem LaneStep.closing (quiet : c.ssWe i lane = false) (done : c.ssDone lane = true)
    (same : c.SameJob lane (c.step i)) (before : c.stage lane = .closing)
    (after : (c.step i).stage lane = if i.wbsCycI then .retiring else .closing) :
    LaneStep lane c i (c.stage lane) ((c.step i).stage lane) := by
  rw [before, after]
  cases host : i.wbsCycI with
  | true => exact .closed quiet done same
  | false => exact .waits quiet done same

end

inductive Part where
  | wait | ctl | tr | cyc
deriving DecidableEq, Repr

def laneState (lane : Fin 2) : Part → CtrlState
  | .wait => if lane = 0 then .sWait0 else .sWait1
  | .ctl => if lane = 0 then .sCtl0 else .sCtl1
  | .tr => if lane = 0 then .sTr0 else .sTr1
  | .cyc => if lane = 0 then .sCyc0 else .sCyc1

def Part.stage : Part → Stage
  | .wait => .running
  | .ctl => .writing
  | .tr => .closing
  | .cyc => .retiring

section

variable {lane : Fin 2} {part : Part} {c : Ctrl} {i : CtrlIn}

theorem Ctrl.part_stage (part : Part) (here : c.state = laneState lane part) : c.stage lane = part.stage := by
  match lane with
  | 0 => cases part <;> simp [stage, stage0, here, laneState, Part.stage]
  | 1 => cases part <;> simp [stage, stage1, here, laneState, Part.stage]

theorem Ctrl.part_silent (here : c.state = laneState lane part) : c.ssWe i lane = false := by
  match lane with
  | 0 => cases part <;> simp [ssWe, ssWe0, here, laneState]
  | 1 => cases part <;> simp [ssWe, ssWe2, here, laneState]

theorem Ctrl.part_done (here : c.state = laneState lane part) : c.ssDone lane = decide (part = .tr) := by
  match lane with
  | 0 => cases part <;> simp [ssDone, ssDone0, here, laneState]
  | 1 => cases part <;> simp [ssDone, ssDone2, here, laneState]

theorem Ctrl.part_same (running : i.wbRst = false) (here : c.state = laneState lane part) : c.SameJob lane (c.step i) := by
  match lane with
  | 0 => exact c.step_sameJob0 i running (by rw [here]; cases part <;> decide)
  | 1 => exact c.step_sameJob1 i running (by rw [here]; cases part <;> decide)

theorem lane_awaits (lane : Fin 2) (running : i.wbRst = false) (here : c.state = laneState lane .wait) :
    LaneStep lane c i (c.stage lane) ((c.step i).stage lane) := by
  have stateN : (c.step i).state =
      if i.cDone lane then laneState lane (if (c.dcR lane).getLsbD 7 then .ctl else .tr) else laneState lane .wait := by
    rw [c.step_stateN i running, Ctrl.comb_stateN, here]
    match lane with
    | 0 => cases done : i.cDone1 <;> cases report : c.dc0R.getLsbD 7 <;> simp [laneState, CtrlIn.cDone, Ctrl.dcR, done, report]
    | 1 => cases done : i.cDone3 <;> cases report : c.dc1R.getLsbD 7 <;> simp [laneState, CtrlIn.cDone, Ctrl.dcR, done, report]
  refine LaneStep.awaits lane (Ctrl.part_silent here) (Ctrl.part_done here) (Ctrl.part_same running here) (Ctrl.part_stage _ here) ?_
    fun done report => ?_
  · cases done : i.cDone lane with
    | false => exact Ctrl.part_stage .wait (by simp [stateN, done])
    | true =>
        cases report : (c.dcR lane).getLsbD 7 with
        | false => exact Ctrl.part_stage .tr (by simp [stateN, done, report])
        | true => exact Ctrl.part_stage .ctl (by simp [stateN, done, report])
  · have burst : (c.comb i).incReset = true ∧ (c.comb i).wbsAdr4N = c.ctlAdr lane := by
      match lane with
      | 0 =>
          have both : i.cDone1 = true ∧ c.dc0R.getLsbD 7 = true := ⟨done, report⟩
          have wait : c.state = .sWait0 := here
          simp [Ctrl.comb, wait, both, CtrlOut.burst, Ctrl.ctlAdr]
      | 1 =>
          have both : i.cDone3 = true ∧ c.dc1R.getLsbD 7 = true := ⟨done, report⟩
          have wait : c.state = .sWait1 := here
          simp [Ctrl.comb, wait, both, CtrlOut.burst, Ctrl.ctlAdr]
    obtain ⟨incN, address⟩ := c.step_opened i running burst.1
    exact ⟨incN, address.trans burst.2⟩

theorem lane_reports (lane : Fin 2) (running : i.wbRst = false) (here : c.state = laneState lane .ctl) :
    LaneStep lane c i (c.stage lane) ((c.step i).stage lane) := by
  have counting : BurstState c.state (laneState lane .tr) := by
    rw [here]
    match lane with
    | 0 => exact .ctl0
    | 1 => exact .ctl1
  obtain ⟨stateN, _, _, adrN, incN, _, _⟩ := c.step_burst i _ running counting
  refine LaneStep.reporting lane (Ctrl.part_silent here) (Ctrl.part_done here) (Ctrl.part_same running here) (Ctrl.part_stage _ here) ?_
    incN adrN
  cases last : c.lastWord i with
  | true => exact Ctrl.part_stage .tr (by simp [stateN, last])
  | false => exact Ctrl.part_stage .ctl (by simp [stateN, last, here])

theorem lane_closes (lane : Fin 2) (running : i.wbRst = false) (here : c.state = laneState lane .tr) :
    LaneStep lane c i (c.stage lane) ((c.step i).stage lane) := by
  have stateN : (c.step i).state = laneState lane (if i.wbsCycI then .cyc else .tr) := by
    rw [c.step_stateN i running, Ctrl.comb_stateN, here]
    match lane with
    | 0 => cases host : i.wbsCycI <;> simp [laneState]
    | 1 => cases host : i.wbsCycI <;> simp [laneState]
  refine LaneStep.closing lane (Ctrl.part_silent here) (Ctrl.part_done here) (Ctrl.part_same running here) (Ctrl.part_stage _ here) ?_
  rw [Ctrl.part_stage _ stateN]
  cases i.wbsCycI <;> rfl

theorem lane_retires (lane : Fin 2) (running : i.wbRst = false) (here : c.state = laneState lane .cyc) :
    LaneStep lane c i (c.stage lane) ((c.step i).stage lane) := by
  have after : (c.step i).stage lane = .free := by
    have stateN := c.step_stateN i running
    rw [Ctrl.comb_stateN, here] at stateN
    match lane with
    | 0 => cases cont : c.dc0R.getLsbD 10 <;> simp [laneState, cont] at stateN <;> simp [Ctrl.stage, Ctrl.stage0, stateN]
    | 1 => cases cont : c.dc1R.getLsbD 10 <;> simp [laneState, cont] at stateN <;> simp [Ctrl.stage, Ctrl.stage1, stateN]
  rw [Ctrl.part_stage _ here, after]
  exact .retired (Ctrl.part_silent here) (Ctrl.part_done here)

end

section

variable {c : Ctrl} {i : CtrlIn}

theorem Ctrl.away0 (i : CtrlIn) (away : c.state ≠ .sCmd0) (open_ : c.state ≠ .sTr0) : c.ssWe i 0 = false ∧ c.ssDone 0 = false := by
  simp [ssWe, ssWe0, ssDone, ssDone0, away, open_]

theorem Ctrl.away1 (i : CtrlIn) (away : c.state ≠ .sCmd1) (open_ : c.state ≠ .sTr1) : c.ssWe i 1 = false ∧ c.ssDone 1 = false := by
  simp [ssWe, ssWe2, ssDone, ssDone2, away, open_]

theorem lane0_loads (running : i.wbRst = false) (answered : i.wbsAck4 = true → i.wbsRty4 = false ∧ i.wbsErr4 = false)
    (state : c.state = .sCmd0) : LaneStep 0 c i c.stage0 (c.step i).stage0 := by
  have acked := i.acked_eq answered
  obtain ⟨stateN, _, _, _, incN, modeN, _⟩ := c.step_burst i .sNext0 running (state ▸ .cmd0)
  have open_ : c.ssDone 0 = false := by simp [Ctrl.ssDone, Ctrl.ssDone0, state]
  cases mode : c.appendMode with
  | true =>
      have quiet : c.ssWe i 0 = false := by simp [Ctrl.ssWe, Ctrl.ssWe0, mode]
      have before : c.stage0 = .free := by simp [Ctrl.stage0, state, mode]
      have after : (c.step i).stage0 = .free := by
        cases last : c.lastWord i <;> simp [Ctrl.stage0, stateN, modeN, state, mode, last]
      rw [before, after]
      exact .rest quiet open_
  | false =>
      refine LaneStep.loads 0 ?_ open_ ?_ (fun last => ?_) (fun last => ?_) incN ?_ ?_
      · simp [Ctrl.ssWe, Ctrl.ssWe0, state, mode, acked]
      · simp [Ctrl.stage, Ctrl.stage0, state, mode]
      · simp [Ctrl.stage, Ctrl.stage0, stateN, modeN, state, mode, last]
      · simp [Ctrl.stage, Ctrl.stage0, stateN, modeN, mode, last]
      · rw [c.step_running i running]
        simp [Ctrl.ctlAdr, Ctrl.latch, state, acked]
      · rw [c.step_running i running]
        simp [Ctrl.dcR, Ctrl.latch, state, acked]

theorem lane1_loads (running : i.wbRst = false) (linked : c.Linked)
    (answered : i.wbsAck4 = true → i.wbsRty4 = false ∧ i.wbsErr4 = false) (state : c.state = .sCmd1) :
    LaneStep 1 c i c.stage1 (c.step i).stage1 := by
  have acked := i.acked_eq answered
  obtain ⟨stateN, _, _, _, incN, _, _⟩ := c.step_burst i .sWait0 running (state ▸ .cmd1)
  have cont : (c.step i).dc0R.getLsbD 10 = true := by
    rw [show (c.step i).dc0R = c.dc0R from (c.step_sameJob0 i running (by simp [state])).2]
    exact linked state
  refine LaneStep.loads 1 ?_ ?_ ?_ (fun last => ?_) (fun last => ?_) incN ?_ ?_
  · simp [Ctrl.ssWe, Ctrl.ssWe2, state, acked]
  · simp [Ctrl.ssDone, Ctrl.ssDone2, state]
  · simp [Ctrl.stage, Ctrl.stage1, state]
  · simp [Ctrl.stage, Ctrl.stage1, stateN, state, last]
  · simp [Ctrl.stage, Ctrl.stage1, stateN, last, cont]
  · rw [c.step_running i running]
    simp [Ctrl.ctlAdr, Ctrl.latch, state, acked]
  · rw [c.step_running i running]
    simp [Ctrl.dcR, Ctrl.latch, state, acked]

theorem lane0_runs (running : i.wbRst = false) (state : c.state = .sCmd1 ∨ c.state = .sNext0 ∧ c.appendMode = false) :
    LaneStep 0 c i c.stage0 (c.step i).stage0 := by
  have next := c.step_stateN i running
  rw [Ctrl.comb_stateN] at next
  have before : c.stage0 = .running := by rcases state with cmd | ⟨link, mode⟩ <;> simp [Ctrl.stage0, *]
  have after : (c.step i).stage0 = .running := by
    rcases state with cmd | ⟨link, mode⟩
    · simp only [cmd] at next
      cases last : c.lastWord i <;> simp [Ctrl.stage0, next, last]
    · simp only [link] at next
      cases cont : c.dc0R.getLsbD 10 <;> simp [Ctrl.stage0, next, cont, mode]
  have apart : c.state ≠ .sCmd0 ∧ c.state ≠ .sTr0 := by rcases state with cmd | ⟨link, _⟩ <;> simp [*]
  obtain ⟨silent, open_⟩ := Ctrl.away0 i apart.1 apart.2
  rw [before, after]
  exact .runs silent open_ (c.step_sameJob0 i running apart.1)

theorem lane0_rests (running : i.wbRst = false) (state : c.state ≠ .sCmd0 ∧ c.state ≠ .sTr0) (before : c.stage0 = .free) :
    LaneStep 0 c i c.stage0 (c.step i).stage0 := by
  have next := c.step_stateN i running
  have opens := c.step_opened i running
  rw [Ctrl.comb_stateN] at next
  rw [Ctrl.comb_incReset] at opens
  obtain ⟨silent, open_⟩ := Ctrl.away0 i state.1 state.2
  suffices after : (c.step i).stage0 = .free by
    rw [before, after]
    exact .rest silent open_
  cases here : c.state with
  | sIdle =>
      simp only [here] at next opens
      cases starts : i.enable && (i.ndarDirty || i.append) with
      | true => exact Ctrl.stage0_cmd0_opened _ (by rw [next, starts]; rfl) (opens starts).1
      | false =>
          have stays : (c.step i).state = .sIdle := by rw [next, starts]; rfl
          simp [Ctrl.stage0, stays]
  | sNext0 =>
      simp only [here] at next opens
      have mode : c.appendMode = true := by simpa [Ctrl.stage0, here] using before
      cases cont : c.dc0R.getLsbD 10 with
      | true => exact Ctrl.stage0_cmd0_opened _ (by simp [next, cont, mode]) (opens cont).1
      | false =>
          have idle : (c.step i).state = .sIdle := by simp [next, cont, mode]
          simp [Ctrl.stage0, idle]
  | sNext1 =>
      simp only [here] at next opens
      exact Ctrl.stage0_cmd0_opened _ next (opens trivial).1
  | sWait1 | sCtl1 | sTr1 | sCyc1 =>
      simp only [here] at next
      unfold Ctrl.stage0
      rw [next]
      split_ifs <;> rfl
  | sCmd0 => exact absurd here state.1
  | sTr0 => exact absurd here state.2
  | sCmd1 | sWait0 | sCtl0 | sCyc0 => simp [Ctrl.stage0, here] at before

theorem lane0_step (c : Ctrl) (i : CtrlIn) (running : i.wbRst = false)
    (answered : i.wbsAck4 = true → i.wbsRty4 = false ∧ i.wbsErr4 = false) :
    LaneStep 0 c i c.stage0 (c.step i).stage0 := by
  cases state : c.state with
  | sCmd0 => exact lane0_loads running answered state
  | sCmd1 => exact lane0_runs running (.inl state)
  | sWait0 => exact lane_awaits 0 running state
  | sCtl0 => exact lane_reports 0 running state
  | sTr0 => exact lane_closes 0 running state
  | sCyc0 => exact lane_retires 0 running state
  | sNext0 =>
      cases mode : c.appendMode with
      | true => exact lane0_rests running (by simp [state]) (by simp [Ctrl.stage0, state, mode])
      | false => exact lane0_runs running (.inr ⟨state, mode⟩)
  | sIdle | sNext1 | sWait1 | sCtl1 | sTr1 | sCyc1 => exact lane0_rests running (by simp [state]) (by simp [Ctrl.stage0, state])

theorem lane1_queued (running : i.wbRst = false)
    (state : c.state = .sWait0 ∨ c.state = .sCtl0 ∨ c.state = .sTr0 ∨ c.state = .sCyc0) :
    LaneStep 1 c i c.stage1 (c.step i).stage1 := by
  have next := c.step_stateN i running
  rw [Ctrl.comb_stateN] at next
  have apart : c.state ≠ .sCmd0 ∧ c.state ≠ .sCmd1 ∧ c.state ≠ .sTr1 := by rcases state with h | h | h | h <;> simp [h]
  have same : (c.step i).dc0R = c.dc0R := (c.step_sameJob0 i running apart.1).2
  obtain ⟨silent, open_⟩ := Ctrl.away1 i apart.2.1 apart.2.2
  by_cases cont : c.dc0R.getLsbD 10 = true
  · have before : c.stage1 = .running := by rcases state with h | h | h | h <;> simp [Ctrl.stage1, h, cont]
    have after : (c.step i).stage1 = .running := by
      unfold Ctrl.stage1
      rw [next, same]
      rcases state with h | h | h | h <;> simp only [h, cont] <;> split_ifs <;> rfl
    rw [before, after]
    exact .runs silent open_ (c.step_sameJob1 i running apart.2.1)
  · have before : c.stage1 = .free := by rcases state with h | h | h | h <;> simp [Ctrl.stage1, h, cont]
    have after : (c.step i).stage1 = .free := by
      unfold Ctrl.stage1
      rw [next, same]
      rcases state with h | h | h | h <;> simp only [h, if_neg cont] <;> split_ifs <;> rfl
    rw [before, after]
    exact .rest silent open_

theorem lane1_rests (running : i.wbRst = false)
    (state : c.state = .sIdle ∨ c.state = .sCmd0 ∨ c.state = .sNext1 ∨ c.state = .sNext0) :
    LaneStep 1 c i c.stage1 (c.step i).stage1 := by
  have next := c.step_stateN i running
  have opens := c.step_opened i running
  rw [Ctrl.comb_stateN] at next
  rw [Ctrl.comb_incReset] at opens
  have apart : c.state ≠ .sCmd1 ∧ c.state ≠ .sTr1 := by rcases state with h | h | h | h <;> simp [h]
  obtain ⟨silent, open_⟩ := Ctrl.away1 i apart.1 apart.2
  have before : c.stage1 = .free := by rcases state with h | h | h | h <;> simp [Ctrl.stage1, h]
  suffices after : (c.step i).stage1 = .free by
    rw [before, after]
    exact .rest silent open_
  rcases state with h | h | h | link
  · simp only [h] at next
    unfold Ctrl.stage1
    rw [next]
    split_ifs <;> rfl
  · simp only [h] at next
    unfold Ctrl.stage1
    rw [next]
    split_ifs <;> rfl
  · simp only [h] at next
    simp [Ctrl.stage1, next]
  · simp only [link] at next opens
    have same : (c.step i).dc0R = c.dc0R := (c.step_sameJob0 i running (by simp [link])).2
    cases mode : c.appendMode with
    | true => cases cont : c.dc0R.getLsbD 10 <;> simp [Ctrl.stage1, next, cont, mode]
    | false =>
        cases cont : c.dc0R.getLsbD 10 with
        | true => exact Ctrl.stage1_cmd1_opened _ (by simp [next, cont, mode]) (opens cont).1
        | false => simp [Ctrl.stage1, next, same, cont, mode]

theorem lane1_step (c : Ctrl) (i : CtrlIn) (running : i.wbRst = false) (linked : c.Linked)
    (answered : i.wbsAck4 = true → i.wbsRty4 = false ∧ i.wbsErr4 = false) :
    LaneStep 1 c i c.stage1 (c.step i).stage1 := by
  cases state : c.state with
  | sCmd1 => exact lane1_loads running linked answered state
  | sWait1 => exact lane_awaits 1 running state
  | sCtl1 => exact lane_reports 1 running state
  | sTr1 => exact lane_closes 1 running state
  | sCyc1 => exact lane_retires 1 running state
  | sIdle | sCmd0 | sNext1 | sNext0 => exact lane1_rests running (by simp [state])
  | sWait0 | sCtl0 | sTr0 | sCyc0 => exact lane1_queued running (by simp [state])

end

theorem lane_step (lane : Fin 2) (c : Ctrl) (i : CtrlIn) (running : i.wbRst = false) (linked : c.Linked)
    (answered : i.wbsAck4 = true → i.wbsRty4 = false ∧ i.wbsErr4 = false) :
    LaneStep lane c i (c.stage lane) ((c.step i).stage lane) := by
  match lane with
  | 0 => exact lane0_step c i running answered
  | 1 => exact lane1_step c i running linked answered

end SsAdma
