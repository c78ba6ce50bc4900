import SsAdma.CopyRun
import SsAdma.Ctrl

set_option autoImplicit false

namespace SsAdma

-- What err depends on in a job of n source words for m destination words: no
-- end bit is read from a slot that holds no word of this job, and where the
-- list ends one word away from the stream, the marker is where S_NEXT needs it.
-- With n = m it must already have left the copy module; with n = m + 1 it must
-- not stand behind the word S_NEXT throws away.
structure EndIsSettled (n m : Nat) (b : Bench) (i : BenchIn) : Prop where
  fresh : EndIsFresh b i
  held : b.chan.dst.state = .sEnd → b.chan.ch.dstEnd = true → b.chan.ch.dst.fresh = true
  exactFit : n = m → b.chan.dst.state = .sNext → b.chan.dst.sgLast = true → b.chan.copy = .sEnd
  oneLeft : n = m + 1 → b.chan.dst.state = .sNext → b.chan.dst.sgLast = true → b.chan.copy = .sEnd →
    b.chan.ch.dst.control.emptyOut = true

instance (n m : Nat) (b : Bench) (i : BenchIn) : Decidable (EndIsSettled n m b i) :=
  decidable_of_iff (EndIsFresh b i ∧ (b.chan.dst.state = .sEnd → b.chan.ch.dstEnd = true → b.chan.ch.dst.fresh = true) ∧
    (n = m → b.chan.dst.state = .sNext → b.chan.dst.sgLast = true → b.chan.copy = .sEnd) ∧
    (n = m + 1 → b.chan.dst.state = .sNext → b.chan.dst.sgLast = true → b.chan.copy = .sEnd →
      b.chan.ch.dst.control.emptyOut = true))
    ⟨fun ⟨fresh, held, exactFit, oneLeft⟩ => ⟨fresh, held, exactFit, oneLeft⟩,
      fun settled => ⟨settled.fresh, settled.held, settled.exactFit, settled.oneLeft⟩⟩

structure Bench.Judged (n m : Nat) (b : Bench) (qd : ChQueue) : Prop where
  complete : n ≤ m → qd.ready ∧ qd.popped = n
  truncated : m < n → b.chan.dst.cDone = false → qd.ready → qd.popped < n
  entered : b.chan.dst.cDone = false → b.chan.dst.err = 0
  settled : b.chan.dst.cDone = true → (b.chan.dst.err = 0 ↔ n ≤ m)

section

variable {job : JobDesc} {mem : Mem} {kept : BitVec 29 → Prop} {srcWords dstWords : List (BitVec 29)} {b : Bench}
  {qs qd : ChQueue} {written : Nat}

theorem Bench.dst_still (job : JobDesc) (b : Bench) (i : BenchIn) (qd : ChQueue) (notMoving : b.chan.dst.state ≠ .sBReq)
    (notNext : b.chan.dst.state ≠ .sNext) : qd.taken (b.dstGet job i) = 0 := by
  have xfer := (b.chan.dst.comb_xfer true (job.cmd b.loaded i.lines) (b.chan.dst.answer b.mem i.dst)
    (b.chan.ch.dstStart (b.mod job i).mEndn) b.chan.ch.dstEnd b.chan.ch.dstStop).1
  have quiet : b.dstGet job i = false := by
    simp [dstGet, dstIn, xfer, notMoving, notNext]
  simp [DelayQueue.taken, quiet]

theorem Bench.Copying.stays (copying : b.Copying job mem kept srcWords dstWords qs qd written) (i : BenchIn)
    (settled : EndIsSettled srcWords.length dstWords.length b i) (state : b.chan.dst.state = .sEnd)
    (judged : b.Judged srcWords.length dstWords.length qd) :
    (b.step job i).Judged srcWords.length dstWords.length (qd.step (b.dstPut job i) (b.dstGet job i)) := by
  have still := b.dst_still job i qd (by simp [state]) (by simp [state])
  have engine : (b.step job i).chan.dst =
      { b.chan.dst with cDone := true, err := if b.chan.ch.dstEnd then b.chan.dst.err else SgState.sEnd.code } :=
    b.chan.dst.step_sEnd true _ _ _ _ _ rfl state
  constructor
  · intro fits
    obtain ⟨ready, atEnd⟩ := judged.complete fits
    refine ⟨qd.ready_kept _ _ ready still, ?_⟩
    change qd.popped + qd.taken _ = _
    rw [still, atEnd, Nat.add_zero]
  · intro _ first
    simp [engine] at first
  · intro first
    simp [engine] at first
  · intro _
    rw [engine]
    by_cases fits : srcWords.length ≤ dstWords.length
    · obtain ⟨ready, atEnd⟩ := judged.complete fits
      have marker : b.chan.ch.dstEnd = true := (copying.marker ready).2.trans (by simp [atEnd])
      simp only [marker, fits, iff_true, if_true]
      cases first : b.chan.dst.cDone with
      | false => exact judged.entered first
      | true => exact (judged.settled first).mpr fits
    · simp only [fits, iff_false]
      cases first : b.chan.dst.cDone with
      | false =>
          have noMarker : b.chan.ch.dstEnd = false := by
            by_contra marker
            have ready : qd.ready := by
              simpa [copying.dst.fifo.fresh_ready] using settled.held state (by simpa using marker)
            have before := judged.truncated (by omega) first ready
            simp [(copying.marker ready).2, Nat.ne_of_lt before] at marker
          simp [noMarker, SgState.code]
      | true =>
          have wrong : b.chan.dst.err ≠ 0 := fun zero => fits ((judged.settled first).mp zero)
          split_ifs
          · exact wrong
          · simp [SgState.code]

theorem Bench.Copying.spent (copying : b.Copying job mem kept srcWords dstWords qs qd written) (i : BenchIn)
    (atEnd : qd.popped = srcWords.length) : qd.taken (b.dstGet job i) = 0 := by
  cases empty : qd.empty with
  | true => simp [DelayQueue.taken, empty]
  | false =>
      have marker : b.chan.ch.dstEnd = true := (copying.marker (qd.ready_of_not_empty empty)).2.trans (by simp [atEnd])
      simp [DelayQueue.taken, dstGet, marker]

theorem Bench.Copying.listEnds (copying : b.Copying job mem kept srcWords dstWords qs qd written) (i : BenchIn)
    (settled : EndIsSettled srcWords.length dstWords.length b i) (state : b.chan.dst.state = .sNext)
    (last : b.chan.dst.sgLast = true) :
    (srcWords.length ≤ dstWords.length → (qd.step (b.dstPut job i) (b.dstGet job i)).ready ∧
      (qd.step (b.dstPut job i) (b.dstGet job i)).popped = srcWords.length) ∧
    (dstWords.length < srcWords.length → (qd.step (b.dstPut job i) (b.dstGet job i)).ready →
      (qd.step (b.dstPut job i) (b.dstGet job i)).popped < srcWords.length) := by
  have whole := List.drop_eq_nil_iff.mp (copying.dst.onJob.lastNext state last)
  have within := copying.within
  have popped := copying.dst.popped (by simp [state])
  rw [List.length_map] at popped
  have ended := copying.copy.ended
  rw [List.length_map] at ended
  rw [DelayQueue.ready_step]
  change (_ → _ ∧ qd.popped + qd.taken _ = _) ∧ (_ → _ → qd.popped + qd.taken _ < _)
  constructor
  · intro fits
    have atEnd : qd.popped = srcWords.length := by omega
    have pushed : srcWords.length < qd.pushed.length := by
      by_cases exact : srcWords.length = dstWords.length
      · exact ended.mp (settled.exactFit exact state last)
      · have marked := copying.dst.marked (by simp [state])
        rw [List.length_map] at marked
        have seen := qd.not_empty_iff.mp (marked (by omega))
        have bounds := qd.bounds
        omega
    have none := copying.spent i atEnd
    omega
  · intro more ready
    by_contra reached
    have short := qd.taken_bound (b.dstGet job i)
    have one : srcWords.length = dstWords.length + 1 := by omega
    have moved : b.chan.copy = .sEnd := ended.mpr (by omega)
    have empty := settled.oneLeft one state last moved
    rw [copying.dst.fifo.control, ofQueue_emptyOut] at empty
    have none : qd.taken (b.dstGet job i) = 0 := by simp [DelayQueue.taken, empty]
    omega

theorem Bench.Copying.judged (copying : b.Copying job mem kept srcWords dstWords qs qd written)
    (given : CopyJob job mem kept srcWords dstWords) (i : BenchIn)
    (settled : EndIsSettled srcWords.length dstWords.length b i)
    (before : b.chan.dst.state = .sEnd → b.Judged srcWords.length dstWords.length qd)
    (ended : (b.step job i).chan.dst.state = .sEnd) :
    (b.step job i).Judged srcWords.length dstWords.length (qd.step (b.dstPut job i) (b.dstGet job i)) := by
  by_cases state : b.chan.dst.state = .sEnd
  · exact copying.stays i settled state (before state)
  · have first : (b.step job i).chan.dst.cDone = false := decide_eq_false state
    have clean : (b.step job i).chan.dst.err = 0 := by
      have notIdle : b.chan.dst.state ≠ .sIdle := by
        rw [(b.step_chan job i).2.1] at ended
        rcases copying.dst.onJob.ends given.writes i.lines _ _ _ _ ended with finished | ⟨next, _⟩ | ⟨wait, _⟩
        · simp [finished]
        · simp [next]
        · simp [wait]
      rw [(b.step_chan job i).2.1, dstIn, b.chan.dst.step_err true _ _ _ _ _ rfl notIdle state]
      exact copying.dst.onJob.noError state notIdle
    have judgement : (srcWords.length ≤ dstWords.length → (qd.step (b.dstPut job i) (b.dstGet job i)).ready ∧
          (qd.step (b.dstPut job i) (b.dstGet job i)).popped = srcWords.length) ∧
        (dstWords.length < srcWords.length → (qd.step (b.dstPut job i) (b.dstGet job i)).ready →
          (qd.step (b.dstPut job i) (b.dstGet job i)).popped < srcWords.length) := by
      rw [(b.step_chan job i).2.1] at ended
      rcases copying.dst.onJob.ends given.writes i.lines _ _ _ _ ended with finished | ⟨next, last⟩ | ⟨wait, marker, io⟩
      · exact absurd finished state
      · exact copying.listEnds i settled next last
      · have still := b.dst_still job i qd (by simp [wait]) (by simp [wait])
        have ready : qd.ready := by simpa [copying.dst.fifo.fresh_ready] using settled.fresh wait io marker
        have atEnd : qd.popped = srcWords.length := of_decide_eq_true ((copying.marker ready).2.symm.trans marker)
        have popped := copying.dst.popped (by simp [wait])
        have more := mt List.drop_eq_nil_iff.mpr (copying.dst.onJob.waiting wait)
        rw [List.length_map] at popped
        refine ⟨fun _ => ⟨qd.ready_kept _ _ ready still, ?_⟩, fun less => ?_⟩
        · change qd.popped + qd.taken _ = _
          omega
        · omega
    exact ⟨judgement.1, fun more _ => judgement.2 more, fun _ => clean, fun done => by simp [first] at done⟩

end

def ReportsErr (c : Ctrl) (i : CtrlIn) (err : BitVec 3) : Prop :=
  c.inc = 1#2 ∧ (c.state = .sCtl0 ∧ i.err1 = err ∨ c.state = .sCtl1 ∧ i.err3 = err)

theorem reports_zero (c : Ctrl) (i : CtrlIn) (err : BitVec 3) (reports : ReportsErr c i err) :
    c.wbsDatI4 i = 0 ↔ err = 0 := by
  have widened : c.wbsDatI4 i = err.setWidth 64 := by
    obtain ⟨word, ⟨state, rfl⟩ | ⟨state, rfl⟩⟩ := reports
    · simp [Ctrl.wbsDatI4, Ctrl.ctl0, state, word]
    · simp [Ctrl.wbsDatI4, Ctrl.ctl1, state, word]
  rw [widened]
  constructor
  · intro zero
    bv_omega
  · rintro rfl
    rfl

theorem err_exact_if_settled (job : JobDesc) (kept : BitVec 29 → Prop) (srcWords dstWords : List (BitVec 29))
    (start : Bench) (inputs : List BenchIn) (given : CopyJob job start.mem kept srcWords dstWords)
    (closed : start.chan.Closed) (unloaded : start.loaded = 0)
    (settled : Clocked.Admits (Bench.step job) (EndIsSettled srcWords.length dstWords.length) start inputs)
    (done : (Clocked.run (Bench.step job) start inputs).chan.dst.cDone = true) (c : Ctrl) (i : CtrlIn)
    (reports : ReportsErr c i (Clocked.run (Bench.step job) start inputs).chan.dst.err) :
    c.wbsDatI4 i = 0 ↔ srcWords.length ≤ dstWords.length := by
  obtain ⟨qs, qd, written, copying, judged⟩ := Clocked.invariant_run (Bench.step job)
    (EndIsSettled srcWords.length dstWords.length)
    (fun b => ∃ qs qd written, b.Copying job start.mem kept srcWords dstWords qs qd written ∧
      (b.chan.dst.state = .sEnd → b.Judged srcWords.length dstWords.length qd))
    (fun b i ⟨_, _, _, copying, before⟩ now =>
      ⟨_, _, _, copying.step given i now.fresh, copying.judged given i now before⟩) start inputs
    ⟨.nil, .nil, 0, Bench.Copying.initial job kept srcWords dstWords start given closed unloaded, by simp [closed.dst.idle]⟩
    settled
  rw [reports_zero c i _ reports]
  exact (judged (copying.done done)).settled done

def writingErr : Ctrl := { (default : Ctrl) with state := .sCtl0, inc := 1 }

def errLines (err : BitVec 3) : CtrlIn where
  wbsDatO4 := 0
  wbsDat64O4 := 0
  wbsAck4 := true
  wbsRty4 := false
  cDone1 := true
  cDone3 := false
  ndarDirty := false
  ndar := 0
  wbIntClear := false
  wbIntEnable := true
  append := false
  enable := true
  ocnt0 := 0
  ocnt1 := 0
  err1 := err
  err3 := 0
  wbsCycI := true

-- One word too many: S_NEXT pops it, and S_END sees the marker behind it.
theorem overflow_unreported :
    CopyJob copyDesc (segments 2 1) belowTarget (segment 0x1000 2) (segment 0x2000 1) ∧ powerUp.Closed ∧
      (Clocked.run (Bench.step copyDesc) ⟨powerUp, segments 2 1, 0⟩ twoWords).chan.dst.cDone = true ∧
      ¬ (writingErr.wbsDatI4 (errLines (Clocked.run (Bench.step copyDesc) ⟨powerUp, segments 2 1, 0⟩ twoWords).chan.dst.err) = 0 ↔
        (segment 0x1000 2).length ≤ (segment 0x2000 1).length) := by
  refine ⟨segments_given 2 1 (by decide)
    (.single _ _ _ _ _ (by decide +kernel) (by decide) (by decide) (by decide) (by decide))
    (.single _ _ _ _ _ (by decide +kernel) (by decide) (by decide) (by decide) (by decide)),
    powerUp_closed, ?_, ?_⟩
  · decide +kernel
  · decide +kernel

theorem two_words_reported :
    writingErr.wbsDatI4 (errLines (Clocked.run (Bench.step copyDesc) ⟨powerUp, segments 2 2, 0⟩ twoWords).chan.dst.err) = 0 ↔
      (segment 0x1000 2).length ≤ (segment 0x2000 2).length :=
  err_exact_if_settled copyDesc belowTarget (segment 0x1000 2) (segment 0x2000 2) ⟨powerUp, segments 2 2, 0⟩ twoWords
    two_by_two_given powerUp_closed rfl (by decide +kernel) (by decide +kernel) writingErr _ ⟨rfl, .inl ⟨rfl, rfl⟩⟩

end SsAdma
