import SsAdma.CopyError
import SsAdma.Status

set_option autoImplicit false

namespace SsAdma

structure Bench.Counted (n : Nat) (b : Bench) (qd : ChQueue) (written : Nat) : Prop where
  count : b.chan.ch.ocnt = BitVec.ofNat 16 (min qd.pushed.length n)
  behind : min written n ≤ qd.pushed.length

theorem Bench.step_ocnt (job : JobDesc) (b : Bench) (i : BenchIn) :
    (b.step job i).chan.ch.ocnt =
      if !(b.mod job i).mDstPutn && !(b.mod job i).mDstLast then b.chan.ch.ocnt + 1 else b.chan.ch.ocnt := rfl

section

variable {job : JobDesc} {mem : Mem} {kept : BitVec 29 → Prop} {srcWords dstWords : List (BitVec 29)} {b : Bench}
  {qs qd : ChQueue} {written : Nat}

theorem Bench.Copying.puts (copying : b.Copying job mem kept srcWords dstWords qs qd written)
    (given : CopyJob job mem kept srcWords dstWords) (i : BenchIn) :
    (!(b.mod job i).mDstPutn) = decide (b.chan.copy = .sRun) :=
  (copy_out b.chan.copy (job.cmd b.loaded i.lines) b.chan.ch rfl (copying.selected given i.lines)).2.1

theorem Bench.Copying.strobed (copying : b.Copying job mem kept srcWords dstWords qs qd written)
    (given : CopyJob job mem kept srcWords dstWords) (i : BenchIn) (run : b.chan.copy = .sRun) :
    (qd.step (b.dstPut job i) (b.dstGet job i)).pushed =
      qd.pushed ++ [⟨(b.mod job i).mDstLast, (b.mod job i).mDst⟩] := by
  have put : b.dstPut job i = some ⟨(b.mod job i).mDstLast, (b.mod job i).mDst⟩ := by
    rw [dstPut, copying.puts given i, if_pos (decide_eq_true run)]
  simp [put, qd.step_put, (copying.copy.running run).2]

theorem Bench.Copying.silent (copying : b.Copying job mem kept srcWords dstWords qs qd written)
    (given : CopyJob job mem kept srcWords dstWords) (i : BenchIn) (still : b.chan.copy ≠ .sRun) :
    (qd.step (b.dstPut job i) (b.dstGet job i)).pushed = qd.pushed := by
  have put : b.dstPut job i = none := by rw [dstPut, copying.puts given i, if_neg (by simpa using still)]
  rw [put, qd.step_quiet]

theorem Bench.Copying.counts (copying : b.Copying job mem kept srcWords dstWords qs qd written)
    (given : CopyJob job mem kept srcWords dstWords) (i : BenchIn)
    (stream : Streamed (srcWords.map mem) (qd.step (b.dstPut job i) (b.dstGet job i)).pushed)
    (count : b.chan.ch.ocnt = BitVec.ofNat 16 (min qd.pushed.length srcWords.length)) :
    (b.step job i).chan.ch.ocnt =
      BitVec.ofNat 16 (min (qd.step (b.dstPut job i) (b.dstGet job i)).pushed.length srcWords.length) := by
  rw [b.step_ocnt, copying.puts given i, count]
  by_cases run : b.chan.copy = .sRun
  · have pushed := copying.strobed given i run
    rw [pushed] at stream ⊢
    obtain ⟨inside, last, _⟩ := stream.word _ _ qd.pushed.length (by simp)
    simp only [List.getElem_concat_length, List.length_map] at inside last
    rw [last, List.length_append, List.length_singleton]
    by_cases marker : qd.pushed.length = srcWords.length
    · simp [run, marker]
    · have next : min (qd.pushed.length + 1) srcWords.length = qd.pushed.length + 1 := by omega
      have now : min qd.pushed.length srcWords.length = qd.pushed.length := by omega
      simp [run, marker, next, now, BitVec.ofNat_add]
  · rw [copying.silent given i run]
    simp [run]

theorem Bench.Copying.counted (copying : b.Copying job mem kept srcWords dstWords qs qd written)
    (given : CopyJob job mem kept srcWords dstWords) (i : BenchIn) (fresh : EndIsFresh b i)
    (counted : b.Counted srcWords.length qd written) :
    (b.step job i).Counted srcWords.length (qd.step (b.dstPut job i) (b.dstGet job i))
      (if b.chan.dst.state = .sBReq ∧ i.dst.resp = .ack then written + 1 else written) := by
  refine ⟨copying.counts given i (copying.step given i fresh).dst.stream counted.count, ?_⟩
  have behind := counted.behind
  change _ ≤ (qd.pushed ++ qd.accepted _).length
  rw [List.length_append]
  split_ifs with moves
  · have popped := copying.dst.popped (by simp [moves])
    have seen := qd.not_empty_iff.mp (copying.dst.shown moves.1)
    have bounds := qd.bounds
    rw [List.length_map] at popped
    omega
  · omega

end

def ReportsOcnt (c : Ctrl) (i : CtrlIn) (ocnt : BitVec 16) : Prop :=
  c.inc = 0#2 ∧ (c.state = .sCtl0 ∧ i.ocnt0 = ocnt ∨ c.state = .sCtl1 ∧ i.ocnt1 = ocnt)

theorem reports_bytes (c : Ctrl) (i : CtrlIn) (ocnt : BitVec 16) (reports : ReportsOcnt c i ocnt) :
    (c.wbsDatI4 i).toNat = 8 * ocnt.toNat := by
  have widened : c.wbsDatI4 i = (ocnt ++ 0#3).setWidth 64 := by
    obtain ⟨word, ⟨state, rfl⟩ | ⟨state, rfl⟩⟩ := reports
    · simp [Ctrl.wbsDatI4, Ctrl.ctl0, state, word]
    · simp [Ctrl.wbsDatI4, Ctrl.ctl1, state, word]
  rw [widened, BitVec.toNat_setWidth, append_toNat]
  have bound := ocnt.isLt
  simp
  omega

theorem output_size_iff (job : JobDesc) (kept : BitVec 29 → Prop) (srcWords dstWords : List (BitVec 29)) (start : Bench)
    (inputs : List BenchIn) (given : CopyJob job start.mem kept srcWords dstWords)
    (fits : srcWords.length ≤ dstWords.length) (closed : start.chan.Closed) (unloaded : start.loaded = 0)
    (cleared : start.chan.ch.ocnt = 0) (fresh : Clocked.Admits (Bench.step job) EndIsFresh start inputs)
    (done : (Clocked.run (Bench.step job) start inputs).chan.dst.cDone = true) (c : Ctrl) (i : CtrlIn)
    (reports : ReportsOcnt c i (Clocked.run (Bench.step job) start inputs).chan.ch.ocnt) :
    (c.wbsDatI4 i).toNat = 8 * srcWords.length ↔ srcWords.length < 2 ^ 16 := by
  obtain ⟨qs, qd, written, copying, counted⟩ := Clocked.invariant_run (Bench.step job) EndIsFresh
    (fun b => ∃ qs qd written, b.Copying job start.mem kept srcWords dstWords qs qd written ∧
      b.Counted srcWords.length qd written)
    (fun b i ⟨_, _, _, copying, counted⟩ now => ⟨_, _, _, copying.step given i now, copying.counted given i now counted⟩)
    start inputs
    ⟨.nil, .nil, 0, Bench.Copying.initial job kept srcWords dstWords start given closed unloaded,
      by simpa [DelayQueue.nil] using cleared, by simp⟩ fresh
  have enough := copying.finished (copying.done done)
  have behind := counted.behind
  have whole : min qd.pushed.length srcWords.length = srcWords.length := by omega
  rw [reports_bytes c i _ reports, counted.count, whole, BitVec.toNat_ofNat]
  omega

def writingOcnt : Ctrl := { (default : Ctrl) with state := .sCtl0, inc := 0 }

def ocntLines (ocnt : BitVec 16) : CtrlIn := { errLines 0 with ocnt0 := ocnt }

theorem ocntLines_report (ocnt : BitVec 16) : ReportsOcnt writingOcnt (ocntLines ocnt) ocnt := ⟨rfl, .inl ⟨rfl, rfl⟩⟩

theorem Chan.ocnt_by_ctrl (c : Chan) (cmd : ChanCmd) (srcBus dstBus : BusIn) (resets : cmd.mReset = true) :
    (c.step cmd srcBus dstBus).ch.ocnt = 0 := by
  simp [step, Ch.step, resets]

set_option maxRecDepth 100000 in
-- The job that an old marker has stopped after 256 of 300 words reports 2048
-- bytes, also some periods after c_done.
theorem stale_end_undercounts :
    CopyJob copyDesc afterFirstJob.mem belowTarget (segment 0x1000 300) (segment 0x2000 300) ∧
      (segment 0x1000 300).length ≤ (segment 0x2000 300).length ∧ afterFirstJob.chan.Closed ∧ afterFirstJob.loaded = 0 ∧
      afterFirstJob.chan.ch.ocnt = 0 ∧
      (Clocked.run (Bench.step copyDesc) afterFirstJob (sourceFirst 270)).chan.dst.cDone = true ∧
      ¬ (writingOcnt.wbsDatI4
          (ocntLines (Clocked.run (Bench.step copyDesc) afterFirstJob (sourceFirst 270)).chan.ch.ocnt)).toNat =
        8 * (segment 0x1000 300).length := by
  have ran : (Clocked.run (Bench.step copyDesc) afterFirstJob (sourceFirst 270)).chan.dst.cDone = true ∧
      (Clocked.run (Bench.step copyDesc) afterFirstJob (sourceFirst 270)).chan.ch.ocnt = 256 := by
    decide +kernel
  refine ⟨long_given, by decide +kernel, afterFirstJob_closed, rfl, Chan.ocnt_by_ctrl _ _ _ _ rfl, ran.1, ?_⟩
  rw [ran.2]
  decide +kernel

theorem two_words_sized :
    (writingOcnt.wbsDatI4
        (ocntLines (Clocked.run (Bench.step copyDesc) ⟨powerUp, segments 2 2, 0⟩ twoWords).chan.ch.ocnt)).toNat =
      8 * (segment 0x1000 2).length ↔ (segment 0x1000 2).length < 2 ^ 16 :=
  output_size_iff copyDesc belowTarget (segment 0x1000 2) (segment 0x2000 2) ⟨powerUp, segments 2 2, 0⟩ twoWords
    two_by_two_given (by decide) powerUp_closed rfl rfl (by decide +kernel) (by decide +kernel) writingOcnt _
    (ocntLines_report _)

end SsAdma
