import SsAdma.SrcSide
import SsAdma.DstSide
import SsAdma.CopySide
import SsAdma.Clocked

set_option autoImplicit false

namespace SsAdma

structure Bench where
  chan : Chan
  mem : Mem
  loaded : Nat

structure BenchIn where
  lines : CtrlLines
  src : BusIn
  dst : BusIn

def Bench.writes (b : Bench) (i : BenchIn) : List (BitVec 29 × BitVec 64) :=
  b.chan.dst.writeCycle b.chan.ch.dst.dout.data i.dst

def Bench.step (job : JobDesc) (b : Bench) (i : BenchIn) : Bench where
  chan := b.chan.step (job.cmd b.loaded i.lines) (b.chan.src.answer b.mem i.src) (b.chan.dst.answer b.mem i.dst)
  mem := (b.writes i).foldl Mem.write b.mem
  loaded := i.lines.count b.loaded

def Bench.mod (job : JobDesc) (b : Bench) (i : BenchIn) : ModOut :=
  b.chan.copy.out (modIn (job.cmd b.loaded i.lines) b.chan.ch)

def Bench.srcIn (job : JobDesc) (b : Bench) (i : BenchIn) : SsSgIn :=
  sgIn (job.cmd b.loaded i.lines) (b.chan.src.answer b.mem i.src) b.chan.ch.srcStart b.chan.ch.srcEnd b.chan.ch.srcStop

def Bench.dstIn (job : JobDesc) (b : Bench) (i : BenchIn) : SsSgIn :=
  sgIn (job.cmd b.loaded i.lines) (b.chan.dst.answer b.mem i.dst) (b.chan.ch.dstStart (b.mod job i).mEndn) b.chan.ch.dstEnd
    b.chan.ch.dstStop

def Bench.srcGet (job : JobDesc) (b : Bench) (i : BenchIn) : Bool := !(b.mod job i).mSrcGetn

def Bench.srcPut (job : JobDesc) (b : Bench) (i : BenchIn) : Option RamWord :=
  if (b.chan.src.comb false (b.srcIn job i)).ssXfer then
    some ⟨(b.chan.src.comb false (b.srcIn job i)).ssLast, (b.chan.src.answer b.mem i.src).dat⟩
  else none

def Bench.dstGet (job : JobDesc) (b : Bench) (i : BenchIn) : Bool :=
  (b.chan.dst.comb true (b.dstIn job i)).ssXfer && !b.chan.ch.dstEnd

def Bench.dstPut (job : JobDesc) (b : Bench) (i : BenchIn) : Option RamWord :=
  if !(b.mod job i).mDstPutn then some ⟨(b.mod job i).mDstLast, (b.mod job i).mDst⟩ else none

theorem Bench.step_chan (job : JobDesc) (b : Bench) (i : BenchIn) :
    (b.step job i).chan.src = b.chan.src.step false (b.srcIn job i) ∧
      (b.step job i).chan.dst = b.chan.dst.step true (b.dstIn job i) ∧
      (b.step job i).chan.copy = b.chan.copy.step (modIn (job.cmd b.loaded i.lines) b.chan.ch) := ⟨rfl, rfl, rfl⟩

theorem Bench.step_srcFifo (job : JobDesc) (b : Bench) (i : BenchIn) :
    (b.step job i).chan.ch.src = b.chan.ch.src.step false (b.srcGet job i) (b.chan.src.comb false (b.srcIn job i)).ssXfer
      ⟨(b.chan.src.comb false (b.srcIn job i)).ssLast, (b.chan.src.answer b.mem i.src).dat⟩ := by
  have joined : (b.srcIn job i).wbsDat64O ++ (b.srcIn job i).wbsDatO = (b.chan.src.answer b.mem i.src).dat :=
    BitVec.extractLsb'_append_extractLsb'
  rw [← joined]
  rfl

-- A channel between two jobs. The FIFO RAMs and the other registers keep what
-- the jobs before have left in them.
structure Chan.Closed (c : Chan) : Prop where
  src : c.src.Closed
  dst : c.dst.Closed
  srcFifo : c.ch.src.control = .cleared
  dstFifo : c.ch.dst.control = .cleared
  copy : c.copy = .sIdle

theorem SsSg.closed_after (rw : Bool) (r : SsSg) (done reset : SsSgIn) (closes : done.ssDone = true)
    (quiet : reset.ssWe = false) (running : reset.wbRst = false) : ((r.step rw done).step rw reset).Closed := by
  have idle : (r.step rw done).state = .sIdle := r.step_closed rw done closes
  have down : (r.step rw done).wbsCyc = false := by simp [step, latch, closes]
  refine ⟨(r.step rw done).step_idle rw reset idle quiet, ?_, ?_⟩
  · rw [step_running rw _ reset running]
    simp [latch, comb, hold, idle, down, quiet]
  · rw [step_running rw _ reset running]
    simp [latch, idle]

theorem Chan.closed_by_ctrl (c : Chan) (done reset : ChanCmd) (srcBus dstBus srcBus' dstBus' : BusIn)
    (closes : done.ssDone = true) (quiet : reset.ssWe = false) (resets : reset.mReset = true) :
    ((c.step done srcBus dstBus).step reset srcBus' dstBus').Closed where
  src := c.src.closed_after false _ _ closes quiet rfl
  dst := c.dst.closed_after true _ _ closes quiet rfl
  srcFifo := by simp [step, Ch.step, Fifo.step, FifoControl.step, resets]
  dstFifo := by simp [step, Ch.step, Fifo.step, FifoControl.step, resets]
  copy := by simp [step, Copy.step, modIn, resets]

structure CopyJob (job : JobDesc) (mem : Mem) (kept : BitVec 29 → Prop) (srcWords dstWords : List (BitVec 29)) : Prop where
  copies : job.dc.getLsbD 4 = true
  reads : job.dc.getLsbD 1 = true
  writes : job.dc.getLsbD 2 = true
  srcList : SgList mem kept (job.list false) srcWords
  dstList : SgList mem kept (job.list true) dstWords
  sources : ∀ adr ∈ srcWords, kept adr
  apart : ∀ adr ∈ dstWords, ¬ kept adr
  distinct : dstWords.Nodup

structure Bench.Copying (job : JobDesc) (mem : Mem) (kept : BitVec 29 → Prop) (srcWords dstWords : List (BitVec 29))
    (b : Bench) (qs qd : ChQueue) (written : Nat) : Prop where
  src : SrcSide job mem kept srcWords b.loaded b.chan.src b.chan.ch.src qs
  dst : DstSide job mem kept dstWords (srcWords.map mem) b.loaded b.chan.dst b.chan.ch.dst qd written
  copy : CopySide (srcWords.map mem) b.chan.copy qs qd
  unloaded : b.loaded < 4 → b.chan.copy = .sIdle
  within : written ≤ dstWords.length
  frame : ∀ adr, kept adr → b.mem adr = mem adr
  landed : ∀ j (listed : j < dstWords.length) (read : j < srcWords.length), j < written → b.mem dstWords[j] = mem srcWords[j]
  finished : b.chan.dst.state = .sEnd → min srcWords.length dstWords.length ≤ written
  done : b.chan.dst.cDone = true → b.chan.dst.state = .sEnd

-- In S_B_WAIT the end bit is believed only if a word of this job stands at the
-- output of the destination RAM.
def EndIsFresh (b : Bench) (_ : BenchIn) : Prop :=
  b.chan.dst.state = .sBWait → b.chan.dst.io = true → b.chan.ch.dstEnd = true → b.chan.ch.dst.fresh = true

instance (b : Bench) (i : BenchIn) : Decidable (EndIsFresh b i) := inferInstanceAs (Decidable (_ → _))

section

variable {job : JobDesc} {mem : Mem} {kept : BitVec 29 → Prop} {srcWords dstWords : List (BitVec 29)} {b : Bench}
  {qs qd : ChQueue} {written : Nat}

theorem Bench.Copying.selected (copying : b.Copying job mem kept srcWords dstWords qs qd written)
    (given : CopyJob job mem kept srcWords dstWords) (l : CtrlLines) (busy : b.chan.copy ≠ .sIdle) :
    (job.cmd b.loaded l).dc.getLsbD 4 = true := by
  have complete : ¬ b.loaded < 4 := fun early => busy (copying.unloaded early)
  have chosen : 2 ≤ b.loaded := by omega
  simpa [JobDesc.cmd, chosen] using given.copies

theorem Bench.Copying.idle (copying : b.Copying job mem kept srcWords dstWords qs qd written) (i : BenchIn)
    (early : (b.step job i).loaded < 4) : (b.step job i).chan.copy = .sIdle := by
  have before : b.loaded < 4 := Nat.lt_of_le_of_lt (i.lines.count_le b.loaded) early
  have none : qs.empty = true := by
    have bounds := qs.bounds
    have pushed := copying.src.unloaded before
    simp only [pushed, List.length_nil] at bounds
    simp [DelayQueue.empty]
    omega
  have empty : b.chan.ch.src.control.emptyOut = true := by
    rw [copying.src.fifo.control, ofQueue_emptyOut, none]
  rw [(b.step_chan job i).2.2, copying.unloaded before]
  simp [Copy.step, Copy.next, modIn, JobDesc.cmd, empty]

theorem Bench.Copying.marker (copying : b.Copying job mem kept srcWords dstWords qs qd written) (ready : qd.ready) :
    qd.popped ≤ srcWords.length ∧ b.chan.ch.dstEnd = decide (qd.popped = srcWords.length) := by
  obtain ⟨within, last, _⟩ := copying.dst.head ready
  simp only [List.length_map] at within last
  exact ⟨within, last⟩

theorem Bench.Copying.land (copying : b.Copying job mem kept srcWords dstWords qs qd written)
    (given : CopyJob job mem kept srcWords dstWords) (i : BenchIn) (j : Nat) (listed : j < dstWords.length)
    (read : j < srcWords.length)
    (done : j < if b.chan.dst.state = .sBReq ∧ i.dst.resp = .ack then written + 1 else written) :
    (b.step job i).mem dstWords[j] = mem srcWords[j] := by
  change (b.writes i).foldl Mem.write b.mem _ = _
  rw [writes, copying.dst.cycle]
  by_cases moves : b.chan.dst.state = .sBReq ∧ i.dst.resp = .ack
  · rw [if_pos moves] at done ⊢
    obtain ⟨inside, address⟩ := copying.dst.onJob.address moves.1
    by_cases now : j = written
    · obtain ⟨_, _, value⟩ := copying.dst.head (qd.ready_of_not_empty (copying.dst.shown moves.1))
      have popped := copying.dst.popped (by simp [moves])
      simp only [List.length_map] at popped value
      obtain rfl : qd.popped = j := by omega
      subst now
      simp [Mem.write, address, value read]
    · have other : dstWords[j] ≠ dstWords[written] := fun same => now (given.distinct.getElem_inj_iff.mp same)
      simp only [List.foldl_cons, List.foldl_nil, Mem.write, address, if_neg other]
      exact copying.landed j listed read (by omega)
  · rw [if_neg moves] at done ⊢
    exact copying.landed j listed read done

theorem Bench.Copying.finish (copying : b.Copying job mem kept srcWords dstWords qs qd written)
    (given : CopyJob job mem kept srcWords dstWords) (i : BenchIn) (fresh : EndIsFresh b i)
    (ended : (b.step job i).chan.dst.state = .sEnd) : min srcWords.length dstWords.length ≤ written := by
  rw [(b.step_chan job i).2.1] at ended
  rcases copying.dst.onJob.ends given.writes i.lines _ _ _ _ ended with before | ⟨next, last⟩ | ⟨wait, marker, io⟩
  · exact copying.finished before
  · have spent := List.drop_eq_nil_iff.mp (copying.dst.onJob.lastNext next last)
    omega
  · have ready : qd.ready := by simpa [copying.dst.fifo.fresh_ready] using fresh wait io marker
    have atEnd : qd.popped = srcWords.length := of_decide_eq_true ((copying.marker ready).2.symm.trans marker)
    have popped := copying.dst.popped (by simp [wait])
    rw [List.length_map] at popped
    omega

theorem Bench.Copying.step (copying : b.Copying job mem kept srcWords dstWords qs qd written)
    (given : CopyJob job mem kept srcWords dstWords) (i : BenchIn) (fresh : EndIsFresh b i) :
    (b.step job i).Copying job mem kept srcWords dstWords (qs.step (b.srcPut job i) (b.srcGet job i))
      (qd.step (b.dstPut job i) (b.dstGet job i))
      (if b.chan.dst.state = .sBReq ∧ i.dst.resp = .ack then written + 1 else written) := by
  have onDst := copying.dst.onJob
  have copy := copying.copy.step (srcWords.map mem) b.chan.copy qs qd b.chan.ch copying.src.fifo copying.dst.fifo
    copying.src.stream (job.cmd b.loaded i.lines) rfl (copying.selected given i.lines) (b.srcPut job i) (b.dstGet job i)
  have src := copying.src.step b.chan.ch given.reads given.sources i.lines (b.chan.src.answer b.mem i.src)
    (b.srcGet job i) _ rfl _ _ rfl rfl
    (fun resp reads inside => (b.chan.src.answer_read b.mem i.src resp reads).trans (copying.frame _ inside))
  have moved := copy.moved ▸ List.take_prefix _ _
  have dst := copying.dst.step b.chan.ch given.writes i.lines (b.chan.dst.answer b.mem i.dst)
    (b.mod job i).mEndn (!(b.mod job i).mDstPutn) ⟨(b.mod job i).mDstLast, (b.mod job i).mDst⟩ _ _ rfl rfl
    (onDst.read b.mem i.dst copying.frame) (src.stream.front _ _ _ moved)
  rw [if_congr (onDst.acked b.mem i.dst) rfl rfl] at dst
  refine ⟨?_, dst, copy, copying.idle i, ?_, ?_, copying.land given i, ?_, ?_⟩
  · rw [b.step_srcFifo job i]
    exact src
  · have within := copying.within
    split_ifs with moves
    · obtain ⟨inside, _⟩ := onDst.address moves.1
      exact inside
    · exact within
  · exact copying.dst.order.frame b.mem _ i.dst given.apart copying.frame
  · intro ended
    have enough := copying.finish given i fresh ended
    split <;> omega
  · intro done
    have before : b.chan.dst.state = .sEnd := of_decide_eq_true done
    exact b.chan.dst.step_end true _ rfl rfl before

end

theorem Bench.Copying.initial (job : JobDesc) (kept : BitVec 29 → Prop) (srcWords dstWords : List (BitVec 29)) (b : Bench)
    (given : CopyJob job b.mem kept srcWords dstWords) (closed : b.chan.Closed) (unloaded : b.loaded = 0) :
    b.Copying job b.mem kept srcWords dstWords .nil .nil 0 where
  src :=
    { fifo := b.chan.ch.src.holds_cleared closed.srcFifo
      stream := ⟨⟨true, 0⟩, rfl, List.nil_prefix⟩
      onJob := by
        rw [unloaded]
        exact closed.src.onJob given.srcList
      fetched := fun _ => List.nil_prefix
      room := by simp [closed.src.idle]
      unloaded := fun _ => rfl }
  dst := by
    rw [unloaded]
    exact .initial closed.dst closed.dstFifo given.dstList
  copy := ⟨rfl, by simp [closed.copy], by simp [closed.copy, DelayQueue.nil]⟩
  unloaded := fun _ => closed.copy
  within := Nat.zero_le _
  frame := fun _ _ => rfl
  landed := by simp
  finished := by simp [closed.dst.idle]
  done := by simp [closed.dst.notDone]

theorem copy_correct_if_end_fresh (job : JobDesc) (kept : BitVec 29 → Prop) (srcWords dstWords : List (BitVec 29))
    (start : Bench) (inputs : List BenchIn) (given : CopyJob job start.mem kept srcWords dstWords)
    (closed : start.chan.Closed) (unloaded : start.loaded = 0)
    (fresh : Clocked.Admits (Bench.step job) EndIsFresh start inputs)
    (done : (Clocked.run (Bench.step job) start inputs).chan.dst.cDone = true) :
    ∀ pair ∈ dstWords.zip srcWords, (Clocked.run (Bench.step job) start inputs).mem pair.1 = start.mem pair.2 := by
  obtain ⟨qs, qd, written, copying⟩ := Clocked.invariant_run (Bench.step job) EndIsFresh
    (fun b => ∃ qs qd written, b.Copying job start.mem kept srcWords dstWords qs qd written)
    (fun b i ⟨_, _, _, copying⟩ now => ⟨_, _, _, copying.step given i now⟩) start inputs
    ⟨.nil, .nil, 0, Bench.Copying.initial job kept srcWords dstWords start given closed unloaded⟩ fresh
  intro pair member
  obtain ⟨j, below, entry⟩ := List.getElem_of_mem member
  rw [List.length_zip] at below
  have enough := copying.finished (copying.done done)
  rw [← entry, List.getElem_zip]
  exact copying.landed j (by omega) (by omega) (by omega)

def powerUp : Chan :=
  let asleep : SsSg :=
    { wbsCyc := false, wbsWe := false, wbsPref := false, wbsAdrR := 0, state := .sIdle, cnt := false, io := false,
      err := 0, sgLast := false, sgLen := 0, sgAddr := 0, sgNext := 0, cDone := false }
  let fifo : Fifo := ⟨.cleared, ⟨fun _ => default, default⟩⟩
  ⟨asleep, asleep, ⟨fifo, fifo, 0⟩, .sIdle⟩

def serve (src dst : Resp) : BenchIn where
  lines := { give := true, idleDat := 0, idleAdr := 0, oldDc := 0x16, mEnable := true }
  src := ⟨src, 0⟩
  dst := ⟨dst, 0⟩

def copyDesc : JobDesc := { nextDesc := 0, dcFc := 0x16, srcDesc := 0x800, dstDesc := 0x1000 }

def segments (n m : Nat) : Mem := fun adr =>
  if adr = 0x100 then 0x0000800000100000 + BitVec.ofNat 64 (8 * n)
  else if adr = 0x200 then 0x0001000000100000 + BitVec.ofNat 64 (8 * m)
  else adr.setWidth 64

def closing (ssDone mReset : Bool) : ChanCmd :=
  { ssDat := 0, ssWe := false, ssAdr := 0, ssDone := ssDone, dc := 0x16, mReset := mReset, mEnable := false }

def sourceFirst (rest : Nat) : List BenchIn := List.replicate 264 (serve .ack .wait) ++ List.replicate rest (serve .wait .ack)

def afterFirstJob : Bench :=
  let first := Clocked.run (Bench.step copyDesc) ⟨powerUp, segments 256 1, 0⟩ (sourceFirst 8)
  let closed := (first.chan.step (closing true false) ⟨.wait, 0⟩ ⟨.wait, 0⟩).step (closing false true) ⟨.wait, 0⟩ ⟨.wait, 0⟩
  ⟨closed, segments 300 300, 0⟩

abbrev belowTarget (adr : BitVec 29) : Prop := adr < 0x2000

theorem segments_given (n m : Nat) (short : n ≤ 0x1000 ∧ m ≤ 0x1000)
    (srcList : SgList (segments n m) belowTarget (copyDesc.list false) (segment 0x1000 n))
    (dstList : SgList (segments n m) belowTarget (copyDesc.list true) (segment 0x2000 m)) :
    CopyJob copyDesc (segments n m) belowTarget (segment 0x1000 n) (segment 0x2000 m) where
  copies := by decide
  reads := by decide
  writes := by decide
  srcList := srcList
  dstList := dstList
  sources := by
    intro adr member
    obtain ⟨k, below, same⟩ := segment_member _ _ _ member
    unfold belowTarget
    bv_omega
  apart := by
    intro adr member
    obtain ⟨k, below, same⟩ := segment_member _ _ _ member
    unfold belowTarget
    bv_omega
  distinct := segment_nodup _ _ (by omega)

def twoWords : List BenchIn := List.replicate 14 (serve .ack .wait) ++ List.replicate 7 (serve .wait .ack)

theorem powerUp_closed : powerUp.Closed := ⟨⟨rfl, rfl, rfl⟩, ⟨rfl, rfl, rfl⟩, rfl, rfl, rfl⟩

theorem two_by_two_given : CopyJob copyDesc (segments 2 2) belowTarget (segment 0x1000 2) (segment 0x2000 2) :=
  segments_given 2 2 (by decide)
    (.single _ _ _ _ _ (by decide +kernel) (by decide) (by decide) (by decide) (by decide))
    (.single _ _ _ _ _ (by decide +kernel) (by decide) (by decide) (by decide) (by decide))

theorem two_words_copied :
    (Clocked.run (Bench.step copyDesc) ⟨powerUp, segments 2 2, 0⟩ twoWords).mem 0x2000 = segments 2 2 0x1000 ∧
      (Clocked.run (Bench.step copyDesc) ⟨powerUp, segments 2 2, 0⟩ twoWords).mem 0x2001 = segments 2 2 0x1001 := by
  have copied := copy_correct_if_end_fresh copyDesc belowTarget (segment 0x1000 2) (segment 0x2000 2)
    ⟨powerUp, segments 2 2, 0⟩ twoWords two_by_two_given powerUp_closed rfl (by decide +kernel) (by decide +kernel)
  exact ⟨copied (0x2000, 0x1000) (by decide), copied (0x2001, 0x1001) (by decide)⟩

theorem long_given : CopyJob copyDesc afterFirstJob.mem belowTarget (segment 0x1000 300) (segment 0x2000 300) :=
  segments_given 300 300 (by decide)
    (.single _ _ _ _ _ (by decide +kernel) (by decide) (by decide) (by decide) (by decide))
    (.single _ _ _ _ _ (by decide +kernel) (by decide) (by decide) (by decide) (by decide))

theorem afterFirstJob_closed : afterFirstJob.chan.Closed := Chan.closed_by_ctrl _ _ _ _ _ _ _ rfl rfl rfl

set_option maxRecDepth 100000 in
-- The second job of 300 words stops after 256: the destination FIFO runs empty
-- at the slot of the old marker.
theorem stale_end_truncates :
    CopyJob copyDesc afterFirstJob.mem belowTarget (segment 0x1000 300) (segment 0x2000 300) ∧
      afterFirstJob.chan.Closed ∧ afterFirstJob.loaded = 0 ∧
      (Clocked.run (Bench.step copyDesc) afterFirstJob (sourceFirst 263)).chan.dst.cDone = true ∧
      ¬ ∀ pair ∈ (segment 0x2000 300).zip (segment 0x1000 300),
        (Clocked.run (Bench.step copyDesc) afterFirstJob (sourceFirst 263)).mem pair.1 = afterFirstJob.mem pair.2 := by
  have ran : (Clocked.run (Bench.step copyDesc) afterFirstJob (sourceFirst 263)).chan.dst.cDone = true ∧
      (Clocked.run (Bench.step copyDesc) afterFirstJob (sourceFirst 263)).mem 0x2100 ≠ afterFirstJob.mem 0x1100 := by
    decide +kernel
  refine ⟨long_given, afterFirstJob_closed, rfl, ran.1, fun copied => ran.2 ?_⟩
  exact copied (0x2100, 0x1100) (by decide +kernel)

end SsAdma
