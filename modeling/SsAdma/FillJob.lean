import SsAdma.Fill
import SsAdma.Clocked

set_option autoImplicit false

namespace SsAdma

structure FillBench where
  dst : SsSg
  ch : Ch
  fill : Fill
  mem : Mem
  loaded : Nat

structure FillBenchIn where
  lines : CtrlLines
  bus : BusIn
  others : ChIn

def FillBench.cmd (job : JobDesc) (b : FillBench) (i : FillBenchIn) : ChanCmd :=
  { job.cmd b.loaded i.lines with mEnable := i.lines.mEnable && decide (4 ≤ b.loaded) }

def FillBench.mod (job : JobDesc) (b : FillBench) (i : FillBenchIn) : ModOut := b.fill.out (modIn (b.cmd job i) b.ch)

def FillBench.dstIn (job : JobDesc) (b : FillBench) (i : FillBenchIn) : SsSgIn :=
  sgIn (b.cmd job i) (b.dst.answer b.mem i.bus) (b.ch.dstStart (b.mod job i).mEndn) b.ch.dstEnd b.ch.dstStop

def FillBench.writes (b : FillBench) (i : FillBenchIn) : List (BitVec 29 × BitVec 64) :=
  b.dst.writeCycle b.ch.dst.dout.data i.bus

def FillBench.step (job : JobDesc) (b : FillBench) (i : FillBenchIn) : FillBench where
  dst := b.dst.step true (b.dstIn job i)
  ch := b.ch.step { i.others with dstXfer := (b.dst.comb true (b.dstIn job i)).ssXfer, mReset := false, mod := b.mod job i }
  fill := b.fill.step (modIn (b.cmd job i) b.ch)
  mem := (b.writes i).foldl Mem.write b.mem
  loaded := i.lines.count b.loaded

structure FillBench.Fresh (b : FillBench) : Prop where
  engine : b.dst.Closed
  fifo : b.ch.dst.control = .cleared
  fill : b.fill = .sIdle
  unloaded : b.loaded = 0

-- The pattern byte of the descriptor, and the one that reaches fill: ctrl keeps
-- dc0_r and dc1_r in 16 bits.
def JobDesc.pattern (job : JobDesc) : BitVec 8 := job.dcFc.extractLsb' 16 8

def JobDesc.dcPattern (job : JobDesc) : BitVec 8 := job.dc.extractLsb' 16 8

def Filled (words : List (BitVec 29)) (pattern : BitVec 8) (writes : List (BitVec 29 × BitVec 64)) : Prop :=
  writes.Perm (words.map (fun adr => (adr, pattern.replicate 8)))

structure FillBench.Filling (job : JobDesc) (mem : Mem) (kept : BitVec 29 → Prop) (words : List (BitVec 29)) (b : FillBench)
    (q : ChQueue) (written : Nat) : Prop where
  order : DstOrder job mem kept words b.loaded b.dst b.ch.dst q written
  side : FillSide (fillWord job.dcPattern) b.fill q
  unloaded : b.loaded < 4 → b.fill = .sIdle
  frame : ∀ adr, kept adr → b.mem adr = mem adr
  margin : b.dst.io = true → b.dst.state = .sIdle ∨ q.popped + 3 ≤ q.pushed.length
  finished : b.dst.state = .sEnd → words.length ≤ written
  done : b.dst.cDone = true → b.dst.state = .sEnd

section

variable {job : JobDesc} {mem : Mem} {kept : BitVec 29 → Prop} {words : List (BitVec 29)} {b : FillBench} {q : ChQueue}
  {written : Nat}

theorem FillBench.Filling.selected (filling : b.Filling job mem kept words q written) (fills : job.dc.getLsbD 3 = true)
    (i : FillBenchIn) (busy : b.fill ≠ .sIdle) : (b.cmd job i).dc = job.dc ∧ (b.cmd job i).dc.getLsbD 3 = true := by
  have complete : ¬ b.loaded < 4 := fun early => busy (filling.unloaded early)
  have chosen : 2 ≤ b.loaded := by omega
  have same : (b.cmd job i).dc = job.dc := if_pos chosen
  exact ⟨same, by simpa [same] using fills⟩

theorem FillBench.Filling.put (filling : b.Filling job mem kept words q written) (fills : job.dc.getLsbD 3 = true)
    (i : FillBenchIn) :
    (if !(b.mod job i).mDstPutn then some (RamWord.mk (b.mod job i).mDstLast (b.mod job i).mDst) else none) =
      if b.fill = .sRun then some (fillWord job.dcPattern) else none := by
  obtain ⟨puts, word⟩ := fill_out b.fill (b.cmd job i) b.ch rfl (fun busy => (filling.selected fills i busy).2)
  change (!(b.mod job i).mDstPutn) = _ at puts
  rw [puts]
  by_cases run : b.fill = .sRun
  · have busy : b.fill ≠ .sIdle := by simp [run]
    have same := word run
    rw [(filling.selected fills i busy).1] at same
    rw [if_pos (decide_eq_true run), if_pos run]
    exact congrArg some same
  · simp [run]

theorem FillBench.Filling.shows (filling : b.Filling job mem kept words q written) (visible : q.empty = false) :
    b.ch.dst.dout = fillWord job.dcPattern := by
  obtain ⟨below, head⟩ := filling.order.fifo.shown visible
  exact filling.side.pushed _ (List.mem_of_getElem? head)

theorem FillBench.Filling.idle (filling : b.Filling job mem kept words q written) (i : FillBenchIn)
    (early : (b.step job i).loaded < 4) : (b.step job i).fill = .sIdle := by
  have before : b.loaded < 4 := Nat.lt_of_le_of_lt (i.lines.count_le b.loaded) early
  have off : (b.cmd job i).mEnable = false := by
    have short : ¬ 4 ≤ b.loaded := by omega
    simp [cmd, short]
  have next : (b.step job i).fill = b.fill.step (modIn (b.cmd job i) b.ch) := rfl
  rw [next, fill_next _ _ _ filling.order.fifo rfl, filling.unloaded before, off]
  rfl

theorem FillBench.Filling.finish (filling : b.Filling job mem kept words q written) (listed : job.dc.getLsbD 2 = true)
    (i : FillBenchIn) (ended : (b.step job i).dst.state = .sEnd) : words.length ≤ written := by
  rcases filling.order.onJob.ends listed i.lines _ _ _ _ ended with before | ⟨next, last⟩ | ⟨wait, marker, io⟩
  · exact filling.finished before
  · exact List.drop_eq_nil_iff.mp (filling.order.onJob.lastNext next last)
  · have margin := (filling.margin io).resolve_left (by simp [wait])
    have shows := filling.shows (margin_visible margin)
    rw [Ch.dstEnd, shows] at marker
    simp [fillWord] at marker

theorem FillBench.Filling.step (filling : b.Filling job mem kept words q written) (i : FillBenchIn)
    (fills : job.dc.getLsbD 3 = true) (listed : job.dc.getLsbD 2 = true) (apart : ∀ adr ∈ words, ¬ kept adr) :
    ∃ q' written',
      (words.drop written).map (fun adr => (adr, (fillWord job.dcPattern).data)) =
          b.writes i ++ (words.drop written').map (fun adr => (adr, (fillWord job.dcPattern).data)) ∧
        (b.step job i).Filling job mem kept words q' written' := by
  have onJob := filling.order.onJob
  have order := filling.order.step b.ch listed i.lines (b.dst.answer b.mem i.bus) (b.mod job i).mEndn
    (!(b.mod job i).mDstPutn) ⟨(b.mod job i).mDstLast, (b.mod job i).mDst⟩ _ _ rfl rfl (onJob.read b.mem i.bus filling.frame)
  rw [filling.put fills i, if_congr (onJob.acked b.mem i.bus) rfl rfl] at order
  have side := filling.side.step b.ch filling.order.fifo (b.cmd job i) rfl
    ((b.dst.comb true (b.dstIn job i)).ssXfer && !b.ch.dstEnd)
  refine ⟨_, _, ?_, order, side, filling.idle i, ?_, ?_, ?_, ?_⟩
  · rw [writes, filling.order.cycle]
    by_cases moves : b.dst.state = .sBReq ∧ i.bus.resp = .ack
    · obtain ⟨inside, address⟩ := onJob.address moves.1
      rw [if_pos moves, if_pos moves, List.drop_eq_getElem_cons inside, address,
        filling.shows (filling.order.shown moves.1)]
      rfl
    · rw [if_neg moves, if_neg moves]
      rfl
  · exact filling.order.frame b.mem _ i.bus apart filling.frame
  · intro io
    refine .inr (side.phase.margin (margin_kept _ _ ?_))
    rcases b.dst.step_io true (b.cmd job i) (b.dst.answer b.mem i.bus) _ _ _ rfl io with ⟨running, before⟩ | moves
    · exact (filling.margin before).resolve_left running
    · exact filling.side.phase.margin (filling.order.shown moves.1)
  · intro ended
    have enough := filling.finish listed i ended
    split <;> omega
  · intro done
    have before : b.dst.state = .sEnd := of_decide_eq_true done
    exact b.dst.step_end true _ rfl rfl before

end

theorem FillBench.Fresh.filling (job : JobDesc) (kept : BitVec 29 → Prop) (words : List (BitVec 29)) (b : FillBench)
    (fresh : b.Fresh) (list : SgList b.mem kept (job.list true) words) : b.Filling job b.mem kept words .nil 0 where
  order := by
    rw [fresh.unloaded]
    exact .initial fresh.engine fresh.fifo list
  side := by
    refine ⟨by simp [DelayQueue.nil], ?_⟩
    rw [fresh.fill]
    exact .idle rfl
  unloaded := fun _ => fresh.fill
  frame := fun _ _ => rfl
  margin := fun _ => .inl fresh.engine.idle
  finished := by simp [fresh.engine.idle]
  done := by simp [fresh.engine.notDone]

theorem fill_writes (job : JobDesc) (kept : BitVec 29 → Prop) (words : List (BitVec 29)) (start : FillBench)
    (inputs : List FillBenchIn) (fresh : start.Fresh) (fills : job.dc.getLsbD 3 = true) (listed : job.dc.getLsbD 2 = true)
    (list : SgList start.mem kept (job.list true) words) (apart : ∀ adr ∈ words, ¬ kept adr)
    (done : (Clocked.run (FillBench.step job) start inputs).dst.cDone = true) :
    Clocked.trace (FillBench.step job) FillBench.writes start inputs =
      words.map (fun adr => (adr, (fillWord job.dcPattern).data)) := by
  obtain ⟨rest, split, q, written, filling, rfl⟩ := Clocked.trace_script (FillBench.step job) FillBench.writes
    (fun _ _ => True)
    (fun b script => ∃ q written, b.Filling job start.mem kept words q written ∧
      script = (words.drop written).map (fun adr => (adr, (fillWord job.dcPattern).data)))
    (by
      rintro b i script ⟨q, written, filling, rfl⟩ _
      obtain ⟨q', written', split, next⟩ := filling.step i fills listed apart
      exact ⟨_, split, q', written', next, rfl⟩)
    start inputs _ ⟨.nil, 0, fresh.filling job kept words start list, rfl⟩ (Clocked.admits_free _ _ inputs)
  rw [List.drop_eq_nil_iff.mpr (filling.finished (filling.done done)), List.map_nil, List.append_nil] at split
  exact split.symm

theorem JobDesc.dcPattern_zero (job : JobDesc) : job.dcPattern = 0 := by
  unfold dcPattern dc
  ext k inside
  simp

theorem copies_zero : ∀ pattern : BitVec 8, pattern.replicate 8 = (fillWord 0).data ↔ pattern = 0 := by
  decide +kernel

theorem filled_iff_zero (job : JobDesc) (kept : BitVec 29 → Prop) (words : List (BitVec 29)) (start : FillBench)
    (inputs : List FillBenchIn) (fresh : start.Fresh) (fills : job.dc.getLsbD 3 = true) (listed : job.dc.getLsbD 2 = true)
    (list : SgList start.mem kept (job.list true) words) (apart : ∀ adr ∈ words, ¬ kept adr)
    (done : (Clocked.run (FillBench.step job) start inputs).dst.cDone = true) :
    Filled words job.pattern (Clocked.trace (FillBench.step job) FillBench.writes start inputs) ↔ job.pattern = 0 := by
  rw [fill_writes job kept words start inputs fresh fills listed list apart done, job.dcPattern_zero,
    ← copies_zero job.pattern]
  constructor
  · intro filled
    obtain ⟨adr, member⟩ := List.exists_mem_of_ne_nil words (SgList.nonempty _ _ _ _ list)
    have written := filled.symm.subset (List.mem_map_of_mem (f := fun adr => (adr, job.pattern.replicate 8)) member)
    obtain ⟨_, _, same⟩ := List.mem_map.mp written
    exact (congrArg Prod.snd same).symm
  · intro same
    unfold Filled
    rw [same]

-- The fill job of the bench: 16 words in two segments, pattern 0x0a.
def fillJob (dcFc : BitVec 32) : JobDesc := { nextDesc := 0x1000, dcFc := dcFc, srcDesc := 0, dstDesc := 0x200 }

def fillMem : Mem := fun adr =>
  if adr = 0x40 then 0x0000028000000040
  else if adr = 0x41 then 0x0000000000000800
  else if adr = 0x100 then 0x0000100000100040
  else 0

abbrev fillTable (adr : BitVec 29) : Prop := adr = 0x40 ∨ adr = 0x41 ∨ adr = 0x100 ∨ adr = 0x101

def fillWords : List (BitVec 29) := segment 0x50 8 ++ segment 0x200 8

def fillBench : FillBench where
  dst := default
  ch := { src := ⟨.cleared, ⟨fun _ => default, default⟩⟩, dst := ⟨.cleared, ⟨fun _ => default, default⟩⟩, ocnt := 0 }
  fill := .sIdle
  mem := fillMem
  loaded := 0

def fillPeriod : FillBenchIn where
  lines := { give := true, idleDat := 0, idleAdr := 0, oldDc := 0, mEnable := true }
  bus := ⟨.ack, 0⟩
  others :=
    { srcXfer := false, dstXfer := false, srcLast := false, srcDatO := 0, srcDat64O := 0, mReset := false, mod := {} }

theorem fill_list (dcFc : BitVec 32) : SgList fillMem fillTable ((fillJob dcFc).list true) fillWords := by
  have last : SgList fillMem fillTable 0x100 (segment 0x200 8) :=
    .single _ _ _ _ _ (by decide +kernel) (by decide) (by decide) (by decide) (by decide)
  have split : fillWords = segment (descAddr (fillMem 0x40)) (descLen (fillMem 0x40)).toNat ++ segment 0x200 8 := by
    decide +kernel
  have head : (fillJob dcFc).list true = 0x40 := by
    change wordAddr 0x200 = _
    decide
  rw [split, head]
  exact .link 0x40 (segment 0x200 8) (by decide +kernel) (by decide) (by decide) last

theorem fill_apart (adr : BitVec 29) (member : adr ∈ fillWords) : ¬ fillTable adr := by
  have apart : fillWords.all (fun word => !decide (fillTable word)) = true := by decide +kernel
  simpa using List.all_eq_true.mp apart adr member

theorem fill_bench_fresh : fillBench.Fresh := ⟨⟨rfl, rfl, rfl⟩, rfl, rfl, rfl⟩

theorem zero_pattern_filled :
    Filled fillWords (fillJob 0x0000000c).pattern
      (Clocked.trace (FillBench.step (fillJob 0x0000000c)) FillBench.writes fillBench (List.replicate 40 fillPeriod)) :=
  (filled_iff_zero (fillJob 0x0000000c) fillTable fillWords fillBench (List.replicate 40 fillPeriod) fill_bench_fresh
    (by decide) (by decide) (fill_list _) fill_apart (by decide +kernel)).mpr (by decide)

theorem pattern_lost :
    fillBench.Fresh ∧ (fillJob 0x000a000c).dc.getLsbD 3 = true ∧ (fillJob 0x000a000c).dc.getLsbD 2 = true ∧
      SgList fillBench.mem fillTable ((fillJob 0x000a000c).list true) fillWords ∧ (∀ adr ∈ fillWords, ¬ fillTable adr) ∧
      (Clocked.run (FillBench.step (fillJob 0x000a000c)) fillBench (List.replicate 40 fillPeriod)).dst.cDone = true ∧
      ¬ Filled fillWords (fillJob 0x000a000c).pattern
        (Clocked.trace (FillBench.step (fillJob 0x000a000c)) FillBench.writes fillBench (List.replicate 40 fillPeriod)) := by
  refine ⟨fill_bench_fresh, by decide, by decide, fill_list _, fill_apart, by decide +kernel, ?_⟩
  unfold Filled
  decide +kernel

end SsAdma
