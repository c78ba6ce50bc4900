import SsAdma.DstSide
import SsAdma.Clocked
import Mathlib.Tactic.ByContra

set_option autoImplicit false

namespace SsAdma

structure DstBench where
  dst : SsSg
  ch : Ch
  mem : Mem
  loaded : Nat
  coming : List RamWord

structure DstBenchIn where
  lines : CtrlLines
  bus : BusIn
  put : Bool
  others : ChIn

def DstBench.mod (b : DstBench) (i : DstBenchIn) : ModOut :=
  match i.put, b.coming with
  | true, word :: _ => { i.others.mod with mDstPutn := false, mDst := word.data, mDstLast := word.last }
  | _, _ => { i.others.mod with mDstPutn := true }

def DstBench.dstIn (job : JobDesc) (b : DstBench) (i : DstBenchIn) : SsSgIn :=
  sgIn (job.cmd b.loaded i.lines) (b.dst.answer b.mem i.bus) (b.ch.dstStart (b.mod i).mEndn) b.ch.dstEnd b.ch.dstStop

def DstBench.writes (b : DstBench) (i : DstBenchIn) : List (BitVec 29 × BitVec 64) :=
  b.dst.writeCycle b.ch.dst.dout.data i.bus

def DstBench.step (job : JobDesc) (b : DstBench) (i : DstBenchIn) : DstBench where
  dst := b.dst.step true (b.dstIn job i)
  ch := b.ch.step { i.others with dstXfer := (b.dst.comb true (b.dstIn job i)).ssXfer, mReset := false, mod := b.mod i }
  mem := (b.writes i).foldl Mem.write b.mem
  loaded := i.lines.count b.loaded
  coming := if !(b.mod i).mDstPutn && !b.ch.dst.control.fullOut then b.coming.tail else b.coming

structure WritesOnlyData (words : List (BitVec 29)) (data : List (BitVec 64)) (before after : Mem)
    (writes : List (BitVec 29 × BitVec 64)) : Prop where
  carried : writes <+: words.zip data
  bounded : writes.length ≤ min data.length words.length
  untouched : ∀ adr, adr ∉ words.take data.length → after adr = before adr

-- The branch of S_B_REQ that goes wrong: an acknowledge with ss_end high. The
-- engine leaves S_B_REQ one period after the acknowledge that brought the
-- marker to the head of the FIFO.
def AckSparesMarker (b : DstBench) (i : DstBenchIn) : Prop :=
  b.dst.state = .sBReq → b.ch.dstEnd = true → i.bus.resp ≠ .ack

instance (b : DstBench) (i : DstBenchIn) : Decidable (AckSparesMarker b i) := inferInstanceAs (Decidable (_ → _))

structure DstBench.Writing (job : JobDesc) (mem : Mem) (kept : BitVec 29 → Prop) (words : List (BitVec 29))
    (data : List (BitVec 64)) (mark : RamWord) (b : DstBench) (q : ChQueue) (written : Nat) : Prop where
  side : DstSide job mem kept words data b.loaded b.dst b.ch.dst q written
  stream : q.pushed ++ b.coming = data.map (RamWord.mk false) ++ [mark]
  frame : ∀ adr, kept adr → b.mem adr = mem adr
  within : written ≤ data.length

section

variable {job : JobDesc} {mem : Mem} {kept : BitVec 29 → Prop} {words : List (BitVec 29)} {data : List (BitVec 64)}
  {mark : RamWord} {b : DstBench} {q : ChQueue} {written : Nat}

theorem DstBench.Writing.put (writing : b.Writing job mem kept words data mark q written) (i : DstBenchIn) :
    q.accepted (if !(b.mod i).mDstPutn then some ⟨(b.mod i).mDstLast, (b.mod i).mDst⟩ else none) ++
      (if !(b.mod i).mDstPutn && !b.ch.dst.control.fullOut then b.coming.tail else b.coming) = b.coming := by
  rw [writing.side.fifo.control, ofQueue_fullOut]
  unfold mod DelayQueue.accepted
  cases i.put with
  | false => cases q.full <;> simp
  | true => cases b.coming <;> cases q.full <;> simp

theorem DstBench.Writing.word (writing : b.Writing job mem kept words data mark q written)
    (state : b.dst.state = .sBReq) (unmarked : b.ch.dstEnd = false) :
    ∃ inside : written < data.length, b.ch.dst.dout.data = data[written] := by
  obtain ⟨within, last, value⟩ := writing.side.head (q.ready_of_not_empty (writing.side.shown state))
  have popped := writing.side.popped (by simp [state])
  have more : q.popped ≠ data.length := of_decide_eq_false (last.symm.trans unmarked)
  have bound := writing.within
  obtain rfl : q.popped = written := by omega
  exact ⟨by omega, value (by omega)⟩

theorem DstBench.Writing.step (writing : b.Writing job mem kept words data mark q written) (i : DstBenchIn)
    (listed : job.dc.getLsbD 2 = true) (marked : mark.last = true) (apart : ∀ adr ∈ words, ¬ kept adr)
    (spared : AckSparesMarker b i) :
    ∃ q' written', (words.zip data).drop written = b.writes i ++ (words.zip data).drop written' ∧
      (b.step job i).Writing job mem kept words data mark q' written' := by
  have onJob := writing.side.onJob
  have stream := writing.stream
  rw [← writing.put i, ← List.append_assoc] at stream
  have side := writing.side.step b.ch listed i.lines (b.dst.answer b.mem i.bus) (b.mod i).mEndn (!(b.mod i).mDstPutn)
    ⟨(b.mod i).mDstLast, (b.mod i).mDst⟩ _ _ rfl rfl (onJob.read b.mem i.bus writing.frame) ⟨mark, marked, _, stream⟩
  rw [if_congr (onJob.acked b.mem i.bus) rfl rfl] at side
  have frame := writing.side.order.frame b.mem b.ch.dst.dout.data i.bus apart writing.frame
  have cycle : b.writes i = _ := writing.side.cycle b.ch.dst.dout.data i.bus
  by_cases moves : b.dst.state = .sBReq ∧ i.bus.resp = .ack
  · rw [if_pos moves] at side cycle
    have unmarked : b.ch.dstEnd = false := by
      by_contra marker
      exact spared moves.1 (by simpa using marker) moves.2
    obtain ⟨inside, address⟩ := onJob.address moves.1
    obtain ⟨within, value⟩ := writing.word moves.1 unmarked
    refine ⟨_, _, ?_, side, stream, frame, within⟩
    rw [cycle, address, value, List.drop_eq_getElem_cons (by simp; omega), List.getElem_zip]
    rfl
  · rw [if_neg moves] at side cycle
    refine ⟨_, _, ?_, side, stream, frame, writing.within⟩
    rw [cycle]
    rfl

theorem DstBench.Writing.strays (writing : b.Writing job mem kept words data mark q written) (i : DstBenchIn)
    (taken : ¬ AckSparesMarker b i) : ¬ b.writes i <+: (words.zip data).drop written := by
  obtain ⟨state, marker, resp⟩ : b.dst.state = .sBReq ∧ b.ch.dstEnd = true ∧ i.bus.resp = .ack := by
    simpa [AckSparesMarker] using taken
  obtain ⟨_, last, _⟩ := writing.side.head (q.ready_of_not_empty (writing.side.shown state))
  have atEnd : q.popped = data.length := of_decide_eq_true (last.symm.trans marker)
  have popped := writing.side.popped (by simp [state])
  have used : (words.zip data).drop written = [] := by
    apply List.drop_eq_nil_of_le
    rw [List.length_zip]
    omega
  rw [writes, writing.side.cycle, if_pos ⟨state, resp⟩, used]
  simp

end

theorem DstBench.mem_run (job : JobDesc) (b : DstBench) (inputs : List DstBenchIn) :
    (Clocked.run (DstBench.step job) b inputs).mem =
      (Clocked.trace (DstBench.step job) DstBench.writes b inputs).foldl Mem.write b.mem := by
  induction inputs generalizing b with
  | nil => rfl
  | cons i rest ih =>
      rw [Clocked.run_cons, ih, Clocked.trace, List.foldl_append]
      rfl

theorem Mem.write_untouched (mem : Mem) (cycles : List (BitVec 29 × BitVec 64)) (adr : BitVec 29)
    (outside : adr ∉ cycles.map Prod.fst) : cycles.foldl Mem.write mem adr = mem adr := by
  induction cycles generalizing mem with
  | nil => rfl
  | cons cycle rest ih =>
      simp only [List.map_cons, List.mem_cons, not_or] at outside
      rw [List.foldl_cons, ih (mem.write cycle) outside.2]
      exact if_neg outside.1

theorem zip_firsts {α β : Type} (as : List α) (bs : List β) : (as.zip bs).map Prod.fst = as.take bs.length := by
  induction as generalizing bs with
  | nil => simp
  | cons a as ih => cases bs <;> simp [ih]

theorem writes_only_data_of_prefix (words : List (BitVec 29)) (data : List (BitVec 64)) (mem : Mem)
    (writes : List (BitVec 29 × BitVec 64)) (carried : writes <+: words.zip data) :
    WritesOnlyData words data mem (writes.foldl Mem.write mem) writes where
  carried := carried
  bounded := by
    have short := carried.length_le
    rw [List.length_zip] at short
    omega
  untouched := by
    intro adr outside
    apply mem.write_untouched
    intro member
    apply outside
    rw [← zip_firsts]
    exact (carried.map Prod.fst).subset member

structure DstBench.Fresh (b : DstBench) : Prop where
  engine : b.dst.Closed
  fifo : b.ch.dst.control = .cleared
  unloaded : b.loaded = 0

theorem DstBench.Fresh.writing (job : JobDesc) (kept : BitVec 29 → Prop) (words : List (BitVec 29))
    (data : List (BitVec 64)) (mark : RamWord) (b : DstBench) (fresh : b.Fresh)
    (list : SgList b.mem kept (job.list true) words) (stream : b.coming = data.map (RamWord.mk false) ++ [mark]) :
    b.Writing job b.mem kept words data mark .nil 0 := by
  refine ⟨?_, stream, fun _ _ => rfl, Nat.zero_le _⟩
  rw [fresh.unloaded]
  exact .initial fresh.engine fresh.fifo list

theorem data_only_iff (job : JobDesc) (kept : BitVec 29 → Prop) (words : List (BitVec 29)) (data : List (BitVec 64))
    (mark : RamWord) (start : DstBench) (inputs : List DstBenchIn) (fresh : start.Fresh) (listed : job.dc.getLsbD 2 = true)
    (list : SgList start.mem kept (job.list true) words) (apart : ∀ adr ∈ words, ¬ kept adr)
    (stream : start.coming = data.map (RamWord.mk false) ++ [mark]) (marked : mark.last = true) :
    WritesOnlyData words data start.mem (Clocked.run (DstBench.step job) start inputs).mem
        (Clocked.trace (DstBench.step job) DstBench.writes start inputs) ↔
      Clocked.Admits (DstBench.step job) AckSparesMarker start inputs := by
  have exact := Clocked.trace_script_iff (DstBench.step job) DstBench.writes AckSparesMarker
    (fun b script => ∃ q written, b.Writing job start.mem kept words data mark q written ∧ script = (words.zip data).drop written)
    (by
      rintro b i script ⟨q, written, writing, rfl⟩ spared
      obtain ⟨q', written', split, next⟩ := writing.step i listed marked apart spared
      exact ⟨_, split, q', written', next, rfl⟩)
    (by
      rintro b i script ⟨q, written, writing, rfl⟩ taken
      exact writing.strays i taken)
    start inputs (words.zip data) ⟨.nil, 0, fresh.writing job kept words data mark start list stream, rfl⟩
  rw [← exact, start.mem_run job inputs]
  exact ⟨fun only => only.carried, writes_only_data_of_prefix words data start.mem _⟩

def oneJob : JobDesc := { nextDesc := 0, dcFc := 0x16, srcDesc := 0, dstDesc := 0x1000 }

def pairMem : Mem := fun adr => if adr = 0x200 then 0x0001000000100010 else 0

def tableAt (adr : BitVec 29) (kept : BitVec 29) : Prop := kept = adr ∨ kept = adr + 1

def oneWordBench : DstBench where
  dst :=
    { wbsCyc := false, wbsWe := false, wbsPref := false, wbsAdrR := 0, state := .sIdle, cnt := false, io := false,
      err := 0, sgLast := false, sgLen := 0, sgAddr := 0, sgNext := 0, cDone := false }
  ch :=
    { src := ⟨.cleared, ⟨fun _ => default, default⟩⟩
      dst := ⟨.cleared, ⟨fun _ => default, default⟩⟩
      ocnt := 0 }
  mem := pairMem
  loaded := 0
  coming := [⟨false, 7⟩, ⟨true, 8⟩]

def period (resp : Resp) (mEndn : Bool) : DstBenchIn where
  lines := { give := true, idleDat := 0, idleAdr := 0, oldDc := 0, mEnable := true }
  bus := ⟨resp, 0⟩
  put := true
  others :=
    { srcXfer := false, dstXfer := false, srcLast := false, srcDatO := 0, srcDat64O := 0, mReset := false
      mod := { mEndn := mEndn } }

def streamBench (mem : Mem) (data : List (BitVec 64)) : DstBench :=
  { oneWordBench with mem := mem, coming := data.map (RamWord.mk false) ++ [⟨true, 0⟩] }

def linkedPair : Mem := fun adr =>
  if adr = 0x200 then 0x0001000000000010
  else if adr = 0x201 then 0x0000000000001080
  else if adr = 0x210 then 0x0002000000100008
  else 0

theorem pair_list : SgList pairMem (tableAt 0x200) (oneJob.list true) [0x2000, 0x2001] :=
  SgList.last (oneJob.list true) ⟨.inl rfl, .inr rfl⟩ (by decide) (by decide)

-- A slave that never waits gets the marker behind the only data word.
theorem marker_written :
    oneWordBench.Fresh ∧ oneJob.dc.getLsbD 2 = true ∧ SgList oneWordBench.mem (tableAt 0x200) (oneJob.list true) [0x2000, 0x2001] ∧
      ¬ WritesOnlyData [0x2000, 0x2001] [7] oneWordBench.mem
        (Clocked.run (DstBench.step oneJob) oneWordBench
          (List.replicate 4 (period .ack true) ++ List.replicate 8 (period .ack false))).mem
        (Clocked.trace (DstBench.step oneJob) DstBench.writes oneWordBench
          (List.replicate 4 (period .ack true) ++ List.replicate 8 (period .ack false))) := by
  refine ⟨⟨⟨rfl, rfl, rfl⟩, rfl, rfl⟩, by decide, pair_list, fun only => ?_⟩
  exact absurd only.bounded (by decide +kernel)

theorem one_word_written :
    WritesOnlyData [0x2000, 0x2001] [7] oneWordBench.mem
      (Clocked.run (DstBench.step oneJob) oneWordBench
        (List.replicate 9 (period .ack false) ++ List.replicate 4 (period .wait false))).mem
      (Clocked.trace (DstBench.step oneJob) DstBench.writes oneWordBench
        (List.replicate 9 (period .ack false) ++ List.replicate 4 (period .wait false))) :=
  (data_only_iff oneJob (tableAt 0x200) [0x2000, 0x2001] [7] ⟨true, 8⟩ oneWordBench _ ⟨⟨rfl, rfl, rfl⟩, rfl, rfl⟩
    (by decide) pair_list (by simp [tableAt]) rfl rfl).mpr (by decide +kernel)

end SsAdma
