import SsAdma.JobLoad
import SsAdma.FifoQueue

set_option autoImplicit false

namespace SsAdma

structure DstOrder (job : JobDesc) (mem : Mem) (kept : BitVec 29 → Prop) (words : List (BitVec 29)) (loaded : Nat)
    (r : SsSg) (f : Fifo) (q : ChQueue) (written : Nat) : Prop where
  fifo : f.Holds q
  onJob : r.OnJob job true mem kept loaded (words.drop written)
  clean : r.state ≠ .sEnd → ∀ word ∈ q.pushed.take q.popped, word.last = false
  counted : r.state ≠ .sEnd → q.popped = written ∨ q.popped < written ∧ f.dout.last = true ∧ q.empty = false
  shown : r.state = .sBReq → q.empty = false

def SsSg.writeCycle (r : SsSg) (word : BitVec 64) (bus : BusIn) : List (BitVec 29 × BitVec 64) :=
  if r.wbsCyc && r.wbsWe && bus.resp.isAck then [(r.wbsAdrR, word)] else []

def Mem.write (mem : Mem) (cycle : BitVec 29 × BitVec 64) : Mem := fun adr => if adr = cycle.1 then cycle.2 else mem adr

theorem Fifo.Holds.shown {f : Fifo} {q : ChQueue} (holds : f.Holds q) (visible : q.empty = false) :
    q.popped < q.pushed.length ∧ q.pushed[q.popped]? = some f.dout := by
  have seen := q.not_empty_iff.mp visible
  have bounds := q.bounds
  have below : q.popped < q.pushed.length := by omega
  exact ⟨below, by rw [List.getElem?_eq_getElem below, holds.head below (q.ready_of_not_empty visible)]⟩

theorem Fifo.Holds.dout_kept {f f' : Fifo} {q : ChQueue} (put : Option RamWord) (get : Bool) (holds : f.Holds q)
    (next : f'.Holds (q.step put get)) (some : q.empty = false) (untaken : q.taken get = 0) :
    (q.step put get).empty = false ∧ f'.dout = f.dout := by
  have still := q.not_empty_kept put get some untaken
  obtain ⟨below, head⟩ := holds.shown some
  have headToo : (q.pushed ++ q.accepted put)[q.popped + q.taken get]? = Option.some f'.dout := (next.shown still).2
  rw [untaken, Nat.add_zero, List.getElem?_append_left below, head] at headToo
  exact ⟨still, (Option.some_inj.mp headToo).symm⟩

theorem SsSg.goes_on (rw : Bool) (r : SsSg) (cmd : ChanCmd) (bus : BusIn) (start ended stop : Bool)
    (notDone : cmd.ssDone = false) (on : (r.step rw (sgIn cmd bus start ended stop)).state ≠ .sEnd) :
    r.state ≠ .sEnd ∧ (r.state = .sNext → r.sgLast = false) := by
  refine ⟨fun finished => on (r.step_end rw _ rfl notDone finished), fun state => ?_⟩
  rw [r.step_sNext rw cmd bus _ _ _ notDone state] at on
  cases last : r.sgLast with
  | false => rfl
  | true => simp [last] at on

section

variable {job : JobDesc} {mem : Mem} {kept : BitVec 29 → Prop} {words : List (BitVec 29)} {loaded : Nat} {r : SsSg}
  {f : Fifo} {q : ChQueue} {written : Nat}

theorem Fifo.Holds.started (ch : Ch) (mEndn : Bool) (holds : ch.dst.Holds q) (start : ch.dstStart mEndn = true) :
    q.empty = false := by
  have bounds := q.bounds
  have lag := q.writesLag
  unfold Ch.dstStart at start
  rw [holds.control, ofQueue_halfFullOut, ofQueue_emptyOut] at start
  cases empty : q.empty with
  | false => rfl
  | true =>
      have none : q.popped = q.pushedTwice := by simpa [DelayQueue.empty] using empty
      have half : 256 ≤ q.pushed.length - q.popped := by simpa [empty] using start
      omega

theorem DstOrder.initial (closed : r.Closed) (cleared : f.control = .cleared) (list : SgList mem kept (job.list true) words) :
    DstOrder job mem kept words 0 r f .nil 0 where
  fifo := f.holds_cleared cleared
  onJob := closed.onJob list
  clean := by simp [DelayQueue.nil]
  counted := by simp [DelayQueue.nil]
  shown := by simp [closed.idle]

theorem DstOrder.taken (ch : Ch) (order : DstOrder job mem kept words loaded r ch.dst q written)
    (cmd : ChanCmd) (bus : BusIn) (start ended stop : Bool) (on : r.state = .sNext → r.sgLast = false) :
    q.taken ((r.comb true (sgIn cmd bus start ended stop)).ssXfer && !ch.dstEnd) =
      if (r.state = .sBReq ∧ bus.resp = .ack) ∧ ch.dstEnd = false then 1 else 0 := by
  rw [(r.comb_xfer true cmd bus start ended stop).1]
  have noEnd : (decide (r.state = .sNext) && r.sgLast) = false := by
    by_cases state : r.state = .sNext
    · simp [on state]
    · simp [state]
  rw [noEnd, Bool.or_false, Resp.isAck_decide]
  by_cases moves : r.state = .sBReq ∧ bus.resp = .ack
  · simp [DelayQueue.taken, order.shown moves.1, moves]
  · have still : (decide (r.state = .sBReq) && decide (bus.resp = .ack)) = false := by simpa using moves
    simp [DelayQueue.taken, still, moves]

theorem DstOrder.keeps_shown (ch : Ch) (mEndn : Bool) (order : DstOrder job mem kept words loaded r ch.dst q written)
    (cmd : ChanCmd) (notDone : cmd.ssDone = false) (bus : BusIn) (put : Option RamWord) (get : Bool)
    (untaken : ¬(r.state = .sBReq ∧ bus.resp = .ack) → q.taken get = 0)
    (state : (r.step true (sgIn cmd bus (ch.dstStart mEndn) ch.dstEnd ch.dstStop)).state = .sBReq) :
    (q.step put get).empty = false := by
  rcases r.enters_sBReq true cmd bus _ _ _ notDone state with ⟨before, goesOn⟩ | ⟨before, start⟩
  · have some := order.shown before
    by_cases resp : bus.resp = .ack
    · have room : q.pushedTwice ≠ q.popped + 1 := by
        have stop : ch.dstStop = false := (goesOn resp).1
        simpa [Ch.dstStop, order.fifo.control, ofQueue_almostEmptyOut] using stop
      have seen := q.not_empty_iff.mp some
      have short := q.taken_bound get
      exact q.not_empty_step _ _ (by omega)
    · exact q.not_empty_kept _ _ some (untaken (fun both => resp both.2))
  · exact q.not_empty_kept _ _ (order.fifo.started ch mEndn start) (untaken (by simp [before]))

theorem DstOrder.step (ch : Ch) (order : DstOrder job mem kept words loaded r ch.dst q written)
    (listed : job.dc.getLsbD 2 = true) (l : CtrlLines) (bus : BusIn) (mEndn put : Bool) (di : RamWord) (get : Bool) (r' : SsSg)
    (engine : r' = r.step true (sgIn (job.cmd loaded l) bus (ch.dstStart mEndn) ch.dstEnd ch.dstStop))
    (gets : get = ((r.comb true (sgIn (job.cmd loaded l) bus (ch.dstStart mEndn) ch.dstEnd ch.dstStop)).ssXfer && !ch.dstEnd))
    (read : bus.resp = .ack → r.state = .sDReq → kept r.wbsAdrR → bus.dat = mem r.wbsAdrR) :
    DstOrder job mem kept words (l.count loaded) r' (ch.dst.step false get put di)
      (q.step (if put then some di else none) get)
      (if r.state = .sBReq ∧ bus.resp = .ack then written + 1 else written) := by
  have onJob := r.onJob_step job true mem kept loaded (words.drop written) l bus (ch.dstStart mEndn) ch.dstEnd ch.dstStop
    order.onJob listed read
  rw [← engine] at onJob
  have goesOn : r'.state ≠ .sEnd → r.state ≠ .sEnd ∧ (r.state = .sNext → r.sgLast = false) := by
    rw [engine]
    exact r.goes_on true _ bus _ _ _ rfl
  have taken : r'.state ≠ .sEnd →
      q.taken get = if (r.state = .sBReq ∧ bus.resp = .ack) ∧ ch.dstEnd = false then 1 else 0 := by
    intro on
    rw [gets]
    exact order.taken ch (job.cmd loaded l) bus _ _ _ (goesOn on).2
  have fifo := Fifo.holds_step ch.dst q get put di order.fifo
  constructor
  · exact fifo
  · unfold SsSg.wordsLeft at onJob
    rw [List.tail_drop] at onJob
    split_ifs with moves
    · rwa [if_pos moves] at onJob
    · rwa [if_neg moves] at onJob
  · intro on
    have before := order.clean (goesOn on).1
    have bounds := q.bounds
    change ∀ word ∈ (q.pushed ++ q.accepted _).take (q.popped + q.taken get), word.last = false
    rw [taken on]
    by_cases pops : (r.state = .sBReq ∧ bus.resp = .ack) ∧ ch.dstEnd = false
    · obtain ⟨below, head⟩ := order.fifo.shown (order.shown pops.1.1)
      rw [if_pos pops, List.take_append_of_le_length below, List.take_add_one, head]
      intro word member
      rcases List.mem_append.mp member with old | new
      · exact before word old
      · obtain rfl : word = ch.dst.dout := by simpa using new
        exact pops.2
    · rwa [if_neg pops, Nat.add_zero, List.take_append_of_le_length (by omega)]
  · intro on
    change q.popped + q.taken get = _ ∨ q.popped + q.taken get < _ ∧ _
    have held : q.taken get = 0 → q.empty = false → _ := fun none some => order.fifo.dout_kept _ _ fifo some none
    rw [taken on] at held ⊢
    by_cases moves : r.state = .sBReq ∧ bus.resp = .ack
    · rw [if_pos moves]
      cases mark : ch.dstEnd with
      | false =>
          rcases order.counted (goesOn on).1 with same | ⟨_, marked, _⟩
          · exact .inl (by simp [moves, same])
          · exact absurd (mark.symm.trans marked) (by decide)
      | true =>
          obtain ⟨still, kept⟩ := held (by simp [mark]) (order.shown moves.1)
          refine .inr ⟨?_, by rw [kept]; exact mark, still⟩
          rcases order.counted (goesOn on).1 with same | ⟨less, _⟩
          · simp [same]
          · simp
            omega
    · rw [if_neg moves]
      rcases order.counted (goesOn on).1 with same | ⟨less, marked, some⟩
      · exact .inl (by simp [moves, same])
      · obtain ⟨still, kept⟩ := held (by simp [moves]) some
        exact .inr ⟨by simpa [moves] using less, by rw [kept]; exact marked, still⟩
  · intro state
    have on : r'.state ≠ .sEnd := by simp [state]
    rw [engine] at state
    refine order.keeps_shown ch mEndn _ rfl bus _ get (fun still => ?_) state
    rw [taken on, if_neg (fun both => still both.1)]

theorem DstOrder.writing (order : DstOrder job mem kept words loaded r f q written) (bus : BusIn) :
    (r.wbsCyc && r.wbsWe && bus.resp.isAck) = decide (r.state = .sBReq ∧ bus.resp = .ack) := by
  rw [order.onJob.writing, Resp.isAck_decide]
  simp

theorem DstOrder.cycle (order : DstOrder job mem kept words loaded r f q written) (word : BitVec 64) (bus : BusIn) :
    r.writeCycle word bus = if r.state = .sBReq ∧ bus.resp = .ack then [(r.wbsAdrR, word)] else [] := by
  rw [SsSg.writeCycle, order.writing bus]
  simp

theorem DstOrder.frame (order : DstOrder job mem kept words loaded r f q written) (now : Mem) (word : BitVec 64)
    (bus : BusIn) (apart : ∀ adr ∈ words, ¬ kept adr) (frame : ∀ adr, kept adr → now adr = mem adr) (adr : BitVec 29)
    (inside : kept adr) : (r.writeCycle word bus).foldl Mem.write now adr = mem adr := by
  rw [order.cycle]
  split_ifs with moves
  · obtain ⟨listed, address⟩ := order.onJob.address moves.1
    have other : adr ≠ words[written] := fun same => apart _ (List.getElem_mem listed) (same ▸ inside)
    simp [Mem.write, address, other, frame adr inside]
  · exact frame adr inside

end

end SsAdma
