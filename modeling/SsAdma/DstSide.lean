import SsAdma.DstOrder

set_option autoImplicit false

namespace SsAdma

structure DstSide (job : JobDesc) (mem : Mem) (kept : BitVec 29 → Prop) (words : List (BitVec 29))
    (data : List (BitVec 64)) (loaded : Nat) (r : SsSg) (f : Fifo) (q : ChQueue) (written : Nat) : Prop where
  fifo : f.Holds q
  stream : Streamed data q.pushed
  onJob : r.OnJob job true mem kept loaded (words.drop written)
  popped : r.state ≠ .sEnd → q.popped = min written data.length
  shown : r.state = .sBReq → q.empty = false
  marked : r.state ≠ .sEnd → data.length < written → q.empty = false

section

variable {job : JobDesc} {mem : Mem} {kept : BitVec 29 → Prop} {words : List (BitVec 29)} {data : List (BitVec 64)}
  {loaded : Nat} {r : SsSg} {f : Fifo} {q : ChQueue} {written : Nat}

theorem DstSide.head (side : DstSide job mem kept words data loaded r f q written) (ready : q.ready) :
    q.popped ≤ data.length ∧ f.dout.last = decide (q.popped = data.length) ∧
      ∀ inside : q.popped < data.length, f.dout.data = data[q.popped] := by
  have below : q.popped < q.pushed.length := by
    have bounds := q.bounds
    unfold DelayQueue.ready at ready
    omega
  rw [side.fifo.head below ready]
  exact side.stream.word data q.pushed q.popped below

theorem DstSide.order (side : DstSide job mem kept words data loaded r f q written) :
    DstOrder job mem kept words loaded r f q written where
  fifo := side.fifo
  onJob := side.onJob
  clean := by
    intro on word member
    have popped := side.popped on
    obtain ⟨j, below, entry⟩ := List.getElem_of_mem member
    rw [List.length_take] at below
    rw [List.getElem_take] at entry
    have last := (side.stream.word data q.pushed j (by omega)).2.1
    rw [entry] at last
    rw [last]
    exact decide_eq_false (by omega)
  counted := by
    intro on
    have popped := side.popped on
    by_cases more : data.length < written
    · have some := side.marked on more
      obtain ⟨_, last, _⟩ := side.head (q.ready_of_not_empty some)
      exact .inr ⟨by omega, last.trans (decide_eq_true (by omega)), some⟩
    · exact .inl (by omega)
  shown := side.shown

theorem DstOrder.before_marker (order : DstOrder job mem kept words loaded r f q written) (on : r.state ≠ .sEnd)
    (stream : Streamed data q.pushed) : q.popped ≤ data.length := by
  by_contra beyond
  have bounds := q.bounds
  have inside : data.length < q.pushed.length := by omega
  have last := (stream.word data q.pushed data.length inside).2.1
  have member : q.pushed[data.length] ∈ q.pushed.take q.popped :=
    List.mem_take_iff_getElem.mpr ⟨data.length, by omega, rfl⟩
  rw [order.clean on _ member] at last
  simp at last

theorem DstOrder.side (order : DstOrder job mem kept words loaded r f q written) (stream : Streamed data q.pushed) :
    DstSide job mem kept words data loaded r f q written where
  fifo := order.fifo
  stream := stream
  onJob := order.onJob
  popped := by
    intro on
    have within := order.before_marker on stream
    rcases order.counted on with same | ⟨less, marked, some⟩
    · omega
    · obtain ⟨below, head⟩ := order.fifo.shown some
      have last := (stream.word data q.pushed q.popped below).2.1
      rw [Option.some_inj.mp ((List.getElem?_eq_getElem below).symm.trans head), marked] at last
      have atEnd := of_decide_eq_true last.symm
      omega
  shown := order.shown
  marked := by
    intro on more
    have within := order.before_marker on stream
    rcases order.counted on with same | ⟨_, _, some⟩
    · omega
    · exact some

theorem DstSide.initial (closed : r.Closed) (cleared : f.control = .cleared) (list : SgList mem kept (job.list true) words) :
    DstSide job mem kept words data 0 r f .nil 0 :=
  (DstOrder.initial closed cleared list).side ⟨⟨true, 0⟩, rfl, List.nil_prefix⟩

theorem DstSide.step (ch : Ch) (side : DstSide job mem kept words data loaded r ch.dst q written)
    (listed : job.dc.getLsbD 2 = true) (l : CtrlLines) (bus : BusIn) (mEndn put : Bool) (di : RamWord) (get : Bool) (r' : SsSg)
    (engine : r' = r.step true (sgIn (job.cmd loaded l) bus (ch.dstStart mEndn) ch.dstEnd ch.dstStop))
    (gets : get = ((r.comb true (sgIn (job.cmd loaded l) bus (ch.dstStart mEndn) ch.dstEnd ch.dstStop)).ssXfer && !ch.dstEnd))
    (read : bus.resp = .ack → r.state = .sDReq → kept r.wbsAdrR → bus.dat = mem r.wbsAdrR)
    (stream : Streamed data (q.step (if put then some di else none) get).pushed) :
    DstSide job mem kept words data (l.count loaded) r' (ch.dst.step false get put di)
      (q.step (if put then some di else none) get)
      (if r.state = .sBReq ∧ bus.resp = .ack then written + 1 else written) :=
  (side.order.step ch listed l bus mEndn put di get r' engine gets read).side stream

theorem DstSide.cycle (side : DstSide job mem kept words data loaded r f q written) (word : BitVec 64) (bus : BusIn) :
    r.writeCycle word bus = if r.state = .sBReq ∧ bus.resp = .ack then [(r.wbsAdrR, word)] else [] :=
  side.order.cycle word bus

end

end SsAdma
