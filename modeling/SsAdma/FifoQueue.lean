import SsAdma.Ch
import SsAdma.DelayQueue
import SsAdma.Gray

set_option autoImplicit false

namespace SsAdma

theorem calcGrey_gray {n : Nat} (addr : BitVec (n + 1)) : calcGrey addr = Gray.gray addr := by
  apply BitVec.eq_of_getLsbD_eq
  intro i below
  simp only [calcGrey, Gray.gray, BitVec.getLsbD_cons, BitVec.getLsbD_xor, BitVec.getLsbD_extractLsb',
    BitVec.getLsbD_ushiftRight]
  by_cases top : i = n
  · subst top
    rw [BitVec.getLsbD_of_ge addr (1 + i) (by omega)]
    simp [BitVec.msb_eq_getLsbD_last]
  · have inside : i < n := by omega
    simp [top, inside]
    exact Bool.xor_comm _ _

def FifoControl.ofCounts {n : Nat} (r r1 r2 w w1 w2 : Nat) : FifoControl n where
  raddr := BitVec.ofNat _ (r + 4)
  raddrPlusOne := BitVec.ofNat _ (r + 5)
  rgreyMinus2 := Gray.gray (BitVec.ofNat _ r)
  rgreyMinus1 := Gray.gray (BitVec.ofNat _ (r + 1))
  rgreyAddr := Gray.gray (BitVec.ofNat _ (r + 2))
  rgreyNext := Gray.gray (BitVec.ofNat _ (r + 3))
  waddr := BitVec.ofNat _ (w + 4)
  wgreyMinus1 := Gray.gray (BitVec.ofNat _ (w + 1))
  wgreyAddr := Gray.gray (BitVec.ofNat _ (w + 2))
  wgreyNext := Gray.gray (BitVec.ofNat _ (w + 3))
  wclkSyncRgreyMinus2 := Gray.gray (BitVec.ofNat _ r1)
  wclkRgreyMinus2 := Gray.gray (BitVec.ofNat _ r2)
  rclkSyncWgreyAddr := Gray.gray (BitVec.ofNat _ (w1 + 2))
  rclkWgreyAddr := Gray.gray (BitVec.ofNat _ (w2 + 2))

theorem cleared_counts : (FifoControl.cleared : FifoControl 8) = .ofCounts 0 0 0 0 0 0 := by
  decide

theorem ofNat_succ {n : Nat} (k : Nat) : BitVec.ofNat n k + 1#n = BitVec.ofNat n (k + 1) := by
  rw [BitVec.ofNat_add]

theorem advance_counts {n : Nat} (r r1 r2 w w1 w2 : Nat) (renable wenable : Bool) (taken accepted : Nat)
    (pops : taken = if (FifoControl.ofCounts (n := n) r r1 r2 w w1 w2).rallowOut renable then 1 else 0)
    (puts : accepted = if (FifoControl.ofCounts (n := n) r r1 r2 w w1 w2).wallowOut wenable then 1 else 0) :
    (FifoControl.ofCounts (n := n) r r1 r2 w w1 w2).advance renable wenable =
      .ofCounts (r + taken) r r1 (w + accepted) w w1 := by
  subst pops puts
  unfold FifoControl.advance
  cases (FifoControl.ofCounts (n := n) r r1 r2 w w1 w2).rallowOut renable <;>
    cases (FifoControl.ofCounts (n := n) r r1 r2 w w1 w2).wallowOut wenable <;>
    simp [FifoControl.ofCounts, calcGrey_gray, ofNat_succ, Nat.add_right_comm]

abbrev ChQueue := DelayQueue RamWord 511

def slot (j : Nat) : BitVec 9 := BitVec.ofNat 9 (j + 4)

def FifoControl.ofQueue (q : ChQueue) : FifoControl 8 :=
  .ofCounts q.popped q.poppedOnce q.poppedTwice q.pushed.length q.pushedOnce q.pushedTwice

theorem ofQueue_fullOut (q : ChQueue) : (FifoControl.ofQueue q).fullOut = q.full := by
  have bounds := q.bounds
  simp only [FifoControl.fullOut, FifoControl.ofQueue, FifoControl.ofCounts, DelayQueue.full, Gray.gray_count_eq]
  apply decide_eq_decide.mpr
  omega

theorem ofQueue_almostFullOut (q : ChQueue) :
    (FifoControl.ofQueue q).almostFullOut = decide (q.pushed.length = q.poppedTwice + 510) := by
  have bounds := q.bounds
  simp only [FifoControl.almostFullOut, FifoControl.ofQueue, FifoControl.ofCounts, Gray.gray_count_eq]
  apply decide_eq_decide.mpr
  omega

theorem ofQueue_emptyOut (q : ChQueue) : (FifoControl.ofQueue q).emptyOut = q.empty := by
  have bounds := q.bounds
  simp only [FifoControl.emptyOut, FifoControl.ofQueue, FifoControl.ofCounts, DelayQueue.empty, Gray.gray_count_eq]
  apply decide_eq_decide.mpr
  omega

theorem ofQueue_almostEmptyOut (q : ChQueue) :
    (FifoControl.ofQueue q).almostEmptyOut = decide (q.pushedTwice = q.popped + 1) := by
  have bounds := q.bounds
  simp only [FifoControl.almostEmptyOut, FifoControl.ofQueue, FifoControl.ofCounts, Gray.gray_count_eq]
  apply decide_eq_decide.mpr
  omega

theorem fullness_counts (f : FifoControl 8) (held : Nat)
    (apart : f.waddr.toNat = (f.raddr.toNat + held) % 512) (below : held < 512) :
    f.fifoFullness.toNat = if held = 0 then 512 else held := by
  have readBound := f.raddr.isLt
  have writeBound := f.waddr.isLt
  unfold FifoControl.fifoFullness
  by_cases ahead : f.raddr < f.waddr
  · have ordered := BitVec.lt_def.mp ahead
    rw [if_pos ahead]
    simp only [BitVec.toNat_sub, BitVec.toNat_cons', Bool.toNat_false]
    split <;> omega
  · have ordered := mt BitVec.lt_def.mpr ahead
    rw [if_neg ahead]
    simp only [BitVec.toNat_sub, BitVec.toNat_cons', Bool.toNat_false, Bool.toNat_true]
    split <;> omega

theorem ofQueue_halfFullOut (q : ChQueue) :
    (FifoControl.ofQueue q).halfFullOut = decide (256 ≤ q.pushed.length - q.popped) := by
  have bounds := q.bounds
  have apart : (FifoControl.ofQueue q).waddr.toNat =
      ((FifoControl.ofQueue q).raddr.toNat + (q.pushed.length - q.popped)) % 512 := by
    simp only [FifoControl.ofQueue, FifoControl.ofCounts, BitVec.toNat_ofNat]
    omega
  rw [FifoControl.halfFullOut, BitVec.getElem_eq_testBit_toNat, Nat.testBit_eq_decide_div_mod_eq,
    fullness_counts _ _ apart (by omega)]
  apply decide_eq_decide.mpr
  split <;> omega

-- A FIFO and the queue it is. The RAM output register shows the head only once
-- the head has been in the RAM for a period; before that it shows whatever the
-- slot held, which clearing the FIFO leaves in place.
structure Fifo.Holds (f : Fifo) (q : ChQueue) : Prop where
  control : f.control = .ofQueue q
  stored : ∀ j (below : j < q.pushed.length), q.popped ≤ j → f.ram.mem (slot j) = q.pushed[j]
  head : ∀ (below : q.popped < q.pushed.length), q.ready → f.dout = q.pushed[q.popped]

def Fifo.fresh (f : Fifo) : Bool := f.control.rgreyAddr ≠ f.control.rclkSyncWgreyAddr

theorem Fifo.Holds.fresh_ready {f : Fifo} {q : ChQueue} (holds : f.Holds q) : f.fresh = decide q.ready := by
  have bounds := q.bounds
  rw [Fifo.fresh, holds.control]
  simp only [FifoControl.ofQueue, FifoControl.ofCounts, ne_eq, Gray.gray_count_eq]
  apply decide_eq_decide.mpr
  unfold DelayQueue.ready
  omega

theorem slot_apart (i j : Nat) (near : i < j ∧ j < i + 512) : slot i ≠ slot j := by
  intro same
  have counts : (i + 4) % 2 ^ 9 = (j + 4) % 2 ^ 9 := by simpa [slot] using congrArg BitVec.toNat same
  omega

theorem Fifo.holds_cleared (f : Fifo) (cleared : f.control = .cleared) : f.Holds .nil where
  control := cleared.trans cleared_counts
  stored := by simp [DelayQueue.nil]
  head := by simp [DelayQueue.nil]

theorem ofQueue_raddrOut (q : ChQueue) (renable : Bool) :
    (FifoControl.ofQueue q).raddrOut renable = slot (q.popped + q.taken renable) := by
  unfold FifoControl.raddrOut FifoControl.rallowOut
  rw [ofQueue_emptyOut]
  unfold DelayQueue.taken
  cases renable && !q.empty <;> simp [FifoControl.ofQueue, FifoControl.ofCounts, slot]

theorem ofQueue_waddr (q : ChQueue) : (FifoControl.ofQueue q).waddr = slot q.pushed.length := rfl

theorem ofQueue_step (q : ChQueue) (renable wenable : Bool) (put : Option RamWord) (same : put.isSome = wenable) :
    (FifoControl.ofQueue q).step false renable wenable = .ofQueue (q.step put renable) := by
  have pops : q.taken renable = if (FifoControl.ofQueue q).rallowOut renable then 1 else 0 := by
    rw [FifoControl.rallowOut, ofQueue_emptyOut]
    rfl
  have puts : (q.accepted put).length = if (FifoControl.ofQueue q).wallowOut wenable then 1 else 0 := by
    rw [FifoControl.wallowOut, ofQueue_fullOut, ← same]
    unfold DelayQueue.accepted
    cases put <;> cases q.full <;> rfl
  calc (FifoControl.ofQueue q).step false renable wenable
      = .ofCounts (q.popped + q.taken renable) q.popped q.poppedOnce
          (q.pushed.length + (q.accepted put).length) q.pushed.length q.pushedOnce :=
        advance_counts _ _ _ _ _ _ renable wenable _ _ pops puts
    _ = .ofQueue (q.step put renable) := by
        rw [← List.length_append]
        rfl

theorem Fifo.holds_step (f : Fifo) (q : ChQueue) (renable wenable : Bool) (di : RamWord) (holds : f.Holds q) :
    (f.step false renable wenable di).Holds (q.step (if wenable then some di else none) renable) := by
  have bounds := q.bounds
  have available := q.taken_available renable
  have atRead : (f.step false renable wenable di).dout = f.ram.mem (slot (q.popped + q.taken renable)) := by
    rw [← ofQueue_raddrOut, ← holds.control]
    rfl
  constructor
  · rw [← ofQueue_step q renable wenable _ (by cases wenable <;> rfl), ← holds.control]
    rfl
  · intro j below unread
    change j < (q.pushed ++ q.accepted _).length at below
    change q.popped + q.taken renable ≤ j at unread
    change (f.step false renable wenable di).ram.mem (slot j) = (q.pushed ++ q.accepted _)[j]
    have written : (f.step false renable wenable di).ram.mem =
        if wenable && !q.full then fun addr => if addr = slot q.pushed.length then di else f.ram.mem addr
        else f.ram.mem := by
      rw [← ofQueue_fullOut, ← ofQueue_waddr, ← holds.control]
      rfl
    rw [written]
    rw [List.length_append] at below
    by_cases old : j < q.pushed.length
    · have apart : slot j ≠ slot q.pushed.length := slot_apart _ _ ⟨old, by omega⟩
      rw [List.getElem_append_left old, ← holds.stored j old (by omega)]
      split <;> simp [apart]
    · cases wenable with
      | false => simp [DelayQueue.accepted, old] at below
      | true =>
          cases room : q.full with
          | true => simp [DelayQueue.accepted, room, old] at below
          | false =>
              have newest : j = q.pushed.length := by
                simp only [DelayQueue.accepted, room] at below
                simp at below
                omega
              subst newest
              simp [DelayQueue.accepted, room]
  · intro below ready
    have inside : q.popped + q.taken renable < q.pushed.length := (q.ready_step _ _).mp ready
    rw [atRead, holds.stored _ inside (Nat.le_add_right _ _)]
    exact (List.getElem_append_left inside).symm

def Streamed (data : List (BitVec 64)) (pushed : List RamWord) : Prop :=
  ∃ mark : RamWord, mark.last = true ∧ pushed <+: data.map (RamWord.mk false) ++ [mark]

theorem Streamed.word (data : List (BitVec 64)) (pushed : List RamWord) (streamed : Streamed data pushed) (j : Nat)
    (below : j < pushed.length) :
    j ≤ data.length ∧ pushed[j].last = decide (j = data.length) ∧
      ∀ inside : j < data.length, pushed[j].data = data[j] := by
  obtain ⟨mark, last, front⟩ := streamed
  have listed : j < (data.map (RamWord.mk false) ++ [mark]).length := Nat.lt_of_lt_of_le below front.length_le
  have short : j < data.length + 1 := by simpa using listed
  have entry : pushed[j] = (data.map (RamWord.mk false) ++ [mark])[j] := front.getElem below
  rw [entry]
  by_cases inside : j < data.length
  · rw [List.getElem_append_left (by simpa using inside)]
    simp [inside, Nat.ne_of_lt inside, Nat.le_of_lt inside]
  · have atEnd : j = data.length := by omega
    subst atEnd
    simp [last]

theorem Streamed.front (data : List (BitVec 64)) (pushed front : List RamWord) (streamed : Streamed data pushed)
    (partOf : front <+: pushed) : Streamed data front := by
  obtain ⟨mark, last, whole⟩ := streamed
  exact ⟨mark, last, partOf.trans whole⟩

end SsAdma
