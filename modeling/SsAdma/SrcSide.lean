import SsAdma.JobLoad
import SsAdma.SrcRoom

set_option autoImplicit false

namespace SsAdma

def fetchedWord (mem : Mem) (adr : BitVec 29) : RamWord := ⟨false, mem adr⟩

structure SrcSide (job : JobDesc) (mem : Mem) (kept : BitVec 29 → Prop) (words : List (BitVec 29)) (loaded : Nat)
    (r : SsSg) (f : Fifo) (q : ChQueue) : Prop where
  fifo : f.Holds q
  stream : Streamed (words.map mem) q.pushed
  onJob : r.OnJob job false mem kept loaded (words.drop q.pushed.length)
  fetched : r.state ≠ .sEnd → q.pushed <+: words.map (fetchedWord mem)
  room : r.state = .sBReq → q.full = false
  unloaded : loaded < 4 → q.pushed = []

theorem streamed_of_fetched (mem : Mem) (words : List (BitVec 29)) (pushed : List RamWord)
    (fetched : pushed <+: words.map (fetchedWord mem)) : Streamed (words.map mem) pushed := by
  refine ⟨⟨true, 0⟩, rfl, fetched.trans ?_⟩
  rw [List.map_map]
  exact List.prefix_append _ _

theorem prefix_snoc {α : Type} (front all : List α) (partOf : front <+: all) (inside : front.length < all.length) :
    front ++ [all[front.length]] <+: all := by
  have cut : front = all.take front.length := List.prefix_iff_eq_take.mp partOf
  have longer : front ++ [all[front.length]] = all.take (front.length + 1) := by
    rw [List.take_succ_eq_append_getElem inside, ← cut]
  rw [longer]
  exact List.take_prefix _ _

section

variable {job : JobDesc} {mem : Mem} {kept : BitVec 29 → Prop} {words : List (BitVec 29)} {loaded : Nat} {r : SsSg}
  {q : ChQueue}

theorem SrcSide.all_fetched {f : Fifo} (side : SrcSide job mem kept words loaded r f q) (state : r.state = .sNext)
    (last : r.sgLast = true) : q.pushed = words.map (fetchedWord mem) := by
  have none := side.onJob.lastNext state last
  have front := side.fetched (by simp [state])
  have short := List.drop_eq_nil_iff.mp none
  exact front.eq_of_length_le (by simpa using short)

theorem SrcSide.stays_unloaded {f : Fifo} (side : SrcSide job mem kept words loaded r f q) (l : CtrlLines)
    (put : Option RamWord) (get : Bool) (quiet : r.state = .sIdle ∨ r.state = .sCmd → put = none)
    (early : l.count loaded < 4) : (q.step put get).pushed = [] := by
  have before : loaded < 4 := Nat.lt_of_le_of_lt (l.count_le loaded) early
  rw [quiet (side.onJob.loading before).1.not_moving, q.step_quiet, side.unloaded before]

theorem SrcSide.step (ch : Ch) (side : SrcSide job mem kept words loaded r ch.src q) (listed : job.dc.getLsbD 1 = true)
    (sources : ∀ adr ∈ words, kept adr) (l : CtrlLines) (bus : BusIn) (get : Bool) (r' : SsSg)
    (engine : r' = r.step false (sgIn (job.cmd loaded l) bus ch.srcStart ch.srcEnd ch.srcStop)) (put : Bool) (di : RamWord)
    (puts : put = (r.comb false (sgIn (job.cmd loaded l) bus ch.srcStart ch.srcEnd ch.srcStop)).ssXfer)
    (word : di = ⟨(r.comb false (sgIn (job.cmd loaded l) bus ch.srcStart ch.srcEnd ch.srcStop)).ssLast, bus.dat⟩)
    (read : bus.resp = .ack → r.wbsWe = false → kept r.wbsAdrR → bus.dat = mem r.wbsAdrR) :
    SrcSide job mem kept words (l.count loaded) r' (ch.src.step false get put di)
      (q.step (if put then some di else none) get) := by
  have onJob := r.onJob_step job false mem kept loaded (words.drop q.pushed.length) l bus ch.srcStart ch.srcEnd ch.srcStop
    side.onJob listed (fun resp state => read resp (side.onJob.reading state).2)
  rw [← engine] at onJob
  have fifo := Fifo.holds_step ch.src q get put di side.fifo
  obtain ⟨xfer, last⟩ := r.comb_xfer false (job.cmd loaded l) bus ch.srcStart ch.srcEnd ch.srcStop
  rw [xfer, Resp.isAck_decide] at puts
  rw [last] at word
  have room : r'.state = .sBReq → (q.step (if put then some di else none) get).full = false := by
    rw [engine]
    refine r.keeps_room ch q side.fifo side.room _ rfl bus _ _ get (fun before resp => ?_)
    have quiet : put = false := by simpa [before, resp] using puts
    simp [quiet]
  have unloaded : l.count loaded < 4 → (q.step (if put then some di else none) get).pushed = [] := by
    refine side.stays_unloaded l _ get (fun still => ?_)
    have quiet : put = false := by rcases still with state | state <;> simpa [state] using puts
    simp [quiet]
  by_cases moves : r.state = .sBReq ∧ bus.resp = .ack
  · obtain ⟨inside, address⟩ := side.onJob.address moves.1
    have value : bus.dat = mem words[q.pushed.length] := by
      rw [← address]
      exact read moves.2 (side.onJob.moving moves.1).2.1 (address ▸ sources _ (List.getElem_mem inside))
    have pushes : (q.step (if put then some di else none) get).pushed =
        q.pushed ++ [fetchedWord mem words[q.pushed.length]] := by
      have xfers : put = true := by simpa [moves] using puts
      have plain : di = fetchedWord mem words[q.pushed.length] := by simpa [moves, value, fetchedWord] using word
      simp [xfers, plain, q.step_put, side.room moves.1]
    have front := prefix_snoc q.pushed _ (side.fetched (by simp [moves])) (by simpa using inside)
    rw [List.getElem_map, ← pushes] at front
    rw [SsSg.wordsLeft, if_pos moves, List.tail_drop] at onJob
    exact ⟨fifo, streamed_of_fetched mem words _ front, by rw [pushes]; simpa using onJob, fun _ => front, room, unloaded⟩
  · rw [SsSg.wordsLeft, if_neg moves] at onJob
    by_cases ends : r.state = .sNext ∧ r.sgLast = true
    · have all := side.all_fetched ends.1 ends.2
      have finished : r'.state = .sEnd := by
        rw [engine, r.step_sNext false _ bus _ _ _ rfl ends.1, if_pos ends.2]
      have mark : di.last = true := by simp [word, ends]
      refine ⟨fifo, ⟨di, mark, ?_⟩, ?_, fun on => absurd finished on, room, unloaded⟩
      · change q.pushed ++ q.accepted _ <+: _
        rw [all, List.map_map]
        apply List.prefix_append_right_inj _ |>.mpr
        unfold DelayQueue.accepted
        cases q.full <;> cases put <;> simp
      · have spent : words.drop q.pushed.length = [] := side.onJob.lastNext ends.1 ends.2
        rw [spent] at onJob
        rwa [List.drop_eq_nil_of_le]
        change words.length ≤ (q.pushed ++ q.accepted _).length
        simp [all]
    · have quiet : put = false := by
        have noWord : (decide (r.state = .sBReq) && decide (bus.resp = .ack)) = false := by simpa using moves
        have noMark : (decide (r.state = .sNext) && r.sgLast) = false := by simpa using ends
        rw [puts, noWord, noMark]
        rfl
      have pushes : (q.step (if put then some di else none) get).pushed = q.pushed := by simp [quiet, q.step_quiet]
      refine ⟨fifo, by rw [pushes]; exact side.stream, by rw [pushes]; exact onJob, fun on => ?_, room, unloaded⟩
      rw [pushes]
      apply side.fetched
      intro finished
      rw [engine] at on
      exact on (r.step_end false _ rfl rfl finished)

end

end SsAdma
