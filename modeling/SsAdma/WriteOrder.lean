import SsAdma.DstWrites

set_option autoImplicit false

namespace SsAdma

structure DstLog where
  accepted : List RamWord
  written : List (BitVec 29 × RamWord)

def DstBench.accepts (b : DstBench) (i : DstBenchIn) : List RamWord :=
  if !(b.mod i).mDstPutn && !b.ch.dst.control.fullOut then [⟨(b.mod i).mDstLast, (b.mod i).mDst⟩] else []

def DstBench.wordWrites (b : DstBench) (i : DstBenchIn) : List (BitVec 29 × RamWord) :=
  if b.dst.wbsCyc && b.dst.wbsWe && i.bus.resp.isAck then [(b.dst.wbsAdrR, b.ch.dst.dout)] else []

def DstBench.log (b : DstBench) (l : DstLog) (i : DstBenchIn) : DstLog where
  accepted := l.accepted ++ b.accepts i
  written := l.written ++ b.wordWrites i

def DstLog.dataAccepted (l : DstLog) : List RamWord := l.accepted.filter (!·.last)

def DstLog.dataWritten (l : DstLog) : List (BitVec 29 × RamWord) := l.written.filter (!·.2.last)

def InOrder (words : List (BitVec 29)) (pair : DstBench × DstLog) : Prop :=
  pair.2.dataWritten <+: words.zip pair.2.dataAccepted

def AckFindsWord (pair : DstBench × DstLog) (i : DstBenchIn) : Prop :=
  pair.1.dst.state = .sBReq → i.bus.resp = .ack → pair.1.ch.dst.control.emptyOut = false

structure DstBench.Ordered (job : JobDesc) (mem : Mem) (kept : BitVec 29 → Prop) (words : List (BitVec 29)) (b : DstBench)
    (l : DstLog) (q : ChQueue) (written moved : Nat) : Prop where
  order : DstOrder job mem kept words b.loaded b.dst b.ch.dst q written
  frame : ∀ adr, kept adr → b.mem adr = mem adr
  accepted : l.accepted = q.pushed
  written : l.dataWritten = words.zip (q.pushed.take moved)
  clean : ∀ word ∈ q.pushed.take moved, word.last = false
  bounded : moved ≤ q.pushed.length
  counted : b.dst.state ≠ .sEnd → moved = q.popped

theorem zip_front {α β : Type} (as : List α) (front all : List β) (partOf : front <+: all) : as.zip front <+: as.zip all := by
  obtain ⟨rest, rfl⟩ := partOf
  induction as generalizing front with
  | nil => simp
  | cons a as ih =>
      cases front with
      | nil => exact List.nil_prefix
      | cons b bs => simpa using ih bs

theorem zip_snoc {α β : Type} (as : List α) (bs : List β) (b : β) (inside : bs.length < as.length) :
    as.zip (bs ++ [b]) = as.zip bs ++ [(as[bs.length], b)] := by
  induction as generalizing bs with
  | nil => simp at inside
  | cons a as ih =>
      cases bs with
      | nil => simp
      | cons c cs => simp [ih cs (by simpa using inside)]

section

variable {job : JobDesc} {mem : Mem} {kept : BitVec 29 → Prop} {words : List (BitVec 29)} {b : DstBench} {l : DstLog}
  {q : ChQueue} {written moved : Nat}

theorem DstBench.Ordered.inOrder (ordered : b.Ordered job mem kept words l q written moved) : InOrder words (b, l) := by
  change l.dataWritten <+: words.zip (l.accepted.filter _)
  rw [ordered.written, ordered.accepted]
  apply zip_front
  have front := (List.take_prefix moved q.pushed).filter (!·.last)
  rwa [List.filter_eq_self.mpr (fun word member => by simp [ordered.clean word member])] at front

theorem DstBench.Ordered.finds (ordered : b.Ordered job mem kept words l q written moved) (i : DstBenchIn) :
    AckFindsWord (b, l) i := by
  intro burst _
  change b.ch.dst.control.emptyOut = false
  rw [ordered.order.fifo.control, ofQueue_emptyOut]
  exact ordered.order.shown burst

theorem DstBench.Ordered.accepts (ordered : b.Ordered job mem kept words l q written moved) (i : DstBenchIn) :
    b.accepts i = q.accepted (if !(b.mod i).mDstPutn then some ⟨(b.mod i).mDstLast, (b.mod i).mDst⟩ else none) := by
  unfold DstBench.accepts DelayQueue.accepted
  rw [ordered.order.fifo.control, ofQueue_fullOut]
  cases q.full <;> cases (b.mod i).mDstPutn <;> rfl

theorem DstBench.Ordered.next (ordered : b.Ordered job mem kept words l q written moved)
    (burst : b.dst.state = .sBReq) (unmarked : b.ch.dstEnd = false) :
    q.pushed[moved]? = some b.ch.dst.dout ∧ ∃ inside : moved < words.length, b.dst.wbsAdrR = words[moved] := by
  have on : b.dst.state ≠ .sEnd := by simp [burst]
  obtain rfl := ordered.counted on
  refine ⟨(ordered.order.fifo.shown (ordered.order.shown burst)).2, ?_⟩
  rcases ordered.order.counted on with same | ⟨_, marked, _⟩
  · rw [same]
    exact ordered.order.onJob.address burst
  · exact absurd (unmarked.symm.trans marked) (by decide)

theorem DstBench.Ordered.wrote (ordered : b.Ordered job mem kept words l q written moved) (i : DstBenchIn) :
    (b.wordWrites i).filter (!·.2.last) =
      if (b.dst.state = .sBReq ∧ i.bus.resp = .ack) ∧ b.ch.dstEnd = false then [(b.dst.wbsAdrR, b.ch.dst.dout)] else [] := by
  unfold wordWrites
  rw [ordered.order.writing i.bus]
  by_cases moves : b.dst.state = .sBReq ∧ i.bus.resp = .ack
  · cases mark : b.ch.dst.dout.last <;> simp [moves, Ch.dstEnd, mark]
  · simp [moves]

theorem DstBench.Ordered.pops (ordered : b.Ordered job mem kept words l q written moved) (i : DstBenchIn)
    (on : (b.step job i).dst.state ≠ .sEnd) :
    q.taken ((b.dst.comb true (b.dstIn job i)).ssXfer && !b.ch.dstEnd) =
      if (b.dst.state = .sBReq ∧ i.bus.resp = .ack) ∧ b.ch.dstEnd = false then 1 else 0 := by
  have going := b.dst.goes_on true (job.cmd b.loaded i.lines) (b.dst.answer b.mem i.bus) _ _ _ rfl on
  have taken := ordered.order.taken b.ch (job.cmd b.loaded i.lines) (b.dst.answer b.mem i.bus)
    (b.ch.dstStart (b.mod i).mEndn) b.ch.dstEnd b.ch.dstStop going.2
  rwa [if_congr (and_congr_left' (ordered.order.onJob.acked b.mem i.bus)) rfl rfl] at taken

theorem DstBench.Ordered.step (ordered : b.Ordered job mem kept words l q written moved) (i : DstBenchIn)
    (listed : job.dc.getLsbD 2 = true) (apart : ∀ adr ∈ words, ¬ kept adr) :
    ∃ q' written' moved', (b.step job i).Ordered job mem kept words (b.log l i) q' written' moved' := by
  have order := ordered.order.step b.ch listed i.lines (b.dst.answer b.mem i.bus) (b.mod i).mEndn (!(b.mod i).mDstPutn)
    ⟨(b.mod i).mDstLast, (b.mod i).mDst⟩ _ _ rfl rfl (ordered.order.onJob.read b.mem i.bus ordered.frame)
  have frame := ordered.order.frame b.mem b.ch.dst.dout.data i.bus apart ordered.frame
  have accepted : (b.log l i).accepted = (q.step (if !(b.mod i).mDstPutn then some ⟨(b.mod i).mDstLast, (b.mod i).mDst⟩ else none)
      ((b.dst.comb true (b.dstIn job i)).ssXfer && !b.ch.dstEnd)).pushed :=
    congr (congrArg HAppend.hAppend ordered.accepted) (ordered.accepts i)
  have wrote : (b.log l i).dataWritten = l.dataWritten ++ (b.wordWrites i).filter (!·.2.last) := List.filter_append _ _
  rw [ordered.written, ordered.wrote i] at wrote
  have taken := ordered.pops i
  by_cases pops : (b.dst.state = .sBReq ∧ i.bus.resp = .ack) ∧ b.ch.dstEnd = false
  · obtain ⟨word, inside, address⟩ := ordered.next pops.1.1 pops.2
    rw [if_pos pops] at wrote taken
    obtain ⟨below, _⟩ := List.getElem?_eq_some_iff.mp word
    have front (more : List RamWord) : (q.pushed ++ more).take (moved + 1) = q.pushed.take moved ++ [b.ch.dst.dout] := by
      rw [List.take_append_of_le_length below, List.take_add_one, word]
      rfl
    have short : (q.pushed.take moved).length = moved := by simpa using Nat.le_of_lt below
    refine ⟨_, _, moved + 1, order, frame, accepted, ?_, ?_, ?_, fun on => ?_⟩
    · change _ = words.zip ((q.pushed ++ q.accepted _).take (moved + 1))
      rw [front, wrote, zip_snoc words _ _ (by rw [short]; exact inside), address]
      simp [short]
    · change ∀ word ∈ (q.pushed ++ q.accepted _).take (moved + 1), _
      rw [front]
      intro word member
      rcases List.mem_append.mp member with old | new
      · exact ordered.clean word old
      · obtain rfl : word = b.ch.dst.dout := by simpa using new
        exact pops.2
    · change moved + 1 ≤ (q.pushed ++ q.accepted _).length
      rw [List.length_append]
      omega
    · have going := b.dst.goes_on true (job.cmd b.loaded i.lines) (b.dst.answer b.mem i.bus) _ _ _ rfl on
      change moved + 1 = q.popped + q.taken ((b.dst.comb true (b.dstIn job i)).ssXfer && !b.ch.dstEnd)
      rw [taken on, ordered.counted going.1]
  · rw [if_neg pops] at wrote taken
    have front (more : List RamWord) : (q.pushed ++ more).take moved = q.pushed.take moved :=
      List.take_append_of_le_length ordered.bounded
    refine ⟨_, _, moved, order, frame, accepted, ?_, ?_, ?_, fun on => ?_⟩
    · change _ = words.zip ((q.pushed ++ q.accepted _).take moved)
      rw [front, wrote, List.append_nil]
    · change ∀ word ∈ (q.pushed ++ q.accepted _).take moved, _
      rw [front]
      exact ordered.clean
    · change moved ≤ (q.pushed ++ q.accepted _).length
      have bounded := ordered.bounded
      rw [List.length_append]
      omega
    · have going := b.dst.goes_on true (job.cmd b.loaded i.lines) (b.dst.answer b.mem i.bus) _ _ _ rfl on
      change moved = q.popped + q.taken ((b.dst.comb true (b.dstIn job i)).ssXfer && !b.ch.dstEnd)
      rw [taken on, ordered.counted going.1, Nat.add_zero]

end

theorem DstBench.Fresh.ordered (job : JobDesc) (kept : BitVec 29 → Prop) (words : List (BitVec 29)) (b : DstBench)
    (fresh : b.Fresh) (list : SgList b.mem kept (job.list true) words) :
    b.Ordered job b.mem kept words ⟨[], []⟩ .nil 0 0 where
  order := by
    rw [fresh.unloaded]
    exact .initial fresh.engine fresh.fifo list
  frame := fun _ _ => rfl
  accepted := rfl
  written := by simp [DstLog.dataWritten]
  clean := by simp
  bounded := Nat.zero_le _
  counted := fun _ => rfl

theorem data_written_in_order (job : JobDesc) (kept : BitVec 29 → Prop) (words : List (BitVec 29)) (start : DstBench)
    (inputs : List DstBenchIn) (fresh : start.Fresh) (listed : job.dc.getLsbD 2 = true)
    (list : SgList start.mem kept (job.list true) words) (apart : ∀ adr ∈ words, ¬ kept adr) :
    Clocked.Admits (Clocked.watch (DstBench.step job) DstBench.log) AckFindsWord (start, ⟨[], []⟩) inputs ∧
      Clocked.Always (Clocked.watch (DstBench.step job) DstBench.log) (InOrder words) (start, ⟨[], []⟩) inputs := by
  let inv (pair : DstBench × DstLog) : Prop :=
    ∃ q written moved, pair.1.Ordered job start.mem kept words pair.2 q written moved
  have keep : ∀ pair i, inv pair → True → inv (Clocked.watch (DstBench.step job) DstBench.log pair i) :=
    fun _ i ⟨_, _, _, ordered⟩ _ => ordered.step i listed apart
  have first : inv (start, ⟨[], []⟩) := ⟨.nil, 0, 0, fresh.ordered job kept words start list⟩
  have free := Clocked.admits_free (Clocked.watch (DstBench.step job) DstBench.log) (start, ⟨[], []⟩) inputs
  constructor
  · exact Clocked.admits_of_invariant _ _ AckFindsWord inv keep (fun _ i ⟨_, _, _, ordered⟩ _ => ordered.finds i) _ inputs
      first free
  · exact Clocked.always_of_invariant _ _ (InOrder words) inv keep (fun _ ⟨_, _, _, ordered⟩ => ordered.inOrder) _ inputs
      first free

theorem linked_list :
    SgList linkedPair (fun adr => tableAt 0x200 adr ∨ tableAt 0x210 adr) (oneJob.list true) [0x2000, 0x2001, 0x4000] :=
  SgList.link (oneJob.list true) [0x4000] ⟨.inl (.inl rfl), .inl (.inr rfl)⟩ (by decide) (by decide)
    (SgList.last 0x210 ⟨.inr (.inl rfl), .inr (.inr rfl)⟩ (by decide) (by decide))

def threeWordPeriods : List DstBenchIn := List.replicate 6 (period .ack true) ++ List.replicate 14 (period .ack false)

theorem three_words_in_order :
    (Clocked.run (Clocked.watch (DstBench.step oneJob) DstBench.log) (streamBench linkedPair [7, 9, 11], ⟨[], []⟩)
        threeWordPeriods).2.dataWritten = [(0x2000, ⟨false, 7⟩), (0x2001, ⟨false, 9⟩), (0x4000, ⟨false, 11⟩)] ∧
      Clocked.Admits (Clocked.watch (DstBench.step oneJob) DstBench.log) AckFindsWord (streamBench linkedPair [7, 9, 11], ⟨[], []⟩)
        threeWordPeriods ∧
      Clocked.Always (Clocked.watch (DstBench.step oneJob) DstBench.log) (InOrder [0x2000, 0x2001, 0x4000])
        (streamBench linkedPair [7, 9, 11], ⟨[], []⟩) threeWordPeriods :=
  ⟨by decide +kernel, data_written_in_order oneJob _ [0x2000, 0x2001, 0x4000] (streamBench linkedPair [7, 9, 11]) threeWordPeriods
    ⟨⟨rfl, rfl, rfl⟩, rfl, rfl⟩ (by decide) linked_list (by simp [tableAt])⟩

end SsAdma
