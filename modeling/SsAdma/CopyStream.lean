import SsAdma.CopyOrder
import SsAdma.Clocked

set_option autoImplicit false

namespace SsAdma

-- The two FIFOs of a channel with the copy module between them. dc selects
-- copy. Any word may be written to the source FIFO, and the destination FIFO
-- may be read at any time; ch does not read it while a word with the end bit is
-- at its head.
structure CopyBench where
  ch : Ch
  copy : Copy

structure CopyBenchIn where
  mEnable : Bool
  write : Option RamWord
  read : Bool

def copyCmd (dc : BitVec 24) (mReset mEnable : Bool) : ChanCmd where
  ssDat := 0
  ssWe := false
  ssAdr := 0
  ssDone := false
  dc := dc
  mReset := mReset
  mEnable := mEnable

def CopyBench.mod (dc : BitVec 24) (b : CopyBench) (i : CopyBenchIn) : ModOut :=
  b.copy.out (modIn (copyCmd dc false i.mEnable) b.ch)

def CopyBench.step (dc : BitVec 24) (b : CopyBench) (i : CopyBenchIn) : CopyBench where
  ch :=
    { b.ch with
      src := b.ch.src.step false (!(b.mod dc i).mSrcGetn) i.write.isSome (i.write.getD default)
      dst := b.ch.dst.step false i.read (!(b.mod dc i).mDstPutn) ⟨(b.mod dc i).mDstLast, (b.mod dc i).mDst⟩ }
  copy := b.copy.step (modIn (copyCmd dc false i.mEnable) b.ch)

def CopyBench.reset (b : CopyBench) : CopyBench where
  ch := b.ch.live true
  copy := b.copy.live true

structure CopyLog where
  intoSrc : List RamWord
  intoDst : List RamWord

def CopyBench.log (dc : BitVec 24) (b : CopyBench) (l : CopyLog) (i : CopyBenchIn) : CopyLog where
  intoSrc := l.intoSrc ++ if b.ch.src.control.fullOut then [] else i.write.toList
  intoDst := l.intoDst ++
    if !(b.mod dc i).mDstPutn && !b.ch.dst.control.fullOut then [⟨(b.mod dc i).mDstLast, (b.mod dc i).mDst⟩] else []

def CopyLog.Marked (l : CopyLog) : Prop := ∃ word ∈ l.intoDst, word.last = true

structure NothingLost (pair : CopyBench × CopyLog) : Prop where
  inOrder : pair.2.intoDst <+: pair.2.intoSrc
  ends : pair.2.Marked → pair.1.copy = .sEnd

structure MovesSafely (dc : BitVec 24) (pair : CopyBench × CopyLog) (i : CopyBenchIn) : Prop where
  gets : (pair.1.mod dc i).mSrcGetn = false → pair.1.ch.src.control.emptyOut = false
  puts : (pair.1.mod dc i).mDstPutn = false → pair.1.ch.dst.control.fullOut = false
  rests : pair.2.Marked → (pair.1.mod dc i).mSrcGetn = true ∧ (pair.1.mod dc i).mDstPutn = true

structure CopyBench.Streams (b : CopyBench) (l : CopyLog) (qs qd : ChQueue) : Prop where
  src : b.ch.src.Holds qs
  dst : b.ch.dst.Holds qd
  order : CopyOrder b.copy qs qd
  intoSrc : l.intoSrc = qs.pushed
  intoDst : l.intoDst = qd.pushed

section

variable {dc : BitVec 24} {b : CopyBench} {l : CopyLog} {qs qd : ChQueue}

theorem CopyBench.Streams.nothing_lost (streams : b.Streams l qs qd) : NothingLost (b, l) where
  inOrder := by
    change l.intoDst <+: l.intoSrc
    rw [streams.intoSrc, streams.intoDst, streams.order.moved]
    exact List.take_prefix _ _
  ends := by
    rintro ⟨word, member, last⟩
    change word ∈ l.intoDst at member
    rw [streams.intoDst] at member
    exact streams.order.ended.mpr ⟨word, member, last⟩

theorem CopyBench.Streams.moves_safely (streams : b.Streams l qs qd) (selects : dc.getLsbD 4 = true) (i : CopyBenchIn) :
    MovesSafely dc (b, l) i := by
  obtain ⟨gets, puts, _⟩ := copy_out b.copy (copyCmd dc false i.mEnable) b.ch rfl (fun _ => selects)
  change (!(b.mod dc i).mSrcGetn) = _ at gets
  change (!(b.mod dc i).mDstPutn) = _ at puts
  refine ⟨fun getting => ?_, fun putting => ?_, fun marked => ?_⟩
  · change b.ch.src.control.emptyOut = false
    rw [streams.src.control, ofQueue_emptyOut]
    exact (streams.order.running (of_decide_eq_true (gets.symm.trans (by simp [show _ = false from getting])))).1
  · change b.ch.dst.control.fullOut = false
    rw [streams.dst.control, ofQueue_fullOut]
    exact (streams.order.running (of_decide_eq_true (puts.symm.trans (by simp [show _ = false from putting])))).2
  · have ended : b.copy = .sEnd := streams.nothing_lost.ends marked
    rw [ended] at gets puts
    exact ⟨by simpa using gets, by simpa using puts⟩

theorem CopyBench.Streams.step (streams : b.Streams l qs qd) (selects : dc.getLsbD 4 = true) (i : CopyBenchIn) :
    ∃ qs' qd', (b.step dc i).Streams (b.log dc l i) qs' qd' := by
  have order := streams.order.step b.copy qs qd b.ch streams.src streams.dst (copyCmd dc false i.mEnable) rfl
    (fun _ => selects) i.write i.read
  have src := Fifo.holds_step b.ch.src qs (!(b.mod dc i).mSrcGetn) i.write.isSome (i.write.getD default) streams.src
  have write : (if i.write.isSome then some (i.write.getD default) else none) = i.write := by cases i.write <;> rfl
  rw [write] at src
  have dst := Fifo.holds_step b.ch.dst qd i.read (!(b.mod dc i).mDstPutn) ⟨(b.mod dc i).mDstLast, (b.mod dc i).mDst⟩ streams.dst
  refine ⟨_, _, src, dst, order, ?_, ?_⟩
  · change l.intoSrc ++ _ = qs.pushed ++ qs.accepted i.write
    rw [streams.intoSrc, streams.src.control, ofQueue_fullOut]
    rfl
  · change l.intoDst ++ _ = qd.pushed ++ qd.accepted _
    rw [streams.intoDst, streams.dst.control, ofQueue_fullOut]
    unfold DelayQueue.accepted
    cases qd.full <;> cases (b.mod dc i).mDstPutn <;> rfl

end

theorem CopyBench.reset_streams (b : CopyBench) : b.reset.Streams ⟨[], []⟩ .nil .nil where
  src := Fifo.holds_cleared _ rfl
  dst := Fifo.holds_cleared _ rfl
  order := ⟨rfl, nofun, by simp [reset, Copy.live, DelayQueue.nil]⟩
  intoSrc := rfl
  intoDst := rfl

theorem copy_keeps_stream (dc : BitVec 24) (selects : dc.getLsbD 4 = true) (b : CopyBench) (inputs : List CopyBenchIn) :
    Clocked.Always (Clocked.watch (CopyBench.step dc) (CopyBench.log dc)) NothingLost (b.reset, ⟨[], []⟩) inputs ∧
      Clocked.Admits (Clocked.watch (CopyBench.step dc) (CopyBench.log dc)) (MovesSafely dc) (b.reset, ⟨[], []⟩) inputs := by
  let inv (pair : CopyBench × CopyLog) : Prop := ∃ qs qd, pair.1.Streams pair.2 qs qd
  have keep : ∀ pair i, inv pair → True → inv (Clocked.watch (CopyBench.step dc) (CopyBench.log dc) pair i) :=
    fun _ i ⟨_, _, streams⟩ _ => streams.step selects i
  have first : inv (b.reset, ⟨[], []⟩) := ⟨.nil, .nil, b.reset_streams⟩
  have free := Clocked.admits_free (Clocked.watch (CopyBench.step dc) (CopyBench.log dc)) (b.reset, ⟨[], []⟩) inputs
  constructor
  · exact Clocked.always_of_invariant _ _ NothingLost inv keep (fun _ ⟨_, _, streams⟩ => streams.nothing_lost) _ inputs first free
  · exact Clocked.admits_of_invariant _ _ (MovesSafely dc) inv keep (fun _ i ⟨_, _, streams⟩ _ => streams.moves_safely selects i)
      _ inputs first free

def emptyFifos : CopyBench where
  ch := ⟨⟨.cleared, ⟨fun _ => default, default⟩⟩, ⟨.cleared, ⟨fun _ => default, default⟩⟩, 0⟩
  copy := .sIdle

def threeWordsAndMarker : List CopyBenchIn :=
  [⟨true, some ⟨false, 7⟩, false⟩, ⟨true, some ⟨false, 9⟩, false⟩, ⟨true, none, false⟩, ⟨true, some ⟨false, 11⟩, true⟩,
    ⟨true, some ⟨true, 8⟩, false⟩] ++ List.replicate 8 ⟨true, none, true⟩

theorem three_words_streamed :
    (Clocked.run (Clocked.watch (CopyBench.step 0x16) (CopyBench.log 0x16)) (emptyFifos.reset, ⟨[], []⟩) threeWordsAndMarker).2.intoDst =
        [⟨false, 7⟩, ⟨false, 9⟩, ⟨false, 11⟩, ⟨true, 8⟩] ∧
      Clocked.Always (Clocked.watch (CopyBench.step 0x16) (CopyBench.log 0x16)) NothingLost (emptyFifos.reset, ⟨[], []⟩)
        threeWordsAndMarker ∧
      Clocked.Admits (Clocked.watch (CopyBench.step 0x16) (CopyBench.log 0x16)) (MovesSafely 0x16)
        (emptyFifos.reset, ⟨[], []⟩) threeWordsAndMarker :=
  ⟨by decide +kernel, copy_keeps_stream 0x16 (by decide) emptyFifos threeWordsAndMarker⟩

end SsAdma
