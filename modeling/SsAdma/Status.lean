import Mathlib.Tactic.ByContra
import Mathlib.Tactic.SplitIfs
import SsAdma.Clocked
import SsAdma.Dispatch

set_option autoImplicit false

namespace SsAdma

-- simp leaves the bits of dc as getLsbD.
attribute [-simp] BitVec.getLsbD_eq_getElem

structure JobNote where
  ctlAdr : BitVec 29
  dc : BitVec 16
  words : Nat
deriving DecidableEq, Repr

def Masters.writesStatus (m : Masters) (i : MastersIn) : Bool := (i.bus 4).ack && m.ctrl.wbsWe4
def Masters.statusLane (m : Masters) : Fin 2 := if m.ctrl.state = .sCtl0 then 0 else 1

def Masters.noteJob (m : Masters) (notes : Fin 2 → JobNote) (i : MastersIn) (lane : Fin 2) : JobNote :=
  if m.ssWe i (srcOf lane) then
    if m.ctrl.inc = 0#2 then { ctlAdr := (i.bus 4).dat64.extractLsb' 3 29, dc := 0, words := 0 }
    else if m.ctrl.inc = 1#2 then { notes lane with dc := (i.bus 4).dat.extractLsb' 0 16 }
    else notes lane
  else if m.writesStatus i && m.statusLane == lane then { notes lane with words := (notes lane).words + 1 }
  else notes lane

def Masters.stepNoted : Masters × (Fin 2 → JobNote) → MastersIn → Masters × (Fin 2 → JobNote) :=
  Clocked.watch Masters.step Masters.noteJob

def JobNote.Settled (note : JobNote) : Prop := note.words = if note.dc.getLsbD 7 then 4 else 0

def MastersIn.ocnt (i : MastersIn) (lane : Fin 2) : BitVec 16 := if lane = 0 then i.ocnt0 else i.ocnt1
def Ctrl.mCyc (c : Ctrl) (lane : Fin 2) : BitVec 32 := if lane = 0 then c.mCyc0 else c.mCyc1

def Masters.statusWord (m : Masters) (i : MastersIn) (lane : Fin 2) (dc : BitVec 16) : Nat → BitVec 64
  | 0 => (i.ocnt lane).setWidth 64 * 8
  | 1 => (m.sg (dstOf lane)).err.setWidth 64
  | 2 => (m.ctrl.mCyc lane).setWidth 64
  | _ => BitVec.ofNat 64 lane.val * 0x1000000 + dc.setWidth 64

structure StatusWritten (m : Masters) (note : JobNote) (i : MastersIn) (lane : Fin 2) : Prop where
  ended : (m.sg (dstOf lane)).state = .sEnd
  released : (m.sg (dstOf lane)).wbsCyc = false
  wanted : note.dc.getLsbD 7 = true
  count : note.words < 4
  address : m.ctrl.wbsAdr4R = note.ctlAdr + BitVec.ofNat 29 note.words
  data : m.ctrl.wbsDatI4 (m.ctrlIn i) = m.statusWord i lane note.dc note.words

structure CompletionOrdered (s : Masters × (Fin 2 → JobNote)) (i : MastersIn) : Prop where
  status : s.1.writesStatus i = true → StatusWritten s.1 (s.2 s.1.statusLane) i s.1.statusLane
  interrupt : (s.1.ctrl.comb (s.1.ctrlIn i)).wbIntSet = true →
    ∃ lane, s.1.ctrl.stage lane = .retiring ∧ (s.2 lane).dc.getLsbD 11 = true ∧ (s.2 lane).Settled
  retired : ∀ lane, s.1.ctrl.stage lane = .retiring → (s.2 lane).Settled
  update : (s.1.ctrl.comb (s.1.ctrlIn i)).darN ≠ s.1.ctrl.darR → ∀ lane, (s.2 lane).Settled
  notBusy : s.1.ctrl.busy = true → (s.1.ctrl.comb (s.1.ctrlIn i)).stateN = .sIdle → ∀ lane, (s.2 lane).Settled

def JobNote.Same (note : JobNote) (c : Ctrl) (lane : Fin 2) : Prop := c.ctlAdr lane = note.ctlAdr ∧ c.dcR lane = note.dc

def JobNote.Tracks (note : JobNote) (m : Masters) (lane : Fin 2) : Stage → Prop
  | .free => note.Settled
  | .loading =>
      note.words = 0 ∧ m.ctrl.ctlAdr lane = note.ctlAdr ∧ (m.ctrl.inc = 1#2 → note.dc = 0) ∧
        (m.ctrl.inc ≠ 1#2 → m.ctrl.dcR lane = note.dc)
  | .running =>
      note.words = 0 ∧ note.Same m.ctrl lane ∧
        ((m.sg (dstOf lane)).cDone = true → (m.sg (dstOf lane)).state = .sEnd)
  | .writing =>
      note.words = m.ctrl.inc.toNat ∧ note.Same m.ctrl lane ∧ note.dc.getLsbD 7 = true ∧
        m.ctrl.wbsAdr4R = note.ctlAdr + BitVec.ofNat 29 note.words ∧ (m.sg (dstOf lane)).state = .sEnd
  | .closing | .retiring => note.Settled ∧ note.Same m.ctrl lane

structure StatusInv (s : Masters × (Fin 2 → JobNote)) : Prop extends Dispatch s.1 where
  tracks : ∀ lane, (s.2 lane).Tracks s.1 lane (s.1.ctrl.stage lane)

theorem Ctrl.stage_writing_iff (c : Ctrl) (lane : Fin 2) :
    c.stage lane = .writing ↔ c.state = if lane = 0 then .sCtl0 else .sCtl1 := by
  match lane with
  | 0 =>
      change c.stage0 = _ ↔ c.state = .sCtl0
      unfold stage0
      cases c.state <;> simp <;> split_ifs <;> simp
  | 1 =>
      change c.stage1 = _ ↔ c.state = .sCtl1
      unfold stage1
      cases c.state <;> simp <;> split_ifs <;> simp

theorem writes_status_iff {m : Masters} {i : MastersIn} (exclusive : Exclusive m i) (dispatch : Dispatch m) (lane : Fin 2) :
    (m.writesStatus i && m.statusLane == lane) = true ↔ m.ctrl.stage lane = .writing ∧ (i.bus 4).ack = true := by
  rw [Ctrl.stage_writing_iff]
  simp only [Masters.writesStatus, Bool.and_eq_true, beq_iff_eq, Masters.statusLane]
  constructor
  · rintro ⟨⟨ack, write⟩, here⟩
    have holds := exclusive.ctrl_holds ack
    have writes : m.ctrl.state.writes = true := (dispatch.bus.direction holds).symm.trans write
    refine ⟨?_, ack⟩
    cases state : m.ctrl.state with
    | sCtl0 => simp [state] at here; simp [← here]
    | sCtl1 => simp [state] at here; simp [← here]
    | _ => rw [state] at writes; cases writes
  · rintro ⟨state, ack⟩
    have holds := exclusive.ctrl_holds ack
    refine ⟨⟨ack, ?_⟩, ?_⟩
    · rw [dispatch.bus.direction holds, state]
      split <;> rfl
    · rw [state]
      match lane with
      | 0 => rfl
      | 1 => rfl

theorem note_quiet {m : Masters} {i : MastersIn} (exclusive : Exclusive m i) (dispatch : Dispatch m)
    (notes : Fin 2 → JobNote) (lane : Fin 2) (silent : m.ctrl.ssWe (m.ctrlIn i) lane = false)
    (notWriting : m.ctrl.stage lane ≠ .writing) : m.noteJob notes i lane = notes lane := by
  have noWrite : (m.writesStatus i && m.statusLane == lane) = false := by
    by_contra writes
    exact notWriting ((writes_status_iff exclusive dispatch lane).mp (by simpa using writes)).1
  unfold Masters.noteJob
  rw [ssWe_lane exclusive, laneOf_srcOf, silent, noWrite]
  rfl

theorem note_written {m : Masters} {i : MastersIn} (exclusive : Exclusive m i) (dispatch : Dispatch m)
    (notes : Fin 2 → JobNote) (lane : Fin 2) (stage : m.ctrl.stage lane = .writing) (acked : (m.ctrlIn i).acked = true)
    (silent : m.ctrl.ssWe (m.ctrlIn i) lane = false) :
    m.noteJob notes i lane = { notes lane with words := (notes lane).words + 1 } := by
  have ack : (i.bus 4).ack = true := exclusive.ctrl_acked.symm.trans acked
  unfold Masters.noteJob
  rw [ssWe_lane exclusive, laneOf_srcOf, silent, (writes_status_iff exclusive dispatch lane).mpr ⟨stage, ack⟩]
  rfl

theorem same_step {note : JobNote} {c after : Ctrl} {lane : Fin 2} (same : note.Same c lane) (kept : c.SameJob lane after) :
    note.Same after lane := ⟨kept.1.trans same.1, kept.2.trans same.2⟩

theorem word_toNat_succ : ∀ word : BitVec 2, word ≠ 3#2 → (word + 1#2).toNat = word.toNat + 1 := by
  decide

theorem engine_done_step (rw : Bool) (r : SsSg) (e : SsSgIn) (running : e.wbRst = false) (notDone : e.ssDone = false)
    (done : (r.step rw e).cDone = true) : r.state = .sEnd ∧ (r.step rw e).state = .sEnd := by
  have ended : r.state = .sEnd := by
    rw [r.step_running rw e running] at done
    simpa [SsSg.latch] using done
  exact ⟨ended, r.step_end rw e running notDone ended⟩

section

variable {m : Masters} {i : MastersIn} (exclusive : Exclusive m i) (notes : Fin 2 → JobNote) (lane : Fin 2)

include exclusive

theorem dst_running (open_ : m.ctrl.ssDone lane = false) :
    (m.sgIn i (dstOf lane)).wbRst = false ∧ (m.sgIn i (dstOf lane)).ssDone = false := by
  refine ⟨exclusive.running, ?_⟩
  change m.ssDone i (dstOf lane) = false
  rw [ssDone_lane exclusive, laneOf_dstOf]
  exact open_

theorem tracks_opened (writes : m.ctrl.ssWe (m.ctrlIn i) lane = true) (first : m.ctrl.inc = 0#2) (firstN : (m.step i).ctrl.inc = 1#2)
    (adrN : (m.step i).ctrl.ctlAdr lane = (i.bus 4).dat64.extractLsb' 3 29) :
    (m.noteJob notes i lane).Tracks (m.step i) lane .loading := by
  have noted : m.noteJob notes i lane = { ctlAdr := (i.bus 4).dat64.extractLsb' 3 29, dc := 0, words := 0 } := by
    simp [Masters.noteJob, ssWe_lane exclusive, laneOf_srcOf, writes, first]
  rw [noted]
  exact ⟨rfl, adrN, fun _ => rfl, fun other => absurd firstN other⟩

theorem tracks_loaded (tracks : (notes lane).Tracks m lane .loading) (writes : m.ctrl.ssWe (m.ctrlIn i) lane = true)
    (notFirst : m.ctrl.inc ≠ 0#2) (incN : (m.step i).ctrl.inc = m.ctrl.inc + 1#2)
    (adrN : (m.step i).ctrl.ctlAdr lane = m.ctrl.ctlAdr lane)
    (dcN : (m.step i).ctrl.dcR lane = if m.ctrl.inc = 1#2 then (i.bus 4).dat.extractLsb' 0 16 else m.ctrl.dcR lane) :
    (m.noteJob notes i lane).Tracks (m.step i) lane .loading := by
  obtain ⟨words, adr, early, late⟩ := tracks
  have past : m.ctrl.inc + 1#2 ≠ 1#2 := fun wrapped => notFirst (by simpa using wrapped)
  by_cases second : m.ctrl.inc = 1#2
  · have noted : m.noteJob notes i lane = { notes lane with dc := (i.bus 4).dat.extractLsb' 0 16 } := by
      simp [Masters.noteJob, ssWe_lane exclusive, laneOf_srcOf, writes, second]
    rw [noted]
    refine ⟨words, adrN.trans adr, fun first => absurd (incN.symm.trans first) past, fun _ => dcN.trans ?_⟩
    exact if_pos second
  · have noted : m.noteJob notes i lane = notes lane := by
      simp [Masters.noteJob, ssWe_lane exclusive, laneOf_srcOf, writes, notFirst, second]
    rw [noted]
    refine ⟨words, adrN.trans adr, fun first => absurd (incN.symm.trans first) past, fun _ => ?_⟩
    exact (dcN.trans (if_neg second)).trans (late second)

theorem tracks_dispatched (tracks : (notes lane).Tracks m lane .loading) (writes : m.ctrl.ssWe (m.ctrlIn i) lane = true)
    (open_ : m.ctrl.ssDone lane = false) (last : m.ctrl.inc = 3#2) (same : m.ctrl.SameJob lane (m.step i).ctrl) :
    (m.noteJob notes i lane).Tracks (m.step i) lane .running := by
  have noted : m.noteJob notes i lane = notes lane := by
    simp [Masters.noteJob, ssWe_lane exclusive, laneOf_srcOf, writes, last]
  obtain ⟨running, notDone⟩ := dst_running exclusive lane open_
  obtain ⟨words, adr, _, late⟩ := tracks
  rw [noted]
  refine ⟨words, ⟨same.1.trans adr, same.2.trans (late (by simp [last]))⟩, fun done => ?_⟩
  exact (engine_done_step (writer (dstOf lane)) _ _ running notDone done).2

theorem tracks_reports (tracks : (notes lane).Tracks m lane .running) (open_ : m.ctrl.ssDone lane = false)
    (done : (m.ctrlIn i).cDone lane = true) (wanted : (m.ctrl.dcR lane).getLsbD 7 = true) (incN : (m.step i).ctrl.inc = 0#2)
    (adrN : (m.step i).ctrl.wbsAdr4R = m.ctrl.ctlAdr lane) (same : m.ctrl.SameJob lane (m.step i).ctrl) :
    (notes lane).Tracks (m.step i) lane .writing := by
  obtain ⟨words, kept, ended⟩ := tracks
  obtain ⟨running, notDone⟩ := dst_running exclusive lane open_
  have cDone : (m.sg (dstOf lane)).cDone = true := by
    match lane with
    | 0 => exact done
    | 1 => exact done
  refine ⟨words.trans (by rw [incN]; rfl), same_step kept same, by rw [← kept.2]; exact wanted, ?_, ?_⟩
  · rw [words]
    exact (adrN.trans kept.1).trans (BitVec.add_zero _).symm
  · exact (m.sg (dstOf lane)).step_end _ _ running notDone (ended cDone)

theorem tracks_writes (dispatch : Dispatch m) (stage : m.ctrl.stage lane = .writing) (tracks : (notes lane).Tracks m lane .writing)
    (silent : m.ctrl.ssWe (m.ctrlIn i) lane = false) (open_ : m.ctrl.ssDone lane = false)
    (more : (m.ctrlIn i).acked = true → m.ctrl.inc ≠ 3#2)
    (incN : (m.step i).ctrl.inc = if (m.ctrlIn i).acked then m.ctrl.inc + 1#2 else m.ctrl.inc)
    (adrN : (m.step i).ctrl.wbsAdr4R = if (m.ctrlIn i).acked then m.ctrl.wbsAdr4R + 1 else m.ctrl.wbsAdr4R)
    (same : m.ctrl.SameJob lane (m.step i).ctrl) : (m.noteJob notes i lane).Tracks (m.step i) lane .writing := by
  obtain ⟨words, kept, wanted, adr, ended⟩ := tracks
  obtain ⟨running, notDone⟩ := dst_running exclusive lane open_
  have stillEnded := (m.sg (dstOf lane)).step_end (writer (dstOf lane)) _ running notDone ended
  cases acked : (m.ctrlIn i).acked with
  | true =>
      rw [acked, if_pos rfl] at incN adrN
      rw [note_written exclusive dispatch notes lane stage acked silent]
      refine ⟨?_, same_step kept same, wanted, ?_, stillEnded⟩
      · change (notes lane).words + 1 = (m.step i).ctrl.inc.toNat
        rw [incN, word_toNat_succ m.ctrl.inc (more acked), words]
      · change (m.step i).ctrl.wbsAdr4R = (notes lane).ctlAdr + BitVec.ofNat 29 ((notes lane).words + 1)
        rw [adrN, adr, BitVec.ofNat_add, BitVec.add_assoc]
        rfl
  | false =>
      rw [acked, if_neg Bool.false_ne_true] at incN adrN
      have noted : m.noteJob notes i lane = notes lane := by
        have noAck : (i.bus 4).ack = false := exclusive.ctrl_acked.symm.trans acked
        simp [Masters.noteJob, ssWe_lane exclusive, laneOf_srcOf, silent, Masters.writesStatus, noAck]
      rw [noted]
      exact ⟨words.trans (congrArg BitVec.toNat incN.symm), same_step kept same, wanted, adrN.trans adr, stillEnded⟩

end

theorem tracks_step {m : Masters} {i : MastersIn} (exclusive : Exclusive m i) (dispatch : Dispatch m)
    (notes : Fin 2 → JobNote) (lane : Fin 2) (tracks : (notes lane).Tracks m lane (m.ctrl.stage lane)) :
    (m.noteJob notes i lane).Tracks (m.step i) lane ((m.step i).ctrl.stage lane) := by
  have moved := dispatch_lane exclusive dispatch lane
  have quiet := note_quiet exclusive dispatch notes lane
  have reported := note_written exclusive dispatch notes lane
  have going := tracks_writes exclusive notes lane dispatch
  generalize stageAt : m.ctrl.stage lane = before at moved tracks quiet reported going
  generalize (m.step i).ctrl.stage lane = after at moved
  cases moved with
  | rest silent _ =>
      rw [quiet silent (by decide)]
      exact tracks
  | opened writes _ first firstN adrN => exact tracks_opened exclusive notes lane writes first firstN adrN
  | stalled silent _ _ incN same =>
      rw [quiet silent (by decide)]
      obtain ⟨words, adr, early, late⟩ := tracks
      refine ⟨words, same.1.trans adr, fun first => early (incN.symm.trans first), fun other => same.2.trans (late ?_)⟩
      exact fun first => other (incN.trans first)
  | loaded writes _ notFirst _ incN adrN dcN => exact tracks_loaded exclusive notes lane tracks writes notFirst incN adrN dcN
  | dispatched writes open_ last same => exact tracks_dispatched exclusive notes lane tracks writes open_ last same
  | runs silent open_ same =>
      rw [quiet silent (by decide)]
      obtain ⟨words, kept, _⟩ := tracks
      obtain ⟨running, notDone⟩ := dst_running exclusive lane open_
      exact ⟨words, same_step kept same, fun done => (engine_done_step (writer (dstOf lane)) _ _ running notDone done).2⟩
  | reports silent open_ done wanted incN adrN same =>
      rw [quiet silent (by decide)]
      exact tracks_reports exclusive notes lane tracks open_ done wanted incN adrN same
  | skips silent _ unwanted same =>
      rw [quiet silent (by decide)]
      obtain ⟨words, kept, _⟩ := tracks
      have plain : (notes lane).dc.getLsbD 7 = false := by rw [← kept.2]; simpa using unwanted
      exact ⟨by simp [JobNote.Settled, words, plain], same_step kept same⟩
  | writes silent open_ more incN adrN same => exact going rfl tracks silent open_ more incN adrN same
  | written silent _ acked last same =>
      obtain ⟨words, kept, wanted, _, _⟩ := tracks
      rw [reported rfl acked silent]
      refine ⟨?_, same_step kept same⟩
      simp [JobNote.Settled, wanted, words, last]
  | waits silent _ same | closed silent _ same =>
      rw [quiet silent (by decide)]
      exact ⟨tracks.1, same_step tracks.2 same⟩
  | retired silent _ =>
      rw [quiet silent (by decide)]
      exact tracks.1

theorem status_inv_step (s : Masters × (Fin 2 → JobNote)) (i : MastersIn) (inv : StatusInv s) (exclusive : Exclusive s.1 i) :
    StatusInv (Masters.stepNoted s i) where
  toDispatch := dispatch_step s.1 i inv.toDispatch exclusive
  tracks lane := tracks_step exclusive inv.toDispatch s.2 lane (inv.tracks lane)

theorem settled_at_rest {s : Masters × (Fin 2 → JobNote)} (inv : StatusInv s) (lane : Fin 2)
    (rest : s.1.ctrl.stage lane = .free ∨ s.1.ctrl.stage lane = .retiring) : (s.2 lane).Settled := by
  have tracks := inv.tracks lane
  rcases rest with free | retiring
  · rw [free] at tracks
    exact tracks
  · rw [retiring] at tracks
    exact tracks.1

theorem stage_rest_cyc0 (c : Ctrl) (state : c.state = .sCyc0) (unlinked : ¬c.dc0R.getLsbD 10 = true) (lane : Fin 2) :
    c.stage lane = .free ∨ c.stage lane = .retiring := by
  match lane with
  | 0 => exact Or.inr (by simp [Ctrl.stage, Ctrl.stage0, state])
  | 1 => exact Or.inl (by simp [Ctrl.stage, Ctrl.stage1, state, unlinked])

theorem stage_rest_cyc1 (c : Ctrl) (state : c.state = .sCyc1) (lane : Fin 2) :
    c.stage lane = .free ∨ c.stage lane = .retiring := by
  match lane with
  | 0 => exact Or.inl (by simp [Ctrl.stage, Ctrl.stage0, state])
  | 1 => exact Or.inr (by simp [Ctrl.stage, Ctrl.stage1, state])

theorem stage_rest_reread (c : Ctrl) (state : c.state = .sNext0) (mode : c.appendMode = true) (lane : Fin 2) :
    c.stage lane = .free ∨ c.stage lane = .retiring := by
  match lane with
  | 0 => exact Or.inl (by simp [Ctrl.stage, Ctrl.stage0, state, mode])
  | 1 => exact Or.inl (by simp [Ctrl.stage, Ctrl.stage1, state])

theorem append_toNat {a b : Nat} (x : BitVec a) (y : BitVec b) : (x ++ y).toNat = x.toNat * 2 ^ b + y.toNat := by
  rw [BitVec.toNat_append, ← Nat.shiftLeft_add_eq_or_of_lt y.isLt, Nat.shiftLeft_eq]

theorem bytes_of_words (n : BitVec 16) : (n ++ 0#3).setWidth 64 = n.setWidth 64 * 8#64 := by
  apply BitVec.eq_of_toNat_eq
  simp only [BitVec.toNat_setWidth, append_toNat, BitVec.toNat_mul, BitVec.toNat_ofNat]
  omega

theorem tagged_dc (tag n : BitVec 16) : (tag ++ n).setWidth 64 = tag.setWidth 64 * 65536#64 + n.setWidth 64 := by
  apply BitVec.eq_of_toNat_eq
  simp only [BitVec.toNat_setWidth, append_toNat, BitVec.toNat_mul, BitVec.toNat_add, BitVec.toNat_ofNat]
  omega

theorem status_data (m : Masters) (i : MastersIn) (lane : Fin 2) (state : m.ctrl.state = if lane = 0 then .sCtl0 else .sCtl1) :
    m.ctrl.wbsDatI4 (m.ctrlIn i) = m.statusWord i lane (m.ctrl.dcR lane) m.ctrl.inc.toNat := by
  match lane with
  | 0 =>
      have block : m.ctrl.wbsDatI4 (m.ctrlIn i) = m.ctrl.ctl0 (m.ctrlIn i) := if_pos state
      rw [block]
      rcases word_cases m.ctrl.inc with word | word | word | word <;>
        simp [Ctrl.ctl0, word, Masters.statusWord, MastersIn.ocnt, Masters.ctrlIn, Ctrl.mCyc, Ctrl.dcR, dstOf,
          bytes_of_words, tagged_dc]
  | 1 =>
      have block : m.ctrl.wbsDatI4 (m.ctrlIn i) = m.ctrl.ctl1 (m.ctrlIn i) := by simp [Ctrl.wbsDatI4, state]
      rw [block]
      rcases word_cases m.ctrl.inc with word | word | word | word <;>
        simp [Ctrl.ctl1, word, Masters.statusWord, MastersIn.ocnt, Masters.ctrlIn, Ctrl.mCyc, Ctrl.dcR, dstOf,
          bytes_of_words, tagged_dc]

theorem completion_ordered_here (s : Masters × (Fin 2 → JobNote)) (i : MastersIn) (inv : StatusInv s)
    (exclusive : Exclusive s.1 i) : CompletionOrdered s i where
  status := by
    intro writes
    obtain ⟨writing, _⟩ := (writes_status_iff exclusive inv.toDispatch s.1.statusLane).mp (by simp [writes])
    have tracks := inv.tracks s.1.statusLane
    rw [writing] at tracks
    obtain ⟨words, same, wanted, address, ended⟩ := tracks
    have data := status_data s.1 i s.1.statusLane ((Ctrl.stage_writing_iff _ _).mp writing)
    rw [same.2, ← words] at data
    refine ⟨ended, ?_, wanted, ?_, address, data⟩
    · rw [inv.engines (dstOf s.1.statusLane), ended]
      rfl
    · rw [words]
      exact s.1.ctrl.inc.isLt
  interrupt := by
    intro set
    rw [Ctrl.comb_wbIntSet] at set
    have job (lane : Fin 2) (retiring : s.1.ctrl.stage lane = .retiring) (bit : (s.1.ctrl.dcR lane).getLsbD 11 = true) :
        ∃ lane, s.1.ctrl.stage lane = .retiring ∧ (s.2 lane).dc.getLsbD 11 = true ∧ (s.2 lane).Settled := by
      have tracks := inv.tracks lane
      rw [retiring] at tracks
      exact ⟨lane, retiring, by rw [← tracks.2.2]; exact bit, tracks.1⟩
    simp only [Bool.or_eq_true, Bool.and_eq_true, beq_iff_eq] at set
    rcases set with ⟨state, bit⟩ | ⟨state, bit⟩
    · exact job 0 (by simp [Ctrl.stage, Ctrl.stage0, state]) bit
    · exact job 1 (by simp [Ctrl.stage, Ctrl.stage1, state]) bit
  retired lane retiring := settled_at_rest inv lane (Or.inr retiring)
  update := by
    intro changes lane
    apply settled_at_rest inv lane
    rw [Ctrl.comb_darN] at changes
    cases state : s.1.ctrl.state with
    | sCyc0 =>
        have unlinked : ¬s.1.ctrl.dc0R.getLsbD 10 = true := fun linked => by simp [state, linked] at changes
        exact stage_rest_cyc0 s.1.ctrl state unlinked lane
    | sCyc1 => exact stage_rest_cyc1 s.1.ctrl state lane
    | _ => simp [state] at changes
  notBusy := by
    intro busy idle lane
    apply settled_at_rest inv lane
    rw [Ctrl.comb_stateN] at idle
    cases state : s.1.ctrl.state with
    | sIdle => simp [Ctrl.busy, state] at busy
    | sNext0 =>
        have mode : s.1.ctrl.appendMode = true := by
          by_contra dispatching
          by_cases cont : s.1.ctrl.dc0R.getLsbD 10 = true <;> simp [state, dispatching, cont] at idle
        exact stage_rest_reread s.1.ctrl state mode lane
    | sCyc0 =>
        have unlinked : ¬s.1.ctrl.dc0R.getLsbD 10 = true := fun linked => by simp [state, linked] at idle
        exact stage_rest_cyc0 s.1.ctrl state unlinked lane
    | sCyc1 => exact stage_rest_cyc1 s.1.ctrl state lane
    | sCmd0 | sCmd1 | sCtl0 | sCtl1 | sTr0 | sTr1 =>
        simp only [state] at idle
        split_ifs at idle
    | sWait0 | sWait1 =>
        simp only [state] at idle
        split_ifs at idle
    | sNext1 => simp [state] at idle

theorem completion_ordered (m : Masters) (inputs : List MastersIn)
    (exclusive : Clocked.Admits Masters.stepNoted (fun s i => Exclusive s.1 i) (m.reset, fun _ => ⟨0, 0, 0⟩) inputs) :
    Clocked.Admits Masters.stepNoted CompletionOrdered (m.reset, fun _ => ⟨0, 0, 0⟩) inputs := by
  apply Clocked.admits_of_invariant Masters.stepNoted (fun s i => Exclusive s.1 i) CompletionOrdered StatusInv
    status_inv_step completion_ordered_here _ inputs _ exclusive
  refine ⟨dispatch_reset m, fun lane => ?_⟩
  have free : m.reset.ctrl.stage lane = .free := by
    unfold Ctrl.stage
    split <;> rfl
  change JobNote.Tracks ⟨0, 0, 0⟩ m.reset lane (m.reset.ctrl.stage lane)
  rw [free]
  rfl

theorem null_job_completes_in_order :
    Clocked.Admits Masters.stepNoted CompletionOrdered (Masters.reset ⟨fun _ => default, default⟩, fun _ => ⟨0, 0, 0⟩)
      [ .start 0x20, .quiet, .ack 0x180, .ack 0x880, .ack 0, .ack 0, .quiet, .quiet, .ack 0, .ack 0, .quiet, .ack 0, .ack 0,
        .host, .quiet, .quiet ] :=
  completion_ordered ⟨fun _ => default, default⟩ _ (by decide +kernel)

end SsAdma
