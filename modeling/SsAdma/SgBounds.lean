import SsAdma.JobLoad
import SsAdma.Clocked

set_option autoImplicit false

namespace SsAdma

theorem SsSg.comb_sgAddrStart (rw : Bool) (r : SsSg) (i : SsSgIn) :
    (r.comb rw i).sgAddrStart = (decide (r.state = .sDReq) && i.acks && !r.cnt) := by
  cases state : r.state with
  | sDReq =>
      simp only [comb, state, hold, SsSgIn.acks]
      cases i.wbsAck <;> cases i.wbsRty <;> cases i.wbsErr <;> cases r.cnt <;> rfl
  | sBReq =>
      simp only [comb, state, hold]
      split <;> simp only [apply_ite SsSgOut.sgAddrStart, ite_self] <;> rfl
  | sIdle | sCmd | sBWait | sNext | sEnd | sPanic =>
      simp only [comb, state, hold, apply_ite SsSgOut.sgAddrStart, ite_self]
      rfl

theorem SsSg.comb_sgAddrInc (rw : Bool) (r : SsSg) (i : SsSgIn) :
    (r.comb rw i).sgAddrInc = (decide (r.state = .sBReq) && i.acks) := by
  cases state : r.state with
  | sDReq =>
      simp only [comb, state, hold]
      split <;> simp only [apply_ite SsSgOut.sgAddrInc, ite_self] <;> rfl
  | sBReq =>
      simp only [comb, state, hold, SsSgIn.acks]
      cases i.wbsAck <;> cases i.wbsRty <;> cases i.wbsErr <;> simp only [apply_ite SsSgOut.sgAddrInc, ite_self] <;> rfl
  | sIdle | sCmd | sBWait | sNext | sEnd | sPanic =>
      simp only [comb, state, hold, apply_ite SsSgOut.sgAddrInc, ite_self]
      rfl

def SsSg.InSegment (r : SsSg) : Prop := r.state = .sDReq ∧ r.cnt = true ∨ r.state = .sBWait ∨ r.state = .sBReq

theorem SsSg.latch_open (r : SsSg) (i : SsSgIn) (n : SsSgOut) (notIdle : (r.latch i n).state ≠ .sIdle) :
    (r.latch i n).state = n.stateN := by
  cases closed : i.wbRst || i.ssDone with
  | false => simp [latch, closed]
  | true => simp [latch, closed] at notIdle

theorem SsSg.enters_segment (rw : Bool) (r : SsSg) (i : SsSgIn) (inside : (r.latch i (r.comb rw i)).InSegment) :
    r.state = .sDReq ∧ i.acks = true ∧ r.cnt = false ∨
      r.InSegment ∧ (r.state = .sBReq → i.acks = true → r.sgLen ≠ 1#16) := by
  have running := r.latch_open i (r.comb rw i) (by rcases inside with ⟨state, _⟩ | state | state <;> simp [state])
  have next : (r.comb rw i).stateN = .sDReq ∧ (r.comb rw i).cntN = true ∨ (r.comb rw i).stateN = .sBWait ∨
      (r.comb rw i).stateN = .sBReq := by
    rw [← running]
    exact inside
  unfold InSegment
  cases state : r.state with
  | sDReq =>
      rw [r.stateN_sDReq rw i state, r.cntN_sDReq rw i state] at next
      cases acks : i.acks <;> cases cnt : r.cnt <;> cases failed : i.fails <;> simp_all
  | sBReq =>
      refine .inr ⟨.inr (.inr rfl), fun _ acks final => ?_⟩
      rw [r.stateN_sBReq rw i state, if_pos acks, if_pos final] at next
      simp at next
  | sBWait => simp
  | sNext =>
      rw [r.stateN_sNext rw i state, r.cntN_sNext rw i state] at next
      cases last : r.sgLast <;> simp [last] at next
  | sIdle | sCmd | sEnd | sPanic =>
      have others := r.stateN_others rw i (by simp [state]) (by simp [state]) (by simp [state]) (by simp [state])
      rcases others with other | other | other | other | other <;> simp [other] at next

theorem SsSg.enters_burst (rw : Bool) (r : SsSg) (i : SsSgIn) (burst : (r.latch i (r.comb rw i)).state = .sBReq) :
    r.state = .sBReq ∧ (r.latch i (r.comb rw i)).wbsAdrR = (if i.acks then r.wbsAdrR + 1 else r.wbsAdrR) ∨
      r.state = .sBWait ∧ (r.latch i (r.comb rw i)).wbsAdrR = r.sgAddr := by
  have running := r.latch_open i (r.comb rw i) (by simp [burst])
  rw [burst] at running
  cases state : r.state with
  | sBReq =>
      refine .inl ⟨rfl, ?_⟩
      unfold latch comb hold SsSgIn.acks
      rw [state]
      cases i.wbsAck <;> cases i.wbsRty <;> cases i.wbsErr <;>
        simp only [apply_ite SsSgOut.wbsAdrStart, apply_ite SsSgOut.wbsAdrInc, ite_self] <;> rfl
  | sBWait =>
      refine .inr ⟨rfl, ?_⟩
      rw [r.stateN_sBWait rw i state] at running
      cases finish : i.ssEnd && r.io <;> cases start : i.ssStart <;> simp [finish, start] at running
      simp [latch, comb, state, finish, start]
  | sDReq =>
      rw [r.stateN_sDReq rw i state] at running
      split_ifs at running
  | sNext =>
      rw [r.stateN_sNext rw i state] at running
      split_ifs at running
  | sIdle | sCmd | sEnd | sPanic =>
      have others := r.stateN_others rw i (by simp [state]) (by simp [state]) (by simp [state]) (by simp [state])
      rcases others with other | other | other | other | other <;> simp [other] at running

structure SegNote where
  desc : BitVec 64
  moved : Nat

def SsSg.noteSegment (r : SsSg) (n : SegNote) (i : SsSgIn) : SegNote :=
  if r.state = .sDReq ∧ i.acks = true ∧ r.cnt = false then ⟨i.wbsDat64O ++ i.wbsDatO, 0⟩
  else if r.state = .sBReq ∧ i.acks = true then { n with moved := n.moved + 1 }
  else n

def SsSg.watchSegment (r : SsSg) (n : SegNote) (i : SsSgIn) : SegNote := (r.live i.wbRst).noteSegment n i

-- Software puts a byte length into bits 18:0.
def descBytes (word : BitVec 64) : Nat := (word.extractLsb' 0 19).toNat

def descWords (word : BitVec 64) : Nat := (descBytes word + 7) / 8

theorem descLen_bytes (word : BitVec 64) : (descLen word).toNat = descBytes word / 8 := by
  simp only [descLen, descBytes, BitVec.extractLsb'_toNat]
  omega

theorem desc_joined (high low : BitVec 32) :
    descLen (high ++ low) = low.extractLsb' 3 16 ∧ descAddr (high ++ low) = wordAddr high := by
  constructor
  · exact BitVec.extractLsb'_append_eq_ite.trans ((dif_pos (by decide)).trans (dif_pos (by decide)))
  · rw [descAddr, BitVec.extractLsb'_append_eq_left]

structure SsSg.Tracks (r : SsSg) (n : SegNote) : Prop where
  counts : r.InSegment → r.sgLen = descLen n.desc - BitVec.ofNat 16 n.moved
  address : r.InSegment → r.sgAddr = descAddr n.desc + BitVec.ofNat 29 n.moved
  inside : r.InSegment → descLen n.desc ≠ 0 → n.moved < (descLen n.desc).toNat
  aimed : r.state = .sBReq → r.wbsAdrR = r.sgAddr

theorem SsSg.Tracks.moved_inside (r : SsSg) (n : SegNote) (tracks : r.Tracks n) (inside : r.InSegment)
    (more : r.sgLen ≠ 1#16) (nonzero : descLen n.desc ≠ 0) : n.moved + 1 < (descLen n.desc).toNat := by
  have below := tracks.inside inside nonzero
  rw [tracks.counts inside] at more
  have size := (descLen n.desc).isLt
  have apart : (descLen n.desc - BitVec.ofNat 16 n.moved).toNat ≠ 1 := fun one => more (BitVec.eq_of_toNat_eq one)
  rw [BitVec.toNat_sub, BitVec.toNat_ofNat] at apart
  omega

theorem SsSg.Tracks.stays (rw : Bool) (r : SsSg) (n : SegNote) (tracks : r.Tracks n) (i : SsSgIn)
    (inside : (r.latch i (r.comb rw i)).InSegment) :
    (r.latch i (r.comb rw i)).sgLen = descLen (r.noteSegment n i).desc - BitVec.ofNat 16 (r.noteSegment n i).moved ∧
      (r.latch i (r.comb rw i)).sgAddr = descAddr (r.noteSegment n i).desc + BitVec.ofNat 29 (r.noteSegment n i).moved ∧
      (descLen (r.noteSegment n i).desc ≠ 0 → (r.noteSegment n i).moved < (descLen (r.noteSegment n i).desc).toNat) := by
  have len : (r.latch i (r.comb rw i)).sgLen =
      if (r.comb rw i).sgAddrStart then i.wbsDatO.extractLsb' 3 16
      else if (r.comb rw i).sgAddrInc then r.sgLen - 1 else r.sgLen := rfl
  have addr : (r.latch i (r.comb rw i)).sgAddr =
      if (r.comb rw i).sgAddrStart then wordAddr i.wbsDat64O
      else if (r.comb rw i).sgAddrInc then r.sgAddr + 1 else r.sgAddr := rfl
  rw [len, addr, r.comb_sgAddrStart rw i, r.comb_sgAddrInc rw i]
  unfold noteSegment
  obtain ⟨joinedLen, joinedAddr⟩ := desc_joined i.wbsDat64O i.wbsDatO
  rcases r.enters_segment rw i inside with ⟨state, acks, first⟩ | ⟨before, more⟩
  · simp only [state, acks, first]
    refine ⟨by simp [joinedLen], by simp [joinedAddr], fun nonzero => ?_⟩
    have size : (descLen (i.wbsDat64O ++ i.wbsDatO)).toNat ≠ 0 := fun zero => nonzero (BitVec.eq_of_toNat_eq zero)
    exact Nat.pos_of_ne_zero size
  · have old : ¬ (r.state = .sDReq ∧ i.acks = true ∧ r.cnt = false) := by
      rintro ⟨state, _, first⟩
      rcases before with ⟨_, second⟩ | other | other
      · exact absurd (first.symm.trans second) (by decide)
      · exact absurd (state.symm.trans other) (by decide)
      · exact absurd (state.symm.trans other) (by decide)
    have noLoad : (decide (r.state = .sDReq) && i.acks && !r.cnt) = false := by simpa [and_assoc] using old
    rw [if_neg old, noLoad]
    by_cases moves : r.state = .sBReq ∧ i.acks = true
    · have counted := tracks.moved_inside r n before (more moves.1 moves.2)
      rw [if_pos moves]
      refine ⟨?_, ?_, counted⟩
      · simp [moves, tracks.counts before, BitVec.ofNat_add, BitVec.sub_sub]
      · simp [moves, tracks.address before, BitVec.ofNat_add, BitVec.add_assoc]
    · have noMove : (decide (r.state = .sBReq) && i.acks) = false := by simpa using moves
      rw [if_neg moves, noMove]
      exact ⟨tracks.counts before, tracks.address before, tracks.inside before⟩

theorem SsSg.Tracks.aimed_after (rw : Bool) (r : SsSg) (n : SegNote) (tracks : r.Tracks n) (i : SsSgIn)
    (burst : (r.latch i (r.comb rw i)).state = .sBReq) :
    (r.latch i (r.comb rw i)).wbsAdrR = (r.latch i (r.comb rw i)).sgAddr := by
  have addr : (r.latch i (r.comb rw i)).sgAddr =
      if (r.comb rw i).sgAddrStart then wordAddr i.wbsDat64O
      else if (r.comb rw i).sgAddrInc then r.sgAddr + 1 else r.sgAddr := rfl
  rw [r.comb_sgAddrStart rw i, r.comb_sgAddrInc rw i] at addr
  rcases r.enters_burst rw i burst with ⟨state, aims⟩ | ⟨state, aims⟩
  · rw [aims, addr, tracks.aimed state]
    simp [state]
  · rw [aims, addr]
    simp [state]

theorem SsSg.Tracks.step (rw : Bool) (r : SsSg) (n : SegNote) (tracks : r.Tracks n) (i : SsSgIn) :
    (r.step rw i).Tracks (r.watchSegment n i) := by
  have live : (r.live i.wbRst).Tracks n := by
    unfold live
    split
    · constructor <;> simp [InSegment]
    · exact tracks
  refine ⟨fun inside => ?_, fun inside => ?_, fun inside => ?_, fun burst => ?_⟩
  · exact (live.stays rw _ n i inside).1
  · exact (live.stays rw _ n i inside).2.1
  · exact (live.stays rw _ n i inside).2.2
  · exact live.aimed_after rw _ n i burst

theorem segment_contains (adr : BitVec 29) (len k : Nat) (below : k < len) : adr + BitVec.ofNat 29 k ∈ segment adr len := by
  induction len generalizing adr k with
  | zero => omega
  | succ n ih =>
      cases k with
      | zero => simp [segment]
      | succ j =>
          have shifted : adr + BitVec.ofNat 29 (j + 1) = adr + 1 + BitVec.ofNat 29 j := by
            rw [BitVec.ofNat_add, BitVec.add_comm (BitVec.ofNat 29 j), ← BitVec.add_assoc]
            rfl
          rw [shifted]
          exact List.mem_cons_of_mem _ (ih (adr + 1) j (by omega))

def InsideSegment (pair : SsSg × SegNote) (i : SsSgIn) : Prop :=
  (pair.1.live i.wbRst).state = .sBReq → i.acks = true →
    pair.1.wbsAdrR ∈ segment (descAddr pair.2.desc) (descWords pair.2.desc) ∧ pair.2.moved < descWords pair.2.desc

instance (pair : SsSg × SegNote) (i : SsSgIn) : Decidable (InsideSegment pair i) := inferInstanceAs (Decidable (_ → _))

-- sg_len == 1 ends a segment after the transfer that finds it; a count field of
-- 0 wraps instead. One transfer is right for a segment of 1 to 7 bytes.
def CountsWords (pair : SsSg × SegNote) (i : SsSgIn) : Prop :=
  (pair.1.live i.wbRst).state = .sBReq → i.acks = true →
    descLen pair.2.desc ≠ 0 ∨ pair.2.moved = 0 ∧ descBytes pair.2.desc ≠ 0

instance (pair : SsSg × SegNote) (i : SsSgIn) : Decidable (CountsWords pair i) := inferInstanceAs (Decidable (_ → _))

theorem SsSg.Tracks.inside_iff (pair : SsSg × SegNote) (tracks : pair.1.Tracks pair.2) (i : SsSgIn) :
    InsideSegment pair i ↔ CountsWords pair i := by
  refine imp_congr_right fun burst => imp_congr_right fun _ => ?_
  have state : pair.1.state = .sBReq := by
    unfold live at burst
    split at burst <;> [cases burst; exact burst]
  have counts := descLen_bytes pair.2.desc
  unfold descWords
  rw [tracks.aimed state, tracks.address (.inr (.inr state))]
  constructor
  · rintro ⟨_, below⟩
    by_cases zero : descLen pair.2.desc = 0
    · have none : (descLen pair.2.desc).toNat = 0 := by rw [zero]; rfl
      exact .inr (by omega)
    · exact .inl zero
  · intro counted
    have below : pair.2.moved < (descBytes pair.2.desc + 7) / 8 := by
      rcases counted with nonzero | ⟨first, some⟩
      · have inside := tracks.inside (.inr (.inr state)) nonzero
        omega
      · omega
    exact ⟨segment_contains _ _ _ below, below⟩

theorem moves_inside_segments_iff (rw : Bool) (engine : SsSg) (inputs : List SsSgIn) :
    Clocked.Admits (Clocked.watch (SsSg.step rw) SsSg.watchSegment) InsideSegment (engine.live true, ⟨0, 0⟩) inputs ↔
      Clocked.Admits (Clocked.watch (SsSg.step rw) SsSg.watchSegment) CountsWords (engine.live true, ⟨0, 0⟩) inputs :=
  Clocked.admits_congr _ InsideSegment CountsWords (fun pair => pair.1.Tracks pair.2)
    (fun pair i tracks => tracks.step rw pair.1 pair.2 i) (fun pair tracks i => tracks.inside_iff pair i) _ inputs
    ⟨by simp [SsSg.live, SsSg.InSegment], by simp [SsSg.live, SsSg.InSegment], by simp [SsSg.live, SsSg.InSegment],
      by simp [SsSg.live]⟩

def sgPeriod (job : JobDesc) (word : Nat) (resp : Resp) (dat : BitVec 64) : SsSgIn :=
  sgIn (job.cmd word { give := true, idleDat := 0, idleAdr := 0, oldDc := 0, mEnable := true }) ⟨resp, dat⟩ true false false

def tailJob : JobDesc := { nextDesc := 0, dcFc := 0x16, srcDesc := 0, dstDesc := 0x1000 }

-- map_bufs gives the tail of a buffer that is 4 bytes over its segments a
-- descriptor of its own; the engine moves a second word for it, and goes on.
def tailPeriods : List SsSgIn :=
  (List.range 5).map (fun word => sgPeriod tailJob word .wait 0) ++
    [sgPeriod tailJob 4 .ack 0x0001000000100004, sgPeriod tailJob 4 .ack 0, sgPeriod tailJob 4 .wait 0,
      sgPeriod tailJob 4 .ack 0, sgPeriod tailJob 4 .ack 0]

theorem tail_overrun :
    ¬ Clocked.Admits (Clocked.watch (SsSg.step true) SsSg.watchSegment) InsideSegment ((default : SsSg).live true, ⟨0, 0⟩)
      tailPeriods := by
  decide +kernel

end SsAdma
