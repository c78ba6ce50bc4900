import SsAdma.SsSgStep
import SsAdma.CopyJob
import Mathlib.Tactic.SplitIfs

set_option autoImplicit false

namespace SsAdma

abbrev Mem := BitVec 29 → BitVec 64

def descLast (word : BitVec 64) : Bool := word[20]
def descLen (word : BitVec 64) : BitVec 16 := word.extractLsb' 3 16
def descAddr (word : BitVec 64) : BitVec 29 := wordAddr (word.extractLsb' 32 32)
def descNext (word : BitVec 64) : BitVec 29 := wordAddr (word.extractLsb' 0 32)

def segment : BitVec 29 → Nat → List (BitVec 29)
  | _, 0 => []
  | addr, len + 1 => addr :: segment (addr + 1) len

theorem segment_member (adr : BitVec 29) (len : Nat) (word : BitVec 29) (member : word ∈ segment adr len) :
    ∃ k, k < len ∧ word = adr + BitVec.ofNat 29 k := by
  induction len generalizing adr with
  | zero => simp [segment] at member
  | succ n ih =>
      rcases List.mem_cons.mp member with first | later
      · exact ⟨0, by omega, by simpa using first⟩
      · obtain ⟨k, below, same⟩ := ih (adr + 1) later
        refine ⟨k + 1, by omega, ?_⟩
        rw [same, BitVec.ofNat_add, BitVec.add_comm (BitVec.ofNat 29 k), ← BitVec.add_assoc]
        rfl

theorem segment_nodup (adr : BitVec 29) (len : Nat) (short : len ≤ 2 ^ 29) : (segment adr len).Nodup := by
  induction len generalizing adr with
  | zero => simp [segment]
  | succ n ih =>
      apply List.nodup_cons.mpr
      refine ⟨fun member => ?_, ih (adr + 1) (by omega)⟩
      obtain ⟨k, below, same⟩ := segment_member _ _ _ member
      have counts := congrArg BitVec.toNat same
      have one : (1 : BitVec 29).toNat = 1 := rfl
      simp only [BitVec.toNat_add, BitVec.toNat_ofNat, one] at counts
      omega

theorem segment_cons (adr : BitVec 29) (len : BitVec 16) (nonzero : len ≠ 0) :
    segment adr len.toNat = adr :: segment (adr + 1) (len - 1).toNat := by
  have shrunk : len.toNat = (len - 1).toNat + 1 := by bv_omega
  rw [shrunk]
  rfl

inductive SgList (mem : Mem) (kept : BitVec 29 → Prop) : BitVec 29 → List (BitVec 29) → Prop
  | last (adr : BitVec 29) (inside : kept adr ∧ kept (adr + 1)) (nonzero : descLen (mem adr) ≠ 0)
      (final : descLast (mem adr) = true) :
      SgList mem kept adr (segment (descAddr (mem adr)) (descLen (mem adr)).toNat)
  | link (adr : BitVec 29) (words : List (BitVec 29)) (inside : kept adr ∧ kept (adr + 1))
      (nonzero : descLen (mem adr) ≠ 0) (linked : descLast (mem adr) = false)
      (next : SgList mem kept (descNext (mem (adr + 1))) words) :
      SgList mem kept adr (segment (descAddr (mem adr)) (descLen (mem adr)).toNat ++ words)

theorem SgList.single (mem : Mem) (kept : BitVec 29 → Prop) (adr addr : BitVec 29) (len : Nat)
    (inside : kept adr ∧ kept (adr + 1)) (final : descLast (mem adr) = true) (start : descAddr (mem adr) = addr)
    (size : (descLen (mem adr)).toNat = len) (nonempty : len ≠ 0) : SgList mem kept adr (segment addr len) := by
  subst start size
  exact .last adr inside (fun zero => nonempty (by simp [zero])) final

def SgRest (mem : Mem) (kept : BitVec 29 → Prop) (last : Bool) (next : BitVec 29) (words : List (BitVec 29)) : Prop :=
  if last then words = [] else SgList mem kept next words

theorem SgList.first (mem : Mem) (kept : BitVec 29 → Prop) (adr : BitVec 29) (words : List (BitVec 29))
    (list : SgList mem kept adr words) :
    (kept adr ∧ kept (adr + 1)) ∧ descLen (mem adr) ≠ 0 ∧
      ∃ rest, words = segment (descAddr (mem adr)) (descLen (mem adr)).toNat ++ rest ∧
        SgRest mem kept (descLast (mem adr)) (descNext (mem (adr + 1))) rest := by
  cases list with
  | last _ inside nonzero final => exact ⟨inside, nonzero, [], by simp, by simp [SgRest, final]⟩
  | link _ rest inside nonzero linked next => exact ⟨inside, nonzero, rest, rfl, by simpa [SgRest, linked] using next⟩

theorem SgList.nonempty (mem : Mem) (kept : BitVec 29 → Prop) (adr : BitVec 29) (words : List (BitVec 29))
    (list : SgList mem kept adr words) : words ≠ [] := by
  obtain ⟨_, nonzero, rest, rfl, _⟩ := list.first
  rw [segment_cons _ _ nonzero]
  simp

def SsSg.Within (mem : Mem) (kept : BitVec 29 → Prop) (r : SsSg) (next : BitVec 29) (words : List (BitVec 29)) : Prop :=
  r.sgLen ≠ 0 ∧ ∃ rest, words = segment r.sgAddr r.sgLen.toNat ++ rest ∧ SgRest mem kept r.sgLast next rest

inductive SsSg.Walk (rw : Bool) (mem : Mem) (kept : BitVec 29 → Prop) (r : SsSg) (words : List (BitVec 29)) : Prop
  | next (state : r.state = .sNext) (down : r.wbsCyc = false) (rest : SgRest mem kept r.sgLast r.sgNext words)
  | first (state : r.state = .sDReq) (reading : r.wbsCyc = true ∧ r.wbsWe = false) (none : r.cnt = false)
      (list : SgList mem kept r.wbsAdrR words)
  | second (state : r.state = .sDReq) (reading : r.wbsCyc = true ∧ r.wbsWe = false) (one : r.cnt = true)
      (inside : kept r.wbsAdrR) (within : r.Within mem kept (descNext (mem r.wbsAdrR)) words)
  | waiting (state : r.state = .sBWait) (down : r.wbsCyc = false) (within : r.Within mem kept r.sgNext words)
  | moving (state : r.state = .sBReq) (request : r.wbsCyc = true ∧ r.wbsWe = rw ∧ r.wbsAdrR = r.sgAddr)
      (within : r.Within mem kept r.sgNext words)
  | ended (state : r.state = .sEnd) (down : r.wbsCyc = false)

theorem SsSg.within_head (mem : Mem) (kept : BitVec 29 → Prop) (r : SsSg) (next : BitVec 29) (words : List (BitVec 29))
    (within : r.Within mem kept next words) : words.head? = some r.sgAddr := by
  obtain ⟨nonzero, rest, split, _⟩ := within
  rw [split, segment_cons _ _ nonzero]
  rfl

theorem SsSg.within_step (mem : Mem) (kept : BitVec 29 → Prop) (r r' : SsSg) (next : BitVec 29) (words : List (BitVec 29))
    (within : r.Within mem kept next words) (len : r'.sgLen = r.sgLen - 1) (addr : r'.sgAddr = r.sgAddr + 1)
    (last : r'.sgLast = r.sgLast) :
    if r.sgLen = 1#16 then SgRest mem kept r.sgLast next words.tail else r'.Within mem kept next words.tail := by
  obtain ⟨nonzero, rest, split, tail⟩ := within
  have shrunk : words.tail = segment (r.sgAddr + 1) (r.sgLen - 1).toNat ++ rest := by
    rw [split, segment_cons _ _ nonzero]
    rfl
  by_cases final : r.sgLen = 1#16
  · rw [if_pos final, shrunk, final]
    exact tail
  · rw [if_neg final]
    have more : r'.sgLen ≠ 0 := by
      rw [len]
      bv_omega
    exact ⟨more, rest, by rw [shrunk, addr, len], by rw [last]; exact tail⟩

section

variable (rw : Bool) (r : SsSg) (cmd : ChanCmd) (bus : BusIn) (start ended stop : Bool)

theorem SsSg.step_sIdle (notDone : cmd.ssDone = false) (state : r.state = .sIdle) :
    r.step rw (sgIn cmd bus start ended stop) =
      { r with state := if cmd.ssWe then .sCmd else .sIdle, io := false, err := 0, cDone := false } := by
  rw [step_running rw r _ rfl]
  cases write : cmd.ssWe <;> simp [latch, comb, hold, sgIn, SgState.code, state, notDone, write]

theorem SsSg.step_sCmd (notDone : cmd.ssDone = false) (state : r.state = .sCmd) :
    r.step rw (sgIn cmd bus start ended stop) =
      if cmd.ssWe && cmd.ssAdr == 3 then
        { r with
          state := if (if rw then cmd.dc.getLsbD 2 else cmd.dc.getLsbD 1) then .sNext else .sEnd
          sgNext := if rw then wordAddr cmd.ssDat else r.sgNext
          sgLast := false, cDone := false }
      else
        { r with
          sgNext := if cmd.ssWe && cmd.ssAdr == 2 && !rw then wordAddr cmd.ssDat else r.sgNext
          cDone := false } := by
  rw [step_running rw r _ rfl]
  cases write : cmd.ssWe with
  | false => simp [latch, comb, hold, sgIn, state, notDone, write]
  | true =>
      by_cases two : cmd.ssAdr = 2#2
      · cases rw <;> simp [latch, comb, hold, sgIn, state, notDone, write, two]
      · by_cases three : cmd.ssAdr = 3#2
        · cases rw <;> cases src : cmd.dc.getLsbD 1 <;> cases dst : cmd.dc.getLsbD 2 <;>
            simp [-BitVec.getLsbD_eq_getElem, latch, comb, hold, sgIn, state, notDone, write, three, src, dst]
        · simp [latch, comb, hold, sgIn, state, notDone, write, two, three]

theorem SsSg.step_sEnd (notDone : cmd.ssDone = false) (state : r.state = .sEnd) :
    r.step rw (sgIn cmd bus start ended stop) =
      { r with cDone := true, err := if ended then r.err else SgState.sEnd.code } := by
  rw [step_running rw r _ rfl]
  cases ended <;> simp [latch, comb, hold, sgIn, state, notDone]

theorem SsSg.step_sNext (notDone : cmd.ssDone = false) (state : r.state = .sNext) :
    r.step rw (sgIn cmd bus start ended stop) =
      if r.sgLast then { r with state := .sEnd, cDone := false }
      else
        { r with
          state := .sDReq, wbsAdrR := r.sgNext, wbsCyc := true, wbsWe := false, wbsPref := false, cnt := false,
          cDone := false } := by
  rw [step_running rw r _ rfl]
  cases last : r.sgLast <;> simp [latch, comb, hold, sgIn, state, notDone, last]

theorem SsSg.step_sDReq (notDone : cmd.ssDone = false) (state : r.state = .sDReq) :
    r.step rw (sgIn cmd bus start ended stop) =
      if bus.resp = .ack then
        if r.cnt then
          { r with
            state := .sBWait, wbsAdrR := r.wbsAdrR + 1, wbsCyc := false, wbsWe := false, wbsPref := false,
            sgNext := descNext bus.dat, cDone := false }
        else
          { r with
            wbsAdrR := r.wbsAdrR + 1, wbsCyc := true, wbsWe := false, wbsPref := false, cnt := true,
            sgLast := descLast bus.dat, sgLen := descLen bus.dat, sgAddr := descAddr bus.dat, cDone := false }
      else { r with wbsCyc := true, wbsWe := false, wbsPref := false, cDone := false } := by
  rw [step_running rw r _ rfl]
  cases resp : bus.resp with
  | ack =>
      cases count : r.cnt with
      | true => simp [latch, comb, hold, sgIn, Resp.isAck, Resp.isRty, state, notDone, resp, count, descNext, wordAddr]
      | false =>
          simp [latch, comb, hold, sgIn, Resp.isAck, Resp.isRty, state, notDone, resp, count, descLast, descLen,
            descAddr, wordAddr]
  | wait => simp [latch, comb, hold, sgIn, Resp.isAck, Resp.isRty, state, notDone, resp]
  | rty => simp [latch, comb, hold, sgIn, Resp.isAck, Resp.isRty, state, notDone, resp]

theorem SsSg.step_sBReq_ack (notDone : cmd.ssDone = false) (state : r.state = .sBReq) (resp : bus.resp = .ack) :
    r.step rw (sgIn cmd bus start ended stop) =
      { r with
        state := if r.sgLen = 1#16 then .sNext else if stop || ended then .sBWait else .sBReq
        wbsCyc := !(decide (r.sgLen = 1#16) || (stop || ended))
        wbsWe := !(decide (r.sgLen = 1#16) || (stop || ended)) && rw
        wbsPref := true, wbsAdrR := r.wbsAdrR + 1, sgAddr := r.sgAddr + 1, sgLen := r.sgLen - 1, io := true,
        cDone := false } := by
  rw [step_running rw r _ rfl]
  by_cases final : r.sgLen = 1#16
  · simp [latch, comb, hold, sgIn, Resp.isAck, Resp.isRty, state, notDone, resp, final]
  · cases leave : stop || ended <;>
      simp [latch, comb, hold, sgIn, Resp.isAck, Resp.isRty, state, notDone, resp, final, leave]

theorem SsSg.step_sBReq_hold (notDone : cmd.ssDone = false) (state : r.state = .sBReq) (resp : bus.resp ≠ .ack) :
    r.step rw (sgIn cmd bus start ended stop) =
      { r with
        state := if r.io then .sBWait else .sBReq
        wbsCyc := !r.io, wbsWe := !r.io && rw, wbsPref := true, cDone := false } := by
  rw [step_running rw r _ rfl]
  cases answer : bus.resp with
  | ack => exact absurd answer resp
  | wait => cases io : r.io <;> simp [latch, comb, hold, sgIn, Resp.isAck, Resp.isRty, state, notDone, answer, io]
  | rty => cases io : r.io <;> simp [latch, comb, hold, sgIn, Resp.isAck, Resp.isRty, state, notDone, answer, io]

theorem SsSg.step_sBWait (notDone : cmd.ssDone = false) (state : r.state = .sBWait) :
    r.step rw (sgIn cmd bus start ended stop) =
      if ended && r.io then { r with state := .sEnd, cDone := false }
      else if start then
        { r with
          state := .sBReq, wbsAdrR := r.sgAddr, wbsCyc := true, wbsWe := rw, wbsPref := true, io := false,
          cDone := false }
      else { r with cDone := false } := by
  rw [step_running rw r _ rfl]
  cases finish : ended && r.io <;> cases start <;> simp [latch, comb, hold, sgIn, state, notDone, finish]

theorem Resp.isAck_decide (resp : Resp) : resp.isAck = decide (resp = .ack) := by cases resp <;> rfl

theorem SsSg.comb_xfer :
    (r.comb rw (sgIn cmd bus start ended stop)).ssXfer =
        (decide (r.state = .sBReq) && bus.resp.isAck || decide (r.state = .sNext) && r.sgLast) ∧
      (r.comb rw (sgIn cmd bus start ended stop)).ssLast = (decide (r.state = .sNext) && r.sgLast) := by
  cases state : r.state with
  | sBReq =>
      simp only [comb, state, hold, sgIn]
      cases bus.resp <;> cases r.io <;> by_cases final : r.sgLen = 1#16 <;> cases stop <;> cases ended <;>
        simp [Resp.isAck, Resp.isRty, final]
  | sDReq =>
      simp only [comb, state, hold, sgIn]
      cases bus.resp <;> cases r.cnt <;> simp [Resp.isAck, Resp.isRty]
  | sNext =>
      simp only [comb, state, hold]
      cases r.sgLast <;> simp
  | sIdle => simp [comb, state, hold]
  | sCmd =>
      simp only [comb, state, hold]
      split_ifs <;> exact ⟨rfl, rfl⟩
  | sBWait =>
      simp only [comb, state, hold]
      split_ifs <;> exact ⟨rfl, rfl⟩
  | sEnd =>
      simp only [comb, state, hold]
      split_ifs <;> exact ⟨rfl, rfl⟩
  | sPanic => simp [comb, state, hold]

theorem SsSg.step_err (notDone : cmd.ssDone = false) (notIdle : r.state ≠ .sIdle) (notEnd : r.state ≠ .sEnd) :
    (r.step rw (sgIn cmd bus start ended stop)).err = r.err := by
  cases state : r.state with
  | sIdle => exact absurd state notIdle
  | sEnd => exact absurd state notEnd
  | sCmd =>
      rw [step_sCmd rw r cmd bus start ended stop notDone state]
      split_ifs <;> rfl
  | sDReq =>
      rw [step_sDReq rw r cmd bus start ended stop notDone state]
      split_ifs <;> rfl
  | sBReq =>
      by_cases resp : bus.resp = .ack
      · rw [step_sBReq_ack rw r cmd bus start ended stop notDone state resp]
      · rw [step_sBReq_hold rw r cmd bus start ended stop notDone state resp]
  | sBWait =>
      rw [step_sBWait rw r cmd bus start ended stop notDone state]
      split_ifs <;> rfl
  | sNext =>
      rw [step_sNext rw r cmd bus start ended stop notDone state]
      split_ifs <;> rfl
  | sPanic =>
      rw [step_running rw r _ rfl]
      simp [latch, comb, hold, state]

theorem SsSg.step_io (notDone : cmd.ssDone = false) (io : (r.step rw (sgIn cmd bus start ended stop)).io = true) :
    r.state ≠ .sIdle ∧ r.io = true ∨ r.state = .sBReq ∧ bus.resp = .ack := by
  cases state : r.state with
  | sIdle =>
      rw [step_sIdle rw r cmd bus start ended stop notDone state] at io
      simp at io
  | sCmd =>
      rw [step_sCmd rw r cmd bus start ended stop notDone state] at io
      refine .inl ⟨by decide, ?_⟩
      split_ifs at io <;> exact io
  | sDReq =>
      rw [step_sDReq rw r cmd bus start ended stop notDone state] at io
      refine .inl ⟨by decide, ?_⟩
      split_ifs at io <;> exact io
  | sBReq =>
      by_cases resp : bus.resp = .ack
      · exact .inr ⟨rfl, resp⟩
      · rw [step_sBReq_hold rw r cmd bus start ended stop notDone state resp] at io
        exact .inl ⟨by decide, io⟩
  | sBWait =>
      rw [step_sBWait rw r cmd bus start ended stop notDone state] at io
      refine .inl ⟨by decide, ?_⟩
      split_ifs at io <;> exact io
  | sNext =>
      rw [step_sNext rw r cmd bus start ended stop notDone state] at io
      refine .inl ⟨by decide, ?_⟩
      split_ifs at io <;> exact io
  | sEnd =>
      rw [step_sEnd rw r cmd bus start ended stop notDone state] at io
      exact .inl ⟨by decide, io⟩
  | sPanic =>
      rw [step_running rw r _ rfl] at io
      exact .inl ⟨by decide, by simpa [latch, comb, hold, state] using io⟩

theorem SsSg.enters_sBReq (notDone : cmd.ssDone = false)
    (state : (r.step rw (sgIn cmd bus start ended stop)).state = .sBReq) :
    r.state = .sBReq ∧ (bus.resp = .ack → stop = false ∧ ended = false) ∨ r.state = .sBWait ∧ start = true := by
  cases here : r.state with
  | sIdle =>
      rw [step_sIdle rw r cmd bus start ended stop notDone here] at state
      cases write : cmd.ssWe <;> simp [write] at state
  | sCmd =>
      rw [step_sCmd rw r cmd bus start ended stop notDone here] at state
      split_ifs at state <;> simp [here] at state
  | sDReq =>
      rw [step_sDReq rw r cmd bus start ended stop notDone here] at state
      split_ifs at state <;> simp [here] at state
  | sBReq =>
      refine .inl ⟨rfl, fun resp => ?_⟩
      rw [step_sBReq_ack rw r cmd bus start ended stop notDone here resp] at state
      cases leave : stop || ended with
      | false => simpa using leave
      | true =>
          simp only [leave, if_true] at state
          split_ifs at state
  | sBWait =>
      rw [step_sBWait rw r cmd bus start ended stop notDone here] at state
      cases start with
      | true => exact .inr ⟨rfl, rfl⟩
      | false => cases finish : ended && r.io <;> simp [finish, here] at state
  | sNext =>
      rw [step_sNext rw r cmd bus start ended stop notDone here] at state
      split_ifs at state
  | sEnd =>
      rw [step_sEnd rw r cmd bus start ended stop notDone here] at state
      simp [here] at state
  | sPanic =>
      rw [step_running rw r _ rfl] at state
      simp [latch, comb, hold, sgIn, notDone, here] at state

theorem SsSg.enters_sEnd (notDone : cmd.ssDone = false)
    (state : (r.step rw (sgIn cmd bus start ended stop)).state = .sEnd) :
    r.state = .sEnd ∨ r.state = .sCmd ∨ r.state = .sNext ∧ r.sgLast = true ∨
      r.state = .sBWait ∧ ended = true ∧ r.io = true := by
  cases here : r.state with
  | sEnd => simp
  | sCmd => simp
  | sIdle =>
      rw [step_sIdle rw r cmd bus start ended stop notDone here] at state
      cases write : cmd.ssWe <;> simp [write] at state
  | sDReq =>
      rw [step_sDReq rw r cmd bus start ended stop notDone here] at state
      split_ifs at state <;> simp [here] at state
  | sBReq =>
      by_cases resp : bus.resp = .ack
      · rw [step_sBReq_ack rw r cmd bus start ended stop notDone here resp] at state
        dsimp only at state
        split_ifs at state
      · rw [step_sBReq_hold rw r cmd bus start ended stop notDone here resp] at state
        dsimp only at state
        split_ifs at state
  | sBWait =>
      rw [step_sBWait rw r cmd bus start ended stop notDone here] at state
      cases ended <;> cases io : r.io <;> cases start <;> simp_all
  | sNext =>
      rw [step_sNext rw r cmd bus start ended stop notDone here] at state
      cases last : r.sgLast with
      | true => simp
      | false => simp [last] at state
  | sPanic =>
      rw [step_running rw r _ rfl] at state
      simp [latch, comb, hold, sgIn, notDone, here] at state

end

theorem SsSg.walk_step (rw : Bool) (mem : Mem) (kept : BitVec 29 → Prop) (r : SsSg) (words : List (BitVec 29))
    (cmd : ChanCmd) (bus : BusIn) (start ended stop : Bool) (notDone : cmd.ssDone = false)
    (walk : r.Walk rw mem kept words)
    (read : bus.resp = .ack → r.state = .sDReq → kept r.wbsAdrR → bus.dat = mem r.wbsAdrR) :
    (r.step rw (sgIn cmd bus start ended stop)).Walk rw mem kept
      (if r.state = .sBReq ∧ bus.resp = .ack then words.tail else words) := by
  cases walk with
  | next state down rest =>
      rw [step_sNext rw r cmd bus start ended stop notDone state, if_neg (c := _ ∧ _) (by simp [state])]
      cases last : r.sgLast with
      | true => exact .ended rfl down
      | false => exact .first rfl ⟨rfl, rfl⟩ rfl (by simpa [SgRest, last] using rest)
  | first state reading none list =>
      rw [step_sDReq rw r cmd bus start ended stop notDone state, if_neg (c := _ ∧ _) (by simp [state])]
      obtain ⟨inside, nonzero, rest, split, tail⟩ := list.first
      by_cases resp : bus.resp = .ack
      · rw [if_pos resp, if_neg (by simp [none]), read resp state inside.1]
        exact .second state ⟨rfl, rfl⟩ rfl inside.2 ⟨nonzero, rest, split, tail⟩
      · rw [if_neg resp]
        exact .first state ⟨rfl, rfl⟩ none list
  | second state reading one inside within =>
      rw [step_sDReq rw r cmd bus start ended stop notDone state, if_neg (c := _ ∧ _) (by simp [state])]
      by_cases resp : bus.resp = .ack
      · rw [if_pos resp, if_pos one, read resp state inside]
        exact .waiting rfl rfl within
      · rw [if_neg resp]
        exact .second state ⟨rfl, rfl⟩ one inside within
  | waiting state down within =>
      rw [step_sBWait rw r cmd bus start ended stop notDone state, if_neg (c := _ ∧ _) (by simp [state])]
      cases ended && r.io with
      | true => exact .ended rfl down
      | false =>
          cases start with
          | true => exact .moving rfl ⟨rfl, rfl, rfl⟩ within
          | false => exact .waiting state down within
  | moving state request within =>
      by_cases resp : bus.resp = .ack
      · rw [step_sBReq_ack rw r cmd bus start ended stop notDone state resp, if_pos (c := _ ∧ _) ⟨state, resp⟩]
        have moved := within_step mem kept r { r with sgAddr := r.sgAddr + 1, sgLen := r.sgLen - 1 } r.sgNext words within rfl rfl rfl
        by_cases final : r.sgLen = 1#16
        · rw [if_pos final] at moved
          exact .next (if_pos final) (by simp [final]) moved
        · rw [if_neg final] at moved
          cases stop || ended with
          | true => exact .waiting (by simp [final]) (by simp [final]) moved
          | false => exact .moving (by simp [final]) (by simp [final, request.2.2]) moved
      · rw [step_sBReq_hold rw r cmd bus start ended stop notDone state resp, if_neg (c := _ ∧ _) (fun both => resp both.2)]
        cases io : r.io with
        | true => exact .waiting rfl rfl within
        | false => exact .moving rfl ⟨rfl, rfl, request.2.2⟩ within
  | ended state down =>
      rw [step_sEnd rw r cmd bus start ended stop notDone state]
      exact .ended state down

end SsAdma
