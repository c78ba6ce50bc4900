import SsAdma.JobLoad
import SsAdma.Clocked

set_option autoImplicit false

namespace SsAdma

inductive SgEvent where
  | read (adr : BitVec 29)
  | move (adr : BitVec 29)
  | last
deriving DecidableEq, Repr

inductive SgChain (mem : Mem) : BitVec 29 → List (BitVec 29) → Prop
  | last (adr : BitVec 29) (nonzero : descLen (mem adr) ≠ 0) (final : descLast (mem adr) = true) : SgChain mem adr [adr]
  | link (adr : BitVec 29) (descs : List (BitVec 29)) (nonzero : descLen (mem adr) ≠ 0)
      (linked : descLast (mem adr) = false) (next : SgChain mem (descNext (mem (adr + 1))) descs) :
      SgChain mem adr (adr :: descs)

def descMoves (mem : Mem) (desc : BitVec 29) : List SgEvent :=
  (segment (descAddr (mem desc)) (descLen (mem desc)).toNat).map .move

def sgScript (mem : Mem) (descs : List (BitVec 29)) : List SgEvent :=
  descs.flatMap (fun desc => .read desc :: .read (desc + 1) :: descMoves mem desc) ++ [.last]

structure SgBench where
  engine : SsSg
  loaded : Nat

structure SgBenchIn where
  lines : CtrlLines
  bus : BusIn
  start : Bool
  stop : Bool

def SgBench.answer (mem : Mem) (b : SgBench) (i : SgBenchIn) : BusIn where
  resp := i.bus.resp
  dat := if b.engine.state = .sDReq then mem b.engine.wbsAdrR else i.bus.dat

def SgBench.sgIn (job : JobDesc) (mem : Mem) (b : SgBench) (i : SgBenchIn) : SsSgIn :=
  SsAdma.sgIn (job.cmd b.loaded i.lines) (b.answer mem i) i.start false i.stop

def SgBench.step (job : JobDesc) (rw : Bool) (mem : Mem) (b : SgBench) (i : SgBenchIn) : SgBench where
  engine := b.engine.step rw (b.sgIn job mem i)
  loaded := i.lines.count b.loaded

def SgBench.emit (job : JobDesc) (rw : Bool) (mem : Mem) (b : SgBench) (i : SgBenchIn) : List SgEvent :=
  if b.engine.state = .sDReq ∧ i.bus.resp = .ack then [.read b.engine.wbsAdrR]
  else if b.engine.state = .sBReq ∧ i.bus.resp = .ack then [.move b.engine.wbsAdrR]
  else if (b.engine.comb rw (b.sgIn job mem i)).ssXfer && (b.engine.comb rw (b.sgIn job mem i)).ssLast then [.last]
  else []

def SgTail (mem : Mem) (last : Bool) (next : BitVec 29) (script : List SgEvent) : Prop :=
  if last then script = [.last] else ∃ descs, SgChain mem next descs ∧ script = sgScript mem descs

def SsSg.Moves (mem : Mem) (r : SsSg) (next : BitVec 29) (script : List SgEvent) : Prop :=
  r.sgLen ≠ 0 ∧ ∃ rest, script = (segment r.sgAddr r.sgLen.toNat).map .move ++ rest ∧ SgTail mem r.sgLast next rest

inductive SsSg.Follows (mem : Mem) (r : SsSg) (script : List SgEvent) : Prop
  | next (state : r.state = .sNext) (tail : SgTail mem r.sgLast r.sgNext script)
  | first (state : r.state = .sDReq) (none : r.cnt = false) (list : SgTail mem false r.wbsAdrR script)
  | second (state : r.state = .sDReq) (one : r.cnt = true) (rest : List SgEvent) (reads : script = .read r.wbsAdrR :: rest)
      (moves : r.Moves mem (descNext (mem r.wbsAdrR)) rest)
  | waiting (state : r.state = .sBWait) (moves : r.Moves mem r.sgNext script)
  | moving (state : r.state = .sBReq) (address : r.wbsAdrR = r.sgAddr) (moves : r.Moves mem r.sgNext script)
  | ended (state : r.state = .sEnd) (done : script = [])

structure SgBench.Left (job : JobDesc) (rw : Bool) (mem : Mem) (b : SgBench) (script : List SgEvent) : Prop where
  loading : b.loaded < 4 → b.engine.Loading job rw b.loaded ∧ SgTail mem false (job.list rw) script
  following : ¬ b.loaded < 4 → b.engine.Follows mem script

theorem SgChain.unfold_script (mem : Mem) (adr : BitVec 29) (script : List SgEvent) (list : SgTail mem false adr script) :
    descLen (mem adr) ≠ 0 ∧ ∃ rest, script = .read adr :: .read (adr + 1) :: descMoves mem adr ++ rest ∧
      SgTail mem (descLast (mem adr)) (descNext (mem (adr + 1))) rest := by
  obtain ⟨descs, chain, rfl⟩ : ∃ descs, SgChain mem adr descs ∧ script = sgScript mem descs := by simpa [SgTail] using list
  cases chain with
  | last _ nonzero final => exact ⟨nonzero, [.last], by simp [sgScript], by simp [SgTail, final]⟩
  | link _ descs nonzero linked next =>
      refine ⟨nonzero, sgScript mem descs, by simp [sgScript], ?_⟩
      simpa [SgTail, linked] using ⟨descs, next, rfl⟩

theorem SsSg.Moves.step (mem : Mem) (r r' : SsSg) (next : BitVec 29) (script : List SgEvent)
    (moves : r.Moves mem next script) (len : r'.sgLen = r.sgLen - 1) (addr : r'.sgAddr = r.sgAddr + 1)
    (last : r'.sgLast = r.sgLast) :
    ∃ rest, script = .move r.sgAddr :: rest ∧
      if r.sgLen = 1#16 then SgTail mem r.sgLast next rest else r'.Moves mem next rest := by
  obtain ⟨nonzero, rest, split, tail⟩ := moves
  rw [segment_cons _ _ nonzero] at split
  refine ⟨_, split, ?_⟩
  by_cases final : r.sgLen = 1#16
  · rw [if_pos final, final]
    exact tail
  · rw [if_neg final]
    have more : r'.sgLen ≠ 0 := by
      rw [len]
      bv_omega
    exact ⟨more, rest, by rw [addr, len]; rfl, by rw [last]; exact tail⟩

theorem SgBench.emit_ack (job : JobDesc) (rw : Bool) (mem : Mem) (b : SgBench) (i : SgBenchIn) :
    b.emit job rw mem i =
      if b.engine.state = .sDReq ∧ i.bus.resp = .ack then [.read b.engine.wbsAdrR]
      else if b.engine.state = .sBReq ∧ i.bus.resp = .ack then [.move b.engine.wbsAdrR]
      else if b.engine.state = .sNext ∧ b.engine.sgLast = true then [.last]
      else [] := by
  obtain ⟨xfer, last⟩ := b.engine.comb_xfer rw (job.cmd b.loaded i.lines) (b.answer mem i) i.start false i.stop
  unfold emit sgIn
  rw [xfer, last]
  cases state : b.engine.state <;> cases b.engine.sgLast <;> simp

theorem SgBench.follows_step (job : JobDesc) (rw : Bool) (mem : Mem) (b : SgBench) (i : SgBenchIn)
    (script : List SgEvent) (follows : b.engine.Follows mem script) :
    ∃ rest, script = b.emit job rw mem i ++ rest ∧ (b.step job rw mem i).engine.Follows mem rest := by
  rw [b.emit_ack job rw mem i]
  unfold step sgIn
  cases follows with
  | next state tail =>
      rw [SsSg.step_sNext rw _ _ _ _ _ _ rfl state]
      cases last : b.engine.sgLast with
      | true => exact ⟨[], by simpa [SgTail, state, last] using tail, .ended rfl rfl⟩
      | false => exact ⟨script, by simp [state], .first rfl rfl (by simpa [last] using tail)⟩
  | first state none list =>
      have word : (b.answer mem i).dat = mem b.engine.wbsAdrR := if_pos state
      obtain ⟨nonzero, rest, split, tail⟩ := SgChain.unfold_script mem _ script list
      rw [SsSg.step_sDReq rw _ _ _ _ _ _ rfl state, none, word]
      by_cases resp : i.bus.resp = .ack
      · refine ⟨_, by simpa [state, resp] using split, ?_⟩
        rw [if_pos (c := (b.answer mem i).resp = .ack) resp]
        exact .second state rfl _ rfl ⟨nonzero, rest, rfl, tail⟩
      · refine ⟨script, by simp [state, resp], ?_⟩
        rw [if_neg (c := (b.answer mem i).resp = .ack) resp]
        exact .first state rfl list
  | second state one rest reads moves =>
      have word : (b.answer mem i).dat = mem b.engine.wbsAdrR := if_pos state
      rw [SsSg.step_sDReq rw _ _ _ _ _ _ rfl state, one, word]
      by_cases resp : i.bus.resp = .ack
      · refine ⟨rest, by simpa [state, resp] using reads, ?_⟩
        rw [if_pos (c := (b.answer mem i).resp = .ack) resp]
        exact .waiting rfl moves
      · refine ⟨script, by simp [state, resp], ?_⟩
        rw [if_neg (c := (b.answer mem i).resp = .ack) resp]
        exact .second state rfl rest reads moves
  | waiting state moves =>
      rw [SsSg.step_sBWait rw _ _ _ _ _ _ rfl state]
      refine ⟨script, by simp [state], ?_⟩
      cases i.start with
      | true => exact .moving rfl rfl moves
      | false => exact .waiting state moves
  | moving state address moves =>
      by_cases resp : i.bus.resp = .ack
      · obtain ⟨rest, split, moved⟩ := moves.step mem b.engine
          { b.engine with sgAddr := b.engine.sgAddr + 1, sgLen := b.engine.sgLen - 1 } b.engine.sgNext script rfl rfl rfl
        refine ⟨rest, by simpa [state, resp, address] using split, ?_⟩
        rw [SsSg.step_sBReq_ack rw _ _ (b.answer mem i) _ _ _ rfl state resp]
        by_cases final : b.engine.sgLen = 1#16
        · rw [if_pos final] at moved
          exact .next (if_pos final) moved
        · rw [if_neg final] at moved
          cases i.stop with
          | true => exact .waiting (by simp [final]) moved
          | false => exact .moving (by simp [final]) (by simp [address]) moved
      · refine ⟨script, by simp [state, resp], ?_⟩
        rw [SsSg.step_sBReq_hold rw _ _ (b.answer mem i) _ _ _ rfl state resp]
        cases io : b.engine.io with
        | true => exact .waiting rfl moves
        | false => exact .moving rfl address moves
  | ended state done =>
      rw [SsSg.step_sEnd rw _ _ _ _ _ _ rfl state]
      exact ⟨[], by simp [state, done], .ended state rfl⟩

theorem SgBench.Left.done (job : JobDesc) (rw : Bool) (mem : Mem) (b : SgBench) (script : List SgEvent)
    (left : b.Left job rw mem script) (ended : b.engine.state = .sEnd) : script = [] := by
  by_cases below : b.loaded < 4
  · rcases (left.loading below).1.not_moving with other | other <;> simp [ended] at other
  · cases left.following below with
    | ended _ done => exact done
    | next other | first other | second other | waiting other | moving other => simp [ended] at other

theorem SgBench.Left.step (job : JobDesc) (rw : Bool) (mem : Mem) (b : SgBench) (script : List SgEvent)
    (left : b.Left job rw mem script) (listed : (if rw then job.dc.getLsbD 2 else job.dc.getLsbD 1) = true) (i : SgBenchIn) :
    ∃ rest, script = b.emit job rw mem i ++ rest ∧ (b.step job rw mem i).Left job rw mem rest := by
  by_cases below : b.loaded < 4
  · obtain ⟨loading, tail⟩ := left.loading below
    have quiet : b.emit job rw mem i = [] := by
      rw [b.emit_ack job rw mem i]
      rcases loading.not_moving with state | state <;> simp [state]
    refine ⟨script, by simp [quiet], ?_⟩
    by_cases still : i.lines.count b.loaded < 4
    · have next := b.engine.loading_step job rw b.loaded i.lines (b.answer mem i) i.start false i.stop loading still
      exact ⟨fun _ => ⟨next, tail⟩, fun complete => absurd still complete⟩
    · have next := b.engine.loaded_step job rw b.loaded i.lines (b.answer mem i) i.start false i.stop loading below still listed
      refine ⟨fun early => absurd early still, fun _ => ?_⟩
      change (b.engine.step rw _).Follows mem script
      rw [sgIn, next]
      exact .next rfl tail
  · have counted : i.lines.count b.loaded = b.loaded := by simp [CtrlLines.count, CtrlLines.gives, below]
    obtain ⟨rest, split, follows⟩ := b.follows_step job rw mem i script (left.following below)
    exact ⟨rest, split, fun early => absurd (lt_of_eq_of_lt counted.symm early) below, fun _ => follows⟩

theorem walk_follows_list (job : JobDesc) (rw : Bool) (mem : Mem) (descs : List (BitVec 29)) (engine : SsSg)
    (inputs : List SgBenchIn) (list : SgChain mem (job.list rw) descs)
    (listed : (if rw then job.dc.getLsbD 2 else job.dc.getLsbD 1) = true) (closed : engine.Closed) :
    Clocked.trace (SgBench.step job rw mem) (SgBench.emit job rw mem) ⟨engine, 0⟩ inputs <+: sgScript mem descs ∧
      ((Clocked.run (SgBench.step job rw mem) ⟨engine, 0⟩ inputs).engine.state = .sEnd →
        Clocked.trace (SgBench.step job rw mem) (SgBench.emit job rw mem) ⟨engine, 0⟩ inputs = sgScript mem descs) := by
  have fresh : SgBench.Left job rw mem ⟨engine, 0⟩ (sgScript mem descs) :=
    ⟨fun _ => ⟨⟨closed.down, fun _ => closed.idle, fun late => absurd late (Nat.lt_irrefl 0), nofun⟩, descs, list, rfl⟩,
      fun late => absurd (show 0 < 4 by decide) late⟩
  obtain ⟨rest, split, left⟩ := Clocked.trace_script (SgBench.step job rw mem) (SgBench.emit job rw mem) (fun _ _ => True)
    (SgBench.Left job rw mem) (fun b i script left _ => left.step job rw mem b script listed i) _ inputs _ fresh
    (Clocked.admits_free _ _ inputs)
  refine ⟨⟨rest, split.symm⟩, fun ended => ?_⟩
  rw [split, left.done job rw mem _ rest ended, List.append_nil]

def twoDescs : Mem := fun adr =>
  if adr = 0x200 then 0x0001000000000010
  else if adr = 0x201 then 0x0000000000001080
  else if adr = 0x210 then 0x0002000000100008
  else 0

def listJob : JobDesc := { nextDesc := 0, dcFc := 0x16, srcDesc := 0, dstDesc := 0x1000 }

def listPeriod (resp : Resp) : SgBenchIn where
  lines := { give := true, idleDat := 0, idleAdr := 0, oldDc := 0, mEnable := true }
  bus := ⟨resp, 0⟩
  start := true
  stop := false

theorem twoDescs_chain : SgChain twoDescs (listJob.list true) [0x200, 0x210] :=
  .link 0x200 [0x210] (by decide) (by decide) (.last 0x210 (by decide) (by decide))

theorem two_descs_walked :
    Clocked.trace (SgBench.step listJob true twoDescs) (SgBench.emit listJob true twoDescs) ⟨default, 0⟩
        (List.replicate 9 (listPeriod .ack) ++ [listPeriod .rty] ++ List.replicate 9 (listPeriod .ack)) =
      sgScript twoDescs [0x200, 0x210] :=
  (walk_follows_list listJob true twoDescs [0x200, 0x210] default
    (List.replicate 9 (listPeriod .ack) ++ [listPeriod .rty] ++ List.replicate 9 (listPeriod .ack)) twoDescs_chain
    (by decide) ⟨rfl, rfl, rfl⟩).2 (by decide +kernel)

end SsAdma
