import SsAdma.SgWalk

set_option autoImplicit false

namespace SsAdma

structure JobDesc where
  nextDesc : BitVec 32
  dcFc : BitVec 32
  srcDesc : BitVec 32
  dstDesc : BitVec 32

def JobDesc.dc (job : JobDesc) : BitVec 24 := (job.dcFc.extractLsb' 0 16).setWidth 24

def JobDesc.word (job : JobDesc) : Nat → BitVec 32
  | 0 => job.nextDesc
  | 1 => job.dcFc
  | 2 => job.srcDesc
  | _ => job.dstDesc

def JobDesc.list (job : JobDesc) (rw : Bool) : BitVec 29 := wordAddr (if rw then job.dstDesc else job.srcDesc)

structure CtrlLines where
  give : Bool
  idleDat : BitVec 32
  idleAdr : BitVec 2
  oldDc : BitVec 24
  mEnable : Bool

def CtrlLines.gives (l : CtrlLines) (loaded : Nat) : Bool := l.give && decide (loaded < 4)

def JobDesc.cmd (job : JobDesc) (loaded : Nat) (l : CtrlLines) : ChanCmd where
  ssDat := if l.gives loaded then job.word loaded else l.idleDat
  ssWe := l.gives loaded
  ssAdr := if l.gives loaded then BitVec.ofNat 2 loaded else l.idleAdr
  ssDone := false
  dc := if 2 ≤ loaded then job.dc else l.oldDc
  mReset := false
  mEnable := l.mEnable

def CtrlLines.count (l : CtrlLines) (loaded : Nat) : Nat := if l.gives loaded then loaded + 1 else loaded

theorem CtrlLines.count_le (l : CtrlLines) (loaded : Nat) : loaded ≤ l.count loaded := by
  unfold count
  split <;> omega

def SsSg.answer (r : SsSg) (mem : Mem) (bus : BusIn) : BusIn where
  resp := if r.wbsCyc then bus.resp else .wait
  dat := if r.wbsWe then bus.dat else if bus.resp = .ack then mem r.wbsAdrR else bus.dat

structure SsSg.Loading (job : JobDesc) (rw : Bool) (loaded : Nat) (r : SsSg) : Prop where
  down : r.wbsCyc = false
  idle : loaded = 0 → r.state = .sIdle
  command : 0 < loaded → r.state = .sCmd
  pointer : loaded = 3 → rw = false → r.sgNext = job.list false

structure SsSg.OnJob (job : JobDesc) (rw : Bool) (mem : Mem) (kept : BitVec 29 → Prop) (loaded : Nat) (r : SsSg)
    (words : List (BitVec 29)) : Prop where
  loading : loaded < 4 → r.Loading job rw loaded ∧ SgList mem kept (job.list rw) words
  walking : ¬ loaded < 4 → r.Walk rw mem kept words
  noError : r.state ≠ .sEnd → r.state ≠ .sIdle → r.err = 0

structure SsSg.Closed (r : SsSg) : Prop where
  idle : r.state = .sIdle
  down : r.wbsCyc = false
  notDone : r.cDone = false

theorem SsSg.Closed.onJob {job : JobDesc} {rw : Bool} {mem : Mem} {kept : BitVec 29 → Prop} {words : List (BitVec 29)}
    {r : SsSg} (closed : r.Closed) (list : SgList mem kept (job.list rw) words) : r.OnJob job rw mem kept 0 words where
  loading := fun _ => ⟨⟨closed.down, fun _ => closed.idle, by simp, by simp⟩, list⟩
  walking := by simp
  noError := by simp [closed.idle]

theorem SsSg.Loading.not_moving (job : JobDesc) (rw : Bool) (loaded : Nat) (r : SsSg)
    (loading : r.Loading job rw loaded) : r.state = .sIdle ∨ r.state = .sCmd := by
  by_cases first : loaded = 0
  · exact .inl (loading.idle first)
  · exact .inr (loading.command (by omega))

theorem SsSg.loading_step (job : JobDesc) (rw : Bool) (loaded : Nat) (r : SsSg) (l : CtrlLines) (bus : BusIn)
    (start ended stop : Bool) (loading : r.Loading job rw loaded) (below : l.count loaded < 4) :
    (r.step rw (sgIn (job.cmd loaded l) bus start ended stop)).Loading job rw (l.count loaded) := by
  unfold CtrlLines.count at below ⊢
  by_cases first : loaded = 0
  · rw [step_sIdle rw r _ bus start ended stop rfl (loading.idle first)]
    subst first
    cases give : l.gives 0 with
    | true => exact ⟨loading.down, by simp, by simp [JobDesc.cmd, give], by simp⟩
    | false => exact ⟨loading.down, by simp [JobDesc.cmd, give], by simp, by simp⟩
  · have state := loading.command (by omega)
    have early : ((job.cmd loaded l).ssWe && (job.cmd loaded l).ssAdr == 3) = false := by
      cases give : l.gives loaded with
      | false => simp [JobDesc.cmd, give]
      | true =>
          obtain rfl | rfl : loaded = 1 ∨ loaded = 2 := by
            have short : loaded + 1 < 4 := by simpa [give] using below
            omega
          · simp [JobDesc.cmd, give]
          · simp [JobDesc.cmd, give]
    rw [step_sCmd rw r _ bus start ended stop rfl state, early]
    cases give : l.gives loaded with
    | false => exact ⟨loading.down, by simp [first], by simp [state], by simpa [JobDesc.cmd, give] using loading.pointer⟩
    | true =>
        have short : loaded + 1 < 4 := by simpa [give] using below
        refine ⟨loading.down, by simp, by simp [state], ?_⟩
        intro three reads
        obtain rfl : loaded = 2 := by simpa using three
        simp [JobDesc.cmd, JobDesc.word, JobDesc.list, give, reads]

theorem SsSg.loaded_step (job : JobDesc) (rw : Bool) (loaded : Nat) (r : SsSg) (l : CtrlLines) (bus : BusIn)
    (start ended stop : Bool) (loading : r.Loading job rw loaded) (below : loaded < 4) (complete : ¬ l.count loaded < 4)
    (listed : (if rw then job.dc.getLsbD 2 else job.dc.getLsbD 1) = true) :
    r.step rw (sgIn (job.cmd loaded l) bus start ended stop) =
      { r with state := .sNext, sgNext := job.list rw, sgLast := false, cDone := false } := by
  unfold CtrlLines.count at complete
  cases give : l.gives loaded with
  | false => exact absurd below (by simpa [give] using complete)
  | true =>
      obtain rfl : loaded = 3 := by
        have late : ¬ loaded + 1 < 4 := by simpa [give] using complete
        omega
      have state := loading.command (by omega)
      rw [step_sCmd rw r _ bus start ended stop rfl state]
      have pointer := loading.pointer rfl
      cases rw with
      | true =>
          have dst : job.dc.getLsbD 2 = true := listed
          simp [JobDesc.cmd, JobDesc.word, JobDesc.list, give, dst]
      | false =>
          have src : job.dc.getLsbD 1 = true := listed
          simp [JobDesc.cmd, give, src, pointer rfl]

theorem SsSg.Within.nonempty (mem : Mem) (kept : BitVec 29 → Prop) (r : SsSg) (next : BitVec 29)
    (words : List (BitVec 29)) (within : r.Within mem kept next words) : words ≠ [] := by
  intro none
  have head := r.within_head mem kept next words within
  simp [none] at head

section

variable {job : JobDesc} {rw : Bool} {mem : Mem} {kept : BitVec 29 → Prop} {loaded : Nat} {r : SsSg}
  {words : List (BitVec 29)}

theorem SsSg.OnJob.walk (onJob : r.OnJob job rw mem kept loaded words) (notIdle : r.state ≠ .sIdle)
    (notCmd : r.state ≠ .sCmd) : r.Walk rw mem kept words := by
  by_cases below : loaded < 4
  · rcases (onJob.loading below).1.not_moving with state | state
    · exact absurd state notIdle
    · exact absurd state notCmd
  · exact onJob.walking below

theorem SsSg.OnJob.moving (onJob : r.OnJob job rw mem kept loaded words) (state : r.state = .sBReq) :
    r.wbsCyc = true ∧ r.wbsWe = rw ∧ words.head? = some r.wbsAdrR := by
  cases onJob.walk (by simp [state]) (by simp [state]) with
  | moving _ request within => exact ⟨request.1, request.2.1, by rw [request.2.2]; exact r.within_head mem kept _ words within⟩
  | next other | first other | second other | waiting other | ended other => simp [state] at other

theorem SsSg.OnJob.reading (onJob : r.OnJob job rw mem kept loaded words) (state : r.state = .sDReq) :
    r.wbsCyc = true ∧ r.wbsWe = false := by
  cases onJob.walk (by simp [state]) (by simp [state]) with
  | first _ request => exact request
  | second _ request => exact request
  | next other | moving other | waiting other | ended other => simp [state] at other

theorem SsSg.OnJob.waiting (onJob : r.OnJob job rw mem kept loaded words) (state : r.state = .sBWait) : words ≠ [] := by
  cases onJob.walk (by simp [state]) (by simp [state]) with
  | waiting _ _ within => exact within.nonempty mem kept r r.sgNext words
  | first other | second other | next other | moving other | ended other => simp [state] at other

theorem SsSg.OnJob.lastNext (onJob : r.OnJob job rw mem kept loaded words) (state : r.state = .sNext)
    (last : r.sgLast = true) : words = [] := by
  cases onJob.walk (by simp [state]) (by simp [state]) with
  | next _ _ rest => simpa [SgRest, last] using rest
  | first other | second other | waiting other | moving other | ended other => simp [state] at other

theorem SsSg.OnJob.ends (onJob : r.OnJob job rw mem kept loaded words)
    (listed : (if rw then job.dc.getLsbD 2 else job.dc.getLsbD 1) = true) (l : CtrlLines) (bus : BusIn) (start ended stop : Bool)
    (state : (r.step rw (sgIn (job.cmd loaded l) bus start ended stop)).state = .sEnd) :
    r.state = .sEnd ∨ r.state = .sNext ∧ r.sgLast = true ∨ r.state = .sBWait ∧ ended = true ∧ r.io = true := by
  by_cases below : loaded < 4
  · have loading := (onJob.loading below).1
    by_cases still : l.count loaded < 4
    · have next := r.loading_step job rw loaded l bus start ended stop loading still
      rcases next.not_moving with other | other <;> simp [state] at other
    · simp [r.loaded_step job rw loaded l bus start ended stop loading below still listed] at state
  · rcases r.enters_sEnd rw (job.cmd loaded l) bus start ended stop rfl state with finished | cmd | others
    · exact .inl finished
    · cases onJob.walking below <;> simp_all
    · exact .inr others

theorem SsSg.OnJob.writing (onJob : r.OnJob job rw mem kept loaded words) :
    (r.wbsCyc && r.wbsWe) = (decide (r.state = .sBReq) && rw) := by
  by_cases below : loaded < 4
  · have loading := (onJob.loading below).1
    rcases loading.not_moving with state | state <;> simp [state, loading.down]
  · cases onJob.walking below with
    | next state down => simp [state, down]
    | first state request => simp [state, request.2]
    | second state request => simp [state, request.2]
    | waiting state down => simp [state, down]
    | moving state request => simp [state, request.1, request.2.1]
    | ended state down => simp [state, down]

end

theorem SsSg.answer_read (r : SsSg) (mem : Mem) (bus : BusIn) (acked : (r.answer mem bus).resp = .ack)
    (reads : r.wbsWe = false) : (r.answer mem bus).dat = mem r.wbsAdrR := by
  unfold answer at acked ⊢
  have resp : bus.resp = .ack := by
    cases up : r.wbsCyc with
    | true => simpa [up] using acked
    | false => simp [up] at acked
  simp [reads, resp]

theorem SsSg.OnJob.read {job : JobDesc} {rw : Bool} {mem : Mem} {kept : BitVec 29 → Prop} {loaded : Nat} {r : SsSg}
    {words : List (BitVec 29)} (onJob : r.OnJob job rw mem kept loaded words) (now : Mem) (bus : BusIn)
    (frame : ∀ adr, kept adr → now adr = mem adr) (resp : (r.answer now bus).resp = .ack) (state : r.state = .sDReq)
    (inside : kept r.wbsAdrR) : (r.answer now bus).dat = mem r.wbsAdrR := by
  rw [r.answer_read now bus resp (onJob.reading state).2]
  exact frame _ inside

theorem SsSg.OnJob.acked {job : JobDesc} {rw : Bool} {mem : Mem} {kept : BitVec 29 → Prop} {loaded : Nat} {r : SsSg}
    {words : List (BitVec 29)} (onJob : r.OnJob job rw mem kept loaded words) (now : Mem) (bus : BusIn) :
    (r.state = .sBReq ∧ (r.answer now bus).resp = .ack) ↔ r.state = .sBReq ∧ bus.resp = .ack := by
  apply and_congr_right
  intro state
  simp [answer, (onJob.moving state).1]

theorem SsSg.OnJob.address {job : JobDesc} {rw : Bool} {mem : Mem} {kept : BitVec 29 → Prop} {loaded : Nat} {r : SsSg}
    {words : List (BitVec 29)} {moved : Nat} (onJob : r.OnJob job rw mem kept loaded (words.drop moved))
    (state : r.state = .sBReq) : ∃ inside : moved < words.length, r.wbsAdrR = words[moved] := by
  have head := (onJob.moving state).2.2
  rw [List.head?_drop] at head
  obtain ⟨inside, same⟩ := List.getElem?_eq_some_iff.mp head
  exact ⟨inside, same.symm⟩

def SsSg.wordsLeft (r : SsSg) (bus : BusIn) (words : List (BitVec 29)) : List (BitVec 29) :=
  if r.state = .sBReq ∧ bus.resp = .ack then words.tail else words

theorem SsSg.onJob_step (job : JobDesc) (rw : Bool) (mem : Mem) (kept : BitVec 29 → Prop) (loaded : Nat) (r : SsSg)
    (words : List (BitVec 29)) (l : CtrlLines) (bus : BusIn) (start ended stop : Bool)
    (onJob : r.OnJob job rw mem kept loaded words) (listed : (if rw then job.dc.getLsbD 2 else job.dc.getLsbD 1) = true)
    (read : bus.resp = .ack → r.state = .sDReq → kept r.wbsAdrR → bus.dat = mem r.wbsAdrR) :
    (r.step rw (sgIn (job.cmd loaded l) bus start ended stop)).OnJob job rw mem kept (l.count loaded)
      (r.wordsLeft bus words) := by
  have noError : (r.step rw (sgIn (job.cmd loaded l) bus start ended stop)).state ≠ .sEnd →
      (r.step rw (sgIn (job.cmd loaded l) bus start ended stop)).state ≠ .sIdle →
      (r.step rw (sgIn (job.cmd loaded l) bus start ended stop)).err = 0 := by
    intro notEnd notIdle
    by_cases idle : r.state = .sIdle
    · rw [step_sIdle rw r _ bus start ended stop rfl idle]
    · have running : r.state ≠ .sEnd := fun finished => notEnd (step_end rw r _ rfl rfl finished)
      rw [step_err rw r _ bus start ended stop rfl idle running]
      exact onJob.noError running idle
  by_cases below : loaded < 4
  · obtain ⟨loading, list⟩ := onJob.loading below
    have same : r.wordsLeft bus words = words := by
      apply if_neg
      rcases loading.not_moving with state | state <;> simp [state]
    rw [same]
    by_cases still : l.count loaded < 4
    · have next := r.loading_step job rw loaded l bus start ended stop loading still
      exact ⟨fun _ => ⟨next, list⟩, fun complete => absurd still complete, noError⟩
    · have next := r.loaded_step job rw loaded l bus start ended stop loading below still listed
      refine ⟨fun below => absurd below still, fun _ => ?_, noError⟩
      rw [next]
      exact .next rfl loading.down (by simpa [SgRest] using list)
  · have counted : l.count loaded = loaded := by simp [CtrlLines.count, CtrlLines.gives, below]
    have walk := r.walk_step rw mem kept words (job.cmd loaded l) bus start ended stop rfl (onJob.walking below) read
    rw [counted]
    exact ⟨fun still => absurd still below, fun _ => walk, noError⟩

end SsAdma
