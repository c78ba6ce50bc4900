import SsAdma.Dispatch
import SsAdma.JobLoad
import SsAdma.Clocked

set_option autoImplicit false

namespace SsAdma

def Ctrl.mReset (c : Ctrl) (lane : Fin 2) : Bool := if lane = 0 then c.mReset0 else c.mReset1
def Ctrl.mEnable (c : Ctrl) (lane : Fin 2) : Bool := if lane = 0 then c.mEnable0 else c.mEnable1

def SlaveBus.busIn (b : SlaveBus) : BusIn where
  resp := if b.ack then .ack else if b.rty then .rty else .wait
  dat := b.dat64 ++ b.dat

def Masters.lines (m : Masters) (i : MastersIn) (lane : Fin 2) : CtrlLines where
  give := m.ctrl.ssWe (m.ctrlIn i) lane
  idleDat := (i.bus 4).dat
  idleAdr := m.ctrl.inc
  oldDc := (m.ctrl.dcR lane).setWidth 24
  mEnable := m.ctrl.mEnable lane

inductive Ctrl.Serves (c : Ctrl) (lane : Fin 2) (job : JobDesc) : Nat → Prop
  | waiting (free : c.stage lane = .free) : Serves c lane job 0
  | loading (loaded : Nat) (begun : 0 < loaded) (more : loaded < 4) (stage : c.stage lane = .loading)
      (word : c.inc = BitVec.ofNat 2 loaded) (dc : 2 ≤ loaded → c.dcR lane = job.dcFc.extractLsb' 0 16) :
      Serves c lane job loaded
  | running (stage : c.stage lane = .running ∨ c.stage lane = .writing)
      (dc : c.dcR lane = job.dcFc.extractLsb' 0 16) : Serves c lane job 4

section

variable {lane : Fin 2} {c : Ctrl} {i : CtrlIn} {before after : Stage}

theorem LaneStep.writes_free_or_loading (moved : LaneStep lane c i before after) (writes : c.ssWe i lane = true) :
    before = .free ∧ c.inc = 0#2 ∨ before = .loading := by
  cases moved with
  | opened _ _ first => exact .inl ⟨rfl, first⟩
  | loaded | dispatched => exact .inr rfl
  | rest silent | stalled silent | runs silent | reports silent | skips silent | writes silent | written silent
  | waits silent | closed silent | retired silent =>
      exact absurd (silent.symm.trans writes) Bool.false_ne_true

theorem LaneStep.done_closing (moved : LaneStep lane c i before after) (done : c.ssDone lane = true) : before = .closing := by
  cases moved with
  | waits | closed => rfl
  | rest _ open_ | opened _ open_ | stalled _ open_ | loaded _ open_ | dispatched _ open_ | runs _ open_ | reports _ open_
  | skips _ open_ | writes _ open_ | written _ open_ | retired _ open_ =>
      exact absurd (open_.symm.trans done) Bool.false_ne_true

end

section

variable {m : Masters} {i : MastersIn} {lane : Fin 2} {job : JobDesc} {loaded : Nat}

theorem Ctrl.Serves.gives (serves : m.ctrl.Serves lane job loaded) (exclusive : Exclusive m i) (dispatch : Dispatch m) :
    (m.lines i lane).gives loaded = m.ctrl.ssWe (m.ctrlIn i) lane := by
  have moved := dispatch_lane exclusive dispatch lane
  change (m.ctrl.ssWe (m.ctrlIn i) lane && decide (loaded < 4)) = _
  cases write : m.ctrl.ssWe (m.ctrlIn i) lane with
  | false => rfl
  | true =>
      have given := moved.writes_free_or_loading write
      cases serves with
      | waiting => rfl
      | loading _ _ more => simpa using more
      | running stage => rcases stage with stage | stage <;> simp [stage] at given

theorem Ctrl.Serves.word (serves : m.ctrl.Serves lane job loaded) (exclusive : Exclusive m i) (dispatch : Dispatch m)
    (write : m.ctrl.ssWe (m.ctrlIn i) lane = true) : m.ctrl.inc = BitVec.ofNat 2 loaded := by
  have given := (dispatch_lane exclusive dispatch lane).writes_free_or_loading write
  cases serves with
  | waiting free => exact (given.resolve_right (by simp [free])).2
  | loading _ _ _ _ word => exact word
  | running stage => rcases stage with stage | stage <;> simp [stage] at given

theorem Ctrl.Serves.notDone (serves : m.ctrl.Serves lane job loaded) (exclusive : Exclusive m i) (dispatch : Dispatch m) :
    m.ctrl.ssDone lane = false := by
  cases done : m.ctrl.ssDone lane with
  | false => rfl
  | true =>
      have closing := (dispatch_lane exclusive dispatch lane).done_closing done
      cases serves with
      | waiting free => simp [free] at closing
      | loading _ _ _ stage => simp [stage] at closing
      | running stage => rcases stage with stage | stage <;> simp [stage] at closing

theorem Ctrl.Serves.loadedDc {c : Ctrl} (serves : c.Serves lane job loaded) (two : 2 ≤ loaded) :
    c.dcR lane = job.dcFc.extractLsb' 0 16 := by
  cases serves with
  | waiting => omega
  | loading _ _ _ _ _ dc => exact dc two
  | running _ dc => exact dc

theorem Ctrl.Serves.sgIn (serves : m.ctrl.Serves lane job loaded) (exclusive : Exclusive m i) (dispatch : Dispatch m)
    (carried : m.ctrl.ssWe (m.ctrlIn i) lane = true → (i.bus 4).dat = job.word loaded) (k : Fin 4) (here : laneOf k = lane) :
    m.sgIn i k = SsAdma.sgIn (job.cmd loaded (m.lines i lane)) (i.bus k.castSucc).busIn (i.ch k).ssStart (i.ch k).ssEnd
      (i.ch k).ssStop := by
  subst here
  have gives := serves.gives exclusive dispatch
  have dat : (i.bus 4).dat = (job.cmd loaded (m.lines i (laneOf k))).ssDat := by
    cases write : m.ctrl.ssWe (m.ctrlIn i) (laneOf k) with
    | false => simp only [JobDesc.cmd, gives, write]; rfl
    | true => simp [JobDesc.cmd, gives, write, carried write]
  have adr : m.ctrl.inc = (job.cmd loaded (m.lines i (laneOf k))).ssAdr := by
    cases write : m.ctrl.ssWe (m.ctrlIn i) (laneOf k) with
    | false => simp only [JobDesc.cmd, gives, write]; rfl
    | true => simp [JobDesc.cmd, gives, write, serves.word exclusive dispatch write]
  have dc : (if k < 2 then m.ctrl.dc0 else m.ctrl.dc1) = (job.cmd loaded (m.lines i (laneOf k))).dc := by
    have register : (if k < 2 then m.ctrl.dc0 else m.ctrl.dc1) = (m.ctrl.dcR (laneOf k)).setWidth 24 := by
      unfold laneOf Ctrl.dcR Ctrl.dc0 Ctrl.dc1
      split <;> rfl
    rw [register]
    by_cases two : 2 ≤ loaded
    · simp [JobDesc.cmd, JobDesc.dc, two, serves.loadedDc two]
    · simp [JobDesc.cmd, two, Masters.lines]
  have rty : (i.bus k.castSucc).rty = (i.bus k.castSucc).busIn.resp.isRty := by
    unfold SlaveBus.busIn
    cases ack : (i.bus k.castSucc).ack with
    | true => simp [Resp.isRty, (exclusive.answered _ ack).1]
    | false => cases (i.bus k.castSucc).rty <;> rfl
  have ack : (i.bus k.castSucc).ack = (i.bus k.castSucc).busIn.resp.isAck := by
    unfold SlaveBus.busIn
    cases (i.bus k.castSucc).ack <;> cases (i.bus k.castSucc).rty <;> rfl
  have low : (i.bus k.castSucc).busIn.dat.extractLsb' 0 32 = (i.bus k.castSucc).dat := BitVec.extractLsb'_append_eq_right
  have high : (i.bus k.castSucc).busIn.dat.extractLsb' 32 32 = (i.bus k.castSucc).dat64 := BitVec.extractLsb'_append_eq_left
  unfold Masters.sgIn SsAdma.sgIn
  rw [low, high, ← ack, ← rty, ← dat, ← adr, ← dc, ssWe_lane exclusive, ssDone_lane exclusive,
    serves.notDone exclusive dispatch, exclusive.running, exclusive.noError]
  rw [← gives]
  rfl

theorem Ctrl.Serves.step (serves : m.ctrl.Serves lane job loaded) (exclusive : Exclusive m i) (dispatch : Dispatch m)
    (carried : m.ctrl.ssWe (m.ctrlIn i) lane = true → (i.bus 4).dat = job.word loaded) :
    (m.step i).ctrl.Serves lane job ((m.lines i lane).count loaded) ∨ (m.step i).ctrl.stage lane = .closing := by
  have moved := dispatch_lane exclusive dispatch lane
  have count : (m.lines i lane).count loaded = if m.ctrl.ssWe (m.ctrlIn i) lane then loaded + 1 else loaded := by
    unfold CtrlLines.count
    rw [serves.gives exclusive dispatch]
  rw [count]
  generalize stageN : (m.step i).ctrl.stage lane = after at moved ⊢
  cases serves with
  | waiting free =>
      rw [free] at moved
      cases moved with
      | rest silent =>
          rw [silent]
          exact .inl (.waiting stageN)
      | opened writes _ _ incN =>
          rw [writes]
          exact .inl (.loading 1 (by omega) (by omega) stageN incN (by omega))
  | loading _ begun more stage word dc =>
      rw [stage] at moved
      cases moved with
      | stalled silent _ _ incN same =>
          rw [silent]
          exact .inl (.loading loaded begun more stageN (incN.trans word) (fun two => same.2.trans (dc two)))
      | loaded writes _ first notLast incN _ dcN =>
          rw [writes]
          have third : loaded ≠ 3 := fun three => notLast (word.trans (by rw [three]))
          obtain rfl | rfl : loaded = 1 ∨ loaded = 2 := by omega
          · have taken : (m.step i).ctrl.dcR lane = job.dcFc.extractLsb' 0 16 := by
              refine dcN.trans ((if_pos word).trans ?_)
              exact congrArg (BitVec.extractLsb' 0 16) (carried writes)
            exact .inl (.loading 2 (by omega) (by omega) stageN (incN.trans (by rw [word]; rfl)) (fun _ => taken))
          · have same : (m.step i).ctrl.dcR lane = m.ctrl.dcR lane := dcN.trans (if_neg (by rw [word]; decide))
            exact .inl (.loading 3 (by omega) (by omega) stageN (incN.trans (by rw [word]; rfl)) (fun _ => same.trans (dc (by omega))))
      | dispatched writes _ last same =>
          rw [writes]
          obtain rfl : loaded = 3 := by
            have third := congrArg BitVec.toNat (word.symm.trans last)
            simp only [BitVec.toNat_ofNat] at third
            omega
          exact .inl (.running (.inl stageN) (same.2.trans (dc (by omega))))
  | running stage dc =>
      rcases stage with stage | stage
      · rw [stage] at moved
        cases moved with
        | runs silent _ same =>
            rw [silent]
            exact .inl (.running (.inl stageN) (same.2.trans dc))
        | reports silent _ _ _ _ _ same =>
            rw [silent]
            exact .inl (.running (.inr stageN) (same.2.trans dc))
        | skips => exact .inr rfl
      · rw [stage] at moved
        cases moved with
        | writes silent _ _ _ _ same =>
            rw [silent]
            exact .inl (.running (.inr stageN) (same.2.trans dc))
        | written => exact .inr rfl

end

structure JobPeriod (lane : Fin 2) (job : JobDesc) (s : Masters × Nat) (i : MastersIn) : Prop where
  exclusive : Exclusive s.1 i
  carried : s.1.ctrl.ssWe (s.1.ctrlIn i) lane = true → (i.bus 4).dat = job.word s.2
  goesOn : (s.1.step i).ctrl.stage lane ≠ .closing

def countWords (lane : Fin 2) (m : Masters) (loaded : Nat) (i : MastersIn) : Nat := (m.lines i lane).count loaded

structure Serving (lane : Fin 2) (job : JobDesc) (s : Masters × Nat) : Prop extends Dispatch s.1 where
  serves : s.1.ctrl.Serves lane job s.2

theorem serving_step (lane : Fin 2) (job : JobDesc) (s : Masters × Nat) (i : MastersIn) (serving : Serving lane job s)
    (period : JobPeriod lane job s i) : Serving lane job (Clocked.watch Masters.step (countWords lane) s i) where
  toDispatch := dispatch_step s.1 i serving.toDispatch period.exclusive
  serves := (serving.serves.step period.exclusive serving.toDispatch period.carried).resolve_right period.goesOn

def Stage.dispatched : Stage → Bool
  | .running | .writing | .closing | .retiring => true
  | .free | .loading => false

def Ctrl.EnableScoped (c : Ctrl) : Prop := ∀ lane, c.mEnable lane = true → (c.stage lane).dispatched = true

theorem Ctrl.step_mEnable (c : Ctrl) (i : CtrlIn) (lane : Fin 2) (running : i.wbRst = false)
    (up : (c.step i).mEnable lane = true) : c.stage lane ≠ .retiring ∧ (c.mEnable lane = true ∨ c.stage lane = .running) := by
  rw [step_running c i running] at up
  match lane with
  | 0 =>
      change (c.comb i).mEnable0N = true at up
      rw [comb_mEnable0N] at up
      change c.stage0 ≠ _ ∧ (c.mEnable0 = true ∨ c.stage0 = _)
      unfold stage0
      cases state : c.state <;> simp [state] at up ⊢ <;> grind
  | 1 =>
      change (c.comb i).mEnable1N = true at up
      rw [comb_mEnable1N] at up
      change c.stage1 ≠ _ ∧ (c.mEnable1 = true ∨ c.stage1 = _)
      unfold stage1
      cases state : c.state <;> simp [state] at up ⊢ <;> grind

theorem enable_step {m : Masters} {i : MastersIn} (exclusive : Exclusive m i) (dispatch : Dispatch m)
    (enables : m.ctrl.EnableScoped) : (m.step i).ctrl.EnableScoped := by
  intro lane up
  obtain ⟨kept, before⟩ := m.ctrl.step_mEnable (m.ctrlIn i) lane exclusive.running up
  have inside : (m.ctrl.stage lane).dispatched = true := by
    rcases before with on | running
    · exact enables lane on
    · rw [running]
      rfl
  have moved := dispatch_lane exclusive dispatch lane
  generalize (m.step i).ctrl.stage lane = after at moved ⊢
  generalize m.ctrl.stage lane = stage at moved kept inside
  cases moved with
  | rest | opened | stalled | loaded | dispatched => simp [Stage.dispatched] at inside ⊢
  | retired => exact absurd rfl kept
  | runs | reports | skips | writes | written | waits | closed => rfl

theorem enable_reset (m : Masters) : m.reset.ctrl.EnableScoped := by
  intro lane up
  match lane with
  | 0 => exact absurd up Bool.false_ne_true
  | 1 => exact absurd up Bool.false_ne_true

theorem enable_reachable (m : Masters) (reached : Clocked.Reachable Masters.step Exclusive AfterReset m) : m.ctrl.EnableScoped := by
  have both := Clocked.invariant_reachable Masters.step Exclusive AfterReset (fun m => Dispatch m ∧ m.ctrl.EnableScoped)
    (by rintro _ ⟨powerOn, rfl⟩; exact ⟨dispatch_reset powerOn, enable_reset powerOn⟩)
    (fun m i both exclusive => ⟨dispatch_step m i both.1 exclusive, enable_step exclusive both.1 both.2⟩) m reached
  exact both.2

theorem Ctrl.Serves.complete {c : Ctrl} {lane : Fin 2} {job : JobDesc} {loaded : Nat} (serves : c.Serves lane job loaded)
    (inside : (c.stage lane).dispatched = true) : 4 ≤ loaded := by
  cases serves with
  | waiting free => simp [free, Stage.dispatched] at inside
  | loading _ _ _ stage => simp [stage, Stage.dispatched] at inside
  | running => exact Nat.le_refl 4

theorem mReset_step {m : Masters} {i : MastersIn} (exclusive : Exclusive m i) (lane : Fin 2) :
    (m.step i).ctrl.mReset lane = m.ctrl.ssDone lane := by
  change (m.ctrl.step (m.ctrlIn i)).mReset lane = m.ctrl.ssDone lane
  rw [Ctrl.step_running _ _ exclusive.running]
  match lane with
  | 0 => rfl
  | 1 => rfl

theorem Ctrl.Serves.notReset {m : Masters} {i : MastersIn} {lane : Fin 2} {job : JobDesc} {loaded : Nat}
    (serves : m.ctrl.Serves lane job loaded) (exclusive : Exclusive m i) (dispatch : Dispatch m) :
    (m.step i).ctrl.mReset lane = false := (mReset_step exclusive lane).trans (serves.notDone exclusive dispatch)

structure ChannelDriven (lane : Fin 2) (job : JobDesc) (s : Masters × Nat) (i : MastersIn) : Prop where
  engines : ∀ k, laneOf k = lane →
    s.1.sgIn i k = sgIn (job.cmd s.2 (s.1.lines i lane)) (i.bus k.castSucc).busIn (i.ch k).ssStart (i.ch k).ssEnd (i.ch k).ssStop
  enable : (s.1.lines i lane).mEnable = true → 4 ≤ s.2
  noReset : (s.1.step i).ctrl.mReset lane = false

theorem ctrl_drives_channel (lane : Fin 2) (job : JobDesc) (start : Masters)
    (reached : Clocked.Reachable Masters.step Exclusive AfterReset start) (free : start.ctrl.stage lane = .free) (inputs : List MastersIn)
    (periods : Clocked.Admits (Clocked.watch Masters.step (countWords lane)) (JobPeriod lane job) (start, 0) inputs) :
    Clocked.Admits (Clocked.watch Masters.step (countWords lane)) (ChannelDriven lane job) (start, 0) inputs :=
  Clocked.admits_of_invariant (Clocked.watch Masters.step (countWords lane)) (JobPeriod lane job) (ChannelDriven lane job)
    (fun s => Serving lane job s ∧ s.1.ctrl.EnableScoped)
    (fun s i both period => ⟨serving_step lane job s i both.1 period, enable_step period.exclusive both.1.toDispatch both.2⟩)
    (fun _ _ both period =>
      { engines := fun k here => both.1.serves.sgIn period.exclusive both.1.toDispatch period.carried k here
        enable := fun up => both.1.serves.complete (both.2 lane up)
        noReset := both.1.serves.notReset period.exclusive both.1.toDispatch })
    (start, 0) inputs ⟨⟨dispatch_reachable start reached, .waiting free⟩, enable_reachable start reached⟩ periods

instance (lane : Fin 2) (job : JobDesc) (s : Masters × Nat) (i : MastersIn) : Decidable (JobPeriod lane job s i) :=
  decidable_of_iff (Exclusive s.1 i ∧ (s.1.ctrl.ssWe (s.1.ctrlIn i) lane = true → (i.bus 4).dat = job.word s.2) ∧
      (s.1.step i).ctrl.stage lane ≠ .closing)
    ⟨fun all => ⟨all.1, all.2.1, all.2.2⟩, fun period => ⟨period.exclusive, period.carried, period.goesOn⟩⟩

def afterPower : Masters := Masters.reset ⟨fun _ => default, default⟩

def handedOver : List MastersIn := [.start 0x20, .quiet, .ack 0x180, .ack 0x400, .ack 0x1000, .ack 0x2000, .quiet, .quiet]

theorem channel_driven_handed_over :
    (Clocked.run (Clocked.watch Masters.step (countWords 0)) (afterPower, 0) handedOver).2 = 4 ∧
    (Clocked.run (Clocked.watch Masters.step (countWords 0)) (afterPower, 0) handedOver).1.ctrl.mEnable 0 = true ∧
    Clocked.Admits (Clocked.watch Masters.step (countWords 0)) (ChannelDriven 0 ⟨0x180, 0x400, 0x1000, 0x2000⟩) (afterPower, 0)
      handedOver :=
  ⟨by decide +kernel, by decide +kernel, ctrl_drives_channel 0 ⟨0x180, 0x400, 0x1000, 0x2000⟩ afterPower
    ⟨_, [], ⟨_, rfl⟩, trivial, rfl⟩ (by decide +kernel) handedOver (by decide +kernel)⟩

end SsAdma
