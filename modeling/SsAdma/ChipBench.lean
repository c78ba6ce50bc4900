import SsAdma.Chip

set_option autoImplicit false

namespace SsAdma

structure SlaveFair (s : Chip) (i : SharedIn) : Prop where
  running : i.lines.wbRst = false
  noError : i.slave.err = false
  answered : i.slave.ack = true → i.slave.rty = false ∧ (s.request i).cyc = true
  settled : i.slave.ack = true → s.shared.bus.gntR = s.shared.bus.gnt

instance (s : Chip) (i : SharedIn) : Decidable (SlaveFair s i) :=
  decidable_of_iff (i.lines.wbRst = false ∧ i.slave.err = false ∧
      (i.slave.ack = true → i.slave.rty = false ∧ (s.request i).cyc = true) ∧
      (i.slave.ack = true → s.shared.bus.gntR = s.shared.bus.gnt))
    ⟨fun all => ⟨all.1, all.2.1, all.2.2.1, all.2.2.2⟩, fun fair => ⟨fair.running, fair.noError, fair.answered, fair.settled⟩⟩

theorem Masters.masterBus_bus (m : Masters) (i : MastersIn) (bus : Fin 5 → SlaveBus) (k : Fin 5) :
    m.masterBus { i with bus := bus } k = m.masterBus i k := by
  unfold masterBus
  split <;> rfl

theorem Chip.answer_lines (s : Chip) (i : SharedIn) :
    (s.answer i).ack = i.slave.ack ∧ (s.answer i).err = i.slave.err ∧ (s.answer i).rty = i.slave.rty := by
  unfold answer
  split <;> exact ⟨rfl, rfl, rfl⟩

structure Chip.Owned (s : Chip) (i : SharedIn) (owner : Fin 5) : Prop where
  request : s.request i = s.masters.masterBus (s.lines i) owner
  heard : ∀ k, ((s.mastersIn i).bus k).ack = decide (k = owner)

theorem Chip.owned {s : Chip} {i : SharedIn} (granted : s.shared.bus.Granted) (fair : SlaveFair s i)
    (ack : i.slave.ack = true) : ∃ owner, s.Owned i owner := by
  obtain ⟨owner, driver, hot⟩ := granted
  have driven : s.shared.bus.gntR = grant owner := (fair.settled ack).trans hot.gnt
  refine ⟨owner, ?_, fun k => ?_⟩
  · simp only [Chip.request, Bus.toSlave, driven, mo_grant]
  · change mi s.shared.bus.gnt (s.answer i).ack k = _
    rw [hot.gnt, mi_grant, (s.answer_lines i).1, ack, Bool.and_true]

theorem Chip.silent (s : Chip) (i : SharedIn) (ack : i.slave.ack = false) (k : Fin 5) :
    ((s.mastersIn i).bus k).ack = false := by
  change mi s.shared.bus.gnt (s.answer i).ack k = _
  rw [(s.answer_lines i).1, ack]
  unfold mi
  split <;> rfl

theorem Chip.exclusive {s : Chip} {i : SharedIn} (granted : s.shared.bus.Granted) (fair : SlaveFair s i) :
    Exclusive s.masters (s.mastersIn i) where
  running := fair.running
  noError _ := (s.answer_lines i).2.1.trans fair.noError
  answered := by
    intro k heard
    cases ack : i.slave.ack with
    | false => exact absurd ((s.silent i ack k).symm.trans heard) Bool.false_ne_true
    | true =>
        obtain ⟨owner, owned⟩ := Chip.owned granted fair ack
        obtain ⟨noRetry, driven⟩ := fair.answered ack
        rw [owned.heard k] at heard
        obtain rfl : k = owner := of_decide_eq_true heard
        refine ⟨(s.answer_lines i).2.2.trans noRetry, ?_⟩
        rw [owned.request] at driven
        change (s.masters.masterBus { s.lines i with bus := _ } k).cyc = true
        rw [Masters.masterBus_bus]
        exact driven

theorem MasterBus.word_engine (adr : BitVec 29) : wordAddr (adr ++ (0 : BitVec 3)) = adr := BitVec.extractLsb'_append_eq_left

theorem Chip.request_engine {s : Chip} {i : SharedIn} (fair : SlaveFair s i) (k : Fin 4) (owned : s.Owned i k.castSucc) :
    (s.request i).cyc = (s.masters.sg k).wbsCyc ∧ (s.request i).we = (s.masters.sg k).wbsWe ∧
      (s.request i).word = (s.masters.sg k).wbsAdrR ∧
      (s.request i).dat64 ++ (s.request i).dat = (s.chLines false k).dat := by
  have running : (s.lines i).wbRst = false := fair.running
  have inside : (k.castSucc).val < 4 := k.isLt
  have channel : (s.lines i).ch = s.chLines false := by
    change s.chLines i.lines.wbRst = _
    rw [fair.running]
  have bus : s.request i = { cyc := (s.masters.sg k).wbsCyc, we := (s.masters.sg k).wbsWe, pref := (s.masters.sg k).wbsPref
                             adr := (s.masters.sg k).wbsAdrR ++ (0 : BitVec 3)
                             dat := (s.chLines false k).dat.extractLsb' 0 32
                             dat64 := (s.chLines false k).dat.extractLsb' 32 32 } := by
    rw [owned.request, Masters.masterBus, dif_pos inside, running]
    simp only [channel]
    rfl
  rw [bus]
  exact ⟨rfl, rfl, MasterBus.word_engine _, BitVec.extractLsb'_append_extractLsb'⟩

theorem Chip.request_ctrl {s : Chip} {i : SharedIn} (fair : SlaveFair s i) (owned : s.Owned i 4) :
    (s.request i).cyc = s.ctrl.wbsCyc4 ∧ (s.request i).we = s.ctrl.wbsWe4 ∧ (s.request i).word = s.ctrl.wbsAdr4R := by
  have running : (s.lines i).wbRst = false := fair.running
  have outside : ¬ (4 : Fin 5).val < 4 := by decide
  rw [owned.request, Masters.masterBus, dif_neg outside, running]
  exact ⟨rfl, rfl, MasterBus.word_engine _⟩

theorem Chip.read_word {s : Chip} {i : SharedIn} (ack : i.slave.ack = true) (reads : (s.request i).we = false) (k : Fin 5) :
    ((s.mastersIn i).bus k).dat = (s.mem (s.request i).word).extractLsb' 0 32 ∧
      ((s.mastersIn i).bus k).dat64 = (s.mem (s.request i).word).extractLsb' 32 32 := by
  have answered : s.answer i = { i.slave with dat := (s.mem (s.request i).word).extractLsb' 0 32
                                              dat64 := (s.mem (s.request i).word).extractLsb' 32 32 } := by
    rw [answer, if_pos (by rw [ack, reads]; rfl)]
  change (s.answer i).dat = _ ∧ (s.answer i).dat64 = _
  rw [answered]
  exact ⟨rfl, rfl⟩

theorem SsSg.step_deaf (rw : Bool) (r : SsSg) (cmd : ChanCmd) (resp : Resp) (dat : BitVec 64) (other : Resp)
    (start ended stop : Bool) (notDesc : r.state ≠ .sDReq) (notBuffer : r.state ≠ .sBReq) :
    r.comb rw (sgIn cmd ⟨resp, dat⟩ start ended stop) = r.comb rw (sgIn cmd ⟨other, dat⟩ start ended stop) ∧
      r.step rw (sgIn cmd ⟨resp, dat⟩ start ended stop) = r.step rw (sgIn cmd ⟨other, dat⟩ start ended stop) := by
  have same : r.comb rw (sgIn cmd ⟨resp, dat⟩ start ended stop) = r.comb rw (sgIn cmd ⟨other, dat⟩ start ended stop) := by
    cases state : r.state with
    | sDReq => exact absurd state notDesc
    | sBReq => exact absurd state notBuffer
    | _ => simp only [comb, state] <;> rfl
  refine ⟨same, ?_⟩
  rw [step_running rw r _ rfl, step_running rw r _ rfl, same]
  rfl

inductive SsSg.Heard (r : SsSg) (bus : BusIn) : BusIn → Prop
  | whole : Heard r bus bus
  | deaf (resp : Resp) (notDesc : r.state ≠ .sDReq) (notBuffer : r.state ≠ .sBReq) : Heard r bus ⟨resp, bus.dat⟩

theorem SsSg.Heard.same {r : SsSg} {bus heard : BusIn} (hears : r.Heard bus heard) (rw : Bool) (cmd : ChanCmd)
    (start ended stop : Bool) :
    r.comb rw (sgIn cmd heard start ended stop) = r.comb rw (sgIn cmd bus start ended stop) ∧
      r.step rw (sgIn cmd heard start ended stop) = r.step rw (sgIn cmd bus start ended stop) ∧ heard.dat = bus.dat := by
  cases hears with
  | whole => exact ⟨rfl, rfl, rfl⟩
  | deaf resp notDesc notBuffer =>
      obtain ⟨out, next⟩ := r.step_deaf rw cmd resp bus.dat bus.resp start ended stop notDesc notBuffer
      exact ⟨out, next, rfl⟩

theorem Chan.step_heard (c : Chan) (cmd : ChanCmd) (srcBus dstBus srcHeard dstHeard : BusIn) (src : c.src.Heard srcBus srcHeard)
    (dst : c.dst.Heard dstBus dstHeard) : c.step cmd srcHeard dstHeard = c.step cmd srcBus dstBus := by
  obtain ⟨srcOut, srcNext, srcDat⟩ := src.same false cmd (c.ch.live cmd.mReset).srcStart (c.ch.live cmd.mReset).srcEnd
    (c.ch.live cmd.mReset).srcStop
  obtain ⟨dstOut, dstNext, _⟩ := dst.same true cmd
    ((c.ch.live cmd.mReset).dstStart (c.copy.out (SsAdma.modIn cmd (c.ch.live cmd.mReset))).mEndn)
    (c.ch.live cmd.mReset).dstEnd (c.ch.live cmd.mReset).dstStop
  simp only [Chan.step, srcOut, srcNext, dstOut, dstNext]
  simp only [sgIn, srcDat]

def Chip.bench (s : Chip) (lane : Fin 2) (loaded : ℕ) : Bench := ⟨s.chan lane, s.mem, loaded⟩

def Chip.benchIn (s : Chip) (i : SharedIn) (lane : Fin 2) : BenchIn where
  lines := s.masters.lines (s.mastersIn i) lane
  src := s.bus i (srcOf lane)
  dst := s.bus i (dstOf lane)

theorem BusIn.same {a b : BusIn} (resp : a.resp = b.resp) (dat : a.dat = b.dat) : a = b := by
  cases a
  cases b
  simp_all

theorem busIn_acked (b : SlaveBus) : b.busIn.resp = .ack ↔ b.ack = true := by
  unfold SlaveBus.busIn
  cases b.ack <;> cases b.rty <;> simp

theorem Chip.hears {s : Chip} {i : SharedIn} (granted : s.shared.bus.Granted) (fair : SlaveFair s i) (k : Fin 4)
    (inside : (s.masters.sg k).CycScoped) :
    (s.masters.sg k).Heard (s.bus i k) ((s.masters.sg k).answer s.mem (s.bus i k)) := by
  by_cases acked : (s.bus i k).resp = .ack
  · have heard : ((s.mastersIn i).bus k.castSucc).ack = true := (busIn_acked _).mp acked
    have cyc : (s.masters.sg k).wbsCyc = true := by
      have up := ((Chip.exclusive granted fair).answered _ heard).2
      have running : (s.mastersIn i).wbRst = false := fair.running
      have engine : (k.castSucc).val < 4 := k.isLt
      rw [Masters.masterBus, dif_pos engine, running] at up
      exact up
    have ack : i.slave.ack = true := by
      by_contra none
      exact absurd ((s.silent i (by simpa using none) k.castSucc).symm.trans heard) Bool.false_ne_true
    obtain ⟨owner, owned⟩ := Chip.owned granted fair ack
    obtain rfl : k.castSucc = owner := of_decide_eq_true ((owned.heard _).symm.trans heard)
    obtain ⟨_, we, word, _⟩ := Chip.request_engine fair k owned
    have same : (s.masters.sg k).answer s.mem (s.bus i k) = s.bus i k := by
      cases write : (s.masters.sg k).wbsWe with
      | true => simp [SsSg.answer, cyc, write]
      | false =>
          obtain ⟨low, high⟩ := Chip.read_word ack (we.trans write) k.castSucc
          have dat : (s.bus i k).dat = s.mem (s.masters.sg k).wbsAdrR := by
            simp only [bus, SlaveBus.busIn, low, high, word]
            exact BitVec.extractLsb'_append_extractLsb'
          exact BusIn.same (by simp [SsSg.answer, cyc]) (by simp [SsSg.answer, write, acked, dat])
    rw [same]
    exact .whole
  · have dat : ((s.masters.sg k).answer s.mem (s.bus i k)).dat = (s.bus i k).dat := by simp [SsSg.answer, acked]
    cases cyc : (s.masters.sg k).wbsCyc with
    | true =>
        have same : (s.masters.sg k).answer s.mem (s.bus i k) = s.bus i k := by simp [SsSg.answer, cyc, acked]
        rw [same]
        exact .whole
    | false =>
        have waits : (s.masters.sg k).answer s.mem (s.bus i k) = ⟨.wait, (s.bus i k).dat⟩ := by simp [SsSg.answer, cyc, acked]
        rw [waits]
        rw [SsSg.CycScoped, cyc] at inside
        refine .deaf .wait ?_ ?_ <;> intro state <;> simp [state] at inside

theorem Chip.cmd_job {s : Chip} {i : SharedIn} {lane : Fin 2} {job : JobDesc} {loaded : ℕ}
    (exclusive : Exclusive s.masters (s.mastersIn i)) (dispatch : Dispatch s.masters) (serves : s.ctrl.Serves lane job loaded)
    (carried : s.ctrl.ssWe (s.masters.ctrlIn (s.mastersIn i)) lane = true → ((s.mastersIn i).bus 4).dat = job.word loaded)
    (notReset : s.ctrl.mReset lane = false) : s.cmd i lane = job.cmd loaded (s.benchIn i lane).lines := by
  have direct := Masters.sgIn_cmd exclusive (srcOf lane)
  rw [laneOf_srcOf] at direct
  have byJob := direct.symm.trans (serves.sgIn exclusive dispatch carried (srcOf lane) (laneOf_srcOf lane))
  have dat := congrArg SsSgIn.ssDat byJob
  have we := congrArg SsSgIn.ssWe byJob
  have adr := congrArg SsSgIn.ssAdr byJob
  have done := congrArg SsSgIn.ssDone byJob
  have dc := congrArg SsSgIn.ssDc byJob
  change ChanCmd.mk (s.cmd i lane).ssDat (s.cmd i lane).ssWe (s.cmd i lane).ssAdr (s.cmd i lane).ssDone (s.cmd i lane).dc
    (s.ctrl.mReset lane) (s.ctrl.mEnable lane) = _
  simp only [sgIn] at dat we adr done dc
  rw [notReset]
  exact ChanCmd.mk.injEq .. ▸ ⟨dat, we, adr, done, dc, rfl, rfl⟩

theorem Chip.bench_step {s : Chip} {i : SharedIn} {lane : Fin 2} {job : JobDesc} {loaded : ℕ} (granted : s.shared.bus.Granted)
    (fair : SlaveFair s i) (dispatch : Dispatch s.masters) (serves : s.ctrl.Serves lane job loaded)
    (carried : s.ctrl.ssWe (s.masters.ctrlIn (s.mastersIn i)) lane = true → ((s.mastersIn i).bus 4).dat = job.word loaded)
    (notReset : s.ctrl.mReset lane = false) :
    ((s.bench lane loaded).step job (s.benchIn i lane)).chan = (s.step i).chan lane := by
  have exclusive := Chip.exclusive granted fair
  rw [s.chan_step i exclusive lane, Chip.cmd_job exclusive dispatch serves carried notReset]
  exact Chan.step_heard _ _ _ _ _ _ (Chip.hears granted fair (srcOf lane) (dispatch.engines _))
    (Chip.hears granted fair (dstOf lane) (dispatch.engines _))

end SsAdma
