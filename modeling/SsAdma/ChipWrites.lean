import SsAdma.ChipLane

set_option autoImplicit false

namespace SsAdma

section

variable {plan : BitVec 29 → CopyPlan} {s : Chip} {lane : Fin 2} {note : Option CopyNote}

theorem LaneHolds.srcQuiet (holds : LaneHolds plan s lane note) : (s.masters.sg (srcOf lane)).Quiet := by
  cases holds with
  | free _ closed => exact SsSg.Resting.quiet ⟨closed.src.idle, closed.src.down⟩
  | working n _ works =>
      obtain ⟨qs, qd, written, copying⟩ := works.copying
      exact copying.src.onJob.writing.trans (Bool.and_false _)
  | closing _ _ _ src _ => exact src
  | retiring _ _ _ src => exact src.quiet

theorem LaneHolds.dstWrites (holds : LaneHolds plan s lane note) (writes : ¬ (s.masters.sg (dstOf lane)).Quiet) :
    ∃ n, note = some n ∧ (s.masters.sg (dstOf lane)).wbsAdrR ∈ (plan n.desc).dst := by
  cases holds with
  | free _ closed => exact absurd (SsSg.Resting.quiet ⟨closed.dst.idle, closed.dst.down⟩) writes
  | closing _ _ _ _ dst => exact absurd dst writes
  | retiring _ _ _ _ dst => exact absurd dst.quiet writes
  | working n _ works =>
      obtain ⟨qs, qd, written, copying⟩ := works.copying
      have moving : (s.masters.sg (dstOf lane)).state = .sBReq := by
        by_contra other
        exact writes (copying.dst.onJob.writing.trans (by simp [show (s.bench lane n.loaded).chan.dst.state ≠ .sBReq from other]))
      obtain ⟨inside, address⟩ := copying.dst.onJob.address moving
      refine ⟨n, rfl, ?_⟩
      rw [show (s.masters.sg (dstOf lane)).wbsAdrR = (plan n.desc).dst[written] from address]
      exact List.getElem_mem inside

end

theorem Ctrl.writes_lane (c : Ctrl) (writes : c.state.writes = true) : ∃ lane, c.stage lane = .writing := by
  cases state : c.state with
  | sCtl0 => exact ⟨0, by simp [Ctrl.stage, Ctrl.stage0, state]⟩
  | sCtl1 => exact ⟨1, by simp [Ctrl.stage, Ctrl.stage1, state]⟩
  | _ => simp [state, CtrlState.writes] at writes

theorem engine_cases (k : Fin 4) : ∃ lane, k = srcOf lane ∨ k = dstOf lane := by
  revert k
  decide

theorem master_cases (k : Fin 5) : k = 4 ∨ ∃ j : Fin 4, k = j.castSucc := by
  by_cases ctrl : k = 4
  · exact .inl ctrl
  · exact .inr ⟨k.castLT (by omega), by simp⟩

inductive ChipWrite (plan : BitVec 29 → CopyPlan) (notes : Fin 2 → Option CopyNote) (owner : Fin 5) : BitVec 29 → Prop
  | data (lane : Fin 2) (n : CopyNote) (adr : BitVec 29) (engine : owner = (dstOf lane).castSucc) (noted : notes lane = some n)
      (listed : adr ∈ (plan n.desc).dst) : ChipWrite plan notes owner adr
  | status (lane : Fin 2) (n : CopyNote) (word : BitVec 2) (adr : BitVec 29) (ctrl : owner = 4) (noted : notes lane = some n)
      (address : adr = statusAt n.mem n.desc + word.setWidth 29) : ChipWrite plan notes owner adr

section

variable {plan : BitVec 29 → CopyPlan} {s : Chip} {notes : Fin 2 → Option CopyNote} {i : SharedIn}

theorem Chip.writes_owned {owner : Fin 5} (holds : ChipHolds plan (s, notes)) (fair : SlaveFair s i) (owned : s.Owned i owner)
    (cycle : BitVec 29 × BitVec 64) (written : cycle ∈ s.writes i) : ChipWrite plan notes owner cycle.1 := by
  unfold writes at written
  split at written
  · rename_i active
    simp only [Bool.and_eq_true] at active
    obtain ⟨⟨_, cyc⟩, we⟩ := active
    have address : cycle.1 = (s.request i).word := by rw [List.mem_singleton.mp written]
    rcases master_cases owner with rfl | ⟨k, rfl⟩
    · obtain ⟨sameCyc, sameWe, word⟩ := Chip.request_ctrl fair owned
      have direction := holds.dispatch.bus.direction (sameCyc.symm.trans cyc)
      obtain ⟨lane, stage⟩ := s.ctrl.writes_lane (direction.symm.trans (sameWe.symm.trans we))
      have inLane : LaneHolds plan s lane (notes lane) := holds.lanes lane
      generalize noted : notes lane = note at inLane
      cases inLane with
      | working n _ works =>
          exact .status lane n s.ctrl.inc _ rfl noted (by rw [address, word, (works.writing stage).2])
      | free other => simp [other] at stage
      | closing _ other => simp [other] at stage
      | retiring _ other => simp [other] at stage
    · obtain ⟨sameCyc, sameWe, word, _⟩ := Chip.request_engine fair k owned
      have active : ¬ (s.masters.sg k).Quiet := by
        rw [SsSg.Quiet, ← sameCyc, ← sameWe, cyc, we]
        decide
      obtain ⟨lane, rfl | rfl⟩ := engine_cases k
      · exact absurd (holds.lanes lane).srcQuiet active
      · obtain ⟨n, noted, listed⟩ := (holds.lanes lane).dstWrites active
        exact .data lane n cycle.1 rfl noted (by rw [address, word]; exact listed)
  · simp at written

theorem Chip.bench_writes {owner : Fin 5} (fair : SlaveFair s i) (ack : i.slave.ack = true) (owned : s.Owned i owner)
    (lane : Fin 2) (loaded : ℕ) :
    (s.bench lane loaded).writes (s.benchIn i lane) = if owner = (dstOf lane).castSucc then s.writes i else [] := by
  have acked : (s.bus i (dstOf lane)).resp.isAck = decide ((dstOf lane).castSucc = owner) := by
    rw [← owned.heard]
    cases heard : ((s.mastersIn i).bus (dstOf lane).castSucc).ack with
    | true => simp [(busIn_acked _).mpr heard, bus, Resp.isAck]
    | false =>
        have other : (s.bus i (dstOf lane)).resp ≠ .ack := fun ack => by
          simp [(busIn_acked _).mp ack] at heard
        cases resp : (s.bus i (dstOf lane)).resp <;> simp_all [Resp.isAck]
  change SsSg.writeCycle _ _ (s.bus i (dstOf lane)) = _
  rw [SsSg.writeCycle, acked]
  by_cases mine : owner = (dstOf lane).castSucc
  · subst mine
    obtain ⟨cyc, we, word, dat⟩ := Chip.request_engine fair (dstOf lane) owned
    have line : (s.chLines false (dstOf lane)).dat = (s.ch lane).dst.dout.data := by
      simp only [chLines, writer_dstOf, laneOf_dstOf, if_true]
      rfl
    rw [line] at dat
    simp only [writes, ack, cyc, we, word, dat]
    simp [bench, chan]
  · simp [mine, Ne.symm mine]

theorem Chip.still (ack : i.slave.ack = false) (lane : Fin 2) (loaded : ℕ) :
    s.writes i = [] ∧ (s.bench lane loaded).writes (s.benchIn i lane) = [] := by
  have other : (s.bus i (dstOf lane)).resp.isAck = false := by
    have unheard := s.silent i ack (dstOf lane).castSucc
    cases resp : (s.bus i (dstOf lane)).resp with
    | ack => exact absurd ((busIn_acked _).mp resp) (by simp [unheard])
    | wait => rfl
    | rty => rfl
  refine ⟨by simp [writes, ack], ?_⟩
  change SsSg.writeCycle _ _ (s.bus i (dstOf lane)) = _
  rw [SsSg.writeCycle, other, Bool.and_false]
  rfl

theorem Chip.mem_step (holds : ChipHolds plan (s, notes)) (period : ChipPeriod plan (s, notes) i) (lane : Fin 2) (n : CopyNote)
    (noted : notes lane = some n) (job : JobDesc) (loaded : ℕ) (adr : BitVec 29)
    (inside : (plan n.desc).kept adr ∨ adr ∈ (plan n.desc).dst) :
    (s.step i).mem adr = ((s.bench lane loaded).step job (s.benchIn i lane)).mem adr := by
  change (s.writes i).foldl Mem.write s.mem adr = ((s.bench lane loaded).writes (s.benchIn i lane)).foldl Mem.write s.mem adr
  cases ack : i.slave.ack with
  | false =>
      obtain ⟨none, alone⟩ := Chip.still ack lane loaded
      rw [none, alone]
  | true =>
      obtain ⟨owner, owned⟩ := Chip.owned holds.granted period.fair ack
      rw [Chip.bench_writes period.fair ack owned lane loaded]
      by_cases mine : owner = (dstOf lane).castSucc
      · rw [if_pos mine]
      · rw [if_neg mine]
        refine Mem.write_untouched s.mem _ adr (fun member => ?_)
        obtain ⟨cycle, written, same⟩ := List.mem_map.mp member
        have spared : (plan n.desc).Spares cycle.1 := by
          cases Chip.writes_owned holds period.fair owned cycle written with
          | data other m adr engine notedToo listed =>
              have different : other ≠ lane := fun same => mine (by rw [engine, same])
              exact period.apart other lane m n different notedToo noted _ listed
          | status other m word adr _ notedToo address =>
              rw [address]
              exact period.status other lane m n notedToo noted word
        rw [same] at spared
        exact inside.elim spared.1 spared.2

end

end SsAdma
