import SsAdma.DstWrites

set_option autoImplicit false

namespace SsAdma

structure EndNote where
  transferred : Bool
  seen : Bool

def DstBench.noteEnd (b : DstBench) (n : EndNote) (i : DstBenchIn) : EndNote where
  transferred := n.transferred || decide (b.dst.state = .sBReq ∧ (b.dst.answer b.mem i.bus).resp = .ack)
  seen := n.seen || n.transferred && b.ch.dstEnd && (decide (b.dst.state = .sBWait) || decide (b.dst.state = .sNext))

def EndStops (pair : DstBench × EndNote) : Prop :=
  pair.2.seen = true → pair.1.dst.state = .sEnd ∧ pair.1.dst.wbsCyc = false

instance : DecidablePred EndStops := fun _ => inferInstanceAs (Decidable (_ → _))

-- What S_NEXT gets wrong: ss_end behind a segment that is not the last one.
def EndsWithList (pair : DstBench × EndNote) (_ : DstBenchIn) : Prop :=
  pair.1.dst.state = .sNext → pair.2.transferred = true → pair.1.ch.dstEnd = true → pair.1.dst.sgLast = true

instance (pair : DstBench × EndNote) (i : DstBenchIn) : Decidable (EndsWithList pair i) := inferInstanceAs (Decidable (_ → _))

structure SsSg.Remembers (r : SsSg) : Prop where
  loaded : r.state ≠ .sIdle ∧ r.state ≠ .sCmd
  between : r.state = .sNext ∨ r.state = .sDReq ∨ r.state = .sBWait → r.io = true

structure EndTracked (pair : DstBench × EndNote) : Prop where
  cyc : pair.1.dst.CycScoped
  remembers : pair.2.transferred = true → pair.1.dst.Remembers

section

variable (rw : Bool) (r : SsSg) (cmd : ChanCmd) (bus : BusIn) (start ended stop : Bool)

theorem SsSg.remembers_ack (notDone : cmd.ssDone = false) (state : r.state = .sBReq) (resp : bus.resp = .ack) :
    (r.step rw (sgIn cmd bus start ended stop)).Remembers := by
  rw [step_sBReq_ack rw r cmd bus start ended stop notDone state resp]
  refine ⟨?_, fun _ => rfl⟩
  dsimp only
  split_ifs <;> decide

theorem SsSg.remembers_step (notDone : cmd.ssDone = false) (remembers : r.Remembers) :
    (r.step rw (sgIn cmd bus start ended stop)).Remembers := by
  have between := remembers.between
  cases state : r.state with
  | sIdle => exact absurd state remembers.loaded.1
  | sCmd => exact absurd state remembers.loaded.2
  | sDReq =>
      have io := between (by simp [state])
      rw [step_sDReq rw r cmd bus start ended stop notDone state]
      split_ifs
      · exact ⟨by simp, fun _ => io⟩
      · exact ⟨by simp [state], fun _ => io⟩
      · exact ⟨by simp [state], fun _ => io⟩
  | sBReq =>
      by_cases resp : bus.resp = .ack
      · exact r.remembers_ack rw cmd bus start ended stop notDone state resp
      · rw [step_sBReq_hold rw r cmd bus start ended stop notDone state resp]
        cases io : r.io with
        | true => exact ⟨by simp, fun _ => rfl⟩
        | false => exact ⟨by simp, by simp⟩
  | sBWait =>
      have io := between (by simp [state])
      rw [step_sBWait rw r cmd bus start ended stop notDone state]
      split_ifs
      · exact ⟨by simp, by simp⟩
      · exact ⟨by simp, by simp⟩
      · exact ⟨by simp [state], fun _ => io⟩
  | sNext =>
      have io := between (by simp [state])
      rw [step_sNext rw r cmd bus start ended stop notDone state]
      split_ifs
      · exact ⟨by simp, by simp⟩
      · exact ⟨by simp, fun _ => io⟩
  | sEnd =>
      rw [step_sEnd rw r cmd bus start ended stop notDone state]
      exact ⟨by simp [state], by simp [state]⟩
  | sPanic =>
      have stuck : (r.step rw (sgIn cmd bus start ended stop)).state = .sPanic := by
        rw [step_running rw r _ rfl]
        simp [latch, comb, hold, sgIn, notDone, state]
      exact ⟨by simp [stuck], by simp [stuck]⟩

end

theorem DstBench.step_dst (job : JobDesc) (b : DstBench) (i : DstBenchIn) :
    (b.step job i).dst = b.dst.step true (b.dstIn job i) := rfl

theorem end_tracked_step (job : JobDesc) (pair : DstBench × EndNote) (i : DstBenchIn) (tracked : EndTracked pair) :
    EndTracked (Clocked.watch (DstBench.step job) DstBench.noteEnd pair i) := by
  refine ⟨pair.1.dst.step_cycScoped true (pair.1.dstIn job i) tracked.cyc, fun transferred => ?_⟩
  change (pair.1.dst.step true (pair.1.dstIn job i)).Remembers
  rcases (Bool.or_eq_true _ _).mp transferred with before | now
  · exact pair.1.dst.remembers_step true _ _ _ _ _ rfl (tracked.remembers before)
  · obtain ⟨state, resp⟩ := of_decide_eq_true now
    exact pair.1.dst.remembers_ack true _ _ _ _ _ rfl state resp

theorem end_obeyed_iff (job : JobDesc) (pair : DstBench × EndNote) (i : DstBenchIn) (tracked : EndTracked pair)
    (stopped : EndStops pair) :
    EndStops (Clocked.watch (DstBench.step job) DstBench.noteEnd pair i) ↔ EndsWithList pair i := by
  obtain ⟨b, n⟩ := pair
  constructor
  · intro obeyed next transferred marker
    have seen : (b.noteEnd n i).seen = true := by
      change n.transferred = true at transferred
      simp only [DstBench.noteEnd]
      simp_all
    have ended := (obeyed seen).1
    change (b.step job i).dst.state = .sEnd at ended
    rw [b.step_dst job i, DstBench.dstIn, SsSg.step_sNext true b.dst _ _ _ _ _ rfl next] at ended
    cases last : b.dst.sgLast with
    | true => rfl
    | false => simp [last] at ended
  · intro allowed seen
    suffices ended : (b.step job i).dst.state = .sEnd from
      ⟨ended, (end_tracked_step job (b, n) i tracked).cyc.released ended⟩
    change (n.seen || n.transferred && b.ch.dstEnd && (decide (b.dst.state = .sBWait) || decide (b.dst.state = .sNext))) = true
      at seen
    rcases (Bool.or_eq_true _ _).mp seen with before | now
    · exact b.dst.step_end true _ rfl rfl (stopped before).1
    · simp only [Bool.and_eq_true, Bool.or_eq_true, decide_eq_true_eq] at now
      obtain ⟨⟨transferred, marker⟩, wait | next⟩ := now
      · have io := (tracked.remembers transferred).between (.inr (.inr wait))
        change b.dst.io = true at io
        rw [b.step_dst job i, DstBench.dstIn, SsSg.step_sBWait true b.dst _ _ _ _ _ rfl wait, marker, io]
        rfl
      · have last := allowed next transferred marker
        change b.dst.sgLast = true at last
        rw [b.step_dst job i, DstBench.dstIn, SsSg.step_sNext true b.dst _ _ _ _ _ rfl next, last]
        rfl

theorem end_stops_iff (job : JobDesc) (start : DstBench) (inputs : List DstBenchIn) (closed : start.dst.Closed) :
    Clocked.Always (Clocked.watch (DstBench.step job) DstBench.noteEnd) EndStops (start, ⟨false, false⟩) inputs ↔
      Clocked.Admits (Clocked.watch (DstBench.step job) DstBench.noteEnd) EndsWithList (start, ⟨false, false⟩) inputs := by
  have tracked : EndTracked (start, ⟨false, false⟩) := by
    refine ⟨?_, fun none => absurd none Bool.false_ne_true⟩
    change start.dst.CycScoped
    rw [SsSg.CycScoped, closed.down, closed.idle]
    rfl
  exact Clocked.always_iff_admits (Clocked.watch (DstBench.step job) DstBench.noteEnd) EndsWithList EndStops EndTracked
    (fun pair i tracked _ => end_tracked_step job pair i tracked) (fun pair i => end_obeyed_iff job pair i) _ inputs tracked
    (fun seen => absurd seen Bool.false_ne_true)

-- Two words fill the first segment, and the engine reads the second descriptor.
theorem boundary_end_passed :
    (streamBench linkedPair [7, 9]).dst.Closed ∧
      ¬ Clocked.Always (Clocked.watch (DstBench.step oneJob) DstBench.noteEnd) EndStops
        (streamBench linkedPair [7, 9], ⟨false, false⟩) (List.replicate 12 (period .ack false)) :=
  ⟨⟨rfl, rfl, rfl⟩, by decide +kernel⟩

theorem inner_end_stops :
    Clocked.Always (Clocked.watch (DstBench.step oneJob) DstBench.noteEnd) EndStops
      (streamBench linkedPair [7, 9, 11], ⟨false, false⟩) (List.replicate 20 (period .ack false)) :=
  (end_stops_iff oneJob (streamBench linkedPair [7, 9, 11]) (List.replicate 20 (period .ack false)) ⟨rfl, rfl, rfl⟩).mpr
    (by decide +kernel)

end SsAdma
