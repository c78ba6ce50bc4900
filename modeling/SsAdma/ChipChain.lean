import SsAdma.Chain
import SsAdma.ChipRun

set_option autoImplicit false

namespace SsAdma

def Event.given : Event → Option (BitVec 29)
  | .reads adr (some delivery) => if delivery.ssAdr = 0#2 then some adr else none
  | _ => none

def ahead (script : List Event) : List (BitVec 29) := script.filterMap Event.given

theorem ahead_append (before after : List Event) : ahead (before ++ after) = ahead before ++ ahead after := List.filterMap_append

theorem ahead_fetchRest (lane : Fin 2) (a : BitVec 29) : ∀ word : BitVec 2,
    ahead (fetchRest (some lane) a word) = if word = 0#2 then [a] else [] := by
  intro word
  rcases word_cases word with rfl | rfl | rfl | rfl <;> simp [ahead, fetchRest, readEvent, Event.given]

theorem ahead_fetchLog (lane : Fin 2) (a : BitVec 29) : ahead (fetchLog (some lane) a) = [a] := ahead_fetchRest lane a 0#2

theorem ahead_jobsLog (jobs : List (BitVec 29)) : ahead (jobsLog jobs) = jobs := by
  fun_induction jobsLog jobs with
  | case1 => rfl
  | case2 d => rw [ahead_append, ahead_fetchLog]; rfl
  | case3 d e more ih =>
      rw [ahead_append, ahead_append, ahead_append, ahead_fetchLog, ahead_fetchLog, ih]
      rfl

theorem phase_opening {mem : Mem} {final : BitVec 29} {c : Ctrl} {script : List Event} (phase : Phase mem final c script)
    (mode : c.appendMode = false) (reads : c.state.reads = true) (first : c.inc = 0#2) : c.wbsAdr4R ∈ ahead script := by
  cases phase with
  | reread _ _ append | rereadNext _ _ append => exact absurd (mode.symm.trans append) Bool.false_ne_true
  | cmd0 d more _ _ fetching | cmd1 d more _ _ fetching =>
      have address : c.wbsAdr4R = d := by simpa [first] using fetching.address
      rw [ahead_append, ahead_fetchRest, if_pos first, address]
      exact List.mem_append_left _ (List.mem_singleton_self d)
  | next0 _ _ state | next1 _ _ state => simp [state, CtrlState.reads] at reads
  | done state => simp [state, CtrlState.reads] at reads
  | alone first | both _ _ first => simp [first_not_reading first] at reads
  | second _ _ second => simp [second_not_reading second] at reads

theorem given_word {m : Masters} {i : MastersIn} (exclusive : Exclusive m i) (dispatch : Dispatch m)
    (mode : m.ctrl.appendMode = false) (reads : m.ctrl.state.reads = true) (ack : (i.bus 4).ack = true) :
    ∃ lane, m.ctrl.ssWe (m.ctrlIn i) lane = true ∧ (∀ other, m.ctrl.ssWe (m.ctrlIn i) other = true → other = lane) ∧
      m.delivery i = some ⟨lane, m.ctrl.inc, engineWord m.ctrl.inc, engineWord m.ctrl.inc⟩ := by
  cases state : m.ctrl.state with
  | sCmd0 =>
      refine ⟨0, by simp [Ctrl.ssWe, Ctrl.ssWe0, state, mode, Masters.ctrlIn, ack], Fin.forall_fin_two.mpr ⟨fun _ => rfl, ?_⟩,
        delivery_first exclusive dispatch state mode ack⟩
      intro gives
      simp [Ctrl.ssWe, Ctrl.ssWe2, state] at gives
  | sCmd1 =>
      refine ⟨1, by simp [Ctrl.ssWe, Ctrl.ssWe2, state, Masters.ctrlIn, ack], Fin.forall_fin_two.mpr ⟨?_, fun _ => rfl⟩,
        delivery_second exclusive dispatch state ack⟩
      intro gives
      simp [Ctrl.ssWe, Ctrl.ssWe0, state] at gives
  | _ => simp [state, CtrlState.reads] at reads

inductive Opens (m : Masters) (i : MastersIn) : List (BitVec 29) → Prop
  | job (lane : Fin 2) (gives : m.ctrl.ssWe (m.ctrlIn i) lane = true) (first : m.ctrl.inc = 0#2)
      (alone : ∀ other, m.ctrl.ssWe (m.ctrlIn i) other = true → other = lane) : Opens m i [m.ctrl.wbsAdr4R]
  | none (later : ∀ lane, m.ctrl.ssWe (m.ctrlIn i) lane = true → m.ctrl.inc ≠ 0#2) : Opens m i []

theorem gives_mode {m : Masters} {i : MastersIn} {lane : Fin 2} (dispatch : Dispatch m)
    (gives : m.ctrl.ssWe (m.ctrlIn i) lane = true) : m.ctrl.appendMode = false := by
  match lane with
  | 0 =>
      have first : m.ctrl.ssWe0 (m.ctrlIn i) = true := gives
      cases mode : m.ctrl.appendMode with
      | false => rfl
      | true => simp [Ctrl.ssWe0, mode] at first
  | 1 =>
      have second : m.ctrl.ssWe2 (m.ctrlIn i) = true := gives
      have state : m.ctrl.state = .sCmd1 := by
        unfold Ctrl.ssWe2 at second
        simp only [Bool.and_eq_true, beq_iff_eq] at second
        exact second.1
      exact m.ctrl.mode_outside dispatch.mode (by simp [state]) (by simp [state])

theorem append_reads {m : Masters} (dispatch : Dispatch m) (append : m.ctrl.appendMode = true)
    (reads : m.ctrl.state.reads = true) : m.ctrl.state = .sCmd0 := by
  refine (dispatch.mode append).resolve_right fun next => ?_
  rw [next] at reads
  cases reads

theorem opens_events {m : Masters} {i : MastersIn} (exclusive : Exclusive m i) (dispatch : Dispatch m) :
    Opens m i (ahead (m.events i)) := by
  by_cases reads : m.ctrl.state.reads = true
  · rw [events_reading dispatch exclusive reads]
    cases ack : (i.bus 4).ack with
    | false =>
        refine .none fun lane gives => ?_
        exact absurd ((Ctrl.gives_burst gives).2.2.symm.trans ack) (by simp)
    | true =>
        cases mode : m.ctrl.appendMode with
        | true =>
            rw [if_pos rfl, delivery_reread exclusive (append_reads dispatch mode reads) mode]
            have nothing : ahead (.reads m.ctrl.wbsAdr4R none :: if m.ctrl.inc = 3#2 then [.closes] else []) = [] := by
              split <;> rfl
            rw [nothing]
            exact .none fun lane gives => absurd ((gives_mode dispatch gives).symm.trans mode) Bool.false_ne_true
        | false =>
            obtain ⟨lane, gives, alone, delivery⟩ := given_word exclusive dispatch mode reads ack
            rw [if_pos rfl, delivery]
            by_cases first : m.ctrl.inc = 0#2
            · have opened : ahead (.reads m.ctrl.wbsAdr4R (some ⟨lane, m.ctrl.inc, engineWord m.ctrl.inc, engineWord m.ctrl.inc⟩) ::
                  if m.ctrl.inc = 3#2 then [.closes] else []) = [m.ctrl.wbsAdr4R] := by
                simp [ahead, Event.given, first]
              rw [opened]
              exact .job lane gives first alone
            · have later : ahead (.reads m.ctrl.wbsAdr4R (some ⟨lane, m.ctrl.inc, engineWord m.ctrl.inc, engineWord m.ctrl.inc⟩) ::
                  if m.ctrl.inc = 3#2 then [.closes] else []) = [] := by
                split <;> simp [ahead, Event.given, first]
              rw [later]
              exact .none fun _ _ => first
  · have silent : ∀ lane, m.ctrl.ssWe (m.ctrlIn i) lane = true → m.ctrl.inc ≠ 0#2 :=
      fun lane gives => absurd (Ctrl.gives_burst gives).2.1 reads
    have nothing : ahead (m.events i) = [] := by
      by_cases writes : m.ctrl.state.writes = true
      · rw [events_writing i dispatch writes]
        rfl
      · rw [events_released dispatch exclusive (by simpa using reads) (by simpa using writes), ahead_append]
        split <;> split_ifs <;> rfl
    rw [nothing]
    exact .none silent

structure Layout (plan : BitVec 29 → CopyPlan) (mem : Mem) (jobs : List (BitVec 29)) : Prop where
  chain : Chain mem jobs
  distinct : jobs.Nodup
  fits : ∀ d ∈ jobs, (plan d).Fits mem d
  apart : ∀ d ∈ jobs, ∀ e ∈ jobs, d ≠ e → ∀ adr ∈ (plan d).dst, (plan e).Spares adr
  status : ∀ d ∈ jobs, ∀ e ∈ jobs, ∀ word : BitVec 2, (plan e).Spares (statusAt mem d + word.setWidth 29)

def Target (plan : BitVec 29 → CopyPlan) (mem : Mem) (jobs : List (BitVec 29)) (adr : BitVec 29) : Prop :=
  ∃ d ∈ jobs, adr ∈ (plan d).dst ∨ ∃ word : BitVec 2, adr = statusAt mem d + word.setWidth 29

inductive Submitted (s : Chip) (i : SharedIn) : List (BitVec 29) → Prop
  | ndar (more : List (BitVec 29)) : i.lines.enable = true → i.lines.ndarDirty = true → i.lines.append = false →
      Submitted s i (i.lines.ndar :: more)
  | append (more : List (BitVec 29)) : i.lines.enable = true → i.lines.append = true → contOf s.mem s.ctrl.darR = true →
      Submitted s i (nextOf s.mem s.ctrl.darR :: more)

structure ChainFair (p : Chip × (Fin 2 → Option CopyNote)) (i : SharedIn) : Prop where
  busy : p.1.ctrl.state ≠ .sIdle
  fair : SlaveFair p.1 i
  fresh : ∀ lane n, p.2 lane = some n → EndIsFresh (p.1.bench lane n.loaded) (p.1.benchIn i lane)

structure ChainHolds (plan : BitVec 29 → CopyPlan) (mem : Mem) (final : BitVec 29) (jobs : List (BitVec 29))
    (p : Chip × (Fin 2 → Option CopyNote)) (opened : List (BitVec 29)) (script : List Event) : Prop where
  chip : ChipHolds plan p
  reread : p.1.ctrl.appendMode = true → ∀ word : BitVec 2, ¬ Target plan mem jobs (p.1.ctrl.darR + word.setWidth 29)
  phase : Phase mem final p.1.ctrl script
  order : jobs = opened ++ ahead script
  frame : ∀ adr, ¬ Target plan mem jobs adr → p.1.mem adr = mem adr
  noted : ∀ lane n, p.2 lane = some n → n.desc ∈ opened ∧ ∀ adr, (plan n.desc).kept adr → n.mem adr = mem adr
  different : ∀ lane other n m, lane ≠ other → p.2 lane = some n → p.2 other = some m → n.desc ≠ m.desc
  landed : ∀ d ∈ opened, (∀ lane n, p.2 lane = some n → n.desc ≠ d) → (plan d).Landed mem p.1.mem

theorem Submitted.started {s : Chip} {i : SharedIn} {jobs : List (BitVec 29)} (submitted : Submitted s i jobs) (chain : Chain s.mem jobs) :
    ∃ final ∈ jobs.getLast?, ∃ script, ahead script = jobs ∧ Started s.mem s.masters (s.mastersIn i) script final := by
  cases submitted with
  | ndar more enable dirty append =>
      exact ⟨_, List.getLast?_eq_some_getLast _, _, ahead_jobsLog _, .ndar more enable dirty append chain⟩
  | append more enable append linked =>
      refine ⟨_, List.getLast?_eq_some_getLast _, _, ?_, .resumed more enable append linked chain⟩
      rw [ahead_append, ahead_jobsLog]
      rfl

theorem Layout.kept_outside {plan : BitVec 29 → CopyPlan} {mem : Mem} {jobs : List (BitVec 29)} (layout : Layout plan mem jobs)
    (e : BitVec 29) (job : e ∈ jobs) (adr : BitVec 29) (inside : (plan e).kept adr) : ¬ Target plan mem jobs adr := by
  rintro ⟨d, other, listed | ⟨word, rfl⟩⟩
  · by_cases same : d = e
    · subst same
      exact (layout.fits d other).job.apart adr listed inside
    · exact (layout.apart d other e job same adr listed).1 inside
  · exact (layout.status d other e job word).1 inside

theorem SgList.kept_same {mem now : Mem} {kept : BitVec 29 → Prop} {adr : BitVec 29} {words : List (BitVec 29)}
    (list : SgList mem kept adr words) (same : ∀ adr, kept adr → now adr = mem adr) : SgList now kept adr words := by
  induction list with
  | last adr inside nonzero final =>
      rw [← same adr inside.1] at nonzero final ⊢
      exact .last adr inside nonzero final
  | link adr words inside nonzero linked _ next =>
      rw [← same adr inside.1] at nonzero linked ⊢
      rw [← same (adr + 1) inside.2] at next
      exact .link adr words inside nonzero linked next

theorem CopyPlan.Fits.jobAt_same {plan : CopyPlan} {mem now : Mem} {desc : BitVec 29} (fits : plan.Fits mem desc)
    (same : ∀ adr, plan.kept adr → now adr = mem adr) : jobAt now desc = jobAt mem desc ∧ statusAt now desc = statusAt mem desc := by
  have word (k : ℕ) (below : k < 4) : now (desc + BitVec.ofNat 29 k) = mem (desc + BitVec.ofNat 29 k) := same _ (fits.desc k below)
  have first : now desc = mem desc := by simpa using word 0 (by omega)
  have second : now (desc + 1) = mem (desc + 1) := word 1 (by omega)
  have third : now (desc + 2) = mem (desc + 2) := word 2 (by omega)
  have fourth : now (desc + 3) = mem (desc + 3) := word 3 (by omega)
  exact ⟨by rw [jobAt, first, second, third, fourth]; rfl, by rw [statusAt, first]; rfl⟩

theorem CopyPlan.Fits.kept_same {plan : CopyPlan} {mem now : Mem} {desc : BitVec 29} (fits : plan.Fits mem desc)
    (same : ∀ adr, plan.kept adr → now adr = mem adr) : plan.Fits now desc := by
  have job := fits.job
  refine ⟨?_, fits.desc⟩
  rw [(fits.jobAt_same same).1]
  exact { job with srcList := job.srcList.kept_same same, dstList := job.dstList.kept_same same }

section

variable {plan : BitVec 29 → CopyPlan} {mem : Mem} {final : BitVec 29} {jobs opened : List (BitVec 29)} {script : List Event}
  {s : Chip} {notes : Fin 2 → Option CopyNote} {i : SharedIn} {lane : Fin 2}

theorem Chip.mem_outside (holds : ChipHolds plan (s, notes)) (fair : SlaveFair s i) (adr : BitVec 29)
    (outside : ∀ owner, ¬ ChipWrite plan notes owner adr) : (s.step i).mem adr = s.mem adr := by
  refine Mem.write_untouched s.mem (s.writes i) adr fun member => ?_
  obtain ⟨cycle, written, rfl⟩ := List.mem_map.mp member
  have ack : i.slave.ack = true := by
    by_contra none
    simp [Chip.writes, none] at written
  obtain ⟨owner, owned⟩ := Chip.owned holds.granted fair ack
  exact outside owner (Chip.writes_owned holds fair owned cycle written)

theorem Chip.note_kept {n : CopyNote} (holds : ChipHolds plan (s, notes)) (fair : SlaveFair s i) (noted : notes lane = some n) :
    s.ctrl.stage lane = .retiring ∧ s.note notes i lane = none ∨
      ∃ m, s.note notes i lane = some m ∧ m.desc = n.desc ∧ m.mem = n.mem := by
  have moved : LaneStep lane s.ctrl (s.masters.ctrlIn (s.mastersIn i)) (s.ctrl.stage lane) ((s.step i).ctrl.stage lane) :=
    dispatch_lane (Chip.exclusive holds.granted fair) holds.dispatch lane
  have notFree : s.ctrl.stage lane ≠ .free := by
    have inLane : LaneHolds plan s lane (notes lane) := holds.lanes lane
    rw [noted] at inLane
    cases inLane with
    | working _ busy => intro free; simp [free, Stage.working] at busy
    | closing _ stage | retiring _ stage => simp [stage]
  unfold Chip.note
  cases gives : s.gives i lane with
  | true =>
      have later : s.ctrl.inc ≠ 0#2 := by
        intro first
        generalize s.ctrl.stage lane = before at moved notFree
        generalize (s.step i).ctrl.stage lane = after at moved
        cases moved with
        | rest | opened => exact notFree rfl
        | loaded _ _ other => exact other first
        | dispatched _ _ last => exact absurd (first.symm.trans last) (by decide)
        | stalled silent | runs silent | reports silent | skips silent | writes silent | written silent | waits silent
        | closed silent | retired silent => exact absurd (silent.symm.trans gives) Bool.false_ne_true
      exact .inr ⟨{ n with loaded := n.loaded + 1 }, by simp [later, noted], rfl, rfl⟩
  | false =>
      by_cases retires : s.ctrl.stage lane = .retiring
      · exact .inl ⟨retires, by simp [retires]⟩
      · exact .inr ⟨n, by simp [retires, noted], rfl, rfl⟩

theorem ChainHolds.job {n : CopyNote} (holds : ChainHolds plan mem final jobs (s, notes) opened script)
    (noted : notes lane = some n) : n.desc ∈ jobs := by
  rw [holds.order]
  exact List.mem_append_left _ (holds.noted lane n noted).1

theorem ChainHolds.statusAt_mem {n : CopyNote} (holds : ChainHolds plan mem final jobs (s, notes) opened script)
    (layout : Layout plan mem jobs) (noted : notes lane = some n) : statusAt n.mem n.desc = statusAt mem n.desc :=
  ((layout.fits n.desc (holds.job noted)).jobAt_same (holds.noted lane n noted).2).2

theorem ChainHolds.opening (holds : ChainHolds plan mem final jobs (s, notes) opened script) (gives : s.gives i lane = true)
    (first : s.ctrl.inc = 0#2) : s.ctrl.wbsAdr4R ∈ jobs := by
  rw [holds.order]
  have mode := gives_mode holds.chip.dispatch gives
  exact List.mem_append_right _ (phase_opening holds.phase mode (Ctrl.gives_burst gives).2.1 first)

theorem ChainHolds.period (holds : ChainHolds plan mem final jobs (s, notes) opened script) (layout : Layout plan mem jobs)
    (fair : ChainFair (s, notes) i) : ChipPeriod plan (s, notes) i where
  fair := fair.fair
  fits lane gives first :=
    (layout.fits _ (holds.opening gives first)).kept_same
      (fun adr inside => holds.frame adr (layout.kept_outside _ (holds.opening gives first) adr inside))
  apart lane other n m different here there :=
    layout.apart n.desc (holds.job here) m.desc (holds.job there) (holds.different lane other n m different here there)
  status lane other n m here there word := by
    rw [holds.statusAt_mem layout here]
    exact layout.status n.desc (holds.job here) m.desc (holds.job there) word
  fresh := fair.fresh

theorem ChainHolds.given_outside (holds : ChainHolds plan mem final jobs (s, notes) opened script) (layout : Layout plan mem jobs)
    (fair : SlaveFair s i) (gives : s.gives i lane = true) : ¬ Target plan mem jobs s.ctrl.wbsAdr4R := by
  have dispatch : Dispatch s.masters := holds.chip.dispatch
  by_cases first : s.ctrl.inc = 0#2
  · have job := holds.opening gives first
    exact layout.kept_outside _ job _ (by simpa using (layout.fits _ job).desc 0 (by omega))
  · rcases (dispatch_lane (Chip.exclusive holds.chip.granted fair) dispatch lane).writes_free_or_loading gives with ⟨_, zero⟩ | loading
    · exact absurd zero first
    · have inLane : LaneHolds plan s lane (notes lane) := holds.chip.lanes lane
      generalize noted : notes lane = note at inLane
      cases inLane with
      | working n _ works =>
          rw [works.address loading]
          exact layout.kept_outside _ (holds.job noted) _ ((layout.fits _ (holds.job noted)).desc n.loaded (works.serves.below loading))
      | free stage | closing _ stage | retiring _ stage => exact absurd (stage.symm.trans loading) (by decide)

theorem ChainHolds.reread_address (holds : ChainHolds plan mem final jobs (s, notes) opened script)
    (append : s.ctrl.appendMode = true) (reads : s.ctrl.state.reads = true) :
    s.ctrl.wbsAdr4R = s.ctrl.darR + s.ctrl.inc.setWidth 29 := by
  cases holds.phase with
  | reread _ _ _ fetching => exact fetching.address
  | cmd0 _ _ _ mode | next0 _ _ _ mode => exact absurd (mode.symm.trans append) Bool.false_ne_true
  | rereadNext _ state | next1 _ _ state | done state => simp [state, CtrlState.reads] at reads
  | cmd1 _ _ state =>
      have cmd := append_reads holds.chip.dispatch append reads
      exact absurd (cmd.symm.trans state) (by decide)
  | alone first | both _ _ first => simp [first_not_reading first] at reads
  | second _ _ second => simp [second_not_reading second] at reads

theorem ChainHolds.fromMemory (holds : ChainHolds plan mem final jobs (s, notes) opened script) (layout : Layout plan mem jobs)
    (fair : SlaveFair s i) : FromMemory mem s.masters (s.mastersIn i) := by
  intro ack notWrite
  have dispatch : Dispatch s.masters := holds.chip.dispatch
  have exclusive : Exclusive s.masters (s.mastersIn i) := Chip.exclusive holds.chip.granted fair
  have cyc := exclusive.ctrl_holds ack
  have reads : s.masters.ctrl.state.reads = true := by
    have either := dispatch.bus.cycle.symm.trans cyc
    rw [← dispatch.bus.direction cyc, notWrite, Bool.or_false] at either
    exact either
  have same : s.mem s.ctrl.wbsAdr4R = mem s.ctrl.wbsAdr4R := by
    cases mode : s.masters.ctrl.appendMode with
    | true =>
        rw [holds.reread_address mode reads]
        exact holds.frame _ (holds.reread mode _)
    | false =>
        obtain ⟨lane, gives, _⟩ := given_word exclusive dispatch mode reads ack
        exact holds.frame _ (holds.given_outside layout fair gives)
  obtain ⟨low, high, _⟩ := Chip.ctrl_word dispatch holds.chip.granted fair reads ack
  exact ⟨low.trans (congrArg _ same), high.trans (congrArg _ same)⟩

theorem ChainHolds.frame_step (holds : ChainHolds plan mem final jobs (s, notes) opened script) (layout : Layout plan mem jobs)
    (fair : SlaveFair s i) (adr : BitVec 29) (outside : ¬ Target plan mem jobs adr) : (s.step i).mem adr = mem adr := by
  refine (Chip.mem_outside holds.chip fair adr fun owner write => outside ?_).trans (holds.frame adr outside)
  cases write with
  | data lane n _ _ noted listed => exact ⟨n.desc, holds.job noted, .inl listed⟩
  | status lane n word _ _ noted address =>
      rw [holds.statusAt_mem layout noted] at address
      exact ⟨n.desc, holds.job noted, .inr ⟨word, address⟩⟩

theorem ChainHolds.landed_step (holds : ChainHolds plan mem final jobs (s, notes) opened script) (layout : Layout plan mem jobs)
    (fair : ChainFair (s, notes) i) (d : BitVec 29) (member : d ∈ opened)
    (retired : ∀ lane n, s.note notes i lane = some n → n.desc ≠ d) : (plan d).Landed mem (s.step i).mem := by
  have job : d ∈ jobs := by
    rw [holds.order]
    exact List.mem_append_left _ member
  by_cases before : ∃ lane n, notes lane = some n ∧ n.desc = d
  · obtain ⟨lane, n, noted, rfl⟩ := before
    rcases Chip.note_kept holds.chip fair.fair noted with ⟨stage, _⟩ | ⟨m, now, same, _⟩
    · have inLane : LaneHolds plan s lane (notes lane) := holds.chip.lanes lane
      rw [noted] at inLane
      cases inLane with
      | retiring _ _ landed _ dst _ =>
          have kept := Chip.landed_step holds.chip (holds.period layout fair) noted landed dst.quiet
          intro pair listed
          rw [kept pair listed]
          exact (holds.noted lane n noted).2 _ ((layout.fits _ job).job.sources _ (List.of_mem_zip listed).2)
      | working _ busy => simp [stage, Stage.working] at busy
      | closing _ other => simp [stage] at other
    · exact absurd same (retired lane m now)
  · intro pair listed
    have landed := holds.landed d member (fun lane n noted same => before ⟨lane, n, noted, same⟩)
    have target := (List.of_mem_zip listed).1
    refine (Chip.mem_outside holds.chip fair.fair pair.1 fun owner write => ?_).trans (landed pair listed)
    cases write with
    | data lane n _ _ noted other =>
        have different : n.desc ≠ d := fun same => before ⟨lane, n, noted, same⟩
        exact (layout.apart n.desc (holds.job noted) d job different _ other).2 target
    | status lane n word _ _ noted address =>
        rw [address, holds.statusAt_mem layout noted] at target
        exact (layout.status n.desc (holds.job noted) d job word).2 target

theorem ChainHolds.reread_step (holds : ChainHolds plan mem final jobs (s, notes) opened script) (fair : ChainFair (s, notes) i)
    (append : (s.step i).ctrl.appendMode = true) (word : BitVec 2) :
    ¬ Target plan mem jobs ((s.step i).ctrl.darR + word.setWidth 29) := by
  have dispatch : Dispatch s.masters := holds.chip.dispatch
  have exclusive : Exclusive s.masters (s.mastersIn i) := Chip.exclusive holds.chip.granted fair.fair
  have before : s.ctrl.state ≠ .sNext0 ∧ s.ctrl.appendMode = true := by
    have mode := (appendModeN_step s.ctrl (s.masters.ctrlIn (s.mastersIn i)) exclusive.running).symm.trans append
    rw [Ctrl.comb_appendModeN, if_neg fair.busy] at mode
    split at mode
    · cases mode
    · exact ⟨‹_›, mode⟩
  have state : s.ctrl.state = .sCmd0 := (dispatch.mode before.2).resolve_right before.1
  have dar : (s.step i).ctrl.darR = s.ctrl.darR := by
    refine (darN_step s.ctrl (s.masters.ctrlIn (s.mastersIn i)) exclusive.running).trans ?_
    rw [Ctrl.comb_darN, state]
  rw [dar]
  exact holds.reread before.2 word

theorem Chip.note_opens (gives : s.gives i lane = true) (first : s.ctrl.inc = 0#2) :
    s.note notes i lane = some ⟨s.ctrl.wbsAdr4R, 1, s.mem⟩ := by simp [note, gives, first]

theorem Chip.note_old {n : CopyNote} (later : s.gives i lane = true → s.ctrl.inc ≠ 0#2) (here : s.note notes i lane = some n) :
    ∃ m, notes lane = some m ∧ n.desc = m.desc ∧ n.mem = m.mem := by
  unfold Chip.note at here
  split at here
  · rename_i gives
    rw [if_neg (later gives)] at here
    obtain ⟨m, noted, rfl⟩ := Option.map_eq_some_iff.mp here
    exact ⟨m, noted, rfl, rfl⟩
  · split at here
    · cases here
    · exact ⟨n, here, rfl, rfl⟩

theorem ChainHolds.goes_on (holds : ChainHolds plan mem final jobs (s, notes) opened script) (layout : Layout plan mem jobs)
    (fair : ChainFair (s, notes) i) (rest : List Event) (phase : Phase mem final (s.step i).ctrl rest)
    (order : jobs = opened ++ ahead rest) (later : ∀ lane, s.gives i lane = true → s.ctrl.inc ≠ 0#2) :
    ChainHolds plan mem final jobs (Clocked.watch Chip.step Chip.note (s, notes) i) opened rest where
  chip := holds.chip.step (holds.period layout fair)
  reread := holds.reread_step fair
  phase := phase
  order := order
  frame := holds.frame_step layout fair.fair
  noted lane n here := by
    obtain ⟨m, noted, desc, same⟩ := Chip.note_old (later lane) here
    rw [desc, same]
    exact holds.noted lane m noted
  different lane other n m apart here there := by
    obtain ⟨n', noted, desc, _⟩ := Chip.note_old (later lane) here
    obtain ⟨m', notedToo, descToo, _⟩ := Chip.note_old (later other) there
    rw [desc, descToo]
    exact holds.different lane other n' m' apart noted notedToo
  landed := holds.landed_step layout fair

theorem ChainHolds.opens (holds : ChainHolds plan mem final jobs (s, notes) opened script) (layout : Layout plan mem jobs)
    (fair : ChainFair (s, notes) i) (rest : List Event) (phase : Phase mem final (s.step i).ctrl rest)
    (order : jobs = opened ++ (s.ctrl.wbsAdr4R :: ahead rest)) (gives : s.gives i lane = true) (first : s.ctrl.inc = 0#2)
    (alone : ∀ other, s.gives i other = true → other = lane) :
    ChainHolds plan mem final jobs (Clocked.watch Chip.step Chip.note (s, notes) i) (opened ++ [s.ctrl.wbsAdr4R]) rest := by
  have opening : s.ctrl.wbsAdr4R ∈ jobs := holds.opening gives first
  have unopened : s.ctrl.wbsAdr4R ∉ opened := by
    have distinct := layout.distinct
    rw [order] at distinct
    exact fun member => List.disjoint_of_nodup_append distinct member List.mem_cons_self
  have new : s.note notes i lane = some ⟨s.ctrl.wbsAdr4R, 1, s.mem⟩ := Chip.note_opens gives first
  have old (other : Fin 2) (n : CopyNote) (away : other ≠ lane) (here : s.note notes i other = some n) :
      ∃ m, notes other = some m ∧ n.desc = m.desc ∧ n.mem = m.mem :=
    Chip.note_old (fun up => absurd (alone other up) away) here
  -- the job that is opened is none of those under way
  have fresh (other : Fin 2) (n : CopyNote) (away : other ≠ lane) (here : s.note notes i other = some n) :
      n.desc ≠ s.ctrl.wbsAdr4R := by
    obtain ⟨m, noted, desc, _⟩ := old other n away here
    intro same
    rw [desc] at same
    exact unopened (same ▸ (holds.noted other m noted).1)
  refine ⟨holds.chip.step (holds.period layout fair), holds.reread_step fair, phase, ?_, holds.frame_step layout fair.fair, ?_, ?_, ?_⟩
  · rw [order, List.append_assoc]
    rfl
  · intro other n here
    by_cases same : other = lane
    · subst same
      obtain rfl := Option.some.inj (new.symm.trans here)
      exact ⟨List.mem_append_right _ (List.mem_singleton_self _), fun adr inside =>
        holds.frame adr (layout.kept_outside _ opening adr inside)⟩
    · obtain ⟨m, noted, desc, memory⟩ := old other n same here
      rw [desc, memory]
      obtain ⟨member, kept⟩ := holds.noted other m noted
      exact ⟨List.mem_append_left _ member, kept⟩
  · intro one two n m apart here there
    by_cases same : one = lane
    · subst same
      obtain rfl := Option.some.inj (new.symm.trans here)
      exact (fresh two m (Ne.symm apart) there).symm
    · by_cases sameToo : two = lane
      · subst sameToo
        obtain rfl := Option.some.inj (new.symm.trans there)
        exact fresh one n same here
      · obtain ⟨n', noted, desc, _⟩ := old one n same here
        obtain ⟨m', notedToo, descToo, _⟩ := old two m sameToo there
        rw [desc, descToo]
        exact holds.different one two n' m' apart noted notedToo
  · intro d member retired
    rcases List.mem_append.mp member with earlier | last
    · exact holds.landed_step layout fair d earlier retired
    · exact absurd (List.mem_singleton.mp last).symm (retired lane _ new)

theorem ChainHolds.step (holds : ChainHolds plan mem final jobs (s, notes) opened script) (layout : Layout plan mem jobs)
    (fair : ChainFair (s, notes) i) :
    ∃ opened script, ChainHolds plan mem final jobs (Clocked.watch Chip.step Chip.note (s, notes) i) opened script := by
  have dispatch : Dispatch s.masters := holds.chip.dispatch
  have exclusive : Exclusive s.masters (s.mastersIn i) := Chip.exclusive holds.chip.granted fair.fair
  obtain ⟨rest, now, phase⟩ := phase_advances exclusive dispatch (holds.fromMemory layout fair.fair) fair.busy script holds.phase
  have order := holds.order
  rw [now, ahead_append] at order
  have opens : Opens s.masters (s.mastersIn i) (ahead (s.masters.events (s.mastersIn i))) :=
    opens_events exclusive dispatch
  generalize ahead (s.masters.events (s.mastersIn i)) = fresh at opens order
  cases opens with
  | none later => exact ⟨opened, rest, holds.goes_on layout fair rest phase order later⟩
  | job lane gives first alone => exact ⟨_, rest, holds.opens layout fair rest phase order gives first alone⟩

theorem ChipHolds.idle {earlier : BitVec 29 → CopyPlan} (holds : ChipHolds earlier (s, notes)) (idle : s.ctrl.state = .sIdle)
    (plan : BitVec 29 → CopyPlan) : notes = (fun _ => none) ∧ ChipHolds plan (s, notes) := by
  have free (lane : Fin 2) : s.ctrl.stage lane = .free := by
    unfold Ctrl.stage Ctrl.stage0 Ctrl.stage1
    split <;> simp [idle]
  have lanes (lane : Fin 2) : notes lane = none ∧ LaneHolds plan s lane (notes lane) := by
    have inLane : LaneHolds earlier s lane (notes lane) := holds.lanes lane
    generalize notes lane = note at inLane
    cases inLane with
    | free stage closed => exact ⟨rfl, .free stage closed⟩
    | working _ busy => simp [free lane, Stage.working] at busy
    | closing _ stage | retiring _ stage => simp [free lane] at stage
  exact ⟨funext fun lane => (lanes lane).1, holds.dispatch, holds.granted, holds.resets, fun lane => (lanes lane).2⟩

theorem ChainHolds.start (layout : Layout plan s.mem jobs) (holds : ChipHolds plan (s, fun _ => none))
    (idle : s.ctrl.state = .sIdle) (fair : SlaveFair s i) (submitted : Submitted s i jobs)
    (tail : i.lines.append = true → ∀ word : BitVec 2, ¬ Target plan s.mem jobs (s.ctrl.darR + word.setWidth 29)) :
    ∃ final ∈ jobs.getLast?, ∃ opened script,
      ChainHolds plan s.mem final jobs (Clocked.watch Chip.step Chip.note (s, fun _ => none) i) opened script := by
  have dispatch : Dispatch s.masters := holds.dispatch
  have exclusive : Exclusive s.masters (s.mastersIn i) := Chip.exclusive holds.granted fair
  have silent (lane : Fin 2) : s.gives i lane = false := by
    by_contra gives
    have reads := (Ctrl.gives_burst (by simpa using gives : s.gives i lane = true)).2.1
    rw [idle] at reads
    cases reads
  have none_yet : s.note (fun _ => none) i = fun _ => none := by
    funext lane
    simp [Chip.note, silent lane]
  have period : ChipPeriod plan (s, fun _ => none) i := by
    refine ⟨fair, fun lane gives => absurd ((silent lane).symm.trans gives) Bool.false_ne_true, ?_, ?_, ?_⟩
    · exact fun _ _ _ _ _ noted => by cases noted
    · exact fun _ _ _ _ noted => by cases noted
    · exact fun _ _ noted => by cases noted
  obtain ⟨final, last, script, coming, started⟩ := submitted.started layout.chain
  obtain ⟨rest, now, phase⟩ := started_advances exclusive dispatch idle script started
  have order : jobs = ahead rest := by
    rw [← coming, now, ahead_append]
    have opens : Opens s.masters (s.mastersIn i) (ahead (s.masters.events (s.mastersIn i))) := opens_events exclusive dispatch
    generalize ahead (s.masters.events (s.mastersIn i)) = fresh at opens
    cases opens with
    | job lane gives => exact absurd ((silent lane).symm.trans gives) Bool.false_ne_true
    | none => rfl
  refine ⟨final, last, [], rest, holds.step period, fun mode => ?_, phase, order, fun adr _ => ?_, ?_, ?_, by simp⟩
  · have append : i.lines.append = true := by
      have entered := (appendModeN_step s.ctrl (s.masters.ctrlIn (s.mastersIn i)) exclusive.running).symm.trans mode
      have outside := s.ctrl.mode_outside dispatch.mode (by simp [idle]) (by simp [idle])
      rw [Ctrl.comb_appendModeN, if_pos idle, outside, Bool.or_false, Bool.and_eq_true] at entered
      exact entered.2
    have dar : (s.step i).ctrl.darR = s.ctrl.darR := by
      refine (darN_step s.ctrl (s.masters.ctrlIn (s.mastersIn i)) exclusive.running).trans ?_
      rw [Ctrl.comb_darN, idle]
    change ∀ word : BitVec 2, ¬ Target plan s.mem jobs ((s.step i).ctrl.darR + word.setWidth 29)
    rw [dar]
    exact tail append
  · refine Chip.mem_outside holds fair adr fun owner write => ?_
    cases write with
    | data _ _ _ _ noted => cases noted
    | status _ _ _ _ _ noted => cases noted
  · intro lane n here
    exact absurd ((congrFun none_yet lane).symm.trans here) (by simp)
  · intro lane _ n _ _ here
    exact absurd ((congrFun none_yet lane).symm.trans here) (by simp)

theorem ChipHolds.reached {earlier : BitVec 29 → CopyPlan} {m : Masters} {ch : Fin 2 → Ch} {before : List SharedIn}
    (history : Clocked.Admits (Clocked.watch Chip.step Chip.note) (ChipPeriod earlier) (Chip.reset m ch mem, fun _ => none) before)
    (reached : Clocked.run (Clocked.watch Chip.step Chip.note) (Chip.reset m ch mem, fun _ => none) before = (s, notes)) :
    ChipHolds earlier (s, notes) := by
  rw [← reached]
  exact Clocked.invariant_run _ _ (ChipHolds earlier) (fun p i holds period => holds.step period) _ before (chip_reset earlier m ch mem) history

theorem ChainHolds.ends (holds : ChainHolds plan mem final jobs (s, notes) opened script) (back : s.ctrl.state = .sIdle) :
    (∀ d ∈ jobs, (plan d).Landed mem s.mem) ∧ s.ctrl.darR = final := by
  obtain ⟨rfl, dar⟩ := phase_idle holds.phase back
  obtain ⟨rfl, _⟩ := holds.chip.idle back plan
  have every := holds.order
  rw [show ahead [] = [] from rfl, List.append_nil] at every
  refine ⟨fun d member => ?_, dar⟩
  rw [every] at member
  exact holds.landed d member (fun _ _ noted => by cases noted)

theorem ChainHolds.finishes {rest : List SharedIn} (holds : ChainHolds plan mem final jobs (s, notes) opened script)
    (layout : Layout plan mem jobs) (periods : Clocked.Admits (Clocked.watch Chip.step Chip.note) ChainFair (s, notes) rest)
    (back : (Clocked.run Chip.step s rest).ctrl.state = .sIdle) :
    (∀ d ∈ jobs, (plan d).Landed mem (Clocked.run Chip.step s rest).mem) ∧
    (∀ adr, ¬ Target plan mem jobs adr → (Clocked.run Chip.step s rest).mem adr = mem adr) ∧
    (Clocked.run Chip.step s rest).ctrl.darR = final := by
  obtain ⟨_, _, ended⟩ := Clocked.invariant_run _ _ (fun p => ∃ opened script, ChainHolds plan mem final jobs p opened script)
    (fun p i holds fair => by
      obtain ⟨_, _, here⟩ := holds
      exact here.step layout fair) _ rest ⟨opened, script, holds⟩ periods
  have whole := Clocked.run_watch Chip.step Chip.note (s, notes) rest
  generalize Clocked.run (Clocked.watch Chip.step Chip.note) (s, notes) rest = p at ended whole
  obtain ⟨now, notes⟩ := p
  obtain rfl : now = Clocked.run Chip.step s rest := whole
  obtain ⟨landed, dar⟩ := ended.ends back
  exact ⟨landed, ended.frame, dar⟩

end

theorem chip_runs_chain (earlier plan : BitVec 29 → CopyPlan) (m : Masters) (ch : Fin 2 → Ch) (mem : Mem) (before rest : List SharedIn)
    (first : SharedIn) (jobs : List (BitVec 29)) (s : Chip) (notes : Fin 2 → Option CopyNote)
    (history : Clocked.Admits (Clocked.watch Chip.step Chip.note) (ChipPeriod earlier) (Chip.reset m ch mem, fun _ => none) before)
    (reached : Clocked.run (Clocked.watch Chip.step Chip.note) (Chip.reset m ch mem, fun _ => none) before = (s, notes))
    (idle : s.ctrl.state = .sIdle) (layout : Layout plan s.mem jobs) (fair : SlaveFair s first) (submitted : Submitted s first jobs)
    (tail : first.lines.append = true → ∀ word : BitVec 2, ¬ Target plan s.mem jobs (s.ctrl.darR + word.setWidth 29))
    (periods : Clocked.Admits (Clocked.watch Chip.step Chip.note) ChainFair
      (Clocked.watch Chip.step Chip.note (s, notes) first) rest)
    (back : (Clocked.run Chip.step s (first :: rest)).ctrl.state = .sIdle) :
    (∀ d ∈ jobs, (plan d).Landed s.mem (Clocked.run Chip.step s (first :: rest)).mem) ∧
    (∀ adr, ¬ Target plan s.mem jobs adr → (Clocked.run Chip.step s (first :: rest)).mem adr = s.mem adr) ∧
    jobs.getLast? = some (Clocked.run Chip.step s (first :: rest)).ctrl.darR := by
  obtain ⟨rfl, holds⟩ := (ChipHolds.reached history reached).idle idle plan
  obtain ⟨final, last, _, _, started⟩ := ChainHolds.start layout holds idle fair submitted tail
  obtain ⟨landed, frame, dar⟩ := started.finishes layout periods back
  exact ⟨landed, frame, last.trans (congrArg some dar.symm)⟩

theorem chain_layout : Layout chainPlan chainMem [0x10, 0x20] := by
  have lane_of (d : BitVec 29) (job : d ∈ [0x10, 0x20]) : ∃ lane, d = chainDesc lane := by
    rcases List.mem_cons.mp job with rfl | last
    · exact ⟨0, rfl⟩
    · obtain rfl := List.mem_singleton.mp last
      exact ⟨1, rfl⟩
  refine ⟨⟨by decide +kernel, by decide +kernel, show contOf chainMem 0x20 = false by decide +kernel⟩, by decide, ?_, ?_, ?_⟩
  · intro d job
    obtain ⟨lane, rfl⟩ := lane_of d job
    exact chain_fits chainMem (fun _ _ => rfl) lane
  · have spares : ∀ lane other, chainDesc lane ≠ chainDesc other →
        (chainPlan (chainDesc lane)).dst.all (fun adr => decide ((chainPlan (chainDesc other)).Spares adr)) = true := by
      decide +kernel
    intro d job e jobToo different adr member
    obtain ⟨lane, rfl⟩ := lane_of d job
    obtain ⟨other, rfl⟩ := lane_of e jobToo
    exact of_decide_eq_true (List.all_eq_true.mp (spares lane other different) adr member)
  · have spares : ∀ lane other, ∀ word : BitVec 2,
        (chainPlan (chainDesc other)).Spares (statusAt chainMem (chainDesc lane) + word.setWidth 29) := by decide +kernel
    intro d job e jobToo word
    obtain ⟨lane, rfl⟩ := lane_of d job
    obtain ⟨other, rfl⟩ := lane_of e jobToo
    exact spares lane other word

def chainRest : List SharedIn := chainAcks.map (fun ack => slaveIn ack .host) ++ List.replicate 5 (slaveIn false .host)

def RunsFair (s : Chip) (i : SharedIn) : Prop :=
  s.ctrl.state ≠ .sIdle ∧ SlaveFair s i ∧ ∀ lane, EndIsFresh (s.bench lane 0) (s.benchIn i lane)

instance (s : Chip) (i : SharedIn) : Decidable (RunsFair s i) := inferInstanceAs (Decidable (_ ∧ _ ∧ _))

theorem runs_fair (s : Chip) (first : SharedIn) (rest : List SharedIn) (fair : Clocked.Admits Chip.step RunsFair (s.step first) rest) :
    Clocked.Admits (Clocked.watch Chip.step Chip.note) ChainFair (Clocked.watch Chip.step Chip.note (s, fun _ => none) first) rest :=
  Clocked.admits_of_invariant (Clocked.watch Chip.step Chip.note) (fun p i => RunsFair p.1 i) ChainFair (fun _ => True)
    (fun _ _ _ _ => trivial) (fun _ _ _ fair => ⟨fair.1, fair.2.1, fun lane _ _ => fair.2.2 lane⟩) _ rest trivial
    ((Clocked.admits_watch Chip.step Chip.note RunsFair _ rest).mpr fair)

set_option maxRecDepth 100000 in
theorem chain_ends : SlaveFair chainStart (slaveIn false (.start 0x10)) ∧
    Clocked.Admits Chip.step RunsFair (chainStart.step (slaveIn false (.start 0x10))) chainRest ∧
    (Clocked.run Chip.step chainStart (slaveIn false (.start 0x10) :: chainRest)).ctrl.state = .sIdle := by
  decide +kernel

theorem chain_ran :
    (∀ d ∈ [0x10, 0x20], (chainPlan d).Landed chainMem
      (Clocked.run Chip.step chainStart (slaveIn false (.start 0x10) :: chainRest)).mem) ∧
    (∀ adr, ¬ Target chainPlan chainMem [0x10, 0x20] adr →
      (Clocked.run Chip.step chainStart (slaveIn false (.start 0x10) :: chainRest)).mem adr = chainMem adr) ∧
    [0x10, 0x20].getLast? = some (Clocked.run Chip.step chainStart (slaveIn false (.start 0x10) :: chainRest)).ctrl.darR := by
  exact chip_runs_chain chainPlan chainPlan ⟨fun _ => powerUp.src, default⟩ (fun _ => powerUp.ch) chainMem [] chainRest
    (slaveIn false (.start 0x10)) [0x10, 0x20] chainStart (fun _ => none) trivial rfl rfl chain_layout chain_ends.1
    (.ndar [0x20] rfl rfl rfl) (fun append => by cases append) (runs_fair chainStart _ chainRest chain_ends.2.1) chain_ends.2.2

end SsAdma
