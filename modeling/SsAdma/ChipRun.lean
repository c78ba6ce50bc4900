import SsAdma.ChipStep

set_option autoImplicit false

namespace SsAdma

theorem Ctrl.done_closing {c : Ctrl} {lane : Fin 2} (done : c.ssDone lane = true) : c.stage lane = .closing := by
  unfold ssDone at done
  unfold stage
  split at done
  · have closing : c.state = .sTr0 := by simpa [ssDone0] using done
    simp [*, stage0]
  · have closing : c.state = .sTr1 := by simpa [ssDone2] using done
    simp [*, stage1]

theorem chip_reset (plan : BitVec 29 → CopyPlan) (m : Masters) (ch : Fin 2 → Ch) (mem : Mem) :
    ChipHolds plan (Chip.reset m ch mem, fun _ => none) where
  dispatch := dispatch_reset _
  granted := Bus.reset_granted
  resets lane _ := .inr (.inr rfl)
  lanes lane := by
    have free : (Chip.reset m ch mem).ctrl.stage lane = .free := by
      unfold Ctrl.stage
      split <;> rfl
    exact .free free ⟨⟨rfl, rfl, rfl⟩, ⟨rfl, rfl, rfl⟩, rfl, rfl, rfl⟩

def Chip.JobsLanded (plan : BitVec 29 → CopyPlan) (p : Chip × (Fin 2 → Option CopyNote)) : Prop :=
  ∀ lane, p.1.ctrl.ssDone lane = true → ∃ n, p.2 lane = some n ∧ (plan n.desc).Landed n.mem p.1.mem

theorem chip_copies (plan : BitVec 29 → CopyPlan) (m : Masters) (ch : Fin 2 → Ch) (mem : Mem) (inputs : List SharedIn)
    (periods : Clocked.Admits (Clocked.watch Chip.step Chip.note) (ChipPeriod plan) (Chip.reset m ch mem, fun _ => none) inputs) :
    Clocked.Always (Clocked.watch Chip.step Chip.note) (Chip.JobsLanded plan) (Chip.reset m ch mem, fun _ => none) inputs := by
  refine Clocked.always_of_invariant (Clocked.watch Chip.step Chip.note) (ChipPeriod plan) (Chip.JobsLanded plan)
    (ChipHolds plan) (fun p i holds period => holds.step period) (fun p holds lane done => ?_) _ inputs (chip_reset plan m ch mem) periods
  have stage := Ctrl.done_closing done
  have inLane := holds.lanes lane
  generalize noted : p.2 lane = note at inLane
  cases inLane with
  | closing n _ landed => exact ⟨n, rfl, landed⟩
  | free other => simp [stage] at other
  | working n busy => simp [stage, Stage.working] at busy
  | retiring n other => simp [stage] at other

def Chip.WritesJobs (plan : BitVec 29 → CopyPlan) (p : Chip × (Fin 2 → Option CopyNote)) (i : SharedIn) : Prop :=
  ∀ cycle ∈ p.1.writes i, ∃ owner, p.1.Owned i owner ∧ ChipWrite plan p.2 owner cycle.1

theorem chip_writes_only (plan : BitVec 29 → CopyPlan) (m : Masters) (ch : Fin 2 → Ch) (mem : Mem) (inputs : List SharedIn)
    (periods : Clocked.Admits (Clocked.watch Chip.step Chip.note) (ChipPeriod plan) (Chip.reset m ch mem, fun _ => none) inputs) :
    Clocked.Admits (Clocked.watch Chip.step Chip.note) (Chip.WritesJobs plan) (Chip.reset m ch mem, fun _ => none) inputs := by
  refine Clocked.admits_of_invariant (Clocked.watch Chip.step Chip.note) (ChipPeriod plan) (Chip.WritesJobs plan)
    (ChipHolds plan) (fun p i holds period => holds.step period) (fun p i holds period cycle written => ?_) _ inputs
    (chip_reset plan m ch mem) periods
  have ack : i.slave.ack = true := by
    by_contra none
    simp [Chip.writes, none] at written
  obtain ⟨owner, owned⟩ := Chip.owned holds.granted period.fair ack
  exact ⟨owner, owned, Chip.writes_owned holds period.fair owned cycle written⟩

-- Two linked jobs of one word each, on both channels at once. Channel 0 is
-- done while channel 1 has yet to finish.
def chainMem : Mem := fun adr =>
  if adr = 0x10 then 0x0001800000000100
  else if adr = 0x11 then 0x416
  else if adr = 0x12 then 0x800
  else if adr = 0x13 then 0x1000
  else if adr = 0x20 then 0x0001808000000000
  else if adr = 0x21 then 0x16
  else if adr = 0x22 then 0x880
  else if adr = 0x23 then 0x1080
  else if adr = 0x100 then 0x0000800000100008
  else if adr = 0x200 then 0x0001000000100008
  else if adr = 0x110 then 0x0000880000100008
  else if adr = 0x210 then 0x0001080000100008
  else adr.setWidth 64

def chainTables : List (BitVec 29) := [0x10, 0x11, 0x12, 0x13, 0x20, 0x21, 0x22, 0x23, 0x100, 0x200, 0x110, 0x210]

def chainDesc (lane : Fin 2) : BitVec 29 := if lane = 0 then 0x10 else 0x20

def chainPlan (desc : BitVec 29) : CopyPlan where
  kept := belowTarget
  src := if desc = 0x10 then [0x1000] else [0x1100]
  dst := if desc = 0x10 then [0x2000] else [0x2100]

instance (desc adr : BitVec 29) : Decidable ((chainPlan desc).Spares adr) :=
  inferInstanceAs (Decidable (¬ belowTarget adr ∧ adr ∉ (chainPlan desc).dst))

def slaveIn (ack : Bool) (lines : MastersIn) : SharedIn := ⟨⟨ack, false, false, 0, 0⟩, lines⟩

def chainAcks : List Bool :=
  [(2, 4), (1, 4), (2, 2), (2, 2), (2, 2), (2, 2), (2, 1), (2, 1), (6, 1), (2, 1)].flatMap fun (waits, words) =>
    List.replicate waits false ++ List.replicate words true

def chainRun : List SharedIn := slaveIn false (.start 0x10) :: chainAcks.map (fun ack => slaveIn ack .host)

def chainStart : Chip := Chip.reset ⟨fun _ => powerUp.src, default⟩ (fun _ => powerUp.ch) chainMem

def ChainSlot (s : Chip) (i : SharedIn) : Prop :=
  SlaveFair s i ∧
  (∀ lane, s.gives i lane = true → s.ctrl.inc = 0#2 →
    s.ctrl.wbsAdr4R = chainDesc lane ∧ chainTables.map s.mem = chainTables.map chainMem) ∧
  ∀ lane, EndIsFresh (s.bench lane 0) (s.benchIn i lane)

instance (s : Chip) (i : SharedIn) : Decidable (ChainSlot s i) := inferInstanceAs (Decidable (_ ∧ _ ∧ _))

set_option maxRecDepth 100000 in
theorem chain_runs : Clocked.Admits Chip.step ChainSlot chainStart chainRun ∧
    (Clocked.run Chip.step chainStart chainRun).ctrl.ssDone 0 = true := by
  decide +kernel

def ChainNotes (p : Chip × (Fin 2 → Option CopyNote)) : Prop :=
  ∀ lane n, p.2 lane = some n → n.desc = chainDesc lane ∧ ∀ adr ∈ chainTables, n.mem adr = chainMem adr

theorem chain_job (mem : Mem) (same : ∀ adr ∈ chainTables, mem adr = chainMem adr) (lane : Fin 2) :
    jobAt mem (chainDesc lane) = jobAt chainMem (chainDesc lane) := by
  have listed : ∀ lane, chainDesc lane ∈ chainTables ∧ chainDesc lane + 1 ∈ chainTables ∧ chainDesc lane + 2 ∈ chainTables ∧
      chainDesc lane + 3 ∈ chainTables := by decide
  obtain ⟨first, second, third, fourth⟩ := listed lane
  simp only [jobAt, same _ first, same _ second, same _ third, same _ fourth]

theorem chain_list (mem : Mem) (same : ∀ adr ∈ chainTables, mem adr = chainMem adr) (adr addr : BitVec 29)
    (table : adr ∈ chainTables) (inside : belowTarget adr ∧ belowTarget (adr + 1)) (final : descLast (chainMem adr) = true)
    (start : descAddr (chainMem adr) = addr) (size : (descLen (chainMem adr)).toNat = 1) :
    SgList mem belowTarget adr [addr] := by
  have list := SgList.single mem belowTarget adr addr 1 inside (by rw [same adr table]; exact final)
    (by rw [same adr table]; exact start) (by rw [same adr table]; exact size) (by decide)
  simpa [segment] using list

theorem chain_fits (mem : Mem) (same : ∀ adr ∈ chainTables, mem adr = chainMem adr) (lane : Fin 2) :
    (chainPlan (chainDesc lane)).Fits mem (chainDesc lane) := by
  refine ⟨?_, fun k below => ?_⟩
  · rw [chain_job mem same lane]
    match lane with
    | 0 => exact ⟨by decide +kernel, by decide +kernel, by decide +kernel,
        chain_list mem same 0x100 0x1000 (by decide) (by decide) (by decide +kernel) (by decide +kernel) (by decide +kernel),
        chain_list mem same 0x200 0x2000 (by decide) (by decide) (by decide +kernel) (by decide +kernel) (by decide +kernel),
        List.forall_mem_singleton.mpr (show belowTarget 0x1000 by decide),
        List.forall_mem_singleton.mpr (show ¬ belowTarget 0x2000 by decide), List.nodup_singleton _⟩
    | 1 => exact ⟨by decide +kernel, by decide +kernel, by decide +kernel,
        chain_list mem same 0x110 0x1100 (by decide) (by decide) (by decide +kernel) (by decide +kernel) (by decide +kernel),
        chain_list mem same 0x210 0x2100 (by decide) (by decide) (by decide +kernel) (by decide +kernel) (by decide +kernel),
        List.forall_mem_singleton.mpr (show belowTarget 0x1100 by decide),
        List.forall_mem_singleton.mpr (show ¬ belowTarget 0x2100 by decide), List.nodup_singleton _⟩
  · have inside : ∀ lane, ∀ k < 4, belowTarget (chainDesc lane + BitVec.ofNat 29 k) := by decide
    exact inside lane k below

theorem chain_note (s : Chip) (notes : Fin 2 → Option CopyNote) (i : SharedIn) (noted : ChainNotes (s, notes))
    (period : ChainSlot s i) : ChainNotes (s.step i, s.note notes i) := by
  intro lane n now
  have before := noted lane
  simp only [Chip.note] at now
  split at now
  · rename_i gives
    split at now
    · rename_i first
      obtain ⟨desc, tables⟩ := period.2.1 lane gives first
      obtain rfl := Option.some.inj now
      exact ⟨desc, fun adr member => List.map_inj_left.mp tables adr member⟩
    · obtain ⟨old, was, rfl⟩ := Option.map_eq_some_iff.mp now
      exact before old was
  · split at now
    · cases now
    · exact before n now

theorem chain_slot (s : Chip) (notes : Fin 2 → Option CopyNote) (i : SharedIn) (noted : ChainNotes (s, notes))
    (period : ChainSlot s i) : ChipPeriod chainPlan (s, notes) i where
  fair := period.1
  fits lane gives first := by
    obtain ⟨desc, tables⟩ := period.2.1 lane gives first
    change (chainPlan s.ctrl.wbsAdr4R).Fits s.mem s.ctrl.wbsAdr4R
    rw [desc]
    exact chain_fits s.mem (fun adr member => List.map_inj_left.mp tables adr member) lane
  apart lane other n m different here there := by
    have spares : ∀ lane other, lane ≠ other →
        (chainPlan (chainDesc lane)).dst.all (fun adr => decide ((chainPlan (chainDesc other)).Spares adr)) = true := by
      decide +kernel
    rw [(noted lane n here).1, (noted other m there).1]
    exact fun adr member => of_decide_eq_true (List.all_eq_true.mp (spares lane other different) adr member)
  status lane other n m here there := by
    have spares : ∀ lane other, ∀ word : BitVec 2,
        (chainPlan (chainDesc other)).Spares (statusAt chainMem (chainDesc lane) + word.setWidth 29) := by decide +kernel
    have listed : ∀ lane, chainDesc lane ∈ chainTables := by decide
    obtain ⟨desc, tables⟩ := noted lane n here
    rw [(noted other m there).1, desc, statusAt, tables _ (listed lane)]
    exact spares lane other
  fresh lane n _ := period.2.2 lane

theorem chain_periods : Clocked.Admits (Clocked.watch Chip.step Chip.note) (ChipPeriod chainPlan) (chainStart, fun _ => none) chainRun :=
  Clocked.admits_of_invariant (Clocked.watch Chip.step Chip.note) (fun p i => ChainSlot p.1 i) (ChipPeriod chainPlan) ChainNotes
    (fun p i noted period => chain_note p.1 p.2 i noted period) (fun p i noted period => chain_slot p.1 p.2 i noted period)
    (chainStart, fun _ => none) chainRun (fun _ _ none => by cases none)
    ((Clocked.admits_watch Chip.step Chip.note ChainSlot (chainStart, fun _ => none) chainRun).mpr chain_runs.1)

theorem chain_copied :
    ∃ n, (Clocked.run (Clocked.watch Chip.step Chip.note) (chainStart, fun _ => none) chainRun).2 0 = some n ∧
      (chainPlan n.desc).Landed n.mem (Clocked.run (Clocked.watch Chip.step Chip.note) (chainStart, fun _ => none) chainRun).1.mem := by
  have landed := Clocked.always_last _ _ _ _
    (chip_copies chainPlan ⟨fun _ => powerUp.src, default⟩ (fun _ => powerUp.ch) chainMem chainRun chain_periods)
  refine landed 0 ?_
  rw [Clocked.run_watch]
  exact chain_runs.2

theorem chain_writes :
    Clocked.Admits (Clocked.watch Chip.step Chip.note) (Chip.WritesJobs chainPlan) (chainStart, fun _ => none) chainRun :=
  chip_writes_only chainPlan ⟨fun _ => powerUp.src, default⟩ (fun _ => powerUp.ch) chainMem chainRun chain_periods

end SsAdma
