import Mathlib.Tactic.ByContra
import SsAdma.Clocked
import SsAdma.HostStep

set_option autoImplicit false

namespace SsAdma

def Host.ccrWe (h : Host) (i : HostIn) : Bool := (h.wbmIn i).ccrWe
def Host.appendWrite (h : Host) (i : HostIn) : Bool := h.ccrWe i && i.wbsDatI.getLsbD 0

def Host.samplesDesc (h : Host) (i : HostIn) : Bool :=
  (h.live.ctrl.state == .sCmd0 || h.live.ctrl.state == .sCmd1) && i.wbsAck4 && h.live.ctrl.inc == 0

def Host.fetches (h : Host) (i : HostIn) : Option (BitVec 29) :=
  if h.samplesDesc i then some h.live.ctrl.wbsAdr4R else none

-- Descriptors the host has linked one behind the other, the first of them behind
-- tail, and whether it has written append since.
structure Batch where
  tail : BitVec 29
  links : List (BitVec 29)
  asked : Bool
deriving DecidableEq

-- Both words of the tail's link are in memory when a batch is noted, so a read
-- that begins later sees it.
def Batch.seen (b : Batch) (adr : BitVec 29) : Bool := b.asked && adr == b.tail || b.links.contains adr

structure AppendNote where
  batches : List Batch
  read : Option (List (BitVec 29))
deriving DecidableEq

-- What the lines do in a period, and the link (tail, next) that the host has
-- completed in memory by its end.
structure AppendIn where
  lines : HostIn
  link : Option (BitVec 29 × BitVec 29) := none

def AppendNote.unseen (g : AppendNote) (fetched : Option (BitVec 29)) : List Batch :=
  g.batches.filter fun b => !fetched.any b.seen

def linkedTo (tail next : BitVec 29) (batches : List Batch) : List Batch :=
  if batches.any (·.links.contains tail) then
    batches.map fun b => if b.links.contains tail then { b with links := next :: b.links } else b
  else batches ++ [⟨tail, [next], false⟩]

def Host.noteAppend (h : Host) (g : AppendNote) (i : AppendIn) : AppendNote where
  batches :=
    let left := g.unseen (h.fetches i.lines)
    let left := if h.appendWrite i.lines then left.map fun b => { b with asked := true } else left
    match i.link with
    | none => left
    | some (tail, next) => linkedTo tail next left
  read :=
    if (h.step i.lines).wbm.sysRstReg then none
    else if h.appendWrite i.lines then some []
    else match h.fetches i.lines with
      | none => g.read
      | some adr => g.read.map (adr :: ·)

def Host.stepAppend : Host × AppendNote → AppendIn → Host × AppendNote :=
  Clocked.watch (fun h (i : AppendIn) => h.step i.lines) Host.noteAppend

structure AppendKept (s : Host × AppendNote) : Prop where
  pending : ∀ b ∈ s.2.batches, b.asked = true → s.1.wbm.append = true
  idle : s.1.live.ctrl.state = .sIdle → s.1.wbm.append = false → ∀ read, s.2.read = some read → s.1.live.ctrl.darR ∈ read

-- Every CCR write overwrites the append bit, and a re-read clears it several
-- periods after it has read the descriptor at DAR, whoever has been linked where.
structure AppendSpared (s : Host × AppendNote) (i : AppendIn) : Prop where
  overwrite : s.1.ccrWe i.lines = true → i.lines.wbsDatI.getLsbD 0 = false →
    (∀ b ∈ s.2.unseen (s.1.fetches i.lines), b.asked = false) ∧
      (s.2.read = some [] → s.1.samplesDesc i.lines = true ∨ i.lines.wbsDatI.getLsbD 31 = true)
  target : s.1.live.ctrl.appendMode = true → s.1.samplesDesc i.lines = true →
    ∀ b ∈ s.2.batches, b.asked = true → b.seen s.1.live.ctrl.darR = true
  reread : s.1.appendWrite i.lines = true → s.1.live.ctrl.appendMode = true →
    s.1.live.ctrl.state = .sCmd0 ∧ s.1.live.ctrl.inc = 0 ∧ i.lines.wbsAck4 = false

instance (s : Host × AppendNote) (i : AppendIn) : Decidable (AppendSpared s i) :=
  decidable_of_iff
    ((s.1.ccrWe i.lines = true → i.lines.wbsDatI.getLsbD 0 = false →
        (∀ b ∈ s.2.unseen (s.1.fetches i.lines), b.asked = false) ∧
          (s.2.read = some [] → s.1.samplesDesc i.lines = true ∨ i.lines.wbsDatI.getLsbD 31 = true)) ∧
      (s.1.live.ctrl.appendMode = true → s.1.samplesDesc i.lines = true →
        ∀ b ∈ s.2.batches, b.asked = true → b.seen s.1.live.ctrl.darR = true) ∧
      (s.1.appendWrite i.lines = true → s.1.live.ctrl.appendMode = true →
        s.1.live.ctrl.state = .sCmd0 ∧ s.1.live.ctrl.inc = 0 ∧ i.lines.wbsAck4 = false))
    ⟨fun all => ⟨all.1, all.2.1, all.2.2⟩, fun spared => ⟨spared.overwrite, spared.target, spared.reread⟩⟩

structure AppendNote.Answered (g : AppendNote) : Prop where
  batches : ∀ b ∈ g.batches, b.asked = false
  read : g.read ≠ some []

def Ctrl.Rereading (c : Ctrl) : Prop := c.appendMode = true ∧ (c.state = .sNext0 ∨ c.state = .sCmd0 ∧ c.inc ≠ 0)

structure AppendInv (s : Host × AppendNote) : Prop where
  waiting : s.1.wbm.append = false → s.2.Answered
  sampled : s.1.ctrl.Rereading → s.2.Answered
  cleared : s.1.live.ctrl.appendClear = true → s.2.Answered
  latest : ∀ adr rest, s.2.read = some (adr :: rest) →
    s.1.ctrl.cdar = adr ∧ (s.1.ctrl.state = .sIdle → s.1.ctrl.darR = adr)
  silent : s.1.wbm.sysRstReg = true → s.2.read = none
  opened : s.1.ctrl.appendMode = true → s.1.ctrl.state = .sCmd0 → s.1.ctrl.inc = 0 → s.1.ctrl.wbsAdr4R = s.1.ctrl.darR
  named : s.1.ctrl.Rereading → s.1.ctrl.cdar = s.1.ctrl.darR
  mode : s.1.ctrl.ModeScoped

theorem reset_not_rereading (c : Ctrl) : ¬ (c.live true).Rereading := fun ⟨mode, _⟩ => Bool.false_ne_true mode

theorem rereading_from (h : Host) (i : HostIn) (mode : h.ctrl.ModeScoped) (after : (h.step i).ctrl.Rereading) :
    h.wbm.sysRstReg = false ∧ h.ctrl.appendMode = true ∧ h.ctrl.state = .sCmd0 ∧
      (h.ctrl.inc ≠ 0 ∨ i.wbsAck4 = true) := by
  change (h.ctrl.step (h.ctrlIn i)).Rereading at after
  have running : h.wbm.sysRstReg = false := by
    by_contra reset
    have resetIn : (h.ctrlIn i).wbRst = true := Bool.of_not_eq_false reset
    unfold Ctrl.step at after
    rw [if_pos resetIn] at after
    exact reset_not_rereading _ after
  rw [Ctrl.step_running _ _ running] at after
  obtain ⟨modeAfter, window⟩ := after
  change (h.ctrl.comb (h.ctrlIn i)).appendModeN = true at modeAfter
  rw [Ctrl.comb_appendModeN] at modeAfter
  by_cases idle : h.ctrl.state = .sIdle
  · -- the burst of the re-read has only been opened
    have starts : (h.ctrlIn i).enable = true ∧ (h.ctrlIn i).append = true := by
      simpa [idle, h.ctrl.mode_outside mode (by simp [idle]) (by simp [idle])] using modeAfter
    simp [Ctrl.comb, Ctrl.latch, idle, starts.1, starts.2, CtrlOut.burst] at window
  · by_cases next : h.ctrl.state = .sNext0
    · simp [next] at modeAfter
    · have before : h.ctrl.appendMode = true := by simpa [idle, next] using modeAfter
      have cmd : h.ctrl.state = .sCmd0 := (mode before).resolve_right next
      refine ⟨running, before, cmd, ?_⟩
      by_contra quiet
      have none_ : h.ctrl.inc = 0 ∧ i.wbsAck4 = false := by simpa using quiet
      have unacked : (h.ctrlIn i).acked = false := by simp [CtrlIn.acked, Host.ctrlIn, none_.2]
      have stays := Ctrl.step_burst h.ctrl (h.ctrlIn i) .sNext0 running (cmd ▸ .cmd0)
      rw [Ctrl.step_running _ _ running] at stays
      rw [stays.1, stays.2.2.2.2.1] at window
      simp [Ctrl.lastWord, unacked, cmd, none_.1] at window

theorem append_clear_from (h : Host) (i : HostIn) (clear : (h.step i).live.ctrl.appendClear = true) :
    h.wbm.sysRstReg = false ∧ h.ctrl.state = .sNext0 ∧ h.ctrl.appendMode = true := by
  obtain ⟨running, issued⟩ := Host.shown_by_step (fun c => c.appendClear = true) (fun _ => Bool.false_ne_true) h i clear
  change (h.ctrl.comb (h.ctrlIn i)).appendClearN = true at issued
  rw [Ctrl.comb_appendClearN] at issued
  exact ⟨running, by simpa using issued⟩

theorem linkedTo_asked (tail next : BitVec 29) (batches : List Batch) (quiet : ∀ b ∈ batches, b.asked = false) :
    ∀ b ∈ linkedTo tail next batches, b.asked = false := by
  intro b member
  unfold linkedTo at member
  split at member
  · obtain ⟨old, among, rfl⟩ := List.mem_map.mp member
    split <;> exact quiet old among
  · rcases List.mem_append.mp member with old | new
    · exact quiet b old
    · rw [List.mem_singleton.mp new]

theorem note_answered (h : Host) (g : AppendNote) (i : AppendIn) (noAppend : h.appendWrite i.lines = false)
    (quiet : ∀ b ∈ g.unseen (h.fetches i.lines), b.asked = false)
    (read : g.read = some [] → h.samplesDesc i.lines = true ∨ (h.step i.lines).wbm.sysRstReg = true) : (h.noteAppend g i).Answered := by
  constructor
  · intro b member
    unfold Host.noteAppend at member
    simp only [noAppend, Bool.false_eq_true, if_false] at member
    cases link : i.link with
    | none => exact quiet b (by simpa [link] using member)
    | some pair => exact linkedTo_asked pair.1 pair.2 _ quiet b (by simpa [link] using member)
  · unfold Host.noteAppend Host.fetches
    simp only [noAppend, Bool.false_eq_true, if_false]
    cases reset : (h.step i.lines).wbm.sysRstReg with
    | true => simp
    | false =>
        cases sample : h.samplesDesc i.lines with
        | true => simp
        | false =>
            intro empty
            rcases read (by simpa using empty) with now | later
            · exact absurd (sample.symm.trans now) (by decide)
            · exact absurd (reset.symm.trans later) (by decide)

theorem AppendNote.unseen_subset (g : AppendNote) (fetched : Option (BitVec 29)) (b : Batch) (member : b ∈ g.unseen fetched) :
    b ∈ g.batches := List.mem_of_mem_filter member

theorem answered_stays (h : Host) (g : AppendNote) (i : AppendIn) (noAppend : h.appendWrite i.lines = false) (answered : g.Answered) :
    (h.noteAppend g i).Answered :=
  note_answered h g i noAppend (fun b member => answered.batches b (g.unseen_subset _ b member)) fun empty => absurd empty answered.read

theorem note_latest (h : Host) (g : AppendNote) (i : AppendIn) (adr : BitVec 29) (rest : List (BitVec 29))
    (read : (h.noteAppend g i).read = some (adr :: rest)) :
    (h.step i.lines).wbm.sysRstReg = false ∧
      (h.samplesDesc i.lines = true ∧ h.live.ctrl.wbsAdr4R = adr ∧ g.read ≠ none ∨
        h.samplesDesc i.lines = false ∧ g.read = some (adr :: rest)) := by
  unfold Host.noteAppend Host.fetches at read
  cases reset : (h.step i.lines).wbm.sysRstReg with
  | true => simp [reset] at read
  | false =>
      refine ⟨rfl, ?_⟩
      cases write : h.appendWrite i.lines with
      | true => simp [reset, write] at read
      | false =>
          cases sample : h.samplesDesc i.lines with
          | true =>
              obtain ⟨old, was, same⟩ : ∃ old, g.read = some old ∧ h.live.ctrl.wbsAdr4R :: old = adr :: rest := by
                simpa [reset, write, sample] using read
              exact .inl ⟨rfl, (List.cons.inj same).1, by simp [was]⟩
          | false => exact .inr ⟨rfl, by simpa [reset, write, sample] using read⟩

theorem samples_iff (h : Host) (i : HostIn) (running : h.wbm.sysRstReg = false) :
    h.samplesDesc i = true ↔ (h.ctrl.state = .sCmd0 ∨ h.ctrl.state = .sCmd1) ∧ i.wbsAck4 = true ∧ h.ctrl.inc = 0 := by
  simp [Host.samplesDesc, h.live_of_running running, and_assoc]

theorem step_cdar (h : Host) (i : HostIn) (running : h.wbm.sysRstReg = false) :
    (h.step i).ctrl.cdar = if h.samplesDesc i then h.ctrl.wbsAdr4R else h.ctrl.cdar := by
  change (h.ctrl.step (h.ctrlIn i)).cdar = _
  rw [Ctrl.step_running _ _ running, Host.samplesDesc, h.live_of_running running]
  rfl

theorem idle_from (h : Host) (i : HostIn) (running : h.wbm.sysRstReg = false)
    (after : (h.step i).ctrl.state = .sIdle) :
    h.samplesDesc i = false ∧
      ((h.ctrl.state = .sIdle ∨ h.ctrl.Rereading) ∧ (h.step i).ctrl.darR = h.ctrl.darR ∨ (h.step i).ctrl.darR = h.ctrl.cdar) := by
  change (h.ctrl.step (h.ctrlIn i)).state = .sIdle at after
  change _ ∧ (_ ∧ (h.ctrl.step (h.ctrlIn i)).darR = _ ∨ (h.ctrl.step (h.ctrlIn i)).darR = _)
  rw [Ctrl.step_running _ _ running] at after ⊢
  change (h.ctrl.comb (h.ctrlIn i)).stateN = .sIdle at after
  change _ ∧ (_ ∧ (h.ctrl.comb (h.ctrlIn i)).darN = _ ∨ (h.ctrl.comb (h.ctrlIn i)).darN = _)
  rw [Ctrl.comb_stateN] at after
  rw [Ctrl.comb_darN]
  have silent (not0 : h.ctrl.state ≠ .sCmd0) (not1 : h.ctrl.state ≠ .sCmd1) : h.samplesDesc i = false := by
    by_contra sample
    rcases ((samples_iff h i running).mp (by simpa using sample)).1 with cmd | cmd
    · exact not0 cmd
    · exact not1 cmd
  cases state : h.ctrl.state with
  | sIdle => exact ⟨silent (by simp [state]) (by simp [state]), .inl ⟨.inl rfl, rfl⟩⟩
  | sNext0 =>
      cases rereads : h.ctrl.appendMode with
      | true => exact ⟨silent (by simp [state]) (by simp [state]), .inl ⟨.inr ⟨rereads, .inl state⟩, rfl⟩⟩
      | false =>
          simp only [state, rereads, Bool.false_eq_true, if_false] at after
          split at after <;> cases after
  | sCyc0 =>
      refine ⟨silent (by simp [state]) (by simp [state]), .inr ?_⟩
      simp only [state] at after ⊢
      split at after
      · simp at after
      · rename_i last
        rw [if_neg last]
  | sCyc1 => exact ⟨silent (by simp [state]) (by simp [state]), .inr rfl⟩
  | sNext1 =>
      rw [state] at after
      cases after
  | _ =>
      simp only [state] at after
      split_ifs at after

theorem reread_step (h : Host) (i : HostIn) (mode : h.ctrl.ModeScoped) (after : (h.step i).ctrl.Rereading) :
    h.wbm.sysRstReg = false ∧ h.ctrl.appendMode = true ∧ (h.ctrl.Rereading ∨ h.samplesDesc i = true) := by
  obtain ⟨running, rereads, cmd, moved⟩ := rereading_from h i mode after
  refine ⟨running, rereads, ?_⟩
  by_cases zero : h.ctrl.inc = 0
  · exact .inr ((samples_iff h i running).mpr ⟨.inl cmd, moved.resolve_left (not_not_intro zero), zero⟩)
  · exact .inl ⟨rereads, .inr ⟨cmd, zero⟩⟩

theorem opened_step (h : Host) (i : HostIn) (mode : h.ctrl.ModeScoped)
    (opened : h.ctrl.appendMode = true → h.ctrl.state = .sCmd0 → h.ctrl.inc = 0 → h.ctrl.wbsAdr4R = h.ctrl.darR)
    (rereads : (h.step i).ctrl.appendMode = true) (cmd : (h.step i).ctrl.state = .sCmd0) (zero : (h.step i).ctrl.inc = 0) :
    (h.step i).ctrl.wbsAdr4R = (h.step i).ctrl.darR := by
  change (h.ctrl.step (h.ctrlIn i)).appendMode = true at rereads
  change (h.ctrl.step (h.ctrlIn i)).state = .sCmd0 at cmd
  change (h.ctrl.step (h.ctrlIn i)).inc = 0 at zero
  change (h.ctrl.step (h.ctrlIn i)).wbsAdr4R = (h.ctrl.step (h.ctrlIn i)).darR
  have running : (h.ctrlIn i).wbRst = false := by
    by_contra reset
    unfold Ctrl.step at rereads
    rw [if_pos (Bool.of_not_eq_false reset)] at rereads
    cases rereads
  have modeN := rereads
  rw [Ctrl.step_running _ _ running] at modeN
  change (h.ctrl.comb (h.ctrlIn i)).appendModeN = true at modeN
  rw [Ctrl.comb_appendModeN] at modeN
  by_cases idle : h.ctrl.state = .sIdle
  · have starts : (h.ctrlIn i).enable = true ∧ (h.ctrlIn i).append = true := by
      simpa [idle, h.ctrl.mode_outside mode (by simp [idle]) (by simp [idle])] using modeN
    rw [Ctrl.step_running _ _ running]
    simp [Ctrl.comb, Ctrl.latch, idle, starts.1, starts.2, CtrlOut.burst, Ctrl.hold]
    split <;> rfl
  · have next : h.ctrl.state ≠ .sNext0 := fun next => by simp [next] at modeN
    have before : h.ctrl.appendMode = true := by simpa [idle, next] using modeN
    have cmdBefore : h.ctrl.state = .sCmd0 := (mode before).resolve_right next
    obtain ⟨state, _, _, address, count, _, dar⟩ := h.ctrl.step_burst (h.ctrlIn i) .sNext0 running (cmdBefore ▸ .cmd0)
    rw [address, dar]
    rw [count] at zero
    cases acked : (h.ctrlIn i).acked with
    | false =>
        rw [acked] at zero
        exact opened before cmdBefore zero
    | true =>
        -- the count has come round with the last word
        have three : h.ctrl.inc = 3 := by
          rw [acked, if_pos rfl] at zero
          exact (show ∀ n : BitVec 2, n + 1 = 0 → n = 3 by decide) _ zero
        rw [state, (h.ctrl.lastWord_iff _).mpr ⟨acked, three⟩] at cmd
        cases cmd

theorem spared_quiet (s : Host × AppendNote) (i : AppendIn) (spared : AppendSpared s i) (running : s.1.wbm.sysRstReg = false)
    (rereads : s.1.ctrl.appendMode = true) (moved : s.1.ctrl.Rereading ∨ s.1.samplesDesc i.lines = true) :
    s.1.appendWrite i.lines = false := by
  have live : s.1.live.ctrl = s.1.ctrl := s.1.live_of_running running
  by_contra write
  obtain ⟨cmd, zero, unacked⟩ := spared.reread (by simpa using write) (by rw [live]; exact rereads)
  rw [live] at cmd zero
  rcases moved with ⟨_, next | ⟨_, nonzero⟩⟩ | sample
  · rw [next] at cmd
    cases cmd
  · exact nonzero zero
  · rw [((samples_iff s.1 i.lines running).mp sample).2.1] at unacked
    cases unacked

theorem target_answers (s : Host × AppendNote) (i : AppendIn) (inv : AppendInv s) (spared : AppendSpared s i)
    (running : s.1.wbm.sysRstReg = false) (rereads : s.1.ctrl.appendMode = true) (sample : s.1.samplesDesc i.lines = true)
    (noAppend : s.1.appendWrite i.lines = false) : (s.1.noteAppend s.2 i).Answered := by
  have live : s.1.live.ctrl = s.1.ctrl := s.1.live_of_running running
  obtain ⟨cmd, acked, zero⟩ := (samples_iff s.1 i.lines running).mp sample
  have cmd : s.1.ctrl.state = .sCmd0 := by
    rcases inv.mode rereads with here | next
    · exact here
    · simp [next] at cmd
  have fetched : s.1.fetches i.lines = some s.1.ctrl.darR := by
    rw [Host.fetches, if_pos sample, live, inv.opened rereads cmd zero]
  refine note_answered s.1 s.2 i noAppend (fun b member => ?_) fun _ => .inl sample
  obtain ⟨among, left⟩ := List.mem_filter.mp member
  rw [fetched] at left
  by_contra asked
  have seen := spared.target (by rw [live]; exact rereads) sample b among (by simpa using asked)
  rw [live] at seen
  simp [seen] at left

-- The append bit falls by a CCR write or by append_clear.
theorem fallen_answered (h : Host) (g : AppendNote) (i : AppendIn) (inv : AppendInv (h, g)) (spared : AppendSpared (h, g) i)
    (fallen : (h.step i.lines).wbm.append = false) : (h.noteAppend g i).Answered := by
  change (if h.ccrWe i.lines then i.lines.wbsDatI.getLsbD 0 else if h.live.ctrl.appendClear then false else h.wbm.append) = false
    at fallen
  cases writes : h.ccrWe i.lines with
  | true =>
      rw [writes, if_pos rfl] at fallen
      have noAppend : h.appendWrite i.lines = false := by rw [Host.appendWrite, fallen, Bool.and_false]
      obtain ⟨quiet, read⟩ := spared.overwrite writes fallen
      refine note_answered h g i noAppend quiet fun empty => (read empty).imp_right fun bit => ?_
      change (if h.ccrWe i.lines then i.lines.wbsDatI.getLsbD 31 else h.wbm.sysRstReg) = true
      rw [writes, if_pos rfl, bit]
  | false =>
      have noAppend : h.appendWrite i.lines = false := by rw [Host.appendWrite, writes, Bool.false_and]
      refine answered_stays h g i noAppend ?_
      cases clear : h.live.ctrl.appendClear with
      | true => exact inv.cleared clear
      | false => exact inv.waiting (by simpa [writes, clear] using fallen)

theorem sampled_answered (h : Host) (g : AppendNote) (i : AppendIn) (inv : AppendInv (h, g)) (spared : AppendSpared (h, g) i)
    (after : (h.step i.lines).ctrl.Rereading) : (h.noteAppend g i).Answered := by
  obtain ⟨running, rereads, moved⟩ := reread_step h i.lines inv.mode after
  have noAppend := spared_quiet (h, g) i spared running rereads moved
  rcases moved with before | sample
  · exact answered_stays h g i noAppend (inv.sampled before)
  · exact target_answers (h, g) i inv spared running rereads sample noAppend

theorem cleared_answered (h : Host) (g : AppendNote) (i : AppendIn) (inv : AppendInv (h, g)) (spared : AppendSpared (h, g) i)
    (clear : (h.step i.lines).live.ctrl.appendClear = true) : (h.noteAppend g i).Answered := by
  obtain ⟨running, next, rereads⟩ := append_clear_from h i.lines clear
  have before : h.ctrl.Rereading := ⟨rereads, .inl next⟩
  have noAppend := spared_quiet (h, g) i spared running rereads (.inl before)
  exact answered_stays h g i noAppend (inv.sampled before)

theorem latest_step (h : Host) (g : AppendNote) (i : AppendIn) (inv : AppendInv (h, g)) (adr : BitVec 29) (rest : List (BitVec 29))
    (read : (h.noteAppend g i).read = some (adr :: rest)) :
    (h.step i.lines).ctrl.cdar = adr ∧ ((h.step i.lines).ctrl.state = .sIdle → (h.step i.lines).ctrl.darR = adr) := by
  obtain ⟨_, latest⟩ := note_latest h g i adr rest read
  have running : h.wbm.sysRstReg = false := by
    by_contra reset
    have none := inv.silent (by simpa using reset)
    rcases latest with ⟨_, _, some⟩ | ⟨_, some⟩
    · exact some none
    · simp only at none
      simp [none] at some
  rw [step_cdar h i.lines running]
  rcases latest with ⟨sample, here, _⟩ | ⟨silent, old⟩
  · rw [h.live_of_running running] at here
    refine ⟨by rw [if_pos sample, here], fun idle => ?_⟩
    obtain ⟨silent, _⟩ := idle_from h i.lines running idle
    exact absurd (silent.symm.trans sample) (by decide)
  · obtain ⟨cdar, dar⟩ := inv.latest adr rest old
    refine ⟨by rw [if_neg (by simp [silent]), cdar], fun idle => ?_⟩
    obtain ⟨_, ⟨from_, same⟩ | moved⟩ := idle_from h i.lines running idle
    · rw [same]
      rcases from_ with before | rereads
      · exact dar before
      · exact (inv.named rereads).symm.trans cdar
    · rw [moved, cdar]

theorem named_step (h : Host) (g : AppendNote) (i : AppendIn) (inv : AppendInv (h, g)) (after : (h.step i.lines).ctrl.Rereading) :
    (h.step i.lines).ctrl.cdar = (h.step i.lines).ctrl.darR := by
  obtain ⟨running, rereads, cmd, _⟩ := rereading_from h i.lines inv.mode after
  obtain ⟨_, _, moved⟩ := reread_step h i.lines inv.mode after
  have dar : (h.step i.lines).ctrl.darR = h.ctrl.darR :=
    (h.ctrl.step_burst (h.ctrlIn i.lines) .sNext0 running (cmd ▸ .cmd0)).2.2.2.2.2.2
  rw [step_cdar h i.lines running, dar]
  by_cases sample : h.samplesDesc i.lines = true
  · rw [if_pos sample, inv.opened rereads cmd ((samples_iff h i.lines running).mp sample).2.2]
  · rw [if_neg sample, inv.named (moved.resolve_right sample)]

theorem append_inv_step (s : Host × AppendNote) (i : AppendIn) (inv : AppendInv s) (spared : AppendSpared s i) :
    AppendInv (Host.stepAppend s i) where
  waiting := fallen_answered s.1 s.2 i inv spared
  sampled := sampled_answered s.1 s.2 i inv spared
  cleared := cleared_answered s.1 s.2 i inv spared
  latest := latest_step s.1 s.2 i inv
  silent reset := by
    change (s.1.noteAppend s.2 i).read = none
    rw [Host.noteAppend]
    exact if_pos reset
  opened := opened_step s.1 i.lines inv.mode inv.opened
  named := named_step s.1 s.2 i inv
  mode := Ctrl.step_modeScoped _ _ inv.mode

def Host.StartAppend (s : Host × AppendNote) : Prop := ∃ ndar ctrl, s = (Host.reset ndar ctrl, ⟨[], none⟩)

theorem append_kept_if_spared (s : Host × AppendNote)
    (reached : Clocked.Reachable Host.stepAppend AppendSpared Host.StartAppend s) : AppendKept s := by
  have inv : AppendInv s := by
    apply Clocked.invariant_reachable Host.stepAppend AppendSpared Host.StartAppend AppendInv _ append_inv_step s reached
    rintro _ ⟨ndar, ctrl, rfl⟩
    have answered : AppendNote.Answered ⟨[], none⟩ := ⟨by simp, by simp⟩
    refine ⟨fun _ => answered, fun _ => answered, fun _ => answered, nofun, fun _ => rfl, nofun, ?_, nofun⟩
    exact fun rereads => absurd rereads.1 Bool.false_ne_true
  refine ⟨fun b member asked => ?_, fun idle dropped read noted => ?_⟩
  · by_contra dropped
    exact absurd ((inv.waiting (by simpa using dropped)).batches b member) (by simp [asked])
  · have running : s.1.wbm.sysRstReg = false := by
      by_contra reset
      simp [inv.silent (by simpa using reset)] at noted
    rw [s.1.live_of_running running] at idle ⊢
    cases read with
    | nil => exact absurd noted (inv.waiting dropped).read
    | cons adr rest =>
        rw [(inv.latest adr rest noted).2 idle]
        exact List.mem_cons_self

-- A job at 0x100 without CONT, up to S_WAIT0.
def unlinkedJob : List AppendIn :=
  [ ⟨HostIn.idle.write 0xc 0x100, none⟩, ⟨HostIn.idle.write 0x0 0x2, none⟩, ⟨HostIn.idle, none⟩,
    ⟨HostIn.idle.ack 0, none⟩, ⟨HostIn.idle.ack 0, none⟩, ⟨HostIn.idle.ack 0, none⟩, ⟨HostIn.idle.ack 0, none⟩, ⟨HostIn.idle, none⟩ ]

def appendedJob : List AppendIn := unlinkedJob ++ [ ⟨HostIn.idle, some (0x20, 0x40)⟩, ⟨HostIn.idle.write 0x0 0x3, none⟩ ]

theorem append_kept_through_job :
    AppendKept (Clocked.run Host.stepAppend (Host.reset 0 default, ⟨[], none⟩)
      (appendedJob ++ [ ⟨HostIn.idle.done, none⟩, ⟨HostIn.idle.write 0x0 0x7, none⟩, ⟨HostIn.idle, none⟩, ⟨HostIn.idle, none⟩,
        ⟨HostIn.idle.ack 0x200, none⟩, ⟨HostIn.idle.ack 0x400, none⟩, ⟨HostIn.idle.ack 0, none⟩, ⟨HostIn.idle.ack 0, none⟩,
        ⟨HostIn.idle, none⟩, ⟨HostIn.idle.write 0x0 0x6, none⟩, ⟨HostIn.idle.ack 0, none⟩ ])) :=
  append_kept_if_spared _ ⟨_, _, ⟨0, default, rfl⟩, by decide +kernel, rfl⟩

-- The host acknowledges an interrupt with enable while the job runs: the
-- controller comes back to S_IDLE without the append.
theorem ack_intr_drops_append :
    ¬ AppendKept (Clocked.run Host.stepAppend (Host.reset 0 default, ⟨[], none⟩)
      (appendedJob ++ [ ⟨HostIn.idle.write 0x0 0x6, none⟩, ⟨HostIn.idle.done, none⟩, ⟨HostIn.idle.write 0x8 0x0, none⟩,
        ⟨HostIn.idle, none⟩ ])) := by
  intro kept
  exact absurd (kept.idle (by decide +kernel) (by decide +kernel) [] (by decide +kernel)) (by decide +kernel)

end SsAdma
