import SsAdma.Clocked
import SsAdma.Ep6Window

set_option autoImplicit false

namespace SsAdma

open Clocked SpiBus

inductive Ep6Event where
  | take
  | in6
  | out6 (fpga : FpgaBoot) (packet : List (BitVec 8))

variable {D : Type} (spi : Device D)

-- A read command: its chip select window, named by how often the select wire had
-- changed when the read was reached, and how many bytes it asks for.
structure ReadCommand where
  window : ℕ
  din_len : BitVec 8
deriving DecidableEq, Repr

structure Answer where
  command : ReadCommand
  count : BitVec 8
  edges : List Edge
deriving DecidableEq, Repr

structure Ledger where
  waiting : List ReadCommand
  answers : List Answer
  -- by the flags of the commands alone: the command waiting left its window
  -- open, and no later one closed it
  stillOpen : Bool

def Ep6.closes (s : Ep6 D) : Bool := s.control SPI_CS_REL || s.control SPI_EXIT

def clockedIn (s t : Ep6 (Probe D)) : List Edge := t.dev.edges.drop s.dev.edges.length

def Ledger.carried (ledger : Ledger) (s : Ep6 D) : Bool :=
  ledger.stillOpen && !(s.control SPI_BOOT_FPGA || s.control SPI_INIT) && !s.closes

-- A reply is made when IN6BC is written: IN6 was free and is busy.
def Ledger.note (s : Ep6 (Probe D)) (ledger : Ledger) : Ep6Event → Ledger
  | .take => ledger
  | .in6 =>
      let next := in6Interrupt (probed spi) s
      if !s.in6Busy && next.in6Busy then
        match ledger.waiting with
        | [] => ledger
        | command :: rest =>
            { ledger with waiting := rest, answers := ledger.answers ++ [⟨command, next.IN6BC, clockedIn s next⟩] }
      else ledger
  | .out6 fpga packet =>
      let s := store out6buf packet s
      let atRead := upToRead (probed spi) fpga s
      let next := onRead (probed spi) atRead
      if s.control SPI_READ then
        if !atRead.in6Busy && next.in6Busy then
          { ledger with
            answers := ledger.answers ++ [⟨⟨atRead.dev.changes, s.din_len⟩, next.IN6BC, clockedIn atRead next⟩]
            stillOpen := ledger.carried s }
        else
          { ledger with
            waiting := ledger.waiting ++ [⟨atRead.dev.changes, s.din_len⟩], stillOpen := s.selectedAtRead && !s.closes }
      else { ledger with stillOpen := ledger.carried s }

def Answer.Own (answer : Answer) : Prop :=
  answer.count = 1 + answer.command.din_len ∧
    answer.edges = List.replicate (8 * answer.command.din_len.toNat) ⟨true, answer.command.window⟩

instance (answer : Answer) : Decidable answer.Own := inferInstanceAs (Decidable (_ ∧ _))

structure Answered (x : Ep6 (Probe D) × Ledger) : Prop where
  own : ∀ answer ∈ x.2.answers, answer.Own
  noneLost : x.2.waiting.length = x.1.ep6in_pending.toNat

instance (x : Ep6 (Probe D) × Ledger) : Decidable (Answered x) :=
  decidable_of_iff ((∀ answer ∈ x.2.answers, answer.Own) ∧ x.2.waiting.length = x.1.ep6in_pending.toNat)
    ⟨fun h => ⟨h.1, h.2⟩, fun h => ⟨h.1, h.2⟩⟩

structure Window (window : ℕ) (isOpen : Bool) (s : Ep6 (Probe D)) : Prop where
  past : window ≤ s.dev.changes
  agrees : isOpen = true ↔ s.selected = true ∧ s.dev.changes = window

theorem Window.span (window : ℕ) (isOpen breaks : Bool) (s t : Ep6 (Probe D)) (before : Window window isOpen s)
    (span : Span s t breaks)
    (keeps : breaks = false → s.selected = true → t.selected = true ∧ t.dev.changes = s.dev.changes) :
    Window window (isOpen && !breaks) t := by
  refine ⟨before.past.trans span.later, ?_⟩
  constructor
  · intro stays
    rw [Bool.and_eq_true, Bool.not_eq_true'] at stays
    obtain ⟨selected, here⟩ := before.agrees.mp stays.1
    obtain ⟨selectedThen, same⟩ := keeps stays.2 selected
    exact ⟨selectedThen, same.trans here⟩
  · rintro ⟨selectedThen, here⟩
    have same : t.dev.changes = s.dev.changes := le_antisymm (here.le.trans before.past) span.later
    have selected : s.selected = true := (span.still same).symm.trans selectedThen
    have unbroken : breaks = false := by
      cases broken : breaks with
      | false => rfl
      | true => exact absurd same (span.cut broken selected).ne'
    rw [unbroken, before.agrees.mpr ⟨selected, same.symm.trans here⟩, Bool.not_false, Bool.and_true]

theorem Window.upToRead (window : ℕ) (isOpen : Bool) (fpga : FpgaBoot) (s : Ep6 (Probe D)) (lines : Lines true s)
    (before : Window window isOpen s) :
    Window window (isOpen && !(s.control SPI_BOOT_FPGA || s.control SPI_INIT)) (upToRead (probed spi) fpga s) := by
  refine Window.span window isOpen _ s _ before (upToRead_span spi fpga s lines) fun none selected => ?_
  obtain ⟨noBoot, noInit⟩ := Bool.or_eq_false_iff.mp none
  exact upToRead_open spi fpga s lines selected noBoot noInit

theorem Window.afterRead (window : ℕ) (isOpen : Bool) (s : Ep6 (Probe D)) (lines : Lines true s)
    (before : Window window isOpen s) : Window window (isOpen && !s.closes) (afterRead (probed spi) s) := by
  refine Window.span window isOpen _ s _ before (afterRead_span spi s lines) fun none selected => ?_
  obtain ⟨noRelease, noExit⟩ := Bool.or_eq_false_iff.mp none
  rw [afterRead_still spi s noRelease noExit]
  exact ⟨selected, rfl⟩

theorem Window.same (window : ℕ) (isOpen : Bool) (s t : Ep6 (Probe D)) (selected : t.selected = s.selected)
    (changes : t.dev.changes = s.dev.changes) (before : Window window isOpen s) : Window window isOpen t :=
  ⟨changes ▸ before.past, by rw [selected, changes]; exact before.agrees⟩

def deaf : Device Unit where
  react := fun _ _ device => device
  miso := fun _ => false

end SsAdma
