import SsAdma.Ep6

set_option autoImplicit false

namespace SsAdma

open ByteMemory SpiBus

variable {D : Type} (spi : Device D)

def Ep6.selected (s : Ep6 D) : Bool := s.OEC && !s.OUTC

structure Lines (port : Bool) (s : Ep6 D) : Prop where
  pa4 : s.PORTACFG = port
  strobe : s.fwr = false
  clock : s.OUTA = false

structure Kept (s t : Ep6 (Probe D)) : Prop where
  command : ∀ k < in6buf, t.xdata k = s.xdata k
  busy : t.in6Busy = s.in6Busy
  len : t.ep6in_len = s.ep6in_len
  pending : t.ep6in_pending = s.ep6in_pending

structure Clocks (n : ℕ) (s t : Ep6 (Probe D)) : Prop extends Kept s t where
  outc : t.OUTC = s.OUTC
  oec : t.OEC = s.OEC
  changes : t.dev.changes = s.dev.changes
  edges : t.dev.edges = s.dev.edges ++ List.replicate n ⟨s.selected, s.dev.changes⟩

structure Moves (s t : Ep6 (Probe D)) : Prop extends Kept s t where
  later : s.dev.changes ≤ t.dev.changes
  still : t.dev.changes = s.dev.changes → t.selected = s.selected

theorem Kept.trans (s t u : Ep6 (Probe D)) (first : Kept s t) (second : Kept t u) : Kept s u :=
  ⟨fun k inside => (second.command k inside).trans (first.command k inside), second.busy.trans first.busy,
    second.len.trans first.len, second.pending.trans first.pending⟩

theorem Kept.control (s t : Ep6 (Probe D)) (kept : Kept s t) (bit : ℕ) : t.control bit = s.control bit := by
  rw [Ep6.control, kept.command out6buf (by decide), Ep6.control]

theorem Kept.din_len (s t : Ep6 (Probe D)) (kept : Kept s t) : t.din_len = s.din_len := kept.command _ (by decide)

theorem Clocks.selected (n : ℕ) (s t : Ep6 (Probe D)) (clocks : Clocks n s t) : t.selected = s.selected := by
  rw [Ep6.selected, clocks.oec, clocks.outc, Ep6.selected]

theorem Clocks.trans (m n : ℕ) (s t u : Ep6 (Probe D)) (first : Clocks m s t) (second : Clocks n t u) :
    Clocks (m + n) s u where
  toKept := Kept.trans s t u first.toKept second.toKept
  outc := second.outc.trans first.outc
  oec := second.oec.trans first.oec
  changes := second.changes.trans first.changes
  edges := by
    rw [second.edges, first.edges, Clocks.selected m s t first, first.changes, List.append_assoc, List.replicate_append_replicate]

theorem Clocks.refl (s : Ep6 (Probe D)) : Clocks 0 s s :=
  ⟨⟨fun _ _ => rfl, rfl, rfl, rfl⟩, rfl, rfl, rfl, (List.append_nil _).symm⟩

theorem Clocks.moves (n : ℕ) (s t : Ep6 (Probe D)) (clocks : Clocks n s t) : Moves s t :=
  ⟨clocks.toKept, clocks.changes.ge, fun _ => Clocks.selected n s t clocks⟩

theorem Moves.trans (s t u : Ep6 (Probe D)) (first : Moves s t) (second : Moves t u) : Moves s u where
  toKept := Kept.trans s t u first.toKept second.toKept
  later := first.later.trans second.later
  still := by
    intro same
    have half : t.dev.changes = s.dev.changes := le_antisymm (second.later.trans same.le) first.later
    exact (second.still (same.trans half.symm)).trans (first.still half)

theorem Moves.released (s t : Ep6 (Probe D)) (moves : Moves s t) (before : s.selected = true)
    (after : t.selected = false) : s.dev.changes < t.dev.changes := by
  refine lt_of_le_of_ne moves.later fun same => ?_
  exact absurd (moves.still same.symm) (by simp [before, after])

theorem writeOUTA_clocks (level : Bool) (s : Ep6 (Probe D)) :
    Clocks (if s.PORTACFG = false ∧ s.OUTA = false ∧ level = true then 1 else 0) s (writeOUTA (probed spi) level s) := by
  refine ⟨⟨fun _ _ => rfl, rfl, rfl, rfl⟩, rfl, rfl, ?_, ?_⟩
  · simp [writeOUTA, settle, probed, Probe.react, Ep6.pins]
  · cases port : s.PORTACFG <;> cases clock : s.OUTA <;> cases level <;>
      simp [writeOUTA, settle, probed, Probe.react, Ep6.pins, Ep6.selected, port, clock]

theorem spi_bitMOSI_clocks (b : Bool) (s : Ep6 (Probe D)) : Clocks 0 s (spi_bitMOSI (probed spi) b s) := by
  refine ⟨⟨fun _ _ => rfl, rfl, rfl, rfl⟩, rfl, rfl, ?_, ?_⟩ <;>
    simp [spi_bitMOSI, settle, probed, Probe.react, Ep6.pins]

theorem writePORTACFG_clocks (port level : Bool) (s : Ep6 (Probe D)) (lines : Lines port s) :
    Clocks 0 s (writePORTACFG (probed spi) level s) := by
  refine ⟨⟨fun _ _ => rfl, rfl, rfl, rfl⟩, rfl, rfl, ?_, ?_⟩ <;>
    simp [writePORTACFG, settle, probed, Probe.react, Ep6.pins, lines.strobe, lines.clock]

theorem spi_sendDataBit_clocks (b : Bool) (s : Ep6 (Probe D)) (lines : Lines false s) :
    Clocks 1 s (spi_sendDataBit (probed spi) b s) := by
  have low := writeOUTA_clocks spi false s
  have bit := spi_bitMOSI_clocks spi b (spi_clearSCK (probed spi) s)
  have high := writeOUTA_clocks spi true (spi_bitMOSI (probed spi) b (spi_clearSCK (probed spi) s))
  have back := writeOUTA_clocks spi false
    (spi_setSCK (probed spi) (spi_bitMOSI (probed spi) b (spi_clearSCK (probed spi) s)))
  rw [if_neg (by simp)] at low back
  rw [if_pos ⟨lines.pa4, rfl, rfl⟩] at high
  exact Clocks.trans 1 0 _ _ _ (Clocks.trans 0 1 _ _ _ (Clocks.trans 0 0 _ _ _ low bit) high) back

theorem spi_sendDataBit_lines (spi : Device D) (b : Bool) (s : Ep6 D) (lines : Lines false s) :
    Lines false (spi_sendDataBit spi b s) := ⟨lines.pa4, lines.strobe, rfl⟩

theorem spi_bitMOSI_lines (spi : Device D) (port b : Bool) (s : Ep6 D) (lines : Lines port s) :
    Lines port (spi_bitMOSI spi b s) := ⟨lines.pa4, lines.strobe, lines.clock⟩

theorem store_lines (port : Bool) (off : ℕ) (bytes : List (BitVec 8)) (s : Ep6 D) (lines : Lines port s) :
    Lines port (store off bytes s) := ⟨lines.pa4, lines.strobe, lines.clock⟩

theorem fold_clocks {A X : Type} (seen : X → Ep6 (Probe D)) (each : ℕ) (body : X → A → X)
    (clocks : ∀ x a, Lines false (seen x) → Clocks each (seen x) (seen (body x a)) ∧ Lines false (seen (body x a)))
    (list : List A) (x : X) (lines : Lines false (seen x)) :
    Clocks (each * list.length) (seen x) (seen (list.foldl body x)) ∧ Lines false (seen (list.foldl body x)) := by
  induction list generalizing x with
  | nil => exact ⟨Clocks.refl (seen x), lines⟩
  | cons a rest ih =>
      obtain ⟨now, wired⟩ := clocks x a lines
      obtain ⟨later, ended⟩ := ih (body x a) wired
      rw [List.length_cons, Nat.mul_succ, Nat.add_comm]
      exact ⟨Clocks.trans _ _ _ _ _ now later, ended⟩

theorem spi_send_byte_clocks (t : BitVec 8) (s : Ep6 (Probe D)) (lines : Lines false s) :
    Clocks 8 s (spi_send_byte (probed spi) t s) ∧ Lines false (spi_send_byte (probed spi) t s) := by
  have low := writeOUTA_clocks spi false s
  rw [if_neg (by simp)] at low
  obtain ⟨bits, wired⟩ := fold_clocks id 1 (fun s i => spi_sendDataBit (probed spi) (t.getLsbD i) s)
    (fun s i lines => ⟨spi_sendDataBit_clocks spi (t.getLsbD i) s lines,
      spi_sendDataBit_lines (probed spi) (t.getLsbD i) s lines⟩)
    bitsDown (spi_clearSCK (probed spi) s) ⟨lines.pa4, lines.strobe, rfl⟩
  have data := spi_bitMOSI_clocks spi true
    (bitsDown.foldl (fun s i => spi_sendDataBit (probed spi) (t.getLsbD i) s) (spi_clearSCK (probed spi) s))
  exact ⟨Clocks.trans 8 0 _ _ _ (Clocks.trans 0 8 _ _ _ low bits) data, spi_bitMOSI_lines (probed spi) false true _ wired⟩

theorem burst_clocks {A : Type} (body : Ep6 (Probe D) → A → Ep6 (Probe D))
    (clocks : ∀ s a, Lines false s → Clocks 8 s (body s a) ∧ Lines false (body s a))
    (list : List A) (s : Ep6 (Probe D)) (lines : Lines true s) :
    Clocks (8 * list.length) s (writePORTACFG (probed spi) true (list.foldl body (writePORTACFG (probed spi) false s))) ∧
      Lines true (writePORTACFG (probed spi) true (list.foldl body (writePORTACFG (probed spi) false s))) := by
  have first := writePORTACFG_clocks spi true false s lines
  obtain ⟨bytes, wired⟩ := fold_clocks id 8 body clocks list (writePORTACFG (probed spi) false s)
    ⟨rfl, lines.strobe, lines.clock⟩
  have last := writePORTACFG_clocks spi false true _ wired
  have all := Clocks.trans _ 0 _ _ _ (Clocks.trans 0 _ _ _ _ first bytes) last
  rw [Nat.zero_add, Nat.add_zero] at all
  exact ⟨all, rfl, wired.strobe, wired.clock⟩

theorem Moves.refl (s : Ep6 (Probe D)) : Moves s s := Clocks.moves 0 s s (Clocks.refl s)

theorem writeOUTC_moves (level : Bool) (s : Ep6 (Probe D)) : Moves s (writeOUTC (probed spi) level s) := by
  refine ⟨⟨fun _ _ => rfl, rfl, rfl, rfl⟩, ?_, ?_⟩ <;>
    cases drives : s.OEC <;> cases old : s.OUTC <;> cases level <;>
      simp [writeOUTC, settle, probed, Probe.react, Ep6.pins, Ep6.selected, drives, old]

theorem writeOEC_moves (level : Bool) (s : Ep6 (Probe D)) : Moves s (writeOEC (probed spi) level s) := by
  refine ⟨⟨fun _ _ => rfl, rfl, rfl, rfl⟩, ?_, ?_⟩ <;>
    cases drives : s.OEC <;> cases old : s.OUTC <;> cases level <;>
      simp [writeOEC, settle, probed, Probe.react, Ep6.pins, Ep6.selected, drives, old]

theorem strobeFWR_moves (level : Bool) (s : Ep6 (Probe D)) : Moves s (strobeFWR (probed spi) level s) := by
  refine ⟨⟨fun _ _ => rfl, rfl, rfl, rfl⟩, ?_, fun _ => rfl⟩
  simp [strobeFWR, spi_bitMOSI, settle, probed, Probe.react, Ep6.pins]

theorem spi_reset_moves (s : Ep6 (Probe D)) : Moves s (spi_reset (probed spi) s) := by
  have driven := writeOEC_moves spi true s
  have clock := Clocks.moves _ _ _ (writeOUTA_clocks spi false (writeOEC (probed spi) true s))
  have data := Clocks.moves _ _ _ (spi_bitMOSI_clocks spi true (spi_clearSCK (probed spi) (writeOEC (probed spi) true s)))
  have ready := Moves.trans _ _ _ (Moves.trans _ _ _ driven clock) data
  have high := Moves.trans _ _ _ ready (writeOUTC_moves spi true _)
  have low := Moves.trans _ _ _ high (writeOUTC_moves spi false _)
  exact Moves.trans _ _ _ low (writeOUTC_moves spi true _)

structure Released (s t : Ep6 (Probe D)) : Prop extends Moves s t where
  lines : Lines true s → Lines true t
  driven : t.OEC = true
  high : t.OUTC = true

theorem spi_reset_released (s : Ep6 (Probe D)) : Released s (spi_reset (probed spi) s) :=
  ⟨spi_reset_moves spi s, fun lines => ⟨lines.pa4, lines.strobe, rfl⟩, rfl, rfl⟩

theorem Released.counted (s t u : Ep6 (Probe D)) (released : Released s t) (after : Moves t u) (before : s.selected = true) :
    s.dev.changes < u.dev.changes :=
  (Moves.released s t released.toMoves before (by simp [Ep6.selected, released.high])).trans_le after.later

theorem spi_boot_fpga_released (fpga : FpgaBoot) (serial : BitVec 8) (s : Ep6 (Probe D)) :
    Released s (spi_boot_fpga (probed spi) fpga serial s) := by
  have reset := spi_reset_released spi s
  have driven := Moves.trans _ _ _ reset.toMoves (writeOEC_moves spi true (spi_reset (probed spi) s))
  have ready : Released s (writeOEC (probed spi) true (spi_reset (probed spi) s)) :=
    ⟨driven, fun lines => ⟨lines.pa4, lines.strobe, rfl⟩, rfl, rfl⟩
  rw [spi_boot_fpga]
  split
  · exact ready
  · split
    · exact ready
    · have mode := Moves.trans _ _ _ driven (writeOUTC_moves spi (decide (serial ≠ 0)) _)
      exact ⟨Moves.trans _ _ _ mode (writeOUTC_moves spi true _), fun lines => ⟨lines.pa4, lines.strobe, rfl⟩, rfl, rfl⟩

structure Bursts (s t : Ep6 (Probe D)) : Prop extends Moves s t where
  lines : Lines true t
  outc : t.OUTC = s.OUTC
  oec : t.OEC = s.OEC
  changes : t.dev.changes = s.dev.changes

theorem Bursts.selected (s t : Ep6 (Probe D)) (bursts : Bursts s t) : t.selected = s.selected :=
  bursts.still bursts.changes

theorem Bursts.trans (s t u : Ep6 (Probe D)) (first : Bursts s t) (second : Bursts t u) : Bursts s u :=
  ⟨Moves.trans s t u first.toMoves second.toMoves, second.lines, second.outc.trans first.outc,
    second.oec.trans first.oec, second.changes.trans first.changes⟩

theorem strobeFWR_bursts (level : Bool) (s : Ep6 (Probe D)) (lines : Lines true s) :
    Bursts s (strobeFWR (probed spi) level s) :=
  ⟨strobeFWR_moves spi level s, ⟨lines.pa4, rfl, lines.clock⟩, rfl, rfl, by
    simp [strobeFWR, spi_bitMOSI, settle, probed, Probe.react, Ep6.pins]⟩

theorem strobes_bursts (bus : ℕ → Bool) (list : List ℕ) (s : Ep6 (Probe D)) (lines : Lines true s) :
    Bursts s (list.foldl (fun s k => strobeFWR (probed spi) (bus k) s) s) := by
  induction list generalizing s with
  | nil => exact ⟨Moves.refl s, lines, rfl, rfl, rfl⟩
  | cons k rest ih =>
      have now := strobeFWR_bursts spi (bus k) s lines
      exact Bursts.trans _ _ _ now (ih _ now.lines)

theorem port_bursts {A : Type} (body : Ep6 (Probe D) → A → Ep6 (Probe D))
    (clocks : ∀ s a, Lines false s → Clocks 8 s (body s a) ∧ Lines false (body s a))
    (list : List A) (s : Ep6 (Probe D)) (lines : Lines true s) :
    Bursts s (writePORTACFG (probed spi) true (list.foldl body (writePORTACFG (probed spi) false s))) := by
  obtain ⟨all, ended⟩ := burst_clocks spi body clocks list s lines
  exact ⟨Clocks.moves _ _ _ all, ended, all.outc, all.oec, all.changes⟩

theorem spi_read_flash_bursts (fpga : FpgaBoot) (s : Ep6 (Probe D)) (lines : Lines true s) :
    Bursts (writeOUTC (probed spi) false s) (spi_read_flash (probed spi) fpga s) := by
  have command := port_bursts spi (fun s t => spi_send_byte (probed spi) t s)
    (fun s t lines => spi_send_byte_clocks spi t s lines) [3, 0, 0, 0] (writeOUTC (probed spi) false s)
    ⟨lines.pa4, lines.strobe, lines.clock⟩
  exact Bursts.trans _ _ _ command (strobes_bursts spi fpga.bus _ _ command.lines)

structure Span (s t : Ep6 (Probe D)) (breaks : Bool) : Prop extends Moves s t where
  lines : Lines true t
  cut : breaks = true → s.selected = true → s.dev.changes < t.dev.changes

theorem Span.trans (s t u : Ep6 (Probe D)) (one two : Bool) (first : Span s t one) (second : Span t u two) :
    Span s u (one || two) where
  toMoves := Moves.trans s t u first.toMoves second.toMoves
  lines := second.lines
  cut := by
    intro breaks before
    by_cases early : one = true
    · exact (first.cut early before).trans_le second.later
    · have late : two = true := by simpa [early] using breaks
      cases between : t.selected with
      | true => exact first.later.trans_lt (second.cut late between)
      | false => exact (Moves.released s t first.toMoves before between).trans_le second.later

theorem onBoot_span (fpga : FpgaBoot) (s : Ep6 (Probe D)) (lines : Lines true s) :
    Span s (onBoot (probed spi) fpga s) (s.control SPI_BOOT_FPGA) := by
  rw [onBoot]
  split
  case isTrue boot =>
    have released := spi_boot_fpga_released spi fpga s.dout_len s
    dsimp only
    split
    · have flash := spi_read_flash_bursts spi fpga _ (released.lines lines)
      have after := Moves.trans _ _ _ (writeOUTC_moves spi false _) flash.toMoves
      exact ⟨Moves.trans _ _ _ released.toMoves after, flash.lines, fun _ => Released.counted _ _ _ released after⟩
    · exact ⟨released.toMoves, released.lines lines, fun _ => Released.counted _ _ _ released (Moves.refl _)⟩
  case isFalse none => exact ⟨Moves.refl s, lines, fun boot => absurd boot none⟩

theorem onInit_span (s : Ep6 (Probe D)) (lines : Lines true s) :
    Span s (onInit (probed spi) s) (s.control SPI_INIT) := by
  rw [onInit]
  split
  case isTrue init =>
    have released := spi_reset_released spi s
    exact ⟨released.toMoves, released.lines lines, fun _ => Released.counted _ _ _ released (Moves.refl _)⟩
  case isFalse none => exact ⟨Moves.refl s, lines, fun init => absurd init none⟩

theorem onSelect_span (s : Ep6 (Probe D)) (lines : Lines true s) : Span s (onSelect (probed spi) s) false := by
  rw [onSelect]
  split
  · exact ⟨writeOUTC_moves spi false s, ⟨lines.pa4, lines.strobe, lines.clock⟩, nofun⟩
  · exact ⟨Moves.refl s, lines, nofun⟩

theorem onWrite_bursts (s : Ep6 (Probe D)) (lines : Lines true s) : Bursts s (onWrite (probed spi) s) := by
  rw [onWrite]
  split
  · exact port_bursts spi (sendFrom (probed spi)) (fun s j lines => spi_send_byte_clocks spi (s.dout j) s lines)
      (List.range s.dout_len.toNat) s lines
  · exact ⟨Moves.refl s, lines, rfl, rfl, rfl⟩

theorem upToRead_span (fpga : FpgaBoot) (s : Ep6 (Probe D)) (lines : Lines true s) :
    Span s (upToRead (probed spi) fpga s) (s.control SPI_BOOT_FPGA || s.control SPI_INIT) := by
  have boot := onBoot_span spi fpga s lines
  have init := onInit_span spi _ boot.lines
  have select := onSelect_span spi _ init.lines
  have write := onWrite_bursts spi _ select.lines
  rw [Kept.control s _ boot.toKept] at init
  have before := Span.trans _ _ _ _ _ (Span.trans _ _ _ _ _ boot init) select
  rw [Bool.or_false] at before
  have last : Span _ (upToRead (probed spi) fpga s) false := ⟨write.toMoves, write.lines, nofun⟩
  have all := Span.trans _ _ _ _ _ before last
  rwa [Bool.or_false] at all

def Ep6.selectedAtRead (s : Ep6 D) : Bool :=
  if s.control SPI_CS_SEL then s.OEC || s.control SPI_BOOT_FPGA || s.control SPI_INIT
  else if s.control SPI_INIT then false
  else if s.control SPI_BOOT_FPGA then s.din_len ≠ 0
  else s.selected

theorem upToRead_open (fpga : FpgaBoot) (s : Ep6 (Probe D)) (lines : Lines true s) (before : s.selected = true)
    (noBoot : s.control SPI_BOOT_FPGA = false) (noInit : s.control SPI_INIT = false) :
    (upToRead (probed spi) fpga s).selected = true ∧ (upToRead (probed spi) fpga s).dev.changes = s.dev.changes := by
  have booted : onBoot (probed spi) fpga s = s := by rw [onBoot, if_neg (by simp [noBoot])]
  have reset : onInit (probed spi) s = s := by rw [onInit, if_neg (by simp [noInit])]
  rw [upToRead, booted, reset]
  have select := onSelect_span spi s lines
  have write := onWrite_bursts spi _ select.lines
  have same : (onSelect (probed spi) s).selected = true ∧ (onSelect (probed spi) s).dev.changes = s.dev.changes := by
    obtain ⟨drives, low⟩ : s.OEC = true ∧ s.OUTC = false := by simpa [Ep6.selected] using before
    rw [onSelect]
    split
    · simp [Ep6.selected, writeOUTC, settle, probed, Probe.react, Ep6.pins, drives, low]
    · exact ⟨before, rfl⟩
  exact ⟨(Bursts.selected _ _ write).trans same.1, write.changes.trans same.2⟩

theorem onRelease_span (s : Ep6 (Probe D)) (lines : Lines true s) :
    Span s (onRelease (probed spi) s) (s.control SPI_CS_REL) := by
  rw [onRelease]
  split
  case isTrue release =>
    have moves := writeOUTC_moves spi true s
    have high : (writeOUTC (probed spi) true s).selected = false := by simp [Ep6.selected, writeOUTC, settle]
    exact ⟨moves, ⟨lines.pa4, lines.strobe, lines.clock⟩, fun _ before => Moves.released _ _ moves before high⟩
  case isFalse none => exact ⟨Moves.refl s, lines, fun release => absurd release none⟩

theorem onExit_span (s : Ep6 (Probe D)) (lines : Lines true s) :
    Span s (onExit (probed spi) s) (s.control SPI_EXIT) := by
  rw [onExit]
  split
  case isTrue exits =>
    have moves := writeOEC_moves spi false s
    have high : (writeOEC (probed spi) false s).selected = false := by simp [Ep6.selected, writeOEC, settle]
    exact ⟨moves, ⟨lines.pa4, lines.strobe, lines.clock⟩, fun _ before => Moves.released _ _ moves before high⟩
  case isFalse none => exact ⟨Moves.refl s, lines, fun exits => absurd exits none⟩

theorem afterRead_span (s : Ep6 (Probe D)) (lines : Lines true s) :
    Span s (afterRead (probed spi) s) (s.control SPI_CS_REL || s.control SPI_EXIT) := by
  have release := onRelease_span spi s lines
  have exits := onExit_span spi _ release.lines
  rw [Kept.control s _ release.toKept] at exits
  exact Span.trans _ _ _ _ _ release exits

theorem afterRead_still (s : Ep6 (Probe D)) (noRelease : s.control SPI_CS_REL = false) (noExit : s.control SPI_EXIT = false) :
    afterRead (probed spi) s = s := by
  rw [afterRead, onRelease, if_neg (by simp [noRelease]), onExit, if_neg (by simp [noExit])]

end SsAdma
