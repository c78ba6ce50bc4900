import SsAdma.FlashReply

set_option autoImplicit false

namespace SsAdma

open ByteMemory SpiBus SpiFlash

variable (duration : ℕ → ℕ) (fpga : FpgaBoot)

theorem fill_payload (ep : Ep6Command) (bytes : List (BitVec 8)) :
    (List.range bytes.length).map (ep.fill bytes).dout = bytes := by
  refine List.ext_getElem (by simp) fun k inside within => ?_
  rw [List.getElem_map, List.getElem_range]
  have stored := storeAt_inside ep.dout 0 bytes k within
  rwa [Nat.zero_add] at stored

theorem address_ofNat (addr : ℕ) :
    address (BitVec.ofNat 8 (addr >>> 16)) (BitVec.ofNat 8 (addr >>> 8)) (BitVec.ofNat 8 (addr >>> 0)) =
      BitVec.ofNat 24 addr := by
  refine BitVec.eq_of_getLsbD_eq fun i inside => ?_
  simp only [address, BitVec.getLsbD_append, BitVec.getLsbD_ofNat, Nat.testBit_shiftRight, Nat.zero_add]
  rcases Nat.lt_or_ge i 8 with low | high
  · simp [low, inside]
  · have place : 8 + (i - 8) = i := by omega
    rcases Nat.lt_or_ge (i - 8) 8 with middle | top
    · simp [high.not_gt, middle, inside, place]
    · have place : 16 + (i - 8 - 8) = i := by omega
      have last : i - 8 - 8 < 8 := by omega
      simp [high.not_gt, top.not_gt, inside, last, place]

theorem execute_read (f : Flash) (rest : List (BitVec 8)) : f.execute duration (0x03 :: rest) = f := by
  unfold Flash.execute
  split <;> simp_all

theorem execute_status (f : Flash) (rest : List (BitVec 8)) : f.execute duration (0x05 :: rest) = f := by
  unfold Flash.execute
  split <;> simp_all

theorem closed_unchanged (bytes : List (BitVec 8)) (f g : Flash) (shifted : Shifted (bytes.flatMap byteBits) f.tick.select g)
    (harmless : ∀ h : Flash, h.execute duration bytes = h) : g.deselect duration = g := by
  rw [deselect_whole duration g bytes shifted.bits, harmless, ite_self]

structure Untouched (s t : Ep6 Flash) : Prop where
  parked : Parked t
  mem : t.dev.mem = s.dev.mem
  programs : t.dev.programs = s.dev.programs

theorem read_chunk (locals : Locals) (addr size : ℕ) (port : Ep6 Flash) (parked : Parked port) (idle : port.dev.busy = 0)
    (room : addr + size ≤ 2 ^ 24) (short : size < 63) (t : (ℕ → BitVec 8) × Ep6 Flash)
    (read : t = usb_bulk_read (flash duration) (1 + size) locals.reply
      (usb_bulk_write (flash duration) fpga (readCommand locals addr size) 4 port)) :
    Untouched port t.2 ∧ t.2.dev.busy = 0 ∧ ∀ k < size, t.1 (1 + k) = port.dev.mem (addr + k) := by
  have sends : Sends (readCommand locals addr size) [SPI_WRITE, SPI_READ, SPI_CS_SEL, SPI_CS_REL]
      (withAddress SPIFLASH_CMD_READ addr) := ⟨rfl, rfl, fill_payload locals.ep _⟩
  have count : (readCommand locals addr size).din_len.toNat = size := by
    rw [readCommand, BitVec.toNat_ofNat, Nat.mod_eq_of_lt (by omega)]
  obtain ⟨after, g, closed, replied⟩ := read_exchange duration fpga _ _ port size locals.reply parked sends
    (List.cons_ne_nil _ _) count short
  obtain ⟨junk, many, shifted, answers⟩ := replied.bytes
  have four : (withAddress SPIFLASH_CMD_READ addr).length = 4 := rfl
  rw [four, ← read] at after closed answers
  rw [closed_unchanged duration _ port.dev g shifted fun h => execute_read duration h _] at closed
  have still : g.busy ≤ port.dev.busy - 1 := shifted.busy
  refine ⟨⟨after, closed ▸ shifted.mem, closed ▸ shifted.programs⟩, by rw [closed]; omega, fun k inside => ?_⟩
  refine BitVec.eq_of_getLsbD_eq fun i bit => ?_
  obtain ⟨time, _, _, got⟩ := answers k (many ▸ inside) i bit
  have ready : port.dev.tick.select.ready = true := by simp [Flash.select, Flash.tick, idle]
  have place : (BitVec.ofNat 24 addr + BitVec.ofNat 24 (junk.take k).length).toNat = addr + k := by
    rw [List.length_take, many, Nat.min_eq_left inside.le, BitVec.toNat_add, BitVec.toNat_ofNat, BitVec.toNat_ofNat]
    omega
  have answer : { port.dev.tick.select with busy := time }.answerTo (withAddress SPIFLASH_CMD_READ addr ++ junk.take k) =
      if port.dev.tick.select.ready then port.dev.mem (address (BitVec.ofNat 8 (addr >>> 16)) (BitVec.ofNat 8 (addr >>> 8))
        (BitVec.ofNat 8 (addr >>> 0)) + BitVec.ofNat 24 (junk.take k).length).toNat else 0xff := rfl
  rw [address_ofNat, place, if_pos ready] at answer
  exact got.trans (congrArg (BitVec.getLsbD · i) answer)

theorem spiflashRead_reads (nbytes : ℕ) (locals : Locals) (addr : ℕ) (port : Ep6 Flash) (parked : Parked port)
    (idle : port.dev.busy = 0) (room : addr + nbytes ≤ 2 ^ 24) :
    (spiflashRead (flash duration) fpga locals addr nbytes port).1 =
        (List.range nbytes).map (fun i => port.dev.mem (addr + i)) ∧
      Untouched port (spiflashRead (flash duration) fpga locals addr nbytes port).2 := by
  induction nbytes using Nat.strong_induction_on generalizing locals addr port with
  | _ nbytes ih =>
      rw [spiflashRead]
      split
      case isTrue none =>
        rw [none]
        exact ⟨rfl, parked, rfl, rfl⟩
      case isFalse some =>
        have size : 0 < (if nbytes > SPI_MAX_SIZE then SPI_MAX_SIZE else nbytes) ∧
            (if nbytes > SPI_MAX_SIZE then SPI_MAX_SIZE else nbytes) ≤ nbytes ∧
            (if nbytes > SPI_MAX_SIZE then SPI_MAX_SIZE else nbytes) < 63 := by
          rw [SPI_MAX_SIZE]
          split <;> omega
        dsimp only
        generalize (if nbytes > SPI_MAX_SIZE then SPI_MAX_SIZE else nbytes) = n at size
        generalize got : usb_bulk_read (flash duration) (1 + n) locals.reply
          (usb_bulk_write (flash duration) fpga (readCommand locals addr n) 4 port) = t
        obtain ⟨touched, still, bytes⟩ :=
          read_chunk duration fpga locals addr n port parked idle (by omega) size.2.2 t got.symm
        obtain ⟨rest, ended⟩ := ih (nbytes - n) (by omega) ⟨readCommand locals addr n, t.1⟩ (addr + n) t.2
          touched.parked still (by omega)
        refine ⟨?_, ended.parked, ended.mem.trans touched.mem, ended.programs.trans touched.programs⟩
        have split : List.range nbytes = List.range n ++ (List.range (nbytes - n)).map (n + ·) := by
          rw [← List.range_add, Nat.add_sub_cancel' size.2.1]
        rw [rest, split, List.map_append, List.map_map]
        refine congrArg₂ _ (List.map_congr_left fun k inside => bytes k (List.mem_range.mp inside)) ?_
        refine List.map_congr_left fun k _ => ?_
        rw [touched.mem, Function.comp_apply, Nat.add_assoc]

theorem statusStops_iff (state : Locals × Ep6 Flash) :
    statusStops 1 state = true ↔ (state.1.reply 1).getLsbD 0 = false := by
  have one : (state.1.reply 1).zeroExtend 32 &&& (1 : BitVec 32) = (BitVec.ofBool ((state.1.reply 1).getLsbD 0)).setWidth 32 :=
    BitVec.and_one_eq_setWidth_ofBool_getLsbD.trans (by simp)
  rw [statusStops, decide_eq_true_iff, SPIFLASH_STATUS_BUSY, BitVec.and_assoc, BitVec.and_self, one]
  cases (state.1.reply 1).getLsbD 0 <;> decide

structure Polled (s : Ep6 Flash) (t : Locals × Ep6 Flash) : Prop extends Untouched s t.2 where
  sooner : t.2.dev.busy ≤ s.dev.busy - 1
  finished : statusStops 1 t = true → t.2.dev.busy = 0
  stops : s.dev.busy = 0 → statusStops 1 t = true

theorem status_busy (f : Flash) : f.status.getLsbD 0 = decide (f.busy ≠ 0) := by
  rw [Flash.status]
  by_cases done : f.busy = 0 <;> cases f.wel <;> simp [done]

theorem pollStatus_polled (locals : Locals) (port : Ep6 Flash) (parked : Parked port) :
    Polled port (pollStatus (flash duration) fpga (locals, port)) := by
  have sends : Sends (pollCommand locals) [SPI_WRITE, SPI_READ, SPI_CS_SEL, SPI_CS_REL] [SPIFLASH_CMD_RDSR] :=
    ⟨rfl, rfl, fill_payload locals.ep _⟩
  obtain ⟨after, g, closed, replied⟩ := read_exchange duration fpga _ _ port 1 locals.reply parked sends
    (List.cons_ne_nil _ _) rfl (by omega)
  obtain ⟨junk, many, shifted, answers⟩ := replied.bytes
  rw [closed_unchanged duration _ port.dev g shifted fun h => execute_status duration h _] at closed
  obtain ⟨time, low, high, got⟩ := answers 0 (many ▸ Nat.zero_lt_one) 0 (by omega)
  have answer : { port.dev.tick.select with busy := time }.answerTo ([SPIFLASH_CMD_RDSR] ++ junk.take 0) =
      { port.dev.tick.select with busy := time }.status := rfl
  rw [answer, status_busy] at got
  rw [pollStatus]
  generalize usb_bulk_read (flash duration) (1 + 1) locals.reply
    (usb_bulk_write (flash duration) fpga (pollCommand locals) [SPIFLASH_CMD_RDSR].length port) = t at after closed got
  have ended : Untouched port t.2 := ⟨after, closed ▸ shifted.mem, closed ▸ shifted.programs⟩
  refine ⟨ended, closed ▸ shifted.busy, fun stops => ?_, fun idle => ?_⟩
  · have clear : (t.1 (1 + 0)).getLsbD 0 = false := (statusStops_iff _).mp stops
    have done : time = 0 := by simpa using got.symm.trans clear
    rw [closed]
    exact Nat.le_zero.mp (low.trans done.le)
  · have done : time = 0 := Nat.le_zero.mp (high.trans (by simp [Flash.select, Flash.tick, idle]))
    exact (statusStops_iff _).mpr (got.trans (by simp [done]))

theorem Untouched.trans (s t u : Ep6 Flash) (first : Untouched s t) (second : Untouched t u) : Untouched s u :=
  ⟨second.parked, second.mem.trans first.mem, second.programs.trans first.programs⟩

theorem polls_end (left : ℕ) (state : Locals × Ep6 Flash) (parked : Parked state.2) (atMost : state.2.dev.busy ≤ left)
    (finished : statusStops 1 state = true → state.2.dev.busy = 0) :
    ∃ last, Loop.run (statusStops 1) (pollStatus (flash duration) fpga) (left + 1) state = some last ∧
      Untouched state.2 last.2 ∧ last.2.dev.busy = 0 := by
  induction left generalizing state with
  | zero =>
      have polled := pollStatus_polled duration fpga state.1 state.2 parked
      cases stops : statusStops 1 state with
      | true => exact ⟨state, Loop.run_stopped _ _ _ _ stops, ⟨parked, rfl, rfl⟩, finished stops⟩
      | false =>
          have done := polled.stops (Nat.le_zero.mp atMost)
          refine ⟨_, ?_, polled.toUntouched, polled.finished done⟩
          rw [Loop.run_step _ _ _ _ stops, Loop.run_stopped _ _ _ _ done]
  | succ left ih =>
      cases stops : statusStops 1 state with
      | true => exact ⟨state, Loop.run_stopped _ _ _ _ stops, ⟨parked, rfl, rfl⟩, finished stops⟩
      | false =>
          have polled := pollStatus_polled duration fpga state.1 state.2 parked
          have less : (pollStatus (flash duration) fpga state).2.dev.busy ≤ left :=
            polled.sooner.trans (Nat.sub_le_of_le_add atMost)
          obtain ⟨last, result, touched, idle⟩ := ih _ polled.parked less polled.finished
          exact ⟨last, (Loop.run_step _ _ _ _ stops).trans result, Untouched.trans _ _ _ polled.toUntouched touched, idle⟩

theorem spi_status_waits (locals : Locals) (port : Ep6 Flash) (parked : Parked port) :
    ∃ enough idle, Untouched port idle ∧ idle.dev.busy = 0 ∧
      ∀ polls ≥ enough, spi_status (flash duration) fpga 1 polls locals port = some idle := by
  have polled := pollStatus_polled duration fpga locals port parked
  obtain ⟨last, result, touched, idle⟩ := polls_end duration fpga _ _ polled.parked le_rfl polled.finished
  refine ⟨(pollStatus (flash duration) fpga (locals, port)).2.dev.busy + 1, last.2,
    Untouched.trans _ _ _ polled.toUntouched touched, idle, fun polls enough => ?_⟩
  rw [spi_status, Loop.run_mono _ _ _ polls _ _ result enough, Option.map_some]

end SsAdma
