import SsAdma.FlashRead

set_option autoImplicit false

namespace SsAdma

open ByteMemory SpiBus SpiFlash

variable (duration : ℕ → ℕ) (fpga : FpgaBoot)

theorem writeEnable_enables (w : Writing Flash) (parked : Parked w.port) (idle : w.port.dev.busy = 0) :
    Untouched w.port (writeEnable (flash duration) fpga w).port ∧
      (writeEnable (flash duration) fpga w).port.dev.busy = 0 ∧
      (writeEnable (flash duration) fpga w).port.dev.wel = true := by
  obtain ⟨after, g, shifted, closed⟩ := window_command duration fpga
    { w.ep.fill [SPIFLASH_CMD_WREN] with
      control := flags [SPI_WRITE, SPI_CS_SEL, SPI_CS_REL], dout_len := 1, din_len := 0 }
    [SPIFLASH_CMD_WREN] w.port parked ⟨rfl, rfl, fill_payload w.ep _⟩
  have ready : g.ready = true := shifted.ready.trans (by simp [Flash.select, Flash.tick, idle])
  have enabled : g.execute duration [SPIFLASH_CMD_WREN] = { g with wel := true } := rfl
  rw [deselect_whole duration g [SPIFLASH_CMD_WREN] shifted.bits, if_pos ready, enabled] at closed
  have still : g.busy ≤ w.port.dev.busy - 1 := shifted.busy
  rw [writeEnable]
  exact ⟨⟨after, (congrArg Flash.mem closed).trans shifted.mem, (congrArg Flash.programs closed).trans shifted.programs⟩,
    (congrArg Flash.busy closed).trans (by dsimp only; omega), congrArg Flash.wel closed⟩

structure Programming (w : Writing Flash) (mem : ℕ → BitVec 8) (programs : List Program) (bytes : List (BitVec 8)) :
    Prop where
  selected : Selected w.port
  mem : w.port.dev.mem = mem
  programs : w.port.dev.programs = programs
  wel : w.port.dev.wel = true
  ready : w.port.dev.ready = true
  bits : w.port.dev.bits = bytes.flatMap byteBits
  busy : w.port.dev.busy = 0

theorem beginWrite_programming (w : Writing Flash) (parked : Parked w.port) (idle : w.port.dev.busy = 0)
    (wel : w.port.dev.wel = true) :
    Programming (beginWrite (flash duration) fpga w) w.port.dev.mem w.port.dev.programs
      (withAddress SPIFLASH_CMD_PAGEPROG w.addr) := by
  obtain ⟨selected, shifted⟩ := opening_command duration fpga
    { w.ep.fill (withAddress SPIFLASH_CMD_PAGEPROG w.addr) with
      control := flags [SPI_WRITE, SPI_CS_SEL], dout_len := 4 }
    (withAddress SPIFLASH_CMD_PAGEPROG w.addr) w.port parked ⟨rfl, rfl, fill_payload w.ep _⟩
  have still : w.port.dev.tick.select.busy = 0 := by simp [Flash.select, Flash.tick, idle]
  rw [beginWrite]
  exact ⟨selected, shifted.mem, shifted.programs, shifted.wel.trans wel,
    shifted.ready.trans (by simp [Flash.select, Flash.tick, idle]), shifted.bits, Nat.le_zero.mp (shifted.busy.trans still.le)⟩

theorem writeChunk_programming (n : ℕ) (w : Writing Flash) (mem : ℕ → BitVec 8) (programs : List Program)
    (bytes : List (BitVec 8)) (programming : Programming w mem programs bytes) (enough : n ≤ w.data.length)
    (short : n < 63) :
    Programming (writeChunk (flash duration) fpga n w) mem programs (bytes ++ w.data.take n) := by
  have length : (w.data.take n).length = n := by rw [List.length_take]; omega
  obtain ⟨selected, shifted⟩ := data_command duration fpga
    { w.ep.fill (w.data.take n) with control := flags [SPI_WRITE], dout_len := BitVec.ofNat 8 n }
    (w.data.take n) w.port programming.selected
    ⟨rfl, by rw [length, BitVec.toNat_ofNat, Nat.mod_eq_of_lt (by omega)], fill_payload w.ep _⟩
  rw [length] at selected shifted
  rw [writeChunk]
  exact ⟨selected, shifted.mem.trans programming.mem, shifted.programs.trans programming.programs,
    shifted.wel.trans programming.wel, shifted.ready.trans programming.ready,
    shifted.bits.trans (by rw [programming.bits, List.flatMap_append]), Nat.le_zero.mp (shifted.busy.trans programming.busy.le)⟩

theorem writeData_programming (pagelen : ℕ) (w : Writing Flash) (mem : ℕ → BitVec 8) (programs : List Program)
    (bytes : List (BitVec 8)) (programming : Programming w mem programs bytes) (enough : pagelen ≤ w.data.length) :
    Programming (writeData (flash duration) fpga pagelen w) mem programs (bytes ++ w.data.take pagelen) ∧
      (writeData (flash duration) fpga pagelen w).data = w.data.drop pagelen ∧
      (writeData (flash duration) fpga pagelen w).addr = w.addr := by
  induction pagelen using Nat.strong_induction_on generalizing w bytes with
  | _ pagelen ih =>
      rw [writeData]
      split
      case isTrue none =>
        rw [none, List.take_zero, List.append_nil]
        exact ⟨programming, rfl, rfl⟩
      case isFalse some =>
        have size : 0 < (if pagelen > SPI_MAX_SIZE then SPI_MAX_SIZE else pagelen) ∧
            (if pagelen > SPI_MAX_SIZE then SPI_MAX_SIZE else pagelen) ≤ pagelen ∧
            (if pagelen > SPI_MAX_SIZE then SPI_MAX_SIZE else pagelen) < 63 := by
          rw [SPI_MAX_SIZE]
          split <;> omega
        dsimp only
        generalize (if pagelen > SPI_MAX_SIZE then SPI_MAX_SIZE else pagelen) = n at size
        have chunk := writeChunk_programming duration fpga n w mem programs bytes programming (by omega) size.2.2
        have rest : (writeChunk (flash duration) fpga n w).data = w.data.drop n := rfl
        obtain ⟨next, data, addr⟩ := ih (pagelen - n) (by omega) _ _ chunk (by rw [rest, List.length_drop]; omega)
        rw [rest] at next data
        have split : w.data.take pagelen = w.data.take n ++ (w.data.drop n).take (pagelen - n) := by
          rw [← List.take_add, Nat.add_sub_cancel' size.2.1]
        have dropped : w.data.drop pagelen = (w.data.drop n).drop (pagelen - n) := by
          rw [List.drop_drop, Nat.add_sub_cancel' size.2.1]
        rw [split, ← List.append_assoc, dropped]
        exact ⟨next, data, addr⟩

structure Erased (mem : ℕ → BitVec 8) (addr length : ℕ) : Prop where
  aligned : addr % 256 = 0
  room : addr + length ≤ 2 ^ 24
  erased : ∀ k, addr ≤ k → k < addr + length → mem k = 0xff

theorem endWrite_programs (w : Writing Flash) (mem : ℕ → BitVec 8) (programs : List Program) (addr : ℕ)
    (data : List (BitVec 8)) (programming : Programming w mem programs (withAddress SPIFLASH_CMD_PAGEPROG addr ++ data))
    (some : data ≠ []) (page : data.length ≤ 256) (target : Erased mem addr data.length) :
    Parked (endWrite (flash duration) fpga w).port ∧
      (endWrite (flash duration) fpga w).port.dev.mem = storeAt mem addr data ∧
      (endWrite (flash duration) fpga w).port.dev.programs = programs ++ [⟨BitVec.ofNat 24 addr, data⟩] := by
  obtain ⟨parked, closed⟩ := closing_command duration fpga
    { w.ep with control := flags [SPI_CS_REL], dout_len := 0, din_len := 0 } w.port programming.selected ⟨rfl, rfl, rfl⟩
  have bits : w.port.dev.tick.bits = _ := programming.bits
  have ready : w.port.dev.tick.ready = true := programming.ready
  have wel : w.port.dev.tick.wel = true := programming.wel
  have positive : 0 < data.length := List.length_pos_iff.mpr some
  have place : (BitVec.ofNat 24 addr).toNat = addr := by
    rw [BitVec.toNat_ofNat, Nat.mod_eq_of_lt (by have := target.room; omega)]
  have stored := programmed_erased mem (BitVec.ofNat 24 addr) data (by rw [place]; exact target.aligned) page
    (by rw [place]; exact target.erased)
  obtain ⟨byte, rest, rfl⟩ := List.exists_cons_of_ne_nil some
  have executed : w.port.dev.tick.execute duration (withAddress SPIFLASH_CMD_PAGEPROG addr ++ byte :: rest) =
      if w.port.dev.tick.wel then
        { w.port.dev.tick with
          mem := programmed w.port.dev.mem (address (BitVec.ofNat 8 (addr >>> 16)) (BitVec.ofNat 8 (addr >>> 8))
            (BitVec.ofNat 8 (addr >>> 0))) (byte :: rest)
          wel := false
          busy := duration w.port.dev.programs.length
          programs := w.port.dev.programs ++ [⟨address (BitVec.ofNat 8 (addr >>> 16)) (BitVec.ofNat 8 (addr >>> 8))
            (BitVec.ofNat 8 (addr >>> 0)), byte :: rest⟩] }
      else w.port.dev.tick := rfl
  rw [address_ofNat, if_pos wel, programming.mem, programming.programs, stored, place] at executed
  rw [deselect_whole duration _ _ bits, if_pos ready, executed] at closed
  rw [endWrite]
  exact ⟨parked, congrArg Flash.mem closed, congrArg Flash.programs closed⟩

theorem writePage_writes (stack : ℕ → Locals) (nbytes page : ℕ) (w : Writing Flash) (parked : Parked w.port)
    (idle : w.port.dev.busy = 0) (some : 0 < pageLength nbytes page) (short : pageLength nbytes page ≤ 256)
    (enough : pageLength nbytes page ≤ w.data.length) (target : Erased w.port.dev.mem w.addr (pageLength nbytes page)) :
    ∃ polls v, Parked v.port ∧ v.port.dev.busy = 0 ∧ v.addr = w.addr + pageLength nbytes page ∧
      v.data = w.data.drop (pageLength nbytes page) ∧
      v.port.dev.mem = storeAt w.port.dev.mem w.addr (w.data.take (pageLength nbytes page)) ∧
      v.port.dev.programs =
        w.port.dev.programs ++ [⟨BitVec.ofNat 24 w.addr, w.data.take (pageLength nbytes page)⟩] ∧
      ∀ more ≥ polls, writePage (flash duration) fpga stack more nbytes w page = Option.some v := by
  obtain ⟨first, still, wel⟩ := writeEnable_enables duration fpga w parked idle
  have begun := beginWrite_programming duration fpga _ first.parked still wel
  have same : (writeEnable (flash duration) fpga w).addr = w.addr := rfl
  rw [first.mem, first.programs, same] at begun
  generalize length : pageLength nbytes page = pagelen at some short enough target
  generalize began : beginWrite (flash duration) fpga (writeEnable (flash duration) fpga w) = b at begun
  have data : b.data = w.data := by rw [← began]; rfl
  have addr : b.addr = w.addr := by rw [← began]; rfl
  have moved : Programming { b with addr := b.addr + pagelen } _ _ _ :=
    ⟨begun.selected, begun.mem, begun.programs, begun.wel, begun.ready, begun.bits, begun.busy⟩
  obtain ⟨filled, dropped, kept⟩ := writeData_programming duration fpga pagelen { b with addr := b.addr + pagelen } _ _ _
    moved (data ▸ enough)
  generalize written : writeData (flash duration) fpga pagelen { b with addr := b.addr + pagelen } = d at filled dropped kept
  have many : (w.data.take pagelen).length = pagelen := by rw [List.length_take]; omega
  dsimp only at filled dropped kept
  rw [data] at filled dropped
  obtain ⟨after, mem, programs⟩ := endWrite_programs duration fpga d _ _ w.addr (w.data.take pagelen) filled
    (List.ne_nil_of_length_pos (by omega)) (by omega) (many.symm ▸ target)
  obtain ⟨polls, last, touched, done, result⟩ := spi_status_waits duration fpga (stack page) _ after
  refine ⟨polls, { endWrite (flash duration) fpga d with port := last }, touched.parked, done, ?_, dropped,
    touched.mem.trans mem, touched.programs.trans programs, fun more fuel => ?_⟩
  · exact kept.trans (by rw [addr])
  · rw [writePage]
    dsimp only
    rw [began, length, written, result more fuel, Option.map_some]

def pageOf (addr : ℕ) (data : List (BitVec 8)) (page : ℕ) : Program :=
  ⟨BitVec.ofNat 24 (addr + 256 * page), (data.drop (256 * page)).take 256⟩

def pagesOf (addr : ℕ) (data : List (BitVec 8)) : List Program :=
  (List.range ((data.length + SPIFLASH_PAGESIZE - 1) >>> 8)).map (pageOf addr data)

theorem pageLength_eq (nbytes page : ℕ) : pageLength nbytes page = min 256 (nbytes - 256 * page) := by
  rw [pageLength, Nat.shiftLeft_eq, SPIFLASH_PAGESIZE]
  split <;> omega

theorem pages_eq (nbytes : ℕ) : (nbytes + SPIFLASH_PAGESIZE - 1) >>> 8 = (nbytes + 255) / 256 := by
  rw [Nat.shiftRight_eq_div_pow]
  rfl

structure Written (addr : ℕ) (data : List (BitVec 8)) (mem : ℕ → BitVec 8) (programs : List Program) (page : ℕ)
    (w : Writing Flash) : Prop where
  parked : Parked w.port
  idle : w.port.dev.busy = 0
  place : w.addr = addr + min (256 * page) data.length
  left : w.data = data.drop (256 * page)
  mem : w.port.dev.mem = storeAt mem addr (data.take (256 * page))
  programs : w.port.dev.programs = programs ++ (List.range page).map (pageOf addr data)

theorem written_page (stack : ℕ → Locals) (addr : ℕ) (data : List (BitVec 8)) (mem : ℕ → BitVec 8) (programs : List Program)
    (page : ℕ) (w : Writing Flash) (written : Written addr data mem programs page w) (more : 256 * page < data.length)
    (target : Erased mem addr data.length) :
    ∃ polls v, Written addr data mem programs (page + 1) v ∧
      ∀ fuel ≥ polls, writePage (flash duration) fpga stack fuel data.length w page = some v := by
  have length := pageLength_eq data.length page
  have here : w.addr = addr + 256 * page := by rw [written.place, Nat.min_eq_left more.le]
  have left : w.data.length = data.length - 256 * page := by rw [written.left, List.length_drop]
  have front : (data.take (256 * page)).length = 256 * page := by rw [List.length_take]; omega
  have erased : Erased w.port.dev.mem w.addr (pageLength data.length page) := by
    refine ⟨by rw [here]; have := target.aligned; omega, by rw [here]; have := target.room; omega, fun k from_ upTo => ?_⟩
    rw [written.mem, storeAt_behind _ _ _ k (by omega)]
    exact target.erased k (by omega) (by omega)
  obtain ⟨polls, v, parked, idle, moved, rest, stored, logged, result⟩ := writePage_writes duration fpga stack data.length
    page w written.parked written.idle (by omega) (by omega) (by omega) erased
  have split : w.data.take (pageLength data.length page) = (data.drop (256 * page)).take 256 ∧
      w.data.drop (pageLength data.length page) = data.drop (256 * (page + 1)) := by
    rcases Nat.le_total 256 (data.length - 256 * page) with full | tail
    · rw [length, Nat.min_eq_left full, written.left, List.drop_drop, Nat.mul_succ]
      exact ⟨rfl, rfl⟩
    · rw [length, Nat.min_eq_right tail, ← left, List.take_length, List.drop_length, ← written.left,
        List.take_of_length_le (by omega), List.drop_of_length_le (by omega)]
      exact ⟨rfl, rfl⟩
  refine ⟨polls, v, ⟨parked, idle, ?_, rest.trans split.2, ?_, ?_⟩, result⟩
  · rw [moved, here, length]
    omega
  · have joined := storeAt_append mem addr (data.take (256 * page)) ((data.drop (256 * page)).take 256)
    rw [stored, split.1, written.mem, here]
    rw [front] at joined
    rw [joined, ← List.take_add, Nat.mul_succ]
  · rw [logged, split.1, here, written.programs, List.range_succ, List.map_append, List.append_assoc]
    rfl

theorem written_pages (stack : ℕ → Locals) (addr : ℕ) (data : List (BitVec 8)) (mem : ℕ → BitVec 8) (programs : List Program)
    (count page : ℕ) (w : Writing Flash) (written : Written addr data mem programs page w)
    (target : Erased mem addr data.length) (last : 256 * (page + count) < data.length + 256) :
    ∃ polls v, Written addr data mem programs (page + count) v ∧
      ∀ fuel ≥ polls, (List.range' page count).foldlM (writePage (flash duration) fpga stack fuel data.length) w = some v := by
  induction count generalizing page w with
  | zero => exact ⟨0, w, written, fun _ _ => rfl⟩
  | succ count ih =>
      obtain ⟨polls, v, next, result⟩ := written_page duration fpga stack addr data mem programs page w written
        (by omega) target
      obtain ⟨others, u, ended, rest⟩ := ih (page + 1) v next (by omega)
      refine ⟨max polls others, u, ?_, fun fuel enough => ?_⟩
      · rw [← Nat.add_assoc, Nat.add_right_comm]
        exact ended
      · rw [List.range'_succ, List.foldlM_cons, result fuel (le_of_max_le_left enough)]
        exact rest fuel (le_of_max_le_right enough)

theorem spiflashWrite_writes (locals : Locals) (stack : ℕ → Locals) (addr : ℕ) (data : List (BitVec 8)) (port : Ep6 Flash)
    (parked : Parked port) (idle : port.dev.busy = 0) (target : Erased port.dev.mem addr data.length) :
    ∃ polls written, Parked written ∧ written.dev.busy = 0 ∧ written.dev.mem = storeAt port.dev.mem addr data ∧
      written.dev.programs = port.dev.programs ++ pagesOf addr data ∧
      ∀ fuel ≥ polls, spiflashWrite (flash duration) fpga locals stack fuel addr data.length data port = some written := by
  have started : Written addr data port.dev.mem port.dev.programs 0 ⟨locals.ep, addr, data, port⟩ := by
    refine ⟨parked, idle, by simp, rfl, ?_, (List.append_nil _).symm⟩
    funext k
    rw [Nat.mul_zero, List.take_zero, storeAt, List.getElem?_nil, Option.getD_none, ite_self]
  obtain ⟨polls, v, ended, result⟩ := written_pages duration fpga stack addr data _ _ ((data.length + 255) / 256) 0 _
    started target (by omega)
  rw [Nat.zero_add] at ended
  have all : data.take (256 * ((data.length + 255) / 256)) = data := List.take_of_length_le (by omega)
  refine ⟨polls, v.port, ended.parked, ended.idle, ended.mem.trans (by rw [all]), ?_, fun fuel enough => ?_⟩
  · rw [ended.programs, pagesOf, pages_eq]
  · rw [spiflashWrite, pages_eq, List.range_eq_range', result fuel enough, Option.map_some]

theorem pagesOf_inside (addr : ℕ) (data : List (BitVec 8)) (aligned : addr % 256 = 0) (room : addr + data.length ≤ 2 ^ 24)
    (program : Program) (member : program ∈ pagesOf addr data) :
    program.addr.toNat % 256 = 0 ∧ program.data.length ≤ 256 := by
  obtain ⟨page, inside, rfl⟩ := List.mem_map.mp member
  rw [pages_eq, List.mem_range] at inside
  have place : (BitVec.ofNat 24 (addr + 256 * page)).toNat = addr + 256 * page := by
    rw [BitVec.toNat_ofNat, Nat.mod_eq_of_lt (by omega)]
  exact ⟨by rw [pageOf, place]; omega, List.length_take_le _ _⟩

theorem deselect_empty (f : Flash) (none : f.bits = []) : f.deselect duration = f := by
  rw [deselect_whole duration f [] none]
  exact ite_self f

theorem spi_reset_harmless (s : Ep6 Flash) (lines : Lines true s) (undriven : s.OEC = false) :
    (spi_reset (flash duration) s).dev.mem = s.dev.mem ∧ (spi_reset (flash duration) s).dev.programs = s.dev.programs ∧
      (spi_reset (flash duration) s).dev.busy ≤ s.dev.busy := by
  cases level : s.OUTC <;>
    simp [spi_reset, spi_setMOSI, spi_bitMOSI, spi_clearSCK, writeOUTA, writeOUTC, writeOEC, settle, flash, Flash.react,
      Ep6.pins, lines.pa4, lines.strobe, undriven, level, deselect_empty, Flash.select, Flash.tick] <;>
    omega

theorem spiInit_parked (port : Ep6 Flash) (lines : Lines true port) (undriven : port.OEC = false)
    (free : port.in6Busy = false) (quiet : port.ep6in_pending = false) :
    Parked (spiInit (flash duration) fpga port) ∧ (spiInit (flash duration) fpga port).dev.mem = port.dev.mem ∧
      (spiInit (flash duration) fpga port).dev.programs = port.dev.programs ∧
      (spiInit (flash duration) fpga port).dev.busy ≤ port.dev.busy := by
  generalize command : (⟨flags [SPI_INIT], 0, 0, fun _ => 0⟩ : Ep6Command) = ep
  have sends : Sends ep [SPI_INIT] [] := by
    rw [← command]
    exact ⟨rfl, rfl, rfl⟩
  have flag := Sends.flag ep _ [] sends
  have loaded : Loaded ep [] (store out6buf (ep.packet 0) port) := Sends.loaded ep _ [] port sends
  have kept := Loaded.same ep [] _ (spi_reset (flash duration) (store out6buf (ep.packet 0) port)) loaded rfl
  have resets : (store out6buf (ep.packet 0) port).control SPI_INIT = true := (loaded.control _).trans (flag SPI_INIT)
  have boots := (loaded.control SPI_BOOT_FPGA).trans (flag SPI_BOOT_FPGA)
  have selects := (kept.control SPI_CS_SEL).trans (flag SPI_CS_SEL)
  have writes := (kept.control SPI_WRITE).trans (flag SPI_WRITE)
  have reset : spiInit (flash duration) fpga port = spi_reset (flash duration) (store out6buf (ep.packet 0) port) := by
    rw [spiInit, command, usb_bulk_write, out6Interrupt, endpoint6_out, upToRead, onBoot, if_neg (by rw [boots]; decide),
      onInit, if_pos resets, onSelect, if_neg (by rw [selects]; decide), onWrite, if_neg (by rw [writes]; decide),
      onRead_plain duration ep [] _ kept (flag SPI_READ),
      afterRead_stays duration ep [] _ kept (flag SPI_CS_REL) (flag SPI_EXIT)]
  rw [reset]
  have rest : Lines true (store out6buf (ep.packet 0) port) := store_lines true _ _ port lines
  exact ⟨⟨⟨lines.pa4, lines.strobe, rfl⟩, rfl, rfl, free, quiet⟩, spi_reset_harmless duration _ rest undriven⟩

theorem flash_round_trip (locals again : Locals) (stack : ℕ → Locals) (addr : ℕ) (data : List (BitVec 8)) (port : Ep6 Flash)
    (parked : Parked port) (idle : port.dev.busy = 0) (aligned : addr % 256 = 0) (room : addr + data.length ≤ 2 ^ 24)
    (erased : ∀ k, addr ≤ k → k < addr + data.length → port.dev.mem k = 0xff) :
    ∃ polls written,
      (∀ fuel ≥ polls, spiflashWrite (flash duration) fpga locals stack fuel addr data.length data port = some written) ∧
      (spiflashRead (flash duration) fpga again addr data.length written).1 = data ∧
      (spiflashRead (flash duration) fpga again addr data.length written).2.dev.programs =
        port.dev.programs ++ pagesOf addr data ∧
      (∀ program ∈ pagesOf addr data, program.addr.toNat % 256 + program.data.length ≤ 256) ∧
      ∀ k, k < addr ∨ addr + data.length ≤ k →
        (spiflashRead (flash duration) fpga again addr data.length written).2.dev.mem k = port.dev.mem k := by
  obtain ⟨polls, written, after, done, mem, programs, result⟩ := spiflashWrite_writes duration fpga locals stack addr data
    port parked idle ⟨aligned, room, erased⟩
  obtain ⟨bytes, touched⟩ := spiflashRead_reads duration fpga data.length again addr written after done room
  refine ⟨polls, written, result, ?_, touched.programs.trans programs, fun program member => ?_, fun k outside => ?_⟩
  · rw [bytes, mem]
    refine List.ext_getElem (by simp) fun i inside within => ?_
    rw [List.getElem_map, List.getElem_range]
    exact storeAt_inside port.dev.mem addr data i within
  · have inside := pagesOf_inside addr data aligned room program member
    omega
  · rw [touched.mem, mem]
    rcases outside with before | behind
    · exact storeAt_before _ _ _ k before
    · exact storeAt_behind _ _ _ k behind

def erasedPort : Ep6 Flash where
  OUTA := false
  PORTACFG := true
  fwr := false
  OUTC := true
  OEC := true
  FIFO := true
  xdata := fun _ => 0
  in6Busy := false
  IN6BC := 0
  ep6in_len := 0
  ep6in_pending := false
  dev := ⟨fun _ => 0xff, false, 0, [], false, [], true⟩

def noBoot : FpgaBoot := ⟨false, false, fun _ => false⟩

def someLocals : Locals := ⟨⟨0, 0, 0, fun _ => 0⟩, fun _ => 0⟩

def someBytes : List (BitVec 8) := (List.range 600).map (BitVec.ofNat 8)

theorem flash_round_trip_pages :
    ∃ polls written,
      spiflashWrite (flash fun _ => 5) noBoot someLocals (fun _ => someLocals) polls 256 600 someBytes erasedPort = some written ∧
      (spiflashRead (flash fun _ => 5) noBoot someLocals 256 600 written).1 = someBytes ∧
      (spiflashRead (flash fun _ => 5) noBoot someLocals 256 600 written).2.dev.programs = pagesOf 256 someBytes := by
  have length : someBytes.length = 600 := by simp [someBytes]
  obtain ⟨polls, written, result, bytes, pages, _⟩ := flash_round_trip (fun _ => 5) noBoot someLocals someLocals
    (fun _ => someLocals) 256 someBytes erasedPort ⟨⟨rfl, rfl, rfl⟩, rfl, rfl, rfl, rfl⟩ rfl (by decide)
    (by rw [length]; decide) (fun _ _ _ => rfl)
  rw [length] at result bytes pages
  exact ⟨polls, written, result polls le_rfl, bytes, pages.trans (List.nil_append _)⟩

end SsAdma
