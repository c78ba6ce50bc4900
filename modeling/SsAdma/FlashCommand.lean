import SsAdma.FlashClock
import SsAdma.SpiHost

set_option autoImplicit false

namespace SsAdma

open ByteMemory SpiBus SpiFlash

variable (duration : ℕ → ℕ) (fpga : FpgaBoot)

structure Parked (s : Ep6 Flash) : Prop extends Lines true s where
  oec : s.OEC = true
  outc : s.OUTC = true
  free : s.in6Busy = false
  quiet : s.ep6in_pending = false

structure Loaded (ep : Ep6Command) (bytes : List (BitVec 8)) (s : Ep6 Flash) : Prop where
  control : ∀ bit, s.control bit = ep.control.getLsbD bit
  din_len : s.din_len = ep.din_len
  payload : (List.range s.dout_len.toNat).map s.dout = bytes

theorem Loaded.same (ep : Ep6Command) (bytes : List (BitVec 8)) (s t : Ep6 Flash) (loaded : Loaded ep bytes s)
    (xdata : t.xdata = s.xdata) : Loaded ep bytes t := by
  have dout : t.dout = s.dout := by
    funext j
    rw [Ep6.dout, xdata, Ep6.dout]
  refine ⟨fun bit => ?_, ?_, ?_⟩
  · rw [Ep6.control, xdata]
    exact loaded.control bit
  · rw [Ep6.din_len, xdata]
    exact loaded.din_len
  · rw [Ep6.dout_len, xdata, dout]
    exact loaded.payload

theorem packet_loaded (ep : Ep6Command) (bytes : List (BitVec 8)) (s : Ep6 Flash)
    (count : ep.dout_len.toNat = bytes.length) (payload : (List.range bytes.length).map ep.dout = bytes) :
    Loaded ep bytes (store out6buf (ep.packet bytes.length) s) := by
  have length : (ep.packet bytes.length).length = bytes.length + 3 := by simp [Ep6Command.packet, payload]
  have head (k : ℕ) (inside : k < (ep.packet bytes.length).length) :
      (store out6buf (ep.packet bytes.length) s).xdata (out6buf + k) = (ep.packet bytes.length)[k] :=
    storeAt_inside s.xdata out6buf (ep.packet bytes.length) k inside
  have len : (store out6buf (ep.packet bytes.length) s).dout_len = ep.dout_len := head 1 (by omega)
  refine ⟨fun bit => congrArg (BitVec.getLsbD · bit) (head 0 (by omega)), head 2 (by omega), ?_⟩
  rw [len, count]
  refine Eq.trans (List.map_congr_left fun j member => ?_) payload
  have inside : j < bytes.length := List.mem_range.mp member
  have place : out6buf + 3 + j = out6buf + (j + 3) := by omega
  rw [Ep6.dout, place, head (j + 3) (by omega)]
  simp [Ep6Command.packet]

theorem writePORTACFG_active (port level : Bool) (s : Ep6 Flash) (active : Active port s) :
    writePORTACFG (flash duration) level s = { s with PORTACFG := level, dev := s.dev.tick } := by
  obtain ⟨⟨pa4, strobe, clock⟩, oec, outc⟩ := active
  cases level <;> cases port <;>
    simp [writePORTACFG, settle, flash, Flash.react, Ep6.pins, pa4, strobe, clock, oec, outc]

theorem writePORTACFG_sent (port level : Bool) (s : Ep6 Flash) (active : Active port s) :
    Sent level [] s (writePORTACFG (flash duration) level s) := by
  rw [writePORTACFG_active duration port level s active]
  exact ⟨⟨⟨rfl, active.strobe, active.clock⟩, active.oec, active.outc⟩, rfl, rfl, rfl, rfl, tick_shifted s.dev⟩

theorem sends_sent (bytes : List (BitVec 8)) (s : Ep6 Flash) (active : Active false s) :
    Sent false (bytes.flatMap byteBits) s (bytes.foldl (fun s t => spi_send_byte (flash duration) t s) s) ∧
      (bytes ≠ [] → Drives s.dev.busy (bytes.foldl (fun s t => spi_send_byte (flash duration) t s) s).dev) := by
  induction bytes generalizing s with
  | nil => exact ⟨⟨active, rfl, rfl, rfl, rfl, ⟨rfl, rfl, rfl, rfl, (List.append_nil _).symm, le_rfl⟩⟩, nofun⟩
  | cons t rest ih =>
      obtain ⟨first, driven⟩ := send_byte_sent duration t s active
      obtain ⟨others, last⟩ := ih _ first.active
      rw [List.flatMap_cons, List.foldl_cons]
      refine ⟨Sent.trans (byteBits t) _ _ _ _ first others, fun _ => ?_⟩
      cases rest with
      | nil => exact driven
      | cons u more => exact Drives.since _ _ _ (last (List.cons_ne_nil u more)) first.shifted.busy

theorem sendFrom_fold {D : Type} (spi : Device D) (list : List ℕ) (s : Ep6 D) :
    list.foldl (sendFrom spi) s = (list.map s.dout).foldl (fun s t => spi_send_byte spi t s) s := by
  induction list generalizing s with
  | nil => rfl
  | cons j rest ih =>
      rw [List.foldl_cons, List.map_cons, List.foldl_cons, ih]
      rfl

theorem onWrite_sent (ep : Ep6Command) (bytes : List (BitVec 8)) (s : Ep6 Flash) (active : Active true s)
    (loaded : Loaded ep bytes s) (writes : ep.control.getLsbD SPI_WRITE = true) :
    Sent true (bytes.flatMap byteBits) s (onWrite (flash duration) s) ∧
      (bytes ≠ [] → Drives s.dev.busy (onWrite (flash duration) s).dev) := by
  have first := writePORTACFG_sent duration true false s active
  have same := Loaded.same ep bytes _ _ loaded first.xdata
  obtain ⟨sent, driven⟩ := sends_sent duration bytes _ first.active
  have last := writePORTACFG_sent duration false true _ sent.active
  have ended := writePORTACFG_active duration false true _ sent.active
  have all := Sent.trans _ [] _ _ _ (Sent.trans [] _ _ _ _ first sent) last
  rw [List.append_nil, List.nil_append] at all
  rw [onWrite, if_pos ((loaded.control SPI_WRITE).trans writes)]
  dsimp only
  rw [sendFrom_fold, same.payload]
  refine ⟨all, fun some => ?_⟩
  rw [ended]
  exact Drives.tick _ _ (Drives.since _ _ _ (driven some) first.shifted.busy)

theorem onSelect_parked (s : Ep6 Flash) (parked : Parked s) (selects : s.control SPI_CS_SEL = true) :
    onSelect (flash duration) s = { s with OUTC := false, dev := s.dev.tick.select } := by
  rw [onSelect, if_pos selects]
  simp [writeOUTC, settle, flash, Flash.react, Ep6.pins, parked.oec, parked.outc]

theorem onRelease_active (port : Bool) (s : Ep6 Flash) (active : Active port s) (releases : s.control SPI_CS_REL = true) :
    onRelease (flash duration) s = { s with OUTC := true, dev := s.dev.tick.deselect duration } := by
  rw [onRelease, if_pos releases]
  simp [writeOUTC, settle, flash, Flash.react, Ep6.pins, active.oec, active.outc]

theorem upToRead_plain (s : Ep6 Flash) (noBoot : s.control SPI_BOOT_FPGA = false) (noInit : s.control SPI_INIT = false) :
    upToRead (flash duration) fpga s = onWrite (flash duration) (onSelect (flash duration) s) := by
  rw [upToRead, onBoot, if_neg (by simp [noBoot]), onInit, if_neg (by simp [noInit])]

theorem upToRead_selects (ep : Ep6Command) (bytes : List (BitVec 8)) (s : Ep6 Flash) (parked : Parked s)
    (loaded : Loaded ep bytes s) (noBoot : ep.control.getLsbD SPI_BOOT_FPGA = false)
    (noInit : ep.control.getLsbD SPI_INIT = false) (selects : ep.control.getLsbD SPI_CS_SEL = true)
    (writes : ep.control.getLsbD SPI_WRITE = true) :
    Sent true (bytes.flatMap byteBits) { s with OUTC := false, dev := s.dev.tick.select }
        (upToRead (flash duration) fpga s) ∧
      (bytes ≠ [] → Drives (s.dev.busy - 1) (upToRead (flash duration) fpga s).dev) := by
  rw [upToRead_plain duration fpga s ((loaded.control _).trans noBoot) ((loaded.control _).trans noInit),
    onSelect_parked duration s parked ((loaded.control _).trans selects)]
  exact onWrite_sent duration ep bytes { s with OUTC := false, dev := s.dev.tick.select }
    ⟨⟨parked.pa4, parked.strobe, parked.clock⟩, parked.oec, rfl⟩ (Loaded.same ep bytes s _ loaded rfl) writes

theorem upToRead_continues (ep : Ep6Command) (bytes : List (BitVec 8)) (s : Ep6 Flash) (active : Active true s)
    (loaded : Loaded ep bytes s) (noBoot : ep.control.getLsbD SPI_BOOT_FPGA = false)
    (noInit : ep.control.getLsbD SPI_INIT = false) (noSelect : ep.control.getLsbD SPI_CS_SEL = false)
    (writes : ep.control.getLsbD SPI_WRITE = true) :
    Sent true (bytes.flatMap byteBits) s (upToRead (flash duration) fpga s) := by
  have same : onSelect (flash duration) s = s := by
    rw [onSelect, if_neg (by simp [(loaded.control SPI_CS_SEL).trans noSelect])]
  rw [upToRead_plain duration fpga s ((loaded.control _).trans noBoot) ((loaded.control _).trans noInit), same]
  exact (onWrite_sent duration ep bytes s active loaded writes).1

theorem onRead_plain (ep : Ep6Command) (bytes : List (BitVec 8)) (s : Ep6 Flash) (loaded : Loaded ep bytes s)
    (noRead : ep.control.getLsbD SPI_READ = false) : onRead (flash duration) s = s := by
  rw [onRead, if_neg (by simp [(loaded.control SPI_READ).trans noRead])]

theorem afterRead_stays (ep : Ep6Command) (bytes : List (BitVec 8)) (s : Ep6 Flash) (loaded : Loaded ep bytes s)
    (noRelease : ep.control.getLsbD SPI_CS_REL = false) (noExit : ep.control.getLsbD SPI_EXIT = false) :
    afterRead (flash duration) s = s := by
  rw [afterRead, onRelease, if_neg (by simp [(loaded.control SPI_CS_REL).trans noRelease]), onExit,
    if_neg (by simp [(loaded.control SPI_EXIT).trans noExit])]

theorem afterRead_releases (s : Ep6 Flash) (active : Active true s) (releases : s.control SPI_CS_REL = true)
    (noExit : s.control SPI_EXIT = false) :
    afterRead (flash duration) s = { s with OUTC := true, dev := s.dev.tick.deselect duration } := by
  have exits : Ep6.control { s with OUTC := true, dev := s.dev.tick.deselect duration } SPI_EXIT = false := noExit
  rw [afterRead, onRelease_active duration true s active releases, onExit, if_neg (by simp [exits])]

structure Selected (s : Ep6 Flash) : Prop extends Active true s where
  free : s.in6Busy = false
  quiet : s.ep6in_pending = false

structure Sends (ep : Ep6Command) (bits : List ℕ) (bytes : List (BitVec 8)) : Prop where
  control : ep.control = flags bits
  count : ep.dout_len.toNat = bytes.length
  payload : (List.range bytes.length).map ep.dout = bytes

theorem Sends.flag (ep : Ep6Command) (bits : List ℕ) (bytes : List (BitVec 8)) (sends : Sends ep bits bytes) (bit : ℕ) :
    ep.control.getLsbD bit = (flags bits).getLsbD bit := by
  rw [sends.control]

theorem Sends.loaded (ep : Ep6Command) (bits : List ℕ) (bytes : List (BitVec 8)) (s : Ep6 Flash)
    (sends : Sends ep bits bytes) : Loaded ep bytes (store out6buf (ep.packet bytes.length) s) :=
  packet_loaded ep bytes s sends.count sends.payload

theorem Sent.selected (bits : List Bool) (s t : Ep6 Flash) (sent : Sent true bits s t) (free : s.in6Busy = false)
    (quiet : s.ep6in_pending = false) : Selected t :=
  ⟨sent.active, sent.in6Busy.trans free, sent.ep6in_pending.trans quiet⟩

theorem Selected.released (s : Ep6 Flash) (selected : Selected s) (dev : Flash) : Parked { s with OUTC := true, dev := dev } :=
  ⟨⟨selected.pa4, selected.strobe, selected.clock⟩, selected.oec, rfl, selected.free, selected.quiet⟩

theorem Shifted.tick (bits : List Bool) (f g : Flash) (shifted : Shifted bits f g) : Shifted bits f g.tick := by
  have all := Shifted.trans _ _ _ _ _ shifted (tick_shifted g)
  rwa [List.append_nil] at all

theorem store_parked (bytes : List (BitVec 8)) (s : Ep6 Flash) (parked : Parked s) : Parked (store out6buf bytes s) :=
  ⟨⟨parked.pa4, parked.strobe, parked.clock⟩, parked.oec, parked.outc, parked.free, parked.quiet⟩

theorem window_command (ep : Ep6Command) (bytes : List (BitVec 8)) (s : Ep6 Flash) (parked : Parked s)
    (sends : Sends ep [SPI_WRITE, SPI_CS_SEL, SPI_CS_REL] bytes) :
    Parked (usb_bulk_write (flash duration) fpga ep bytes.length s) ∧
      ∃ g, Shifted (bytes.flatMap byteBits) s.dev.tick.select g ∧
        (usb_bulk_write (flash duration) fpga ep bytes.length s).dev = g.deselect duration := by
  have loaded := Sends.loaded ep _ bytes s sends
  have flag := Sends.flag ep _ bytes sends
  obtain ⟨sent, _⟩ := upToRead_selects duration fpga ep bytes _ (store_parked _ s parked) loaded (flag SPI_BOOT_FPGA)
    (flag SPI_INIT) (flag SPI_CS_SEL) (flag SPI_WRITE)
  have kept := Loaded.same ep bytes _ _ loaded sent.xdata
  have selected := Sent.selected _ _ _ sent parked.free parked.quiet
  rw [usb_bulk_write, out6Interrupt, endpoint6_out, onRead_plain duration ep bytes _ kept (flag SPI_READ),
    afterRead_releases duration _ selected.toActive ((kept.control _).trans (flag SPI_CS_REL))
      ((kept.control _).trans (flag SPI_EXIT))]
  exact ⟨Selected.released _ selected _, _, Shifted.tick _ _ _ sent.shifted, rfl⟩

theorem opening_command (ep : Ep6Command) (bytes : List (BitVec 8)) (s : Ep6 Flash) (parked : Parked s)
    (sends : Sends ep [SPI_WRITE, SPI_CS_SEL] bytes) :
    Selected (usb_bulk_write (flash duration) fpga ep bytes.length s) ∧
      Shifted (bytes.flatMap byteBits) s.dev.tick.select (usb_bulk_write (flash duration) fpga ep bytes.length s).dev := by
  have loaded := Sends.loaded ep _ bytes s sends
  have flag := Sends.flag ep _ bytes sends
  obtain ⟨sent, _⟩ := upToRead_selects duration fpga ep bytes _ (store_parked _ s parked) loaded (flag SPI_BOOT_FPGA)
    (flag SPI_INIT) (flag SPI_CS_SEL) (flag SPI_WRITE)
  have kept := Loaded.same ep bytes _ _ loaded sent.xdata
  rw [usb_bulk_write, out6Interrupt, endpoint6_out, onRead_plain duration ep bytes _ kept (flag SPI_READ),
    afterRead_stays duration ep bytes _ kept (flag SPI_CS_REL) (flag SPI_EXIT)]
  exact ⟨Sent.selected _ _ _ sent parked.free parked.quiet, sent.shifted⟩

theorem data_command (ep : Ep6Command) (bytes : List (BitVec 8)) (s : Ep6 Flash) (selected : Selected s)
    (sends : Sends ep [SPI_WRITE] bytes) :
    Selected (usb_bulk_write (flash duration) fpga ep bytes.length s) ∧
      Shifted (bytes.flatMap byteBits) s.dev (usb_bulk_write (flash duration) fpga ep bytes.length s).dev := by
  have loaded := Sends.loaded ep _ bytes s sends
  have flag := Sends.flag ep _ bytes sends
  have active : Active true (store out6buf (ep.packet bytes.length) s) :=
    ⟨⟨selected.pa4, selected.strobe, selected.clock⟩, selected.oec, selected.outc⟩
  have sent := upToRead_continues duration fpga ep bytes _ active loaded (flag SPI_BOOT_FPGA) (flag SPI_INIT)
    (flag SPI_CS_SEL) (flag SPI_WRITE)
  have kept := Loaded.same ep bytes _ _ loaded sent.xdata
  rw [usb_bulk_write, out6Interrupt, endpoint6_out, onRead_plain duration ep bytes _ kept (flag SPI_READ),
    afterRead_stays duration ep bytes _ kept (flag SPI_CS_REL) (flag SPI_EXIT)]
  exact ⟨Sent.selected _ _ _ sent selected.free selected.quiet, sent.shifted⟩

theorem closing_command (ep : Ep6Command) (s : Ep6 Flash) (selected : Selected s) (sends : Sends ep [SPI_CS_REL] []) :
    Parked (usb_bulk_write (flash duration) fpga ep 0 s) ∧
      (usb_bulk_write (flash duration) fpga ep 0 s).dev = s.dev.tick.deselect duration := by
  have loaded : Loaded ep [] (store out6buf (ep.packet 0) s) := Sends.loaded ep _ [] s sends
  have flag := Sends.flag ep _ [] sends
  have stored : Selected (store out6buf (ep.packet 0) s) :=
    ⟨⟨⟨selected.pa4, selected.strobe, selected.clock⟩, selected.oec, selected.outc⟩, selected.free, selected.quiet⟩
  have noSelect : (store out6buf (ep.packet 0) s).control SPI_CS_SEL = false := (loaded.control _).trans (flag SPI_CS_SEL)
  have noWrite : (store out6buf (ep.packet 0) s).control SPI_WRITE = false := (loaded.control _).trans (flag SPI_WRITE)
  have still : upToRead (flash duration) fpga (store out6buf (ep.packet 0) s) = store out6buf (ep.packet 0) s := by
    rw [upToRead_plain duration fpga _ ((loaded.control _).trans (flag SPI_BOOT_FPGA))
      ((loaded.control _).trans (flag SPI_INIT)), onSelect, if_neg (by simp [noSelect]), onWrite, if_neg (by simp [noWrite])]
  rw [usb_bulk_write, out6Interrupt, endpoint6_out, still, onRead_plain duration ep [] _ loaded (flag SPI_READ),
    afterRead_releases duration _ stored.toActive ((loaded.control _).trans (flag SPI_CS_REL))
      ((loaded.control _).trans (flag SPI_EXIT))]
  exact ⟨Selected.released _ stored _, rfl⟩

end SsAdma
