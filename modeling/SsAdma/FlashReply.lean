import SsAdma.FlashCommand

set_option autoImplicit false

namespace SsAdma

open ByteMemory SpiBus SpiFlash

variable (duration : ℕ → ℕ) (fpga : FpgaBoot)

def Answers (bound : ℕ) (f g : Flash) (bytes junk : List (BitVec 8)) (reply : ℕ → BitVec 8) : Prop :=
  ∀ k < junk.length, ∀ i < 8, ∃ busy, g.busy ≤ busy ∧ busy ≤ bound ∧
    (reply k).getLsbD i = ({ f with busy := busy }.answerTo (bytes ++ junk.take k)).getLsbD i

structure Received (bound : ℕ) (bytes : List (BitVec 8)) (j n : ℕ) (s t : Ep6 Flash) : Prop where
  active : Active false t
  in6Busy : t.in6Busy = s.in6Busy
  ep6in_len : t.ep6in_len = s.ep6in_len
  ep6in_pending : t.ep6in_pending = s.ep6in_pending
  before : ∀ k < in6buf + 1 + j, t.xdata k = s.xdata k
  driven : Drives bound t.dev
  bytes : ∃ junk : List (BitVec 8), junk.length = n ∧ Shifted (junk.flatMap byteBits) s.dev t.dev ∧
    Answers bound s.dev t.dev bytes junk fun k => t.xdata (in6buf + 1 + j + k)

theorem answerTo_congr (f g : Flash) (mem : g.mem = f.mem) (wel : g.wel = f.wel) (ready : g.ready = f.ready)
    (busy : g.busy = f.busy) (bytes : List (BitVec 8)) : g.answerTo bytes = f.answerTo bytes := by
  simp only [Flash.answerTo.eq_def, Flash.status, mem, wel, ready, busy]

theorem replicate_byte (b : Bool) : List.replicate 8 b = byteBits (if b then 0xff else 0) := by
  cases b <;> decide

theorem recvInto_received (bound j n : ℕ) (bytes : List (BitVec 8)) (s : Ep6 Flash) (active : Active false s)
    (whole : s.dev.bits = bytes.flatMap byteBits) (driven : Drives bound s.dev) (since : s.dev.busy ≤ bound) :
    Received bound bytes j n s ((List.range' j n).foldl (recvInto (flash duration)) s) := by
  induction n generalizing j bytes s with
  | zero =>
      exact ⟨active, rfl, rfl, rfl, fun _ _ => rfl, driven, [], rfl,
        ⟨rfl, rfl, rfl, rfl, (List.append_nil _).symm, le_rfl⟩, nofun⟩
  | succ n ih =>
      obtain ⟨sent, last, got⟩ := recv_byte_answer duration bound bytes s active whole driven since
      rw [replicate_byte] at sent
      have held : (recvInto (flash duration) s j).dev.bits = (bytes ++ [if s.FIFO then 0xff else 0]).flatMap byteBits := by
        rw [List.flatMap_append, ← whole]
        exact sent.shifted.bits
      have started : Active false (recvInto (flash duration) s j) :=
        ⟨⟨sent.active.pa4, sent.active.strobe, sent.active.clock⟩, sent.active.oec, sent.active.outc⟩
      have next := ih (j + 1) _ _ started held last (sent.shifted.busy.trans since)
      obtain ⟨junk, length, shifted, answers⟩ := next.bytes
      rw [List.range'_succ, List.foldl_cons]
      refine ⟨next.active, next.in6Busy.trans sent.in6Busy, next.ep6in_len.trans sent.ep6in_len,
        next.ep6in_pending.trans sent.ep6in_pending, ?_, next.driven,
        (if s.FIFO then 0xff else 0) :: junk, by rw [List.length_cons, length], Shifted.trans _ _ _ _ _ sent.shifted shifted, ?_⟩
      · intro k inside
        rw [next.before k (by omega)]
        exact (storeAt_before _ _ _ k inside).trans (congrFun sent.xdata k)
      · rintro (_ | k) inside i bit
        · obtain ⟨busy, low, high, read⟩ := got i bit
          refine ⟨busy, shifted.busy.trans low, high, ?_⟩
          have stored := storeAt_inside (spi_recv_byte (flash duration) s).2.xdata (in6buf + 1 + j)
            [(spi_recv_byte (flash duration) s).1] 0 (by simp)
          have here : ((List.range' (j + 1) n).foldl (recvInto (flash duration)) (recvInto (flash duration) s j)).xdata
              (in6buf + 1 + j + 0) = (spi_recv_byte (flash duration) s).1 := (next.before _ (by omega)).trans stored
          have answer : { s.dev with busy := busy }.answer = { s.dev with busy := busy }.answerTo bytes :=
            congrArg _ ((congrArg toBytes whole).trans (toBytes_whole bytes))
          dsimp only
          rw [here, read, answer, List.take_zero, List.append_nil]
        · obtain ⟨busy, low, high, read⟩ := answers k (Nat.lt_of_succ_lt_succ inside) i bit
          refine ⟨busy, low, high, ?_⟩
          have place : in6buf + 1 + j + (k + 1) = in6buf + 1 + (j + 1) + k := by omega
          dsimp only at read ⊢
          rw [place, read, List.append_assoc]
          exact congrArg (BitVec.getLsbD · i) (answerTo_congr { s.dev with busy := busy }
            { (recvInto (flash duration) s j).dev with busy := busy } sent.shifted.mem sent.shifted.wel
            sent.shifted.ready rfl _)

structure Prepared (bound : ℕ) (bytes : List (BitVec 8)) (s t : Ep6 Flash) : Prop where
  active : Active true t
  armed : t.in6Busy = true
  pending : t.ep6in_pending = s.ep6in_pending
  count : t.IN6BC = 1 + s.ep6in_len
  command : ∀ k < in6buf, t.xdata k = s.xdata k
  bytes : ∃ junk : List (BitVec 8), junk.length = s.ep6in_len.toNat ∧ Shifted (junk.flatMap byteBits) s.dev t.dev ∧
    Answers bound s.dev t.dev bytes junk fun k => t.xdata (in6buf + 1 + k)

theorem send_ep6_data_prepared (bound : ℕ) (bytes : List (BitVec 8)) (s : Ep6 Flash) (active : Active true s)
    (free : s.in6Busy = false) (whole : s.dev.bits = bytes.flatMap byteBits) (driven : Drives bound s.dev)
    (since : s.dev.busy ≤ bound) : Prepared bound bytes s (send_ep6_data (flash duration) s) := by
  have head : Active true (store in6buf [s.ep6in_len] s) :=
    ⟨⟨active.pa4, active.strobe, active.clock⟩, active.oec, active.outc⟩
  have dlen : (store in6buf [s.ep6in_len] s).xdata in6buf = s.ep6in_len :=
    storeAt_inside s.xdata in6buf [s.ep6in_len] 0 Nat.zero_lt_one
  have first := writePORTACFG_sent duration true false _ head
  have started := writePORTACFG_active duration true false _ head
  have ticked : Drives bound (writePORTACFG (flash duration) false (store in6buf [s.ep6in_len] s)).dev := by
    rw [started]
    exact Drives.tick _ _ driven
  have held : (writePORTACFG (flash duration) false (store in6buf [s.ep6in_len] s)).dev.bits = bytes.flatMap byteBits := by
    rw [started]
    exact whole
  have got := recvInto_received duration bound 0 s.ep6in_len.toNat bytes _ first.active held ticked
    (first.shifted.busy.trans since)
  have last := writePORTACFG_sent duration false true _ got.active
  obtain ⟨junk, length, shifted, answers⟩ := got.bytes
  have count : (writePORTACFG (flash duration) false (store in6buf [s.ep6in_len] s)).xdata in6buf = s.ep6in_len := dlen
  rw [send_ep6_data, if_neg (by simp [free])]
  dsimp only
  rw [count, List.range_eq_range']
  have all := Shifted.trans _ _ _ _ _ (Shifted.trans _ _ _ _ _ first.shifted shifted) last.shifted
  rw [List.append_nil, List.nil_append] at all
  refine ⟨⟨⟨last.active.pa4, last.active.strobe, last.active.clock⟩, last.active.oec, last.active.outc⟩, rfl,
    last.ep6in_pending.trans got.ep6in_pending, congrArg (1 + ·) (last.ep6in_len.trans got.ep6in_len), ?_, junk, length,
    all, ?_⟩
  · intro k inside
    have command : (store in6buf [s.ep6in_len] s).xdata k = s.xdata k := storeAt_before _ _ _ k inside
    exact (congrFun last.xdata k).trans ((got.before k (by omega)).trans ((congrFun first.xdata k).trans command))
  · intro k inside i bit
    obtain ⟨busy, low, high, read⟩ := answers k inside i bit
    refine ⟨busy, last.shifted.busy.trans low, high, ?_⟩
    have kept : (writePORTACFG (flash duration) true ((List.range' 0 s.ep6in_len.toNat).foldl (recvInto (flash duration))
        (writePORTACFG (flash duration) false (store in6buf [s.ep6in_len] s)))).xdata (in6buf + 1 + k) =
        ((List.range' 0 s.ep6in_len.toNat).foldl (recvInto (flash duration))
          (writePORTACFG (flash duration) false (store in6buf [s.ep6in_len] s))).xdata (in6buf + 1 + k) := rfl
    dsimp only at read ⊢
    rw [kept]
    refine read.trans (congrArg (BitVec.getLsbD · i) ?_)
    exact answerTo_congr { s.dev with busy := busy }
      { (writePORTACFG (flash duration) false (store in6buf [s.ep6in_len] s)).dev with busy := busy }
      first.shifted.mem first.shifted.wel first.shifted.ready rfl _

structure Replied (bytes : List (BitVec 8)) (n : ℕ) (f g : Flash) (reply : ℕ → BitVec 8) : Prop where
  bytes : ∃ junk : List (BitVec 8), junk.length = n ∧ Shifted ((bytes ++ junk).flatMap byteBits) f g ∧
    Answers f.busy f g bytes junk reply

theorem read_command (ep : Ep6Command) (bytes : List (BitVec 8)) (s : Ep6 Flash) (parked : Parked s)
    (sends : Sends ep [SPI_WRITE, SPI_READ, SPI_CS_SEL, SPI_CS_REL] bytes) (some : bytes ≠ []) :
    Parked (takeIn6 (usb_bulk_write (flash duration) fpga ep bytes.length s)) ∧
      (usb_bulk_write (flash duration) fpga ep bytes.length s).in6Busy = true ∧
      (usb_bulk_write (flash duration) fpga ep bytes.length s).IN6BC = 1 + ep.din_len ∧
      ∃ g, (usb_bulk_write (flash duration) fpga ep bytes.length s).dev = g.deselect duration ∧
        Replied bytes ep.din_len.toNat s.dev.tick.select g
          fun k => (usb_bulk_write (flash duration) fpga ep bytes.length s).xdata (in6buf + 1 + k) := by
  have loaded := Sends.loaded ep _ bytes s sends
  have flag := Sends.flag ep _ bytes sends
  obtain ⟨sent, driven⟩ := upToRead_selects duration fpga ep bytes _ (store_parked _ s parked) loaded (flag SPI_BOOT_FPGA)
    (flag SPI_INIT) (flag SPI_CS_SEL) (flag SPI_WRITE)
  have kept := Loaded.same ep bytes _ _ loaded sent.xdata
  rw [usb_bulk_write, out6Interrupt, endpoint6_out]
  generalize upToRead (flash duration) fpga (store out6buf (ep.packet bytes.length) s) = a at sent driven kept
  have reads : a.control SPI_READ = true := (kept.control SPI_READ).trans (flag SPI_READ)
  have active : Active true { a with ep6in_len := a.din_len } :=
    ⟨⟨sent.active.pa4, sent.active.strobe, sent.active.clock⟩, sent.active.oec, sent.active.outc⟩
  have prepared := send_ep6_data_prepared duration (s.dev.busy - 1) bytes { a with ep6in_len := a.din_len } active
    (sent.in6Busy.trans parked.free) sent.shifted.bits (driven some) sent.shifted.busy
  rw [onRead, if_pos reads]
  generalize send_ep6_data (flash duration) { a with ep6in_len := a.din_len } = t at prepared
  have command (bit : ℕ) : t.control bit = ep.control.getLsbD bit :=
    (congrArg (BitVec.getLsbD · bit) (prepared.command out6buf (by decide))).trans (kept.control bit)
  obtain ⟨junk, length, shifted, answers⟩ := prepared.bytes
  have len : a.din_len = ep.din_len := kept.din_len
  rw [afterRead_releases duration t prepared.active ((command _).trans (flag SPI_CS_REL)) ((command _).trans (flag SPI_EXIT))]
  refine ⟨⟨⟨prepared.active.pa4, prepared.active.strobe, prepared.active.clock⟩, prepared.active.oec, rfl, rfl, ?_⟩,
    prepared.armed, prepared.count.trans (congrArg (1 + ·) len), t.dev.tick, rfl, junk, ?_, ?_, ?_⟩
  · exact prepared.pending.trans (sent.ep6in_pending.trans parked.quiet)
  · exact length.trans (congrArg BitVec.toNat len)
  · rw [List.flatMap_append]
    exact Shifted.tick _ _ _ (Shifted.trans _ _ _ _ _ sent.shifted shifted)
  · intro k inside i bit
    obtain ⟨busy, low, high, read⟩ := answers k inside i bit
    refine ⟨busy, (Nat.sub_le _ _).trans low, high, read.trans (congrArg (BitVec.getLsbD · i) ?_)⟩
    exact answerTo_congr { s.dev.tick.select with busy := busy } { a.dev with busy := busy } sent.shifted.mem
      sent.shifted.wel sent.shifted.ready rfl _

theorem read_exchange (ep : Ep6Command) (bytes : List (BitVec 8)) (s : Ep6 Flash) (n : ℕ) (reply : ℕ → BitVec 8)
    (parked : Parked s) (sends : Sends ep [SPI_WRITE, SPI_READ, SPI_CS_SEL, SPI_CS_REL] bytes) (some : bytes ≠ [])
    (count : ep.din_len.toNat = n) (short : n < 63) :
    Parked (usb_bulk_read (flash duration) (1 + n) reply (usb_bulk_write (flash duration) fpga ep bytes.length s)).2 ∧
      ∃ g, (usb_bulk_read (flash duration) (1 + n) reply
          (usb_bulk_write (flash duration) fpga ep bytes.length s)).2.dev = g.deselect duration ∧
        Replied bytes n s.dev.tick.select g fun k =>
          (usb_bulk_read (flash duration) (1 + n) reply
            (usb_bulk_write (flash duration) fpga ep bytes.length s)).1 (1 + k) := by
  obtain ⟨after, armed, length, g, closed, replied⟩ := read_command duration fpga ep bytes s parked sends some
  obtain ⟨junk, many, shifted, answers⟩ := replied.bytes
  generalize usb_bulk_write (flash duration) fpga ep bytes.length s = t at after armed length closed answers
  have size : min (1 + n) t.IN6BC.toNat = 1 + n := by
    rw [length, BitVec.toNat_add, count]
    simp
    omega
  have idle : in6Interrupt (flash duration) (takeIn6 t) = takeIn6 t := by rw [in6Interrupt, if_neg (by simp [after.quiet])]
  rw [usb_bulk_read, if_pos armed, size, idle]
  refine ⟨after, g, closed, junk, many.trans count, shifted, ?_⟩
  intro k inside i bit
  obtain ⟨busy, low, high, read⟩ := answers k inside i bit
  refine ⟨busy, low, high, ?_⟩
  have place : 1 + k < 1 + n := by omega
  have stored := storeAt_inside reply 0 ((List.range (1 + n)).map fun k => t.xdata (in6buf + k)) (1 + k)
    (by simp; omega)
  rw [Nat.zero_add] at stored
  dsimp only at read ⊢
  rw [stored, List.getElem_map, List.getElem_range, ← Nat.add_assoc]
  exact read

end SsAdma
