import SsAdma.Ep6Window
import SsAdma.SpiFlash

set_option autoImplicit false

namespace SsAdma

open ByteMemory SpiBus SpiFlash

variable (duration : ℕ → ℕ)

structure Active (port : Bool) (s : Ep6 Flash) : Prop extends Lines port s where
  oec : s.OEC = true
  outc : s.OUTC = false

structure Shifted (bits : List Bool) (f g : Flash) : Prop where
  mem : g.mem = f.mem
  wel : g.wel = f.wel
  programs : g.programs = f.programs
  ready : g.ready = f.ready
  bits : g.bits = f.bits ++ bits
  busy : g.busy ≤ f.busy

def Drives (bound : ℕ) (f : Flash) : Prop :=
  ∃ busy, f.busy ≤ busy ∧ busy ≤ bound ∧ f.so = { f with busy := busy }.nextBit

structure Sent (port : Bool) (bits : List Bool) (s t : Ep6 Flash) : Prop where
  active : Active port t
  xdata : t.xdata = s.xdata
  in6Busy : t.in6Busy = s.in6Busy
  ep6in_len : t.ep6in_len = s.ep6in_len
  ep6in_pending : t.ep6in_pending = s.ep6in_pending
  shifted : Shifted bits s.dev t.dev

theorem Shifted.trans (xs ys : List Bool) (f g h : Flash) (first : Shifted xs f g) (second : Shifted ys g h) :
    Shifted (xs ++ ys) f h :=
  ⟨second.mem.trans first.mem, second.wel.trans first.wel, second.programs.trans first.programs,
    second.ready.trans first.ready, by rw [second.bits, first.bits, List.append_assoc], second.busy.trans first.busy⟩

theorem Sent.trans {port mid : Bool} (xs ys : List Bool) (s t u : Ep6 Flash) (first : Sent mid xs s t)
    (second : Sent port ys t u) : Sent port (xs ++ ys) s u :=
  ⟨second.active, second.xdata.trans first.xdata, second.in6Busy.trans first.in6Busy,
    second.ep6in_len.trans first.ep6in_len, second.ep6in_pending.trans first.ep6in_pending,
    Shifted.trans xs ys _ _ _ first.shifted second.shifted⟩

theorem tick_shifted (f : Flash) : Shifted [] f f.tick :=
  ⟨rfl, rfl, rfl, rfl, (List.append_nil _).symm, Nat.sub_le _ _⟩

theorem clearSCK_low (s : Ep6 Flash) (active : Active false s) :
    spi_clearSCK (flash duration) s = { s with dev := s.dev.tick } := by
  obtain ⟨⟨port, strobe, clock⟩, oec, outc⟩ := active
  simp [spi_clearSCK, writeOUTA, settle, flash, Flash.react, Ep6.pins, port, strobe, clock, oec, outc]

theorem bitMOSI_low (b : Bool) (s : Ep6 Flash) (active : Active false s) :
    spi_bitMOSI (flash duration) b s = { s with FIFO := b, dev := s.dev.tick } := by
  obtain ⟨⟨port, strobe, clock⟩, oec, outc⟩ := active
  simp [spi_bitMOSI, settle, flash, Flash.react, Ep6.pins, port, strobe, clock, oec, outc]

theorem setSCK_low (s : Ep6 Flash) (active : Active false s) :
    spi_setSCK (flash duration) s =
      { s with OUTA := true, dev := s.dev.tick.clockIn s.FIFO } := by
  obtain ⟨⟨port, strobe, clock⟩, oec, outc⟩ := active
  simp [spi_setSCK, writeOUTA, settle, flash, Flash.react, Ep6.pins, port, strobe, clock, oec, outc]

theorem clearSCK_high (s : Ep6 Flash) (port : s.PORTACFG = false) (clock : s.OUTA = true) (oec : s.OEC = true)
    (outc : s.OUTC = false) :
    spi_clearSCK (flash duration) s =
      { s with OUTA := false, dev := s.dev.tick.drive } := by
  simp [spi_clearSCK, writeOUTA, settle, flash, Flash.react, Ep6.pins, port, clock, oec, outc]

theorem pulse (s : Ep6 Flash) (active : Active false s) :
    Sent false [s.FIFO] s (spi_clearSCK (flash duration) (spi_setSCK (flash duration) s)) ∧
      Drives s.dev.busy (spi_clearSCK (flash duration) (spi_setSCK (flash duration) s)).dev ∧
      (spi_clearSCK (flash duration) (spi_setSCK (flash duration) s)).FIFO = s.FIFO := by
  have rise := setSCK_low duration s active
  have drop := clearSCK_high duration { s with OUTA := true, dev := s.dev.tick.clockIn s.FIFO } active.pa4 rfl
    active.oec active.outc
  have slower : s.dev.busy - 1 - 1 ≤ s.dev.busy := by omega
  rw [rise, drop]
  exact ⟨⟨⟨⟨active.pa4, active.strobe, rfl⟩, active.oec, active.outc⟩, rfl, rfl, rfl, rfl,
    ⟨rfl, rfl, rfl, rfl, rfl, slower⟩⟩, ⟨_, le_rfl, slower, rfl⟩, rfl⟩

theorem clearSCK_sent (s : Ep6 Flash) (active : Active false s) : Sent false [] s (spi_clearSCK (flash duration) s) := by
  rw [clearSCK_low duration s active]
  exact ⟨⟨⟨active.pa4, active.strobe, active.clock⟩, active.oec, active.outc⟩, rfl, rfl, rfl, rfl, tick_shifted s.dev⟩

theorem bitMOSI_sent (b : Bool) (s : Ep6 Flash) (active : Active false s) : Sent false [] s (spi_bitMOSI (flash duration) b s) := by
  rw [bitMOSI_low duration b s active]
  exact ⟨⟨⟨active.pa4, active.strobe, active.clock⟩, active.oec, active.outc⟩, rfl, rfl, rfl, rfl, tick_shifted s.dev⟩

theorem Drives.since (bound earlier : ℕ) (f : Flash) (driven : Drives bound f) (since : bound ≤ earlier) :
    Drives earlier f := by
  obtain ⟨busy, low, high, so⟩ := driven
  exact ⟨busy, low, high.trans since, so⟩

theorem Drives.tick (bound : ℕ) (f : Flash) (driven : Drives bound f) : Drives bound f.tick := by
  obtain ⟨busy, low, high, so⟩ := driven
  exact ⟨busy, (Nat.sub_le _ _).trans low, high, so⟩

theorem sendDataBit_sent (b : Bool) (s : Ep6 Flash) (active : Active false s) :
    Sent false [b] s (spi_sendDataBit (flash duration) b s) ∧ Drives s.dev.busy (spi_sendDataBit (flash duration) b s).dev := by
  have low := clearSCK_sent duration s active
  have set := bitMOSI_sent duration b _ low.active
  have both := Sent.trans [] [] _ _ _ low set
  obtain ⟨sent, driven, _⟩ := pulse duration _ set.active
  have wire : (spi_bitMOSI (flash duration) b (spi_clearSCK (flash duration) s)).FIFO = b := rfl
  rw [wire] at sent
  exact ⟨Sent.trans [] [b] _ _ _ both sent, Drives.since _ _ _ driven both.shifted.busy⟩

theorem sendBits_sent (bits : List Bool) (s : Ep6 Flash) (active : Active false s) :
    Sent false bits s (bits.foldl (fun s b => spi_sendDataBit (flash duration) b s) s) ∧
      (bits ≠ [] → Drives s.dev.busy (bits.foldl (fun s b => spi_sendDataBit (flash duration) b s) s).dev) := by
  induction bits generalizing s with
  | nil => exact ⟨⟨active, rfl, rfl, rfl, rfl, ⟨rfl, rfl, rfl, rfl, (List.append_nil _).symm, le_rfl⟩⟩, nofun⟩
  | cons b rest ih =>
      obtain ⟨first, driven⟩ := sendDataBit_sent duration b s active
      obtain ⟨others, last⟩ := ih _ first.active
      refine ⟨Sent.trans [b] rest _ _ _ first others, fun _ => ?_⟩
      cases rest with
      | nil => exact driven
      | cons c more => exact Drives.since _ _ _ (last (List.cons_ne_nil c more)) first.shifted.busy

theorem send_byte_sent (t : BitVec 8) (s : Ep6 Flash) (active : Active false s) :
    Sent false (byteBits t) s (spi_send_byte (flash duration) t s) ∧ Drives s.dev.busy (spi_send_byte (flash duration) t s).dev := by
  have low := clearSCK_sent duration s active
  obtain ⟨bits, driven⟩ := sendBits_sent duration (byteBits t) _ low.active
  have fold : bitsDown.foldl (fun s i => spi_sendDataBit (flash duration) (t.getLsbD i) s) (spi_clearSCK (flash duration) s) =
      (byteBits t).foldl (fun s b => spi_sendDataBit (flash duration) b s) (spi_clearSCK (flash duration) s) := rfl
  have data := bitMOSI_sent duration true _ bits.active
  have all := Sent.trans _ [] _ _ _ (Sent.trans [] _ _ _ _ low bits) data
  rw [List.append_nil] at all
  refine ⟨all, ?_⟩
  have held := Drives.tick _ _ (Drives.since _ _ _ (driven (by simp [byteBits])) low.shifted.busy)
  rw [spi_send_byte, fold, spi_setMOSI, bitMOSI_low duration true _ bits.active]
  exact held

theorem RecDataBit_sent (s : Ep6 Flash) (active : Active false s) :
    (spi_RecDataBit (flash duration) s).1 = s.dev.so ∧ Sent false [s.FIFO] s (spi_RecDataBit (flash duration) s).2 ∧
      Drives s.dev.busy (spi_RecDataBit (flash duration) s).2.dev ∧ (spi_RecDataBit (flash duration) s).2.FIFO = s.FIFO := by
  have low := clearSCK_sent duration s active
  obtain ⟨sent, driven, wire⟩ := pulse duration _ low.active
  refine ⟨?_, Sent.trans [] _ _ _ _ low sent, Drives.since _ _ _ driven low.shifted.busy, wire⟩
  have rise := setSCK_low duration _ low.active
  rw [clearSCK_low duration s active] at rise
  rw [spi_RecDataBit, clearSCK_low duration s active]
  dsimp only
  rw [rise]
  rfl

def recvBits {D : Type} (spi : Device D) : ℕ → Ep6 D → List Bool × Ep6 D
  | 0, s => ([], s)
  | n + 1, s =>
      let bit := spi_RecDataBit spi s
      let rest := recvBits spi n bit.2
      (bit.1 :: rest.1, rest.2)

def assemble (t : BitVec 8) : List ℕ → List Bool → BitVec 8
  | i :: is, bit :: bits => assemble (if bit then t ||| (1 <<< i) else t) is bits
  | _, _ => t

theorem recvBits_length {D : Type} (spi : Device D) (n : ℕ) (s : Ep6 D) : (recvBits spi n s).1.length = n := by
  induction n generalizing s with
  | zero => rfl
  | succ n ih => rw [recvBits, List.length_cons, ih]

theorem recv_fold {D : Type} (spi : Device D) (list : List ℕ) (t : BitVec 8) (s : Ep6 D) :
    list.foldl (recvBit spi) (t, s) =
      (assemble t list (recvBits spi list.length s).1, (recvBits spi list.length s).2) := by
  induction list generalizing t s with
  | nil => rfl
  | cons i rest ih => rw [List.foldl_cons, recvBit, ih, List.length_cons, recvBits, assemble]

theorem assemble_bits (b7 b6 b5 b4 b3 b2 b1 b0 : Bool) (i : Fin 8) :
    (assemble 0 bitsDown [b7, b6, b5, b4, b3, b2, b1, b0]).getLsbD i = [b0, b1, b2, b3, b4, b5, b6, b7][i] := by
  revert b7 b6 b5 b4 b3 b2 b1 b0 i
  decide +kernel

theorem assemble_getLsbD (bits : List Bool) (eight : bits.length = 8) (k : ℕ) (inside : k < 8) :
    (assemble 0 bitsDown bits).getLsbD (7 - k) = bits.get ⟨k, eight ▸ inside⟩ := by
  match bits, eight with
  | [b7, b6, b5, b4, b3, b2, b1, b0], _ =>
      have place : k = 0 ∨ k = 1 ∨ k = 2 ∨ k = 3 ∨ k = 4 ∨ k = 5 ∨ k = 6 ∨ k = 7 := by omega
      have all := assemble_bits b7 b6 b5 b4 b3 b2 b1 b0
      rcases place with rfl | rfl | rfl | rfl | rfl | rfl | rfl | rfl
      · exact all 7
      · exact all 6
      · exact all 5
      · exact all 4
      · exact all 3
      · exact all 2
      · exact all 1
      · exact all 0

theorem nextBit_congr (f g : Flash) (mem : g.mem = f.mem) (wel : g.wel = f.wel) (ready : g.ready = f.ready)
    (bits : g.bits = f.bits) (busy : g.busy = f.busy) : g.nextBit = f.nextBit := by
  have same : g.answer = f.answer := by
    simp only [Flash.answer, Flash.answerTo.eq_def, Flash.status, mem, wel, ready, bits, busy]
  rw [Flash.nextBit, same, bits, Flash.nextBit]

theorem recvBits_sent (bound n : ℕ) (s : Ep6 Flash) (active : Active false s) (driven : Drives bound s.dev)
    (since : s.dev.busy ≤ bound) :
    Sent false (List.replicate n s.FIFO) s (recvBits (flash duration) n s).2 ∧
      Drives bound (recvBits (flash duration) n s).2.dev ∧
      ∀ k < n, ∃ busy, (recvBits (flash duration) n s).2.dev.busy ≤ busy ∧ busy ≤ bound ∧
        (recvBits (flash duration) n s).1[k]? =
          some { s.dev with bits := s.dev.bits ++ List.replicate k s.FIFO, busy := busy }.nextBit := by
  induction n generalizing s with
  | zero => exact ⟨⟨active, rfl, rfl, rfl, rfl, ⟨rfl, rfl, rfl, rfl, (List.append_nil _).symm, le_rfl⟩⟩, driven, nofun⟩
  | succ n ih =>
      obtain ⟨bit, sent, next, wire⟩ := RecDataBit_sent duration s active
      obtain ⟨others, last, bits⟩ := ih _ sent.active (Drives.since _ _ _ next since) (sent.shifted.busy.trans since)
      rw [wire] at others bits
      refine ⟨Sent.trans [s.FIFO] _ _ _ _ sent others, last, ?_⟩
      rintro (_ | k) inside
      · obtain ⟨busy, low, high, so⟩ := driven
        refine ⟨busy, (others.shifted.busy.trans sent.shifted.busy).trans low, high, ?_⟩
        rw [recvBits, List.getElem?_cons_zero, bit, so]
        exact congrArg some (nextBit_congr _ _ rfl rfl rfl (List.append_nil _).symm rfl)
      · obtain ⟨busy, low, high, so⟩ := bits k (Nat.lt_of_succ_lt_succ inside)
        refine ⟨busy, low, high, ?_⟩
        rw [recvBits, List.getElem?_cons_succ, so]
        refine congrArg some (nextBit_congr _ _ sent.shifted.mem sent.shifted.wel sent.shifted.ready ?_ rfl)
        dsimp only
        rw [sent.shifted.bits, List.append_assoc, List.replicate_succ]
        rfl

theorem nextBit_bytes (f : Flash) (bytes : List (BitVec 8)) (whole : f.bits = bytes.flatMap byteBits) (part : List Bool)
    (short : part.length < 8) :
    { f with bits := f.bits ++ part }.nextBit = f.answer.getLsbD (7 - part.length) := by
  have place : (8 * bytes.length + part.length) % 8 = part.length := by omega
  rw [Flash.nextBit, Flash.answer, Flash.answer]
  dsimp only
  rw [whole, toBytes_bytes bytes part short, toBytes_whole, List.length_append, bytes_length, place]
  rfl

theorem recv_byte_answer (bound : ℕ) (bytes : List (BitVec 8)) (s : Ep6 Flash) (active : Active false s)
    (whole : s.dev.bits = bytes.flatMap byteBits) (driven : Drives bound s.dev) (since : s.dev.busy ≤ bound) :
    Sent false (List.replicate 8 s.FIFO) s (spi_recv_byte (flash duration) s).2 ∧
      Drives bound (spi_recv_byte (flash duration) s).2.dev ∧
      ∀ i < 8, ∃ busy, (spi_recv_byte (flash duration) s).2.dev.busy ≤ busy ∧ busy ≤ bound ∧
        (spi_recv_byte (flash duration) s).1.getLsbD i = { s.dev with busy := busy }.answer.getLsbD i := by
  have low := clearSCK_sent duration s active
  have lowered := clearSCK_low duration s active
  have still : Drives bound (spi_clearSCK (flash duration) s).dev := by
    rw [lowered]
    exact Drives.tick _ _ driven
  obtain ⟨sent, last, bits⟩ := recvBits_sent duration bound 8 _ low.active still (low.shifted.busy.trans since)
  have wire : (spi_clearSCK (flash duration) s).FIFO = s.FIFO := rfl
  have fold := recv_fold (flash duration) bitsDown 0 (spi_clearSCK (flash duration) s)
  have count : bitsDown.length = 8 := rfl
  rw [count] at fold
  rw [wire] at sent bits
  have data := bitMOSI_sent duration true _ sent.active
  have ended := bitMOSI_low duration true _ sent.active
  have all := Sent.trans _ [] _ _ _ (Sent.trans [] _ _ _ _ low sent) data
  rw [List.append_nil, List.nil_append] at all
  rw [spi_recv_byte, fold]
  dsimp only
  refine ⟨all, ?_, ?_⟩
  · rw [spi_setMOSI, ended]
    exact Drives.tick _ _ last
  · intro i inside
    obtain ⟨busy, low', high, got⟩ := bits (7 - i) (by omega)
    refine ⟨busy, ?_, high, ?_⟩
    · exact data.shifted.busy.trans low'
    · have eight := recvBits_length (flash duration) 8 (spi_clearSCK (flash duration) s)
      have turned : 7 - (7 - i) = i := by omega
      have read := assemble_getLsbD _ eight (7 - i) (by omega)
      rw [turned] at read
      rw [List.getElem?_eq_getElem (by omega), Option.some.injEq] at got
      have short : (List.replicate (7 - i) s.FIFO).length < 8 := by rw [List.length_replicate]; omega
      have held : (spi_clearSCK (flash duration) s).dev.bits = bytes.flatMap byteBits := by rw [lowered]; exact whole
      have next := nextBit_bytes { (spi_clearSCK (flash duration) s).dev with busy := busy } bytes held _ short
      rw [List.length_replicate, turned] at next
      refine read.trans ((got.trans next).trans ?_)
      rw [lowered]
      rfl

end SsAdma
