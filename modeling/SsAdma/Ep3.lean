import SsAdma.ByteMemory
import SsAdma.Clocked

set_option autoImplicit false

namespace SsAdma

open ByteMemory

-- Endpoint 3 on both sides of the wire: the packets the host still holds, OUT3BUF
-- and its registers, and the flag between usb_isr and the main loop. The endpoint
-- takes a packet while it is armed; OUT07IRQ is its bit for endpoint 3.
structure Ep3 where
  sending : List (List (BitVec 8))
  armed : Bool
  OUT07IRQ : Bool
  out3data : ℕ
  xdata : ℕ → BitVec 8
  OUT3BC : BitVec 8
  AUTOPTR : ℕ

def out3buf : ℕ := 0x7d40

def Ep3.autodata : ℕ → Ep3 → List (BitVec 8) × Ep3
  | 0, s => ([], s)
  | reads + 1, s =>
      let rest := autodata reads { s with AUTOPTR := s.AUTOPTR + 1 }
      (s.xdata s.AUTOPTR :: rest.1, rest.2)

def Ep3.clockOut : ℕ → Ep3 → List (BitVec 8) × Ep3
  | 0, s => ([], s)
  | len + 1, s =>
      let first := autodata 8 s
      let rest := clockOut len first.2
      (first.1 ++ rest.1, rest.2)

def endpoint3_out (s : Ep3) : List (BitVec 8) × Ep3 :=
  let len := s.OUT3BC / 8
  Ep3.clockOut len.toNat { s with AUTOPTR := 0x7d * 256 + 0x40 }

-- A pass of the loop in main. Writing OUT3BC arms the endpoint again.
def Ep3.pass (s : Ep3) : List (BitVec 8) × Ep3 :=
  if s.out3data ≠ 0 then
    let served := endpoint3_out { s with out3data := s.out3data - 1 }
    (served.1, { served.2 with OUT3BC := 0, armed := true })
  else ([], s)

def Ep3.interrupt (s : Ep3) : Ep3 :=
  if s.OUT07IRQ then { s with out3data := s.out3data + 1, OUT07IRQ := false } else s

def Ep3.receive (s : Ep3) : Ep3 :=
  match s.armed, s.sending with
  | true, packet :: rest =>
      { s with
        sending := rest
        armed := false
        OUT07IRQ := true
        xdata := storeAt s.xdata out3buf packet
        OUT3BC := BitVec.ofNat 8 packet.length }
  | _, _ => s

inductive Ep3Event where
  | packet | interrupt | pass
deriving DecidableEq

def Ep3.step (s : Ep3) : Ep3Event → Ep3
  | .packet => s.receive
  | .interrupt => s.interrupt
  | .pass => s.pass.2

def Ep3.clocked (s : Ep3) : Ep3Event → List (BitVec 8)
  | .pass => s.pass.1
  | _ => []

structure Ep3.Idle (s : Ep3) : Prop where
  armed : s.armed = true
  noIrq : s.OUT07IRQ = false
  noData : s.out3data = 0

def Ep3.load (s : Ep3) (packets : List (List (BitVec 8))) : Ep3 := { s with sending := packets }

structure Ep3.Finished (s : Ep3) : Prop where
  sent : s.sending = []
  served : s.armed = true

def eights (packet : List (BitVec 8)) : List (BitVec 8) := packet.take (packet.length / 8 * 8)

-- What is still to be clocked out. A packet in OUT3BUF is known to the interrupt
-- or to the main loop, never to both.
inductive Ep3.Owes (s : Ep3) : List (BitVec 8) → Prop
  | idle (idle : s.Idle) : Owes s (s.sending.flatMap eights)
  | holds (packet : List (BitVec 8)) (busy : s.armed = false) (pending : s.out3data + s.OUT07IRQ.toNat = 1)
      (count : s.OUT3BC = BitVec.ofNat 8 packet.length) (small : packet.length ≤ 64)
      (held : ∀ k, (inside : k < packet.length) → s.xdata (out3buf + k) = packet[k]) :
      Owes s (eights packet ++ s.sending.flatMap eights)

theorem Ep3.autodata_eq (reads : ℕ) (s : Ep3) :
    autodata reads s = ((List.range' s.AUTOPTR reads).map s.xdata, { s with AUTOPTR := s.AUTOPTR + reads }) := by
  induction reads generalizing s with
  | zero => rfl
  | succ reads ih =>
      rw [autodata, ih, List.range'_succ, List.map_cons]
      simp only [Nat.add_assoc, Nat.add_comm 1]

theorem Ep3.clockOut_eq (len : ℕ) (s : Ep3) :
    clockOut len s = ((List.range' s.AUTOPTR (len * 8)).map s.xdata, { s with AUTOPTR := s.AUTOPTR + len * 8 }) := by
  induction len generalizing s with
  | zero => rw [clockOut, Nat.zero_mul]; rfl
  | succ len ih =>
      have count : (len + 1) * 8 = 8 + len * 8 := by omega
      rw [clockOut, autodata_eq, ih, count, ← List.range'_append_1, List.map_append]
      simp only [Nat.add_assoc]

theorem endpoint3_out_eights (s : Ep3) (packet : List (BitVec 8)) (count : s.OUT3BC = BitVec.ofNat 8 packet.length)
    (small : packet.length ≤ 64) (held : ∀ k, (inside : k < packet.length) → s.xdata (out3buf + k) = packet[k]) :
    (endpoint3_out s).1 = eights packet := by
  have len : (s.OUT3BC / 8).toNat = packet.length / 8 := by
    rw [count, BitVec.toNat_udiv, BitVec.toNat_ofNat, Nat.mod_eq_of_lt (by omega)]
    rfl
  rw [endpoint3_out, Ep3.clockOut_eq, len]
  refine List.ext_getElem ?_ fun k within inside => ?_
  · rw [List.length_map, List.length_range', eights, List.length_take]
    omega
  · have place : 0x7d * 256 + 0x40 + 1 * k = out3buf + k := by rw [out3buf]; omega
    have bound : k < packet.length := by
      rw [eights, List.length_take] at inside
      omega
    rw [List.getElem_map, List.getElem_range', place, held k bound]
    exact (List.getElem_take ..).symm

def Ep3.Script (s : Ep3) (script : List (BitVec 8)) : Prop :=
  s.Owes script ∧ ∀ packet ∈ s.sending, packet.length ≤ 64

theorem endpoint3_out_kept (s : Ep3) : ∃ ptr, (endpoint3_out s).2 = { s with AUTOPTR := ptr } := by
  rw [endpoint3_out, Ep3.clockOut_eq]
  exact ⟨_, rfl⟩

theorem Ep3.pass_served (s : Ep3) (data : s.out3data ≠ 0) :
    ∃ ptr, s.pass = ((endpoint3_out { s with out3data := s.out3data - 1 }).1,
      { s with out3data := s.out3data - 1, AUTOPTR := ptr, OUT3BC := 0, armed := true }) := by
  obtain ⟨ptr, kept⟩ := endpoint3_out_kept { s with out3data := s.out3data - 1 }
  refine ⟨ptr, ?_⟩
  rw [pass, if_pos data]
  dsimp only
  rw [kept]

theorem Ep3.Script.receive (s : Ep3) (script : List (BitVec 8)) (left : s.Script script) : s.receive.Script script := by
  obtain ⟨owes, small⟩ := left
  cases owes with
  | idle idle =>
      cases sending : s.sending with
      | nil =>
          have still : s.receive = s := by rw [Ep3.receive, idle.armed, sending]
          rw [still, ← sending]
          exact ⟨.idle idle, small⟩
      | cons packet rest =>
          rw [sending] at small
          rw [Ep3.receive, idle.armed, sending, List.flatMap_cons]
          refine ⟨.holds packet rfl ?_ rfl (small packet (by simp)) fun k inside => ?_, fun p member => small p (by simp [member])⟩
          · rw [idle.noData]
            rfl
          · exact storeAt_inside s.xdata out3buf packet k inside
  | holds packet busy pending count fits held =>
      have still : s.receive = s := by rw [Ep3.receive, busy]
      rw [still]
      exact ⟨.holds packet busy pending count fits held, small⟩

theorem Ep3.Script.interrupt (s : Ep3) (script : List (BitVec 8)) (left : s.Script script) : s.interrupt.Script script := by
  obtain ⟨owes, small⟩ := left
  cases irq : s.OUT07IRQ with
  | false =>
      rw [Ep3.interrupt, if_neg (by simp [irq])]
      exact ⟨owes, small⟩
  | true =>
      rw [Ep3.interrupt, if_pos irq]
      cases owes with
      | idle idle => exact absurd (irq.symm.trans idle.noIrq) (by decide)
      | holds packet busy pending count fits held =>
          rw [irq] at pending
          exact ⟨.holds packet busy pending count fits held, small⟩

theorem Ep3.Script.pass (s : Ep3) (script : List (BitVec 8)) (left : s.Script script) :
    ∃ rest, script = s.pass.1 ++ rest ∧ s.pass.2.Script rest := by
  obtain ⟨owes, small⟩ := left
  by_cases none : s.out3data = 0
  · rw [Ep3.pass, if_neg (by simp [none])]
    exact ⟨script, rfl, owes, small⟩
  · obtain ⟨ptr, served⟩ := s.pass_served none
    cases owes with
    | idle idle => exact absurd idle.noData none
    | holds packet busy pending count fits held =>
        have bytes := endpoint3_out_eights { s with out3data := s.out3data - 1 } packet count fits held
        have noIrq : s.OUT07IRQ = false := by
          cases irq : s.OUT07IRQ with
          | false => rfl
          | true => simp [irq] at pending; omega
        have noData : s.out3data - 1 = 0 := by
          rw [noIrq] at pending
          exact Nat.sub_eq_zero_of_le (Nat.le_of_eq pending)
        rw [served, bytes]
        exact ⟨s.sending.flatMap eights, rfl, .idle ⟨rfl, noIrq, noData⟩, small⟩

theorem Ep3.Script.step (s : Ep3) (event : Ep3Event) (script : List (BitVec 8)) (left : s.Script script) :
    ∃ rest, script = s.clocked event ++ rest ∧ (s.step event).Script rest := by
  cases event with
  | packet => exact ⟨script, rfl, left.receive s script⟩
  | interrupt => exact ⟨script, rfl, left.interrupt s script⟩
  | pass => exact left.pass s script

theorem ep3_clocks (s : Ep3) (idle : s.Idle) (packets : List (List (BitVec 8))) (small : ∀ packet ∈ packets, packet.length ≤ 64)
    (events : List Ep3Event) (finished : (Clocked.run Ep3.step (s.load packets) events).Finished) :
    Clocked.trace Ep3.step Ep3.clocked (s.load packets) events = packets.flatMap eights := by
  have start : (s.load packets).Script (packets.flatMap eights) := ⟨.idle ⟨idle.armed, idle.noIrq, idle.noData⟩, small⟩
  obtain ⟨rest, split, owes, _⟩ := Clocked.trace_script Ep3.step Ep3.clocked (fun _ _ => True) Ep3.Script
    (fun s event script left _ => left.step s event script) (s.load packets) events _ start (Clocked.admits_free _ _ _)
  have none : rest = [] := by
    cases owes with
    | idle _ => rw [finished.sent, List.flatMap_nil]
    | holds packet busy _ _ _ _ => exact absurd (finished.served.symm.trans busy) (by decide)
  rw [split, none, List.append_nil]

def servePackets (packets : List (List (BitVec 8))) : List Ep3Event :=
  packets.flatMap fun _ => [.packet, .interrupt, .pass]

theorem Ep3.load_receive (s : Ep3) (idle : s.Idle) (packet : List (BitVec 8)) (rest : List (List (BitVec 8))) :
    (s.load (packet :: rest)).receive.interrupt =
      { s with
        sending := rest
        armed := false
        OUT07IRQ := false
        out3data := s.out3data + 1
        xdata := storeAt s.xdata out3buf packet
        OUT3BC := BitVec.ofNat 8 packet.length } := by
  rw [receive, load, idle.armed]
  rfl

theorem servePackets_finished (s : Ep3) (idle : s.Idle) (packets : List (List (BitVec 8))) :
    (Clocked.run Ep3.step (s.load packets) (servePackets packets)).Finished := by
  induction packets generalizing s with
  | nil => exact ⟨rfl, idle.armed⟩
  | cons packet rest ih =>
      have received := s.load_receive idle packet rest
      obtain ⟨ptr, served⟩ := Ep3.pass_served ((s.load (packet :: rest)).receive.interrupt) (by rw [received]; exact Nat.succ_ne_zero _)
      have next : ((s.load (packet :: rest)).receive.interrupt.pass).2.Idle := by
        rw [served, received]
        exact ⟨rfl, rfl, idle.noData⟩
      have same : (s.load (packet :: rest)).receive.interrupt.pass.2 =
          (s.load (packet :: rest)).receive.interrupt.pass.2.load rest := by
        rw [served, received]
        rfl
      rw [servePackets, List.flatMap_cons, Clocked.run_append, Clocked.run_cons, Clocked.run_cons, Clocked.run_cons,
        Clocked.run_nil]
      simp only [Ep3.step]
      rw [same]
      exact ih _ next

-- A transfer in packets of 64 bytes with at most one shorter behind them. Whether
-- an empty one ends it is up to the host controller.
inductive UsbPackets : List (BitVec 8) → List (List (BitVec 8)) → Prop
  | none : UsbPackets [] []
  | short (packet : List (BitVec 8)) (fewer : packet.length < 64) : UsbPackets packet [packet]
  | full (packet rest : List (BitVec 8)) (packets : List (List (BitVec 8))) (size : packet.length = 64)
      (more : UsbPackets rest packets) : UsbPackets (packet ++ rest) (packet :: packets)

theorem usbPackets_small (bytes : List (BitVec 8)) (packets : List (List (BitVec 8))) (cut : UsbPackets bytes packets) :
    ∀ packet ∈ packets, packet.length ≤ 64 := by
  induction cut with
  | none => exact nofun
  | short packet fewer => simpa using Nat.le_of_lt fewer
  | full packet rest packets size _ ih => exact List.forall_mem_cons.mpr ⟨Nat.le_of_eq size, ih⟩

theorem usbPackets_exist (bytes : List (BitVec 8)) : ∃ packets, UsbPackets bytes packets := by
  by_cases fewer : bytes.length < 64
  · exact ⟨_, .short bytes fewer⟩
  · obtain ⟨packets, more⟩ := usbPackets_exist (bytes.drop 64)
    have size : (bytes.take 64).length = 64 := by rw [List.length_take]; omega
    have cut := UsbPackets.full (bytes.take 64) (bytes.drop 64) packets size more
    rw [List.take_append_drop] at cut
    exact ⟨_, cut⟩
termination_by bytes.length
decreasing_by
  rw [List.length_drop]
  omega

theorem usbPackets_eights (bytes : List (BitVec 8)) (packets : List (List (BitVec 8))) (cut : UsbPackets bytes packets) :
    packets.flatMap eights = eights bytes := by
  induction cut with
  | none => rfl
  | short packet _ => rw [List.flatMap_singleton]
  | full packet rest packets size _ ih =>
      have count : (64 + rest.length) / 8 * 8 = 64 + rest.length / 8 * 8 := by omega
      have all : packet.take (64 / 8 * 8) = packet := List.take_of_length_le (Nat.le_of_eq size)
      rw [List.flatMap_cons, ih, eights, eights, eights, List.length_append, size, count, all, ← size, List.take_length_add_append]

theorem eights_iff (bytes : List (BitVec 8)) : eights bytes = bytes ↔ 8 ∣ bytes.length := by
  rw [eights, List.take_eq_self_iff]
  omega

def Delivers (bytes : List (BitVec 8)) : Prop :=
  ∀ (s : Ep3) (packets : List (List (BitVec 8))) (events : List Ep3Event), s.Idle → UsbPackets bytes packets →
    (Clocked.run Ep3.step (s.load packets) events).Finished →
    Clocked.trace Ep3.step Ep3.clocked (s.load packets) events = bytes

theorem delivers_iff (bytes : List (BitVec 8)) : Delivers bytes ↔ 8 ∣ bytes.length := by
  rw [← eights_iff]
  constructor
  · intro delivers
    obtain ⟨packets, cut⟩ := usbPackets_exist bytes
    have idle : (⟨[], true, false, 0, fun _ => 0, 0, 0⟩ : Ep3).Idle := ⟨rfl, rfl, rfl⟩
    have finished := servePackets_finished _ idle packets
    have clocked := ep3_clocks _ idle packets (usbPackets_small bytes packets cut) _ finished
    rw [← usbPackets_eights bytes packets cut, ← clocked]
    exact delivers _ packets _ idle cut finished
  · intro whole s packets events idle cut finished
    rw [ep3_clocks s idle packets (usbPackets_small bytes packets cut) events finished, usbPackets_eights bytes packets cut, whole]

end SsAdma
