import SsAdma.Capture
import SsAdma.Clocked

set_option autoImplicit false

namespace SsAdma

open ByteMemory

def TO_FIFO : BitVec 8 := 0x02

def FROM_FIFO : BitVec 8 := 0x04

def endpoint2_out (control : BitVec 8) (s : Ep2) : Ep2 :=
  if control &&& TO_FIFO ≠ 0 then s else if control &&& FROM_FIFO ≠ 0 then send_ep2_info s else s

structure Ep2Usb where
  port : Ep2
  in2Irq : Bool
  delivered : List (List (BitVec 8))

inductive Ep2Event where
  | fpgaWrite (b : BitVec 8)
  | out2Interrupt (control : BitVec 8)
  | in2Token
  | in2Interrupt

def Ep2Usb.step (s : Ep2Usb) : Ep2Event → Ep2Usb
  | .fpgaWrite b => { s with port := { s.port with fifo := s.port.fifo ++ [b] } }
  | .out2Interrupt control => { s with port := endpoint2_out control s.port }
  | .in2Token =>
      if s.port.in2Busy then
        { port := { s.port with in2Busy := false }, in2Irq := true, delivered := s.delivered ++ [s.port.packet] }
      else s
  | .in2Interrupt =>
      if s.in2Irq then
        let port := if s.port.ep2in_pending then send_ep2_info { s.port with ep2in_pending := false } else s.port
        { s with port := port, in2Irq := false }
      else s

def Ep2Event.written : Ep2Event → List (BitVec 8)
  | .fpgaWrite b => [b]
  | _ => []

def Ep2.inFlight (s : Ep2) : List (BitVec 8) := if s.in2Busy then s.packet.drop 2 else []

structure Ep2Usb.Carries (s : Ep2Usb) (stream : List (BitVec 8)) (payloads : List (List (BitVec 8))) : Prop where
  delivered : s.delivered = payloads.map framed
  short : ∀ payload ∈ payloads, payload.length ≤ 62
  busy : s.port.in2Busy = true → s.port.packet = framed s.port.inFlight ∧ s.port.inFlight.length ≤ 62
  whole : payloads.flatten ++ s.port.inFlight ++ s.port.fifo = stream

theorem Ep2.inFlight_free (s : Ep2) (free : s.in2Busy = false) : s.inFlight = [] := by simp [inFlight, free]

theorem send_ep2_info_inFlight (s : Ep2) (free : s.in2Busy = false) :
    (send_ep2_info s).in2Busy = true ∧ (send_ep2_info s).inFlight = s.fifo.take 62 ∧ (send_ep2_info s).fifo = s.fifo.drop 62 := by
  have sent := send_ep2_info_packet s free
  have unfolded : (send_ep2_info s).in2Busy = true ∧ (send_ep2_info s).fifo = s.fifo.drop 62 := by
    rw [send_ep2_info, if_neg (by simp [free]), Ep2.autodata_fifo]
    exact ⟨rfl, rfl⟩
  refine ⟨unfolded.1, ?_, unfolded.2⟩
  rw [Ep2.inFlight, if_pos unfolded.1, sent]
  rfl

theorem Ep2Usb.Carries.sends {s : Ep2Usb} {stream : List (BitVec 8)} {payloads : List (List (BitVec 8))} (carries : s.Carries stream payloads)
    (irq : Bool) : Ep2Usb.Carries ⟨send_ep2_info s.port, irq, s.delivered⟩ stream payloads := by
  by_cases busy : s.port.in2Busy = true
  · have kept : send_ep2_info s.port = { s.port with ep2in_pending := true } := if_pos busy
    rw [kept]
    exact ⟨carries.delivered, carries.short, carries.busy, carries.whole⟩
  · have free : s.port.in2Busy = false := by simpa using busy
    obtain ⟨_, sent, left⟩ := send_ep2_info_inFlight s.port free
    refine ⟨carries.delivered, carries.short, fun _ => ?_, ?_⟩
    · rw [sent]
      exact ⟨send_ep2_info_packet s.port free, List.length_take_le 62 s.port.fifo⟩
    · rw [sent, left, List.append_assoc, List.take_append_drop, ← carries.whole, s.port.inFlight_free free, List.append_nil]

theorem Ep2Usb.Carries.step {s : Ep2Usb} {stream : List (BitVec 8)} {payloads : List (List (BitVec 8))} (carries : s.Carries stream payloads)
    (event : Ep2Event) : ∃ payloads, (s.step event).Carries (stream ++ event.written) payloads := by
  cases event with
  | fpgaWrite b =>
      refine ⟨payloads, carries.delivered, carries.short, carries.busy, ?_⟩
      rw [Ep2Event.written, ← carries.whole, List.append_assoc _ s.port.fifo]
      rfl
  | out2Interrupt control =>
      refine ⟨payloads, ?_⟩
      change (s.step (.out2Interrupt control)).Carries (stream ++ []) payloads
      rw [List.append_nil, Ep2Usb.step, endpoint2_out]
      split
      · exact carries
      · split
        · exact carries.sends s.in2Irq
        · exact carries
  | in2Token =>
      change ∃ payloads, (s.step .in2Token).Carries (stream ++ []) payloads
      rw [List.append_nil, Ep2Usb.step]
      split
      · rename_i busy
        obtain ⟨packet, length⟩ := carries.busy busy
        refine ⟨payloads ++ [s.port.inFlight], ?_, ?_, by simp, ?_⟩
        · rw [List.map_append, ← carries.delivered, List.map_singleton, ← packet]
        · intro payload member
          rcases List.mem_append.mp member with before | last
          · exact carries.short payload before
          · rwa [List.mem_singleton.mp last]
        · have taken : Ep2.inFlight { s.port with in2Busy := false } = [] := Ep2.inFlight_free _ rfl
          rw [List.flatten_append, List.flatten_singleton, taken, List.append_nil]
          exact carries.whole
      · exact ⟨payloads, carries⟩
  | in2Interrupt =>
      refine ⟨payloads, ?_⟩
      change (s.step .in2Interrupt).Carries (stream ++ []) payloads
      rw [List.append_nil, Ep2Usb.step]
      split
      · split
        · have cleared : Ep2Usb.Carries ⟨{ s.port with ep2in_pending := false }, s.in2Irq, s.delivered⟩ stream payloads :=
            ⟨carries.delivered, carries.short, carries.busy, carries.whole⟩
          exact cleared.sends false
        · exact ⟨carries.delivered, carries.short, carries.busy, carries.whole⟩
      · exact carries

theorem Ep2Usb.Carries.run {s : Ep2Usb} {stream : List (BitVec 8)} {payloads : List (List (BitVec 8))} (carries : s.Carries stream payloads)
    (events : List Ep2Event) :
    ∃ payloads, (Clocked.run Ep2Usb.step s events).Carries (stream ++ events.flatMap Ep2Event.written) payloads := by
  induction events generalizing s stream payloads with
  | nil => exact ⟨payloads, by rwa [List.flatMap_nil, List.append_nil]⟩
  | cons event rest ih =>
      obtain ⟨next, stepped⟩ := carries.step event
      obtain ⟨last, ran⟩ := ih stepped
      exact ⟨last, by rwa [List.flatMap_cons, ← List.append_assoc]⟩

-- The loop over run with the transfers usb_bulk_read hands over. Every transfer
-- is put over the one before it.
def captureReads (fuel : ℕ) : List (List (BitVec 8)) → (ℕ → BitVec 8) → List (BitVec 8) → BitVec 32 → Option (List (BitVec 8))
  | [], _, log, _ => some log
  | read :: rest, old, log, cnt =>
      (capture fuel (storeAt old 0 read) read.length log cnt).bind fun t => captureReads fuel rest (storeAt old 0 read) t.log t.cnt

theorem capture_mono (fuel more : ℕ) (buffer : ℕ → BitVec 8) (ret : ℤ) (log : List (BitVec 8)) (cnt : BitVec 32) (t : PacketLoop)
    (result : capture fuel buffer ret log cnt = some t) (enough : fuel ≤ more) : capture more buffer ret log cnt = some t := by
  unfold capture at result ⊢
  split
  · rename_i long
    rw [if_pos long] at result
    exact Loop.run_mono _ _ fuel more _ t result enough
  · rename_i short
    rwa [if_neg short] at result

theorem captureReads_mono (fuel more : ℕ) (reads : List (List (BitVec 8))) (old : ℕ → BitVec 8) (log all : List (BitVec 8)) (cnt : BitVec 32)
    (result : captureReads fuel reads old log cnt = some all) (enough : fuel ≤ more) : captureReads more reads old log cnt = some all := by
  induction reads generalizing old log cnt with
  | nil => exact result
  | cons read rest ih =>
      obtain ⟨t, first, others⟩ := Option.bind_eq_some_iff.mp result
      exact Option.bind_eq_some_iff.mpr ⟨t, capture_mono fuel more _ _ _ _ t first enough, ih _ _ _ others⟩

theorem captureReads_framed (reads : List (List (List (BitVec 8)))) (short : ∀ read ∈ reads, ∀ payload ∈ read, payload.length < 256)
    (old : ℕ → BitVec 8) (log : List (BitVec 8)) (cnt : BitVec 32) :
    ∃ fuel, captureReads fuel (reads.map fun read => read.flatMap framed) old log cnt = some (log ++ reads.flatten.flatten) := by
  induction reads generalizing old log cnt with
  | nil => exact ⟨0, congrArg some (List.append_nil log).symm⟩
  | cons read rest ih =>
      obtain ⟨fuel, t, first, logged⟩ := capture_framed old read (short read List.mem_cons_self) log cnt
      obtain ⟨more, others⟩ := ih (fun r member => short r (List.mem_cons_of_mem _ member)) (storeAt old 0 (read.flatMap framed)) t.log t.cnt
      refine ⟨max fuel more, Option.bind_eq_some_iff.mpr ⟨t, capture_mono _ _ _ _ _ _ t first (le_max_left _ _), ?_⟩⟩
      rw [List.flatten_cons, List.flatten_append, ← List.append_assoc, ← logged]
      exact captureReads_mono _ _ _ _ _ _ _ others (le_max_right _ _)

theorem cut_payloads (reads : List (List (List (BitVec 8)))) (payloads : List (List (BitVec 8))) (cut : reads.flatten = payloads.map framed) :
    ∃ parts : List (List (List (BitVec 8))), parts.flatten = payloads ∧ reads = parts.map fun part => part.map framed := by
  induction reads generalizing payloads with
  | nil =>
      refine ⟨[], ?_, rfl⟩
      exact (List.map_eq_nil_iff.mp cut.symm).symm
  | cons read rest ih =>
      obtain ⟨front, back, rfl, first, behind⟩ := List.map_eq_append_iff.mp (List.flatten_cons ▸ cut).symm
      obtain ⟨parts, joined, others⟩ := ih back behind.symm
      refine ⟨front :: parts, ?_, ?_⟩
      · rw [List.flatten_cons, joined]
      · rw [List.map_cons, ← others, first]

theorem capture_logs_stream (s : Ep2) (free : s.in2Busy = false) (irq : Bool) (events : List Ep2Event) (old : ℕ → BitVec 8) (cnt : BitVec 32)
    (reads : List (List (List (BitVec 8)))) (cut : reads.flatten = (Clocked.run Ep2Usb.step ⟨s, irq, []⟩ events).delivered) :
    ∃ fuel log, captureReads fuel (reads.map List.flatten) old [] cnt = some log ∧
      s.fifo ++ events.flatMap Ep2Event.written = log ++ (Clocked.run Ep2Usb.step ⟨s, irq, []⟩ events).port.inFlight ++
        (Clocked.run Ep2Usb.step ⟨s, irq, []⟩ events).port.fifo := by
  have start : Ep2Usb.Carries ⟨s, irq, []⟩ s.fifo [] := ⟨rfl, by simp, by simp [free], by simp [s.inFlight_free free]⟩
  obtain ⟨payloads, carries⟩ := start.run events
  obtain ⟨parts, joined, rfl⟩ := cut_payloads reads payloads (cut.trans carries.delivered)
  have short : ∀ part ∈ parts, ∀ payload ∈ part, payload.length < 256 := by
    intro part among payload member
    have listed : payload ∈ payloads := joined ▸ List.mem_flatten.mpr ⟨part, among, member⟩
    exact Nat.lt_of_le_of_lt (carries.short payload listed) (by decide)
  obtain ⟨fuel, logged⟩ := captureReads_framed parts short old [] cnt
  refine ⟨fuel, payloads.flatten, ?_, carries.whole.symm⟩
  rw [List.map_map]
  rwa [joined, List.nil_append] at logged

def twoBytes : Ep2 := ⟨false, false, fun _ => 0, 0, [1, 2]⟩

def threeEvents : List Ep2Event := [.out2Interrupt FROM_FIFO, .fpgaWrite 3, .in2Token]

theorem capture_logs_two_bytes :
    ∃ fuel log, captureReads fuel ([[[0xaa, 2, 1, 2]]].map List.flatten) (fun _ => 0) [] 0 = some log ∧
      twoBytes.fifo ++ threeEvents.flatMap Ep2Event.written =
        log ++ (Clocked.run Ep2Usb.step ⟨twoBytes, false, []⟩ threeEvents).port.inFlight ++
          (Clocked.run Ep2Usb.step ⟨twoBytes, false, []⟩ threeEvents).port.fifo :=
  capture_logs_stream twoBytes rfl false threeEvents (fun _ => 0) 0 [[[0xaa, 2, 1, 2]]] (by decide)

end SsAdma
