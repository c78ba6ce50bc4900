import SsAdma.ByteMemory
import SsAdma.Loop

set_option autoImplicit false

namespace SsAdma

open ByteMemory

-- The packet loop of the capture mode. p is an offset into buffer, log what has
-- been written to the file, and examined the offsets read for either.
structure PacketLoop where
  p : ℕ
  log : List (BitVec 8)
  cnt : BitVec 32
  examined : List ℕ

def PacketLoop.start (log : List (BitVec 8)) (cnt : BitVec 32) : PacketLoop := ⟨0, log, cnt, []⟩

def PacketLoop.atEnd (ret : ℤ) (s : PacketLoop) : Bool := decide (ret ≤ s.p)

def PacketLoop.body (buffer : ℕ → BitVec 8) (s : PacketLoop) : PacketLoop :=
  if buffer s.p ≠ 0xaa then { s with examined := s.examined ++ [s.p] }
  else
    let l := (buffer (s.p + 1)).toNat
    let p := s.p + 2
    if l ≠ 0 then
      { p := p + l
        log := s.log ++ (List.range' p l).map buffer
        cnt := s.cnt + BitVec.ofNat 32 l
        examined := s.examined ++ s.p :: (s.p + 1) :: List.range' p l }
    else { s with p := p, examined := s.examined ++ [s.p, s.p + 1] }

-- One turn of the loop over run, from the value usb_bulk_read returned on. The
-- largest of these values is only printed and left out.
def capture (fuel : ℕ) (buffer : ℕ → BitVec 8) (ret : ℤ) (log : List (BitVec 8)) (cnt : BitVec 32) : Option PacketLoop :=
  if ret > 2 then Loop.run (PacketLoop.atEnd ret) (PacketLoop.body buffer) fuel (PacketLoop.start log cnt)
  else some (PacketLoop.start log cnt)

inductive Packets : List (BitVec 8) → List (BitVec 8) → Prop
  | here (bytes : List (BitVec 8)) : Packets bytes bytes
  | packet (len : BitVec 8) (payload rest back : List (BitVec 8)) (whole : payload.length = len.toNat)
      (more : Packets rest back) : Packets (0xaa :: len :: (payload ++ rest)) back

def Truncated (bytes : List (BitVec 8)) : Prop :=
  bytes = [0xaa] ∨ ∃ len rest, bytes = 0xaa :: len :: rest ∧ rest.length < len.toNat

def Unmarked (bytes : List (BitVec 8)) : Prop := ∃ b rest, bytes = b :: rest ∧ b ≠ 0xaa

theorem packets_total (bytes : List (BitVec 8)) :
    Packets bytes [] ∨ ∃ back, Packets bytes back ∧ (Unmarked back ∨ Truncated back) := by
  match bytes with
  | [] => exact .inl (.here [])
  | b :: rest =>
      by_cases marked : b = 0xaa
      · subst marked
        match rest with
        | [] => exact .inr ⟨_, .here _, .inr (.inl rfl)⟩
        | len :: rest =>
            by_cases enough : len.toNat ≤ rest.length
            · have whole : (rest.take len.toNat).length = len.toNat := by rw [List.length_take]; omega
              rw [← List.take_append_drop len.toNat rest]
              rcases packets_total (rest.drop len.toNat) with all | ⟨back, walk, ends⟩
              · exact .inl (.packet len _ _ [] whole all)
              · exact .inr ⟨back, .packet len _ _ back whole walk, ends⟩
            · exact .inr ⟨_, .here _, .inr (.inr ⟨len, rest, rfl, by omega⟩)⟩
      · exact .inr ⟨_, .here _, .inl ⟨b, rest, rfl, marked⟩⟩
termination_by bytes.length
decreasing_by
  simp only [List.length_drop, List.length_cons]
  omega

structure PacketLoop.At (buffer : ℕ → BitVec 8) (ret : ℕ) (bytes : List (BitVec 8)) (s : PacketLoop) : Prop where
  left : s.p + bytes.length = ret
  held : ∀ k, (inside : k < bytes.length) → buffer (s.p + k) = bytes[k]
  inside : ∀ k ∈ s.examined, k < ret

theorem body_marked (buffer : ℕ → BitVec 8) (s : PacketLoop) (len : BitVec 8) (marked : buffer s.p = 0xaa)
    (length : buffer (s.p + 1) = len) :
    s.body buffer =
      { p := s.p + 2 + len.toNat
        log := s.log ++ (List.range' (s.p + 2) len.toNat).map buffer
        cnt := s.cnt + BitVec.ofNat 32 len.toNat
        examined := s.examined ++ s.p :: (s.p + 1) :: List.range' (s.p + 2) len.toNat } := by
  rw [PacketLoop.body, if_neg (by simp [marked]), length]
  by_cases empty : len.toNat = 0
  · simp [empty]
  · rw [if_pos empty]

theorem PacketLoop.At.goesOn (buffer : ℕ → BitVec 8) (ret : ℕ) (b : BitVec 8) (bytes : List (BitVec 8)) (s : PacketLoop)
    (here : s.At buffer ret (b :: bytes)) : s.atEnd ret = false := by
  have left := here.left
  rw [List.length_cons] at left
  simp only [atEnd, decide_eq_false_iff_not]
  omega

theorem PacketLoop.At.packet (buffer : ℕ → BitVec 8) (ret : ℕ) (len : BitVec 8) (payload rest : List (BitVec 8))
    (whole : payload.length = len.toNat) (s : PacketLoop) (here : s.At buffer ret (0xaa :: len :: (payload ++ rest))) :
    (s.body buffer).At buffer ret rest ∧ (s.body buffer).log = s.log ++ payload := by
  have left := here.left
  simp only [List.length_cons, List.length_append] at left
  have bytes : (List.range' (s.p + 2) len.toNat).map buffer = payload := by
    refine List.ext_getElem (by simp [whole]) fun k within inside => ?_
    have place : s.p + 2 + 1 * k = s.p + (k + 2) := by omega
    have held := here.held (k + 2) (by simp only [List.length_cons, List.length_append]; omega)
    rw [List.getElem_map, List.getElem_range', place, held]
    exact List.getElem_append_left inside
  rw [body_marked buffer s len (here.held 0 (by simp)) (here.held 1 (by simp)), bytes]
  refine ⟨⟨?_, fun k inside => ?_, fun k member => ?_⟩, rfl⟩
  · dsimp only
    omega
  · have place : s.p + 2 + len.toNat + k = s.p + (k + payload.length + 2) := by omega
    have held := here.held (k + payload.length + 2) (by simp only [List.length_cons, List.length_append]; omega)
    rw [place, held]
    exact (List.getElem_append_right' payload inside).symm
  · simp only [List.mem_append, List.mem_cons, List.mem_range'_1] at member
    rcases member with before | rfl | rfl | within
    · exact here.inside k before
    · omega
    · omega
    · omega

theorem PacketLoop.packets_reaches (buffer : ℕ → BitVec 8) (ret : ℕ) (bytes back : List (BitVec 8)) (walk : Packets bytes back)
    (s : PacketLoop) (here : s.At buffer ret bytes) :
    ∃ t, Loop.Reaches (atEnd ret) (body buffer) s t ∧ t.At buffer ret back := by
  induction walk generalizing s with
  | here bytes => exact ⟨s, .here s, here⟩
  | packet len payload rest back whole _ ih =>
      obtain ⟨t, reached, there⟩ := ih _ (here.packet buffer ret len payload rest whole s).1
      exact ⟨t, .step s t (here.goesOn buffer ret _ _ s) reached, there⟩

theorem PacketLoop.At.stopped (buffer : ℕ → BitVec 8) (ret : ℕ) (s : PacketLoop) (here : s.At buffer ret []) :
    s.atEnd ret = true := by
  have left := here.left
  rw [List.length_nil] at left
  simp only [atEnd, decide_eq_true_eq]
  omega

theorem PacketLoop.At.never (buffer : ℕ → BitVec 8) (ret : ℕ) (bytes : List (BitVec 8)) (unmarked : Unmarked bytes)
    (s : PacketLoop) (here : s.At buffer ret bytes) : Loop.Never (atEnd ret) (body buffer) s := by
  obtain ⟨b, rest, rfl, other⟩ := unmarked
  have goesOn := here.goesOn buffer ret b rest s
  have first : buffer s.p = b := here.held 0 (by simp)
  refine Loop.never_of_invariant _ _ (fun t => t.p = s.p) (fun t same => ?_) (fun t same => ?_) s rfl
  · rw [atEnd, same]
    exact goesOn
  · rw [body, if_pos (by rwa [same, first])]
    exact same

theorem PacketLoop.At.overruns (buffer : ℕ → BitVec 8) (ret : ℕ) (bytes : List (BitVec 8)) (truncated : Truncated bytes)
    (s : PacketLoop) (here : s.At buffer ret bytes) :
    s.atEnd ret = false ∧ (s.body buffer).atEnd ret = true ∧ ret ∈ (s.body buffer).examined := by
  have left := here.left
  rcases truncated with rfl | ⟨len, rest, rfl, short⟩
  · refine ⟨here.goesOn buffer ret _ _ s, ?_⟩
    rw [body_marked buffer s (buffer (s.p + 1)) (here.held 0 (by simp)) rfl]
    simp only [List.length_cons, List.length_nil] at left
    simp only [atEnd, decide_eq_true_eq, List.mem_append, List.mem_cons, List.mem_range'_1]
    omega
  · refine ⟨here.goesOn buffer ret _ _ s, ?_⟩
    rw [body_marked buffer s len (here.held 0 (by simp)) (here.held 1 (by simp))]
    simp only [List.length_cons] at left
    simp only [atEnd, decide_eq_true_eq, List.mem_append, List.mem_cons, List.mem_range'_1]
    omega

def CaptureSafe (buffer : ℕ → BitVec 8) (ret : ℤ) (log : List (BitVec 8)) (cnt : BitVec 32) : Prop :=
  ∃ fuel t, capture fuel buffer ret log cnt = some t ∧ ∀ k ∈ t.examined, (k : ℤ) < ret

theorem PacketLoop.start_at (old : ℕ → BitVec 8) (bytes : List (BitVec 8)) (log : List (BitVec 8)) (cnt : BitVec 32) :
    (start log cnt).At (storeAt old 0 bytes) bytes.length bytes := by
  refine ⟨Nat.zero_add _, fun k inside => ?_, nofun⟩
  exact storeAt_inside old 0 bytes k inside

-- What usb_bulk_read leaves: the transfer from the start of the buffer on, and
-- behind it what was there.
theorem capture_safe_iff (old : ℕ → BitVec 8) (bytes : List (BitVec 8)) (log : List (BitVec 8)) (cnt : BitVec 32) :
    CaptureSafe (storeAt old 0 bytes) bytes.length log cnt ↔ bytes.length ≤ 2 ∨ Packets bytes [] := by
  have here := PacketLoop.start_at old bytes log cnt
  by_cases short : bytes.length ≤ 2
  · have none : ¬ (bytes.length : ℤ) > 2 := by omega
    exact iff_of_true ⟨0, _, if_neg none, nofun⟩ (.inl short)
  have long : (bytes.length : ℤ) > 2 := by omega
  constructor
  · rintro ⟨fuel, t, result, inside⟩
    rw [capture, if_pos long] at result
    rcases packets_total bytes with all | ⟨back, walk, ends⟩
    · exact .inr all
    obtain ⟨u, reached, there⟩ := PacketLoop.packets_reaches _ _ bytes back walk _ here
    rcases ends with unmarked | truncated
    · have never := Loop.never_of_reaches _ _ _ _ reached (there.never _ _ back unmarked u)
      exact absurd ((never fuel).symm.trans result) (by simp)
    · obtain ⟨goesOn, stopped, outside⟩ := there.overruns _ _ back truncated u
      have last := reached.trans _ _ _ _ _ (.step u _ goesOn (.here _))
      rw [Loop.run_unique _ _ _ _ t last stopped fuel result] at inside
      exact absurd (inside _ outside) (by omega)
  · rintro (few | all)
    · omega
    · obtain ⟨u, reached, there⟩ := PacketLoop.packets_reaches _ _ bytes [] all _ here
      obtain ⟨fuel, result⟩ := Loop.run_of_reaches _ _ _ _ reached (there.stopped _ _ u)
      refine ⟨fuel, u, (if_pos long).trans result, fun k member => ?_⟩
      exact Int.ofNat_lt.mpr (there.inside k member)

-- No byte of it is a mark: p stays where it is.
theorem unmarked_transfer_hangs : ¬ CaptureSafe (storeAt (fun _ => 0) 0 [0, 0, 0]) 3 [] 0 := by
  rintro ⟨fuel, t, result, _⟩
  have here := PacketLoop.start_at (fun _ => 0) [0, 0, 0] [] 0
  have never := here.never _ _ _ ⟨0, [0, 0], rfl, by decide⟩ _
  exact absurd ((never fuel).symm.trans result) (by simp)

-- What the firmware's side of endpoint 2 uses: fifo is what the FPGA delivers
-- until FPGA_FIFO_RD falls.
structure Ep2 where
  in2Busy : Bool
  ep2in_pending : Bool
  IN2BUF : ℕ → BitVec 8
  IN2BC : BitVec 8
  fifo : List (BitVec 8)

def Ep2.autodata : ℕ → ℕ → Ep2 → ℕ × Ep2
  | 0, i, s => (i, s)
  | left + 1, i, s =>
      match s.fifo with
      | [] => (i, s)
      | b :: rest => autodata left (i + 1) { s with IN2BUF := storeAt s.IN2BUF (2 + i) [b], fifo := rest }

def send_ep2_info (s : Ep2) : Ep2 :=
  if s.in2Busy then { s with ep2in_pending := true }
  else
    let (i, s) := s.autodata (64 - 2) 0
    { s with
      IN2BUF := storeAt (storeAt s.IN2BUF 0 [0xaa]) 1 [BitVec.ofNat 8 i]
      ep2in_pending := !s.fifo.isEmpty
      IN2BC := BitVec.ofNat 8 (i + 2)
      in2Busy := true }

def Ep2.packet (s : Ep2) : List (BitVec 8) := (List.range s.IN2BC.toNat).map s.IN2BUF

theorem Ep2.autodata_fifo (left i : ℕ) (s : Ep2) :
    autodata left i s =
      (i + (s.fifo.take left).length,
        { s with IN2BUF := storeAt s.IN2BUF (2 + i) (s.fifo.take left), fifo := s.fifo.drop left }) := by
  induction left generalizing i s with
  | zero => rw [autodata, List.take_zero, storeAt_nil, List.drop_zero, List.length_nil, Nat.add_zero]
  | succ left ih =>
      rw [autodata]
      split
      · rename_i empty
        rw [empty, List.take_nil, List.drop_nil, storeAt_nil, List.length_nil, Nat.add_zero, ← empty]
      · rename_i b rest more
        have place : 2 + (i + 1) = 2 + i + [b].length := by simp [Nat.add_assoc]
        rw [ih, more, List.take_succ_cons, List.drop_succ_cons, List.length_cons, place, storeAt_append,
          List.singleton_append]
        simp only [Nat.add_assoc, Nat.add_comm 1]

def framed (payload : List (BitVec 8)) : List (BitVec 8) := 0xaa :: BitVec.ofNat 8 payload.length :: payload

theorem framed_held (buf : ℕ → BitVec 8) (payload : List (BitVec 8)) :
    (List.range (payload.length + 2)).map
        (storeAt (storeAt (storeAt buf 2 payload) 0 [0xaa]) 1 [BitVec.ofNat 8 payload.length]) = framed payload := by
  have mark := storeAt_inside (storeAt buf 2 payload) 0 [0xaa] 0 (by simp)
  have size := storeAt_inside (storeAt (storeAt buf 2 payload) 0 [0xaa]) 1 [BitVec.ofNat 8 payload.length] 0 (by simp)
  refine List.ext_getElem (by simp [framed]) fun k within inside => ?_
  rw [List.getElem_map, List.getElem_range]
  match k with
  | 0 => exact (storeAt_before _ 1 _ 0 (by omega)).trans mark
  | 1 => exact size
  | k + 2 =>
      have bound : k < payload.length := by simpa [framed] using inside
      have data := storeAt_inside buf 2 payload k bound
      rw [Nat.add_comm 2 k] at data
      exact (storeAt_behind _ 1 _ _ (by simp)).trans ((storeAt_behind _ 0 _ _ (by simp)).trans data)

theorem send_ep2_info_packet (s : Ep2) (free : s.in2Busy = false) : (send_ep2_info s).packet = framed (s.fifo.take 62) := by
  have most : (s.fifo.take 62).length ≤ 62 := List.length_take_le 62 s.fifo
  have count : (BitVec.ofNat 8 ((s.fifo.take 62).length + 2)).toNat = (s.fifo.take 62).length + 2 := by
    rw [BitVec.toNat_ofNat]
    omega
  rw [send_ep2_info, if_neg (by simp [free]), Ep2.autodata_fifo, Ep2.packet, Nat.zero_add, count]
  exact framed_held s.IN2BUF (s.fifo.take 62)

theorem PacketLoop.framed_reaches (buffer : ℕ → BitVec 8) (ret : ℕ) (payloads : List (List (BitVec 8)))
    (short : ∀ payload ∈ payloads, payload.length < 256) (s : PacketLoop) (here : s.At buffer ret (payloads.flatMap framed)) :
    ∃ t, Loop.Reaches (atEnd ret) (body buffer) s t ∧ t.At buffer ret [] ∧ t.log = s.log ++ payloads.flatten := by
  induction payloads generalizing s with
  | nil => exact ⟨s, .here s, here, (List.append_nil _).symm⟩
  | cons payload rest ih =>
      have whole : payload.length = (BitVec.ofNat 8 payload.length).toNat := by
        rw [BitVec.toNat_ofNat, Nat.mod_eq_of_lt (short payload (by simp))]
      rw [List.flatMap_cons] at here
      obtain ⟨next, logged⟩ := here.packet buffer ret _ payload _ whole s
      obtain ⟨t, reached, there, all⟩ := ih (fun p member => short p (by simp [member])) _ next
      refine ⟨t, .step s t (here.goesOn buffer ret _ _ s) reached, there, ?_⟩
      rw [all, logged, List.flatten_cons, List.append_assoc]

theorem framed_short (payloads : List (List (BitVec 8))) (few : (payloads.flatMap framed).length ≤ 2) :
    payloads.flatten = [] := by
  match payloads with
  | [] => rfl
  | [payload] =>
      simp only [List.flatMap_cons, List.flatMap_nil, framed, List.append_nil, List.length_cons] at few
      rw [List.flatten_singleton]
      exact List.eq_nil_of_length_eq_zero (by omega)
  | payload :: second :: rest =>
      simp only [List.flatMap_cons, framed, List.cons_append, List.length_cons, List.length_append] at few
      omega

theorem capture_framed (old : ℕ → BitVec 8) (payloads : List (List (BitVec 8))) (short : ∀ payload ∈ payloads, payload.length < 256)
    (log : List (BitVec 8)) (cnt : BitVec 32) :
    ∃ fuel t, capture fuel (storeAt old 0 (payloads.flatMap framed)) (payloads.flatMap framed).length log cnt = some t ∧
      t.log = log ++ payloads.flatten := by
  by_cases few : (payloads.flatMap framed).length ≤ 2
  · refine ⟨0, _, if_neg (by omega), ?_⟩
    rw [framed_short payloads few, List.append_nil]
    rfl
  · have here := PacketLoop.start_at old (payloads.flatMap framed) log cnt
    obtain ⟨t, reached, there, logged⟩ := PacketLoop.framed_reaches _ _ payloads short _ here
    obtain ⟨fuel, result⟩ := Loop.run_of_reaches _ _ _ _ reached (there.stopped _ _ t)
    exact ⟨fuel, t, (if_pos (by omega)).trans result, logged⟩

end SsAdma
