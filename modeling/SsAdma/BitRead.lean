import SsAdma.ByteMemory
import SsAdma.Loop

set_option autoImplicit false

namespace SsAdma

open ByteMemory

-- One byte read by fread; at the end of the file the variable keeps its value.
def fread1 (old : BitVec 8) : List (BitVec 8) → BitVec 8 × List (BitVec 8)
  | [] => (old, [])
  | b :: rest => (b, rest)

def bitBufSize : ℕ := 2 * 1024 * 1024

def bigEndian (length1 length2 length3 length4 : BitVec 8) : BitVec 32 :=
  length1.setWidth 32 <<< 24 ||| length2.setWidth 32 <<< 16 ||| length3.setWidth 32 <<< 8 ||| length4.setWidth 32

-- rest is what the file has behind its read position. bit_buf is memory from its
-- base on, and stored the offsets stored to.
structure BitScan where
  headKey : BitVec 8
  length1 : BitVec 8
  length2 : BitVec 8
  length3 : BitVec 8
  length4 : BitVec 8
  length : BitVec 32
  rest : List (BitVec 8)
  bitBuf : ℕ → BitVec 8
  stored : List ℕ

def BitScan.found (s : BitScan) : Bool := s.headKey == 0x65

def BitScan.candidate (s : BitScan) : BitScan :=
  let (length1, rest) := fread1 s.length1 s.rest
  let (length2, rest) := fread1 s.length2 rest
  let (length3, rest) := fread1 s.length3 rest
  let (length4, rest) := fread1 s.length4 rest
  let length := bigEndian length1 length2 length3 length4
  let (headKey, rest) := fread1 s.headKey rest
  if headKey = 0xff then
    let bytes := rest.take (length - 1).toNat
    ⟨0x65, length1, length2, length3, length4, length, rest.drop (length - 1).toNat,
      storeAt (storeAt s.bitBuf 0 [0xff]) 1 bytes, s.stored ++ 0 :: List.range' 1 bytes.length⟩
  else ⟨headKey, length1, length2, length3, length4, length, rest, s.bitBuf, s.stored⟩

def BitScan.body (s : BitScan) : BitScan :=
  let (headKey, rest) := fread1 s.headKey s.rest
  if headKey = 0x65 then ({ s with headKey := headKey, rest := rest } : BitScan).candidate
  else { s with headKey := headKey, rest := rest }

-- length1 to length4 are not initialised.
def BitScan.start (bitBuf : ℕ → BitVec 8) (length1 length2 length3 length4 : BitVec 8) (file : List (BitVec 8)) :
    BitScan :=
  ⟨0, length1, length2, length3, length4, 0, file.drop 30, bitBuf, []⟩

-- What bit_read leaves behind: *len and bit_buf are fields of it. The message
-- about a short read is not modelled.
def bitRead (fuel : ℕ) (start : BitScan) : Option BitScan := Loop.run BitScan.found BitScan.body fuel start

inductive Skips : List (BitVec 8) → List (BitVec 8) → Prop
  | here (bytes : List (BitVec 8)) : Skips bytes bytes
  | plain (b : BitVec 8) (rest back : List (BitVec 8)) (other : b ≠ 0x65) (more : Skips rest back) : Skips (b :: rest) back
  | candidate (l1 l2 l3 l4 check : BitVec 8) (rest back : List (BitVec 8)) (other : check ≠ 0x65)
      (unmarked : check ≠ 0xff) (more : Skips rest back) :
      Skips (0x65 :: l1 :: l2 :: l3 :: l4 :: check :: rest) back

def Stops (bytes : List (BitVec 8)) : Prop :=
  ∃ rest, bytes = 0x65 :: rest ∧ (rest.length < 5 ∨ rest[4]? = some 0x65)

theorem skips_total (bytes : List (BitVec 8)) :
    Skips bytes [] ∨ (∃ back, Skips bytes back ∧ Stops back) ∨
      ∃ l1 l2 l3 l4 rest, Skips bytes (0x65 :: l1 :: l2 :: l3 :: l4 :: 0xff :: rest) := by
  match bytes with
  | [] => exact .inl (.here [])
  | b :: rest =>
      by_cases key : b = 0x65
      · subst key
        match rest with
        | l1 :: l2 :: l3 :: l4 :: check :: more =>
            by_cases marked : check = 0xff
            · exact .inr (.inr ⟨l1, l2, l3, l4, more, marked ▸ .here _⟩)
            by_cases again : check = 0x65
            · exact .inr (.inl ⟨_, .here _, _, rfl, .inr (by simp [again])⟩)
            rcases skips_total more with off | ⟨back, walk, stops⟩ | ⟨m1, m2, m3, m4, last, walk⟩
            · exact .inl (.candidate l1 l2 l3 l4 check more [] again marked off)
            · exact .inr (.inl ⟨back, .candidate l1 l2 l3 l4 check more back again marked walk, stops⟩)
            · exact .inr (.inr ⟨m1, m2, m3, m4, last, .candidate l1 l2 l3 l4 check more _ again marked walk⟩)
        | [] | [_] | [_, _] | [_, _, _] | [_, _, _, _] => exact .inr (.inl ⟨_, .here _, _, rfl, .inl (by simp)⟩)
      · rcases skips_total rest with off | ⟨back, walk, stops⟩ | ⟨m1, m2, m3, m4, last, walk⟩
        · exact .inl (.plain b rest [] key off)
        · exact .inr (.inl ⟨back, .plain b rest back key walk, stops⟩)
        · exact .inr (.inr ⟨m1, m2, m3, m4, last, .plain b rest _ key walk⟩)

structure BitScan.Looking (buf : ℕ → BitVec 8) (bytes : List (BitVec 8)) (s : BitScan) : Prop where
  key : s.found = false
  rest : s.rest = bytes
  bitBuf : s.bitBuf = buf
  stored : s.stored = []

theorem found_false (s : BitScan) (other : s.headKey ≠ 0x65) : s.found = false := by
  simpa [BitScan.found] using other

theorem BitScan.Looking.body_of (buf : ℕ → BitVec 8) (bytes left : List (BitVec 8)) (s : BitScan)
    (looking : s.Looking buf bytes) (other : s.body.headKey ≠ 0x65) (rest : s.body.rest = left)
    (bitBuf : s.body.bitBuf = s.bitBuf) (stored : s.body.stored = s.stored) : s.body.Looking buf left :=
  ⟨found_false _ other, rest, bitBuf.trans looking.bitBuf, stored.trans looking.stored⟩

theorem BitScan.skips_reaches (buf : ℕ → BitVec 8) (bytes back : List (BitVec 8)) (walk : Skips bytes back)
    (s : BitScan) (looking : s.Looking buf bytes) :
    ∃ t, Loop.Reaches found body s t ∧ t.Looking buf back := by
  induction walk generalizing s with
  | here bytes => exact ⟨s, .here s, looking⟩
  | plain b rest back other _ ih =>
      have next : s.body = { s with headKey := b, rest := rest } := by
        simp only [body, looking.rest, fread1, if_neg other]
      obtain ⟨t, reached, there⟩ := ih s.body (looking.body_of buf _ _ s (by rw [next]; exact other) (by rw [next])
        (by rw [next]) (by rw [next]))
      exact ⟨t, .step s t looking.key reached, there⟩
  | candidate l1 l2 l3 l4 check rest back other unmarked _ ih =>
      have next : s.body = ⟨check, l1, l2, l3, l4, bigEndian l1 l2 l3 l4, rest, s.bitBuf, s.stored⟩ := by
        simp only [body, candidate, looking.rest, fread1, if_true, if_neg unmarked]
      obtain ⟨t, reached, there⟩ := ih s.body (looking.body_of buf _ _ s (by rw [next]; exact other) (by rw [next])
        (by rw [next]) (by rw [next]))
      exact ⟨t, .step s t looking.key reached, there⟩

theorem BitScan.never_at_end (buf : ℕ → BitVec 8) (s : BitScan) (looking : s.Looking buf []) :
    Loop.Never found body s := by
  have other : s.headKey ≠ 0x65 := by simpa [found] using looking.key
  refine Loop.never_of_fixed found body s looking.key ?_
  simp only [body, looking.rest, fread1, if_neg other]
  rw [← looking.rest]

theorem BitScan.reaches_stop (buf : ℕ → BitVec 8) (bytes : List (BitVec 8)) (stops : Stops bytes) (s : BitScan)
    (looking : s.Looking buf bytes) :
    ∃ t, Loop.Reaches found body s t ∧ t.found = true ∧ t.bitBuf = buf ∧ t.stored = [] := by
  refine ⟨s.body, .step s _ looking.key (.here _), ?_⟩
  obtain ⟨rest, rfl, short⟩ := stops
  have ends : s.body.headKey = 0x65 ∧ s.body.bitBuf = s.bitBuf ∧ s.body.stored = s.stored := by
    have unmarked : (0x65 : BitVec 8) ≠ 0xff := by decide
    match rest, short with
    | [], _ | [_], _ | [_, _], _ | [_, _, _], _ | [_, _, _, _], _ =>
        simp only [body, candidate, looking.rest, fread1, if_true, if_neg unmarked, and_self]
    | l1 :: l2 :: l3 :: l4 :: check :: more, .inl short => simp only [List.length_cons] at short; omega
    | l1 :: l2 :: l3 :: l4 :: check :: more, .inr again =>
        have same : check = 0x65 := by simpa using again
        simp only [body, candidate, looking.rest, fread1, same, if_true, if_neg unmarked, and_self]
  exact ⟨by rw [found, ends.1]; rfl, ends.2.1.trans looking.bitBuf, ends.2.2.trans looking.stored⟩

def BitScan.taken (length : BitVec 32) (rest : List (BitVec 8)) : List (BitVec 8) := rest.take (length - 1).toNat

theorem BitScan.reaches_payload (buf : ℕ → BitVec 8) (l1 l2 l3 l4 : BitVec 8) (rest : List (BitVec 8)) (s : BitScan)
    (looking : s.Looking buf (0x65 :: l1 :: l2 :: l3 :: l4 :: 0xff :: rest)) :
    ∃ t, Loop.Reaches found body s t ∧ t.found = true ∧ t.length = bigEndian l1 l2 l3 l4 ∧
      t.bitBuf = storeAt (storeAt buf 0 [0xff]) 1 (taken (bigEndian l1 l2 l3 l4) rest) ∧
      t.stored = 0 :: List.range' 1 (taken (bigEndian l1 l2 l3 l4) rest).length := by
  refine ⟨s.body, .step s _ looking.key (.here _), ?_⟩
  have next : s.body = ⟨0x65, l1, l2, l3, l4, bigEndian l1 l2 l3 l4, rest.drop (bigEndian l1 l2 l3 l4 - 1).toNat,
      storeAt (storeAt s.bitBuf 0 [0xff]) 1 (taken (bigEndian l1 l2 l3 l4) rest),
      s.stored ++ 0 :: List.range' 1 (taken (bigEndian l1 l2 l3 l4) rest).length⟩ := by
    simp only [body, candidate, looking.rest, fread1, if_true, taken]
  rw [next, looking.bitBuf, looking.stored]
  exact ⟨rfl, rfl, rfl, rfl⟩

theorem BitScan.start_looking (buf : ℕ → BitVec 8) (l1 l2 l3 l4 : BitVec 8) (file : List (BitVec 8)) :
    (start buf l1 l2 l3 l4 file).Looking buf (file.drop 30) :=
  ⟨rfl, rfl, rfl, rfl⟩

def BitReadSafe (start : BitScan) : Prop :=
  ∃ fuel t, bitRead fuel start = some t ∧ ∀ k ∈ t.stored, k < bitBufSize

def payloadBytes (length : BitVec 32) (rest : List (BitVec 8)) : ℕ := min (length - 1).toNat rest.length

theorem BitScan.taken_length (length : BitVec 32) (rest : List (BitVec 8)) :
    (taken length rest).length = payloadBytes length rest := List.length_take

theorem stored_inside_iff (count : ℕ) : (∀ k ∈ 0 :: List.range' 1 count, k < bitBufSize) ↔ 1 + count ≤ bitBufSize := by
  have size : bitBufSize = 2097152 := rfl
  simp only [List.mem_cons, List.mem_range'_1, forall_eq_or_imp]
  constructor
  · intro inside
    by_cases empty : count = 0
    · omega
    · have := inside.2 count (by omega)
      omega
  · intro fits
    exact ⟨by omega, fun k within => by omega⟩

theorem bit_read_safe_iff (bitBuf : ℕ → BitVec 8) (length1 length2 length3 length4 : BitVec 8)
    (file : List (BitVec 8)) :
    BitReadSafe (BitScan.start bitBuf length1 length2 length3 length4 file) ↔
      (∃ back, Skips (file.drop 30) back ∧ Stops back) ∨
        ∃ l1 l2 l3 l4 rest, Skips (file.drop 30) (0x65 :: l1 :: l2 :: l3 :: l4 :: 0xff :: rest) ∧
          1 + payloadBytes (bigEndian l1 l2 l3 l4) rest ≤ bitBufSize := by
  have looking := BitScan.start_looking bitBuf length1 length2 length3 length4 file
  constructor
  · rintro ⟨fuel, t, result, inside⟩
    rcases skips_total (file.drop 30) with off | stops | ⟨l1, l2, l3, l4, rest, walk⟩
    · obtain ⟨u, reached, there⟩ := BitScan.skips_reaches bitBuf _ _ off _ looking
      have never := Loop.never_of_reaches _ _ _ _ reached (BitScan.never_at_end bitBuf u there)
      exact absurd ((never fuel).symm.trans result) (by simp)
    · exact .inl stops
    · obtain ⟨u, reached, there⟩ := BitScan.skips_reaches bitBuf _ _ walk _ looking
      obtain ⟨v, last, found, _, _, stored⟩ := BitScan.reaches_payload bitBuf l1 l2 l3 l4 rest u there
      have same := Loop.run_unique _ _ _ _ t (reached.trans _ _ _ _ _ last) found fuel result
      rw [same, stored, stored_inside_iff, BitScan.taken_length] at inside
      exact .inr ⟨l1, l2, l3, l4, rest, walk, inside⟩
  · rintro (⟨back, walk, stops⟩ | ⟨l1, l2, l3, l4, rest, walk, fits⟩)
    · obtain ⟨u, reached, there⟩ := BitScan.skips_reaches bitBuf _ _ walk _ looking
      obtain ⟨v, last, found, _, stored⟩ := BitScan.reaches_stop bitBuf back stops u there
      obtain ⟨fuel, result⟩ := Loop.run_of_reaches _ _ _ _ (reached.trans _ _ _ _ _ last) found
      exact ⟨fuel, v, result, by simp [stored]⟩
    · obtain ⟨u, reached, there⟩ := BitScan.skips_reaches bitBuf _ _ walk _ looking
      obtain ⟨v, last, found, _, _, stored⟩ := BitScan.reaches_payload bitBuf l1 l2 l3 l4 rest u there
      obtain ⟨fuel, result⟩ := Loop.run_of_reaches _ _ _ _ (reached.trans _ _ _ _ _ last) found
      refine ⟨fuel, v, result, ?_⟩
      rw [stored, stored_inside_iff, BitScan.taken_length]
      exact fits

-- An empty file: every fread leaves head_key at 0.
theorem bit_read_empty_file : ¬ BitReadSafe (BitScan.start (fun _ => 0) 0 0 0 0 []) := by
  rintro ⟨fuel, t, result, _⟩
  have never := BitScan.never_at_end (fun _ => 0) (BitScan.start (fun _ => 0) 0 0 0 0 []) ⟨rfl, rfl, rfl, rfl⟩
  exact absurd ((never fuel).symm.trans result) (by simp)

end SsAdma
