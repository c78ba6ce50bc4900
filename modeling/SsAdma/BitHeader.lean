import Mathlib.Data.List.GetD
import Mathlib.Tactic.ByContra
import SsAdma.BitRead

set_option autoImplicit false

namespace SsAdma

open ByteMemory

-- A string of a .bit header: printable, and with its NUL not too long for the
-- 16-bit length in front of it.
structure BitText where
  chars : List (BitVec 8)
  printable : ∀ c ∈ chars, 0x20 ≤ c.toNat ∧ c.toNat ≤ 0x7e
  fits : chars.length + 1 < 2 ^ 16

def BitText.bytes (key : BitVec 8) (text : BitText) : List (BitVec 8) :=
  key :: BitVec.ofNat 8 ((text.chars.length + 1) / 256) :: BitVec.ofNat 8 (text.chars.length + 1) :: (text.chars ++ [0])

structure BitFile where
  preamble : List (BitVec 8)
  design : BitText
  part : BitText
  date : BitText
  time : BitText
  payload : List (BitVec 8)
  preambleSize : preamble.length = 13
  first : payload.head? = some 0xff
  size : payload.length ≤ 2 * 1024 * 1024
  late : 30 ≤ 13 + (16 + (design.chars.length + part.chars.length + date.chars.length + time.chars.length))

def BitFile.sections (bit : BitFile) : List (BitVec 8) :=
  bit.design.bytes 0x61 ++ (bit.part.bytes 0x62 ++ (bit.date.bytes 0x63 ++ bit.time.bytes 0x64))

def BitFile.lengthBytes (bit : BitFile) : List (BitVec 8) :=
  [BitVec.ofNat 8 (bit.payload.length / 2 ^ 24), BitVec.ofNat 8 (bit.payload.length / 2 ^ 16),
    BitVec.ofNat 8 (bit.payload.length / 2 ^ 8), BitVec.ofNat 8 bit.payload.length]

def BitFile.fromKey (bit : BitFile) : List (BitVec 8) := 0x65 :: (bit.lengthBytes ++ bit.payload)

def BitFile.bytes (bit : BitFile) : List (BitVec 8) := bit.preamble ++ bit.sections ++ bit.fromKey

-- A fresh process: bit_buf is zero.
def ReadsPayload (bit : BitFile) (length1 length2 length3 length4 : BitVec 8) : Prop :=
  ∃ fuel t, bitRead fuel (BitScan.start (fun _ => 0) length1 length2 length3 length4 bit.bytes) = some t ∧
    t.length.toNat = bit.payload.length ∧ (List.range bit.payload.length).map t.bitBuf = bit.payload

theorem bigEndian_toNat (l1 l2 l3 l4 : BitVec 8) :
    (bigEndian l1 l2 l3 l4).toNat = l1.toNat * 2 ^ 24 + l2.toNat * 2 ^ 16 + l3.toNat * 2 ^ 8 + l4.toNat := by
  have joined : bigEndian l1 l2 l3 l4 = l1 ++ l2 ++ l3 ++ l4 := by
    apply BitVec.eq_of_getLsbD_eq
    intro i inside
    simp only [bigEndian, BitVec.getLsbD_or, BitVec.getLsbD_shiftLeft, BitVec.getLsbD_setWidth, BitVec.getLsbD_append]
    grind
  have b2 := l2.isLt
  have b3 := l3.isLt
  have b4 := l4.isLt
  rw [joined, BitVec.toNat_append, BitVec.toNat_append, BitVec.toNat_append, ← Nat.shiftLeft_add_eq_or_of_lt b4,
    ← Nat.shiftLeft_add_eq_or_of_lt b3, ← Nat.shiftLeft_add_eq_or_of_lt b2]
  simp only [Nat.shiftLeft_eq]
  omega

def Oversized (bytes : List (BitVec 8)) : Prop :=
  ∀ l1 l2 l3 l4 rest, bytes = 0x65 :: l1 :: l2 :: l3 :: l4 :: rest → 2 ^ 21 < (bigEndian l1 l2 l3 l4).toNat

def CandidatesOversized (front after : List (BitVec 8)) : Prop :=
  ∀ tail, tail ≠ [] → tail <:+ front → Oversized (tail ++ after)

theorem oversized_first (l1 l2 l3 l4 : BitVec 8) (big : 0x20 ≤ l1.toNat) : 2 ^ 21 < (bigEndian l1 l2 l3 l4).toNat := by
  rw [bigEndian_toNat]
  omega

theorem oversized_second (l1 l2 l3 l4 : BitVec 8) (big : 0x21 ≤ l2.toNat) : 2 ^ 21 < (bigEndian l1 l2 l3 l4).toNat := by
  rw [bigEndian_toNat]
  omega

theorem oversized_other (b : BitVec 8) (rest : List (BitVec 8)) (other : b ≠ 0x65) : Oversized (b :: rest) := by
  intro l1 l2 l3 l4 more same
  exact absurd (List.cons.inj same).1 other

theorem suffix_cases {α : Type} (tail front back : List α) (suffix : tail <:+ front ++ back) :
    tail <:+ back ∨ ∃ more, more ≠ [] ∧ more <:+ front ∧ tail = more ++ back := by
  rcases List.suffix_or_suffix_of_suffix suffix (List.suffix_append front back) with inside | ⟨more, rfl⟩
  · exact .inl inside
  · cases more with
    | nil => exact .inl List.suffix_rfl
    | cons b others => exact .inr ⟨b :: others, by simp, List.suffix_append_self_iff.mp suffix, rfl⟩

theorem candidates_append (front back after : List (BitVec 8)) (first : CandidatesOversized front (back ++ after))
    (second : CandidatesOversized back after) : CandidatesOversized (front ++ back) after := by
  intro tail nonempty suffix
  rcases suffix_cases tail front back suffix with inside | ⟨more, others, within, rfl⟩
  · exact second tail nonempty inside
  · rw [List.append_assoc]
    exact first more others within

theorem chars_oversized (text : BitText) (after : List (BitVec 8)) (next : ∀ b ∈ after.head?, 0x21 ≤ b.toNat) :
    CandidatesOversized (text.chars ++ [0]) after := by
  intro tail nonempty suffix
  rcases suffix_cases tail text.chars [0] suffix with inside | ⟨more, others, within, rfl⟩
  · rcases List.suffix_cons_iff.mp inside with rfl | last
    · exact oversized_other _ _ (by decide)
    · exact absurd (List.suffix_nil.mp last) nonempty
  · rintro l1 l2 l3 l4 rest same
    match more with
    | [] => exact absurd rfl others
    | [c] =>
        obtain ⟨b, more, rfl⟩ : ∃ b more, after = b :: more := by
          cases after with
          | nil => simp at same
          | cons b more => exact ⟨b, more, rfl⟩
        have second : b = l2 := by
          simp only [List.cons_append, List.nil_append, List.cons.injEq] at same
          exact same.2.2.1
        exact second ▸ oversized_second l1 b l3 l4 (next b rfl)
    | c :: d :: more =>
        have first : d = l1 := by
          simp only [List.cons_append, List.cons.injEq] at same
          exact same.2.1
        have inside : d ∈ text.chars := within.subset (by simp)
        exact first ▸ oversized_first d l2 l3 l4 (text.printable d inside).1

theorem long_chars (text : BitText) (long : 0x65 ≤ text.chars.length + 1) :
    ∃ c d more, text.chars = c :: d :: more ∧ 0x20 ≤ c.toNat ∧ 0x20 ≤ d.toNat := by
  match chars : text.chars, long with
  | c :: d :: more, _ =>
      have printable := text.printable
      rw [chars] at printable
      exact ⟨c, d, more, rfl, (printable c (by simp)).1, (printable d (by simp)).1⟩
  | [_], short | [], short => simp at short

theorem ofNat_byte (n : ℕ) (key : BitVec.ofNat 8 n = 0x65) : n % 256 = 0x65 := by
  simpa using congrArg BitVec.toNat key

theorem text_oversized (key : BitVec 8) (text : BitText) (after : List (BitVec 8)) (plain : key ≠ 0x65)
    (next : ∀ b ∈ after.head?, 0x21 ≤ b.toNat) : CandidatesOversized (text.bytes key) after := by
  intro tail nonempty suffix
  have fits := text.fits
  rcases List.suffix_cons_iff.mp suffix with rfl | suffix
  · exact oversized_other _ _ plain
  rcases List.suffix_cons_iff.mp suffix with rfl | suffix
  · rintro l1 l2 l3 l4 rest same
    have high := ofNat_byte _ (List.cons.inj same).1
    obtain ⟨c, d, more, chars, first, second⟩ := long_chars text (by omega)
    rw [chars] at same
    simp only [List.cons_append, List.cons.injEq] at same
    rw [bigEndian_toNat, ← same.2.2.1, ← same.2.2.2.1]
    omega
  rcases List.suffix_cons_iff.mp suffix with rfl | suffix
  · rintro l1 l2 l3 l4 rest same
    have small := ofNat_byte _ (List.cons.inj same).1
    obtain ⟨c, d, more, chars, first, _⟩ := long_chars text (by omega)
    rw [chars] at same
    simp only [List.cons_append, List.cons.injEq] at same
    exact same.2.1 ▸ oversized_first c l2 l3 l4 first
  · exact chars_oversized text after next tail nonempty suffix

theorem sections_oversized (bit : BitFile) : CandidatesOversized bit.sections bit.fromKey := by
  refine candidates_append _ _ _ (text_oversized 0x61 bit.design _ (by decide) ?_) ?_
  · simp [BitText.bytes]
  refine candidates_append _ _ _ (text_oversized 0x62 bit.part _ (by decide) ?_) ?_
  · simp [BitText.bytes]
  refine candidates_append _ _ _ (text_oversized 0x63 bit.date _ (by decide) ?_) ?_
  · simp [BitText.bytes]
  exact text_oversized 0x64 bit.time _ (by decide) (by simp [BitFile.fromKey])

theorem payload_first (bit : BitFile) : ∃ more, bit.payload = 0xff :: more := by
  have first := bit.first
  cases payload : bit.payload with
  | nil => simp [payload] at first
  | cons b more => exact ⟨more, by simpa [payload] using first⟩

theorem lengthBytes_oversized (bit : BitFile) : CandidatesOversized bit.lengthBytes bit.payload := by
  obtain ⟨more, payload⟩ := payload_first bit
  have size := bit.size
  intro tail nonempty suffix l1 l2 l3 l4 rest same
  have none1 : BitVec.ofNat 8 (bit.payload.length / 2 ^ 24) ≠ 0x65 := fun key => by
    have := ofNat_byte _ key
    omega
  have none2 : BitVec.ofNat 8 (bit.payload.length / 2 ^ 16) ≠ 0x65 := fun key => by
    have := ofNat_byte _ key
    omega
  rcases List.suffix_cons_iff.mp suffix with rfl | suffix
  · exact absurd (List.cons.inj same).1 none1
  rcases List.suffix_cons_iff.mp suffix with rfl | suffix
  · exact absurd (List.cons.inj same).1 none2
  rw [payload] at same
  rcases List.suffix_cons_iff.mp suffix with rfl | suffix
  · simp only [List.cons_append, List.nil_append, List.cons.injEq] at same
    exact same.2.2.1 ▸ oversized_second l1 0xff l3 l4 (by decide)
  rcases List.suffix_cons_iff.mp suffix with rfl | suffix
  · simp only [List.cons_append, List.nil_append, List.cons.injEq] at same
    exact same.2.1 ▸ oversized_first 0xff l2 l3 l4 (by decide)
  · exact absurd (List.suffix_nil.mp suffix) nonempty

theorem skips_suffix (bytes back : List (BitVec 8)) (walk : Skips bytes back) : back <:+ bytes := by
  induction walk with
  | here bytes => exact List.suffix_rfl
  | plain b rest back _ _ ih => exact ih.trans (List.suffix_cons b rest)
  | candidate l1 l2 l3 l4 check rest back _ _ _ ih =>
      exact ih.trans (List.suffix_append [0x65, l1, l2, l3, l4, check] rest)

theorem BitFile.drop_bytes (bit : BitFile) : bit.bytes.drop 30 = bit.sections.drop 17 ++ bit.fromKey := by
  have late := bit.late
  have long : 17 ≤ bit.sections.length := by
    simp only [sections, BitText.bytes, List.length_append, List.length_cons, List.length_nil]
    omega
  rw [bytes, List.append_assoc, List.drop_append, bit.preambleSize, List.drop_of_length_le (by rw [bit.preambleSize]; decide),
    List.nil_append, List.drop_append_of_le_length long]

theorem bigEndian_lengthBytes (bit : BitFile) :
    (bigEndian (BitVec.ofNat 8 (bit.payload.length / 2 ^ 24)) (BitVec.ofNat 8 (bit.payload.length / 2 ^ 16))
      (BitVec.ofNat 8 (bit.payload.length / 2 ^ 8)) (BitVec.ofNat 8 bit.payload.length)).toNat = bit.payload.length := by
  have size := bit.size
  rw [bigEndian_toNat]
  simp only [BitVec.toNat_ofNat]
  omega

def filled (bytes : List (BitVec 8)) : ℕ → BitVec 8 := storeAt (storeAt (fun _ => 0) 0 [0xff]) 1 bytes

theorem filled_zero (bytes : List (BitVec 8)) : filled bytes 0 = 0xff := rfl

theorem filled_succ (bytes : List (BitVec 8)) (k : ℕ) : filled bytes (k + 1) = bytes.getD k 0 := by
  simp [filled, storeAt, List.getD]

theorem range_filled (more : List (BitVec 8)) : (List.range (more.length + 1)).map (filled more) = 0xff :: more := by
  rw [List.range_succ_eq_map, List.map_cons, filled_zero, List.map_map]
  congr 1
  refine List.ext_getElem (by simp) fun k _ inside => ?_
  simp [filled_succ, List.getD, inside]

-- A payload cannot be read from a place inside itself: it would be its own tail
-- again and again, up to the zeros behind the end.
theorem no_payload_inside (payload before rest : List (BitVec 8)) (l1 l2 l3 l4 : BitVec 8)
    (split : payload = before ++ 0x65 :: l1 :: l2 :: l3 :: l4 :: 0xff :: rest)
    (same : (List.range payload.length).map (filled rest) = payload) : False := by
  have behind (k : ℕ) : payload.getD (k + (before.length + 5)) 0 = (0xff :: rest).getD k 0 := by
    have joined : payload = (before ++ [0x65, l1, l2, l3, l4]) ++ 0xff :: rest := by simp [split]
    rw [joined, List.getD_append_right _ _ _ _ (by simp)]
    simp
  have shift (k : ℕ) (inside : k < payload.length) : payload.getD k 0 = payload.getD (k + (before.length + 5)) 0 := by
    have here : payload.getD k 0 = filled rest k := by
      conv_lhs => rw [← same]
      simp [List.getD, inside]
    rw [here, behind]
    cases k with
    | zero => rfl
    | succ k => exact filled_succ rest k
  have repeats (n : ℕ) : payload.getD (n * (before.length + 5)) 0 = 0xff := by
    induction n with
    | zero =>
        have first := shift 0 (by rw [split, List.length_append, List.length_cons]; omega)
        rw [behind] at first
        simpa using first
    | succ n ih =>
        have inside : n * (before.length + 5) < payload.length := by
          by_contra outside
          rw [List.getD_eq_default _ _ (by omega)] at ih
          exact absurd ih (by decide)
        rw [Nat.succ_mul, ← shift _ inside, ih]
  have outside : payload.length ≤ payload.length * (before.length + 5) := Nat.le_mul_of_pos_right _ (by omega)
  have last := repeats payload.length
  rw [List.getD_eq_default _ _ outside] at last
  exact absurd last (by decide)

theorem taken_all (len : BitVec 32) (n : ℕ) (length : len.toNat = n + 1) (rest : List (BitVec 8))
    (short : rest.length ≤ n) : BitScan.taken len rest = rest := by
  have pred : (len - 1).toNat = n := by bv_omega
  rw [BitScan.taken, pred, List.take_of_length_le short]

theorem bit_read_payload_iff (bit : BitFile) (length1 length2 length3 length4 : BitVec 8) :
    ReadsPayload bit length1 length2 length3 length4 ↔ Skips (bit.bytes.drop 30) bit.fromKey := by
  have looking := BitScan.start_looking (fun _ => 0) length1 length2 length3 length4 bit.bytes
  obtain ⟨more, payload⟩ := payload_first bit
  have count : bit.payload.length = more.length + 1 := by rw [payload]; rfl
  constructor
  · rintro ⟨fuel, t, result, length, read⟩
    rcases skips_total (bit.bytes.drop 30) with off | ⟨back, walk, stops⟩ | ⟨l1, l2, l3, l4, rest, walk⟩
    · obtain ⟨u, reached, there⟩ := BitScan.skips_reaches _ _ _ off _ looking
      have never := Loop.never_of_reaches _ _ _ _ reached (BitScan.never_at_end _ u there)
      exact absurd ((never fuel).symm.trans result) (by simp)
    · obtain ⟨u, reached, there⟩ := BitScan.skips_reaches _ _ _ walk _ looking
      obtain ⟨v, last, found, empty, _⟩ := BitScan.reaches_stop _ back stops u there
      have same := Loop.run_unique _ _ _ _ t (reached.trans _ _ _ _ _ last) found fuel result
      rw [same, empty, count, payload, List.range_succ_eq_map, List.map_cons] at read
      exact absurd (List.cons.inj read).1 (by decide)
    · obtain ⟨u, reached, there⟩ := BitScan.skips_reaches _ _ _ walk _ looking
      obtain ⟨v, last, found, len, buf, _⟩ := BitScan.reaches_payload _ l1 l2 l3 l4 rest u there
      have same := Loop.run_unique _ _ _ _ t (reached.trans _ _ _ _ _ last) found fuel result
      rw [same, len] at length
      rw [same, buf] at read
      have fits : ¬ 2 ^ 21 < (bigEndian l1 l2 l3 l4).toNat := by
        have size := bit.size
        omega
      have suffix := skips_suffix _ _ walk
      rw [bit.drop_bytes] at suffix
      rcases suffix_cases _ _ _ suffix with suffix | ⟨front, others, within, split⟩
      · rcases List.suffix_cons_iff.mp suffix with here | suffix
        · exact (show _ = bit.fromKey from here) ▸ walk
        rcases suffix_cases _ _ _ suffix with ⟨before, split⟩ | ⟨front, others, within, split⟩
        · have short : rest.length ≤ more.length := by
            have parts := congrArg List.length split
            simp only [List.length_append, List.length_cons] at parts
            omega
          rw [taken_all _ _ (length.trans count) rest short] at read
          exact (no_payload_inside bit.payload before rest l1 l2 l3 l4 split.symm read).elim
        · exact absurd (lengthBytes_oversized bit front others within l1 l2 l3 l4 _ split.symm) fits
      · exact absurd (sections_oversized bit front others (within.trans (List.drop_suffix 17 _)) l1 l2 l3 l4 _ split.symm)
          fits
  · intro walk
    obtain ⟨u, reached, there⟩ := BitScan.skips_reaches _ _ _ walk _ looking
    rw [BitFile.fromKey, payload] at there
    obtain ⟨v, last, found, len, buf, _⟩ := BitScan.reaches_payload _ _ _ _ _ more u there
    obtain ⟨fuel, result⟩ := Loop.run_of_reaches _ _ _ _ (reached.trans _ _ _ _ _ last) found
    have length := bigEndian_lengthBytes bit
    refine ⟨fuel, v, result, by rw [len]; exact length, ?_⟩
    rw [buf, taken_all _ _ (length.trans count) more (le_refl _), count, payload]
    exact range_filled more

def bitText (chars : List (BitVec 8)) (printable : ∀ c ∈ chars, 0x20 ≤ c.toNat ∧ c.toNat ≤ 0x7e)
    (fits : chars.length + 1 < 2 ^ 16) : BitText := ⟨chars, printable, fits⟩

-- A time string "e", one byte in front of the real key.
def strayE : BitFile where
  preamble := List.replicate 13 0
  design := bitText (List.replicate 13 0x61) (by decide) (by decide)
  part := bitText [] (by decide) (by decide)
  date := bitText [] (by decide) (by decide)
  time := bitText [0x65] (by decide) (by decide)
  payload := [0xff]
  preambleSize := rfl
  first := rfl
  size := by decide
  late := by decide

theorem strayE_skips : Skips (strayE.bytes.drop 30) [] := by
  have bytes : strayE.bytes.drop 30 =
      [0x62, 0, 1, 0, 0x63, 0, 1, 0, 0x64, 0, 2, 0x65, 0, 0x65, 0, 0, 0, 1, 0xff] := by decide
  rw [bytes]
  iterate 11 refine .plain _ _ _ (by decide) ?_
  refine .candidate 0 0x65 0 0 0 _ _ (by decide) (by decide) ?_
  iterate 2 refine .plain _ _ _ (by decide) ?_
  exact .here []

theorem bit_read_strayE : ¬ ReadsPayload strayE 0 0 0 0 := by
  rintro ⟨fuel, t, result, _⟩
  have looking := BitScan.start_looking (fun _ => 0) 0 0 0 0 strayE.bytes
  obtain ⟨u, reached, there⟩ := BitScan.skips_reaches _ _ _ strayE_skips _ looking
  have never := Loop.never_of_reaches _ _ _ _ reached (BitScan.never_at_end _ u there)
  exact absurd ((never fuel).symm.trans result) (by simp)

end SsAdma
