import SsAdma.ByteMemory
import SsAdma.IntelHex

set_option autoImplicit false

namespace SsAdma

open ByteMemory IntelHex

-- char is signed. Every char has a value, also one that is no hex digit.
def hex (c : BitVec 8) : ℤ :=
  if 97 ≤ c.toInt ∧ c.toInt ≤ 102 then c.toInt - 97 + 10
  else if 65 ≤ c.toInt ∧ c.toInt ≤ 70 then c.toInt - 65 + 10
  else c.toInt - 48

-- What one fgets delivers: a line with its newline, when it has one. allocs says
-- whether the allocations made for it succeed.
structure LineIn where
  text : List (BitVec 8)
  allocs : Bool
  nonempty : text ≠ []
  short : text.length ≤ 511
  plain : 0 ∉ text

-- buf when the loop is done with the line; behind the line it holds what was there.
-- Only a line with the prefix gets as far as the strip.
def lineBuf (stale : ℕ → BitVec 8) (text : List (BitVec 8)) : ℕ → BitVec 8 :=
  if text.head? = some 0x3a then
    storeAt (storeAt stale 0 (text ++ [0])) (strip text).length
      (List.replicate (text.length - (strip text).length) 0)
  else storeAt stale 0 (text ++ [0])

inductive LineResult where
  | comment
  | invalidPrefix
  | endOfFile
  | unsupportedType (type : BitVec 8)
  | notEnoughData (expected found : BitVec 64)
  | data (len : BitVec 64) (off : BitVec 32) (bytes : List (BitVec 8))
deriving DecidableEq, Repr

def lenField (buf : ℕ → BitVec 8) : BitVec 64 := BitVec.ofInt 64 (hex (buf 1) * 16 + hex (buf 2))

def offField (buf : ℕ → BitVec 8) : BitVec 32 :=
  BitVec.ofInt 32 (hex (buf 3) * 4096 + hex (buf 4) * 256 + hex (buf 5) * 16 + hex (buf 6))

def typeField (buf : ℕ → BitVec 8) : BitVec 8 := BitVec.ofInt 8 (hex (buf 7) * 16 + hex (buf 8))

def dataByte (buf : ℕ → BitVec 8) (i : ℕ) : BitVec 8 :=
  BitVec.ofInt 8 (hex (buf (i * 2 + 9)) * 16 + hex (buf (i * 2 + 10)))

-- The first character is looked at before the line is stripped.
def readLine (text : List (BitVec 8)) (buf : ℕ → BitVec 8) : LineResult :=
  let strlen := (strip text).length
  if text.head? = some 0x23 then .comment
  else if text.head? ≠ some 0x3a then .invalidPrefix
  else if typeField buf = 1 then .endOfFile
  else if typeField buf ≠ 0 then .unsupportedType (typeField buf)
  else if lenField buf * 2 > BitVec.ofNat 64 strlen - 11 then
    .notEnoughData (lenField buf * 2) (BitVec.ofNat 64 strlen - 11)
  else .data (lenField buf) (offField buf) ((List.range (lenField buf).toNat).map (dataByte buf))

def LineResult.accepted (allocs : Bool) : LineResult → Bool
  | .data _ _ _ => allocs
  | _ => false

def LineResult.goesOn (allocs : Bool) : LineResult → Bool
  | .comment => true
  | result => result.accepted allocs

-- The lines read, up to the one the load stops at. buf is the same memory for
-- every line.
def lineResults (stale : ℕ → BitVec 8) : List LineIn → List (LineIn × LineResult)
  | [] => []
  | line :: rest =>
      let buf := lineBuf stale line.text
      let result := readLine line.text buf
      (line, result) :: if result.goesOn line.allocs then lineResults buf rest else []

def LineHeld (buf : ℕ → BitVec 8) (text : List (BitVec 8)) : Prop := ∀ k (inside : k < text.length), buf k = text[k]

structure Complete (text : List (BitVec 8)) (len : BitVec 64) (off : BitVec 32) (bytes : List (BitVec 8)) : Prop where
  enough : 11 + 2 * len.toNat ≤ (strip text).length
  -- whatever stands behind the line, the record decoded is the same
  inside : ∀ buf, LineHeld buf (strip text) → readLine text buf = .data len off bytes

def AcceptedComplete (results : List (LineIn × LineResult)) : Prop :=
  ∀ p ∈ results, ∀ len off bytes, p.2 = .data len off bytes → p.1.allocs = true → Complete p.1.text len off bytes

-- The value of the two length characters before it becomes a size_t.
def announced (buf : ℕ → BitVec 8) : ℤ := hex (buf 1) * 16 + hex (buf 2)

structure LineIn.SaysData (line : LineIn) (buf : ℕ → BitVec 8) : Prop where
  colon : line.text.head? = some 0x3a
  type : typeField buf = 0
  allocs : line.allocs = true

structure LineIn.Whole (line : LineIn) (buf : ℕ → BitVec 8) : Prop extends line.SaysData buf where
  counts : 0 ≤ announced buf
  enough : 11 + 2 * announced buf ≤ (strip line.text).length

-- Too short for any record. Of these only a small negative length is refused:
-- strlen - 11 has wrapped, and the length then lies above it.
structure LineIn.Cut (line : LineIn) (buf : ℕ → BitVec 8) : Prop extends line.SaysData buf where
  short : (strip line.text).length < 11
  unrefused : announced buf < 0 → 11 + 2 * announced buf ≤ (strip line.text).length

-- The first line that is neither a comment nor a whole record is not a cut one.
-- The type characters of a line shorter than 9 are what the lines before it left.
def NoneCut (stale : ℕ → BitVec 8) : List LineIn → Prop
  | [] => True
  | line :: rest =>
      let buf := lineBuf stale line.text
      ¬ line.Cut buf ∧ (line.text.head? = some 0x23 ∨ line.Whole buf → NoneCut buf rest)

theorem hex_bounds (c : BitVec 8) : -176 ≤ hex c ∧ hex c ≤ 79 := by
  have low := BitVec.le_toInt c
  have high := BitVec.toInt_lt (x := c)
  unfold hex
  split
  · omega
  split
  · omega
  · omega

theorem announced_bounds (buf : ℕ → BitVec 8) : -2992 ≤ announced buf ∧ announced buf ≤ 1343 := by
  have first := hex_bounds (buf 1)
  have second := hex_bounds (buf 2)
  unfold announced
  omega

theorem length_test (buf : ℕ → BitVec 8) (strlen : ℕ) (short : strlen ≤ 511) :
    ¬ lenField buf * 2 > BitVec.ofNat 64 strlen - 11 ↔
      0 ≤ announced buf ∧ 11 + 2 * announced buf ≤ strlen ∨
        strlen < 11 ∧ (announced buf < 0 → 11 + 2 * announced buf ≤ strlen) := by
  have bounds := announced_bounds buf
  have value : ((lenField buf).toNat : ℤ) = announced buf % 2 ^ 64 := by
    rw [lenField, BitVec.toNat_ofInt]
    exact Int.toNat_of_nonneg (Int.emod_nonneg _ (by decide))
  have doubled : (lenField buf * 2).toNat = (lenField buf).toNat * 2 % 2 ^ 64 := BitVec.toNat_mul ..
  have room : (BitVec.ofNat 64 strlen - 11).toNat = (2 ^ 64 - 11 + strlen) % 2 ^ 64 := by
    have length : (BitVec.ofNat 64 strlen).toNat = strlen := Nat.mod_eq_of_lt (by omega)
    rw [BitVec.toNat_sub, length]
    rfl
  have test : lenField buf * 2 > BitVec.ofNat 64 strlen - 11 ↔
      (2 ^ 64 - 11 + strlen) % 2 ^ 64 < (lenField buf).toNat * 2 % 2 ^ 64 := by
    rw [← room, ← doubled]
    exact Iff.rfl
  rw [test]
  omega

theorem len_of_whole (buf : ℕ → BitVec 8) (counts : 0 ≤ announced buf) : ((lenField buf).toNat : ℤ) = announced buf := by
  have bounds := announced_bounds buf
  have value : lenField buf = BitVec.ofInt 64 (announced buf) := rfl
  rw [value, BitVec.toNat_ofInt]
  omega

theorem strip_length (text : List (BitVec 8)) : (strip text).length ≤ text.length :=
  (List.rdropWhile_prefix isspace text).length_le

theorem lineBuf_holds (stale : ℕ → BitVec 8) (text : List (BitVec 8)) (colon : text.head? = some 0x3a) :
    LineHeld (lineBuf stale text) (strip text) := by
  intro k inside
  have front := List.rdropWhile_prefix isspace text
  have short := front.length_le
  rw [lineBuf, if_pos colon, storeAt_before _ _ _ _ inside]
  have there := storeAt_inside stale 0 (text ++ [0]) k (by rw [List.length_append]; unfold strip at inside; omega)
  rw [Nat.zero_add] at there
  rw [there, List.getElem_append_left (by unfold strip at inside; omega)]
  exact (front.getElem inside).symm

structure ReadsData (text : List (BitVec 8)) (buf : ℕ → BitVec 8) (len : BitVec 64) (off : BitVec 32)
    (bytes : List (BitVec 8)) : Prop where
  colon : text.head? = some 0x3a
  type : typeField buf = 0
  passed : ¬ lenField buf * 2 > BitVec.ofNat 64 (strip text).length - 11
  count : lenField buf = len
  offset : offField buf = off
  data : (List.range len.toNat).map (dataByte buf) = bytes

theorem readLine_data (text : List (BitVec 8)) (buf : ℕ → BitVec 8) (len : BitVec 64) (off : BitVec 32)
    (bytes : List (BitVec 8)) : readLine text buf = .data len off bytes ↔ ReadsData text buf len off bytes := by
  constructor
  · intro result
    dsimp only [readLine] at result
    split at result
    · cases result
    split at result
    · cases result
    · rename_i colon
      split at result
      · cases result
      split at result
      · cases result
      · rename_i type
        split at result
        · cases result
        · rename_i passed
          cases result
          exact ⟨not_not.mp colon, not_not.mp type, passed, rfl, rfl, rfl⟩
  · rintro ⟨colon, type, passed, rfl, rfl, rfl⟩
    dsimp only [readLine]
    rw [if_neg (by rw [colon]; decide), if_neg (not_not.mpr colon), type, if_neg (by decide), if_neg (by decide),
      if_neg passed]

theorem ReadsData.inside (text : List (BitVec 8)) (buf : ℕ → BitVec 8) (len : BitVec 64) (off : BitVec 32)
    (bytes : List (BitVec 8)) (reads : ReadsData text buf len off bytes) (held : LineHeld buf (strip text))
    (enough : 11 + 2 * len.toNat ≤ (strip text).length) (other : ℕ → BitVec 8) (kept : LineHeld other (strip text)) :
    ReadsData text other len off bytes := by
  have same (k : ℕ) (within : k < 9 + 2 * len.toNat) : other k = buf k := by
    rw [held k (by omega), kept k (by omega)]
  have length : lenField other = lenField buf := by
    rw [lenField, same 1 (by omega), same 2 (by omega)]
    rfl
  have offset : offField other = offField buf := by
    rw [offField, same 3 (by omega), same 4 (by omega), same 5 (by omega), same 6 (by omega)]
    rfl
  have type : typeField other = typeField buf := by
    rw [typeField, same 7 (by omega), same 8 (by omega)]
    rfl
  have data : (List.range len.toNat).map (dataByte other) = (List.range len.toNat).map (dataByte buf) := by
    refine List.map_congr_left fun i member => ?_
    have before := List.mem_range.mp member
    rw [dataByte, same (i * 2 + 9) (by omega), same (i * 2 + 10) (by omega)]
    rfl
  exact ⟨reads.colon, type.trans reads.type, by rw [length]; exact reads.passed, length.trans reads.count,
    offset.trans reads.offset, data.trans reads.data⟩

theorem accepted_iff (line : LineIn) (buf : ℕ → BitVec 8) :
    (readLine line.text buf).accepted line.allocs = true ↔ line.Whole buf ∨ line.Cut buf := by
  have test := length_test buf (strip line.text).length ((strip_length line.text).trans line.short)
  constructor
  · intro accepted
    cases result : readLine line.text buf with
    | data len off bytes =>
        rw [result] at accepted
        have reads := (readLine_data ..).mp result
        have kind : line.SaysData buf := ⟨reads.colon, reads.type, accepted⟩
        rcases test.mp reads.passed with ⟨counts, enough⟩ | ⟨short, unrefused⟩
        · exact .inl ⟨kind, counts, enough⟩
        · exact .inr ⟨kind, short, unrefused⟩
    | _ => simp [result, LineResult.accepted] at accepted
  · intro either
    have kind : line.SaysData buf := either.elim (·.toSaysData) (·.toSaysData)
    have passed := test.mpr (either.imp (fun whole => ⟨whole.counts, whole.enough⟩) fun cut => ⟨cut.short, cut.unrefused⟩)
    rw [(readLine_data ..).mpr ⟨kind.colon, kind.type, passed, rfl, rfl, rfl⟩]
    exact kind.allocs

theorem goesOn_iff (line : LineIn) (buf : ℕ → BitVec 8) :
    (readLine line.text buf).goesOn line.allocs = true ↔
      line.text.head? = some 0x23 ∨ (readLine line.text buf).accepted line.allocs = true := by
  by_cases hash : line.text.head? = some 0x23
  · simp [readLine, hash, LineResult.goesOn]
  · have comment : readLine line.text buf ≠ .comment := by
      dsimp only [readLine]
      split
      · contradiction
      repeat' split
      all_goals nofun
    cases result : readLine line.text buf <;> simp_all [LineResult.goesOn]

theorem whole_complete (stale : ℕ → BitVec 8) (line : LineIn) (whole : line.Whole (lineBuf stale line.text))
    (len : BitVec 64) (off : BitVec 32) (bytes : List (BitVec 8))
    (result : readLine line.text (lineBuf stale line.text) = .data len off bytes) : Complete line.text len off bytes := by
  have reads := (readLine_data ..).mp result
  have enough : 11 + 2 * len.toNat ≤ (strip line.text).length := by
    have value := len_of_whole _ whole.counts
    have room := whole.enough
    rw [reads.count] at value
    omega
  refine ⟨enough, fun buf held => ?_⟩
  have line_held := lineBuf_holds stale line.text whole.colon
  exact (readLine_data ..).mpr (reads.inside _ _ _ _ _ line_held enough buf held)

theorem hex_lines_iff (stale : ℕ → BitVec 8) (lines : List LineIn) :
    AcceptedComplete (lineResults stale lines) ↔ NoneCut stale lines := by
  induction lines generalizing stale with
  | nil => exact iff_of_true (fun p member => by cases member) trivial
  | cons line rest ih =>
      have accepted := accepted_iff line (lineBuf stale line.text)
      have goes := goesOn_iff line (lineBuf stale line.text)
      rw [AcceptedComplete, lineResults, List.forall_mem_cons, NoneCut]
      constructor
      · rintro ⟨here, later⟩
        refine ⟨fun cut => ?_, fun on => ?_⟩
        · have taken := accepted.mpr (.inr cut)
          cases result : readLine line.text (lineBuf stale line.text) with
          | data len off bytes =>
              have enough : 11 + 2 * len.toNat ≤ (strip line.text).length := (here len off bytes result cut.allocs).enough
              have short := cut.short
              omega
          | _ => simp [result, LineResult.accepted] at taken
        · rw [if_pos (goes.mpr (on.imp_right fun whole => accepted.mpr (.inl whole)))] at later
          exact (ih _).mp later
      · rintro ⟨uncut, more⟩
        refine ⟨fun len off bytes (result : readLine line.text (lineBuf stale line.text) = _) allocated => ?_, ?_⟩
        · have taken := accepted.mp (by rw [result]; exact allocated)
          exact whole_complete stale line (taken.resolve_right uncut) len off bytes result
        · split
          · rename_i on
            exact (ih _).mpr (more ((goes.mp on).imp_right fun taken => (accepted.mp taken).resolve_right uncut))
          · exact fun p member => by cases member

-- ":10000000": sixteen bytes announced, not even a checksum there.
def truncatedLine : LineIn where
  text := [0x3a, 0x31, 0x30, 0x30, 0x30, 0x30, 0x30, 0x30, 0x30, 0x0a]
  allocs := true
  nonempty := by decide
  short := by decide
  plain := by decide

theorem truncated_line_accepted : ¬ AcceptedComplete (lineResults (fun _ => 0) [truncatedLine]) := by
  intro complete
  have read : readLine truncatedLine.text (lineBuf (fun _ => 0) truncatedLine.text) =
      .data 16 0 (List.replicate 16 0xd0) := by decide +kernel
  have enough := (complete _ (List.mem_cons_self ..) 16 0 _ read rfl).enough
  exact absurd enough (by decide)

end SsAdma
