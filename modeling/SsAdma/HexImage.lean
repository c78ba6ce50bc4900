import SsAdma.HexLoad

set_option autoImplicit false

namespace SsAdma

open ByteMemory IntelHex

structure Block where
  off : BitVec 32
  len : BitVec 16
  data : List (BitVec 8)
deriving DecidableEq, Repr

-- The list of blocks has the newest one in front. That is also pblock, once
-- there is one.
def addData (blocks : List Block) (len : BitVec 64) (off : BitVec 32) (bytes : List (BitVec 8)) : List Block :=
  match blocks with
  | [] => [⟨off, len.setWidth 16, bytes⟩]
  | pblock :: older =>
      if off == pblock.off + pblock.len.setWidth 32 && decide (pblock.len < 512) then
        ⟨pblock.off, pblock.len + len.setWidth 16, pblock.data ++ bytes⟩ :: older
      else ⟨off, len.setWidth 16, bytes⟩ :: pblock :: older

def imageOf (blocks : List Block) : List (LineIn × LineResult) → ℕ × List Block
  | [] => (0, blocks)
  | (line, result) :: rest =>
      match result with
      | .comment => imageOf blocks rest
      | .endOfFile => (0, blocks)
      | .data len off bytes => if line.allocs then imageOf (addData blocks len off bytes) rest else (1, blocks)
      | .invalidPrefix | .unsupportedType _ | .notEnoughData _ _ => (1, blocks)

def ezusbLoadImage (stale : ℕ → BitVec 8) (lines : List LineIn) : ℕ × List Block :=
  imageOf [] (lineResults stale lines)

def cpucsAddr : BitVec 16 := 0x7F92

def ezusbCpucs (run : Bool) : Record := ⟨cpucsAddr, [if run then 0 else 1]⟩

def Block.poke (b : Block) : Record := ⟨b.off.setWidth 16, b.data.take b.len.toNat⟩

def ezusbWriteImage (blocks : List Block) : List Record :=
  ezusbCpucs false :: blocks.map Block.poke ++ [ezusbCpucs true]

def addRecord (blocks : List Block) (r : Record) : List Block :=
  addData blocks (BitVec.ofNat 64 r.data.length) (r.off.setWidth 32) r.data

theorem hex_digit (c : BitVec 8) (x : ℕ) (value : digit c = some x) : hex c = x := by
  have signed : c.toNat < 128 → c.toInt = c.toNat := fun small => BitVec.toInt_eq_toNat_of_lt (by omega)
  rcases digit_cases c x value with decimal | upper | lower
  · rw [hex, signed (by omega), if_neg (by omega), if_neg (by omega)]
    omega
  · rw [hex, signed (by omega), if_neg (by omega), if_pos (by omega)]
    omega
  · rw [hex, signed (by omega), if_pos (by omega)]
    omega

def pairAt (buf : ℕ → BitVec 8) (i : ℕ) : ℤ := hex (buf (2 * i)) * 16 + hex (buf (2 * i + 1))

theorem pairAt_bytes (text : List (BitVec 8)) (parsed : List (BitVec 8)) (decoded : bytes text = some parsed)
    (buf : ℕ → BitVec 8) (holds : ∀ k (inside : k < text.length), buf k = text[k]) (i : ℕ) (inside : i < parsed.length) :
    pairAt buf i = parsed[i].toNat := by
  induction parsed generalizing text buf i with
  | nil => simp at inside
  | cons b more ih =>
      obtain ⟨c, d, rest, x, y, rfl, first, second, rfl, tail⟩ := bytes_cons text b more decoded
      cases i with
      | zero =>
          have high := digit_lt c x first
          have low := digit_lt d y second
          have value : (BitVec.ofNat 8 (16 * x + y)).toNat = 16 * x + y := Nat.mod_eq_of_lt (by omega)
          rw [pairAt, holds 0 (by simp), holds 1 (by simp)]
          simp only [List.getElem_cons_zero, List.getElem_cons_succ]
          rw [hex_digit c x first, hex_digit d y second, value]
          omega
      | succ i =>
          have shifted := ih rest tail (fun k => buf (k + 2)) (fun k within => by
            rw [holds (k + 2) (by simpa using within)]
            rfl) i (by simpa using inside)
          rw [List.getElem_cons_succ, ← shifted]
          rfl

structure ReadsRecord (buf : ℕ → BitVec 8) (strlen : ℕ) (kind : BitVec 8) (r : Record) : Prop where
  len : lenField buf = BitVec.ofNat 64 r.data.length
  off : offField buf = r.off.setWidth 32
  type : typeField buf = kind
  data : (List.range r.data.length).map (dataByte buf) = r.data
  strlen : strlen = 11 + 2 * r.data.length

theorem record_colon (text : List (BitVec 8)) (kind : BitVec 8) (r : Record) (record : IsRecord text kind r) :
    text.head? = some 0x3a := by
  obtain ⟨digits, _, stripped, _, _⟩ := record.encoded
  obtain ⟨tail, whole⟩ : strip text <+: text := List.rdropWhile_prefix isspace text
  rw [← whole, stripped]
  rfl

theorem reads_record (stale : ℕ → BitVec 8) (text : List (BitVec 8)) (kind : BitVec 8) (r : Record)
    (record : IsRecord text kind r) : ReadsRecord (lineBuf stale text) (strip text).length kind r := by
  obtain ⟨digits, check, stripped, decoded, _⟩ := record.encoded
  have short := record.short
  have inside := lineBuf_holds stale text (record_colon text kind r record)
  generalize lineBuf stale text = buf at inside
  have length := bytes_length digits _ decoded
  simp only [fields, List.length_append, List.length_cons, List.length_nil] at length
  have chars (k : ℕ) (within : k < digits.length) : buf (k + 1) = digits[k] := by
    rw [inside (k + 1) (by rw [stripped, List.length_cons]; omega)]
    simp [stripped]
  have pair := pairAt_bytes digits _ decoded (fun k => buf (k + 1)) chars
  simp only [fields, List.length_append, List.length_cons, List.length_nil] at pair
  have zeroth := pair 0 (by omega)
  have first := pair 1 (by omega)
  have second := pair 2 (by omega)
  have third := pair 3 (by omega)
  simp only [pairAt, List.getElem_cons_zero, List.getElem_cons_succ, List.cons_append, Nat.reduceMul, Nat.reduceAdd]
    at zeroth first second third
  refine ⟨?_, ?_, ?_, ?_, ?_⟩
  · rw [lenField, zeroth]
    simp only [BitVec.toNat_ofNat]
    rw [Nat.mod_eq_of_lt (by omega)]
    exact BitVec.ofInt_natCast ..
  · have high : (r.off.extractLsb' 8 8).toNat = r.off.toNat / 256 := by
      rw [BitVec.extractLsb'_toNat, Nat.shiftRight_eq_div_pow]
      exact Nat.mod_eq_of_lt (by have := r.off.isLt; omega)
    have low : (r.off.extractLsb' 0 8).toNat = r.off.toNat % 256 := by
      rw [BitVec.extractLsb'_toNat, Nat.shiftRight_zero]
    rw [high] at first
    rw [low] at second
    have value : hex (buf 3) * 4096 + hex (buf 4) * 256 + hex (buf 5) * 16 + hex (buf 6) = r.off.toNat := by omega
    rw [offField, value, BitVec.ofInt_natCast, BitVec.ofNat_toNat]
  · rw [typeField, third, BitVec.ofInt_natCast, BitVec.ofNat_toNat, BitVec.setWidth_eq]
  · refine List.ext_getElem (by simp) fun i within there => ?_
    have byte := pair (i + 4) (by omega)
    simp only [pairAt, List.getElem_cons_succ, List.cons_append, List.getElem_append_left there] at byte
    rw [List.getElem_map, List.getElem_range, dataByte, show i * 2 + 9 = 2 * (i + 4) + 1 by omega,
      show i * 2 + 10 = 2 * (i + 4) + 1 + 1 by omega, byte]
    rw [BitVec.ofInt_natCast, BitVec.ofNat_toNat, BitVec.setWidth_eq]
  · rw [stripped, List.length_cons, length]
    omega

theorem readLine_record (stale : ℕ → BitVec 8) (text : List (BitVec 8)) (r : Record) (record : IsRecord text 0 r) :
    readLine text (lineBuf stale text) =
      .data (BitVec.ofNat 64 r.data.length) (r.off.setWidth 32) r.data := by
  have reads := reads_record stale text 0 r record
  have short := record.short
  have colon := record_colon text 0 r record
  have length : (BitVec.ofNat 64 r.data.length).toNat = r.data.length := Nat.mod_eq_of_lt (by omega)
  have enough : ¬ BitVec.ofNat 64 r.data.length * 2 > BitVec.ofNat 64 (strip text).length - 11 := by
    have total : (BitVec.ofNat 64 (strip text).length).toNat = 11 + 2 * r.data.length := by
      rw [reads.strlen]
      exact Nat.mod_eq_of_lt (by omega)
    generalize BitVec.ofNat 64 (strip text).length = n at total
    generalize BitVec.ofNat 64 r.data.length = m at length
    bv_omega
  dsimp only [readLine]
  rw [if_neg (by rw [colon]; decide), if_neg (by rw [colon]; decide), reads.type, if_neg (by decide), if_neg (by decide),
    reads.len, if_neg enough, reads.off, length, reads.data]

theorem readLine_end (stale : ℕ → BitVec 8) (text : List (BitVec 8)) (r : Record) (record : IsRecord text 1 r) :
    readLine text (lineBuf stale text) = .endOfFile := by
  have colon := record_colon text 1 r record
  dsimp only [readLine]
  rw [if_neg (by rw [colon]; decide), if_neg (by rw [colon]; decide), (reads_record stale text 1 r record).type,
    if_pos rfl]

theorem readLine_comment (text : List (BitVec 8)) (buf : ℕ → BitVec 8) (hash : text.head? = some 0x23) :
    readLine text buf = .comment := if_pos hash

theorem load_file (closed : Bool) (texts : List (List (BitVec 8))) (records : List Record)
    (file : File closed texts records) (stale : ℕ → BitVec 8) (lines : List LineIn) (same : lines.map LineIn.text = texts)
    (blocks : List Block) (accepted : (imageOf blocks (lineResults stale lines)).1 = 0) :
    (imageOf blocks (lineResults stale lines)).2 = records.foldl addRecord blocks := by
  induction file generalizing stale lines blocks with
  | missing =>
      rw [List.map_eq_nil_iff.mp same]
      rfl
  | ended text r rest record =>
      obtain ⟨line, others, rfl, rfl, _⟩ := List.map_eq_cons_iff.mp same
      simp only [lineResults, readLine_end stale line.text r record, imageOf, List.foldl_nil]
  | comment closed text rest records hash more ih =>
      obtain ⟨line, others, rfl, rfl, tail⟩ := List.map_eq_cons_iff.mp same
      simp only [lineResults, readLine_comment _ _ hash, LineResult.goesOn, if_true, imageOf] at accepted ⊢
      exact ih _ others tail blocks accepted
  | data closed text r rest records record more ih =>
      obtain ⟨line, others, rfl, rfl, tail⟩ := List.map_eq_cons_iff.mp same
      simp only [lineResults, readLine_record stale line.text r record, LineResult.goesOn, LineResult.accepted, imageOf]
        at accepted ⊢
      cases allocs : line.allocs with
      | false => simp [allocs] at accepted
      | true =>
          simp only [allocs, if_true] at accepted ⊢
          exact ih _ others tail _ accepted

structure Block.Sound (b : Block) : Prop where
  size : b.data.length = b.len.toNat
  bound : b.len.toNat ≤ 766
  off : b.off.toNat < 2 ^ 16

theorem addRecord_sound (blocks : List Block) (sound : ∀ b ∈ blocks, b.Sound) (r : Record) (short : r.data.length ≤ 255) :
    ∀ b ∈ addRecord blocks r, b.Sound := by
  have length : ((BitVec.ofNat 64 r.data.length).setWidth 16).toNat = r.data.length := by
    rw [BitVec.toNat_setWidth, BitVec.toNat_ofNat]
    omega
  have fresh : Block.Sound ⟨r.off.setWidth 32, (BitVec.ofNat 64 r.data.length).setWidth 16, r.data⟩ := by
    refine ⟨length.symm, length.le.trans (by omega), ?_⟩
    have small := r.off.isLt
    rw [BitVec.toNat_setWidth]
    omega
  intro b member
  unfold addRecord addData at member
  cases blocks with
  | nil => exact List.mem_singleton.mp member ▸ fresh
  | cons pblock older =>
      simp only at member
      split at member
      · rename_i append
        have room : pblock.len.toNat < 512 := by
          simp only [Bool.and_eq_true, decide_eq_true_eq] at append
          exact append.2
        have before := sound pblock (List.mem_cons_self ..)
        rcases List.mem_cons.mp member with rfl | later
        · have total : (pblock.len + (BitVec.ofNat 64 r.data.length).setWidth 16).toNat = pblock.len.toNat + r.data.length := by
            rw [BitVec.toNat_add, length]
            exact Nat.mod_eq_of_lt (by omega)
          refine ⟨?_, ?_, before.off⟩
          · rw [total, List.length_append, before.size]
          · rw [total]
            omega
        · exact sound b (List.mem_cons_of_mem _ later)
      · rcases List.mem_cons.mp member with rfl | later
        · exact fresh
        · exact sound b later

theorem Block.poke_sound (b : Block) (sound : b.Sound) : b.poke = ⟨b.off.setWidth 16, b.data⟩ := by
  rw [poke, List.take_of_length_le (by rw [sound.size])]

theorem poke_addRecord (blocks : List Block) (sound : ∀ b ∈ blocks, b.Sound) (r : Record) (short : r.data.length ≤ 255)
    (mem : BitVec 16 → BitVec 8) :
    apply mem ((addRecord blocks r).map Block.poke) = apply (store mem r) (blocks.map Block.poke) := by
  have length : ((BitVec.ofNat 64 r.data.length).setWidth 16).toNat = r.data.length := by
    rw [BitVec.toNat_setWidth, BitVec.toNat_ofNat]
    omega
  have fresh : Block.poke ⟨r.off.setWidth 32, (BitVec.ofNat 64 r.data.length).setWidth 16, r.data⟩ = r := by
    have off : (r.off.setWidth 32).setWidth 16 = r.off := by simp
    simp only [Block.poke, off, length, List.take_length]
  have added := addRecord_sound blocks sound r short
  unfold addRecord addData at added ⊢
  cases blocks with
  | nil =>
      simp only [List.map_cons, fresh]
      rfl
  | cons pblock older =>
      simp only at added ⊢
      split
      · rename_i append
        rw [if_pos append] at added
        have before := sound pblock (List.mem_cons_self ..)
        have follows : r.off = pblock.off.setWidth 16 + BitVec.ofNat 16 pblock.data.length := by
          have place : r.off.setWidth 32 = pblock.off + pblock.len.setWidth 32 := by
            simp only [Bool.and_eq_true, beq_iff_eq] at append
            exact append.1
          rw [before.size, BitVec.ofNat_toNat, BitVec.setWidth_eq]
          have off := before.off
          have bound := before.bound
          generalize pblock.off = o at place off
          generalize pblock.len = n at place bound
          bv_omega
        have cut := store_split mem (pblock.off.setWidth 16) pblock.data r.data
        rw [← follows] at cut
        rw [List.map_cons, Block.poke_sound _ (added _ (List.mem_cons_self ..)), List.map_cons, pblock.poke_sound before]
        change apply (store mem ⟨pblock.off.setWidth 16, pblock.data ++ r.data⟩) _ = _
        rw [cut]
        rfl
      · rw [List.map_cons, fresh]
        rfl

theorem poke_records (records : List Record) (short : ∀ r ∈ records, r.data.length ≤ 255) (blocks : List Block)
    (sound : ∀ b ∈ blocks, b.Sound) (mem : BitVec 16 → BitVec 8) :
    apply mem ((records.foldl addRecord blocks).map Block.poke) =
      apply (apply mem records.reverse) (blocks.map Block.poke) := by
  induction records generalizing blocks with
  | nil => rfl
  | cons r rest ih =>
      have here := short r (List.mem_cons_self ..)
      rw [List.foldl_cons, ih (fun s member => short s (List.mem_cons_of_mem _ member)) _
        (addRecord_sound blocks sound r here), poke_addRecord blocks sound r here, List.reverse_cons, apply_append]
      rfl

theorem file_short (closed : Bool) (texts : List (List (BitVec 8))) (records : List Record)
    (file : File closed texts records) : ∀ r ∈ records, r.data.length ≤ 255 := by
  induction file with
  | missing => simp
  | ended text r rest record => simp
  | comment closed text rest records hash more ih => exact ih
  | data closed text r rest records record more ih =>
      intro s member
      rcases List.mem_cons.mp member with rfl | later
      · exact record.short
      · exact ih s later

theorem cpucs_elsewhere (run : Bool) (a : BitVec 16) (other : a ≠ cpucsAddr) : (ezusbCpucs run).byteAt a = none := by
  rw [Record.byteAt, List.getElem?_eq_none_iff]
  have moved : (a - cpucsAddr).toNat ≠ 0 := by
    intro zero
    exact other (by bv_omega)
  exact Nat.one_le_iff_ne_zero.mpr moved

theorem write_image_elsewhere (mem : BitVec 16 → BitVec 8) (blocks : List Block) (a : BitVec 16) (other : a ≠ cpucsAddr) :
    apply mem (ezusbWriteImage blocks) a = apply mem (blocks.map Block.poke) a := by
  rw [apply_denotes, apply_denotes, ezusbWriteImage, denotes, denotes]
  simp [cpucs_elsewhere _ a other]

theorem device_reversed (closed : Bool) (stale : ℕ → BitVec 8) (lines : List LineIn) (records : List Record)
    (file : File closed (lines.map LineIn.text) records) (accepted : (ezusbLoadImage stale lines).1 = 0)
    (mem : BitVec 16 → BitVec 8) (a : BitVec 16) (other : a ≠ cpucsAddr) :
    apply mem (ezusbWriteImage (ezusbLoadImage stale lines).2) a = apply mem records.reverse a := by
  have blocks : (ezusbLoadImage stale lines).2 = records.foldl addRecord [] :=
    load_file closed _ records file stale lines rfl [] accepted
  rw [write_image_elsewhere mem _ a other, blocks, poke_records records (file_short closed _ records file) [] (by simp)]
  rfl

theorem findSome_or (records : List Record) (a : BitVec 16) (mem : BitVec 8) :
    (denotes records.reverse a).getD mem = (denotes records a).getD mem ↔
      records.findSome? (Record.byteAt a) = denotes records a := by
  have reversed : denotes records.reverse a = records.findSome? (Record.byteAt a) := by
    rw [denotes, List.reverse_reverse]
  have both : records.findSome? (Record.byteAt a) = none ↔ denotes records a = none := by
    simp [denotes, List.findSome?_eq_none_iff]
  rw [reversed]
  cases first : records.findSome? (Record.byteAt a) with
  | none => rw [both.mp first]; simp
  | some x =>
      cases last : denotes records a with
      | none => exact absurd (both.mpr last) (by simp [first])
      | some y => simp

theorem load_in_file_order_iff (closed : Bool) (stale : ℕ → BitVec 8) (lines : List LineIn) (records : List Record)
    (file : File closed (lines.map LineIn.text) records) (accepted : (ezusbLoadImage stale lines).1 = 0)
    (mem : BitVec 16 → BitVec 8) :
    (∀ a, a ≠ cpucsAddr → apply mem (ezusbWriteImage (ezusbLoadImage stale lines).2) a = apply mem records a) ↔
      ∀ a, a ≠ cpucsAddr → records.findSome? (Record.byteAt a) = denotes records a := by
  refine forall_congr' fun a => forall_congr' fun other => ?_
  rw [device_reversed closed stale lines records file accepted mem a other, apply_denotes, apply_denotes]
  exact findSome_or records a (mem a)

-- ":0100000001FE", ":0100000002FD" and ":00000001FF".
def firstLine : LineIn where
  text := [0x3a, 0x30, 0x31, 0x30, 0x30, 0x30, 0x30, 0x30, 0x30, 0x30, 0x31, 0x46, 0x45, 0x0a]
  allocs := true
  nonempty := by decide
  short := by decide
  plain := by decide

def secondLine : LineIn where
  text := [0x3a, 0x30, 0x31, 0x30, 0x30, 0x30, 0x30, 0x30, 0x30, 0x30, 0x32, 0x46, 0x44, 0x0a]
  allocs := true
  nonempty := by decide
  short := by decide
  plain := by decide

def endLine : LineIn where
  text := [0x3a, 0x30, 0x30, 0x30, 0x30, 0x30, 0x30, 0x30, 0x31, 0x46, 0x46, 0x0a]
  allocs := true
  nonempty := by decide
  short := by decide
  plain := by decide

theorem first_record : IsRecord firstLine.text 0 ⟨0, [1]⟩ :=
  ⟨by decide, [0x30, 0x31, 0x30, 0x30, 0x30, 0x30, 0x30, 0x30, 0x30, 0x31, 0x46, 0x45], 0xfe,
    by decide, by decide, by decide⟩

theorem second_record : IsRecord secondLine.text 0 ⟨0, [2]⟩ :=
  ⟨by decide, [0x30, 0x31, 0x30, 0x30, 0x30, 0x30, 0x30, 0x30, 0x30, 0x32, 0x46, 0x44], 0xfd,
    by decide, by decide, by decide⟩

theorem end_record : IsRecord endLine.text 1 ⟨0, []⟩ :=
  ⟨by decide, [0x30, 0x30, 0x30, 0x30, 0x30, 0x30, 0x30, 0x31, 0x46, 0x46], 0xff, by decide, by decide, by decide⟩

theorem overwriting_file : File true ([firstLine, secondLine, endLine].map LineIn.text) [⟨0, [1]⟩, ⟨0, [2]⟩] :=
  .data _ _ _ _ _ first_record (.data _ _ _ _ _ second_record (.ended _ _ _ end_record))

-- ":020000000102FB", ":0100020003FA" and ":020001000203F8": the second follows on
-- from the first, the third lies over both.
def pairLine : LineIn where
  text := [0x3a, 0x30, 0x32, 0x30, 0x30, 0x30, 0x30, 0x30, 0x30, 0x30, 0x31, 0x30, 0x32, 0x46, 0x42, 0x0a]
  allocs := true
  nonempty := by decide
  short := by decide
  plain := by decide

def nextLine : LineIn where
  text := [0x3a, 0x30, 0x31, 0x30, 0x30, 0x30, 0x32, 0x30, 0x30, 0x30, 0x33, 0x46, 0x41, 0x0a]
  allocs := true
  nonempty := by decide
  short := by decide
  plain := by decide

def overLine : LineIn where
  text := [0x3a, 0x30, 0x32, 0x30, 0x30, 0x30, 0x31, 0x30, 0x30, 0x30, 0x32, 0x30, 0x33, 0x46, 0x38, 0x0a]
  allocs := true
  nonempty := by decide
  short := by decide
  plain := by decide

theorem pair_record : IsRecord pairLine.text 0 ⟨0, [1, 2]⟩ :=
  ⟨by decide, [0x30, 0x32, 0x30, 0x30, 0x30, 0x30, 0x30, 0x30, 0x30, 0x31, 0x30, 0x32, 0x46, 0x42], 0xfb,
    by decide, by decide, by decide⟩

theorem next_record : IsRecord nextLine.text 0 ⟨2, [3]⟩ :=
  ⟨by decide, [0x30, 0x31, 0x30, 0x30, 0x30, 0x32, 0x30, 0x30, 0x30, 0x33, 0x46, 0x41], 0xfa,
    by decide, by decide, by decide⟩

theorem over_record : IsRecord overLine.text 0 ⟨1, [2, 3]⟩ :=
  ⟨by decide, [0x30, 0x32, 0x30, 0x30, 0x30, 0x31, 0x30, 0x30, 0x30, 0x32, 0x30, 0x33, 0x46, 0x38], 0xf8,
    by decide, by decide, by decide⟩

theorem over_same (a : BitVec 16) : [(⟨0, [1, 2]⟩ : Record), ⟨2, [3]⟩, ⟨1, [2, 3]⟩].findSome? (Record.byteAt a) =
    denotes [⟨0, [1, 2]⟩, ⟨2, [3]⟩, ⟨1, [2, 3]⟩] a := by
  by_cases high : 3 ≤ a.toNat
  · have outside : ∀ r ∈ [(⟨0, [1, 2]⟩ : Record), ⟨2, [3]⟩, ⟨1, [2, 3]⟩], r.byteAt a = none := by
      intro r member
      rw [Record.byteAt, List.getElem?_eq_none_iff, BitVec.toNat_sub]
      have small := a.isLt
      rcases List.mem_cons.mp member with rfl | more
      · change 2 ≤ (2 ^ 16 - 0 + a.toNat) % 2 ^ 16
        omega
      rcases List.mem_pair.mp more with rfl | rfl
      · change 1 ≤ (2 ^ 16 - 2 + a.toNat) % 2 ^ 16
        omega
      · change 2 ≤ (2 ^ 16 - 1 + a.toNat) % 2 ^ 16
        omega
    rw [denotes, List.findSome?_eq_none_iff.mpr outside,
      List.findSome?_eq_none_iff.mpr fun r member => outside r (List.mem_reverse.mp member)]
  · have low : a = 0 ∨ a = 1 ∨ a = 2 := by
      rcases (show a.toNat = 0 ∨ a.toNat = 1 ∨ a.toNat = 2 by omega) with zero | one | two
      · exact .inl (BitVec.eq_of_toNat_eq zero)
      · exact .inr (.inl (BitVec.eq_of_toNat_eq one))
      · exact .inr (.inr (BitVec.eq_of_toNat_eq two))
    rcases low with rfl | rfl | rfl
    all_goals decide

theorem overlapping_accepted : (ezusbLoadImage (fun _ => 0) [pairLine, nextLine, overLine, endLine]).1 = 0 := by decide +kernel

theorem load_in_file_order_overlapping :
    (ezusbLoadImage (fun _ => 0) [pairLine, nextLine, overLine, endLine]).1 = 0 ∧
    ∀ a, a ≠ cpucsAddr →
      apply (fun _ => 0) (ezusbWriteImage (ezusbLoadImage (fun _ => 0) [pairLine, nextLine, overLine, endLine]).2) a =
        apply (fun _ => 0) [⟨0, [1, 2]⟩, ⟨2, [3]⟩, ⟨1, [2, 3]⟩] a :=
  ⟨overlapping_accepted, (load_in_file_order_iff true (fun _ => 0) [pairLine, nextLine, overLine, endLine]
    [⟨0, [1, 2]⟩, ⟨2, [3]⟩, ⟨1, [2, 3]⟩]
    (.data _ _ _ _ _ pair_record (.data _ _ _ _ _ next_record (.data _ _ _ _ _ over_record (.ended _ _ _ end_record))))
    overlapping_accepted (fun _ => 0)).mpr fun a _ => over_same a⟩

-- The second record overrides the first; the device keeps the first.
theorem overwritten_byte_kept :
    File true ([firstLine, secondLine, endLine].map LineIn.text) [⟨0, [1]⟩, ⟨0, [2]⟩] ∧
    (ezusbLoadImage (fun _ => 0) [firstLine, secondLine, endLine]).1 = 0 ∧
    ¬ ∀ a, a ≠ cpucsAddr →
      apply (fun _ => 0) (ezusbWriteImage (ezusbLoadImage (fun _ => 0) [firstLine, secondLine, endLine]).2) a =
        apply (fun _ => 0) [⟨0, [1]⟩, ⟨0, [2]⟩] a := by
  refine ⟨overwriting_file, by decide +kernel, fun same => ?_⟩
  have here := same 0 (by decide)
  revert here
  decide +kernel

end SsAdma
