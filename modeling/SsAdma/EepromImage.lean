import SsAdma.HexImage

set_option autoImplicit false

namespace SsAdma

open IntelHex

-- ez.c loads the file with the same ezusb_load_image. Its ezusb_write puts a
-- block behind its length and its address.
def ezWrite (b : Block) : List (BitVec 8) :=
  [b.len.extractLsb' 8 8, b.len.extractLsb' 0 8, b.poke.off.extractLsb' 8 8, b.poke.off.extractLsb' 0 8] ++ b.poke.data

def ezHeader : List (BitVec 8) := [0xB2, 0x47, 0x05, 0x31, 0x21, 0x00, 0x01]

def ezTerminator : List (BitVec 8) := [0x80, 0x01, 0x7F, 0x92, 0x00]

def ezImage (blocks : List Block) : List (BitVec 8) := ezHeader ++ blocks.flatMap ezWrite ++ ezTerminator

def hexChar (d : ℕ) : BitVec 8 := if d < 10 then BitVec.ofNat 8 (48 + d) else BitVec.ofNat 8 (55 + d)

-- The digits of %X, of which an unsigned int has at most eight.
def digitsX : ℕ → ℕ → List (BitVec 8)
  | 0, _ => []
  | fuel + 1, n => if n < 16 then [hexChar n] else digitsX fuel (n / 16) ++ [hexChar (n % 16)]

-- "%0*X": a wider number is printed in full.
def printX (width n : ℕ) : List (BitVec 8) :=
  List.replicate (width - (digitsX 8 n).length) 0x30 ++ digitsX 8 n

-- uint16_t sum: the length, the address and the data bytes.
def recordSum (len addr : BitVec 16) (data : List (BitVec 8)) : BitVec 16 :=
  data.foldl (fun sum byte => sum + byte.setWidth 16) (len + addr)

def checkByte (sum : BitVec 16) : BitVec 32 := (0x100 - sum.setWidth 32) &&& 0xff

def printRecord (len addr : BitVec 16) (data : List (BitVec 8)) : List (BitVec 8) :=
  0x3a :: (printX 2 len.toNat ++ (printX 4 addr.toNat ++ ([0x30, 0x30] ++ (data.flatMap (fun byte => printX 2 byte.toNat) ++
    printX 2 (checkByte (recordSum len addr data)).toNat)))) ++ [0x0a]

-- ":00000001FF"
def endRecord : List (BitVec 8) := [0x3a, 0x30, 0x30, 0x30, 0x30, 0x30, 0x30, 0x30, 0x31, 0x46, 0x46, 0x0a]

def printLoop : ℕ → List (BitVec 8) → Option (List (List (BitVec 8)))
  | fuel + 1, lenHi :: lenLo :: addrHi :: addrLo :: p =>
      let len := lenHi ++ lenLo
      let addr := addrHi ++ addrLo
      if len = 0x8001 then some [endRecord]
      else if p.length < len.toNat then none
      else (printLoop fuel (p.drop len.toNat)).map (printRecord len addr (p.take len.toNat) :: ·)
  | _, _ => none

-- The dumps on stderr are not modelled.
def bin2hex (buf : List (BitVec 8)) : Option (List (List (BitVec 8))) :=
  if buf.length = 4096 then printLoop 4096 (buf.drop 7) else none

def Block.print (b : Block) : List (BitVec 8) := printRecord b.len b.poke.off b.poke.data

theorem halves_append (w : BitVec 16) : w.extractLsb' 8 8 ++ w.extractLsb' 0 8 = w := by
  apply BitVec.eq_of_getLsbD_eq
  intro i inside
  simp only [BitVec.getLsbD_append, BitVec.getLsbD_extractLsb']
  grind

theorem printLoop_blocks (blocks : List Block) (sound : ∀ b ∈ blocks, b.Sound) (pad : List (BitVec 8)) (fuel : ℕ)
    (enough : blocks.length < fuel) :
    printLoop fuel (blocks.flatMap ezWrite ++ (ezTerminator ++ pad)) = some (blocks.map Block.print ++ [endRecord]) := by
  induction blocks generalizing fuel with
  | nil =>
      obtain ⟨fuel, rfl⟩ : ∃ n, fuel = n + 1 := ⟨fuel - 1, by simp only [List.length_nil] at enough; omega⟩
      rfl
  | cons b rest ih =>
      obtain ⟨fuel, rfl⟩ : ∃ n, fuel = n + 1 := ⟨fuel - 1, by simp only [List.length_cons] at enough; omega⟩
      have here := sound b (List.mem_cons_self ..)
      have bound := here.bound
      have size : b.poke.data.length = b.len.toNat := by rw [b.poke_sound here]; exact here.size
      have plain : b.len ≠ 0x8001 := fun marker => by
        rw [marker] at bound
        exact absurd bound (by decide)
      rw [List.flatMap_cons, List.append_assoc]
      change printLoop (fuel + 1) (b.len.extractLsb' 8 8 :: b.len.extractLsb' 0 8 :: b.poke.off.extractLsb' 8 8 ::
        b.poke.off.extractLsb' 0 8 :: (b.poke.data ++ (rest.flatMap ezWrite ++ (ezTerminator ++ pad)))) = _
      rw [printLoop]
      simp only [halves_append, if_neg plain]
      rw [if_neg (by rw [List.length_append, size]; omega), List.drop_left' size, List.take_left' size,
        ih (fun c member => sound c (List.mem_cons_of_mem _ member)) fuel (by simpa using enough)]
      rfl

theorem bin2hex_image (blocks : List Block) (sound : ∀ b ∈ blocks, b.Sound) (pad : List (BitVec 8))
    (fits : (ezImage blocks ++ pad).length = 4096) :
    bin2hex (ezImage blocks ++ pad) = some (blocks.map Block.print ++ [endRecord]) := by
  have count : blocks.length ≤ (blocks.flatMap ezWrite).length := by
    clear sound fits
    induction blocks with
    | nil => simp
    | cons b rest ih =>
        simp only [List.flatMap_cons, List.length_append, List.length_cons, ezWrite]
        omega
  have body : (ezImage blocks ++ pad).drop 7 = blocks.flatMap ezWrite ++ (ezTerminator ++ pad) := by
    rw [ezImage, List.append_assoc, List.append_assoc]
    rfl
  rw [bin2hex, if_pos fits, body]
  refine printLoop_blocks blocks sound pad 4096 ?_
  simp only [ezImage, List.length_append, ezHeader, ezTerminator, List.length_cons, List.length_nil] at fits
  omega

theorem digit_hexChar (d : ℕ) (small : d < 16) : digit (hexChar d) = some d := by
  have all : ∀ d < 16, digit (hexChar d) = some d := by decide
  exact all d small

theorem hexChar_black (d : ℕ) (small : d < 16) : isspace (hexChar d) = false := by
  have all : ∀ d < 16, isspace (hexChar d) = false := by decide
  exact all d small

theorem digitsX_one (fuel n : ℕ) (small : n < 16) : digitsX (fuel + 1) n = [hexChar n] := if_pos small

theorem digitsX_more (fuel n : ℕ) (big : 16 ≤ n) : digitsX (fuel + 1) n = digitsX fuel (n / 16) ++ [hexChar (n % 16)] :=
  if_neg (by omega)

theorem printX_two (n : ℕ) (small : n < 256) : printX 2 n = [hexChar (n / 16), hexChar (n % 16)] := by
  by_cases one : n < 16
  · rw [printX, digitsX_one _ _ one, Nat.div_eq_of_lt one, Nat.mod_eq_of_lt one]
    rfl
  · rw [printX, digitsX_more _ _ (by omega), digitsX_one _ _ (by omega)]
    rfl

theorem printX_three (n : ℕ) (big : 256 ≤ n) (small : n < 4096) : (printX 2 n).length = 3 := by
  rw [printX, digitsX_more _ _ (by omega), digitsX_more _ _ (by omega), digitsX_one _ _ (by omega)]
  rfl

theorem printX_four (n : ℕ) (small : n < 65536) :
    printX 4 n = [hexChar (n / 4096), hexChar (n / 256 % 16), hexChar (n / 16 % 16), hexChar (n % 16)] := by
  have second : n / 16 / 16 = n / 256 := Nat.div_div_eq_div_mul n 16 16
  have third : n / 256 / 16 = n / 4096 := Nat.div_div_eq_div_mul n 256 16
  by_cases one : n < 16
  · rw [printX, digitsX_one _ _ one, show n / 4096 = 0 by omega, show n / 256 % 16 = 0 by omega,
      show n / 16 % 16 = 0 by omega, Nat.mod_eq_of_lt one]
    rfl
  by_cases two : n < 256
  · rw [printX, digitsX_more _ _ (by omega), digitsX_one _ _ (by omega), show n / 4096 = 0 by omega,
      show n / 256 % 16 = 0 by omega, show n / 16 % 16 = n / 16 by omega]
    rfl
  by_cases three : n < 4096
  · rw [printX, digitsX_more _ _ (by omega), digitsX_more _ _ (by omega), digitsX_one _ _ (by omega), second,
      show n / 4096 = 0 by omega, show n / 256 % 16 = n / 256 by omega]
    rfl
  · rw [printX, digitsX_more _ _ (by omega), digitsX_more _ _ (by omega), digitsX_more _ _ (by omega),
      digitsX_one _ _ (by omega), second, third]
    rfl

theorem bytes_digits (x y : ℕ) (high : x < 16) (low : y < 16) (rest : List (BitVec 8)) :
    bytes (hexChar x :: hexChar y :: rest) = (bytes rest).map (BitVec.ofNat 8 (16 * x + y) :: ·) := by
  simp only [bytes, digit_hexChar x high, digit_hexChar y low]

theorem bytes_two (n : ℕ) (small : n < 256) (rest : List (BitVec 8)) :
    bytes (printX 2 n ++ rest) = (bytes rest).map (BitVec.ofNat 8 n :: ·) := by
  rw [printX_two n small]
  refine (bytes_digits (n / 16) (n % 16) (by omega) (by omega) rest).trans ?_
  rw [Nat.div_add_mod n 16]

theorem bytes_four (w : BitVec 16) (rest : List (BitVec 8)) :
    bytes (printX 4 w.toNat ++ rest) = (bytes rest).map (w.extractLsb' 8 8 :: w.extractLsb' 0 8 :: ·) := by
  have small := w.isLt
  have high : BitVec.ofNat 8 (16 * (w.toNat / 4096) + w.toNat / 256 % 16) = w.extractLsb' 8 8 := by
    apply BitVec.eq_of_toNat_eq
    rw [BitVec.extractLsb'_toNat, Nat.shiftRight_eq_div_pow, BitVec.toNat_ofNat]
    omega
  have low : BitVec.ofNat 8 (16 * (w.toNat / 16 % 16) + w.toNat % 16) = w.extractLsb' 0 8 := by
    apply BitVec.eq_of_toNat_eq
    rw [BitVec.extractLsb'_toNat, Nat.shiftRight_zero, BitVec.toNat_ofNat]
    omega
  rw [printX_four w.toNat small]
  simp only [List.cons_append, List.nil_append]
  rw [bytes_digits _ _ (by omega) (by omega), bytes_digits _ _ (by omega) (by omega), high, low, Option.map_map]
  rfl

theorem bytes_data (data rest : List (BitVec 8)) :
    bytes (data.flatMap (fun byte => printX 2 byte.toNat) ++ rest) = (bytes rest).map (data ++ ·) := by
  induction data with
  | nil => simp
  | cons b more ih =>
      rw [List.flatMap_cons, List.append_assoc, bytes_two _ b.isLt, ih, Option.map_map, BitVec.ofNat_toNat,
        BitVec.setWidth_eq]
      rfl

theorem data_digits (data : List (BitVec 8)) :
    (data.flatMap (fun byte => printX 2 byte.toNat)).length = 2 * data.length := by
  induction data with
  | nil => rfl
  | cons b more ih =>
      rw [List.flatMap_cons, List.length_append, ih, printX_two _ b.isLt, List.length_cons (a := b)]
      simp only [List.length_cons, List.length_nil]
      omega

theorem checkByte_toNat (sum : BitVec 16) : (checkByte sum).toNat = (65536 - sum.toNat) % 256 := by
  have mask : (0xff : BitVec 32).toNat = 2 ^ 8 - 1 := by decide
  have small := sum.isLt
  rw [checkByte, BitVec.toNat_and, mask, Nat.and_two_pow_sub_one_eq_mod, BitVec.toNat_sub, BitVec.toNat_setWidth]
  change (2 ^ 32 - sum.toNat % 2 ^ 32 + 256) % 2 ^ 32 % 2 ^ 8 = _
  omega

theorem recordSum_byte (len addr : BitVec 16) (data : List (BitVec 8)) :
    (recordSum len addr data).setWidth 8 = len.setWidth 8 + addr.setWidth 8 + data.sum := by
  have fold (start : BitVec 16) : (data.foldl (fun sum byte => sum + byte.setWidth 16) start).setWidth 8 =
      start.setWidth 8 + data.sum := by
    induction data generalizing start with
    | nil => simp
    | cons b more ih =>
        rw [List.foldl_cons, ih, BitVec.setWidth_add _ _ (by decide), List.sum_cons, BitVec.setWidth_setWidth_of_le _ (by decide),
          BitVec.setWidth_eq, BitVec.add_assoc]
  rw [recordSum, fold, BitVec.setWidth_add _ _ (by decide)]

def recordDigits (len addr : BitVec 16) (data : List (BitVec 8)) : List (BitVec 8) :=
  printX 2 len.toNat ++ (printX 4 addr.toNat ++ ([0x30, 0x30] ++ (data.flatMap (fun byte => printX 2 byte.toNat) ++
    printX 2 (checkByte (recordSum len addr data)).toNat)))

theorem strip_printRecord (len addr : BitVec 16) (data : List (BitVec 8)) :
    strip (printRecord len addr data) = 0x3a :: recordDigits len addr data := by
  have check : (checkByte (recordSum len addr data)).toNat < 256 := by
    rw [checkByte_toNat]
    omega
  obtain ⟨front, split⟩ : ∃ front, 0x3a :: recordDigits len addr data =
      front ++ [hexChar ((checkByte (recordSum len addr data)).toNat % 16)] := by
    refine ⟨0x3a :: (printX 2 len.toNat ++ (printX 4 addr.toNat ++ ([0x30, 0x30] ++
      (data.flatMap (fun byte => printX 2 byte.toNat) ++
        [hexChar ((checkByte (recordSum len addr data)).toNat / 16)])))), ?_⟩
    rw [recordDigits, printX_two _ check]
    simp
  have line : printRecord len addr data = (0x3a :: recordDigits len addr data) ++ [0x0a] := rfl
  rw [line, strip, List.rdropWhile_concat_pos _ _ _ (by decide), split,
    List.rdropWhile_concat_neg _ _ _ (by rw [hexChar_black _ (by omega)]; decide)]

theorem bytes_recordDigits (len addr : BitVec 16) (data : List (BitVec 8)) (short : len.toNat ≤ 255) :
    bytes (recordDigits len addr data) = some (BitVec.ofNat 8 len.toNat :: addr.extractLsb' 8 8 :: addr.extractLsb' 0 8 ::
      0 :: (data ++ [BitVec.ofNat 8 (checkByte (recordSum len addr data)).toNat])) := by
  have check : (checkByte (recordSum len addr data)).toNat < 256 := by
    rw [checkByte_toNat]
    omega
  have zero (rest : List (BitVec 8)) : bytes ([0x30, 0x30] ++ rest) = (bytes rest).map (0 :: ·) :=
    bytes_digits 0 0 (by decide) (by decide) rest
  have last := bytes_two _ check []
  rw [List.append_nil] at last
  rw [recordDigits, bytes_two _ (by omega), bytes_four, zero, bytes_data, last]
  rfl

theorem odd_digits (b : Block) (sound : b.Sound) (long : 256 ≤ b.len.toNat) (parsed : List (BitVec 8)) :
    bytes (recordDigits b.len b.poke.off b.poke.data) ≠ some parsed := by
  intro decoded
  have bound := sound.bound
  have check : (checkByte (recordSum b.len b.poke.off b.poke.data)).toNat < 256 := by
    rw [checkByte_toNat]
    omega
  have even := bytes_length _ parsed decoded
  rw [recordDigits, List.length_append, List.length_append, List.length_append, List.length_append,
    printX_three _ long (by omega), data_digits, printX_two _ check, printX_four _ b.poke.off.isLt] at even
  simp only [List.length_cons, List.length_nil] at even
  omega

-- The sum of a printed record is the high byte of its address, which the
-- checksum takes for a part of the 16-bit sum.
theorem printed_sum (b : Block) (sound : b.Sound) :
    (fields 0 b.poke).sum + BitVec.ofNat 8 (checkByte (recordSum b.len b.poke.off b.poke.data)).toNat =
      b.poke.off.extractLsb' 8 8 := by
  have size : b.poke.data.length = b.len.toNat := by rw [b.poke_sound sound]; exact sound.size
  have check : BitVec.ofNat 8 (checkByte (recordSum b.len b.poke.off b.poke.data)).toNat =
      -((recordSum b.len b.poke.off b.poke.data).setWidth 8) := by
    apply BitVec.eq_of_toNat_eq
    rw [checkByte_toNat, BitVec.toNat_ofNat, BitVec.toNat_neg, BitVec.toNat_setWidth]
    have small := (recordSum b.len b.poke.off b.poke.data).isLt
    omega
  have low : b.poke.off.setWidth 8 = b.poke.off.extractLsb' 0 8 := by
    apply BitVec.eq_of_toNat_eq
    rw [BitVec.toNat_setWidth, BitVec.extractLsb'_toNat, Nat.shiftRight_zero]
  rw [check, recordSum_byte, fields, size, BitVec.ofNat_toNat, low]
  simp only [List.sum_cons]
  generalize b.len.setWidth 8 = n
  generalize b.poke.off.extractLsb' 8 8 = high
  generalize b.poke.off.extractLsb' 0 8 = low
  generalize b.poke.data.sum = rest
  grind

theorem printed_record_iff (b : Block) (sound : b.Sound) (kind : BitVec 8) (r : Record) :
    IsRecord b.print kind r ↔ kind = 0 ∧ r = b.poke ∧ b.len.toNat ≤ 255 ∧ b.poke.off.extractLsb' 8 8 = 0 := by
  have size : b.poke.data.length = b.len.toNat := by rw [b.poke_sound sound]; exact sound.size
  have line : strip b.print = 0x3a :: recordDigits b.len b.poke.off b.poke.data := strip_printRecord ..
  have total := printed_sum b sound
  constructor
  · rintro ⟨_, text, check, stripped, decoded, sum⟩
    obtain rfl : recordDigits b.len b.poke.off b.poke.data = text := (List.cons.inj (line.symm.trans stripped)).2
    by_cases short : b.len.toNat ≤ 255
    · rw [bytes_recordDigits _ _ _ short, fields] at decoded
      simp only [List.cons_append, Option.some.injEq, List.cons.injEq] at decoded
      obtain ⟨_, high, low, rfl, rest⟩ := decoded
      obtain ⟨data, last⟩ := List.append_inj' rest rfl
      have off : b.poke.off = r.off := by rw [← halves_append b.poke.off, high, low, halves_append]
      obtain rfl : b.poke = r := by
        cases r
        exact congrArg₂ Record.mk off data
      rw [(List.cons.inj last).1] at total
      exact ⟨rfl, rfl, short, total.symm.trans sum⟩
    · exact absurd decoded (odd_digits b sound (by omega) _)
  · rintro ⟨rfl, rfl, short, high⟩
    refine ⟨size ▸ short, _, _, line, ?_, total.trans high⟩
    rw [bytes_recordDigits _ _ _ short, fields, size]
    rfl

structure Block.Prints (b : Block) : Prop where
  short : b.len.toNat ≤ 255
  low : b.off.toNat < 256

theorem high_byte_zero (b : Block) (sound : b.Sound) : b.poke.off.extractLsb' 8 8 = 0 ↔ b.off.toNat < 256 := by
  have small := sound.off
  have off : b.poke.off.toNat = b.off.toNat := by
    rw [Block.poke, BitVec.toNat_setWidth]
    exact Nat.mod_eq_of_lt small
  rw [← BitVec.toNat_inj, BitVec.extractLsb'_toNat, Nat.shiftRight_eq_div_pow, off]
  change b.off.toNat / 256 % 256 = 0 ↔ _
  omega

theorem print_colon (b : Block) : b.print.head? = some 0x3a := rfl

theorem printed_file (blocks : List Block) (sound : ∀ b ∈ blocks, b.Sound) (records : List Record)
    (file : File true (blocks.map Block.print ++ [endRecord]) records) :
    (∀ b ∈ blocks, b.Prints) ∧ records = blocks.map Block.poke := by
  induction blocks generalizing records with
  | nil =>
      cases file with
      | ended _ r _ record => exact ⟨by simp, rfl⟩
      | comment _ _ _ _ hash more => cases more
      | data _ _ r _ _ record more => cases more
  | cons b rest ih =>
      have here := sound b (List.mem_cons_self ..)
      cases file with
      | ended _ r _ record => exact absurd ((printed_record_iff b here 1 r).mp record).1 (by decide)
      | comment _ _ _ _ hash more => exact absurd ((print_colon b).symm.trans hash) (by decide)
      | data _ _ r _ records record more =>
          obtain ⟨_, rfl, short, high⟩ := (printed_record_iff b here 0 r).mp record
          obtain ⟨others, rfl⟩ := ih (fun c member => sound c (List.mem_cons_of_mem _ member)) records more
          refine ⟨fun c member => ?_, rfl⟩
          rcases List.mem_cons.mp member with rfl | later
          · exact ⟨short, (high_byte_zero c here).mp high⟩
          · exact others c later

theorem endRecord_record : IsRecord endRecord 1 ⟨0, []⟩ :=
  ⟨by decide, [0x30, 0x30, 0x30, 0x30, 0x30, 0x30, 0x30, 0x31, 0x46, 0x46], 0xff, by decide, by decide, by decide⟩

theorem file_of_prints (blocks : List Block) (sound : ∀ b ∈ blocks, b.Sound) (prints : ∀ b ∈ blocks, b.Prints) :
    File true (blocks.map Block.print ++ [endRecord]) (blocks.map Block.poke) := by
  induction blocks with
  | nil => exact .ended _ _ _ endRecord_record
  | cons b rest ih =>
      have here := sound b (List.mem_cons_self ..)
      have good := prints b (List.mem_cons_self ..)
      refine .data _ _ _ _ _ ((printed_record_iff b here 0 b.poke).mpr ⟨rfl, rfl, good.short, ?_⟩) ?_
      · exact (high_byte_zero b here).mpr good.low
      · exact ih (fun c member => sound c (List.mem_cons_of_mem _ member))
          fun c member => prints c (List.mem_cons_of_mem _ member)

def Follows (r : Record) : List Record → Prop
  | [] => False
  | q :: _ => r.off.toNat = q.off.toNat + q.data.length

instance (r : Record) (older : List Record) : Decidable (Follows r older) :=
  match older with
  | [] => .isFalse id
  | q :: _ => inferInstanceAs (Decidable (r.off.toNat = q.off.toNat + q.data.length))

def runBytes : List Record → ℕ
  | [] => 0
  | r :: older => r.data.length + if Follows r older then runBytes older else 0

theorem runBytes_alone (r : Record) (older : List Record) (alone : ¬ Follows r older) :
    runBytes (r :: older) = r.data.length := by
  rw [runBytes, if_neg alone, Nat.add_zero]

structure RunFits (r : Record) (older : List Record) : Prop where
  bytes : runBytes (r :: older) ≤ 255
  start : ¬ Follows r older → r.off.toNat < 256

def RunsFit (records : List Record) : Prop := ∀ r older, r :: older <:+ records.reverse → RunFits r older

def blocksOf (newest : List Record) : List Block := newest.foldr (fun r blocks => addRecord blocks r) []

structure HeadRun (pblock : Block) (q : Record) (older : List Record) : Prop where
  bytes : pblock.len.toNat = runBytes (q :: older)
  ends : pblock.off.toNat + pblock.len.toNat = q.off.toNat + q.data.length

theorem record_len (r : Record) (short : r.data.length ≤ 255) :
    ((BitVec.ofNat 64 r.data.length).setWidth 16).toNat = r.data.length := by
  rw [BitVec.toNat_setWidth, BitVec.toNat_ofNat]
  omega

theorem addRecord_cons (pblock : Block) (older : List Block) (r : Record) (sound : pblock.Sound)
    (short : r.data.length ≤ 255) :
    (∃ merged, addRecord (pblock :: older) r = merged :: older ∧ merged.off = pblock.off ∧
      merged.len.toNat = pblock.len.toNat + r.data.length ∧ r.off.toNat = pblock.off.toNat + pblock.len.toNat ∧
      pblock.len.toNat < 512) ∨
    (∃ fresh, addRecord (pblock :: older) r = fresh :: pblock :: older ∧ fresh.off.toNat = r.off.toNat ∧
      fresh.len.toNat = r.data.length ∧
      ¬ (r.off.toNat = pblock.off.toNat + pblock.len.toNat ∧ pblock.len.toNat < 512)) := by
  have length := record_len r short
  have off := sound.off
  have bound := sound.bound
  have same : r.off.setWidth 32 = pblock.off + pblock.len.setWidth 32 ↔
      r.off.toNat = pblock.off.toNat + pblock.len.toNat := by
    generalize pblock.off = o at off
    generalize pblock.len = n at bound
    bv_omega
  have room : pblock.len < 512 ↔ pblock.len.toNat < 512 := Iff.rfl
  unfold addRecord addData
  simp only [Bool.and_eq_true, beq_iff_eq, decide_eq_true_eq, same, room]
  split
  · rename_i append
    refine .inl ⟨_, rfl, rfl, ?_, append⟩
    rw [BitVec.toNat_add, length]
    exact Nat.mod_eq_of_lt (by omega)
  · rename_i apart
    refine .inr ⟨_, rfl, ?_, length, apart⟩
    rw [BitVec.toNat_setWidth]
    exact Nat.mod_eq_of_lt (by have := r.off.isLt; omega)

def Headed (blocks : List Block) : List Record → Prop
  | [] => blocks = []
  | q :: older => ∃ pblock rest, blocks = pblock :: rest ∧ HeadRun pblock q older

theorem addRecord_nil (r : Record) (short : r.data.length ≤ 255) :
    ∃ fresh, addRecord [] r = [fresh] ∧ fresh.off.toNat = r.off.toNat ∧ fresh.len.toNat = r.data.length := by
  refine ⟨_, rfl, ?_, record_len r short⟩
  rw [BitVec.toNat_setWidth]
  exact Nat.mod_eq_of_lt (by have := r.off.isLt; omega)

theorem prints_of_add (blocks : List Block) (sound : ∀ b ∈ blocks, b.Sound) (r : Record) (short : r.data.length ≤ 255)
    (prints : ∀ b ∈ addRecord blocks r, b.Prints) : ∀ b ∈ blocks, b.Prints := by
  cases blocks with
  | nil => simp
  | cons pblock older =>
      rcases addRecord_cons pblock older r (sound pblock (List.mem_cons_self ..)) short with
        ⟨merged, added, off, len, _, _⟩ | ⟨fresh, added, _, _, _⟩
      · rw [added] at prints
        have whole := prints merged (List.mem_cons_self ..)
        intro b member
        rcases List.mem_cons.mp member with rfl | later
        · exact ⟨by have := whole.short; omega, off ▸ whole.low⟩
        · exact prints b (List.mem_cons_of_mem _ later)
      · rw [added] at prints
        exact fun b member => prints b (List.mem_cons_of_mem _ member)

theorem add_prints_iff (blocks : List Block) (sound : ∀ b ∈ blocks, b.Sound) (prints : ∀ b ∈ blocks, b.Prints)
    (older : List Record) (head : Headed blocks older) (r : Record) (short : r.data.length ≤ 255) :
    ((∀ b ∈ addRecord blocks r, b.Prints) ↔ RunFits r older) ∧ Headed (addRecord blocks r) (r :: older) := by
  cases older with
  | nil =>
      obtain rfl : blocks = [] := head
      obtain ⟨fresh, added, off, len⟩ := addRecord_nil r short
      rw [added]
      have bytes := runBytes_alone r [] id
      refine ⟨?_, fresh, [], rfl, len.trans bytes.symm, by rw [off, len]⟩
      simp only [List.mem_singleton, forall_eq]
      constructor
      · exact fun good => ⟨bytes ▸ short, fun _ => off ▸ good.low⟩
      · exact fun fits => ⟨len ▸ short, off ▸ fits.start id⟩
  | cons q more =>
      obtain ⟨pblock, rest, rfl, run⟩ := head
      have before := sound pblock (List.mem_cons_self ..)
      have good := prints pblock (List.mem_cons_self ..)
      have small := good.short
      have follows : Follows r (q :: more) ↔ r.off.toNat = pblock.off.toNat + pblock.len.toNat := by
        rw [run.ends]
        rfl
      rcases addRecord_cons pblock rest r before short with
        ⟨merged, added, off, len, place, _⟩ | ⟨fresh, added, off, len, apart⟩
      · have bytes : merged.len.toNat = runBytes (r :: q :: more) := by
          rw [len, runBytes, if_pos (follows.mpr place), run.bytes]
          omega
        rw [added]
        refine ⟨?_, merged, rest, rfl, bytes, by rw [off, len]; omega⟩
        constructor
        · intro all
          exact ⟨bytes ▸ (all merged (List.mem_cons_self ..)).short, fun alone => absurd (follows.mpr place) alone⟩
        · intro fits b member
          rcases List.mem_cons.mp member with rfl | later
          · exact ⟨bytes ▸ fits.bytes, off ▸ good.low⟩
          · exact prints b (List.mem_cons_of_mem _ later)
      · have alone : ¬ Follows r (q :: more) := fun here => apart ⟨follows.mp here, by omega⟩
        have bytes : fresh.len.toNat = runBytes (r :: q :: more) := len.trans (runBytes_alone r _ alone).symm
        rw [added]
        refine ⟨?_, fresh, _, rfl, bytes, by rw [off, len]⟩
        constructor
        · intro all
          exact ⟨bytes ▸ (all fresh (List.mem_cons_self ..)).short,
            fun _ => off ▸ (all fresh (List.mem_cons_self ..)).low⟩
        · intro fits b member
          rcases List.mem_cons.mp member with rfl | later
          · exact ⟨bytes ▸ fits.bytes, off ▸ fits.start alone⟩
          · exact prints b later

theorem blocksOf_sound (newest : List Record) (short : ∀ r ∈ newest, r.data.length ≤ 255) :
    ∀ b ∈ blocksOf newest, b.Sound := by
  induction newest with
  | nil => simp [blocksOf]
  | cons r older ih =>
      exact addRecord_sound _ (ih fun s member => short s (List.mem_cons_of_mem _ member)) r
        (short r (List.mem_cons_self ..))

theorem blocksOf_prints_iff (newest : List Record) (short : ∀ r ∈ newest, r.data.length ≤ 255) :
    ((∀ b ∈ blocksOf newest, b.Prints) ↔ ∀ r older, r :: older <:+ newest → RunFits r older) ∧
      ((∀ b ∈ blocksOf newest, b.Prints) → Headed (blocksOf newest) newest) := by
  induction newest with
  | nil => exact ⟨by simp [blocksOf], fun _ => rfl⟩
  | cons r older ih =>
      have here := short r (List.mem_cons_self ..)
      have others : ∀ s ∈ older, s.data.length ≤ 255 := fun s member => short s (List.mem_cons_of_mem _ member)
      have sound := blocksOf_sound older others
      obtain ⟨fit, headed⟩ := ih others
      have step (prints : ∀ b ∈ blocksOf older, b.Prints) :=
        add_prints_iff _ sound prints older (headed prints) r here
      have back : (∀ b ∈ blocksOf (r :: older), b.Prints) → ∀ b ∈ blocksOf older, b.Prints :=
        prints_of_add _ sound r here
      refine ⟨⟨fun all s rest suffix => ?_, fun fits => ?_⟩, fun all => (step (back all)).2⟩
      · rcases List.suffix_cons_iff.mp suffix with same | within
        · obtain ⟨rfl, rfl⟩ := List.cons.inj same
          exact (step (back all)).1.mp all
        · exact fit.mp (back all) s rest within
      · have prints := fit.mpr fun s rest suffix => fits s rest (suffix.trans (List.suffix_cons r older))
        exact (step prints).1.mpr (fits r older List.suffix_rfl)

theorem getD_injective (x y : Option (BitVec 8)) (same : ∀ m, x.getD m = y.getD m) : x = y := by
  cases x with
  | none =>
      cases y with
      | none => rfl
      | some b => exact absurd (same (b + 1)) (by simp)
  | some a =>
      cases y with
      | none => exact absurd (same (a + 1)).symm (by simp)
      | some b => exact congrArg some (same 0)

theorem denotes_blocks (records : List Record) (short : ∀ r ∈ records, r.data.length ≤ 255) (disjoint : Disjoint records)
    (a : BitVec 16) : denotes ((records.foldl addRecord []).map Block.poke) a = denotes records a := by
  have once : denotes records a = records.findSome? (Record.byteAt a) := findSome_disjoint records disjoint a
  rw [once]
  refine getD_injective _ _ fun m => ?_
  have reversed := congrFun (poke_records records short [] (by simp) fun _ => m) a
  rw [apply_denotes] at reversed
  refine reversed.trans ?_
  change apply (fun _ => m) records.reverse a = _
  rw [apply_denotes, denotes, List.reverse_reverse]

theorem eeprom_round_trip_iff (closed : Bool) (stale : ℕ → BitVec 8) (lines : List LineIn) (records : List Record)
    (file : File closed (lines.map LineIn.text) records) (accepted : (ezusbLoadImage stale lines).1 = 0)
    (disjoint : Disjoint records) (pad : List (BitVec 8))
    (fits : (ezImage (ezusbLoadImage stale lines).2 ++ pad).length = 4096) :
    (∃ out printed, bin2hex (ezImage (ezusbLoadImage stale lines).2 ++ pad) = some out ∧ File true out printed ∧
      ∀ a, denotes printed a = denotes records a) ↔ RunsFit records := by
  have short := file_short closed _ records file
  have blocks : (ezusbLoadImage stale lines).2 = records.foldl addRecord [] :=
    load_file closed _ records file stale lines rfl [] accepted
  have newest : records.foldl addRecord [] = blocksOf records.reverse := by
    rw [blocksOf, List.foldr_reverse]
  have shortNewest : ∀ r ∈ records.reverse, r.data.length ≤ 255 := fun r member => short r (List.mem_reverse.mp member)
  have sound := blocksOf_sound records.reverse shortNewest
  have prints := (blocksOf_prints_iff records.reverse shortNewest).1
  rw [blocks] at fits ⊢
  rw [← newest] at sound prints
  rw [bin2hex_image _ sound pad fits]
  constructor
  · rintro ⟨out, printed, result, valid, _⟩
    obtain rfl := Option.some.inj result
    exact prints.mp (printed_file _ sound printed valid).1
  · intro runs
    exact ⟨_, _, rfl, file_of_prints _ sound (prints.mpr runs), denotes_blocks records short disjoint⟩

-- ":0100400009B6"
def apartLine : LineIn where
  text := [0x3a, 0x30, 0x31, 0x30, 0x30, 0x34, 0x30, 0x30, 0x30, 0x30, 0x39, 0x42, 0x36, 0x0a]
  allocs := true
  nonempty := by decide
  short := by decide
  plain := by decide

theorem apart_record : IsRecord apartLine.text 0 ⟨0x40, [9]⟩ :=
  ⟨by decide, [0x30, 0x31, 0x30, 0x30, 0x34, 0x30, 0x30, 0x30, 0x30, 0x39, 0x42, 0x36], 0xb6,
    by decide, by decide, by decide⟩

theorem apart_disjoint : Disjoint [⟨0, [1, 2]⟩, ⟨2, [3]⟩, ⟨0x40, [9]⟩] := by
  refine .cons ?_ (.cons ?_ (List.pairwise_singleton _ _))
  · intro s member
    rcases List.mem_pair.mp member with rfl | rfl
    · exact byteAt_apart _ _ (by decide) (by decide)
    · exact byteAt_apart _ _ (by decide) (by decide)
  · intro s member
    obtain rfl := List.mem_singleton.mp member
    exact byteAt_apart _ _ (by decide) (by decide)

theorem merged_runs : RunsFit [⟨0, [1, 2]⟩, ⟨2, [3]⟩, ⟨0x40, [9]⟩] := by
  intro r older suffix
  have among : r :: older = [⟨0x40, [9]⟩, ⟨2, [3]⟩, ⟨0, [1, 2]⟩] ∨ r :: older = [⟨2, [3]⟩, ⟨0, [1, 2]⟩] ∨
      r :: older = [⟨0, [1, 2]⟩] := by
    simpa [List.suffix_cons_iff] using suffix
  rcases among with same | same | same
  all_goals
    cases same
    exact ⟨by decide, by decide⟩

theorem eeprom_round_trip_merged : ∃ out printed,
    bin2hex (ezImage (ezusbLoadImage (fun _ => 0) [pairLine, nextLine, apartLine, endLine]).2 ++ List.replicate 4072 0) = some out ∧
      File true out printed ∧ ∀ a, denotes printed a = denotes [⟨0, [1, 2]⟩, ⟨2, [3]⟩, ⟨0x40, [9]⟩] a :=
  (eeprom_round_trip_iff true (fun _ => 0) [pairLine, nextLine, apartLine, endLine] [⟨0, [1, 2]⟩, ⟨2, [3]⟩, ⟨0x40, [9]⟩]
    (.data _ _ _ _ _ pair_record (.data _ _ _ _ _ next_record (.data _ _ _ _ _ apart_record (.ended _ _ _ end_record))))
    (by decide +kernel) apart_disjoint (List.replicate 4072 0)
    (by rw [List.length_append, List.length_replicate]; decide +kernel)).mpr merged_runs

-- ":0101000001FD": one byte at address 0x0100.
def highLine : LineIn where
  text := [0x3a, 0x30, 0x31, 0x30, 0x31, 0x30, 0x30, 0x30, 0x30, 0x30, 0x31, 0x46, 0x44, 0x0a]
  allocs := true
  nonempty := by decide
  short := by decide
  plain := by decide

theorem high_record : IsRecord highLine.text 0 ⟨0x100, [1]⟩ :=
  ⟨by decide, [0x30, 0x31, 0x30, 0x31, 0x30, 0x30, 0x30, 0x30, 0x30, 0x31, 0x46, 0x44], 0xfd,
    by decide, by decide, by decide⟩

-- 128 zeros at 0x0000 and 128 at 0x0080: ":80000000" and ":80008000".
def zerosLine : LineIn where
  text := [0x3a, 0x38, 0x30, 0x30, 0x30, 0x30, 0x30, 0x30, 0x30] ++ List.replicate 256 0x30 ++ [0x38, 0x30, 0x0a]
  allocs := true
  nonempty := by decide
  short := by decide +kernel
  plain := by decide +kernel

def moreZerosLine : LineIn where
  text := [0x3a, 0x38, 0x30, 0x30, 0x30, 0x38, 0x30, 0x30, 0x30] ++ List.replicate 256 0x30 ++ [0x30, 0x30, 0x0a]
  allocs := true
  nonempty := by decide
  short := by decide +kernel
  plain := by decide +kernel

theorem zeros_record : IsRecord zerosLine.text 0 ⟨0, List.replicate 128 0⟩ :=
  ⟨by decide +kernel, [0x38, 0x30, 0x30, 0x30, 0x30, 0x30, 0x30, 0x30] ++ List.replicate 256 0x30 ++ [0x38, 0x30], 0x80,
    by decide +kernel, by decide +kernel, by decide +kernel⟩

theorem more_zeros_record : IsRecord moreZerosLine.text 0 ⟨0x80, List.replicate 128 0⟩ :=
  ⟨by decide +kernel, [0x38, 0x30, 0x30, 0x30, 0x38, 0x30, 0x30, 0x30] ++ List.replicate 256 0x30 ++ [0x30, 0x30], 0x00,
    by decide +kernel, by decide +kernel, by decide +kernel⟩

structure Misprinted (lines : List LineIn) (records : List Record) (pad : List (BitVec 8)) : Prop where
  file : File true (lines.map LineIn.text) records
  accepted : (ezusbLoadImage (fun _ => 0) lines).1 = 0
  disjoint : Disjoint records
  fits : (ezImage (ezusbLoadImage (fun _ => 0) lines).2 ++ pad).length = 4096
  lost : ¬ ∃ out printed, bin2hex (ezImage (ezusbLoadImage (fun _ => 0) lines).2 ++ pad) = some out ∧
    File true out printed ∧ ∀ a, denotes printed a = denotes records a

theorem misprinted_of_block (lines : List LineIn) (records : List Record) (pad : List (BitVec 8)) (b : Block)
    (file : File true (lines.map LineIn.text) records) (loaded : ezusbLoadImage (fun _ => 0) lines = (0, [b]))
    (disjoint : Disjoint records) (fits : (ezImage [b] ++ pad).length = 4096) (sound : b.Sound) (unprinted : ¬ b.Prints) :
    Misprinted lines records pad := by
  refine ⟨file, by rw [loaded], disjoint, by rw [loaded]; exact fits, ?_⟩
  rw [loaded]
  rintro ⟨out, printed, result, valid, _⟩
  have all : ∀ c ∈ [b], c.Sound := fun c member => List.mem_singleton.mp member ▸ sound
  obtain rfl := Option.some.inj ((bin2hex_image _ all _ fits).symm.trans result)
  exact unprinted ((printed_file _ all printed valid).1 b (List.mem_singleton_self b))

-- The first record comes out with the checksum FE in place of FD, the others as
-- one with the length 100.
theorem files_misprinted :
    Misprinted [highLine, endLine] [⟨0x100, [1]⟩] (List.replicate 4079 0) ∧
    Misprinted [zerosLine, moreZerosLine, endLine] [⟨0, List.replicate 128 0⟩, ⟨0x80, List.replicate 128 0⟩]
      (List.replicate 3824 0) := by
  constructor
  · refine misprinted_of_block _ _ _ ⟨0x100, 1, [1]⟩ (.data _ _ _ _ _ high_record (.ended _ _ _ end_record))
      (by decide +kernel) (List.pairwise_singleton _ _) ?_ ⟨rfl, by decide, by decide⟩
      fun prints => absurd prints.low (by decide)
    rw [List.length_append, List.length_replicate]
    decide
  · have disjoint : Disjoint [⟨0, List.replicate 128 0⟩, ⟨0x80, List.replicate 128 0⟩] := by
      refine List.pairwise_pair.mpr (byteAt_apart _ _ ?_ ?_) <;> decide +kernel
    refine misprinted_of_block _ _ _ ⟨0, 256, List.replicate 256 0⟩
      (.data _ _ _ _ _ zeros_record (.data _ _ _ _ _ more_zeros_record (.ended _ _ _ end_record)))
      (by decide +kernel) disjoint ?_ ⟨List.length_replicate, by decide, by decide⟩
      fun prints => absurd prints.short (by decide)
    rw [List.length_append, List.length_replicate]
    decide +kernel

end SsAdma
