import SsAdma.SystemMem

set_option autoImplicit false

namespace SsAdma

attribute [-simp] BitVec.getLsbD_eq_getElem

-- The constants of lzf_chip.h, by the bits the chip looks at, and the software
-- compressor, which never writes behind the room it is given.
structure LzfChip where
  sgLast : BitVec 32
  dcMemcpy : BitVec 32
  dcUncompress : BitVec 32
  dcCtrl : BitVec 32
  dcCont : BitVec 32
  lzsCompress : List (BitVec 8) → ℕ → List (BitVec 8)
  last : sgLast.getLsbD 20 = true
  length : sgLast.extractLsb' 3 16 = 0
  copies : ∀ bit ∈ [1, 2, 4], dcMemcpy.getLsbD bit = true
  single : (dcMemcpy ||| dcCtrl).getLsbD 10 = false
  cont : dcCont.getLsbD 10 = true
  room : ∀ bytes cnt, (lzsCompress bytes cnt).length ≤ cnt

structure MapState (P : Type) where
  driver : Driver P
  bytesToGo : ℕ
  prev : Option ℕ
  res : ℕ

section

variable {P : Type}

def Driver.peek (d : Driver P) (adr : ℕ) : BitVec 32 := d.mem.peek adr

def Driver.mark (chip : LzfChip) (d : Driver P) (b : ℕ) : Driver P := d.poke b (d.peek b ||| chip.sgLast)

def mapStep (t : Allocator P) (addr thisLen offset : ℕ) (s : MapState P) : Option (MapState P) :=
  match t.mallocAlign s.driver 32 32 with
  | none => none
  | some (hwAddr, d) =>
      let d := (d.poke (hwAddr + 8) 0).poke hwAddr (BitVec.ofNat 32 thisLen)
      let d := d.poke (hwAddr + 4) (BitVec.ofNat 32 (addr + offset))
      match s.prev with
      | none => some ⟨d, s.bytesToGo - thisLen, some hwAddr, hwAddr⟩
      | some prev => some ⟨d.poke (prev + 8) (BitVec.ofNat 32 hwAddr), s.bytesToGo - thisLen, some hwAddr, s.res⟩

-- A descriptor takes at least one byte, so this_mapping_len bounds the rounds.
def mapLoop (t : Allocator P) (maxSgSize addr : ℕ) : (rounds thisMappingLen offset : ℕ) → MapState P → Option (MapState P)
  | 0, _, _, s => some s
  | rounds + 1, thisMappingLen, offset, s =>
      if 0 < thisMappingLen then
        let thisLen := if thisMappingLen > maxSgSize then maxSgSize else thisMappingLen
        (mapStep t addr thisLen offset s).bind (mapLoop t maxSgSize addr rounds (thisMappingLen - thisLen) (offset + thisLen))
      else some s

def mapOuter (t : Allocator P) (maxSgSize addr : ℕ) : (rounds : ℕ) → MapState P → Option (MapState P)
  | 0, s => some s
  | rounds + 1, s =>
      if 0 < s.bytesToGo then (mapLoop t maxSgSize addr s.bytesToGo s.bytesToGo 0 s).bind (mapOuter t maxSgSize addr rounds)
      else some s

def mapBufs (chip : LzfChip) (t : Allocator P) (maxSgSize : ℕ) (d : Driver P) (phys size : ℕ) : Option (ℕ × Driver P) :=
  if size ≤ maxSgSize then
    match t.mallocAlign d 32 32 with
    | none => none
    | some (hwAddr, d) =>
        let d := (d.poke (hwAddr + 8) 0).poke hwAddr (BitVec.ofNat 32 size)
        some (hwAddr, (d.mark chip hwAddr).poke (hwAddr + 4) (BitVec.ofNat 32 phys))
  else
    match mapOuter t maxSgSize phys size ⟨d, size, none, 0⟩ with
    | some ⟨d, _, some prev, res⟩ => some (res, d.mark chip prev)
    | _ => none

theorem segment_append (adr : BitVec 29) (n m : ℕ) : segment adr n ++ segment (adr + BitVec.ofNat 29 n) m = segment adr (n + m) := by
  induction n generalizing adr with
  | zero => simp [segment]
  | succ n ih =>
      rw [show n + 1 + m = n + m + 1 by omega, segment, segment, List.cons_append, ← ih (adr + 1)]
      congr 3
      apply BitVec.eq_of_toNat_eq
      simp only [BitVec.toNat_add, BitVec.toNat_ofNat, show (1 : BitVec 29).toNat = 1 from rfl]
      omega

theorem desc_words (b : ℕ) : busWord b ∈ segment (busWord b) 4 ∧ busWord b + 1 ∈ segment (busWord b) 4 := by
  constructor <;> simp [segment]

theorem next_word_ne (word : BitVec 29) : word + 1 ≠ word := by
  intro same
  have wrapped := congrArg BitVec.toNat same
  simp only [BitVec.toNat_add, show (1 : BitVec 29).toNat = 1 from rfl] at wrapped
  omega

structure Opened (d : Driver P) (b len adr : ℕ) : Prop where
  aligned : 8 ∣ b
  size : d.peek b = BitVec.ofNat 32 len
  start : d.peek (b + 4) = BitVec.ofNat 32 adr

variable {t : Allocator P} {d after : Driver P} {b len adr : ℕ}

theorem Opened.made (d : Driver P) (b len adr : ℕ) (aligned : 8 ∣ b) :
    Opened (((d.poke (b + 8) 0).poke b (BitVec.ofNat 32 len)).poke (b + 4) (BitVec.ofNat 32 adr)) b len adr where
  aligned := aligned
  size := ((Mem.peek_poke_half _ _ _ _ (by simp; omega)).trans (Mem.peek_poke _ _ _))
  start := Mem.peek_poke _ _ _

theorem Opened.kept (opened : Opened d b len adr) (same : after.mem (busWord b) = d.mem (busWord b)) : Opened after b len adr where
  aligned := opened.aligned
  size := (Mem.peek_same same).trans opened.size
  start := by
    refine (Mem.peek_same ?_).trans opened.start
    rw [busWord_half b opened.aligned]
    exact same

theorem short_length (len : ℕ) (short : len < 2 ^ 19) :
    (BitVec.ofNat 32 len).getLsbD 20 = false ∧ ((BitVec.ofNat 32 len).extractLsb' 3 16).toNat = len / 8 := by
  constructor
  · rw [BitVec.getLsbD_ofNat, Nat.testBit_lt_two_pow (Nat.lt_of_lt_of_le short (by decide))]
    rfl
  · simp only [BitVec.extractLsb'_toNat, BitVec.toNat_ofNat, Nat.shiftRight_eq_div_pow]
    omega

theorem Opened.fields (opened : Opened d b len adr) (short : len < 2 ^ 19) :
    descLast (d.mem (busWord b)) = false ∧ (descLen (d.mem (busWord b))).toNat = len / 8 ∧
      descAddr (d.mem (busWord b)) = busWord adr := by
  obtain ⟨last, size, start, _⟩ := desc_fields d.mem b opened.aligned
  obtain ⟨low, length⟩ := short_length len short
  refine ⟨?_, ?_, ?_⟩
  · rw [last, show d.mem.peek b = _ from opened.size, low]
  · rw [size, show d.mem.peek b = _ from opened.size, length]
  · rw [start, show d.mem.peek (b + 4) = _ from opened.start]
    rfl

theorem Opened.marked (chip : LzfChip) (opened : Opened d b len adr) (short : len < 2 ^ 19) :
    descLast ((d.mark chip b).mem (busWord b)) = true ∧ (descLen ((d.mark chip b).mem (busWord b))).toNat = len / 8 ∧
      descAddr ((d.mark chip b).mem (busWord b)) = busWord adr := by
  obtain ⟨last, size, start, _⟩ := desc_fields (d.mark chip b).mem b opened.aligned
  obtain ⟨_, length⟩ := short_length len short
  have value : (d.mark chip b).mem.peek b = BitVec.ofNat 32 len ||| chip.sgLast := by
    rw [← opened.size]
    exact Mem.peek_poke _ _ _
  have address : (d.mark chip b).mem.peek (b + 4) = BitVec.ofNat 32 adr := by
    rw [← opened.start]
    have aligned := opened.aligned
    exact Mem.peek_poke_half _ _ _ _ (by simp; omega)
  refine ⟨?_, ?_, ?_⟩
  · rw [last, value, BitVec.getLsbD_or, chip.last, Bool.or_true]
  · rw [size, value, BitVec.extractLsb'_or, chip.length, show (0 : BitVec 16) = 0#16 from rfl, BitVec.or_zero, length]
  · rw [start, address]
    rfl

theorem mapStep_opens {s now : MapState P} {addr thisLen offset : ℕ} (stepped : mapStep t addr thisLen offset s = some now) :
    ∃ hwAddr d, Grows t s.driver d [] (segment (busWord hwAddr) 4) ∧ Opened d hwAddr thisLen (addr + offset) ∧
      now.bytesToGo = s.bytesToGo - thisLen ∧ now.prev = some hwAddr ∧
      match s.prev with
      | none => now.driver = d ∧ now.res = hwAddr
      | some prev => now.driver = d.poke (prev + 8) (BitVec.ofNat 32 hwAddr) ∧ now.res = s.res := by
  unfold mapStep at stepped
  split at stepped
  · cases stepped
  · rename_i hwAddr d got
    obtain ⟨grows, aligned, _⟩ := t.mallocAlign_grows s.driver 32 hwAddr d (by decide) got
    have words := desc_words hwAddr
    have second := busWord_next hwAddr aligned
    refine ⟨hwAddr, _, ?_, Opened.made d hwAddr thisLen (addr + offset) aligned, ?_⟩
    · refine ((grows.then_poke _ _ (.inr ?_)).then_poke _ _ (.inr words.1)).then_poke _ _ (.inr ?_)
      · rw [second]
        exact words.2
      · rw [busWord_half hwAddr aligned]
        exact words.1
    · split at stepped <;> cases stepped <;> exact ⟨rfl, rfl, rfl, rfl⟩

theorem Opened.ends (chip : LzfChip) (opened : Opened d b len adr) (nonempty : 0 < len) (whole : 8 ∣ len) (short : len < 2 ^ 19)
    (kept : BitVec 29 → Prop) (inside : kept (busWord b) ∧ kept (busWord b + 1)) :
    SgList (d.mark chip b).mem kept (busWord b) (segment (busWord adr) (len / 8)) := by
  obtain ⟨last, size, first⟩ := opened.marked chip short
  exact SgList.single _ kept (busWord b) (busWord adr) (len / 8) inside last first size (by omega)

theorem Opened.links (opened : Opened d b len adr) (nonempty : 0 < len) (whole : 8 ∣ len) (short : len < 2 ^ 19) {next : ℕ}
    (linked : d.peek (b + 8) = BitVec.ofNat 32 next) (kept : BitVec 29 → Prop) (inside : kept (busWord b) ∧ kept (busWord b + 1))
    {words : List (BitVec 29)} (rest : SgList d.mem kept (busWord next) words) :
    SgList d.mem kept (busWord b) (segment (busWord adr) (len / 8) ++ words) := by
  obtain ⟨last, size, first⟩ := opened.fields short
  obtain ⟨_, _, _, follows⟩ := desc_fields d.mem b opened.aligned
  rw [show d.mem.peek (b + 8) = _ from linked] at follows
  have nonzero : descLen (d.mem (busWord b)) ≠ 0 := by
    intro zero
    rw [zero] at size
    have none : len / 8 = 0 := size.symm
    omega
  rw [← first, ← size]
  exact .link (busWord b) words inside nonzero last (by rw [follows]; exact rest)

def MapState.Completes (chip : LzfChip) (t : Allocator P) (s now : MapState P) (b left : ℕ) (words : List (BitVec 29)) : Prop :=
  ∃ last new, now.prev = some last ∧ now.res = s.res ∧ now.bytesToGo = s.bytesToGo - left ∧
    Grows t s.driver (now.driver.mark chip last) [busWord b, busWord b + 1] new ∧
    ∀ kept : BitVec 29 → Prop, kept (busWord b) ∧ kept (busWord b + 1) → (∀ word ∈ new, kept word) →
      SgList (now.driver.mark chip last).mem kept (busWord b) words

theorem Opened.completes (chip : LzfChip) {s : MapState P} (prev : s.prev = some b) (opened : Opened s.driver b len adr)
    (nonempty : 0 < len) (whole : 8 ∣ len) (short : len < 2 ^ 19) : s.Completes chip t s b 0 (segment (busWord adr) (len / 8)) :=
  ⟨b, [], prev, rfl, rfl, (Grows.refl t s.driver _).then_poke _ _ (.inl (by simp)),
    fun kept inside _ => opened.ends chip nonempty whole short kept inside⟩

theorem mapLoop_completes (chip : LzfChip) (t : Allocator P) (maxSgSize addr : ℕ) (some_bytes : 0 < maxSgSize) (whole : 8 ∣ maxSgSize)
    (short : maxSgSize < 2 ^ 19) (start : 8 ∣ addr) :
    ∀ (rounds left offset : ℕ) (s now : MapState P) (b len adr : ℕ), left ≤ rounds → 8 ∣ left → 8 ∣ offset → s.prev = some b →
      Opened s.driver b len adr → t.Owned s.driver.pool (busWord b) → t.Owned s.driver.pool (busWord b + 1) →
      0 < len → 8 ∣ len → len < 2 ^ 19 → mapLoop t maxSgSize addr rounds left offset s = some now →
      s.Completes chip t now b left (segment (busWord adr) (len / 8) ++ segment (busWord (addr + offset)) (left / 8)) := by
  intro rounds
  induction rounds with
  | zero =>
      intro left offset s now b len adr bound _ _ prev opened _ _ nonempty wholeLen shortLen ran
      obtain rfl := Option.some.inj ran
      obtain rfl : left = 0 := by omega
      simpa [segment] using opened.completes chip prev nonempty wholeLen shortLen
  | succ rounds ih =>
      intro left offset s now b len adr bound wholeLeft wholeOffset prev opened first second nonempty wholeLen shortLen ran
      by_cases more : 0 < left
      · rw [mapLoop, if_pos more] at ran
        generalize taken : (if left > maxSgSize then maxSgSize else left) = thisLen at ran
        have range : 0 < thisLen ∧ thisLen ≤ left ∧ 8 ∣ thisLen ∧ thisLen < 2 ^ 19 := by
          split at taken <;> omega
        obtain ⟨mid, stepped, rest⟩ := Option.bind_eq_some_iff.mp ran
        obtain ⟨hwAddr, d, grows, opening, togo, next, linked⟩ := mapStep_opens stepped
        rw [prev] at linked
        obtain ⟨driver, res⟩ := linked
        have words := desc_words hwAddr
        have second_word := busWord_next b opened.aligned
        have other (word : BitVec 29) (owned : t.Owned s.driver.pool word) : word ∉ segment (busWord hwAddr) 4 :=
          fun member => grows.fresh word member owned
        have to_mid : Grows t s.driver mid.driver [busWord b, busWord b + 1] (segment (busWord hwAddr) 4) := by
          rw [driver]
          exact (grows.widen (by simp)).then_poke _ _ (.inl (by simp [second_word]))
        have here : Opened mid.driver hwAddr thisLen (addr + offset) := by
          refine opening.kept ?_
          rw [driver]
          refine Mem.poke_other _ _ _ _ fun same => other _ second ?_
          rw [← second_word, ← same]
          exact words.1
        obtain ⟨last, new, ended, result, counted, tail, lists⟩ := ih (left - thisLen) (offset + thisLen) mid now hwAddr thisLen
          (addr + offset) (by omega) (by omega) (by omega) next here (to_mid.owned _ words.1) (to_mid.owned _ words.2)
          range.1 range.2.2.1 range.2.2.2 rest
        have untouched (word : BitVec 29) (owned : t.Owned s.driver.pool word) :
            (now.driver.mark chip last).mem word = mid.driver.mem word := by
          refine tail.frame word (to_mid.keeps word owned) fun member => other word owned ?_
          rcases List.mem_pair.mp member with rfl | rfl
          · exact words.1
          · exact words.2
        refine ⟨last, segment (busWord hwAddr) 4 ++ new, ended, result.trans res, by omega, to_mid.trans tail ?_, ?_⟩
        · intro word member
          rcases List.mem_pair.mp member with rfl | rfl
          · exact .inr (to_mid.fresh _ words.1)
          · exact .inr (to_mid.fresh _ words.2)
        · intro kept inside outside
          have blocks := fun word member => outside word (List.mem_append_left _ member)
          have list := lists kept ⟨blocks _ words.1, blocks _ words.2⟩ fun word member => outside word (List.mem_append_right _ member)
          have size : addr + (offset + thisLen) = addr + offset + 8 * (thisLen / 8) := by omega
          rw [size, busWord_add _ _ (by omega), segment_append, show thisLen / 8 + (left - thisLen) / 8 = left / 8 by omega] at list
          refine Opened.links (opened.kept ?_) nonempty wholeLen shortLen ?_ kept inside list
          · rw [untouched _ first, driver]
            refine (Mem.poke_other _ _ _ _ ?_).trans (grows.frame _ first (by simp))
            rw [second_word]
            exact (next_word_ne _).symm
          · have same : (now.driver.mark chip last).mem.peek (b + 8) = mid.driver.mem.peek (b + 8) := by
              refine Mem.peek_same ?_
              rw [second_word]
              exact untouched _ second
            refine same.trans ?_
            rw [driver]
            exact Mem.peek_poke _ _ _
      · rw [mapLoop, if_neg more] at ran
        obtain rfl := Option.some.inj ran
        obtain rfl : left = 0 := by omega
        simpa [segment] using opened.completes chip prev nonempty wholeLen shortLen

theorem Driver.mark_start (chip : LzfChip) (d : Driver P) (b : ℕ) (val : BitVec 32) (aligned : 8 ∣ b) :
    (d.mark chip b).poke (b + 4) val = (d.poke (b + 4) val).mark chip b := by
  have same : (d.poke (b + 4) val).peek b = d.peek b := Mem.peek_poke_half _ _ _ _ (by simp; omega)
  unfold mark
  rw [same]
  unfold poke
  rw [Mem.poke_comm_half _ _ _ _ _ (by omega) (by omega)]

theorem map_bufs_list (chip : LzfChip) (t : Allocator P) (maxSgSize : ℕ) (d after : Driver P) (phys size res : ℕ)
    (some_bytes : 0 < maxSgSize) (whole : 8 ∣ maxSgSize) (short : maxSgSize < 2 ^ 19) (start : 8 ∣ phys) (nonempty : 0 < size)
    (wholeSize : 8 ∣ size) (mapped : mapBufs chip t maxSgSize d phys size = some (res, after)) :
    ∃ tables, Grows t d after [] tables ∧
      ∀ kept : BitVec 29 → Prop, (∀ word ∈ tables, kept word) → SgList after.mem kept (busWord res) (segment (busWord phys) (size / 8)) := by
  unfold mapBufs at mapped
  split at mapped
  · split at mapped
    · cases mapped
    · rename_i hwAddr d' got
      obtain ⟨grows, aligned, _⟩ := t.mallocAlign_grows d 32 hwAddr d' (by decide) got
      simp only [Option.some.injEq, Prod.mk.injEq] at mapped
      obtain ⟨rfl, rfl⟩ := mapped
      have words := desc_words hwAddr
      rw [Driver.mark_start chip _ _ _ aligned]
      have opened := Opened.made d' hwAddr size phys aligned
      refine ⟨segment (busWord hwAddr) 4, ?_, fun kept inside =>
        opened.ends chip nonempty wholeSize (by omega) kept ⟨inside _ words.1, inside _ words.2⟩⟩
      refine (((grows.then_poke _ _ (.inr ?_)).then_poke _ _ (.inr words.1)).then_poke _ _ (.inr ?_)).then_poke _ _ (.inr words.1)
      · rw [busWord_next hwAddr aligned]
        exact words.2
      · rw [busWord_half hwAddr aligned]
        exact words.1
  · obtain ⟨n, rfl⟩ : ∃ n, size = n + 1 := ⟨size - 1, by omega⟩
    have larger : maxSgSize < n + 1 := by omega
    split at mapped
    · rename_i driver togo last res' ran
      simp only [Option.some.injEq, Prod.mk.injEq] at mapped
      obtain ⟨rfl, rfl⟩ := mapped
      rw [mapOuter, if_pos (show 0 < n + 1 by omega)] at ran
      obtain ⟨now, looped, again⟩ := Option.bind_eq_some_iff.mp ran
      rw [mapLoop, if_pos (show 0 < n + 1 by omega), if_pos larger] at looped
      obtain ⟨mid, stepped, rest⟩ := Option.bind_eq_some_iff.mp looped
      obtain ⟨hwAddr, d', grows, opening, counted, next, rfl, rfl⟩ := mapStep_opens stepped
      have words := desc_words mid.res
      obtain ⟨final, new, ended, result, togo', tail, lists⟩ := mapLoop_completes chip t maxSgSize phys some_bytes whole short start n
        (n + 1 - maxSgSize) (0 + maxSgSize) mid now mid.res maxSgSize (phys + 0) (by omega) (by omega) (by omega) next opening
        (grows.owned _ words.1) (grows.owned _ words.2) some_bytes whole short rest
      -- nothing is left for the outer loop
      have done : now.bytesToGo = 0 := by
        simp only at counted
        omega
      have stops : mapOuter t maxSgSize phys n now = some now := by
        cases n with
        | zero => rfl
        | succ n => rw [mapOuter, if_neg (by omega)]
      rw [stops] at again
      obtain rfl := Option.some.inj again
      obtain rfl : final = last := Option.some.inj (ended.symm.trans rfl)
      refine ⟨segment (busWord mid.res) 4 ++ new, grows.trans tail ?_, fun kept inside => ?_⟩
      · intro word member
        rcases List.mem_pair.mp member with rfl | rfl
        · exact .inr (grows.fresh _ words.1)
        · exact .inr (grows.fresh _ words.2)
      · have blocks := fun word member => inside word (List.mem_append_left _ member)
        have list := lists kept ⟨blocks _ words.1, blocks _ words.2⟩ fun word member => inside word (List.mem_append_right _ member)
        have size : phys + (0 + maxSgSize) = phys + 8 * (maxSgSize / 8) := by omega
        rw [size, busWord_add _ _ start, Nat.add_zero, segment_append,
          show maxSgSize / 8 + (n + 1 - maxSgSize) / 8 = (n + 1) / 8 by omega] at list
        rw [show res' = mid.res from result]
        exact list
    · cases mapped

end

def bump : Allocator ℕ where
  systemMem := 0x1000
  physMem := 0xa0000000
  poolSize := 1024 * 1024 * 64
  malloc next size := if 0x1000 ≤ next ∧ next + size ≤ 0x1000 + 1024 * 1024 * 64 then some (next, next + size) else none
  taken next byte := byte < next
  fresh pool size p after got k below := by
    split at got <;> simp at got
    omega
  keeps pool size p after got byte held := by
    split at got <;> simp at got
    omega
  inside pool size p after got := by
    split at got <;> simp at got
    omega
  aligned := by decide
  reachable := by decide

def lzfChip : LzfChip where
  sgLast := 0x100000
  dcMemcpy := 0x16
  dcUncompress := 0x18
  dcCtrl := 0x80
  dcCont := 0x400
  lzsCompress bytes cnt := bytes.take cnt
  last := by decide
  length := by decide
  copies := by decide
  single := by decide
  cont := by decide
  room bytes cnt := bytes.length_take_le cnt

end SsAdma
