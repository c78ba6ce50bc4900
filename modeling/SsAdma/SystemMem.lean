import SsAdma.SgWalk

set_option autoImplicit false

namespace SsAdma

-- simp leaves the bits of a word as getLsbD.
attribute [-simp] BitVec.getLsbD_eq_getElem

def busWord (adr : ℕ) : BitVec 29 := wordAddr (BitVec.ofNat 32 adr)

theorem busWord_toNat (adr : ℕ) (below : adr < 2 ^ 32) : (busWord adr).toNat = adr / 8 := by
  simp only [busWord, wordAddr, BitVec.extractLsb'_toNat, BitVec.toNat_ofNat, Nat.shiftRight_eq_div_pow]
  omega

theorem busWord_add (adr k : ℕ) (aligned : 8 ∣ adr) : busWord (adr + 8 * k) = busWord adr + BitVec.ofNat 29 k := by
  apply BitVec.eq_of_toNat_eq
  simp only [busWord, wordAddr, BitVec.extractLsb'_toNat, BitVec.toNat_ofNat, BitVec.toNat_add, Nat.shiftRight_eq_div_pow]
  omega

theorem busWord_next (adr : ℕ) (aligned : 8 ∣ adr) : busWord (adr + 8) = busWord adr + 1 := busWord_add adr 1 aligned

theorem busWord_half (adr : ℕ) (aligned : 8 ∣ adr) : busWord (adr + 4) = busWord adr := by
  apply BitVec.eq_of_toNat_eq
  simp only [busWord, wordAddr, BitVec.extractLsb'_toNat, BitVec.toNat_ofNat, Nat.shiftRight_eq_div_pow]
  omega

-- system_mem is an array of 32-bit words.
def Mem.peek (mem : Mem) (adr : ℕ) : BitVec 32 :=
  if adr % 8 < 4 then (mem (busWord adr)).extractLsb' 0 32 else (mem (busWord adr)).extractLsb' 32 32

def Mem.poke (mem : Mem) (adr : ℕ) (val : BitVec 32) : Mem := fun word =>
  if word = busWord adr then
    if adr % 8 < 4 then (mem word).extractLsb' 32 32 ++ val else val ++ (mem word).extractLsb' 0 32
  else mem word

def byteMask (k : ℕ) : BitVec 64 := 0xff#64 <<< (8 * k)

def Mem.pokeByte (mem : Mem) (adr : ℕ) (byte : BitVec 8) : Mem := fun word =>
  if word = busWord adr then (mem word &&& ~~~ byteMask (adr % 8)) ||| (byte.setWidth 64 <<< (8 * (adr % 8)))
  else mem word

def Mem.peekByte (mem : Mem) (adr : ℕ) : BitVec 8 := (mem (busWord adr)).extractLsb' (8 * (adr % 8)) 8

def Mem.clear (mem : Mem) (start len : ℕ) : Mem := fun word =>
  (List.range 8).foldl (fun value k =>
    if start ≤ 8 * word.toNat + k ∧ 8 * word.toNat + k < start + len then value &&& ~~~ byteMask k else value) (mem word)

theorem Mem.poke_other (mem : Mem) (adr : ℕ) (val : BitVec 32) (word : BitVec 29) (other : word ≠ busWord adr) :
    mem.poke adr val word = mem word := if_neg other

theorem Mem.pokeByte_other (mem : Mem) (adr : ℕ) (byte : BitVec 8) (word : BitVec 29) (other : word ≠ busWord adr) :
    mem.pokeByte adr byte word = mem word := if_neg other

theorem Mem.clear_other (mem : Mem) (start len : ℕ) (word : BitVec 29)
    (outside : ∀ k < 8, ¬ (start ≤ 8 * word.toNat + k ∧ 8 * word.toNat + k < start + len)) : mem.clear start len word = mem word := by
  have kept : ∀ (ks : List ℕ) (value : BitVec 64), (∀ k ∈ ks, k < 8) →
      ks.foldl (fun value k =>
        if start ≤ 8 * word.toNat + k ∧ 8 * word.toNat + k < start + len then value &&& ~~~ byteMask k else value) value = value := by
    intro ks
    induction ks with
    | nil => exact fun _ _ => rfl
    | cons k rest ih =>
        intro value below
        rw [List.foldl_cons, if_neg (outside k (below k List.mem_cons_self))]
        exact ih value fun j member => below j (List.mem_cons_of_mem _ member)
  exact kept (List.range 8) (mem word) fun k member => List.mem_range.mp member

theorem Mem.peek_same {mem now : Mem} {adr : ℕ} (same : now (busWord adr) = mem (busWord adr)) : now.peek adr = mem.peek adr := by
  unfold peek
  rw [same]

theorem Mem.peek_poke (mem : Mem) (adr : ℕ) (val : BitVec 32) : (mem.poke adr val).peek adr = val := by
  unfold peek poke
  by_cases low : adr % 8 < 4
  · simp only [low, if_true]
    exact BitVec.extractLsb'_append_eq_right
  · simp only [low, if_false, if_true]
    exact BitVec.extractLsb'_append_eq_left

theorem Mem.peek_poke_half (mem : Mem) (adr other : ℕ) (val : BitVec 32) (halves : (adr % 8 < 4) ≠ (other % 8 < 4)) :
    (mem.poke adr val).peek other = mem.peek other := by
  unfold peek poke
  by_cases word : busWord other = busWord adr
  · by_cases low : adr % 8 < 4
    · have high : ¬ other % 8 < 4 := fun below => halves (by simp [low, below])
      simp only [word, low, high, if_true, if_false]
      exact BitVec.extractLsb'_append_eq_left
    · have below : other % 8 < 4 := by
        by_contra high
        exact halves (by simp [low, high])
      simp only [word, low, below, if_true, if_false]
      exact BitVec.extractLsb'_append_eq_right
  · simp [word]

theorem Mem.poke_comm_half (mem : Mem) (adr other : ℕ) (val late : BitVec 32) (low : adr % 8 < 4) (high : ¬ other % 8 < 4) :
    (mem.poke adr val).poke other late = (mem.poke other late).poke adr val := by
  funext word
  unfold poke
  by_cases here : word = busWord adr
  · by_cases same : word = busWord other
    · simp only [← here, ← same, low, high, if_true, if_false]
      rw [BitVec.extractLsb'_append_eq_right, BitVec.extractLsb'_append_eq_left]
    · simp only [here, low, if_true]
      rw [← here]
      simp only [same, if_false]
  · simp only [here, if_false]

theorem Mem.peek_poke_word (mem : Mem) (adr other : ℕ) (val : BitVec 32) (words : busWord other ≠ busWord adr) :
    (mem.poke adr val).peek other = mem.peek other := peek_same (mem.poke_other adr val _ words)

theorem desc_fields (mem : Mem) (b : ℕ) (aligned : 8 ∣ b) :
    descLast (mem (busWord b)) = (mem.peek b).getLsbD 20 ∧ descLen (mem (busWord b)) = (mem.peek b).extractLsb' 3 16 ∧
      descAddr (mem (busWord b)) = wordAddr (mem.peek (b + 4)) ∧ descNext (mem (busWord b + 1)) = wordAddr (mem.peek (b + 8)) := by
  have low : mem.peek b = (mem (busWord b)).extractLsb' 0 32 := if_pos (by omega)
  have high : mem.peek (b + 4) = (mem (busWord b)).extractLsb' 32 32 := by
    rw [← busWord_half b aligned]
    exact if_neg (by omega)
  have next : mem.peek (b + 8) = (mem (busWord b + 1)).extractLsb' 0 32 := by
    rw [← busWord_next b aligned]
    exact if_pos (by omega)
  refine ⟨?_, ?_, ?_, ?_⟩
  · rw [low]
    simp [descLast, ← BitVec.getLsbD_eq_getElem]
  · rw [low]
    apply BitVec.eq_of_getLsbD_eq
    intro j below
    simp [descLen, below]
  · rw [high]
    rfl
  · rw [next]
    rfl

structure Allocator (P : Type) where
  systemMem : ℕ
  physMem : ℕ
  poolSize : ℕ
  malloc : P → ℕ → Option (ℕ × P)
  taken : P → ℕ → Prop
  fresh : ∀ pool size p after, malloc pool size = some (p, after) → ∀ k < size, ¬ taken pool (p + k) ∧ taken after (p + k)
  keeps : ∀ pool size p after, malloc pool size = some (p, after) → ∀ byte, taken pool byte → taken after byte
  inside : ∀ pool size p after, malloc pool size = some (p, after) → systemMem ≤ p ∧ p + size ≤ systemMem + poolSize
  aligned : 8 ∣ systemMem ∧ 8 ∣ physMem
  reachable : physMem + poolSize ≤ 2 ^ 32

structure Driver (P : Type) where
  pool : P
  mem : Mem

section

variable {P : Type}

def Driver.poke (d : Driver P) (adr : ℕ) (val : BitVec 32) : Driver P := { d with mem := d.mem.poke adr val }

def Driver.pokeByte (d : Driver P) (adr : ℕ) (byte : BitVec 8) : Driver P := { d with mem := d.mem.pokeByte adr byte }

-- Pointers into system_mem are told by the bus address that off receives.
def Allocator.mallocAlign (t : Allocator P) (d : Driver P) (len size : ℕ) : Option (ℕ × Driver P) :=
  (t.malloc d.pool (size + len)).map fun (p, pool) =>
    let l := if p &&& (len - 1) ≠ 0 then p + (len - p % len) else p
    (l - t.systemMem + t.physMem, ⟨pool, d.mem.clear (p - t.systemMem + t.physMem) (size + len)⟩)

def Allocator.Owned (t : Allocator P) (pool : P) (word : BitVec 29) : Prop :=
  t.physMem ≤ 8 * word.toNat ∧ ∀ k < 8, t.taken pool (t.systemMem + (8 * word.toNat + k - t.physMem))

structure Grows (t : Allocator P) (d after : Driver P) (touched new : List (BitVec 29)) : Prop where
  keeps : ∀ word, t.Owned d.pool word → t.Owned after.pool word
  frame : ∀ word, t.Owned d.pool word → word ∉ touched → after.mem word = d.mem word
  fresh : ∀ word ∈ new, ¬ t.Owned d.pool word
  owned : ∀ word ∈ new, t.Owned after.pool word
  nodup : new.Nodup

variable {t : Allocator P} {d mid after : Driver P} {touched more new newer : List (BitVec 29)}

theorem Grows.refl (t : Allocator P) (d : Driver P) (touched : List (BitVec 29)) : Grows t d d touched [] :=
  ⟨fun _ owned => owned, fun _ _ _ => rfl, by simp, by simp, List.nodup_nil⟩

theorem Grows.trans (first : Grows t d mid touched new) (second : Grows t mid after more newer)
    (within : ∀ word ∈ more, word ∈ touched ∨ ¬ t.Owned d.pool word) : Grows t d after touched (new ++ newer) where
  keeps word owned := second.keeps word (first.keeps word owned)
  frame word owned outside := by
    have untouched : word ∉ more := fun member => (within word member).elim outside (fun fresh => fresh owned)
    exact (second.frame word (first.keeps word owned) untouched).trans (first.frame word owned outside)
  fresh word member owned := by
    rcases List.mem_append.mp member with early | late
    · exact first.fresh word early owned
    · exact second.fresh word late (first.keeps word owned)
  owned word member := by
    rcases List.mem_append.mp member with early | late
    · exact second.keeps word (first.owned word early)
    · exact second.owned word late
  nodup := by
    refine List.nodup_append.mpr ⟨first.nodup, second.nodup, ?_⟩
    rintro word early _ late rfl
    exact second.fresh word late (first.owned word early)

theorem Grows.poke (t : Allocator P) (d : Driver P) (adr : ℕ) (val : BitVec 32) : Grows t d (d.poke adr val) [busWord adr] [] where
  keeps _ owned := owned
  frame word _ outside := d.mem.poke_other adr val word (by simpa using outside)
  fresh := by simp
  owned := by simp
  nodup := List.nodup_nil

theorem Grows.pokeByte (t : Allocator P) (d : Driver P) (adr : ℕ) (byte : BitVec 8) :
    Grows t d (d.pokeByte adr byte) [busWord adr] [] where
  keeps _ owned := owned
  frame word _ outside := d.mem.pokeByte_other adr byte word (by simpa using outside)
  fresh := by simp
  owned := by simp
  nodup := List.nodup_nil

theorem Grows.then_poke (first : Grows t d mid touched new) (adr : ℕ) (val : BitVec 32)
    (inside : busWord adr ∈ touched ∨ busWord adr ∈ new) : Grows t d (mid.poke adr val) touched new := by
  have whole := first.trans (Grows.poke t mid adr val) (by
    intro word member
    rw [List.mem_singleton.mp member]
    exact inside.imp id (first.fresh _))
  rwa [List.append_nil] at whole

theorem Grows.then_pokeByte (first : Grows t d mid touched new) (adr : ℕ) (byte : BitVec 8)
    (inside : busWord adr ∈ touched ∨ busWord adr ∈ new) : Grows t d (mid.pokeByte adr byte) touched new := by
  have whole := first.trans (Grows.pokeByte t mid adr byte) (by
    intro word member
    rw [List.mem_singleton.mp member]
    exact inside.imp id (first.fresh _))
  rwa [List.append_nil] at whole

theorem Grows.widen (first : Grows t d after touched new) (wider : ∀ word ∈ touched, word ∈ more) : Grows t d after more new :=
  ⟨first.keeps, fun word owned outside => first.frame word owned fun member => outside (wider word member), first.fresh, first.owned,
    first.nodup⟩

theorem segment_busWord (adr len : ℕ) (aligned : 8 ∣ adr) (below : adr + 8 * len ≤ 2 ^ 32) (word : BitVec 29)
    (member : word ∈ segment (busWord adr) len) : ∃ k < len, word.toNat = adr / 8 + k := by
  obtain ⟨k, inside, rfl⟩ := segment_member _ _ _ member
  refine ⟨k, inside, ?_⟩
  rw [← busWord_add adr k aligned, busWord_toNat _ (by omega)]
  omega

theorem Allocator.mallocAlign_grows (t : Allocator P) (d : Driver P) (size adr : ℕ) (after : Driver P) (whole : 8 ∣ size)
    (got : t.mallocAlign d 32 size = some (adr, after)) :
    Grows t d after [] (segment (busWord adr) (size / 8)) ∧ 8 ∣ adr ∧ adr + size ≤ 2 ^ 32 := by
  unfold mallocAlign at got
  obtain ⟨⟨p, pool⟩, made, built⟩ := Option.map_eq_some_iff.mp got
  simp only [Prod.mk.injEq] at built
  obtain ⟨address, rfl⟩ := built
  obtain ⟨above, below⟩ := t.inside _ _ _ _ made
  have blocks := t.fresh _ _ _ _ made
  have reachable := t.reachable
  obtain ⟨base, phys⟩ := t.aligned
  have mask : p &&& (32 - 1) = p % 32 := Nat.and_two_pow_sub_one_eq_mod p 5
  obtain ⟨l, line, room, aligned, named⟩ : ∃ l, p ≤ l ∧ l < p + 32 ∧ 32 ∣ l ∧ adr = l - t.systemMem + t.physMem := by
    rw [mask] at address
    split at address
    · exact ⟨_, by omega, by omega, by omega, address.symm⟩
    · exact ⟨p, by omega, by omega, by omega, address.symm⟩
  have whole_words : 8 ∣ adr ∧ adr + size ≤ 2 ^ 32 := by omega
  -- byte k of a word of the block, as the allocator sees it
  have byte (word : BitVec 29) (member : word ∈ segment (busWord adr) (size / 8)) :
      t.physMem ≤ 8 * word.toNat ∧ ∀ k < 8, ∃ j < size + 32, t.systemMem + (8 * word.toNat + k - t.physMem) = p + j := by
    obtain ⟨m, inside, at_word⟩ := segment_busWord adr (size / 8) whole_words.1 (by omega) word member
    refine ⟨by omega, fun k low => ⟨l - p + 8 * m + k, by omega, by omega⟩⟩
  refine ⟨⟨?_, ?_, ?_, ?_, ?_⟩, whole_words⟩
  · exact fun word owned => ⟨owned.1, fun k low => t.keeps _ _ _ _ made _ (owned.2 k low)⟩
  · intro word owned _
    refine d.mem.clear_other _ _ word fun k low covered => ?_
    have free := (blocks (t.systemMem + (8 * word.toNat + k - t.physMem) - p) (by have := owned.1; omega)).1
    refine free ?_
    rw [show p + (t.systemMem + (8 * word.toNat + k - t.physMem) - p) = t.systemMem + (8 * word.toNat + k - t.physMem) by
      have := owned.1
      omega]
    exact owned.2 k low
  · intro word member owned
    obtain ⟨j, inside, at_byte⟩ := (byte word member).2 0 (by omega)
    have held := owned.2 0 (by omega)
    rw [at_byte] at held
    exact (blocks j inside).1 held
  · intro word member
    refine ⟨(byte word member).1, fun k low => ?_⟩
    obtain ⟨j, inside, at_byte⟩ := (byte word member).2 k low
    rw [at_byte]
    exact (blocks j inside).2
  · exact segment_nodup _ _ (by omega)

end

end SsAdma
