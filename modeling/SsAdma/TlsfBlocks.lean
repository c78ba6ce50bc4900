import SsAdma.Tlsf

set_option autoImplicit false

namespace SsAdma

-- The size field of a block of s bytes: bit 0 says that it is free, bit 1 that
-- the block before it is.
def header (s : ℕ) (free before : Bool) : ℕ := s + free.toNat + 2 * before.toNat

theorem low_and (x m : ℕ) (small : m < 16) : x &&& m = x % 16 &&& m := by
  have mod := Nat.and_mod_two_pow (a := x) (b := m) (n := 4)
  rw [Nat.mod_eq_of_lt small, Nat.mod_eq_of_lt (lt_of_le_of_lt Nat.and_le_right small)] at mod
  exact mod

theorem low_or (x m : ℕ) (small : m < 16) : x ||| m = x / 16 * 16 + (x % 16 ||| m) := by
  have quotient := Nat.or_div_two_pow (a := x) (b := m) (n := 4)
  have remainder := Nat.or_mod_two_pow (a := x) (b := m) (n := 4)
  rw [Nat.div_eq_of_lt small, Nat.or_zero] at quotient
  rw [Nat.mod_eq_of_lt small] at remainder
  simp only [Nat.reducePow] at quotient remainder
  omega

theorem low_xor (x m : ℕ) (small : m < 16) : x ^^^ m = x / 16 * 16 + (x % 16 ^^^ m) := by
  have quotient := Nat.xor_div_two_pow (a := x) (b := m) (n := 4)
  have remainder := Nat.xor_mod_two_pow (a := x) (b := m) (n := 4)
  rw [Nat.div_eq_of_lt small, Nat.xor_zero] at quotient
  rw [Nat.mod_eq_of_lt small] at remainder
  simp only [Nat.reducePow] at quotient remainder
  omega

theorem blockSize_eq (w : ℕ) : blockSize w = w % 2 ^ 32 / 8 * 8 := by
  apply Nat.eq_of_testBit_eq
  intro i
  rw [blockSize, Nat.testBit_and, show 0xffffffff - 7 = (2 ^ 29 - 1) * 2 ^ 3 by rfl, Nat.testBit_mul_two_pow, Nat.testBit_two_pow_sub_one,
    show 8 = 2 ^ 3 by rfl, Nat.testBit_mul_two_pow, Nat.testBit_div_two_pow, Nat.testBit_mod_two_pow]
  by_cases low : 3 ≤ i
  · by_cases high : i < 32
    · simp [low, high, Nat.sub_add_cancel low, show i - 3 < 29 by omega]
    · simp [low, high, Nat.sub_add_cancel low, show ¬ i - 3 < 29 by omega]
  · simp [low]

section

variable {s : ℕ} (whole : 16 ∣ s) (free before : Bool)

include whole

theorem header_parts : header s free before / 16 * 16 = s ∧ header s free before % 16 = free.toNat + 2 * before.toNat := by
  unfold header
  cases free <;> cases before <;> simp only [Bool.toNat_true, Bool.toNat_false] <;> omega

theorem header_size (below : s < 2 ^ 32) : blockSize (header s free before) = s := by
  rw [blockSize_eq, header]
  cases free <;> cases before <;> simp only [Bool.toNat_true, Bool.toNat_false] <;> omega

theorem header_free : header s free before &&& 1 ≠ 0 ↔ free = true := by
  rw [low_and _ 1 (by decide), (header_parts whole free before).2]
  revert free before
  decide

theorem header_prev : header s free before &&& 2 = 2 * before.toNat := by
  rw [low_and _ 2 (by decide), (header_parts whole free before).2]
  revert free before
  decide

theorem header_or_one : header s free before ||| 1 = header s true before := by
  rw [low_or _ 1 (by decide), (header_parts whole free before).1, (header_parts whole free before).2, header]
  cases free <;> cases before <;> simp

theorem header_or_two : header s free before ||| 2 = header s free true := by
  rw [low_or _ 2 (by decide), (header_parts whole free before).1, (header_parts whole free before).2, header]
  cases free <;> cases before <;> simp

theorem header_and_not_one : andNot (header s free before) 1 = header s false before := by
  have masked : header s free before &&& 1 = free.toNat := by
    rw [low_and _ 1 (by decide), (header_parts whole free before).2]
    revert free before
    decide
  rw [andNot, masked, low_xor _ _ (by cases free <;> decide), (header_parts whole free before).1, (header_parts whole free before).2, header]
  cases free <;> cases before <;> simp

theorem header_and_not_two : andNot (header s free before) 2 = header s free false := by
  rw [andNot, header_prev whole, low_xor _ _ (by cases before <;> decide), (header_parts whole free before).1,
    (header_parts whole free before).2, header]
  cases free <;> cases before <;> simp

theorem or_header : s ||| 2 * before.toNat = header s false before := by
  rw [low_or _ _ (by cases before <;> decide), Nat.div_mul_cancel whole, Nat.mod_eq_zero_of_dvd whole, Nat.zero_or]
  rfl

theorem free_header : s ||| 1 ||| 0 = header s true false := by
  rw [Nat.or_zero, low_or _ 1 (by decide), Nat.div_mul_cancel whole, Nat.mod_eq_zero_of_dvd whole, Nat.zero_or]
  rfl

end

structure PoolBlock where
  adr : ℕ
  size : ℕ
  free : Bool
deriving DecidableEq

namespace PoolBlock

def buffer (b : PoolBlock) : ℕ := b.adr + 16

def stop (b : PoolBlock) : ℕ := b.adr + 16 + b.size

def mark (b : PoolBlock) : Option ℕ := if b.free then some b.adr else none

end PoolBlock

-- prev_hdr is valid only behind a free block.
def Marked (mem : ℕ → ℕ) (adr size : ℕ) (free : Bool) (before : Option ℕ) : Prop :=
  mem (adr + 8) = header size free before.isSome ∧ ∀ p ∈ before, mem adr = p

def Seg (mem : ℕ → ℕ) : Option ℕ → ℕ → List PoolBlock → Option ℕ → ℕ → Prop
  | before, adr, [], behind, stop => before = behind ∧ adr = stop
  | before, adr, b :: rest, behind, stop =>
      b.adr = adr ∧ 16 ∣ b.size ∧ 16 ≤ b.size ∧ Marked mem b.adr b.size b.free before ∧ (b.free = true → before = none) ∧
        Seg mem b.mark b.stop rest behind stop

def PoolChain (mem : ℕ → ℕ) (last : ℕ) (before : Option ℕ) (adr : ℕ) (blocks : List PoolBlock) : Prop :=
  ∃ behind, Seg mem before adr blocks behind last ∧ Marked mem last 0 false behind

theorem seg_append (mem : ℕ → ℕ) (before : Option ℕ) (adr : ℕ) (xs ys : List PoolBlock) (behind : Option ℕ) (stop : ℕ) :
    Seg mem before adr (xs ++ ys) behind stop ↔ ∃ mid at_mid, Seg mem before adr xs mid at_mid ∧ Seg mem mid at_mid ys behind stop := by
  induction xs generalizing before adr with
  | nil => exact ⟨fun seg => ⟨before, adr, ⟨rfl, rfl⟩, seg⟩, fun ⟨_, _, ⟨same, here⟩, seg⟩ => same ▸ here ▸ seg⟩
  | cons b rest ih =>
      simp only [List.cons_append, Seg, ih]
      constructor
      · rintro ⟨place, whole, some, marked, merged, mid, at_mid, front, tail⟩
        exact ⟨mid, at_mid, ⟨place, whole, some, marked, merged, front⟩, tail⟩
      · rintro ⟨mid, at_mid, ⟨place, whole, some, marked, merged, front⟩, tail⟩
        exact ⟨place, whole, some, marked, merged, mid, at_mid, front, tail⟩

theorem chain_append (mem : ℕ → ℕ) (last : ℕ) (before : Option ℕ) (adr : ℕ) (xs ys : List PoolBlock) :
    PoolChain mem last before adr (xs ++ ys) ↔ ∃ mid at_mid, Seg mem before adr xs mid at_mid ∧ PoolChain mem last mid at_mid ys := by
  constructor
  · rintro ⟨behind, seg, marked⟩
    obtain ⟨mid, at_mid, front, tail⟩ := (seg_append mem before adr xs ys behind last).mp seg
    exact ⟨mid, at_mid, front, behind, tail, marked⟩
  · rintro ⟨mid, at_mid, front, behind, tail, marked⟩
    exact ⟨behind, (seg_append mem before adr xs ys behind last).mpr ⟨mid, at_mid, front, tail⟩, marked⟩

theorem chain_cons (mem : ℕ → ℕ) (last : ℕ) (before : Option ℕ) (adr : ℕ) (b : PoolBlock) (rest : List PoolBlock) :
    PoolChain mem last before adr (b :: rest) ↔
      b.adr = adr ∧ 16 ∣ b.size ∧ 16 ≤ b.size ∧ Marked mem b.adr b.size b.free before ∧ (b.free = true → before = none) ∧
        PoolChain mem last b.mark b.stop rest := by
  constructor
  · rintro ⟨behind, ⟨place, whole, some, marked, merged, tail⟩, final⟩
    exact ⟨place, whole, some, marked, merged, behind, tail, final⟩
  · rintro ⟨place, whole, some, marked, merged, behind, tail, final⟩
    exact ⟨behind, ⟨place, whole, some, marked, merged, tail⟩, final⟩

theorem Seg.congr {mem other : ℕ → ℕ} {before behind : Option ℕ} {adr stop : ℕ} {xs : List PoolBlock} (seg : Seg mem before adr xs behind stop)
    (same : ∀ b ∈ xs, other b.adr = mem b.adr ∧ other (b.adr + 8) = mem (b.adr + 8)) : Seg other before adr xs behind stop := by
  induction xs generalizing before adr with
  | nil => exact seg
  | cons b rest ih =>
      obtain ⟨place, whole, some, marked, merged, tail⟩ := seg
      obtain ⟨back, size⟩ := same b List.mem_cons_self
      refine ⟨place, whole, some, ⟨size.trans marked.1, fun p told => back.trans (marked.2 p told)⟩, merged, ?_⟩
      exact ih tail fun c member => same c (List.mem_cons_of_mem b member)

structure Inside (b : PoolBlock) (adr stop : ℕ) : Prop where
  start : adr ≤ b.adr
  stop : b.stop ≤ stop
  aligned : b.adr % 16 = adr % 16
  whole : 16 ∣ b.size
  some : 16 ≤ b.size

theorem Seg.span {mem : ℕ → ℕ} {before behind : Option ℕ} {adr stop : ℕ} {xs : List PoolBlock} (seg : Seg mem before adr xs behind stop) :
    adr ≤ stop ∧ stop % 16 = adr % 16 ∧ ∀ b ∈ xs, Inside b adr stop := by
  induction xs generalizing before adr with
  | nil =>
      obtain ⟨_, rfl⟩ := seg
      exact ⟨le_rfl, rfl, by simp⟩
  | cons b rest ih =>
      obtain ⟨rfl, whole, some, _, _, tail⟩ := seg
      obtain ⟨le, aligned, inside⟩ := ih tail
      simp only [PoolBlock.stop] at le aligned inside
      refine ⟨by omega, by omega, fun c member => ?_⟩
      rcases List.mem_cons.mp member with rfl | later
      · exact ⟨le_rfl, le, rfl, whole, some⟩
      · obtain ⟨start, stop, even, whole, some⟩ := inside c later
        exact ⟨by omega, stop, by omega, whole, some⟩

theorem Seg.ordered {mem : ℕ → ℕ} {before behind : Option ℕ} {adr stop : ℕ} {xs : List PoolBlock} (seg : Seg mem before adr xs behind stop) :
    xs.Pairwise fun a b => a.stop ≤ b.adr := by
  induction xs generalizing before adr with
  | nil => exact List.Pairwise.nil
  | cons b rest ih =>
      obtain ⟨_, _, _, _, _, tail⟩ := seg
      exact List.Pairwise.cons (fun c member => (tail.span.2.2 c member).start) (ih tail)

theorem Seg.length_le {mem : ℕ → ℕ} {before behind : Option ℕ} {adr stop : ℕ} {xs : List PoolBlock} (seg : Seg mem before adr xs behind stop) :
    adr + 32 * xs.length ≤ stop := by
  induction xs generalizing before adr with
  | nil =>
      obtain ⟨_, rfl⟩ := seg
      simp
  | cons b rest ih =>
      obtain ⟨rfl, _, some, _, _, tail⟩ := seg
      have le := ih tail
      simp only [PoolBlock.stop, List.length_cons] at le ⊢
      omega

theorem Seg.sum_eq {mem : ℕ → ℕ} {before behind : Option ℕ} {adr stop : ℕ} {xs : List PoolBlock} (seg : Seg mem before adr xs behind stop) :
    adr + (xs.map fun b => 16 + b.size).sum = stop := by
  induction xs generalizing before adr with
  | nil => exact seg.2
  | cons b rest ih =>
      obtain ⟨rfl, _, _, _, _, tail⟩ := seg
      have sum := ih tail
      simp only [PoolBlock.stop, List.map_cons, List.sum_cons] at sum ⊢
      omega

theorem Seg.neighbours {mem : ℕ → ℕ} {before behind : Option ℕ} {adr stop : ℕ} {xs : List PoolBlock} (seg : Seg mem before adr xs behind stop) :
    xs.IsChain fun a b => a.stop = b.adr ∧ ¬ (a.free = true ∧ b.free = true) := by
  induction xs generalizing before adr with
  | nil => exact .nil
  | cons b rest ih =>
      obtain ⟨rfl, _, _, _, _, tail⟩ := seg
      cases rest with
      | nil => exact .singleton b
      | cons c more =>
          refine .cons_cons ?_ (ih tail)
          obtain ⟨place, _, _, _, alone, _⟩ := tail
          refine ⟨place.symm, fun both => ?_⟩
          simpa [PoolBlock.mark, both.1] using alone both.2

theorem PoolChain.span {mem : ℕ → ℕ} {last adr : ℕ} {before : Option ℕ} {xs : List PoolBlock} (chain : PoolChain mem last before adr xs) :
    adr ≤ last ∧ last % 16 = adr % 16 ∧ ∀ b ∈ xs, Inside b adr last :=
  chain.choose_spec.1.span

theorem PoolChain.ordered {mem : ℕ → ℕ} {last adr : ℕ} {before : Option ℕ} {xs : List PoolBlock} (chain : PoolChain mem last before adr xs) :
    xs.Pairwise fun a b => a.stop ≤ b.adr :=
  chain.choose_spec.1.ordered

theorem PoolChain.congr {mem other : ℕ → ℕ} {last adr : ℕ} {before : Option ℕ} {xs : List PoolBlock} (chain : PoolChain mem last before adr xs)
    (same : ∀ w, w = last ∨ (∃ b ∈ xs, w = b.adr) → other w = mem w ∧ other (w + 8) = mem (w + 8)) : PoolChain other last before adr xs := by
  obtain ⟨behind, seg, marked⟩ := chain
  obtain ⟨lastBack, lastSize⟩ := same last (.inl rfl)
  exact ⟨behind, seg.congr fun b member => same b.adr (.inr ⟨b, member, rfl⟩), lastSize.trans marked.1, fun p told => lastBack.trans (marked.2 p told)⟩

theorem ordered_apart {xs : List PoolBlock} (ordered : xs.Pairwise fun a b => a.stop ≤ b.adr) {a b : PoolBlock} (first : a ∈ xs) (second : b ∈ xs) :
    a = b ∨ a.stop ≤ b.adr ∨ b.stop ≤ a.adr := by
  induction ordered with
  | nil => simp at first
  | cons head tail ih =>
      rcases List.mem_cons.mp first with rfl | early
      · rcases List.mem_cons.mp second with rfl | late
        · exact .inl rfl
        · exact .inr (.inl (head b late))
      · rcases List.mem_cons.mp second with rfl | late
        · exact .inr (.inr (head a early))
        · exact ih early late

def Closed (blocks : List PoolBlock) : Prop := ∀ b ∈ blocks.head?, b.free = false

theorem PoolChain.first {mem : ℕ → ℕ} {last adr : ℕ} {before : Option ℕ} {xs : List PoolBlock} (chain : PoolChain mem last before adr xs) :
    ∃ s free, 16 ∣ s ∧ adr + s ≤ last ∧ Marked mem adr s free before ∧ (free = false ↔ Closed xs) := by
  cases xs with
  | nil =>
      obtain ⟨behind, ⟨rfl, rfl⟩, marked⟩ := chain
      exact ⟨0, false, Nat.dvd_zero 16, le_rfl, marked, by simp [Closed]⟩
  | cons b rest =>
      obtain ⟨rfl, whole, _, marked, _, tail⟩ := (chain_cons mem last before adr b rest).mp chain
      have le := tail.span.1
      simp only [PoolBlock.stop] at le
      exact ⟨b.size, b.free, whole, by omega, marked, by simp [Closed]⟩

theorem PoolChain.remark {mem other : ℕ → ℕ} {last adr : ℕ} {before now : Option ℕ} {xs : List PoolBlock} (chain : PoolChain mem last before adr xs)
    (closed : Closed xs) (below : last < adr + 2 ^ 32)
    (size : ∀ s free, 16 ∣ s → s < 2 ^ 32 → mem (adr + 8) = header s free before.isSome → other (adr + 8) = header s free now.isSome)
    (back : ∀ p ∈ now, other adr = p)
    (same : ∀ w, w = last ∨ (∃ b ∈ xs, w = b.adr) → w ≠ adr → other w = mem w ∧ other (w + 8) = mem (w + 8)) :
    PoolChain other last now adr xs := by
  cases xs with
  | nil =>
      obtain ⟨behind, ⟨rfl, rfl⟩, marked⟩ := chain
      exact ⟨now, ⟨rfl, rfl⟩, size 0 false (Nat.dvd_zero 16) (by decide) marked.1, back⟩
  | cons b rest =>
      obtain ⟨rfl, whole, some, marked, _, behind, tail, final⟩ := (chain_cons mem last before adr b rest).mp chain
      have used : b.free = false := closed b rfl
      have span := tail.span
      simp only [PoolBlock.stop] at span
      have resized := size b.size b.free whole (by omega) marked.1
      refine (chain_cons other last now b.adr b rest).mpr ⟨rfl, whole, some, ⟨resized, back⟩, by simp [used], behind, tail.congr ?_, ?_⟩
      · intro c member
        have start := (span.2.2 c member).start
        exact same c.adr (.inr ⟨c, List.mem_cons_of_mem b member, rfl⟩) (by omega)
      · obtain ⟨lastBack, lastSize⟩ := same last (.inl rfl) (by omega)
        exact ⟨lastSize.trans final.1, fun p told => lastBack.trans (final.2 p told)⟩

-- The blocks as print_all_blocks walks them, up to the one that has no bytes.
def Tlsf.blocksFrom (t : Tlsf) : (fuel adr : ℕ) → List PoolBlock
  | 0, _ => []
  | fuel + 1, adr =>
      if blockSize (t.mem (adr + 8)) = 0 then []
      else ⟨adr, blockSize (t.mem (adr + 8)), t.mem (adr + 8) &&& 1 ≠ 0⟩ :: t.blocksFrom fuel (adr + 16 + blockSize (t.mem (adr + 8)))

theorem PoolChain.blocksFrom {t : Tlsf} {last adr : ℕ} {before : Option ℕ} {xs : List PoolBlock} (chain : PoolChain t.mem last before adr xs)
    (below : last < adr + 2 ^ 32) (fuel : ℕ) (enough : xs.length < fuel) : t.blocksFrom fuel adr = xs := by
  induction xs generalizing before adr fuel with
  | nil =>
      obtain ⟨behind, ⟨rfl, rfl⟩, marked⟩ := chain
      cases fuel with
      | zero => rfl
      | succ fuel =>
          have empty : blockSize (t.mem (adr + 8)) = 0 := by rw [marked.1, header_size (Nat.dvd_zero 16) _ _ (by decide)]
          rw [Tlsf.blocksFrom, if_pos empty]
  | cons b rest ih =>
      obtain ⟨rfl, whole, some, marked, _, tail⟩ := (chain_cons _ _ _ _ _ _).mp chain
      have span := tail.span.1
      simp only [PoolBlock.stop] at span
      cases fuel with
      | zero => simp at enough
      | succ fuel =>
          have sized : blockSize (t.mem (b.adr + 8)) = b.size := by rw [marked.1, header_size whole _ _ (by omega)]
          have free : decide (t.mem (b.adr + 8) &&& 1 ≠ 0) = b.free := by
            rw [Bool.eq_iff_iff, decide_eq_true_eq, marked.1]
            exact header_free whole _ _
          have rest_walk := ih tail (by simp only [PoolBlock.stop]; omega) fuel (by simpa using enough)
          simp only [PoolBlock.stop] at rest_walk
          rw [Tlsf.blocksFrom, sized, if_neg (by omega), free, rest_walk]

end SsAdma
