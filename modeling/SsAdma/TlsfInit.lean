import SsAdma.TlsfRealloc

set_option autoImplicit false

namespace SsAdma

theorem rounddownSize_eq (r : ℕ) : rounddownSize r = r / 16 * 16 := andNot_low r 4

theorem processArea_mem (t : Tlsf) (area size w : ℕ) (whole : 16 ∣ size) (large : 80 ≤ size) (below : size < 2 ^ 32) :
    (t.processArea area size).2.mem w =
      if w = area + 16 then area + (size - 16)
      else if w = area + 24 then 0
      else if w = area + (size - 16) + 8 then header 0 false true
      else if w = area + (size - 16) then area + 32
      else if w = area + 56 then 0
      else if w = area + 48 then 0
      else if w = area + 40 then header (size - 64) false false
      else if w = area + 8 then header 16 false false
      else t.mem w := by
  have own : roundupSize 16 ||| 0 ||| 0 = header 16 false false := by decide
  have ownSized : blockSize (header 16 false false) = 16 := by decide
  have block : rounddownSize (size - 3 * 16 - 16) ||| 0 ||| 0 = header (size - 64) false false := by
    rw [Nat.or_zero, Nat.or_zero, rounddownSize_eq]
    simp only [header, Bool.toNat_false]
    omega
  have sized : blockSize (header (size - 64) false false) = size - 64 := header_size (by omega) _ _ (by omega)
  have last : area + 16 + 16 + 16 + (size - 64) = area + (size - 16) := by omega
  unfold Tlsf.processArea Tlsf.setFreePtr
  simp only [Tlsf.write_same, own, ownSized, block]
  have read (u : Tlsf) (val : ℕ) : (((u.write (area + 16 + 16 + 8) val).write (area + 16 + 16 + 16) 0).write (area + 16 + 16 + 24) 0).mem
      (area + 16 + 16 + 8) = val := by
    rw [Tlsf.write_other _ _ _ (by omega), Tlsf.write_other _ _ _ (by omega), Tlsf.write_same]
  rw [read, sized, last]
  simp only [Tlsf.write, Function.update_apply, Nat.add_assoc, Nat.reduceAdd]
  rfl

theorem processArea_rest (t : Tlsf) (area size : ℕ) :
    (t.processArea area size).2.matrix = t.matrix ∧ (t.processArea area size).2.slBitmap = t.slBitmap ∧
      (t.processArea area size).2.flBitmap = t.flBitmap := by
  unfold Tlsf.processArea Tlsf.setFreePtr Tlsf.write
  exact ⟨rfl, rfl, rfl⟩

section

variable {poolSize pool : ℕ}

def poolFirst (pool : ℕ) : ℕ := pool + 6304

def poolBytes (poolSize : ℕ) : ℕ := (poolSize - 6264) / 16 * 16 - 64

def poolLast (poolSize pool : ℕ) : ℕ := poolFirst pool + 16 + poolBytes poolSize

theorem FreeLists.empty {t : Tlsf} (rest : ℕ) (matrix : t.matrix = fun _ _ => 0) (slBitmap : t.slBitmap = fun _ => 0) (flBitmap : t.flBitmap = 0) :
    FreeLists t rest fun _ => [] where
  linked _ := trivial
  head c := by rw [matrix]; rfl
  members := ⟨by simp, by simp, by simp, by simp⟩
  bitmaps := ⟨fun fl sl => by simp [slBitmap], fun fl => by simp [slBitmap, flBitmap]⟩

theorem Holds.all_free {t : Tlsf} {first last : ℕ} {blocks : List PoolBlock} {lists : ℕ × ℕ → List ℕ} (holds : Holds t first last blocks lists)
    (free : ∀ b ∈ blocks, b.free = true) (some : first < last) : blocks = [⟨first, last - first - 16, true⟩] := by
  have chain := holds.chain
  match blocks with
  | [] =>
      obtain ⟨_, ⟨_, same⟩, _⟩ := chain
      omega
  | [b] =>
      obtain ⟨place, _, _, _, _, _, ⟨_, stop⟩, _⟩ := (chain_cons _ _ _ _ _ _).mp chain
      simp only [PoolBlock.stop] at stop
      obtain ⟨adr, size, isFree⟩ := b
      obtain rfl : isFree = true := free _ List.mem_cons_self
      simp only at place stop
      simp only [List.cons.injEq, PoolBlock.mk.injEq, and_true]
      omega
  | b :: c :: rest =>
      obtain ⟨_, _, _, _, _, tail⟩ := (chain_cons _ _ _ _ _ _).mp chain
      obtain ⟨_, _, _, _, alone, _⟩ := (chain_cons _ _ _ _ _ _).mp tail
      have none := alone (free c (by simp))
      simp [PoolBlock.mark, free b List.mem_cons_self] at none

theorem processArea_gap (t : Tlsf) (area size : ℕ) (whole : 16 ∣ size) (large : 80 ≤ size) (below : size ≤ 2 ^ 30)
    (free : FreeLists t ((area + 32) % 16) fun _ => []) :
    Gap (t.processArea area size).2 (area + 32) (area + (size - 16)) ⟨[], none, area + 32, area + (size - 16), []⟩ fun _ => [] := by
  have mem (w : ℕ) := processArea_mem t area size w whole large (by omega)
  have lastSize : (t.processArea area size).2.mem (area + (size - 16) + 8) = header 0 false true := by
    rw [mem, if_neg (by omega), if_neg (by omega), if_pos rfl]
  have lastBack : (t.processArea area size).2.mem (area + (size - 16)) = area + 32 := by
    rw [mem, if_neg (by omega), if_neg (by omega), if_neg (by omega), if_pos rfl]
  refine ⟨⟨rfl, rfl⟩, ⟨some (area + 32), some (area + 32), ⟨rfl, rfl⟩, lastSize, by simpa using lastBack⟩, ?_, ?_, ?_, by simp, ?_, ?_, ?_⟩
  · dsimp only
    omega
  · dsimp only
    omega
  · dsimp only
    rw [mem, if_neg (by omega), if_neg (by omega), if_neg (by omega), if_neg (by omega), if_neg (by omega), if_neg (by omega),
      if_pos (by omega), header_prev (by omega)]
    rfl
  · obtain ⟨matrix, slBitmap, flBitmap⟩ := processArea_rest t area size
    exact free.congr matrix slBitmap flBitmap (by simp)
  · intro c a
    simp [Hole.blocks]
  · omega

theorem processArea_pool (t : Tlsf) (large : 6392 ≤ poolSize) (below : poolSize ≤ 2 ^ 30)
    (clear : FreeLists t ((pool + 6272 + 32) % 16) fun _ => []) :
    let s := (t.processArea (pool + 6272) (poolBytes poolSize + 64)).2
    Gap s (poolFirst pool) (poolLast poolSize pool) ⟨[], none, poolFirst pool, poolLast poolSize pool, []⟩ (fun _ => []) ∧
      s.mem (pool + 6272 + 8) = header 16 false false ∧ s.mem (poolFirst pool + 8) = header (poolBytes poolSize) false false ∧
      ∀ w, w < pool + 6272 ∨ poolLast poolSize pool + 16 ≤ w → s.mem w = t.mem w := by
  have bytes : 16 ∣ poolBytes poolSize + 64 ∧ 128 ≤ poolBytes poolSize + 64 ∧ poolBytes poolSize + 64 ≤ 2 ^ 30 := by
    simp only [poolBytes]
    omega
  have gap := processArea_gap t (pool + 6272) (poolBytes poolSize + 64) bytes.1 (by omega) bytes.2.2 clear
  have written (w : ℕ) := processArea_mem t (pool + 6272) (poolBytes poolSize + 64) w bytes.1 (by omega) (by omega)
  have first : pool + 6272 + 32 = poolFirst pool := rfl
  have last : pool + 6272 + (poolBytes poolSize + 64 - 16) = poolLast poolSize pool := by
    simp only [poolLast, poolFirst]
    omega
  rw [first, last] at gap
  refine ⟨gap, ?_, ?_, fun w away => ?_⟩
  · rw [written, if_neg (by omega), if_neg (by omega), if_neg (by omega), if_neg (by omega), if_neg (by omega), if_neg (by omega),
      if_neg (by omega), if_pos rfl]
  · simp only [poolFirst]
    rw [written, if_neg (by omega), if_neg (by omega), if_neg (by omega), if_neg (by omega), if_neg (by omega), if_neg (by omega),
      if_pos (by omega), Nat.add_sub_cancel]
  · rw [written]
    split_ifs <;> omega

structure PoolMade (before t : Tlsf) (poolSize pool : ℕ) : Prop where
  signed : t.Signed pool
  area : t.mem (pool + 6272 + 8) = header 16 false false
  outside : ∀ w, w < pool ∨ poolLast poolSize pool + 16 ≤ w → t.mem w = before.mem w

theorem PoolMade.kept {before t now : Tlsf} (made : PoolMade before t poolSize pool)
    (kept : ∀ w, w < poolFirst pool ∨ poolLast poolSize pool + 16 ≤ w → now.mem w = t.mem w) : PoolMade before now poolSize pool where
  signed := by
    have first := kept pool (.inl (by simp only [poolFirst]; omega))
    rw [Tlsf.Signed, first]
    exact made.signed
  area := (kept _ (.inl (by simp only [poolFirst]; omega))).trans made.area
  outside w away := (kept w (by simp only [poolFirst]; omega)).trans (made.outside w away)

theorem initMemoryPool_accepted (some_pool : pool ≠ 0) (aligned : 8 ∣ pool) (large : 6392 ≤ poolSize) :
    ¬ (pool = 0 ∨ poolSize = 0 ∨ poolSize < Tlsf.headSize + 16 * 8) ∧ ¬ pool &&& 7 ≠ 0 := by
  simp only [Tlsf.headSize]
  rw [Nat.and_two_pow_sub_one_eq_mod pool 3]
  omega

theorem area_start (pool : ℕ) : pool + roundupSize Tlsf.headSize = pool + 6272 := by
  rw [roundupSize_eq]
  rfl

theorem initMemoryPool_signed (t : Tlsf) (some_pool : pool ≠ 0) (aligned : 8 ∣ pool) (large : 6392 ≤ poolSize) (signed : t.Signed pool) :
    Tlsf.initMemoryPool poolSize pool t = some (blockSize (t.mem (pool + 6272 + 8)), t) := by
  obtain ⟨fits, word⟩ := initMemoryPool_accepted some_pool aligned large
  unfold Tlsf.initMemoryPool
  rw [if_neg fits, if_neg word, if_pos signed, area_start]

theorem initMemoryPool_holds (before : Tlsf) (some_pool : pool ≠ 0) (aligned : 8 ∣ pool) (large : 6392 ≤ poolSize) (below : poolSize ≤ 2 ^ 30)
    (unsigned : ¬ before.Signed pool) :
    ∃ t lists, Tlsf.initMemoryPool poolSize pool before = some (poolBytes poolSize, t) ∧
      Holds t (poolFirst pool) (poolLast poolSize pool) [⟨poolFirst pool, poolBytes poolSize, true⟩] lists ∧
      PoolMade before t poolSize pool := by
  obtain ⟨fits, word⟩ := initMemoryPool_accepted some_pool aligned large
  have tail : rounddownSize (poolSize - Tlsf.headSize) = poolBytes poolSize + 64 := by
    rw [rounddownSize_eq, poolBytes, Tlsf.headSize]
    omega
  have clear : FreeLists (before.newHead pool) ((pool + 6272 + 32) % 16) fun _ => [] := .empty _ rfl rfl rfl
  have first : (before.newHead pool).mem pool = Tlsf.tlsfSignature := Tlsf.write_same _ _ _
  have rest (w : ℕ) (other : w ≠ pool) : (before.newHead pool).mem w = before.mem w := Tlsf.write_other _ _ _ other
  unfold Tlsf.initMemoryPool
  rw [if_neg fits, if_neg word, if_neg unsigned]
  dsimp only
  rw [area_start, tail]
  generalize before.newHead pool = t at clear first rest ⊢
  obtain ⟨gap, own, block, outside⟩ := processArea_pool t large below clear
  have area : (t.processArea (pool + 6272) (poolBytes poolSize + 64)).1 = pool + 6272 := rfl
  rw [area, own]
  generalize (t.processArea (pool + 6272) (poolBytes poolSize + 64)).2 = s at gap own block outside ⊢
  obtain ⟨others, lists, holds, spares⟩ := gap.freeEx block rfl
  have free : ∀ b ∈ others, b.free = true := by
    intro b among
    by_contra used
    simpa [Hole.blocks] using (spares.same b (by simpa using used)).mp among
  have whole := holds.all_free free (by simp only [poolLast]; omega)
  have left : poolLast poolSize pool - poolFirst pool - 16 = poolBytes poolSize := by
    simp only [poolLast]
    omega
  rw [left] at whole
  subst whole
  obtain ⟨_, even, _, marked, _, _⟩ := (chain_cons _ _ _ _ _ _).mp holds.chain
  have small : blockSize (header 16 false false) = 16 := by decide
  have returned : blockSize ((s.freeEx (poolFirst pool + 16)).mem (poolFirst pool + 8)) = poolBytes poolSize := by
    rw [marked.1, header_size even _ _ (by simp only [poolBytes]; omega)]
  rw [small, show pool + 6272 + 16 + 16 = poolFirst pool from rfl, returned]
  have kept (w : ℕ) (away : w < poolFirst pool ∨ poolLast poolSize pool + 16 ≤ w) :
      (s.freeEx (poolFirst pool + 16)).mem w = s.mem w := spares.kept w (away.imp_right .inl)
  have made : PoolMade before s poolSize pool := by
    refine ⟨?_, own, fun w away => ?_⟩
    · rw [Tlsf.Signed, outside pool (by omega), first]
      decide
    · rw [outside w (by omega), rest w (by simp only [poolLast, poolFirst] at away; omega)]
  exact ⟨s.freeEx (poolFirst pool + 16), lists, rfl, holds, made.kept kept⟩

end

end SsAdma
