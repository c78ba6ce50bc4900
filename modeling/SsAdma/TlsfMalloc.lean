import SsAdma.TlsfGap

set_option autoImplicit false

namespace SsAdma

def searched (size : ℕ) : ℕ := (mappingSearch (if size < 16 then 16 else roundupSize size)).1

theorem mallocEx_eq (t : Tlsf) (size : ℕ) :
    t.mallocEx size =
      let c := (mappingSearch (if size < 16 then 16 else roundupSize size)).2
      let found := t.findSuitableBlock c.1 c.2
      if found.1 = 0 then (0, t)
      else (found.1 + 16, (t.extractBlockHdr found.1 found.2.1 found.2.2).useBlock found.1 (searched size)) := rfl

theorem roundupSize_eq (r : ℕ) : roundupSize r = (r + 15) / 16 * 16 := andNot_low (r + 15) 4

theorem rounded_facts (size : ℕ) (room : size ≤ 2 ^ 30 - 2 ^ 24) :
    16 ∣ (if size < 16 then 16 else roundupSize size) ∧ (if size < 16 then 16 else roundupSize size) ≤ 2 ^ 30 - 2 ^ 24 ∧
      size ≤ (if size < 16 then 16 else roundupSize size) ∧ 16 ≤ (if size < 16 then 16 else roundupSize size) ∧
      (if size < 16 then 16 else roundupSize size) ≤ size + 16 := by
  rw [roundupSize_eq]
  split <;> omega

theorem searched_facts (size : ℕ) (room : size ≤ 2 ^ 30 - 2 ^ 24) :
    16 ∣ searched size ∧ 16 ≤ searched size ∧ size ≤ searched size ∧ searched size ≤ size + 16 + (size + 16) / 32 := by
  obtain ⟨whole, fits, large, some, close⟩ := rounded_facts size room
  obtain ⟨_, _, _, even, up, bounded⟩ := mappingSearch_class _ whole fits
  unfold searched
  omega

structure Takes (t s : Tlsf) (first last : ℕ) (blocks : List PoolBlock) (b : PoolBlock) (others : List PoolBlock) : Prop where
  holds : ∃ lists, Holds s first last others lists
  used : b.free = false
  fresh : b ∉ blocks
  same : ∀ k, k.free = false → (k ∈ others ↔ k = b ∨ k ∈ blocks)
  kept : ∀ w, Foreign first last blocks w → s.mem w = t.mem w

section

variable {t : Tlsf} {first last : ℕ} {lists : ℕ × ℕ → List ℕ}

theorem write_itself (t : Tlsf) (adr val : ℕ) (held : t.mem adr = val) : t.write adr val = t := by
  subst held
  simp [Tlsf.write]

theorem Gap.useWhole {h : Hole} (gap : Gap t first last h lists) (closed : Closed h.zs) (unmarked : h.before = none) {size : ℕ}
    (word : t.mem (h.adr + 8) = header size true false) (stop : h.stop = h.adr + 16 + size) :
    let s := (t.write (h.stop + 8) (andNot (t.mem (h.stop + 8)) 2))
    let u := s.write (h.adr + 8) (andNot (s.mem (h.adr + 8)) 1)
    Holds u first last (h.xs ++ ⟨h.adr, size, false⟩ :: h.zs) lists ∧
      ∀ w, Foreign first last h.blocks w → u.mem w = t.mem w := by
  intro s u
  obtain ⟨whole, some, below⟩ := gap.size_facts stop
  have bounds := gap.bounds
  have ownWord : s.mem (h.adr + 8) = header size true false := by rw [Tlsf.write_other _ _ _ (by omega), word]
  have free : FreeLists u (first % 16) lists :=
    (gap.free.write _ _ ((gap.away_stop (.inr rfl)).linkless gap.listed)).write _ _
      ((gap.away_hole (by omega) (by omega)).linkless gap.listed)
  have same (w : ℕ) (notOwn : w ≠ h.adr + 8) (notSize : w ≠ h.stop + 8) : u.mem w = t.mem w := by
    rw [Tlsf.write_other _ _ _ notOwn, Tlsf.write_other _ _ _ notSize]
  refine ⟨gap.settle ⟨h.adr, size, false⟩ rfl stop.symm (by simp) closed ?_ ?_ (by simp) ?_ free (gap.listed.use h.adr size), ?_⟩
  · dsimp only
    rw [Tlsf.write_same, ownWord, header_and_not_one whole, unmarked]
    rfl
  · intro z isFree other even told
    rw [Tlsf.write_other _ _ _ (by omega), Tlsf.write_same, told, header_and_not_two even]
  · intro w place notStop notSize
    rcases place with rfl | ⟨k, among, place⟩ | place
    · exact same _ (by omega) notSize
    · have side := gap.side k among
      simp only [PoolBlock.stop] at side
      exact same w (by omega) notSize
    · exact same w (by omega) notSize
  · intro w foreign
    have outside := (gap.foreign foreign).2
    exact same w (by omega) (by omega)

theorem useBlock_split {h : Hole} (gap : Gap t first last h lists) (tail : PoolChain t.mem last (some h.adr) h.stop h.zs) (size rest : ℕ)
    (word : t.mem (h.adr + 8) = header (size + 16 + rest) true false) (stop : h.stop = h.adr + 16 + (size + 16 + rest)) (enough : 16 ≤ rest) :
    t.useBlock h.adr size = t.splitBlock h.adr h.stop size (rest + 16) := by
  obtain ⟨whole, some, below⟩ := gap.size_facts stop
  have sized : blockSize (t.mem (h.adr + 8)) = size + 16 + rest := by rw [word, header_size whole _ _ (by omega)]
  obtain ⟨z, free, even, _, marked, _⟩ := tail.first
  unfold Tlsf.useBlock Tlsf.splitBlock
  have large : rest + 16 ≥ 32 := by omega
  simp only [sized, ← stop, show size + 16 + rest - size = rest + 16 by omega, large, if_true]
  rw [write_itself _ (h.stop + 8)]
  rw [Tlsf.write_other _ _ _ (by omega), Tlsf.write_other _ _ _ (by omega), marked.1]
  exact (header_or_two even _ _).symm

theorem FreeLists.extractBlockHdr {rest : ℕ} (free : FreeLists t rest lists) (b : ℕ) (c : ℕ × ℕ) (isHead : (lists c).head? = some b) :
    t.extractBlockHdr b c.1 c.2 = t.extractBlock b c.1 c.2 := by
  have member : b ∈ lists c := List.mem_of_mem_head? isHead
  obtain ⟨xs, ys, placed⟩ := free.place c b member
  have nodup := free.members.nodup c
  have listed := placed.listed
  have between := placed.between
  cases xs with
  | nil =>
      refine extractBlockHdr_eq t b c.1 c.2 ?_ between.back (between.next ▸ between.behind)
      rw [free.head c, listed]
      rfl
  | cons x more =>
      rw [listed, List.cons_append, List.head?_cons] at isHead
      rw [listed, Option.some.inj isHead, List.cons_append] at nodup
      exact absurd (List.mem_append_right more List.mem_cons_self) (List.nodup_cons.mp nodup).1

theorem Holds.extractHdr {blocks : List PoolBlock} (holds : Holds t first last blocks lists) (b : ℕ) (c : ℕ × ℕ) (isHead : (lists c).head? = some b) :
    b ≠ 0 ∧ ∃ xs k zs, blocks = xs ++ k :: zs ∧ k.free = true ∧ k.adr = b ∧ mappingInsert k.size = c ∧
      t.extractBlockHdr b c.1 c.2 = t.extractBlock k.adr (mappingInsert k.size).1 (mappingInsert k.size).2 := by
  have member : b ∈ lists c := List.mem_of_mem_head? isHead
  obtain ⟨k, among, place, free, level⟩ := (holds.listed c b).mp member
  obtain ⟨xs, zs, rfl⟩ := List.append_of_mem among
  refine ⟨(holds.free.members.nodes c b member).1.ne', xs, k, zs, rfl, free, place, level, ?_⟩
  rw [holds.free.extractBlockHdr b c isHead, place, level]

theorem mem_split {xs zs : List PoolBlock} {b rest j : PoolBlock} (isFree : rest.free = true) (used : j.free = false) :
    j ∈ xs ++ [b] ++ rest :: zs ↔ j = b ∨ j ∈ xs ++ zs := by
  simp only [List.mem_append, List.mem_cons, List.not_mem_nil, or_false]
  constructor
  · rintro ((early | rfl) | rfl | late)
    · exact .inr (.inl early)
    · exact .inl rfl
    · simp [isFree] at used
    · exact .inr (.inr late)
  · rintro (rfl | early | late)
    · exact .inl (.inr rfl)
    · exact .inl (.inl early)
    · exact .inr (.inr late)

theorem Spares.takes {s u : Tlsf} {xs zs others : List PoolBlock} {k b : PoolBlock} (spares : Spares first last (xs ++ k :: zs) (xs ++ zs) t s)
    (ordered : (xs ++ k :: zs).Pairwise fun a b => a.stop ≤ b.adr) (used : b.free = false) (place : b.adr = k.adr)
    (holds : ∃ lists, Holds u first last others lists) (same : ∀ j, j.free = false → (j ∈ others ↔ j = b ∨ j ∈ xs ++ zs))
    (kept : ∀ w, Foreign first last (xs ++ zs) w → u.mem w = s.mem w) :
    Takes t u first last (xs ++ k :: zs) b others where
  holds := holds
  used := used
  fresh member := ordered_alone ordered b ((spares.same b used).mpr member) place
  same j isUsed := (same j isUsed).trans (or_congr_right (spares.same j isUsed))
  kept w foreign := (kept w (spares.foreign foreign)).trans (spares.kept w foreign)

theorem Holds.mallocEx {blocks : List PoolBlock} (holds : Holds t first last blocks lists) (size : ℕ) (room : size ≤ 2 ^ 30 - 2 ^ 24) :
    (t.mallocEx size = (0, t) ∧ ∀ k ∈ blocks, k.free = true → k.size < searched size) ∨
      ∃ k ∈ blocks, k.free = true ∧ searched size ≤ k.size ∧
        (∀ j ∈ blocks, j.free = true → searched size ≤ j.size → ClassLe (mappingInsert k.size) (mappingInsert j.size)) ∧
        ∃ b others, b.adr = k.adr ∧ searched size ≤ b.size ∧ (t.mallocEx size).1 = b.buffer ∧
          Takes t (t.mallocEx size).2 first last blocks b others := by
  obtain ⟨whole, fits, large, some, _⟩ := rounded_facts size room
  have suits (k : PoolBlock) (among : k ∈ blocks) := suits_iff _ k.size whole fits (by have := holds.size_lt k among; omega)
  obtain ⟨even, least, _, _⟩ := searched_facts size room
  change ∀ k ∈ blocks, ClassLe _ _ ↔ searched size ≤ k.size at suits
  rw [mallocEx_eq]
  generalize (mappingSearch (if size < 16 then 16 else roundupSize size)).2 = c at suits
  have find := holds.free.findSuitableBlock_least c.1 c.2
  dsimp only
  generalize t.findSuitableBlock c.1 c.2 = answer at find
  obtain ⟨b, d⟩ := answer
  dsimp only at find ⊢
  rcases find with ⟨zero, empty⟩ | ⟨isHead, above, lowest⟩
  · refine .inl ⟨if_pos zero, fun k among free => ?_⟩
    by_contra enough
    have none := empty _ ((suits k among).mpr (Nat.not_lt.mp enough))
    have listed := (holds.listed _ k.adr).mpr ⟨k, among, rfl, free, rfl⟩
    simp [none] at listed
  · obtain ⟨nonzero, xs, k, zs, rfl, free, rfl, rfl, extracted⟩ := holds.extractHdr b d isHead
    have among : k ∈ xs ++ k :: zs := by simp
    have enough := (suits k among).mp above
    refine .inr ⟨k, among, free, enough, fun j inside isFree fits => ?_, ?_⟩
    · exact lowest _ ((suits j inside).mpr fits) (List.ne_nil_of_mem ((holds.listed _ j.adr).mpr ⟨j, inside, rfl, isFree, rfl⟩))
    · obtain ⟨gap, word, tail, closed, spares⟩ := holds.free_gap free
      have ordered := holds.chain.ordered
      rw [if_neg nonzero, extracted]
      dsimp only
      generalize t.extractBlock k.adr (mappingInsert k.size).1 (mappingInsert k.size).2 = s at gap word tail spares
      have aligned : 16 ∣ k.size ∧ 16 ≤ k.size ∧ k.size < 2 ^ 30 := gap.size_facts rfl
      by_cases rest : searched size + 32 ≤ k.size
      · obtain ⟨left, parts⟩ : ∃ left, k.size = searched size + 16 + left := ⟨k.size - searched size - 16, by omega⟩
        have stop : k.stop = k.adr + 16 + searched size + 16 + left := by
          simp only [PoolBlock.stop]
          omega
        have cut := useBlock_split gap tail (searched size) left (by rw [← parts]; exact word) (by dsimp only; omega) (by omega)
        obtain ⟨settled, kept, _⟩ := gap.splitBlock closed (searched size) left even least (by omega) (by omega) stop
        rw [cut]
        exact ⟨⟨k.adr, searched size, false⟩, _, rfl, le_rfl, rfl, spares.takes ordered rfl rfl ⟨_, settled⟩ (fun _ => mem_split rfl) kept⟩
      · have sized : blockSize (s.mem (k.adr + 8)) = k.size := by rw [word, header_size aligned.1 _ _ (by omega)]
        have short : ¬ k.size - searched size ≥ 32 := by omega
        obtain ⟨settled, kept⟩ := gap.useWhole closed rfl word rfl
        unfold Tlsf.useBlock
        simp only [sized, short, if_false]
        refine ⟨⟨k.adr, k.size, false⟩, _, rfl, enough, rfl, spares.takes ordered rfl rfl ⟨_, settled⟩ (fun j _ => ?_) kept⟩
        simp only [List.mem_append, List.mem_cons]
        exact ⟨fun member => by tauto, fun member => by tauto⟩

theorem Holds.mallocEx_null {blocks : List PoolBlock} (holds : Holds t first last blocks lists) (size : ℕ) (room : size ≤ 2 ^ 30 - 2 ^ 24) :
    (t.mallocEx size).1 = 0 ↔ ∀ k ∈ blocks, k.free = true → k.size < searched size := by
  rcases holds.mallocEx size room with ⟨null, full⟩ | ⟨k, among, free, fits, _, b, _, _, _, buffer, _⟩
  · rw [null]
    exact ⟨fun _ => full, fun _ => rfl⟩
  · rw [buffer]
    refine ⟨fun zero => absurd zero (by simp [PoolBlock.buffer]), fun full => ?_⟩
    exact absurd (full k among free) (Nat.not_lt.mpr fits)

end

end SsAdma
