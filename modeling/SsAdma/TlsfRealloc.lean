import SsAdma.TlsfFree

set_option autoImplicit false

namespace SsAdma

section

variable {t s : Tlsf} {first last : ℕ} {h : Hole} {lists : ℕ × ℕ → List ℕ}

theorem Holds.store {blocks : List PoolBlock} (holds : Holds t first last blocks lists) (matrix : s.matrix = t.matrix)
    (slBitmap : s.slBitmap = t.slBitmap) (flBitmap : s.flBitmap = t.flBitmap)
    (same : ∀ w, (∀ k ∈ blocks, k.free = false → w < k.buffer ∨ k.stop ≤ w) → s.mem w = t.mem w) : Holds s first last blocks lists := by
  have inside := holds.inside
  have ordered := holds.chain.ordered
  -- Between two blocks nothing but the one it belongs to can hold a word.
  have own (b : PoolBlock) (among : b ∈ blocks) (w : ℕ) (low : b.adr ≤ w) (high : w < b.adr + 16 ∨ b.free = true ∧ w < b.stop) :
      s.mem w = t.mem w := by
    refine same w fun k member used => ?_
    have at_b := inside b among
    have at_k := inside k member
    simp only [PoolBlock.stop, PoolBlock.buffer] at at_b at_k high ⊢
    rcases ordered_apart ordered among member with rfl | before | behind
    · simp only [used, Bool.false_eq_true, false_and, or_false] at high
      omega
    · simp only [PoolBlock.stop] at before
      omega
    · simp only [PoolBlock.stop] at behind
      omega
  have final (w : ℕ) (high : last ≤ w) : s.mem w = t.mem w := by
    refine same w fun k member _ => ?_
    have at_k := inside k member
    omega
  refine ⟨holds.chain.congr fun w node => ?_, holds.free.congr matrix slBitmap flBitmap fun c a member => ?_, holds.listed, holds.room⟩
  · rcases node with rfl | ⟨b, among, rfl⟩
    · exact ⟨final _ le_rfl, final _ (by omega)⟩
    · exact ⟨own b among _ le_rfl (by omega), own b among _ (by omega) (by omega)⟩
  · obtain ⟨b, among, rfl, isFree, _⟩ := (holds.listed c a).mp member
    have at_b := inside b among
    simp only [PoolBlock.stop] at at_b
    exact ⟨own b among _ (by omega) (.inr ⟨isFree, by simp only [PoolBlock.stop]; omega⟩),
      own b among _ (by omega) (.inr ⟨isFree, by simp only [PoolBlock.stop]; omega⟩)⟩

namespace Gap

theorem fresh_block (gap : Gap t first last h lists) (b : PoolBlock) (place : b.adr = h.adr) : b ∉ h.blocks := by
  intro among
  have side := gap.side b among
  have := gap.enough
  simp only [PoolBlock.stop] at side
  omega

theorem tell (gap : Gap t first last h lists) (closed : Closed h.zs) (val : ℕ) :
    let s := (t.write h.stop val).write (h.stop + 8) (andNot ((t.write h.stop val).mem (h.stop + 8)) 2)
    Gap s first last h lists ∧ (∀ w, w ≠ h.stop → w ≠ h.stop + 8 → s.mem w = t.mem w) ∧
      s.mem (h.stop + 8) = andNot (t.mem (h.stop + 8)) 2 := by
  intro s
  have bounds := gap.bounds
  have room := gap.room
  have enough := gap.enough
  have same (w : ℕ) (notStop : w ≠ h.stop) (notSize : w ≠ h.stop + 8) : s.mem w = t.mem w := by
    rw [Tlsf.write_other _ _ _ notSize, Tlsf.write_other _ _ _ notStop]
  have told : s.mem (h.stop + 8) = andNot (t.mem (h.stop + 8)) 2 := by rw [Tlsf.write_same, Tlsf.write_other _ _ _ (by omega)]
  obtain ⟨other, chain⟩ := gap.tail
  have tail : PoolChain s.mem last none h.stop h.zs := by
    refine chain.remark closed (by omega) (fun z isFree even _ marked => ?_) (by simp) fun w node apart => ?_
    · rw [told, marked, header_and_not_two even]
      rfl
    · have aligned : w % 16 = h.stop % 16 := by
        rcases node with rfl | ⟨k, late, rfl⟩
        · exact chain.span.2.1
        · exact (chain.span.2.2 k late).aligned
      exact ⟨same w apart (by omega), same _ (by omega) (by omega)⟩
  refine ⟨⟨gap.front.congr fun k early => ?_, ⟨none, tail⟩, enough, gap.aligned, ?_, fun p marked => ?_, ?_, gap.listed, room⟩, same, told⟩
  · have inside := (gap.front.span.2.2 k early).stop
    simp only [PoolBlock.stop] at inside
    exact ⟨same _ (by omega) (by omega), same _ (by omega) (by omega)⟩
  · rw [same _ (by omega) (by omega)]
    exact gap.prev
  · rw [same _ (by omega) (by omega)]
    exact gap.back p marked
  · exact (gap.free.write _ _ ((gap.away_stop (.inl rfl)).linkless gap.listed)).write _ _ ((gap.away_stop (.inr rfl)).linkless gap.listed)

theorem takes_split (gap : Gap t first last h lists) (closed : Closed h.zs) (size rest : ℕ) (whole : 16 ∣ size) (some : 16 ≤ size)
    (left : 16 ∣ rest) (enough : 16 ≤ rest) (parts : h.stop = h.adr + 16 + size + 16 + rest) :
    ∃ others, Takes t (t.splitBlock h.adr h.stop size (rest + 16)) first last h.blocks ⟨h.adr, size, false⟩ others ∧
      ∀ w, h.adr + 16 ≤ w → w < h.adr + 16 + size → (t.splitBlock h.adr h.stop size (rest + 16)).mem w = t.mem w := by
  obtain ⟨settled, kept, own⟩ := gap.splitBlock closed size rest whole some left enough parts
  exact ⟨_, ⟨⟨_, settled⟩, rfl, gap.fresh_block _ rfl, fun j used => mem_split rfl used, kept⟩, own⟩

theorem growBlock (gap : Gap t first last h lists) {old size : ℕ} (word : t.mem (h.adr + 8) = header old false h.before.isSome)
    (stop : h.stop = h.adr + 16 + old) (set : t.mem (h.stop + 8) &&& 1 ≠ 0) (whole : 16 ∣ size) (some : 16 ≤ size) (larger : old ≤ size)
    (fits : size ≤ old + blockSize (t.mem (h.stop + 8))) :
    ∃ b others, b.adr = h.adr ∧ size ≤ b.size ∧ Takes t (t.growBlock h.adr size) first last h.blocks b others ∧
      ∀ w, h.adr + 16 ≤ w → w < h.stop → (t.growBlock h.adr size).mem w = t.mem w := by
  obtain ⟨zs, more, found, wide, wideWord, grown, closed, spares, own⟩ := gap.mergeNext word stop
  unfold Tlsf.growBlock
  dsimp only
  generalize t.mergeNext h.adr = u at wide wideWord spares own ⊢
  have total := grown set
  obtain ⟨even, _, below⟩ := wide.size_facts rfl
  have sized : blockSize (u.mem (h.adr + 8)) = more := by rw [wideWord, header_size even _ _ (by omega)]
  obtain ⟨told, same, toldSize⟩ := wide.tell closed h.adr
  dsimp only at told same toldSize
  rw [sized]
  generalize (u.write (h.adr + 16 + more) h.adr).write (h.adr + 16 + more + 8)
    (andNot ((u.write (h.adr + 16 + more) h.adr).mem (h.adr + 16 + more + 8)) 2) = v at told same toldSize ⊢
  have vWord : v.mem (h.adr + 8) = header more false h.before.isSome := by rw [same _ (by omega) (by omega), wideWord]
  have vSized : blockSize (v.mem (h.adr + 8)) = more := by rw [vWord, header_size even _ _ (by omega)]
  have kept (w : ℕ) (foreign : Foreign first last h.blocks w) : v.mem w = t.mem w := by
    have outside := (wide.foreign (spares.foreign foreign)).2
    dsimp only at outside
    rw [same _ (by omega) (by omega), spares.kept w foreign]
  have buffer (w : ℕ) (low : h.adr + 16 ≤ w) (high : w < h.stop) : v.mem w = t.mem w := by
    rw [same _ (by omega) (by omega), own w low high]
  by_cases large : more - size ≥ 32
  · obtain ⟨rest, parts⟩ : ∃ rest, more = size + 16 + rest := ⟨more - size - 16, by omega⟩
    obtain ⟨others, takes, cut⟩ := told.takes_split closed size rest whole some (by omega) (by omega) (by dsimp only; omega)
    rw [vSized, if_pos large, show more - size = rest + 16 by omega]
    refine ⟨⟨h.adr, size, false⟩, others, rfl, le_rfl, ⟨takes.holds, rfl, gap.fresh_block _ rfl, fun j used => ?_, fun w foreign => ?_⟩,
      fun w low high => ?_⟩
    · exact (takes.same j used).trans (or_congr_right (spares.same j used))
    · exact (takes.kept w (spares.foreign foreign)).trans (kept w foreign)
    · exact (cut w low (by dsimp only; omega)).trans (buffer w low high)
  · rw [vSized, if_neg large]
    have settled : Holds v first last (h.xs ++ ⟨h.adr, more, false⟩ :: zs) found := by
      refine wide.settle ⟨h.adr, more, false⟩ rfl rfl (by simp) closed vWord (fun z isFree other wholeZ marked => ?_) (by simp)
        (fun w _ notStop notSize => same w notStop notSize) told.free (wide.listed.use h.adr more)
      dsimp only at marked ⊢
      rw [toldSize, marked, header_and_not_two wholeZ]
    refine ⟨⟨h.adr, more, false⟩, _, rfl, by dsimp only; omega, ⟨⟨_, settled⟩, rfl, gap.fresh_block _ rfl, fun j used => ?_, kept⟩, buffer⟩
    rw [← spares.same j used]
    simp only [List.mem_append, List.mem_cons]
    tauto

end Gap

theorem Holds.shrinkBlock {xs zs : List PoolBlock} {k : PoolBlock} (holds : Holds t first last (xs ++ k :: zs) lists) (used : k.free = false) {size : ℕ}
    (whole : 16 ∣ size) (some : 16 ≤ size) (fits : size ≤ k.size) :
    ∃ b others, b.adr = k.adr ∧ size ≤ b.size ∧ Takes t (t.shrinkBlock k.adr size) first last (xs ++ zs) b others ∧
      ∀ w, k.buffer ≤ w → w < k.buffer + size → (t.shrinkBlock k.adr size).mem w = t.mem w := by
  obtain ⟨before, gap, word, _⟩ := holds.used_gap used
  obtain ⟨even, _, below⟩ := gap.size_facts rfl
  have sized : blockSize (t.mem (k.adr + 8)) = k.size := by rw [word, header_size even _ _ (by omega)]
  have behind : k.adr + 16 + k.size = k.stop := rfl
  unfold Tlsf.shrinkBlock
  simp only [sized, behind]
  rcases gap.behind_cases with ⟨n, rest, rfl, isFree⟩ | ⟨closed, clear⟩
  · obtain ⟨place, set, nextSized, nextWord, wide, closed, spares, own⟩ := gap.absorb isFree
    have large := (gap.inside n (by simp [Hole.blocks])).2.1
    have nextEven : 16 ∣ n.size := (gap.tail.choose_spec.span.2.2 n List.mem_cons_self).whole
    rw [if_pos set, nextSized, ← place]
    rw [← place] at nextSized nextWord
    generalize t.extractBlock n.adr (mappingInsert n.size).1 (mappingInsert n.size).2 = u at nextWord wide spares own ⊢
    obtain ⟨left, parts⟩ : ∃ left, k.size + (n.size + 16) = size + 16 + left := ⟨k.size + n.size - size, by omega⟩
    have enough : k.size + (n.size + 16) - size ≥ 32 := by omega
    rw [nextWord, nextSized, if_pos enough, show k.size + (n.size + 16) - size = left + 16 by omega]
    have stop : n.adr + 16 + n.size = k.adr + 16 + size + 16 + left := by
      rw [place]
      simp only [PoolBlock.stop]
      omega
    obtain ⟨others, takes, cut⟩ := wide.takes_split closed size left whole some (by omega) (by omega) stop
    refine ⟨⟨k.adr, size, false⟩, others, rfl, le_rfl, ⟨takes.holds, rfl, gap.fresh_block _ rfl, fun j isUsed => ?_, fun w foreign => ?_⟩,
      fun w low high => ?_⟩
    · exact (takes.same j isUsed).trans (or_congr_right (spares.same j isUsed))
    · exact (takes.kept w (spares.foreign foreign)).trans (spares.kept w foreign)
    · simp only [PoolBlock.buffer] at low high
      exact (cut w low high).trans (own w (by omega) (by omega))
  · have notSet : ¬ t.mem (k.stop + 8) &&& 1 ≠ 0 := by simpa using clear
    simp only [notSet, if_false]
    by_cases large : k.size - size ≥ 32
    · obtain ⟨left, parts⟩ : ∃ left, k.size = size + 16 + left := ⟨k.size - size - 16, by omega⟩
      rw [if_pos large, show k.size - size = left + 16 by omega]
      obtain ⟨others, takes, cut⟩ := gap.takes_split closed size left whole some (by omega) (by omega) (by dsimp only; omega)
      exact ⟨⟨k.adr, size, false⟩, others, rfl, le_rfl, takes, cut⟩
    · rw [if_neg large]
      refine ⟨k, _, rfl, fits, ⟨⟨_, holds⟩, used, gap.fresh_block k rfl, fun j _ => ?_, fun _ _ => rfl⟩, fun _ _ _ => rfl⟩
      simp only [List.mem_append, List.mem_cons]
      tauto

theorem Holds.word {blocks : List PoolBlock} (holds : Holds t first last blocks lists) {k : PoolBlock} (among : k ∈ blocks) :
    blockSize (t.mem (k.adr + 8)) = k.size ∧ (t.mem (k.adr + 8) &&& 1 ≠ 0 ↔ k.free = true) := by
  have small := holds.size_lt k among
  obtain ⟨xs, zs, rfl⟩ := List.append_of_mem among
  obtain ⟨_, _, _, chain⟩ := (chain_append _ _ _ _ _ _).mp holds.chain
  obtain ⟨_, even, _, marked, _, _⟩ := (chain_cons _ _ _ _ _ _).mp chain
  rw [marked.1]
  exact ⟨header_size even _ _ (by omega), header_free even _ _⟩

theorem Holds.same_block {blocks : List PoolBlock} (holds : Holds t first last blocks lists) {j k : PoolBlock} (one : j ∈ blocks) (two : k ∈ blocks)
    (same : j.adr = k.adr) : j = k := by
  rcases ordered_apart holds.chain.ordered one two with equal | before | behind
  · exact equal
  · simp only [PoolBlock.stop] at before
    omega
  · simp only [PoolBlock.stop] at behind
    omega

theorem memcpy_other (t : Tlsf) (dst src n : ℕ) {w : ℕ} (outside : w < dst ∨ dst + n ≤ w) : (t.memcpy dst src n).mem w = t.mem w := by
  have not : ¬ (dst ≤ w ∧ w < dst + n ∧ (w - dst) % 8 = 0) := by omega
  exact if_neg not

theorem memcpy_word (t : Tlsf) (dst src n i : ℕ) (whole : 8 ∣ i) (inside : i < n) : (t.memcpy dst src n).mem (dst + i) = t.mem (src + i) := by
  have taken : dst ≤ dst + i ∧ dst + i < dst + n ∧ (dst + i - dst) % 8 = 0 := by omega
  refine (if_pos taken).trans ?_
  rw [Nat.add_sub_cancel_left]

theorem Takes.move {xs zs others : List PoolBlock} {k b : PoolBlock} (takes : Takes t s first last (xs ++ k :: zs) b others) (used : k.free = false)
    (ordered : (xs ++ k :: zs).Pairwise fun a b => a.stop ≤ b.adr) (n : ℕ) (new : n ≤ b.size) (old : n ≤ k.size) :
    ∃ rest, Takes t ((s.memcpy b.buffer k.buffer n).freeEx k.buffer) first last (xs ++ zs) b rest ∧
      ∀ i, 8 ∣ i → i < n → ((s.memcpy b.buffer k.buffer n).freeEx k.buffer).mem (b.buffer + i) = t.mem (k.buffer + i) := by
  obtain ⟨lists, holds⟩ := takes.holds
  have alone := ordered_alone ordered
  have at_b : b ∈ others := (takes.same b takes.used).mpr (.inl rfl)
  have at_k : k ∈ others := (takes.same k used).mpr (.inr (by simp))
  have copied : Holds (s.memcpy b.buffer k.buffer n) first last others lists := by
    refine holds.store rfl rfl rfl fun w outside => memcpy_other _ _ _ _ ?_
    have apart := outside b at_b takes.used
    simp only [PoolBlock.stop, PoolBlock.buffer] at apart ⊢
    omega
  obtain ⟨ys, ws, rfl⟩ := List.append_of_mem at_k
  obtain ⟨rest, _, freed, spares⟩ := copied.freeEx used
  have left := ordered_alone holds.chain.ordered
  -- Of the used blocks k is gone.
  have without (j : PoolBlock) (isUsed : j.free = false) : j ∈ ys ++ ws ↔ j = b ∨ j ∈ xs ++ zs := by
    have mid := takes.same j isUsed
    have old (ps qs : List PoolBlock) : j ∈ ps ++ k :: qs ↔ j = k ∨ j ∈ ps ++ qs := by
      simp only [List.mem_append, List.mem_cons]
      tauto
    rw [old, old] at mid
    have notLeft : j ∈ ys ++ ws → j ≠ k := fun member same => left j member (by rw [same])
    have notOld : j ∈ xs ++ zs → j ≠ k := fun member same => alone j member (by rw [same])
    have notNew : j = b → j ≠ k := by
      rintro rfl rfl
      exact takes.fresh (by simp)
    tauto
  have new_kept : b ∈ ys ++ ws := (without b takes.used).mpr (.inl rfl)
  refine ⟨rest, ⟨⟨_, freed⟩, takes.used, fun member => takes.fresh ?_, fun j isUsed => ?_, fun w foreign => ?_⟩, fun i whole inside => ?_⟩
  · simp only [List.mem_append, List.mem_cons] at member ⊢
    tauto
  · exact (spares.same j isUsed).trans (without j isUsed)
  · have wider (j : PoolBlock) (among : j ∈ xs ++ zs) : j ∈ xs ++ k :: zs := by
      simp only [List.mem_append, List.mem_cons] at among ⊢
      tauto
    have still : Foreign first last (ys ++ ws) w := foreign.mono fun j among isUsed => (without j isUsed).mpr (.inr among)
    have before : Foreign first last (xs ++ k :: zs) w := foreign.mono fun j among _ => wider j among
    have apart : w < b.buffer ∨ b.stop ≤ w := by
      have pool := holds.inside b at_b
      rcases foreign with low | high | ⟨j, among, isUsed, start, stop⟩
      · simp only [PoolBlock.buffer]
        omega
      · omega
      · have member : j ∈ ys ++ k :: ws := (takes.same j isUsed).mpr (.inr (wider j among))
        rcases ordered_apart holds.chain.ordered at_b member with rfl | before | behind
        · exact absurd (wider b among) takes.fresh
        · simp only [PoolBlock.buffer] at start
          omega
        · simp only [PoolBlock.buffer]
          omega
    rw [spares.kept w still, memcpy_other _ _ _ _ (by simp only [PoolBlock.stop, PoolBlock.buffer] at apart ⊢; omega), takes.kept w before]
  · have own : Foreign first last (ys ++ ws) (b.buffer + i) :=
      .inr (.inr ⟨b, new_kept, takes.used, by omega, by simp only [PoolBlock.stop, PoolBlock.buffer]; omega⟩)
    have source : Foreign first last (xs ++ k :: zs) (k.buffer + i) :=
      .inr (.inr ⟨k, by simp, used, by omega, by simp only [PoolBlock.stop, PoolBlock.buffer]; omega⟩)
    rw [spares.kept _ own, memcpy_word _ _ _ _ _ whole inside, takes.kept _ source]

theorem searched_rounded (size : ℕ) : searched (if size < 16 then 16 else roundupSize size) = searched size := by
  have again : (if (if size < 16 then 16 else roundupSize size) < 16 then 16 else roundupSize (if size < 16 then 16 else roundupSize size)) =
      if size < 16 then 16 else roundupSize size := by
    rw [roundupSize_eq, roundupSize_eq]
    split_ifs <;> omega
  unfold searched
  rw [again]

theorem Holds.reallocEx {xs zs : List PoolBlock} {k : PoolBlock} (holds : Holds t first last (xs ++ k :: zs) lists) (used : k.free = false) (size : ℕ)
    (some_bytes : size ≠ 0) (room : size ≤ 2 ^ 30 - 2 ^ 24) :
    (t.reallocEx k.buffer size = none ∧ k.size < size ∧ ∀ j ∈ xs ++ k :: zs, j.free = true → j.size < searched size) ∨
      ∃ s b others, t.reallocEx k.buffer size = some (b.buffer, s) ∧ size ≤ b.size ∧ Takes t s first last (xs ++ zs) b others ∧
        ∀ i, 8 ∣ i → i < k.size → i < size → s.mem (b.buffer + i) = t.mem (k.buffer + i) := by
  obtain ⟨whole, fits, large, some, _⟩ := rounded_facts size room
  have small (i : ℕ) (inside : i < size) : i < if size < 16 then 16 else roundupSize size := by omega
  have tight (c : ℕ) (even : 16 ∣ c) (low : 16 ≤ c) (above : size ≤ c) : (if size < 16 then 16 else roundupSize size) ≤ c := by
    rw [roundupSize_eq]
    split <;> omega
  have rounded := searched_rounded size
  have buffer : k.buffer ≠ 0 := by simp [PoolBlock.buffer]
  have place : k.buffer - 16 = k.adr := by simp [PoolBlock.buffer]
  have sized := (holds.word (by simp : k ∈ xs ++ k :: zs)).1
  unfold Tlsf.reallocEx
  rw [if_neg buffer, if_neg some_bytes, place]
  generalize (if size < 16 then 16 else roundupSize size) = newSize at whole fits large some small tight rounded ⊢
  have behind : k.adr + 16 + k.size = k.stop := rfl
  simp only [sized, behind]
  by_cases inPlace : newSize ≤ k.size
  · obtain ⟨b, others, same, enough, takes, kept⟩ := holds.shrinkBlock used whole some inPlace
    rw [if_pos inPlace]
    refine .inr ⟨_, b, others, by rw [PoolBlock.buffer, same], by omega, takes, fun i _ _ inside => ?_⟩
    have below := small i inside
    rw [PoolBlock.buffer, same]
    exact kept _ (by simp [PoolBlock.buffer]) (by simp only [PoolBlock.buffer]; omega)
  · rw [if_neg inPlace]
    by_cases grows : t.mem (k.stop + 8) &&& 1 ≠ 0 ∧ newSize ≤ k.size + blockSize (t.mem (k.stop + 8))
    · obtain ⟨before, gap, word, _⟩ := holds.used_gap used
      obtain ⟨b, others, same, enough, takes, kept⟩ := gap.growBlock word rfl grows.1 whole some (by omega) grows.2
      rw [if_pos grows]
      refine .inr ⟨_, b, others, by rw [PoolBlock.buffer, same], by omega, takes, fun i _ inside _ => ?_⟩
      dsimp only at same kept
      rw [PoolBlock.buffer, same]
      exact kept _ (by omega) (by simp only [PoolBlock.stop]; omega)
    · rw [if_neg grows]
      rcases holds.mallocEx newSize fits with ⟨null, full⟩ | ⟨_, _, _, _, _, b, others, _, enough, buffer, takes⟩
      · have at_k := holds.chain.span.2.2 k (by simp)
        have larger : k.size < size := Nat.lt_of_not_le fun enough => inPlace (tight k.size at_k.whole at_k.some enough)
        simp only [null, if_true]
        exact .inl ⟨trivial, larger, fun j among isFree => rounded ▸ full j among isFree⟩
      · obtain ⟨lists, after⟩ := takes.holds
        have searchedSize := searched_facts newSize fits
        have still := (after.word ((takes.same k used).mpr (.inr (by simp)))).1
        have nonzero : b.buffer ≠ 0 := by simp [PoolBlock.buffer]
        have all : ¬ k.size > newSize := by omega
        simp only [still, buffer, nonzero, all, if_false]
        obtain ⟨rest, moved, kept⟩ := takes.move used holds.chain.ordered k.size (by omega) le_rfl
        exact .inr ⟨_, b, rest, rfl, by omega, moved, fun i wholeI inside _ => kept i wholeI inside⟩

theorem rounded_le (size c : ℕ) (whole : 16 ∣ c) (some : 16 ≤ c) : (if size < 16 then 16 else roundupSize size) ≤ c ↔ size ≤ c := by
  rw [roundupSize_eq]
  split <;> omega

theorem Holds.behind {blocks : List PoolBlock} (holds : Holds t first last blocks lists) {k : PoolBlock} (among : k ∈ blocks) (used : k.free = false) (bytes : ℕ) :
    t.mem (k.stop + 8) &&& 1 ≠ 0 ∧ bytes ≤ k.size + blockSize (t.mem (k.stop + 8)) ↔
      ∃ n ∈ blocks, n.adr = k.stop ∧ n.free = true ∧ bytes ≤ k.size + n.size := by
  constructor
  · rintro ⟨set, fits⟩
    obtain ⟨xs, zs, rfl⟩ := List.append_of_mem among
    obtain ⟨before, gap, _, _⟩ := holds.used_gap used
    rcases gap.behind_cases with ⟨n, rest, rfl, isFree⟩ | ⟨_, clear⟩
    · obtain ⟨place, _, sized, _⟩ := gap.absorb isFree
      exact ⟨n, by simp, place, isFree, sized ▸ fits⟩
    · exact absurd clear set
  · rintro ⟨n, inside, place, isFree, fits⟩
    obtain ⟨sized, free⟩ := holds.word inside
    rw [place] at sized free
    exact ⟨free.mpr isFree, sized.symm ▸ fits⟩

theorem Holds.reallocEx_none {blocks : List PoolBlock} (holds : Holds t first last blocks lists) {k : PoolBlock} (among : k ∈ blocks)
    (used : k.free = false) (size : ℕ) (some_bytes : size ≠ 0) (room : size ≤ 2 ^ 30 - 2 ^ 24) :
    t.reallocEx k.buffer size = none ↔ k.size < size ∧ (∀ n ∈ blocks, n.adr = k.stop → n.free = true → k.size + n.size < size) ∧
      ∀ j ∈ blocks, j.free = true → j.size < searched size := by
  obtain ⟨_, fits, _, _, _⟩ := rounded_facts size room
  have buffer : k.buffer ≠ 0 := by simp [PoolBlock.buffer]
  have place : k.buffer - 16 = k.adr := by simp [PoolBlock.buffer]
  have sized := (holds.word among).1
  have inside := holds.chain.span.2.2 k among
  have null := holds.mallocEx_null _ fits
  have next := holds.behind among used (if size < 16 then 16 else roundupSize size)
  have inPlace := rounded_le size k.size inside.whole inside.some
  have grows (n : PoolBlock) (member : n ∈ blocks) : (if size < 16 then 16 else roundupSize size) ≤ k.size + n.size ↔ size ≤ k.size + n.size := by
    have even := (holds.chain.span.2.2 n member).whole
    exact rounded_le size _ (Nat.dvd_add inside.whole even) (by have := inside.some; omega)
  have behind : k.adr + 16 + k.size = k.stop := rfl
  rw [searched_rounded] at null
  unfold Tlsf.reallocEx
  rw [if_neg buffer, if_neg some_bytes, place]
  generalize (if size < 16 then 16 else roundupSize size) = newSize at null next inPlace grows ⊢
  simp only [sized, behind]
  by_cases fitsHere : newSize ≤ k.size
  · rw [if_pos fitsHere]
    have enough := inPlace.mp fitsHere
    exact ⟨fun impossible => absurd impossible (by simp), fun facts => absurd facts.1 (Nat.not_lt.mpr enough)⟩
  · rw [if_neg fitsHere]
    have short : k.size < size := Nat.lt_of_not_le fun enough => fitsHere (inPlace.mpr enough)
    by_cases joins : t.mem (k.stop + 8) &&& 1 ≠ 0 ∧ newSize ≤ k.size + blockSize (t.mem (k.stop + 8))
    · obtain ⟨n, member, at_n, isFree, enough⟩ := next.mp joins
      rw [if_pos joins]
      refine ⟨fun impossible => absurd impossible (by simp), fun facts => ?_⟩
      exact absurd (facts.2.1 n member at_n isFree) (Nat.not_lt.mpr ((grows n member).mp enough))
    · have apart : ∀ n ∈ blocks, n.adr = k.stop → n.free = true → k.size + n.size < size := by
        intro n member at_n isFree
        by_contra enough
        exact joins (next.mpr ⟨n, member, at_n, isFree, (grows n member).mpr (Nat.not_lt.mp enough)⟩)
      rw [if_neg joins]
      by_cases found : (t.mallocEx newSize).1 = 0
      · simp only [found, if_true, true_iff]
        exact ⟨short, apart, null.mp found⟩
      · simp only [found, if_false, reduceCtorEq, false_iff]
        exact fun facts => found (null.mpr facts.2.2)

end

end SsAdma
