import SsAdma.TlsfBlocks
import SsAdma.TlsfLists

set_option autoImplicit false

namespace SsAdma

def Listed (blocks : List PoolBlock) (lists : ℕ × ℕ → List ℕ) : Prop :=
  ∀ c a, a ∈ lists c ↔ ∃ b ∈ blocks, b.adr = a ∧ b.free = true ∧ mappingInsert b.size = c

structure Holds (t : Tlsf) (first last : ℕ) (blocks : List PoolBlock) (lists : ℕ × ℕ → List ℕ) : Prop where
  chain : PoolChain t.mem last none first blocks
  free : FreeLists t (first % 16) lists
  listed : Listed blocks lists
  room : 0 < first ∧ last ≤ first + 2 ^ 30

structure Hole where
  xs : List PoolBlock
  before : Option ℕ
  adr : ℕ
  stop : ℕ
  zs : List PoolBlock

def Hole.blocks (h : Hole) : List PoolBlock := h.xs ++ h.zs

-- A pool in a call. What stands at the beginning of the hole tells no more than
-- what lies before it, and the block behind the hole may have been told
-- anything.
structure Gap (t : Tlsf) (first last : ℕ) (h : Hole) (lists : ℕ × ℕ → List ℕ) : Prop where
  front : Seg t.mem none first h.xs h.before h.adr
  tail : ∃ other, PoolChain t.mem last other h.stop h.zs
  enough : h.adr + 32 ≤ h.stop
  aligned : h.stop % 16 = h.adr % 16
  prev : t.mem (h.adr + 8) &&& 2 = 2 * h.before.isSome.toNat
  back : ∀ p ∈ h.before, t.mem h.adr = p
  free : FreeLists t (first % 16) lists
  listed : Listed h.blocks lists
  room : 0 < first ∧ last ≤ first + 2 ^ 30

def Away (blocks : List PoolBlock) (w : ℕ) : Prop := ∀ k ∈ blocks, k.free = true → w < k.adr + 16 ∨ k.adr + 32 ≤ w

def Foreign (first last : ℕ) (blocks : List PoolBlock) (w : ℕ) : Prop :=
  w < first ∨ last + 16 ≤ w ∨ ∃ k ∈ blocks, k.free = false ∧ k.buffer ≤ w ∧ w < k.stop

theorem Foreign.mono {first last : ℕ} {blocks others : List PoolBlock} {w : ℕ} (foreign : Foreign first last blocks w)
    (more : ∀ k ∈ blocks, k.free = false → k ∈ others) : Foreign first last others w := by
  rcases foreign with low | high | ⟨k, among, used, place⟩
  · exact .inl low
  · exact .inr (.inl high)
  · exact .inr (.inr ⟨k, more k among used, used, place⟩)

theorem ordered_away {blocks : List PoolBlock} (ordered : blocks.Pairwise fun a b => a.stop ≤ b.adr) (large : ∀ k ∈ blocks, 16 ≤ k.size) {b : PoolBlock}
    (among : b ∈ blocks) {w : ℕ} (place : w = b.adr ∨ w = b.adr + 8 ∨ b.free = false ∧ b.buffer ≤ w ∧ w < b.stop) : Away blocks w := by
  intro k member free
  have size := large b among
  have kSize := large k member
  simp only [PoolBlock.buffer, PoolBlock.stop] at place
  rcases ordered_apart ordered among member with rfl | before | behind
  · simp only [free, Bool.true_eq_false, false_and, or_false] at place
    omega
  · simp only [PoolBlock.stop] at before
    omega
  · simp only [PoolBlock.stop] at behind
    omega

theorem outside_away {first last : ℕ} {blocks : List PoolBlock} (inside : ∀ k ∈ blocks, first ≤ k.adr ∧ 16 ≤ k.size ∧ k.stop ≤ last) {w : ℕ}
    (outside : w < first ∨ last ≤ w) : Away blocks w := by
  intro k among _
  have span := inside k among
  simp only [PoolBlock.stop] at span
  omega

theorem Foreign.away {first last : ℕ} {blocks : List PoolBlock} {w : ℕ} (foreign : Foreign first last blocks w)
    (ordered : blocks.Pairwise fun a b => a.stop ≤ b.adr) (inside : ∀ k ∈ blocks, first ≤ k.adr ∧ 16 ≤ k.size ∧ k.stop ≤ last) :
    Away blocks w := by
  rcases foreign with low | high | ⟨k, among, place⟩
  · exact outside_away inside (.inl low)
  · exact outside_away inside (.inr (by omega))
  · exact ordered_away ordered (fun b member => (inside b member).2.1) among (.inr (.inr place))

theorem Foreign.not_free {first last : ℕ} {blocks : List PoolBlock} {w : ℕ} (foreign : Foreign first last blocks w)
    (ordered : blocks.Pairwise fun a b => a.stop ≤ b.adr) (inside : ∀ k ∈ blocks, first ≤ k.adr ∧ 16 ≤ k.size ∧ k.stop ≤ last) {q : PoolBlock}
    (among : q ∈ blocks) (isFree : q.free = true) : w < q.adr ∨ q.stop ≤ w := by
  obtain ⟨low, _, high⟩ := inside q among
  rcases foreign with below | above | ⟨b, member, used, start, stop⟩
  · omega
  · omega
  · rcases ordered_apart ordered member among with rfl | before | behind
    · simp [isFree] at used
    · omega
    · simp only [PoolBlock.buffer] at start
      omega

theorem Away.linkless {blocks : List PoolBlock} {lists : ℕ × ℕ → List ℕ} {w : ℕ} (away : Away blocks w) (listed : Listed blocks lists) :
    ∀ c, ∀ a ∈ lists c, w ≠ a + 16 ∧ w ≠ a + 24 := by
  intro c a member
  obtain ⟨b, among, rfl, free, _⟩ := (listed c a).mp member
  have := away b among free
  omega

theorem Listed.push {xs zs : List PoolBlock} {lists : ℕ × ℕ → List ℕ} (listed : Listed (xs ++ zs) lists) (adr size : ℕ) :
    Listed (xs ++ ⟨adr, size, true⟩ :: zs) (pushed lists (mappingInsert size) adr) := by
  intro c a
  rw [mem_pushed, listed c a]
  constructor
  · rintro (⟨rfl, rfl⟩ | ⟨b, among, place, free, level⟩)
    · exact ⟨⟨a, size, true⟩, by simp, rfl, rfl, rfl⟩
    · exact ⟨b, List.mem_append.mpr ((List.mem_append.mp among).imp_right (List.mem_cons_of_mem _)), place, free, level⟩
  · rintro ⟨b, among, place, free, level⟩
    rcases List.mem_append.mp among with early | late
    · exact .inr ⟨b, List.mem_append_left zs early, place, free, level⟩
    · rcases List.mem_cons.mp late with rfl | later
      · exact .inl ⟨place.symm, level.symm⟩
      · exact .inr ⟨b, List.mem_append_right xs later, place, free, level⟩

theorem Listed.use {xs zs : List PoolBlock} {lists : ℕ × ℕ → List ℕ} (listed : Listed (xs ++ zs) lists) (adr size : ℕ) :
    Listed (xs ++ ⟨adr, size, false⟩ :: zs) lists := by
  intro c a
  rw [listed c a]
  constructor
  · rintro ⟨b, among, rest⟩
    exact ⟨b, List.mem_append.mpr ((List.mem_append.mp among).imp_right (List.mem_cons_of_mem _)), rest⟩
  · rintro ⟨b, among, place, free, level⟩
    rcases List.mem_append.mp among with early | late
    · exact ⟨b, List.mem_append_left zs early, place, free, level⟩
    · rcases List.mem_cons.mp late with rfl | later
      · simp at free
      · exact ⟨b, List.mem_append_right xs later, place, free, level⟩

theorem Listed.unused {xs zs : List PoolBlock} {lists : ℕ × ℕ → List ℕ} {k : PoolBlock} (listed : Listed (xs ++ k :: zs) lists) (used : k.free = false) :
    Listed (xs ++ zs) lists := by
  intro c a
  rw [listed c a]
  constructor
  · rintro ⟨b, among, place, free, level⟩
    rcases List.mem_append.mp among with early | late
    · exact ⟨b, List.mem_append_left zs early, place, free, level⟩
    · rcases List.mem_cons.mp late with rfl | later
      · simp [used] at free
      · exact ⟨b, List.mem_append_right xs later, place, free, level⟩
  · rintro ⟨b, among, rest⟩
    exact ⟨b, List.mem_append.mpr ((List.mem_append.mp among).imp_right (List.mem_cons_of_mem _)), rest⟩

theorem Listed.erase {xs zs : List PoolBlock} {lists : ℕ × ℕ → List ℕ} {k : PoolBlock} {rest : ℕ} (listed : Listed (xs ++ k :: zs) lists)
    (members : Members rest lists) (free : k.free = true) (alone : ∀ b ∈ xs ++ zs, b.adr ≠ k.adr) :
    Listed (xs ++ zs) (erased lists (mappingInsert k.size) k.adr) := by
  have member : k.adr ∈ lists (mappingInsert k.size) := (listed _ _).mpr ⟨k, by simp, rfl, free, rfl⟩
  intro c a
  rw [members.mem_erased _ _ _ _ member, listed c a]
  constructor
  · rintro ⟨apart, b, among, rfl, isFree, level⟩
    rcases List.mem_append.mp among with early | late
    · exact ⟨b, List.mem_append_left zs early, rfl, isFree, level⟩
    · rcases List.mem_cons.mp late with rfl | later
      · exact absurd rfl apart
      · exact ⟨b, List.mem_append_right xs later, rfl, isFree, level⟩
  · rintro ⟨b, among, rfl, isFree, level⟩
    exact ⟨alone b among, b, List.mem_append.mpr ((List.mem_append.mp among).imp_right (List.mem_cons_of_mem _)), rfl, isFree, level⟩

namespace Gap

variable {t s : Tlsf} {first last : ℕ} {h : Hole} {lists : ℕ × ℕ → List ℕ}

theorem bounds (gap : Gap t first last h lists) :
    first ≤ h.adr ∧ h.adr % 16 = first % 16 ∧ h.stop ≤ last ∧ last % 16 = first % 16 ∧ last < h.stop + 2 ^ 32 := by
  obtain ⟨low, even, _⟩ := gap.front.span
  obtain ⟨other, chain⟩ := gap.tail
  obtain ⟨high, also, _⟩ := chain.span
  have := gap.enough
  have := gap.aligned
  have := gap.room
  omega

theorem side (gap : Gap t first last h lists) (k : PoolBlock) (among : k ∈ h.blocks) :
    16 ≤ k.size ∧ (k ∈ h.xs ∧ first ≤ k.adr ∧ k.stop ≤ h.adr ∨ k ∈ h.zs ∧ h.stop ≤ k.adr ∧ k.stop ≤ last) := by
  rcases List.mem_append.mp among with early | late
  · have inside := gap.front.span.2.2 k early
    exact ⟨inside.some, .inl ⟨early, inside.start, inside.stop⟩⟩
  · obtain ⟨other, chain⟩ := gap.tail
    have inside := chain.span.2.2 k late
    exact ⟨inside.some, .inr ⟨late, inside.start, inside.stop⟩⟩

theorem ordered (gap : Gap t first last h lists) : h.blocks.Pairwise fun a b => a.stop ≤ b.adr := by
  obtain ⟨other, chain⟩ := gap.tail
  refine List.pairwise_append.mpr ⟨gap.front.ordered, chain.ordered, fun a early b late => ?_⟩
  have low := (gap.front.span.2.2 a early).stop
  have high := (chain.span.2.2 b late).start
  have := gap.enough
  omega

theorem away_hole (gap : Gap t first last h lists) {w : ℕ} (low : h.adr ≤ w) (high : w < h.stop) : Away h.blocks w := by
  intro k among _
  have side := gap.side k among
  simp only [PoolBlock.stop] at side
  omega

theorem away_block (gap : Gap t first last h lists) {b : PoolBlock} (among : b ∈ h.blocks) {w : ℕ}
    (place : w = b.adr ∨ w = b.adr + 8 ∨ b.free = false ∧ b.buffer ≤ w ∧ w < b.stop) : Away h.blocks w := by
  exact ordered_away gap.ordered (fun k member => (gap.side k member).1) among place

theorem inside (gap : Gap t first last h lists) (k : PoolBlock) (among : k ∈ h.blocks) : first ≤ k.adr ∧ 16 ≤ k.size ∧ k.stop ≤ last := by
  have side := gap.side k among
  have := gap.bounds
  have := gap.enough
  omega

theorem away_last (gap : Gap t first last h lists) {w : ℕ} (high : last ≤ w) : Away h.blocks w :=
  outside_away gap.inside (.inr high)

theorem foreign (gap : Gap t first last h lists) {w : ℕ} (foreign : Foreign first last h.blocks w) :
    Away h.blocks w ∧ (w < h.adr ∨ h.stop + 16 ≤ w) := by
  refine ⟨foreign.away gap.ordered gap.inside, ?_⟩
  have := gap.bounds
  rcases foreign with low | high | ⟨k, among, _, start, stop⟩
  · omega
  · omega
  · have side := gap.side k among
    simp only [PoolBlock.buffer] at start
    omega

theorem stop_header (gap : Gap t first last h lists) : h.stop = last ∨ ∃ b ∈ h.zs, b.adr = h.stop := by
  obtain ⟨other, chain⟩ := gap.tail
  cases zs : h.zs with
  | nil =>
      rw [zs] at chain
      obtain ⟨behind, ⟨_, same⟩, _⟩ := chain
      exact .inl same
  | cons b rest =>
      rw [zs] at chain
      exact .inr ⟨b, List.mem_cons_self, ((chain_cons _ _ _ _ _ _).mp chain).1⟩

theorem away_stop (gap : Gap t first last h lists) {w : ℕ} (place : w = h.stop ∨ w = h.stop + 8) : Away h.blocks w := by
  rcases gap.stop_header with same | ⟨b, member, same⟩
  · exact gap.away_last (by omega)
  · exact gap.away_block (List.mem_append_right h.xs member) (by omega)

theorem congr (gap : Gap t first last h lists) (free : FreeLists s (first % 16) lists)
    (same : ∀ w, w ≤ h.adr ∨ h.stop ≤ w → Away h.blocks w → s.mem w = t.mem w) (prev : s.mem (h.adr + 8) &&& 2 = t.mem (h.adr + 8) &&& 2) :
    Gap s first last h lists := by
  obtain ⟨other, chain⟩ := gap.tail
  have bounds := gap.bounds
  have some := gap.enough
  refine ⟨gap.front.congr fun b member => ?_, ⟨other, chain.congr fun w place => ?_⟩, some, gap.aligned, prev.trans gap.prev, fun p told => ?_,
    free, gap.listed, gap.room⟩
  · have among : b ∈ h.blocks := List.mem_append_left h.zs member
    have inside := (gap.front.span.2.2 b member).stop
    simp only [PoolBlock.stop] at inside
    exact ⟨same _ (.inl (by omega)) (gap.away_block among (.inl rfl)), same _ (.inl (by omega)) (gap.away_block among (.inr (.inl rfl)))⟩
  · rcases place with rfl | ⟨b, member, rfl⟩
    · exact ⟨same _ (.inr bounds.2.2.1) (gap.away_last le_rfl), same _ (.inr (by omega)) (gap.away_last (by omega))⟩
    · have among : b ∈ h.blocks := List.mem_append_right h.xs member
      have start := (chain.span.2.2 b member).start
      exact ⟨same _ (.inr start) (gap.away_block among (.inl rfl)), same _ (.inr (by omega)) (gap.away_block among (.inr (.inl rfl)))⟩
  · rw [same h.adr (.inl le_rfl) (gap.away_hole le_rfl (by omega))]
    exact gap.back p told

theorem write (gap : Gap t first last h lists) {adr : ℕ} (val : ℕ) (low : h.adr < adr) (high : adr < h.stop)
    (prev : adr = h.adr + 8 → val &&& 2 = t.mem adr &&& 2) : Gap (t.write adr val) first last h lists := by
  refine gap.congr (gap.free.write adr val ((gap.away_hole low.le high).linkless gap.listed)) (fun w outside _ => ?_) ?_
  · exact t.write_other adr val (by omega)
  · by_cases here : adr = h.adr + 8
    · subst here
      rw [Tlsf.write_same]
      exact prev rfl
    · rw [t.write_other adr val (Ne.symm here)]

theorem setFreePtr (gap : Gap t first last h lists) (prev next : ℕ) : Gap (t.setFreePtr h.adr prev next) first last h lists := by
  have some := gap.enough
  exact (gap.write prev (by omega) (by omega) (by omega)).write next (by omega) (by omega) (by omega)

end Gap

theorem extract_away {t : Tlsf} {rest : ℕ} {blocks : List PoolBlock} {lists : ℕ × ℕ → List ℕ} (free : FreeLists t rest lists)
    (listed : Listed blocks lists) {k : PoolBlock} (among : k ∈ blocks) (isFree : k.free = true) {w : ℕ} (away : Away blocks w) :
    (t.extractBlock k.adr (mappingInsert k.size).1 (mappingInsert k.size).2).mem w = t.mem w :=
  free.extractBlock_frame k.adr _ ((listed _ _).mpr ⟨k, among, rfl, isFree, rfl⟩) w (away.linkless listed _)

structure Spares (first last : ℕ) (blocks others : List PoolBlock) (t s : Tlsf) : Prop where
  same : ∀ k, k.free = false → (k ∈ others ↔ k ∈ blocks)
  kept : ∀ w, Foreign first last blocks w → s.mem w = t.mem w

namespace Spares

variable {first last : ℕ} {blocks others more : List PoolBlock} {t s u : Tlsf}

theorem refl (first last : ℕ) (blocks : List PoolBlock) (t : Tlsf) : Spares first last blocks blocks t t :=
  ⟨fun _ _ => Iff.rfl, fun _ _ => rfl⟩

theorem foreign (spares : Spares first last blocks others t s) {w : ℕ} (foreign : Foreign first last blocks w) : Foreign first last others w :=
  foreign.mono fun k among used => (spares.same k used).mpr among

theorem trans (early : Spares first last blocks others t s) (late : Spares first last others more s u) : Spares first last blocks more t u where
  same k used := (late.same k used).trans (early.same k used)
  kept w foreign := (late.kept w (early.foreign foreign)).trans (early.kept w foreign)

theorem of_free {xs zs : List PoolBlock} {k : PoolBlock} (isFree : k.free = true) (kept : ∀ w, Foreign first last (xs ++ k :: zs) w → s.mem w = t.mem w) :
    Spares first last (xs ++ k :: zs) (xs ++ zs) t s := by
  refine ⟨fun b used => ?_, kept⟩
  simp only [List.mem_append, List.mem_cons]
  constructor
  · exact fun member => member.imp_right .inr
  · rintro (early | rfl | late)
    · exact .inl early
    · simp [isFree] at used
    · exact .inr late

end Spares

theorem Holds.inside {t : Tlsf} {first last : ℕ} {blocks : List PoolBlock} {lists : ℕ × ℕ → List ℕ} (holds : Holds t first last blocks lists)
    (k : PoolBlock) (among : k ∈ blocks) : first ≤ k.adr ∧ 16 ≤ k.size ∧ k.stop ≤ last :=
  have inside := holds.chain.span.2.2 k among
  ⟨inside.start, inside.some, inside.stop⟩

theorem Holds.size_lt {t : Tlsf} {first last : ℕ} {blocks : List PoolBlock} {lists : ℕ × ℕ → List ℕ} (holds : Holds t first last blocks lists)
    (b : PoolBlock) (among : b ∈ blocks) : b.size + 16 ≤ 2 ^ 30 := by
  have inside := holds.inside b among
  have room := holds.room
  simp only [PoolBlock.stop] at inside
  omega

section

variable {t : Tlsf} {first last : ℕ} {h : Hole} {lists : ℕ × ℕ → List ℕ}

theorem ordered_alone {xs zs : List PoolBlock} {k : PoolBlock} (ordered : (xs ++ k :: zs).Pairwise fun a b => a.stop ≤ b.adr) :
    ∀ b ∈ xs ++ zs, b.adr ≠ k.adr := by
  obtain ⟨_, tail, cross⟩ := List.pairwise_append.mp ordered
  intro b among
  rcases List.mem_append.mp among with early | late
  · have low := cross b early k List.mem_cons_self
    simp only [PoolBlock.stop] at low
    omega
  · have high := List.rel_of_pairwise_cons tail late
    simp only [PoolBlock.stop] at high
    omega

theorem Holds.used_gap {xs zs : List PoolBlock} {k : PoolBlock} (holds : Holds t first last (xs ++ k :: zs) lists) (used : k.free = false) :
    ∃ before, Gap t first last ⟨xs, before, k.adr, k.stop, zs⟩ lists ∧ t.mem (k.adr + 8) = header k.size false before.isSome ∧
      PoolChain t.mem last none k.stop zs := by
  obtain ⟨before, place, front, chain⟩ := (chain_append t.mem last none first xs (k :: zs)).mp holds.chain
  obtain ⟨rfl, whole, some, marked, _, tail⟩ := (chain_cons _ _ _ _ _ _).mp chain
  rw [used] at marked
  have mark : k.mark = none := by simp [PoolBlock.mark, used]
  rw [mark] at tail
  refine ⟨before, ⟨front, ⟨none, tail⟩, ?_, ?_, ?_, marked.2, holds.free, holds.listed.unused used, holds.room⟩, marked.1, tail⟩
  · simp only [PoolBlock.stop]
    omega
  · simp only [PoolBlock.stop]
    omega
  · rw [marked.1, header_prev whole]

theorem Holds.free_gap {xs zs : List PoolBlock} {k : PoolBlock} (holds : Holds t first last (xs ++ k :: zs) lists) (isFree : k.free = true) :
    let s := t.extractBlock k.adr (mappingInsert k.size).1 (mappingInsert k.size).2
    Gap s first last ⟨xs, none, k.adr, k.stop, zs⟩ (erased lists (mappingInsert k.size) k.adr) ∧
      s.mem (k.adr + 8) = header k.size true false ∧ PoolChain s.mem last (some k.adr) k.stop zs ∧ Closed zs ∧
      Spares first last (xs ++ k :: zs) (xs ++ zs) t s := by
  intro s
  have member : k.adr ∈ lists (mappingInsert k.size) := (holds.listed _ _).mpr ⟨k, by simp, rfl, isFree, rfl⟩
  have among : k ∈ xs ++ k :: zs := by simp
  have ordered := holds.chain.ordered
  have same (w : ℕ) (away : Away (xs ++ k :: zs) w) : s.mem w = t.mem w := extract_away holds.free holds.listed among isFree away
  have chain : PoolChain s.mem last none first (xs ++ k :: zs) := by
    refine holds.chain.congr fun w place => ?_
    rcases place with rfl | ⟨b, member, rfl⟩
    · exact ⟨same _ (outside_away holds.inside (.inr le_rfl)), same _ (outside_away holds.inside (.inr (by omega)))⟩
    · have large (b : PoolBlock) (member : b ∈ xs ++ k :: zs) := (holds.inside b member).2.1
      exact ⟨same _ (ordered_away ordered large member (.inl rfl)), same _ (ordered_away ordered large member (.inr (.inl rfl)))⟩
  obtain ⟨before, place, front, rest⟩ := (chain_append s.mem last none first xs (k :: zs)).mp chain
  obtain ⟨rfl, whole, some, marked, merged, tail⟩ := (chain_cons _ _ _ _ _ _).mp rest
  obtain rfl := merged isFree
  have mark : k.mark = .some k.adr := by simp [PoolBlock.mark, isFree]
  rw [mark] at tail
  rw [isFree] at marked
  have closed : Closed zs := by
    intro z isHead
    cases zs with
    | nil => simp at isHead
    | cons n more =>
        obtain rfl : n = z := by simpa using isHead
        by_contra free
        obtain ⟨_, _, _, _, alone, _⟩ := (chain_cons _ _ _ _ _ _).mp tail
        simpa using alone (by simpa using free)
  refine ⟨⟨front, ⟨_, tail⟩, ?_, ?_, ?_, by simp, holds.free.extractBlock _ _ member, ?_, holds.room⟩, marked.1, tail, closed,
    .of_free isFree fun w foreign => same w (foreign.away ordered holds.inside)⟩
  · simp only [PoolBlock.stop]
    omega
  · simp only [PoolBlock.stop]
    omega
  · rw [marked.1, header_prev whole]
  · exact holds.listed.erase holds.free.members isFree (ordered_alone ordered)

namespace Gap

theorem size_facts (gap : Gap t first last h lists) {size : ℕ} (stop : h.stop = h.adr + 16 + size) : 16 ∣ size ∧ 16 ≤ size ∧ size < 2 ^ 30 := by
  have := gap.enough
  have := gap.aligned
  have := gap.bounds
  have := gap.room
  omega

theorem extract_header (gap : Gap t first last h lists) {k : PoolBlock} (among : k ∈ h.blocks) (isFree : k.free = true) (b : PoolBlock)
    (inside : b ∈ h.blocks) :
    let s := t.extractBlock k.adr (mappingInsert k.size).1 (mappingInsert k.size).2
    s.mem b.adr = t.mem b.adr ∧ s.mem (b.adr + 8) = t.mem (b.adr + 8) :=
  ⟨extract_away gap.free gap.listed among isFree (gap.away_block inside (.inl rfl)),
    extract_away gap.free gap.listed among isFree (gap.away_block inside (.inr (.inl rfl)))⟩

theorem absorb {xs rest : List PoolBlock} {before : Option ℕ} {adr stop : ℕ} {n : PoolBlock}
    (gap : Gap t first last ⟨xs, before, adr, stop, n :: rest⟩ lists) (isFree : n.free = true) :
    let s := t.extractBlock n.adr (mappingInsert n.size).1 (mappingInsert n.size).2
    n.adr = stop ∧ t.mem (stop + 8) &&& 1 ≠ 0 ∧ blockSize (t.mem (stop + 8)) = n.size ∧ s.mem (stop + 8) = t.mem (stop + 8) ∧
      Gap s first last ⟨xs, before, adr, n.stop, rest⟩ (erased lists (mappingInsert n.size) n.adr) ∧ Closed rest ∧
      Spares first last (xs ++ n :: rest) (xs ++ rest) t s ∧ ∀ w, adr ≤ w → w < stop → s.mem w = t.mem w := by
  intro s
  obtain ⟨other, chain⟩ := gap.tail
  obtain ⟨place, even, large, marked, _, tail⟩ := (chain_cons _ _ _ _ _ _).mp chain
  have among : n ∈ (⟨xs, before, adr, stop, n :: rest⟩ : Hole).blocks := List.mem_append_right xs List.mem_cons_self
  have same (w : ℕ) (away : Away (xs ++ n :: rest) w) : s.mem w = t.mem w := extract_away gap.free gap.listed among isFree away
  have bounds := gap.bounds
  have room := gap.room
  have enough := gap.enough
  have aligned := gap.aligned
  have last_stop := tail.span.1
  simp only [PoolBlock.stop] at last_stop
  dsimp only at bounds enough aligned place
  have member : n.adr ∈ lists (mappingInsert n.size) := (gap.listed _ _).mpr ⟨n, among, rfl, isFree, rfl⟩
  have own (w : ℕ) (low : adr ≤ w) (high : w < stop) : s.mem w = t.mem w := same w (gap.away_hole low high)
  have header_same (b : PoolBlock) (inside : b ∈ xs ++ n :: rest) := gap.extract_header among isFree b inside
  have tailed : PoolChain s.mem last n.mark n.stop rest := by
    refine tail.congr fun w at_node => ?_
    rcases at_node with rfl | ⟨b, late, rfl⟩
    · exact ⟨same _ (gap.away_last le_rfl), same _ (gap.away_last (by omega))⟩
    · exact header_same b (List.mem_append_right xs (List.mem_cons_of_mem n late))
  refine ⟨place, ?_, ?_, ?_, ⟨?_, ⟨_, tailed⟩, ?_, ?_, ?_, fun p told => ?_, ?_, ?_, room⟩, ?_,
    .of_free isFree fun w foreign => same w (gap.foreign foreign).1, own⟩
  · rw [← place, marked.1, isFree, header_free even]
  · rw [← place, marked.1, header_size even _ _ (by omega)]
  · rw [← place]
    exact (header_same n among).2
  · exact gap.front.congr fun b early => header_same b (List.mem_append_left _ early)
  · simp only [PoolBlock.stop]
    omega
  · simp only [PoolBlock.stop]
    omega
  · dsimp only
    rw [own _ (by omega) (by omega)]
    exact gap.prev
  · dsimp only
    rw [own _ le_rfl (by omega)]
    exact gap.back p told
  · exact gap.free.extractBlock n.adr _ member
  · exact gap.listed.erase gap.free.members isFree (ordered_alone gap.ordered)
  · intro z isHead
    cases rest with
    | nil => simp at isHead
    | cons m more =>
        obtain rfl : m = z := by simpa using isHead
        obtain ⟨_, _, _, _, alone, _⟩ := (chain_cons _ _ _ _ _ _).mp tail
        by_contra also
        simpa [PoolBlock.mark, isFree] using alone (by simpa using also)

theorem behind_cases (gap : Gap t first last h lists) :
    (∃ n rest, h.zs = n :: rest ∧ n.free = true) ∨ Closed h.zs ∧ t.mem (h.stop + 8) &&& 1 = 0 := by
  obtain ⟨other, chain⟩ := gap.tail
  by_cases closed : Closed h.zs
  · obtain ⟨s, isFree, even, _, marked, used⟩ := chain.first
    refine .inr ⟨closed, ?_⟩
    have clear := header_free even isFree other.isSome
    rw [← marked.1, used.mpr closed] at clear
    simpa using clear
  · cases zs : h.zs with
    | nil => simp [zs, Closed] at closed
    | cons n rest => exact .inl ⟨n, rest, rfl, by simpa [zs, Closed] using closed⟩

theorem mergeNext (gap : Gap t first last h lists) {size : ℕ} {free : Bool} (word : t.mem (h.adr + 8) = header size free h.before.isSome)
    (stop : h.stop = h.adr + 16 + size) :
    ∃ zs more lists, Gap (t.mergeNext h.adr) first last { h with stop := h.adr + 16 + more, zs := zs } lists ∧
      (t.mergeNext h.adr).mem (h.adr + 8) = header more free h.before.isSome ∧
      (t.mem (h.stop + 8) &&& 1 ≠ 0 → more = size + 16 + blockSize (t.mem (h.stop + 8))) ∧ Closed zs ∧
      Spares first last h.blocks (h.xs ++ zs) t (t.mergeNext h.adr) ∧
      ∀ w, h.adr + 16 ≤ w → w < h.stop → (t.mergeNext h.adr).mem w = t.mem w := by
  obtain ⟨whole, _, below⟩ := gap.size_facts stop
  have behind : h.adr + 16 + blockSize (t.mem (h.adr + 8)) = h.stop := by rw [word, header_size whole _ _ (by omega), stop]
  unfold Tlsf.mergeNext
  simp only [behind]
  rcases gap.behind_cases with ⟨n, rest, zs, isFree⟩ | ⟨closed, clear⟩
  · obtain ⟨xs, before, adr, _, _⟩ := h
    dsimp only at word stop behind zs ⊢
    subst zs stop
    obtain ⟨place, set, sized, nextWord, wide, closed, spares, own⟩ := gap.absorb isFree
    rw [if_pos set, sized, ← place]
    rw [← place] at nextWord sized own
    generalize t.extractBlock n.adr (mappingInsert n.size).1 (mappingInsert n.size).2 = s at nextWord wide spares own ⊢
    have nextWhole : 16 ∣ n.size := ((gap.tail.choose_spec.span.2.2 n List.mem_cons_self).whole : 16 ∣ n.size)
    have total : s.mem (adr + 8) + (blockSize (s.mem (n.adr + 8)) + 16) = header (size + 16 + n.size) free before.isSome := by
      rw [own _ (by omega) (by omega), nextWord, sized, word]
      simp only [header]
      omega
    have stop : n.stop = adr + 16 + (size + 16 + n.size) := by
      simp only [PoolBlock.stop]
      omega
    have prev : header (size + 16 + n.size) free before.isSome &&& 2 = s.mem (adr + 8) &&& 2 := by
      rw [own _ (by omega) (by omega), word, header_prev (by omega), header_prev whole]
    rw [stop] at wide
    rw [total]
    refine ⟨rest, size + 16 + n.size, erased lists (mappingInsert n.size) n.adr, wide.write _ (by simp) (by dsimp only; omega) fun _ => prev,
      s.write_same _ _, fun _ => rfl, closed, ⟨spares.same, fun w foreign => ?_⟩, fun w low high => ?_⟩
    · have outside := (gap.foreign foreign).2
      dsimp only at outside
      rw [s.write_other _ _ (by omega), spares.kept w foreign]
    · rw [s.write_other _ _ (by omega)]
      exact own w (by omega) high
  · have notSet : ¬ t.mem (h.stop + 8) &&& 1 ≠ 0 := by simpa using clear
    rw [if_neg notSet]
    refine ⟨h.zs, size, lists, ?_, word, fun set => absurd set notSet, closed, Spares.refl first last _ t, fun _ _ _ => rfl⟩
    rw [← stop]
    exact gap

theorem last_block {mem : ℕ → ℕ} {xs : List PoolBlock} {p adr : ℕ} (seg : Seg mem none first xs (some p) adr) :
    ∃ rest q, xs = rest ++ [q] ∧ q.free = true ∧ q.adr = p ∧ q.stop = adr ∧ 16 ∣ q.size ∧ 16 ≤ q.size ∧ Seg mem none first rest none p ∧
      Marked mem p q.size true none := by
  rcases List.eq_nil_or_concat xs with rfl | ⟨rest, q, rfl⟩
  · exact absurd seg.1 (by simp)
  · rw [List.concat_eq_append] at seg ⊢
    obtain ⟨mid, at_mid, front, rfl, whole, some, marked, merged, mark, stop⟩ := (seg_append _ _ _ rest [q] _ _).mp seg
    have isFree : q.free = true := by
      by_contra used
      simp [PoolBlock.mark, used] at mark
    have place : q.adr = p := by simpa [PoolBlock.mark, isFree] using mark
    obtain rfl := merged isFree
    rw [isFree] at marked
    exact ⟨rest, q, rfl, isFree, place, stop, whole, some, place ▸ front, place ▸ marked⟩

theorem give_way {xs zs : List PoolBlock} {p adr stop : ℕ} (gap : Gap t first last ⟨xs, some p, adr, stop, zs⟩ lists) :
    ∃ rest q, xs = rest ++ [q] ∧ q.free = true ∧ q.adr = p ∧ q.stop = adr ∧ 16 ∣ q.size ∧ blockSize (t.mem (p + 8)) = q.size ∧
      let s := t.extractBlock p (mappingInsert q.size).1 (mappingInsert q.size).2
      s.mem (p + 8) = header q.size true false ∧ Gap s first last ⟨rest, none, p, stop, zs⟩ (erased lists (mappingInsert q.size) p) ∧
        (∀ w, adr ≤ w → w < stop → s.mem w = t.mem w) ∧ ∀ w, Foreign first last (rest ++ q :: zs) w → s.mem w = t.mem w ∧ w ≠ p + 8 := by
  obtain ⟨rest, q, rfl, isFree, rfl, place, even, large, front, marked⟩ := last_block gap.front
  have among : q ∈ (⟨rest ++ [q], some q.adr, adr, stop, zs⟩ : Hole).blocks := List.mem_append_left zs (by simp)
  have member : q.adr ∈ lists (mappingInsert q.size) := (gap.listed _ _).mpr ⟨q, among, rfl, isFree, rfl⟩
  have header_same := gap.extract_header among isFree
  have same (w : ℕ) (away : Away (rest ++ [q] ++ zs) w) := extract_away gap.free gap.listed among isFree away
  have extracted := gap.free.extractBlock q.adr _ member
  have bounds := gap.bounds
  have enough := gap.enough
  have aligned := gap.aligned
  have room := gap.room
  have start := front.span.1
  dsimp only at bounds enough aligned place
  have span : adr = q.adr + 16 + q.size := by rw [← place, PoolBlock.stop]
  have regroup : (rest ++ [q]) ++ zs = rest ++ q :: zs := by simp
  have listed := gap.listed
  have ordered := gap.ordered
  have inside := gap.inside
  have own (w : ℕ) (low : adr ≤ w) (high : w < stop) := same w (gap.away_hole low high)
  have final (w : ℕ) (high : last ≤ w) := same w (gap.away_last high)
  simp only [Hole.blocks, regroup] at listed ordered inside among same header_same
  refine ⟨rest, q, rfl, isFree, rfl, place, even, ?_, ?_⟩
  · rw [marked.1, header_size even _ _ (by omega)]
  · intro s
    obtain ⟨other, chain⟩ := gap.tail
    have tail : PoolChain s.mem last other stop zs := by
      refine chain.congr fun w at_node => ?_
      rcases at_node with rfl | ⟨b, late, rfl⟩
      · exact ⟨final _ le_rfl, final _ (by omega)⟩
      · exact header_same b (List.mem_append_right rest (List.mem_cons_of_mem q late))
    have word : s.mem (q.adr + 8) = header q.size true false := (header_same q among).2.trans marked.1
    refine ⟨word, ⟨front.congr fun b early => header_same b (List.mem_append_left _ early), ⟨_, tail⟩, ?_, ?_, ?_, by simp, extracted,
      listed.erase gap.free.members isFree (ordered_alone ordered), room⟩, own, fun w foreign => ⟨same w (foreign.away ordered inside), ?_⟩⟩
    · dsimp only
      omega
    · dsimp only
      omega
    · dsimp only
      rw [word, header_prev even]
      rfl
    · have apart := foreign.not_free ordered inside among isFree
      omega

theorem mergePrev (gap : Gap t first last h lists) {size : ℕ} (word : t.mem (h.adr + 8) = header size true h.before.isSome)
    (stop : h.stop = h.adr + 16 + size) :
    ∃ xs b more lists, (t.mergePrev h.adr).1 = b ∧ Gap (t.mergePrev h.adr).2 first last ⟨xs, none, b, b + 16 + more, h.zs⟩ lists ∧
      (t.mergePrev h.adr).2.mem (b + 8) = header more true false ∧ Spares first last h.blocks (xs ++ h.zs) t (t.mergePrev h.adr).2 := by
  obtain ⟨xs, before, adr, _, zs⟩ := h
  simp only at word stop
  subst stop
  obtain ⟨whole, some, below⟩ := gap.size_facts rfl
  unfold Tlsf.mergePrev
  cases before with
  | none =>
      have clear : ¬ t.mem (adr + 8) &&& 2 ≠ 0 := by
        rw [word, header_prev whole]
        simp
      simp only [clear, if_false]
      exact ⟨xs, adr, size, lists, rfl, gap, word, Spares.refl first last _ t⟩
  | some p =>
      have set : t.mem (adr + 8) &&& 2 ≠ 0 := by
        rw [word, header_prev whole]
        simp
      have linked : t.mem adr = p := gap.back p rfl
      obtain ⟨rest, q, rfl, isFree, place, ends, even, sized, prevWord, wide, own, kept⟩ := gap.give_way
      simp only [set, ne_eq, not_false_eq_true, if_true, linked, sized]
      generalize t.extractBlock p (mappingInsert q.size).1 (mappingInsert q.size).2 = s at prevWord wide own kept ⊢
      simp only [PoolBlock.stop, place] at ends
      have total : s.mem (p + 8) + (blockSize (s.mem (adr + 8)) + 16) = header (q.size + 16 + size) true false := by
        rw [prevWord, own _ (by omega) (by omega), word, header_size whole _ _ (by omega)]
        simp only [header]
        omega
      have stop : adr + 16 + size = p + 16 + (q.size + 16 + size) := by omega
      have regroup : (⟨rest ++ [q], .some p, adr, adr + 16 + size, zs⟩ : Hole).blocks = rest ++ q :: zs := by simp [Hole.blocks]
      rw [total, regroup]
      refine ⟨rest, p, q.size + 16 + size, erased lists (mappingInsert q.size) p, rfl, ?_, s.write_same _ _, .of_free isFree fun w foreign => ?_⟩
      · have prev : header (q.size + 16 + size) true false &&& 2 = s.mem (p + 8) &&& 2 := by
          rw [prevWord, header_prev (by omega), header_prev even]
        rw [← stop]
        refine wide.write _ ?_ ?_ fun _ => prev
        · dsimp only
          omega
        · dsimp only
          omega
      · obtain ⟨same, apart⟩ := kept w foreign
        rw [s.write_other _ _ apart, same]

theorem settle {s : Tlsf} {now : ℕ × ℕ → List ℕ} (gap : Gap t first last h lists) (b : PoolBlock) (place : b.adr = h.adr) (stop : b.stop = h.stop)
    (merged : b.free = true → h.before = none) (closed : Closed h.zs) (word : s.mem (b.adr + 8) = header b.size b.free h.before.isSome)
    (behind : ∀ z free other, 16 ∣ z → t.mem (h.stop + 8) = header z free other → s.mem (h.stop + 8) = header z free b.free)
    (back : b.free = true → s.mem h.stop = b.adr)
    (same : ∀ w, w = h.adr ∨ (∃ k ∈ h.blocks, w = k.adr ∨ w = k.adr + 8) ∨ w = last ∨ w = last + 8 → w ≠ h.stop → w ≠ h.stop + 8 →
      s.mem w = t.mem w)
    (free : FreeLists s (first % 16) now) (listed : Listed (h.xs ++ b :: h.zs) now) : Holds s first last (h.xs ++ b :: h.zs) now := by
  obtain ⟨other, chain⟩ := gap.tail
  have enough := gap.enough
  have bounds := gap.bounds
  have room := gap.room
  have sizes : 16 ∣ b.size ∧ 16 ≤ b.size ∧ b.size < 2 ^ 30 := gap.size_facts (by rw [← stop, ← place]; rfl)
  have front : Seg s.mem none first h.xs h.before h.adr := by
    refine gap.front.congr fun k early => ?_
    have among : k ∈ h.blocks := List.mem_append_left h.zs early
    have inside := (gap.front.span.2.2 k early).stop
    simp only [PoolBlock.stop] at inside
    exact ⟨same _ (.inr (.inl ⟨k, among, .inl rfl⟩)) (by omega) (by omega), same _ (.inr (.inl ⟨k, among, .inr rfl⟩)) (by omega) (by omega)⟩
  have tail : PoolChain s.mem last b.mark b.stop h.zs := by
    rw [stop]
    refine chain.remark closed (by omega) (fun z isFree even _ told => ?_) (fun p told => ?_) fun w node apart => ?_
    · rw [behind z isFree _ even told]
      cases free : b.free <;> simp [PoolBlock.mark, free]
    · cases isFree : b.free with
      | true =>
          have named : b.adr = p := by simpa [PoolBlock.mark, isFree] using told
          rw [back isFree, named]
      | false => simp [PoolBlock.mark, isFree] at told
    · have aligned : w % 16 = h.stop % 16 := by
        rcases node with rfl | ⟨k, late, rfl⟩
        · exact chain.span.2.1
        · exact (chain.span.2.2 k late).aligned
      rcases node with rfl | ⟨k, late, rfl⟩
      · exact ⟨same _ (.inr (.inr (.inl rfl))) apart (by omega), same _ (.inr (.inr (.inr rfl))) (by omega) (by omega)⟩
      · have among : k ∈ h.blocks := List.mem_append_right h.xs late
        exact ⟨same _ (.inr (.inl ⟨k, among, .inl rfl⟩)) apart (by omega), same _ (.inr (.inl ⟨k, among, .inr rfl⟩)) (by omega) (by omega)⟩
  refine ⟨(chain_append _ _ _ _ _ _).mpr ⟨h.before, h.adr, front, ?_⟩, free, listed, room⟩
  refine (chain_cons _ _ _ _ _ _).mpr ⟨place, sizes.1, sizes.2.1, ⟨word, fun p told => ?_⟩, merged, tail⟩
  rw [place, same _ (.inl rfl) (by omega) (by omega)]
  exact gap.back p told

theorem fresh (gap : Gap t first last h lists) (a : ℕ) (low : h.adr ≤ a) (high : a < h.stop) : ∀ c, a ∉ lists c := by
  intro c member
  obtain ⟨k, among, rfl, _⟩ := (gap.listed c a).mp member
  have side := gap.side k among
  simp only [PoolBlock.stop] at side
  omega

theorem insert_lists {s : Tlsf} (gap : Gap t first last h lists) (free : FreeLists s (first % 16) lists) (a size : ℕ) (low : h.adr ≤ a)
    (high : a < h.stop) (aligned : a % 16 = h.adr % 16) (below : size < 2 ^ 30) :
    FreeLists (s.insertBlock a (mappingInsert size).1 (mappingInsert size).2) (first % 16) (pushed lists (mappingInsert size) a) := by
  have bounds := gap.bounds
  have room := gap.room
  have inside := mappingInsert_class size below
  exact free.insertBlock a _ ⟨inside.1, inside.2.1⟩ (gap.fresh a low high) ⟨by omega, by omega⟩

theorem insert_same {s : Tlsf} (gap : Gap t first last h lists) (free : FreeLists s (first % 16) lists) (a size w : ℕ)
    (away : Away h.blocks w) (own : w ≠ a + 16 ∧ w ≠ a + 24) :
    (s.insertBlock a (mappingInsert size).1 (mappingInsert size).2).mem w = s.mem w :=
  free.insertBlock_frame a _ w own (away.linkless gap.listed _)

theorem pushed_linkless (gap : Gap t first last h lists) (a size : ℕ) {w : ℕ} (away : Away h.blocks w) (own : w ≠ a + 16 ∧ w ≠ a + 24) :
    ∀ c, ∀ x ∈ pushed lists (mappingInsert size) a c, w ≠ x + 16 ∧ w ≠ x + 24 := by
  intro c x member
  rcases (mem_pushed lists _ c x a).mp member with ⟨rfl, _⟩ | old
  · exact own
  · exact away.linkless gap.listed c x old

theorem giveBlock (gap : Gap t first last h lists) (unmarked : h.before = none) (closed : Closed h.zs) {size : ℕ}
    (word : t.mem (h.adr + 8) = header size true false) (stop : h.stop = h.adr + 16 + size) :
    Holds (t.giveBlock h.adr) first last (h.xs ++ ⟨h.adr, size, true⟩ :: h.zs) (pushed lists (mappingInsert size) h.adr) ∧
      ∀ w, Foreign first last h.blocks w → (t.giveBlock h.adr).mem w = t.mem w := by
  obtain ⟨whole, some, below⟩ := gap.size_facts stop
  have sized : blockSize (t.mem (h.adr + 8)) = size := by rw [word, header_size whole _ _ (by omega)]
  have ownSize := gap.insert_same gap.free h.adr size (h.adr + 8) (gap.away_hole (by omega) (by omega)) (by omega)
  have stopAway := gap.away_stop (.inl rfl)
  have stopSizeAway := gap.away_stop (.inr rfl)
  unfold Tlsf.giveBlock
  simp only [sized, ownSize, ← stop]
  have inserted := gap.insert_lists gap.free h.adr size le_rfl (by omega) rfl below
  have frame := gap.insert_same gap.free h.adr size
  generalize t.insertBlock h.adr (mappingInsert size).1 (mappingInsert size).2 = s at inserted frame
  have lists : FreeLists ((s.write (h.stop + 8) (s.mem (h.stop + 8) ||| 2)).write h.stop h.adr) (first % 16)
      (pushed lists (mappingInsert size) h.adr) :=
    (inserted.write _ _ (gap.pushed_linkless h.adr size stopSizeAway (by omega))).write _ _
      (gap.pushed_linkless h.adr size stopAway (by omega))
  have same (w : ℕ) (away : Away h.blocks w) (own : w ≠ h.adr + 16 ∧ w ≠ h.adr + 24) (notStop : w ≠ h.stop) (notSize : w ≠ h.stop + 8) :
      ((s.write (h.stop + 8) (s.mem (h.stop + 8) ||| 2)).write h.stop h.adr).mem w = t.mem w := by
    rw [Tlsf.write_other _ _ _ notStop, Tlsf.write_other _ _ _ notSize, frame w away own]
  refine ⟨gap.settle ⟨h.adr, size, true⟩ rfl stop.symm (fun _ => unmarked) closed ?_ ?_ (fun _ => Tlsf.write_same _ _ _) ?_ lists
    (gap.listed.push h.adr size), ?_⟩
  · dsimp only
    rw [unmarked, same _ (gap.away_hole (by omega) (by omega)) (by omega) (by omega) (by omega)]
    exact word
  · intro z free other even told
    rw [Tlsf.write_other _ _ _ (by omega), Tlsf.write_same, frame _ stopSizeAway (by omega), told, header_or_two even]
  · intro w place notStop notSize
    rcases place with rfl | ⟨k, among, place⟩ | place
    · exact same _ (gap.away_hole le_rfl (by omega)) (by omega) notStop notSize
    · have side := gap.side k among
      simp only [PoolBlock.stop] at side
      exact same w (gap.away_block among (by omega)) (by omega) notStop notSize
    · have bounds := gap.bounds
      exact same w (gap.away_last (by omega)) (by omega) notStop notSize
  · intro w foreign
    obtain ⟨away, outside⟩ := gap.foreign foreign
    exact same w away (by omega) (by omega) (by omega)

theorem split (gap : Gap t first last h lists) (size rest : ℕ) (whole : 16 ∣ size) (some : 16 ≤ size) (left : 16 ∣ rest) (enough : 16 ≤ rest)
    (parts : h.stop = h.adr + 16 + size + 16 + rest) :
    Gap ((t.write (h.adr + 8) (header size false h.before.isSome)).write (h.adr + 16 + size + 8) (header rest true false)) first last
      ⟨h.xs ++ [⟨h.adr, size, false⟩], none, h.adr + 16 + size, h.stop, h.zs⟩ lists := by
  have prev : header size false h.before.isSome &&& 2 = t.mem (h.adr + 8) &&& 2 := by rw [gap.prev, header_prev whole]
  have marked := (gap.write (header size false h.before.isSome) (by omega : h.adr < h.adr + 8) (by omega) (fun _ => prev)).write
    (header rest true false) (by omega : h.adr < h.adr + 16 + size + 8) (by omega) (by omega)
  have word : ((t.write (h.adr + 8) (header size false h.before.isSome)).write (h.adr + 16 + size + 8) (header rest true false)).mem
      (h.adr + 8) = header size false h.before.isSome := by
    rw [Tlsf.write_other _ _ _ (by omega), Tlsf.write_same]
  have restWord : ((t.write (h.adr + 8) (header size false h.before.isSome)).write (h.adr + 16 + size + 8) (header rest true false)).mem
      (h.adr + 16 + size + 8) = header rest true false := Tlsf.write_same _ _ _
  refine ⟨?_, marked.tail, ?_, ?_, ?_, by simp, marked.free, ?_, gap.room⟩
  · exact (seg_append _ _ _ _ _ _ _).mpr ⟨h.before, h.adr, marked.front, rfl, whole, some, ⟨word, marked.back⟩, by simp, rfl, rfl⟩
  · dsimp only
    omega
  · have aligned := gap.aligned
    dsimp only
    omega
  · dsimp only
    rw [restWord, header_prev left]
    rfl
  · have used := gap.listed.use h.adr size
    rwa [← List.singleton_append, ← List.append_assoc] at used

theorem splitBlock_writes (gap : Gap t first last h lists) (size rest : ℕ) (whole : 16 ∣ size) (left : 16 ∣ rest) (enough : 16 ≤ rest)
    (parts : h.stop = h.adr + 16 + size + 16 + rest) :
    let s := t.splitBlock h.adr h.stop size (rest + 16)
    s.mem (h.adr + 8) = header size false h.before.isSome ∧ s.mem (h.adr + 16 + size + 8) = header rest true false ∧
      s.mem h.stop = h.adr + 16 + size ∧ s.mem (h.stop + 8) = t.mem (h.stop + 8) ||| 2 ∧
      FreeLists s (first % 16) (pushed lists (mappingInsert rest) (h.adr + 16 + size)) ∧
      ∀ w, Away h.blocks w → (w < h.adr + 16 + size + 8 ∨ h.stop ≤ w) → w ≠ h.stop → w ≠ h.stop + 8 → w ≠ h.adr + 8 → s.mem w = t.mem w := by
  have bounds := gap.bounds
  have room := gap.room
  have stopAway := gap.away_stop (.inl rfl)
  have stopSizeAway := gap.away_stop (.inr rfl)
  have inside (w : ℕ) (low : h.adr ≤ w) (high : w < h.stop) : Away h.blocks w := gap.away_hole low high
  unfold Tlsf.splitBlock
  simp only [Nat.add_sub_cancel, free_header left]
  generalize tailed : (t.write (h.adr + 16 + size + 8) (header rest true false)).write h.stop (h.adr + 16 + size) = u
  have uMem (w : ℕ) (notTail : w ≠ h.adr + 16 + size + 8) (notStop : w ≠ h.stop) : u.mem w = t.mem w := by
    rw [← tailed, Tlsf.write_other _ _ _ notStop, Tlsf.write_other _ _ _ notTail]
  have uStop : u.mem h.stop = h.adr + 16 + size := by rw [← tailed, Tlsf.write_same]
  have uTail : u.mem (h.adr + 16 + size + 8) = header rest true false := by
    rw [← tailed, Tlsf.write_other _ _ _ (by omega), Tlsf.write_same]
  have uLists : FreeLists u (first % 16) lists := by
    rw [← tailed]
    exact (gap.free.write _ _ ((inside _ (by omega) (by omega)).linkless gap.listed)).write _ _ (stopAway.linkless gap.listed)
  have told : FreeLists (u.write (h.stop + 8) (u.mem (h.stop + 8) ||| 2)) (first % 16) lists :=
    uLists.write _ _ (stopSizeAway.linkless gap.listed)
  have inserted := gap.insert_lists told (h.adr + 16 + size) rest (by omega) (by omega) (by have := gap.aligned; omega) (by omega)
  have frame := gap.insert_same told (h.adr + 16 + size) rest
  generalize (u.write (h.stop + 8) (u.mem (h.stop + 8) ||| 2)).insertBlock (h.adr + 16 + size) (mappingInsert rest).1
    (mappingInsert rest).2 = v at inserted frame
  have vMem (w : ℕ) (away : Away h.blocks w) (apart : w ≠ h.adr + 16 + size + 16 ∧ w ≠ h.adr + 16 + size + 24) (notSize : w ≠ h.stop + 8) :
      v.mem w = u.mem w := by rw [frame w away apart, Tlsf.write_other _ _ _ notSize]
  have word : size ||| (v.mem (h.adr + 8) &&& 2) = header size false h.before.isSome := by
    rw [vMem _ (inside _ (by omega) (by omega)) (by omega) (by omega), uMem _ (by omega) (by omega), gap.prev, or_header whole]
  rw [word]
  refine ⟨Tlsf.write_same _ _ _, ?_, ?_, ?_, ?_, fun w away apart notStop notSize notOwn => ?_⟩
  · rw [Tlsf.write_other _ _ _ (by omega), vMem _ (inside _ (by omega) (by omega)) (by omega) (by omega)]
    exact uTail
  · rw [Tlsf.write_other _ _ _ (by omega), vMem _ stopAway (by omega) (by omega)]
    exact uStop
  · rw [Tlsf.write_other _ _ _ (by omega), frame _ stopSizeAway (by omega), Tlsf.write_same, uMem _ (by omega) (by omega)]
  · exact inserted.write _ _ (gap.pushed_linkless (h.adr + 16 + size) rest (inside _ (by omega) (by omega)) (by omega))
  · rw [Tlsf.write_other _ _ _ notOwn, vMem w away (by omega) notSize, uMem w (by omega) notStop]

theorem splitBlock (gap : Gap t first last h lists) (closed : Closed h.zs) (size rest : ℕ) (whole : 16 ∣ size) (some : 16 ≤ size)
    (left : 16 ∣ rest) (enough : 16 ≤ rest) (parts : h.stop = h.adr + 16 + size + 16 + rest) :
    Holds (t.splitBlock h.adr h.stop size (rest + 16)) first last
        (h.xs ++ [⟨h.adr, size, false⟩] ++ ⟨h.adr + 16 + size, rest, true⟩ :: h.zs) (pushed lists (mappingInsert rest) (h.adr + 16 + size)) ∧
      (∀ w, Foreign first last h.blocks w → (t.splitBlock h.adr h.stop size (rest + 16)).mem w = t.mem w) ∧
      ∀ w, h.adr + 16 ≤ w → w < h.adr + 16 + size → (t.splitBlock h.adr h.stop size (rest + 16)).mem w = t.mem w := by
  have narrow := gap.split size rest whole some left enough parts
  have inside (w : ℕ) (low : h.adr ≤ w) (high : w < h.stop) : Away h.blocks w := gap.away_hole low high
  obtain ⟨own, tail, back, told, lists, same⟩ := gap.splitBlock_writes size rest whole left enough parts
  generalize t.splitBlock h.adr h.stop size (rest + 16) = s at own tail back told lists same ⊢
  refine ⟨narrow.settle ⟨h.adr + 16 + size, rest, true⟩ rfl ?_ (fun _ => rfl) closed tail ?_ (fun _ => back) ?_ lists
    (narrow.listed.push _ rest), ?_, ?_⟩
  · simp only [PoolBlock.stop]
    omega
  · intro z free other even marked
    dsimp only at marked ⊢
    rw [Tlsf.write_other _ _ _ (by omega), Tlsf.write_other _ _ _ (by omega)] at marked
    rw [told, marked, header_or_two even]
  · intro w place notStop notSize
    dsimp only at notStop notSize
    by_cases here : w = h.adr + 8
    · subst here
      rw [own, Tlsf.write_other _ _ _ (by omega), Tlsf.write_same]
    · have node : Away h.blocks w ∧ (w < h.adr + 16 + size + 8 ∨ h.stop ≤ w) := by
        rcases place with rfl | ⟨k, among, place⟩ | place
        · exact ⟨inside _ (by dsimp only; omega) (by dsimp only; omega), by simp⟩
        · have blocks : k = ⟨h.adr, size, false⟩ ∨ k ∈ h.blocks := by
            simp only [Hole.blocks, List.mem_append, List.mem_singleton] at among ⊢
            tauto
          rcases blocks with rfl | among
          · dsimp only at place
            exact ⟨inside w (by omega) (by omega), by omega⟩
          · have side := gap.side k among
            simp only [PoolBlock.stop] at side
            exact ⟨gap.away_block among (by omega), by omega⟩
        · have bounds := gap.bounds
          exact ⟨gap.away_last (by omega), by omega⟩
      rw [same w node.1 node.2 notStop notSize here, Tlsf.write_other _ _ _ (by omega), Tlsf.write_other _ _ _ here]
  · intro w foreign
    obtain ⟨away, outside⟩ := gap.foreign foreign
    exact same w away (by omega) (by omega) (by omega) (by omega)
  · exact fun w low high => same w (inside w (by omega) (by omega)) (by omega) (by omega) (by omega) (by omega)

end Gap

end

end SsAdma
