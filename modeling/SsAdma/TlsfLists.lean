import SsAdma.Tlsf
import SsAdma.TwoWay

set_option autoImplicit false

namespace SsAdma

open TwoWay

-- simp leaves the bits of a word as getLsbD.
attribute [-simp] BitVec.getLsbD_eq_getElem

theorem setBit_getLsbD (word : BitVec 32) (nr j : ℕ) (inside : nr < 32) :
    (setBit nr word).getLsbD j = (word.getLsbD j || decide (j = nr)) := by
  have low : nr &&& 0x1f = nr := by rw [Nat.and_two_pow_sub_one_eq_mod nr 5, Nat.mod_eq_of_lt inside]
  rw [setBit, low, BitVec.getLsbD_or, ← BitVec.twoPow_eq, BitVec.getLsbD_twoPow]
  simp [inside, eq_comm]

theorem clearBit_getLsbD (word : BitVec 32) (nr j : ℕ) (inside : nr < 32) :
    (clearBit nr word).getLsbD j = (word.getLsbD j && decide (j ≠ nr)) := by
  have low : nr &&& 0x1f = nr := by rw [Nat.and_two_pow_sub_one_eq_mod nr 5, Nat.mod_eq_of_lt inside]
  rw [clearBit, low, BitVec.getLsbD_and, BitVec.getLsbD_not, ← BitVec.twoPow_eq, BitVec.getLsbD_twoPow]
  by_cases width : j < 32
  · simp [inside, width, eq_comm]
  · simp [BitVec.getLsbD_of_ge _ _ (Nat.not_lt.mp width)]

theorem eq_zero_iff_getLsbD (word : BitVec 32) : word = 0 ↔ ∀ j < 32, word.getLsbD j = false := by
  constructor
  · rintro rfl
    simp
  · intro none
    exact BitVec.eq_of_getLsbD_eq fun j inside => by simpa using none j inside

structure Members (rest : ℕ) (lists : ℕ × ℕ → List ℕ) : Prop where
  nodup : ∀ c, (lists c).Nodup
  apart : ∀ c d a, a ∈ lists c → a ∈ lists d → c = d
  nodes : ∀ c, ∀ a ∈ lists c, 0 < a ∧ a % 16 = rest
  range : ∀ c, lists c ≠ [] → c.1 < 24 ∧ c.2 < 32

structure Bitmaps (t : Tlsf) (lists : ℕ × ℕ → List ℕ) : Prop where
  classes : ∀ fl sl, (t.slBitmap fl).getLsbD sl = true ↔ lists (fl, sl) ≠ []
  levels : ∀ fl, t.flBitmap.getLsbD fl = true ↔ t.slBitmap fl ≠ 0

structure FreeLists (t : Tlsf) (rest : ℕ) (lists : ℕ × ℕ → List ℕ) : Prop where
  linked : ∀ c, TwoWay.Linked (fun a => t.mem (a + 16)) (fun a => t.mem (a + 24)) 0 (lists c) 0
  head : ∀ c, t.matrix c.1 c.2 = (lists c).headD 0
  members : Members rest lists
  bitmaps : Bitmaps t lists

def pushed (lists : ℕ × ℕ → List ℕ) (c : ℕ × ℕ) (b : ℕ) : ℕ × ℕ → List ℕ := Function.update lists c (b :: lists c)

def erased (lists : ℕ × ℕ → List ℕ) (c : ℕ × ℕ) (b : ℕ) : ℕ × ℕ → List ℕ := Function.update lists c ((lists c).erase b)

section

variable {rest : ℕ} {lists : ℕ × ℕ → List ℕ}

theorem mem_pushed (lists : ℕ × ℕ → List ℕ) (c d : ℕ × ℕ) (a b : ℕ) : a ∈ pushed lists c b d ↔ a = b ∧ d = c ∨ a ∈ lists d := by
  by_cases same : d = c
  · subst same
    simp [pushed]
  · simp [pushed, same]

theorem Members.mem_erased (members : Members rest lists) (c d : ℕ × ℕ) (a b : ℕ) (member : b ∈ lists c) :
    a ∈ erased lists c b d ↔ a ≠ b ∧ a ∈ lists d := by
  by_cases same : d = c
  · subst same
    rw [erased, Function.update_self, (members.nodup d).mem_erase_iff]
  · rw [erased, Function.update_of_ne same]
    refine ⟨fun inside => ⟨?_, inside⟩, fun both => both.2⟩
    rintro rfl
    exact same (members.apart d c a inside member)

theorem Members.push (members : Members rest lists) (c : ℕ × ℕ) (b : ℕ) (inside : c.1 < 24 ∧ c.2 < 32) (fresh : ∀ d, b ∉ lists d)
    (node : 0 < b ∧ b % 16 = rest) : Members rest (pushed lists c b) where
  nodup d := by
    by_cases same : d = c
    · subst same
      rw [pushed, Function.update_self]
      exact List.nodup_cons.mpr ⟨fresh _, members.nodup _⟩
    · rw [pushed, Function.update_of_ne same]
      exact members.nodup d
  apart d e a first second := by
    rcases (mem_pushed lists c d a b).mp first with ⟨same, here⟩ | old
    · rcases (mem_pushed lists c e a b).mp second with ⟨_, there⟩ | new
      · exact here.trans there.symm
      · exact absurd new (same ▸ fresh e)
    · rcases (mem_pushed lists c e a b).mp second with ⟨same, _⟩ | new
      · exact absurd old (same ▸ fresh d)
      · exact members.apart d e a old new
  nodes d a member := by
    rcases (mem_pushed lists c d a b).mp member with ⟨rfl, _⟩ | old
    · exact node
    · exact members.nodes d a old
  range d some := by
    by_cases same : d = c
    · exact same ▸ inside
    · rw [pushed, Function.update_of_ne same] at some
      exact members.range d some

theorem Members.erase (members : Members rest lists) (c : ℕ × ℕ) (b : ℕ) (member : b ∈ lists c) : Members rest (erased lists c b) where
  nodup d := by
    by_cases same : d = c
    · subst same
      rw [erased, Function.update_self]
      exact (members.nodup d).erase b
    · rw [erased, Function.update_of_ne same]
      exact members.nodup d
  apart d e a first second :=
    members.apart d e a ((members.mem_erased c d a b member).mp first).2 ((members.mem_erased c e a b member).mp second).2
  nodes d a inside := members.nodes d a ((members.mem_erased c d a b member).mp inside).2
  range d some := by
    obtain ⟨a, inside⟩ := List.exists_mem_of_ne_nil _ some
    exact members.range d (List.ne_nil_of_mem ((members.mem_erased c d a b member).mp inside).2)

theorem headD_mem {xs : List ℕ} (some : xs.headD 0 ≠ 0) : xs.headD 0 ∈ xs := by
  cases xs with
  | nil => exact absurd rfl some
  | cons a rest => exact List.mem_cons_self

end

theorem Bitmaps.set {t s : Tlsf} {lists : ℕ × ℕ → List ℕ} (bitmaps : Bitmaps t lists) (fl sl b : ℕ) (inside : fl < 24 ∧ sl < 32)
    (classes : s.slBitmap = Function.update t.slBitmap fl (setBit sl (t.slBitmap fl))) (levels : s.flBitmap = setBit fl t.flBitmap) :
    Bitmaps s (pushed lists (fl, sl) b) where
  classes i j := by
    rw [classes]
    by_cases level : i = fl
    · subst level
      rw [Function.update_self, setBit_getLsbD _ _ _ inside.2, Bool.or_eq_true, decide_eq_true_eq, bitmaps.classes]
      by_cases part : j = sl
      · subst part
        simp [pushed]
      · rw [pushed, Function.update_of_ne (by simp [part])]
        simp [part]
    · rw [Function.update_of_ne level, pushed, Function.update_of_ne (by simp [level]), bitmaps.classes]
  levels i := by
    rw [classes, levels, setBit_getLsbD _ _ _ (by omega), Bool.or_eq_true, decide_eq_true_eq, bitmaps.levels]
    by_cases level : i = fl
    · subst level
      rw [Function.update_self]
      refine iff_of_true (.inr rfl) fun zero => ?_
      have set := (eq_zero_iff_getLsbD _).mp zero sl inside.2
      simp [setBit_getLsbD _ _ _ inside.2] at set
    · rw [Function.update_of_ne level]
      simp [level]

theorem Bitmaps.clear {t : Tlsf} {lists : ℕ × ℕ → List ℕ} (bitmaps : Bitmaps t lists) (fl sl b : ℕ) (inside : fl < 24 ∧ sl < 32)
    (last : (lists (fl, sl)).erase b = []) : Bitmaps (t.clearClass fl sl) (erased lists (fl, sl) b) := by
  have classes : (t.clearClass fl sl).slBitmap = Function.update t.slBitmap fl (clearBit sl (t.slBitmap fl)) := by
    unfold Tlsf.clearClass
    dsimp only
    split <;> rfl
  have levels : (t.clearClass fl sl).flBitmap = if clearBit sl (t.slBitmap fl) = 0 then clearBit fl t.flBitmap else t.flBitmap := by
    unfold Tlsf.clearClass
    simp only [Function.update_self]
    split <;> rfl
  refine ⟨fun i j => ?_, fun i => ?_⟩
  · rw [classes]
    by_cases level : i = fl
    · subst level
      rw [Function.update_self, clearBit_getLsbD _ _ _ inside.2, Bool.and_eq_true, decide_eq_true_eq, bitmaps.classes]
      by_cases part : j = sl
      · subst part
        simp [erased, last]
      · rw [erased, Function.update_of_ne (by simp [part])]
        simp [part]
    · rw [Function.update_of_ne level, erased, Function.update_of_ne (by simp [level]), bitmaps.classes]
  · rw [classes, levels]
    by_cases level : i = fl
    · subst level
      rw [Function.update_self]
      split
      · rename_i empty
        rw [clearBit_getLsbD _ _ _ (by omega), empty]
        simp
      · rename_i more
        refine iff_of_true ((bitmaps.levels i).mpr fun zero => more ?_) more
        rw [zero]
        simp [clearBit]
    · rw [Function.update_of_ne level, ← bitmaps.levels]
      split
      · rw [clearBit_getLsbD _ _ _ (by omega)]
        simp [level]
      · rfl

theorem Bitmaps.congr {t s : Tlsf} {lists : ℕ × ℕ → List ℕ} (bitmaps : Bitmaps t lists) (slBitmap : s.slBitmap = t.slBitmap)
    (flBitmap : s.flBitmap = t.flBitmap) : Bitmaps s lists :=
  ⟨fun fl sl => by rw [slBitmap, bitmaps.classes], fun fl => by rw [slBitmap, flBitmap, bitmaps.levels]⟩

theorem Bitmaps.keep {t : Tlsf} {lists : ℕ × ℕ → List ℕ} (bitmaps : Bitmaps t lists) (c : ℕ × ℕ) (b : ℕ) (member : b ∈ lists c)
    (more : (lists c).erase b ≠ []) : Bitmaps t (erased lists c b) := by
  refine ⟨fun i j => ?_, bitmaps.levels⟩
  by_cases same : (i, j) = c
  · subst same
    rw [erased, Function.update_self, bitmaps.classes]
    exact iff_of_true (List.ne_nil_of_mem member) more
  · rw [erased, Function.update_of_ne same, bitmaps.classes]

theorem insertBlock_mem (t : Tlsf) (b fl sl w : ℕ) :
    (t.insertBlock b fl sl).mem w =
      if t.matrix fl sl ≠ 0 ∧ w = t.matrix fl sl + 16 then b
      else if w = b + 24 then t.matrix fl sl else if w = b + 16 then 0 else t.mem w := by
  unfold Tlsf.insertBlock Tlsf.setFreePtr Tlsf.setMatrix Tlsf.write
  by_cases some : t.matrix fl sl ≠ 0
  · simp only [some, not_false_eq_true, ne_eq, if_true, true_and, Function.update_apply]
  · simp only [some, if_false, false_and, Function.update_apply]

theorem insertBlock_matrix (t : Tlsf) (b fl sl i j : ℕ) :
    (t.insertBlock b fl sl).matrix i j = if i = fl ∧ j = sl then b else t.matrix i j := by
  unfold Tlsf.insertBlock Tlsf.setFreePtr Tlsf.setMatrix Tlsf.write
  by_cases some : t.matrix fl sl ≠ 0 <;> simp only [some, ne_eq, not_false_eq_true, if_true, if_false]

theorem insertBlock_bitmaps (t : Tlsf) (b fl sl : ℕ) :
    (t.insertBlock b fl sl).slBitmap = Function.update t.slBitmap fl (setBit sl (t.slBitmap fl)) ∧
      (t.insertBlock b fl sl).flBitmap = setBit fl t.flBitmap := by
  unfold Tlsf.insertBlock Tlsf.setFreePtr Tlsf.setMatrix Tlsf.write
  by_cases some : t.matrix fl sl ≠ 0 <;> simp only [some, ne_eq, not_false_eq_true, if_true, if_false, and_self]

@[simp] theorem clearClass_mem (t : Tlsf) (fl sl : ℕ) : (t.clearClass fl sl).mem = t.mem := by
  unfold Tlsf.clearClass
  dsimp only
  split <;> rfl

@[simp] theorem clearClass_matrix (t : Tlsf) (fl sl : ℕ) : (t.clearClass fl sl).matrix = t.matrix := by
  unfold Tlsf.clearClass
  dsimp only
  split <;> rfl

structure Between (t : Tlsf) (b p n : ℕ) : Prop where
  back : t.mem (b + 16) = p
  next : t.mem (b + 24) = n
  before : p ≠ 0 → p ≠ b ∧ p % 16 = b % 16
  behind : n ≠ 0 → n ≠ b ∧ n % 16 = b % 16

theorem unlink_rest (t : Tlsf) (b : ℕ) :
    (t.unlink b).matrix = t.matrix ∧ (t.unlink b).slBitmap = t.slBitmap ∧ (t.unlink b).flBitmap = t.flBitmap := by
  unfold Tlsf.unlink
  dsimp only
  split <;> split <;> exact ⟨rfl, rfl, rfl⟩

theorem Between.unlink_mem {t : Tlsf} {b p n : ℕ} (between : Between t b p n) (w : ℕ) :
    (t.unlink b).mem w = if p ≠ 0 ∧ w = p + 24 then n else if n ≠ 0 ∧ w = n + 16 then p else t.mem w := by
  obtain ⟨rfl, rfl, before, behind⟩ := between
  unfold Tlsf.unlink
  by_cases last : t.mem (b + 24) = 0
  · simp only [last, ne_eq, not_true_eq_false, if_false, false_and]
    by_cases first : t.mem (b + 16) = 0
    · simp only [first, not_true_eq_false, if_false, false_and]
    · simp only [first, not_false_eq_true, if_true, true_and, Tlsf.write, Function.update_apply]
  · have apart := behind last
    have own : b + 16 ≠ t.mem (b + 24) + 16 := by omega
    have other : b + 24 ≠ t.mem (b + 24) + 16 := by omega
    simp only [last, ne_eq, not_false_eq_true, if_true, Tlsf.write, Function.update_apply, own, other, if_false, true_and]
    by_cases first : t.mem (b + 16) = 0
    · simp only [first, not_true_eq_false, if_false, false_and, Function.update_apply]
    · simp only [first, not_false_eq_true, if_true, true_and, Function.update_apply]

theorem Between.own {t : Tlsf} {b p n : ℕ} (between : Between t b p n) : (t.unlink b).mem (b + 24) = n := by
  rw [between.unlink_mem, if_neg, if_neg, between.next]
  · rintro ⟨some, same⟩
    have := between.behind some
    omega
  · rintro ⟨some, same⟩
    have := between.before some
    omega

@[simp] theorem leaveClass_mem (t : Tlsf) (b fl sl : ℕ) : (t.leaveClass b fl sl).mem = t.mem := by
  unfold Tlsf.leaveClass
  split
  · dsimp only
    split
    · exact clearClass_mem _ fl sl
    · rfl
  · rfl

theorem leaveClass_matrix (t : Tlsf) (b fl sl i j : ℕ) :
    (t.leaveClass b fl sl).matrix i j = if t.matrix fl sl = b ∧ i = fl ∧ j = sl then t.mem (b + 24) else t.matrix i j := by
  have set : (t.setMatrix fl sl (t.mem (b + 24))).matrix i j = if i = fl ∧ j = sl then t.mem (b + 24) else t.matrix i j := rfl
  unfold Tlsf.leaveClass
  by_cases first : t.matrix fl sl = b
  · rw [if_pos first]
    dsimp only
    split <;> simp only [clearClass_matrix, set, first, true_and]
  · simp only [first, if_false, false_and]

theorem clearClass_bitmaps {t s : Tlsf} (slBitmap : s.slBitmap = t.slBitmap) (flBitmap : s.flBitmap = t.flBitmap) (fl sl : ℕ) :
    (s.clearClass fl sl).slBitmap = (t.clearClass fl sl).slBitmap ∧ (s.clearClass fl sl).flBitmap = (t.clearClass fl sl).flBitmap := by
  unfold Tlsf.clearClass
  simp only [slBitmap, flBitmap]
  split <;> exact ⟨rfl, rfl⟩

theorem leaveClass_bitmaps {t s : Tlsf} (slBitmap : s.slBitmap = t.slBitmap) (flBitmap : s.flBitmap = t.flBitmap) (b fl sl : ℕ) :
    (s.leaveClass b fl sl).slBitmap =
        (if s.matrix fl sl = b ∧ s.mem (b + 24) = 0 then (t.clearClass fl sl).slBitmap else t.slBitmap) ∧
      (s.leaveClass b fl sl).flBitmap =
        if s.matrix fl sl = b ∧ s.mem (b + 24) = 0 then (t.clearClass fl sl).flBitmap else t.flBitmap := by
  have head (next : ℕ) : (s.setMatrix fl sl next).matrix fl sl = next := if_pos ⟨rfl, rfl⟩
  unfold Tlsf.leaveClass
  by_cases first : s.matrix fl sl = b
  · by_cases last : s.mem (b + 24) = 0
    · simp only [first, head, last, if_true, and_self]
      have slSame : (s.setMatrix fl sl 0).slBitmap = t.slBitmap := slBitmap
      have flSame : (s.setMatrix fl sl 0).flBitmap = t.flBitmap := flBitmap
      exact clearClass_bitmaps slSame flSame fl sl
    · simp only [first, head, last, if_true, if_false, and_false]
      exact ⟨slBitmap, flBitmap⟩
  · simp only [first, if_false, false_and]
    exact ⟨slBitmap, flBitmap⟩

theorem Between.extractBlock_mem {t : Tlsf} {b p n : ℕ} (between : Between t b p n) (fl sl w : ℕ) :
    (t.extractBlock b fl sl).mem w =
      if w = b + 24 ∨ w = b + 16 then 0
      else if p ≠ 0 ∧ w = p + 24 then n else if n ≠ 0 ∧ w = n + 16 then p else t.mem w := by
  rw [← between.unlink_mem]
  simp only [Tlsf.extractBlock, Tlsf.setFreePtr, Tlsf.write, Function.update_apply, leaveClass_mem]
  by_cases next : w = b + 24
  · simp [next]
  · simp [next]

-- The links of the other blocks stay, but for the two that lead to b.
section

variable {t : Tlsf} {b p n : ℕ}

theorem Between.extract_back (between : Between t b p n) (fl sl a : ℕ) (aligned : a % 16 = b % 16) (apart : a ≠ b) (notNext : a ≠ n) :
    (t.extractBlock b fl sl).mem (a + 16) = t.mem (a + 16) := by
  rw [between.extractBlock_mem, if_neg (by omega), if_neg, if_neg (by omega)]
  rintro ⟨some, same⟩
  have := between.before some
  omega

theorem Between.extract_next (between : Between t b p n) (fl sl a : ℕ) (aligned : a % 16 = b % 16) (apart : a ≠ b) (notLast : a ≠ p) :
    (t.extractBlock b fl sl).mem (a + 24) = t.mem (a + 24) := by
  rw [between.extractBlock_mem, if_neg (by omega), if_neg (by omega), if_neg]
  rintro ⟨some, same⟩
  have := between.behind some
  omega

theorem Between.extract_before (between : Between t b p n) (fl sl : ℕ) (some : p ≠ 0) : (t.extractBlock b fl sl).mem (p + 24) = n := by
  have apart := between.before some
  rw [between.extractBlock_mem, if_neg (by omega), if_pos ⟨some, rfl⟩]

theorem Between.extract_behind (between : Between t b p n) (fl sl : ℕ) (some : n ≠ 0) : (t.extractBlock b fl sl).mem (n + 16) = p := by
  have apart := between.behind some
  rw [between.extractBlock_mem, if_neg (by omega), if_neg, if_pos ⟨some, rfl⟩]
  rintro ⟨also, same⟩
  have := between.before also
  omega

end

theorem extractBlockHdr_eq (t : Tlsf) (b fl sl : ℕ) (first : t.matrix fl sl = b) (back : t.mem (b + 16) = 0)
    (behind : t.mem (b + 24) ≠ 0 → t.mem (b + 24) ≠ b ∧ t.mem (b + 24) % 16 = b % 16) :
    t.extractBlockHdr b fl sl = t.extractBlock b fl sl := by
  have between : Between t b 0 (t.mem (b + 24)) := ⟨back, rfl, fun some => absurd rfl some, behind⟩
  unfold Tlsf.extractBlock Tlsf.extractBlockHdr Tlsf.leaveClass
  rw [(unlink_rest t b).1, if_pos first, between.own]
  by_cases last : t.mem (b + 24) = 0
  · have same : t.unlink b = t := by simp [Tlsf.unlink, last, back]
    simp [last, same, Tlsf.setMatrix]
  · have apart := behind last
    have same : t.unlink b = t.write (t.mem (b + 24) + 16) 0 := by
      simp [Tlsf.unlink, last, back, Tlsf.write, Function.update_apply]
    simp [last, same, Tlsf.setMatrix, Tlsf.write]

namespace FreeLists

variable {t : Tlsf} {rest : ℕ} {lists : ℕ × ℕ → List ℕ}

theorem congr {s : Tlsf} (free : FreeLists t rest lists) (matrix : s.matrix = t.matrix) (slBitmap : s.slBitmap = t.slBitmap)
    (flBitmap : s.flBitmap = t.flBitmap) (links : ∀ c, ∀ a ∈ lists c, s.mem (a + 16) = t.mem (a + 16) ∧ s.mem (a + 24) = t.mem (a + 24)) :
    FreeLists s rest lists where
  linked c := (free.linked c).congr (fun a member => (links c a member).1) fun a member => (links c a member).2
  head c := by rw [matrix, free.head c]
  members := free.members
  bitmaps := free.bitmaps.congr slBitmap flBitmap

theorem write (free : FreeLists t rest lists) (adr val : ℕ) (outside : ∀ c, ∀ a ∈ lists c, adr ≠ a + 16 ∧ adr ≠ a + 24) :
    FreeLists (t.write adr val) rest lists := by
  refine free.congr rfl rfl rfl fun c a member => ?_
  obtain ⟨one, two⟩ := outside c a member
  exact ⟨Function.update_of_ne one.symm _ _, Function.update_of_ne two.symm _ _⟩

section

variable {b : ℕ} {c : ℕ × ℕ}

theorem fresh_apart (free : FreeLists t rest lists) (fresh : ∀ d, b ∉ lists d) (node : 0 < b ∧ b % 16 = rest) (d : ℕ × ℕ) (a : ℕ)
    (member : a ∈ lists d) : a ≠ b ∧ a % 16 = b % 16 ∧ 0 < a := by
  obtain ⟨positive, aligned⟩ := free.members.nodes d a member
  exact ⟨fun same => fresh d (same ▸ member), aligned.trans node.2.symm, positive⟩

theorem head_member (free : FreeLists t rest lists) (some : t.matrix c.1 c.2 ≠ 0) : t.matrix c.1 c.2 ∈ lists c := by
  rw [free.head c] at some ⊢
  exact headD_mem some

theorem head_first (free : FreeLists t rest lists) (a : ℕ) (isFirst : (lists c).head? = some a) : t.matrix c.1 c.2 = a := by
  rw [free.head c, List.headD_eq_head?_getD, isFirst, Option.getD_some]

theorem insertBlock_node (free : FreeLists t rest lists) (fresh : ∀ d, b ∉ lists d) (node : 0 < b ∧ b % 16 = rest) :
    (t.insertBlock b c.1 c.2).mem (b + 16) = 0 ∧ (t.insertBlock b c.1 c.2).mem (b + 24) = t.matrix c.1 c.2 := by
  have head (some : t.matrix c.1 c.2 ≠ 0) := free.fresh_apart fresh node c _ (free.head_member some)
  constructor
  · rw [insertBlock_mem, if_neg, if_neg (by omega), if_pos rfl]
    rintro ⟨some, same⟩
    exact (head some).1 (by omega)
  · rw [insertBlock_mem, if_neg, if_pos rfl]
    rintro ⟨some, same⟩
    have := head some
    omega

theorem insertBlock_next (free : FreeLists t rest lists) (fresh : ∀ d, b ∉ lists d) (node : 0 < b ∧ b % 16 = rest) (d : ℕ × ℕ) (a : ℕ)
    (member : a ∈ lists d) : (t.insertBlock b c.1 c.2).mem (a + 24) = t.mem (a + 24) := by
  have apart := free.fresh_apart fresh node d a member
  rw [insertBlock_mem, if_neg, if_neg (by omega), if_neg (by omega)]
  rintro ⟨some, same⟩
  have := free.fresh_apart fresh node c _ (free.head_member some)
  omega

theorem insertBlock_back (free : FreeLists t rest lists) (fresh : ∀ d, b ∉ lists d) (node : 0 < b ∧ b % 16 = rest) (d : ℕ × ℕ) (a : ℕ)
    (member : a ∈ lists d) (notHead : a ≠ t.matrix c.1 c.2) : (t.insertBlock b c.1 c.2).mem (a + 16) = t.mem (a + 16) := by
  have apart := free.fresh_apart fresh node d a member
  rw [insertBlock_mem, if_neg (by omega), if_neg (by omega), if_neg (by omega)]

theorem insertBlock_own (free : FreeLists t rest lists) (fresh : ∀ d, b ∉ lists d) (node : 0 < b ∧ b % 16 = rest) :
    TwoWay.Linked (fun a => (t.insertBlock b c.1 c.2).mem (a + 16)) (fun a => (t.insertBlock b c.1 c.2).mem (a + 24)) 0 (b :: lists c) 0 := by
  obtain ⟨ownBack, ownNext⟩ := free.insertBlock_node (c := c) fresh node
  refine ⟨ownBack, ownNext.trans (free.head c), (free.linked c).restart (free.members.nodup c) (free.insertBlock_next fresh node c)
    (fun a member notFirst => free.insertBlock_back fresh node c a member ?_) fun a isFirst => ?_⟩
  · rintro rfl
    obtain ⟨x, isFirst⟩ := Option.ne_none_iff_exists'.mp (mt List.head?_eq_none_iff.mp (List.ne_nil_of_mem member))
    exact notFirst (isFirst.trans (congrArg some (free.head_first x isFirst).symm))
  · have apart := free.fresh_apart fresh node c a (List.mem_of_mem_head? isFirst)
    obtain rfl := free.head_first a isFirst
    rw [insertBlock_mem, if_pos ⟨apart.2.2.ne', rfl⟩]

theorem insertBlock_others (free : FreeLists t rest lists) (fresh : ∀ d, b ∉ lists d) (node : 0 < b ∧ b % 16 = rest) (d : ℕ × ℕ) (other : d ≠ c) :
    TwoWay.Linked (fun a => (t.insertBlock b c.1 c.2).mem (a + 16)) (fun a => (t.insertBlock b c.1 c.2).mem (a + 24)) 0 (lists d) 0 := by
  refine (free.linked d).congr (fun a member => free.insertBlock_back fresh node d a member ?_) (free.insertBlock_next fresh node d)
  rintro rfl
  exact other (free.members.apart d c _ member (free.head_member (free.fresh_apart fresh node d _ member).2.2.ne'))

end

theorem insertBlock (free : FreeLists t rest lists) (b : ℕ) (c : ℕ × ℕ) (inside : c.1 < 24 ∧ c.2 < 32) (fresh : ∀ d, b ∉ lists d)
    (node : 0 < b ∧ b % 16 = rest) : FreeLists (t.insertBlock b c.1 c.2) rest (pushed lists c b) := by
  refine ⟨fun d => ?_, fun d => ?_, free.members.push c b inside fresh node,
    free.bitmaps.set c.1 c.2 b inside (insertBlock_bitmaps t b c.1 c.2).1 (insertBlock_bitmaps t b c.1 c.2).2⟩
  · by_cases same : d = c
    · subst same
      rw [pushed, Function.update_self]
      exact free.insertBlock_own fresh node
    · rw [pushed, Function.update_of_ne same]
      exact free.insertBlock_others fresh node d same
  · rw [insertBlock_matrix]
    by_cases same : d = c
    · subst same
      rw [if_pos ⟨rfl, rfl⟩, pushed, Function.update_self]
      rfl
    · rw [if_neg (fun both => same (Prod.ext both.1 both.2)), pushed, Function.update_of_ne same, free.head]

theorem getLastD_mem {xs : List ℕ} (some : xs.getLastD 0 ≠ 0) : xs.getLastD 0 ∈ xs := by
  cases xs with
  | nil => exact absurd rfl some
  | cons a rest =>
      rw [List.getLastD_cons]
      exact List.getLastD_mem_cons

structure Place (t : Tlsf) (lists : ℕ × ℕ → List ℕ) (c : ℕ × ℕ) (b : ℕ) (xs ys : List ℕ) : Prop where
  listed : lists c = xs ++ b :: ys
  front : TwoWay.Linked (fun a => t.mem (a + 16)) (fun a => t.mem (a + 24)) 0 xs b
  tail : TwoWay.Linked (fun a => t.mem (a + 16)) (fun a => t.mem (a + 24)) b ys 0
  between : Between t b (xs.getLastD 0) (ys.headD 0)

theorem place (free : FreeLists t rest lists) (c : ℕ × ℕ) (b : ℕ) (member : b ∈ lists c) : ∃ xs ys, Place t lists c b xs ys := by
  obtain ⟨xs, ys, listed⟩ := List.append_of_mem member
  have linked := free.linked c
  rw [listed, linked_append] at linked
  obtain ⟨front, back, next, tail⟩ := linked
  have nodup := free.members.nodup c
  rw [listed] at nodup
  have apart := List.nodup_middle.mp nodup
  have beside (a : ℕ) (inside : a ∈ xs ++ ys) : a ≠ b ∧ a % 16 = b % 16 := by
    have among : a ∈ lists c := by
      rw [listed]
      rcases List.mem_append.mp inside with early | late
      · exact List.mem_append_left _ early
      · exact List.mem_append_right _ (List.mem_cons_of_mem b late)
    refine ⟨?_, (free.members.nodes c a among).2.trans (free.members.nodes c b member).2.symm⟩
    rintro rfl
    exact (List.nodup_cons.mp apart).1 inside
  exact ⟨xs, ys, listed, front, tail, back, next, fun some => beside _ (List.mem_append_left ys (getLastD_mem some)),
    fun some => beside _ (List.mem_append_right xs (headD_mem some))⟩

theorem extractBlock_frame (free : FreeLists t rest lists) (b : ℕ) (c : ℕ × ℕ) (member : b ∈ lists c) (w : ℕ)
    (outside : ∀ a ∈ lists c, w ≠ a + 16 ∧ w ≠ a + 24) : (t.extractBlock b c.1 c.2).mem w = t.mem w := by
  obtain ⟨xs, ys, placed⟩ := free.place c b member
  have own := outside b member
  rw [placed.between.extractBlock_mem, if_neg (by omega), if_neg, if_neg]
  · rintro ⟨some, same⟩
    have inside : ys.headD 0 ∈ lists c := by
      rw [placed.listed]
      exact List.mem_append_right _ (List.mem_cons_of_mem b (headD_mem some))
    exact (outside _ inside).1 same
  · rintro ⟨some, same⟩
    have inside : xs.getLastD 0 ∈ lists c := by
      rw [placed.listed]
      exact List.mem_append_left _ (getLastD_mem some)
    exact (outside _ inside).2 same

theorem insertBlock_frame (free : FreeLists t rest lists) (b : ℕ) (c : ℕ × ℕ) (w : ℕ) (own : w ≠ b + 16 ∧ w ≠ b + 24)
    (outside : ∀ a ∈ lists c, w ≠ a + 16 ∧ w ≠ a + 24) : (t.insertBlock b c.1 c.2).mem w = t.mem w := by
  rw [insertBlock_mem, if_neg, if_neg own.2, if_neg own.1]
  rintro ⟨some, same⟩
  exact (outside _ (free.head_member some)).1 same

structure Sides (lists : ℕ × ℕ → List ℕ) (c : ℕ × ℕ) (b p n : ℕ) (xs ys : List ℕ) : Prop where
  early : ∀ a ∈ xs, a ∈ lists c ∧ a ≠ b ∧ a ≠ n
  late : ∀ a ∈ ys, a ∈ lists c ∧ a ≠ b ∧ a ≠ p
  before : p ≠ 0 → p ∈ xs
  behind : n ≠ 0 → n ∈ ys
  nodup : (xs ++ ys).Nodup
  left : (lists c).erase b = xs ++ ys

section

variable {c : ℕ × ℕ} {b : ℕ} {xs ys : List ℕ}

theorem sides (free : FreeLists t rest lists) (placed : Place t lists c b xs ys) : Sides lists c b (xs.getLastD 0) (ys.headD 0) xs ys := by
  have nodup := free.members.nodup c
  rw [placed.listed] at nodup
  obtain ⟨fresh, both⟩ := List.nodup_cons.mp (List.nodup_middle.mp nodup)
  have inFront (a : ℕ) (inside : a ∈ xs) : a ∈ lists c := by
    rw [placed.listed]
    exact List.mem_append_left _ inside
  have inTail (a : ℕ) (inside : a ∈ ys) : a ∈ lists c := by
    rw [placed.listed]
    exact List.mem_append_right _ (List.mem_cons_of_mem b inside)
  have nonzero (a : ℕ) (among : a ∈ lists c) : a ≠ 0 := (free.members.nodes c a among).1.ne'
  refine ⟨fun a inside => ⟨inFront a inside, ?_, ?_⟩, fun a inside => ⟨inTail a inside, ?_, ?_⟩, getLastD_mem, headD_mem, both, ?_⟩
  · exact fun same => fresh (same ▸ List.mem_append_left ys inside)
  · rintro rfl
    exact List.disjoint_of_nodup_append both inside (headD_mem (nonzero _ (inFront _ inside)))
  · exact fun same => fresh (same ▸ List.mem_append_right xs inside)
  · rintro rfl
    exact List.disjoint_of_nodup_append both (getLastD_mem (nonzero _ (inTail _ inside))) inside
  · rw [placed.listed, List.erase_append_right _ (fun early => fresh (List.mem_append_left ys early)), List.erase_cons_head]

theorem Place.member (placed : Place t lists c b xs ys) : b ∈ lists c := by
  rw [placed.listed]
  exact List.mem_append_right xs List.mem_cons_self

theorem aligned (free : FreeLists t rest lists) (placed : Place t lists c b xs ys) (d : ℕ × ℕ) (a : ℕ) (inside : a ∈ lists d) :
    a % 16 = b % 16 ∧ a ≠ 0 :=
  ⟨(free.members.nodes d a inside).2.trans (free.members.nodes c b placed.member).2.symm, (free.members.nodes d a inside).1.ne'⟩

theorem extractBlock_own (free : FreeLists t rest lists) (placed : Place t lists c b xs ys) :
    TwoWay.Linked (fun a => (t.extractBlock b c.1 c.2).mem (a + 16)) (fun a => (t.extractBlock b c.1 c.2).mem (a + 24)) 0 (xs ++ ys) 0 := by
  have between := placed.between
  have sides := free.sides placed
  have aligned := free.aligned placed c
  rw [linked_append]
  refine ⟨placed.front.turn sides.nodup.of_append_left ?_ ?_ ?_, placed.tail.restart sides.nodup.of_append_right ?_ ?_ ?_⟩
  · intro a inside
    obtain ⟨among, apart, notNext⟩ := sides.early a inside
    exact between.extract_back c.1 c.2 a (aligned a among).1 apart notNext
  · intro a inside notLast
    obtain ⟨among, apart, _⟩ := sides.early a inside
    exact between.extract_next c.1 c.2 a (aligned a among).1 apart notLast
  · intro some
    refine between.extract_before c.1 c.2 (aligned _ (sides.early _ ?_).1).2
    obtain ⟨x, more, rfl⟩ := List.exists_cons_of_ne_nil some
    rw [List.getLastD_cons]
    exact List.getLastD_mem_cons
  · intro a inside
    obtain ⟨among, apart, notLast⟩ := sides.late a inside
    exact between.extract_next c.1 c.2 a (aligned a among).1 apart notLast
  · intro a inside notFirst
    obtain ⟨among, apart, _⟩ := sides.late a inside
    refine between.extract_back c.1 c.2 a (aligned a among).1 apart ?_
    rintro rfl
    obtain ⟨x, more, rfl⟩ := List.exists_cons_of_ne_nil (List.ne_nil_of_mem inside)
    exact notFirst rfl
  · intro a isFirst
    have first : ys.headD 0 = a := by rw [List.headD_eq_head?_getD, isFirst, Option.getD_some]
    rw [← first]
    exact between.extract_behind c.1 c.2 (first ▸ (aligned a (sides.late a (List.mem_of_mem_head? isFirst)).1).2)

theorem extractBlock_others (free : FreeLists t rest lists) (placed : Place t lists c b xs ys) (d : ℕ × ℕ) (other : d ≠ c) :
    TwoWay.Linked (fun a => (t.extractBlock b c.1 c.2).mem (a + 16)) (fun a => (t.extractBlock b c.1 c.2).mem (a + 24)) 0 (lists d) 0 := by
  have between := placed.between
  have sides := free.sides placed
  have aligned := free.aligned placed d
  have apart (a x : ℕ) (inside : a ∈ lists d) (among : x ≠ 0 → x ∈ lists c) : a ≠ x := by
    rintro rfl
    exact other (free.members.apart d c a inside (among (aligned a inside).2))
  have notIt (a : ℕ) (inside : a ∈ lists d) : a ≠ b := apart a b inside fun _ => placed.member
  refine (free.linked d).congr (fun a inside => ?_) fun a inside => ?_
  · exact between.extract_back c.1 c.2 a (aligned a inside).1 (notIt a inside) (apart a _ inside fun some => (sides.late _ (sides.behind some)).1)
  · exact between.extract_next c.1 c.2 a (aligned a inside).1 (notIt a inside) (apart a _ inside fun some => (sides.early _ (sides.before some)).1)

theorem matrix_place (free : FreeLists t rest lists) (placed : Place t lists c b xs ys) : t.matrix c.1 c.2 = b ↔ xs = [] := by
  have sides := free.sides placed
  rw [free.head c, placed.listed]
  cases xs with
  | nil => exact iff_of_true rfl rfl
  | cons x rest => exact iff_of_false (sides.early x List.mem_cons_self).2.1 (by simp)

theorem none_behind (free : FreeLists t rest lists) (placed : Place t lists c b xs ys) : ys.headD 0 = 0 ↔ ys = [] := by
  have sides := free.sides placed
  cases ys with
  | nil => exact iff_of_true rfl rfl
  | cons y rest => exact iff_of_false (free.aligned placed c y (sides.late y List.mem_cons_self).1).2 (by simp)

theorem extractBlock_head (free : FreeLists t rest lists) (placed : Place t lists c b xs ys) (d : ℕ × ℕ) :
    (t.extractBlock b c.1 c.2).matrix d.1 d.2 = (erased lists c b d).headD 0 := by
  have matrix := leaveClass_matrix (t.unlink b) b c.1 c.2 d.1 d.2
  rw [(unlink_rest t b).1, placed.between.own] at matrix
  refine matrix.trans ?_
  by_cases same : d = c
  · subst same
    rw [erased, Function.update_self, (free.sides placed).left, headD_append]
    by_cases first : xs = []
    · rw [if_pos ⟨(free.matrix_place placed).mpr first, rfl, rfl⟩, first]
      rfl
    · rw [if_neg (fun both => first ((free.matrix_place placed).mp both.1)), free.head d, placed.listed, headD_append]
      obtain ⟨x, more, rfl⟩ := List.exists_cons_of_ne_nil first
      rfl
  · rw [if_neg (fun both => same (Prod.ext both.2.1 both.2.2)), erased, Function.update_of_ne same, free.head]

theorem extractBlock_bitmaps (free : FreeLists t rest lists) (placed : Place t lists c b xs ys) :
    Bitmaps (t.extractBlock b c.1 c.2) (erased lists c b) := by
  have left := (free.sides placed).left
  obtain ⟨matrix, slSame, flSame⟩ := unlink_rest t b
  obtain ⟨sl, fl⟩ := leaveClass_bitmaps slSame flSame b c.1 c.2
  simp only [matrix, placed.between.own, free.matrix_place placed, free.none_behind placed] at sl fl
  have range := free.members.range c (List.ne_nil_of_mem placed.member)
  by_cases empty : xs = [] ∧ ys = []
  · rw [if_pos empty] at sl fl
    refine (free.bitmaps.clear c.1 c.2 b range ?_).congr sl fl
    rw [left, empty.1, empty.2]
    rfl
  · rw [if_neg empty] at sl fl
    refine (free.bitmaps.keep c b placed.member ?_).congr sl fl
    rw [left]
    exact fun none => empty (List.append_eq_nil_iff.mp none)

end

theorem extractBlock (free : FreeLists t rest lists) (b : ℕ) (c : ℕ × ℕ) (member : b ∈ lists c) :
    FreeLists (t.extractBlock b c.1 c.2) rest (erased lists c b) := by
  obtain ⟨xs, ys, placed⟩ := free.place c b member
  refine ⟨fun d => ?_, free.extractBlock_head placed, free.members.erase c b member, free.extractBlock_bitmaps placed⟩
  by_cases same : d = c
  · subst same
    rw [erased, Function.update_self, (free.sides placed).left]
    exact free.extractBlock_own placed
  · rw [erased, Function.update_of_ne same]
    exact free.extractBlock_others placed d same

theorem mask_getLsbD (word : BitVec 32) (start j : ℕ) :
    (word &&& (BitVec.allOnes 32 <<< start)).getLsbD j = true ↔ word.getLsbD j = true ∧ start ≤ j := by
  rw [BitVec.getLsbD_and, BitVec.getLsbD_shiftLeft, BitVec.getLsbD_allOnes]
  by_cases width : j < 32
  · by_cases low : j < start
    · simp [low, Nat.not_le.mpr low]
    · have within : j - start < 32 := by omega
      simp [low, width, within, Nat.not_lt.mp low]
  · simp [BitVec.getLsbD_of_ge _ _ (Nat.not_lt.mp width)]

theorem level_bit (free : FreeLists t rest lists) (c : ℕ × ℕ) (some : lists c ≠ []) : t.flBitmap.getLsbD c.1 = true := by
  have set := (free.bitmaps.classes c.1 c.2).mpr some
  exact (free.bitmaps.levels c.1).mpr fun zero => by simp [zero] at set

theorem headed (free : FreeLists t rest lists) (c : ℕ × ℕ) (some : lists c ≠ []) : (lists c).head? = .some (t.matrix c.1 c.2) := by
  obtain ⟨a, isFirst⟩ := Option.ne_none_iff_exists'.mp (mt List.head?_eq_none_iff.mp some)
  rw [isFirst, free.head_first a isFirst]

theorem level_empty (free : FreeLists t rest lists) {fl sl : ℕ} (clear : t.slBitmap fl &&& (BitVec.allOnes 32 <<< sl) = 0) (j : ℕ) (behind : sl ≤ j) :
    lists (fl, j) = [] := by
  by_contra some
  have bit := (mask_getLsbD _ sl j).mpr ⟨(free.bitmaps.classes fl j).mpr some, behind⟩
  rw [clear] at bit
  simp at bit

theorem findSuitableBlock_least (free : FreeLists t rest lists) (fl sl : ℕ) :
    ((t.findSuitableBlock fl sl).1 = 0 ∧ ∀ c, ClassLe (fl, sl) c → lists c = []) ∨
      ((lists (t.findSuitableBlock fl sl).2).head? = some (t.findSuitableBlock fl sl).1 ∧
        ClassLe (fl, sl) (t.findSuitableBlock fl sl).2 ∧
        ∀ c, ClassLe (fl, sl) c → lists c ≠ [] → ClassLe (t.findSuitableBlock fl sl).2 c) := by
  unfold Tlsf.findSuitableBlock
  by_cases here : t.slBitmap fl &&& (BitVec.allOnes 32 <<< sl) = 0
  · have none := free.level_empty here
    simp only [here, ne_eq, not_true_eq_false, if_false]
    by_cases above : t.flBitmap &&& (BitVec.allOnes 32 <<< (fl + 1)) = 0
    · refine .inl ⟨?_, fun c le => ?_⟩
      · rw [above, lsBit_zero]
        rfl
      · rcases le with higher | ⟨same, behind⟩
        · by_contra some
          have bit := (mask_getLsbD _ (fl + 1) c.1).mpr ⟨free.level_bit c some, higher⟩
          rw [above] at bit
          simp at bit
        · obtain rfl : fl = c.1 := same
          exact none c.2 behind
    · obtain ⟨k, -, found, set, lowest⟩ := lsBit_lowest _ above
      obtain ⟨level, higher⟩ := (mask_getLsbD _ (fl + 1) k).mp set
      obtain ⟨j, -, part, bit, first⟩ := lsBit_lowest _ ((free.bitmaps.levels k).mp level)
      have positive : ((k : ℕ) : ℤ) > 0 := by omega
      simp only [found, positive, if_true, Int.toNat_natCast, part]
      refine .inr ⟨free.headed (k, j) ((free.bitmaps.classes k j).mp bit), .inl higher, fun c le some => ?_⟩
      have own := (free.bitmaps.classes c.1 c.2).mpr some
      rcases le with more | ⟨same, behind⟩
      · have least := lowest_le lowest ((mask_getLsbD _ (fl + 1) c.1).mpr ⟨free.level_bit c some, more⟩)
        rcases least.eq_or_lt with rfl | beyond
        · exact .inr ⟨rfl, lowest_le first own⟩
        · exact .inl beyond
      · obtain rfl : fl = c.1 := same
        exact absurd (none c.2 behind) some
  · obtain ⟨k, -, found, set, lowest⟩ := lsBit_lowest _ here
    obtain ⟨bit, behind⟩ := (mask_getLsbD _ sl k).mp set
    simp only [here, ne_eq, not_false_eq_true, if_true, found, Int.toNat_natCast]
    refine .inr ⟨free.headed (fl, k) ((free.bitmaps.classes fl k).mp bit), .inr ⟨rfl, behind⟩, fun c le some => ?_⟩
    rcases le with more | ⟨same, within⟩
    · exact .inl more
    · obtain rfl : fl = c.1 := same
      exact .inr ⟨rfl, lowest_le lowest ((mask_getLsbD _ sl c.2).mpr ⟨(free.bitmaps.classes c.1 c.2).mpr some, within⟩)⟩

end FreeLists

end SsAdma
