import SsAdma.TlsfInit

set_option autoImplicit false

namespace SsAdma

structure Region where
  ptr : ℕ
  size : ℕ
  word : ℕ → ℕ

structure Client where
  tlsf : Tlsf
  heap : List Region

inductive Call where
  | malloc (size : ℕ)
  | free (ptr : ℕ)
  | realloc (ptr size : ℕ)
  | store (ptr offset val : ℕ)

namespace Client

def Allowed (c : Client) : Call → Prop
  | .malloc size => size ≤ 2 ^ 30 - 2 ^ 24
  | .free ptr => ptr = 0 ∨ ∃ r ∈ c.heap, r.ptr = ptr
  | .realloc ptr size => size ≤ 2 ^ 30 - 2 ^ 24 ∧ (ptr = 0 ∨ ∃ r ∈ c.heap, r.ptr = ptr)
  | .store ptr offset _ => 8 ∣ offset ∧ ∃ r ∈ c.heap, r.ptr = ptr ∧ offset < r.size

instance (c : Client) (call : Call) : Decidable (c.Allowed call) :=
  match call with
  | .malloc size => inferInstanceAs (Decidable (size ≤ 2 ^ 30 - 2 ^ 24))
  | .free ptr => inferInstanceAs (Decidable (ptr = 0 ∨ ∃ r ∈ c.heap, r.ptr = ptr))
  | .realloc ptr size => inferInstanceAs (Decidable (size ≤ 2 ^ 30 - 2 ^ 24 ∧ (ptr = 0 ∨ ∃ r ∈ c.heap, r.ptr = ptr)))
  | .store ptr offset _ => inferInstanceAs (Decidable (8 ∣ offset ∧ ∃ r ∈ c.heap, r.ptr = ptr ∧ offset < r.size))

def handedOut (heap : List Region) (t : Tlsf) (ptr size : ℕ) (old : Option Region) : List Region :=
  if ptr = 0 then heap
  else ⟨ptr, size, fun i => match old with
    | some r => if i < r.size then r.word i else t.mem (ptr + i)
    | none => t.mem (ptr + i)⟩ :: heap

-- none: realloc_ex copies to NULL.
def step (c : Client) : Call → Option Client
  | .malloc size =>
      let (ptr, t) := c.tlsf.mallocEx size
      some ⟨t, handedOut c.heap t ptr size none⟩
  | .free ptr => some ⟨c.tlsf.freeEx ptr, c.heap.filter (·.ptr ≠ ptr)⟩
  | .realloc ptr size =>
      match c.tlsf.reallocEx ptr size with
      | none => none
      | some (new, t) => some ⟨t, handedOut (c.heap.filter (·.ptr ≠ ptr)) t new size (c.heap.find? (·.ptr = ptr))⟩
  | .store ptr offset val =>
      some ⟨c.tlsf.write (ptr + offset) val,
        c.heap.map fun r => if r.ptr = ptr then { r with word := Function.update r.word offset val } else r⟩

def run (c : Client) : List Call → Option Client
  | [] => some c
  | call :: rest =>
      if c.Allowed call then
        match c.step call with
        | none => none
        | some mid => mid.run rest
      else none

end Client

structure Represents (t : Tlsf) (heap : List Region) (blocks : List PoolBlock) : Prop where
  region : ∀ r ∈ heap, ∃ k ∈ blocks, k.free = false ∧ k.buffer = r.ptr ∧ r.size ≤ k.size
  block : ∀ k ∈ blocks, k.free = false → ∃ r ∈ heap, r.ptr = k.buffer
  alone : heap.Pairwise fun r s => r.ptr ≠ s.ptr
  word : ∀ r ∈ heap, ∀ i, 8 ∣ i → i < r.size → t.mem (r.ptr + i) = r.word i

namespace Represents

variable {t s : Tlsf} {first last : ℕ} {heap : List Region} {blocks others : List PoolBlock}

theorem spares (rep : Represents t heap blocks) (spares : Spares first last blocks others t s) : Represents s heap others where
  region r member := by
    obtain ⟨k, among, used, place, size⟩ := rep.region r member
    exact ⟨k, (spares.same k used).mpr among, used, place, size⟩
  block k among used := rep.block k ((spares.same k used).mp among) used
  alone := rep.alone
  word r member i whole inside := by
    obtain ⟨k, among, used, place, size⟩ := rep.region r member
    have foreign : Foreign first last blocks (r.ptr + i) := by
      refine .inr (.inr ⟨k, among, used, by omega, ?_⟩)
      simp only [PoolBlock.stop, PoolBlock.buffer] at place ⊢
      omega
    rw [spares.kept _ foreign, rep.word r member i whole inside]

theorem takes {b : PoolBlock} {lists : ℕ × ℕ → List ℕ} (rep : Represents t heap blocks) (takes : Takes t s first last blocks b others)
    (holds : Holds s first last others lists) (r : Region) (place : r.ptr = b.buffer) (enough : r.size ≤ b.size)
    (word : ∀ i, 8 ∣ i → i < r.size → s.mem (r.ptr + i) = r.word i) : Represents s (r :: heap) others where
  region q member := by
    rcases List.mem_cons.mp member with rfl | old
    · exact ⟨b, (takes.same b takes.used).mpr (.inl rfl), takes.used, place.symm, enough⟩
    · obtain ⟨k, among, used, rest⟩ := rep.region q old
      exact ⟨k, (takes.same k used).mpr (.inr among), used, rest⟩
  block k among used := by
    rcases (takes.same k used).mp among with rfl | old
    · exact ⟨r, List.mem_cons_self, place⟩
    · obtain ⟨q, member, at_k⟩ := rep.block k old used
      exact ⟨q, List.mem_cons_of_mem r member, at_k⟩
  alone := by
    refine List.Pairwise.cons (fun q member same => ?_) rep.alone
    obtain ⟨k, among, used, at_k, _⟩ := rep.region q member
    have at_b : b ∈ others := (takes.same b takes.used).mpr (.inl rfl)
    have kept : k ∈ others := (takes.same k used).mpr (.inr among)
    simp only [PoolBlock.buffer] at at_k place
    rcases ordered_apart holds.chain.ordered at_b kept with rfl | before | behind
    · exact takes.fresh among
    · simp only [PoolBlock.stop] at before
      omega
    · simp only [PoolBlock.stop] at behind
      omega
  word q member i whole inside := by
    rcases List.mem_cons.mp member with rfl | old
    · exact word i whole inside
    · obtain ⟨k, among, used, at_k, size⟩ := rep.region q old
      have foreign : Foreign first last blocks (q.ptr + i) := by
        refine .inr (.inr ⟨k, among, used, by omega, ?_⟩)
        simp only [PoolBlock.stop, PoolBlock.buffer] at at_k ⊢
        omega
      rw [takes.kept _ foreign, rep.word q old i whole inside]

theorem remove {xs zs : List PoolBlock} {k : PoolBlock} (rep : Represents t heap (xs ++ k :: zs)) (ordered : (xs ++ k :: zs).Pairwise fun a b => a.stop ≤ b.adr) :
    Represents t (heap.filter (·.ptr ≠ k.buffer)) (xs ++ zs) where
  region r member := by
    obtain ⟨old, apart⟩ := List.mem_filter.mp member
    obtain ⟨j, among, used, place, size⟩ := rep.region r old
    refine ⟨j, ?_, used, place, size⟩
    simp only [List.mem_append, List.mem_cons] at among ⊢
    rcases among with early | rfl | late
    · exact .inl early
    · simp [place] at apart
    · exact .inr late
  block j among used := by
    have still : j ∈ xs ++ k :: zs := by
      simp only [List.mem_append, List.mem_cons] at among ⊢
      tauto
    obtain ⟨r, member, place⟩ := rep.block j still used
    refine ⟨r, List.mem_filter.mpr ⟨member, ?_⟩, place⟩
    have apart := ordered_alone ordered j among
    simp only [PoolBlock.buffer] at place
    simp only [place, PoolBlock.buffer, ne_eq, decide_eq_true_eq]
    omega
  alone := rep.alone.filter _
  word r member := rep.word r (List.mem_filter.mp member).1

theorem nonzero (rep : Represents t heap blocks) (r : Region) (member : r ∈ heap) : r.ptr ≠ 0 := by
  obtain ⟨k, _, _, place, _⟩ := rep.region r member
  simp only [PoolBlock.buffer] at place
  omega

theorem find_region (alone : heap.Pairwise fun r s => r.ptr ≠ s.ptr) (r : Region) (member : r ∈ heap) :
    heap.find? (·.ptr = r.ptr) = some r := by
  induction alone with
  | nil => simp at member
  | cons head tail ih =>
      rcases List.mem_cons.mp member with rfl | later
      · simp
      · rw [List.find?_cons_of_neg (by simpa using head r later)]
        exact ih later

theorem apart (rep : Represents t heap blocks) (ordered : blocks.Pairwise fun a b => a.stop ≤ b.adr) (r q : Region) (one : r ∈ heap)
    (two : q ∈ heap) (different : r.ptr ≠ q.ptr) : r.ptr + r.size + 16 ≤ q.ptr ∨ q.ptr + q.size + 16 ≤ r.ptr := by
  obtain ⟨k, among, _, at_k, size⟩ := rep.region r one
  obtain ⟨j, inside, _, at_j, size'⟩ := rep.region q two
  simp only [PoolBlock.buffer] at at_k at_j
  rcases ordered_apart ordered among inside with rfl | before | behind
  · omega
  · simp only [PoolBlock.stop] at before
    omega
  · simp only [PoolBlock.stop] at behind
    omega

theorem store (rep : Represents t heap blocks) (ordered : blocks.Pairwise fun a b => a.stop ≤ b.adr) (ptr offset val : ℕ) (whole : 8 ∣ offset)
    (held : ∃ r ∈ heap, r.ptr = ptr ∧ offset < r.size) :
    Represents (t.write (ptr + offset) val)
      (heap.map fun r => if r.ptr = ptr then { r with word := Function.update r.word offset val } else r) blocks := by
  have fields (r : Region) : (if r.ptr = ptr then { r with word := Function.update r.word offset val } else r).ptr = r.ptr ∧
      (if r.ptr = ptr then { r with word := Function.update r.word offset val } else r).size = r.size := by
    split <;> exact ⟨rfl, rfl⟩
  refine ⟨fun q member => ?_, fun k among used => ?_, ?_, fun q member i even inside => ?_⟩
  · obtain ⟨r, old, rfl⟩ := List.mem_map.mp member
    rw [(fields r).1, (fields r).2]
    exact rep.region r old
  · obtain ⟨r, old, place⟩ := rep.block k among used
    exact ⟨_, List.mem_map_of_mem old, (fields r).1.trans place⟩
  · refine List.pairwise_map.mpr (rep.alone.imp fun {a b} different => ?_)
    rwa [(fields a).1, (fields b).1]
  · obtain ⟨r, old, rfl⟩ := List.mem_map.mp member
    rw [(fields r).2] at inside
    rw [(fields r).1]
    by_cases same : r.ptr = ptr
    · rw [if_pos same, same]
      by_cases here : i = offset
      · rw [here, Tlsf.write_same]
        simp
      · rw [Tlsf.write_other _ _ _ (by omega), ← same, rep.word r old i even inside]
        simp [here]
    · obtain ⟨q, other, rfl, room⟩ := held
      have apart := rep.apart ordered r q old other same
      rw [if_neg same, Tlsf.write_other _ _ _ (by omega), rep.word r old i even inside]

end Represents

namespace Client

structure Sound (c : Client) (first last : ℕ) (blocks : List PoolBlock) : Prop where
  holds : ∃ lists, Holds c.tlsf first last blocks lists
  represents : Represents c.tlsf c.heap blocks

def Leaves (c after : Client) (first last : ℕ) : Prop :=
  (∃ others, after.Sound first last others) ∧ ∀ w, w < first ∨ last + 16 ≤ w → after.tlsf.mem w = c.tlsf.mem w

variable {c after : Client} {first last : ℕ} {blocks : List PoolBlock}

theorem Sound.filter_zero (sound : c.Sound first last blocks) : c.heap.filter (·.ptr ≠ 0) = c.heap :=
  List.filter_eq_self.mpr fun r member => by simpa using sound.represents.nonzero r member

theorem Sound.malloc (sound : c.Sound first last blocks) (size : ℕ) (room : size ≤ 2 ^ 30 - 2 ^ 24) :
    c.Leaves ⟨(c.tlsf.mallocEx size).2, handedOut c.heap (c.tlsf.mallocEx size).2 (c.tlsf.mallocEx size).1 size none⟩ first last := by
  obtain ⟨lists, holds⟩ := sound.holds
  rcases holds.mallocEx size room with ⟨null, _⟩ | ⟨_, _, _, _, _, b, others, _, enough, buffer, takes⟩
  · rw [null]
    exact ⟨⟨blocks, ⟨⟨lists, holds⟩, sound.represents⟩⟩, fun _ _ => rfl⟩
  · have nonzero : b.buffer ≠ 0 := by simp [PoolBlock.buffer]
    have searched := searched_facts size room
    rw [buffer, handedOut, if_neg nonzero]
    refine ⟨⟨others, ⟨takes.holds, ?_⟩⟩, fun w outside => takes.kept w (outside.imp_right .inl)⟩
    obtain ⟨now, later⟩ := takes.holds
    exact sound.represents.takes takes later _ rfl (by dsimp only; omega) fun _ _ _ => rfl

theorem Sound.free (sound : c.Sound first last blocks) (ptr : ℕ) (held : ptr = 0 ∨ ∃ r ∈ c.heap, r.ptr = ptr) :
    c.Leaves ⟨c.tlsf.freeEx ptr, c.heap.filter (·.ptr ≠ ptr)⟩ first last := by
  obtain ⟨lists, holds⟩ := sound.holds
  rcases held with rfl | ⟨r, member, rfl⟩
  · rw [sound.filter_zero]
    exact ⟨⟨blocks, ⟨⟨lists, holds⟩, sound.represents⟩⟩, fun _ _ => rfl⟩
  · obtain ⟨k, among, used, place, _⟩ := sound.represents.region r member
    obtain ⟨xs, zs, rfl⟩ := List.append_of_mem among
    obtain ⟨others, now, freed, spares⟩ := holds.freeEx used
    rw [← place]
    exact ⟨⟨others, ⟨now, freed⟩, (sound.represents.remove holds.chain.ordered).spares spares⟩,
      fun w outside => spares.kept w (outside.imp_right .inl)⟩

theorem Sound.realloc (sound : c.Sound first last blocks) (ptr size : ℕ) (room : size ≤ 2 ^ 30 - 2 ^ 24)
    (held : ptr = 0 ∨ ∃ r ∈ c.heap, r.ptr = ptr) {new : ℕ} {t : Tlsf} (answer : c.tlsf.reallocEx ptr size = some (new, t)) :
    c.Leaves ⟨t, handedOut (c.heap.filter (·.ptr ≠ ptr)) t new size (c.heap.find? (·.ptr = ptr))⟩ first last := by
  obtain ⟨lists, holds⟩ := sound.holds
  by_cases null : ptr = 0
  · subst null
    have none : c.heap.find? (·.ptr = 0) = none :=
      List.find?_eq_none.mpr fun r member => by simpa using sound.represents.nonzero r member
    rw [sound.filter_zero, none]
    by_cases zero : size = 0
    · subst zero
      obtain ⟨rfl, rfl⟩ : new = 0 ∧ t = c.tlsf := by simpa [Tlsf.reallocEx, eq_comm] using answer
      exact ⟨⟨blocks, ⟨⟨lists, holds⟩, sound.represents⟩⟩, fun _ _ => rfl⟩
    · have called : c.tlsf.mallocEx size = (new, t) := by simpa [Tlsf.reallocEx, zero] using answer
      have leaves := sound.malloc size room
      rwa [called] at leaves
  · by_cases zero : size = 0
    · subst zero
      obtain ⟨rfl, rfl⟩ : new = 0 ∧ t = c.tlsf.freeEx ptr := by simpa [Tlsf.reallocEx, null, eq_comm] using answer
      exact sound.free ptr held
    · obtain ⟨r, member, rfl⟩ := held.resolve_left null
      obtain ⟨k, among, used, place, fits⟩ := sound.represents.region r member
      obtain ⟨xs, zs, rfl⟩ := List.append_of_mem among
      have found := Represents.find_region sound.represents.alone r member
      rw [← place] at answer found ⊢
      rcases holds.reallocEx used size zero room with ⟨crash, _⟩ | ⟨s, b, others, result, enough, takes, kept⟩
      · rw [crash] at answer
        exact absurd answer (by simp)
      · obtain ⟨rfl, rfl⟩ : b.buffer = new ∧ s = t := by simpa using result.symm.trans answer
        have nonzero : b.buffer ≠ 0 := by simp [PoolBlock.buffer]
        rw [found, handedOut, if_neg nonzero]
        refine ⟨⟨others, ⟨takes.holds, ?_⟩⟩, fun w outside => takes.kept w (outside.imp_right .inl)⟩
        obtain ⟨now, later⟩ := takes.holds
        refine (sound.represents.remove holds.chain.ordered).takes takes later _ rfl enough fun i even inside => ?_
        dsimp only at inside ⊢
        by_cases own : i < r.size
        · rw [if_pos own, kept i even (by omega) inside, place, sound.represents.word r member i even own]
        · rw [if_neg own]

theorem Sound.step (sound : c.Sound first last blocks) (call : Call) (allowed : c.Allowed call) (stepped : c.step call = some after) :
    c.Leaves after first last := by
  obtain ⟨lists, holds⟩ := sound.holds
  cases call with
  | malloc size =>
      obtain rfl := Option.some.inj stepped
      exact sound.malloc size allowed
  | free ptr =>
      obtain rfl := Option.some.inj stepped
      exact sound.free ptr allowed
  | realloc ptr size =>
      unfold Client.step at stepped
      cases answer : c.tlsf.reallocEx ptr size with
      | none => simp [answer] at stepped
      | some result =>
          obtain rfl : _ = after := by simpa only [answer, Option.some.injEq] using stepped
          exact sound.realloc ptr size allowed.1 allowed.2 answer
  | store ptr offset val =>
      obtain rfl := Option.some.inj stepped
      obtain ⟨whole, r, member, rfl, inside⟩ := allowed
      obtain ⟨k, among, used, place, size⟩ := sound.represents.region r member
      have pool := holds.inside k among
      simp only [PoolBlock.stop, PoolBlock.buffer] at pool place
      refine ⟨⟨blocks, ⟨lists, ?_⟩, sound.represents.store holds.chain.ordered r.ptr offset val whole ⟨r, member, rfl, inside⟩⟩, fun w outside => ?_⟩
      · refine holds.store rfl rfl rfl fun w outside => Tlsf.write_other _ _ _ ?_
        have own := outside k among used
        simp only [PoolBlock.stop, PoolBlock.buffer] at own
        omega
      · exact Tlsf.write_other _ _ _ (by omega)

theorem run_cons_some {call : Call} {rest : List Call} (run : c.run (call :: rest) = some after) :
    c.Allowed call ∧ ∃ mid, c.step call = some mid ∧ mid.run rest = some after := by
  rw [Client.run] at run
  split at run
  · cases stepped : c.step call with
    | none => simp [stepped] at run
    | some mid => exact ⟨by assumption, mid, rfl, by simpa [stepped] using run⟩
  · simp at run

theorem Sound.run (sound : c.Sound first last blocks) (calls : List Call) (run : c.run calls = some after) : c.Leaves after first last := by
  induction calls generalizing c blocks with
  | nil =>
      obtain rfl := Option.some.inj run
      exact ⟨⟨blocks, sound⟩, fun _ _ => rfl⟩
  | cons call rest ih =>
      obtain ⟨allowed, mid, stepped, run⟩ := run_cons_some run
      obtain ⟨⟨others, sound⟩, kept⟩ := sound.step call allowed stepped
      obtain ⟨leaves, later⟩ := ih sound run
      exact ⟨leaves, fun w outside => (later w outside).trans (kept w outside)⟩

end Client

section

variable {poolSize pool size : ℕ} {before t : Tlsf} {calls : List Call} {c : Client}

theorem initMemoryPool_accepts (init : Tlsf.initMemoryPool poolSize pool before = some (size, t)) : pool ≠ 0 ∧ 8 ∣ pool ∧ 6392 ≤ poolSize := by
  unfold Tlsf.initMemoryPool at init
  by_cases refused : pool = 0 ∨ poolSize = 0 ∨ poolSize < Tlsf.headSize + 16 * 8
  · simp [refused] at init
  · by_cases odd : pool &&& 7 ≠ 0
    · simp [refused, odd] at init
    · rw [Nat.and_two_pow_sub_one_eq_mod pool 3] at odd
      simp only [Tlsf.headSize] at refused
      omega

theorem Client.Sound.init (init : Tlsf.initMemoryPool poolSize pool before = some (size, t)) (below : poolSize ≤ 2 ^ 30)
    (unsigned : ¬ before.Signed pool) :
    size = poolBytes poolSize ∧ 6392 ≤ poolSize ∧
      (⟨t, []⟩ : Client).Sound (poolFirst pool) (poolLast poolSize pool) [⟨poolFirst pool, poolBytes poolSize, true⟩] ∧
      PoolMade before t poolSize pool := by
  obtain ⟨some_pool, aligned, large⟩ := initMemoryPool_accepts init
  obtain ⟨s, lists, done, holds, made⟩ := initMemoryPool_holds before some_pool aligned large below unsigned
  obtain ⟨rfl, rfl⟩ : poolBytes poolSize = size ∧ s = t := by simpa using done.symm.trans init
  exact ⟨rfl, large, ⟨⟨lists, holds⟩, by simp, by simp, by simp, by simp⟩, made⟩

def blank : Tlsf := ⟨0, fun _ => 0, fun _ _ => 0, fun _ => 0⟩

def smallPool : Option (ℕ × Tlsf) := Tlsf.initMemoryPool 6392 16 blank

def smallStart : Client := ⟨(smallPool.get (by decide +kernel)).2, []⟩

def smallCalls : List Call := [.malloc 16, .store 6336 8 77]

def smallClient : Client := (smallStart.run smallCalls).get (by decide +kernel)

theorem smallPool_init : Tlsf.initMemoryPool 6392 16 blank = some (64, smallStart.tlsf) := by
  have size : (smallPool.get (by decide +kernel)).1 = 64 := by decide +kernel
  have made : smallPool = some (smallPool.get (by decide +kernel)) := (Option.some_get _).symm
  rw [← size]
  exact made

theorem smallClient_run : smallStart.run smallCalls = some smallClient := (Option.some_get _).symm

theorem tlsf_buffers (init : Tlsf.initMemoryPool poolSize pool before = some (size, t)) (below : poolSize ≤ 2 ^ 30)
    (unsigned : ¬ before.Signed pool) (run : (⟨t, []⟩ : Client).run calls = some c) :
    (∀ r ∈ c.heap, poolFirst pool + 16 ≤ r.ptr ∧ r.ptr + r.size ≤ poolLast poolSize pool ∧ r.ptr % 16 = pool % 16 ∧
        ∀ i, 8 ∣ i → i < r.size → c.tlsf.mem (r.ptr + i) = r.word i) ∧
      (c.heap.Pairwise fun r q => r.ptr + r.size + 16 ≤ q.ptr ∨ q.ptr + q.size + 16 ≤ r.ptr) ∧
      ∀ w, w < pool ∨ poolLast poolSize pool + 16 ≤ w → c.tlsf.mem w = before.mem w := by
  obtain ⟨rfl, large, sound, made⟩ := Client.Sound.init init below unsigned
  obtain ⟨⟨blocks, ⟨lists, holds⟩, rep⟩, kept⟩ := sound.run calls run
  refine ⟨fun r member => ?_, ?_, fun w away => ?_⟩
  · obtain ⟨k, among, used, place, fits⟩ := rep.region r member
    have inside := holds.chain.span.2.2 k among
    have start := inside.start
    have stop := inside.stop
    have aligned := inside.aligned
    simp only [PoolBlock.stop, PoolBlock.buffer, poolFirst] at start stop aligned place ⊢
    exact ⟨by omega, by omega, by omega, rep.word r member⟩
  · refine rep.alone.imp_of_mem fun {r q} one two different => ?_
    exact rep.apart holds.chain.ordered r q one two different
  · exact (made.kept kept).outside w away

theorem tlsf_buffers_small :
    smallClient.heap.map (fun r => (r.ptr, r.size, r.word 8)) = [(6336, 16, 77)] ∧
      ∀ r ∈ smallClient.heap, r.ptr + r.size ≤ 6400 ∧ smallClient.tlsf.mem (r.ptr + 8) = r.word 8 := by
  refine ⟨by decide +kernel, fun r member => ?_⟩
  have large : 8 < r.size := by
    have all : ∀ r ∈ smallClient.heap, 8 < r.size := by decide +kernel
    exact all r member
  obtain ⟨_, stop, _, word⟩ := (tlsf_buffers smallPool_init (by decide) (by decide) smallClient_run).1 r member
  exact ⟨stop, word 8 (by decide) large⟩

def poolBlocks (t : Tlsf) (poolSize pool : ℕ) : List PoolBlock := t.blocksFrom (poolBytes poolSize) (poolFirst pool)

theorem Holds.poolBlocks {blocks : List PoolBlock} {lists : ℕ × ℕ → List ℕ} (large : 6392 ≤ poolSize)
    (holds : Holds t (poolFirst pool) (poolLast poolSize pool) blocks lists) : poolBlocks t poolSize pool = blocks := by
  have many := holds.chain.choose_spec.1.length_le
  have room := holds.room
  refine holds.chain.blocksFrom (by omega) _ ?_
  simp only [poolLast, poolBytes] at many ⊢
  omega

theorem tlsf_blocks (init : Tlsf.initMemoryPool poolSize pool before = some (size, t)) (below : poolSize ≤ 2 ^ 30)
    (unsigned : ¬ before.Signed pool) (run : (⟨t, []⟩ : Client).run calls = some c) :
    ((poolBlocks c.tlsf poolSize pool).map fun b => 16 + b.size).sum = 16 + size ∧
      (poolBlocks c.tlsf poolSize pool).IsChain (fun a b => a.stop = b.adr ∧ ¬ (a.free = true ∧ b.free = true)) ∧
      (∀ r ∈ c.heap, ∃ k ∈ poolBlocks c.tlsf poolSize pool, k.free = false ∧ k.buffer = r.ptr ∧ r.size ≤ k.size) ∧
      (∀ k ∈ poolBlocks c.tlsf poolSize pool, k.free = false → ∃ r ∈ c.heap, r.ptr = k.buffer) ∧
      (c.heap = [] → poolBlocks c.tlsf poolSize pool = [⟨poolFirst pool, size, true⟩]) := by
  obtain ⟨rfl, large, sound, _⟩ := Client.Sound.init init below unsigned
  obtain ⟨⟨blocks, ⟨lists, holds⟩, rep⟩, _⟩ := sound.run calls run
  rw [holds.poolBlocks large]
  obtain ⟨behind, seg, _⟩ := holds.chain
  refine ⟨?_, seg.neighbours, rep.region, rep.block, fun empty => ?_⟩
  · have sum := seg.sum_eq
    simp only [poolLast] at sum
    omega
  · have free : ∀ b ∈ blocks, b.free = true := by
      intro b among
      by_contra used
      obtain ⟨r, member, _⟩ := rep.block b among (by simpa using used)
      simp [empty] at member
    have whole := holds.all_free free (by simp only [poolLast]; omega)
    rw [whole]
    simp only [poolLast, List.cons.injEq, PoolBlock.mk.injEq, and_true, true_and]
    omega

theorem tlsf_blocks_small :
    smallClient.heap.length = 1 ∧ ((poolBlocks smallClient.tlsf 6392 16).map fun b => 16 + b.size).sum = 16 + 64 :=
  ⟨by decide +kernel, (tlsf_blocks smallPool_init (by decide) (by decide) smallClient_run).1⟩

theorem tlsf_malloc (init : Tlsf.initMemoryPool poolSize pool before = some (size, t)) (below : poolSize ≤ 2 ^ 30)
    (unsigned : ¬ before.Signed pool) (run : (⟨t, []⟩ : Client).run calls = some c) (request : ℕ) (room : request ≤ 2 ^ 30 - 2 ^ 24) :
    ((c.tlsf.mallocEx request).1 = 0 ↔ ∀ k ∈ poolBlocks c.tlsf poolSize pool, k.free = true → k.size < searched request) ∧
      ((c.tlsf.mallocEx request).1 ≠ 0 → ∃ k ∈ poolBlocks c.tlsf poolSize pool, k.free = true ∧ (c.tlsf.mallocEx request).1 = k.buffer ∧
        searched request ≤ k.size ∧ ∀ j ∈ poolBlocks c.tlsf poolSize pool, j.free = true → searched request ≤ j.size →
          ClassLe (mappingInsert k.size) (mappingInsert j.size)) ∧
      request ≤ searched request ∧ searched request ≤ request + 16 + (request + 16) / 32 := by
  obtain ⟨rfl, large, sound, _⟩ := Client.Sound.init init below unsigned
  obtain ⟨⟨blocks, ⟨lists, holds⟩, _⟩, _⟩ := sound.run calls run
  obtain ⟨_, _, least, most⟩ := searched_facts request room
  rw [holds.poolBlocks large]
  refine ⟨holds.mallocEx_null request room, fun found => ?_, least, most⟩
  rcases holds.mallocEx request room with ⟨null, _⟩ | ⟨k, among, free, fits, lowest, b, _, place, _, buffer, _⟩
  · exact absurd (by rw [null]) found
  · exact ⟨k, among, free, by rw [buffer, PoolBlock.buffer, PoolBlock.buffer, place], fits, lowest⟩

theorem tlsf_malloc_small :
    poolBlocks smallClient.tlsf 6392 16 = [⟨6320, 16, false⟩, ⟨6352, 32, true⟩] ∧ (smallClient.tlsf.mallocEx 48).1 = 0 := by
  have blocks : poolBlocks smallClient.tlsf 6392 16 = [⟨6320, 16, false⟩, ⟨6352, 32, true⟩] := by decide +kernel
  refine ⟨blocks, (tlsf_malloc smallPool_init (by decide) (by decide) smallClient_run 48 (by decide)).1.mpr ?_⟩
  rw [blocks]
  decide

theorem tlsf_realloc_null (init : Tlsf.initMemoryPool poolSize pool before = some (size, t)) (below : poolSize ≤ 2 ^ 30)
    (unsigned : ¬ before.Signed pool) (run : (⟨t, []⟩ : Client).run calls = some c) (r : Region) (member : r ∈ c.heap) (request : ℕ)
    (some_bytes : request ≠ 0) (room : request ≤ 2 ^ 30 - 2 ^ 24) :
    c.step (.realloc r.ptr request) = none ↔ ∃ k ∈ poolBlocks c.tlsf poolSize pool, k.buffer = r.ptr ∧ k.size < request ∧
      (∀ n ∈ poolBlocks c.tlsf poolSize pool, n.adr = k.stop → n.free = true → k.size + n.size < request) ∧
      ∀ j ∈ poolBlocks c.tlsf poolSize pool, j.free = true → j.size < searched request := by
  obtain ⟨rfl, large, sound, _⟩ := Client.Sound.init init below unsigned
  obtain ⟨⟨blocks, ⟨lists, holds⟩, rep⟩, _⟩ := sound.run calls run
  rw [holds.poolBlocks large]
  obtain ⟨k, among, used, place, _⟩ := rep.region r member
  have crash := holds.reallocEx_none among used request some_bytes room
  rw [place] at crash
  have stepped : c.step (.realloc r.ptr request) = none ↔ c.tlsf.reallocEx r.ptr request = none := by
    simp only [Client.step]
    generalize c.tlsf.reallocEx r.ptr request = answer
    cases answer with
    | none => exact ⟨fun _ => rfl, fun _ => rfl⟩
    | some result => simp
  rw [stepped, crash]
  constructor
  · exact fun facts => ⟨k, among, place, facts⟩
  · rintro ⟨j, inside, same, facts⟩
    have adr : j.adr = k.adr := by
      simp only [PoolBlock.buffer] at same place
      omega
    obtain rfl := holds.same_block inside among adr
    exact facts

theorem tlsf_realloc_null_small : ∃ r ∈ smallClient.heap, r.ptr = 6336 ∧ smallClient.step (.realloc 6336 100) = none := by
  have held : ∃ r ∈ smallClient.heap, r.ptr = 6336 := by decide +kernel
  obtain ⟨r, member, place⟩ := held
  have crash := tlsf_realloc_null smallPool_init (by decide) (by decide) smallClient_run r member 100 (by decide) (by decide)
  have blocks : poolBlocks smallClient.tlsf 6392 16 = [⟨6320, 16, false⟩, ⟨6352, 32, true⟩] := by decide +kernel
  refine ⟨r, member, place, ?_⟩
  rw [blocks, place] at crash
  exact crash.mpr (by decide)

-- Which pools init_memory_pool takes, where it ends (the size of its last header
-- lies behind the pool when the pool's own size leaves 8 or more modulo 16), and
-- what it does when it is called again on a pool in use.
theorem init_memory_pool_end (poolSize pool : ℕ) (before : Tlsf) (below : poolSize ≤ 2 ^ 30) :
    (Tlsf.initMemoryPool poolSize pool before = none ↔ pool = 0 ∨ ¬ 8 ∣ pool ∨ poolSize < 6392) ∧
      ∀ size t, Tlsf.initMemoryPool poolSize pool before = some (size, t) → ¬ before.Signed pool →
        size = poolBytes poolSize ∧ poolBlocks t poolSize pool = [⟨poolFirst pool, size, true⟩] ∧
          t.mem (poolLast poolSize pool + 8) = header 0 false true ∧ (poolLast poolSize pool + 16 ≤ pool + poolSize ↔ poolSize % 16 < 8) ∧
          (∀ w, w < pool ∨ poolLast poolSize pool + 16 ≤ w → t.mem w = before.mem w) ∧
          ∀ calls c, (⟨t, []⟩ : Client).run calls = some c → ∀ again, 6392 ≤ again →
            Tlsf.initMemoryPool again pool c.tlsf = some (16, c.tlsf) := by
  constructor
  · constructor
    · intro refused
      by_contra accepted
      simp only [not_or, not_not, not_lt] at accepted
      obtain ⟨some_pool, aligned, large⟩ := accepted
      by_cases signed : before.Signed pool
      · simp [initMemoryPool_signed before some_pool aligned large signed] at refused
      · obtain ⟨t, _, made, _⟩ := initMemoryPool_holds before some_pool aligned large below signed
        simp [refused] at made
    · intro bad
      cases made : Tlsf.initMemoryPool poolSize pool before with
      | none => rfl
      | some result =>
          obtain ⟨some_pool, aligned, large⟩ := initMemoryPool_accepts made
          omega
  · intro size t init unsigned
    obtain ⟨some_pool, aligned, _⟩ := initMemoryPool_accepts init
    obtain ⟨rfl, large, sound, made⟩ := Client.Sound.init init below unsigned
    obtain ⟨_, holds⟩ := sound.holds
    refine ⟨rfl, holds.poolBlocks large, ?_, ?_, made.outside, fun calls c run again enough => ?_⟩
    · obtain ⟨_, ⟨_, _, _, _, _, rfl, _⟩, marked⟩ := holds.chain
      exact marked.1
    · simp only [poolLast, poolFirst, poolBytes]
      omega
    · have now := made.kept (sound.run calls run).2
      rw [initMemoryPool_signed c.tlsf some_pool aligned enough now.signed, now.area]
      rfl

theorem init_memory_pool_end_small :
    smallStart.tlsf.mem 6408 = header 0 false true ∧ ¬ poolLast 6392 16 + 16 ≤ 16 + 6392 ∧
      Tlsf.initMemoryPool 6392 16 smallClient.tlsf = some (16, smallClient.tlsf) := by
  obtain ⟨_, _, last, inside, _, again⟩ := (init_memory_pool_end 6392 16 blank (by decide)).2 64 smallStart.tlsf smallPool_init (by decide)
  exact ⟨last, fun within => absurd (inside.mp within) (by decide), again smallCalls smallClient smallClient_run 6392 (by decide)⟩

end

end SsAdma
