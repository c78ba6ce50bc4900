import SsAdma.DoTest
import SsAdma.TlsfRun

set_option autoImplicit false

namespace SsAdma

structure TlsfPool (poolSize pool : ℕ) where
  tlsf : Tlsf
  large : 6392 ≤ poolSize
  holds : ∃ blocks lists, Holds tlsf (poolFirst pool) (poolLast poolSize pool) blocks lists

namespace TlsfPool

variable {poolSize pool size ptr : ℕ} {p after : TlsfPool poolSize pool}

theorem read (p : TlsfPool poolSize pool) :
    ∃ lists, Holds p.tlsf (poolFirst pool) (poolLast poolSize pool) (poolBlocks p.tlsf poolSize pool) lists := by
  obtain ⟨blocks, lists, holds⟩ := p.holds
  refine ⟨lists, ?_⟩
  rwa [holds.poolBlocks p.large]

theorem mallocEx_holds (p : TlsfPool poolSize pool) (size : ℕ) (room : size ≤ 2 ^ 30 - 2 ^ 24) :
    ∃ blocks lists, Holds (p.tlsf.mallocEx size).2 (poolFirst pool) (poolLast poolSize pool) blocks lists := by
  obtain ⟨lists, holds⟩ := p.read
  rcases holds.mallocEx size room with ⟨null, _⟩ | ⟨_, _, _, _, _, _, others, _, _, _, takes⟩
  · rw [null]
    exact ⟨_, lists, holds⟩
  · exact ⟨others, takes.holds⟩

-- Requests that mapping_search has no class for are left out: malloc_ex would
-- look behind its bitmaps.
def malloc (p : TlsfPool poolSize pool) (size : ℕ) : Option (ℕ × TlsfPool poolSize pool) :=
  if room : size ≤ 2 ^ 30 - 2 ^ 24 then
    if (p.tlsf.mallocEx size).1 = 0 then none
    else some ((p.tlsf.mallocEx size).1, ⟨(p.tlsf.mallocEx size).2, p.large, p.mallocEx_holds size room⟩)
  else none

def Used (p : TlsfPool poolSize pool) (byte : ℕ) : Prop :=
  ∃ k ∈ poolBlocks p.tlsf poolSize pool, k.free = false ∧ k.buffer ≤ byte ∧ byte < k.stop

theorem malloc_takes (got : p.malloc size = some (ptr, after)) :
    ∃ b, ptr = b.buffer ∧ size ≤ b.size ∧
      Takes p.tlsf after.tlsf (poolFirst pool) (poolLast poolSize pool) (poolBlocks p.tlsf poolSize pool) b
        (poolBlocks after.tlsf poolSize pool) := by
  unfold malloc at got
  split at got
  · rename_i room
    split at got
    · simp at got
    · rename_i found
      obtain ⟨rfl, rfl⟩ : (p.tlsf.mallocEx size).1 = ptr ∧ (⟨(p.tlsf.mallocEx size).2, p.large, p.mallocEx_holds size room⟩ : TlsfPool poolSize pool) = after := by
        simpa using got
      obtain ⟨lists, holds⟩ := p.read
      rcases holds.mallocEx size room with ⟨null, _⟩ | ⟨_, _, _, _, _, b, others, _, enough, buffer, takes⟩
      · exact absurd (by rw [null]) found
      · have searched := searched_facts size room
        obtain ⟨later, now⟩ := takes.holds
        refine ⟨b, buffer, by omega, ?_⟩
        rwa [now.poolBlocks p.large]
  · simp at got

theorem used_keeps (got : p.malloc size = some (ptr, after)) (byte : ℕ) (used : p.Used byte) : after.Used byte := by
  obtain ⟨b, _, _, takes⟩ := malloc_takes got
  obtain ⟨k, among, isUsed, inside⟩ := used
  exact ⟨k, (takes.same k isUsed).mpr (.inr among), isUsed, inside⟩

theorem used_fresh (got : p.malloc size = some (ptr, after)) (k : ℕ) (below : k < size) : ¬ p.Used (ptr + k) ∧ after.Used (ptr + k) := by
  obtain ⟨b, rfl, enough, takes⟩ := malloc_takes got
  obtain ⟨lists, holds⟩ := after.read
  have at_b := (takes.same b takes.used).mpr (.inl rfl)
  constructor
  · rintro ⟨j, among, used, start, stop⟩
    have kept := (takes.same j used).mpr (.inr among)
    simp only [PoolBlock.buffer, PoolBlock.stop] at start stop
    rcases ordered_apart holds.chain.ordered at_b kept with rfl | before | behind
    · exact takes.fresh among
    · simp only [PoolBlock.stop] at before
      omega
    · simp only [PoolBlock.stop] at behind
      omega
  · refine ⟨b, at_b, takes.used, ?_⟩
    simp only [PoolBlock.buffer, PoolBlock.stop]
    omega

theorem malloc_inside (got : p.malloc size = some (ptr, after)) : pool ≤ ptr ∧ ptr + size ≤ pool + poolSize := by
  obtain ⟨b, rfl, enough, takes⟩ := malloc_takes got
  obtain ⟨lists, holds⟩ := after.read
  have within := holds.inside b ((takes.same b takes.used).mpr (.inl rfl))
  have large := p.large
  simp only [PoolBlock.buffer, PoolBlock.stop, poolFirst, poolLast, poolBytes] at within ⊢
  omega

end TlsfPool

def tlsfAllocator (poolSize pool physMem : ℕ) (aligned : 8 ∣ pool ∧ 8 ∣ physMem) (reachable : physMem + poolSize ≤ 2 ^ 32) :
    Allocator (TlsfPool poolSize pool) where
  systemMem := pool
  physMem := physMem
  poolSize := poolSize
  malloc := TlsfPool.malloc
  taken := TlsfPool.Used
  fresh _ _ _ _ got := TlsfPool.used_fresh got
  keeps _ _ _ _ got := TlsfPool.used_keeps got
  inside _ _ _ _ got := TlsfPool.malloc_inside got
  aligned := aligned
  reachable := reachable

def OnBus (pool physMem ptr size : ℕ) (word : BitVec 29) : Prop :=
  physMem ≤ 8 * word.toNat ∧ ptr + physMem ≤ pool + 8 * word.toNat ∧ pool + 8 * word.toNat + 8 ≤ ptr + size + physMem

instance (pool physMem ptr size : ℕ) (word : BitVec 29) : Decidable (OnBus pool physMem ptr size word) := instDecidableAnd

section

variable {poolSize pool physMem : ℕ} {aligned : 8 ∣ pool ∧ 8 ∣ physMem} {reachable : physMem + poolSize ≤ 2 ^ 32}

theorem owned_block (p : TlsfPool poolSize pool) (word : BitVec 29) (owned : (tlsfAllocator poolSize pool physMem aligned reachable).Owned p word) :
    ∃ k ∈ poolBlocks p.tlsf poolSize pool, k.free = false ∧ OnBus pool physMem k.buffer k.size word := by
  obtain ⟨above, bytes⟩ := owned
  obtain ⟨k, among, used, start, stop⟩ := bytes 0 (by decide)
  obtain ⟨lists, holds⟩ := p.read
  have inside := holds.chain.span.2.2 k among
  have whole := inside.whole
  have even := inside.aligned
  obtain ⟨poolEven, physEven⟩ := aligned
  change physMem ≤ 8 * word.toNat at above
  change k.buffer ≤ pool + (8 * word.toNat + 0 - physMem) at start
  change pool + (8 * word.toNat + 0 - physMem) < k.stop at stop
  refine ⟨k, among, used, above, ?_, ?_⟩
  · omega
  · simp only [PoolBlock.buffer, PoolBlock.stop, poolFirst] at start stop even ⊢
    omega

theorem region_owned {heap : List Region} (p : TlsfPool poolSize pool) (rep : Represents p.tlsf heap (poolBlocks p.tlsf poolSize pool)) (r : Region)
    (member : r ∈ heap) (word : BitVec 29) (covered : OnBus pool physMem r.ptr r.size word) :
    (tlsfAllocator poolSize pool physMem aligned reachable).Owned p word := by
  obtain ⟨above, start, stop⟩ := covered
  obtain ⟨k, among, used, place, fits⟩ := rep.region r member
  refine ⟨above, fun j below => ⟨k, among, used, ?_, ?_⟩⟩
  · change k.buffer ≤ pool + (8 * word.toNat + j - physMem)
    omega
  · change pool + (8 * word.toNat + j - physMem) < k.stop
    simp only [PoolBlock.buffer, PoolBlock.stop] at place ⊢
    omega

variable {size : ℕ} {before t : Tlsf} {calls : List Call} {c : Client} {chip : LzfChip} {maxSgSize cnt dstCnt loop : ℕ} {ops : BitVec 32}
  {fp : Option (List (BitVec 8))} {d after : Driver (TlsfPool poolSize pool)} {jobs : List JobEntry}

theorem do_test_pool (init : Tlsf.initMemoryPool poolSize pool before = some (size, t)) (below : poolSize ≤ 2 ^ 30)
    (unsigned : ¬ before.Signed pool) (run : (⟨t, []⟩ : Client).run calls = some c) (same : d.pool.tlsf = c.tlsf)
    (sizes : JobSizes maxSgSize cnt dstCnt)
    (tested : doTest chip (tlsfAllocator poolSize pool physMem aligned reachable) maxSgSize cnt dstCnt ops fp loop d = some (jobs, after)) :
    ∃ words, JobsBuilt chip after.mem cnt dstCnt ops jobs words ∧ jobs.length = max loop 1 ∧ words.Nodup ∧
      (∀ word ∈ words, ∃ k ∈ poolBlocks after.pool.tlsf poolSize pool, k.free = false ∧ OnBus pool physMem k.buffer k.size word) ∧
      ∀ r ∈ c.heap, ∀ word, OnBus pool physMem r.ptr r.size word → after.mem word = d.mem word ∧ word ∉ words := by
  obtain ⟨rfl, large, sound, _⟩ := Client.Sound.init init below unsigned
  obtain ⟨⟨blocks, ⟨lists, holds⟩, rep⟩, _⟩ := sound.run calls run
  rw [← same] at holds rep
  rw [← holds.poolBlocks large] at rep
  obtain ⟨words, grows, built, count⟩ := doTest_builds sizes tested
  refine ⟨words, built, count, grows.nodup, fun word member => owned_block after.pool word (grows.owned word member), ?_⟩
  intro r member word covered
  have owned : (tlsfAllocator poolSize pool physMem aligned reachable).Owned d.pool word := region_owned d.pool rep r member word covered
  exact ⟨grows.frame word owned (by simp), fun listed => grows.fresh word listed owned⟩

end

def jobPool : Option (ℕ × Tlsf) := Tlsf.initMemoryPool 8192 16 blank

def jobStart : Client := ⟨(jobPool.get (by decide +kernel)).2, []⟩

def jobClient : Client := (jobStart.run [.malloc 16]).get (by decide +kernel)

theorem jobPool_init : Tlsf.initMemoryPool 8192 16 blank = some (1856, jobStart.tlsf) := by
  have size : (jobPool.get (by decide +kernel)).1 = 1856 := by decide +kernel
  have made : jobPool = some (jobPool.get (by decide +kernel)) := (Option.some_get _).symm
  rw [← size]
  exact made

theorem jobClient_run : jobStart.run [.malloc 16] = some jobClient := (Option.some_get _).symm

def jobDriver : Driver (TlsfPool 8192 16) where
  pool := ⟨jobClient.tlsf, by decide, by
    obtain ⟨_, _, sound, _⟩ := Client.Sound.init jobPool_init (by decide) (by decide)
    obtain ⟨⟨blocks, ⟨holds, _⟩⟩, _⟩ := sound.run _ jobClient_run
    exact ⟨blocks, holds⟩⟩
  mem _ := 7

def jobTest : Option (List JobEntry × Driver (TlsfPool 8192 16)) :=
  doTest lzfChip (tlsfAllocator 8192 16 0xa0000000 (by decide) (by decide)) 8 16 16 lzfChip.dcMemcpy none 1 jobDriver

theorem job_tested : jobTest.isSome = true := by decide +kernel

def jobList : List JobEntry := (jobTest.get job_tested).1
def jobAfter : Driver (TlsfPool 8192 16) := (jobTest.get job_tested).2

theorem do_test_pool_one :
    jobClient.heap.map (fun r => (r.ptr, r.size)) = [(6336, 16)] ∧ jobAfter.mem (busWord 0xa00018b0) = 7 ∧
      ∃ words, JobsBuilt lzfChip jobAfter.mem 16 16 lzfChip.dcMemcpy jobList words ∧ jobList.length = 1 ∧ busWord 0xa00018b0 ∉ words ∧
        ∀ word ∈ words, ∃ k ∈ poolBlocks jobAfter.pool.tlsf 8192 16, k.free = false ∧ OnBus 16 0xa0000000 k.buffer k.size word := by
  obtain ⟨words, built, count, _, blocks, kept⟩ := do_test_pool jobPool_init (by decide) (by decide) jobClient_run (d := jobDriver) rfl
    ⟨by decide, by decide, by decide⟩ (Option.some_get job_tested).symm
  have held : ∃ r ∈ jobClient.heap, OnBus 16 0xa0000000 r.ptr r.size (busWord 0xa00018b0) := by decide +kernel
  obtain ⟨r, member, covered⟩ := held
  obtain ⟨same, apart⟩ := kept r member (busWord 0xa00018b0) covered
  exact ⟨by decide +kernel, same, words, built, count, apart, blocks⟩

end SsAdma
