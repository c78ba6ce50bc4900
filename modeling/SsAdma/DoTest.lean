import Mathlib.Data.List.Pairwise
import SsAdma.ChipChain
import SsAdma.MapBufs
import SsAdma.SgBounds

set_option autoImplicit false

namespace SsAdma

attribute [-simp] BitVec.getLsbD_eq_getElem

structure JobEntry where
  desc : ℕ
  res : ℕ
  s : ℕ
  d : ℕ
deriving DecidableEq, Repr

section

variable {P : Type}

def newJobEntry (t : Allocator P) (d : Driver P) : Option (ℕ × ℕ × Driver P) :=
  match t.mallocAlign d 32 32 with
  | none => none
  | some (desc, d) =>
      match t.mallocAlign d 32 32 with
      | none => none
      | some (res, d) => some (desc, res, d.poke (desc + 4) (BitVec.ofNat 32 res))

def Driver.store : Driver P → ℕ → List (BitVec 8) → Driver P
  | d, _, [] => d
  | d, adr, byte :: rest => (d.pokeByte adr byte).store (adr + 1) rest

def Driver.fetch (d : Driver P) (adr cnt : ℕ) : List (BitVec 8) := (List.range cnt).map fun i => d.mem.peekByte (adr + i)

-- fread takes what the file has.
def readSrc (d : Driver P) (p cnt : ℕ) : Option (List (BitVec 8)) → Option (List (BitVec 8)) × Driver P
  | some file => (some (file.drop cnt), d.store p (file.take cnt))
  | none => (none, d.store p ((List.range cnt).map (BitVec.ofNat 8)))

-- The chip is given the compressed bytes to uncompress; tmp keeps the plain ones.
def loadSrc (chip : LzfChip) (t : Allocator P) (d : Driver P) (src cnt : ℕ) (ops : BitVec 32) (fp : Option (List (BitVec 8))) :
    Option (Option (List (BitVec 8)) × Driver P) :=
  match t.mallocAlign d 32 cnt with
  | none => none
  | some (tmp, d) =>
      if ops = chip.dcUncompress then
        let (fp, d) := readSrc d tmp cnt fp
        some (fp, d.store src (chip.lzsCompress (d.fetch tmp cnt) cnt))
      else some (readSrc d src cnt fp)

def loadDst (d : Driver P) (dst cnt : ℕ) : Driver P := d.store dst ((List.range cnt).map fun i => 0xff - BitVec.ofNat 8 i)

def Driver.fill (d : Driver P) (desc : ℕ) (dcFc srcDesc dstDesc : BitVec 32) : Driver P :=
  ((d.poke (desc + 8) dcFc).poke (desc + 16) srcDesc).poke (desc + 24) dstDesc

def prepareJob (chip : LzfChip) (t : Allocator P) (maxSgSize cnt dstCnt : ℕ) (ops : BitVec 32) (fp : Option (List (BitVec 8)))
    (d : Driver P) : Option (JobEntry × Option (List (BitVec 8)) × Driver P) := do
  let (desc, res, d) ← newJobEntry t d
  let (src, d) ← t.mallocAlign d 32 cnt
  let (dst, d) ← t.mallocAlign d 32 dstCnt
  let (fp, d) ← loadSrc chip t d src cnt ops fp
  let (srcBuf, d) ← mapBufs chip t maxSgSize (loadDst d dst dstCnt) src cnt
  let (dstBuf, d) ← mapBufs chip t maxSgSize d dst dstCnt
  let d := d.fill desc (ops ||| chip.dcCtrl) (BitVec.ofNat 32 srcBuf) (BitVec.ofNat 32 dstBuf)
  some (⟨desc, res, src, dst⟩, fp, d)

def linkJob (chip : LzfChip) (d : Driver P) (prev : Option ℕ) (desc : ℕ) : Driver P :=
  match prev with
  | none => d
  | some prev =>
      let d := d.poke prev (BitVec.ofNat 32 desc)
      d.poke (prev + 8) (d.peek (prev + 8) ||| chip.dcCont)

def prepareJobs (chip : LzfChip) (t : Allocator P) (maxSgSize cnt dstCnt : ℕ) (ops : BitVec 32) :
    ℕ → Option ℕ → Option (List (BitVec 8)) → Driver P → Option (List JobEntry × Driver P)
  | 0, _, _, d => some ([], d)
  | loop + 1, prev, fp, d => do
      let (j, fp, d) ← prepareJob chip t maxSgSize cnt dstCnt ops fp d
      let (more, d) ← prepareJobs chip t maxSgSize cnt dstCnt ops loop (some j.desc) fp (linkJob chip d prev j.desc)
      some (j :: more, d)

def doTest (chip : LzfChip) (t : Allocator P) (maxSgSize cnt dstCnt : ℕ) (ops : BitVec 32) (fp : Option (List (BitVec 8))) (loop : ℕ)
    (d : Driver P) : Option (List JobEntry × Driver P) :=
  prepareJobs chip t maxSgSize cnt dstCnt ops (max loop 1) none fp d

variable {t : Allocator P} {d mid after : Driver P} {touched new : List (BitVec 29)}

theorem busWord_inside (adr i cnt : ℕ) (aligned : 8 ∣ adr) (whole : 8 ∣ cnt) (below : i < cnt) :
    busWord (adr + i) ∈ segment (busWord adr) (cnt / 8) := by
  have word : busWord (adr + i) = busWord (adr + 8 * (i / 8)) := by
    apply BitVec.eq_of_toNat_eq
    simp only [busWord, wordAddr, BitVec.extractLsb'_toNat, BitVec.toNat_ofNat, Nat.shiftRight_eq_div_pow]
    omega
  rw [word, busWord_add _ _ aligned]
  exact segment_contains _ _ _ (by omega)

theorem Grows.then_store (bytes : List (BitVec 8)) : ∀ (mid : Driver P) (adr : ℕ), Grows t d mid touched new →
    (∀ i < bytes.length, busWord (adr + i) ∈ new) → Grows t d (mid.store adr bytes) touched new := by
  induction bytes with
  | nil => exact fun _ _ first _ => first
  | cons byte rest ih =>
      intro mid adr first inside
      refine ih _ _ (first.then_pokeByte adr byte (.inr (by simpa using inside 0 (by simp)))) fun i below => ?_
      rw [Nat.add_assoc, Nat.add_comm 1 i]
      exact inside (i + 1) (by simpa using below)

theorem SgList.mono {mem : Mem} {kept wider : BitVec 29 → Prop} {adr : BitVec 29} {words : List (BitVec 29)}
    (list : SgList mem kept adr words) (more : ∀ word, kept word → wider word) : SgList mem wider adr words := by
  induction list with
  | last adr inside nonzero final => exact .last adr ⟨more _ inside.1, more _ inside.2⟩ nonzero final
  | link adr words inside nonzero linked _ next => exact .link adr words ⟨more _ inside.1, more _ inside.2⟩ nonzero linked next

theorem newJobEntry_grows {desc res : ℕ} (made : newJobEntry t d = some (desc, res, after)) :
    Grows t d after [] (segment (busWord desc) 4 ++ segment (busWord res) 4) ∧ 8 ∣ desc ∧
      after.peek (desc + 4) = BitVec.ofNat 32 res := by
  unfold newJobEntry at made
  split at made
  · cases made
  · rename_i desc' d' got
    split at made
    · cases made
    · rename_i res' d'' gotToo
      simp only [Option.some.injEq, Prod.mk.injEq] at made
      obtain ⟨rfl, rfl, rfl⟩ := made
      obtain ⟨grows, aligned, _⟩ := t.mallocAlign_grows _ _ _ _ (by decide) got
      obtain ⟨growsToo, _⟩ := t.mallocAlign_grows _ _ _ _ (by decide) gotToo
      refine ⟨(grows.trans growsToo (by simp)).then_poke _ _ (.inr ?_), aligned, Mem.peek_poke _ _ _⟩
      rw [busWord_half _ aligned]
      exact List.mem_append_left _ (desc_words _).1

theorem Grows.then_readSrc {p cnt : ℕ} (first : Grows t d mid touched new) (aligned : 8 ∣ p) (whole : 8 ∣ cnt)
    (inside : ∀ word ∈ segment (busWord p) (cnt / 8), word ∈ new) (fp : Option (List (BitVec 8))) :
    Grows t d (readSrc mid p cnt fp).2 touched new := by
  cases fp with
  | some file =>
      exact first.then_store _ _ _ fun i below => inside _ (busWord_inside p i cnt aligned whole (by simp at below; omega))
  | none => exact first.then_store _ _ _ fun i below => inside _ (busWord_inside p i cnt aligned whole (by simpa using below))

theorem loadSrc_grows {chip : LzfChip} {src cnt : ℕ} {ops : BitVec 32} {fp rest : Option (List (BitVec 8))}
    (first : Grows t d mid [] new) (aligned : 8 ∣ src) (whole : 8 ∣ cnt)
    (inside : ∀ word ∈ segment (busWord src) (cnt / 8), word ∈ new)
    (loaded : loadSrc chip t mid src cnt ops fp = some (rest, after)) : ∃ tmp, Grows t d after [] (new ++ tmp) := by
  unfold loadSrc at loaded
  split at loaded
  · cases loaded
  · rename_i tmp d' got
    obtain ⟨block, tmpAligned, _⟩ := t.mallocAlign_grows _ _ _ _ whole got
    have grows := first.trans block (by simp)
    have ofSrc (word : BitVec 29) (member : word ∈ segment (busWord src) (cnt / 8)) :=
      List.mem_append_left (segment (busWord tmp) (cnt / 8)) (inside word member)
    refine ⟨segment (busWord tmp) (cnt / 8), ?_⟩
    split at loaded
    · have plain := grows.then_readSrc tmpAligned whole (fun _ member => List.mem_append_right _ member) fp
      obtain ⟨_, rfl⟩ := Prod.mk.inj (Option.some.inj loaded)
      refine plain.then_store _ _ _ fun i below => ofSrc _ (busWord_inside src i cnt aligned whole ?_)
      exact below.trans_le (chip.room _ _)
    · have plain := grows.then_readSrc aligned whole ofSrc fp
      rwa [Option.some.inj loaded] at plain

theorem loadDst_grows {dst cnt : ℕ} (first : Grows t d mid [] new) (aligned : 8 ∣ dst) (whole : 8 ∣ cnt)
    (inside : ∀ word ∈ segment (busWord dst) (cnt / 8), word ∈ new) : Grows t d (loadDst mid dst cnt) [] new :=
  first.then_store _ _ _ fun i below => inside _ (busWord_inside dst i cnt aligned whole (by simpa using below))

def JobEntry.words (e : JobEntry) (cnt dstCnt : ℕ) : List (BitVec 29) :=
  segment (busWord e.desc) 4 ++ segment (busWord e.res) 4 ++ segment (busWord e.s) (cnt / 8) ++ segment (busWord e.d) (dstCnt / 8)

structure JobBuilt (mem : Mem) (cnt dstCnt : ℕ) (e : JobEntry) (dcFc : BitVec 32) (tables : List (BitVec 29)) : Prop where
  aligned : 8 ∣ e.desc
  status : mem.peek (e.desc + 4) = BitVec.ofNat 32 e.res
  command : mem.peek (e.desc + 8) = dcFc
  src : ∃ srcBuf, mem.peek (e.desc + 16) = BitVec.ofNat 32 srcBuf ∧
    SgList mem (· ∈ tables) (busWord srcBuf) (segment (busWord e.s) (cnt / 8))
  dst : ∃ dstBuf, mem.peek (e.desc + 24) = BitVec.ofNat 32 dstBuf ∧
    SgList mem (· ∈ tables) (busWord dstBuf) (segment (busWord e.d) (dstCnt / 8))

theorem busWord_apart (b i j : ℕ) (aligned : 8 ∣ b) (inside : i < 4 ∧ j < 4) (other : i ≠ j) :
    busWord (b + 8 * i) ≠ busWord (b + 8 * j) := by
  rw [busWord_add b i aligned, busWord_add b j aligned]
  intro same
  have numbers := congrArg BitVec.toNat same
  simp only [BitVec.toNat_add, BitVec.toNat_ofNat] at numbers
  omega

theorem fill_fields (d : Driver P) (desc : ℕ) (dcFc srcDesc dstDesc : BitVec 32) (aligned : 8 ∣ desc) :
    (d.fill desc dcFc srcDesc dstDesc).peek (desc + 4) = d.peek (desc + 4) ∧
      (d.fill desc dcFc srcDesc dstDesc).peek (desc + 8) = dcFc ∧
      (d.fill desc dcFc srcDesc dstDesc).peek (desc + 16) = srcDesc ∧
      (d.fill desc dcFc srcDesc dstDesc).peek (desc + 24) = dstDesc := by
  have apart := busWord_apart desc
  have status : busWord (desc + 4) = busWord (desc + 8 * 0) := busWord_half desc aligned
  refine ⟨?_, ?_, ?_, Mem.peek_poke _ _ _⟩
  · refine (Mem.peek_poke_word _ _ _ _ ?_).trans ((Mem.peek_poke_word _ _ _ _ ?_).trans (Mem.peek_poke_word _ _ _ _ ?_))
    · exact status ▸ apart 0 3 aligned (by decide) (by decide)
    · exact status ▸ apart 0 2 aligned (by decide) (by decide)
    · exact status ▸ apart 0 1 aligned (by decide) (by decide)
  · refine (Mem.peek_poke_word _ _ _ _ (apart 1 3 aligned (by decide) (by decide))).trans ?_
    exact (Mem.peek_poke_word _ _ _ _ (apart 1 2 aligned (by decide) (by decide))).trans (Mem.peek_poke _ _ _)
  · exact (Mem.peek_poke_word _ _ _ _ (apart 2 3 aligned (by decide) (by decide))).trans (Mem.peek_poke _ _ _)

theorem fill_other (d : Driver P) (desc : ℕ) (dcFc srcDesc dstDesc : BitVec 32) (aligned : 8 ∣ desc) (word : BitVec 29)
    (outside : word ∉ segment (busWord desc) 4) : (d.fill desc dcFc srcDesc dstDesc).mem word = d.mem word := by
  have away (k : ℕ) (below : k < 4) : word ≠ busWord (desc + 8 * k) := by
    rintro rfl
    rw [busWord_add desc k aligned] at outside
    exact outside (segment_contains _ _ _ below)
  exact (Mem.poke_other _ _ _ _ (away 3 (by decide))).trans
    ((Mem.poke_other _ _ _ _ (away 2 (by decide))).trans (Mem.poke_other _ _ _ _ (away 1 (by decide))))

theorem Grows.then_fill (first : Grows t d mid touched new) (desc : ℕ) (dcFc srcDesc dstDesc : BitVec 32) (aligned : 8 ∣ desc)
    (inside : ∀ word ∈ segment (busWord desc) 4, word ∈ new) : Grows t d (mid.fill desc dcFc srcDesc dstDesc) touched new := by
  have here (k : ℕ) (below : k < 4) : busWord (desc + 8 * k) ∈ new := by
    rw [busWord_add desc k aligned]
    exact inside _ (segment_contains _ _ _ below)
  exact ((first.then_poke _ _ (.inr (here 1 (by decide)))).then_poke _ _ (.inr (here 2 (by decide)))).then_poke _ _
    (.inr (here 3 (by decide)))

structure JobSizes (maxSgSize cnt dstCnt : ℕ) : Prop where
  sg : 0 < maxSgSize ∧ 8 ∣ maxSgSize ∧ maxSgSize < 2 ^ 19
  src : 0 < cnt ∧ 8 ∣ cnt
  dst : 0 < dstCnt ∧ 8 ∣ dstCnt

theorem prepareJob_builds {chip : LzfChip} {maxSgSize cnt dstCnt : ℕ} {ops : BitVec 32} {fp rest : Option (List (BitVec 8))} {e : JobEntry}
    (sizes : JobSizes maxSgSize cnt dstCnt) (prepared : prepareJob chip t maxSgSize cnt dstCnt ops fp d = some (e, rest, after)) :
    ∃ tables, Grows t d after [] (e.words cnt dstCnt ++ tables) ∧ JobBuilt after.mem cnt dstCnt e (ops ||| chip.dcCtrl) tables := by
  simp only [prepareJob, Option.bind_eq_bind, Option.bind_eq_some_iff] at prepared
  obtain ⟨⟨desc, res, entry⟩, made, ⟨src, withSrc⟩, gotSrc, ⟨dst, withDst⟩, gotDst, ⟨fp', loaded⟩, load, ⟨srcBuf, mapped⟩, mapSrc,
    ⟨dstBuf, built⟩, mapDst, done⟩ := prepared
  simp only [Option.some.injEq, Prod.mk.injEq] at done
  obtain ⟨rfl, rfl, rfl⟩ := done
  obtain ⟨sgBytes, sgWhole, sgShort⟩ := sizes.sg
  obtain ⟨start, aligned, status⟩ := newJobEntry_grows made
  obtain ⟨growsSrc, srcAligned, _⟩ := t.mallocAlign_grows _ _ _ _ sizes.src.2 gotSrc
  obtain ⟨growsDst, dstAligned, _⟩ := t.mallocAlign_grows _ _ _ _ sizes.dst.2 gotDst
  obtain ⟨tmp, growsLoad⟩ := loadSrc_grows (growsSrc.trans growsDst (by simp)) srcAligned sizes.src.2
    (fun _ member => List.mem_append_left _ member) load
  have filled := loadDst_grows growsLoad dstAligned sizes.dst.2
    (fun _ member => List.mem_append_left _ (List.mem_append_right _ member))
  obtain ⟨srcTables, growsMap, srcList⟩ := map_bufs_list chip t maxSgSize _ _ src cnt srcBuf sgBytes sgWhole sgShort srcAligned
    sizes.src.1 sizes.src.2 mapSrc
  obtain ⟨dstTables, growsMapDst, dstList⟩ := map_bufs_list chip t maxSgSize _ _ dst dstCnt dstBuf sgBytes sgWhole sgShort dstAligned
    sizes.dst.1 sizes.dst.2 mapDst
  have body := (filled.trans growsMap (by simp)).trans growsMapDst (by simp)
  have words : ∀ word ∈ segment (busWord desc) 4, t.Owned entry.pool word :=
    fun word member => start.owned word (List.mem_append_left _ member)
  obtain ⟨status', command, srcField, dstField⟩ := fill_fields built desc (ops ||| chip.dcCtrl) (BitVec.ofNat 32 srcBuf)
    (BitVec.ofNat 32 dstBuf) aligned
  have other := fill_other built desc (ops ||| chip.dcCtrl) (BitVec.ofNat 32 srcBuf) (BitVec.ofNat 32 dstBuf) aligned
  refine ⟨tmp ++ srcTables ++ dstTables, ?_, aligned, status'.trans ?_, command, ⟨srcBuf, srcField, ?_⟩, ⟨dstBuf, dstField, ?_⟩⟩
  · have whole := (start.trans body (by simp)).then_fill desc (ops ||| chip.dcCtrl) (BitVec.ofNat 32 srcBuf) (BitVec.ofNat 32 dstBuf)
      aligned fun word member => List.mem_append_left _ (List.mem_append_left _ member)
    simpa [JobEntry.words, List.append_assoc] using whole
  · rw [← status]
    refine Mem.peek_same (body.frame _ ?_ (by simp))
    rw [busWord_half desc aligned]
    exact words _ (desc_words desc).1
  · refine ((srcList (· ∈ srcTables) fun _ member => member).kept_same fun word member => ?_).mono
      fun word member => List.mem_append_left _ (List.mem_append_right _ member)
    refine (other word fun listed => growsMap.fresh word member (filled.keeps _ (words word listed))).trans ?_
    exact growsMapDst.frame word (growsMap.owned word member) (by simp)
  · refine ((dstList (· ∈ dstTables) fun _ member => member).kept_same fun word member => ?_).mono
      fun word member => List.mem_append_right _ member
    exact other word fun listed => growsMapDst.fresh word member (growsMap.keeps _ (filled.keeps _ (words word listed)))

theorem JobBuilt.kept {mem now : Mem} {cnt dstCnt : ℕ} {e : JobEntry} {dcFc dcNow : BitVec 32} {tables : List (BitVec 29)}
    (built : JobBuilt mem cnt dstCnt e dcFc tables) (lists : ∀ word ∈ tables, now word = mem word)
    (fields : ∀ k, 2 ≤ k → k < 4 → now (busWord (e.desc + 8 * k)) = mem (busWord (e.desc + 8 * k)))
    (status : now.peek (e.desc + 4) = mem.peek (e.desc + 4)) (command : now.peek (e.desc + 8) = dcNow) :
    JobBuilt now cnt dstCnt e dcNow tables where
  aligned := built.aligned
  status := status.trans built.status
  command := command
  src := by
    obtain ⟨srcBuf, field, list⟩ := built.src
    exact ⟨srcBuf, (Mem.peek_same (fields 2 (by omega) (by omega))).trans field, list.kept_same lists⟩
  dst := by
    obtain ⟨dstBuf, field, list⟩ := built.dst
    exact ⟨dstBuf, (Mem.peek_same (fields 3 (by omega) (by omega))).trans field, list.kept_same lists⟩

def linkWords : Option ℕ → List (BitVec 29)
  | none => []
  | some p => [busWord p, busWord p + 1]

def Linked (chip : LzfChip) (d after : Driver P) (p : ℕ) : List JobEntry → Prop
  | [] => after.mem (busWord p) = d.mem (busWord p) ∧ after.mem (busWord p + 1) = d.mem (busWord p + 1)
  | e :: _ => after.peek p = BitVec.ofNat 32 e.desc ∧ after.peek (p + 4) = d.peek (p + 4) ∧
      after.peek (p + 8) = d.peek (p + 8) ||| chip.dcCont

theorem linkJob_grows (chip : LzfChip) (t : Allocator P) (d : Driver P) (prev : Option ℕ) (desc : ℕ) (aligned : ∀ p ∈ prev, 8 ∣ p) :
    Grows t d (linkJob chip d prev desc) (linkWords prev) [] := by
  cases prev with
  | none => exact Grows.refl t d _
  | some p =>
      refine ((Grows.refl t d _).then_poke _ _ (.inl (by simp [linkWords]))).then_poke _ _ (.inl ?_)
      simp [linkWords, busWord_next p (aligned p rfl)]

theorem linkJob_links (chip : LzfChip) (d : Driver P) (p desc : ℕ) (aligned : 8 ∣ p) :
    (linkJob chip d (some p) desc).peek p = BitVec.ofNat 32 desc ∧
      (linkJob chip d (some p) desc).peek (p + 4) = d.peek (p + 4) ∧
      (linkJob chip d (some p) desc).peek (p + 8) = d.peek (p + 8) ||| chip.dcCont := by
  have apart : busWord p ≠ busWord (p + 8) := by
    have numbers := busWord_apart p 0 1 aligned (by decide) (by decide)
    simpa using numbers
  have upper : busWord (p + 4) ≠ busWord (p + 8) := by
    rw [busWord_half p aligned]
    exact apart
  refine ⟨?_, ?_, ?_⟩
  · exact (Mem.peek_poke_word _ _ _ _ apart).trans (Mem.peek_poke _ _ _)
  · exact (Mem.peek_poke_word _ _ _ _ upper).trans (Mem.peek_poke_half _ _ _ _ (by simp; omega))
  · refine (Mem.peek_poke _ _ _).trans (congrArg (· ||| chip.dcCont) ?_)
    exact Mem.peek_poke_word _ _ _ _ apart.symm

theorem own_words {cnt dstCnt : ℕ} {e : JobEntry} (word : BitVec 29) (member : word ∈ segment (busWord e.desc) 4) :
    word ∈ e.words cnt dstCnt :=
  List.mem_append_left _ (List.mem_append_left _ (List.mem_append_left _ member))

theorem job_words {cnt dstCnt : ℕ} {e : JobEntry} {tables : List (BitVec 29)} (aligned : 8 ∣ e.desc) (k : ℕ) (below : k < 4) :
    busWord (e.desc + 8 * k) ∈ e.words cnt dstCnt ++ tables := by
  rw [busWord_add e.desc k aligned]
  exact List.mem_append_left _ (own_words _ (segment_contains _ _ _ below))

theorem link_inside {cnt dstCnt : ℕ} {e : JobEntry} {tables : List (BitVec 29)} (aligned : 8 ∣ e.desc) :
    ∀ word ∈ linkWords (some e.desc), word ∈ e.words cnt dstCnt ++ tables := by
  intro word member
  rcases List.mem_pair.mp member with rfl | rfl
  · exact job_words aligned 0 (by decide)
  · rw [← busWord_next e.desc aligned]
    exact job_words aligned 1 (by decide)

theorem JobBuilt.linked {cnt dstCnt : ℕ} {e : JobEntry} {dcFc dcNow : BitVec 32} {tables : List (BitVec 29)} {now : Driver P}
    (built : JobBuilt mid.mem cnt dstCnt e dcFc tables) (nodup : (e.words cnt dstCnt ++ tables).Nodup)
    (frame : ∀ word ∈ e.words cnt dstCnt ++ tables, word ∉ linkWords (some e.desc) → now.mem word = mid.mem word)
    (status : now.peek (e.desc + 4) = mid.peek (e.desc + 4)) (command : now.peek (e.desc + 8) = dcNow) :
    JobBuilt now.mem cnt dstCnt e dcNow tables := by
  refine built.kept (fun word member => ?_) (fun k above below => ?_) status command
  · refine frame word (List.mem_append_right _ member) fun listed => ?_
    have apart := (List.nodup_append.mp nodup).2.2
    rcases List.mem_pair.mp listed with rfl | rfl
    · exact apart _ (own_words _ (desc_words e.desc).1) _ member rfl
    · exact apart _ (own_words _ (desc_words e.desc).2) _ member rfl
  · refine frame _ (job_words built.aligned k below) fun listed => ?_
    rcases List.mem_pair.mp listed with same | same
    · exact busWord_apart e.desc k 0 built.aligned ⟨below, by decide⟩ (by omega) same
    · rw [← busWord_next e.desc built.aligned] at same
      exact busWord_apart e.desc k 1 built.aligned ⟨below, by decide⟩ (by omega) same

inductive JobsBuilt (chip : LzfChip) (mem : Mem) (cnt dstCnt : ℕ) (ops : BitVec 32) : List JobEntry → List (BitVec 29) → Prop
  | nil : JobsBuilt chip mem cnt dstCnt ops [] []
  | last (e : JobEntry) (tables : List (BitVec 29)) (job : JobBuilt mem cnt dstCnt e (ops ||| chip.dcCtrl) tables) :
      JobsBuilt chip mem cnt dstCnt ops [e] (e.words cnt dstCnt ++ tables)
  | linked (e next : JobEntry) (more : List JobEntry) (tables words : List (BitVec 29))
      (job : JobBuilt mem cnt dstCnt e (ops ||| chip.dcCtrl ||| chip.dcCont) tables) (link : mem.peek e.desc = BitVec.ofNat 32 next.desc)
      (rest : JobsBuilt chip mem cnt dstCnt ops (next :: more) words) :
      JobsBuilt chip mem cnt dstCnt ops (e :: next :: more) (e.words cnt dstCnt ++ tables ++ words)

theorem JobsBuilt.front {chip : LzfChip} {cnt dstCnt : ℕ} {ops : BitVec 32} {e : JobEntry} {more : List JobEntry}
    {tables words : List (BitVec 29)} {linked final : Driver P} (rest : JobsBuilt chip final.mem cnt dstCnt ops more words)
    (built : JobBuilt mid.mem cnt dstCnt e (ops ||| chip.dcCtrl) tables) (nodup : (e.words cnt dstCnt ++ tables).Nodup)
    (before : ∀ word ∈ e.words cnt dstCnt ++ tables, linked.mem word = mid.mem word)
    (frame : ∀ word ∈ e.words cnt dstCnt ++ tables, word ∉ linkWords (some e.desc) → final.mem word = linked.mem word)
    (links : Linked chip linked final e.desc more) :
    JobsBuilt chip final.mem cnt dstCnt ops (e :: more) (e.words cnt dstCnt ++ tables ++ words) := by
  have whole (word : BitVec 29) (member : word ∈ e.words cnt dstCnt ++ tables) (other : word ∉ linkWords (some e.desc)) :
      final.mem word = mid.mem word := (frame word member other).trans (before word member)
  have status : linked.peek (e.desc + 4) = mid.peek (e.desc + 4) := by
    refine Mem.peek_same (before _ ?_)
    rw [busWord_half e.desc built.aligned]
    exact job_words built.aligned 0 (by decide)
  have command : linked.peek (e.desc + 8) = ops ||| chip.dcCtrl :=
    (Mem.peek_same (before _ (job_words built.aligned 1 (by decide)))).trans built.command
  cases more with
  | nil =>
      cases rest
      obtain ⟨low, high⟩ := links
      rw [List.append_nil]
      refine .last e tables (built.linked nodup whole ?_ ?_)
      · refine (Mem.peek_same ?_).trans status
        rw [busWord_half e.desc built.aligned]
        exact low
      · refine (Mem.peek_same ?_).trans command
        rw [busWord_next e.desc built.aligned]
        exact high
  | cons next more =>
      obtain ⟨link, statusNow, commandNow⟩ := links
      refine .linked e next more tables words (built.linked nodup whole (statusNow.trans status) ?_) link rest
      exact commandNow.trans (congrArg (· ||| chip.dcCont) command)

theorem linked_behind {chip : LzfChip} {p : ℕ} {e : JobEntry} {more : List JobEntry} {final : Driver P} (aligned : 8 ∣ p)
    (earlier : ∀ word ∈ linkWords (some p), mid.mem word = d.mem word)
    (later : ∀ word ∈ linkWords (some p), final.mem word = (linkJob chip mid (some p) e.desc).mem word) :
    Linked chip d final p (e :: more) := by
  obtain ⟨link, status, command⟩ := linkJob_links chip mid p e.desc aligned
  have low : busWord p ∈ linkWords (some p) := List.mem_cons_self
  have high : busWord (p + 8) ∈ linkWords (some p) := by
    rw [busWord_next p aligned]
    exact List.mem_cons_of_mem _ List.mem_cons_self
  have half : busWord (p + 4) ∈ linkWords (some p) := by
    rw [busWord_half p aligned]
    exact low
  refine ⟨(Mem.peek_same (later _ low)).trans link, ?_, ?_⟩
  · exact (Mem.peek_same (later _ half)).trans (status.trans (Mem.peek_same (earlier _ half)))
  · refine (Mem.peek_same (later _ high)).trans (command.trans (congrArg (· ||| chip.dcCont) ?_))
    exact Mem.peek_same (earlier _ high)

theorem prepareJobs_builds (chip : LzfChip) (t : Allocator P) (maxSgSize cnt dstCnt : ℕ) (ops : BitVec 32)
    (sizes : JobSizes maxSgSize cnt dstCnt) :
    ∀ (loop : ℕ) (prev : Option ℕ) (fp : Option (List (BitVec 8))) (d after : Driver P) (jobs : List JobEntry),
      (∀ p ∈ prev, 8 ∣ p) → (∀ word ∈ linkWords prev, t.Owned d.pool word) →
      prepareJobs chip t maxSgSize cnt dstCnt ops loop prev fp d = some (jobs, after) →
      ∃ words, Grows t d after (linkWords prev) words ∧ JobsBuilt chip after.mem cnt dstCnt ops jobs words ∧
        jobs.length = loop ∧ ∀ p ∈ prev, Linked chip d after p jobs := by
  intro loop
  induction loop with
  | zero =>
      intro prev fp d after jobs _ _ prepared
      simp only [prepareJobs, Option.some.injEq, Prod.mk.injEq] at prepared
      obtain ⟨rfl, rfl⟩ := prepared
      exact ⟨[], Grows.refl t d _, .nil, rfl, fun _ _ => ⟨rfl, rfl⟩⟩
  | succ loop ih =>
      intro prev fp d after jobs aligned owned prepared
      simp only [prepareJobs, Option.bind_eq_bind, Option.bind_eq_some_iff] at prepared
      obtain ⟨⟨e, fp', withJob⟩, job, ⟨more, final⟩, rest, done⟩ := prepared
      simp only [Option.some.injEq, Prod.mk.injEq] at done
      obtain ⟨rfl, rfl⟩ := done
      obtain ⟨tables, growsJob, built⟩ := prepareJob_builds sizes job
      have growsLink := linkJob_grows chip t withJob prev e.desc aligned
      have growsTo : Grows t d (linkJob chip withJob prev e.desc) (linkWords prev) (e.words cnt dstCnt ++ tables) := by
        have whole := (growsJob.widen (by simp)).trans growsLink fun word member => Or.inl member
        rwa [List.append_nil] at whole
      have owned_link (word : BitVec 29) (member : word ∈ linkWords (some e.desc)) :
          t.Owned (linkJob chip withJob prev e.desc).pool word := growsTo.owned word (link_inside built.aligned word member)
      obtain ⟨words, growsRest, restBuilt, count, links⟩ := ih (some e.desc) fp' _ final more
        (fun p same => by cases same; exact built.aligned) owned_link rest
      have before (word : BitVec 29) (member : word ∈ e.words cnt dstCnt ++ tables) :
          (linkJob chip withJob prev e.desc).mem word = withJob.mem word :=
        growsLink.frame word (growsJob.owned word member) fun listed => growsJob.fresh word member (owned word listed)
      refine ⟨e.words cnt dstCnt ++ tables ++ words, growsTo.trans growsRest ?_, ?_, by simp [count], ?_⟩
      · exact fun word member => .inr (growsTo.fresh word (link_inside built.aligned word member))
      · exact restBuilt.front built growsJob.nodup before
          (fun word member other => growsRest.frame word (growsTo.owned word member) other) (links e.desc rfl)
      · rintro p same
        obtain rfl : prev = some p := same
        refine linked_behind (aligned p rfl) (fun word member => growsJob.frame word (owned word member) (by simp)) ?_
        exact fun word member => growsRest.frame word (growsTo.keeps word (owned word member)) fun listed =>
          growsTo.fresh word (link_inside built.aligned word listed) (owned word member)

end

section

variable {chip : LzfChip} {mem : Mem} {cnt dstCnt : ℕ} {ops : BitVec 32} {jobs : List JobEntry} {words : List (BitVec 29)} {e : JobEntry}

theorem Mem.peek_low (mem : Mem) (adr : ℕ) (aligned : 8 ∣ adr) : mem.peek adr = (mem (busWord adr)).extractLsb' 0 32 := if_pos (by omega)

theorem Mem.peek_high (mem : Mem) (adr : ℕ) (aligned : 8 ∣ adr) : mem.peek (adr + 4) = (mem (busWord adr)).extractLsb' 32 32 := by
  rw [← busWord_half adr aligned]
  exact if_neg (by omega)

theorem job_fields (mem : Mem) (desc : ℕ) (aligned : 8 ∣ desc) :
    jobAt mem (busWord desc) = ⟨mem.peek desc, mem.peek (desc + 8), mem.peek (desc + 16), mem.peek (desc + 24)⟩ ∧
      statusAt mem (busWord desc) = wordAddr (mem.peek (desc + 4)) := by
  have word (k : ℕ) : mem.peek (desc + 8 * k) = (mem (busWord desc + BitVec.ofNat 29 k)).extractLsb' 0 32 := by
    rw [← busWord_add desc k aligned]
    exact mem.peek_low _ (by omega)
  refine ⟨?_, by rw [mem.peek_high desc aligned]; rfl⟩
  rw [mem.peek_low desc aligned, word 1, word 2, word 3]
  rfl

theorem job_links (mem : Mem) (desc : ℕ) (aligned : 8 ∣ desc) :
    contOf mem (busWord desc) = (mem.peek (desc + 8)).getLsbD 10 ∧ nextOf mem (busWord desc) = wordAddr (mem.peek desc) := by
  constructor
  · rw [mem.peek_low (desc + 8) (by omega), busWord_next desc aligned]
    simp [contOf]
  · rw [mem.peek_low desc aligned]
    exact (low_next _).symm

theorem JobsBuilt.uncons {more : List JobEntry} (built : JobsBuilt chip mem cnt dstCnt ops (e :: more) words) :
    ∃ dcFc tables rest, words = e.words cnt dstCnt ++ tables ++ rest ∧
      JobBuilt mem cnt dstCnt e (ops ||| chip.dcCtrl ||| dcFc) tables ∧ JobsBuilt chip mem cnt dstCnt ops more rest := by
  cases built with
  | last _ tables job => exact ⟨0, tables, [], by simp, by rwa [show (0 : BitVec 32) = 0#32 from rfl, BitVec.or_zero], .nil⟩
  | linked _ next more tables rest job _ others => exact ⟨chip.dcCont, tables, rest, rfl, job, others⟩

theorem JobsBuilt.aligned (built : JobsBuilt chip mem cnt dstCnt ops jobs words) : ∀ e ∈ jobs, 8 ∣ e.desc := by
  induction built with
  | nil => simp
  | last e _ job => simpa using job.aligned
  | linked e next more _ _ job _ _ ih =>
      intro other member
      rcases List.mem_cons.mp member with rfl | later
      · exact job.aligned
      · exact ih other later

theorem JobsBuilt.chain (built : JobsBuilt chip mem cnt dstCnt ops jobs words) (single : (ops ||| chip.dcCtrl).getLsbD 10 = false)
    (nonempty : jobs ≠ []) : Chain mem (jobs.map fun e => busWord e.desc) := by
  induction built with
  | nil => exact absurd rfl nonempty
  | last e _ job =>
      change contOf mem (busWord e.desc) = false
      rw [(job_links mem e.desc job.aligned).1, job.command, single]
  | linked e next more _ _ job link rest ih =>
      obtain ⟨cont, follows⟩ := job_links mem e.desc job.aligned
      refine ⟨?_, ?_, ih (by simp)⟩
      · rw [cont, job.command, BitVec.getLsbD_or, chip.cont, Bool.or_true]
      · rw [follows, link]
        rfl

theorem JobsBuilt.apart : ∀ {jobs : List JobEntry} {words : List (BitVec 29)}, JobsBuilt chip mem cnt dstCnt ops jobs words → words.Nodup →
    (∀ e ∈ jobs, ∀ word ∈ e.words cnt dstCnt, word ∈ words) ∧ (∀ e ∈ jobs, (e.words cnt dstCnt).Nodup) ∧
      jobs.Pairwise fun e other => ∀ word ∈ e.words cnt dstCnt, word ∉ other.words cnt dstCnt := by
  intro jobs
  induction jobs with
  | nil => exact fun _ _ => ⟨by simp, by simp, List.Pairwise.nil⟩
  | cons e more ih =>
      intro words built nodup
      obtain ⟨_, tables, rest, rfl, _, others⟩ := built.uncons
      obtain ⟨own, restNodup, disjoint⟩ := List.nodup_append.mp nodup
      obtain ⟨inside, nodups, pairwise⟩ := ih others restNodup
      refine ⟨?_, ?_, List.pairwise_cons.mpr ⟨fun other member word here there => ?_, pairwise⟩⟩
      · intro other member word listed
        rcases List.mem_cons.mp member with rfl | later
        · exact List.mem_append_left _ (List.mem_append_left _ listed)
        · exact List.mem_append_right _ (inside other later word listed)
      · intro other member
        rcases List.mem_cons.mp member with rfl | later
        · exact (List.nodup_append.mp own).1
        · exact nodups other later
      · exact disjoint word (List.mem_append_left _ here) word (inside other member word there) rfl

theorem JobsBuilt.tables : ∀ {jobs : List JobEntry} {words : List (BitVec 29)}, JobsBuilt chip mem cnt dstCnt ops jobs words → words.Nodup →
    ∀ e ∈ jobs, ∃ dcFc tables, JobBuilt mem cnt dstCnt e (ops ||| chip.dcCtrl ||| dcFc) tables ∧
      (∀ word ∈ tables, word ∈ words) ∧ ∀ other ∈ jobs, ∀ word ∈ tables, word ∉ other.words cnt dstCnt := by
  intro jobs
  induction jobs with
  | nil => simp
  | cons first more ih =>
      intro words built nodup e member
      have inside := (built.apart nodup).1
      obtain ⟨dcFc, tables, rest, rfl, job, others⟩ := built.uncons
      obtain ⟨own, restNodup, disjoint⟩ := List.nodup_append.mp nodup
      have restInside := (others.apart restNodup).1
      rcases List.mem_cons.mp member with rfl | later
      · refine ⟨dcFc, tables, job, fun word listed => List.mem_append_left _ (List.mem_append_right _ listed), ?_⟩
        intro other here word listed blocked
        rcases List.mem_cons.mp here with rfl | behind
        · exact (List.nodup_append.mp own).2.2 word blocked word listed rfl
        · exact disjoint word (List.mem_append_right _ listed) word (restInside other behind word blocked) rfl
      · obtain ⟨dcFc, tables, job, within, clear⟩ := ih others restNodup e later
        refine ⟨dcFc, tables, job, fun word listed => List.mem_append_right _ (within word listed), ?_⟩
        intro other here word listed blocked
        rcases List.mem_cons.mp here with rfl | behind
        · exact disjoint word (List.mem_append_left _ blocked) word (within word listed) rfl
        · exact clear other behind word listed blocked

end

def chainKept (jobs : List JobEntry) (dstCnt : ℕ) (adr : BitVec 29) : Prop :=
  ∀ e ∈ jobs, adr ∉ segment (busWord e.res) 4 ∧ adr ∉ segment (busWord e.d) (dstCnt / 8)

def doTestPlan (jobs : List JobEntry) (cnt dstCnt : ℕ) (desc : BitVec 29) : CopyPlan where
  kept := chainKept jobs dstCnt
  src := ((jobs.find? fun e => busWord e.desc = desc).map fun e => segment (busWord e.s) (cnt / 8)).getD []
  dst := ((jobs.find? fun e => busWord e.desc = desc).map fun e => segment (busWord e.d) (dstCnt / 8)).getD []

section

variable {chip : LzfChip} {mem : Mem} {cnt dstCnt : ℕ} {ops : BitVec 32} {jobs : List JobEntry} {words : List (BitVec 29)} {e other : JobEntry}

theorem JobsBuilt.block_of (built : JobsBuilt chip mem cnt dstCnt ops jobs words) (nodup : words.Nodup) (here : e ∈ jobs)
    (there : other ∈ jobs) (word : BitVec 29) (mine : word ∈ e.words cnt dstCnt) (theirs : word ∈ other.words cnt dstCnt) : e = other := by
  by_contra different
  have symm : Std.Symm fun e other : JobEntry => ∀ word ∈ e.words cnt dstCnt, word ∉ other.words cnt dstCnt :=
    ⟨fun _ _ apart word theirs mine => apart word mine theirs⟩
  exact (built.apart nodup).2.2.forall here there different word mine theirs

theorem JobsBuilt.entry (built : JobsBuilt chip mem cnt dstCnt ops jobs words) (nodup : words.Nodup) (here : e ∈ jobs) :
    jobs.find? (fun other => busWord other.desc = busWord e.desc) = some e := by
  obtain ⟨other, found⟩ := Option.isSome_iff_exists.mp
    (List.find?_isSome.mpr ⟨e, here, by simp⟩ : (jobs.find? fun other => busWord other.desc = busWord e.desc).isSome = true)
  have same : busWord other.desc = busWord e.desc := by simpa using List.find?_some found
  have there := List.mem_of_find?_eq_some found
  rw [found, built.block_of nodup there here _ (own_words _ (desc_words other.desc).1) (same ▸ own_words _ (desc_words e.desc).1)]

theorem JobsBuilt.planned (built : JobsBuilt chip mem cnt dstCnt ops jobs words) (nodup : words.Nodup) (here : e ∈ jobs) :
    doTestPlan jobs cnt dstCnt (busWord e.desc) =
      ⟨chainKept jobs dstCnt, segment (busWord e.s) (cnt / 8), segment (busWord e.d) (dstCnt / 8)⟩ := by
  simp only [doTestPlan, built.entry nodup here, Option.map_some, Option.getD_some]

theorem JobsBuilt.kept (built : JobsBuilt chip mem cnt dstCnt ops jobs words) (nodup : words.Nodup) (here : e ∈ jobs) (word : BitVec 29)
    (mine : word ∈ segment (busWord e.desc) 4 ∨ word ∈ segment (busWord e.s) (cnt / 8)) : chainKept jobs dstCnt word := by
  have owned : word ∈ e.words cnt dstCnt := by
    simp only [JobEntry.words, List.mem_append]
    rcases mine with desc | src
    · exact .inl (.inl (.inl desc))
    · exact .inl (.inr src)
  have blocks := (built.apart nodup).2.1 e here
  simp only [JobEntry.words, List.nodup_append] at blocks
  obtain ⟨⟨⟨_, _, fromRes⟩, _, fromSrc⟩, _, fromDst⟩ := blocks
  intro other there
  constructor
  · intro listed
    have theirs : word ∈ other.words cnt dstCnt := by simp [JobEntry.words, listed]
    obtain rfl := built.block_of nodup here there word owned theirs
    rcases mine with desc | src
    · exact fromRes word desc word listed rfl
    · exact fromSrc word (List.mem_append_right _ listed) word src rfl
  · intro listed
    have theirs : word ∈ other.words cnt dstCnt := by simp [JobEntry.words, listed]
    obtain rfl := built.block_of nodup here there word owned theirs
    rcases mine with desc | src
    · exact fromDst word (List.mem_append_left _ (List.mem_append_left _ desc)) word listed rfl
    · exact fromDst word (List.mem_append_right _ src) word listed rfl

theorem JobsBuilt.fits (built : JobsBuilt chip mem cnt dstCnt chip.dcMemcpy jobs words) (nodup : words.Nodup) (here : e ∈ jobs) :
    (doTestPlan jobs cnt dstCnt (busWord e.desc)).Fits mem (busWord e.desc) := by
  obtain ⟨dcFc, tables, job, _, clear⟩ := built.tables nodup e here
  obtain ⟨fields, _⟩ := job_fields mem e.desc job.aligned
  obtain ⟨srcBuf, srcField, srcList⟩ := job.src
  obtain ⟨dstBuf, dstField, dstList⟩ := job.dst
  have free (word : BitVec 29) (listed : word ∈ tables) : chainKept jobs dstCnt word := by
    intro other there
    have outside := clear other there word listed
    simp only [JobEntry.words, List.mem_append, not_or] at outside
    exact ⟨outside.1.1.2, outside.2⟩
  have bit (k : ℕ) (member : k ∈ [1, 2, 4]) : (jobAt mem (busWord e.desc)).dc.getLsbD k = true := by
    have below : k < 16 := by
      simp only [List.mem_cons, List.not_mem_nil, or_false] at member
      omega
    rw [fields, job.command]
    simp [JobDesc.dc, below, chip.copies k member, show k < 24 by omega]
  rw [built.planned nodup here]
  refine ⟨⟨bit 4 (by simp), bit 1 (by simp), bit 2 (by simp), ?_, ?_, ?_, ?_, ?_⟩, ?_⟩
  · rw [fields, srcField]
    exact srcList.mono free
  · rw [fields, dstField]
    exact dstList.mono free
  · exact fun word member => built.kept nodup here word (.inr member)
  · exact fun word member kept => (kept e here).2 member
  · have blocks := (built.apart nodup).2.1 e here
    exact (List.nodup_append.mp blocks).2.1
  · exact fun k below => built.kept nodup here _ (.inl (segment_contains _ _ _ below))

theorem JobsBuilt.status (built : JobsBuilt chip mem cnt dstCnt ops jobs words) (nodup : words.Nodup) (here : e ∈ jobs) :
    statusAt mem (busWord e.desc) = busWord e.res := by
  obtain ⟨_, _, job, _⟩ := built.tables nodup e here
  rw [(job_fields mem e.desc job.aligned).2, job.status]
  rfl

theorem result_word (res : ℕ) : ∀ word : BitVec 2, busWord res + word.setWidth 29 ∈ segment (busWord res) 4 := by
  intro word
  rw [← BitVec.ofNat_toNat]
  exact segment_contains _ _ _ word.isLt

theorem JobsBuilt.layout (built : JobsBuilt chip mem cnt dstCnt chip.dcMemcpy jobs words) (nodup : words.Nodup) (nonempty : jobs ≠ []) :
    Layout (doTestPlan jobs cnt dstCnt) mem (jobs.map fun e => busWord e.desc) := by
  have job_of (d : BitVec 29) (listed : d ∈ jobs.map fun e => busWord e.desc) : ∃ e ∈ jobs, d = busWord e.desc := by
    obtain ⟨e, here, rfl⟩ := List.mem_map.mp listed
    exact ⟨e, here, rfl⟩
  refine ⟨built.chain chip.single nonempty, ?_, ?_, ?_, ?_⟩
  · refine List.pairwise_map.mpr ((built.apart nodup).2.2.imp fun apart same => ?_)
    exact apart _ (own_words _ (desc_words _).1) (same ▸ own_words _ (desc_words _).1)
  · intro d listed
    obtain ⟨e, here, rfl⟩ := job_of d listed
    exact built.fits nodup here
  · intro d listed d' listedToo different adr member
    obtain ⟨e, here, rfl⟩ := job_of d listed
    obtain ⟨other, there, rfl⟩ := job_of d' listedToo
    rw [built.planned nodup here] at member
    rw [built.planned nodup there]
    refine ⟨fun kept => (kept e here).2 member, fun theirs => different ?_⟩
    rw [built.block_of nodup here there adr (by simp [JobEntry.words, show adr ∈ segment (busWord e.d) (dstCnt / 8) from member])
      (by simp [JobEntry.words, show adr ∈ segment (busWord other.d) (dstCnt / 8) from theirs])]
  · intro d listed d' listedToo word
    obtain ⟨e, here, rfl⟩ := job_of d listed
    obtain ⟨other, there, rfl⟩ := job_of d' listedToo
    rw [built.planned nodup there, built.status nodup here]
    have res := result_word e.res word
    refine ⟨fun kept => (kept e here).1 res, fun theirs => ?_⟩
    have dst : busWord e.res + word.setWidth 29 ∈ segment (busWord other.d) (dstCnt / 8) := theirs
    obtain rfl := built.block_of nodup here there (busWord e.res + word.setWidth 29) (by simp [JobEntry.words, res]) (by simp [JobEntry.words, dst])
    have blocks := (built.apart nodup).2.1 e here
    exact (List.nodup_append.mp blocks).2.2 _ (List.mem_append_left _ (List.mem_append_right _ res)) _ dst rfl

end

theorem segment_index (adr : BitVec 29) (len k : ℕ) (below : k < len) : (segment adr len)[k]? = some (adr + BitVec.ofNat 29 k) := by
  induction len generalizing adr k with
  | zero => omega
  | succ len ih =>
      cases k with
      | zero => simp [segment]
      | succ k =>
          rw [segment, List.getElem?_cons_succ, ih _ _ (by omega)]
          congr 1
          apply BitVec.eq_of_toNat_eq
          simp only [BitVec.toNat_add, BitVec.toNat_ofNat, show (1 : BitVec 29).toNat = 1 from rfl]
          omega

section

variable {P : Type} {chip : LzfChip} {t : Allocator P} {maxSgSize cnt dstCnt loop : ℕ} {fp : Option (List (BitVec 8))} {d after : Driver P}
  {jobs : List JobEntry}

theorem doTest_builds {ops : BitVec 32} (sizes : JobSizes maxSgSize cnt dstCnt)
    (tested : doTest chip t maxSgSize cnt dstCnt ops fp loop d = some (jobs, after)) :
    ∃ words, Grows t d after [] words ∧ JobsBuilt chip after.mem cnt dstCnt ops jobs words ∧ jobs.length = max loop 1 := by
  obtain ⟨words, grows, built, count, _⟩ := prepareJobs_builds chip t maxSgSize cnt dstCnt ops sizes (max loop 1) none fp d after jobs
    (by simp) (by simp [linkWords]) tested
  exact ⟨words, grows, built, count⟩

theorem doTest_layout (sizes : JobSizes maxSgSize cnt dstCnt)
    (tested : doTest chip t maxSgSize cnt dstCnt chip.dcMemcpy fp loop d = some (jobs, after)) :
    Layout (doTestPlan jobs cnt dstCnt) after.mem (jobs.map fun e => busWord e.desc) := by
  obtain ⟨words, grows, built, count⟩ := doTest_builds sizes tested
  refine built.layout grows.nodup ?_
  rintro rfl
  simp at count
  omega

theorem do_test_copies (sizes : JobSizes maxSgSize cnt dstCnt)
    (tested : doTest chip t maxSgSize cnt dstCnt chip.dcMemcpy fp loop d = some (jobs, after))
    (earlier : BitVec 29 → CopyPlan) (m : Masters) (ch : Fin 2 → Ch) (mem : Mem) (before rest : List SharedIn) (first : SharedIn) (s : Chip)
    (notes : Fin 2 → Option CopyNote)
    (history : Clocked.Admits (Clocked.watch Chip.step Chip.note) (ChipPeriod earlier) (Chip.reset m ch mem, fun _ => none) before)
    (reached : Clocked.run (Clocked.watch Chip.step Chip.note) (Chip.reset m ch mem, fun _ => none) before = (s, notes))
    (idle : s.ctrl.state = .sIdle) (shared : s.mem = after.mem) (fair : SlaveFair s first)
    (ndar : (jobs.map fun e => busWord e.desc).head? = some first.lines.ndar) (enable : first.lines.enable = true)
    (dirty : first.lines.ndarDirty = true) (append : first.lines.append = false)
    (periods : Clocked.Admits (Clocked.watch Chip.step Chip.note) ChainFair (Clocked.watch Chip.step Chip.note (s, notes) first) rest)
    (back : (Clocked.run Chip.step s (first :: rest)).ctrl.state = .sIdle) :
    (∀ e ∈ jobs, ∀ k, k < cnt / 8 → k < dstCnt / 8 →
      (Clocked.run Chip.step s (first :: rest)).mem (busWord e.d + BitVec.ofNat 29 k) = after.mem (busWord e.s + BitVec.ofNat 29 k)) ∧
    ∀ adr, chainKept jobs dstCnt adr → (Clocked.run Chip.step s (first :: rest)).mem adr = after.mem adr := by
  obtain ⟨words, grows, built, _⟩ := doTest_builds sizes tested
  have layout := doTest_layout sizes tested
  rw [← shared] at layout
  obtain ⟨more, chain⟩ : ∃ more, (jobs.map fun e => busWord e.desc) = first.lines.ndar :: more := by
    cases listed : jobs.map fun e => busWord e.desc with
    | nil => simp [listed] at ndar
    | cons head more =>
        rw [listed, List.head?_cons] at ndar
        exact ⟨more, by rw [Option.some.inj ndar]⟩
  have submitted : Submitted s first (jobs.map fun e => busWord e.desc) := by
    rw [chain]
    exact .ndar more enable dirty append
  obtain ⟨rfl, holds⟩ := (ChipHolds.reached history reached).idle idle (doTestPlan jobs cnt dstCnt)
  obtain ⟨final, _, _, _, started⟩ := ChainHolds.start layout holds idle fair submitted
    (fun appends => absurd (append.symm.trans appends) Bool.false_ne_true)
  obtain ⟨copied, frame, _⟩ := started.finishes layout periods back
  rw [shared] at copied frame
  refine ⟨fun e here k below belowToo => ?_, fun adr kept => frame adr ?_⟩
  · have landed := copied (busWord e.desc) (List.mem_map_of_mem here)
    rw [CopyPlan.Landed, built.planned grows.nodup here] at landed
    refine landed (busWord e.d + BitVec.ofNat 29 k, busWord e.s + BitVec.ofNat 29 k) (List.mem_iff_getElem?.mpr ⟨k, ?_⟩)
    rw [List.getElem?_zip_eq_some]
    exact ⟨segment_index _ _ _ belowToo, segment_index _ _ _ below⟩
  · rintro ⟨d, listed, target⟩
    obtain ⟨e, here, rfl⟩ := List.mem_map.mp listed
    rw [built.planned grows.nodup here, built.status grows.nodup here] at target
    rcases target with dst | ⟨word, rfl⟩
    · exact (kept e here).2 dst
    · exact (kept e here).1 (result_word e.res word)

end

def copyTest : Option (List JobEntry × Driver ℕ) := doTest lzfChip bump 8 16 16 lzfChip.dcMemcpy none 1 ⟨0x1008, fun _ => 0⟩

theorem copy_tested : copyTest.isSome = true := by decide +kernel

def copyJobs : List JobEntry := (copyTest.get copy_tested).1
def copyMem : Mem := (copyTest.get copy_tested).2.mem
def copyFirst : SharedIn := slaveIn false (.start (busWord 0xa0000020))

def copyAcks : List Bool :=
  [(2, 4), (3, 2), (2, 2), (2, 1), (1, 2), (1, 1), (8, 1), (1, 2), (1, 1), (5, 4), (2, 0)].flatMap fun (waits, words) =>
    List.replicate waits false ++ List.replicate words true

def copyRest : List SharedIn := copyAcks.map fun ack => slaveIn ack .host
def copyChip : Chip := Chip.reset ⟨fun _ => powerUp.src, default⟩ (fun _ => powerUp.ch) copyMem

set_option maxRecDepth 100000 in
theorem copy_ends : SlaveFair copyChip copyFirst ∧ Clocked.Admits Chip.step RunsFair (copyChip.step copyFirst) copyRest ∧
    (Clocked.run Chip.step copyChip (copyFirst :: copyRest)).ctrl.state = .sIdle := by
  decide +kernel

theorem do_test_copied :
    (∀ e ∈ copyJobs, ∀ k, k < 16 / 8 → k < 16 / 8 →
      (Clocked.run Chip.step copyChip (copyFirst :: copyRest)).mem (busWord e.d + BitVec.ofNat 29 k) = copyMem (busWord e.s + BitVec.ofNat 29 k)) ∧
    ∀ adr, chainKept copyJobs 16 adr → (Clocked.run Chip.step copyChip (copyFirst :: copyRest)).mem adr = copyMem adr := by
  refine do_test_copies ⟨by decide, by decide, by decide⟩ (Option.some_get copy_tested).symm chainPlan ⟨fun _ => powerUp.src, default⟩
    (fun _ => powerUp.ch) copyMem [] copyRest copyFirst copyChip (fun _ => none) trivial rfl rfl rfl copy_ends.1 (by decide +kernel) rfl rfl
    rfl ?_ copy_ends.2.2
  exact runs_fair copyChip copyFirst copyRest copy_ends.2.1

end SsAdma
