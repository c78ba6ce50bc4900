import Mathlib.Data.BitVec
import SsAdma.Clocked

set_option autoImplicit false

namespace SsAdma

inductive RbState where
  | sIdle
  | sRun
  | sWait
  | sEnd
deriving DecidableEq, Repr

-- pop, dout and doutValid come from the rabin instance, which is not part of
-- the repository.
structure RbhashIn where
  mEnable : Bool
  dc : BitVec 24
  mSrc : BitVec 64
  mSrcLast : Bool
  mSrcAlmostEmpty : Bool
  mSrcEmpty : Bool
  mDstFull : Bool
  pop : Bool
  dout : BitVec 64
  doutValid : Bool
deriving DecidableEq, Repr

structure Rbhash where
  state : RbState
  getnReg : Bool
  iidxL : BitVec 3
  mSrcD1 : BitVec 64
  bufCnt : BitVec 20
  rbD1 : Bool
  rbCnt : BitVec 13
  rbMinPassed : Bool
  rbPutn : Bool
  rbHash : BitVec 64
deriving DecidableEq, Repr

structure RbhashNext where
  stateN : RbState
  getnNext : Bool
  dataValidNext : Bool
deriving DecidableEq, Repr

def Rbhash.comb (s : Rbhash) (i : RbhashIn) : RbhashNext :=
  match s.state with
  | .sIdle =>
      if i.mEnable && i.dc[8] && !i.mDstFull && !i.mSrcEmpty then ⟨.sRun, true, false⟩ else ⟨.sIdle, true, false⟩
  | .sRun =>
      if i.mSrcLast then ⟨.sEnd, true, i.pop⟩
      else if i.mSrcEmpty || i.mSrcAlmostEmpty then ⟨.sWait, true, false⟩
      else if s.iidxL == 6 && i.pop then ⟨.sRun, false, i.pop⟩
      else ⟨.sRun, true, i.pop⟩
  | .sWait => if !i.mDstFull && !i.mSrcEmpty then ⟨.sRun, true, false⟩ else ⟨.sWait, true, false⟩
  | .sEnd => ⟨.sEnd, true, false⟩

def Rbhash.din (s : Rbhash) (i : RbhashIn) : BitVec 8 :=
  if s.iidxL = 7 then s.mSrcD1.extractLsb' 56 8 else i.mSrc.extractLsb' (8 * s.iidxL.toNat) 8

def Rbhash.rbMin (s : Rbhash) : BitVec 11 := s.bufCnt.setWidth 11

def Rbhash.minFull (s : Rbhash) : Bool := s.rbMin == BitVec.allOnes 11

def Rbhash.case0 (s : Rbhash) : Bool := s.rbCnt == BitVec.allOnes 13
def Rbhash.case1 (s : Rbhash) : Bool := (!s.rbMinPassed && s.minFull) || s.rbMinPassed
def RbhashIn.case2 (i : RbhashIn) : Bool := i.dout.extractLsb' 0 12 == 0x78

def Rbhash.cut (s : Rbhash) (i : RbhashIn) : Bool :=
  s.state != .sEnd && i.doutValid && (s.case0 || (s.case1 && i.case2))

def Rbhash.fakeLast (s : Rbhash) (i : RbhashIn) : Bool := i.mSrcLast && s.state == .sRun

def Rbhash.step (s : Rbhash) (i : RbhashIn) : Rbhash where
  state := (s.comb i).stateN
  getnReg := (s.comb i).getnNext
  iidxL := if (s.comb i).dataValidNext then s.iidxL + 1 else s.iidxL
  mSrcD1 := if i.pop && s.iidxL == 0 then i.mSrc else s.mSrcD1
  bufCnt := if i.doutValid then s.bufCnt + 1 else s.bufCnt
  rbD1 := s.cut i
  rbCnt := if s.rbD1 then 0 else if i.doutValid then s.rbCnt + 1 else s.rbCnt
  rbMinPassed := if s.rbD1 then false else if s.minFull && i.doutValid then true else s.rbMinPassed
  rbPutn := !(s.cut i || s.rbD1 || s.fakeLast i)
  rbHash :=
    if s.cut i then i.dout
    else if s.rbD1 then s.bufCnt.setWidth 64
    else if s.fakeLast i then i.dout
    else s.rbHash

-- rb_d1 and rb_putn have no reset branch; the edges under reset clear them.
-- m_src_d1 and rb_hash leave the reset as they were.
structure Rbhash.AfterReset (s : Rbhash) : Prop where
  state : s.state = .sIdle
  getnReg : s.getnReg = true
  iidxL : s.iidxL = 0
  bufCnt : s.bufCnt = 0
  rbD1 : s.rbD1 = false
  rbCnt : s.rbCnt = 0
  rbMinPassed : s.rbMinPassed = false
  rbPutn : s.rbPutn = true

structure RbhashPins where
  mSrcGetn : Bool
  mDstPutn : Bool
  mDst : BitVec 64
  mEndn : Bool
  mDstLast : Bool
deriving DecidableEq, Repr

def Rbhash.pins (s : Rbhash) (i : RbhashIn) : Option RbhashPins :=
  if i.dc[8] then some ⟨s.getnReg, s.rbPutn, s.rbHash, !(s.state == .sEnd), i.mSrcLast⟩ else none

-- The bytes since the last cut, and whether one of them came in the period of
-- rb_d1, in which rb_cnt does not count.
structure Chunk where
  since : Option ℕ
  swallowed : Bool
deriving DecidableEq, Repr

def Rbhash.note (s : Rbhash) (g : Chunk) (i : RbhashIn) : Chunk :=
  if s.cut i then ⟨some 0, false⟩
  else if i.doutValid then ⟨g.since.map (· + 1), g.swallowed || s.rbD1⟩
  else g

def Rbhash.stepChunk : Rbhash × Chunk → RbhashIn → Rbhash × Chunk := Clocked.watch Rbhash.step Rbhash.note

def Chunk.start : Chunk := ⟨none, false⟩

def ChunkBounds (s : Rbhash × Chunk) (i : RbhashIn) : Prop :=
  s.1.cut i = true → ∀ n ∈ s.2.since, 2048 ≤ n + 1 ∧ n + 1 ≤ 8192

def Rbhash.crossed (s : Rbhash) : Prop := s.bufCnt.toNat % 2048 < s.rbCnt.toNat ∨ s.bufCnt.toNat % 2048 = 2047

instance (s : Rbhash) : Decidable s.crossed := inferInstanceAs (Decidable (_ ∨ _))

def Chunk.missed (g : Chunk) : ℕ := if g.swallowed then 1 else 0

structure ByteFits (s : Rbhash) (g : Chunk) (i : RbhashIn) : Prop where
  behindCut : s.rbD1 = true → ¬ (s.case0 = true ∨ s.case1 = true ∧ i.case2 = true)
  magic : s.rbD1 = false → i.case2 = true → s.crossed → 2047 ≤ s.rbCnt.toNat + g.missed
  longest : s.rbD1 = false → s.case0 = true → g.swallowed = false

def BytesFit (s : Rbhash × Chunk) (i : RbhashIn) : Prop :=
  s.1.state ≠ .sEnd → i.doutValid = true → s.2.since ≠ none → ByteFits s.1 s.2 i

theorem Rbhash.minFull_iff (s : Rbhash) : s.minFull = true ↔ s.bufCnt.toNat % 2048 = 2047 := by
  rw [minFull, beq_iff_eq, ← BitVec.toNat_inj, rbMin, BitVec.toNat_setWidth, BitVec.toNat_allOnes]

theorem Rbhash.case0_iff (s : Rbhash) : s.case0 = true ↔ s.rbCnt.toNat = 8191 := by
  rw [case0, beq_iff_eq, ← BitVec.toNat_inj, BitVec.toNat_allOnes]

theorem Rbhash.case1_iff (s : Rbhash) : s.case1 = true ↔ s.rbMinPassed = true ∨ s.minFull = true := by
  rw [case1]
  cases s.rbMinPassed <;> simp

theorem Rbhash.cut_iff (s : Rbhash) (i : RbhashIn) (running : s.state ≠ .sEnd) (valid : i.doutValid = true) :
    s.cut i = true ↔ s.case0 = true ∨ s.case1 = true ∧ i.case2 = true := by
  simp [cut, running, valid]

theorem Rbhash.cut_from (s : Rbhash) (i : RbhashIn) (taken : s.cut i = true) :
    s.state ≠ .sEnd ∧ i.doutValid = true := by
  simp only [cut, Bool.and_eq_true, bne_iff_ne] at taken
  exact taken.1

theorem Rbhash.end_stays (s : Rbhash) (i : RbhashIn) (running : (s.step i).state ≠ .sEnd) : s.state ≠ .sEnd := by
  intro ended
  refine running ?_
  change (s.comb i).stateN = .sEnd
  rw [comb, ended]

structure ChunkInv (s : Rbhash × Chunk) : Prop where
  behind : s.1.rbD1 = true → s.2 = ⟨some 0, false⟩
  counted : s.1.rbD1 = false → s.1.state ≠ .sEnd → ∀ n ∈ s.2.since, n = s.1.rbCnt.toNat + s.2.missed
  passed : s.1.rbD1 = false → s.1.state ≠ .sEnd → s.2.since ≠ none →
    (s.1.rbMinPassed = true ↔ s.1.bufCnt.toNat % 2048 < s.1.rbCnt.toNat)

theorem ChunkInv.crossed_iff (s : Rbhash × Chunk) (inv : ChunkInv s) (counting : s.1.rbD1 = false)
    (running : s.1.state ≠ .sEnd) (cutBefore : s.2.since ≠ none) : s.1.case1 = true ↔ s.1.crossed := by
  rw [Rbhash.case1_iff, inv.passed counting running cutBefore, Rbhash.minFull_iff, Rbhash.crossed]

-- One counted byte. rb_cnt does not wrap: at its maximum the byte is a cut.
theorem Rbhash.step_byte (r : Rbhash) (i : RbhashIn) (counting : r.rbD1 = false) (running : r.state ≠ .sEnd)
    (valid : i.doutValid = true) (goesOn : r.cut i = false) :
    (r.step i).rbCnt.toNat = r.rbCnt.toNat + 1 ∧
      (r.step i).bufCnt.toNat % 2048 = (r.bufCnt.toNat + 1) % 2048 ∧
      ((r.step i).rbMinPassed = true ↔ r.bufCnt.toNat % 2048 = 2047 ∨ r.rbMinPassed = true) := by
  have free : r.rbCnt.toNat ≠ 8191 := fun full => by
    have taken := (r.cut_iff i running valid).mpr (.inl (r.case0_iff.mpr full))
    exact absurd (goesOn.symm.trans taken) (by decide)
  have small := r.rbCnt.isLt
  refine ⟨?_, ?_, ?_⟩
  · have count : (r.step i).rbCnt = r.rbCnt + 1 := by simp [step, counting, valid]
    rw [count, BitVec.toNat_add]
    exact Nat.mod_eq_of_lt (by change r.rbCnt.toNat + 1 < 2 ^ 13; omega)
  · have count : (r.step i).bufCnt = r.bufCnt + 1 := by simp [step, valid]
    rw [count, BitVec.toNat_add]
    exact Nat.mod_mod_of_dvd _ (by decide)
  · rw [← minFull_iff]
    cases full : r.minFull <;> simp [step, counting, valid, full]

theorem chunk_inv_byte (r : Rbhash) (g : Chunk) (i : RbhashIn) (inv : ChunkInv (r, g)) (counting : r.rbD1 = false)
    (running : r.state ≠ .sEnd) (valid : i.doutValid = true) (goesOn : r.cut i = false) :
    ChunkInv (r.step i, ⟨g.since.map (· + 1), g.swallowed⟩) := by
  obtain ⟨counted, total, passed⟩ := r.step_byte i counting running valid goesOn
  refine ⟨fun behind => absurd (goesOn.symm.trans behind) (by decide), fun _ _ n cutAt => ?_, fun _ _ cutBefore => ?_⟩
  · obtain ⟨before, length, rfl⟩ : ∃ before, g.since = some before ∧ before + 1 = n := by simpa using cutAt
    have sum := inv.counted counting running before (by simp [length])
    change before + 1 = (r.step i).rbCnt.toNat + g.missed
    change before = r.rbCnt.toNat + g.missed at sum
    omega
  · have earlier : g.since ≠ none := fun never => cutBefore (by simp [never])
    have flag := inv.passed counting running earlier
    rw [passed, total, counted, flag]
    change _ ∨ r.bufCnt.toNat % 2048 < r.rbCnt.toNat ↔ _
    omega

theorem chunk_inv_step (s : Rbhash × Chunk) (i : RbhashIn) (inv : ChunkInv s) : ChunkInv (Rbhash.stepChunk s i) := by
  obtain ⟨r, g⟩ := s
  change ChunkInv (r.step i, r.note g i)
  cases cut : r.cut i with
  | true =>
      have raised : (r.step i).rbD1 = true := cut
      refine ⟨fun _ => by rw [Rbhash.note, if_pos cut], ?_, ?_⟩ <;>
        exact fun counting => absurd (raised.symm.trans counting) (by decide)
  | false =>
      have lowered : (r.step i).rbD1 = false := cut
      have noted : r.note g i = if i.doutValid then ⟨g.since.map (· + 1), g.swallowed || r.rbD1⟩ else g := by
        rw [Rbhash.note, if_neg (by simp [cut])]
      rw [noted]
      by_cases running : r.state = .sEnd
      · refine ⟨fun behind => absurd (lowered.symm.trans behind) (by decide), ?_, ?_⟩ <;>
          exact fun _ runs => absurd running (r.end_stays i runs)
      cases flag : r.rbD1 with
      | true =>
          have cleared : (r.step i).rbCnt = 0 := if_pos flag
          have unpassed : (r.step i).rbMinPassed = false := if_pos flag
          rw [show g = ⟨some 0, false⟩ from inv.behind flag]
          refine ⟨fun behind => absurd (lowered.symm.trans behind) (by decide), fun _ _ => ?_, fun _ _ _ => ?_⟩
          · rw [cleared]
            cases i.doutValid <;> simp [Chunk.missed]
          · rw [cleared, unpassed]
            simp
      | false =>
          cases valid : i.doutValid with
          | true =>
              rw [if_pos rfl, Bool.or_false]
              exact chunk_inv_byte r g i inv flag running valid cut
          | false =>
              rw [if_neg Bool.false_ne_true]
              have count : (r.step i).rbCnt = r.rbCnt := by simp [Rbhash.step, flag, valid]
              have total : (r.step i).bufCnt = r.bufCnt := by simp [Rbhash.step, valid]
              have passed : (r.step i).rbMinPassed = r.rbMinPassed := by simp [Rbhash.step, flag, valid]
              refine ⟨fun behind => absurd (lowered.symm.trans behind) (by decide), fun _ _ => ?_, fun _ _ => ?_⟩
              · rw [count]
                exact inv.counted flag running
              · rw [count, total, passed]
                exact inv.passed flag running

theorem bounds_iff_fit (s : Rbhash × Chunk) (inv : ChunkInv s) (i : RbhashIn) : ChunkBounds s i ↔ BytesFit s i := by
  by_cases stopped : s.1.state = .sEnd
  · exact iff_of_true (fun taken => absurd stopped (s.1.cut_from i taken).1) fun running => absurd stopped running
  cases valid : i.doutValid with
  | false =>
      refine iff_of_true (fun taken => ?_) fun _ arrives => absurd (valid.symm.trans arrives) (by decide)
      exact absurd (valid.symm.trans (s.1.cut_from i taken).2) (by decide)
  | true =>
      have cut := s.1.cut_iff i stopped valid
      cases since : s.2.since with
      | none => exact iff_of_true (fun _ n cutAt => by simp [since] at cutAt) fun _ _ cutBefore => absurd since cutBefore
      | some n =>
          have cutBefore : s.2.since ≠ none := by simp [since]
          have bounds : ChunkBounds s i ↔ (s.1.cut i = true → 2048 ≤ n + 1 ∧ n + 1 ≤ 8192) := by
            simp [ChunkBounds, since]
          have fit : BytesFit s i ↔ ByteFits s.1 s.2 i := by
            simp [BytesFit, stopped, valid, cutBefore]
          rw [bounds, fit, cut]
          cases flag : s.1.rbD1 with
          | true =>
              have first : n = 0 := by simpa [inv.behind flag] using since.symm
              subst first
              constructor
              · intro holds
                exact ⟨fun _ taken => by have := holds taken; omega, by simp [flag], by simp [flag]⟩
              · exact fun fits taken => absurd taken (fits.behindCut flag)
          | false =>
              have length := inv.counted flag stopped n (by simp [since])
              have crossed := ChunkInv.crossed_iff s inv flag stopped cutBefore
              have counter := s.1.case0_iff
              have small := s.1.rbCnt.isLt
              constructor
              · intro holds
                refine ⟨by simp [flag], fun _ magic cross => ?_, fun _ full => ?_⟩
                · have := holds (.inr ⟨crossed.mpr cross, magic⟩)
                  omega
                · have := holds (.inl full)
                  by_contra missed
                  have one : s.2.missed = 1 := by simpa [Chunk.missed] using missed
                  have := counter.mp full
                  omega
              · rintro fits (full | ⟨cross, magic⟩)
                · have none : s.2.missed = 0 := by simp [Chunk.missed, fits.longest flag full]
                  have := counter.mp full
                  omega
                · have enough := fits.magic flag magic (crossed.mp cross)
                  have bound : s.2.missed ≤ 1 := by
                    unfold Chunk.missed
                    split <;> decide
                  refine ⟨by omega, ?_⟩
                  by_cases full : s.1.case0 = true
                  · have none : s.2.missed = 0 := by simp [Chunk.missed, fits.longest flag full]
                    omega
                  · have := mt counter.mpr full
                    omega

theorem Rbhash.AfterReset.chunk_inv (s : Rbhash) (reset : s.AfterReset) : ChunkInv (s, Chunk.start) :=
  ⟨fun behind => absurd (reset.rbD1.symm.trans behind) (by decide), by simp [Chunk.start],
    fun _ _ cutBefore => absurd rfl cutBefore⟩

theorem rbhash_chunks_iff (start : Rbhash) (reset : start.AfterReset) (inputs : List RbhashIn) :
    Clocked.Admits Rbhash.stepChunk ChunkBounds (start, Chunk.start) inputs ↔
      Clocked.Admits Rbhash.stepChunk BytesFit (start, Chunk.start) inputs :=
  Clocked.admits_congr Rbhash.stepChunk ChunkBounds BytesFit ChunkInv chunk_inv_step bounds_iff_fit
    (start, Chunk.start) inputs reset.chunk_inv

instance (s : Rbhash × Chunk) (i : RbhashIn) : Decidable (ChunkBounds s i) := inferInstanceAs (Decidable (_ → _))

def Rbhash.afterReset : Rbhash := ⟨.sIdle, true, 0, 0, 0, false, 0, false, true, 0⟩

def hashByte (dout : BitVec 64) : RbhashIn := ⟨true, 0x100, 0, false, false, false, false, true, dout, true⟩

structure PlainBytes (s : Rbhash × Chunk) (total n : ℕ) : Prop where
  running : s.1.state ≠ .sEnd
  rbD1 : s.1.rbD1 = false
  bufCnt : s.1.bufCnt.toNat = total
  rbCnt : s.1.rbCnt.toNat = n

theorem Rbhash.step_running (s : Rbhash) (i : RbhashIn) (more : i.mSrcLast = false) (running : s.state ≠ .sEnd) :
    (s.step i).state ≠ .sEnd := by
  change (s.comb i).stateN ≠ .sEnd
  cases state : s.state with
  | sIdle =>
      rw [comb, state]
      dsimp only
      split <;> decide
  | sRun =>
      rw [comb, state]
      dsimp only
      rw [if_neg (by simp [more])]
      split_ifs <;> simp
  | sWait =>
      rw [comb, state]
      dsimp only
      split <;> decide
  | sEnd => exact absurd state running

theorem plainBytes_run (s : Rbhash × Chunk) (total n : ℕ) (first : PlainBytes s total n) (more : ℕ) (short : n + more ≤ 8191)
    (fits : total + more < 2 ^ 20) :
    PlainBytes (Clocked.run Rbhash.stepChunk s (List.replicate more (hashByte 0))) (total + more) (n + more) := by
  induction more with
  | zero => exact first
  | succ more ih =>
      have before := ih (by omega) (by omega)
      rw [List.replicate_succ', Clocked.run_append, Clocked.run_cons, Clocked.run_nil]
      generalize Clocked.run Rbhash.stepChunk s (List.replicate more (hashByte 0)) = s at before
      have plain : s.1.cut (hashByte 0) = false := by
        have short : s.1.case0 = false := by
          rw [Bool.eq_false_iff]
          exact fun full => by have := s.1.case0_iff.mp full; have := before.rbCnt; omega
        simp [Rbhash.cut, short, RbhashIn.case2, hashByte]
      obtain ⟨counted, _, _⟩ := s.1.step_byte (hashByte 0) before.rbD1 before.running rfl plain
      refine ⟨s.1.step_running _ rfl before.running, plain, ?_, counted.trans (by rw [before.rbCnt]; rfl)⟩
      have add : (s.1.step (hashByte 0)).bufCnt = s.1.bufCnt + 1 := rfl
      change (s.1.step (hashByte 0)).bufCnt.toNat = total + (more + 1)
      rw [add, BitVec.toNat_add, before.bufCnt]
      exact Nat.mod_eq_of_lt (by change total + more + 1 < 2 ^ 20; omega)

theorem PlainBytes.cut (s : Rbhash × Chunk) (total n : ℕ) (plain : PlainBytes s total n) (full : total % 2048 = 2047) :
    s.1.cut (hashByte 0x78) = true := by
  have min : s.1.minFull = true := s.1.minFull_iff.mpr (by rw [plain.bufCnt, full])
  exact (s.1.cut_iff _ plain.running rfl).mpr (.inr ⟨s.1.case1_iff.mpr (.inr min), by decide⟩)

theorem plainBytes_start (more : ℕ) (short : more ≤ 8191) :
    PlainBytes (Clocked.run Rbhash.stepChunk (Rbhash.afterReset, Chunk.start) (List.replicate more (hashByte 0))) more more := by
  have run := plainBytes_run (Rbhash.afterReset, Chunk.start) 0 0 ⟨by decide, rfl, rfl, rfl⟩ more (by omega) (by omega)
  rwa [Nat.zero_add] at run

def noByte : RbhashIn := ⟨true, 0x100, 0, false, false, false, false, false, 0, false⟩

def firstChunk : List RbhashIn := List.replicate 2047 (hashByte 0) ++ [hashByte 0x78]
def secondChunk : List RbhashIn := noByte :: (List.replicate 2047 (hashByte 0) ++ [hashByte 0x78])

theorem rbhash_chunks_two_cuts :
    (Clocked.run Rbhash.stepChunk (Rbhash.afterReset, Chunk.start) firstChunk).1.rbD1 = true ∧
    (Clocked.run Rbhash.stepChunk (Rbhash.afterReset, Chunk.start) (firstChunk ++ secondChunk)).1.rbD1 = true ∧
    (Clocked.Admits Rbhash.stepChunk ChunkBounds (Rbhash.afterReset, Chunk.start) (firstChunk ++ secondChunk) ↔
      Clocked.Admits Rbhash.stepChunk BytesFit (Rbhash.afterReset, Chunk.start) (firstChunk ++ secondChunk)) := by
  have both := rbhash_chunks_iff Rbhash.afterReset ⟨rfl, rfl, rfl, rfl, rfl, rfl, rfl, rfl⟩ (firstChunk ++ secondChunk)
  refine ⟨?_, ?_, both⟩
  · rw [firstChunk, Clocked.run_append, Clocked.run_cons, Clocked.run_nil]
    have plain := plainBytes_start 2047 (by decide)
    generalize Clocked.run Rbhash.stepChunk (Rbhash.afterReset, Chunk.start) (List.replicate 2047 (hashByte 0)) = s at plain
    exact plain.cut s 2047 2047 rfl
  · rw [Clocked.run_append, firstChunk, Clocked.run_append, Clocked.run_cons, Clocked.run_nil, secondChunk, Clocked.run_cons,
      Clocked.run_append, Clocked.run_cons, Clocked.run_nil]
    have before := plainBytes_start 2047 (by decide)
    generalize Clocked.run Rbhash.stepChunk (Rbhash.afterReset, Chunk.start) (List.replicate 2047 (hashByte 0)) = s at before
    have first := before.cut s 2047 2047 rfl
    have running := (s.1.step (hashByte 0x78)).step_running noByte rfl (s.1.step_running _ rfl before.running)
    have counted : ((s.1.step (hashByte 0x78)).step noByte).bufCnt = s.1.bufCnt + 1 := rfl
    have cleared : ((s.1.step (hashByte 0x78)).step noByte).rbCnt = 0 := if_pos first
    have again : PlainBytes (Rbhash.stepChunk (Rbhash.stepChunk s (hashByte 0x78)) noByte) 2048 0 := by
      refine ⟨running, ?_, ?_, congrArg BitVec.toNat cleared⟩
      · change (s.1.step (hashByte 0x78)).cut noByte = false
        simp [Rbhash.cut, noByte]
      · change ((s.1.step (hashByte 0x78)).step noByte).bufCnt.toNat = 2048
        rw [counted, BitVec.toNat_add, before.bufCnt]
        rfl
    have plain := plainBytes_run _ 2048 0 again 2047 (by decide) (by decide)
    generalize Clocked.run Rbhash.stepChunk _ (List.replicate 2047 (hashByte 0)) = late at plain
    exact plain.cut late 4095 2047 rfl

-- The 2048th byte is a cut; the byte of the next period is one too, because
-- rb_min_passed is only cleared at the end of it.
theorem rbhash_one_byte_chunk : ¬ Clocked.Admits Rbhash.stepChunk ChunkBounds (Rbhash.afterReset, Chunk.start)
    (List.replicate 2047 (hashByte 0) ++ [hashByte 0x78, hashByte 0x78]) := by
  rw [Clocked.admits_append]
  rintro ⟨_, _, second, _⟩
  have before := plainBytes_start 2047 (by decide)
  generalize Clocked.run Rbhash.stepChunk (Rbhash.afterReset, Chunk.start) (List.replicate 2047 (hashByte 0)) = s
    at before second
  have full : s.1.minFull = true := s.1.minFull_iff.mpr (by rw [before.bufCnt])
  have passed : (s.1.step (hashByte 0x78)).rbMinPassed = true := by
    simp [Rbhash.step, before.rbD1, full, hashByte]
  have first : s.1.cut (hashByte 0x78) = true := before.cut s 2047 2047 rfl
  have again : (s.1.step (hashByte 0x78)).cut (hashByte 0x78) = true :=
    (Rbhash.cut_iff _ _ (s.1.step_running _ rfl before.running) rfl).mpr
      (.inr ⟨(Rbhash.case1_iff _).mpr (.inl passed), by decide⟩)
  have noted : s.1.note s.2 (hashByte 0x78) = ⟨some 0, false⟩ := if_pos first
  have long := second again 0 (by rw [Rbhash.stepChunk, Clocked.watch, noted]; rfl)
  omega

end SsAdma
