import SsAdma.PciLog

set_option autoImplicit false

namespace SsAdma

variable (mem : ℕ → BitVec 8)

def scanAt (len : ℤ) (j : ℕ) : PciAcq := ⟨j + 1, len - 1 - j, 0, [], List.range' 16 (j + 1)⟩

structure FirstMark (m : ℕ) : Prop where
  late : 16 ≤ m
  mark : mem m = 0xaa
  first : ∀ k, 16 ≤ k → k < m → mem k ≠ 0xaa

theorem scanAt_zero (len : ℤ) : PciAcq.advance ⟨0, len, 0, [], []⟩ = scanAt len 0 := by
  simp [PciAcq.advance, scanAt]

theorem scanAt_advance (len : ℤ) (j : ℕ) : (scanAt len j).advance = scanAt len (j + 1) := by
  have place : j + 1 + 1 + 15 = 16 + 1 * (j + 1) := by omega
  have left : len - 1 - j - 1 = len - 1 - (j + 1 : ℕ) := by omega
  rw [PciAcq.advance, scanAt, scanAt]
  dsimp only
  rw [place, ← List.range'_concat, left]

theorem scanAt_synced (len : ℤ) (j : ℕ) : (scanAt len j).synced mem = decide (mem (j + 16) = 0xaa) := by
  rw [PciAcq.synced, scanAt, Bool.beq_eq_decide_eq]

theorem scan_reaches (len : ℤ) (j : ℕ) (none : ∀ k, 16 ≤ k → k < j + 16 → mem k ≠ 0xaa) :
    Loop.Reaches (PciAcq.synced mem) PciAcq.advance (scanAt len 0) (scanAt len j) := by
  induction j with
  | zero => exact .here _
  | succ j ih =>
      have before := ih fun k late early => none k late (by omega)
      have goesOn : (scanAt len j).synced mem = false := by
        rw [scanAt_synced, decide_eq_false_iff_not]
        exact none (j + 16) (by omega) (by omega)
      refine before.trans _ _ _ _ _ (.step _ _ goesOn ?_)
      rw [scanAt_advance]
      exact .here _

theorem scan_never (len : ℤ) (none : ∀ k, 16 ≤ k → mem k ≠ 0xaa) :
    Loop.Never (PciAcq.synced mem) PciAcq.advance (scanAt len 0) := by
  refine Loop.never_of_invariant _ _ (fun s => ∃ j, s = scanAt len j) ?_ ?_ _ ⟨0, rfl⟩
  · rintro s ⟨j, rfl⟩
    rw [scanAt_synced, decide_eq_false_iff_not]
    exact none (j + 16) (by omega)
  · rintro s ⟨j, rfl⟩
    exact ⟨j + 1, scanAt_advance len j⟩

theorem mark_total : (∃ m, FirstMark mem m) ∨ ∀ k, 16 ≤ k → mem k ≠ 0xaa := by
  by_cases found : ∃ m, 16 ≤ m ∧ mem m = 0xaa
  · have least := Nat.find_spec found
    refine .inl ⟨Nat.find found, least.1, least.2, fun k late early mark => ?_⟩
    exact Nat.find_min found early ⟨late, mark⟩
  · exact .inr fun k late mark => found ⟨k, late, mark⟩

theorem scan_mark (len : ℤ) (m : ℕ) (mark : FirstMark mem m) :
    Loop.Reaches (PciAcq.synced mem) PciAcq.advance (scanAt len 0) (scanAt len (m - 16)) ∧
      (scanAt len (m - 16)).synced mem = true := by
  have place : m - 16 + 16 = m := Nat.sub_add_cancel mark.late
  refine ⟨scan_reaches mem len _ fun k late early => mark.first k late (by omega), ?_⟩
  rw [scanAt_synced, place, decide_eq_true_eq]
  exact mark.mark

def PciAcq.after (s : PciAcq) (i : ℕ) : PciAcq where
  buf := s.buf + 16 * i
  len := s.len - (16 * i : ℕ)
  cnt := s.cnt + i
  fp := s.fp ++ (List.range i).flatMap fun j => recordLines (s.cnt + j) fun y => mem (s.buf + 16 * j + y)
  reads := s.reads ++ List.range' s.buf (16 * i)

theorem PciAcq.after_zero (s : PciAcq) : s.after mem 0 = s := by
  simp [after]

theorem PciAcq.after_record (s : PciAcq) (i : ℕ) (trailer : mem (s.buf + 16 * i + 15) = 0xaa) :
    (s.after mem i).record mem = s.after mem (i + 1) := by
  have left : s.len - (16 * i : ℕ) - 16 = s.len - (16 * (i + 1) : ℕ) := by omega
  have reads : List.range' s.buf (16 * i) ++ List.range' (s.buf + 16 * i) 16 = List.range' s.buf (16 * (i + 1)) := by
    rw [List.range'_append_1, Nat.mul_succ]
  rw [record, if_neg (by simp [after, trailer]), after, after]
  dsimp only
  rw [left, List.append_assoc s.reads, reads, List.range_succ, List.flatMap_append, List.flatMap_singleton,
    List.append_assoc s.fp, List.append_assoc s.fp, List.append_assoc]
  rfl

theorem PciAcq.after_reaches (s : PciAcq) (i : ℕ)
    (good : ∀ j < i, 16 * j + 16 < s.len ∧ mem (s.buf + 16 * j + 15) = 0xaa) :
    Loop.Reaches finished (record mem) s (s.after mem i) := by
  induction i with
  | zero =>
      rw [after_zero]
      exact .here s
  | succ i ih =>
      have before := ih fun j early => good j (by omega)
      obtain ⟨more, trailer⟩ := good i (by omega)
      have goesOn : (s.after mem i).finished = false := by
        have long : ¬ s.len - (16 * i : ℕ) ≤ 16 := by omega
        exact decide_eq_false long
      refine before.trans _ _ _ _ _ (.step _ _ goesOn ?_)
      rw [after_record mem s i trailer]
      exact .here _

theorem PciAcq.record_never (s : PciAcq) (more : 16 < s.len) (wrong : mem (s.buf + 15) ≠ 0xaa) :
    Loop.Never finished (record mem) s := by
  refine Loop.never_of_invariant _ _ (fun t => t.buf = s.buf ∧ t.len = s.len) ?_ ?_ s ⟨rfl, rfl⟩
  · rintro t ⟨_, len⟩
    simp only [finished, decide_eq_false_iff_not]
    omega
  · rintro t ⟨buf, len⟩
    rw [record, if_pos (by rw [buf]; exact wrong)]
    exact ⟨buf, len⟩

structure Framed (len : ℤ) (part records : ℕ) : Prop where
  short : part < 16
  whole : len = (part + 16 * records : ℕ)
  last : 0 < records → mem (part + 16 * records - 1) = 0xaa

def wanted (sync part records : ℕ) : List ℕ :=
  (((List.range records).map (part + 16 * ·)).filter (sync ≤ ·)).filter fun start => mem (start + 15) = 0xaa

def dump (starts : List ℕ) : List VcdLine := starts.zipIdx.flatMap fun p => recordLines p.2 fun y => mem (p.1 + y)

def Decodes (len : ℤ) : Prop :=
  ∃ fuel s t, pciacqSync mem fuel len = some s ∧ pciacq_insert mem fuel len = some t ∧ (∀ k ∈ t.reads, (k : ℤ) < len) ∧
    ∀ part records, Framed mem len part records → t.fp = dump mem (wanted mem s.buf part records)

def Trailers (len : ℤ) (m : ℕ) : Prop := ∀ i : ℕ, (m + 16 * i + 1 : ℕ) < len → mem (m + 16 * i) = 0xaa

structure Disguised (m off : ℕ) (len : ℤ) : Prop where
  misplaced : off ≠ 0
  trailer : ∀ i : ℕ, (m + 16 * i + 1 : ℕ) < len → mem (m + off + 16 * i) = 0xaa
  alike : ∀ i : ℕ, (m + 16 * i + 1 : ℕ) < len →
    Alike (fun y => mem (m - 15 + 16 * i + y)) fun y => mem (m - 15 + off + 16 * i + y)

theorem starts_behind (sync part records first count : ℕ) (short : part < 16)
    (whole : part + 16 * records = first + 16 * count) (low : sync ≤ first) (high : first < sync + 16) :
    ((List.range records).map (part + 16 * ·)).filter (sync ≤ ·) = (List.range count).map (first + 16 * ·) := by
  obtain ⟨before, rfl⟩ : ∃ before, records = before + count := ⟨records - count, by omega⟩
  have skipped : ((List.range before).map (part + 16 * ·)).filter (sync ≤ ·) = [] := by
    refine List.filter_eq_nil_iff.mpr fun start member => ?_
    obtain ⟨j, inside, rfl⟩ := List.mem_map.mp member
    have bound := List.mem_range.mp inside
    simp only [decide_eq_true_eq]
    omega
  have places : ((List.range count).map (before + ·)).map (part + 16 * ·) = (List.range count).map (first + 16 * ·) := by
    rw [List.map_map]
    refine List.map_congr_left fun i _ => ?_
    simp only [Function.comp_apply]
    omega
  rw [List.range_add, List.map_append, List.filter_append, skipped, List.nil_append, places]
  refine List.filter_eq_self.mpr fun start member => ?_
  obtain ⟨i, _, rfl⟩ := List.mem_map.mp member
  simp only [decide_eq_true_eq]
  omega

theorem flatMap_same {A B C : Type} (f : A → List C) (g : B → List C) (width : ℕ) (positive : 0 < width) (first : List A)
    (second : List B) (left : ∀ a, (f a).length = width) (right : ∀ b, (g b).length = width) :
    first.flatMap f = second.flatMap g ↔ first.map f = second.map g := by
  have lengths {A : Type} (f : A → List C) (all : ∀ a, (f a).length = width) (l : List A) :
      (l.map f).map List.length = List.replicate l.length width := by
    rw [List.map_map, List.eq_replicate_iff]
    refine ⟨List.length_map _, fun n member => ?_⟩
    obtain ⟨a, _, rfl⟩ := List.mem_map.mp member
    exact all a
  rw [List.flatMap_def, List.flatMap_def, List.eq_iff_flatten_eq]
  refine ⟨fun same => ⟨same, ?_⟩, fun both => both.1⟩
  have total := congrArg List.length same
  rw [List.length_flatten, List.length_flatten, lengths f left, lengths g right, List.sum_replicate_nat, List.sum_replicate_nat] at total
  rw [lengths f left, lengths g right, Nat.eq_of_mul_eq_mul_right positive total]

theorem recordLines_length (cnt : ℕ) (buf : ℕ → BitVec 8) : (recordLines cnt buf).length = 32 := by
  rw [recordLines, List.length_cons, recordChanges, changes_length]
  rfl

theorem recordLines_same (cnt : ℕ) (a b : ℕ → BitVec 8) : recordLines cnt a = recordLines cnt b ↔ Alike a b := by
  rw [recordLines, recordLines, List.cons.injEq, recordChanges_same, eq_self_iff_true, true_and]

def passes (n m : ℕ) : ℕ := (n - m + 14) / 16

theorem lt_passes (n m i : ℕ) (inside : m < n) : i < passes n m ↔ m + 16 * i + 1 < n := by
  rw [passes]
  omega

theorem map_zipIdx {A B : Type} (f : ℕ → A) (g : A × ℕ → B) (count : ℕ) :
    (((List.range count).map f).zipIdx).map g = (List.range count).map fun i => g (f i, i) := by
  refine List.ext_getElem (by simp) fun i _ _ => ?_
  simp

theorem filter_self {A : Type} (keep : A → Bool) (f : ℕ → A) (count : ℕ) :
    ((List.range count).map f).filter keep = (List.range count).map f ↔ ∀ i < count, keep (f i) = true := by
  simp [List.filter_eq_self]

theorem written_wanted (n m part records : ℕ) (framed : Framed mem n part records) (mark : FirstMark mem m) (inside : m < n)
    (trailers : Trailers mem n m) :
    ((List.range (passes n m)).flatMap fun i => recordLines i fun y => mem (m - 15 + 16 * i + y)) =
        dump mem (wanted mem (m - 15) part records) ↔ Disguised mem m ((n - 1 - m) % 16) n := by
  have late := mark.late
  have short := framed.short
  have whole : n = part + 16 * records := Int.ofNat_inj.mp framed.whole
  have last : mem (n - 1) = 0xaa := by
    rw [whole]
    exact framed.last (by omega)
  generalize offEq : (n - 1 - m) % 16 = off
  generalize countEq : (n - 1 - m) / 16 + 1 = count
  have starts := starts_behind (m - 15) part records (m - 15 + off) count short (by omega) (by omega) (by omega)
  rw [dump, flatMap_same _ _ 32 (by decide) _ _ (fun _ => recordLines_length _ _) fun _ => recordLines_length _ _, wanted, starts]
  by_cases step : off = 0
  · have all := (filter_self (fun start => decide (mem (start + 15) = 0xaa)) (m - 15 + off + 16 * ·) count).mpr fun i below => by
      have place : m - 15 + off + 16 * i + 15 = m + 16 * i := by omega
      rw [decide_eq_true_eq, place]
      by_cases before : m + 16 * i + 1 < n
      · exact trailers i (Int.ofNat_lt.mpr before)
      · have place : m + 16 * i = n - 1 := by omega
        rw [place, last]
    refine iff_of_false (fun same => ?_) fun disguised => disguised.misplaced step
    have lengths := congrArg List.length same
    rw [all, map_zipIdx, List.length_map, List.length_map, List.length_range, List.length_range, passes] at lengths
    omega
  · have equal : passes n m = count := by
      rw [passes]
      omega
    constructor
    · intro same
      have lengths := congrArg List.length same
      rw [List.length_map, List.length_range, List.length_map, List.length_zipIdx, equal] at lengths
      have kept := List.length_filter_eq_length_iff.mp (lengths.symm.trans (by simp))
      have all := List.filter_eq_self.mpr kept
      rw [all, map_zipIdx, equal] at same
      have each := List.map_inj_left.mp same
      have below (i : ℕ) (before : (m + 16 * i + 1 : ℕ) < (n : ℤ)) : i < count := by omega
      refine ⟨step, fun i before => ?_, fun i before => ?_⟩
      · have place : m + off + 16 * i = m - 15 + off + 16 * i + 15 := by omega
        rw [place]
        exact of_decide_eq_true (kept _ (List.mem_map_of_mem (List.mem_range.mpr (below i before))))
      · exact (recordLines_same i _ _).mp (each i (List.mem_range.mpr (below i before)))
    · intro disguised
      have all := (filter_self (fun start => decide (mem (start + 15) = 0xaa)) (m - 15 + off + 16 * ·) count).mpr fun i below => by
        have place : m - 15 + off + 16 * i + 15 = m + off + 16 * i := by omega
        rw [decide_eq_true_eq, place]
        exact disguised.trailer i (Int.ofNat_lt.mpr (by omega))
      rw [all, map_zipIdx, equal]
      refine List.map_congr_left fun i member => (recordLines_same i _ _).mpr (disguised.alike i ?_)
      have below := List.mem_range.mp member
      exact Int.ofNat_lt.mpr (by omega)

theorem trailers_total (len : ℤ) (m : ℕ) :
    Trailers mem len m ∨ ∃ i : ℕ, (m + 16 * i + 1 : ℕ) < len ∧ mem (m + 16 * i) ≠ 0xaa ∧ ∀ j < i, mem (m + 16 * j) = 0xaa := by
  by_cases found : ∃ i : ℕ, (m + 16 * i + 1 : ℕ) < len ∧ mem (m + 16 * i) ≠ 0xaa
  · obtain ⟨before, wrong⟩ := Nat.find_spec found
    refine .inr ⟨Nat.find found, before, wrong, fun j early => ?_⟩
    by_contra other
    exact Nat.find_min found early ⟨by omega, other⟩
  · exact .inl fun i before => by_contra fun other => found ⟨i, before, other⟩

theorem records_never (len : ℤ) (m i : ℕ) (late : 16 ≤ m) (before : (m + 16 * i + 1 : ℕ) < len)
    (wrong : mem (m + 16 * i) ≠ 0xaa) (good : ∀ j < i, mem (m + 16 * j) = 0xaa) :
    Loop.Never PciAcq.finished (PciAcq.record mem) (scanAt len (m - 16)) := by
  have place (j : ℕ) : m - 16 + 1 + 16 * j + 15 = m + 16 * j := by omega
  refine Loop.never_of_reaches _ _ _ _ (PciAcq.after_reaches mem _ i fun j early => ⟨?_, ?_⟩) (PciAcq.record_never mem _ ?_ ?_)
  · simp only [scanAt]
    omega
  · rw [scanAt, place]
    exact good j early
  · simp only [scanAt, PciAcq.after]
    omega
  · rw [scanAt, PciAcq.after, place]
    exact wrong

theorem records_run (n m : ℕ) (late : 16 ≤ m) (inside : m < n) (trailers : Trailers mem n m) :
    Loop.Reaches PciAcq.finished (PciAcq.record mem) (scanAt n (m - 16)) ((scanAt n (m - 16)).after mem (passes n m)) ∧
      ((scanAt n (m - 16)).after mem (passes n m)).finished = true := by
  refine ⟨PciAcq.after_reaches mem _ _ fun j early => ?_, ?_⟩
  · have below := (lt_passes n m j inside).mp early
    have place : m - 16 + 1 + 16 * j + 15 = m + 16 * j := by omega
    refine ⟨?_, ?_⟩
    · simp only [scanAt]
      omega
    · rw [scanAt, place]
      exact trailers j (Int.ofNat_lt.mpr below)
  · have done := (lt_passes n m (passes n m) inside).mpr.mt (Nat.lt_irrefl _)
    refine decide_eq_true ?_
    simp only [PciAcq.after, scanAt]
    omega

theorem after_written (n m i : ℕ) (late : 16 ≤ m) :
    ((scanAt n (m - 16)).after mem i).fp = (List.range i).flatMap fun j => recordLines j fun y => mem (m - 15 + 16 * j + y) := by
  have place : m - 16 + 1 = m - 15 := by omega
  simp only [PciAcq.after, scanAt, List.nil_append, Nat.zero_add, place]

theorem mark_read (len : ℤ) (m : ℕ) (late : 16 ≤ m) : m ∈ (scanAt len (m - 16)).reads := by
  rw [scanAt, List.mem_range'_1]
  omega

theorem stopped_outside (len : ℤ) (m : ℕ) (late : 16 ≤ m) (outside : len ≤ m) : (scanAt len (m - 16)).finished = true := by
  refine decide_eq_true ?_
  simp only [scanAt]
  omega

theorem after_inside (n m : ℕ) (late : 16 ≤ m) (inside : m < n) :
    ∀ k ∈ ((scanAt n (m - 16)).after mem (passes n m)).reads, k < n := by
  intro k member
  simp only [PciAcq.after, scanAt, List.mem_append, List.mem_range'_1, passes] at member
  omega

theorem insert_run (n m : ℕ) (mark : FirstMark mem m) (inside : m < n) (trailers : Trailers mem n m) :
    ∃ fuel, pciacqSync mem fuel n = some (scanAt n (m - 16)) ∧
      pciacq_insert mem fuel n = some ((scanAt n (m - 16)).after mem (passes n m)) := by
  obtain ⟨reached, stopped⟩ := scan_mark mem n m mark
  obtain ⟨last, finished⟩ := records_run mem n m mark.late inside trailers
  obtain ⟨scanFuel, synced⟩ := Loop.run_of_reaches _ _ _ _ reached stopped
  obtain ⟨recordFuel, result⟩ := Loop.run_of_reaches _ _ _ _ last finished
  have enough : pciacqSync mem (max scanFuel recordFuel) n = some (scanAt n (m - 16)) := by
    rw [pciacqSync, scanAt_zero]
    exact Loop.run_mono _ _ _ _ _ _ synced (Nat.le_max_left _ _)
  refine ⟨max scanFuel recordFuel, enough, ?_⟩
  rw [pciacq_insert, enough, Option.bind_some]
  exact Loop.run_mono _ _ _ _ _ _ result (Nat.le_max_right _ _)

theorem insert_result (len : ℤ) (fuel : ℕ) (s t : PciAcq) (synced : pciacqSync mem fuel len = some s)
    (result : pciacq_insert mem fuel len = some t) (reads : ∀ k ∈ t.reads, (k : ℤ) < len) :
    ∃ n m, len = (n : ℕ) ∧ FirstMark mem m ∧ m < n ∧ Trailers mem n m ∧ s = scanAt n (m - 16) ∧
      t = (scanAt n (m - 16)).after mem (passes n m) := by
  rw [pciacq_insert, synced, Option.bind_some] at result
  rw [pciacqSync, scanAt_zero] at synced
  rcases mark_total mem with ⟨m, mark⟩ | none
  · have late := mark.late
    obtain ⟨reached, stopped⟩ := scan_mark mem len m mark
    rw [Loop.run_unique _ _ _ _ s reached stopped fuel synced] at result ⊢
    have inside : (m : ℤ) < len := by
      by_contra outside
      rw [Loop.run_stopped _ _ _ _ (stopped_outside len m late (by omega))] at result
      rw [← Option.some.inj result] at reads
      exact outside (reads m (mark_read len m late))
    obtain ⟨n, rfl⟩ := Int.eq_ofNat_of_zero_le (by omega : 0 ≤ len)
    rcases trailers_total mem n m with trailers | ⟨i, before, wrong, good⟩
    · obtain ⟨last, finished⟩ := records_run mem n m late (by omega) trailers
      exact ⟨n, m, rfl, mark, by omega, trailers, rfl, Loop.run_unique _ _ _ _ t last finished fuel result⟩
    · have never := records_never mem n m i late before wrong good
      exact absurd ((never fuel).symm.trans result) (by simp)
  · exact absurd ((scan_never mem len none fuel).symm.trans synced) (by simp)

theorem emits_iff (n m : ℕ) (mark : FirstMark mem m) (inside : m < n) (trailers : Trailers mem n m) :
    (∀ part records, Framed mem n part records → ((scanAt n (m - 16)).after mem (passes n m)).fp =
        dump mem (wanted mem (scanAt n (m - 16)).buf part records)) ↔
      (mem (n - 1) = 0xaa → Disguised mem m ((n - 1 - m) % 16) n) := by
  have late := mark.late
  have place : (scanAt n (m - 16)).buf = m - 15 := by
    simp only [scanAt]
    omega
  rw [after_written mem n m _ late, place]
  constructor
  · intro emits trailer
    have last : n % 16 + 16 * (n / 16) - 1 = n - 1 := by omega
    have framed : Framed mem n (n % 16) (n / 16) := ⟨by omega, by omega, fun _ => by rw [last, trailer]⟩
    exact (written_wanted mem n m _ _ framed mark inside trailers).mp (emits _ _ framed)
  · intro disguised part records framed
    have whole : n = part + 16 * records := Int.ofNat_inj.mp framed.whole
    have short := framed.short
    have trailer := framed.last (by omega)
    rw [← whole] at trailer
    exact (written_wanted mem n m part records framed mark inside trailers).mpr (disguised trailer)

theorem pciacq_insert_iff (len : ℤ) :
    Decodes mem len ↔ ∃ n m : ℕ, len = n ∧ FirstMark mem m ∧ m < n ∧ Trailers mem n m ∧
      (mem (n - 1) = 0xaa → Disguised mem m ((n - 1 - m) % 16) n) := by
  constructor
  · rintro ⟨fuel, s, t, synced, result, reads, emits⟩
    obtain ⟨n, m, rfl, mark, inside, trailers, rfl, rfl⟩ := insert_result mem len fuel s t synced result reads
    exact ⟨n, m, rfl, mark, inside, trailers, (emits_iff mem n m mark inside trailers).mp emits⟩
  · rintro ⟨n, m, rfl, mark, inside, trailers, disguised⟩
    obtain ⟨fuel, synced, result⟩ := insert_run mem n m mark inside trailers
    refine ⟨fuel, _, _, synced, result, fun k member => ?_, (emits_iff mem n m mark inside trailers).mpr disguised⟩
    exact Int.ofNat_lt.mpr (after_inside mem n m mark.late inside k member)

def oneRecord (k : ℕ) : BitVec 8 := if k = 16 then 0xaa else 0

-- The scan stops at the whole record, and nothing is written.
theorem last_record_dropped : ¬ Decodes oneRecord 17 := by
  rintro ⟨fuel, s, t, synced, result, reads, emits⟩
  obtain ⟨n, m, whole, mark, inside, _, rfl, rfl⟩ := insert_result oneRecord 17 fuel s t synced result reads
  obtain rfl : n = 17 := by omega
  obtain rfl : m = 16 := Nat.le_antisymm (by omega) mark.late
  have framed : Framed oneRecord 17 1 1 := ⟨by decide, rfl, fun _ => rfl⟩
  have found : wanted oneRecord 1 1 1 = [1] := by decide
  have none := emits 1 1 framed
  rw [after_written oneRecord 17 16 _ (by decide)] at none
  have lengths := congrArg List.length none
  simp [passes, scanAt, found, dump, recordLines_length] at lengths

end SsAdma
