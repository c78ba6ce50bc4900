import Mathlib.Tactic.FinCases
import SsAdma.Mixer

set_option autoImplicit false

namespace SsAdma

def gntAt (requests : ℕ → Fin 5 → Bool) (edges : ℕ) : BitVec 5 :=
  Clocked.run arbiterNext (grant 0) ((List.range edges).map requests)

def grantMoves (requests : ℕ → Fin 5 → Bool) (start : ℕ) : ℕ → ℕ
  | 0 => 0
  | edges + 1 =>
      grantMoves requests start edges +
        if gntAt requests (start + edges + 1) = gntAt requests (start + edges) then 0 else 1

def behind (i owner : Fin 5) : ℕ := (i - owner).val

def cyclicOrder (j : Fin 5) : List (Fin 5) := [j + 1, j + 2, j + 3, j + 4]

theorem grant_injective (k j : Fin 5) (same : grant k = grant j) : k = j := by
  revert k j
  decide

theorem gntAt_succ (requests : ℕ → Fin 5 → Bool) (t : ℕ) :
    gntAt requests (t + 1) = arbiterNext (gntAt requests t) (requests t) := by
  simp [gntAt, Clocked.run, List.range_succ]

theorem gntAt_oneHot (requests : ℕ → Fin 5 → Bool) (t : ℕ) : ∃ k, gntAt requests t = grant k := by
  induction t with
  | zero => exact ⟨0, rfl⟩
  | succ t ih =>
      obtain ⟨k, owner⟩ := ih
      rw [gntAt_succ, owner]
      exact arbiterNext_oneHot k (requests t)

-- The five chains are one chain, turned to start behind the owner.
theorem arbiterNext_grant (j : Fin 5) (wbsCyc : Fin 5 → Bool) :
    arbiterNext (grant j) wbsCyc =
      if wbsCyc j then grant j else firstRequest (grant j) wbsCyc (cyclicOrder j) := by
  have chain : arbiterNext (grant j) wbsCyc =
      if !wbsCyc j then firstRequest (grant j) wbsCyc (cyclicOrder j) else grant j := by
    fin_cases j <;> rfl
  rw [chain]
  cases wbsCyc j <;> rfl

theorem firstRequest_reaches (gnt : BitVec 5) (wbsCyc : Fin 5 → Bool) (i : Fin 5) (request : wbsCyc i = true)
    (order : List (Fin 5)) (member : i ∈ order) :
    ∃ k, firstRequest gnt wbsCyc order = grant k ∧ k ∈ order.takeWhile (· ≠ i) ++ [i] := by
  induction order with
  | nil => cases member
  | cons k rest ih =>
      by_cases here : k = i
      · subst here
        exact ⟨k, by simp [firstRequest, request], by simp⟩
      rw [firstRequest, List.takeWhile_cons_of_pos (by simpa using here)]
      cases served : wbsCyc k with
      | true => exact ⟨k, rfl, by simp⟩
      | false =>
          obtain ⟨next, granted, between⟩ := ih ((List.mem_cons.mp member).resolve_left (Ne.symm here))
          exact ⟨next, granted, List.mem_cons_of_mem _ between⟩

theorem cyclicOrder_complete (j i : Fin 5) (other : i ≠ j) : i ∈ cyclicOrder j := by
  revert j i
  decide

theorem cyclicOrder_nearer (j i k : Fin 5) (other : i ≠ j)
    (between : k ∈ (cyclicOrder j).takeWhile (· ≠ i) ++ [i]) : k ≠ j ∧ behind i k < behind i j := by
  revert j i k
  decide

theorem arbiterNext_ranked (i j : Fin 5) (wbsCyc : Fin 5 → Bool) (request : wbsCyc i = true) :
    (wbsCyc j = true ∧ arbiterNext (grant j) wbsCyc = grant j) ∨
      ∃ k, k ≠ j ∧ arbiterNext (grant j) wbsCyc = grant k ∧ behind i k < behind i j := by
  rw [arbiterNext_grant]
  cases owned : wbsCyc j with
  | true => exact .inl ⟨rfl, if_pos rfl⟩
  | false =>
      have other : i ≠ j := by
        rintro rfl
        simp [owned] at request
      obtain ⟨k, granted, between⟩ :=
        firstRequest_reaches (grant j) wbsCyc i request (cyclicOrder j) (cyclicOrder_complete j i other)
      obtain ⟨moved, nearer⟩ := cyclicOrder_nearer j i k other between
      exact .inr ⟨k, moved, by simpa using granted, nearer⟩

theorem grantMoves_ranked (requests : ℕ → Fin 5 → Bool) (i j : Fin 5) (start edges : ℕ)
    (owner : gntAt requests start = grant j) (held : ∀ s < edges, requests (start + s) i = true) :
    ∃ k, gntAt requests (start + edges) = grant k ∧
      grantMoves requests start edges + behind i k ≤ behind i j := by
  induction edges with
  | zero => exact ⟨j, owner, by simp [grantMoves]⟩
  | succ edges ih =>
      obtain ⟨k, now, ranked⟩ := ih fun s inside => held s (by omega)
      rw [grantMoves, ← Nat.add_assoc, gntAt_succ, now]
      rcases arbiterNext_ranked i k _ (held edges (by omega)) with ⟨_, stays⟩ | ⟨next, moved, granted, nearer⟩
      · exact ⟨k, stays, by rw [stays, if_pos rfl]; omega⟩
      · have changed : grant next ≠ grant k := fun same => moved (grant_injective next k same)
        exact ⟨next, granted, by rw [granted, if_neg changed]; omega⟩

theorem behind_zero (i k : Fin 5) (none : behind i k = 0) : k = i := by
  revert i k
  decide

theorem arbiter_fair (requests : ℕ → Fin 5 → Bool) :
    (∀ t, ∃ k, gntAt requests t = grant k) ∧
    (∀ t k, gntAt requests t = grant k → requests t k = true → gntAt requests (t + 1) = gntAt requests t) ∧
    (∀ t k i, gntAt requests t = grant k → requests t k = false → requests t i = true →
      gntAt requests (t + 1) ≠ gntAt requests t) ∧
    (∀ i j start edges, gntAt requests start = grant j → (∀ s < edges, requests (start + s) i = true) →
      grantMoves requests start edges ≤ (i - j).val ∧
      (grantMoves requests start edges = (i - j).val → gntAt requests (start + edges) = grant i)) := by
  refine ⟨gntAt_oneHot requests, ?_, ?_, ?_⟩
  · intro t k owner busy
    rw [gntAt_succ, owner, arbiterNext_grant, if_pos busy]
  · intro t k i owner released request
    rw [gntAt_succ, owner]
    rcases arbiterNext_ranked i k _ request with ⟨busy, _⟩ | ⟨next, moved, granted, _⟩
    · simp [released] at busy
    · rw [granted]
      exact fun same => moved (grant_injective next k same)
  · intro i j start edges owner held
    obtain ⟨k, now, ranked⟩ := grantMoves_ranked requests i j start edges owner held
    refine ⟨(Nat.le_add_right _ _).trans ranked, fun all => ?_⟩
    have arrived : behind i k = 0 := by
      rw [all] at ranked
      unfold behind at ranked ⊢
      omega
    rw [now, behind_zero i k arrived]

def crowded (t : ℕ) (k : Fin 5) : Bool := decide (k = 4) || decide (k.val = t + 1)

theorem arbiter_fair_crowded :
    (grantMoves crowded 0 4 = 4 ∧ gntAt crowded 3 = grant 3) ∧ gntAt crowded 4 = grant 4 :=
  ⟨by decide, ((arbiter_fair crowded).2.2.2 4 0 0 4 rfl (by decide)).2 (by decide)⟩

end SsAdma
