import Mathlib.Data.List.Basic

set_option autoImplicit false

namespace Loop

variable {S : Type}

def run (stop : S → Bool) (body : S → S) : ℕ → S → Option S
  | 0, s => if stop s then some s else none
  | fuel + 1, s => if stop s then some s else run stop body fuel (body s)

inductive Reaches (stop : S → Bool) (body : S → S) : S → S → Prop
  | here (s : S) : Reaches stop body s s
  | step (s t : S) (goesOn : stop s = false) (rest : Reaches stop body (body s) t) : Reaches stop body s t

def Never (stop : S → Bool) (body : S → S) (s : S) : Prop := ∀ fuel, run stop body fuel s = none

theorem run_stopped (stop : S → Bool) (body : S → S) (fuel : ℕ) (s : S) (stopped : stop s = true) :
    run stop body fuel s = some s := by
  cases fuel <;> rw [run, if_pos stopped]

theorem run_step (stop : S → Bool) (body : S → S) (fuel : ℕ) (s : S) (goesOn : stop s = false) :
    run stop body (fuel + 1) s = run stop body fuel (body s) := by
  rw [run, if_neg (by simp [goesOn])]

theorem run_zero (stop : S → Bool) (body : S → S) (s : S) (goesOn : stop s = false) : run stop body 0 s = none := by
  rw [run, if_neg (by simp [goesOn])]

theorem run_mono (stop : S → Bool) (body : S → S) (fuel more : ℕ) (s t : S) (result : run stop body fuel s = some t)
    (enough : fuel ≤ more) : run stop body more s = some t := by
  induction fuel generalizing s more with
  | zero =>
      cases stopped : stop s with
      | true => rwa [run_stopped stop body more s stopped, ← run_stopped stop body 0 s stopped]
      | false => exact absurd ((run_zero stop body s stopped).symm.trans result) (by simp)
  | succ fuel ih =>
      cases stopped : stop s with
      | true => rwa [run_stopped stop body more s stopped, ← run_stopped stop body (fuel + 1) s stopped]
      | false =>
          obtain ⟨rest, rfl⟩ : ∃ rest, more = rest + 1 := ⟨more - 1, by omega⟩
          rw [run_step stop body fuel s stopped] at result
          rw [run_step stop body rest s stopped]
          exact ih rest (body s) result (by omega)

theorem run_of_reaches (stop : S → Bool) (body : S → S) (s t : S) (reached : Reaches stop body s t)
    (stopped : stop t = true) : ∃ fuel, run stop body fuel s = some t := by
  induction reached with
  | here s => exact ⟨0, run_stopped stop body 0 s stopped⟩
  | step s t goesOn _ ih =>
      obtain ⟨fuel, result⟩ := ih stopped
      exact ⟨fuel + 1, (run_step stop body fuel s goesOn).trans result⟩

theorem run_unique (stop : S → Bool) (body : S → S) (s t u : S) (reached : Reaches stop body s t)
    (stopped : stop t = true) (fuel : ℕ) (result : run stop body fuel s = some u) : u = t := by
  induction reached generalizing fuel with
  | here s => exact (Option.some.inj ((run_stopped stop body fuel s stopped).symm.trans result)).symm
  | step s t goesOn _ ih =>
      cases fuel with
      | zero => exact absurd ((run_zero stop body s goesOn).symm.trans result) (by simp)
      | succ fuel => exact ih stopped fuel ((run_step stop body fuel s goesOn).symm.trans result)

theorem never_of_reaches (stop : S → Bool) (body : S → S) (s t : S) (reached : Reaches stop body s t)
    (never : Never stop body t) : Never stop body s := by
  induction reached with
  | here s => exact never
  | step s t goesOn _ ih =>
      intro fuel
      cases fuel with
      | zero => exact run_zero stop body s goesOn
      | succ fuel => exact (run_step stop body fuel s goesOn).trans (ih never fuel)

theorem never_of_invariant (stop : S → Bool) (body : S → S) (inv : S → Prop) (goesOn : ∀ s, inv s → stop s = false)
    (kept : ∀ s, inv s → inv (body s)) (s : S) (holds : inv s) : Never stop body s := by
  intro fuel
  induction fuel generalizing s with
  | zero => exact run_zero stop body s (goesOn s holds)
  | succ fuel ih => exact (run_step stop body fuel s (goesOn s holds)).trans (ih (body s) (kept s holds))

theorem never_of_fixed (stop : S → Bool) (body : S → S) (s : S) (goesOn : stop s = false) (fixed : body s = s) :
    Never stop body s := by
  refine never_of_invariant stop body (· = s) (fun t same => ?_) (fun t same => ?_) s rfl
  · rw [same, goesOn]
  · rw [same, fixed]

theorem Reaches.trans (stop : S → Bool) (body : S → S) (s t u : S) (first : Reaches stop body s t)
    (second : Reaches stop body t u) : Reaches stop body s u := by
  induction first with
  | here s => exact second
  | step s t goesOn _ ih => exact .step s u goesOn (ih second)

end Loop
