import Mathlib.Data.List.Basic

set_option autoImplicit false

namespace Clocked

variable {S I E G : Type}

def run (step : S → I → S) (start : S) (inputs : List I) : S := inputs.foldl step start

-- The environment may look at the registers of the current period before it
-- drives its inputs: every protocol assumption is such a predicate.
def Admits (step : S → I → S) (allowed : S → I → Prop) : S → List I → Prop
  | _, [] => True
  | state, input :: rest => allowed state input ∧ Admits step allowed (step state input) rest

instance admitsDecidable (step : S → I → S) (allowed : S → I → Prop) [∀ state input, Decidable (allowed state input)] :
    (start : S) → (inputs : List I) → Decidable (Admits step allowed start inputs)
  | _, [] => .isTrue trivial
  | start, input :: rest =>
      have := admitsDecidable step allowed (step start input) rest
      inferInstanceAs (Decidable (allowed start input ∧ Admits step allowed (step start input) rest))

def watch (step : S → I → S) (note : S → G → I → G) (pair : S × G) (input : I) : S × G :=
  (step pair.1 input, note pair.1 pair.2 input)

def Reachable (step : S → I → S) (allowed : S → I → Prop) (initial : S → Prop) (state : S) : Prop :=
  ∃ start inputs, initial start ∧ Admits step allowed start inputs ∧ run step start inputs = state

theorem run_nil (step : S → I → S) (start : S) : run step start [] = start := rfl

theorem run_cons (step : S → I → S) (start : S) (input : I) (rest : List I) :
    run step start (input :: rest) = run step (step start input) rest := rfl

theorem run_append (step : S → I → S) (start : S) (before after : List I) :
    run step start (before ++ after) = run step (run step start before) after := List.foldl_append

def trace (step : S → I → S) (emit : S → I → List E) : S → List I → List E
  | _, [] => []
  | state, input :: rest => emit state input ++ trace step emit (step state input) rest

theorem trace_script (step : S → I → S) (emit : S → I → List E) (allowed : S → I → Prop) (left : S → List E → Prop)
    (keep : ∀ state input script, left state script → allowed state input →
      ∃ rest, script = emit state input ++ rest ∧ left (step state input) rest)
    (start : S) (inputs : List I) (script : List E) (holds : left start script)
    (admitted : Admits step allowed start inputs) :
    ∃ rest, script = trace step emit start inputs ++ rest ∧ left (run step start inputs) rest := by
  induction inputs generalizing start script with
  | nil => exact ⟨script, rfl, holds⟩
  | cons input others ih =>
      obtain ⟨rest, now, next⟩ := keep start input script holds admitted.1
      obtain ⟨final, later, ended⟩ := ih (step start input) rest next admitted.2
      exact ⟨final, by rw [now, later, trace, List.append_assoc], ended⟩

theorem trace_script_iff (step : S → I → S) (emit : S → I → List E) (allowed : S → I → Prop) (left : S → List E → Prop)
    (keep : ∀ state input script, left state script → allowed state input →
      ∃ rest, script = emit state input ++ rest ∧ left (step state input) rest)
    (strays : ∀ state input script, left state script → ¬ allowed state input → ¬ emit state input <+: script)
    (start : S) (inputs : List I) (script : List E) (holds : left start script) :
    trace step emit start inputs <+: script ↔ Admits step allowed start inputs := by
  constructor
  · intro front
    induction inputs generalizing start script with
    | nil => trivial
    | cons input others ih =>
        have here : emit start input <+: script := (List.prefix_append _ _).trans front
        by_cases now : allowed start input
        · obtain ⟨rest, split, next⟩ := keep start input script holds now
          rw [split, trace, List.prefix_append_right_inj] at front
          exact ⟨now, ih (step start input) rest next front⟩
        · exact absurd here (strays start input script holds now)
  · intro admitted
    obtain ⟨rest, split, _⟩ := trace_script step emit allowed left keep start inputs script holds admitted
    exact ⟨rest, split.symm⟩

theorem admits_append (step : S → I → S) (allowed : S → I → Prop) (start : S) (before after : List I) :
    Admits step allowed start (before ++ after) ↔
      Admits step allowed start before ∧ Admits step allowed (run step start before) after := by
  induction before generalizing start with
  | nil => simp [Admits, run_nil]
  | cons input rest ih => simp [Admits, ih, run_cons, and_assoc]

theorem admits_free (step : S → I → S) (start : S) (inputs : List I) : Admits step (fun _ _ => True) start inputs := by
  induction inputs generalizing start with
  | nil => trivial
  | cons input rest ih => exact ⟨trivial, ih _⟩

theorem admits_congr (step : S → I → S) (left right : S → I → Prop) (inv : S → Prop)
    (keep : ∀ state input, inv state → inv (step state input))
    (agree : ∀ state, inv state → ∀ input, left state input ↔ right state input)
    (start : S) (inputs : List I) (holds : inv start) :
    Admits step left start inputs ↔ Admits step right start inputs := by
  induction inputs generalizing start with
  | nil => exact Iff.rfl
  | cons input rest ih => exact and_congr (agree start holds input) (ih _ (keep _ _ holds))

theorem run_watch (step : S → I → S) (note : S → G → I → G) (pair : S × G) (inputs : List I) :
    (run (watch step note) pair inputs).1 = run step pair.1 inputs := by
  induction inputs generalizing pair with
  | nil => rfl
  | cons input rest ih => exact ih (watch step note pair input)

theorem admits_watch (step : S → I → S) (note : S → G → I → G) (allowed : S → I → Prop) (pair : S × G) (inputs : List I) :
    Admits (watch step note) (fun pair input => allowed pair.1 input) pair inputs ↔ Admits step allowed pair.1 inputs := by
  induction inputs generalizing pair with
  | nil => exact Iff.rfl
  | cons input rest ih => exact and_congr_right fun _ => ih (watch step note pair input)

theorem invariant_run (step : S → I → S) (allowed : S → I → Prop) (inv : S → Prop)
    (keep : ∀ state input, inv state → allowed state input → inv (step state input))
    (start : S) (inputs : List I) (holds : inv start) (admitted : Admits step allowed start inputs) :
    inv (run step start inputs) := by
  induction inputs generalizing start with
  | nil => exact holds
  | cons input rest ih => exact ih _ (keep _ _ holds admitted.1) admitted.2

theorem admits_of_invariant (step : S → I → S) (allowed promised : S → I → Prop) (inv : S → Prop)
    (keep : ∀ state input, inv state → allowed state input → inv (step state input))
    (here : ∀ state input, inv state → allowed state input → promised state input)
    (start : S) (inputs : List I) (holds : inv start) (admitted : Admits step allowed start inputs) :
    Admits step promised start inputs := by
  induction inputs generalizing start with
  | nil => trivial
  | cons input rest ih => exact ⟨here _ _ holds admitted.1, ih _ (keep _ _ holds admitted.1) admitted.2⟩

theorem invariant_reachable (step : S → I → S) (allowed : S → I → Prop) (initial inv : S → Prop)
    (base : ∀ state, initial state → inv state)
    (keep : ∀ state input, inv state → allowed state input → inv (step state input))
    (state : S) (reached : Reachable step allowed initial state) : inv state := by
  obtain ⟨start, inputs, first, admitted, rfl⟩ := reached
  exact invariant_run step allowed inv keep start inputs (base start first) admitted

def Always (step : S → I → S) (good : S → Prop) : S → List I → Prop
  | state, [] => good state
  | state, input :: rest => good state ∧ Always step good (step state input) rest

instance alwaysDecidable (step : S → I → S) (good : S → Prop) [DecidablePred good] :
    (start : S) → (inputs : List I) → Decidable (Always step good start inputs)
  | start, [] => inferInstanceAs (Decidable (good start))
  | start, input :: rest =>
      have := alwaysDecidable step good (step start input) rest
      inferInstanceAs (Decidable (good start ∧ Always step good (step start input) rest))

theorem always_first (step : S → I → S) (good : S → Prop) (start : S) (inputs : List I)
    (holds : Always step good start inputs) : good start := by
  cases inputs with
  | nil => exact holds
  | cons input rest => exact holds.1

theorem always_last (step : S → I → S) (good : S → Prop) (start : S) (inputs : List I)
    (holds : Always step good start inputs) : good (run step start inputs) := by
  induction inputs generalizing start with
  | nil => exact holds
  | cons input rest ih => exact ih _ holds.2

theorem always_of_invariant (step : S → I → S) (allowed : S → I → Prop) (good inv : S → Prop)
    (keep : ∀ state input, inv state → allowed state input → inv (step state input))
    (here : ∀ state, inv state → good state)
    (start : S) (inputs : List I) (holds : inv start) (admitted : Admits step allowed start inputs) :
    Always step good start inputs := by
  induction inputs generalizing start with
  | nil => exact here start holds
  | cons input rest ih => exact ⟨here start holds, ih _ (keep _ _ holds admitted.1) admitted.2⟩

theorem always_iff_admits (step : S → I → S) (allowed : S → I → Prop) (good inv : S → Prop)
    (keep : ∀ state input, inv state → allowed state input → inv (step state input))
    (next : ∀ state input, inv state → good state → (good (step state input) ↔ allowed state input))
    (start : S) (inputs : List I) (holds : inv start) (first : good start) :
    Always step good start inputs ↔ Admits step allowed start inputs := by
  induction inputs generalizing start with
  | nil => exact iff_of_true first trivial
  | cons input rest ih =>
      have here := next start input holds first
      constructor
      · rintro ⟨_, later⟩
        have now := here.mp (always_first step good _ rest later)
        exact ⟨now, (ih _ (keep start input holds now) (here.mpr now)).mp later⟩
      · rintro ⟨now, later⟩
        exact ⟨first, (ih _ (keep start input holds now) (here.mpr now)).mpr later⟩

end Clocked
