import Mathlib.Data.List.Basic

set_option autoImplicit false

-- A bounded queue whose two ends see each other's counter late: the reader
-- compares with the number of words pushed two edges ago, the writer with the
-- number popped two edges ago. Everything ever pushed is kept, so "what is in
-- the queue" is a drop of one list and order and multiplicity need no lemma.
structure DelayQueue (α : Type) (cap : Nat) where
  pushed : List α
  pushedOnce : Nat
  pushedTwice : Nat
  popped : Nat
  poppedOnce : Nat
  poppedTwice : Nat
  readsLag : poppedTwice ≤ poppedOnce ∧ poppedOnce ≤ popped ∧ popped ≤ poppedOnce + 1 ∧ poppedOnce ≤ poppedTwice + 1
  writesLag : pushedTwice ≤ pushedOnce ∧ pushedOnce ≤ pushed.length ∧
    pushed.length ≤ pushedOnce + 1 ∧ pushedOnce ≤ pushedTwice + 1
  noUnderflow : popped ≤ pushedTwice
  noOverflow : pushed.length ≤ poppedTwice + cap

namespace DelayQueue

variable {α : Type} {cap : Nat}

def nil : DelayQueue α cap where
  pushed := []
  pushedOnce := 0
  pushedTwice := 0
  popped := 0
  poppedOnce := 0
  poppedTwice := 0
  readsLag := by simp
  writesLag := by simp
  noUnderflow := by simp
  noOverflow := by simp

def full (q : DelayQueue α cap) : Bool := q.pushed.length = q.poppedTwice + cap
def empty (q : DelayQueue α cap) : Bool := q.popped = q.pushedTwice

theorem bounds (q : DelayQueue α cap) :
    q.poppedTwice ≤ q.popped ∧ q.popped ≤ q.pushedTwice ∧ q.pushedTwice ≤ q.pushedOnce ∧
      q.pushedOnce ≤ q.pushed.length ∧ q.pushed.length ≤ q.poppedTwice + cap := by
  have reads := q.readsLag
  have writes := q.writesLag
  have lower := q.noUnderflow
  have upper := q.noOverflow
  omega

def accepted (q : DelayQueue α cap) (put : Option α) : List α := if q.full then [] else put.toList
def taken (q : DelayQueue α cap) (get : Bool) : Nat := if get && !q.empty then 1 else 0

theorem accepted_length (q : DelayQueue α cap) (put : Option α) : (q.accepted put).length ≤ 1 := by
  unfold accepted
  cases put <;> split <;> simp

theorem accepted_room (q : DelayQueue α cap) (put : Option α) :
    q.pushed.length + (q.accepted put).length ≤ q.poppedTwice + cap := by
  have bound := q.noOverflow
  have short := q.accepted_length put
  by_cases full : q.pushed.length = q.poppedTwice + cap
  · simp [accepted, DelayQueue.full, full]
  · omega

theorem taken_bound (q : DelayQueue α cap) (get : Bool) : q.taken get ≤ 1 := by
  unfold taken
  split <;> omega

theorem taken_available (q : DelayQueue α cap) (get : Bool) : q.popped + q.taken get ≤ q.pushedTwice := by
  have bound := q.noUnderflow
  by_cases empty : q.popped = q.pushedTwice
  · simp [taken, DelayQueue.empty, empty]
  · have short := q.taken_bound get
    omega

def step (q : DelayQueue α cap) (put : Option α) (get : Bool) : DelayQueue α cap where
  pushed := q.pushed ++ q.accepted put
  pushedOnce := q.pushed.length
  pushedTwice := q.pushedOnce
  popped := q.popped + q.taken get
  poppedOnce := q.popped
  poppedTwice := q.poppedOnce
  readsLag := by
    have lag := q.readsLag
    have short := q.taken_bound get
    omega
  writesLag := by
    have lag := q.writesLag
    have short := q.accepted_length put
    rw [List.length_append]
    omega
  noUnderflow := by
    have lag := q.writesLag
    have available := q.taken_available get
    omega
  noOverflow := by
    have lag := q.readsLag
    have room := q.accepted_room put
    rw [List.length_append]
    omega

def ready (q : DelayQueue α cap) : Prop := q.popped < q.pushedOnce

instance (q : DelayQueue α cap) : Decidable q.ready := inferInstanceAs (Decidable (_ < _))

theorem not_empty_iff (q : DelayQueue α cap) : q.empty = false ↔ q.popped < q.pushedTwice := by
  have bounds := q.bounds
  simp only [empty, decide_eq_false_iff_not]
  omega

theorem ready_of_not_empty (q : DelayQueue α cap) (some : q.empty = false) : q.ready := by
  have bounds := q.bounds
  have seen := q.not_empty_iff.mp some
  unfold ready
  omega

theorem not_empty_step (q : DelayQueue α cap) (put : Option α) (get : Bool)
    (more : q.popped + q.taken get < q.pushedTwice) : (q.step put get).empty = false := by
  have bounds := q.bounds
  apply (q.step put get).not_empty_iff.mpr
  change q.popped + q.taken get < q.pushedOnce
  omega

theorem not_empty_kept (q : DelayQueue α cap) (put : Option α) (get : Bool) (some : q.empty = false)
    (untaken : q.taken get = 0) : (q.step put get).empty = false := by
  apply q.not_empty_step
  rw [untaken]
  exact q.not_empty_iff.mp some

theorem not_full_iff (q : DelayQueue α cap) : q.full = false ↔ q.pushed.length < q.poppedTwice + cap := by
  have bounds := q.bounds
  simp only [full, decide_eq_false_iff_not]
  omega

theorem step_quiet (q : DelayQueue α cap) (get : Bool) : (q.step none get).pushed = q.pushed := by
  simp [step, accepted]

theorem step_put (q : DelayQueue α cap) (a : α) (get : Bool) :
    (q.step (some a) get).pushed = if q.full then q.pushed else q.pushed ++ [a] := by
  change q.pushed ++ q.accepted _ = _
  unfold accepted
  cases q.full <;> simp

theorem accepted_not_full (q : DelayQueue α cap) (put : Option α) (room : q.full = false) : q.accepted put = put.toList := by
  simp [accepted, room]

theorem not_full_step (q : DelayQueue α cap) (put : Option α) (get : Bool)
    (room : q.pushed.length + (q.accepted put).length < q.poppedTwice + cap) : (q.step put get).full = false := by
  have lag := q.readsLag
  apply (q.step put get).not_full_iff.mpr
  change (q.pushed ++ q.accepted put).length < q.poppedOnce + cap
  rw [List.length_append]
  omega

theorem ready_step (q : DelayQueue α cap) (put : Option α) (get : Bool) :
    (q.step put get).ready ↔ q.popped + q.taken get < q.pushed.length := Iff.rfl

theorem ready_kept (q : DelayQueue α cap) (put : Option α) (get : Bool) (ready : q.ready) (untaken : q.taken get = 0) :
    (q.step put get).ready := by
  have bounds := q.bounds
  rw [ready_step, untaken]
  unfold DelayQueue.ready at ready
  omega

end DelayQueue
