import Mathlib.Data.List.Nodup

set_option autoImplicit false

namespace TwoWay

variable {A : Type}

def Linked (back next : A → A) (before : A) : List A → A → Prop
  | [], _ => True
  | a :: rest, after => back a = before ∧ next a = rest.headD after ∧ Linked back next a rest after

theorem headD_append (xs ys : List A) (after : A) : (xs ++ ys).headD after = xs.headD (ys.headD after) := by
  cases xs <;> rfl

theorem linked_append (back next : A → A) (before : A) (xs ys : List A) (after : A) :
    Linked back next before (xs ++ ys) after ↔
      Linked back next before xs (ys.headD after) ∧ Linked back next (xs.getLastD before) ys after := by
  induction xs generalizing before with
  | nil => simp [Linked]
  | cons a rest ih =>
      rw [List.cons_append, Linked, Linked, ih, headD_append, List.getLastD_cons, and_assoc, and_assoc]

theorem Linked.congr {back next otherBack otherNext : A → A} {before : A} {xs : List A} {after : A}
    (linked : Linked back next before xs after) (sameBack : ∀ a ∈ xs, otherBack a = back a)
    (sameNext : ∀ a ∈ xs, otherNext a = next a) : Linked otherBack otherNext before xs after := by
  induction xs generalizing before with
  | nil => trivial
  | cons a rest ih =>
      obtain ⟨backward, forward, more⟩ := linked
      refine ⟨(sameBack a List.mem_cons_self).trans backward, (sameNext a List.mem_cons_self).trans forward, ?_⟩
      exact ih more (fun b member => sameBack b (List.mem_cons_of_mem a member)) fun b member => sameNext b (List.mem_cons_of_mem a member)

theorem Linked.turn {back next otherBack otherNext : A → A} {before after other : A} {xs : List A}
    (linked : Linked back next before xs after) (nodup : xs.Nodup) (sameBack : ∀ a ∈ xs, otherBack a = back a)
    (sameNext : ∀ a ∈ xs, a ≠ xs.getLastD before → otherNext a = next a)
    (last : xs ≠ [] → otherNext (xs.getLastD before) = other) : Linked otherBack otherNext before xs other := by
  induction xs generalizing before with
  | nil => trivial
  | cons a rest ih =>
      obtain ⟨backward, forward, more⟩ := linked
      obtain ⟨fresh, others⟩ := List.nodup_cons.mp nodup
      rw [List.getLastD_cons] at sameNext last
      have tail := ih more others (fun b member => sameBack b (List.mem_cons_of_mem a member))
        (fun b member => sameNext b (List.mem_cons_of_mem a member)) fun _ => last (by simp)
      refine ⟨(sameBack a List.mem_cons_self).trans backward, ?_, tail⟩
      cases rest with
      | nil => exact last (by simp)
      | cons b rest =>
          refine (sameNext a List.mem_cons_self ?_).trans forward
          intro same
          rw [List.getLastD_cons] at same
          exact fresh (same ▸ List.getLastD_mem_cons)

theorem Linked.restart {back next otherBack otherNext : A → A} {before other after : A} {xs : List A}
    (linked : Linked back next before xs after) (nodup : xs.Nodup) (sameNext : ∀ a ∈ xs, otherNext a = next a)
    (sameBack : ∀ a ∈ xs, xs.head? ≠ some a → otherBack a = back a) (first : ∀ a, xs.head? = some a → otherBack a = other) :
    Linked otherBack otherNext other xs after := by
  cases xs with
  | nil => trivial
  | cons a rest =>
      obtain ⟨_, forward, more⟩ := linked
      obtain ⟨fresh, _⟩ := List.nodup_cons.mp nodup
      refine ⟨first a rfl, (sameNext a List.mem_cons_self).trans forward, more.congr (fun b member => ?_) fun b member => ?_⟩
      · refine sameBack b (List.mem_cons_of_mem a member) ?_
        rintro head
        obtain rfl := Option.some.inj head
        exact fresh member
      · exact sameNext b (List.mem_cons_of_mem a member)

end TwoWay
