import Mathlib.Algebra.BigOperators.Group.List.Basic
import Mathlib.Data.BitVec
import Mathlib.Data.List.DropRight

set_option autoImplicit false

-- The Intel HEX format for 16-bit addresses: lines of characters, the records
-- they denote, and the memory the records denote.
namespace IntelHex

def digit (c : BitVec 8) : Option ℕ :=
  if 48 ≤ c.toNat ∧ c.toNat ≤ 57 then some (c.toNat - 48)
  else if 65 ≤ c.toNat ∧ c.toNat ≤ 70 then some (c.toNat - 55)
  else if 97 ≤ c.toNat ∧ c.toNat ≤ 102 then some (c.toNat - 87)
  else none

def bytes : List (BitVec 8) → Option (List (BitVec 8))
  | [] => some []
  | [_] => none
  | a :: b :: rest =>
      match digit a, digit b with
      | some x, some y => (bytes rest).map (BitVec.ofNat 8 (16 * x + y) :: ·)
      | _, _ => none

def isspace (c : BitVec 8) : Bool := c == 32 || (decide (9 ≤ c.toNat) && decide (c.toNat ≤ 13))

def strip (line : List (BitVec 8)) : List (BitVec 8) := line.rdropWhile isspace

structure Record where
  off : BitVec 16
  data : List (BitVec 8)
deriving DecidableEq, Repr

def fields (kind : BitVec 8) (r : Record) : List (BitVec 8) :=
  BitVec.ofNat 8 r.data.length :: r.off.extractLsb' 8 8 :: r.off.extractLsb' 0 8 :: kind :: r.data

structure IsRecord (line : List (BitVec 8)) (kind : BitVec 8) (r : Record) : Prop where
  short : r.data.length ≤ 255
  encoded : ∃ text check, strip line = 0x3a :: text ∧ bytes text = some (fields kind r ++ [check]) ∧
    (fields kind r).sum + check = 0

inductive File : Bool → List (List (BitVec 8)) → List Record → Prop
  | missing : File false [] []
  | ended (line : List (BitVec 8)) (r : Record) (rest : List (List (BitVec 8))) (record : IsRecord line 1 r) :
      File true (line :: rest) []
  | comment (closed : Bool) (line : List (BitVec 8)) (rest : List (List (BitVec 8))) (records : List Record)
      (hash : line.head? = some 0x23) (more : File closed rest records) : File closed (line :: rest) records
  | data (closed : Bool) (line : List (BitVec 8)) (r : Record) (rest : List (List (BitVec 8))) (records : List Record)
      (record : IsRecord line 0 r) (more : File closed rest records) : File closed (line :: rest) (r :: records)

-- Addresses are counted modulo 2^16.
def Record.byteAt (a : BitVec 16) (r : Record) : Option (BitVec 8) := r.data[(a - r.off).toNat]?

def store (mem : BitVec 16 → BitVec 8) (r : Record) (a : BitVec 16) : BitVec 8 := (r.byteAt a).getD (mem a)

def apply (mem : BitVec 16 → BitVec 8) (records : List Record) : BitVec 16 → BitVec 8 := records.foldl store mem

def denotes (records : List Record) (a : BitVec 16) : Option (BitVec 8) := records.reverse.findSome? (Record.byteAt a)

def Disjoint (records : List Record) : Prop :=
  records.Pairwise fun r s => ∀ a, r.byteAt a = none ∨ s.byteAt a = none

theorem apply_append (mem : BitVec 16 → BitVec 8) (first second : List Record) :
    apply mem (first ++ second) = apply (apply mem first) second := List.foldl_append

theorem apply_denotes (mem : BitVec 16 → BitVec 8) (records : List Record) (a : BitVec 16) :
    apply mem records a = (denotes records a).getD (mem a) := by
  induction records generalizing mem with
  | nil => rfl
  | cons r rest ih =>
      have step : apply mem (r :: rest) = apply (store mem r) rest := rfl
      rw [step, ih, denotes, denotes, List.reverse_cons, List.findSome?_append]
      cases rest.reverse.findSome? (Record.byteAt a) with
      | some byte => rfl
      | none => simp [store]

theorem findSome_disjoint (records : List Record) (disjoint : Disjoint records) (a : BitVec 16) :
    records.reverse.findSome? (Record.byteAt a) = records.findSome? (Record.byteAt a) := by
  induction records with
  | nil => rfl
  | cons r rest ih =>
      obtain ⟨apart, others⟩ := List.pairwise_cons.mp disjoint
      rw [List.reverse_cons, List.findSome?_append, ih others, List.findSome?_cons]
      cases here : r.byteAt a with
      | none => simp [here]
      | some byte =>
          have nowhere : rest.findSome? (Record.byteAt a) = none := by
            rw [List.findSome?_eq_none_iff]
            intro s member
            exact (apart s member a).resolve_left (by simp [here])
          simp [nowhere, here]

theorem byteAt_apart (r s : Record) (ordered : r.off.toNat + r.data.length ≤ s.off.toNat)
    (ends : s.off.toNat + s.data.length ≤ 2 ^ 16) (a : BitVec 16) : r.byteAt a = none ∨ s.byteAt a = none := by
  rw [Record.byteAt, Record.byteAt, List.getElem?_eq_none_iff, List.getElem?_eq_none_iff]
  have first := BitVec.toNat_sub a r.off
  have second := BitVec.toNat_sub a s.off
  have small := a.isLt
  omega

theorem store_split (mem : BitVec 16 → BitVec 8) (off : BitVec 16) (front back : List (BitVec 8)) :
    store mem ⟨off, front ++ back⟩ = store (store mem ⟨off + BitVec.ofNat 16 front.length, back⟩) ⟨off, front⟩ := by
  funext a
  simp only [store, Record.byteAt]
  by_cases inside : (a - off).toNat < front.length
  · rw [List.getElem?_append_left inside, List.getElem?_eq_getElem inside]
    rfl
  · rw [List.getElem?_append_right (by omega), List.getElem?_eq_none (l := front) (by omega), Option.getD_none]
    by_cases empty : back.length = 0
    · rw [List.getElem?_eq_none (by omega), List.getElem?_eq_none (by omega)]
    have moved : (a - (off + BitVec.ofNat 16 front.length)).toNat = (a - off).toNat - front.length := by
      have small : front.length < 2 ^ 16 := by omega
      have length : (BitVec.ofNat 16 front.length).toNat = front.length := Nat.mod_eq_of_lt small
      generalize BitVec.ofNat 16 front.length = n at length
      bv_omega
    rw [moved]

theorem bytes_cons (text : List (BitVec 8)) (b : BitVec 8) (more : List (BitVec 8)) (parsed : bytes text = some (b :: more)) :
    ∃ c d rest x y, text = c :: d :: rest ∧ digit c = some x ∧ digit d = some y ∧ b = BitVec.ofNat 8 (16 * x + y) ∧
      bytes rest = some more := by
  match text with
  | [] => simp [bytes] at parsed
  | [_] => simp [bytes] at parsed
  | c :: d :: rest =>
      rw [bytes] at parsed
      cases first : digit c with
      | none => simp [first] at parsed
      | some x =>
          cases second : digit d with
          | none => simp [first, second] at parsed
          | some y =>
              simp only [first, second, Option.map_eq_some_iff, List.cons.injEq] at parsed
              obtain ⟨_, tail, byte, rfl⟩ := parsed
              exact ⟨c, d, rest, x, y, rfl, first, second, byte.symm, tail⟩

theorem bytes_length (text parsedBytes : List (BitVec 8)) (parsed : bytes text = some parsedBytes) :
    text.length = 2 * parsedBytes.length := by
  induction parsedBytes generalizing text with
  | nil =>
      match text with
      | [] => rfl
      | [_] => simp [bytes] at parsed
      | c :: d :: rest =>
          cases first : digit c <;> cases second : digit d <;> simp [bytes, first, second] at parsed
  | cons b more ih =>
      obtain ⟨c, d, rest, x, y, rfl, _, _, _, tail⟩ := bytes_cons text b more parsed
      simp only [List.length_cons, ih rest tail]
      omega

theorem digit_cases (c : BitVec 8) (x : ℕ) (value : digit c = some x) :
    (48 ≤ c.toNat ∧ c.toNat ≤ 57 ∧ c.toNat = x + 48) ∨ (65 ≤ c.toNat ∧ c.toNat ≤ 70 ∧ c.toNat = x + 55) ∨
      (97 ≤ c.toNat ∧ c.toNat ≤ 102 ∧ c.toNat = x + 87) := by
  unfold digit at value
  split at value
  · obtain rfl := Option.some.inj value
    omega
  split at value
  · obtain rfl := Option.some.inj value
    omega
  split at value
  · obtain rfl := Option.some.inj value
    omega
  · cases value

theorem digit_lt (c : BitVec 8) (x : ℕ) (value : digit c = some x) : x < 16 := by
  rcases digit_cases c x value with decimal | upper | lower <;> omega

end IntelHex
