import Mathlib.Data.BitVec
import SsAdma.Clocked

set_option autoImplicit false

namespace SsAdma

def half (w : BitVec 64) (k : ℕ) : BitVec 16 := w.extractLsb' (16 * k) 16

def wordOf (a b c d : BitVec 16) : BitVec 64 := d ++ c ++ b ++ a

def setHalf (w : BitVec 64) (cnt : BitVec 2) (data : BitVec 16) : BitVec 64 :=
  if cnt = 0 then wordOf data (half w 1) (half w 2) (half w 3)
  else if cnt = 1 then wordOf (half w 0) data (half w 2) (half w 3)
  else if cnt = 2 then wordOf (half w 0) (half w 1) data (half w 3)
  else wordOf (half w 0) (half w 1) (half w 2) data

structure CodeoutIn where
  enOutData : BitVec 16
  enOutValid : Bool
  enOutDone : Bool
  deOutData : BitVec 16
  deOutValid : Bool
  deOutDone : Bool
deriving DecidableEq, Repr

def CodeoutIn.dataI (dc : BitVec 24) (i : CodeoutIn) : BitVec 16 :=
  if dc[5] then i.enOutData.extractLsb' 0 8 ++ i.enOutData.extractLsb' 8 8 else i.deOutData

def CodeoutIn.validI (dc : BitVec 24) (i : CodeoutIn) : Bool := if dc[5] then i.enOutValid else i.deOutValid

def CodeoutIn.doneI (dc : BitVec 24) (i : CodeoutIn) : Bool := if dc[5] then i.enOutDone else i.deOutDone

-- Active low signals keep their n: putn and endn are true when idle.
structure Codeout where
  cnt : BitVec 2
  mDst : BitVec 64
  done : BitVec 2
  last : Bool
  putn : Bool
  endn : Bool
deriving DecidableEq, Repr

def Codeout.step (dc : BitVec 24) (s : Codeout) (i : CodeoutIn) : Codeout where
  cnt := if i.validI dc then s.cnt + 1 else s.cnt
  mDst := if i.validI dc then setHalf s.mDst s.cnt (i.dataI dc) else s.mDst
  done :=
    if i.doneI dc && s.done == 0 then 1
    else if s.done == 1 && s.putn == false then 3
    else s.done
  last := if s.done[0] then true else s.last
  putn := if i.validI dc && s.cnt == 3 then false else if s.done == 1 then false else true
  endn := if s.done == 3 then false else true

-- putn and endn have no reset branch; the edge under reset sets them. m_dst_r
-- leaves the reset as it was.
structure Codeout.AfterReset (s : Codeout) : Prop where
  cnt : s.cnt = 0
  done : s.done = 0
  last : s.last = false
  putn : s.putn = true
  endn : s.endn = true

structure CodeoutPins where
  mDst : BitVec 64
  mDstLast : Bool
  mDstPutn : Bool
  mEndn : Bool
deriving DecidableEq, Repr

def Codeout.pins (mEnable : Bool) (dc : BitVec 24) (s : Codeout) : Option CodeoutPins :=
  if mEnable && (dc[5] || dc[6]) then some ⟨s.mDst, s.last, s.putn, s.endn⟩ else none

def Codeout.puts (mEnable : Bool) (dc : BitVec 24) (s : Codeout) : List (Bool × BitVec 64) :=
  match s.pins mEnable dc with
  | some out => if out.mDstPutn then [] else [(out.mDstLast, out.mDst)]
  | none => []

def low (w : BitVec 64) (n : ℕ) : List (BitVec 16) := (List.range n).map (half w)

def Codeout.completes (dc : BitVec 24) (s : Codeout) (i : CodeoutIn) : Bool := i.validI dc && s.cnt == 3

structure Codeout.Filling (s : Codeout) : Prop where
  done : s.done = 0
  last : s.last = false

theorem Codeout.step_closed (dc : BitVec 24) (s : Codeout) (i : CodeoutIn) (closed : s.done = 3)
    (quiet : i.validI dc = false) : (s.step dc i).putn = true ∧ (s.step dc i).done = 3 := by
  simp [step, closed, quiet]

def Codeout.again (s : Codeout) : List (Bool × BitVec 64) := if s.putn then [(true, s.mDst)] else []

end SsAdma
