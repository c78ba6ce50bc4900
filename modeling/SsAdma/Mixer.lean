import Mathlib.Data.BitVec
import Mathlib.Tactic.ByContra
import Mathlib.Tactic.FinCases
import SsAdma.Clocked

set_option autoImplicit false

namespace SsAdma

instance mastersNeZero : NeZero 5 := ⟨by decide⟩

-- gnt and the requests are {4,3,2,1,0}: masters 0 to 3 are the ss_sg engines,
-- master 4 is ctrl.
def grant (k : Fin 5) : BitVec 5 := BitVec.twoPow 5 k

def firstRequest (gnt : BitVec 5) (wbsCyc : Fin 5 → Bool) : List (Fin 5) → BitVec 5
  | [] => gnt
  | k :: rest => if wbsCyc k then grant k else firstRequest gnt wbsCyc rest

def arbiterNext (gnt : BitVec 5) (wbsCyc : Fin 5 → Bool) : BitVec 5 :=
  if gnt[0] then (if !wbsCyc 0 then firstRequest gnt wbsCyc [1, 2, 3, 4] else gnt)
  else if gnt[1] then (if !wbsCyc 1 then firstRequest gnt wbsCyc [2, 3, 4, 0] else gnt)
  else if gnt[2] then (if !wbsCyc 2 then firstRequest gnt wbsCyc [3, 4, 0, 1] else gnt)
  else if gnt[3] then (if !wbsCyc 3 then firstRequest gnt wbsCyc [4, 0, 1, 2] else gnt)
  else if gnt[4] then (if !wbsCyc 4 then firstRequest gnt wbsCyc [0, 1, 2, 3] else gnt)
  else gnt

-- mo and mo32 select with the delayed grant. With no bit set mo floats and
-- mo32 drives zero; the grant is one-hot, so undriven is never selected.
def mo {α : Type} (gntR : BitVec 5) (i : Fin 5 → α) (undriven : α) : α :=
  if gntR[4] then i 4
  else if gntR[3] then i 3
  else if gntR[2] then i 2
  else if gntR[1] then i 1
  else if gntR[0] then i 0
  else undriven

-- mi has a gnt_r register too, and selects with gnt.
def mi (gnt : BitVec 5) (i : Bool) (k : Fin 5) : Bool := if gnt[k] then i else false

structure MasterBus where
  cyc : Bool
  we : Bool
  pref : Bool
  adr : BitVec 32
  dat : BitVec 32
  dat64 : BitVec 32
deriving DecidableEq, Repr

structure SlaveBus where
  ack : Bool
  err : Bool
  rty : Bool
  dat : BitVec 32
  dat64 : BitVec 32
deriving DecidableEq, Repr

-- arbiter and mixer. Every mo, mo32 and mi holds the same gnt_r. The reset is
-- held over a clock edge, so gnt_r leaves it equal to gnt. wbm_stb_o, wbm_cab_o
-- and wbm_sel_o are constants.
structure Bus where
  gnt : BitVec 5
  gntR : BitVec 5
deriving DecidableEq, Repr

def Bus.reset : Bus where
  gnt := grant 0
  gntR := grant 0

def Bus.step (b : Bus) (wbsCyc : Fin 5 → Bool) : Bus where
  gnt := arbiterNext b.gnt wbsCyc
  gntR := b.gnt

def Bus.toSlave (b : Bus) (masters : Fin 5 → MasterBus) : MasterBus where
  cyc := mo b.gntR (fun k => (masters k).cyc) false
  we := mo b.gntR (fun k => (masters k).we) false
  pref := mo b.gntR (fun k => (masters k).pref) false
  adr := mo b.gntR (fun k => (masters k).adr) 0
  dat := mo b.gntR (fun k => (masters k).dat) 0
  dat64 := mo b.gntR (fun k => (masters k).dat64) 0

def Bus.toMaster (b : Bus) (slave : SlaveBus) (k : Fin 5) : SlaveBus where
  ack := mi b.gnt slave.ack k
  err := slave.err
  rty := slave.rty
  dat := slave.dat
  dat64 := slave.dat64

theorem mo_grant {α : Type} (k : Fin 5) (i : Fin 5 → α) (undriven : α) : mo (grant k) i undriven = i k := by
  fin_cases k <;> rfl

theorem mi_grant (k j : Fin 5) (i : Bool) : mi (grant k) i j = (decide (j = k) && i) := by
  fin_cases k <;> fin_cases j <;> cases i <;> rfl

structure Bus.OneHot (b : Bus) (owner driver : Fin 5) : Prop where
  gnt : b.gnt = grant owner
  gntR : b.gntR = grant driver

theorem firstRequest_oneHot (k : Fin 5) (wbsCyc : Fin 5 → Bool) (order : List (Fin 5)) :
    ∃ j, firstRequest (grant k) wbsCyc order = grant j := by
  induction order with
  | nil => exact ⟨k, rfl⟩
  | cons j rest ih =>
      unfold firstRequest
      by_cases request : wbsCyc j
      · exact ⟨j, if_pos request⟩
      · rw [if_neg request]
        exact ih

theorem arbiterNext_oneHot (k : Fin 5) (wbsCyc : Fin 5 → Bool) :
    ∃ j, arbiterNext (grant k) wbsCyc = grant j := by
  have keepOr (order : List (Fin 5)) (idle : Bool) :
      ∃ j, (if idle then firstRequest (grant k) wbsCyc order else grant k) = grant j := by
    cases idle with
    | true => exact firstRequest_oneHot k wbsCyc order
    | false => exact ⟨k, rfl⟩
  unfold arbiterNext
  split
  · exact keepOr _ _
  split
  · exact keepOr _ _
  split
  · exact keepOr _ _
  split
  · exact keepOr _ _
  split
  · exact keepOr _ _
  · exact ⟨k, rfl⟩

def Bus.Granted (b : Bus) : Prop := ∃ owner driver, b.OneHot owner driver

theorem Bus.reset_granted : Bus.reset.Granted := ⟨0, 0, rfl, rfl⟩

theorem Bus.step_granted (b : Bus) (wbsCyc : Fin 5 → Bool) (granted : b.Granted) : (b.step wbsCyc).Granted := by
  obtain ⟨owner, driver, hot⟩ := granted
  obtain ⟨next, moved⟩ := arbiterNext_oneHot owner wbsCyc
  refine ⟨next, owner, ?_, ?_⟩
  · exact (congrArg (fun gnt => arbiterNext gnt wbsCyc) hot.gnt).trans moved
  · exact hot.gnt

def Bus.AnswersOwner (b : Bus) (wbsCyc : Fin 5 → Bool) : Prop :=
  ∀ (masters : Fin 5 → MasterBus) (slave : SlaveBus), (∀ k, (masters k).cyc = wbsCyc k) →
    (slave.ack = true → (b.toSlave masters).cyc = true) →
    ∀ k, (b.toMaster slave k).ack = true →
      (b.toSlave masters).adr = (masters k).adr ∧ (b.toSlave masters).we = (masters k).we ∧
      (b.toSlave masters).dat = (masters k).dat ∧ (b.toSlave masters).dat64 = (masters k).dat64 ∧
      (masters k).cyc = true

def Bus.LoserSilent (b : Bus) (wbsCyc : Fin 5 → Bool) : Prop :=
  ∀ k : Fin 5, b.gntR[k] = true → b.gnt[k] = false → wbsCyc k = false

theorem grant_bit (k j : Fin 5) : (grant k)[j] = decide (j = k) := by
  revert k j
  decide

theorem Bus.loserSilent_iff (b : Bus) (owner driver : Fin 5) (hot : b.OneHot owner driver)
    (wbsCyc : Fin 5 → Bool) : b.LoserSilent wbsCyc ↔ (driver ≠ owner → wbsCyc driver = false) := by
  simp only [LoserSilent, hot.gnt, hot.gntR, grant_bit, decide_eq_true_eq, decide_eq_false_iff_not]
  constructor
  · intro silent moved
    exact silent driver rfl moved
  · rintro silent k rfl moved
    exact silent moved

theorem Bus.answersOwner_iff (b : Bus) (granted : b.Granted) (wbsCyc : Fin 5 → Bool) :
    b.AnswersOwner wbsCyc ↔ b.LoserSilent wbsCyc := by
  obtain ⟨owner, driver, hot⟩ := granted
  rw [b.loserSilent_iff owner driver hot]
  simp only [AnswersOwner, toSlave, toMaster, hot.gnt, hot.gntR, mo_grant, mi_grant, Bool.and_eq_true,
    decide_eq_true_eq]
  constructor
  · intro answers moved
    -- two different addresses show which master the request lines belong to
    by_contra driving
    have open_ : wbsCyc driver = true := by simpa using driving
    let masters (k : Fin 5) : MasterBus :=
      { cyc := wbsCyc k, we := false, pref := false, adr := if k = driver then 1 else 0, dat := 0, dat64 := 0 }
    have routed := answers masters ⟨true, false, false, 0, 0⟩ (fun _ => rfl) (fun _ => open_) owner ⟨rfl, rfl⟩
    have crossed : (1 : BitVec 32) = 0 := by simpa [masters, Ne.symm moved] using routed.1
    exact absurd crossed (by decide)
  · rintro silent masters slave requests opened k ⟨rfl, acked⟩
    have driving : (masters driver).cyc = true := opened acked
    have unmoved : driver = k := by
      by_contra moved
      rw [requests, silent moved] at driving
      exact absurd driving (by decide)
    rw [← unmoved]
    exact ⟨rfl, rfl, rfl, rfl, driving⟩

theorem answers_reach_owner_iff (requests : List (Fin 5 → Bool)) :
    Clocked.Admits Bus.step Bus.AnswersOwner Bus.reset requests ↔
      Clocked.Admits Bus.step Bus.LoserSilent Bus.reset requests :=
  Clocked.admits_congr Bus.step Bus.AnswersOwner Bus.LoserSilent Bus.Granted Bus.step_granted
    Bus.answersOwner_iff Bus.reset requests Bus.reset_granted

-- Master 1 takes the grant over while master 0 has its cycle line down for one
-- period; in the next one master 0 drives the bus and master 1 is acknowledged.
theorem answer_crosses :
    ¬ Clocked.Admits Bus.step Bus.AnswersOwner Bus.reset [fun k => decide (k = 1), fun k => decide (k = 0)] := by
  rintro ⟨_, second, _⟩
  have granted := Bus.reset.step_granted (fun k => decide (k = 1)) Bus.reset_granted
  have silent := (Bus.answersOwner_iff _ granted _).mp second 0 (by decide) (by decide)
  exact absurd silent (by decide)

end SsAdma
