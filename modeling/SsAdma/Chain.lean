import Mathlib.Tactic.ByContra
import Mathlib.Tactic.SplitIfs
import SsAdma.Clocked
import SsAdma.Dispatch

set_option autoImplicit false

namespace SsAdma

-- simp leaves the bits of dc as getLsbD.
attribute [-simp] BitVec.getLsbD_eq_getElem

structure Delivery where
  lane : Fin 2
  ssAdr : BitVec 2
  src : SgState
  dst : SgState
deriving DecidableEq, Repr

inductive Event where
  | opens (adr : BitVec 29)
  | reads (adr : BitVec 29) (given : Option Delivery)
  | closes
  | retires (lane : Fin 2)
deriving DecidableEq, Repr

def Masters.delivery (m : Masters) (i : MastersIn) : Option Delivery :=
  if m.ssWe i 0 then some ⟨0, m.ctrl.inc, (m.sg 0).state, (m.sg 1).state⟩
  else if m.ssWe i 2 then some ⟨1, m.ctrl.inc, (m.sg 2).state, (m.sg 3).state⟩
  else none

def Masters.events (m : Masters) (i : MastersIn) : List Event :=
  let n := m.ctrl.comb (m.ctrlIn i)
  (if (i.bus 4).ack && !m.ctrl.wbsWe4 then [.reads m.ctrl.wbsAdr4R (m.delivery i)] else []) ++
  (if m.ctrl.wbsCyc4 && !m.ctrl.wbsWe4 && !n.wbsCyc4N then [.closes] else []) ++
  (if !m.ctrl.wbsCyc4 && n.wbsCyc4N && !n.wbsWe4N then [.opens n.wbsAdr4N] else []) ++
  (if m.ctrl.state = .sCyc0 then [.retires 0] else if m.ctrl.state = .sCyc1 then [.retires 1] else [])

-- Job descriptors in a memory of 64-bit words: next_desc and ctl_addr in the
-- first word, dc in the second.
def nextOf (mem : BitVec 29 → BitVec 64) (a : BitVec 29) : BitVec 29 := (mem a).extractLsb' 3 29
def contOf (mem : BitVec 29 → BitVec 64) (a : BitVec 29) : Bool := (mem (a + 1)).getLsbD 10

def FromMemory (mem : BitVec 29 → BitVec 64) (m : Masters) (i : MastersIn) : Prop :=
  (i.bus 4).ack = true → m.ctrl.wbsWe4 = false →
    (i.bus 4).dat = (mem m.ctrl.wbsAdr4R).extractLsb' 0 32 ∧ (i.bus 4).dat64 = (mem m.ctrl.wbsAdr4R).extractLsb' 32 32

def Chain (mem : BitVec 29 → BitVec 64) : List (BitVec 29) → Prop
  | [] => False
  | [d] => contOf mem d = false
  | d :: e :: more => contOf mem d = true ∧ nextOf mem d = e ∧ Chain mem (e :: more)

def readEvent (lane : Option (Fin 2)) (a : BitVec 29) (word : BitVec 2) : Event :=
  let engine := if word = 0#2 then SgState.sIdle else .sCmd
  .reads (a + word.setWidth 29) (lane.map fun l => ⟨l, word, engine, engine⟩)

def fetchRest (lane : Option (Fin 2)) (a : BitVec 29) (word : BitVec 2) : List Event :=
  ([0#2, 1#2, 2#2, 3#2].map (readEvent lane a)).drop word.toNat ++ [.closes]

def fetchLog (lane : Option (Fin 2)) (a : BitVec 29) : List Event := .opens a :: fetchRest lane a 0#2

-- The walk takes jobs two at a time: the successor is fetched before the first
-- one retires.
def jobsLog : List (BitVec 29) → List Event
  | [] => []
  | [d] => fetchLog (some 0) d ++ [.retires 0]
  | d :: e :: more => fetchLog (some 0) d ++ fetchLog (some 1) e ++ [.retires 0, .retires 1] ++ jobsLog more

inductive Started (mem : BitVec 29 → BitVec 64) (m : Masters) (i : MastersIn) : List Event → BitVec 29 → Prop where
  | ndar (more : List (BitVec 29)) : i.enable = true → i.ndarDirty = true → i.append = false →
      Chain mem (i.ndar :: more) →
      Started mem m i (jobsLog (i.ndar :: more)) ((i.ndar :: more).getLast (List.cons_ne_nil _ _))
  | resumed (more : List (BitVec 29)) : i.enable = true → i.append = true → contOf mem m.ctrl.darR = true →
      Chain mem (nextOf mem m.ctrl.darR :: more) →
      Started mem m i (fetchLog none m.ctrl.darR ++ jobsLog (nextOf mem m.ctrl.darR :: more))
        ((nextOf mem m.ctrl.darR :: more).getLast (List.cons_ne_nil _ _))
  | unlinked : i.enable = true → i.append = true → contOf mem m.ctrl.darR = false →
      Started mem m i (fetchLog none m.ctrl.darR) m.ctrl.darR

theorem fetchRest_word (lane : Option (Fin 2)) (a : BitVec 29) : ∀ word : BitVec 2,
    fetchRest lane a word = readEvent lane a word :: (if word = 3#2 then [.closes] else fetchRest lane a (word + 1#2)) := by
  intro word
  rcases word_cases word with rfl | rfl | rfl | rfl <;> rfl

def engineWord (word : BitVec 2) : SgState := if word = 0#2 then .sIdle else .sCmd

instance (m : Masters) (i : MastersIn) (mem : BitVec 29 → BitVec 64) : Decidable (FromMemory mem m i) :=
  inferInstanceAs (Decidable (_ → _))

theorem events_writing {m : Masters} (i : MastersIn) (dispatch : Dispatch m) (writes : m.ctrl.state.writes = true) :
    m.events i = [] := by
  have holds : m.ctrl.wbsCyc4 = true := by rw [dispatch.bus.cycle, writes, Bool.or_true]
  have write : m.ctrl.wbsWe4 = true := (dispatch.bus.direction holds).trans writes
  have notCyc : m.ctrl.state ≠ .sCyc0 ∧ m.ctrl.state ≠ .sCyc1 := by
    constructor <;> (intro state; rw [state] at writes; cases writes)
  simp [Masters.events, holds, write, notCyc]

theorem events_reading {m : Masters} {i : MastersIn} (dispatch : Dispatch m) (exclusive : Exclusive m i)
    (reads : m.ctrl.state.reads = true) :
    m.events i =
      if (i.bus 4).ack then
        .reads m.ctrl.wbsAdr4R (m.delivery i) :: (if m.ctrl.inc = 3#2 then [.closes] else [])
      else [] := by
  have holds : m.ctrl.wbsCyc4 = true := by rw [dispatch.bus.cycle, reads, Bool.true_or]
  have notWrites : m.ctrl.state.writes = false := by
    cases state : m.ctrl.state <;> first | rfl | (rw [state] at reads; cases reads)
  have write : m.ctrl.wbsWe4 = false := (dispatch.bus.direction holds).trans notWrites
  have notCyc : m.ctrl.state ≠ .sCyc0 ∧ m.ctrl.state ≠ .sCyc1 := by
    constructor <;> (intro state; rw [state] at reads; cases reads)
  have last : (m.ctrl.comb (m.ctrlIn i)).wbsCyc4N = !m.ctrl.lastWord (m.ctrlIn i) := by
    rw [Ctrl.comb_wbsCyc4N, holds, Bool.and_true]
    cases state : m.ctrl.state <;> first | rfl | (rw [state] at reads; cases reads)
  have lastAck : m.ctrl.lastWord (m.ctrlIn i) = ((i.bus 4).ack && m.ctrl.inc == 3#2) := by
    unfold Ctrl.lastWord
    rw [exclusive.ctrl_acked]
    rfl
  cases ack : (i.bus 4).ack with
  | false => simp [Masters.events, holds, write, notCyc, last, lastAck, ack]
  | true => by_cases third : m.ctrl.inc = 3#2 <;> simp [Masters.events, holds, write, notCyc, last, lastAck, ack, third]

theorem events_released {m : Masters} {i : MastersIn} (dispatch : Dispatch m) (exclusive : Exclusive m i)
    (notReads : m.ctrl.state.reads = false) (notWrites : m.ctrl.state.writes = false) :
    m.events i =
      (if (m.ctrl.comb (m.ctrlIn i)).incReset && !(m.ctrl.comb (m.ctrlIn i)).wbsWe4N then
        [.opens (m.ctrl.comb (m.ctrlIn i)).wbsAdr4N] else []) ++
      (if m.ctrl.state = .sCyc0 then [.retires 0] else if m.ctrl.state = .sCyc1 then [.retires 1] else []) := by
  have released : m.ctrl.wbsCyc4 = false := by rw [dispatch.bus.cycle, notReads, notWrites]; rfl
  have noAck : (i.bus 4).ack = false := by
    by_contra ack
    exact absurd (released.symm.trans (exclusive.ctrl_holds (by simpa using ack))) Bool.false_ne_true
  have opens : (m.ctrl.comb (m.ctrlIn i)).wbsCyc4N = (m.ctrl.comb (m.ctrlIn i)).incReset := by
    rw [Ctrl.comb_wbsCyc4N, released]
    cases state : m.ctrl.state <;>
      first | exact Bool.or_false _ | exact absurd (state ▸ notReads) (by decide) | exact absurd (state ▸ notWrites) (by decide)
  simp [Masters.events, released, noAck, opens]

structure Fetching (mem : BitVec 29 → BitVec 64) (c : Ctrl) (lane : Fin 2) (a : BitVec 29) : Prop where
  address : c.wbsAdr4R = a + c.inc.setWidth 29
  first : c.inc ≠ 0#2 → c.nextDesc = nextOf mem a ∧ c.cdar = a
  second : c.inc ≠ 0#2 → c.inc ≠ 1#2 → (c.dcR lane).getLsbD 10 = contOf mem a

structure Fetched (mem : BitVec 29 → BitVec 64) (c : Ctrl) (lane : Fin 2) (a : BitVec 29) : Prop where
  next : c.nextDesc = nextOf mem a
  cdar : c.cdar = a
  cont : (c.dcR lane).getLsbD 10 = contOf mem a

def cmdState (lane : Fin 2) : CtrlState := if lane = 0 then .sCmd0 else .sCmd1

theorem cmdState_reads (lane : Fin 2) : (cmdState lane).reads = true := by
  unfold cmdState
  split <;> rfl

theorem dcR_step (c : Ctrl) (i : CtrlIn) (running : i.wbRst = false) (lane : Fin 2) (state : c.state = cmdState lane) :
    (c.step i).dcR lane = if i.wbsAck4 = true ∧ c.inc = 1#2 then i.wbsDatO4.extractLsb' 0 16 else c.dcR lane := by
  rw [Ctrl.step_running c i running]
  match lane with
  | 0 => simp [Ctrl.dcR, Ctrl.latch, show c.state = .sCmd0 from state]
  | 1 => simp [Ctrl.dcR, Ctrl.latch, show c.state = .sCmd1 from state]

theorem next_step (c : Ctrl) (i : CtrlIn) (running : i.wbRst = false) (lane : Fin 2) (state : c.state = cmdState lane) :
    (c.step i).nextDesc = (if i.wbsAck4 = true ∧ c.inc = 0#2 then i.wbsDatO4.extractLsb' 3 29 else c.nextDesc) ∧
    (c.step i).cdar = (if i.wbsAck4 = true ∧ c.inc = 0#2 then c.wbsAdr4R else c.cdar) := by
  rw [Ctrl.step_running c i running]
  match lane with
  | 0 => simp [Ctrl.latch, show c.state = .sCmd0 from state]
  | 1 => simp [Ctrl.latch, show c.state = .sCmd1 from state]

theorem low_next (word : BitVec 64) : (word.extractLsb' 0 32).extractLsb' 3 29 = word.extractLsb' 3 29 := by
  apply BitVec.eq_of_getLsbD_eq
  intro j below
  simp [below]

theorem low_cont (word : BitVec 64) : ((word.extractLsb' 0 32).extractLsb' 0 16).getLsbD 10 = word.getLsbD 10 := by
  simp

theorem fetch_step {mem : BitVec 29 → BitVec 64} {m : Masters} {i : MastersIn} (exclusive : Exclusive m i)
    (dispatch : Dispatch m) (memory : FromMemory mem m i) (lane : Fin 2) (a : BitVec 29)
    (state : m.ctrl.state = cmdState lane) (fetching : Fetching mem m.ctrl lane a) :
    ((i.bus 4).ack = true ∧ m.ctrl.inc = 3#2 → Fetched mem (m.step i).ctrl lane a) ∧
    (¬((i.bus 4).ack = true ∧ m.ctrl.inc = 3#2) → Fetching mem (m.step i).ctrl lane a) := by
  have ackLine : (m.ctrlIn i).wbsAck4 = (i.bus 4).ack := rfl
  have dcN := dcR_step m.ctrl (m.ctrlIn i) exclusive.running lane state
  obtain ⟨nextN, cdarN⟩ := next_step m.ctrl (m.ctrlIn i) exclusive.running lane state
  obtain ⟨_, _, _, adrN, incN, _⟩ := m.ctrl.step_burst (m.ctrlIn i) (if lane = 0 then .sNext0 else .sWait0) exclusive.running
    (by rw [state]; match lane with | 0 => exact .cmd0 | 1 => exact .cmd1)
  rw [exclusive.ctrl_acked] at adrN incN
  rw [ackLine] at dcN nextN cdarN
  have data : (i.bus 4).ack = true → (i.bus 4).dat = (mem m.ctrl.wbsAdr4R).extractLsb' 0 32 := by
    intro ack
    refine (memory ack ?_).1
    rw [dispatch.bus.direction (exclusive.ctrl_holds ack), state]
    match lane with
    | 0 => rfl
    | 1 => rfl
  change (_ → Fetched mem (m.ctrl.step (m.ctrlIn i)) lane a) ∧ (_ → Fetching mem (m.ctrl.step (m.ctrlIn i)) lane a)
  cases ack : (i.bus 4).ack with
  | false =>
      refine ⟨fun last => absurd last.1 Bool.false_ne_true, fun _ => ?_⟩
      simp only [ack, Bool.false_eq_true, false_and, if_false] at nextN cdarN dcN adrN incN
      refine ⟨?_, ?_, ?_⟩
      · rw [adrN, incN]
        exact fetching.address
      · rw [incN, nextN, cdarN]
        exact fetching.first
      · rw [incN, dcN]
        exact fetching.second
  | true =>
      have read := data ack
      rw [fetching.address] at read
      simp only [ack, true_and, if_true] at nextN cdarN dcN adrN incN
      rcases word_cases m.ctrl.inc with word | word | word | word <;> rw [word] at nextN cdarN dcN incN read
      · refine ⟨fun last => absurd (word.symm.trans last.2) (by decide), fun _ => ⟨?_, fun _ => ?_, ?_⟩⟩
        · rw [adrN, incN, fetching.address, word]
          simp
        · refine ⟨?_, ?_⟩
          · rw [nextN, if_pos rfl]
            change ((i.bus 4).dat).extractLsb' 3 29 = _
            rw [read, low_next]
            simp [nextOf]
          · rw [cdarN, if_pos rfl, fetching.address, word]
            simp
        · rw [incN]
          exact fun _ other => absurd rfl other
      · have first := fetching.first (by rw [word]; decide)
        refine ⟨fun last => absurd (word.symm.trans last.2) (by decide), fun _ => ⟨?_, fun _ => ?_, fun _ _ => ?_⟩⟩
        · rw [adrN, incN, fetching.address, word]
          simp [BitVec.add_assoc]
        · rw [nextN, cdarN]
          exact first
        · have taken : (m.ctrl.step (m.ctrlIn i)).dcR lane = (i.bus 4).dat.extractLsb' 0 16 := by rw [dcN, if_pos rfl]; rfl
          rw [taken, read, low_cont]
          simp [contOf]
      · have first := fetching.first (by rw [word]; decide)
        have second := fetching.second (by rw [word]; decide) (by rw [word]; decide)
        refine ⟨fun last => absurd (word.symm.trans last.2) (by decide), fun _ => ⟨?_, fun _ => ?_, fun _ _ => ?_⟩⟩
        · rw [adrN, incN, fetching.address, word]
          simp [BitVec.add_assoc]
        · rw [nextN, cdarN]
          exact first
        · rw [dcN, if_neg (by decide)]
          exact second
      · have first := fetching.first (by rw [word]; decide)
        have second := fetching.second (by rw [word]; decide) (by rw [word]; decide)
        refine ⟨fun _ => ⟨nextN.trans first.1, cdarN.trans first.2, ?_⟩, fun notLast => absurd ⟨rfl, word⟩ notLast⟩
        rw [dcN, if_neg (by decide)]
        exact second

def afterFirst : List (BitVec 29) → List Event
  | [] => [.retires 0]
  | e :: more => fetchLog (some 1) e ++ .retires 0 :: .retires 1 :: jobsLog more

theorem jobsLog_cons (d : BitVec 29) (more : List (BitVec 29)) :
    jobsLog (d :: more) = fetchLog (some 0) d ++ afterFirst more := by
  cases more with
  | nil => rfl
  | cons e more => simp [jobsLog, afterFirst]

def Ends (mem : BitVec 29 → BitVec 64) (final d : BitVec 29) (more : List (BitVec 29)) : Prop :=
  Chain mem (d :: more) ∧ (d :: more).getLast (List.cons_ne_nil d more) = final

def Resumes (mem : BitVec 29 → BitVec 64) (final tail : BitVec 29) (script : List Event) : Prop :=
  (contOf mem tail = true ∧ ∃ more, Ends mem final (nextOf mem tail) more ∧ script = jobsLog (nextOf mem tail :: more)) ∨
  (contOf mem tail = false ∧ script = [] ∧ tail = final)

def CtrlState.first : CtrlState → Bool
  | .sWait0 | .sCtl0 | .sTr0 | .sCyc0 => true
  | _ => false

def CtrlState.second : CtrlState → Bool
  | .sWait1 | .sCtl1 | .sTr1 | .sCyc1 => true
  | _ => false

inductive Phase (mem : BitVec 29 → BitVec 64) (final : BitVec 29) (c : Ctrl) : List Event → Prop where
  | reread (script : List Event) : c.state = .sCmd0 → c.appendMode = true → Fetching mem c 0 c.darR →
      Resumes mem final c.darR script → Phase mem final c (fetchRest none c.darR c.inc ++ script)
  | rereadNext (script : List Event) : c.state = .sNext0 → c.appendMode = true → Fetched mem c 0 c.darR →
      Resumes mem final c.darR script → Phase mem final c script
  | cmd0 (d : BitVec 29) (more : List (BitVec 29)) : c.state = .sCmd0 → c.appendMode = false → Fetching mem c 0 d →
      Ends mem final d more → Phase mem final c (fetchRest (some 0) d c.inc ++ afterFirst more)
  | next0 (d : BitVec 29) (more : List (BitVec 29)) : c.state = .sNext0 → c.appendMode = false → Fetched mem c 0 d →
      Ends mem final d more → Phase mem final c (afterFirst more)
  | cmd1 (e : BitVec 29) (more : List (BitVec 29)) : c.state = .sCmd1 → c.dc0R.getLsbD 10 = true → Fetching mem c 1 e →
      Ends mem final e more → Phase mem final c (fetchRest (some 1) e c.inc ++ .retires 0 :: .retires 1 :: jobsLog more)
  | alone : c.state.first = true → c.dc0R.getLsbD 10 = false → c.cdar = final → Phase mem final c [.retires 0]
  | both (e : BitVec 29) (more : List (BitVec 29)) : c.state.first = true → c.dc0R.getLsbD 10 = true → Fetched mem c 1 e →
      Ends mem final e more → Phase mem final c (.retires 0 :: .retires 1 :: jobsLog more)
  | second (e : BitVec 29) (more : List (BitVec 29)) : c.state.second = true → Fetched mem c 1 e → Ends mem final e more →
      Phase mem final c (.retires 1 :: jobsLog more)
  | next1 (d : BitVec 29) (more : List (BitVec 29)) : c.state = .sNext1 → c.nextDesc = d → Ends mem final d more →
      Phase mem final c (jobsLog (d :: more))
  | done : c.state = .sIdle → c.darR = final → Phase mem final c []

theorem ends_unlinked {mem : BitVec 29 → BitVec 64} {final d : BitVec 29} {more : List (BitVec 29)}
    (ends : Ends mem final d more) (unlinked : contOf mem d = false) : more = [] ∧ d = final := by
  cases more with
  | nil => exact ⟨rfl, ends.2⟩
  | cons e more => exact absurd (unlinked.symm.trans ends.1.1) Bool.false_ne_true

theorem ends_linked {mem : BitVec 29 → BitVec 64} {final d : BitVec 29} {more : List (BitVec 29)}
    (ends : Ends mem final d more) (linked : contOf mem d = true) :
    ∃ rest, more = nextOf mem d :: rest ∧ Ends mem final (nextOf mem d) rest := by
  cases more with
  | nil => exact absurd (ends.1.symm.trans linked) Bool.false_ne_true
  | cons e rest =>
      obtain ⟨⟨_, link, chain⟩, last⟩ := ends
      cases link
      exact ⟨rest, rfl, chain, last⟩

theorem fetch_events {mem : BitVec 29 → BitVec 64} {m : Masters} {i : MastersIn} (exclusive : Exclusive m i)
    (dispatch : Dispatch m) (lane : Fin 2) (given : Option (Fin 2)) (a : BitVec 29) (script : List Event)
    (state : m.ctrl.state = cmdState lane) (fetching : Fetching mem m.ctrl lane a)
    (delivered : (i.bus 4).ack = true → m.delivery i = given.map fun l => ⟨l, m.ctrl.inc, engineWord m.ctrl.inc, engineWord m.ctrl.inc⟩) :
    fetchRest given a m.ctrl.inc ++ script =
      m.events i ++ (if (i.bus 4).ack = true ∧ m.ctrl.inc = 3#2 then script else fetchRest given a (m.step i).ctrl.inc ++ script) := by
  have reads : m.ctrl.state.reads = true := by rw [state, cmdState_reads]
  rw [events_reading dispatch exclusive reads]
  have incN := (m.ctrl.step_burst (m.ctrlIn i) (if lane = 0 then .sNext0 else .sWait0) exclusive.running
    (by rw [state]; match lane with | 0 => exact .cmd0 | 1 => exact .cmd1)).2.2.2.2.1
  rw [exclusive.ctrl_acked] at incN
  change _ = _ ++ (if _ then script else fetchRest given a (m.ctrl.step (m.ctrlIn i)).inc ++ script)
  rw [incN]
  cases ack : (i.bus 4).ack with
  | false => simp
  | true =>
      rw [fetchRest_word, fetching.address, delivered ack]
      by_cases last : m.ctrl.inc = 3#2
      · simp [last, readEvent, engineWord]
      · simp [last, readEvent, engineWord]

theorem delivery_reread {m : Masters} {i : MastersIn} (exclusive : Exclusive m i) (state : m.ctrl.state = .sCmd0)
    (mode : m.ctrl.appendMode = true) : m.delivery i = none := by
  have first : m.ssWe i 0 = false := by simp [ssWe_lane exclusive, laneOf, Ctrl.ssWe, Ctrl.ssWe0, mode]
  have second : m.ssWe i 2 = false := by simp [ssWe_lane exclusive, laneOf, Ctrl.ssWe, Ctrl.ssWe2, state]
  simp [Masters.delivery, first, second]

theorem engine_loads {m : Masters} (dispatch : Dispatch m) (k : Fin 4)
    (stage : m.ctrl.stage (laneOf k) = if m.ctrl.inc = 0#2 then .free else .loading) :
    (m.sg k).state = engineWord m.ctrl.inc := by
  have fits := dispatch.fits k
  rw [stage] at fits
  by_cases word : m.ctrl.inc = 0#2
  · simpa [word, Stage.Fits, engineWord] using fits
  · simpa [word, Stage.Fits, engineWord] using fits

theorem delivery_first {m : Masters} {i : MastersIn} (exclusive : Exclusive m i) (dispatch : Dispatch m)
    (state : m.ctrl.state = .sCmd0) (mode : m.ctrl.appendMode = false) (ack : (i.bus 4).ack = true) :
    m.delivery i = some ⟨0, m.ctrl.inc, engineWord m.ctrl.inc, engineWord m.ctrl.inc⟩ := by
  have first : m.ssWe i 0 = true := by
    simp [ssWe_lane exclusive, laneOf, Ctrl.ssWe, Ctrl.ssWe0, state, mode, Masters.ctrlIn, ack]
  have engine (k : Fin 4) (here : laneOf k = 0) : (m.sg k).state = engineWord m.ctrl.inc :=
    engine_loads dispatch k (by rw [here]; simp [Ctrl.stage, Ctrl.stage0, state, mode])
  simp [Masters.delivery, first, engine 0 rfl, engine 1 rfl]

theorem delivery_second {m : Masters} {i : MastersIn} (exclusive : Exclusive m i) (dispatch : Dispatch m)
    (state : m.ctrl.state = .sCmd1) (ack : (i.bus 4).ack = true) :
    m.delivery i = some ⟨1, m.ctrl.inc, engineWord m.ctrl.inc, engineWord m.ctrl.inc⟩ := by
  have first : m.ssWe i 0 = false := by simp [ssWe_lane exclusive, laneOf, Ctrl.ssWe, Ctrl.ssWe0, state]
  have second : m.ssWe i 2 = true := by
    simp [ssWe_lane exclusive, laneOf, Ctrl.ssWe, Ctrl.ssWe2, state, Masters.ctrlIn, ack]
  have engine (k : Fin 4) (here : laneOf k = 1) : (m.sg k).state = engineWord m.ctrl.inc :=
    engine_loads dispatch k (by rw [here]; simp [Ctrl.stage, Ctrl.stage1, state])
  simp [Masters.delivery, first, second, engine 2 rfl, engine 3 rfl]

theorem regs_kept (c : Ctrl) (i : CtrlIn) (running : i.wbRst = false) (notReads : c.state.reads = false) :
    (c.step i).nextDesc = c.nextDesc ∧ (c.step i).cdar = c.cdar ∧ (c.step i).dc0R = c.dc0R ∧ (c.step i).dc1R = c.dc1R := by
  have away : c.state ≠ .sCmd0 ∧ c.state ≠ .sCmd1 := by
    constructor <;> (intro state; rw [state] at notReads; cases notReads)
  rw [Ctrl.step_running c i running]
  simp [Ctrl.latch, away]

theorem darN_step (c : Ctrl) (i : CtrlIn) (running : i.wbRst = false) : (c.step i).darR = (c.comb i).darN := by
  rw [Ctrl.step_running c i running]
  rfl

theorem appendModeN_step (c : Ctrl) (i : CtrlIn) (running : i.wbRst = false) :
    (c.step i).appendMode = (c.comb i).appendModeN := by
  rw [Ctrl.step_running c i running]
  rfl

theorem lastWord_ack {m : Masters} {i : MastersIn} (exclusive : Exclusive m i) :
    m.ctrl.lastWord (m.ctrlIn i) = true ↔ (i.bus 4).ack = true ∧ m.ctrl.inc = 3#2 := by
  rw [Ctrl.lastWord_iff, exclusive.ctrl_acked]

theorem fetching_opened {mem : BitVec 29 → BitVec 64} (c : Ctrl) (i : CtrlIn) (running : i.wbRst = false) (lane : Fin 2)
    (a : BitVec 29) (opens : (c.comb i).incReset = true) (address : (c.comb i).wbsAdr4N = a) :
    (c.step i).inc = 0#2 ∧ Fetching mem (c.step i) lane a := by
  obtain ⟨incN, adrN⟩ := c.step_opened i running opens
  refine ⟨incN, ⟨?_, fun other => absurd incN other, fun other => absurd incN other⟩⟩
  rw [adrN, incN, address]
  simp

def Advances (mem : BitVec 29 → BitVec 64) (final : BitVec 29) (m : Masters) (i : MastersIn) (script : List Event) : Prop :=
  ∃ rest, script = m.events i ++ rest ∧ Phase mem final (m.step i).ctrl rest

theorem reread_advances {mem : BitVec 29 → BitVec 64} {final : BitVec 29} {m : Masters} {i : MastersIn}
    (exclusive : Exclusive m i) (dispatch : Dispatch m) (memory : FromMemory mem m i) (script : List Event)
    (state : m.ctrl.state = .sCmd0) (mode : m.ctrl.appendMode = true) (fetching : Fetching mem m.ctrl 0 m.ctrl.darR)
    (resumes : Resumes mem final m.ctrl.darR script) :
    Advances mem final m i (fetchRest none m.ctrl.darR m.ctrl.inc ++ script) := by
  obtain ⟨fetched, more⟩ := fetch_step exclusive dispatch memory 0 m.ctrl.darR state fetching
  obtain ⟨stateN, _, _, _, _, modeN, darN⟩ := m.ctrl.step_burst (m.ctrlIn i) .sNext0 exclusive.running (state ▸ .cmd0)
  have lastAck := lastWord_ack exclusive
  refine ⟨_, fetch_events exclusive dispatch 0 none m.ctrl.darR script state fetching
    (fun _ => delivery_reread exclusive state mode), ?_⟩
  by_cases last : (i.bus 4).ack = true ∧ m.ctrl.inc = 3#2
  · rw [if_pos last]
    refine .rereadNext script ?_ (modeN.trans mode) ?_ ?_
    · exact stateN.trans (if_pos (lastAck.mpr last))
    · rw [show (m.step i).ctrl.darR = m.ctrl.darR from darN]
      exact fetched last
    · rw [show (m.step i).ctrl.darR = m.ctrl.darR from darN]
      exact resumes
  · rw [if_neg last]
    have again := more last
    rw [← show (m.step i).ctrl.darR = m.ctrl.darR from darN] at again resumes ⊢
    refine .reread script ?_ (modeN.trans mode) again resumes
    exact (stateN.trans (if_neg fun taken => last (lastAck.mp taken))).trans state

theorem first_advances {mem : BitVec 29 → BitVec 64} {final : BitVec 29} {m : Masters} {i : MastersIn}
    (exclusive : Exclusive m i) (dispatch : Dispatch m) (memory : FromMemory mem m i) (d : BitVec 29)
    (more : List (BitVec 29)) (state : m.ctrl.state = .sCmd0) (mode : m.ctrl.appendMode = false)
    (fetching : Fetching mem m.ctrl 0 d) (ends : Ends mem final d more) :
    Advances mem final m i (fetchRest (some 0) d m.ctrl.inc ++ afterFirst more) := by
  obtain ⟨fetched, again⟩ := fetch_step exclusive dispatch memory 0 d state fetching
  obtain ⟨stateN, _, _, _, _, modeN, _⟩ := m.ctrl.step_burst (m.ctrlIn i) .sNext0 exclusive.running (state ▸ .cmd0)
  have lastAck := lastWord_ack exclusive
  refine ⟨_, fetch_events exclusive dispatch 0 (some 0) d (afterFirst more) state fetching
    (fun ack => delivery_first exclusive dispatch state mode ack), ?_⟩
  by_cases last : (i.bus 4).ack = true ∧ m.ctrl.inc = 3#2
  · rw [if_pos last]
    exact .next0 d more (stateN.trans (if_pos (lastAck.mpr last))) (modeN.trans mode) (fetched last) ends
  · rw [if_neg last]
    refine .cmd0 d more ?_ (modeN.trans mode) (again last) ends
    exact (stateN.trans (if_neg fun taken => last (lastAck.mp taken))).trans state

theorem second_advances {mem : BitVec 29 → BitVec 64} {final : BitVec 29} {m : Masters} {i : MastersIn}
    (exclusive : Exclusive m i) (dispatch : Dispatch m) (memory : FromMemory mem m i) (e : BitVec 29)
    (more : List (BitVec 29)) (state : m.ctrl.state = .sCmd1) (linked : m.ctrl.dc0R.getLsbD 10 = true)
    (fetching : Fetching mem m.ctrl 1 e) (ends : Ends mem final e more) :
    Advances mem final m i (fetchRest (some 1) e m.ctrl.inc ++ .retires 0 :: .retires 1 :: jobsLog more) := by
  obtain ⟨fetched, again⟩ := fetch_step exclusive dispatch memory 1 e state fetching
  obtain ⟨stateN, _⟩ := m.ctrl.step_burst (m.ctrlIn i) .sWait0 exclusive.running (state ▸ .cmd1)
  have kept : (m.step i).ctrl.dc0R = m.ctrl.dc0R :=
    (m.ctrl.step_sameJob0 (m.ctrlIn i) exclusive.running (by simp [state])).2
  have lastAck := lastWord_ack exclusive
  refine ⟨_, fetch_events exclusive dispatch 1 (some 1) e _ state fetching
    (fun ack => delivery_second exclusive dispatch state ack), ?_⟩
  by_cases last : (i.bus 4).ack = true ∧ m.ctrl.inc = 3#2
  · rw [if_pos last]
    have waits : (m.step i).ctrl.state = .sWait0 := stateN.trans (if_pos (lastAck.mpr last))
    exact .both e more (by rw [waits]; rfl) (by simpa [kept] using linked) (fetched last) ends
  · rw [if_neg last]
    refine .cmd1 e more ?_ (by simpa [kept] using linked) (again last) ends
    exact (stateN.trans (if_neg fun taken => last (lastAck.mp taken))).trans state

theorem next0_opens (c : Ctrl) (i : CtrlIn) (state : c.state = .sNext0) (linked : c.dc0R.getLsbD 10 = true) :
    (c.comb i).incReset = true ∧ (c.comb i).wbsWe4N = false ∧ (c.comb i).wbsAdr4N = c.nextDesc := by
  have opens : (c.comb i).incReset = true := by rw [Ctrl.comb_incReset, state]; exact linked
  refine ⟨opens, ?_, ?_⟩
  · rw [Ctrl.comb_wbsWe4N, opens, state]
    rfl
  · cases mode : c.appendMode <;> simp [Ctrl.comb, state, linked, mode, CtrlOut.burst]

theorem next0_events {m : Masters} {i : MastersIn} (exclusive : Exclusive m i) (dispatch : Dispatch m)
    (state : m.ctrl.state = .sNext0) : m.events i = if m.ctrl.dc0R.getLsbD 10 then [.opens m.ctrl.nextDesc] else [] := by
  rw [events_released dispatch exclusive (by rw [state]; rfl) (by rw [state]; rfl)]
  by_cases linked : m.ctrl.dc0R.getLsbD 10 = true
  · obtain ⟨opens, write, address⟩ := next0_opens m.ctrl (m.ctrlIn i) state linked
    simp [opens, write, address, linked, state]
  · have shut : (m.ctrl.comb (m.ctrlIn i)).incReset = false := by
      rw [Ctrl.comb_incReset, state]
      simpa using linked
    simp [shut, linked, state]

theorem reread_next_advances {mem : BitVec 29 → BitVec 64} {final : BitVec 29} {m : Masters} {i : MastersIn}
    (exclusive : Exclusive m i) (dispatch : Dispatch m) (script : List Event) (state : m.ctrl.state = .sNext0)
    (mode : m.ctrl.appendMode = true) (fetched : Fetched mem m.ctrl 0 m.ctrl.darR)
    (resumes : Resumes mem final m.ctrl.darR script) : Advances mem final m i script := by
  have stateN := m.ctrl.step_stateN (m.ctrlIn i) exclusive.running
  rw [Ctrl.comb_stateN, state] at stateN
  have cont : m.ctrl.dc0R.getLsbD 10 = contOf mem m.ctrl.darR := fetched.cont
  have modeN : (m.step i).ctrl.appendMode = false := by
    refine (appendModeN_step m.ctrl (m.ctrlIn i) exclusive.running).trans ?_
    rw [Ctrl.comb_appendModeN, state]
    rfl
  unfold Advances
  rw [next0_events exclusive dispatch state]
  rcases resumes with ⟨linked, more, ends, rfl⟩ | ⟨unlinked, rfl, rfl⟩
  · obtain ⟨opens, _, address⟩ := next0_opens m.ctrl (m.ctrlIn i) state (cont.trans linked)
    obtain ⟨incN, fetching⟩ := fetching_opened m.ctrl (m.ctrlIn i) exclusive.running 0 _ opens (address.trans fetched.next)
    refine ⟨fetchRest (some 0) (nextOf mem m.ctrl.darR) 0#2 ++ afterFirst more, ?_, ?_⟩
    · rw [cont, linked, fetched.next, jobsLog_cons]
      rfl
    · rw [← show (m.step i).ctrl.inc = 0#2 from incN]
      refine .cmd0 _ more ?_ modeN fetching ends
      refine stateN.trans ?_
      simp [cont, linked, mode]
  · refine ⟨[], by simp [cont, unlinked], .done ?_ ?_⟩
    · refine stateN.trans ?_
      simp [cont, unlinked, mode]
    · refine (darN_step m.ctrl (m.ctrlIn i) exclusive.running).trans ?_
      rw [Ctrl.comb_darN, state]

theorem next0_advances {mem : BitVec 29 → BitVec 64} {final : BitVec 29} {m : Masters} {i : MastersIn}
    (exclusive : Exclusive m i) (dispatch : Dispatch m) (d : BitVec 29) (more : List (BitVec 29))
    (state : m.ctrl.state = .sNext0) (mode : m.ctrl.appendMode = false) (fetched : Fetched mem m.ctrl 0 d)
    (ends : Ends mem final d more) : Advances mem final m i (afterFirst more) := by
  have stateN := m.ctrl.step_stateN (m.ctrlIn i) exclusive.running
  rw [Ctrl.comb_stateN, state] at stateN
  obtain ⟨_, cdarN, dcN, _⟩ := regs_kept m.ctrl (m.ctrlIn i) exclusive.running (by rw [state]; rfl)
  have cont : m.ctrl.dc0R.getLsbD 10 = contOf mem d := fetched.cont
  have contN : (m.step i).ctrl.dc0R.getLsbD 10 = contOf mem d := by
    rw [← cont]
    exact congrArg (fun reg : BitVec 16 => reg.getLsbD 10) dcN
  unfold Advances
  rw [next0_events exclusive dispatch state]
  cases link : contOf mem d with
  | true =>
      obtain ⟨rest, rfl, endsRest⟩ := ends_linked ends link
      obtain ⟨opens, _, address⟩ := next0_opens m.ctrl (m.ctrlIn i) state (cont.trans link)
      obtain ⟨incN, fetching⟩ := fetching_opened m.ctrl (m.ctrlIn i) exclusive.running 1 _ opens (address.trans fetched.next)
      refine ⟨fetchRest (some 1) (nextOf mem d) 0#2 ++ .retires 0 :: .retires 1 :: jobsLog rest, ?_, ?_⟩
      · rw [cont, link, fetched.next]
        rfl
      · rw [← show (m.step i).ctrl.inc = 0#2 from incN]
        refine .cmd1 _ rest ?_ (contN.trans link) fetching endsRest
        refine stateN.trans ?_
        simp [cont, link, mode]
  | false =>
      obtain ⟨rfl, rfl⟩ := ends_unlinked ends link
      have waits : (m.step i).ctrl.state = .sWait0 := by
        refine stateN.trans ?_
        simp [cont, link, mode]
      exact ⟨[.retires 0], by simp [cont, link, afterFirst], .alone (by rw [waits]; rfl) (contN.trans link) (cdarN.trans fetched.cdar)⟩

theorem working_reads_nothing (c : Ctrl) (i : CtrlIn) (working : c.state.first = true ∨ c.state.second = true) :
    ((c.comb i).incReset && !(c.comb i).wbsWe4N) = false := by
  rw [Ctrl.comb_wbsWe4N]
  cases opens : (c.comb i).incReset with
  | false => rfl
  | true =>
      rw [Ctrl.comb_incReset] at opens
      cases state : c.state with
      | sWait0 | sWait1 => rfl
      | sCtl0 | sTr0 | sCyc0 | sCtl1 | sTr1 | sCyc1 => simp [state] at opens
      | sIdle | sCmd0 | sNext0 | sCmd1 | sNext1 =>
          rw [state] at working
          rcases working with first | second
          · cases first
          · cases second

theorem events_first {m : Masters} {i : MastersIn} (exclusive : Exclusive m i) (dispatch : Dispatch m)
    (first : m.ctrl.state.first = true) : m.events i = if m.ctrl.state = .sCyc0 then [.retires 0] else [] := by
  cases state : m.ctrl.state with
  | sCtl0 => exact events_writing i dispatch (by rw [state]; rfl)
  | sWait0 | sTr0 | sCyc0 =>
      rw [events_released dispatch exclusive (by rw [state]; rfl) (by rw [state]; rfl)]
      simp [working_reads_nothing m.ctrl (m.ctrlIn i) (.inl first), state]
  | _ => rw [state] at first; cases first

theorem events_second {m : Masters} {i : MastersIn} (exclusive : Exclusive m i) (dispatch : Dispatch m)
    (second : m.ctrl.state.second = true) : m.events i = if m.ctrl.state = .sCyc1 then [.retires 1] else [] := by
  cases state : m.ctrl.state with
  | sCtl1 => exact events_writing i dispatch (by rw [state]; rfl)
  | sWait1 | sTr1 | sCyc1 =>
      rw [events_released dispatch exclusive (by rw [state]; rfl) (by rw [state]; rfl)]
      simp [working_reads_nothing m.ctrl (m.ctrlIn i) (.inr second), state]
  | _ => rw [state] at second; cases second

theorem first_step (c : Ctrl) (i : CtrlIn) (running : i.wbRst = false) (first : c.state.first = true) :
    (c.state ≠ .sCyc0 → (c.step i).state.first = true) ∧
    (c.state = .sCyc0 → (c.step i).state = if c.dc0R.getLsbD 10 then .sWait1 else .sIdle) := by
  have stateN := c.step_stateN i running
  rw [Ctrl.comb_stateN] at stateN
  cases state : c.state with
  | sCyc0 =>
      rw [state] at stateN
      exact ⟨fun other => absurd rfl other, fun _ => stateN⟩
  | sWait0 | sCtl0 | sTr0 =>
      rw [state] at stateN
      refine ⟨fun _ => ?_, fun other => by cases other⟩
      rw [stateN]
      dsimp only
      split_ifs <;> rfl
  | _ => rw [state] at first; cases first

theorem second_step (c : Ctrl) (i : CtrlIn) (running : i.wbRst = false) (second : c.state.second = true) :
    (c.state ≠ .sCyc1 → (c.step i).state.second = true) ∧
    (c.state = .sCyc1 → (c.step i).state = if c.dc1R.getLsbD 10 then .sNext1 else .sIdle) := by
  have stateN := c.step_stateN i running
  rw [Ctrl.comb_stateN] at stateN
  cases state : c.state with
  | sCyc1 =>
      rw [state] at stateN
      exact ⟨fun other => absurd rfl other, fun _ => stateN⟩
  | sWait1 | sCtl1 | sTr1 =>
      rw [state] at stateN
      refine ⟨fun _ => ?_, fun other => by cases other⟩
      rw [stateN]
      dsimp only
      split_ifs <;> rfl
  | _ => rw [state] at second; cases second

theorem first_not_reading {state : CtrlState} (first : state.first = true) : state.reads = false := by
  cases state <;> first | rfl | cases first

theorem second_not_reading {state : CtrlState} (second : state.second = true) : state.reads = false := by
  cases state <;> first | rfl | cases second

theorem alone_advances {mem : BitVec 29 → BitVec 64} {final : BitVec 29} {m : Masters} {i : MastersIn}
    (exclusive : Exclusive m i) (dispatch : Dispatch m) (first : m.ctrl.state.first = true)
    (unlinked : m.ctrl.dc0R.getLsbD 10 = false) (last : m.ctrl.cdar = final) : Advances mem final m i [.retires 0] := by
  obtain ⟨stays, leaves⟩ := first_step m.ctrl (m.ctrlIn i) exclusive.running first
  obtain ⟨_, cdarN, dcN, _⟩ := regs_kept m.ctrl (m.ctrlIn i) exclusive.running (first_not_reading first)
  unfold Advances
  rw [events_first exclusive dispatch first]
  by_cases retires : m.ctrl.state = .sCyc0
  · have idle : (m.step i).ctrl.state = .sIdle := by
      refine (leaves retires).trans ?_
      rw [unlinked]
      rfl
    refine ⟨[], by simp [retires], .done idle ?_⟩
    refine (darN_step m.ctrl (m.ctrlIn i) exclusive.running).trans ?_
    rw [Ctrl.comb_darN, retires]
    simpa [unlinked] using last
  · refine ⟨[.retires 0], by simp [retires], .alone (stays retires) ?_ (cdarN.trans last)⟩
    exact (congrArg (fun reg : BitVec 16 => reg.getLsbD 10) dcN).trans unlinked

theorem fetched_kept {mem : BitVec 29 → BitVec 64} (c : Ctrl) (i : CtrlIn) {a : BitVec 29} (running : i.wbRst = false)
    (notReads : c.state.reads = false) (fetched : Fetched mem c 1 a) : Fetched mem (c.step i) 1 a := by
  obtain ⟨nextN, cdarN, _, dcN⟩ := regs_kept c i running notReads
  refine ⟨nextN.trans fetched.next, cdarN.trans fetched.cdar, ?_⟩
  exact (congrArg (fun reg : BitVec 16 => reg.getLsbD 10) dcN).trans fetched.cont

theorem both_advances {mem : BitVec 29 → BitVec 64} {final : BitVec 29} {m : Masters} {i : MastersIn}
    (exclusive : Exclusive m i) (dispatch : Dispatch m) (e : BitVec 29) (more : List (BitVec 29))
    (first : m.ctrl.state.first = true) (linked : m.ctrl.dc0R.getLsbD 10 = true) (fetched : Fetched mem m.ctrl 1 e)
    (ends : Ends mem final e more) : Advances mem final m i (.retires 0 :: .retires 1 :: jobsLog more) := by
  obtain ⟨stays, leaves⟩ := first_step m.ctrl (m.ctrlIn i) exclusive.running first
  obtain ⟨_, _, dcN, _⟩ := regs_kept m.ctrl (m.ctrlIn i) exclusive.running (first_not_reading first)
  have fetchedN := fetched_kept m.ctrl (m.ctrlIn i) exclusive.running (first_not_reading first) fetched
  unfold Advances
  rw [events_first exclusive dispatch first]
  by_cases retires : m.ctrl.state = .sCyc0
  · have waits : (m.step i).ctrl.state = .sWait1 := by
      refine (leaves retires).trans ?_
      rw [linked]
      rfl
    exact ⟨.retires 1 :: jobsLog more, by simp [retires], .second e more (by rw [waits]; rfl) fetchedN ends⟩
  · refine ⟨.retires 0 :: .retires 1 :: jobsLog more, by simp [retires], .both e more (stays retires) ?_ fetchedN ends⟩
    exact (congrArg (fun reg : BitVec 16 => reg.getLsbD 10) dcN).trans linked

theorem last_advances {mem : BitVec 29 → BitVec 64} {final : BitVec 29} {m : Masters} {i : MastersIn}
    (exclusive : Exclusive m i) (dispatch : Dispatch m) (e : BitVec 29) (more : List (BitVec 29))
    (second : m.ctrl.state.second = true) (fetched : Fetched mem m.ctrl 1 e) (ends : Ends mem final e more) :
    Advances mem final m i (.retires 1 :: jobsLog more) := by
  obtain ⟨stays, leaves⟩ := second_step m.ctrl (m.ctrlIn i) exclusive.running second
  have fetchedN := fetched_kept m.ctrl (m.ctrlIn i) exclusive.running (second_not_reading second) fetched
  have cont : m.ctrl.dc1R.getLsbD 10 = contOf mem e := fetched.cont
  unfold Advances
  rw [events_second exclusive dispatch second]
  by_cases retires : m.ctrl.state = .sCyc1
  · refine ⟨jobsLog more, by simp [retires], ?_⟩
    cases link : contOf mem e with
    | true =>
        obtain ⟨rest, rfl, endsRest⟩ := ends_linked ends link
        refine .next1 _ rest ?_ fetchedN.next endsRest
        refine (leaves retires).trans ?_
        rw [cont, link]
        rfl
    | false =>
        obtain ⟨rfl, rfl⟩ := ends_unlinked ends link
        refine .done ?_ ?_
        · refine (leaves retires).trans ?_
          rw [cont, link]
          rfl
        · refine (darN_step m.ctrl (m.ctrlIn i) exclusive.running).trans ?_
          rw [Ctrl.comb_darN, retires]
          exact fetched.cdar
  · exact ⟨.retires 1 :: jobsLog more, by simp [retires], .second e more (stays retires) fetchedN ends⟩

theorem next1_advances {mem : BitVec 29 → BitVec 64} {final : BitVec 29} {m : Masters} {i : MastersIn}
    (exclusive : Exclusive m i) (dispatch : Dispatch m) (d : BitVec 29) (more : List (BitVec 29))
    (state : m.ctrl.state = .sNext1) (next : m.ctrl.nextDesc = d) (ends : Ends mem final d more) :
    Advances mem final m i (jobsLog (d :: more)) := by
  have stateN := m.ctrl.step_stateN (m.ctrlIn i) exclusive.running
  rw [Ctrl.comb_stateN, state] at stateN
  have opens : (m.ctrl.comb (m.ctrlIn i)).incReset = true := by rw [Ctrl.comb_incReset, state]
  have write : (m.ctrl.comb (m.ctrlIn i)).wbsWe4N = false := by rw [Ctrl.comb_wbsWe4N, opens, state]; rfl
  have address : (m.ctrl.comb (m.ctrlIn i)).wbsAdr4N = d := by
    rw [← next]
    simp [Ctrl.comb, state, CtrlOut.burst]
  have modeN : (m.step i).ctrl.appendMode = false := by
    have outside := m.ctrl.mode_outside dispatch.mode (by simp [state]) (by simp [state])
    refine (appendModeN_step m.ctrl (m.ctrlIn i) exclusive.running).trans ?_
    rw [Ctrl.comb_appendModeN, state]
    exact outside
  obtain ⟨incN, fetching⟩ := fetching_opened m.ctrl (m.ctrlIn i) exclusive.running 0 d opens address
  refine ⟨fetchRest (some 0) d 0#2 ++ afterFirst more, ?_, ?_⟩
  · rw [events_released dispatch exclusive (by rw [state]; rfl) (by rw [state]; rfl), jobsLog_cons]
    simp [opens, write, address, state, fetchLog]
  · rw [← show (m.step i).ctrl.inc = 0#2 from incN]
    exact .cmd0 d more stateN modeN fetching ends

theorem phase_advances {mem : BitVec 29 → BitVec 64} {final : BitVec 29} {m : Masters} {i : MastersIn}
    (exclusive : Exclusive m i) (dispatch : Dispatch m) (memory : FromMemory mem m i) (busy : m.ctrl.state ≠ .sIdle)
    (script : List Event) (phase : Phase mem final m.ctrl script) : Advances mem final m i script := by
  cases phase with
  | reread rest state mode fetching resumes => exact reread_advances exclusive dispatch memory rest state mode fetching resumes
  | rereadNext _ state mode fetched resumes => exact reread_next_advances exclusive dispatch script state mode fetched resumes
  | cmd0 d more state mode fetching ends => exact first_advances exclusive dispatch memory d more state mode fetching ends
  | next0 d more state mode fetched ends => exact next0_advances exclusive dispatch d more state mode fetched ends
  | cmd1 e more state linked fetching ends => exact second_advances exclusive dispatch memory e more state linked fetching ends
  | alone first unlinked last => exact alone_advances exclusive dispatch first unlinked last
  | both e more first linked fetched ends => exact both_advances exclusive dispatch e more first linked fetched ends
  | second e more second fetched ends => exact last_advances exclusive dispatch e more second fetched ends
  | next1 d more state next ends => exact next1_advances exclusive dispatch d more state next ends
  | done idle _ => exact absurd idle busy

theorem started_advances {mem : BitVec 29 → BitVec 64} {final : BitVec 29} {m : Masters} {i : MastersIn}
    (exclusive : Exclusive m i) (dispatch : Dispatch m) (idle : m.ctrl.state = .sIdle) (script : List Event)
    (started : Started mem m i script final) : Advances mem final m i script := by
  have stateN := m.ctrl.step_stateN (m.ctrlIn i) exclusive.running
  rw [Ctrl.comb_stateN, idle] at stateN
  have outside := m.ctrl.mode_outside dispatch.mode (by simp [idle]) (by simp [idle])
  have modeN : (m.step i).ctrl.appendMode = (i.enable && i.append) := by
    refine (appendModeN_step m.ctrl (m.ctrlIn i) exclusive.running).trans ?_
    rw [Ctrl.comb_appendModeN, idle, outside]
    simp [Masters.ctrlIn]
  have darN : (m.step i).ctrl.darR = m.ctrl.darR := by
    refine (darN_step m.ctrl (m.ctrlIn i) exclusive.running).trans ?_
    rw [Ctrl.comb_darN, idle]
  have event (a : BitVec 29) (opens : (m.ctrl.comb (m.ctrlIn i)).incReset = true)
      (address : (m.ctrl.comb (m.ctrlIn i)).wbsAdr4N = a) : m.events i = [.opens a] := by
    have write : (m.ctrl.comb (m.ctrlIn i)).wbsWe4N = false := by rw [Ctrl.comb_wbsWe4N, opens, idle]; rfl
    rw [events_released dispatch exclusive (by rw [idle]; rfl) (by rw [idle]; rfl)]
    simp [opens, write, address, idle]
  have reread (enable : i.enable = true) (append : i.append = true) (rest : List Event)
      (resumes : Resumes mem final m.ctrl.darR rest) : Advances mem final m i (fetchLog none m.ctrl.darR ++ rest) := by
    have opens : (m.ctrl.comb (m.ctrlIn i)).incReset = true := by
      rw [Ctrl.comb_incReset, idle]
      simp [Masters.ctrlIn, enable, append]
    have address : (m.ctrl.comb (m.ctrlIn i)).wbsAdr4N = m.ctrl.darR := by
      simp [Ctrl.comb, idle, Masters.ctrlIn, enable, append, CtrlOut.burst]
    obtain ⟨incN, fetching⟩ := fetching_opened m.ctrl (m.ctrlIn i) exclusive.running 0 m.ctrl.darR opens address
    refine ⟨fetchRest none m.ctrl.darR 0#2 ++ rest, ?_, ?_⟩
    · rw [event m.ctrl.darR opens address]
      rfl
    · rw [← show (m.step i).ctrl.inc = 0#2 from incN]
      rw [← darN] at fetching resumes ⊢
      refine .reread rest (stateN.trans ?_) (modeN.trans (by rw [enable, append]; rfl)) fetching resumes
      simp [Masters.ctrlIn, enable, append]
  cases started with
  | ndar more enable dirty noAppend chain =>
      have opens : (m.ctrl.comb (m.ctrlIn i)).incReset = true := by
        rw [Ctrl.comb_incReset, idle]
        simp [Masters.ctrlIn, enable, dirty]
      have address : (m.ctrl.comb (m.ctrlIn i)).wbsAdr4N = i.ndar := by
        simp [Ctrl.comb, idle, Masters.ctrlIn, enable, dirty, noAppend, CtrlOut.burst]
      obtain ⟨incN, fetching⟩ := fetching_opened m.ctrl (m.ctrlIn i) exclusive.running 0 i.ndar opens address
      refine ⟨fetchRest (some 0) i.ndar 0#2 ++ afterFirst more, ?_, ?_⟩
      · rw [event i.ndar opens address, jobsLog_cons]
        rfl
      · rw [← show (m.step i).ctrl.inc = 0#2 from incN]
        refine .cmd0 i.ndar more (stateN.trans ?_) (modeN.trans (by rw [enable, noAppend]; rfl)) fetching ⟨chain, rfl⟩
        simp [Masters.ctrlIn, enable, dirty]
  | resumed more enable append linked chain =>
      exact reread enable append _ (Or.inl ⟨linked, more, ⟨chain, rfl⟩, rfl⟩)
  | unlinked enable append unlinked =>
      have advances := reread enable append [] (Or.inr ⟨unlinked, rfl, rfl⟩)
      rwa [List.append_nil] at advances

structure ChainPeriod (mem : BitVec 29 → BitVec 64) (m : Masters) (i : MastersIn) : Prop where
  busy : m.ctrl.state ≠ .sIdle
  exclusive : Exclusive m i
  memory : FromMemory mem m i

instance (m : Masters) (i : MastersIn) (mem : BitVec 29 → BitVec 64) : Decidable (ChainPeriod mem m i) :=
  decidable_of_iff (m.ctrl.state ≠ .sIdle ∧ Exclusive m i ∧ FromMemory mem m i)
    ⟨fun all => ⟨all.1, all.2.1, all.2.2⟩, fun period => ⟨period.busy, period.exclusive, period.memory⟩⟩

theorem phase_idle {mem : BitVec 29 → BitVec 64} {final : BitVec 29} {c : Ctrl} {script : List Event}
    (phase : Phase mem final c script) (idle : c.state = .sIdle) : script = [] ∧ c.darR = final := by
  cases phase with
  | done _ dar => exact ⟨rfl, dar⟩
  | reread _ state | rereadNext _ state | cmd0 _ _ state | next0 _ _ state | cmd1 _ _ state | next1 _ _ state =>
      exact absurd (idle.symm.trans state) (by decide)
  | alone first | both _ _ first =>
      rw [idle] at first
      cases first
  | second _ _ second =>
      rw [idle] at second
      cases second

theorem chain_in_order (mem : BitVec 29 → BitVec 64) (m : Masters)
    (reached : Clocked.Reachable Masters.step Exclusive AfterReset m) (idle : m.ctrl.state = .sIdle)
    (first : MastersIn) (rest : List MastersIn) (exclusive : Exclusive m first)
    (periods : Clocked.Admits Masters.step (ChainPeriod mem) (m.step first) rest)
    (script : List Event) (final : BitVec 29) (started : Started mem m first script final) :
    Clocked.trace Masters.step Masters.events m (first :: rest) <+: script ∧
    ((Clocked.run Masters.step m (first :: rest)).ctrl.state = .sIdle →
      Clocked.trace Masters.step Masters.events m (first :: rest) = script ∧
      (Clocked.run Masters.step m (first :: rest)).ctrl.darR = final) := by
  have dispatch := dispatch_reachable m reached
  obtain ⟨left, opening, phase⟩ := started_advances exclusive dispatch idle script started
  obtain ⟨remaining, emitted, reachedPhase⟩ := Clocked.trace_script Masters.step Masters.events (ChainPeriod mem)
    (fun s events => Dispatch s ∧ Phase mem final s.ctrl events)
    (fun s i events holds period => by
      obtain ⟨others, now, next⟩ := phase_advances period.exclusive holds.1 period.memory period.busy events holds.2
      exact ⟨others, now, dispatch_step s i holds.1 period.exclusive, next⟩)
    (m.step first) rest left ⟨dispatch_step m first dispatch exclusive, phase⟩ periods
  have whole : script = Clocked.trace Masters.step Masters.events m (first :: rest) ++ remaining := by
    rw [opening, emitted, ← List.append_assoc]
    rfl
  refine ⟨⟨remaining, whole.symm⟩, fun back => ?_⟩
  obtain ⟨nothing, dar⟩ := phase_idle reachedPhase.2 back
  rw [nothing, List.append_nil] at whole
  exact ⟨whole.symm, dar⟩

def twoJobs (a : BitVec 29) : BitVec 64 :=
  if a = 0x20 then 0x180 else if a = 0x21 then 0x400 else 0

def twoJobsRun : List MastersIn :=
  [ MastersIn.quiet, .ack 0x180, .ack 0x400, .ack 0, .ack 0, .quiet, .ack 0, .ack 0, .ack 0, .ack 0, .quiet,
    .host, .quiet, .quiet, .host, .quiet ]

theorem two_jobs_in_order :
    Clocked.trace Masters.step Masters.events (Masters.reset ⟨fun _ => default, default⟩) (MastersIn.start 0x20 :: twoJobsRun) =
      jobsLog [0x20, 0x30] ∧
    (Clocked.run Masters.step (Masters.reset ⟨fun _ => default, default⟩) (MastersIn.start 0x20 :: twoJobsRun)).ctrl.darR = 0x30 :=
  (chain_in_order twoJobs (Masters.reset ⟨fun _ => default, default⟩) ⟨_, [], ⟨_, rfl⟩, trivial, rfl⟩ rfl
    (MastersIn.start 0x20) twoJobsRun (by decide +kernel) (by decide +kernel) _ _
    (.ndar [0x30] rfl rfl rfl ⟨by decide +kernel, by decide +kernel, show contOf twoJobs 0x30 = false by decide +kernel⟩)).2 (by decide +kernel)

end SsAdma
