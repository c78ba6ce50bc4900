import Mathlib.Data.BitVec

set_option autoImplicit false

namespace SsAdma

inductive SgState where
  | sIdle | sCmd | sDReq | sBReq | sBWait | sNext | sEnd | sPanic
deriving DecidableEq, Repr, Inhabited

def SgState.code : SgState → BitVec 3
  | .sIdle => 0
  | .sCmd => 1
  | .sDReq => 2
  | .sBReq => 3
  | .sBWait => 4
  | .sNext => 5
  | .sEnd => 6
  | .sPanic => 7

-- Registers of one scatter-gather engine. Byte addresses [31:3] are kept as
-- 29-bit word addresses. wbs_stb, wbs_cab and wbs_sel are left out: the mixer
-- ties these lines off and reads none of them.
structure SsSg where
  wbsCyc : Bool
  wbsWe : Bool
  wbsPref : Bool
  wbsAdrR : BitVec 29
  state : SgState
  cnt : Bool
  io : Bool
  err : BitVec 3
  sgLast : Bool
  sgLen : BitVec 16
  sgAddr : BitVec 29
  sgNext : BitVec 29
  cDone : Bool
deriving DecidableEq, Repr, Inhabited

structure SsSgIn where
  wbRst : Bool := false
  wbsDatO : BitVec 32
  wbsDat64O : BitVec 32
  wbsAck : Bool
  wbsErr : Bool := false
  wbsRty : Bool
  ssDat : BitVec 32
  ssWe : Bool
  ssAdr : BitVec 2
  ssDone : Bool
  ssDc : BitVec 24
  ssStart : Bool
  ssEnd : Bool
  ssStop : Bool
deriving DecidableEq, Repr

structure SsSgOut where
  stateN : SgState
  sgLastN : Bool
  sgNextN : BitVec 29
  sgAddrStart : Bool
  sgAddrInc : Bool
  wbsAdrStart : Bool
  wbsAdrInc : Bool
  wbsAdrN : BitVec 29
  wbsCycN : Bool
  wbsWeN : Bool
  wbsPrefN : Bool
  errN : BitVec 3
  cntN : Bool
  ioN : Bool
  ssXfer : Bool
  ssLast : Bool
deriving DecidableEq, Repr

def wordAddr (byteAddr : BitVec 32) : BitVec 29 := byteAddr.extractLsb' 3 29

def SsSg.hold (r : SsSg) : SsSgOut where
  stateN := r.state
  sgLastN := r.sgLast
  sgNextN := r.sgNext
  sgAddrStart := false
  sgAddrInc := false
  wbsAdrStart := false
  wbsAdrInc := false
  wbsAdrN := r.wbsAdrR
  wbsCycN := r.wbsCyc
  wbsWeN := r.wbsWe
  wbsPrefN := r.wbsPref
  errN := r.err
  cntN := r.cnt
  ioN := r.io
  ssXfer := false
  ssLast := false

def SsSg.comb (rw : Bool) (r : SsSg) (i : SsSgIn) : SsSgOut :=
  match r.state with
  | .sIdle =>
      { r.hold with
        stateN := if i.ssWe then .sCmd else .sIdle
        ioN := false
        errN := SgState.sIdle.code }
  | .sCmd =>
      if i.ssWe then
        if i.ssAdr = 2 then
          if rw = false then { r.hold with sgNextN := wordAddr i.ssDat } else r.hold
        else if i.ssAdr = 3 then
          { r.hold with
            sgNextN := if rw then wordAddr i.ssDat else r.sgNext
            sgLastN := false
            stateN :=
              if rw && !i.ssDc.getLsbD 2 then .sEnd
              else if !rw && !i.ssDc.getLsbD 1 then .sEnd
              else .sNext }
        else r.hold
      else r.hold
  | .sDReq =>
      let req := { r.hold with wbsCycN := true, wbsWeN := false, wbsPrefN := false }
      match i.wbsAck, i.wbsRty, i.wbsErr with
      | true, false, false =>
          if r.cnt then
            { req with
              wbsAdrInc := true
              sgNextN := wordAddr i.wbsDatO
              wbsCycN := false
              stateN := .sBWait }
          else
            { req with
              wbsAdrInc := true
              sgLastN := i.wbsDatO[20]
              sgAddrStart := true
              cntN := true }
      | false, false, true => { req with errN := SgState.sDReq.code, stateN := .sPanic }
      | _, _, _ => req
  | .sBReq =>
      let req := { r.hold with wbsCycN := true, wbsWeN := rw, wbsPrefN := true }
      match i.wbsAck, i.wbsRty, i.wbsErr with
      | true, false, false =>
          let acked := { req with wbsAdrInc := true, sgAddrInc := true, ioN := true, ssXfer := true }
          if r.sgLen = 1 then
            { acked with wbsCycN := false, wbsWeN := false, stateN := .sNext }
          else if i.ssStop || i.ssEnd then
            { acked with wbsCycN := false, wbsWeN := false, stateN := .sBWait }
          else acked
      | false, _, false =>
          -- 3'b010 and 3'b000 share one branch
          if r.io then { req with wbsCycN := false, wbsWeN := false, stateN := .sBWait } else req
      | false, false, true => { req with errN := SgState.sBReq.code, stateN := .sPanic }
      | _, _, _ => req
  | .sBWait =>
      if i.ssEnd && r.io then { r.hold with stateN := .sEnd }
      else if i.ssStart then
        { r.hold with
          wbsAdrStart := true
          wbsAdrN := r.sgAddr
          wbsCycN := true
          wbsWeN := rw
          wbsPrefN := true
          stateN := .sBReq
          ioN := false }
      else r.hold
  | .sNext =>
      -- "end if" in the source: the test of ss_end before this one assigns
      -- state_n, and both branches below assign it again.
      if r.sgLast then { r.hold with ssXfer := true, ssLast := true, stateN := .sEnd }
      else
        { r.hold with
          stateN := .sDReq
          wbsAdrStart := true
          wbsAdrN := r.sgNext
          wbsCycN := true
          wbsWeN := false
          wbsPrefN := false
          cntN := false }
  | .sEnd => if i.ssEnd then r.hold else { r.hold with errN := SgState.sEnd.code }
  | .sPanic => r.hold

-- wb_rst_i is asynchronous: while it is high, state and wbs_cyc already show
-- their reset values.
def SsSg.live (r : SsSg) (wbRst : Bool) : SsSg :=
  if wbRst then { r with wbsCyc := false, state := .sIdle } else r

def SsSg.latch (r : SsSg) (i : SsSgIn) (n : SsSgOut) : SsSg where
  wbsCyc := if i.wbRst || i.ssDone then false else n.wbsCycN
  wbsWe := n.wbsWeN
  wbsPref := n.wbsPrefN
  wbsAdrR := if n.wbsAdrStart then n.wbsAdrN else if n.wbsAdrInc then r.wbsAdrR + 1 else r.wbsAdrR
  state := if i.wbRst || i.ssDone then .sIdle else n.stateN
  cnt := n.cntN
  io := n.ioN
  err := n.errN
  sgLast := n.sgLastN
  sgLen := if n.sgAddrStart then i.wbsDatO.extractLsb' 3 16 else if n.sgAddrInc then r.sgLen - 1 else r.sgLen
  sgAddr := if n.sgAddrStart then wordAddr i.wbsDat64O else if n.sgAddrInc then r.sgAddr + 1 else r.sgAddr
  sgNext := n.sgNextN
  cDone := r.state = .sEnd

def SsSg.step (rw : Bool) (r : SsSg) (i : SsSgIn) : SsSg :=
  let r := r.live i.wbRst
  r.latch i (r.comb rw i)

end SsAdma
