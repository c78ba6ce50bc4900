import Mathlib.Data.BitVec

set_option autoImplicit false

namespace SsAdma

-- The data modules sit on tristate lines; mod.v pulls m_src_getn, m_dst_putn
-- and m_endn up when no module drives them.
structure ModOut where
  mSrcGetn : Bool := true
  mDstPutn : Bool := true
  mDst : BitVec 64 := 0
  mDstLast : Bool := false
  mEndn : Bool := true
deriving DecidableEq, Repr

structure ModIn where
  mReset : Bool
  mEnable : Bool
  dc : BitVec 24
  mSrc : BitVec 64
  mSrcLast : Bool
  mSrcAlmostEmpty : Bool
  mSrcEmpty : Bool
  mDstAlmostFull : Bool
  mDstFull : Bool
deriving DecidableEq, Repr

inductive Copy where
  | sIdle | sRun | sWait | sEnd
deriving DecidableEq, Repr

-- wb_rst_i of a data module is m_reset, asynchronous.
def Copy.live (state : Copy) (mReset : Bool) : Copy := if mReset then .sIdle else state

def Copy.out (state : Copy) (i : ModIn) : ModOut :=
  let state := state.live i.mReset
  if i.dc.getLsbD 4 then
    { mSrcGetn := !decide (state = .sRun)
      mDstPutn := !decide (state = .sRun)
      mDst := i.mSrc
      mDstLast := i.mSrcLast
      mEndn := !decide (state = .sEnd) }
  else {}

def Copy.next (state : Copy) (i : ModIn) : Copy :=
  match state with
  | .sIdle => if i.mEnable && i.dc.getLsbD 4 && !i.mDstFull && !i.mSrcEmpty then .sRun else .sIdle
  | .sRun =>
      if i.mSrcLast then .sEnd
      else if i.mDstFull || i.mDstAlmostFull then .sWait
      else if i.mSrcEmpty || i.mSrcAlmostEmpty then .sWait
      else .sRun
  | .sWait => if !i.mDstFull && !i.mSrcEmpty then .sRun else .sWait
  | .sEnd => .sEnd

def Copy.step (state : Copy) (i : ModIn) : Copy := if i.mReset then .sIdle else state.next i

end SsAdma
