import SsAdma.SsSg
import SsAdma.Ch

set_option autoImplicit false

namespace SsAdma

inductive Resp where
  | wait | ack | rty
deriving DecidableEq, Repr

def Resp.isAck : Resp → Bool
  | .ack => true
  | _ => false

def Resp.isRty : Resp → Bool
  | .rty => true
  | _ => false

structure Chan where
  src : SsSg
  dst : SsSg
  ch : Ch
  copy : Copy

structure ChanCmd where
  ssDat : BitVec 32
  ssWe : Bool
  ssAdr : BitVec 2
  ssDone : Bool
  dc : BitVec 24
  mReset : Bool
  mEnable : Bool

structure BusIn where
  resp : Resp
  dat : BitVec 64

def sgIn (cmd : ChanCmd) (bus : BusIn) (ssStart ssEnd ssStop : Bool) : SsSgIn where
  wbsDatO := bus.dat.extractLsb' 0 32
  wbsDat64O := bus.dat.extractLsb' 32 32
  wbsAck := bus.resp.isAck
  wbsRty := bus.resp.isRty
  ssDat := cmd.ssDat
  ssWe := cmd.ssWe
  ssAdr := cmd.ssAdr
  ssDone := cmd.ssDone
  ssDc := cmd.dc
  ssStart := ssStart
  ssEnd := ssEnd
  ssStop := ssStop

def modIn (cmd : ChanCmd) (ch : Ch) : ModIn where
  mReset := cmd.mReset
  mEnable := cmd.mEnable
  dc := cmd.dc
  mSrc := ch.src.dout.data
  mSrcLast := ch.src.dout.last
  mSrcAlmostEmpty := ch.src.control.almostEmptyOut
  mSrcEmpty := ch.src.control.emptyOut
  mDstAlmostFull := ch.dst.control.almostFullOut
  mDstFull := ch.dst.control.fullOut

def Chan.step (c : Chan) (cmd : ChanCmd) (srcBus dstBus : BusIn) : Chan :=
  let ch := c.ch.live cmd.mReset
  let m := c.copy.out (modIn cmd ch)
  let si := sgIn cmd srcBus ch.srcStart ch.srcEnd ch.srcStop
  let di := sgIn cmd dstBus (ch.dstStart m.mEndn) ch.dstEnd ch.dstStop
  let so := c.src.comb false si
  let dout := c.dst.comb true di
  { src := c.src.step false si
    dst := c.dst.step true di
    ch := ch.step
      { srcXfer := so.ssXfer
        dstXfer := dout.ssXfer
        srcLast := so.ssLast
        srcDatO := si.wbsDatO
        srcDat64O := si.wbsDat64O
        mReset := cmd.mReset
        mod := m }
    copy := c.copy.step (modIn cmd ch) }

end SsAdma
