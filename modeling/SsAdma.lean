import SsAdma.Clocked
import SsAdma.SsSg
import SsAdma.CopyJob
import SsAdma.FifoQueue
import SsAdma.SgScript
import SsAdma.SgBounds
import SsAdma.WriteOrder
import SsAdma.CopyStream
import SsAdma.StreamEnd
import SsAdma.MarkerRoom
import SsAdma.CopyRun
import SsAdma.CopyError
import SsAdma.OutputCount
import SsAdma.FillJob
import SsAdma.Mixer
import SsAdma.Arbiter
import SsAdma.Codeout
import SsAdma.Rbhash
import SsAdma.Loop
import SsAdma.ByteMemory
import SsAdma.IntelHex
import SsAdma.HexLoad
import SsAdma.HexImage
import SsAdma.EepromImage
import SsAdma.BitRead
import SsAdma.BitHeader
import SsAdma.Interrupt
import SsAdma.StartRequest
import SsAdma.Append
import SsAdma.HostPort
import SsAdma.BusError
import SsAdma.PanicBus
import SsAdma.Status
import SsAdma.Chain
import SsAdma.JobServe
import SsAdma.SpiBus
import SsAdma.Ep6
import SsAdma.Ep6Window
import SsAdma.Ep6Reply
import SsAdma.SpiFlash
import SsAdma.FlashClock
import SsAdma.SpiHost
import SsAdma.FlashCommand
import SsAdma.FlashReply
import SsAdma.FlashRead
import SsAdma.FlashRoundTrip
import SsAdma.Capture
import SsAdma.CaptureRun
import SsAdma.PciLog
import SsAdma.PciSync
import SsAdma.Ep3
import SsAdma.FpgaImage
import SsAdma.Gf2Poly
import SsAdma.Polymod
import SsAdma.Rabin
import SsAdma.RabinDetect
import SsAdma.Chip
import SsAdma.ChipBench
import SsAdma.ChipLane
import SsAdma.ChipWrites
import SsAdma.ChipJob
import SsAdma.ChipStep
import SsAdma.ChipRun
import SsAdma.ChipChain
import SsAdma.TwoWay
import SsAdma.TlsfMap
import SsAdma.Tlsf
import SsAdma.TlsfLists
import SsAdma.TlsfBlocks
import SsAdma.TlsfGap
import SsAdma.TlsfMalloc
import SsAdma.TlsfFree
import SsAdma.TlsfRealloc
import SsAdma.TlsfInit
import SsAdma.TlsfRun
import SsAdma.SystemMem
import SsAdma.MapBufs
import SsAdma.DoTest
import SsAdma.TlsfAllocator
