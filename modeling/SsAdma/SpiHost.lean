import SsAdma.Ep6
import SsAdma.Loop

set_option autoImplicit false

namespace SsAdma

open ByteMemory SpiBus

structure Ep6Command where
  control : BitVec 8
  dout_len : BitVec 8
  din_len : BitVec 8
  dout : ℕ → BitVec 8

def flags (bits : List ℕ) : BitVec 8 := bits.foldl (fun control bit => control ||| (1 <<< bit)) 0

def Ep6Command.packet (ep : Ep6Command) (n : ℕ) : List (BitVec 8) :=
  ep.control :: ep.dout_len :: ep.din_len :: (List.range n).map ep.dout

def Ep6Command.fill (ep : Ep6Command) (bytes : List (BitVec 8)) : Ep6Command := { ep with dout := storeAt ep.dout 0 bytes }

structure Locals where
  ep : Ep6Command
  reply : ℕ → BitVec 8

variable {D : Type} (spi : Device D) (fpga : FpgaBoot)

-- Transfers arrive in their order: the packet is served before the next one comes.
def usb_bulk_write (ep : Ep6Command) (n : ℕ) (port : Ep6 D) : Ep6 D := out6Interrupt spi fpga (ep.packet n) port

def usb_bulk_read (size : ℕ) (reply : ℕ → BitVec 8) (port : Ep6 D) : (ℕ → BitVec 8) × Ep6 D :=
  if port.in6Busy then
    (storeAt reply 0 ((List.range (min size port.IN6BC.toNat)).map fun k => port.xdata (in6buf + k)),
      in6Interrupt spi (takeIn6 port))
  else (reply, port)

-- The part of it that reaches endpoint 6.
def spiInit (port : Ep6 D) : Ep6 D := usb_bulk_write spi fpga ⟨flags [SPI_INIT], 0, 0, fun _ => 0⟩ 0 port

def SPIFLASH_CMD_WREN : BitVec 8 := 0x06
def SPIFLASH_CMD_RDSR : BitVec 8 := 0x05
def SPIFLASH_CMD_READ : BitVec 8 := 0x03
def SPIFLASH_CMD_PAGEPROG : BitVec 8 := 0x02
def SPIFLASH_STATUS_BUSY : BitVec 32 := 0x01
def SPIFLASH_PAGESIZE : ℕ := 256
def SPI_MAX_SIZE : ℕ := 48

-- unsigned long is wide enough for every address used.
def withAddress (command : BitVec 8) (addr : ℕ) : List (BitVec 8) :=
  [command, BitVec.ofNat 8 (addr >>> 16), BitVec.ofNat 8 (addr >>> 8), BitVec.ofNat 8 (addr >>> 0)]

def readCommand (locals : Locals) (addr size : ℕ) : Ep6Command :=
  { locals.ep.fill (withAddress SPIFLASH_CMD_READ addr) with
    control := flags [SPI_WRITE, SPI_READ, SPI_CS_SEL, SPI_CS_REL]
    dout_len := 1 + 3
    din_len := BitVec.ofNat 8 size }

def spiflashRead (locals : Locals) (addr nbytes : ℕ) (port : Ep6 D) : List (BitVec 8) × Ep6 D :=
  if nbytes = 0 then ([], port)
  else
    let size := if nbytes > SPI_MAX_SIZE then SPI_MAX_SIZE else nbytes
    let ep := readCommand locals addr size
    let port := usb_bulk_write spi fpga ep 4 port
    let reply := usb_bulk_read spi (1 + size) locals.reply port
    let rest := spiflashRead ⟨ep, reply.1⟩ (addr + size) (nbytes - size) reply.2
    ((List.range size).map (fun k => reply.1 (1 + k)) ++ rest.1, rest.2)
termination_by nbytes
decreasing_by
  have positive : 0 < SPI_MAX_SIZE := by decide
  split <;> omega

def pollCommand (locals : Locals) : Ep6Command :=
  { locals.ep.fill [SPIFLASH_CMD_RDSR] with
    control := flags [SPI_WRITE, SPI_READ, SPI_CS_SEL, SPI_CS_REL]
    dout_len := 1
    din_len := 1 }

def pollStatus (state : Locals × Ep6 D) : Locals × Ep6 D :=
  let ep := pollCommand state.1
  let port := usb_bulk_write spi fpga ep 1 state.2
  let reply := usb_bulk_read spi 2 state.1.reply port
  (⟨ep, reply.1⟩, reply.2)

def statusStops (wait : BitVec 32) (state : Locals × Ep6 D) : Bool :=
  (state.1.reply 1).zeroExtend 32 &&& SPIFLASH_STATUS_BUSY &&& wait = 0

-- The loop tests behind its body. None when the polls allowed do not suffice.
def spi_status (wait : BitVec 32) (polls : ℕ) (locals : Locals) (port : Ep6 D) : Option (Ep6 D) :=
  (Loop.run (statusStops wait) (pollStatus spi fpga) polls (pollStatus spi fpga (locals, port))).map Prod.snd

structure Writing (D : Type) where
  ep : Ep6Command
  addr : ℕ
  data : List (BitVec 8)
  port : Ep6 D

def writeChunk (size : ℕ) (w : Writing D) : Writing D :=
  let ep := { w.ep.fill (w.data.take size) with control := flags [SPI_WRITE], dout_len := BitVec.ofNat 8 size }
  { w with ep := ep, data := w.data.drop size, port := usb_bulk_write spi fpga ep size w.port }

def writeData (pagelen : ℕ) (w : Writing D) : Writing D :=
  if pagelen = 0 then w
  else
    let size := if pagelen > SPI_MAX_SIZE then SPI_MAX_SIZE else pagelen
    writeData (pagelen - size) (writeChunk spi fpga size w)
termination_by pagelen
decreasing_by
  have positive : 0 < SPI_MAX_SIZE := by decide
  split <;> omega

def writeEnable (w : Writing D) : Writing D :=
  let ep := { w.ep.fill [SPIFLASH_CMD_WREN] with
    control := flags [SPI_WRITE, SPI_CS_SEL, SPI_CS_REL]
    dout_len := 1
    din_len := 0 }
  { w with ep := ep, port := usb_bulk_write spi fpga ep 1 w.port }

def beginWrite (w : Writing D) : Writing D :=
  let ep := { w.ep.fill (withAddress SPIFLASH_CMD_PAGEPROG w.addr) with
    control := flags [SPI_WRITE, SPI_CS_SEL], dout_len := 4 }
  { w with ep := ep, port := usb_bulk_write spi fpga ep 4 w.port }

def endWrite (w : Writing D) : Writing D :=
  let ep := { w.ep with control := flags [SPI_CS_REL], dout_len := 0, din_len := 0 }
  { w with ep := ep, port := usb_bulk_write spi fpga ep 0 w.port }

def pageLength (nbytes page : ℕ) : ℕ :=
  if (page <<< 8) + SPIFLASH_PAGESIZE ≤ nbytes then SPIFLASH_PAGESIZE else nbytes - (page <<< 8)

-- The body of the page loop. stack is what spi_status finds in its locals then.
def writePage (stack : ℕ → Locals) (polls nbytes : ℕ) (w : Writing D) (page : ℕ) : Option (Writing D) :=
  let w := beginWrite spi fpga (writeEnable spi fpga w)
  let pagelen := pageLength nbytes page
  let w := endWrite spi fpga (writeData spi fpga pagelen { w with addr := w.addr + pagelen })
  (spi_status spi fpga 1 polls (stack page) w.port).map fun port => { w with port := port }

def spiflashWrite (locals : Locals) (stack : ℕ → Locals) (polls addr nbytes : ℕ) (data : List (BitVec 8)) (port : Ep6 D) :
    Option (Ep6 D) :=
  ((List.range ((nbytes + SPIFLASH_PAGESIZE - 1) >>> 8)).foldlM (writePage spi fpga stack polls nbytes)
    ⟨locals.ep, addr, data, port⟩).map Writing.port

end SsAdma
