import SsAdma.ByteMemory
import SsAdma.SpiBus

set_option autoImplicit false

namespace SsAdma

open ByteMemory SpiBus

-- What the endpoint 6 handlers use of the microcontroller: of each port register
-- the bit of an SPI wire (FPGA_CCLK of OUTA and PORTACFG, SPI_SEL of OUTC and OEC,
-- SPI_D of the data bus), the endpoint buffers from OUT6BUF on, and the device.
structure Ep6 (D : Type) where
  OUTA : Bool
  PORTACFG : Bool
  fwr : Bool
  OUTC : Bool
  OEC : Bool
  FIFO : Bool
  xdata : ℕ → BitVec 8
  in6Busy : Bool
  IN6BC : BitVec 8
  ep6in_len : BitVec 8
  ep6in_pending : Bool
  dev : D

def out6buf : ℕ := 0
def in6buf : ℕ := 0x40

-- What the FPGA shows on PORT C while it is booted, and the levels on D3 while
-- spi_read_data moves data over the bus.
structure FpgaBoot where
  INIT_B : Bool
  DONE : Bool
  bus : ℕ → Bool

variable {D : Type} (spi : Device D)

-- PC0 is pulled up while it is an input. PA4 is the fast write strobe while
-- PORTACFG says so: FASTXFR makes that strobe active high.
def Ep6.pins (s : Ep6 D) : Pins where
  sel := !(s.OEC && !s.OUTC)
  sck := if s.PORTACFG then s.fwr else s.OUTA
  mosi := s.FIFO

def settle (old new : Ep6 D) : Ep6 D := { new with dev := spi.react old.pins new.pins new.dev }

def writeOUTA (level : Bool) (s : Ep6 D) : Ep6 D := settle spi s { s with OUTA := level }
def writePORTACFG (level : Bool) (s : Ep6 D) : Ep6 D := settle spi s { s with PORTACFG := level }
def writeOUTC (level : Bool) (s : Ep6 D) : Ep6 D := settle spi s { s with OUTC := level }
def writeOEC (level : Bool) (s : Ep6 D) : Ep6 D := settle spi s { s with OEC := level }

def spi_clearSCK (s : Ep6 D) : Ep6 D := writeOUTA spi false s
def spi_setSCK (s : Ep6 D) : Ep6 D := writeOUTA spi true s
def spi_bitMOSI (b : Bool) (s : Ep6 D) : Ep6 D := settle spi s { s with FIFO := b }
def spi_setMOSI (s : Ep6 D) : Ep6 D := spi_bitMOSI spi true s
def spi_getMISO (s : Ep6 D) : Bool := spi.miso s.dev

def spi_RecDataBit (s : Ep6 D) : Bool × Ep6 D :=
  let s := spi_setSCK spi (spi_clearSCK spi s)
  (spi_getMISO spi s, spi_clearSCK spi s)

def spi_sendDataBit (b : Bool) (s : Ep6 D) : Ep6 D :=
  spi_clearSCK spi (spi_setSCK spi (spi_bitMOSI spi b (spi_clearSCK spi s)))

-- char is signed.
def bitsDown : List ℕ := [7, 6, 5, 4, 3, 2, 1, 0]

def spi_send_byte (t : BitVec 8) (s : Ep6 D) : Ep6 D :=
  spi_setMOSI spi (bitsDown.foldl (fun s i => spi_sendDataBit spi (t.getLsbD i) s) (spi_clearSCK spi s))

def recvBit (got : BitVec 8 × Ep6 D) (i : ℕ) : BitVec 8 × Ep6 D :=
  let bit := spi_RecDataBit spi got.2
  (if bit.1 then got.1 ||| (1 <<< i) else got.1, bit.2)

def spi_recv_byte (s : Ep6 D) : BitVec 8 × Ep6 D :=
  let got := bitsDown.foldl (recvBit spi) (0, spi_clearSCK spi s)
  (got.1, spi_setMOSI spi got.2)

def store (off : ℕ) (bytes : List (BitVec 8)) (s : Ep6 D) : Ep6 D := { s with xdata := storeAt s.xdata off bytes }

def recvInto (s : Ep6 D) (j : ℕ) : Ep6 D :=
  let got := spi_recv_byte spi s
  store (in6buf + 1 + j) [got.1] got.2

def send_ep6_data (s : Ep6 D) : Ep6 D :=
  if s.in6Busy then { s with ep6in_pending := true }
  else
    let s := writePORTACFG spi false (store in6buf [s.ep6in_len] s)
    let s := writePORTACFG spi true ((List.range (s.xdata in6buf).toNat).foldl (recvInto spi) s)
    { s with IN6BC := 1 + s.ep6in_len, in6Busy := true }

-- One AUTODATA read: the byte goes out on the data bus under the fast write strobe.
def strobeFWR (level : Bool) (s : Ep6 D) : Ep6 D :=
  let s := spi_bitMOSI spi level s
  let s := settle spi s { s with fwr := true }
  settle spi s { s with fwr := false }

def spi_read_data (fpga : FpgaBoot) (s : Ep6 D) : Ep6 D :=
  (List.range (200 * 8 * 128 * 16)).foldl (fun s k => strobeFWR spi (fpga.bus k) s) s

-- FPGA_PROG_M0 and SPI_SEL are the same pin.
def spi_read_flash (fpga : FpgaBoot) (s : Ep6 D) : Ep6 D :=
  let s := writePORTACFG spi false (writeOUTC spi false s)
  let s := [3, 0, 0, 0].foldl (fun s t => spi_send_byte spi t s) s
  spi_read_data spi fpga (writePORTACFG spi true s)

def spi_reset (s : Ep6 D) : Ep6 D :=
  let s := spi_setMOSI spi (spi_clearSCK spi (writeOEC spi true s))
  writeOUTC spi true (writeOUTC spi false (writeOUTC spi true s))

-- The wait for INIT_B to rise is over when this returns.
def spi_boot_fpga (fpga : FpgaBoot) (serial : BitVec 8) (s : Ep6 D) : Ep6 D :=
  let s := writeOEC spi true (spi_reset spi s)
  if fpga.INIT_B then s
  else if fpga.DONE then s
  else writeOUTC spi true (writeOUTC spi (serial ≠ 0) s)

def SPI_READ : ℕ := 1
def SPI_WRITE : ℕ := 2
def SPI_INIT : ℕ := 3
def SPI_EXIT : ℕ := 4
def SPI_CS_SEL : ℕ := 5
def SPI_CS_REL : ℕ := 6
def SPI_BOOT_FPGA : ℕ := 7

def Ep6.control (s : Ep6 D) (bit : ℕ) : Bool := (s.xdata out6buf).getLsbD bit
def Ep6.dout_len (s : Ep6 D) : BitVec 8 := s.xdata (out6buf + 1)
def Ep6.din_len (s : Ep6 D) : BitVec 8 := s.xdata (out6buf + 2)
def Ep6.dout (s : Ep6 D) (j : ℕ) : BitVec 8 := s.xdata (out6buf + 3 + j)

def sendFrom (s : Ep6 D) (j : ℕ) : Ep6 D := spi_send_byte spi (s.dout j) s

-- The if statements of endpoint6_out, in their order.
def onBoot (fpga : FpgaBoot) (s : Ep6 D) : Ep6 D :=
  if s.control SPI_BOOT_FPGA then
    let s := spi_boot_fpga spi fpga s.dout_len s
    if s.din_len ≠ 0 then spi_read_flash spi fpga s else s
  else s

def onInit (s : Ep6 D) : Ep6 D := if s.control SPI_INIT then spi_reset spi s else s

def onSelect (s : Ep6 D) : Ep6 D := if s.control SPI_CS_SEL then writeOUTC spi false s else s

def onWrite (s : Ep6 D) : Ep6 D :=
  if s.control SPI_WRITE then
    let s := writePORTACFG spi false s
    writePORTACFG spi true ((List.range s.dout_len.toNat).foldl (sendFrom spi) s)
  else s

def onRead (s : Ep6 D) : Ep6 D :=
  if s.control SPI_READ then send_ep6_data spi { s with ep6in_len := s.din_len } else s

def onRelease (s : Ep6 D) : Ep6 D := if s.control SPI_CS_REL then writeOUTC spi true s else s

def onExit (s : Ep6 D) : Ep6 D := if s.control SPI_EXIT then writeOEC spi false s else s

def upToRead (fpga : FpgaBoot) (s : Ep6 D) : Ep6 D := onWrite spi (onSelect spi (onInit spi (onBoot spi fpga s)))

def afterRead (s : Ep6 D) : Ep6 D := onExit spi (onRelease spi s)

def endpoint6_out (fpga : FpgaBoot) (s : Ep6 D) : Ep6 D := afterRead spi (onRead spi (upToRead spi fpga s))

def in6Interrupt (s : Ep6 D) : Ep6 D :=
  if s.ep6in_pending then send_ep6_data spi { s with ep6in_pending := false } else s

def out6Interrupt (fpga : FpgaBoot) (packet : List (BitVec 8)) (s : Ep6 D) : Ep6 D :=
  endpoint6_out spi fpga (store out6buf packet s)

def takeIn6 (s : Ep6 D) : Ep6 D := { s with in6Busy := false }

end SsAdma
