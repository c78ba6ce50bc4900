import Mathlib.Data.List.Basic

set_option autoImplicit false

namespace SpiBus

-- The levels on the wires. A device is selected while sel is low.
structure Pins where
  sel : Bool
  sck : Bool
  mosi : Bool
deriving DecidableEq, Repr

structure Device (D : Type) where
  react : Pins → Pins → D → D
  miso : D → Bool

structure Edge where
  selected : Bool
  changes : ℕ
deriving DecidableEq, Repr

structure Probe (D : Type) where
  changes : ℕ
  edges : List Edge
  inner : D

variable {D : Type}

def Probe.react (spi : Device D) (old new : Pins) (probe : Probe D) : Probe D :=
  { changes := if old.sel = new.sel then probe.changes else probe.changes + 1
    edges := if old.sck = false ∧ new.sck = true then probe.edges ++ [⟨!new.sel, probe.changes⟩] else probe.edges
    inner := spi.react old new probe.inner }

def probed (spi : Device D) : Device (Probe D) where
  react := Probe.react spi
  miso := fun probe => spi.miso probe.inner

end SpiBus
