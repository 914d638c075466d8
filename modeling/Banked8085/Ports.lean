import Banked8085.Word

/-! # Input and output ports

The processor reaches 256 input and 256 output ports through two optional handlers that share the
state of an attached device:

* `Ports.read`: ask the read handler; without one every port reads `unconnected`;
* `Ports.write`: tell the write handler; without one the value is lost;
* `Ports.detach`: remove both handlers and keep the device.
-/

namespace Banked8085
set_option autoImplicit false

structure Ports (σ : Type) where
  device : σ
  onRead : Option (Byte → σ → Byte × σ) := none
  onWrite : Option (Byte → Byte → σ → σ) := none

namespace Ports
variable {σ : Type}

/-- What a port with nothing behind it reads. -/
def unconnected : Byte := 0xFF

/-- Writing to this port selects a memory bank; the processor itself answers it. -/
def bankSelect : Byte := 254

def read (ports : Ports σ) (port : Byte) : Byte × Ports σ :=
  match ports.onRead with
  | none => (unconnected, ports)
  | some handler =>
    let (value, device) := handler port ports.device
    (value, { ports with device := device })

def write (ports : Ports σ) (port value : Byte) : Ports σ :=
  match ports.onWrite with
  | none => ports
  | some handler => { ports with device := handler port value ports.device }

def detach (ports : Ports σ) : Ports σ := { ports with onRead := none, onWrite := none }

theorem read_of_none {ports : Ports σ} (h : ports.onRead = none) (port : Byte) :
    ports.read port = (unconnected, ports) := by
  simp [read, h]

theorem write_of_none {ports : Ports σ} (h : ports.onWrite = none) (port value : Byte) :
    ports.write port value = ports := by
  simp [write, h]

@[simp] theorem onRead_read (ports : Ports σ) (port : Byte) :
    (ports.read port).2.onRead = ports.onRead := by
  unfold read
  split <;> simp_all

@[simp] theorem onWrite_read (ports : Ports σ) (port : Byte) :
    (ports.read port).2.onWrite = ports.onWrite := by
  unfold read
  split <;> simp_all

@[simp] theorem onRead_write (ports : Ports σ) (port value : Byte) :
    (ports.write port value).onRead = ports.onRead := by
  unfold write
  split <;> rfl

@[simp] theorem onWrite_write (ports : Ports σ) (port value : Byte) :
    (ports.write port value).onWrite = ports.onWrite := by
  unfold write
  split <;> simp_all

end Ports
end Banked8085
