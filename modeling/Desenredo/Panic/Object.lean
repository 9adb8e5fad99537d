import Desenredo.Abi
import Desenredo.Lsda.Scalar

/-!
# Rust panic packets

The heap object a Rust panic raises: the exception header, the address that identifies the
runtime copy that owns the packet, the payload and the hook for a packet that gets lost.
-/

namespace Desenredo.Panic

/-- Raw Rust panic exception class: the bytes of `MOZ\0RUST` in native order. -/
def CLASS : ExceptionClass :=
  ⟨Endian.little.number [0x4d, 0x4f, 0x5a, 0x00, 0x52, 0x55, 0x53, 0x54]⟩

/-- Boxed payload: the address of the value and of its virtual table. -/
structure Payload where
  data : ℕ
  vtable : ℕ
deriving DecidableEq, Repr

/-- Classification failure while extracting a caught Rust panic packet. -/
inductive CatchError where
  /-- The exception class is not Rust's. -/
  | foreign
  /-- The exception is Rust-class but belongs to another panic runtime copy. -/
  | rust
deriving DecidableEq, Repr

/-- The addresses of one linked copy of the panic runtime. -/
structure Runtime where
  /-- Address of the runtime-local identity byte. -/
  canary : ℕ
  /-- Address of the cleanup callback of a packet. -/
  cleanup : ℕ
  /-- Address of the hook for lost packets. -/
  lost : ℕ

/-- Heap object raised through the unwinder. -/
structure Packet where
  unwind : Exception
  canary : ℕ
  payload : Payload
  lost : ℕ
deriving DecidableEq, Repr

namespace Packet

/-- Constructs a packet before ownership transfers to the unwinder. -/
def new (rt : Runtime) (payload : Payload) : Packet :=
  ⟨.new CLASS rt.cleanup, rt.canary, payload, rt.lost⟩

/-- The packet stored at an address. -/
def load (m : Memory) (p : ℕ) : Packet :=
  ⟨.load m p, m (p + 32), ⟨m (p + 40), m (p + 48)⟩, m (p + 56)⟩

end Packet

/-- Extracts a payload from a locally produced Rust panic packet. -/
def take (rt : Runtime) (m : Memory) (exception : ℕ) : Except CatchError Payload :=
  if (Exception.load m exception).class_ ≠ CLASS then .error .foreign
  else
    let packet := Packet.load m exception
    if packet.canary ≠ rt.canary then .error .rust else .ok packet.payload

end Desenredo.Panic
