import Iuring.Lib.Memory
import Iuring.NetworkProtocols
import Iuring.Process
import Mathlib.Algebra.Group.Nat.Defs
import Mathlib.Data.Nat.Find

namespace Iuring

open Lib Lib.Memory

def SendPacket.capacity : Nat := 4096

/-- Arithmetic on size_t is modulo this number. -/
def sizeModulus : Nat := 2 ^ 64

/-- The bytes from a pointer on, with a length that is a size_t. -/
structure Span where
  bytes : List Byte
  length_lt : bytes.length < sizeModulus

/-- The memory from a `const char*` on, with a NUL that the address space holds. -/
structure CString where
  mem : Nat → Byte
  terminated : ∃ n, n < sizeModulus ∧ mem n = 0

def CString.strlen (s : CString) : Nat := Nat.find s.terminated

/-- The fill count and the memory from the first byte of the buffer on. -/
structure SendPacket where
  size : Nat
  buf : Nat → Byte
deriving Inhabited

namespace SendPacket

def append (data : List Byte) (p : SendPacket) : Result SendPacket := do
  assert ((p.size + data.length) % sizeModulus < capacity)
  return ⟨(p.size + data.length) % sizeModulus, write p.buf p.size data⟩

def appendByte (b : Byte) (p : SendPacket) : Result SendPacket := p.append [b]

def appendUint16 (v : BitVec 16) (p : SendPacket) : Result SendPacket :=
  p.append (bytes16 (ntohs v))

def appendUint32 (v : BitVec 32) (p : SendPacket) : Result SendPacket :=
  p.append (bytes32 (ntohl v))

def appendString (data : StdString) (p : SendPacket) : Result SendPacket := p.append data.bytes

def appendCString (data : CString) (p : SendPacket) : Result SendPacket :=
  p.append (read data.mem 0 data.strlen)

/-- The constructor of T writes some of the object's bytes over the cleared ones. -/
def emplaceBack (sizeofT : Nat) (ctor : Nat → Option Byte) (p : SendPacket) :
    Result SendPacket := do
  assert ((p.size + sizeofT) % sizeModulus < capacity)
  let buf := fill p.buf p.size sizeofT 0
  return ⟨(p.size + sizeofT) % sizeModulus, overlay buf p.size sizeofT ctor⟩

def reset (p : SendPacket) : SendPacket := ⟨0, fill p.buf 0 p.size 0⟩

def cleanProper (p : SendPacket) : SendPacket := ⟨0, fill p.buf 0 capacity 0⟩

def data (p : SendPacket) (len : Nat) : List Byte := read p.buf 0 len

theorem append_reset_eq_ok {msg : StdString} {p q : SendPacket} :
    append msg.bytes p.reset = .ok q ↔
      msg.bytes.length < capacity ∧ q = ⟨msg.bytes.length, write p.reset.buf 0 msg.bytes⟩ := by
  have hm : (0 + msg.bytes.length) % sizeModulus = msg.bytes.length := by
    have hl := msg.length_lt
    rw [sizeModulus]
    omega
  simp only [append, Checked.bind_eq_ok, assert_eq_ok, exists_const, Checked.pure_eq_ok,
    show p.reset.size = 0 from rfl, hm, eq_comm (a := q)]

end SendPacket

end Iuring
