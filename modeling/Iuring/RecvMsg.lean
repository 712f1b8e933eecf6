import Iuring.Lib.Memory

namespace Iuring.RecvMsg

open Lib.Memory

/-- The io_uring_recvmsg_out header that the kernel puts before a datagram. -/
structure Out where
  namelen : Nat
  controllen : Nat
  payloadlen : Nat
  flags : Nat

def sizeofOut : Nat := 16

def msgTrunc : Nat := 0x20

def load (buffer : Nat → Byte) : Out :=
  ⟨(load32 buffer 0).toNat, (load32 buffer 4).toNat, (load32 buffer 8).toNat,
    (load32 buffer 12).toNat⟩

/-- The header is there when the received length covers the reserved areas. -/
def validate (buffer : Nat → Byte) (len msgNamelen msgControllen : Nat) : Option Out :=
  if len < msgControllen + msgNamelen + sizeofOut then none else some (load buffer)

def nameOffset : Nat := sizeofOut

def payloadOffset (msgNamelen msgControllen : Nat) : Nat := sizeofOut + msgNamelen + msgControllen

def payloadLength (len msgNamelen msgControllen : Nat) : Nat :=
  len - payloadOffset msgNamelen msgControllen

end Iuring.RecvMsg
