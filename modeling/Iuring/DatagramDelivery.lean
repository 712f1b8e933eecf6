import Iuring.AddressDecoding
import Iuring.DispatchFaults
import Iuring.StreamReceive

namespace Iuring

open Lib Lib.Memory

namespace RecvMsg

/-- The header of a received datagram, field by field as the kernel writes it. -/
structure Header where
  namelen : BitVec 32
  controllen : BitVec 32
  payloadlen : BitVec 32
  flags : BitVec 32

def Header.bytes (hdr : Header) : List Byte :=
  bytes32 hdr.namelen ++ bytes32 hdr.controllen ++ bytes32 hdr.payloadlen ++ bytes32 hdr.flags

/-- The bytes that the kernel writes for a datagram; behind the source address it
leaves the area of the name as it was. -/
def encode (hdr : Header) (source payload : List Byte) (msgNamelen msgControllen : Nat) :
    Nat → Option Byte := fun i =>
  if i < sizeofOut then hdr.bytes[i]?
  else if i < payloadOffset msgNamelen msgControllen then source[i - nameOffset]?
  else payload[i - payloadOffset msgNamelen msgControllen]?

variable {buffer : Nat → Byte} {hdr : Header} {source payload : List Byte}
  {msgNamelen msgControllen n : Nat}

/-- The buffer has every byte that was written into it, up to its end. -/
def Wrote (buffer : Nat → Byte) (n : Nat) (data : Nat → Option Byte) : Prop :=
  ∀ i < n, ∀ b ∈ data i, buffer i = b

theorem Wrote.holds {data : Nat → Option Byte} (h : Wrote buffer n data) {off : Nat}
    {xs : List Byte} (hfits : off + xs.length ≤ n)
    (hdata : ∀ i < xs.length, data (off + i) = xs[i]?) : Holds buffer off xs := by
  apply List.ext_getElem (length_read _ _ _)
  intro i hi hx
  have hb := h (off + i) (by omega) xs[i] (by rw [hdata i hx]; exact List.getElem?_eq_getElem hx)
  simp [Memory.read, hb]

theorem length_header (hdr : Header) : hdr.bytes.length = sizeofOut := rfl

/-- Header, source address and payload are all found where the encoding put them. -/
theorem Wrote.decoded (h : Wrote buffer n (encode hdr source payload msgNamelen msgControllen))
    (hsource : source.length ≤ msgNamelen)
    (hfits : payloadOffset msgNamelen msgControllen + payload.length ≤ n) :
    Holds buffer 0 hdr.bytes ∧ Holds buffer nameOffset source ∧
      Holds buffer (payloadOffset msgNamelen msgControllen) payload := by
  have hoff : payloadOffset msgNamelen msgControllen = sizeofOut + msgNamelen + msgControllen := rfl
  have hname : nameOffset = sizeofOut := rfl
  refine ⟨h.holds ?_ fun i hi => ?_, h.holds ?_ fun i hi => ?_, h.holds hfits fun i hi => ?_⟩
  · rw [length_header]
    omega
  · rw [length_header] at hi
    rw [encode, if_pos (by omega), Nat.zero_add]
  · omega
  · rw [encode, if_neg (by omega), if_pos (by omega), Nat.add_sub_cancel_left]
  · rw [encode, if_neg (by omega), if_neg (by omega), Nat.add_sub_cancel_left]

end RecvMsg

namespace IPAddress

theorem Encoded.length {a : IPAddress} {bytes : List Byte} {len : Nat} (h : Encoded a bytes len) :
    bytes.length = len ∧ len ≤ sizeofSockaddrStorage := by
  cases h with
  | ipv4 sa _ => exact ⟨sa.length_bytes, by decide⟩
  | ipv6 sa _ => exact ⟨sa.length_bytes, by decide⟩

end IPAddress

namespace IOUring

variable {s : IOUring} {queueSize mapped : Nat} {memory : Nat → Byte}

/-- The kernel received a datagram into a buffer with the given area for the name. -/
structure Outcome.Datagram (k : Outcome) (hdr : RecvMsg.Header) (source payload : List Byte) :
    Prop where
  buffer : k.flags &&& Completion.cqeFBuffer ≠ 0
  res : k.res = RecvMsg.payloadOffset sizeofSockaddrStorage 0 + payload.length
  fits : RecvMsg.payloadOffset sizeofSockaddrStorage 0 + payload.length ≤
    1 <<< BufferPool.bufShiftDefault
  namelen : hdr.namelen.toNat = source.length
  data : k.data = RecvMsg.encode hdr source payload sizeofSockaddrStorage 0

variable {k : Outcome} {hdr : RecvMsg.Header} {source payload : List Byte} {a : IPAddress}
  {buffer : Nat → Byte} {item : WorkItem} {cqe : Completion}

variable {rest : List Completion} {o : Nat}

private def nameServer : SockaddrIn := ⟨afInet, htons 53, 0x0100007f, 0⟩

private def answer : Outcome :=
  ⟨146, 3, default, RecvMsg.encode ⟨16, 0, 2, 0⟩ nameServer.bytes [72, 105] sizeofSockaddrStorage 0⟩

private def answered : Completion :=
  ⟨⟨0, 0, ⟨0, .recvmsgMultishot 3, false, true⟩⟩, 146, 3, [], none⟩

end IOUring

end Iuring
