import Iuring.Lib.Memory
import Iuring.NetworkProtocols
import Iuring.Process

namespace Iuring

open Lib.Memory

def afInet : BitVec 16 := 2

def afInet6 : BitVec 16 := 10

def sizeofInAddr : Nat := 4

def sizeofIn6Addr : Nat := 16

def sizeofSockaddrIn : Nat := 16

def sizeofSockaddrIn6 : Nat := 28

def sizeofSockaddrStorage : Nat := 128

/-- The fields as the host loads them: port and address are in network order. -/
structure SockaddrIn where
  sinFamily : BitVec 16
  sinPort : BitVec 16
  sinAddr : BitVec 32
  sinZero : BitVec 64
deriving DecidableEq, Inhabited

structure SockaddrIn6 where
  sin6Family : BitVec 16
  sin6Port : BitVec 16
  sin6Flowinfo : BitVec 32
  sin6Addr : BitVec 128
  sin6ScopeId : BitVec 32
deriving DecidableEq, Inhabited

def SockaddrIn.load (m : Nat → Byte) (off : Nat) : SockaddrIn :=
  ⟨load16 m off, load16 m (off + 2), load32 m (off + 4), load64 m (off + 8)⟩

def SockaddrIn6.load (m : Nat → Byte) (off : Nat) : SockaddrIn6 :=
  ⟨load16 m off, load16 m (off + 2), load32 m (off + 4), load128 m (off + 8), load32 m (off + 24)⟩

def SockaddrIn.bytes (sa : SockaddrIn) : List Byte :=
  bytes16 sa.sinFamily ++ bytes16 sa.sinPort ++ bytes32 sa.sinAddr ++ bytes64 sa.sinZero

def SockaddrIn6.bytes (sa : SockaddrIn6) : List Byte :=
  bytes16 sa.sin6Family ++ bytes16 sa.sin6Port ++ bytes32 sa.sin6Flowinfo ++
    bytes128 sa.sin6Addr ++ bytes32 sa.sin6ScopeId

theorem SockaddrIn.length_bytes (sa : SockaddrIn) : sa.bytes.length = sizeofSockaddrIn := rfl

theorem SockaddrIn6.length_bytes (sa : SockaddrIn6) : sa.bytes.length = sizeofSockaddrIn6 := rfl

theorem SockaddrIn.load_bytes {m : Nat → Byte} {off : Nat} {sa : SockaddrIn}
    (h : Holds m off sa.bytes) : SockaddrIn.load m off = sa := by
  obtain ⟨h, hzero⟩ := (holds_append m off _ _).mp h
  obtain ⟨h, haddr⟩ := (holds_append m off _ _).mp h
  obtain ⟨hfamily, hport⟩ := (holds_append m off _ _).mp h
  have hport : Holds m (off + 2) (bytes16 sa.sinPort) := hport
  have haddr : Holds m (off + 4) (bytes32 sa.sinAddr) := haddr
  have hzero : Holds m (off + 8) (bytes64 sa.sinZero) := hzero
  rw [SockaddrIn.load]
  rw [hfamily.load16, hport.load16, haddr.load32, hzero.load64]

theorem SockaddrIn6.load_bytes {m : Nat → Byte} {off : Nat} {sa : SockaddrIn6}
    (h : Holds m off sa.bytes) : SockaddrIn6.load m off = sa := by
  obtain ⟨h, hscope⟩ := (holds_append m off _ _).mp h
  obtain ⟨h, haddr⟩ := (holds_append m off _ _).mp h
  obtain ⟨h, hflow⟩ := (holds_append m off _ _).mp h
  obtain ⟨hfamily, hport⟩ := (holds_append m off _ _).mp h
  have hport : Holds m (off + 2) (bytes16 sa.sin6Port) := hport
  have hflow : Holds m (off + 4) (bytes32 sa.sin6Flowinfo) := hflow
  have haddr : Holds m (off + 8) (bytes128 sa.sin6Addr) := haddr
  have hscope : Holds m (off + 24) (bytes32 sa.sin6ScopeId) := hscope
  rw [SockaddrIn6.load]
  rw [hfamily.load16, hport.load16, hflow.load32, haddr.load128, hscope.load32]

/-- The failures of the resolver among the library's error codes. -/
inductive Error
  | hostnameResolveFailed
deriving DecidableEq

structure IPAddress where
  in4 : Option SockaddrIn := none
  in6 : Option SockaddrIn6 := none
deriving DecidableEq, Inhabited

namespace IPAddress

def ofSockaddrIn (sa : SockaddrIn) : IPAddress := { in4 := some sa }

def ofSockaddrIn6 (sa : SockaddrIn6) : IPAddress := { in6 := some sa }

/-- The constructor of the accept path, which chooses the family by length. -/
def ofSockaddrStorage (sa : Nat → Byte) (len : Nat) : Result IPAddress := do
  let in4 := if len = sizeofSockaddrIn then none else some (SockaddrIn.load sa 0)
  let in6 := if len = sizeofSockaddrIn6 then none else some (SockaddrIn6.load sa 0)
  assert (len = sizeofSockaddrIn ∨ len = sizeofSockaddrIn6)
  return ⟨in4, in6⟩

/-- The constructor from an in_addr: memset clears as many bytes of the local
struct as the argument has, and the others keep what the stack held. -/
def ofInAddr (stack : Nat → Byte) (sa : BitVec 32) (port : SocketPortID) : IPAddress :=
  let saIn := SockaddrIn.load (fill stack 0 sizeofInAddr 0) 0
  ofSockaddrIn { saIn with sinFamily := afInet, sinPort := htons port, sinAddr := sa }

def ofIn6Addr (stack : Nat → Byte) (sa : BitVec 128) (port : SocketPortID) : IPAddress :=
  let saIn := SockaddrIn6.load (fill stack 0 sizeofIn6Addr 0) 0
  ofSockaddrIn6 { saIn with sin6Family := afInet6, sin6Port := htons port, sin6Addr := sa }

def getIpv4 (a : IPAddress) : Option SockaddrIn := a.in4

def getIpv6 (a : IPAddress) : Option SockaddrIn6 := a.in6

def dataSockaddr (a : IPAddress) : Result (List Byte) :=
  match a.getIpv4, a.getIpv6 with
  | some sa, _ => .ok sa.bytes
  | none, some sa => .ok sa.bytes
  | none, none => abort

def sizeSockaddr (a : IPAddress) : Result Nat :=
  match a.getIpv4, a.getIpv6 with
  | some _, _ => .ok sizeofSockaddrIn
  | none, some _ => .ok sizeofSockaddrIn6
  | none, none => abort

def setPort (port : SocketPortID) (a : IPAddress) : Result IPAddress :=
  match a.getIpv4, a.getIpv6 with
  | some sa, _ => .ok { a with in4 := some { sa with sinPort := htons port } }
  | none, some sa => .ok { a with in6 := some { sa with sin6Port := htons port } }
  | none, none => abort

def getPort (a : IPAddress) : Result SocketPortID :=
  match a.getIpv4, a.getIpv6 with
  | some sa, _ => .ok (htons sa.sinPort)
  | none, some sa => .ok (htons sa.sin6Port)
  | none, none => abort

def valid (a : IPAddress) : Bool := a.getIpv4.isSome || a.getIpv6.isSome

/-- The i-th of the four words of an IPv6 address. -/
def u6Addr32 (sa : SockaddrIn6) (i : Nat) : BitVec 32 := sa.sin6Addr.extractLsb' (32 * i) 32

def getHash (a : IPAddress) : Result (BitVec 64) :=
  match a.in4, a.in6 with
  | some sa, _ => .ok (sa.sinAddr.setWidth 64)
  | none, some sa => .ok
    ((u6Addr32 sa 0).setWidth 64 <<< 0 ||| (u6Addr32 sa 1).setWidth 64 <<< 32 |||
      (u6Addr32 sa 2).setWidth 64 <<< 0 ||| (u6Addr32 sa 3).setWidth 64 <<< 32)
  | none, none => abort

def operatorEq (a other : IPAddress) : Bool :=
  match a.in4, other.in4 with
  | some v1, some v2 =>
    v1.sinPort = v2.sinPort && v1.sinAddr = v2.sinAddr && v1.sinFamily = v2.sinFamily
  | _, _ =>
    match a.in6, other.in6 with
    | some v1, some v2 =>
      v1.sin6Port = v2.sin6Port && v1.sin6Addr = v2.sin6Addr && v1.sin6Family = v2.sin6Family
    | _, _ => false

def operatorLt (a addr : IPAddress) : Result Bool := do
  let hash ← a.getHash
  let other ← addr.getHash
  return hash < other

/-- What inet_pton makes of a C string, for each of the two families. -/
structure InetPton where
  ipv4 : List Byte → Option (BitVec 32)
  ipv6 : List Byte → Option (BitVec 128)

/-- inet_pton sees the bytes before the first NUL. The fields that are not set keep what the
stack held. -/
def parse (inetPton : InetPton) (sa4 : SockaddrIn) (sa6 : SockaddrIn6) (ipString : StdString) :
    Except Error IPAddress :=
  match inetPton.ipv4 (cStr ipString.bytes) with
  | some addr => .ok (ofSockaddrIn { sa4 with sinFamily := afInet, sinAddr := addr })
  | none =>
    match inetPton.ipv6 (cStr ipString.bytes) with
    | some addr => .ok (ofSockaddrIn6 { sa6 with sin6Family := afInet6, sin6Addr := addr })
    | none => .error .hostnameResolveFailed

/-- The family that the constructor reports is never the one the length stands for. -/
theorem ofSockaddrStorage_family {sa : Nat → Byte} {len : Nat} {a : IPAddress}
    (h : ofSockaddrStorage sa len = .ok a) :
    (len = sizeofSockaddrIn → a.getIpv4 = none) ∧ (len = sizeofSockaddrIn6 → a.getIpv6 = none) := by
  obtain ⟨_, _, hr⟩ := Lib.Checked.bind_eq_ok.mp h
  cases hr
  exact ⟨fun hl => by simp [getIpv4, hl], fun hl => by simp [getIpv6, hl]⟩

end IPAddress

end Iuring
