import Iuring.IPAddress
import Iuring.Lib.Hex

namespace Iuring

open Lib Lib.Memory Lib.Hex

namespace IPAddress

/-- The ways to make an address from a literal or from a bare address and a port. -/
inductive Construction
  | parse (ipString : StdString)
  | ofInAddr (sa : BitVec 32) (port : SocketPortID)
  | ofIn6Addr (sa : BitVec 128) (port : SocketPortID)

/-- What the local structs of parse and the local struct of a constructor hold
before they are written. -/
structure Stack where
  sa4 : SockaddrIn
  sa6 : SockaddrIn6
  saIn : Nat → Byte

def build (inetPton : InetPton) (stack : Stack) : Construction → Except Error IPAddress
  | .parse ipString => IPAddress.parse inetPton stack.sa4 stack.sa6 ipString
  | .ofInAddr sa port => .ok (IPAddress.ofInAddr stack.saIn sa port)
  | .ofIn6Addr sa port => .ok (IPAddress.ofIn6Addr stack.saIn sa port)

/-- The bytes in which the kernel finds the flow info and the scope id of an IPv6 address. -/
def flowAndScope (a : IPAddress) : Result (Option (List Byte × List Byte)) := do
  let bytes ← a.dataSockaddr
  let len ← a.sizeSockaddr
  return if len = sizeofSockaddrIn6 then some ((bytes.drop 4).take 4, (bytes.drop 24).take 4)
    else none

/-- Neither the library nor the kernel sees a difference. -/
structure Same (a b : IPAddress) : Prop where
  eq : a.operatorEq b = true
  port : a.getPort = b.getPort
  flowAndScope : a.flowAndScope = b.flowAndScope

/-- Whatever the stack holds, the address is the same. -/
def StackIndependent (inetPton : InetPton) (c : Construction) : Prop :=
  ∀ stack stack' a b, build inetPton stack c = .ok a → build inetPton stack' c = .ok b → Same a b

variable {inetPton : InetPton}

theorem getPort_ofSockaddrIn (sa : SockaddrIn) :
    (ofSockaddrIn sa).getPort = .ok (htons sa.sinPort) := rfl

theorem getPort_ofSockaddrIn6 (sa : SockaddrIn6) :
    (ofSockaddrIn6 sa).getPort = .ok (htons sa.sin6Port) := rfl

theorem flowAndScope_ofSockaddrIn (sa : SockaddrIn) :
    (ofSockaddrIn sa).flowAndScope = .ok none := rfl

theorem flowAndScope_ofSockaddrIn6 (sa : SockaddrIn6) : (ofSockaddrIn6 sa).flowAndScope =
    .ok (some (bytes32 sa.sin6Flowinfo, bytes32 sa.sin6ScopeId)) := rfl

theorem ofInAddr_same (stack stack' : Nat → Byte) (sa : BitVec 32) (port : SocketPortID) :
    Same (ofInAddr stack sa port) (ofInAddr stack' sa port) where
  eq := by simp [operatorEq, ofInAddr, ofSockaddrIn]
  port := by simp only [ofInAddr, getPort_ofSockaddrIn]
  flowAndScope := by simp only [ofInAddr, flowAndScope_ofSockaddrIn]

/-- The memset of the constructor ends eight bytes before the scope id. -/
theorem ofIn6Addr_scope (stack : Nat → Byte) (sa : BitVec 128) (port : SocketPortID) :
    (ofIn6Addr stack sa port).flowAndScope = .ok (some (bytes32 0, bytes32 (load32 stack 24))) := by
  have hflow : load32 (fill stack 0 sizeofIn6Addr 0) 4 = 0 := by
    simp [load32, load16, fill, sizeofIn6Addr]
  have hscope : load32 (fill stack 0 sizeofIn6Addr 0) 24 = load32 stack 24 := by
    simp [load32, load16, fill, sizeofIn6Addr]
  simp only [ofIn6Addr, flowAndScope_ofSockaddrIn6, SockaddrIn6.load, Nat.zero_add, hflow, hscope]

private def stackOf (byte : Byte) : Stack :=
  ⟨.load (fun _ => byte) 0, .load (fun _ => byte) 0, fun _ => byte⟩

theorem parse_dependent {ipString : StdString} {addr : IPAddress} {stack : Stack}
    (h : build inetPton stack (.parse ipString) = .ok addr) :
    ¬StackIndependent inetPton (.parse ipString) := by
  intro hind
  simp only [build, IPAddress.parse] at h
  cases h4 : inetPton.ipv4 (cStr ipString.bytes) with
  | some v4 =>
    have hbuild : ∀ stack, build inetPton stack (.parse ipString) =
        .ok (ofSockaddrIn { stack.sa4 with sinFamily := afInet, sinAddr := v4 }) := by
      intro stack
      simp only [build, IPAddress.parse, h4]
    have hport := (hind (stackOf 0) (stackOf 1) _ _ (hbuild _) (hbuild _)).port
    simp only [getPort_ofSockaddrIn] at hport
    exact absurd hport (by decide)
  | none =>
    cases h6 : inetPton.ipv6 (cStr ipString.bytes) with
    | some v6 =>
      have hbuild : ∀ stack, build inetPton stack (.parse ipString) =
          .ok (ofSockaddrIn6 { stack.sa6 with sin6Family := afInet6, sin6Addr := v6 }) := by
        intro stack
        simp only [build, IPAddress.parse, h4, h6]
      have hport := (hind (stackOf 0) (stackOf 1) _ _ (hbuild _) (hbuild _)).port
      simp only [getPort_ofSockaddrIn6] at hport
      exact absurd hport (by decide)
    | none => simp [h4, h6] at h

theorem ofIn6Addr_dependent (sa : BitVec 128) (port : SocketPortID) :
    ¬StackIndependent inetPton (.ofIn6Addr sa port) := by
  intro hind
  have hscope := (hind (stackOf 0) (stackOf 1) _ _ rfl rfl).flowAndScope
  rw [ofIn6Addr_scope, ofIn6Addr_scope] at hscope
  exact absurd hscope (by decide)

/-- Of the three ways only the constructor from an in_addr covers everything that is read. -/
theorem stackIndependent_iff {c : Construction} {stack : Stack} {addr : IPAddress}
    (h : build inetPton stack c = .ok addr) :
    StackIndependent inetPton c ↔ ∃ sa port, c = .ofInAddr sa port := by
  cases c with
  | parse ipString => exact iff_of_false (parse_dependent h) (by simp)
  | ofIn6Addr sa port => exact iff_of_false (ofIn6Addr_dependent sa port) (by simp)
  | ofInAddr sa port =>
    refine iff_of_true (fun stack stack' a b ha hb => ?_) ⟨sa, port, rfl⟩
    cases ha
    cases hb
    exact ofInAddr_same _ _ sa port

private def loopbackText : StdString :=
  ⟨['1', '2', '7', '.', '0', '.', '0', '.', '1'].map chr, by decide⟩

private def literals : InetPton where
  ipv4 text := if text = loopbackText.bytes then some 0x0100007f else none
  ipv6 text :=
    if text = [':', ':', '1'].map chr then some 0x01000000000000000000000000000000 else none

theorem stackIndependent_iff_loopback :
    StackIndependent literals (.ofInAddr 0x0100007f 80) ↔
      ∃ sa port, Construction.ofInAddr 0x0100007f 80 = .ofInAddr sa port :=
  have hbuild : build literals (stackOf 0) (.ofInAddr 0x0100007f 80) = .ok _ := rfl
  stackIndependent_iff hbuild

/-- The literal "127.0.0.1", parsed twice, gives two addresses that do not compare equal. -/
theorem parsed_port_indeterminate : ∃ a b,
    build literals (stackOf 0) (.parse loopbackText) = .ok a ∧
      build literals (stackOf 1) (.parse loopbackText) = .ok b ∧
        a.operatorEq b = false ∧ a.getPort ≠ b.getPort :=
  ⟨_, _, rfl, rfl, by decide, by decide⟩

end IPAddress

end Iuring
