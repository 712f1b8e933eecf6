import Iuring.AddressEquality
import Iuring.WorkItem

namespace Iuring

open Lib Lib.Memory

/-- The constructor of SocketImpl from an accepted connection. -/
def SocketImpl.create (newConn : AcceptResult) : Result Socket := do
  let socket : Socket := ⟨newConn.getType, newConn.getPort, .serverStreamSocket, newConn.newFd⟩
  assert (0 < socket.fd)
  return socket

/-- The factory that applications are tested with. -/
def Mocks.SocketFactory.createImpl (res : AcceptResult) : Result Socket := do
  let port ← res.address.getPort
  return ⟨.ipv4Tcp, port, .serverStreamSocket, res.newFd⟩

def SameBytes (port : BitVec 16) : Prop := port.extractLsb' 0 8 = port.extractLsb' 8 8

instance (port : BitVec 16) : Decidable (SameBytes port) := inferInstanceAs (Decidable (_ = _))

theorem htons_eq_self_iff (port : BitVec 16) : htons port = port ↔ SameBytes port := by
  have hsplit : port.extractLsb' 8 8 ++ port.extractLsb' 0 8 = port :=
    BitVec.extractLsb'_append_extractLsb'
  rw [SameBytes, htons]
  constructor
  · intro h
    have hlow := congrArg (fun v => BitVec.extractLsb' 0 8 v) h
    rw [BitVec.extractLsb'_append_eq_right] at hlow
    exact hlow.symm
  · intro h
    rw [h] at hsplit ⊢
    exact hsplit

namespace AcceptResult

variable {res : AcceptResult}

/-- The port field of the address, whatever its family. -/
def PortHasSameBytes (res : AcceptResult) : Prop :=
  (∀ v, res.address.getIpv4 = some v → SameBytes v.sinPort) ∧
    ∀ v, res.address.getIpv6 = some v → SameBytes v.sin6Port

/-- The socket of the library and the one of the mock are that of the address. -/
structure SocketAgrees (res : AcceptResult) : Prop where
  port : res.address.getPort = .ok res.getPort
  ipv4 : res.address.getIpv4.isSome = true → res.getType = .ipv4Tcp
  ipv6 : res.address.getIpv6.isSome = true → res.getType = .ipv6Tcp
  sockets : ∀ socket mock, SocketImpl.create res = .ok socket →
    Mocks.SocketFactory.createImpl res = .ok mock → socket = mock

theorem create_eq_ok {socket : Socket} : SocketImpl.create res = .ok socket ↔
    0 < res.newFd ∧ socket = ⟨res.getType, res.getPort, .serverStreamSocket, res.newFd⟩ := by
  simp only [SocketImpl.create, Checked.bind_eq_ok, assert_eq_ok, exists_const, Checked.pure_eq_ok,
    eq_comm (a := socket)]

theorem createImpl_eq_ok {mock : Socket} : Mocks.SocketFactory.createImpl res = .ok mock ↔
    ∃ port, res.address.getPort = .ok port ∧
      mock = ⟨.ipv4Tcp, port, .serverStreamSocket, res.newFd⟩ := by
  simp only [Mocks.SocketFactory.createImpl, Checked.bind_eq_ok, Checked.pure_eq_ok,
    eq_comm (a := mock)]

theorem socketAgrees_ipv4 {v : SockaddrIn} {fd : Int} :
    SocketAgrees ⟨fd, .ofSockaddrIn v⟩ ↔ SameBytes v.sinPort := by
  rw [← htons_eq_self_iff]
  constructor
  · intro h
    exact Except.ok.inj h.port
  · intro hport
    have hget : (IPAddress.ofSockaddrIn v).getPort = .ok v.sinPort := congrArg Except.ok hport
    refine ⟨hget, fun _ => rfl, fun h => (by cases h), fun socket mock hsocket hmock => ?_⟩
    obtain ⟨_, rfl⟩ := create_eq_ok.mp hsocket
    obtain ⟨port, hp, rfl⟩ := createImpl_eq_ok.mp hmock
    cases hget.symm.trans hp
    rfl

theorem socketAgrees_ipv6 {v : SockaddrIn6} {fd : Int} :
    SocketAgrees ⟨fd, .ofSockaddrIn6 v⟩ ↔ SameBytes v.sin6Port ∧ fd ≤ 0 := by
  rw [← htons_eq_self_iff]
  have hget : (IPAddress.ofSockaddrIn6 v).getPort = .ok (htons v.sin6Port) := rfl
  constructor
  · intro h
    refine ⟨Except.ok.inj h.port, Int.not_lt.mp fun hfd => ?_⟩
    have hsame := h.sockets _ _ (create_eq_ok.mpr ⟨hfd, rfl⟩) (createImpl_eq_ok.mpr ⟨_, hget, rfl⟩)
    cases congrArg Socket.type hsame
  · rintro ⟨hport, hfd⟩
    rw [hport] at hget
    refine ⟨hget, fun h => (by cases h), fun _ => rfl, fun socket mock hsocket _ => ?_⟩
    exact absurd (create_eq_ok.mp hsocket).1 (Int.not_lt.mpr hfd)

/-- They are exactly if the port reads the same in both byte orders and, of the
families, the address has the one that the mock always reports. -/
theorem socketAgrees_iff (hfamily : res.address.OneFamily) (hvalid : res.address.valid = true) :
    SocketAgrees res ↔
      res.PortHasSameBytes ∧ (res.address.getIpv4.isSome = true ∨ res.newFd ≤ 0) := by
  obtain ⟨fd, address⟩ := res
  obtain rfl | ⟨v, rfl⟩ | ⟨v, rfl⟩ := hfamily.shape
  · cases hvalid
  · rw [socketAgrees_ipv4]
    simp [PortHasSameBytes, IPAddress.ofSockaddrIn, IPAddress.getIpv4, IPAddress.getIpv6]
  · rw [socketAgrees_ipv6]
    simp [PortHasSameBytes, IPAddress.ofSockaddrIn6, IPAddress.getIpv4, IPAddress.getIpv6]

private def mirrored : AcceptResult := ⟨7, .ofSockaddrIn ⟨afInet, 0x1f1f, 0x0100007f, 0⟩⟩

theorem socketAgrees_iff_mirrored : SocketAgrees mirrored := by
  refine (socketAgrees_iff (.inr rfl) rfl).mpr ⟨⟨fun v hv => ?_, fun v hv => ?_⟩, .inl rfl⟩
  · cases hv
    rfl
  · cases hv

private def fromWebPort : AcceptResult := ⟨7, .ofSockaddrIn ⟨afInet, htons 80, 0x0100007f, 0⟩⟩

/-- A connection from port 80 makes a socket with the port 20480. -/
theorem port_of_accepted_socket : ¬SocketAgrees fromWebPort := by
  rw [fromWebPort, socketAgrees_ipv4]
  decide

end AcceptResult

end Iuring
