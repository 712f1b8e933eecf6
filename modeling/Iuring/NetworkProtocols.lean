import Mathlib.Logic.Basic

namespace Iuring

inductive SocketKind
  | multicastPacketSocket
  | serverStreamSocket
  | unicastClientSocket
deriving DecidableEq, Inhabited

inductive SocketType
  | unknown
  | ipv4Udp
  | ipv4Tcp
  | ipv6Udp
  | ipv6Tcp
deriving DecidableEq, Inhabited

abbrev SocketPortID := BitVec 16

/-- What an ISocket object keeps; the descriptor is a C int. -/
structure Socket where
  type : SocketType
  port : SocketPortID
  kind : SocketKind
  fd : Int
deriving DecidableEq, Inhabited

def Socket.isStream (socket : Socket) : Bool :=
  match socket.type with
  | .ipv4Tcp | .ipv6Tcp => true
  | .unknown | .ipv4Udp | .ipv6Udp => false

/-- The host is little-endian, so the two bytes change places. -/
def htons (v : BitVec 16) : BitVec 16 := v.extractLsb' 0 8 ++ v.extractLsb' 8 8

def ntohs (v : BitVec 16) : BitVec 16 := htons v

def ntohl (v : BitVec 32) : BitVec 32 := ntohs (v.extractLsb' 0 16) ++ ntohs (v.extractLsb' 16 16)

end Iuring
