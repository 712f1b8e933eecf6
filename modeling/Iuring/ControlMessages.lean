import Iuring.WorkItem

namespace Iuring

open Lib.Memory

namespace Cmsg

def sizeofHeader : Nat := 16

def ipprotoIp : BitVec 32 := 0

def ipTos : BitVec 32 := 1

def ipTtl : BitVec 32 := 2

def align (n : Nat) : Nat := (n + 7) / 8 * 8

def len (n : Nat) : Nat := sizeofHeader + n

def space (n : Nat) : Nat := sizeofHeader + align n

def firsthdr (controllen : Nat) : Option Nat :=
  if sizeofHeader ≤ controllen then some 0 else none

/-- The offset of the header after the one at `off`, when both fit. -/
def nxthdr (control : Nat → Byte) (controllen off : Nat) : Option Nat :=
  let cmsgLen := (load64 control off).toNat
  let needed := sizeofHeader + (align cmsgLen - cmsgLen)
  if cmsgLen < sizeofHeader then none
  else if controllen - off < needed ∨ controllen - off - needed < cmsgLen then none
  else some (off + align cmsgLen)

def store (control : Nat → Byte) (off : Nat) (level type : BitVec 32) (data : List Byte) :
    Nat → Byte :=
  write control off
    (bytes64 (BitVec.ofNat 64 (len data.length)) ++ bytes32 level ++ bytes32 type ++ data)

end Cmsg

namespace WorkItem

def sizeofControl : Nat := 1024

def controllen : Nat := Cmsg.space 1 + Cmsg.space 4

/-- The block that writes the type of service and the time to live. -/
def storeControl (tos : BitVec 8) (ttl : BitVec 32) (control : Nat → Byte) :
    Result (Nat → Byte) := do
  assert (0 < ttl.toNat ∧ ttl.toNat < 256)
  let control := fill control 0 sizeofControl 0
  assert (controllen < sizeofControl)
  match Cmsg.firsthdr controllen with
  | none => .error .assertFailed
  | some first =>
    let control := Cmsg.store control first Cmsg.ipprotoIp Cmsg.ipTos [tos]
    match Cmsg.nxthdr control controllen first with
    | none => .error .assertFailed
    | some second => return Cmsg.store control second Cmsg.ipprotoIp Cmsg.ipTtl (bytes32 ttl)

def initSendMsg (item : WorkItem) : Result WorkItem := do
  assert (item.workType = .sendWorkpacket)
  let control ← storeControl (item.params.dscp <<< 2) (item.params.ttl.setWidth 32) item.control
  let namelen ← item.params.destinationAddress.sizeSockaddr
  return { item with
    msgIov := ⟨.sendPacket, item.sendPacket.size⟩
    control := control
    sa := item.params.destinationAddress
    msg := ⟨.socketAddress, namelen, .msgIov, 1, .control, controllen, 0⟩ }

/-- Only the header, the control buffer and the address copy are written. -/
theorem initSendMsg_frame {item item' : WorkItem} (h : item.initSendMsg = .ok item') :
    ∃ iov control sa msg,
      item' = { item with msgIov := iov, control := control, sa := sa, msg := msg } := by
  obtain ⟨_, _, h⟩ := Lib.Checked.bind_eq_ok.mp h
  obtain ⟨_, _, h⟩ := Lib.Checked.bind_eq_ok.mp h
  obtain ⟨_, _, h⟩ := Lib.Checked.bind_eq_ok.mp h
  cases h
  exact ⟨_, _, _, _, rfl⟩

end WorkItem

end Iuring
