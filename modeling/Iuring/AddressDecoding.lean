import Iuring.IOUring

namespace Iuring

open Lib Lib.Memory

namespace IPAddress

/-- An address of one family whose struct carries the number of that family. -/
inductive Proper : IPAddress → Prop
  | ipv4 (sa : SockaddrIn) (hfamily : sa.sinFamily = afInet) : Proper (ofSockaddrIn sa)
  | ipv6 (sa : SockaddrIn6) (hfamily : sa.sin6Family = afInet6) : Proper (ofSockaddrIn6 sa)

variable {a : IPAddress}

theorem operatorEq_self (ha : a.Proper) : a.operatorEq a = true := by
  cases ha with
  | ipv4 sa _ => simp [operatorEq, ofSockaddrIn]
  | ipv6 sa _ => simp [operatorEq, ofSockaddrIn6]

/-- The bytes and the length that a system call is given for the address. -/
inductive Encoded : IPAddress → List Byte → Nat → Prop
  | ipv4 (sa : SockaddrIn) (hfamily : sa.sinFamily = afInet) :
      Encoded (ofSockaddrIn sa) sa.bytes sizeofSockaddrIn
  | ipv6 (sa : SockaddrIn6) (hfamily : sa.sin6Family = afInet6) :
      Encoded (ofSockaddrIn6 sa) sa.bytes sizeofSockaddrIn6

variable {bytes : List Byte} {len : Nat}

theorem Proper.encoded (ha : a.Proper) : ∃ bytes len,
    a.dataSockaddr = .ok bytes ∧ a.sizeSockaddr = .ok len ∧ Encoded a bytes len := by
  cases ha with
  | ipv4 sa hfamily => exact ⟨_, _, rfl, rfl, .ipv4 sa hfamily⟩
  | ipv6 sa hfamily => exact ⟨_, _, rfl, rfl, .ipv6 sa hfamily⟩

/-- The decoder returns an address of the same family that compares equal. -/
def Undone (decoded : Result IPAddress) (a : IPAddress) : Prop :=
  ∃ b, decoded = .ok b ∧ b.getIpv4.isSome = a.getIpv4.isSome ∧
    b.getIpv6.isSome = a.getIpv6.isSome ∧ b.operatorEq a = true

theorem undone_self (ha : a.Proper) : Undone (.ok a) a :=
  ⟨a, rfl, rfl, rfl, operatorEq_self ha⟩

/-- The family field of the encoded address selects its own family. -/
theorem connectAddress_of_holds {item : WorkItem} (h : Encoded a bytes len)
    (hbuf : Holds item.bufferForUring 0 bytes) : IOUring.connectAddress item = a := by
  rw [IOUring.connectAddress]
  cases h with
  | ipv4 sa hfamily =>
    have hload := SockaddrIn.load_bytes hbuf
    have hf : load16 item.bufferForUring 0 = afInet :=
      (congrArg SockaddrIn.sinFamily hload).trans hfamily
    rw [hf, hload]
    exact if_pos rfl
  | ipv6 sa hfamily =>
    have hload := SockaddrIn6.load_bytes hbuf
    have hf : load16 item.bufferForUring 0 = afInet6 :=
      (congrArg SockaddrIn6.sin6Family hload).trans hfamily
    have hne : afInet6 ≠ afInet := by decide
    simp only [hf, hload, if_neg hne, if_true]

theorem sourceAddress_of_holds {buffer : Nat → Byte} (h : Encoded a bytes len)
    (hbuf : Holds buffer RecvMsg.nameOffset bytes) : IOUring.sourceAddress buffer len = .ok a := by
  rw [IOUring.sourceAddress]
  cases h with
  | ipv4 sa _ =>
    rw [SockaddrIn.load_bytes hbuf]
    exact if_pos (.inr rfl)
  | ipv6 sa _ =>
    rw [SockaddrIn6.load_bytes hbuf]
    rfl

/-- The constructor that goes by the length answers with the other family. -/
theorem not_undone_of_length (h : Encoded a bytes len) (sa : Nat → Byte) :
    ¬Undone (ofSockaddrStorage sa len) a := by
  rintro ⟨b, hb, h4, h6, _⟩
  obtain ⟨hfour, hsix⟩ := ofSockaddrStorage_family hb
  cases h with
  | ipv4 v _ =>
    rw [hfour rfl] at h4
    cases h4
  | ipv6 v _ =>
    rw [hsix rfl] at h6
    cases h6

/-- The connect path and the datagram path undo the encoding of every address,
whatever the rest of the buffer holds, and the accept path of none. -/
theorem accept_path_never_decodes (ha : a.Proper) (item : WorkItem) (buffer : Nat → Byte) :
    ∃ bytes len, a.dataSockaddr = .ok bytes ∧ a.sizeSockaddr = .ok len ∧
      Undone (.ok (IOUring.connectAddress
        { item with bufferForUring := write item.bufferForUring 0 bytes })) a ∧
      Undone (IOUring.sourceAddress (write buffer RecvMsg.nameOffset bytes) len) a ∧
      ¬Undone (ofSockaddrStorage (write item.bufferForUring 0 bytes) len) a := by
  obtain ⟨bytes, len, hdata, hsize, h⟩ := ha.encoded
  refine ⟨bytes, len, hdata, hsize, ?_, ?_, not_undone_of_length h _⟩
  · have hbuf : Holds ({ item with
        bufferForUring := write item.bufferForUring 0 bytes } : WorkItem).bufferForUring 0 bytes :=
      holds_write item.bufferForUring 0 bytes
    rw [connectAddress_of_holds h hbuf]
    exact undone_self ha
  · rw [sourceAddress_of_holds h (holds_write _ _ _)]
    exact undone_self ha

private def localWeb : IPAddress := ofSockaddrIn ⟨afInet, htons 80, 0x0100007f, 0⟩

theorem accept_path_never_decodes_ipv4 : ∃ bytes len, localWeb.dataSockaddr = .ok bytes ∧
    ¬Undone (ofSockaddrStorage (write (fun _ => 0) 0 bytes) len) localWeb := by
  obtain ⟨bytes, len, hdata, _, _, _, h⟩ :=
    accept_path_never_decodes (a := localWeb) (.ipv4 _ rfl) default (fun _ => 0)
  exact ⟨bytes, len, hdata, h⟩

/-- The bytes of 127.0.0.1 port 80 come back from the accept path as an IPv6 address. -/
theorem accepted_bytes_change_family : ∃ b, ofSockaddrStorage
      (write (fun _ => 0) 0 (SockaddrIn.mk afInet (htons 80) 0x0100007f 0).bytes)
      sizeofSockaddrIn = .ok b ∧ b.getIpv4 = none ∧ b.operatorEq localWeb = false :=
  ⟨_, rfl, rfl, rfl⟩

end IPAddress

end Iuring
