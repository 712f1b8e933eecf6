import Iuring.ControlMessages
import Iuring.Lib.Chain

namespace Iuring

open Lib Lib.Memory

namespace Cmsg

/-- A control message without its length field. -/
structure Message where
  level : BitVec 32
  type : BitVec 32
  data : List Byte
deriving DecidableEq

variable {control : Nat → Byte} {controllen off next n : Nat}

theorem nxthdr_forward (control : Nat → Byte) (controllen : Nat) :
    Chain.Forward (nxthdr control controllen) controllen := by
  intro off next h
  unfold nxthdr at h
  simp only at h
  split at h
  · cases h
  · split at h
    · cases h
    · rename_i hlong hroom
      cases h
      unfold sizeofHeader align at *
      omega

def messageAt (control : Nat → Byte) (off : Nat) : Message :=
  ⟨load32 control (off + 8), load32 control (off + 12),
    read control (off + sizeofHeader) ((load64 control off).toNat - sizeofHeader)⟩

/-- The loop over the headers, from the one at `off` on. -/
def messagesFrom (control : Nat → Byte) (controllen off : Nat) : List Message :=
  (Chain.offsets (nxthdr control controllen) controllen (nxthdr_forward control controllen) off).map
    (messageAt control)

def messages (control : Nat → Byte) (controllen : Nat) : List Message :=
  match firsthdr controllen with
  | none => []
  | some first => messagesFrom control controllen first

def Message.bytes (msg : Message) : List Byte :=
  bytes64 (BitVec.ofNat 64 (len msg.data.length)) ++ bytes32 msg.level ++ bytes32 msg.type ++
    msg.data

def Message.space (msg : Message) : Nat := Cmsg.space msg.data.length

theorem Message.length_bytes (msg : Message) : msg.bytes.length = len msg.data.length :=
  List.length_append.trans (congrArg (· + msg.data.length) rfl)

theorem len_le_space (n : Nat) : len n ≤ space n := by
  rw [len, space, align]
  omega

/-- The messages stand one behind the other, each from an aligned place on. -/
def Laid (control : Nat → Byte) : Nat → List Message → Prop
  | _, [] => True
  | off, msg :: rest => Holds control off msg.bytes ∧ Laid control (off + msg.space) rest

def totalSpace : List Message → Nat
  | [] => 0
  | msg :: rest => msg.space + totalSpace rest

theorem load64_of_holds {msg : Message} (h : Holds control off msg.bytes)
    (hlen : len msg.data.length < 2 ^ 64) : (load64 control off).toNat = len msg.data.length := by
  obtain ⟨h, _⟩ := (holds_append control off _ _).mp h
  obtain ⟨h, _⟩ := (holds_append control off _ _).mp h
  obtain ⟨hcmsgLen, _⟩ := (holds_append control off _ _).mp h
  rw [hcmsgLen.load64]
  rw [BitVec.toNat_ofNat, Nat.mod_eq_of_lt hlen]

theorem messageAt_of_holds {msg : Message} (h : Holds control off msg.bytes)
    (hlen : len msg.data.length < 2 ^ 64) : messageAt control off = msg := by
  have hload := load64_of_holds h hlen
  obtain ⟨h, hdata⟩ := (holds_append control off _ _).mp h
  obtain ⟨h, htype⟩ := (holds_append control off _ _).mp h
  obtain ⟨_, hlevel⟩ := (holds_append control off _ _).mp h
  have hlevel : Holds control (off + 8) (bytes32 msg.level) := hlevel
  have htype : Holds control (off + 12) (bytes32 msg.type) := htype
  have hdata : read control (off + sizeofHeader) msg.data.length = msg.data := hdata
  have hcount : len msg.data.length - sizeofHeader = msg.data.length :=
    Nat.add_sub_cancel_left _ _
  rw [messageAt]
  rw [hlevel.load32, htype.load32, hload, hcount, hdata]

/-- The next header is there exactly if it fits behind the padded data. -/
theorem nxthdr_eq (hlen : (load64 control off).toNat = len n) :
    nxthdr control controllen off =
      if off + space n + sizeofHeader ≤ controllen then some (off + space n) else none := by
  have hspace : align (len n) = space n := by
    rw [align, len, space, sizeofHeader, align]
    omega
  have hpad := len_le_space n
  have hpos : 0 < sizeofHeader := by decide
  have hheader : ¬len n < sizeofHeader := Nat.not_lt.mpr (Nat.le_add_right _ _)
  rw [nxthdr]
  simp only [hlen, hspace, if_neg hheader]
  by_cases hfits : off + space n + sizeofHeader ≤ controllen
  · rw [if_pos hfits, if_neg]
    omega
  · rw [if_neg hfits, if_pos]
    omega

/-- Reading back what was laid out, up to a length that ends with the last message. -/
theorem messagesFrom_of_laid {msg : Message} {rest : List Message}
    (h : Laid control off (msg :: rest)) (hsize : off + totalSpace (msg :: rest) < 2 ^ 64) :
    messagesFrom control (off + totalSpace (msg :: rest)) off = msg :: rest := by
  induction rest generalizing msg off with
  | nil =>
    have hspace : totalSpace [msg] = space msg.data.length := Nat.add_zero _
    have hlen : len msg.data.length < 2 ^ 64 := by
      have hle := len_le_space msg.data.length
      omega
    have hlast : nxthdr control (off + totalSpace [msg]) off = none := by
      rw [nxthdr_eq (load64_of_holds h.1 hlen), hspace, if_neg]
      rw [sizeofHeader]
      omega
    rw [messagesFrom, Chain.offsets_last _ hlast, List.map_singleton, messageAt_of_holds h.1 hlen]
  | cons following rest ih =>
    have hspace : totalSpace (msg :: following :: rest) =
        space msg.data.length + totalSpace (following :: rest) := rfl
    have hroom : sizeofHeader ≤ totalSpace (following :: rest) :=
      (Nat.le_add_right _ _).trans (Nat.le_add_right _ _)
    have hlen : len msg.data.length < 2 ^ 64 := by
      have hle := len_le_space msg.data.length
      omega
    have hmore : nxthdr control (off + totalSpace (msg :: following :: rest)) off =
        some (off + space msg.data.length) := by
      rw [nxthdr_eq (load64_of_holds h.1 hlen), hspace, if_pos]
      omega
    have hrest := ih h.2 (by rw [hspace] at hsize; unfold Message.space; omega)
    rw [messagesFrom, Chain.offsets_link _ hmore, List.map_cons, messageAt_of_holds h.1 hlen]
    rw [messagesFrom, Message.space, Nat.add_assoc, ← hspace] at hrest
    rw [hrest]

theorem messages_of_laid {msg : Message} {rest : List Message}
    (h : Laid control 0 (msg :: rest)) (hsize : totalSpace (msg :: rest) < 2 ^ 64) :
    messages control (totalSpace (msg :: rest)) = msg :: rest := by
  have hroom : sizeofHeader ≤ totalSpace (msg :: rest) :=
    (Nat.le_add_right _ _).trans (Nat.le_add_right _ _)
  have hfrom := messagesFrom_of_laid h (by omega)
  rw [Nat.zero_add] at hfrom
  rw [messages, firsthdr]
  rw [if_pos hroom]
  exact hfrom

end Cmsg

theorem IPAddress.data_size_of_valid {a : IPAddress} (hvalid : a.valid = true) :
    ∃ bytes, a.dataSockaddr = .ok bytes ∧ a.sizeSockaddr = .ok bytes.length := by
  obtain ⟨_ | sa4, _ | sa6⟩ := a
  · cases hvalid
  · exact ⟨_, rfl, rfl⟩
  · exact ⟨_, rfl, rfl⟩
  · exact ⟨_, rfl, rfl⟩

namespace WorkItem

open Cmsg

variable {item : WorkItem} {tos : BitVec 8} {ttl : BitVec 32}

def tosMessage (tos : BitVec 8) : Message := ⟨ipprotoIp, ipTos, [tos]⟩

def ttlMessage (ttl : BitVec 32) : Message := ⟨ipprotoIp, ipTtl, bytes32 ttl⟩

theorem space_tosMessage (tos : BitVec 8) : (tosMessage tos).space = space 1 := rfl

theorem space_ttlMessage (ttl : BitVec 32) : (ttlMessage ttl).space = space 4 := rfl

/-- The two headers and their data, at the places where the two macros point. -/
def stored (tos : BitVec 8) (ttl : BitVec 32) (control : Nat → Byte) : Nat → Byte :=
  store (store control 0 ipprotoIp ipTos [tos]) (tosMessage tos).space ipprotoIp ipTtl (bytes32 ttl)

theorem storeControl_eq (tos : BitVec 8) (hlow : 0 < ttl.toNat) (hhigh : ttl.toNat < 256)
    (control : Nat → Byte) :
    storeControl tos ttl control = .ok (stored tos ttl (fill control 0 sizeofControl 0)) := by
  have hfirst : firsthdr controllen = some 0 := rfl
  have hsecond : ∀ m, nxthdr (store m 0 ipprotoIp ipTos [tos]) controllen 0 =
      some (tosMessage tos).space := by
    intro m
    have hheld : Holds (store m 0 ipprotoIp ipTos [tos]) 0 (tosMessage tos).bytes :=
      holds_write m 0 _
    have hlen : len (tosMessage tos).data.length < 2 ^ 64 := by
      simp [tosMessage, len, sizeofHeader]
    have hfits : 0 + space 1 + sizeofHeader ≤ controllen := by decide
    rw [nxthdr_eq (load64_of_holds hheld hlen), space_tosMessage]
    exact (if_pos hfits).trans (congrArg some (Nat.zero_add _))
  refine Checked.bind_eq_ok.mpr ⟨(), (assert_eq_ok _ _).mpr ⟨hlow, hhigh⟩, ?_⟩
  refine Checked.bind_eq_ok.mpr ⟨(), (assert_eq_ok _ _).mpr (by decide), ?_⟩
  simp only [hfirst, hsecond]
  rfl

theorem messages_stored (tos : BitVec 8) (ttl : BitVec 32) (control : Nat → Byte) :
    messages (stored tos ttl control) controllen = [tosMessage tos, ttlMessage ttl] := by
  have htos : Holds (stored tos ttl control) 0 (tosMessage tos).bytes := by
    refine (holds_write control 0 (tosMessage tos).bytes).write_behind ?_ (ttlMessage ttl).bytes
    rw [Nat.zero_add, Message.length_bytes]
    exact len_le_space _
  have httl : Holds (stored tos ttl control) (tosMessage tos).space (ttlMessage ttl).bytes :=
    holds_write _ _ _
  have hlaid : Laid (stored tos ttl control) 0 [tosMessage tos, ttlMessage ttl] := by
    refine ⟨htos, ?_, trivial⟩
    rw [Nat.zero_add]
    exact httl
  have hsize : totalSpace [tosMessage tos, ttlMessage ttl] = controllen :=
    congrArg₂ (· + ·) (space_tosMessage tos) (congrArg (· + 0) (space_ttlMessage ttl))
  have hbound : totalSpace [tosMessage tos, ttlMessage ttl] < 2 ^ 64 := by
    rw [hsize]
    decide
  rw [← hsize]
  exact messages_of_laid hlaid hbound

/-- The kernel's reading of a message header. -/
structure Datagram where
  name : List Byte
  iovecs : List (List Byte)
  control : List Message
deriving DecidableEq

/-- The bytes from a pointer on, as far as the object behind it reaches. -/
def bytesAt (item : WorkItem) : Pointer → Nat → Option (List Byte)
  | .bufferForUring, n => some (read item.bufferForUring 0 n)
  | .sendPacket, n => some (item.sendPacket.data n)
  | .control, n => if n ≤ sizeofControl then some (read item.control 0 n) else none
  | .socketAddress, n =>
    match item.sa.dataSockaddr with
    | .ok bytes => if n ≤ bytes.length then some (bytes.take n) else none
    | .error _ => none
  | .null, _ | .msgIov, _ => none

/-- The name, the only iovec and the control messages that the header leads to. -/
def decodeMsg (item : WorkItem) : Option Datagram := do
  let name ← item.bytesAt item.msg.msgName item.msg.msgNamelen
  let payload ← item.bytesAt item.msgIov.iovBase item.msgIov.iovLen
  if item.msg.msgIov = .msgIov ∧ item.msg.msgIovlen = 1 ∧ item.msg.msgControl = .control ∧
    item.msg.msgControllen ≤ sizeofControl then
    return ⟨name, [payload], messages item.control item.msg.msgControllen⟩
  else none

theorem tos_bits {dscp : BitVec 8} (h : dscp.toNat < 64) :
    ((dscp <<< 2).extractLsb' 2 6).toNat = dscp.toNat ∧ (dscp <<< 2).extractLsb' 0 2 = 0 := by
  have hshift : (dscp <<< 2).toNat = dscp.toNat * 2 ^ 2 % 2 ^ 8 := by
    rw [BitVec.toNat_shiftLeft, Nat.shiftLeft_eq]
  constructor
  · rw [BitVec.extractLsb'_toNat, hshift, Nat.shiftRight_eq_div_pow]
    omega
  · apply BitVec.eq_of_toNat_eq
    rw [BitVec.extractLsb'_toNat, hshift, Nat.shiftRight_eq_div_pow]
    change _ = 0
    omega

/-- Whatever the item held before, the header of a datagram passes its assertions
and leads to the destination, to the packet's bytes and to the two control
messages of the parameters, and to nothing else. -/
theorem initSendMsg_decodes (item : WorkItem) {params : DatagramSendParameters} (cb : CallbackFn)
    (hvalid : params.destinationAddress.valid = true) (hdscp : params.dscp.toNat < 64)
    (httl : 0 < params.ttl.toNat) :
    ∃ item' name tos ttl, (item.submitPacket params cb).initSendMsg = .ok item' ∧
      params.destinationAddress.dataSockaddr = .ok name ∧
      item'.decodeMsg = some ⟨name, [item.sendPacket.data item.sendPacket.size],
        [⟨ipprotoIp, ipTos, [tos]⟩, ⟨ipprotoIp, ipTtl, bytes32 ttl⟩]⟩ ∧
      item'.msg.msgNamelen = name.length ∧ item'.msgIov.iovLen = item.sendPacket.size ∧
      (tos.extractLsb' 2 6).toNat = params.dscp.toNat ∧ tos.extractLsb' 0 2 = 0 ∧
      ttl.toInt = params.ttl.toNat := by
  obtain ⟨name, hdata, hsize⟩ := IPAddress.data_size_of_valid hvalid
  have hwidth : (params.ttl.setWidth 32).toNat = params.ttl.toNat := by
    have hlt := params.ttl.isLt
    rw [BitVec.toNat_setWidth, Nat.mod_eq_of_lt (by omega)]
  have hhigh : (params.ttl.setWidth 32).toNat < 256 := hwidth ▸ params.ttl.isLt
  have hcontrol := storeControl_eq (params.dscp <<< 2) (hwidth ▸ httl) hhigh item.control
  refine ⟨_, name, params.dscp <<< 2, params.ttl.setWidth 32,
    Checked.bind_eq_ok.mpr ⟨(), (assert_eq_ok _ _).mpr rfl, Checked.bind_eq_ok.mpr ⟨_, hcontrol,
      Checked.bind_eq_ok.mpr ⟨name.length, hsize, rfl⟩⟩⟩, hdata, ?_, rfl, rfl, ?_, ?_, ?_⟩
  · have hroom : controllen ≤ sizeofControl := by decide
    simp only [decodeMsg, bytesAt, submitPacket, submitAs, hdata, le_refl, if_true,
      List.take_length, messages_stored, hroom, and_self, Option.bind_eq_bind, Option.bind_some]
    rfl
  · exact (tos_bits hdscp).1
  · exact (tos_bits hdscp).2
  · rw [BitVec.toInt_eq_toNat_of_lt, hwidth]
    omega

private def usedItem : WorkItem :=
  { (default : WorkItem) with
    sendPacket := ⟨2, write (fun _ => 0) 0 [104, 105]⟩
    control := fun _ => 255
    msg := ⟨.bufferForUring, 128, .msgIov, 1, .null, 0, 0⟩ }

private def voiceParameters : DatagramSendParameters :=
  ⟨IPAddress.ofSockaddrIn6 ⟨afInet6, htons 5004, 0, 1, 0⟩, 46, 64⟩

/-- An item that received before sends two bytes with expedited forwarding. -/
theorem initSendMsg_decodes_ipv6 : ∃ item' name tos ttl,
    (usedItem.submitPacket voiceParameters 3).initSendMsg = .ok item' ∧
      item'.decodeMsg = some ⟨name, [[104, 105]],
        [⟨ipprotoIp, ipTos, [tos]⟩, ⟨ipprotoIp, ipTtl, bytes32 ttl⟩]⟩ ∧
      item'.msg.msgNamelen = sizeofSockaddrIn6 ∧ (tos.extractLsb' 2 6).toNat = 46 ∧
      ttl.toInt = 64 := by
  have hvalid : voiceParameters.destinationAddress.valid = true := rfl
  obtain ⟨item', name, tos, ttl, hinit, hname, hdecode, hnamelen, _, hdscp, _, httl⟩ :=
    initSendMsg_decodes usedItem 3 hvalid (by decide) (by decide)
  cases hname
  exact ⟨item', _, tos, ttl, hinit, hdecode, hnamelen, hdscp, httl⟩

end WorkItem

end Iuring
