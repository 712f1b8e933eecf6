import Iuring.Lib.Transition
import Iuring.NetworkAdapter

namespace Iuring

open Lib Lib.Memory Lib.Hex

structure IpMreq where
  imrMultiaddr : BitVec 32
  imrInterface : BitVec 32
deriving DecidableEq

/-- A membership is given up under the interface it has, or under none. -/
def IpMreq.covers (req m : IpMreq) : Bool :=
  req.imrMultiaddr = m.imrMultiaddr && (req.imrInterface = 0 || req.imrInterface = m.imrInterface)

/-- The calls that SocketImpl makes on its descriptor. -/
inductive Syscall
  | reuseAddr
  | reusePort
  | bind (addr : SockaddrIn)
  | listen (backlog : Nat)
  | multicastTtl (ttl : Nat)
  | multicastLoop (on : Bool)
  | multicastIf (req : IpMreq)
  | addMembership (req : IpMreq)
  | dropMembership (req : IpMreq)
deriving DecidableEq

/-- What the kernel keeps for a socket; the group joined last is in front. -/
structure KernelSocket where
  family : BitVec 16
  isStream : Bool
  reuseAddr : Bool := false
  reusePort : Bool := false
  bound : Option SockaddrIn := none
  backlog : Option Nat := none
  multicastTtl : Nat := 1
  multicastLoop : Bool := true
  multicastIf : BitVec 32 := 0
  memberships : List IpMreq := []
deriving DecidableEq

namespace KernelSocket

/-- The documented reasons to refuse a call. There may be others. -/
def Allows (k : KernelSocket) : Syscall → Prop
  | .bind addr => addr.sinFamily = k.family ∧ k.bound = none
  | .listen _ => k.isStream = true
  | .addMembership req => req ∈ k.memberships → req.imrInterface = 0
  | .dropMembership req => ∃ m ∈ k.memberships, req.covers m = true
  | .reuseAddr | .reusePort | .multicastTtl _ | .multicastLoop _ | .multicastIf _ => True

instance (k : KernelSocket) (c : Syscall) : Decidable (k.Allows c) := by
  cases c <;> rw [Allows] <;> infer_instance

def apply (k : KernelSocket) : Syscall → KernelSocket
  | .reuseAddr => { k with reuseAddr := true }
  | .reusePort => { k with reusePort := true }
  | .bind addr => { k with bound := some addr }
  | .listen backlog => { k with backlog := some backlog }
  | .multicastTtl ttl => { k with multicastTtl := ttl }
  | .multicastLoop on => { k with multicastLoop := on }
  | .multicastIf req => { k with multicastIf := req.imrInterface }
  | .addMembership req => { k with memberships := req :: k.memberships }
  | .dropMembership req => { k with memberships := k.memberships.eraseP req.covers }

/-- The socket that socket(2) makes for a type. -/
def ofType (type : SocketType) : KernelSocket where
  family :=
    match type with
    | .ipv6Udp | .ipv6Tcp => afInet6
    | .unknown | .ipv4Udp | .ipv4Tcp => afInet
  isStream :=
    match type with
    | .ipv4Tcp | .ipv6Tcp => true
    | .unknown | .ipv4Udp | .ipv6Udp => false

end KernelSocket

structure SocketImpl where
  socket : Socket
  mreq : IpMreq
  kernel : KernelSocket
deriving DecidableEq

namespace SocketImpl

open IPAddress (Literals stringToIpv4Address Inet6)

/-- A call whose refusal ends the process; `answer` says which ones the kernel refuses
for reasons of its own. -/
def call (answer : Syscall → Bool) (fault : Fault) (c : Syscall) (s : SocketImpl) :
    Result SocketImpl := do
  Checked.ensure fault (answer c = true ∧ s.kernel.Allows c)
  return { s with kernel := s.kernel.apply c }

/-- The descriptor is what socket(2) returns for the type. -/
def createSocket (fd : Int) : SocketType → Result Int
  | .unknown => .error .assertFailed
  | .ipv6Udp => abort
  | .ipv4Udp | .ipv4Tcp | .ipv6Tcp => do
    assert (0 ≤ fd)
    return fd

def anyAddress (port : SocketPortID) : SockaddrIn := ⟨afInet, htons port, 0, 0⟩

def localBind (answer : Syscall → Bool) (port : SocketPortID) (s : SocketImpl) :
    Result SocketImpl := do
  assert (0 ≤ s.socket.fd)
  s.call answer .aborted (.bind (anyAddress port))

def opened (fd : Int) (type : SocketType) (port : SocketPortID) (kind : SocketKind) : SocketImpl :=
  ⟨⟨type, port, kind, fd⟩, ⟨0, 0⟩, .ofType type⟩

/-- The constructor from a type and a kind. -/
def createImpl (answer : Syscall → Bool) (fd : Int) (type : SocketType) (port : SocketPortID)
    (kind : SocketKind) : Result SocketImpl := do
  let fd ← createSocket fd type
  let s ← (opened fd type port kind).call answer .assertFailed .reuseAddr
  match kind with
  | .unicastClientSocket => s.call answer .aborted .reusePort
  | .multicastPacketSocket => do
    let s ← s.localBind answer port
    s.call answer .aborted (.multicastTtl 1)
  | .serverStreamSocket => do
    let s ← s.call answer .aborted (.bind (anyAddress port))
    s.call answer .aborted (.listen 1024)

def mcastBind (answer : Syscall → Bool) (s : SocketImpl) : Result (Int × SocketImpl) := do
  assert (0 ≤ s.socket.fd)
  let c := Syscall.multicastIf s.mreq
  if answer c = true ∧ s.kernel.Allows c then return (0, { s with kernel := s.kernel.apply c })
  else return (-1, s)

def joinMulticastGroup (p : Literals) (answer : Syscall → Bool) (ipAddress sourceIface : StdString)
    (s : SocketImpl) : Result SocketImpl := do
  assert (0 ≤ s.socket.fd)
  assert (ipAddress.bytes ≠ [])
  assert (sourceIface.bytes ≠ [])
  let imrMultiaddr ← stringToIpv4Address p ipAddress
  let imrInterface ← stringToIpv4Address p sourceIface
  let s := { s with mreq := ⟨imrMultiaddr, imrInterface⟩ }
  let s ← s.call answer .aborted (.addMembership s.mreq)
  s.call answer .aborted (.multicastLoop false)

/-- Here a refusal is answered with exit(1). -/
def leaveMulticastGroup (answer : Syscall → Bool) (s : SocketImpl) : Result SocketImpl := do
  assert (0 ≤ s.socket.fd)
  s.call answer .aborted (.dropMembership s.mreq)

/-- What the owner of a socket can do with its groups. -/
inductive Action
  | joinMulticastGroup (answer : Syscall → Bool) (ipAddress sourceIface : StdString)
  | leaveMulticastGroup (answer : Syscall → Bool)
  | mcastBind (answer : Syscall → Bool)

def step (p : Literals) : Action → SocketImpl → Result SocketImpl
  | .joinMulticastGroup answer ipAddress sourceIface, s =>
    s.joinMulticastGroup p answer ipAddress sourceIface
  | .leaveMulticastGroup answer, s => s.leaveMulticastGroup answer
  | .mcastBind answer, s => do
    let (_, s) ← s.mcastBind answer
    return s

/-- Groups are joined on an interface that is named by an address of its own. -/
def Named (p : Literals) (_ : SocketImpl) : Action → Prop
  | .joinMulticastGroup _ _ sourceIface => stringToIpv4Address p sourceIface ≠ .ok 0
  | .leaveMulticastGroup _ | .mcastBind _ => True

instance (p : Literals) (s : SocketImpl) (a : Action) : Decidable (Named p s a) := by
  cases a <;> rw [Named] <;> infer_instance

variable {p : Literals} {answer : Syscall → Bool} {fault : Fault} {c : Syscall} {a : Action}
  {s t u : SocketImpl} {type : SocketType} {port : SocketPortID} {kind : SocketKind} {fd : Int}

theorem call_eq_ok : s.call answer fault c = .ok t ↔
    (answer c = true ∧ s.kernel.Allows c) ∧ t = { s with kernel := s.kernel.apply c } := by
  simp only [call, Checked.bind_eq_ok, Checked.ensure_eq_ok, exists_const, Checked.pure_eq_ok,
    eq_comm (a := t)]

/-- The calls of the constructor, in their order. -/
def calls (port : SocketPortID) : SocketKind → List Syscall
  | .unicastClientSocket => [.reuseAddr, .reusePort]
  | .multicastPacketSocket => [.reuseAddr, .bind (anyAddress port), .multicastTtl 1]
  | .serverStreamSocket => [.reuseAddr, .bind (anyAddress port), .listen 1024]

def constructed (fd : Int) (type : SocketType) (port : SocketPortID) (kind : SocketKind) :
    SocketImpl :=
  { opened fd type port kind with kernel := (calls port kind).foldl .apply (.ofType type) }

/-- The pairs of a type and a kind that can be constructed at all. -/
def Constructible (type : SocketType) : SocketKind → Prop
  | .unicastClientSocket => type = .ipv4Udp ∨ type = .ipv4Tcp ∨ type = .ipv6Tcp
  | .multicastPacketSocket => type = .ipv4Udp ∨ type = .ipv4Tcp
  | .serverStreamSocket => type = .ipv4Tcp

theorem createSocket_eq_ok {fd' : Int} : createSocket fd type = .ok fd' ↔
    0 ≤ fd ∧ fd' = fd ∧ (type = .ipv4Udp ∨ type = .ipv4Tcp ∨ type = .ipv6Tcp) := by
  have hmade : (do assert (0 ≤ fd); return fd : Result Int) = .ok fd' ↔ 0 ≤ fd ∧ fd' = fd := by
    rw [Checked.bind_eq_ok]
    simp only [assert_eq_ok, exists_const, Checked.pure_eq_ok, eq_comm (a := fd')]
  cases type with
  | unknown | ipv6Udp => simp [createSocket, abort]
  | ipv4Udp | ipv4Tcp | ipv6Tcp =>
    rw [createSocket, hmade]
    simp

theorem family_ofType (htype : type = .ipv4Udp ∨ type = .ipv4Tcp ∨ type = .ipv6Tcp) :
    afInet = (KernelSocket.ofType type).family ↔ type = .ipv4Udp ∨ type = .ipv4Tcp := by
  obtain rfl | rfl | rfl := htype <;> decide

theorem listens_ofType : (KernelSocket.ofType type).isStream = true ↔
    type = .ipv4Tcp ∨ type = .ipv6Tcp := by
  cases type <;> decide

/-- The constructor returns if and only if the pair can be constructed, the descriptor is one, and
the kernel refuses none of the calls for a reason of its own. -/
theorem createImpl_eq_ok : createImpl answer fd type port kind = .ok s ↔
    Constructible type kind ∧ 0 ≤ fd ∧ (∀ c ∈ calls port kind, answer c = true) ∧
      s = constructed fd type port kind := by
  constructor
  · intro hcreate
    obtain ⟨fd', hsocket, hset⟩ := Checked.bind_eq_ok.mp hcreate
    obtain ⟨hfd, rfl, htype⟩ := createSocket_eq_ok.mp hsocket
    obtain ⟨first, hfirst, h⟩ := Checked.bind_eq_ok.mp hset
    obtain ⟨⟨hreuse, _⟩, rfl⟩ := call_eq_ok.mp hfirst
    cases kind with
    | unicastClientSocket =>
      obtain ⟨⟨hport, _⟩, rfl⟩ := call_eq_ok.mp h
      exact ⟨htype, hfd, by simp [calls, hreuse, hport], rfl⟩
    | multicastPacketSocket =>
      obtain ⟨second, hlocal, h⟩ := Checked.bind_eq_ok.mp h
      obtain ⟨_, _, hlocal⟩ := Checked.bind_eq_ok.mp hlocal
      obtain ⟨⟨hbind, hfamily, _⟩, rfl⟩ := call_eq_ok.mp hlocal
      obtain ⟨⟨httl, _⟩, rfl⟩ := call_eq_ok.mp h
      exact ⟨(family_ofType htype).mp hfamily, hfd, by simp [calls, hreuse, hbind, httl], rfl⟩
    | serverStreamSocket =>
      obtain ⟨second, hbound, h⟩ := Checked.bind_eq_ok.mp h
      obtain ⟨⟨hbind, hfamily, _⟩, rfl⟩ := call_eq_ok.mp hbound
      obtain ⟨⟨hlisten, hstream⟩, rfl⟩ := call_eq_ok.mp h
      refine ⟨?_, hfd, by simp [calls, hreuse, hbind, hlisten], rfl⟩
      obtain rfl | rfl := (family_ofType htype).mp hfamily
      · cases hstream
      · rfl
  · rintro ⟨htype, hfd, hanswer, rfl⟩
    refine Checked.bind_eq_ok.mpr ⟨fd, createSocket_eq_ok.mpr ⟨hfd, rfl, ?_⟩, Checked.bind_eq_ok.mpr
      ⟨_, call_eq_ok.mpr ⟨⟨hanswer _ ?_, trivial⟩, rfl⟩, ?_⟩⟩
    · cases kind with
      | unicastClientSocket => exact htype
      | multicastPacketSocket => exact htype.imp_right .inl
      | serverStreamSocket => exact .inr (.inl htype)
    · cases kind <;> exact List.mem_cons_self
    · cases kind with
      | unicastClientSocket => exact call_eq_ok.mpr ⟨⟨hanswer _ (by simp [calls]), trivial⟩, rfl⟩
      | multicastPacketSocket =>
        have hfamily := (family_ofType (htype.imp_right .inl)).mpr htype
        refine Checked.bind_eq_ok.mpr ⟨_, Checked.bind_eq_ok.mpr ⟨(), (assert_eq_ok _ _).mpr hfd,
          call_eq_ok.mpr ⟨⟨hanswer _ (by simp [calls]), hfamily, rfl⟩, rfl⟩⟩, ?_⟩
        exact call_eq_ok.mpr ⟨⟨hanswer _ (by simp [calls]), trivial⟩, rfl⟩
      | serverStreamSocket =>
        have hfamily := (family_ofType (.inr (.inl htype))).mpr (.inr htype)
        have hstream := listens_ofType.mpr (.inl htype)
        refine Checked.bind_eq_ok.mpr
          ⟨_, call_eq_ok.mpr ⟨⟨hanswer _ (by simp [calls]), hfamily, rfl⟩, rfl⟩, ?_⟩
        exact call_eq_ok.mpr ⟨⟨hanswer _ (by simp [calls]), hstream⟩, rfl⟩

/-- What a step does to a socket. -/
inductive Stepped (p : Literals) (s : SocketImpl) : Action → SocketImpl → Prop
  | joined {answer : Syscall → Bool} {ipAddress sourceIface : StdString} {req : IpMreq}
      (hgroup : stringToIpv4Address p ipAddress = .ok req.imrMultiaddr)
      (hiface : stringToIpv4Address p sourceIface = .ok req.imrInterface)
      (hnew : req ∈ s.kernel.memberships → req.imrInterface = 0) :
    Stepped p s (.joinMulticastGroup answer ipAddress sourceIface) { s with
      mreq := req
      kernel := { s.kernel with
        memberships := req :: s.kernel.memberships, multicastLoop := false } }
  | left {answer : Syscall → Bool} (hjoined : ∃ m ∈ s.kernel.memberships, s.mreq.covers m = true) :
    Stepped p s (.leaveMulticastGroup answer) { s with
      kernel := { s.kernel with memberships := s.kernel.memberships.eraseP s.mreq.covers } }
  | bound {answer : Syscall → Bool} : Stepped p s (.mcastBind answer)
      { s with kernel := { s.kernel with multicastIf := s.mreq.imrInterface } }
  | refused {answer : Syscall → Bool} : Stepped p s (.mcastBind answer) s

theorem stepped (h : step p a s = .ok t) : Stepped p s a t := by
  cases a with
  | joinMulticastGroup answer ipAddress sourceIface =>
    obtain ⟨_, _, h⟩ := Checked.bind_eq_ok.mp h
    obtain ⟨_, _, h⟩ := Checked.bind_eq_ok.mp h
    obtain ⟨_, _, h⟩ := Checked.bind_eq_ok.mp h
    obtain ⟨imrMultiaddr, hgroup, h⟩ := Checked.bind_eq_ok.mp h
    obtain ⟨imrInterface, hiface, h⟩ := Checked.bind_eq_ok.mp h
    obtain ⟨added, hadd, h⟩ := Checked.bind_eq_ok.mp h
    obtain ⟨⟨_, hnew⟩, rfl⟩ := call_eq_ok.mp hadd
    obtain ⟨_, rfl⟩ := call_eq_ok.mp h
    exact .joined hgroup hiface hnew
  | leaveMulticastGroup answer =>
    obtain ⟨_, _, h⟩ := Checked.bind_eq_ok.mp h
    obtain ⟨⟨_, hjoined⟩, rfl⟩ := call_eq_ok.mp h
    exact .left hjoined
  | mcastBind answer =>
    obtain ⟨⟨ret, t'⟩, hbind, h⟩ := Checked.bind_eq_ok.mp h
    cases Checked.pure_eq_ok.mp h
    obtain ⟨_, _, hbind⟩ := Checked.bind_eq_ok.mp hbind
    by_cases hanswer : answer (.multicastIf s.mreq) = true
    · rw [if_pos ⟨hanswer, trivial⟩] at hbind
      cases hbind
      exact .bound
    · rw [if_neg fun hc => hanswer hc.1] at hbind
      cases hbind
      exact .refused

/-- Leaving succeeds where the descriptor is one and the kernel has nothing against it. -/
theorem left_of_joined (hfd : 0 ≤ s.socket.fd)
    (hjoined : ∃ m ∈ s.kernel.memberships, s.mreq.covers m = true) :
    ∃ t, step p (.leaveMulticastGroup fun _ => true) s = .ok t := by
  have hcall : s.call (fun _ => true) .aborted (.dropMembership s.mreq) = .ok _ :=
    call_eq_ok.mpr ⟨⟨rfl, hjoined⟩, rfl⟩
  exact ⟨_, Checked.bind_eq_ok.mpr ⟨(), (assert_eq_ok _ _).mpr hfd, hcall⟩⟩

namespace Action

def isGroup : Action → Bool
  | .joinMulticastGroup _ _ _ | .leaveMulticastGroup _ => true
  | .mcastBind _ => false

def isJoin : Action → Bool
  | .joinMulticastGroup _ _ _ => true
  | .leaveMulticastGroup _ | .mcastBind _ => false

end Action

/-- Whether the last of the calls for groups joined one. -/
def lastJoined (as : List Action) : Bool := (as.filter Action.isGroup).getLast?.any Action.isJoin

theorem lastJoined_append (as : List Action) (a : Action) : lastJoined (as ++ [a]) =
    if a.isGroup then a.isJoin else lastJoined as := by
  rw [lastJoined, List.filter_append, lastJoined]
  cases a with
  | joinMulticastGroup _ _ _ | leaveMulticastGroup _ =>
    rw [List.filter_singleton]
    simp [Action.isGroup]
  | mcastBind _ => simp [Action.isGroup]

/-- Each membership is there once and under a named interface, and the one that the socket
remembers is there if and only if it was joined by the last call. -/
structure Remembers (as : List Action) (s : SocketImpl) : Prop where
  nodup : s.kernel.memberships.Nodup
  named : ∀ m ∈ s.kernel.memberships, m.imrInterface ≠ 0
  fresh : s.mreq.imrInterface = 0 → s.kernel.memberships = []
  last : s.mreq ∈ s.kernel.memberships ↔ lastJoined as = true

theorem Remembers.covers_iff {as : List Action} (h : Remembers as s) {m : IpMreq}
    (hm : m ∈ s.kernel.memberships) : s.mreq.covers m = true ↔ s.mreq = m := by
  have hiface : s.mreq.imrInterface ≠ 0 := by
    intro hzero
    rw [h.fresh hzero] at hm
    cases hm
  obtain ⟨socket, ⟨group, iface⟩, kernel⟩ := s
  obtain ⟨group', iface'⟩ := m
  simp only [IpMreq.covers, Bool.and_eq_true, Bool.or_eq_true, decide_eq_true_eq, IpMreq.mk.injEq]
  exact and_congr_right fun _ => or_iff_right hiface

theorem Remembers.not_mem_left {as : List Action} (h : Remembers as s) :
    s.mreq ∉ s.kernel.memberships.eraseP s.mreq.covers := by
  intro hleft
  have hm := List.mem_of_mem_eraseP hleft
  obtain ⟨m, front, back, _, hcovers, hsplit, herase⟩ :=
    List.exists_of_eraseP hm ((h.covers_iff hm).mpr rfl)
  have hnodup := h.nodup
  rw [hsplit, List.nodup_middle, List.nodup_cons] at hnodup
  have hmem : m ∈ s.kernel.memberships := by
    rw [hsplit]
    exact List.mem_append_right _ List.mem_cons_self
  have heq : s.mreq = m := (h.covers_iff hmem).mp hcovers
  rw [herase, heq] at hleft
  exact hnodup.1 hleft

theorem Remembers.mem_left {as : List Action} (h : Remembers as s) {m : IpMreq} :
    m ∈ s.kernel.memberships.eraseP s.mreq.covers ↔ m ∈ s.kernel.memberships ∧ s.mreq ≠ m := by
  constructor
  · intro hleft
    refine ⟨List.mem_of_mem_eraseP hleft, ?_⟩
    rintro rfl
    exact h.not_mem_left hleft
  · rintro ⟨hm, hne⟩
    exact (List.mem_eraseP_of_neg fun hcovers => hne ((h.covers_iff hm).mp hcovers)).mpr hm

/-- A joined group that the socket no longer remembers. -/
def Stays (m : IpMreq) (s : SocketImpl) : Prop := m ∈ s.kernel.memberships ∧ s.mreq ≠ m

theorem Remembers.stays {as : List Action} (h : Remembers as s) {m : IpMreq} (hm : Stays m s)
    (hn : Named p s a) (ht : step p a s = .ok t) : Stays m t := by
  obtain ⟨hm, hne⟩ := hm
  cases stepped ht with
  | joined hgroup hiface hnew =>
    refine ⟨List.mem_cons_of_mem _ hm, ?_⟩
    rintro rfl
    rw [hnew hm] at hiface
    exact hn hiface
  | left hjoined => exact ⟨h.mem_left.mpr ⟨hm, hne⟩, hne⟩
  | bound | refused => exact ⟨hm, hne⟩

theorem Remembers.step {as : List Action} (h : Remembers as s) (hn : Named p s a)
    (ht : step p a s = .ok t) : Remembers (as ++ [a]) t := by
  have hlast := lastJoined_append as a
  cases stepped ht with
  | joined hgroup hiface hnew =>
    rename_i answer ipAddress sourceIface req
    have hnamed : req.imrInterface ≠ 0 := by
      intro hzero
      rw [hzero] at hiface
      exact hn hiface
    refine ⟨List.nodup_cons.mpr ⟨fun hm => hnamed (hnew hm), h.nodup⟩,
      List.forall_mem_cons.mpr ⟨hnamed, h.named⟩, fun hzero => absurd hzero hnamed, ?_⟩
    rw [hlast]
    exact iff_of_true List.mem_cons_self rfl
  | left hjoined =>
    refine ⟨h.nodup.sublist List.eraseP_sublist,
      fun m hm => h.named m (List.mem_of_mem_eraseP hm), fun hzero => ?_, ?_⟩
    · exact congrArg (List.eraseP s.mreq.covers) (h.fresh hzero)
    · rw [hlast]
      exact iff_of_false h.not_mem_left Bool.false_ne_true
  | bound | refused =>
    refine ⟨h.nodup, h.named, h.fresh, ?_⟩
    rw [hlast]
    exact h.last

theorem remembers_constructed : Remembers [] (constructed fd type port kind) := by
  have hnone : (constructed fd type port kind).kernel.memberships = [] := by
    cases kind <;> rfl
  refine ⟨?_, ?_, fun _ => hnone, ?_⟩
  · rw [hnone]
    exact List.nodup_nil
  · rw [hnone]
    exact List.forall_mem_nil _
  · rw [hnone]
    exact iff_of_false List.not_mem_nil Bool.false_ne_true

theorem socket_kept (h : step p a s = .ok t) : t.socket = s.socket := by
  cases stepped h <;> rfl

/-- What holds of a socket along a run that starts with its construction. -/
theorem remembered (hs : createImpl answer fd type port kind = .ok s) {as : List Action}
    (ht : Transition.Runs (step p) (Named p) as s t) :
    Remembers as t ∧ t.socket = ⟨type, port, kind, fd⟩ ∧ 0 ≤ fd := by
  obtain ⟨_, hfd, _, rfl⟩ := createImpl_eq_ok.mp hs
  have hrun := ht.invariant [] (I := fun as s => Remembers as s ∧ s.socket = ⟨type, port, kind, fd⟩)
    (fun as s a t h hn hstep => ⟨h.1.step hn hstep, (socket_kept hstep).trans h.2⟩)
    ⟨remembers_constructed, rfl⟩
  exact ⟨hrun.1, hrun.2, hfd⟩

/-- A group can be left as long as no other call for groups came after the one that joined it. -/
theorem leave_returns_iff (hs : createImpl answer fd type port kind = .ok s) {as : List Action}
    (ht : Transition.Runs (step p) (Named p) as s t) :
    (∃ answer u, step p (.leaveMulticastGroup answer) t = .ok u) ↔ lastJoined as = true := by
  obtain ⟨h, hsocket, hfd⟩ := remembered hs ht
  rw [← h.last]
  constructor
  · rintro ⟨answer, u, hu⟩
    cases stepped hu with
    | left hjoined =>
      obtain ⟨m, hm, hcovers⟩ := hjoined
      rw [(h.covers_iff hm).mp hcovers]
      exact hm
  · intro hm
    have hfd' : 0 ≤ t.socket.fd := by
      rw [hsocket]
      exact hfd
    exact ⟨_, left_of_joined hfd' ⟨t.mreq, hm, (h.covers_iff hm).mpr rfl⟩⟩

private def eth0Text : StdString := ⟨['1', '0', '.', '0', '.', '0', '.', '2'].map chr, by decide⟩

private def ptpText (last : Char) : StdString :=
  ⟨['2', '2', '4', '.', '0', '.', '1', '.', last].map chr, by
    rw [List.length_map]
    exact (by decide : 9 < 2 ^ 63)⟩

private def joins (last : Char) : Action :=
  .joinMulticastGroup (fun _ => true) (ptpText last) eth0Text

private def member : SocketImpl := constructed 3 .ipv4Udp 319 .multicastPacketSocket

theorem created_member :
    createImpl (fun _ => true) 3 .ipv4Udp 319 .multicastPacketSocket = .ok member :=
  createImpl_eq_ok.mpr ⟨.inl rfl, by decide, fun _ _ => rfl, rfl⟩

/-- A second leave in a row does not return. -/
theorem leave_returns_iff_twice : ∃ t, Transition.Runs (step IPAddress.numbers.literals)
    (Named IPAddress.numbers.literals) [joins '5', .leaveMulticastGroup fun _ => true] member t ∧
      ¬∃ answer u, step IPAddress.numbers.literals (.leaveMulticastGroup answer) t = .ok u := by
  obtain ⟨t, ht, _⟩ := Transition.runs_of_leads (step IPAddress.numbers.literals)
    (Named IPAddress.numbers.literals) (fun _ => True)
    [joins '5', .leaveMulticastGroup fun _ => true] member (by decide +kernel)
  refine ⟨t, ht, fun hleft => ?_⟩
  exact absurd ((leave_returns_iff created_member ht).mp hleft) (by decide)

/-- Of the groups that a socket is in, the one joined last is the only one it can ever leave. -/
theorem can_leave_iff (hs : createImpl answer fd type port kind = .ok s) {as : List Action}
    (ht : Transition.Runs (step p) (Named p) as s t) {m : IpMreq} (hm : m ∈ t.kernel.memberships) :
    (∃ bs u, Transition.Runs (step p) (Named p) bs t u ∧ m ∉ u.kernel.memberships) ↔
      t.mreq = m := by
  obtain ⟨h, hsocket, hfd⟩ := remembered hs ht
  constructor
  · rintro ⟨bs, u, hu, hgone⟩
    by_contra hne
    have hstays := hu.invariant as (I := fun bs u => Remembers bs u ∧ Stays m u)
      (fun bs u a v hv hn hstep => ⟨hv.1.step hn hstep, hv.1.stays hv.2 hn hstep⟩) ⟨h, hm, hne⟩
    exact hgone hstays.2.1
  · rintro rfl
    have hfd' : 0 ≤ t.socket.fd := by
      rw [hsocket]
      exact hfd
    obtain ⟨u, hu⟩ := left_of_joined (p := p) hfd' ⟨t.mreq, hm, (h.covers_iff hm).mpr rfl⟩
    have hnamed : Named p t (.leaveMulticastGroup fun _ => true) := trivial
    refine ⟨_, u, .single hnamed hu, ?_⟩
    cases stepped hu with
    | left _ => exact h.not_mem_left

/-- The group 224.0.1.5, once 224.0.1.6 was joined after it. -/
theorem can_leave_iff_first : ∃ t, Transition.Runs (step IPAddress.numbers.literals)
    (Named IPAddress.numbers.literals) [joins '5', joins '6'] member t ∧
      ¬∃ bs u, Transition.Runs (step IPAddress.numbers.literals)
        (Named IPAddress.numbers.literals) bs t u ∧
          ⟨0x050100e0, 0x0200000a⟩ ∉ u.kernel.memberships := by
  obtain ⟨t, ht, hm, hne⟩ := Transition.runs_of_leads (step IPAddress.numbers.literals)
    (Named IPAddress.numbers.literals)
    (fun t => ⟨0x050100e0, 0x0200000a⟩ ∈ t.kernel.memberships ∧ t.mreq ≠ ⟨0x050100e0, 0x0200000a⟩)
    [joins '5', joins '6'] member (by decide +kernel)
  exact ⟨t, ht, fun hleft => hne ((can_leave_iff created_member ht hm).mp hleft)⟩

/-- A group that is joined with the address text of an adapter is joined on the last address of
the first answer of the kernel that has one for its interface. -/
theorem joined_on_interface (x : Inet6) {adapter found : NetworkAdapter}
    (hask : adapter.interfaceIp4 = none) {answers : List (Option (List Ifaddrs))}
    (hfound : adapter.retrieveInterfaceIp x answers = .ok (some found)) {text : StdString}
    (htext : found.interfaceIp4 = some text) {ipAddress : StdString}
    (hjoin : s.joinMulticastGroup x.literals answer ipAddress text = .ok t) :
    ∃ (before : List (List Ifaddrs)) (list : List Ifaddrs) (after : List (Option (List Ifaddrs)))
      (sa : Nat → Byte), answers = before.map some ++ some list :: after ∧
        (∀ earlier ∈ before,
          NetworkAdapter.addressesOf adapter.interfaceName afInet earlier = []) ∧
        (NetworkAdapter.addressesOf adapter.interfaceName afInet list).getLast? = some sa ∧
        t.kernel.memberships = t.mreq :: s.kernel.memberships ∧
        t.mreq.imrInterface = (SockaddrIn.load sa 0).sinAddr := by
  obtain ⟨_, before, list, after, rfl, hbefore, hlist, rfl⟩ :=
    (NetworkAdapter.retrieved_iff hask answers).mp hfound
  have hlearned : (NetworkAdapter.learn x (before.flatten ++ list) adapter).interfaceIp4 =
      (NetworkAdapter.addressesOf adapter.interfaceName afInet list).getLast?.map
        (NetworkAdapter.ip4Text x) := by
    rw [NetworkAdapter.interfaceIp4_learn x _ hask, NetworkAdapter.addressesOf_append,
      NetworkAdapter.addressesOf_flatten hbefore, List.nil_append]
  rw [hlearned, Option.map_eq_some_iff] at htext
  obtain ⟨sa, hlast, rfl⟩ := htext
  refine ⟨before, list, after, sa, rfl, hbefore, hlast, ?_⟩
  have hread : stringToIpv4Address x.literals (NetworkAdapter.ip4Text x sa) =
      .ok (SockaddrIn.load sa 0).sinAddr := IPAddress.read_ipString x rfl
  have hstep : step x.literals (.joinMulticastGroup answer ipAddress _) s = .ok t := hjoin
  cases stepped hstep with
  | joined hgroup hiface hnew =>
    rw [hread] at hiface
    exact ⟨rfl, (Except.ok.inj hiface).symm⟩

private def wlan0 : NetworkAdapter := { interfaceName := ['w', 'l', 'a', 'n', '0'].map chr }

private def wlan0Addr : Nat → Byte :=
  fun i => (SockaddrIn.mk afInet 0 0x0101a8c0 0).bytes.getD i 0

private def onWlan0 : SocketImpl := { member with
  mreq := ⟨0x050100e0, 0x0101a8c0⟩
  kernel := { member.kernel with
    memberships := [⟨0x050100e0, 0x0101a8c0⟩], multicastLoop := false } }

theorem joined_on_interface_wlan0 : ∃ (before : List (List Ifaddrs)) (list : List Ifaddrs)
    (after : List (Option (List Ifaddrs))) (sa : Nat → Byte),
    [some [Ifaddrs.mk wlan0.interfaceName (some wlan0Addr)]] =
      before.map some ++ some list :: after ∧
      (NetworkAdapter.addressesOf wlan0.interfaceName afInet list).getLast? = some sa ∧
      onWlan0.mreq.imrInterface = (SockaddrIn.load sa 0).sinAddr := by
  have hfound : wlan0.retrieveInterfaceIp IPAddress.numbers
      [some [Ifaddrs.mk wlan0.interfaceName (some wlan0Addr)]] =
        .ok (some (.learn IPAddress.numbers [⟨wlan0.interfaceName, some wlan0Addr⟩] wlan0)) := rfl
  have hjoin : member.joinMulticastGroup IPAddress.numbers.literals (fun _ => true) (ptpText '5')
      (NetworkAdapter.ip4Text IPAddress.numbers wlan0Addr) = .ok onWlan0 := by
    decide +kernel
  obtain ⟨before, list, after, sa, hanswers, _, hlast, _, hiface⟩ :=
    joined_on_interface IPAddress.numbers rfl hfound rfl hjoin
  exact ⟨before, list, after, sa, hanswers, hlast, hiface⟩

end SocketImpl

end Iuring
