import Iuring.IPAddress
import Iuring.Lib.Transition

namespace Iuring

open Lib Lib.Memory

/-- The name of a function object passed to resolve_hostname. -/
abbrev HandlerFn := Nat

/-- The address of a gaicb on the heap. -/
abbrev RequestPtr := Nat

abbrev ResolveHostnameArg := Except Error (List IPAddress)

/-- A node of the list that a lookup returns. -/
structure Addrinfo where
  aiFamily : BitVec 16
  aiAddr : Nat → Byte

structure RequestInfo where
  hostname : StdString
  request : Option RequestPtr
  handlers : List HandlerFn
deriving DecidableEq

/-- The member that resolve_hostname works on, the lookups whose notification
is still to come, the arguments passed so far and the calls made so far. -/
structure Resolver where
  requests : List RequestInfo
  waiting : List RequestPtr
  passed : List (StdString × HandlerFn)
  calls : List (HandlerFn × ResolveHostnameArg)

namespace Resolver

def convertAddresses (res : List Addrinfo) : List IPAddress :=
  res.filterMap fun rp =>
    if rp.aiFamily = afInet then some (.ofSockaddrIn (.load rp.aiAddr 0))
    else if rp.aiFamily = afInet6 then some (.ofSockaddrIn6 (.load rp.aiAddr 0))
    else none

/-- One round of the loop of trigger_hostname_resolve_callbacks. -/
def triggerOne (ptr : RequestPtr) (arResult : Option (List Addrinfo)) (it : RequestInfo) :
    RequestInfo × List (HandlerFn × ResolveHostnameArg) :=
  match it.request with
  | none => (it, [])
  | some request =>
    if request ≠ ptr then (it, [])
    else
      match arResult with
      | none => (it, it.handlers.map (fun handler => (handler, .error .hostnameResolveFailed)))
      | some res => ({ it with request := none },
          it.handlers.map (fun handler => (handler, .ok (convertAddresses res))))

def triggerHostnameResolveCallbacks (ptr : RequestPtr) (arResult : Option (List Addrinfo))
    (r : Resolver) : Resolver :=
  { r with
    requests := r.requests.map (fun it => (triggerOne ptr arResult it).1)
    calls := r.calls ++ r.requests.flatMap (fun it => (triggerOne ptr arResult it).2) }

/-- The loop that looks for an earlier request for the hostname. -/
def pushHandler (hostname : StdString) (handler : HandlerFn) :
    List RequestInfo → Option (List RequestInfo)
  | [] => none
  | req :: rest =>
    if req.hostname = hostname then some ({ req with handlers := req.handlers ++ [handler] } :: rest)
    else (pushHandler hostname handler rest).map (req :: ·)

/-- The request that a new entry allocates is at the given address. -/
def resolveHostname (inetPton : IPAddress.InetPton) (sa4 : SockaddrIn) (sa6 : SockaddrIn6)
    (request : RequestPtr) (hostname : StdString) (handler : HandlerFn) (r : Resolver) : Resolver :=
  match IPAddress.parse inetPton sa4 sa6 hostname with
  | .ok addr => { r with calls := r.calls ++ [(handler, .ok [addr])] }
  | .error _ =>
    match pushHandler hostname handler r.requests with
    | some requests => { r with requests := requests }
    | none => { r with
        requests := r.requests ++ [⟨hostname, some request, []⟩]
        waiting := request :: r.waiting }

/-- A call of the user, or the notification of one lookup with its result. -/
inductive Action
  | resolveHostname (sa4 : SockaddrIn) (sa6 : SockaddrIn6) (request : RequestPtr)
      (hostname : StdString) (handler : HandlerFn)
  | notify (ptr : RequestPtr) (arResult : Option (List Addrinfo))

/-- New memory is none that is in use, and a lookup is notified once. -/
def step (inetPton : IPAddress.InetPton) : Action → Resolver → Result Resolver
  | .resolveHostname sa4 sa6 request hostname handler, r => do
    Checked.ensure .notEnabled (request ∉ r.requests.filterMap (·.request))
    let r := { r with passed := r.passed ++ [(hostname, handler)] }
    return r.resolveHostname inetPton sa4 sa6 request hostname handler
  | .notify ptr arResult, r => do
    Checked.ensure .notEnabled (ptr ∈ r.waiting)
    let r := { r with waiting := r.waiting.erase ptr }
    return r.triggerHostnameResolveCallbacks ptr arResult

def initial : Resolver := ⟨[], [], [], []⟩

end Resolver

end Iuring
