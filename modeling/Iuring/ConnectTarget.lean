import Iuring.AddressDecoding
import Iuring.Edits
import Iuring.Progress

namespace Iuring

open Lib Lib.Memory

namespace WorkItem

open IOUring IPAddress

variable {handler : CallbackFn} {bytes : List Byte} {item item' : WorkItem} {target : IPAddress}
  {len : Nat}

/-- The item of a connect, which keeps its handler and the bytes of its target. -/
structure Connects (handler : CallbackFn) (bytes : List Byte) (item : WorkItem) : Prop where
  type : item.workType = .connect
  callback : item.callback = some (.connect handler)
  buffer : Holds item.bufferForUring 0 bytes

theorem Connects.edit (h : item.Connects handler bytes) (he : Edit item item') :
    item'.Connects handler bytes := by
  have hnot : ¬item.Sendable := by
    rintro (hk | hk) <;> rw [h.type] at hk <;> cases hk
  cases he with
  | packet _ hkind | streamData _ _ _ _ hkind | workpacket _ _ _ _ _ hkind =>
    exact absurd hkind hnot
  | rearmed _ _ _ hkind => rcases hkind with hk | hk <;> rw [h.type] at hk <;> cases hk
  | freed => exact ⟨h.type, h.callback, h.buffer⟩
  | answered _ hkind => rw [h.type] at hkind; cases hkind

theorem Connects.edits (h : item.Connects handler bytes) (he : Edits item item') :
    item'.Connects handler bytes := by
  induction he with
  | refl => exact h
  | tail _ hlast ih => exact ih.edit hlast

end WorkItem

namespace IOUring

open IPAddress WorkItem

variable {s : IOUring} {target : IPAddress}

private def webServer : IPAddress := ofSockaddrIn ⟨afInet, htons 443, 0x04030201, 0⟩

end IOUring

end Iuring
