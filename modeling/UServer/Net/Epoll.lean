import UServer.Library.Mask
import Mathlib.Logic.Function.Basic

/-! Event masks of the dispatchers, the masks that epoll uses, and the kernel side:
open descriptors and the interest table behind epoll_ctl. -/
namespace UServer.Net
open Library

/-- SOCKET, with the value that stands for no descriptor. -/
abbrev Fd := Int
def invalidSocket : Fd := -1

abbrev Errno := Int
def enoent : Errno := 2
def eintr : Errno := 4
def ebadf : Errno := 9
def eagain : Errno := 11
def eexist : Errno := 17
def epipe : Errno := 32
def enotsock : Errno := 88
def econnreset : Errno := 104
def ealready : Errno := 114
def einprogress : Errno := 115
def econnrefused : Errno := 111

/-- EWOULDBLOCK and EAGAIN are one number on Linux. -/
def ewouldblock : Errno := eagain

def isBlockingError (e : Errno) : Bool := e = ewouldblock || e = eagain || e = einprogress

/-- A bit set of DispatcherEvent flags. -/
abbrev EventMask := BitVec 8
def deRead : EventMask := 0x01
def deWrite : EventMask := 0x02
def deConnect : EventMask := 0x04
def deClose : EventMask := 0x08
def deAccept : EventMask := 0x10

/-- The events field of epoll_event. -/
abbrev EpollMask := BitVec 32
def epollIn : EpollMask := 0x001
def epollPri : EpollMask := 0x002
def epollOut : EpollMask := 0x004
def epollErr : EpollMask := 0x008
def epollHup : EpollMask := 0x010
def epollRdHup : EpollMask := 0x2000

def getEpollEvents (ff : EventMask) : EpollMask :=
  let events : EpollMask := 0
  let events := if has ff (deRead ||| deAccept) then events ||| epollIn else events
  if has ff (deWrite ||| deConnect) then events ||| epollOut else events

theorem has_getEpollEvents_in (ff : EventMask) :
    has (getEpollEvents ff) epollIn = has ff (deRead ||| deAccept) := by
  unfold getEpollEvents
  cases has ff (deRead ||| deAccept) <;> cases has ff (deWrite ||| deConnect) <;> decide

theorem has_getEpollEvents_out (ff : EventMask) :
    has (getEpollEvents ff) epollOut = has ff (deWrite ||| deConnect) := by
  unfold getEpollEvents
  cases has ff (deRead ||| deAccept) <;> cases has ff (deWrite ||| deConnect) <;> decide

/-- A dispatcher never asks for anything but EPOLLIN and EPOLLOUT. -/
theorem getEpollEvents_le (ff : EventMask) : getEpollEvents ff &&& ~~~(epollIn ||| epollOut) = 0 := by
  unfold getEpollEvents
  cases has ff (deRead ||| deAccept) <;> cases has ff (deWrite ||| deConnect) <;> decide

abbrev Key := UInt64

/-- One entry of the interest table: the requested events and data.u64. -/
structure EpollEntry where
  events : EpollMask
  key : Key

/-- The descriptors in use and what epoll watches. The table changes through
epoll_ctl alone: nothing here relies on close taking a descriptor out of it. -/
structure Kernel where
  isOpen : Fd → Bool
  interest : Fd → Option EpollEntry

namespace Kernel

/-- EPOLL_CTL_ADD, with the error if the descriptor is there already. -/
def epollCtlAdd (k : Kernel) (fd : Fd) (event : EpollEntry) : Kernel × Except Errno Unit :=
  match k.interest fd with
  | none => ({ k with interest := Function.update k.interest fd (some event) }, .ok ())
  | some _ => (k, .error eexist)

/-- EPOLL_CTL_MOD, with ENOENT for an absent descriptor. -/
def epollCtlMod (k : Kernel) (fd : Fd) (event : EpollEntry) : Kernel × Except Errno Unit :=
  match k.interest fd with
  | none => (k, .error enoent)
  | some _ => ({ k with interest := Function.update k.interest fd (some event) }, .ok ())

/-- EPOLL_CTL_DEL, with ENOENT for an absent descriptor. -/
def epollCtlDel (k : Kernel) (fd : Fd) : Kernel × Except Errno Unit :=
  match k.interest fd with
  | none => (k, .error enoent)
  | some _ => ({ k with interest := Function.update k.interest fd none }, .ok ())

def openFd (k : Kernel) (fd : Fd) : Kernel := { k with isOpen := Function.update k.isOpen fd true }
def closeFd (k : Kernel) (fd : Fd) : Kernel := { k with isOpen := Function.update k.isOpen fd false }

/-- What the interest table asks for a descriptor; an absent one counts as zero. -/
def mask (k : Kernel) (fd : Fd) : EpollMask := (k.interest fd).elim 0 EpollEntry.events

end Kernel
end UServer.Net
