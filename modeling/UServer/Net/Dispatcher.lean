import UServer.Net.Epoll

/-! The objects the loop thread works on: socket dispatchers and the signaler at
their addresses, the socket server's registry, the kernel, and a record of what
happened. Every field is the source's; the record alone is added. -/
namespace UServer.Net
open Library

/-- Where a Dispatcher object lives. The allocator may reuse an address. -/
abbrev Ptr := Nat

inductive ConnState where
  | closed | connecting | connected
  deriving DecidableEq, Repr

/-- The type argument of ::socket, or what SO_TYPE answers. -/
inductive SockType where
  | stream | dgram | other
  deriving DecidableEq, Repr

/-- The members of SocketDispatcher and its base class. A saved mask of none is
the value -1 of saved_enabled_events_: no batch is open. -/
structure SocketDispatcher where
  s : Fd
  udp : Bool
  family : Int
  error : Errno
  state : ConnState
  enabledEvents : EventMask
  savedEnabledEvents : Option EventMask

/-- The two classes that implement the Dispatcher interface. -/
inductive Dispatcher where
  | signaler (afd : Fd)
  | socket (d : SocketDispatcher)

namespace Dispatcher

def getDescriptor : Dispatcher → Fd
  | .signaler afd => afd
  | .socket d => d.s

def getRequestedEvents : Dispatcher → EventMask
  | .signaler _ => deRead
  | .socket d => d.enabledEvents

end Dispatcher

/-- The registry of PhysicalSocketServer: two maps and the key counter. -/
structure PhysicalSocketServer where
  nextDispatcherKey : Key
  dispatcherByKey : Key → Option Ptr
  keyByDispatcher : Ptr → Option Key

/-- What the record of a run keeps, newest first. -/
inductive Event where
  | added (key : Key) (p : Ptr)
  | removed (key : Key) (p : Ptr)
  | reported (keys : List Key)
  | processed (key : Key) (p : Ptr)
  | onEvent (key : Key) (p : Ptr) (ff : EventMask) (enabled : EventMask)
  | armed (p : Ptr) (events : EventMask)
  | connecting (p : Ptr)
  | emitted (p : Ptr) (signal : EventMask)
  | opened (fd : Fd)
  | closed (fd : Fd)
  deriving DecidableEq

structure World where
  dispatchers : Ptr → Option Dispatcher
  server : PhysicalSocketServer
  kernel : Kernel
  errno : Errno
  trace : List Event

namespace World

def log (w : World) (e : Event) : World := { w with trace := e :: w.trace }

def setErrno (w : World) (e : Errno) : World := { w with errno := e }

/-- A failed system call leaves its error in errno. -/
def noteErrno {α : Type} (w : World) : Except Errno α → World
  | .ok _ => w
  | .error e => w.setErrno e

def setDispatcher (w : World) (p : Ptr) (d : Option Dispatcher) : World :=
  { w with dispatchers := Function.update w.dispatchers p d }

/-- The socket dispatcher at an address, if that is what lives there. -/
def socketAt (w : World) (p : Ptr) : Option SocketDispatcher :=
  match w.dispatchers p with
  | some (.socket d) => some d
  | _ => none

def setSocket (w : World) (p : Ptr) (d : SocketDispatcher) : World := w.setDispatcher p (some (.socket d))

theorem socketAt_eq_some_iff {w : World} {p : Ptr} {d : SocketDispatcher} :
    w.socketAt p = some d ↔ w.dispatchers p = some (.socket d) := by
  unfold socketAt
  split <;> simp_all

section Frame
variable (w : World) (p : Ptr)

@[simp] theorem setSocket_same (d : SocketDispatcher) :
    (w.setSocket p d).dispatchers p = some (.socket d) := Function.update_self _ _ _

@[simp] theorem setSocket_ne {q : Ptr} (d : SocketDispatcher) (h : q ≠ p) :
    (w.setSocket p d).dispatchers q = w.dispatchers q := Function.update_of_ne h _ _

@[simp] theorem socketAt_setSocket_same (d : SocketDispatcher) : (w.setSocket p d).socketAt p = some d := by
  simp [socketAt]

end Frame
end World
end UServer.Net
