import UServer.Net.Dispatcher

/-! The registry operations of the socket server and the epoll calls under them.
Assertions only log, so a failed one does not stop the code that follows it. -/
namespace UServer.Net
open Library

/-- std::unordered_map::emplace keeps an entry that is already there. -/
def emplace {α β : Type} [DecidableEq α] (m : α → Option β) (a : α) (b : β) : α → Option β :=
  if (m a).isSome then m else Function.update m a (some b)

namespace World

def setKernel (w : World) (k : Kernel) : World := { w with kernel := k }

/-- The world after an epoll_ctl, which leaves its error in errno if it fails. -/
def epollCtl (w : World) (out : Kernel × Except Errno Unit) : World := (w.setKernel out.1).noteErrno out.2

@[simp] theorem epollCtl_dispatchers (w : World) (out : Kernel × Except Errno Unit) :
    (w.epollCtl out).dispatchers = w.dispatchers := by
  unfold epollCtl noteErrno
  split <;> rfl

@[simp] theorem epollCtl_server (w : World) (out : Kernel × Except Errno Unit) : (w.epollCtl out).server = w.server := by
  unfold epollCtl noteErrno
  split <;> rfl

/-- AddEpoll leaves out a dispatcher that asks for nothing. -/
def addEpoll (w : World) (p : Ptr) (key : Key) : World :=
  match w.dispatchers p with
  | none => w
  | some dispatcher =>
    let fd := dispatcher.getDescriptor
    if fd = invalidSocket then w
    else
      let events := getEpollEvents dispatcher.getRequestedEvents
      if events = 0 then w else w.epollCtl (w.kernel.epollCtlAdd fd ⟨events, key⟩)

def removeEpoll (w : World) (p : Ptr) : World :=
  match w.dispatchers p with
  | none => w
  | some dispatcher =>
    let fd := dispatcher.getDescriptor
    if fd = invalidSocket then w else w.epollCtl (w.kernel.epollCtlDel fd)

/-- UpdateEpoll: a non-zero mask falls back to EPOLL_CTL_ADD on ENOENT. -/
def updateEpoll (w : World) (p : Ptr) (key : Key) : World :=
  match w.dispatchers p with
  | none => w
  | some dispatcher =>
    let fd := dispatcher.getDescriptor
    if fd = invalidSocket then w
    else
      let event : EpollEntry := ⟨getEpollEvents dispatcher.getRequestedEvents, key⟩
      let out := w.kernel.epollCtlMod fd event
      let w := w.epollCtl out
      match out.2 with
      | .ok _ => w
      | .error e => if event.events ≠ 0 ∧ e = enoent then w.epollCtl (w.kernel.epollCtlAdd fd event) else w

/-- The registry part of Add. -/
def register (w : World) (p : Ptr) : World :=
  let key := w.server.nextDispatcherKey
  { w with server :=
      { nextDispatcherKey := key + 1
        dispatcherByKey := emplace w.server.dispatcherByKey key p
        keyByDispatcher := emplace w.server.keyByDispatcher p key } }

/-- The registry part of Remove. -/
def unregister (w : World) (p : Ptr) (key : Key) : World :=
  { w with server :=
      { w.server with
        keyByDispatcher := Function.update w.server.keyByDispatcher p none
        dispatcherByKey := Function.update w.server.dispatcherByKey key none } }

def add (w : World) (p : Ptr) : World :=
  if (w.server.keyByDispatcher p).isSome then w
  else
    let key := w.server.nextDispatcherKey
    ((w.log (.added key p)).register p).addEpoll p key

def remove (w : World) (p : Ptr) : World :=
  match w.server.keyByDispatcher p with
  | none => w
  | some key => ((w.log (.removed key p)).unregister p key).removeEpoll p

def update (w : World) (p : Ptr) : World :=
  match w.server.keyByDispatcher p with
  | none => w
  | some key => w.updateEpoll p key

end World
end UServer.Net
