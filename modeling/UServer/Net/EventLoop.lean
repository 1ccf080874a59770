import UServer.Library.Runs
import UServer.Net.SocketDispatcher

/-! The loop thread over epoll: WaitEpoll takes a report and dispatches it event by
event, OnEvent emits its signals one by one, and the handlers of a signal, like the
code between two waits, call any operation on any dispatcher. -/
namespace UServer.Net
open Library

/-- One element of epoll_events_. -/
structure PendingEvent where
  key : Key
  events : EpollMask

/-- Where the loop thread stands. In onEvent the flag says that handlers of the last
signal are running, and todo lists the conditionals of OnEvent still ahead. -/
inductive Control where
  | idle
  | batch (rest : List PendingEvent)
  | onEvent (rest : List PendingEvent) (key : Key) (p : Ptr) (ff : EventMask) (err : Errno) (handler : Bool)
      (todo : List EventMask)

structure LoopState where
  world : World
  control : Control

/-- The dispatcher whose OnEvent is on the stack. -/
def Control.busy : Control → Option Ptr
  | .onEvent _ _ p _ _ _ _ => some p
  | _ => none

/-- Application code runs between waits and in the handlers. -/
def Control.canCall : Control → Bool
  | .idle => true
  | .batch _ => false
  | .onEvent _ _ _ _ _ handler _ => handler

/-- IsDescriptorClosed; peek is what ::recv with MSG_PEEK answers past EINTR. -/
def Dispatcher.isDescriptorClosed : Dispatcher → Except Errno Nat → Bool
  | .signaler _, _ => false
  | .socket d, peek =>
    if d.udp then decide (d.s = invalidSocket)
    else match peek with
      | .ok n => decide (n = 0)
      | .error e => e = ebadf || e = econnreset || e = epipe

/-- The errcode of ProcessEvents; so is the answer of getsockopt for SO_ERROR. -/
def pendingError (errorEvent checkError : Bool) (so : Except Errno Errno) : Errno :=
  if checkError then
    match so with
    | .ok e => e
    | .error e => if errorEvent || e ≠ enotsock then ebadf else 0
  else 0

/-- ProcessEvents up to its call of OnEvent. -/
def processEvents (dispatcher : Dispatcher) (readable writeable errorEvent checkError : Bool)
    (so : Except Errno Errno) (peek : Except Errno Nat) : EventMask × Errno :=
  let errcode := pendingError errorEvent checkError so
  let requestedEvents := dispatcher.getRequestedEvents
  let ff : EventMask :=
    if readable then
      if errcode ≠ 0 || dispatcher.isDescriptorClosed peek then deClose
      else if has requestedEvents deAccept then deAccept
      else deRead
    else 0
  let ff :=
    if writeable then
      if has requestedEvents deConnect then if errcode = 0 then ff ||| deConnect else ff
      else ff ||| deWrite
    else ff
  (if errcode ≠ 0 then ff ||| deClose else ff, errcode)

/-- errno after the system calls of ProcessEvents: getsockopt where it checks for an error, and ::recv with MSG_PEEK on
a readable stream without one. -/
def World.probe (w : World) (dispatcher : Dispatcher) (readable errorEvent checkError : Bool) (so : Except Errno Errno)
    (peek : Except Errno Nat) : World :=
  let w := if checkError then w.noteErrno so else w
  match dispatcher with
  | .signaler _ => w
  | .socket d => if readable && pendingError errorEvent checkError so = 0 && !d.udp then w.noteErrno peek else w

/-- The conditionals of OnEvent, in their order. -/
def onEventStages : List EventMask := [deConnect, deAccept, deRead, deWrite, deClose]

/-- What the application may call. The arguments after the source's own ones are the
answers of the system calls and the address that the allocator picks. -/
inductive Op where
  | createSocket (p : Ptr) (family : Int) (type : SockType) (sock : Except Errno Fd) (linger : Option Errno)
  | wrapSocket (p : Ptr) (s : Fd) (soType : Option SockType) (linger : Option Errno)
  | create (p : Ptr) (family : Int) (type : SockType) (sock : Except Errno Fd) (linger : Option Errno)
  | initializeSocket (p : Ptr) (linger : Option Errno)
  | bind (p : Ptr) (permitted : Bool) (res : Except Errno Unit)
  | setOption (p : Ptr) (res : Except Errno Unit)
  | setError (p : Ptr) (e : Errno)
  | shutdown (p : Ptr) (res : Except Errno Unit)
  | connect (p : Ptr) (family : Int) (sock : Except Errno Fd) (linger : Option Errno) (res : Except Errno Unit)
  | listen (p : Ptr) (res : Except Errno Unit)
  | accept (p : Ptr) (res : Except Errno Fd) (p' : Ptr) (soType : Option SockType) (linger : Option Errno)
  | send (p : Ptr) (cb : Nat) (res : Except Errno Nat)
  | sendTo (p : Ptr) (cb : Nat) (res : Except Errno Nat)
  | recv (p : Ptr) (length : Nat) (res : Except Errno Nat)
  | recvFrom (p : Ptr) (res : Except Errno Nat)
  | close (p : Ptr)
  | destroy (p : Ptr)
  | add (p : Ptr)
  | remove (p : Ptr)
  | update (p : Ptr)

namespace World

/-- The kernel returns a descriptor that is not in use. -/
def freshFd (w : World) (fd : Fd) : Bool := decide (0 ≤ fd) && !w.kernel.isOpen fd

def freshAnswer (w : World) : Except Errno Fd → Bool
  | .ok fd => w.freshFd fd
  | .error _ => true

/-- Is there a socket dispatcher at the address? -/
def live (w : World) (p : Ptr) : Bool := (w.socketAt p).isSome

/-- Is there nothing at the address? -/
def vacant (w : World) (p : Ptr) : Bool := (w.dispatchers p).isNone

/-- The calls that the environment can make: on live objects, with fresh descriptors
and addresses, never freeing the dispatcher whose OnEvent runs. A descriptor given
to WrapSocket is one that no dispatcher holds; Add is for an open dispatcher. -/
def ready (w : World) (busy : Option Ptr) : Op → Bool
  | .createSocket p _ _ sock _ => w.vacant p && w.freshAnswer sock
  | .wrapSocket p s _ _ => w.vacant p && (decide (s = invalidSocket) || w.freshFd s)
  | .create p _ _ sock _ => w.live p && (w.close p).freshAnswer sock
  | .connect p _ sock _ _ => w.live p && w.freshAnswer sock
  | .accept p res p' _ _ => w.live p && w.vacant p' && w.freshAnswer res
  | .destroy p => w.live p && decide (busy ≠ some p)
  | .add p => match w.socketAt p with
    | none => false
    | some d => decide (d.s ≠ invalidSocket)
  | .initializeSocket p _ | .bind p _ _ | .setOption p _ | .setError p _ | .shutdown p _
  | .listen p _ | .send p _ _ | .sendTo p _ _ | .recv p _ _ | .recvFrom p _ | .close p
  | .remove p | .update p => w.live p

def exec (w : World) : Op → World
  | .createSocket p family type sock linger => (w.createSocket p family type sock linger).1
  | .wrapSocket p s soType linger =>
    ((if s = invalidSocket then w else w.openFd s).wrapSocket p s soType linger).1
  | .create p family type sock linger => (w.create p family type sock linger).1
  | .initializeSocket p linger => (w.initializeSocket p linger).1
  | .bind p permitted res => (w.bind p permitted res).1
  | .setOption p res => (w.setOption p res).1
  | .setError p e => w.setError p e
  | .shutdown p res => (w.shutdown p res).1
  | .connect p family sock linger res => (w.connect p family sock linger res).1
  | .listen p res => (w.listen p res).1
  | .accept p res p' soType linger => (w.accept p res p' soType linger).1
  | .send p cb res => (w.send p cb res).1
  | .sendTo p cb res => (w.sendTo p cb res).1
  | .recv p length res => (w.recv p length res).1
  | .recvFrom p res => (w.recvFrom p res).1
  | .close p => w.close p
  | .destroy p => w.delete p
  | .add p => w.add p
  | .remove p => w.remove p
  | .update p => w.update p

/-- OnEvent up to its first conditional, with StartBatchedEventUpdates. -/
def startOnEvent (w : World) (key : Key) (p : Ptr) (d : SocketDispatcher) (ff : EventMask) : World :=
  let state := if has ff deConnect then .connected else d.state
  let state := if has ff deClose then .closed else state
  (w.log (.onEvent key p ff d.enabledEvents)).setSocket p
    { d with state := state, savedEnabledEvents := some d.enabledEvents }

/-- One conditional of OnEvent: disarm the event, then emit its signal. -/
def onEventStage (w : World) (p : Ptr) (ff signal : EventMask) : World :=
  if has ff signal then (w.disableEvents p signal).log (.emitted p signal) else w

/-- FinishBatchedEventUpdates; minus one narrows to 0xFF. -/
def finishBatchedEventUpdates (w : World) (p : Ptr) : World :=
  match w.socketAt p with
  | none => w
  | some d =>
    (w.setSocket p { d with savedEnabledEvents := none }).mayBeUpdateDispatcher p (d.savedEnabledEvents.getD 0xFF)

/-- The constructor: a registry that holds the signaler alone. -/
def start (p : Ptr) (afd : Fd) : World :=
  let w : World :=
    { dispatchers := fun _ => none
      server := ⟨0, fun _ => none, fun _ => none⟩
      kernel := ⟨fun _ => false, fun _ => none⟩
      errno := 0
      trace := [] }
  ((w.openFd afd).setDispatcher p (some (.signaler afd))).add p

end World

/-- The kernel reports a watched descriptor with requested events, an error or a hangup. -/
def reportOne (k : Kernel) (ev : Fd × EpollMask) : Option PendingEvent :=
  match k.interest ev.1 with
  | none => none
  | some entry =>
    if ev.2 ≠ 0 ∧ ev.2 &&& ~~~(entry.events ||| epollErr ||| epollHup) = 0 then some ⟨entry.key, ev.2⟩ else none

/-- An answer of epoll_wait: at least one and at most kNumEpollEvents descriptors, each once. -/
def reportReady (k : Kernel) (evs : List (Fd × EpollMask)) : Bool :=
  !evs.isEmpty && decide (evs.length ≤ 128) && decide (evs.map Prod.fst).Nodup &&
    evs.all fun ev => (reportOne k ev).isSome

inductive Action where
  | op (o : Op)
  | report (evs : List (Fd × EpollMask))
  | next (so : Except Errno Errno) (peek : Except Errno Nat)
  | advance

/-- The step from one event of the batch to the next. A registered dispatcher that is
gone would be used after it was freed: the step is not defined there. -/
def dispatchNext (w : World) (ev : PendingEvent) (rest : List PendingEvent) (so : Except Errno Errno)
    (peek : Except Errno Nat) : Option LoopState :=
  match w.server.dispatcherByKey ev.key with
  | none => some ⟨w, .batch rest⟩
  | some p =>
    match w.dispatchers p with
    | none => none
    | some dispatcher =>
      let readable := has ev.events (epollIn ||| epollPri)
      let writable := has ev.events epollOut
      let error := has ev.events (epollRdHup ||| epollErr ||| epollHup)
      let out := processEvents dispatcher readable writable error error so peek
      let w := (w.probe dispatcher readable error error so peek).log (.processed ev.key p)
      if out.1 = 0 then some ⟨w, .batch rest⟩
      else match dispatcher with
        | .signaler _ => some ⟨w, .batch rest⟩
        | .socket d => some ⟨w.startOnEvent ev.key p d out.1, .onEvent rest ev.key p out.1 out.2 false onEventStages⟩

def loopStep (s : LoopState) : Action → Option LoopState
  | .op o =>
    if s.control.canCall && s.world.ready s.control.busy o then some { s with world := s.world.exec o } else none
  | .report evs =>
    match s.control with
    | .idle =>
      if reportReady s.world.kernel evs then
        let pending := evs.filterMap (reportOne s.world.kernel)
        some ⟨s.world.log (.reported (pending.map PendingEvent.key)), .batch pending⟩
      else none
    | _ => none
  | .next so peek =>
    match s.control with
    | .batch (ev :: rest) => dispatchNext s.world ev rest so peek
    | .batch [] => some { s with control := .idle }
    | _ => none
  | .advance =>
    match s.control with
    | .onEvent rest key p ff err _ (signal :: todo) =>
      some ⟨s.world.onEventStage p ff signal, .onEvent rest key p ff err (has ff signal) todo⟩
    | .onEvent rest _ p _ _ _ [] => some ⟨s.world.finishBatchedEventUpdates p, .batch rest⟩
    | _ => none

/-- The loop thread of a freshly constructed socket server. -/
def loopMachine : Machine LoopState Action where
  init s := ∃ p afd, 0 ≤ afd ∧ s = ⟨World.start p afd, .idle⟩
  step := loopStep

end UServer.Net
