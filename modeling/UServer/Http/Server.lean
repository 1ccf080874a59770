import UServer.Http.HttpServer
import UServer.Net.EventLoop

/-! HTTPServer on all of its connections: what it has connected to the signals of each
socket, and its handlers, run by the event loop inside the emission that calls them. -/
namespace UServer.Http
open Library Net

/-- The signals of a Socket. -/
inductive Signal where
  | read | write | connect | close
  deriving DecidableEq

/-- The signal that a conditional of OnEvent emits. -/
def signalOf (event : EventMask) : Signal :=
  if event = deConnect then .connect else if event = deWrite then .write else if event = deClose then .close else .read

/-- The member functions that are connected to SignalReadEvent. -/
inductive Reader where
  | onAccept | onRead
  deriving DecidableEq

/-- The connections of one socket's signals: SignalReadEvent and SignalCloseEvent get theirs
once, right after the socket is made; OnWrite is connected by every OnRead that got data. -/
structure Slots where
  read : Option Reader
  write : Nat
  close : Bool

/-- The server and its loop thread. The signal being emitted is the one whose mutex the
thread holds; it is hung once it waits for that mutex itself. -/
structure HttpServer where
  loop : LoopState
  slots : Ptr → Slots
  handed : Ptr → List UInt8
  clientCount : Int
  emitting : Option (Ptr × Signal)
  hung : Bool

/-- What the kernel answers to one Accept, and where the new dispatcher is placed. -/
structure AcceptAnswer where
  res : Except Errno Fd
  address : Ptr
  soType : Option SockType
  linger : Option Errno

/-- What the kernel answers to the handlers of one emission, in turn. -/
structure Answers where
  accepts : List AcceptAnswer
  recvs : List (Except Errno Nat)
  sends : List SendOutcome

namespace HttpServer

def world (s : HttpServer) : World := s.loop.world

def setWorld (s : HttpServer) (w : World) : HttpServer := { s with loop := { s.loop with world := w } }

def setSlots (s : HttpServer) (p : Ptr) (f : Slots → Slots) : HttpServer :=
  { s with slots := Function.update s.slots p (f (s.slots p)) }

/-- connect and disconnect of SignalReadEvent and SignalWriteEvent, which are multi_threaded_local,
lock the mutex of the signal; it is not recursive. -/
def locked (s : HttpServer) (p : Ptr) (signal : Signal) (f : Slots → Slots) : HttpServer :=
  if s.emitting = some (p, signal) then { s with hung := true } else s.setSlots p f

def connectRead (s : HttpServer) (p : Ptr) (reader : Reader) : HttpServer :=
  s.locked p .read fun c => { c with read := some reader }

def connectWrite (s : HttpServer) (p : Ptr) : HttpServer := s.locked p .write fun c => { c with write := c.write + 1 }

def disconnectWrite (s : HttpServer) (p : Ptr) : HttpServer :=
  s.locked p .write fun c => { c with write := c.write - 1 }

/-- SignalCloseEvent is single_threaded and locks nothing. -/
def connectClose (s : HttpServer) (p : Ptr) : HttpServer := s.setSlots p fun c => { c with close := true }

/-- The connection at an address, taken by itself. -/
def exchange (s : HttpServer) (p : Ptr) : Exchange := ⟨s.world, (s.slots p).write, s.handed p, s.hung⟩

/-- HTTPServer::OnWrite, with what is left of the kernel's answers. -/
def onWrite (response : Response) (p : Ptr) (sends : List SendOutcome) (s : HttpServer) :
    HttpServer × List SendOutcome :=
  let (x, readIdx, sends) := Exchange.writeLoop response p sends 0 (s.exchange p)
  let s := { s.setWorld x.world with handed := Function.update s.handed p x.handed }
  (if 0 < readIdx then s.disconnectWrite p else s, sends)

/-- The ret that ends the loop of OnRead. -/
def lastRet (p : Ptr) : List (Except Errno Nat) → World → Int
  | [], w => (w.recv p Exchange.readBufferSize (.error eagain)).2
  | r :: recvs, w =>
    let (w, ret) := w.recv p Exchange.readBufferSize r
    if 0 < ret then lastRet p recvs w else ret

/-- HTTPServer::OnRead. -/
def onRead (response : Response) (p : Ptr) (recvs : List (Except Errno Nat)) (sends : List SendOutcome)
    (s : HttpServer) : HttpServer :=
  let ret := lastRet p recvs s.world
  let (w, received) := Exchange.readLoop p recvs s.world 0
  let s := s.setWorld w
  let s :=
    if 0 < received then
      let s := s.connectWrite p
      if s.hung then s else (s.onWrite response p sends).1
    else s
  if s.hung then s else if ret = 0 then { s with clientCount := s.clientCount - 1 } else s

/-- A client that Accept returned, a new object with nothing connected. -/
def welcome (s : HttpServer) (client : Ptr) : HttpServer :=
  let s := { s.setSlots client fun _ => ⟨none, 0, false⟩ with handed := Function.update s.handed client [] }
  let s := s.connectRead client .onRead
  if s.hung then s else { s.connectClose client with clientCount := s.clientCount + 1 }

def maxAcceptPerCall : Nat := 511

/-- The loop of OnAccept. It ends the thread's possible steps where the answers do not
fit: none is left, a descriptor is in use or the address is taken. -/
def acceptLoop (p : Ptr) : Nat → List AcceptAnswer → HttpServer → Option HttpServer
  | 0, _, s => some s
  | _ + 1, [], _ => none
  | i + 1, a :: accepts, s =>
    if s.world.ready s.loop.control.busy (.accept p a.res a.address a.soType a.linger) then
      let (w, ok) := s.world.accept p a.res a.address a.soType a.linger
      let s := s.setWorld w
      if ok then
        let s := s.welcome a.address
        if s.hung then some s else acceptLoop p i accepts s
      else if (w.socketAt p).any fun d => d.error == eintr then acceptLoop p i accepts s
      else some s
    else none

/-- HTTPServer::OnAccept. -/
def onAccept (p : Ptr) (accepts : List AcceptAnswer) (s : HttpServer) : Option HttpServer :=
  acceptLoop p maxAcceptPerCall accepts s

/-- HTTPServer::OnClose. -/
def onClose (p : Ptr) (s : HttpServer) : HttpServer := s.setWorld (s.world.close p)

/-- The slots of SignalWriteEvent in turn. -/
def emitWrite (response : Response) (p : Ptr) : Nat → List SendOutcome → HttpServer → HttpServer
  | 0, _, s => s
  | slots + 1, sends, s =>
    let (s, sends) := s.onWrite response p sends
    if s.hung then s else emitWrite response p slots sends s

/-- The slots of a signal are called. -/
def callSlots (response : Response) (p : Ptr) (signal : Signal) (io : Answers) (s : HttpServer) : Option HttpServer :=
  match signal with
  | .read =>
    match (s.slots p).read with
    | none => some s
    | some .onAccept => s.onAccept p io.accepts
    | some .onRead => some (s.onRead response p io.recvs io.sends)
  | .write => some (emitWrite response p (s.slots p).write io.sends s)
  | .connect => some s
  | .close => some (if (s.slots p).close then s.onClose p else s)

/-- signal::emit holds the mutex, if the signal has one, while it calls the slots. -/
def emit (response : Response) (p : Ptr) (signal : Signal) (io : Answers) (s : HttpServer) : Option HttpServer :=
  (callSlots response p signal io { s with emitting := some (p, signal) }).map fun s =>
    if s.hung then s else { s with emitting := none }

end HttpServer

/-- What HTTPServer::Initialize and the constructors before it are given. -/
structure Startup where
  signaler : Ptr
  afd : Fd
  listener : Ptr
  sock : Except Errno Fd
  linger : Option Errno
  reuseAddr : Except Errno Unit
  anyOrLoopback : Bool
  bound : Except Errno Unit
  listened : Except Errno Unit

/-- AF_INET. -/
def afInet : Int := 2

/-- HTTPServer::Initialize on a fresh server, with what it returns. Where CreateSocket
returns nullptr the code goes on with it, and nothing is defined. -/
def Startup.initialize (a : Startup) : Option (World × Bool) :=
  let w := World.start a.signaler a.afd
  let (w, ok) := w.createSocket a.listener afInet .stream a.sock a.linger
  if ok then
    let w := (w.setOption a.listener a.reuseAddr).1
    let (w, err) := w.bind a.listener a.anyOrLoopback a.bound
    if err ≠ 0 then some (w.close a.listener, false)
    else
      let (w, err) := w.listen a.listener a.listened
      if err ≠ 0 then some (w.close a.listener, false) else some (w, true)
  else none

/-- The server as Initialize leaves it when it returns true. -/
def Startup.server (a : Startup) (w : World) : HttpServer where
  loop := ⟨w, .idle⟩
  slots := Function.update (fun _ => ⟨none, 0, false⟩) a.listener ⟨some .onAccept, 0, false⟩
  handed := fun _ => []
  clientCount := 0
  emitting := none
  hung := false

inductive HttpAction where
  | report (evs : List (Fd × EpollMask))
  | next (so : Except Errno Errno) (peek : Except Errno Nat)
  | advance (io : Answers)

def HttpAction.loopAction : HttpAction → Action
  | .report evs => .report evs
  | .next so peek => .next so peek
  | .advance _ => .advance

/-- The emission that the step comes to, if any: the next conditional of OnEvent, with its event set. -/
def HttpAction.emission (s : HttpServer) : HttpAction → Option (Ptr × EventMask × Answers)
  | .advance io =>
    match s.loop.control with
    | .onEvent _ _ p ff _ _ (signal :: _) => if has ff signal then some (p, signal, io) else none
    | _ => none
  | _ => none

/-- The loop's own step, and the slots that it calls if it emits a signal. -/
def httpStep (response : Response) (s : HttpServer) (a : HttpAction) : Option HttpServer :=
  if s.hung then none
  else (loopStep s.loop a.loopAction).bind fun l =>
    match a.emission s with
    | none => some { s with loop := l }
    | some (p, signal, io) => HttpServer.emit response p (signalOf signal) io { s with loop := l }

/-- The server from a successful Initialize on. -/
def httpMachine (response : Response) : Machine HttpServer HttpAction where
  init s := ∃ (a : Startup) (w : World), 0 ≤ a.afd ∧
    (World.start a.signaler a.afd).ready none (.createSocket a.listener afInet .stream a.sock a.linger) = true ∧
    a.initialize = some (w,true) ∧ s = a.server w
  step := httpStep response

end UServer.Http
