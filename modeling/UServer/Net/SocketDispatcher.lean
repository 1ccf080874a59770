import UServer.Net.PhysicalSocketServer

/-! The operations of PhysicalSocket and SocketDispatcher. Each takes what the kernel
answers to the system calls it makes; a call on no descriptor answers EBADF. -/
namespace UServer.Net
open Library

/-- The constructor; SO_TYPE is asked of the descriptor handed in. -/
def SocketDispatcher.new (s : Fd) (soType : Option SockType) : SocketDispatcher where
  s := s
  udp := if s = invalidSocket then false else decide (soType = some .dgram)
  family := 0
  error := 0
  state := if s = invalidSocket then .closed else .connected
  enabledEvents := deRead ||| deWrite
  savedEnabledEvents := none

/-- The value of a size_t narrowed to int. -/
def toInt32 (n : Int) : Int := BitVec.toInt (BitVec.ofInt 32 n)

/-- What the ::send and ::recv families return: a count, or minus one. -/
def returned : Except Errno Nat → Int
  | .ok n => n
  | .error _ => -1

namespace World

/-- MayBeUpdateDispatcher: the kernel hears of a new mask unless a batch is open. -/
def mayBeUpdateDispatcher (w : World) (p : Ptr) (oldEvents : EventMask) : World :=
  match w.socketAt p with
  | none => w
  | some d =>
    if getEpollEvents d.enabledEvents ≠ getEpollEvents oldEvents ∧ d.savedEnabledEvents = none then w.update p
    else w

/-- The common body of SetEnabledEvents, EnableEvents and DisableEvents. -/
def changeEvents (w : World) (p : Ptr) (f : EventMask → EventMask) : World :=
  match w.socketAt p with
  | none => w
  | some d =>
    (w.setSocket p { d with enabledEvents := f d.enabledEvents }).mayBeUpdateDispatcher p d.enabledEvents

def setEnabledEvents (w : World) (p : Ptr) (events : EventMask) : World :=
  (w.log (.armed p events)).changeEvents p fun _ => events

def enableEvents (w : World) (p : Ptr) (events : EventMask) : World :=
  (w.log (.armed p events)).changeEvents p (· ||| events)

def disableEvents (w : World) (p : Ptr) (events : EventMask) : World :=
  w.changeEvents p (· &&& ~~~events)

/-- Write the members that neither the registry nor epoll looks at. -/
def modifySocket (w : World) (p : Ptr) (f : SocketDispatcher → SocketDispatcher) : World :=
  match w.socketAt p with
  | none => w
  | some d => w.setSocket p (f d)

def setError (w : World) (p : Ptr) (e : Errno) : World := w.modifySocket p fun d => { d with error := e }
def setState (w : World) (p : Ptr) (state : ConnState) : World := w.modifySocket p fun d => { d with state := state }

/-- UpdateLastError: after a success this is whatever errno held before. -/
def updateLastError (w : World) (p : Ptr) : World := w.setError p w.errno

/-- The answer to a system call on the dispatcher's descriptor. -/
def answer {α : Type} (w : World) (p : Ptr) (res : Except Errno α) : Except Errno α :=
  match w.socketAt p with
  | none => .error ebadf
  | some d => if d.s = invalidSocket then .error ebadf else res

/-- A descriptor comes into use by ::socket, ::accept or the application. -/
def openFd (w : World) (fd : Fd) : World := (w.setKernel (w.kernel.openFd fd)).log (.opened fd)
def closeFd (w : World) (fd : Fd) : World := (w.setKernel (w.kernel.closeFd fd)).log (.closed fd)

/-- PhysicalSocket::Close. -/
def physicalClose (w : World) (p : Ptr) : World :=
  match w.socketAt p with
  | none => w
  | some d =>
    if d.s = invalidSocket then w
    else
      let w := (w.closeFd d.s).updateLastError p
      let w := w.modifySocket p fun d => { d with s := invalidSocket, state := .closed }
      w.setEnabledEvents p 0

/-- SocketDispatcher::Close, which resets the snapshot of an open batch. -/
def close (w : World) (p : Ptr) : World :=
  match w.socketAt p with
  | none => w
  | some d =>
    if d.s = invalidSocket then w
    else
      let w := w.modifySocket p fun d => { d with savedEnabledEvents := d.savedEnabledEvents.map fun _ => 0 }
      (w.remove p).physicalClose p

/-- SocketDispatcher::Initialize; linger is the error of setsockopt, if it fails. -/
def initializeSocket (w : World) (p : Ptr) (linger : Option Errno) : World × Bool :=
  match w.socketAt p with
  | none => (w, false)
  | some d =>
    if d.s = invalidSocket then (w, false)
    else match linger with
      | some e => (w.setErrno e, false)
      | none => (w.add p, true)

/-- ::socket and the members that PhysicalSocket::Create writes from its answer. -/
def attach (w : World) (p : Ptr) (family : Int) (type : SockType) (sock : Except Errno Fd) : World :=
  match sock with
  | .ok fd => (w.openFd fd).modifySocket p fun d =>
      { d with s := fd, udp := decide (type = .dgram), family := family, error := w.errno }
  | .error e => (w.setErrno e).modifySocket p fun d =>
      { d with s := invalidSocket, udp := decide (type = .dgram), family := family, error := e }

/-- PhysicalSocket::Create. Only a datagram socket gets its events set here. -/
def physicalCreate (w : World) (p : Ptr) (family : Int) (type : SockType) (sock : Except Errno Fd) : World × Bool :=
  let w := (w.close p).attach p family type sock
  let w := if type = .dgram then w.setEnabledEvents p (deRead ||| deWrite) else w
  (w, sock.isOk)

/-- SocketDispatcher::Create. -/
def create (w : World) (p : Ptr) (family : Int) (type : SockType) (sock : Except Errno Fd)
    (linger : Option Errno) : World × Bool :=
  let (w, ok) := w.physicalCreate p family type sock
  if ok then w.initializeSocket p linger else (w, false)

/-- The destructor, then the release of the storage. -/
def delete (w : World) (p : Ptr) : World := (w.close p).setDispatcher p none

/-- The constructor at an address; without a descriptor its getsockopt fails. -/
def construct (w : World) (p : Ptr) (s : Fd) (soType : Option SockType) : World :=
  (if s = invalidSocket then w.setErrno ebadf else w).setSocket p (.new s soType)

/-- PhysicalSocketServer::CreateSocket; the flag tells a pointer from nullptr. -/
def createSocket (w : World) (p : Ptr) (family : Int) (type : SockType) (sock : Except Errno Fd)
    (linger : Option Errno) : World × Bool :=
  let w := w.construct p invalidSocket none
  let (w, ok) := w.create p family type sock linger
  if ok then (w, true) else (w.delete p, false)

/-- PhysicalSocketServer::WrapSocket. -/
def wrapSocket (w : World) (p : Ptr) (s : Fd) (soType : Option SockType) (linger : Option Errno) : World × Bool :=
  let w := w.construct p s soType
  let (w, ok) := w.initializeSocket p linger
  if ok then (w, true) else (w.delete p, false)

/-- PhysicalSocket::DoConnect from ::connect on. -/
def finishConnect (w : World) (p : Ptr) (res : Except Errno Unit) : World × Int :=
  let w := (w.noteErrno res).updateLastError p
  match res with
  | .ok _ => ((w.setState p .connected).enableEvents p (deRead ||| deWrite), 0)
  | .error e =>
    if isBlockingError e then
      let w := (w.setState p .connecting).log (.connecting p)
      (w.enableEvents p (deRead ||| deWrite ||| deConnect), 0)
    else (w, -1)

def doConnect (w : World) (p : Ptr) (family : Int) (sock : Except Errno Fd) (linger : Option Errno)
    (res : Except Errno Unit) : World × Int :=
  match w.socketAt p with
  | none => (w, -1)
  | some d =>
    if d.s = invalidSocket then
      let (w, ok) := w.create p family .stream sock linger
      if ok then w.finishConnect p res else (w, -1)
    else w.finishConnect p res

/-- PhysicalSocket::Connect. -/
def connect (w : World) (p : Ptr) (family : Int) (sock : Except Errno Fd) (linger : Option Errno)
    (res : Except Errno Unit) : World × Int :=
  match w.socketAt p with
  | none => (w, -1)
  | some d =>
    if d.state ≠ .closed then (w.setError p ealready, -1) else w.doConnect p family sock linger res

/-- PhysicalSocket::Bind, which refuses an address that is neither any nor loopback. -/
def bind (w : World) (p : Ptr) (permitted : Bool) (res : Except Errno Unit) : World × Int :=
  if permitted then
    let res := w.answer p res
    ((w.noteErrno res).updateLastError p, if res.isOk then 0 else -1)
  else (w, -1)

/-- PhysicalSocket::Shutdown, and GetOption past its table. -/
def shutdown (w : World) (p : Ptr) (res : Except Errno Unit) : World × Int :=
  let res := w.answer p res
  (w.noteErrno res, if res.isOk then 0 else -1)

/-- PhysicalSocket::SetOption past its table; only a failure is stored. -/
def setOption (w : World) (p : Ptr) (res : Except Errno Unit) : World × Int :=
  let res := w.answer p res
  let w := w.noteErrno res
  if res.isOk then (w, 0) else (w.updateLastError p, -1)

/-- PhysicalSocket::Listen. -/
def listen (w : World) (p : Ptr) (res : Except Errno Unit) : World × Int :=
  let res := w.answer p res
  let w := (w.noteErrno res).updateLastError p
  match res with
  | .ok _ => ((w.setState p .connecting).enableEvents p deAccept, 0)
  | .error _ => (w, -1)

/-- PhysicalSocket::Accept; a new dispatcher wraps the accepted descriptor. -/
def accept (w : World) (p : Ptr) (res : Except Errno Fd) (p' : Ptr) (soType : Option SockType)
    (linger : Option Errno) : World × Bool :=
  let w := w.enableEvents p deAccept
  let res := w.answer p res
  let w := (w.noteErrno res).updateLastError p
  match res with
  | .ok s => (w.openFd s).wrapSocket p' s soType linger
  | .error _ => (w, false)

/-- The condition under which Send and SendTo arm DE_WRITE, as it is written. -/
def rearmsWrite (sent : Int) (cb : Nat) (error : Errno) : Bool :=
  (decide (0 < sent) && decide (sent < toInt32 cb)) && (decide (sent < 0) && isBlockingError error)

/-- PhysicalSocket::Send, and SendTo, which differs in the system call alone. -/
def send (w : World) (p : Ptr) (cb : Nat) (res : Except Errno Nat) : World × Int :=
  let res := w.answer p res
  let w := w.noteErrno res
  let error := w.errno
  let w := w.updateLastError p
  let w := if rearmsWrite (returned res) cb error then w.enableEvents p deWrite else w
  (w, returned res)

def sendTo (w : World) (p : Ptr) (cb : Nat) (res : Except Errno Nat) : World × Int := w.send p cb res

/-- RecvFrom, and Recv past its check for the end of the stream. -/
def recvFrom (w : World) (p : Ptr) (res : Except Errno Nat) : World × Int :=
  let res := w.answer p res
  let w := w.noteErrno res
  let error := w.errno
  let w := w.updateLastError p
  match w.socketAt p with
  | none => (w, -1)
  | some d =>
    let success := decide (0 ≤ returned res) || isBlockingError error
    (if d.udp || success then w.enableEvents p deRead else w, returned res)

/-- PhysicalSocket::Recv. The end of the stream is reported as would-block. -/
def recv (w : World) (p : Ptr) (length : Nat) (res : Except Errno Nat) : World × Int :=
  if returned (w.answer p res) = 0 ∧ length ≠ 0 then ((w.enableEvents p deRead).setError p ewouldblock, -1)
  else w.recvFrom p res

end World
end UServer.Net
