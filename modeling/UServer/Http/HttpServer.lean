import UServer.Net.OperationWrites

/-! HTTPServer on one client connection: OnRead drains the socket and starts the answer,
OnWrite hands it to Send, and SignalWriteEvent calls OnWrite as long as it is connected. -/
namespace UServer.Http
open Library Net

/-- response_buffer up to response_length. -/
structure Response where
  bytes : List UInt8
  fits : bytes.length ≤ 4096

/-- What ::send finds: room for some bytes, none being would-block, or an error. -/
inductive SendOutcome where
  | room (n : Nat)
  | error (e : Errno)
  deriving DecidableEq

/-- The answer to ::send of cb bytes. -/
def SendOutcome.answer (cb : Nat) : SendOutcome → Except Errno Nat
  | .room n => if cb = 0 then .ok 0 else if n = 0 then .error eagain else .ok (min n cb)
  | .error e => .error e

/-- A connection under way: the connections of SignalWriteEvent to OnWrite, the bytes that
the kernel has taken, and whether the loop thread waits for a mutex that it holds itself. -/
structure Exchange where
  world : World
  writeSlots : Nat
  handed : List UInt8
  hung : Bool

namespace Exchange

/-- Is DE_WRITE enabled on the socket? -/
def writeEnabled (x : Exchange) (p : Ptr) : Bool := (x.world.socketAt p).any fun d => has d.enabledEvents deWrite

/-- signal::disconnect locks the signal's mutex, which emit holds while it calls the slots. -/
def disconnectWrite (x : Exchange) (emitting : Bool) : Exchange :=
  if emitting then { x with hung := true } else { x with writeSlots := x.writeSlots - 1 }

/-- The loop of OnWrite, with what the kernel answers in turn; past the list it has no room. -/
def writeLoop (response : Response) (p : Ptr) : List SendOutcome → Nat → Exchange → Exchange × Nat × List SendOutcome
  | [], readIdx, x =>
    let cb := response.bytes.length - readIdx
    ({ x with world := (x.world.send p cb ((SendOutcome.room 0).answer cb)).1 }, readIdx, [])
  | o :: sends, readIdx, x =>
    let cb := response.bytes.length - readIdx
    let (w, res) := x.world.send p cb (o.answer cb)
    if 0 < res then
      let n := res.toNat
      writeLoop response p sends (readIdx + n)
        { x with world := w, handed := x.handed ++ (response.bytes.drop readIdx).take n }
    else ({ x with world := w }, readIdx, sends)

/-- HTTPServer::OnWrite, with what is left of the kernel's answers. -/
def onWrite (response : Response) (p : Ptr) (emitting : Bool) (sends : List SendOutcome) (x : Exchange) :
    Exchange × List SendOutcome :=
  let (x, readIdx, sends) := writeLoop response p sends 0 x
  (if 0 < readIdx then x.disconnectWrite emitting else x, sends)

/-- The slots of SignalWriteEvent in turn, under its mutex. -/
def emitWrite (response : Response) (p : Ptr) : Nat → List SendOutcome → Exchange → Exchange
  | 0, _, x => x
  | slots + 1, sends, x =>
    let (x, sends) := x.onWrite response p true sends
    if x.hung then x else emitWrite response p slots sends x

/-- OnEvent with DE_WRITE: the event is disarmed and SignalWriteEvent emitted. -/
def deliver (response : Response) (p : Ptr) (x : Exchange) (sends : List SendOutcome) : Exchange :=
  if x.hung then x
  else emitWrite response p x.writeSlots sends { x with world := x.world.onEventStage p deWrite deWrite }

/-- sizeof(buffer) in OnRead. -/
def readBufferSize : Nat := 4096

/-- The loop of OnRead; past the list of answers nothing is left to read. -/
def readLoop (p : Ptr) : List (Except Errno Nat) → World → Int → World × Int
  | [], w, received => ((w.recv p readBufferSize (.error eagain)).1, received)
  | r :: recvs, w, received =>
    let (w, ret) := w.recv p readBufferSize r
    if 0 < ret then readLoop p recvs w (received + ret) else (w, received)

/-- HTTPServer::OnRead. -/
def onRead (response : Response) (p : Ptr) (recvs : List (Except Errno Nat)) (sends : List SendOutcome)
    (x : Exchange) : Exchange :=
  let (w, received) := readLoop p recvs x.world 0
  let x := { x with world := w }
  if 0 < received then ({ x with writeSlots := x.writeSlots + 1 }.onWrite response p false sends).1 else x

end Exchange

/-- An open client socket. Requests before this one that found no room have left OnWrite connected. -/
structure Connection where
  world : World
  p : Ptr
  writeSlots : Nat
  socket : SocketDispatcher
  lives : world.socketAt p = some socket
  isOpen : socket.s ≠ invalidSocket

/-- One request: OnRead, then deliveries of SignalWriteEvent. -/
def request (response : Response) (c : Connection) (recvs : List (Except Errno Nat)) (sends : List SendOutcome)
    (deliveries : List (List SendOutcome)) : Exchange :=
  deliveries.foldl (Exchange.deliver response c.p) (Exchange.onRead response c.p recvs sends ⟨c.world,c.writeSlots,[],false⟩)

end UServer.Http
