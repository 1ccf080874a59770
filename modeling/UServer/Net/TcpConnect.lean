import UServer.Net.DispatchKeys

/-! The loop thread over stream sockets next to the kernel's side of their connections:
what ::connect answers, when a connection completes or is refused, and what epoll and
SO_ERROR say about each stage. -/
namespace UServer.Net
open Library

/-- The kernel's side of a TCP socket; a refused one holds its error for SO_ERROR. -/
inductive TcpState where
  | idle
  | connecting
  | refused (e : Errno) (h : e ≠ 0)
  | connected
  deriving DecidableEq

namespace TcpState

/-- What ::connect with this answer does; none is an answer that the kernel does not give. -/
def connect : TcpState → Except Errno Unit → Option TcpState
  | .idle, .ok _ | .connected, .ok _ => some .connected
  | .idle, .error e => some (if e = einprogress then .connecting else .idle)
  | .connecting, .error e => if isBlockingError e then none else some .connecting
  | .refused _ _, .error e => if isBlockingError e then none else some .idle
  | .connected, .error e => if isBlockingError e then none else some .connected
  | .connecting, .ok _ | .refused _ _, .ok _ => none

theorem connect_ok {state after : TcpState} {u : Unit} (h : state.connect (.ok u) = some after) : after = .connected := by
  cases state <;> cases h <;> rfl

/-- A hard error leaves the connection as it is, or takes the error of a refused one. -/
theorem connect_error {state after : TcpState} {e : Errno} (hb : isBlockingError e = false)
    (h : state.connect (.error e) = some after) : after = state ∨ (∃ e h, state = .refused e h) ∧ after = .idle := by
  have he : e ≠ einprogress := by
    rintro rfl
    cases hb
  cases state with
  | refused e h' => simp_all [connect]
  | _ => simp_all [connect]

/-- A socket that is connecting is not writable, and a refused one reports an error. -/
def reports : TcpState → EpollMask → Bool
  | .connecting, events => !has events epollOut
  | .refused _ _, events => has events (epollRdHup ||| epollErr ||| epollHup)
  | _, _ => true

/-- Reading SO_ERROR gives a refused connection's error once. -/
def takeError : TcpState → Except Errno Errno → Option TcpState
  | .refused e _, so => if so = .ok e then some .idle else none
  | .connected, _ => some .connected
  | state, so => if so = .ok 0 then some state else none

end TcpState

/-- The answer of ::connect, if the call comes to it on this dispatcher. -/
def Op.outcome (w : World) (p : Ptr) : Op → Option (Except Errno Unit)
  | .connect q _ sock linger res =>
    if q = p && (w.socketAt q).any fun d => d.reachesConnect sock linger then some res else none
  | _ => none

/-- CreateSocket, Connect, Close and delete on stream sockets, as the kernel sees them. -/
def Op.onTcp (w : World) (tcp : Fd → TcpState) : Op → Option (Fd → TcpState)
  | .createSocket _ _ type sock _ =>
    if type = .stream then
      match sock with
      | .ok fd => some (Function.update tcp fd .idle)
      | .error _ => some tcp
    else none
  | .connect p _ sock linger res =>
    match w.socketAt p with
    | none => none
    | some d =>
      if d.state ≠ .closed then some tcp
      else if d.s ≠ invalidSocket then ((tcp d.s).connect res).map (Function.update tcp d.s)
      else match sock with
        | .error _ => some tcp
        | .ok fd =>
          if linger.isSome then some (Function.update tcp fd .idle)
          else (TcpState.idle.connect res).map (Function.update tcp fd)
  | .close _ | .destroy _ => some tcp
  | _ => none

/-- The dispatcher that epoll watches a descriptor for. -/
def World.watcher (w : World) (fd : Fd) : Option SocketDispatcher :=
  (w.kernel.interest fd).bind fun e => (w.server.dispatcherByKey e.key).bind w.socketAt

structure NetState where
  loop : LoopState
  tcp : Fd → TcpState

/-- A step of the loop, or the kernel that ends a connection attempt. -/
inductive NetAction where
  | loop (a : Action)
  | complete (fd : Fd)
  | refuse (fd : Fd) (e : Errno)

/-- SO_ERROR is asked for the dispatcher of an event with an error bit. -/
def errorAsked (w : World) (ev : PendingEvent) : Option SocketDispatcher :=
  if has ev.events (epollRdHup ||| epollErr ||| epollHup) then
    (w.server.dispatcherByKey ev.key).bind w.socketAt
  else none

/-- What a step of the loop means to the kernel. -/
def Action.onTcp (s : LoopState) (tcp : Fd → TcpState) : Action → Option (Fd → TcpState)
  | .op o => o.onTcp s.world tcp
  | .report evs => if evs.all fun ev => (tcp ev.1).reports ev.2 then some tcp else none
  | .next so _ =>
    match s.control with
    | .batch (ev :: _) =>
      match errorAsked s.world ev with
      | none => some tcp
      | some d => ((tcp d.s).takeError so).map (Function.update tcp d.s)
    | _ => some tcp
  | .advance => some tcp

def netStep (s : NetState) : NetAction → Option NetState
  | .loop a => (a.onTcp s.loop s.tcp).bind fun tcp => (loopStep s.loop a).map fun loop => ⟨loop,tcp⟩
  | .complete fd =>
    if s.tcp fd = .connecting then some { s with tcp := Function.update s.tcp fd .connected } else none
  | .refuse fd e =>
    if s.tcp fd = .connecting then
      if h : e ≠ 0 then some { s with tcp := Function.update s.tcp fd (.refused e h) } else none
    else none

/-- The loop thread of a fresh socket server, and a kernel without connections. -/
def netMachine : Machine NetState NetAction where
  init s := loopMachine.init s.loop ∧ s.tcp = fun _ => .idle
  step := netStep

end UServer.Net
