import UServer.Concurrency.Signaler
import UServer.Concurrency.Timespec
import UServer.Library.Runs

/-! A Thread with its loop thread inside ProcessMessages, any number of threads that post tasks,
and threads that call Quit and Stop. A step goes from one access to shared data to the next. -/
namespace UServer.Concurrency
open Library

/-- Conversion of an int64_t to an int. -/
def toInt (n : ℤ) : ℤ := (Int32.ofInt n).toInt

/-- The locals of ProcessMessages. -/
structure ProcessFrame where
  cms : ℤ
  msEnd : ℤ
  deriving DecidableEq

/-- The locals of Get, and the heap its timeout was computed from. -/
structure GetFrame where
  process : ProcessFrame
  cmsWait : ℤ
  msStart : ℤ
  msCurrent : ℤ
  cmsElapsed : ℤ
  seen : List DelayedMessage
  deriving DecidableEq

/-- The locals of WaitEpoll. -/
structure EpollFrame where
  get : GetFrame
  cmsWait : ℤ
  msWait : ℤ
  msStop : ℤ
  deriving DecidableEq

/-- Where the loop thread is; outside keeps what ProcessMessages returned last. -/
inductive LoopPc
  | outside (result : Option Bool)
  | call (p : ProcessFrame) (cmsNext : ℤ)
  | take (f : GetFrame)
  | check (f : GetFrame) (cmsDelayNext : ℤ)
  | wait (f : GetFrame) (maxWaitDuration : ℤ)
  | test (w : EpollFrame)
  | epoll (w : EpollFrame)
  | dispatch (w : EpollFrame) (signaler : Bool)
  | elapse (w : EpollFrame)
  | park (f : GetFrame) (giveUpAfter : ℤ)
  | parked (f : GetFrame) (giveUpAfter : ℤ)
  | waited (f : GetFrame) (result : Bool)
  | got (p : ProcessFrame) (task : Option Task)
  | run (p : ProcessFrame) (task : Task)
  | exited
  deriving DecidableEq

/-- What epoll_wait returns: -1 with or without EINTR, 0, or events, of the signaler or of others only. -/
inductive EpollAnswer
  | failed (interrupted : Bool)
  | timedOut
  | ready (signaler : Bool)
  deriving DecidableEq

/-- A call of PostTask or of PostDelayedTask. -/
inductive Request
  | task (callable : Bool)
  | delayed (callable : Bool) (delayMs : Int32)
  deriving DecidableEq

/-- Where a posting thread is; push carries delay_ms and run_time_ms. -/
inductive PosterPc
  | idle
  | started (r : Request)
  | timing (callable : Bool) (delayMs : ℤ)
  | push (callable : Bool) (delay : Option (ℤ × ℤ))
  | wakeUp
  | signaling
  | wrote
  deriving DecidableEq

def Request.admitted : Request → PosterPc
  | .task callable => .push callable none
  | .delayed callable delayMs => .timing callable delayMs.toInt

/-- cms_next of Get, without the conversion of kForever to SocketServer::kForever, which is the same. -/
def GetFrame.cmsNext (f : GetFrame) (cmsDelayNext : ℤ) : ℤ :=
  if f.cmsWait = kForever then cmsDelayNext
  else
    let cmsNext := max 0 (f.cmsWait - f.cmsElapsed)
    if cmsDelayNext ≠ kForever ∧ cmsDelayNext < cmsNext then cmsDelayNext else cmsNext

/-- Wait up to the loop of WaitEpoll. -/
def GetFrame.waitEpoll (f : GetFrame) (maxWaitDuration now : ℤ) : EpollFrame :=
  let cmsWait := toInt (if maxWaitDuration = kForever then -1 else maxWaitDuration)
  if cmsWait ≠ -1 then ⟨f,cmsWait,cmsWait,now + cmsWait⟩ else ⟨f,cmsWait,-1,-1⟩

@[simp] theorem GetFrame.waitEpoll_get (f : GetFrame) (maxWaitDuration now : ℤ) :
    (f.waitEpoll maxWaitDuration now).get = f := by
  simp only [GetFrame.waitEpoll, ne_eq, ite_not]
  split <;> split <;> rfl

/-- The end of the loop body of WaitEpoll, which measures in microseconds. -/
def EpollFrame.elapse (w : EpollFrame) (micros : ℤ) : LoopPc :=
  if w.cmsWait ≠ -1 then
    if timeDiff w.msStop micros ≤ 0 then .waited w.get true
    else .test { w with msWait := timeDiff w.msStop micros }
  else .test w

/-- What Get does once Wait returns. -/
def GetFrame.waited (f : GetFrame) (now : ℤ) (result : Bool) : LoopPc :=
  if result = false then .got f.process none
  else if f.cmsWait ≠ kForever ∧ f.cmsWait ≤ timeDiff now f.msStart then .got f.process none
  else .take { f with msCurrent := now, cmsElapsed := timeDiff now f.msStart }

/-- What ProcessMessages does with the result of Get. -/
def ProcessFrame.got (p : ProcessFrame) (stop : Bool) : Option Task → LoopPc
  | none => .outside (some !stop)
  | some t => if t.callable then .run p t else .outside (some !stop)

/-- What ProcessMessages does once Dispatch returns. -/
def ProcessFrame.next (p : ProcessFrame) (now : ℤ) : LoopPc :=
  if p.cms ≠ kForever then if toInt (p.msEnd - now) < 0 then .outside (some true) else .call p (toInt (p.msEnd - now))
  else .call p p.cms

/-- The Thread and its socket server, the monotonic clock, where every thread is, and what happened:
the tasks pushed, the tasks Get returned, and how many posts were refused. -/
structure State (ι : Type*) where
  queue : TaskQueue
  stop : Bool
  ss : SocketServer ι
  nanos : ℕ
  loop : LoopPc
  posters : ι → PosterPc
  joining : Bool
  accepted : List Task
  returned : List Task
  refused : ℕ

inductive Action (ι : Type*)
  | tick (nanos : ℕ)
  | post (i : ι) (r : Request)
  | poster (i : ι)
  | processMessages (cms : Int32)
  | loop
  | epollWait (answer : EpollAnswer)
  | eventWait (timedOut : Bool)
  | exit
  | quit
  | stop
  | join
  deriving DecidableEq

namespace State
variable {ι : Type*}

def start (ss : SocketServer ι) (nanos : ℕ) : State ι :=
  { queue := .empty, stop := false, ss := ss, nanos := nanos, loop := .outside none, posters := fun _ => .idle,
    joining := false, accepted := [], returned := [], refused := 0 }

def timeMillis (s : State ι) : ℤ := s.nanos / 1000000

def timeMicros (s : State ι) : ℤ := s.nanos / 1000

def timeAfter (s : State ι) (elapsed : ℤ) : ℤ := s.timeMillis + elapsed

def goto (s : State ι) (pc : LoopPc) : State ι := { s with loop := pc }

/-- The part of Get under mutex_. -/
def take (s : State ι) (f : GetFrame) : State ι :=
  match s.queue.processDelayedMessage f.msCurrent with
  | (cmsDelayNext,q) =>
    match q.messages with
    | t :: rest =>
      { s with queue := { q with messages := rest }, returned := s.returned ++ [t], loop := .got f.process (some t) }
    | [] => { s with queue := q, loop := .check { f with seen := q.delayed.items } cmsDelayNext }

/-- A step of the loop thread that needs no answer from outside. -/
def loopStep (s : State ι) : Option (State ι) :=
  match s.loop with
  | .call p cmsNext => some (s.goto (.take ⟨p,cmsNext,s.timeMillis,s.timeMillis,0,[]⟩))
  | .take f => some (s.take f)
  | .check f cmsDelayNext =>
    some (s.goto (if s.stop then .got f.process none else .wait f (f.cmsNext cmsDelayNext)))
  | .wait f d =>
    match s.ss with
    | .physical g _ => some { s with ss := .physical g true, loop := .test (f.waitEpoll d s.timeMillis) }
    | .null _ => some (s.goto (.park f d))
  | .test w => some (s.goto (if s.ss.flagWait then .epoll w else .waited w.get true))
  | .dispatch w false => some (s.goto (.elapse w))
  | .dispatch w true =>
    match s.ss with
    | .physical g _ => g.onEvent.map fun g => { s with ss := .physical g false, loop := .elapse w }
    | .null _ => none
  | .elapse w => some (s.goto (w.elapse s.timeMicros))
  | .park f d =>
    match s.ss with
    | .physical _ _ => none
    | .null true => some { s with ss := .null false, loop := .waited f true }
    -- Event::Wait returns at once, ignored by NullSocketServer::Wait, if pthread_cond_timedwait rejects its deadline
    | .null false => some (s.goto (if (Timespec.ofMillis d).Valid then .parked f d else .waited f true))
  | .waited f result => some (s.goto (f.waited s.timeMillis result))
  | .got p task => some (s.goto (p.got s.stop task))
  | .run p _ => some (s.goto (p.next s.timeMillis))
  | .outside _ | .epoll _ | .parked _ _ | .exited => none

def epollWait (s : State ι) (answer : EpollAnswer) : Option (State ι) :=
  match s.loop with
  | .epoll w =>
    match answer with
    | .failed true => some (s.goto (.elapse w))
    | .failed false => some (s.goto (.waited w.get false))
    | .timedOut => if 0 ≤ toInt w.msWait then some (s.goto (.waited w.get true)) else none
    | .ready signaler => some (s.goto (.dispatch w signaler))
  | _ => none

/-- The return of pthread_cond_timedwait; NullSocketServer::Wait ignores what Event::Wait returns. -/
def eventWait (s : State ι) (timedOut : Bool) : Option (State ι) :=
  match s.loop with
  | .parked f d => some (s.goto (if timedOut then .waited f true else .park f d))
  | _ => none

variable [DecidableEq ι]

def setPoster (s : State ι) (i : ι) (pc : PosterPc) : State ι := { s with posters := Function.update s.posters i pc }

/-- The push under mutex_ of PostTaskImpl or PostDelayedTaskImpl. -/
def push (s : State ι) (callable : Bool) (delay : Option (ℤ × ℤ)) : State ι :=
  let t : Task := ⟨callable,s.accepted.length,delay.map Prod.snd⟩
  { s with
    queue := match delay with
      | none => s.queue.post t
      | some (delayMs,runTimeMs) => s.queue.postDelayed delayMs runTimeMs t
    accepted := s.accepted ++ [t] }

/-- A step of a thread inside PostTaskImpl, PostDelayedTaskImpl or the WakeUp they end with. -/
def posterStep (s : State ι) (i : ι) : Option (State ι) :=
  match s.posters i with
  | .idle => none
  | .started r => some (if s.stop then { s.setPoster i .idle with refused := s.refused + 1 } else s.setPoster i r.admitted)
  | .timing callable delayMs => some (s.setPoster i (.push callable (some (delayMs,s.timeAfter delayMs))))
  | .push callable delay => some ((s.push callable delay).setPoster i .wakeUp)
  | .wakeUp =>
    match s.ss with
    | .null _ => some { s.setPoster i .idle with ss := .null true }
    | .physical g flag =>
      if g.holder = none then
        if g.fSignaled then some (s.setPoster i .idle)
        else some { s.setPoster i .signaling with ss := .physical { g with holder := some i } flag }
      else none
  | .signaling =>
    match s.ss with
    | .null _ => none
    | .physical g flag => g.write.map fun g => { s.setPoster i .wrote with ss := .physical g flag }
  | .wrote =>
    match s.ss with
    | .null _ => none
    | .physical g flag => some { s.setPoster i .idle with ss := .physical g.unlock flag }

def step (s : State ι) : Action ι → Option (State ι)
  | .tick nanos => some { s with nanos := s.nanos + nanos }
  | .post i r => if s.posters i = .idle then some (s.setPoster i (.started r)) else none
  | .poster i => s.posterStep i
  | .processMessages cms =>
    match s.loop with
    | .outside _ =>
      let msEnd := if cms.toInt = kForever then 0 else s.timeAfter cms.toInt
      some (s.goto (.call ⟨cms.toInt,msEnd⟩ cms.toInt))
    | _ => none
  | .loop => s.loopStep
  | .epollWait answer => s.epollWait answer
  | .eventWait timedOut => s.eventWait timedOut
  | .exit =>
    match s.loop with
    | .outside _ => some (s.goto .exited)
    | _ => none
  | .quit => some { s with stop := true }
  | .stop => some { s with stop := true, joining := true }
  | .join => if s.joining ∧ s.loop = .exited then some { s with joining := false } else none

end State

/-- A Thread right after construction, over a fresh socket server of either kind. -/
def threadMachine (ι : Type*) [DecidableEq ι] : Machine (State ι) (Action ι) where
  init s := ∃ nanos, s = .start (.physical .fresh false) nanos ∨ s = .start (.null false) nanos
  step := State.step

theorem init_start {ι : Type*} [DecidableEq ι] (nanos : ℕ) :
    (threadMachine ι).init (.start (.physical .fresh false) nanos) := ⟨nanos,.inl rfl⟩

end UServer.Concurrency
