import Mathlib.Tactic

/-! The members of a Thread that its life cycle uses, and Start, Join, Quit, Stop and Restart on them. -/
namespace UServer.Concurrency

/-- pthread_t, an unsigned long here. Zero names no thread. -/
abbrev Handle := UInt64

/-- TaskQueueBase::CurrentTaskQueueSetter. -/
structure CurrentTaskQueueSetter (τ : Type*) where
  previous : Option τ
  deriving DecidableEq

/-- The members of Thread that its life cycle reads and writes. -/
structure ThreadObject (τ : Type*) where
  thread : Handle
  stop : Bool
  registration : Option (CurrentTaskQueueSetter τ)
  deriving DecidableEq

/-- What pthread_create does: it stores a new handle, or fails and leaves some value. -/
inductive CreateOutcome where
  | created (h : Handle)
  | failed (left : Handle)
  deriving DecidableEq

namespace Thread
variable {τ : Type*} (x : ThreadObject τ)

/-- The constructors set every member but thread_. -/
def construct (thread : Handle) : ThreadObject τ := ⟨thread,false,none⟩

def isRunning : Bool := x.thread ≠ 0

/-- Start, given what pthread_create would do. -/
def start (c : CreateOutcome) : ThreadObject τ × Bool :=
  if isRunning x then (x,false)
  else match c with
    | .created h => ({ x with thread := h },true)
    | .failed left => ({ x with thread := left },false)

def join : ThreadObject τ := if isRunning x then { x with thread := 0 } else x

def quit : ThreadObject τ := { x with stop := true }

def stop : ThreadObject τ := join (quit x)

def restart : ThreadObject τ := { x with stop := false }

end Thread

end UServer.Concurrency
