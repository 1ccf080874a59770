import Mathlib.Tactic

/-! The self-pipe that wakes a PhysicalSocketServer, and the event of a NullSocketServer.
Signal takes the Signaler's mutex, writes and sets f_signaled_ in three steps. -/
namespace UServer.Concurrency

/-- How many bytes a pipe takes before a write to it blocks. -/
def pipeCapacity : ℕ := 65536

/-- f_signaled_, the bytes in the pipe, and the thread inside Signal, which holds mutex_. -/
structure Signaler (ι : Type*) where
  fSignaled : Bool
  pipe : ℕ
  holder : Option ι

namespace Signaler
variable {ι : Type*}

def fresh : Signaler ι := ⟨false,0,none⟩

/-- The write of one byte, which waits for room in the pipe. -/
def write (g : Signaler ι) : Option (Signaler ι) :=
  if g.pipe < pipeCapacity then some { g with pipe := g.pipe + 1 } else none

def unlock (g : Signaler ι) : Signaler ι := { g with fSignaled := true, holder := none }

/-- OnEvent, which waits for mutex_ and reads up to four bytes if f_signaled_. -/
def onEvent (g : Signaler ι) : Option (Signaler ι) :=
  match g.holder with
  | some _ => none
  | none =>
    if g.fSignaled then if g.pipe = 0 then none else some { g with pipe := g.pipe - 4, fSignaled := false }
    else some g

end Signaler

/-- What a Thread waits on: a Signaler and flag_wait_, or the auto-reset event of a NullSocketServer. -/
inductive SocketServer (ι : Type*)
  | physical (signaler : Signaler ι) (flagWait : Bool)
  | null (event : Bool)

namespace SocketServer
variable {ι : Type*}

/-- flag_wait_, which only a PhysicalSocketServer has. -/
def flagWait : SocketServer ι → Bool
  | .physical _ flag => flag
  | .null _ => false

/-- A WakeUp has been stored that no Wait has used. -/
def WakeUpPending : SocketServer ι → Prop
  | .physical g _ => 0 < g.pipe
  | .null event => event = true

instance (ss : SocketServer ι) : Decidable ss.WakeUpPending :=
  match ss with
  | .physical g _ => inferInstanceAs (Decidable (0 < g.pipe))
  | .null event => inferInstanceAs (Decidable (event = true))

end SocketServer
end UServer.Concurrency
