import UServer.Library.RecursiveLock
import UServer.Library.Runs
import UServer.Net.PhysicalSocketServer

/-! The socket server among threads: Add, Remove and Update from any of them, statement by statement, while the loop
thread waits without the recursive mutex and dispatches a batch with it, calling back into the three. -/
namespace UServer.Net
open Library

theorem emplace_eq_some {α β : Type} [DecidableEq α] {m : α → Option β} {a b : α} {x y : β}
    (h : emplace m a x b = some y) : m b = some y ∨ b = a ∧ y = x := by
  unfold emplace at h
  split at h
  · exact .inl h
  · by_cases hb : b = a
    · subst hb
      rw [Function.update_self] at h
      exact .inr ⟨rfl,(Option.some.inj h).symm⟩
    · exact .inl (by rwa [Function.update_of_ne hb] at h)

namespace PhysicalSocketServer

/-- The key is taken and the dispatcher put into dispatcher_by_key_. -/
def addKey (s : PhysicalSocketServer) (p : Ptr) : PhysicalSocketServer :=
  { s with
    nextDispatcherKey := s.nextDispatcherKey + 1
    dispatcherByKey := emplace s.dispatcherByKey s.nextDispatcherKey p }

/-- The key is put into key_by_dispatcher_. -/
def addDispatcher (s : PhysicalSocketServer) (p : Ptr) (key : Key) : PhysicalSocketServer :=
  { s with keyByDispatcher := emplace s.keyByDispatcher p key }

def removeDispatcher (s : PhysicalSocketServer) (p : Ptr) : PhysicalSocketServer :=
  { s with keyByDispatcher := Function.update s.keyByDispatcher p none }

def removeKey (s : PhysicalSocketServer) (key : Key) : PhysicalSocketServer :=
  { s with dispatcherByKey := Function.update s.dispatcherByKey key none }

theorem dispatcherByKey_removeKey {s : PhysicalSocketServer} {key k : Key} {p : Ptr}
    (h : (s.removeKey key).dispatcherByKey k = some p) : k ≠ key ∧ s.dispatcherByKey k = some p := by
  unfold removeKey at h
  by_cases hk : k = key
  · subst hk
    simp at h
  · exact ⟨hk,by simpa [hk] using h⟩

end PhysicalSocketServer

/-- The two statements of Add are its registration. -/
theorem World.register_server (w : World) (p : Ptr) :
    (w.register p).server = (w.server.addKey p).addDispatcher p w.server.nextDispatcherKey := rfl

/-- The two statements of Remove are its deregistration. -/
theorem World.unregister_server (w : World) (p : Ptr) (key : Key) :
    (w.unregister p key).server = (w.server.removeDispatcher p).removeKey key := rfl

inductive ServerCall
  | add (p : Ptr)
  | remove (p : Ptr)
  | update (p : Ptr)
  deriving DecidableEq

/-- Where a call stands: before the mutex, before the test of key_by_dispatcher_, between the two statements that
change the maps, and before the end of the guard. -/
inductive CallPc
  | entered
  | testing
  | between (key : Key)
  | leaving
  deriving DecidableEq

/-- Where the loop thread stands in WaitEpoll: outside, with a report and without the mutex, and in its batch, between
two events or in one of a dispatcher. -/
inductive Round
  | idle
  | reported (keys : List Key)
  | batch (keys : List Key)
  | handling (keys : List Key) (p : Ptr)
  deriving DecidableEq

def CallPc.held : CallPc → ℕ
  | .entered => 0
  | _ => 1

def Round.held : Round → ℕ
  | .batch _ | .handling _ _ => 1
  | _ => 0

/-- The loop thread calls from outside and from handlers. -/
def Round.canCall : Round → Bool
  | .idle | .handling _ _ => true
  | _ => false

structure SharedServer (ι : Type*) where
  server : PhysicalSocketServer
  mutex : RecursiveLock ι
  calls : ι → Option (ServerCall × CallPc)
  round : Round

inductive ServerAction (ι : Type*)
  | call (i : ι) (c : ServerCall)
  | go (i : ι)
  | report (keys : List Key)
  | lock
  | next
  | handled
  deriving DecidableEq

namespace SharedServer
variable {ι : Type*} [DecidableEq ι] (loop : ι)

def start : SharedServer ι := ⟨⟨0,fun _ => none,fun _ => none⟩,none,fun _ => none,.idle⟩

def goto (s : SharedServer ι) (i : ι) (c : Option (ServerCall × CallPc)) : SharedServer ι :=
  { s with calls := Function.update s.calls i c }

/-- The statement behind the lock. -/
def test (s : SharedServer ι) (i : ι) : ServerCall → SharedServer ι
  | .add p =>
    if (s.server.keyByDispatcher p).isSome then s.goto i (some (.add p,.leaving))
    else { s.goto i (some (.add p,.between s.server.nextDispatcherKey)) with server := s.server.addKey p }
  | .remove p =>
    match s.server.keyByDispatcher p with
    | none => s.goto i (some (.remove p,.leaving))
    | some key => { s.goto i (some (.remove p,.between key)) with server := s.server.removeDispatcher p }
  | .update p => s.goto i (some (.update p,.leaving))

/-- The second change of the maps. -/
def finish (s : SharedServer ι) (i : ι) (key : Key) : ServerCall → SharedServer ι
  | .add p => { s.goto i (some (.add p,.leaving)) with server := s.server.addDispatcher p key }
  | .remove p => { s.goto i (some (.remove p,.leaving)) with server := s.server.removeKey key }
  | .update p => s.goto i (some (.update p,.leaving))

def stepCall (s : SharedServer ι) (i : ι) : Option (SharedServer ι) :=
  match s.calls i with
  | none => none
  | some (c,.entered) => (s.mutex.lock i).map fun m => { s.goto i (some (c,.testing)) with mutex := m }
  | some (c,.testing) => some (s.test i c)
  | some (c,.between key) => some (s.finish i key c)
  | some (_,.leaving) => some { s.goto i none with mutex := s.mutex.unlock i }

/-- The loop over epoll_events_, under the mutex: an event whose key is gone is passed over. -/
def stepBatch (s : SharedServer ι) : Option (SharedServer ι) :=
  match s.round with
  | .batch [] => some { s with mutex := s.mutex.unlock loop, round := .idle }
  | .batch (key :: keys) =>
    match s.server.dispatcherByKey key with
    | none => some { s with round := .batch keys }
    | some p => some { s with round := .handling keys p }
  | _ => none

def step (s : SharedServer ι) : ServerAction ι → Option (SharedServer ι)
  | .call i c =>
    if s.calls i = none ∧ (i = loop → s.round.canCall = true) then some (s.goto i (some (c,.entered))) else none
  | .go i => s.stepCall i
  | .report keys => if s.round = .idle ∧ s.calls loop = none then some { s with round := .reported keys } else none
  | .lock =>
    match s.round with
    | .reported keys => (s.mutex.lock loop).map fun m => { s with mutex := m, round := .batch keys }
    | _ => none
  | .next => s.stepBatch loop
  | .handled =>
    match s.round with
    | .handling keys _ => if s.calls loop = none then some { s with round := .batch keys } else none
    | _ => none

/-- How often a thread has the mutex locked where it stands. -/
def held (s : SharedServer ι) (i : ι) : ℕ :=
  (s.calls i).elim 0 (fun c => c.2.held) + if i = loop then s.round.held else 0

end SharedServer

/-- Any number of threads, one of them the loop thread. -/
def sharedMachine {ι : Type*} [DecidableEq ι] (loop : ι) : Machine (SharedServer ι) (ServerAction ι) where
  init s := s = .start
  step := SharedServer.step loop

end UServer.Net
