import UServer.Library.Runs
import UServer.Sigslot.Signal

/-! Signals and has_slots objects in one thread: what their operations do to both ends of a connection, to the
emissions underway and to objects that are no longer there, and which of them a locking policy lets run. -/
namespace UServer.Sigslot
open Library

/-- The signals and the has_slots objects with their m_senders, by address, none where there is no object; the
emissions underway, innermost first; the calls made so far; and whether a pointer to a destroyed object was used or
will be, by an emission that comes back to its signal. -/
structure World where
  signals : ℕ → Option Signal
  senders : ℕ → Option (List ℕ)
  firing : List ℕ
  calls : List (ℕ × Connection)
  fault : Bool

inductive Action
  | newSignal (g : ℕ)
  | copySignal (g o : ℕ)
  | destroySignal (g : ℕ)
  | newSlots (h : ℕ)
  | copySlots (h o : ℕ)
  | destroySlots (h : ℕ)
  | connect (g h method : ℕ)
  | disconnect (g h : ℕ)
  | signalDisconnectAll (g : ℕ)
  | slotsDisconnectAll (h : ℕ)
  | emit (g : ℕ)
  | next
  deriving DecidableEq

/-- The ends of a connection. -/
inductive Object
  | signal (g : ℕ)
  | slots (h : ℕ)
  deriving DecidableEq

/-- The object whose lock_block an action takes for as long as it lasts. -/
def Action.locked : Action → List Object
  | .copySignal g _ | .destroySignal g | .connect g _ _ | .disconnect g _ | .signalDisconnectAll g | .emit g => [.signal g]
  | .copySlots h _ | .destroySlots h | .slotsDisconnectAll h => [.slots h]
  | .newSignal _ | .newSlots _ | .next => []

namespace World

def start : World := ⟨fun _ => none,fun _ => none,[],[],false⟩

def setSignal (w : World) (g : ℕ) (s : Option Signal) : World := { w with signals := Function.update w.signals g s }

def setSenders (w : World) (h : ℕ) (l : Option (List ℕ)) : World :=
  { w with senders := Function.update w.senders h l }

/-- do_signal_connect: the insert into the set, which is kept in order of address. -/
def signalConnect (w : World) (h g : ℕ) : World :=
  match w.senders h with
  | none => { w with fault := true }
  | some l => w.setSenders h (some (if g ∈ l then l else l.orderedInsert (· ≤ ·) g))

/-- do_signal_disconnect: the erase from the set. -/
def signalDisconnect (w : World) (h g : ℕ) : World :=
  match w.senders h with
  | none => { w with fault := true }
  | some l => w.setSenders h (some (l.filter fun x => decide (x ≠ g)))

def slotDisconnect (w : World) (g h : ℕ) : World :=
  match w.signals g with
  | none => { w with fault := true }
  | some s => w.setSignal g (some (s.slotDisconnect h))

def slotDuplicate (w : World) (g oldtarget newtarget : ℕ) : World :=
  match w.signals g with
  | none => { w with fault := true }
  | some s => w.setSignal g (some (s.slotDuplicate oldtarget newtarget))

def newSignal (w : World) (g : ℕ) : Option World :=
  if (w.signals g).isNone then some (w.setSignal g (some .fresh)) else none

/-- The copy constructor, which connects the new signal to whatever the old one is connected to. -/
def copySignal (w : World) (g o : ℕ) : Option World :=
  (w.signals o).bind fun s =>
    if (w.signals g).isNone then
      some ((s.dests.foldl (fun w h => w.signalConnect h g) w).setSignal g (some s.copy))
    else none

/-- disconnect_all of a signal: signal_disconnect does not look at the list that the loop empties. -/
def signalDisconnectAll (w : World) (g : ℕ) : Option World :=
  (w.signals g).map fun s => (s.dests.foldl (fun w h => w.signalDisconnect h g) w).setSignal g (some s.clear)

/-- The destructor. The loop of emit comes back to a signal that was destroyed while it fired. -/
def destroySignal (w : World) (g : ℕ) : Option World :=
  (w.signalDisconnectAll g).map fun t => { t.setSignal g none with fault := t.fault || decide (g ∈ w.firing) }

def newSlots (w : World) (h : ℕ) : Option World :=
  if (w.senders h).isNone then some (w.setSenders h (some [])) else none

/-- The copy constructor: slot_duplicate at each sender of the old object, and an insert into m_senders. -/
def copySlots (w : World) (h o : ℕ) : Option World :=
  (w.senders o).bind fun l =>
    if (w.senders h).isNone then
      some (l.foldl (fun w g => (w.slotDuplicate g o h).signalConnect h g) (w.setSenders h (some [])))
    else none

/-- disconnect_all of a has_slots: slot_disconnect adds no sender, so the swapped set is the only one. -/
def slotsDisconnectAll (w : World) (h : ℕ) : Option World :=
  (w.senders h).map fun l => l.foldl (fun w g => w.slotDisconnect g h) (w.setSenders h (some []))

def destroySlots (w : World) (h : ℕ) : Option World :=
  (w.slotsDisconnectAll h).map fun w => w.setSenders h none

def connect (w : World) (g h method : ℕ) : Option World :=
  (w.signals g).bind fun s =>
    if (w.senders h).isSome then some ((w.setSignal g (some (s.pushBack h method))).signalConnect h g) else none

/-- disconnect, whose signal_disconnect takes the signal out of the object's set whatever other connections there are. -/
def disconnect (w : World) (g h : ℕ) : Option World :=
  (w.signals g).bind fun s =>
    if (w.senders h).isSome then
      some (match s.disconnect h with
        | none => w
        | some t => (w.setSignal g (some t)).signalDisconnect h g)
    else none

def emit (w : World) (g : ℕ) : Option World :=
  (w.signals g).map fun s => { w.setSignal g (some s.begin) with firing := g :: w.firing }

/-- The call of a connection, whose method may then take any actions. -/
def call (w : World) (g : ℕ) (t : Signal) (c : Connection) : World :=
  { w.setSignal g (some t) with
    calls := w.calls ++ [(g,c)]
    fault := w.fault || (w.senders c.dest).isNone }

/-- The innermost emission goes round its loop: it ends, or it calls the next connection. -/
def next (w : World) : Option World :=
  match w.firing with
  | [] => none
  | g :: rest => (w.signals g).map fun s =>
    match s.advance with
    | none => { w with firing := rest }
    | some (c,t) => w.call g t c

def exec (w : World) : Action → Option World
  | .newSignal g => w.newSignal g
  | .copySignal g o => w.copySignal g o
  | .destroySignal g => w.destroySignal g
  | .newSlots h => w.newSlots h
  | .copySlots h o => w.copySlots h o
  | .destroySlots h => w.destroySlots h
  | .connect g h method => w.connect g h method
  | .disconnect g h => w.disconnect g h
  | .signalDisconnectAll g => w.signalDisconnectAll g
  | .slotsDisconnectAll h => w.slotsDisconnectAll h
  | .emit g => w.emit g
  | .next => w.next

/-- The objects that a signal is connected to, one for each connection. -/
def dests (w : World) (g : ℕ) : List ℕ := (w.signals g).elim [] Signal.dests

def sendersOf (w : World) (h : ℕ) : List ℕ := (w.senders h).getD []

/-- The objects at the far ends of the connections an action makes or takes away, which it locks one at a time. -/
def others (w : World) : Action → List Object
  | .copySignal _ o => (w.dests o).map .slots
  | .destroySignal g | .signalDisconnectAll g => (w.dests g).map .slots
  | .connect _ h _ => [.slots h]
  | .disconnect g h => if h ∈ w.dests g then [.slots h] else []
  | .copySlots _ o => (w.sendersOf o).map .signal
  | .destroySlots h | .slotsDisconnectAll h => (w.sendersOf h).map .signal
  | .newSignal _ | .newSlots _ | .emit _ | .next => []

end World

/-- The mutex of an object's lock_block: one for all objects with multi_threaded_global. -/
inductive Policy
  | singleThreaded
  | multiThreadedGlobal
  | multiThreadedLocal
  deriving DecidableEq

inductive Mutex
  | global
  | own (o : Object)
  deriving DecidableEq

def Policy.mutex : Policy → Object → Option Mutex
  | singleThreaded, _ => none
  | multiThreadedGlobal, _ => some .global
  | multiThreadedLocal, o => some (.own o)

variable (policy : Object → Policy)

/-- The two objects have one mutex. -/
def Shares (o p : Object) : Prop :=
  ((policy o).mutex o).isSome = true ∧ (policy o).mutex o = (policy p).mutex p

instance (o p : Object) : Decidable (Shares policy o p) := inferInstanceAs (Decidable (_ ∧ _))

namespace World

/-- The action locks no mutex twice. The emissions underway hold theirs, an action holds its object's while it locks
those at the far ends, and pthread_mutex_lock waits forever for a mutex that the thread itself holds. -/
def Admits (w : World) (a : Action) : Prop :=
  ∀ o ∈ a.locked, (∀ g ∈ w.firing, ¬ Shares policy (.signal g) o) ∧
    ∀ p ∈ w.others a, ¬ Shares policy o p ∧ ∀ g ∈ w.firing, ¬ Shares policy (.signal g) p

instance (w : World) (a : Action) : Decidable (w.Admits policy a) :=
  inferInstanceAs (Decidable (∀ o ∈ a.locked, _))

end World

/-- One thread's actions on signals and has_slots objects with the given policies. -/
def machine : Machine World Action where
  init w := w = .start
  step w a := if w.Admits policy a then w.exec a else none

theorem machine_step {w t : World} {a : Action} (h : (machine policy).step w a = some t) :
    w.Admits policy a ∧ w.exec a = some t := by
  rw [machine, Option.ite_none_right_eq_some] at h
  exact h

end UServer.Sigslot
