import UServer.Library.History
import UServer.Net.EventLoop
import Mathlib.Data.List.AList

/-! The loop thread over select, in a build without epoll: WaitSelect collects descriptors from the registry, waits,
and goes through current_dispatcher_keys_, while handlers and other threads call Add and Remove. -/
namespace UServer.Net
open Library

def fdSetSize : Int := 1024

/-- The descriptors in an fd_set. -/
abbrev FdSet := Finset Fd

/-- The assertion on the size of a descriptor only logs: FD_SET and FD_ISSET are not defined outside of this range. -/
def inFdSet (fd : Fd) : Bool := decide (0 ≤ fd ∧ fd < fdSetSize)

/-- std::unordered_map, where the code goes through its entries. -/
abbrev DispatcherMap := AList fun _ : Key => Ptr

/-- std::unordered_map::emplace keeps an entry that is already there. -/
def DispatcherMap.emplace (m : DispatcherMap) (key : Key) (p : Ptr) : DispatcherMap :=
  if key ∈ m then m else m.insert key p

/-- The members of PhysicalSocketServer that WaitSelect uses, and the dispatchers at their addresses. -/
structure SelectServer where
  dispatchers : Ptr → Option Dispatcher
  nextDispatcherKey : Key
  dispatcherByKey : DispatcherMap
  keyByDispatcher : Ptr → Option Key
  currentDispatcherKeys : List Key
  signalWakeup : Ptr
  flagWait : Bool

/-- What one collection phase leaves in current_dispatcher_keys_ and in the locals of WaitSelect. -/
structure Collected where
  keys : List Key
  fdmax : Fd
  fdsRead : FdSet
  fdsWrite : FdSet

/-- The arguments of WaitSelect and its locals past the collection. -/
structure SelectFrame where
  cmsWait : Int
  processIo : Bool
  fdmax : Fd
  fdsRead : FdSet
  fdsWrite : FdSet

namespace SelectServer

/-- The registry, as the loop over epoll has it. -/
def registry (s : SelectServer) : PhysicalSocketServer :=
  ⟨s.nextDispatcherKey,fun key => s.dispatcherByKey.lookup key,s.keyByDispatcher⟩

def add (s : SelectServer) (p : Ptr) : SelectServer :=
  if (s.keyByDispatcher p).isSome then s
  else
    let key := s.nextDispatcherKey
    { s with
      nextDispatcherKey := key + 1
      dispatcherByKey := DispatcherMap.emplace s.dispatcherByKey key p
      keyByDispatcher := emplace s.keyByDispatcher p key }

def remove (s : SelectServer) (p : Ptr) : SelectServer :=
  match s.keyByDispatcher p with
  | none => s
  | some key =>
    { s with
      keyByDispatcher := Function.update s.keyByDispatcher p none
      dispatcherByKey := s.dispatcherByKey.erase key }

/-- The dispatchers that a collection phase does not pass over. -/
def considers (s : SelectServer) (processIo : Bool) (p : Ptr) : Bool := processIo || decide (p = s.signalWakeup)

/-- One turn of the loop over dispatcher_by_key_, which uses a dispatcher that must still be there. -/
def collectEntry (s : SelectServer) (processIo : Bool) (c : Collected) (kv : Sigma fun _ : Key => Ptr) :
    Option Collected :=
  if s.considers processIo kv.2 then
    match s.dispatchers kv.2 with
    | none => none
    | some dispatcher =>
      let fd := dispatcher.getDescriptor
      let ff := dispatcher.getRequestedEvents
      let reads := has ff (deRead ||| deAccept)
      let writes := has ff (deWrite ||| deConnect)
      if (reads || writes) && !inFdSet fd then none
      else some
        { keys := c.keys ++ [kv.1]
          fdmax := max fd c.fdmax
          fdsRead := if reads then insert fd c.fdsRead else c.fdsRead
          fdsWrite := if writes then insert fd c.fdsWrite else c.fdsWrite }
  else some c

/-- The collection phase, in the order in which the map is gone through. -/
def collect (s : SelectServer) (processIo : Bool) (order : List (Sigma fun _ : Key => Ptr)) : Option Collected :=
  order.foldlM (s.collectEntry processIo) ⟨s.currentDispatcherKeys,-1,∅,∅⟩

/-- The constructor: a registry that holds the signaler alone. -/
def start (p : Ptr) (afd : Fd) : SelectServer :=
  let s : SelectServer := ⟨fun _ => none,0,∅,fun _ => none,[],p,false⟩
  { s with dispatchers := Function.update s.dispatchers p (some (.signaler afd)) }.add p

end SelectServer

/-- emplace on the entries is emplace on what they look up. -/
theorem DispatcherMap.lookup_emplace (m : DispatcherMap) (key : Key) (p : Ptr) :
    (fun k => AList.lookup k (m.emplace key p)) = UServer.Net.emplace (fun k => AList.lookup k m) key p := by
  unfold DispatcherMap.emplace UServer.Net.emplace
  by_cases hm : key ∈ m
  · rw [if_pos hm, if_pos (AList.lookup_isSome.mpr hm)]
  · rw [if_neg hm, if_neg fun h => hm (AList.lookup_isSome.mp h)]
    funext k
    by_cases hk : k = key
    · rw [hk, AList.lookup_insert, Function.update_self]
    · rw [AList.lookup_insert_ne hk, Function.update_of_ne hk]

theorem World.addEpoll_server (w : World) (p : Ptr) (key : Key) : (w.addEpoll p key).server = w.server := by
  unfold World.addEpoll
  split
  · rfl
  · dsimp only
    split
    · rfl
    · split
      · rfl
      · exact w.epollCtl_server _

theorem World.removeEpoll_server (w : World) (p : Ptr) : (w.removeEpoll p).server = w.server := by
  unfold World.removeEpoll
  split
  · rfl
  · dsimp only
    split
    · rfl
    · exact w.epollCtl_server _

namespace SelectServer
variable {s : SelectServer} {w : World} {p : Ptr}

/-- Without epoll Add leaves the registry that Add with epoll leaves. -/
theorem registry_add (h : s.registry = w.server) : (s.add p).registry = (w.add p).server := by
  have hk : s.keyByDispatcher = w.server.keyByDispatcher := congrArg PhysicalSocketServer.keyByDispatcher h
  unfold SelectServer.add World.add
  rw [hk]
  split
  · exact h
  · rw [World.addEpoll_server]
    simp only [registry, World.register, World.log, DispatcherMap.lookup_emplace, ← h]

/-- And so does Remove. -/
theorem registry_remove (h : s.registry = w.server) : (s.remove p).registry = (w.remove p).server := by
  have hk : s.keyByDispatcher = w.server.keyByDispatcher := congrArg PhysicalSocketServer.keyByDispatcher h
  unfold SelectServer.remove World.remove
  rw [hk]
  cases hp : w.server.keyByDispatcher p with
  | none => exact h
  | some key =>
    have hl : (fun k => (s.dispatcherByKey.erase key).lookup k) =
        Function.update (fun k => s.dispatcherByKey.lookup k) key none := by
      funext k
      by_cases hkey : k = key
      · rw [hkey, AList.lookup_erase, Function.update_self]
      · rw [AList.lookup_erase_ne hkey, Function.update_of_ne hkey]
    simp only [World.removeEpoll_server, registry, World.unregister, World.log, hl, ← h]

variable {processIo : Bool} {c c' : Collected}

theorem keys_of_collectEntry {kv : Sigma fun _ : Key => Ptr} (h : s.collectEntry processIo c kv = some c') :
    c'.keys = c.keys ++ if s.considers processIo kv.2 then [kv.1] else [] := by
  unfold collectEntry at h
  split at h
  · rename_i hc
    split at h
    · cases h
    · obtain ⟨-,h⟩ := Option.ite_none_left_eq_some.mp h
      cases h
      rw [if_pos hc]
  · rename_i hc
    cases h
    rw [if_neg hc, List.append_nil]

/-- A collection phase appends the keys of the entries that it considers. -/
theorem keys_of_collect {order : List (Sigma fun _ : Key => Ptr)} (h : s.collect processIo order = some c) :
    c.keys = s.currentDispatcherKeys ++ (order.filter fun kv => s.considers processIo kv.2).map Sigma.fst := by
  unfold collect at h
  generalize hc : Collected.mk s.currentDispatcherKeys (-1) ∅ ∅ = c₀ at h
  have hk : s.currentDispatcherKeys = c₀.keys := congrArg Collected.keys hc
  rw [hk]
  clear hc hk
  induction order generalizing c₀ with
  | nil =>
    cases h
    exact (List.append_nil _).symm
  | cons kv order ih =>
    obtain ⟨c₁,h₁,h⟩ := Option.bind_eq_some_iff.mp h
    rw [ih c₁ h, keys_of_collectEntry h₁, List.append_assoc, List.filter_cons]
    split <;> rfl

end SelectServer

/-- Where the loop thread stands: outside of WaitSelect with the last result, before the test of flag_wait_, before
select, at the next of the current keys, or in the handlers of a dispatcher's event. -/
inductive SelectControl where
  | idle (returned : Option Bool)
  | looping (f : SelectFrame)
  | selecting (f : SelectFrame)
  | dispatching (f : SelectFrame) (rest : List Key)
  | handling (f : SelectFrame) (rest : List Key)

structure SelectState where
  server : SelectServer
  control : SelectControl

/-- What select answers; ready has the sets as select leaves them. -/
inductive SelectAnswer where
  | failed (e : Errno)
  | timeout
  | ready (fdsRead fdsWrite : FdSet)

/-- The loop thread calls WaitSelect and goes on with it. Handlers and other threads call Add and Remove; what becomes of
the dispatchers besides, by OnEvent and by the application, is a change. -/
inductive SelectAction where
  | add (p : Ptr)
  | remove (p : Ptr)
  | change (p : Ptr) (dispatcher : Option Dispatcher)
  | wait (cmsWait : Int) (processIo : Bool)
  | turn (order : List (Sigma fun _ : Key => Ptr))
  | select (answer : SelectAnswer)
  | next (so : Except Errno Errno) (peek : Except Errno Nat)
  | resume

/-- The loop thread holds recursive_mutex_ while it goes through the current keys, and lets only its handlers in. -/
def SelectControl.locked : SelectControl → Bool
  | .dispatching _ _ => true
  | _ => false

/-- The sets that select leaves are parts of those it was given, below the first argument, and not both empty. -/
def SelectFrame.Answered (f : SelectFrame) (fdsRead fdsWrite : FdSet) : Prop :=
  fdsRead ⊆ f.fdsRead.filter (· < f.fdmax + 1) ∧ fdsWrite ⊆ f.fdsWrite.filter (· < f.fdmax + 1) ∧
    fdsRead.card + fdsWrite.card ≠ 0

instance (f : SelectFrame) (fdsRead fdsWrite : FdSet) : Decidable (f.Answered fdsRead fdsWrite) :=
  inferInstanceAs (Decidable (_ ∧ _ ∧ _))

def kForeverMs : Int := -1

/-- The test of flag_wait_ and the collection phase after it. -/
def selectTurn (s : SelectServer) (f : SelectFrame) (order : List (Sigma fun _ : Key => Ptr)) : Option SelectState :=
  if s.flagWait then
    if order.Perm s.dispatcherByKey.entries then
      (s.collect f.processIo order).map fun c =>
        ⟨{ s with currentDispatcherKeys := c.keys },
          .selecting { f with fdmax := c.fdmax, fdsRead := c.fdsRead, fdsWrite := c.fdsWrite }⟩
    else none
  else some ⟨s,.idle (some true)⟩

def selectAnswered (s : SelectServer) (f : SelectFrame) : SelectAnswer → Option SelectState
  | .failed e => some ⟨s,if e = eintr then .looping f else .idle (some false)⟩
  | .timeout => if f.cmsWait = kForeverMs then none else some ⟨s,.idle (some true)⟩
  | .ready fdsRead fdsWrite =>
    if f.Answered fdsRead fdsWrite then
      some ⟨s,.dispatching { f with fdsRead := fdsRead, fdsWrite := fdsWrite } s.currentDispatcherKeys⟩
    else none

/-- One turn of the loop over current_dispatcher_keys_. The OnEvent of the signaler clears flag_wait_. -/
def selectNext (s : SelectServer) (f : SelectFrame) (key : Key) (rest : List Key) (so : Except Errno Errno)
    (peek : Except Errno Nat) : Option SelectState :=
  match s.dispatcherByKey.lookup key with
  | none => some ⟨s,.dispatching f rest⟩
  | some p =>
    match s.dispatchers p with
    | none => none
    | some dispatcher =>
      let fd := dispatcher.getDescriptor
      if !inFdSet fd then none
      else
        let readable := decide (fd ∈ f.fdsRead)
        let writeable := decide (fd ∈ f.fdsWrite)
        let f := { f with fdsRead := f.fdsRead.erase fd, fdsWrite := f.fdsWrite.erase fd }
        let out := processEvents dispatcher readable writeable false (readable || writeable) so peek
        if out.1 = 0 then some ⟨s,.dispatching f rest⟩
        else match dispatcher with
          | .signaler _ =>
            some ⟨if p = s.signalWakeup then { s with flagWait := false } else s,.dispatching f rest⟩
          | .socket _ => some ⟨s,.handling f rest⟩

def selectStep (s : SelectState) : SelectAction → Option SelectState
  | .add p => if s.control.locked then none else some { s with server := s.server.add p }
  | .remove p =>
    if s.control.locked || p = s.server.signalWakeup then none else some { s with server := s.server.remove p }
  | .change p dispatcher =>
    if p = s.server.signalWakeup then none
    else some { s with server :=
      { s.server with dispatchers := Function.update s.server.dispatchers p dispatcher } }
  | .wait cmsWait processIo =>
    match s.control with
    | .idle _ => some ⟨{ s.server with flagWait := true },.looping ⟨cmsWait,processIo,-1,∅,∅⟩⟩
    | _ => none
  | .turn order =>
    match s.control with
    | .looping f => selectTurn s.server f order
    | _ => none
  | .select answer =>
    match s.control with
    | .selecting f => selectAnswered s.server f answer
    | _ => none
  | .next so peek =>
    match s.control with
    | .dispatching f (key :: rest) => selectNext s.server f key rest so peek
    | .dispatching f [] => some { s with control := .looping f }
    | _ => none
  | .resume =>
    match s.control with
    | .handling f rest => some { s with control := .dispatching f rest }
    | _ => none

/-- The loop thread of a freshly constructed socket server in a build without epoll. -/
def selectMachine : Machine SelectState SelectAction where
  init s := ∃ p afd, 0 ≤ afd ∧ s = ⟨SelectServer.start p afd,.idle none⟩
  step := selectStep

end UServer.Net
