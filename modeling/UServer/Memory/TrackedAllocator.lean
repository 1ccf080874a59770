import UServer.Library.Runs

/-! TrackedAllocator and the call sites of an Allocator: Create, MakeUniqueN, MakeShared and
StlAllocator with the places that free what they allocated, and their calls in any order. -/
namespace UServer.Memory
open Library

/-- Allocation::Usage in the order of the enumeration. Its last member Count is the length of by_usage. -/
inductive Usage where
  | undefined | stack | create | vector | list | stl
  deriving DecidableEq, Repr

/-- size_t. -/
abbrev Size := UInt64

/-- The value of a pointer. -/
abbrev Address := UInt64

/-- Allocation::Request with the defaults of its declaration. -/
structure Request where
  size : Size
  alignment : Size
  useGuards : Bool := false
  usage : Usage := .undefined
  deriving DecidableEq, Repr

/-- The size of a request as a number. -/
def Request.bytes (r : Request) : ℕ := r.size.toNat

structure Allocation where
  ptr : Address
  request : Request
  deriving DecidableEq, Repr

/-- What the call sites use of an element type: sizeof and alignof. -/
structure ElementType where
  sizeof : Size
  alignof : Size
  deriving DecidableEq, Repr

/-- Allocator::Deleter. -/
structure Deleter where
  allocator : Address := 0
  count : Size := 0
  deriving DecidableEq, Repr

/-- A call of Free on the allocator at an address. -/
structure FreeCall where
  allocator : Address
  allocation : Allocation
  deriving DecidableEq

namespace Allocator

def createRequest (T : ElementType) : Request where
  size := T.sizeof
  alignment := T.alignof
  usage := .create

/-- Destroy after the destructor of the object ran. -/
def destroy (this : Address) (T : ElementType) (object : Address) : FreeCall :=
  ⟨this,{ ptr := object, request := { size := T.sizeof, alignment := T.alignof, usage := .create } }⟩

def makeUniqueNRequest (T : ElementType) (count : Size) : Request where
  size := T.sizeof * count
  alignment := T.alignof
  usage := .create

def makeSharedRequest (T : ElementType) : Request where
  size := T.sizeof
  alignment := T.alignof
  usage := .create

end Allocator

/-- The call operator of Deleter after the destructor of the object ran. -/
def Deleter.call (d : Deleter) (T : ElementType) (object : Address) : FreeCall :=
  ⟨d.allocator,{ ptr := object, request := { size := T.sizeof * d.count, alignment := T.alignof, usage := .create } }⟩

namespace StlAllocator

def buildRequest (T : ElementType) (n : Size) : Request where
  size := T.sizeof * n
  alignment := T.alignof
  usage := .stl

def deallocate (allocator : Address) (T : ElementType) (p : Address) (n : Size) : FreeCall :=
  ⟨allocator,{ ptr := p, request := buildRequest T n }⟩

end StlAllocator

structure UsageStats where
  count : Size := 0
  bytes : Size := 0
  deriving DecidableEq, Repr

/-- The indices of by_usage. -/
def Usage.all : List Usage := [.undefined,.stack,.create,.vector,.list,.stl]

/-- TrackedAllocator::Stats. -/
structure Stats where
  byUsage : Usage → UsageStats

namespace Stats

def numAllocations (s : Stats) : Size := Usage.all.foldl (fun out u => out + (s.byUsage u).count) 0

def bytesAllocated (s : Stats) : Size := Usage.all.foldl (fun out u => out + (s.byUsage u).bytes) 0

/-- The locked part of TrackedAllocator::Allocate. -/
def allocate (s : Stats) (request : Request) : Stats :=
  let usageStats := s.byUsage request.usage
  ⟨Function.update s.byUsage request.usage
    { count := usageStats.count + 1, bytes := usageStats.bytes + request.size }⟩

/-- Both assertions of TrackedAllocator::Free hold. -/
def normalFree (s : Stats) (allocation : Allocation) : Bool :=
  let usageStats := s.byUsage allocation.request.usage
  decide (0 < usageStats.count) && decide (allocation.request.size ≤ usageStats.bytes)

/-- What TrackedAllocator::Free does to the statistics. -/
def free (s : Stats) (allocation : Allocation) : Stats :=
  let usageStats := s.byUsage allocation.request.usage
  ⟨Function.update s.byUsage allocation.request.usage
    { count := usageStats.count - 1, bytes := usageStats.bytes - allocation.request.size }⟩

end Stats

/-- Who will free an object or block, and as what. -/
inductive Owner where
  | pointer (T : ElementType)
  | uniquePtr (T : ElementType) (deleter : Deleter)
  | sharedPtr (T : ElementType) (deleter : Deleter)
  | container (T : ElementType) (n : Size)
  deriving DecidableEq, Repr

/-- An object or block in use. Its owner keeps the pointer, but not the request its memory was allocated for. -/
structure Object where
  ptr : Address
  owner : Owner
  request : Request
  deriving DecidableEq, Repr

/-- What Allocate returned for it. -/
def Object.allocation (o : Object) : Allocation := ⟨o.ptr,o.request⟩

/-- The call of Free that the owner of an object makes when it gives it up. -/
def Object.release (this : Address) (o : Object) : FreeCall :=
  match o.owner with
  | .pointer T => Allocator.destroy this T o.ptr
  | .uniquePtr T d => d.call T o.ptr
  | .sharedPtr T d => d.call T o.ptr
  | .container T n => StlAllocator.deallocate this T o.ptr n

/-- A call of TrackedAllocator::Allocate between its locked part and the answer of the
underlying allocator. The request is a local object of the caller at an address of its own. -/
structure Call where
  frame : Address
  request : Request
  owner : Owner
  deriving DecidableEq

/-- What passes between the TrackedAllocator and the allocator under it. -/
inductive Event where
  | allocated (a : Allocation)
  | freed (a : Allocation)
  deriving DecidableEq

/-- The memory the underlying allocator has handed out and not got back, by a record newest first. -/
def handedOut : List Event → List Allocation
  | [] => []
  | .allocated a :: es => a :: handedOut es
  | .freed a :: es => (handedOut es).filter fun b => b.ptr ≠ a.ptr

/-- The memory given back to the underlying allocator, by a record newest first. -/
def givenBack : List Event → List Allocation
  | [] => []
  | .allocated _ :: es => givenBack es
  | .freed a :: es => a :: givenBack es

/-- Each Free in the record has the pointer and the whole request of an Allocate whose memory is still out. -/
def Matched : List Event → Prop
  | [] => True
  | .allocated _ :: es => Matched es
  | .freed a :: es => a ∈ handedOut es ∧ Matched es

/-- A TrackedAllocator with its clients: the calls in flight, the objects in use, the memory whose constructor threw
and which nobody frees, the calls of Free that owners made, newest first, and what passed to the allocator under it. -/
structure State where
  stats : Stats
  abnormal : Bool
  calls : List Call
  objects : List Object
  lost : List Allocation
  frees : List FreeCall
  trace : List Event

namespace State
variable (s : State)

/-- The memory of the objects in use and of those whose constructor threw. -/
def live : List Allocation := s.objects.map Object.allocation ++ s.lost

/-- The requests of the calls in flight and of the memory that clients have. -/
def outstanding : List Request := s.calls.map Call.request ++ s.live.map Allocation.request

/-- The outstanding allocations of one usage. -/
def outstandingOf (u : Usage) : List Request := s.outstanding.filter fun r => r.usage = u

/-- The outstanding allocations take fewer bytes than a size_t counts. -/
def Fits : Prop := (s.outstanding.map Request.bytes).sum < 2 ^ 64

instance : Decidable s.Fits := inferInstanceAs (Decidable (_ < _))

/-- Addresses of live objects: the requests of calls in flight and the memory handed out. -/
def addresses : List Address := s.calls.map Call.frame ++ (handedOut s.trace).map Allocation.ptr

def Fresh (p : Address) : Prop := p ≠ 0 ∧ p ∉ s.addresses

instance (p : Address) : Decidable (s.Fresh p) := inferInstanceAs (Decidable (_ ∧ _))

/-- TrackedAllocator::Allocate up to the call of the underlying allocator. -/
def allocate (frame : Address) (request : Request) (owner : Owner) : Option State :=
  if s.Fresh frame then
    some { s with stats := s.stats.allocate request, calls := ⟨frame,request,owner⟩ :: s.calls }
  else none

/-- The underlying allocator answers with new memory, and the constructor of the object returns or throws. -/
def answer (c : Call) (ptr : Address) (thrown : Bool) : Option State :=
  if c ∈ s.calls ∧ s.Fresh ptr then
    some { s with
      calls := s.calls.erase c
      objects := if thrown then s.objects else ⟨ptr,c.owner,c.request⟩ :: s.objects
      lost := if thrown then ⟨ptr,c.request⟩ :: s.lost else s.lost
      trace := .allocated ⟨ptr,c.request⟩ :: s.trace }
  else none

/-- TrackedAllocator::Free, which holds the lock to its end. -/
def free (a : Allocation) : State :=
  { s with
    stats := s.stats.free a
    abnormal := s.abnormal || !s.stats.normalFree a
    trace := .freed a :: s.trace }

/-- The owner of an object gives it up with a call of Free, on the allocator at the address that it names. -/
def release (this : Address) (o : Object) : Option State :=
  if o ∈ s.objects then
    let f := o.release this
    let given : State := { s with objects := s.objects.erase o, frees := f :: s.frees }
    some (if f.allocator = this then given.free f.allocation else given)
  else none

end State

/-- The calls of clients, each naming the address of its request, the answers they get, and what they release. -/
inductive Action where
  | create (frame : Address) (T : ElementType)
  | makeUnique (frame : Address) (T : ElementType)
  | makeUniqueN (frame : Address) (T : ElementType) (count : Size)
  | makeShared (frame : Address) (T : ElementType)
  | allocate (frame : Address) (T : ElementType) (n : Size)
  | answer (c : Call) (ptr : Address) (thrown : Bool)
  | release (o : Object)

/-- MakeUniqueN, which returns nullptr for no elements. -/
def makeUniqueN (this : Address) (s : State) (frame : Address) (T : ElementType) (count : Size) : Option State :=
  if count = 0 then some s
  else s.allocate frame (Allocator.makeUniqueNRequest T count) (.uniquePtr T ⟨this,count⟩)

def step (this : Address) (s : State) : Action → Option State
  | .create frame T => s.allocate frame (Allocator.createRequest T) (.pointer T)
  | .makeUnique frame T => makeUniqueN this s frame T 1
  | .makeUniqueN frame T count => makeUniqueN this s frame T count
  | .makeShared frame T => s.allocate frame (Allocator.makeSharedRequest T) (.sharedPtr T ⟨this,1⟩)
  | .allocate frame T n => s.allocate frame (StlAllocator.buildRequest T n) (.container T n)
  | .answer c ptr thrown => s.answer c ptr thrown
  | .release o => s.release this o

/-- A TrackedAllocator at some address, with nothing allocated yet. -/
def trackedMachine (this : Address) : Machine State Action where
  init s := s = ⟨⟨fun _ => {}⟩,false,[],[],[],[],[]⟩
  step := step this

end UServer.Memory
