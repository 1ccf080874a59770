import UServer.Net.Ownership

/-! The elementary writes that every operation is made of. Each concerns the slot of
one dispatcher, and the record says what it did to the registry. -/
namespace UServer.Net
open Library

/-- What a run may do: call Add, Remove and Update directly, run Add on a dispatcher with
given enabled events and snapshot, arm events, and put a dispatcher into CS_CONNECTED. -/
structure Policy where
  direct : Bool
  adds : EventMask → Option EventMask → Bool
  arms : Ptr → EventMask → Bool
  completes : Ptr → Bool

def Policy.all : Policy := ⟨true,fun _ _ => true,fun _ _ => true,fun _ => true⟩

/-- No direct calls of the registry. -/
def Policy.sockets : Policy := { Policy.all with direct := false }

/-- No direct calls, and no armed dispatcher enters epoll while its own batch is open. -/
def Policy.quiet : Policy :=
  { Policy.sockets with adds := fun enabled saved => saved.isNone || getEpollEvents enabled = 0 }

namespace Slot

/-- The elementary writes on a slot, with what they record. -/
inductive Write (P : Policy) (busy : Prop) (p : Ptr) : Option Slot → List Event → Option Slot → Prop
  | same (x : Option Slot) : Write P busy p x [] x
  | note (x : Option Slot) (ha : P.arms p deConnect = true) : Write P busy p x [.connecting p] x
  | modify (c : Slot) (d d' : SocketDispatcher) (hc : c.dispatcher = .socket d) (hs : d'.s = d.s)
      (he : d'.enabledEvents = d.enabledEvents) (hb : d'.savedEnabledEvents = d.savedEnabledEvents)
      (hst : d'.state = .connected → d.state = .connected ∨ P.completes p = true) :
      Write P busy p (some c) [] (some { c with dispatcher := .socket d' })
  | enable (c : Slot) (events : EventMask) (ha : P.arms p events = true) :
      Write P busy p (some c) [.armed p events] (some (c.changeEvents (· ||| events)))
  | set (c : Slot) (events : EventMask) (hk : c.key = none) :
      Write P busy p (some c) [.armed p events] (some (c.changeEvents fun _ => events))
  | add (c : Slot) (k : Key) (d : SocketDispatcher) (hc : c.dispatcher = .socket d) (hk : c.key = none)
      (hv : d.s ≠ invalidSocket) (ha : P.adds d.enabledEvents d.savedEnabledEvents = true) :
      Write P busy p (some c) [.added k p] (some (c.add k))
  | retire (d : SocketDispatcher) (k : Key) (x : Option EpollEntry) :
      Write P busy p (some ⟨.socket d,some k,x⟩) [.removed k p]
        (some ⟨.socket { d with savedEnabledEvents := d.savedEnabledEvents.map fun _ => 0 },none,none⟩)
  | reset (d : SocketDispatcher) :
      Write P busy p (some ⟨.socket d,none,none⟩) []
        (some ⟨.socket { d with savedEnabledEvents := d.savedEnabledEvents.map fun _ => 0 },none,none⟩)
  | release (d d' : SocketDispatcher) (hv : d.s ≠ invalidSocket) (hs : d'.s = invalidSocket)
      (he : d'.enabledEvents = d.enabledEvents) (hb : d'.savedEnabledEvents = d.savedEnabledEvents)
      (hst : d'.state = .closed) : Write P busy p (some ⟨.socket d,none,none⟩) [.closed d.s] (some ⟨.socket d',none,none⟩)
  | acquire (d d' : SocketDispatcher) (hv : d.s = invalidSocket) (hs : d'.s ≠ invalidSocket)
      (he : d'.enabledEvents = d.enabledEvents) (hb : d'.savedEnabledEvents = d.savedEnabledEvents)
      (hst : d'.state = d.state) : Write P busy p (some ⟨.socket d,none,none⟩) [.opened d'.s] (some ⟨.socket d',none,none⟩)
  | construct : Write P busy p none [] (some ⟨.socket (.new invalidSocket none),none,none⟩)
  | wrap (s : Fd) (soType : Option SockType) (hs : s ≠ invalidSocket) (hc : P.completes p = true) :
      Write P busy p none [.opened s] (some ⟨.socket (.new s soType),none,none⟩)
  | free (d : SocketDispatcher) (hd : d.s = invalidSocket) (hb : ¬busy) :
      Write P busy p (some ⟨.socket d,none,none⟩) [] none
  | remove (c : Slot) (k : Key) (hk : c.key = some k) (hd : P.direct = true) :
      Write P busy p (some c) [.removed k p] (some c.remove)
  | update (c : Slot) (hd : P.direct = true) : Write P busy p (some c) [] (some c.update)

theorem Write.ok {P : Policy} {busy : Prop} {p : Ptr} {x x' : Option Slot} {evs : List Event}
    (h : Write P busy p x evs x') (hx : ∀ c, x = some c → c.Ok busy) (hn : x = none → ¬busy) {c : Slot} (hc : x' = some c) :
    c.Ok busy := by
  cases h with
  | same => exact hx c hc
  | note => exact hx c hc
  | modify c d d' hd hs he hb hst =>
    cases hc
    exact (hx _ rfl).modify hd hs hb
  | enable c events ha =>
    cases hc
    exact (hx _ rfl).changeEvents _
  | set c events hk =>
    cases hc
    exact (hx _ rfl).changeEvents _
  | add c k d hd hk hv ha =>
    cases hc
    refine (hx _ rfl).add ?_ k
    simpa [fd, hd, Dispatcher.getDescriptor] using hv
  | retire d k x =>
    cases hc
    refine Ok.unregistered ?_
    simpa using (hx _ rfl).batch d rfl
  | reset d =>
    cases hc
    refine Ok.unregistered ?_
    simpa using (hx _ rfl).batch d rfl
  | release d d' hv hs he hb hst =>
    cases hc
    exact Ok.unregistered (hb ▸ (hx _ rfl).batch d rfl)
  | acquire d d' hv hs he hb hst =>
    cases hc
    exact Ok.unregistered (hb ▸ (hx _ rfl).batch d rfl)
  | construct =>
    cases hc
    exact Ok.unregistered (by simpa [SocketDispatcher.new] using hn rfl)
  | wrap s soType hs hcp =>
    cases hc
    exact Ok.unregistered (by simpa [SocketDispatcher.new] using hn rfl)
  | free d hd hb => cases hc
  | remove c k hk hd =>
    cases hc
    exact (hx _ rfl).remove
  | update c hd =>
    cases hc
    exact (hx _ rfl).update

end Slot

/-- What an entry of the record did to the registry. -/
def PhysicalSocketServer.replay (e : Event) (s : PhysicalSocketServer) : PhysicalSocketServer :=
  match e with
  | .added k p =>
    { nextDispatcherKey := k + 1
      dispatcherByKey := emplace s.dispatcherByKey k p
      keyByDispatcher := emplace s.keyByDispatcher p k }
  | .removed k p =>
    { s with
      keyByDispatcher := Function.update s.keyByDispatcher p none
      dispatcherByKey := Function.update s.dispatcherByKey k none }
  | _ => s

/-- An elementary write on the slot of p, with what it recorded. -/
structure Write (P : Policy) (busy : Option Ptr) (p : Ptr) (evs : List Event) (w w' : World) : Prop where
  frame : Frame p w w'
  slot : Slot.Write P (busy = some p) p (w.slotAt p) evs (w'.slotAt p)
  trace : w'.trace = evs ++ w.trace
  server : w'.server = evs.foldr PhysicalSocketServer.replay w.server
  issued : ∀ k q, .added k q ∈ evs → k = w.server.nextDispatcherKey

namespace Write
variable {P : Policy} {busy : Option Ptr} {p : Ptr} {evs : List Event} {w w' : World}

theorem owned (h : Write P busy p evs w w') (hO : Owned w busy) : Owned w' busy := by
  refine h.frame.owned hO (fun c hc => ?_) (fun hn => ?_) fun q _ => Iff.rfl
  · exact h.slot.ok (hO.ok p) (fun hn => (hO.vacant p hn).2) hc
  · have hs := h.slot
    rw [hn] at hs
    generalize hx : w.slotAt p = x at hs
    cases hs with
    | same =>
      rw [h.server]
      exact hO.vacant p hx
    | note =>
      rw [h.server]
      exact hO.vacant p hx
    | free d hd hb =>
      rw [h.server]
      exact ⟨(World.slotAt_eq_some_iff.mp hx).2.1,hb⟩

/-- A write that leaves every slot as it is. -/
theorem unchanged (hO : Owned w busy) (hd : w'.dispatchers = w.dispatchers) (hs : w'.server = w.server)
    (hk : w'.kernel = w.kernel) (ht : w'.trace = evs ++ w.trace)
    (hw : ∀ x, Slot.Write P (busy = some p) p x evs x) (he : ∀ s, evs.foldr PhysicalSocketServer.replay s = s)
    (hi : ∀ k q, .added k q ∉ evs) : Write P busy p evs w w' := by
  have hc : w'.slotAt p = w.slotAt p := by
    simp only [World.slotAt, hd, hs, hk]
  refine ⟨?_,hc ▸ hw _,ht,by rw [he, hs],fun k q h => absurd h (hi k q)⟩
  constructor
  case dispatchers =>
    intro q _
    rw [hd]
  case keys =>
    intro q _
    rw [hs]
  case kernel =>
    intro fd _ _
    rw [hk]
    exact ⟨rfl,rfl⟩
  case isOpen =>
    intro c h hv
    rw [hk]
    exact hO.isOpen p c (hc ▸ h) hv
  case fresh =>
    intro c h _
    exact .inl ⟨c,hc ▸ h,rfl⟩
  case dropped =>
    intro c h hn
    exact absurd rfl (hn c (hc.trans h))
  case invalid => rw [hk, hO.invalid]

/-- A write that keeps the descriptor. -/
theorem keep {c c' : Slot} (hO : Owned w busy) (h : w.slotAt p = some c) (hf : c'.fd = c.fd)
    (hw : Slot.Write P (busy = some p) p (some c) evs (some c'))
    (hd : w'.dispatchers = Function.update w.dispatchers p (some c'.dispatcher))
    (hs : w'.server.keyByDispatcher = Function.update w.server.keyByDispatcher p c'.key)
    (hk : w'.kernel = w.kernel.watch c'.fd c'.entry) (ht : w'.trace = evs ++ w.trace)
    (he : w'.server = evs.foldr PhysicalSocketServer.replay w.server)
    (hi : ∀ k q, .added k q ∈ evs → k = w.server.nextDispatcherKey) : Write P busy p evs w w' := by
  have hok : c'.Ok (busy = some p) := hw.ok (fun e hx => hO.ok p e (h.trans hx)) nofun rfl
  obtain ⟨hc,hF⟩ := Frame.keep hO h hf (fun e hx => hok.fd_ne hx) hd hs hk
  exact ⟨hF,by rwa [h, hc],ht,he,hi⟩

/-- A write that keeps the descriptor and the registration. -/
theorem putSlot {c c' : Slot} (hO : Owned w busy) (h : w.slotAt p = some c) (hf : c'.fd = c.fd) (hkey : c'.key = c.key)
    (hw : Slot.Write P (busy = some p) p (some c) evs (some c'))
    (he : ∀ s, evs.foldr PhysicalSocketServer.replay s = s) (hi : ∀ k q, .added k q ∉ evs) :
    Write P busy p evs w { w.putSlot p c' with trace := evs ++ w.trace } := by
  refine keep hO h hf hw rfl rfl rfl rfl ?_ fun k q hm => absurd hm (hi k q)
  have hk := (World.slotAt_eq_some_iff.mp h).2.1
  rw [he]
  simp [World.putSlot, hkey, ← hk]

/-- A write may leave anything in errno. -/
theorem setErrno (h : Write P busy p evs w w') (e : Errno) : Write P busy p evs w (w'.setErrno e) where
  frame := ⟨h.frame.dispatchers,h.frame.keys,h.frame.kernel,h.frame.isOpen,h.frame.fresh,h.frame.dropped,
    h.frame.invalid⟩
  slot := h.slot
  trace := h.trace
  server := h.server
  issued := h.issued

/-- A write that gives an unregistered dispatcher another descriptor, a fresh one or none. -/
theorem relocate {d' : Option Dispatcher} (hO : Owned w busy) (hn : ∀ c, w.slotAt p = some c → c.key = none)
    (hd : w'.dispatchers = Function.update w.dispatchers p d') (hs : w'.server = w.server)
    (hi : w'.kernel.interest = w.kernel.interest)
    (ho : ∀ fd, (∀ c, w.slotAt p = some c → c.fd ≠ fd) → (∀ d, d' = some d → d.getDescriptor ≠ fd) →
      w'.kernel.isOpen fd = w.kernel.isOpen fd)
    (hf : ∀ d, d' = some d → d.getDescriptor ≠ invalidSocket →
      w'.kernel.isOpen d.getDescriptor = true ∧ w.kernel.isOpen d.getDescriptor = false)
    (ht : w'.trace = evs ++ w.trace) (he : ∀ s, evs.foldr PhysicalSocketServer.replay s = s)
    (hm : ∀ k q, .added k q ∉ evs)
    (hw : Slot.Write P (busy = some p) p (w.slotAt p) evs (d'.map fun d => ⟨d,none,none⟩)) :
    Write P busy p evs w w' := by
  obtain ⟨hc,hF⟩ := Frame.relocate hO hn hd hs hi ho hf
  exact ⟨hF,hc ▸ hw,ht,by rw [he, hs],fun k q h => absurd h (hm k q)⟩

end Write

/-- Any number of elementary writes, on any dispatchers. -/
def Writes (P : Policy) (busy : Option Ptr) : World → World → Prop :=
  Relation.ReflTransGen fun w w' => ∃ p evs, Write P busy p evs w w'

/-- From a world with one holder for each descriptor, elementary writes lead to another. -/
def Evolves (P : Policy) (busy : Option Ptr) (w w' : World) : Prop := Owned w busy → Owned w' busy ∧ Writes P busy w w'

namespace Evolves
variable {P : Policy} {busy : Option Ptr} {p : Ptr} {evs : List Event} {w w' w'' : World}

theorem rfl : Evolves P busy w w := fun hO => ⟨hO,.refl⟩

theorem trans (h : Evolves P busy w w') (h' : Evolves P busy w' w'') : Evolves P busy w w'' := by
  intro hO
  obtain ⟨hO',hw⟩ := h hO
  obtain ⟨hO'',hw'⟩ := h' hO'
  exact ⟨hO'',hw.trans hw'⟩

theorem of_write (h : Owned w busy → Write P busy p evs w w') : Evolves P busy w w' :=
  fun hO => ⟨(h hO).owned hO,.single ⟨p,evs,h hO⟩⟩

end Evolves
end UServer.Net
