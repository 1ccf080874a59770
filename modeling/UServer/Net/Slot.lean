import UServer.Net.EventLoop

/-! What one dispatcher is to the registry and to epoll: its object, its key and the
interest entry of its descriptor. The operations on one dispatcher act on its slot
alone, as long as no two dispatchers share a descriptor. -/
namespace UServer.Net
open Library

structure Slot where
  dispatcher : Dispatcher
  key : Option Key
  entry : Option EpollEntry

/-- The kernel with a new interest entry for a descriptor, or with none. -/
def Kernel.watch (k : Kernel) (fd : Fd) (e : Option EpollEntry) : Kernel :=
  { k with interest := Function.update k.interest fd e }

@[simp] theorem Kernel.watch_interest (k : Kernel) (fd : Fd) (e : Option EpollEntry) :
    (k.watch fd e).interest = Function.update k.interest fd e := rfl

@[simp] theorem Kernel.watch_self (k : Kernel) (fd : Fd) : k.watch fd (k.interest fd) = k := by
  simp [watch]

namespace Slot

def fd (c : Slot) : Fd := c.dispatcher.getDescriptor

/-- The mask that the dispatcher's enabled events call for. -/
def events (c : Slot) : EpollMask := getEpollEvents c.dispatcher.getRequestedEvents

/-- Registered dispatchers have a descriptor, epoll carries the current key, and a
snapshot is saved just while the dispatcher's OnEvent runs. -/
structure Ok (c : Slot) (busy : Prop) : Prop where
  valid : ∀ k, c.key = some k → c.fd ≠ invalidSocket
  entry : ∀ e, c.entry = some e → c.key = some e.key
  batch : ∀ d, c.dispatcher = .socket d → (d.savedEnabledEvents ≠ none ↔ busy)
  signaler : ∀ afd, c.dispatcher = .signaler afd → ¬busy

/-- The registry part of Add and AddEpoll. -/
def add (c : Slot) (k : Key) : Slot :=
  { c with key := some k, entry := if c.events = 0 then none else some ⟨c.events,k⟩ }

def remove (c : Slot) : Slot := { c with key := none, entry := none }

/-- Update: only a zero mask can leave a descriptor out of epoll. -/
def update (c : Slot) : Slot :=
  match c.key with
  | none => c
  | some k => { c with entry := if c.entry = none ∧ c.events = 0 then none else some ⟨c.events,k⟩ }

def modify (c : Slot) (f : SocketDispatcher → SocketDispatcher) : Slot :=
  match c.dispatcher with
  | .signaler _ => c
  | .socket d => { c with dispatcher := .socket (f d) }

def mayBeUpdate (c : Slot) (oldEvents : EventMask) : Slot :=
  match c.dispatcher with
  | .signaler _ => c
  | .socket d =>
    if getEpollEvents d.enabledEvents ≠ getEpollEvents oldEvents ∧ d.savedEnabledEvents = none then c.update else c

def changeEvents (c : Slot) (f : EventMask → EventMask) : Slot :=
  match c.dispatcher with
  | .signaler _ => c
  | .socket d => (c.modify fun d => { d with enabledEvents := f d.enabledEvents }).mayBeUpdate d.enabledEvents

@[simp] theorem update_dispatcher (c : Slot) : c.update.dispatcher = c.dispatcher := by
  unfold update
  split <;> rfl

@[simp] theorem update_key (c : Slot) : c.update.key = c.key := by
  unfold update
  split
  · rfl
  · rename_i h
    exact h.symm ▸ rfl

@[simp] theorem update_fd (c : Slot) : c.update.fd = c.fd := by
  simp [fd]

@[simp] theorem mayBeUpdate_dispatcher (c : Slot) (oldEvents : EventMask) :
    (c.mayBeUpdate oldEvents).dispatcher = c.dispatcher := by
  unfold mayBeUpdate
  split
  · rfl
  · split
    · exact c.update_dispatcher
    · rfl

@[simp] theorem mayBeUpdate_key (c : Slot) (oldEvents : EventMask) : (c.mayBeUpdate oldEvents).key = c.key := by
  unfold mayBeUpdate
  split
  · rfl
  · split
    · exact c.update_key
    · rfl

@[simp] theorem mayBeUpdate_fd (c : Slot) (oldEvents : EventMask) : (c.mayBeUpdate oldEvents).fd = c.fd := by
  simp [fd]

theorem changeEvents_signaler {c : Slot} {afd : Fd} (hc : c.dispatcher = .signaler afd) (f : EventMask → EventMask) :
    c.changeEvents f = c := by
  simp [changeEvents, hc]

theorem changeEvents_socket {c : Slot} {d : SocketDispatcher} (hc : c.dispatcher = .socket d)
    (f : EventMask → EventMask) : c.changeEvents f =
      Slot.mayBeUpdate { c with dispatcher := .socket { d with enabledEvents := f d.enabledEvents } }
        d.enabledEvents := by
  simp [changeEvents, modify, hc]

/-- Nothing but the object changes while the dispatcher is not registered. -/
theorem changeEvents_unregistered (d : SocketDispatcher) (f : EventMask → EventMask) :
    changeEvents ⟨.socket d,none,none⟩ f = ⟨.socket { d with enabledEvents := f d.enabledEvents },none,none⟩ := by
  simp [changeEvents, modify, mayBeUpdate, update]

@[simp] theorem changeEvents_key (c : Slot) (f : EventMask → EventMask) : (c.changeEvents f).key = c.key := by
  unfold changeEvents
  split
  · rfl
  · rename_i d hc
    simp [modify, hc]

theorem changeEvents_dispatcher {c : Slot} {d : SocketDispatcher} (hc : c.dispatcher = .socket d)
    (f : EventMask → EventMask) :
    (c.changeEvents f).dispatcher = .socket { d with enabledEvents := f d.enabledEvents } := by
  rw [changeEvents_socket hc, mayBeUpdate_dispatcher]

/-- A slot that is left by a change of events was there before with the same key, and all but the events of its object. -/
theorem eq_changeEvents {c : Slot} {f : EventMask → EventMask} {d' : SocketDispatcher} {κ : Option Key}
    {y : Option EpollEntry} (h : ⟨.socket d',κ,y⟩ = c.changeEvents f) :
    ∃ d x, c = ⟨.socket d,κ,x⟩ ∧ d' = { d with enabledEvents := f d.enabledEvents } := by
  obtain ⟨D,κ',x⟩ := c
  obtain rfl : κ = κ' := (congrArg Slot.key h).trans (changeEvents_key _ _)
  cases D with
  | signaler afd => cases congrArg Slot.dispatcher h
  | socket d =>
    have hd : Dispatcher.socket d' = .socket { d with enabledEvents := f d.enabledEvents } :=
      (congrArg Slot.dispatcher h).trans (changeEvents_dispatcher rfl _)
    cases hd
    exact ⟨d,x,rfl,rfl⟩

/-- A slot that is left by an update was there before, all but its epoll entry. -/
theorem eq_mayBeUpdate {c : Slot} {oldEvents : EventMask} {D : Dispatcher} {κ : Option Key} {y : Option EpollEntry}
    (h : ⟨D,κ,y⟩ = c.mayBeUpdate oldEvents) : ∃ x, c = ⟨D,κ,x⟩ := by
  obtain ⟨D',κ',x⟩ := c
  obtain rfl : κ = κ' := (congrArg Slot.key h).trans (mayBeUpdate_key _ _)
  obtain rfl : D = D' := (congrArg Slot.dispatcher h).trans (mayBeUpdate_dispatcher _ _)
  exact ⟨x,rfl⟩

@[simp] theorem changeEvents_fd (c : Slot) (f : EventMask → EventMask) : (c.changeEvents f).fd = c.fd := by
  unfold changeEvents
  split
  · rfl
  · rename_i d hc
    simp [modify, hc, fd, Dispatcher.getDescriptor]

namespace Ok
variable {c : Slot} {busy : Prop}

/-- Who is not registered is in no entry of epoll. -/
theorem entry_eq_none (h : c.Ok busy) (hk : c.key = none) : c.entry = none := by
  cases he : c.entry with
  | none => rfl
  | some e => cases hk.symm.trans (h.entry e he)

theorem fd_ne (h : c.Ok busy) {e : EpollEntry} (he : c.entry = some e) : c.fd ≠ invalidSocket := h.valid _ (h.entry e he)

theorem update (h : c.Ok busy) : c.update.Ok busy where
  valid k hk := by
    rw [update_key] at hk
    rw [update_fd]
    exact h.valid k hk
  entry e he := by
    rw [update_key]
    unfold Slot.update at he
    split at he
    · exact h.entry e he
    · rename_i k hk
      rw [hk]
      dsimp only at he
      split at he
      · cases he
      · cases he
        rfl
  batch d hd := by
    rw [update_dispatcher] at hd
    exact h.batch d hd
  signaler afd hd := by
    rw [update_dispatcher] at hd
    exact h.signaler afd hd

theorem mayBeUpdate (h : c.Ok busy) (oldEvents : EventMask) : (c.mayBeUpdate oldEvents).Ok busy := by
  unfold Slot.mayBeUpdate
  split
  · exact h
  · split
    · exact h.update
    · exact h

/-- Writing the object alone, without its descriptor and its snapshot. -/
theorem modify (h : c.Ok busy) {d d' : SocketDispatcher} (hc : c.dispatcher = .socket d) (hs : d'.s = d.s)
    (hb : d'.savedEnabledEvents = d.savedEnabledEvents) : Slot.Ok { c with dispatcher := .socket d' } busy where
  valid k hk := by
    have hv := h.valid k hk
    simpa [fd, hc, Dispatcher.getDescriptor, hs] using hv
  entry e he := h.entry e he
  batch _ he := by
    cases he
    rw [hb]
    exact h.batch d hc
  signaler _ he := nomatch he

theorem changeEvents (h : c.Ok busy) (f : EventMask → EventMask) : (c.changeEvents f).Ok busy := by
  cases hc : c.dispatcher with
  | signaler afd =>
    rw [changeEvents_signaler hc]
    exact h
  | socket d =>
    rw [changeEvents_socket hc]
    refine mayBeUpdate ?_ _
    exact h.modify hc rfl rfl

/-- A dispatcher that is not registered is in no entry of epoll. -/
theorem unregistered {d : SocketDispatcher} (hb : d.savedEnabledEvents ≠ none ↔ busy) :
    Slot.Ok ⟨.socket d,none,none⟩ busy where
  valid _ hk := by cases hk
  entry _ he := by cases he
  batch _ he := by
    cases he
    exact hb
  signaler _ he := nomatch he

theorem add (h : c.Ok busy) (hv : c.fd ≠ invalidSocket) (k : Key) : (c.add k).Ok busy where
  valid _ _ := hv
  entry e he := by
    dsimp only [Slot.add] at he ⊢
    split at he
    · cases he
    · cases he
      rfl
  batch d hd := h.batch d hd
  signaler afd hd := h.signaler afd hd

theorem remove (h : c.Ok busy) : c.remove.Ok busy where
  valid _ hk := by cases hk
  entry _ he := by cases he
  batch d hd := h.batch d hd
  signaler afd hd := h.signaler afd hd

end Ok

end Slot

namespace World

def slotAt (w : World) (p : Ptr) : Option Slot :=
  (w.dispatchers p).map fun d => ⟨d, w.server.keyByDispatcher p, w.kernel.interest d.getDescriptor⟩

def putSlot (w : World) (p : Ptr) (c : Slot) : World :=
  { w with
    dispatchers := Function.update w.dispatchers p (some c.dispatcher)
    server := { w.server with keyByDispatcher := Function.update w.server.keyByDispatcher p c.key }
    kernel := w.kernel.watch c.fd c.entry }

variable {w : World} {p : Ptr} {c : Slot}

theorem slotAt_eq_some_iff : w.slotAt p = some c ↔
    w.dispatchers p = some c.dispatcher ∧ w.server.keyByDispatcher p = c.key ∧ w.kernel.interest c.fd = c.entry := by
  obtain ⟨d,κ,ε⟩ := c
  unfold slotAt
  cases w.dispatchers p with
  | none => simp
  | some d' =>
    simp only [Option.map_some, Option.some.injEq, Slot.mk.injEq, Slot.fd]
    constructor
    · rintro ⟨rfl,rfl,rfl⟩
      exact ⟨rfl,rfl,rfl⟩
    · rintro ⟨rfl,rfl,rfl⟩
      exact ⟨rfl,rfl,rfl⟩

@[simp] theorem slotAt_putSlot : (w.putSlot p c).slotAt p = some c :=
  slotAt_eq_some_iff.mpr ⟨Function.update_self _ _ _,Function.update_self _ _ _,Function.update_self _ _ _⟩

theorem putSlot_slotAt (h : w.slotAt p = some c) : w.putSlot p c = w := by
  obtain ⟨hd,hk,he⟩ := slotAt_eq_some_iff.mp h
  simp [putSlot, ← hd, ← hk, ← he]

theorem putSlot_putSlot {c' : Slot} (h : c.fd = c'.fd) : (w.putSlot p c).putSlot p c' = w.putSlot p c' := by
  simp [putSlot, Kernel.watch, h]

theorem epollCtl_eq (w : World) (out : Kernel × Except Errno Unit) : ∃ e, w.epollCtl out = (w.setKernel out.1).setErrno e := by
  unfold epollCtl
  cases out.2 with
  | ok _ => exact ⟨w.errno,rfl⟩
  | error e => exact ⟨e,rfl⟩

theorem setErrno_errno (w : World) : w.setErrno w.errno = w := rfl

@[simp] theorem setErrno_setErrno (w : World) (e e' : Errno) : (w.setErrno e).setErrno e' = w.setErrno e' := rfl

@[simp] theorem slotAt_setErrno (w : World) (e : Errno) (p : Ptr) : (w.setErrno e).slotAt p = w.slotAt p := rfl

/-- What UpdateEpoll leaves in the interest table, and something in errno. -/
theorem updateEpoll_eq {dispatcher : Dispatcher} (hd : w.dispatchers p = some dispatcher)
    (hv : dispatcher.getDescriptor ≠ invalidSocket) (key : Key) :
    ∃ e, w.updateEpoll p key = (w.setKernel (w.kernel.watch dispatcher.getDescriptor
      (if w.kernel.interest dispatcher.getDescriptor = none ∧ getEpollEvents dispatcher.getRequestedEvents = 0
        then none else some ⟨getEpollEvents dispatcher.getRequestedEvents,key⟩))).setErrno e := by
  unfold updateEpoll Kernel.epollCtlMod Kernel.watch
  simp only [hd, if_neg hv]
  cases hi : w.kernel.interest dispatcher.getDescriptor with
  | none =>
    by_cases h0 : getEpollEvents dispatcher.getRequestedEvents = 0
    · refine ⟨enoent,?_⟩
      simp [h0, epollCtl, noteErrno, ← hi]
    · refine ⟨enoent,?_⟩
      have hi' : ((w.setKernel w.kernel).setErrno enoent).kernel.interest dispatcher.getDescriptor = none := hi
      simp only [epollCtl, noteErrno, Kernel.epollCtlAdd, hi', h0, ne_eq, not_false_eq_true, and_self, if_true,
        and_false, if_false]
      rfl
  | some x =>
    refine ⟨w.errno,?_⟩
    simp [epollCtl, noteErrno, setKernel, setErrno]

theorem removeEpoll_eq {dispatcher : Dispatcher} (hd : w.dispatchers p = some dispatcher)
    (hv : dispatcher.getDescriptor ≠ invalidSocket) :
    ∃ e, w.removeEpoll p = (w.setKernel (w.kernel.watch dispatcher.getDescriptor none)).setErrno e := by
  unfold removeEpoll
  simp only [hd, if_neg hv]
  obtain ⟨e,he⟩ := w.epollCtl_eq (w.kernel.epollCtlDel dispatcher.getDescriptor)
  refine ⟨e,?_⟩
  rw [he, Kernel.epollCtlDel]
  split
  · rename_i hi
    rw [← hi, Kernel.watch_self]
  · rfl

/-- AddEpoll on a descriptor that epoll does not know. -/
theorem addEpoll_eq {dispatcher : Dispatcher} (hd : w.dispatchers p = some dispatcher)
    (hv : dispatcher.getDescriptor ≠ invalidSocket) (hi : w.kernel.interest dispatcher.getDescriptor = none)
    (key : Key) : w.addEpoll p key = w.setKernel (w.kernel.watch dispatcher.getDescriptor
      (if getEpollEvents dispatcher.getRequestedEvents = 0 then none
        else some ⟨getEpollEvents dispatcher.getRequestedEvents,key⟩)) := by
  unfold addEpoll Kernel.epollCtlAdd
  simp only [hd, if_neg hv, hi]
  split
  · rw [← hi, Kernel.watch_self]
    rfl
  · rfl

theorem update_eq (h : w.slotAt p = some c) (hc : ∀ k, c.key = some k → c.fd ≠ invalidSocket) :
    ∃ e, w.update p = (w.putSlot p c.update).setErrno e := by
  obtain ⟨hd,hk,he⟩ := slotAt_eq_some_iff.mp h
  unfold update Slot.update
  cases hc' : c.key with
  | none => exact ⟨w.errno,by simp only [hk, hc', putSlot_slotAt h, setErrno_errno]⟩
  | some k =>
    obtain ⟨e,hu⟩ := updateEpoll_eq hd (hc k hc') k
    refine ⟨e,?_⟩
    simp only [hk, hc', hu]
    rw [show w.kernel.interest c.dispatcher.getDescriptor = c.entry from he]
    simp [putSlot, setKernel, ← hd, ← hk, ← hc', Slot.fd]
    rfl

theorem setSocket_eq {d d' : SocketDispatcher} (h : w.slotAt p = some c) (hc : c.dispatcher = .socket d)
    (hs : d'.s = d.s) : w.setSocket p d' = w.putSlot p { c with dispatcher := .socket d' } := by
  obtain ⟨hd,hk,he⟩ := slotAt_eq_some_iff.mp h
  have hf : Slot.fd { c with dispatcher := .socket d' } = c.fd := by
    simp [Slot.fd, hc, Dispatcher.getDescriptor, hs]
  rw [putSlot, hf, ← hk, ← he, Kernel.watch_self, Function.update_eq_self]
  rfl

theorem mayBeUpdateDispatcher_eq (h : w.slotAt p = some c) (hc : ∀ k, c.key = some k → c.fd ≠ invalidSocket)
    (oldEvents : EventMask) :
    ∃ e, w.mayBeUpdateDispatcher p oldEvents = (w.putSlot p (c.mayBeUpdate oldEvents)).setErrno e := by
  obtain ⟨hd,-,-⟩ := slotAt_eq_some_iff.mp h
  unfold mayBeUpdateDispatcher Slot.mayBeUpdate socketAt
  cases hc' : c.dispatcher with
  | signaler afd => exact ⟨w.errno,by simp [hd, hc', putSlot_slotAt h, setErrno_errno]⟩
  | socket d =>
    simp only [hd, hc']
    split
    · exact update_eq h hc
    · exact ⟨w.errno,by rw [putSlot_slotAt h, setErrno_errno]⟩

theorem changeEvents_eq (h : w.slotAt p = some c) (hc : ∀ k, c.key = some k → c.fd ≠ invalidSocket)
    (f : EventMask → EventMask) : ∃ e, w.changeEvents p f = (w.putSlot p (c.changeEvents f)).setErrno e := by
  obtain ⟨hd,-,-⟩ := slotAt_eq_some_iff.mp h
  unfold changeEvents Slot.changeEvents Slot.modify socketAt
  cases hc' : c.dispatcher with
  | signaler afd => exact ⟨w.errno,by simp [hd, hc', putSlot_slotAt h, setErrno_errno]⟩
  | socket d =>
    simp only [hd, hc']
    have hf : Slot.fd { c with dispatcher := .socket { d with enabledEvents := f d.enabledEvents } } = c.fd := by
      simp [Slot.fd, hc', Dispatcher.getDescriptor]
    have hset : w.setSocket p { d with enabledEvents := f d.enabledEvents } =
        w.putSlot p { c with dispatcher := .socket { d with enabledEvents := f d.enabledEvents } } :=
      setSocket_eq h hc' rfl
    obtain ⟨e,he⟩ := mayBeUpdateDispatcher_eq (slotAt_putSlot (w := w) (p := p)
      (c := { c with dispatcher := .socket { d with enabledEvents := f d.enabledEvents } }))
      (fun k hk => hf.trans_ne (hc k hk)) d.enabledEvents
    refine ⟨e,?_⟩
    rw [hset, he, putSlot_putSlot]
    simp

/-- The system calls of ProcessEvents leave something in errno. -/
theorem probe_eq (w : World) (dispatcher : Dispatcher) (readable errorEvent checkError : Bool) (so : Except Errno Errno)
    (peek : Except Errno Nat) : ∃ e, w.probe dispatcher readable errorEvent checkError so peek = w.setErrno e := by
  have hn {α : Type} (w : World) (res : Except Errno α) : ∃ e, w.noteErrno res = w.setErrno e := by
    cases res with
    | ok _ => exact ⟨w.errno,rfl⟩
    | error e => exact ⟨e,rfl⟩
  have hso : ∃ e, (if checkError then w.noteErrno so else w) = w.setErrno e := by
    split
    · exact hn w so
    · exact ⟨w.errno,rfl⟩
  obtain ⟨e,he⟩ := hso
  unfold probe
  rw [he]
  cases dispatcher with
  | signaler afd => exact ⟨e,rfl⟩
  | socket d =>
    dsimp only
    split
    · exact hn (w.setErrno e) peek
    · exact ⟨e,rfl⟩

end World
end UServer.Net
