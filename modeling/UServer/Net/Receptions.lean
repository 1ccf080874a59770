import UServer.Net.LoopTurns

/-! What the events of epoll make of one dispatcher whose handlers call nothing, and which signals it emits: the same
for two dispatchers that differ in the descriptor, the key and the last error alone. -/
namespace UServer.Net
open Library

/-- What happens to a descriptor, with the answers of getsockopt for SO_ERROR and of recv with MSG_PEEK. -/
structure Readiness where
  events : EpollMask
  so : Except Errno Errno
  peek : Except Errno Nat

/-- ProcessPollEvents up to its call of OnEvent. -/
def processPollEvents (dispatcher : Dispatcher) (r : Readiness) : EventMask × Errno :=
  let error := has r.events (epollRdHup ||| epollErr ||| epollHup)
  processEvents dispatcher (has r.events (epollIn ||| epollPri)) (has r.events epollOut) error error r.so r.peek

namespace World

/-- errno after its system calls. -/
def probePoll (w : World) (dispatcher : Dispatcher) (r : Readiness) : World :=
  let error := has r.events (epollRdHup ||| epollErr ||| epollHup)
  w.probe dispatcher (has r.events (epollIn ||| epollPri)) error error r.so r.peek

theorem probePoll_eq (w : World) (dispatcher : Dispatcher) (r : Readiness) :
    ∃ e, w.probePoll dispatcher r = w.setErrno e := probe_eq ..

/-- OnEvent, with handlers that call nothing. -/
def onEvent (w : World) (key : Key) (p : Ptr) (d : SocketDispatcher) (ff : EventMask) : World :=
  (onEventStages.foldl (fun w signal => w.onEventStage p ff signal)
    (w.startOnEvent key p d ff)).finishBatchedEventUpdates p

/-- A readiness of the dispatcher's descriptor, from the report of epoll to the end of OnEvent; none if epoll does
not report it. -/
def receive (w : World) (p : Ptr) (r : Readiness) : Option (World × EventMask × Errno) :=
  match w.socketAt p with
  | none => none
  | some d =>
    (reportOne w.kernel (d.s,r.events)).map fun ev =>
      let out := processPollEvents (.socket d) r
      let w := (w.probePoll (.socket d) r).log (.processed ev.key p)
      (if out.1 = 0 then w else w.onEvent ev.key p d out.1,out)

/-- The arguments of OnEvent, and so the signals emitted, for each readiness in turn. -/
def receptions (w : World) (p : Ptr) : List Readiness → List (Option (EventMask × Errno))
  | [] => []
  | r :: rs =>
    match w.receive p r with
    | none => none :: receptions w p rs
    | some (w',out) => some out :: receptions w' p rs

end World

/-- The loop thread takes an event of the batch through OnEvent in this way. -/
theorem run_onEvent {w : World} {ev : PendingEvent} {rest : List PendingEvent} {p : Ptr} {d : SocketDispatcher}
    {so : Except Errno Errno} {peek : Except Errno Nat} (hp : w.server.dispatcherByKey ev.key = some p)
    (hd : w.dispatchers p = some (.socket d)) (hff : (processPollEvents (.socket d) ⟨ev.events,so,peek⟩).1 ≠ 0) :
    loopMachine.run Machine.Free ⟨w,.batch (ev :: rest)⟩
        [.next so peek, .advance, .advance, .advance, .advance, .advance, .advance] =
      some ⟨((w.probePoll (.socket d) ⟨ev.events,so,peek⟩).log (.processed ev.key p)).onEvent ev.key p d
        (processPollEvents (.socket d) ⟨ev.events,so,peek⟩).1,.batch rest⟩ := by
  have hnext : loopStep ⟨w,.batch (ev :: rest)⟩ (.next so peek) =
      some ⟨((w.probePoll (.socket d) ⟨ev.events,so,peek⟩).log (.processed ev.key p)).startOnEvent ev.key p d
          (processPollEvents (.socket d) ⟨ev.events,so,peek⟩).1,
        .onEvent rest ev.key p (processPollEvents (.socket d) ⟨ev.events,so,peek⟩).1
          (processPollEvents (.socket d) ⟨ev.events,so,peek⟩).2 false onEventStages⟩ := by
    simp only [loopStep, dispatchNext, hp, hd]
    exact if_neg hff
  simp only [Machine.run, loopMachine, hnext, Option.bind_some]
  rfl

namespace Slot

/-- The state_ and the snapshot that OnEvent(ff) sets before its first signal. -/
def start (ff : EventMask) (c : Slot) : Slot :=
  c.modify fun d => { d with state := onEventState ff d.state, savedEnabledEvents := some d.enabledEvents }

def stage (ff : EventMask) (c : Slot) (signal : EventMask) : Slot :=
  if has ff signal then c.changeEvents (· &&& ~~~signal) else c

def finish (c : Slot) : Slot :=
  match c.dispatcher with
  | .signaler _ => c
  | .socket d => Slot.mayBeUpdate { c with dispatcher := .socket { d with savedEnabledEvents := none } }
      (d.savedEnabledEvents.getD 0xFF)

def onEvent (ff : EventMask) (c : Slot) : Slot := finish (onEventStages.foldl (stage ff) (start ff c))

def receive (c : Slot) (r : Readiness) : Option (Slot × EventMask × Errno) :=
  match c.entry with
  | none => none
  | some e =>
    if r.events ≠ 0 ∧ r.events &&& ~~~(e.events ||| epollErr ||| epollHup) = 0 then
      let out := processPollEvents c.dispatcher r
      some (if out.1 = 0 then c else c.onEvent out.1,out)
    else none

def receptions (c : Slot) : List Readiness → List (Option (EventMask × Errno))
  | [] => []
  | r :: rs =>
    match c.receive r with
    | none => none :: receptions c rs
    | some (c',out) => some out :: receptions c' rs

/-- Two registered sockets that differ in the descriptor, the key and the last error alone. -/
inductive Like : Slot → Slot → Prop
  | mk {d₁ d₂ : SocketDispatcher} {k₁ k₂ : Key} {x₁ x₂ : Option EpollEntry} (h₁ : d₁.s ≠ invalidSocket)
      (h₂ : d₂.s ≠ invalidSocket) (state : d₁.state = d₂.state) (udp : d₁.udp = d₂.udp) (family : d₁.family = d₂.family)
      (enabled : d₁.enabledEvents = d₂.enabledEvents) (saved : d₁.savedEnabledEvents = d₂.savedEnabledEvents)
      (entry : x₁.map EpollEntry.events = x₂.map EpollEntry.events) :
      Like ⟨.socket d₁,some k₁,x₁⟩ ⟨.socket d₂,some k₂,x₂⟩

namespace Like
variable {c₁ c₂ : Slot}

theorem update (h : Like c₁ c₂) : Like c₁.update c₂.update := by
  cases h with
  | @mk d₁ d₂ k₁ k₂ x₁ x₂ h₁ h₂ state udp family enabled saved entry =>
    have hn : x₁ = none ↔ x₂ = none := by
      rw [← Option.map_eq_none_iff (f := EpollEntry.events), entry, Option.map_eq_none_iff]
    have he : getEpollEvents d₁.enabledEvents = getEpollEvents d₂.enabledEvents := congrArg getEpollEvents enabled
    refine .mk h₁ h₂ state udp family enabled saved ?_
    change (if x₁ = none ∧ getEpollEvents d₁.enabledEvents = 0 then none
        else some ⟨getEpollEvents d₁.enabledEvents,k₁⟩ : Option EpollEntry).map EpollEntry.events =
      (if x₂ = none ∧ getEpollEvents d₂.enabledEvents = 0 then none
        else some ⟨getEpollEvents d₂.enabledEvents,k₂⟩ : Option EpollEntry).map EpollEntry.events
    simp only [hn, he]
    by_cases hz : x₂ = none ∧ getEpollEvents d₂.enabledEvents = 0
    · rw [if_pos hz, if_pos hz]
    · rw [if_neg hz, if_neg hz]
      rfl

theorem mayBeUpdate (h : Like c₁ c₂) (oldEvents : EventMask) :
    Like (c₁.mayBeUpdate oldEvents) (c₂.mayBeUpdate oldEvents) := by
  have hu := h.update
  cases h with
  | mk h₁ h₂ state udp family enabled saved entry =>
    simp only [Slot.mayBeUpdate, enabled, saved]
    split
    · exact hu
    · exact .mk h₁ h₂ state udp family enabled saved entry

theorem changeEvents (h : Like c₁ c₂) (f : EventMask → EventMask) : Like (c₁.changeEvents f) (c₂.changeEvents f) := by
  cases h with
  | mk h₁ h₂ state udp family enabled saved entry =>
    rw [changeEvents_socket rfl, changeEvents_socket rfl, enabled]
    refine mayBeUpdate ?_ _
    exact .mk h₁ h₂ state udp family rfl saved entry

theorem start (h : Like c₁ c₂) (ff : EventMask) : Like (c₁.start ff) (c₂.start ff) := by
  cases h with
  | mk h₁ h₂ state udp family enabled saved entry =>
    exact .mk h₁ h₂ (congrArg (onEventState ff) state) udp family enabled (congrArg some enabled) entry

theorem stages (h : Like c₁ c₂) (ff : EventMask) (todo : List EventMask) :
    Like (todo.foldl (stage ff) c₁) (todo.foldl (stage ff) c₂) := by
  induction todo generalizing c₁ c₂ with
  | nil => exact h
  | cons signal todo ih =>
    refine ih ?_
    unfold stage
    split
    · exact h.changeEvents _
    · exact h

theorem finish (h : Like c₁ c₂) : Like c₁.finish c₂.finish := by
  cases h with
  | mk h₁ h₂ state udp family enabled saved entry =>
    simp only [Slot.finish, saved]
    refine mayBeUpdate ?_ _
    exact .mk h₁ h₂ state udp family enabled rfl entry

theorem onEvent (h : Like c₁ c₂) (ff : EventMask) : Like (c₁.onEvent ff) (c₂.onEvent ff) :=
  ((h.start ff).stages ff _).finish

theorem processPollEvents_eq (h : Like c₁ c₂) (r : Readiness) :
    processPollEvents c₁.dispatcher r = processPollEvents c₂.dispatcher r := by
  cases h with
  | @mk d₁ d₂ k₁ k₂ x₁ x₂ h₁ h₂ state udp family enabled saved entry =>
    have hreq : (Dispatcher.socket d₁).getRequestedEvents = (Dispatcher.socket d₂).getRequestedEvents := enabled
    have hclosed : (Dispatcher.socket d₁).isDescriptorClosed = (Dispatcher.socket d₂).isDescriptorClosed := by
      funext peek
      simp only [Dispatcher.isDescriptorClosed, udp, decide_eq_false h₁, decide_eq_false h₂]
    simp only [processPollEvents, processEvents, hreq, hclosed]

/-- The same readiness is received alike, or not at all by either. -/
theorem receive (h : Like c₁ c₂) (r : Readiness) : Option.Rel (fun a b => Like a.1 b.1 ∧ a.2 = b.2) (c₁.receive r)
    (c₂.receive r) := by
  have hp := h.processPollEvents_eq r
  have he : c₁.entry.map EpollEntry.events = c₂.entry.map EpollEntry.events := by
    cases h with
    | mk h₁ h₂ state udp family enabled saved entry => exact entry
  unfold Slot.receive
  cases hx₁ : c₁.entry with
  | none =>
    rw [hx₁, Option.map_none, eq_comm, Option.map_eq_none_iff] at he
    rw [he]
    exact .none
  | some e₁ =>
    rw [hx₁, Option.map_some, eq_comm, Option.map_eq_some_iff] at he
    obtain ⟨e₂,hx₂,he⟩ := he
    simp only [hx₂, he, hp]
    split
    · refine .some ⟨?_,rfl⟩
      split
      · exact h
      · exact h.onEvent _
    · exact .none

theorem receptions (h : Like c₁ c₂) (rs : List Readiness) : c₁.receptions rs = c₂.receptions rs := by
  induction rs generalizing c₁ c₂ with
  | nil => rfl
  | cons r rs ih =>
    unfold Slot.receptions
    have hr := h.receive r
    generalize c₁.receive r = x₁ at hr
    generalize c₂.receive r = x₂ at hr
    cases hr with
    | none => exact congrArg (none :: ·) (ih h)
    | some hab => exact congrArg₂ (fun out rest => some out :: rest) hab.2 (ih hab.1)

end Like
end Slot

namespace World
variable {w : World} {p : Ptr} {c : Slot}

theorem stages_slotAt (hc : w.slotAt p = some c) (hl : Slot.Like c c) (ff : EventMask) (todo : List EventMask) :
    (todo.foldl (fun w signal => w.onEventStage p ff signal) w).slotAt p = some (todo.foldl (Slot.stage ff) c) := by
  induction todo generalizing w c with
  | nil => exact hc
  | cons signal todo ih =>
    have hs : Slot.Like (Slot.stage ff c signal) (Slot.stage ff c signal) := hl.stages ff [signal]
    refine ih ?_ hs
    change (w.onEventStage p ff signal).slotAt p = some (Slot.stage ff c signal)
    unfold onEventStage Slot.stage
    split
    · have hv : ∀ k, c.key = some k → c.fd ≠ invalidSocket := by
        cases hl with
        | mk h₁ => exact fun _ _ => h₁
      obtain ⟨e,he⟩ := changeEvents_eq hc hv (· &&& ~~~signal)
      rw [disableEvents, he]
      exact slotAt_putSlot (w := w)
    · exact hc

/-- OnEvent acts on the dispatcher's slot. -/
theorem onEvent_slotAt {d : SocketDispatcher} {κ : Option Key} {x : Option EpollEntry}
    (hc : w.slotAt p = some ⟨.socket d,κ,x⟩) (hl : Slot.Like ⟨.socket d,κ,x⟩ ⟨.socket d,κ,x⟩) (key : Key)
    (ff : EventMask) :
    (w.onEvent key p d ff).slotAt p = some (Slot.onEvent ff ⟨.socket d,κ,x⟩) := by
  have hstart : (w.startOnEvent key p d ff).slotAt p = some (Slot.start ff ⟨.socket d,κ,x⟩) := by
    rw [startOnEvent_eq hc key ff]
    exact slotAt_putSlot
  have hs := stages_slotAt hstart (hl.start ff) ff onEventStages
  have hsl := (hl.start ff).stages ff onEventStages
  unfold onEvent Slot.onEvent
  generalize onEventStages.foldl (fun w signal => w.onEventStage p ff signal) (w.startOnEvent key p d ff) = v at hs
  generalize onEventStages.foldl (Slot.stage ff) (Slot.start ff ⟨.socket d,κ,x⟩) = e at hs hsl
  cases hsl with
  | mk h₁ =>
    obtain ⟨e,he⟩ := finishBatchedEventUpdates_eq hs fun _ _ => h₁
    rw [he, slotAt_setErrno]
    exact slotAt_putSlot

/-- What a dispatcher receives is what its slot receives. -/
theorem receive_slotAt (hc : w.slotAt p = some c) (hl : Slot.Like c c) (r : Readiness) :
    Option.Rel (fun a b => a.1.slotAt p = some b.1 ∧ a.2 = b.2) (w.receive p r) (c.receive r) := by
  obtain ⟨D,κ,x⟩ := c
  cases D with
  | signaler afd => cases hl
  | socket d =>
    have hi : w.kernel.interest d.s = x := (slotAt_eq_some_iff.mp hc).2.2
    unfold receive Slot.receive reportOne
    rw [socketAt_of_slotAt hc]
    dsimp only
    rw [hi]
    cases x with
    | none => exact .none
    | some e =>
      dsimp only
      by_cases hr : r.events ≠ 0 ∧ r.events &&& ~~~(e.events ||| epollErr ||| epollHup) = 0
      · rw [if_pos hr, if_pos hr]
        refine .some ⟨?_,rfl⟩
        have hc' : ((w.probePoll (.socket d) r).log (.processed e.key p)).slotAt p = some ⟨.socket d,κ,some e⟩ := by
          obtain ⟨e',he'⟩ := w.probePoll_eq (.socket d) r
          rw [he']
          exact hc
        dsimp only
        split
        · exact hc'
        · exact onEvent_slotAt hc' hl _ _
      · rw [if_neg hr, if_neg hr]
        exact .none

theorem receptions_slotAt (hc : w.slotAt p = some c) (hl : Slot.Like c c) (rs : List Readiness) :
    w.receptions p rs = c.receptions rs := by
  induction rs generalizing w c with
  | nil => rfl
  | cons r rs ih =>
    unfold receptions Slot.receptions
    have hr := receive_slotAt hc hl r
    have hl' := hl.receive r
    generalize w.receive p r = x₁ at hr
    generalize c.receive r = x₂ at hr hl'
    cases hr with
    | none => exact congrArg (none :: ·) (ih hc hl)
    | some hab =>
      cases hl' with
      | some hb => exact congrArg₂ (fun out rest => some out :: rest) hab.2 (ih hab.1 hb.1)

end World
end UServer.Net
