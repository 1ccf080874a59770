import UServer.Net.OperationWrites
import UServer.Library.Lookup

/-! What one step of the loop thread can do, said once: a call of the application, a
report, one event of a batch, or one stage of OnEvent. -/
namespace UServer.Net
open Library

/-- A step of OnEvent on the slot of its dispatcher, which keeps the registry. -/
structure Turn (p : Ptr) (c c' : Slot) (evs : List Event) (w w' : World) : Prop where
  before : w.slotAt p = some c
  after : w'.slotAt p = some c'
  frame : Frame p w w'
  trace : w'.trace = evs ++ w.trace
  server : w'.server = w.server

/-- The state_ that OnEvent(ff) leaves before its first signal. -/
def onEventState (ff : EventMask) (state : ConnState) : ConnState :=
  if has ff deClose then .closed else if has ff deConnect then .connected else state

inductive LoopTurn (P : Policy) : LoopState → Action → LoopState → Prop
  | op {w : World} {control : Control} {o : Op} (hcan : control.canCall = true) (hr : w.ready control.busy o = true)
      (ha : o.allowed P w = true) (hw : Writes P control.busy w (w.exec o)) : LoopTurn P ⟨w,control⟩ (.op o) ⟨w.exec o,control⟩
  | report {w : World} {evs : List (Fd × EpollMask)} (hr : reportReady w.kernel evs = true) :
      LoopTurn P ⟨w,.idle⟩ (.report evs) ⟨w.log (.reported ((evs.filterMap (reportOne w.kernel)).map PendingEvent.key)),
        .batch (evs.filterMap (reportOne w.kernel))⟩
  | skip {w : World} {ev : PendingEvent} {rest : List PendingEvent} {so : Except Errno Errno}
      {peek : Except Errno Nat} (hn : w.server.dispatcherByKey ev.key = none) :
      LoopTurn P ⟨w,.batch (ev :: rest)⟩ (.next so peek) ⟨w,.batch rest⟩
  | pass {w : World} {ev : PendingEvent} {rest : List PendingEvent} {p : Ptr} {so : Except Errno Errno}
      {peek : Except Errno Nat} (e : Errno) (hp : w.server.dispatcherByKey ev.key = some p) :
      LoopTurn P ⟨w,.batch (ev :: rest)⟩ (.next so peek) ⟨(w.setErrno e).log (.processed ev.key p),.batch rest⟩
  | start {w w' : World} {ev : PendingEvent} {rest : List PendingEvent} {p : Ptr} {d : SocketDispatcher}
      {x : Option EpollEntry} {so : Except Errno Errno} {peek : Except Errno Nat} {ff : EventMask} {err : Errno}
      (hp : w.server.dispatcherByKey ev.key = some p)
      (hff : processEvents (.socket d) (has ev.events (epollIn ||| epollPri)) (has ev.events epollOut)
        (has ev.events (epollRdHup ||| epollErr ||| epollHup)) (has ev.events (epollRdHup ||| epollErr ||| epollHup))
        so peek = (ff,err))
      (ht : Turn p ⟨.socket d,some ev.key,x⟩ ⟨.socket
          { d with state := onEventState ff d.state, savedEnabledEvents := some d.enabledEvents },some ev.key,x⟩
        [.onEvent ev.key p ff d.enabledEvents,.processed ev.key p] w w') :
      LoopTurn P ⟨w,.batch (ev :: rest)⟩ (.next so peek) ⟨w',.onEvent rest ev.key p ff err false onEventStages⟩
  | done {w : World} {so : Except Errno Errno} {peek : Except Errno Nat} :
      LoopTurn P ⟨w,.batch []⟩ (.next so peek) ⟨w,.idle⟩
  | emit {w w' : World} {rest : List PendingEvent} {key : Key} {p : Ptr} {ff : EventMask} {err : Errno}
      {handler : Bool} {signal : EventMask} {todo : List EventMask} {d : SocketDispatcher} {κ : Option Key}
      {x : Option EpollEntry} (hs : has ff signal = true)
      (ht : Turn p ⟨.socket d,κ,x⟩ (Slot.changeEvents ⟨.socket d,κ,x⟩ (· &&& ~~~signal)) [.emitted p signal] w w') :
      LoopTurn P ⟨w,.onEvent rest key p ff err handler (signal :: todo)⟩ .advance ⟨w',.onEvent rest key p ff err true todo⟩
  | passBy {w : World} {rest : List PendingEvent} {key : Key} {p : Ptr} {ff : EventMask} {err : Errno}
      {handler : Bool} {signal : EventMask} {todo : List EventMask} (hs : has ff signal = false) :
      LoopTurn P ⟨w,.onEvent rest key p ff err handler (signal :: todo)⟩ .advance ⟨w,.onEvent rest key p ff err false todo⟩
  | finish {w w' : World} {rest : List PendingEvent} {key : Key} {p : Ptr} {ff : EventMask} {err : Errno}
      {handler : Bool} {d : SocketDispatcher} {κ : Option Key} {x : Option EpollEntry}
      (ht : Turn p ⟨.socket d,κ,x⟩ (Slot.mayBeUpdate ⟨.socket { d with savedEnabledEvents := none },κ,x⟩
        (d.savedEnabledEvents.getD 0xFF)) [] w w') :
      LoopTurn P ⟨w,.onEvent rest key p ff err handler []⟩ .advance ⟨w',.batch rest⟩

/-- The key that finds a dispatcher is the one it has. -/
def Linked (w : World) : Prop := ∀ k p, w.server.dispatcherByKey k = some p → w.server.keyByDispatcher p = some k

structure Sound (s : LoopState) : Prop where
  owned : Owned s.world s.control.busy
  linked : Linked s.world

namespace Owned
variable {w : World} {busy : Option Ptr} {p : Ptr}

/-- What is registered is there. -/
theorem slotAt_of_key (hO : Owned w busy) {k : Key} (h : w.server.keyByDispatcher p = some k) :
    ∃ d x, w.slotAt p = some ⟨d,some k,x⟩ := by
  cases hc : w.slotAt p with
  | none =>
    rw [(hO.vacant p hc).1] at h
    cases h
  | some c =>
    obtain ⟨d,κ,x⟩ := c
    cases h.symm.trans (World.slotAt_eq_some_iff.mp hc).2.1
    exact ⟨d,x,rfl⟩

/-- The dispatcher whose OnEvent runs is a live socket with a snapshot. -/
theorem slotAt_of_busy (hO : Owned w busy) (h : busy = some p) :
    ∃ d κ x, w.slotAt p = some ⟨.socket d,κ,x⟩ ∧ d.savedEnabledEvents ≠ none := by
  cases hc : w.slotAt p with
  | none => exact absurd h (hO.vacant p hc).2
  | some c =>
    obtain ⟨d,κ,x⟩ := c
    have hok := hO.ok p _ hc
    cases d with
    | signaler afd => exact absurd h (hok.signaler afd rfl)
    | socket d => exact ⟨d,κ,x,rfl,(hok.batch d rfl).mpr h⟩

end Owned

namespace Write
variable {P : Policy} {busy : Option Ptr} {p : Ptr} {evs : List Event} {w w' : World}

/-- A write registers an unregistered dispatcher, takes out a registered one, or keeps the registry. -/
theorem server_cases (h : Write P busy p evs w w') :
    (w'.server = w.server ∧ ∀ k q, .added k q ∉ evs ∧ .removed k q ∉ evs) ∨
    (w.server.keyByDispatcher p = none ∧ evs = [.added w.server.nextDispatcherKey p] ∧
      w'.server = w.server.replay (.added w.server.nextDispatcherKey p)) ∨
    ∃ k, w.server.keyByDispatcher p = some k ∧ evs = [.removed k p] ∧ w'.server = w.server.replay (.removed k p) := by
  obtain ⟨-,hs,-,hsrv,hi⟩ := h
  have hkey {c : Slot} (hc : w.slotAt p = some c) : w.server.keyByDispatcher p = c.key :=
    (World.slotAt_eq_some_iff.mp hc).2.1
  generalize hx : w.slotAt p = x at hs
  generalize w'.slotAt p = x' at hs
  cases hs with
  | add c k d hc hk hv ha =>
    cases hi k p (by simp)
    exact .inr (.inl ⟨(hkey hx).trans hk,rfl,hsrv⟩)
  | retire d k x => exact .inr (.inr ⟨k,hkey hx,rfl,hsrv⟩)
  | remove c k hk hd => exact .inr (.inr ⟨k,(hkey hx).trans hk,rfl,hsrv⟩)
  | _ => exact .inl ⟨hsrv,by simp⟩

theorem linked (h : Write P busy p evs w w') (hl : Linked w) : Linked w' := by
  have hl : Retraces w.server.dispatcherByKey w.server.keyByDispatcher := hl
  rw [Linked]
  rcases h.server_cases with ⟨hs,-⟩ | ⟨hn,-,hs⟩ | ⟨k,hk,-,hs⟩
  · rw [hs]
    exact hl
  · rw [hs]
    simp only [PhysicalSocketServer.replay, World.emplace_of_none hn]
    rw [emplace]
    split
    · exact hl.update_right hn
    · exact hl.insert hn
  · rw [hs]
    exact hl.erase hk

end Write

theorem Writes.sound {P : Policy} {busy : Option Ptr} {w w' : World} (h : Writes P busy w w') (hO : Owned w busy)
    (hl : Linked w) : Owned w' busy ∧ Linked w' := by
  induction h with
  | refl => exact ⟨hO,hl⟩
  | tail _ hw ih =>
    obtain ⟨p,evs,hw⟩ := hw
    exact ⟨hw.owned ih.1,hw.linked ih.2⟩

theorem Owned.setErrno {w : World} {busy : Option Ptr} (hO : Owned w busy) (e : Errno) : Owned (w.setErrno e) busy := by
  obtain ⟨ok,vacant,isOpen,distinct,held⟩ := hO
  exact ⟨ok,vacant,isOpen,distinct,held⟩

theorem Owned.log {w : World} {busy : Option Ptr} (hO : Owned w busy) (e : Event) : Owned (w.log e) busy := by
  obtain ⟨ok,vacant,isOpen,distinct,held⟩ := hO
  exact ⟨ok,vacant,isOpen,distinct,held⟩

namespace Turn
variable {p : Ptr} {c c' : Slot} {evs : List Event} {w w' : World} {busy busy' : Option Ptr}

theorem of_putSlot (hO : Owned w busy) (h : w.slotAt p = some c) (hf : c'.fd = c.fd) (hk : c'.key = c.key)
    (hok : c'.Ok (busy' = some p)) : Turn p c c' evs w { w.putSlot p c' with trace := evs ++ w.trace } := by
  have hkey := (World.slotAt_eq_some_iff.mp h).2.1
  set w' : World := { w.putSlot p c' with trace := evs ++ w.trace } with hw'
  have hs : w'.server = w.server := by
    simp [hw', World.putSlot, hk, ← hkey]
  have hd : w'.dispatchers = Function.update w.dispatchers p (some c'.dispatcher) := rfl
  obtain ⟨hc,hF⟩ := Frame.keep hO h hf (fun e he => hok.fd_ne he) hd rfl rfl
  exact ⟨h,hc,hF,rfl,hs⟩

/-- A turn may leave anything in errno. -/
theorem setErrno (h : Turn p c c' evs w w') (e : Errno) : Turn p c c' evs w (w'.setErrno e) where
  before := h.before
  after := h.after
  frame := ⟨h.frame.dispatchers,h.frame.keys,h.frame.kernel,h.frame.isOpen,h.frame.fresh,h.frame.dropped,
    h.frame.invalid⟩
  trace := h.trace
  server := h.server

theorem owned (h : Turn p c c' evs w w') (hO : Owned w busy) (hok : c'.Ok (busy' = some p))
    (hb : ∀ q, q ≠ p → (busy' = some q ↔ busy = some q)) : Owned w' busy' := by
  refine h.frame.owned hO (fun e he => ?_) (fun hn => ?_) hb
  · cases h.after.symm.trans he
    exact hok
  · cases h.after.symm.trans hn

end Turn

/-- The slots after a turn: the one it is about, and the others as they were. -/
theorem Turn.slot_cases {p q : Ptr} {c c' e : Slot} {evs : List Event} {w w' : World} {busy : Option Ptr}
    (h : Turn p c c' evs w w') (hO : Owned w busy) (he : w'.slotAt q = some e) :
    (q = p ∧ e = c') ∨ (q ≠ p ∧ w.slotAt q = some e) := by
  by_cases hq : q = p
  · subst hq
    exact .inl ⟨rfl,Option.some_inj.mp (he.symm.trans h.after)⟩
  · exact .inr ⟨hq,(h.frame.slotAt_ne hO hq).symm.trans he⟩

/-- The slot as OnEvent opens its batch. -/
private theorem started_ok {d : SocketDispatcher} {k : Key} {x : Option EpollEntry} {p : Ptr} (ff : EventMask)
    (h : Slot.Ok ⟨.socket d,some k,x⟩ (none = some p)) : Slot.Ok ⟨.socket
      { d with state := onEventState ff d.state, savedEnabledEvents := some d.enabledEvents },some k,x⟩
      (some p = some p) where
  valid k hk := h.valid k hk
  entry e he := h.entry e he
  batch _ hd := by
    cases hd
    simp
  signaler _ hd := nomatch hd

/-- The slot as OnEvent closes its batch. -/
private theorem finished_ok {d : SocketDispatcher} {κ : Option Key} {x : Option EpollEntry} {p : Ptr}
    (h : Slot.Ok ⟨.socket d,κ,x⟩ (some p = some p)) :
    Slot.Ok ⟨.socket { d with savedEnabledEvents := none },κ,x⟩ (none = some p) where
  valid k hk := h.valid k hk
  entry e he := h.entry e he
  batch _ hd := by
    cases hd
    simp
  signaler _ hd := nomatch hd

theorem LoopTurn.sound {P : Policy} {s s' : LoopState} {a : Action} (h : LoopTurn P s a s') (hs : Sound s) : Sound s' := by
  cases h with
  | op hcan hr ha hw =>
    obtain ⟨hO,hl⟩ := hw.sound hs.owned hs.linked
    exact ⟨hO,hl⟩
  | report hr => exact ⟨hs.owned.log _,hs.linked⟩
  | skip hn => exact ⟨hs.owned,hs.linked⟩
  | pass e hp => exact ⟨(hs.owned.setErrno e).log _,hs.linked⟩
  | start hp hff ht =>
    refine ⟨ht.owned hs.owned (started_ok _ (hs.owned.ok _ _ ht.before)) fun q hq => ?_,?_⟩
    · simpa [Control.busy] using hq.symm
    · intro k q
      rw [ht.server]
      exact hs.linked k q
  | done => exact ⟨hs.owned,hs.linked⟩
  | emit hb ht =>
    refine ⟨ht.owned hs.owned ((hs.owned.ok _ _ ht.before).changeEvents _) fun _ _ => Iff.rfl,?_⟩
    intro k q
    rw [ht.server]
    exact hs.linked k q
  | passBy hb => exact ⟨hs.owned,hs.linked⟩
  | finish ht =>
    refine ⟨ht.owned hs.owned ((finished_ok (hs.owned.ok _ _ ht.before)).mayBeUpdate _) fun q hq => ?_,?_⟩
    · simpa [Control.busy] using hq.symm
    · intro k q
      rw [ht.server]
      exact hs.linked k q

/-- The conditionals of OnEvent still ahead. -/
def Control.todo : Control → List EventMask
  | .onEvent _ _ _ _ _ _ todo => todo
  | _ => []

/-- They are always an end of all of them. -/
theorem LoopTurn.stages {P : Policy} {s s' : LoopState} {a : Action} (h : LoopTurn P s a s')
    (hi : s.control.todo <:+ onEventStages) : s'.control.todo <:+ onEventStages := by
  cases h with
  | op => exact hi
  | start => exact List.suffix_rfl
  | emit | passBy => exact (List.suffix_cons ..).trans hi
  | report | skip | pass | done | finish => exact List.nil_suffix

/-- The signal that the step emits, if any. -/
def Action.emits (s : LoopState) : Action → Option (Ptr × EventMask)
  | .advance =>
    match s.control with
    | .onEvent _ _ p ff _ _ (signal :: _) => if has ff signal then some (p, signal) else none
    | _ => none
  | _ => none

/-- What the policy demands of an action. -/
def Action.allowed (P : Policy) (s : LoopState) : Action → Bool
  | .op o => o.allowed P s.world
  | _ => true

def Within (P : Policy) (s : LoopState) (a : Action) : Prop := a.allowed P s = true

instance (P : Policy) (s : LoopState) (a : Action) : Decidable (Within P s a) :=
  inferInstanceAs (Decidable (a.allowed P s = true))

theorem startOnEvent_eq {w : World} {p : Ptr} {d : SocketDispatcher} {κ : Option Key} {x : Option EpollEntry}
    (hc : w.slotAt p = some ⟨.socket d,κ,x⟩) (k : Key) (ff : EventMask) :
    w.startOnEvent k p d ff = (w.log (.onEvent k p ff d.enabledEvents)).putSlot p ⟨.socket
      { d with state := onEventState ff d.state, savedEnabledEvents := some d.enabledEvents },κ,x⟩ := by
  have hc' : (w.log (.onEvent k p ff d.enabledEvents)).slotAt p = some ⟨.socket d,κ,x⟩ := hc
  exact World.setSocket_eq hc' rfl rfl

private theorem start_turn {w : World} {p : Ptr} {d : SocketDispatcher} {k : Key} {x : Option EpollEntry}
    {ff : EventMask} (hO : Owned w none) (hc : w.slotAt p = some ⟨.socket d,some k,x⟩) (e : Errno) :
    Turn p ⟨.socket d,some k,x⟩ ⟨.socket
        { d with state := onEventState ff d.state, savedEnabledEvents := some d.enabledEvents },some k,x⟩
      [.onEvent k p ff d.enabledEvents,.processed k p] w
      (((w.setErrno e).log (.processed k p)).startOnEvent k p d ff) := by
  have hc' : ((w.setErrno e).log (.processed k p)).slotAt p = some ⟨.socket d,some k,x⟩ := hc
  rw [startOnEvent_eq hc' k ff]
  set c' : Slot := ⟨.socket
    { d with state := onEventState ff d.state, savedEnabledEvents := some d.enabledEvents },some k,x⟩ with hc'
  have hok : c'.Ok (some p = some p) := started_ok ff (hO.ok p _ hc)
  have ht : Turn p ⟨.socket d,some k,x⟩ c' [.onEvent k p ff d.enabledEvents,.processed k p] w _ :=
    Turn.of_putSlot hO hc rfl rfl hok
  exact ht.setErrno e

private theorem emit_turn {w : World} {p : Ptr} {c : Slot} {ff signal : EventMask} (hO : Owned w (some p))
    (hc : w.slotAt p = some c) (hs : has ff signal = true) :
    Turn p c (c.changeEvents (· &&& ~~~signal)) [.emitted p signal] w (w.onEventStage p ff signal) := by
  have hok := hO.ok p c hc
  obtain ⟨e,hch⟩ := World.changeEvents_eq hc hok.valid (· &&& ~~~signal)
  have he : w.onEventStage p ff signal = World.setErrno { w.putSlot p (c.changeEvents (· &&& ~~~signal)) with
      trace := [.emitted p signal] ++ w.trace } e := by
    rw [World.onEventStage, if_pos hs, World.disableEvents, hch]
    rfl
  rw [he]
  refine Turn.setErrno ?_ e
  exact Turn.of_putSlot hO hc (c.changeEvents_fd _) (c.changeEvents_key _) (hok.changeEvents _)

theorem finishBatchedEventUpdates_eq {w : World} {p : Ptr} {d : SocketDispatcher} {κ : Option Key}
    {x : Option EpollEntry} (hc : w.slotAt p = some ⟨.socket d,κ,x⟩) (hv : ∀ k, κ = some k → d.s ≠ invalidSocket) :
    ∃ e, w.finishBatchedEventUpdates p = (w.putSlot p (Slot.mayBeUpdate
      ⟨.socket { d with savedEnabledEvents := none },κ,x⟩ (d.savedEnabledEvents.getD 0xFF))).setErrno e := by
  set c' : Slot := ⟨.socket { d with savedEnabledEvents := none },κ,x⟩ with hc'
  have hset : w.setSocket p { d with savedEnabledEvents := none } = w.putSlot p c' := World.setSocket_eq hc rfl rfl
  obtain ⟨e,he⟩ := World.mayBeUpdateDispatcher_eq (World.slotAt_putSlot (w := w) (p := p) (c := c')) hv
    (d.savedEnabledEvents.getD 0xFF)
  refine ⟨e,?_⟩
  rw [World.finishBatchedEventUpdates, World.socketAt_of_slotAt hc]
  dsimp only
  rw [hset, he, World.putSlot_putSlot]
  exact (Slot.mayBeUpdate_fd _ _).symm

theorem finish_turn {w : World} {p : Ptr} {d : SocketDispatcher} {κ : Option Key} {x : Option EpollEntry}
    (hO : Owned w (some p)) (hc : w.slotAt p = some ⟨.socket d,κ,x⟩) :
    Turn p ⟨.socket d,κ,x⟩ (Slot.mayBeUpdate ⟨.socket { d with savedEnabledEvents := none },κ,x⟩
      (d.savedEnabledEvents.getD 0xFF)) [] w (w.finishBatchedEventUpdates p) := by
  have hok := finished_ok (hO.ok p _ hc)
  obtain ⟨e,he⟩ := finishBatchedEventUpdates_eq hc hok.valid
  rw [he]
  refine Turn.setErrno ?_ e
  refine Turn.of_putSlot hO hc ?_ (Slot.mayBeUpdate_key _ _) (hok.mayBeUpdate _)
  exact Slot.mayBeUpdate_fd _ _

private theorem dispatchNext_turn {P : Policy} {w : World} {ev : PendingEvent} {rest : List PendingEvent}
    {so : Except Errno Errno} {peek : Except Errno Nat} {s' : LoopState} (hs : Sound ⟨w,.batch (ev :: rest)⟩)
    (h : dispatchNext w ev rest so peek = some s') : LoopTurn P ⟨w,.batch (ev :: rest)⟩ (.next so peek) s' := by
  unfold dispatchNext at h
  cases hp : w.server.dispatcherByKey ev.key with
  | none =>
    simp only [hp, Option.some_inj] at h
    exact h ▸ .skip hp
  | some p =>
    obtain ⟨D,x,hc⟩ := hs.owned.slotAt_of_key (hs.linked _ _ hp)
    have hd : w.dispatchers p = some D := (World.slotAt_eq_some_iff.mp hc).1
    have herr := w.probe_eq D (has ev.events (epollIn ||| epollPri)) (has ev.events (epollRdHup ||| epollErr ||| epollHup))
      (has ev.events (epollRdHup ||| epollErr ||| epollHup)) so peek
    obtain ⟨e,he⟩ := herr
    simp only [hp, hd, he] at h
    split at h
    · cases h
      exact .pass e hp
    · cases D with
      | signaler afd =>
        cases h
        exact .pass e hp
      | socket d =>
        cases h
        exact .start hp rfl (start_turn hs.owned hc e)

/-- Every step of the loop is a turn: no step ever reaches a dispatcher that is gone. -/
theorem loopStep_turn {P : Policy} (hP : ∀ events, P.adds events none = true) {s s' : LoopState} {a : Action}
    (hs : Sound s) (ha : Within P s a) (h : loopStep s a = some s') : LoopTurn P s a s' := by
  obtain ⟨w,control⟩ := s
  cases a with
  | op o =>
    simp only [loopStep] at h
    split at h
    · rename_i hr
      cases h
      obtain ⟨hcan,hr⟩ := Bool.and_eq_true_iff.mp hr
      exact .op hcan hr ha (World.evolves_exec hP hr ha hs.owned).2
    · cases h
  | report evs =>
    simp only [loopStep] at h
    split at h
    · split at h
      · rename_i hr
        cases h
        exact .report hr
      · cases h
    · cases h
  | next so peek =>
    simp only [loopStep] at h
    split at h
    · exact dispatchNext_turn hs h
    · cases h
      exact .done
    · cases h
  | advance =>
    cases control with
    | idle => cases h
    | batch rest => cases h
    | onEvent rest key p ff err handler todo =>
      obtain ⟨d,κ,x,hc,-⟩ := hs.owned.slotAt_of_busy rfl
      cases todo with
      | nil =>
        cases h
        exact .finish (finish_turn hs.owned hc)
      | cons signal todo =>
        cases h
        cases hsig : has ff signal with
        | true => exact .emit hsig (emit_turn hs.owned hc hsig)
        | false =>
          have he : w.onEventStage p ff signal = w := by
            simp [World.onEventStage, hsig]
          rw [he]
          exact .passBy hsig

/-- The world of the constructor, written out. -/
theorem World.start_eq {afd : Fd} (h : 0 ≤ afd) (p : Ptr) : World.start p afd =
    { dispatchers := Function.update (fun _ => none) p (some (.signaler afd))
      server := ⟨1,Function.update (fun _ => none) 0 (some p),Function.update (fun _ => none) p (some 0)⟩
      kernel := ⟨Function.update (fun _ => false) afd true,Function.update (fun _ => none) afd (some ⟨epollIn,0⟩)⟩
      errno := 0
      trace := [.added 0 p,.opened afd] } := by
  have hv : afd ≠ invalidSocket := by
    rintro rfl
    exact absurd h (by decide)
  have he : getEpollEvents deRead = epollIn := by decide
  have hn : ¬epollIn = 0#32 := by decide
  simp [World.start, World.add, World.register, World.addEpoll, World.openFd, World.setKernel, World.setDispatcher,
    World.log, World.epollCtl, World.noteErrno, Kernel.openFd, Kernel.epollCtlAdd, emplace, Dispatcher.getDescriptor,
    Dispatcher.getRequestedEvents, hv, he, hn]

theorem start_slotAt {afd : Fd} (h : 0 ≤ afd) (p q : Ptr) : (World.start p afd).slotAt q =
    if q = p then some ⟨.signaler afd,some 0,some ⟨epollIn,0⟩⟩ else none := by
  rw [World.start_eq h]
  split
  · rename_i hq
    rw [World.slotAt_eq_some_iff]
    simp [hq, Slot.fd, Dispatcher.getDescriptor]
  · rename_i hq
    simp [World.slotAt, hq]

private theorem start_owned {afd : Fd} (h : 0 ≤ afd) (p : Ptr) : Owned (World.start p afd) none := by
  have hv : afd ≠ invalidSocket := by
    rintro rfl
    exact absurd h (by decide)
  have hslot {q : Ptr} {c : Slot} (hc : (World.start p afd).slotAt q = some c) :
      q = p ∧ c = ⟨.signaler afd,some 0,some ⟨epollIn,0⟩⟩ := by
    rw [start_slotAt h] at hc
    split at hc
    · exact ⟨by assumption,(Option.some_inj.mp hc).symm⟩
    · cases hc
  constructor
  case ok =>
    intro q c hc
    obtain ⟨-,rfl⟩ := hslot hc
    exact ⟨fun _ _ => hv,fun e he => by cases he; rfl,nofun,nofun⟩
  case vacant =>
    intro q hc
    rw [start_slotAt h] at hc
    split at hc
    · cases hc
    · rename_i hq
      rw [World.start_eq h]
      exact ⟨by simp [hq],nofun⟩
  case isOpen =>
    intro q c hc _
    obtain ⟨-,rfl⟩ := hslot hc
    rw [World.start_eq h]
    simp [Slot.fd, Dispatcher.getDescriptor]
  case distinct =>
    intro q r c e hc he _ _
    exact (hslot hc).1.trans (hslot he).1.symm
  case held =>
    intro fd x hx
    rw [World.start_eq h] at hx
    dsimp only at hx
    have hf : fd = afd := by
      rcases update_some_cases hx with ⟨hf,-⟩ | ⟨-,hx⟩
      · exact hf
      · cases hx
    exact ⟨hf ▸ hv,p,_,(start_slotAt h p p).trans (if_pos rfl),hf.symm⟩

private theorem start_linked {afd : Fd} (h : 0 ≤ afd) (p : Ptr) : Linked (World.start p afd) := by
  rw [Linked, World.start_eq h]
  exact (Retraces.empty _).insert rfl

theorem sound_start {afd : Fd} (h : 0 ≤ afd) (p : Ptr) : Sound ⟨World.start p afd,.idle⟩ :=
  ⟨start_owned h p,start_linked h p⟩

theorem init_start {afd : Fd} (p : Ptr) (h : 0 ≤ afd) : loopMachine.init ⟨World.start p afd,.idle⟩ := ⟨p,afd,h,rfl⟩

/-- An invariant of every run within a policy: it holds of the constructor's state, and a
turn from a sound state keeps it. -/
theorem loop_rule {P : Policy} (hP : ∀ events, P.adds events none = true) {s : LoopState}
    (h : loopMachine.Reachable (Within P) s) {I : LoopState → Prop}
    (h₀ : ∀ p afd, 0 ≤ afd → I ⟨World.start p afd,.idle⟩)
    (hstep : ∀ s a s', Sound s → I s → LoopTurn P s a s' → I s') : Sound s ∧ I s := by
  refine Machine.Reachable.rule (I := fun s => Sound s ∧ I s) h ?_ ?_
  · rintro s ⟨p,afd,ha,rfl⟩
    exact ⟨sound_start ha p,h₀ p afd ha⟩
  · rintro s a u ⟨hs,hi⟩ ha he
    have ht := loopStep_turn hP hs ha he
    exact ⟨ht.sound hs,hstep s a u hs hi ht⟩

end UServer.Net
