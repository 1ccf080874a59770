import UServer.Http.OrphanedConnections
import UServer.Http.ReadBuffer
import UServer.Http.SelfDeadlock

/-! What does OnEvent do for a client whose request has come in? It emits SignalReadEvent once, OnRead answers with
the whole response where there is room for it, and the client is left as it was found. -/
namespace UServer.Http
open Library Net

/-- A client that waits for data: open with DE_READ enabled, and no OnWrite connected. -/
structure Awaits (p : Ptr) (s : HttpServer) : Prop where
  reads : (s.slots p).read = some .onRead
  done : (s.slots p).write = 0
  isOpen : openAt s.world p = true
  armed : ArmedAt p s.world

theorem awaits_iff {p : Ptr} {s : HttpServer} : Awaits p s ↔ (s.slots p).read = some .onRead ∧ (s.slots p).write = 0 ∧
    (s.world.socketAt p).any (fun d => decide (d.s ≠ invalidSocket) && has d.enabledEvents deRead) = true := by
  constructor
  · rintro ⟨hr,hd,ho,ha⟩
    obtain ⟨d,hs,hv⟩ := openAt_iff.mp ho
    refine ⟨hr,hd,?_⟩
    rw [hs, Option.any_some, ha d hs hv, decide_eq_true hv]
    rfl
  · rintro ⟨hr,hd,ha⟩
    obtain ⟨d,hs,ha⟩ := (Option.any_eq_true _ _).mp ha
    obtain ⟨hv,ha⟩ := Bool.and_eq_true_iff.mp ha
    have hv := of_decide_eq_true hv
    exact ⟨hr,hd,openAt_iff.mpr ⟨d,hs,hv⟩,(ArmedAt.iff_of_open hs hv).mpr ha⟩

instance (p : Ptr) (s : HttpServer) : Decidable (Awaits p s) := decidable_of_iff _ awaits_iff.symm

/-- What the kernel answers while a request is handled: data on the client, and room for the whole response. -/
structure Request (response : Response) where
  so : Except Errno Errno
  pending : Nat
  readable : 0 < pending
  writable : Bool
  chunk : Chunk
  recvs : List RecvOutcome
  sends : List SendOutcome
  room : response.bytes.length ≤ leadingRoom sends

namespace Request
variable {response : Response} (r : Request response)

def answers : Answers := ⟨[],(RecvOutcome.data r.chunk :: r.recvs).map RecvOutcome.answer,r.sends⟩

/-- One event of a batch, from ProcessEvents to FinishBatchedEventUpdates. -/
def actions : List HttpAction :=
  .next r.so (.ok r.pending) :: (onEventStages.map (fun _ => .advance r.answers) ++ [.advance r.answers])

end Request

/-- The registry and the sockets at other addresses are left alone. -/
structure Spares (p : Ptr) (w w' : World) : Prop where
  others : ∀ q, q ≠ p → w'.socketAt q = w.socketAt q
  server : w'.server = w.server

namespace Spares
variable {p : Ptr} {w w' w'' : World}

theorem rfl : Spares p w w := ⟨fun _ _ => .refl _,.refl _⟩

theorem trans (h : Spares p w w') (h' : Spares p w' w'') : Spares p w w'' :=
  ⟨fun q hq => (h'.others q hq).trans (h.others q hq),h'.server.trans h.server⟩

theorem of_keeps (h : ∀ q, q ≠ p → Keeps id q w w') (hs : w'.server = w.server) : Spares p w w' :=
  ⟨fun q hq => (h q hq).socketAt,hs⟩

end Spares

section Server
variable {w : World} {p : Ptr}

theorem update_server : (w.update p).server = w.server := by
  unfold World.update World.updateEpoll
  split
  · rfl
  · split
    · rfl
    · dsimp only
      split
      · rfl
      · split
        · exact w.epollCtl_server _
        · split
          · exact (World.epollCtl_server _ _).trans (w.epollCtl_server _)
          · exact w.epollCtl_server _

theorem mayBeUpdateDispatcher_server (oldEvents : EventMask) :
    (w.mayBeUpdateDispatcher p oldEvents).server = w.server := by
  unfold World.mayBeUpdateDispatcher
  split
  · rfl
  · split
    · exact update_server
    · rfl

theorem changeEvents_server (f : EventMask → EventMask) : (w.changeEvents p f).server = w.server := by
  unfold World.changeEvents
  split
  · rfl
  · exact mayBeUpdateDispatcher_server _

theorem modifySocket_server (f : SocketDispatcher → SocketDispatcher) : (w.modifySocket p f).server = w.server := by
  unfold World.modifySocket
  split <;> rfl

theorem noteErrno_server {α : Type} (res : Except Errno α) : (w.noteErrno res).server = w.server := by
  cases res <;> rfl

theorem noteLastError_server {α : Type} (res : Except Errno α) :
    ((w.noteErrno res).updateLastError p).server = w.server := by
  rw [World.updateLastError, World.setError, modifySocket_server, noteErrno_server]

theorem send_server (cb : Nat) (res : Except Errno Nat) : (w.send p cb res).1.server = w.server := by
  have h := noteLastError_server (w := w) (p := p) (w.answer p res)
  unfold World.send
  dsimp only
  split
  · exact (changeEvents_server _).trans h
  · exact h

theorem recv_server (length : Nat) (res : Except Errno Nat) : (w.recv p length res).1.server = w.server := by
  have h := noteLastError_server (w := w) (p := p) (w.answer p res)
  unfold World.recv World.recvFrom
  split
  · exact (modifySocket_server _).trans (changeEvents_server _)
  · dsimp only
    split
    · exact h
    · dsimp only
      split
      · exact (changeEvents_server _).trans h
      · exact h

theorem onEventStage_server (ff signal : EventMask) : (w.onEventStage p ff signal).server = w.server := by
  unfold World.onEventStage
  split
  · exact changeEvents_server _
  · rfl

end Server

section World
variable {p : Ptr} {w : World}

theorem spares_send (cb : Nat) (res : Except Errno Nat) : Spares p w (w.send p cb res).1 :=
  .of_keeps (fun _ hq => World.keeps_send (.inl hq) cb res) (send_server cb res)

theorem spares_recv (length : Nat) (res : Except Errno Nat) : Spares p w (w.recv p length res).1 :=
  .of_keeps (fun _ hq => World.keeps_recv (.inl hq) length res) (recv_server length res)

theorem spares_onEventStage (ff signal : EventMask) : Spares p w (w.onEventStage p ff signal) :=
  .of_keeps (fun _ hq => World.keeps_onEventStage (.inl hq) ff signal) (onEventStage_server ff signal)

theorem spares_startOnEvent (key : Key) (d : SocketDispatcher) (ff : EventMask) : Spares p w (w.startOnEvent key p d ff) :=
  .of_keeps (fun _ hq => (World.keeps_log _).trans (World.keeps_setDispatcher hq _)) rfl

theorem spares_finishBatchedEventUpdates : Spares p w (w.finishBatchedEventUpdates p) := by
  unfold World.finishBatchedEventUpdates
  split
  · exact .rfl
  · refine .of_keeps (fun q hq => ?_) (mayBeUpdateDispatcher_server _)
    exact (World.keeps_setDispatcher hq _).trans (World.keeps_mayBeUpdateDispatcher _)

end World

/-- What the OnEvent of a client has done to the server of before, with so many requests answered. -/
structure Handled (response : Response) (p : Ptr) (s : HttpServer) (n : Nat) (t : HttpServer) : Prop where
  running : t.hung = false
  slots : t.slots = s.slots
  handed : t.handed = Function.update s.handed p (s.handed p ++ (List.replicate n response.bytes).flatten)
  spares : Spares p s.world t.world
  isOpen : openAt t.world p = true
  armed : ArmedAt p t.world

namespace Handled
variable {response : Response} {p : Ptr} {s t u v : HttpServer} {n : Nat}

theorem none (hh : s.hung = false) (h : Awaits p s) : Handled response p s 0 s := by
  refine ⟨hh,rfl,?_,.rfl,h.isOpen,h.armed⟩
  rw [List.replicate_zero, List.flatten_nil, List.append_nil, Function.update_eq_self]

/-- A step that is no answer, and leaves DE_READ as it is. -/
theorem pass (h : Handled response p s n t) (hh : u.hung = t.hung) (hslots : u.slots = t.slots)
    (hhanded : u.handed = t.handed) (hs : Spares p t.world u.world) (ho : openAt u.world p = openAt t.world p)
    (ha : ArmedAt p t.world → ArmedAt p u.world) : Handled response p s n u :=
  ⟨hh.trans h.running,hslots.trans h.slots,hhanded.trans h.handed,h.spares.trans hs,ho.trans h.isOpen,ha h.armed⟩

/-- An answer after others; DE_READ is disarmed before it. -/
theorem next (h : Handled response p s n t) (hslots : v.slots = t.slots) (hhanded : v.handed = t.handed)
    (hs : Spares p t.world v.world) (h' : Handled response p v 1 u) : Handled response p s (n + 1) u := by
  refine ⟨h'.running,h'.slots.trans (hslots.trans h.slots),?_,h.spares.trans (hs.trans h'.spares),h'.isOpen,h'.armed⟩
  rw [h'.handed, hhanded, h.handed, Function.update_self, Function.update_idem, List.append_assoc, ← List.flatten_append,
    ← List.replicate_add]

end Handled

namespace HttpServer
variable {response : Response} {p : Ptr} {s : HttpServer}

/-- Data on an open client is received. -/
theorem received_pos (r : Request response) (h : openAt s.world p = true) :
    0 < (Exchange.readLoop p r.answers.recvs s.world 0).2 := by
  obtain ⟨d,hd,hv⟩ := openAt_iff.mp h
  have ho : OpenAt p (has d.enabledEvents deWrite) s.world := ⟨d,hd,hv,rfl⟩
  have hsum := fillLoop_eq ho (RecvOutcome.data r.chunk :: r.recvs) .blank 0
  rw [Request.answers, ← fillLoop_count p _ _ .blank, hsum, received, List.map_cons, List.sum_cons]
  have hpos := r.chunk.nonempty
  have hsize : r.chunk.size = r.chunk.bytes.length := rfl
  omega

theorem readLoop_arms (r : Request response) (h : openAt s.world p = true) :
    ArmedAt p (Exchange.readLoop p r.answers.recvs s.world 0).1 := by
  obtain ⟨d,hd,hv⟩ := openAt_iff.mp h
  cases hr : has d.enabledEvents deRead with
  | true =>
    exact Exchange.readLoop_rule (fun w res hw => hw.recv _ res) _ _ _ ((ArmedAt.iff_of_open hd hv).mpr hr)
  | false =>
    refine (readLoop_armed_iff hd hv hr _).mpr ?_
    simp [Request.answers, RecvOutcome.answer, hardError]

/-- OnRead that received data connects and calls OnWrite. -/
theorem onRead_eq {recvs : List (Except Errno Nat)} (sends : List SendOutcome)
    (hpos : 0 < (Exchange.readLoop p recvs s.world 0).2) (hne : ¬s.emitting = some (p,.write)) (hh : s.hung = false) :
    s.onRead response p recvs sends = (((s.setWorld (Exchange.readLoop p recvs s.world 0).1).setSlots p fun c =>
      { c with write := c.write + 1 }).onWrite response p sends).1 := by
  have hc : (s.setWorld (Exchange.readLoop p recvs s.world 0).1).connectWrite p = _ := if_neg hne
  have hrun (f : Slots → Slots) : ((s.setWorld (Exchange.readLoop p recvs s.world 0).1).setSlots p f).hung = false := hh
  unfold onRead
  dsimp only
  rw [if_pos hpos, hc, hrun, if_neg Bool.false_ne_true, if_neg (lastRet_ne_zero recvs s.world), ite_self]

/-- OnWrite that hands over anything disconnects. -/
theorem onWrite_eq {sends : List SendOutcome}
    (hpos : 0 < (Exchange.writeLoop response p sends 0 (s.exchange p)).2.1) (hne : ¬s.emitting = some (p,.write)) :
    (s.onWrite response p sends).1 =
      ({ s.setWorld (Exchange.writeLoop response p sends 0 (s.exchange p)).1.world with
        handed := Function.update s.handed p (Exchange.writeLoop response p sends 0 (s.exchange p)).1.handed }).setSlots p
          fun c => { c with write := c.write - 1 } := by
  unfold onWrite
  dsimp only
  rw [if_pos hpos]
  exact if_neg hne

/-- OnRead answers a request that it has room to answer, and disconnects OnWrite again. -/
theorem onRead_answers (hb : response.bytes ≠ []) (r : Request response) (he : s.emitting = some (p,.read))
    (hh : s.hung = false) (ho : openAt s.world p = true) :
    Handled response p s 1 (s.onRead response p r.answers.recvs r.answers.sends) := by
  have hpos := received_pos r ho
  have harms := readLoop_arms r ho
  have hne : ¬s.emitting = some (p,.write) := by
    rw [he]
    simp
  set w := (Exchange.readLoop p r.answers.recvs s.world 0).1 with hw
  have hread : Spares p s.world w :=
    Exchange.readLoop_rule (fun _ res hw => hw.trans (spares_recv _ res)) _ _ _ .rfl
  have hkeeps : Keeps Dispatcher.socketFd p s.world w := Exchange.readLoop_rule
    (fun _ res hw => hw.trans (World.keeps_recv (steady_socketFd p p) _ res)) _ _ _ .rfl
  obtain ⟨d,hd,hv⟩ := openAt_iff.mp ((openAt_of_keeps hkeeps).trans ho)
  set u := (s.setWorld w).setSlots p fun c => { c with write := c.write + 1 } with hu
  -- OnWrite starts from the first byte, with room for all of them
  have hopen : OpenAt p (has d.enabledEvents deWrite) (u.exchange p).world := ⟨d,hd,hv,rfl⟩
  have hwrote := Exchange.writeLoop_spec response r.sends hopen (Nat.zero_le _)
  have hcursor : 0 < (Exchange.writeLoop response p r.sends 0 (u.exchange p)).2.1 := by
    rw [hwrote.cursor, Nat.zero_add, Nat.min_eq_left r.room]
    exact List.length_pos_iff.mpr hb
  have hwrite {I : World → Prop} (hI : ∀ w cb res, I w → I (w.send p cb res).1) (h : I w) :
      I (Exchange.writeLoop response p r.sends 0 (u.exchange p)).1.world :=
    Exchange.writeLoop_rule response hI r.sends 0 (u.exchange p) h
  have heq : s.onRead response p r.answers.recvs r.answers.sends = (u.onWrite response p r.sends).1 :=
    onRead_eq r.sends hpos hne hh
  rw [heq, onWrite_eq hcursor hne]
  constructor
  case running => exact hh
  case slots =>
    have hslots : u.slots p = { s.slots p with write := (s.slots p).write + 1 } := Function.update_self ..
    change Function.update u.slots p { u.slots p with write := (u.slots p).write - 1 } = s.slots
    rw [hslots, hu, setSlots, Function.update_idem]
    exact Function.update_eq_self p s.slots
  case handed =>
    change Function.update s.handed p _ = _
    rw [hwrote.handed, List.drop_zero, List.take_of_length_le r.room]
    simp [exchange, hu, setSlots, setWorld]
  case spares => exact hwrite (fun _ cb res hw => hw.trans (spares_send cb res)) hread
  case isOpen =>
    obtain ⟨d',hd',hv',-⟩ := hwrote.isOpen
    exact openAt_iff.mpr ⟨d',hd',hv'⟩
  case armed => exact hwrite (fun _ cb res hw => hw.send cb res) harms

/-- An emission whose slots do not block lets go of the signal's mutex. -/
theorem emit_eq {signal : Signal} {io : Answers} {u : HttpServer}
    (h : callSlots response p signal io { s with emitting := some (p,signal) } = some u) (hh : u.hung = false) :
    emit response p signal io s = some { u with emitting := none } := by
  rw [emit, h, Option.map_some, hh, if_neg Bool.false_ne_true]

/-- An answer leaves the loop where it stands. -/
theorem onRead_control (recvs : List (Except Errno Nat)) (sends : List SendOutcome) :
    (s.onRead response p recvs sends).loop.control = s.loop.control := by
  refine onRead_steps (J := fun u => u.loop.control = s.loop.control) rfl (fun u hu => ?_) fun u hu => ?_
  · rw [connectWrite, locked_loop]
    exact hu
  · rw [onWrite_loop]
    exact hu

end HttpServer

section Stages
variable {response : Response} {p : Ptr} {s t : HttpServer} {n : Nat} {rest : List PendingEvent} {key : Key}
  {ff : EventMask} {err : Errno} {handler : Bool} {signal : EventMask} {todo : List EventMask}

/-- Does the conditional emit SignalReadEvent? -/
def readsIn (ff signal : EventMask) : Bool := has ff signal && decide (signalOf signal = .read)

/-- A conditional of OnEvent in which SignalReadEvent is emitted answers; of the other signals that come up here none
has a slot. -/
theorem emit_handled (hb : response.bytes ≠ []) (r : Request response) (h : Handled response p s n t)
    (hr : (s.slots p).read = some .onRead) (hd : (s.slots p).write = 0) (hmem : signal ∈ onEventStages)
    (hclose : signal ≠ deClose) (ff : EventMask) (control : Control) :
    ∃ u, HttpServer.emit response p (signalOf signal) r.answers
      { t with loop := ⟨t.world.onEventStage p ff signal,control⟩ } = some u ∧ u.loop.control = control ∧
        Handled response p s (n + if signalOf signal = .read then 1 else 0) u := by
  have hread : ∀ e ∈ onEventStages, signalOf e ≠ .read → deRead &&& ~~~e = deRead := by decide
  have hsig : ∀ e ∈ onEventStages, e ≠ deClose → signalOf e ≠ .close := by decide
  have ho : openAt (t.world.onEventStage p ff signal) p = openAt t.world p :=
    openAt_of_keeps (World.keeps_onEventStage (steady_socketFd p p) ff signal)
  have hsp : Spares p t.world (t.world.onEventStage p ff signal) := spares_onEventStage ff signal
  have hr' : (t.slots p).read = some .onRead := by rw [h.slots, hr]
  have hd' : (t.slots p).write = 0 := by rw [h.slots, hd]
  have hpass {u : HttpServer} (hne : signalOf signal ≠ .read) (hh : u.hung = t.hung) (hs : u.slots = t.slots)
      (hhanded : u.handed = t.handed) (hw : u.world = t.world.onEventStage p ff signal) : Handled response p s n u := by
    refine h.pass hh hs hhanded (hw ▸ hsp) (hw ▸ ho) fun ha => ?_
    rw [hw]
    exact ha.stage (.inr (hread signal hmem hne))
  cases he : signalOf signal with
  | read =>
    set v : HttpServer :=
      { t with loop := ⟨t.world.onEventStage p ff signal,control⟩, emitting := some (p,.read) } with hv
    have hu := HttpServer.onRead_answers hb r (s := v) rfl h.running (ho.trans h.isOpen)
    refine ⟨_,HttpServer.emit_eq (u := v.onRead response p r.answers.recvs r.answers.sends) ?_ hu.running,?_,?_⟩
    · simp only [HttpServer.callSlots, hr']
      rfl
    · exact HttpServer.onRead_control _ _
    · rw [if_pos rfl]
      exact (h.next (v := v) rfl rfl hsp hu).pass rfl rfl rfl .rfl rfl id
  | write =>
    have hne : signalOf signal ≠ .read := by
      rw [he]
      decide
    refine ⟨_,HttpServer.emit_eq (u := { t with
      loop := ⟨t.world.onEventStage p ff signal,control⟩, emitting := some (p,.write) }) ?_ h.running,rfl,?_⟩
    · simp only [HttpServer.callSlots, hd', HttpServer.emitWrite]
    · exact hpass hne rfl rfl rfl rfl
  | connect =>
    have hne : signalOf signal ≠ .read := by
      rw [he]
      decide
    exact ⟨_,HttpServer.emit_eq rfl h.running,rfl,hpass hne rfl rfl rfl rfl⟩
  | close => exact absurd he (hsig signal hmem hclose)

/-- A step of the loop that emits nothing. -/
theorem httpStep_quiet {a : HttpAction} {l : LoopState} (hh : t.hung = false) (he : a.emission t = none)
    (hl : loopStep t.loop a.loopAction = some l) : httpStep response t a = some { t with loop := l } := by
  rw [httpStep, if_neg (by rw [hh]; exact Bool.false_ne_true), hl, Option.bind_some, he]

/-- A conditional whose event is not set. -/
theorem httpStep_passBy (hh : t.hung = false) (hsig : has ff signal = false)
    (hc : t.loop.control = .onEvent rest key p ff err handler (signal :: todo)) (io : Answers) :
    httpStep response t (.advance io) = some { t with loop := ⟨t.world,.onEvent rest key p ff err false todo⟩ } := by
  have hn : ¬has ff signal = true := by
    rw [hsig]
    exact Bool.false_ne_true
  have hl : loopStep t.loop .advance = some ⟨t.world,.onEvent rest key p ff err false todo⟩ := by
    simp only [loopStep, hc, World.onEventStage, hsig]
    rfl
  exact httpStep_quiet hh (by simp only [HttpAction.emission, hc, if_neg hn]) hl

/-- A conditional whose event is set. -/
theorem httpStep_emits (hh : t.hung = false) (hsig : has ff signal = true)
    (hc : t.loop.control = .onEvent rest key p ff err handler (signal :: todo)) (io : Answers) :
    httpStep response t (.advance io) = HttpServer.emit response p (signalOf signal) io
      { t with loop := ⟨t.world.onEventStage p ff signal,.onEvent rest key p ff err true todo⟩ } := by
  have hl : loopStep t.loop .advance =
      some ⟨t.world.onEventStage p ff signal,.onEvent rest key p ff err true todo⟩ := by
    simp only [loopStep, hc, hsig]
    rfl
  simp only [httpStep, hh, Bool.false_eq_true, if_false, HttpAction.loopAction, hl, Option.bind_some,
    HttpAction.emission, hc, hsig, if_true]

/-- One conditional of OnEvent. -/
theorem stage_handled (hb : response.bytes ≠ []) (r : Request response) (h : Handled response p s n t)
    (hr : (s.slots p).read = some .onRead) (hd : (s.slots p).write = 0) (hmem : signal ∈ onEventStages)
    (hclose : signal = deClose → has ff signal = false)
    (hc : t.loop.control = .onEvent rest key p ff err handler (signal :: todo)) :
    ∃ u, httpStep response t (.advance r.answers) = some u ∧
      u.loop.control = .onEvent rest key p ff err (has ff signal) todo ∧
        Handled response p s (n + if readsIn ff signal then 1 else 0) u := by
  cases hsig : has ff signal with
  | false =>
    refine ⟨_,httpStep_passBy h.running hsig hc r.answers,rfl,?_⟩
    rw [readsIn, hsig, Bool.false_and, if_neg Bool.false_ne_true]
    exact h.pass rfl rfl rfl .rfl rfl id
  | true =>
    have hne : signal ≠ deClose := fun he => Bool.false_ne_true ((hclose he).symm.trans hsig)
    obtain ⟨u,hu,hcu,hh⟩ := emit_handled hb r h hr hd hmem hne ff (.onEvent rest key p ff err true todo)
    refine ⟨u,(httpStep_emits h.running hsig hc r.answers).trans hu,hcu,?_⟩
    simpa only [readsIn, hsig, Bool.true_and, decide_eq_true_eq] using hh

/-- The conditionals of OnEvent in turn. -/
theorem stages_handled (hb : response.bytes ≠ []) (r : Request response) (hr : (s.slots p).read = some .onRead)
    (hd : (s.slots p).write = 0) (hclose : has ff deClose = false) (h : Handled response p s n t)
    (hmem : ∀ e ∈ todo, e ∈ onEventStages) (hc : t.loop.control = .onEvent rest key p ff err handler todo) :
    ∃ u handler, (httpMachine response).run Machine.Free t (todo.map fun _ => .advance r.answers) = some u ∧
      u.loop.control = .onEvent rest key p ff err handler [] ∧
        Handled response p s (n + todo.countP (readsIn ff)) u := by
  induction todo generalizing t n handler with
  | nil => exact ⟨t,handler,rfl,hc,h⟩
  | cons e todo ih =>
    obtain ⟨hfirst,hmem⟩ := List.forall_mem_cons.mp hmem
    obtain ⟨u,hu,hcu,hh⟩ := stage_handled hb r h hr hd hfirst (fun he => he ▸ hclose) hc
    obtain ⟨v,handler',hv,hcv,hh'⟩ := ih hh hmem hcu
    refine ⟨v,handler',?_,hcv,?_⟩
    · exact (Machine.run_cons trivial hu _).trans hv
    · rw [List.countP_cons, Nat.add_comm (todo.countP _), ← Nat.add_assoc]
      exact hh'

end Stages

/-- Data on the descriptor and no error: SignalReadEvent is emitted once, and SignalCloseEvent is not. -/
theorem processEvents_readable {d : SocketDispatcher} (hv : d.s ≠ invalidSocket) (writeable : Bool)
    (so : Except Errno Errno) {pending : Nat} (hp : 0 < pending) :
    (processEvents (.socket d) true writeable false false so (.ok pending)).1 ≠ 0 ∧
      has (processEvents (.socket d) true writeable false false so (.ok pending)).1 deClose = false ∧
      onEventStages.countP (readsIn (processEvents (.socket d) true writeable false false so (.ok pending)).1) = 1 := by
  have hclosed : (Dispatcher.socket d).isDescriptorClosed (.ok pending) = false := by
    simp [Dispatcher.isDescriptorClosed, hv, hp.ne']
  simp only [processEvents, pendingError, hclosed, Bool.false_eq_true, if_false, if_true, ne_eq, not_true_eq_false,
    decide_false, Bool.or_self]
  cases has (Dispatcher.socket d).getRequestedEvents deAccept <;>
    cases has (Dispatcher.socket d).getRequestedEvents deConnect <;> cases writeable <;> decide

/-- A pending event that says that its client can be read, and nothing went wrong. -/
structure Readable (p : Ptr) (w : World) (ev : PendingEvent) : Prop where
  found : w.server.dispatcherByKey ev.key = some p
  reads : has ev.events epollIn = true
  sane : has ev.events (epollRdHup ||| epollErr ||| epollHup) = false

section Event
variable {response : Response} {p : Ptr} {s : HttpServer} {ev : PendingEvent} {rest : List PendingEvent}

/-- The event of a client that waits goes to OnEvent. -/
theorem next_handled (r : Request response) (hs : s.hung = false) (ha : Awaits p s) (hev : Readable p s.world ev)
    (hc : s.loop.control = .batch (ev :: rest)) : ∃ t ff err, httpStep response s (.next r.so (.ok r.pending)) = some t ∧
      t.loop.control = .onEvent rest ev.key p ff err false onEventStages ∧ has ff deClose = false ∧
        onEventStages.countP (readsIn ff) = 1 ∧ Handled response p s 0 t := by
  obtain ⟨d,hd,hv⟩ := openAt_iff.mp ha.isOpen
  obtain ⟨hff,hclose,hreads⟩ := processEvents_readable hv (has ev.events epollOut) r.so r.readable
  have hin : has ev.events (epollIn ||| epollPri) = true := by
    rw [has_or_right, hev.reads, Bool.true_or]
  set out := processEvents (.socket d) true (has ev.events epollOut) false false r.so (.ok r.pending) with hout
  have hl : loopStep s.loop (.next r.so (.ok r.pending)) =
      some ⟨(s.world.log (.processed ev.key p)).startOnEvent ev.key p d out.1,
        .onEvent rest ev.key p out.1 out.2 false onEventStages⟩ := by
    have hfound : s.loop.world.server.dispatcherByKey ev.key = some p := hev.found
    have hdisp : s.loop.world.dispatchers p = some (.socket d) := World.socketAt_eq_some_iff.mp hd
    have hprobe : s.loop.world.probe (.socket d) true false false r.so (.ok r.pending) = s.world := by
      unfold World.probe World.noteErrno
      dsimp only [Bool.false_eq_true, if_false]
      split <;> rfl
    simp only [loopStep, hc, dispatchNext, hfound, hdisp, hin, hev.sane, hprobe, ← hout, if_neg hff]
  set w := (s.world.log (.processed ev.key p)).startOnEvent ev.key p d out.1 with hw
  have hd' : w.socketAt p = some { d with
      state := if has out.1 deClose then .closed else if has out.1 deConnect then .connected else d.state
      savedEnabledEvents := some d.enabledEvents } := World.socketAt_setSocket_same _ _ _
  have hlog : Spares p s.world (s.world.log (.processed ev.key p)) := ⟨fun _ _ => rfl,rfl⟩
  have hsp : Spares p s.world w := hlog.trans (spares_startOnEvent ev.key d out.1)
  refine ⟨{ s with loop := ⟨w,.onEvent rest ev.key p out.1 out.2 false onEventStages⟩ },out.1,out.2,?_,rfl,hclose,hreads,
    (Handled.none hs ha).pass rfl rfl rfl hsp ?_ fun harm => ?_⟩
  · exact httpStep_quiet hs rfl hl
  · exact (openAt_iff.mpr ⟨_,hd',hv⟩).trans ha.isOpen.symm
  · exact (ArmedAt.iff_of_open hd' hv).mpr (harm d hd hv)

/-- The end of OnEvent. -/
theorem finish_handled {t : HttpServer} {n : Nat} {key : Key} {ff : EventMask} {err : Errno} {handler : Bool}
    (h : Handled response p s n t) (hc : t.loop.control = .onEvent rest key p ff err handler []) (io : Answers) :
    ∃ u, httpStep response t (.advance io) = some u ∧ u.loop.control = .batch rest ∧ Handled response p s n u := by
  obtain ⟨d,hd,hv⟩ := openAt_iff.mp h.isOpen
  set w := t.world.finishBatchedEventUpdates p with hw
  have hd' : w.socketAt p = some { d with savedEnabledEvents := none } := by
    rw [hw, World.finishBatchedEventUpdates, hd]
    unfold World.mayBeUpdateDispatcher
    dsimp only
    rw [World.socketAt_setSocket_same]
    dsimp only
    split
    · rw [World.socketAt_eq_some_iff, World.update_dispatchers]
      exact World.setSocket_same _ _ _
    · exact World.socketAt_setSocket_same _ _ _
  have hl : loopStep t.loop .advance = some ⟨w,.batch rest⟩ := by
    simp only [loopStep, hc]
    rfl
  refine ⟨{ t with loop := ⟨w,.batch rest⟩ },?_,rfl,
    h.pass rfl rfl rfl spares_finishBatchedEventUpdates ?_ fun harm => ?_⟩
  · exact httpStep_quiet h.running (by simp only [HttpAction.emission, hc]) hl
  · exact (openAt_iff.mpr ⟨_,hd',hv⟩).trans h.isOpen.symm
  · exact (ArmedAt.iff_of_open hd' hv).mpr (harm d hd hv)

/-- One event of a batch whose client waits is one answer. -/
theorem event_handled (hb : response.bytes ≠ []) (r : Request response) (hs : s.hung = false) (ha : Awaits p s)
    (hev : Readable p s.world ev) (hc : s.loop.control = .batch (ev :: rest)) :
    ∃ t, (httpMachine response).run Machine.Free s r.actions = some t ∧ t.loop.control = .batch rest ∧
      Handled response p s 1 t := by
  obtain ⟨t,ff,err,ht,hct,hclose,hreads,hh⟩ := next_handled r hs ha hev hc
  obtain ⟨u,handler,hu,hcu,hh⟩ := stages_handled hb r ha.reads ha.done hclose hh (fun _ he => he) hct
  rw [hreads] at hh
  obtain ⟨v,hv,hcv,hh⟩ := finish_handled hh hcu r.answers
  refine ⟨v,?_,hcv,hh⟩
  rw [Request.actions, Machine.run_cons trivial ht, Machine.run_append, hu, Option.bind_some, Machine.run_cons trivial hv]
  rfl

end Event

end UServer.Http
