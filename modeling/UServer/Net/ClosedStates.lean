import UServer.Net.DispatchKeys

/-! In every run a dispatcher without a descriptor is CS_CLOSED, also one that is constructed and not yet created. -/
namespace UServer.Net
open Library

def SocketDispatcher.Settled (d : SocketDispatcher) : Prop := d.s = invalidSocket → d.state = .closed

namespace World
variable {w w' : World} {p : Ptr}

/-- Every dispatcher without a descriptor is closed. -/
def Settled (w : World) : Prop := ∀ p d, w.dispatchers p = some (.socket d) → d.Settled

theorem Settled.at (h : w.Settled) {d : SocketDispatcher} (hd : w.socketAt p = some d) : d.Settled :=
  h p d (socketAt_eq_some_iff.mp hd)

theorem Settled.congr (h : w.Settled) (hd : w'.dispatchers = w.dispatchers) : w'.Settled := by
  intro q d hq
  rw [hd] at hq
  exact h q d hq

theorem Settled.setSocket (h : w.Settled) {d : SocketDispatcher} (hd : d.Settled) : (w.setSocket p d).Settled := by
  intro q e he
  by_cases hq : q = p
  · rw [hq, setSocket_same] at he
    cases he
    exact hd
  · rw [setSocket_ne w p d hq] at he
    exact h q e he

theorem Settled.modifySocket (h : w.Settled) {f : SocketDispatcher → SocketDispatcher}
    (hf : ∀ d, w.socketAt p = some d → (f d).Settled) : (w.modifySocket p f).Settled := by
  cases hd : w.socketAt p with
  | none => rwa [modifySocket_of_none hd]
  | some d =>
    rw [modifySocket_eq hd]
    exact h.setSocket (hf d hd)

/-- A write that keeps the descriptor and the state. -/
theorem Settled.touch (h : w.Settled) {f : SocketDispatcher → SocketDispatcher} (hs : ∀ d, (f d).s = d.s)
    (hst : ∀ d, (f d).state = d.state) : (w.modifySocket p f).Settled := by
  refine h.modifySocket fun d hd hv => ?_
  rw [hst]
  exact h.at hd ((hs d).symm.trans hv)

theorem Settled.noteErrno (h : w.Settled) {α : Type} (res : Except Errno α) : (w.noteErrno res).Settled :=
  h.congr (noteErrno_dispatchers res)

theorem Settled.updateLastError (h : w.Settled) : (w.updateLastError p).Settled := h.touch (fun _ => rfl) fun _ => rfl

theorem Settled.changeEvents (h : w.Settled) (f : EventMask → EventMask) : (w.changeEvents p f).Settled := by
  cases hd : w.socketAt p with
  | none =>
    rw [World.changeEvents, hd]
    exact h
  | some d =>
    have hd' : d.Settled := h.at hd
    have hs : (w.setSocket p { d with enabledEvents := f d.enabledEvents }).Settled := h.setSocket hd'
    refine hs.congr ?_
    simp only [World.changeEvents, hd, mayBeUpdateDispatcher, socketAt_setSocket_same]
    split
    · exact update_dispatchers
    · rfl

theorem Settled.log (h : w.Settled) (e : Event) : (w.log e).Settled := h

theorem Settled.enableEvents (h : w.Settled) (events : EventMask) : (w.enableEvents p events).Settled :=
  (h.log _).changeEvents _

theorem Settled.setEnabledEvents (h : w.Settled) (events : EventMask) : (w.setEnabledEvents p events).Settled :=
  (h.log _).changeEvents _

theorem Settled.physicalClose (h : w.Settled) : (w.physicalClose p).Settled := by
  unfold World.physicalClose
  split
  · exact h
  · split
    · exact h
    · rename_i d _ _
      have hc : (w.closeFd d.s).Settled := h
      exact (hc.updateLastError.modifySocket fun _ _ _ => rfl).setEnabledEvents 0

theorem Settled.close (h : w.Settled) : (w.close p).Settled := by
  unfold World.close
  split
  · exact h
  · split
    · exact h
    · have hm := h.touch (p := p) (f := fun d => { d with savedEnabledEvents := d.savedEnabledEvents.map fun _ => 0 })
        (fun _ => rfl) fun _ => rfl
      exact (hm.congr remove_dispatchers).physicalClose

theorem Settled.initializeSocket (h : w.Settled) (linger : Option Errno) : (w.initializeSocket p linger).1.Settled :=
  h.congr (initializeSocket_dispatchers linger)

/-- What ::socket answers goes to a dispatcher that Close has left closed. -/
theorem Settled.create (h : w.Settled) {d : SocketDispatcher} (hd : w.socketAt p = some d) (family : Int)
    (type : SockType) (sock : Except Errno Fd) (linger : Option Errno) :
    (w.create p family type sock linger).1.Settled := by
  obtain ⟨d',hd',hs⟩ := close_socketAt hd
  have hc : d'.state = .closed := h.close.at hd' hs
  have ha : ((w.close p).attach p family type sock).Settled := by
    cases sock with
    | ok fd =>
      have ho : ((w.close p).openFd fd).Settled := h.close
      refine ho.modifySocket fun e he _ => ?_
      cases hd'.symm.trans he
      exact hc
    | error e =>
      have ho : ((w.close p).setErrno e).Settled := h.close
      refine ho.modifySocket fun e he _ => ?_
      cases hd'.symm.trans he
      exact hc
  have hp : (w.physicalCreate p family type sock).1.Settled := by
    unfold physicalCreate
    dsimp only
    split
    · exact ha.setEnabledEvents _
    · exact ha
  unfold World.create
  dsimp only
  split
  · exact hp.initializeSocket linger
  · exact hp

theorem Settled.delete (h : w.Settled) : (w.delete p).Settled := by
  intro q d hq
  have hq' : Function.update (w.close p).dispatchers p none q = some (.socket d) := hq
  exact h.close q d (update_none_cases hq').2

theorem Settled.construct (h : w.Settled) (s : Fd) (soType : Option SockType) : (w.construct p s soType).Settled := by
  have hn : (SocketDispatcher.new s soType).Settled := fun hs => if_pos hs
  unfold World.construct
  split
  · exact Settled.setSocket (w := w.setErrno ebadf) h hn
  · exact h.setSocket hn

theorem Settled.createSocket (h : w.Settled) (family : Int) (type : SockType) (sock : Except Errno Fd)
    (linger : Option Errno) : (w.createSocket p family type sock linger).1.Settled := by
  have hc := (h.construct (p := p) invalidSocket none).create (socketAt_setSocket_same _ _ _) family type sock linger
  unfold World.createSocket
  dsimp only
  split
  · exact hc
  · exact hc.delete

theorem Settled.wrapSocket (h : w.Settled) (s : Fd) (soType : Option SockType) (linger : Option Errno) :
    (w.wrapSocket p s soType linger).1.Settled := by
  have hc := (h.construct (p := p) s soType).initializeSocket (p := p) linger
  rw [wrapSocket_eq]
  split
  · exact hc
  · exact hc.delete

/-- Only a dispatcher with a descriptor leaves CS_CLOSED. -/
theorem Settled.setState (h : w.Settled) (state : ConnState) (hv : ∀ d, w.socketAt p = some d → d.s ≠ invalidSocket) :
    (w.setState p state).Settled := h.modifySocket fun d hd hs => absurd hs (hv d hd)

/-- The descriptor of a dispatcher past the bookkeeping of a system call. -/
theorem socketAt_noteLastError {α : Type} {res : Except Errno α} {d : SocketDispatcher}
    (hd : ((w.noteErrno res).updateLastError p).socketAt p = some d) : ∃ d', w.socketAt p = some d' ∧ d'.s = d.s := by
  have hn : (w.noteErrno res).socketAt p = w.socketAt p := by
    unfold socketAt
    rw [noteErrno_dispatchers]
  cases hd' : w.socketAt p with
  | none =>
    rw [World.updateLastError, World.setError, modifySocket_of_none (hn.trans hd'), hn, hd'] at hd
    cases hd
  | some d' =>
    rw [World.updateLastError, World.setError, socketAt_modifySocket (hn.trans hd')] at hd
    cases hd
    exact ⟨d',rfl,rfl⟩

theorem Settled.finishConnect (h : w.Settled) (hv : ∀ d, w.socketAt p = some d → d.s ≠ invalidSocket)
    (res : Except Errno Unit) : (w.finishConnect p res).1.Settled := by
  have hn : ((w.noteErrno res).updateLastError p).Settled := (h.noteErrno res).updateLastError
  have hv' : ∀ d, ((w.noteErrno res).updateLastError p).socketAt p = some d → d.s ≠ invalidSocket := by
    intro d hd
    obtain ⟨d',hd',hs⟩ := socketAt_noteLastError hd
    exact hs ▸ hv d' hd'
  unfold World.finishConnect
  cases res with
  | ok _ => exact (hn.setState .connected hv').enableEvents _
  | error e =>
    dsimp only
    split
    · exact ((hn.setState .connecting hv').log _).enableEvents _
    · exact hn

theorem Settled.connect (h : w.Settled) {busy : Option Ptr} (hO : Owned w busy) {sock : Except Errno Fd}
    (hf : w.freshAnswer sock = true) (family : Int) (linger : Option Errno) (res : Except Errno Unit) :
    (w.connect p family sock linger res).1.Settled := by
  cases hd : w.socketAt p with
  | none =>
    simp only [World.connect, hd]
    exact h
  | some d =>
    unfold World.connect doConnect
    simp only [hd]
    split
    · exact h.touch (fun _ => rfl) fun _ => rfl
    · split
      · rename_i hs
        have hc : (w.create p family .stream sock linger).1.Settled := h.create hd family .stream sock linger
        have hf' : (w.close p).freshAnswer sock = true := by rwa [close_of_invalid hd hs]
        split
        · rename_i hok
          refine hc.finishConnect (fun e he => ?_) res
          cases (create_socketAt hO hd hf' family .stream linger).symm.trans he
          cases sock with
          | ok fd =>
            rw [created_s]
            exact ne_invalidSocket_of_freshFd hf
          | error e => cases (create_succeeds hok).1
        · exact hc
      · rename_i hs
        refine h.finishConnect (fun e he => ?_) res
        cases hd.symm.trans he
        exact hs

theorem Settled.listen (h : w.Settled) (res : Except Errno Unit) : (w.listen p res).1.Settled := by
  have hn : ((w.noteErrno (w.answer p res)).updateLastError p).Settled := (h.noteErrno _).updateLastError
  unfold World.listen
  dsimp only
  split
  · rename_i hr
    refine (hn.setState .connecting fun d hd hs => ?_).enableEvents _
    obtain ⟨d',hd',hs'⟩ := socketAt_noteLastError hd
    simp only [answer, hd', if_pos (hs'.trans hs)] at hr
    cases hr
  · exact hn

theorem Settled.accept (h : w.Settled) (res : Except Errno Fd) (p' : Ptr) (soType : Option SockType)
    (linger : Option Errno) : (w.accept p res p' soType linger).1.Settled := by
  set w₁ := w.enableEvents p deAccept with hw₁
  have hn : ((w₁.noteErrno (w₁.answer p res)).updateLastError p).Settled :=
    ((h.enableEvents deAccept).noteErrno _).updateLastError
  unfold World.accept
  dsimp only
  split
  · exact Settled.wrapSocket (w := World.openFd _ _) hn _ soType linger
  · exact hn

theorem Settled.send (h : w.Settled) (cb : Nat) (res : Except Errno Nat) : (w.send p cb res).1.Settled := by
  have hn : ((w.noteErrno (w.answer p res)).updateLastError p).Settled := (h.noteErrno _).updateLastError
  unfold World.send
  dsimp only
  split
  · exact hn.enableEvents _
  · exact hn

theorem Settled.recvFrom (h : w.Settled) (res : Except Errno Nat) : (w.recvFrom p res).1.Settled := by
  have hn : ((w.noteErrno (w.answer p res)).updateLastError p).Settled := (h.noteErrno _).updateLastError
  unfold World.recvFrom
  dsimp only
  split
  · exact hn
  · dsimp only
    split
    · exact hn.enableEvents _
    · exact hn

theorem Settled.recv (h : w.Settled) (length : Nat) (res : Except Errno Nat) : (w.recv p length res).1.Settled := by
  unfold World.recv
  split
  · exact (h.enableEvents deRead).touch (fun _ => rfl) fun _ => rfl
  · exact h.recvFrom res

theorem Settled.exec (h : w.Settled) {busy : Option Ptr} (hO : Owned w busy) {o : Op} (hr : w.ready busy o = true) :
    (w.exec o).Settled := by
  cases o with
  | createSocket p family type sock linger => exact h.createSocket family type sock linger
  | wrapSocket p s soType linger =>
    have ho : (if s = invalidSocket then w else w.openFd s).Settled := by
      split
      · exact h
      · exact h
    exact ho.wrapSocket s soType linger
  | create p family type sock linger =>
    obtain ⟨d,hd⟩ := live_iff.mp (Bool.and_eq_true_iff.mp hr).1
    exact h.create hd family type sock linger
  | initializeSocket p linger => exact h.initializeSocket linger
  | bind p permitted res =>
    change (w.bind p permitted res).1.Settled
    unfold World.bind
    split
    · exact (h.noteErrno _).updateLastError
    · exact h
  | setOption p res =>
    change (w.setOption p res).1.Settled
    unfold World.setOption
    dsimp only
    split
    · exact h.noteErrno _
    · exact (h.noteErrno _).updateLastError
  | setError p e => exact h.touch (fun _ => rfl) fun _ => rfl
  | shutdown p res => exact h.noteErrno _
  | connect p family sock linger res => exact h.connect hO (Bool.and_eq_true_iff.mp hr).2 family linger res
  | listen p res => exact h.listen res
  | accept p res p' soType linger => exact h.accept res p' soType linger
  | send p cb res => exact h.send cb res
  | sendTo p cb res => exact h.send cb res
  | recv p length res => exact h.recv length res
  | recvFrom p res => exact h.recvFrom res
  | close p => exact h.close
  | destroy p => exact h.delete
  | add p => exact h.congr add_dispatchers
  | remove p => exact h.congr remove_dispatchers
  | update p => exact h.congr update_dispatchers

end World

/-- The loop thread, with constructors that the application calls by themselves. -/
inductive ObjectAction where
  | construct (p : Ptr)
  | loop (a : Action)

def objectStep (s : LoopState) : ObjectAction → Option LoopState
  | .construct p =>
    if s.control.canCall && s.world.vacant p then some { s with world := s.world.construct p invalidSocket none }
    else none
  | .loop a => loopStep s a

def objectMachine : Machine LoopState ObjectAction where
  init := loopMachine.init
  step := objectStep

theorem Turn.settled {p : Ptr} {c c' : Slot} {evs : List Event} {w w' : World} {busy : Option Ptr}
    (h : Turn p c c' evs w w') (hO : Owned w busy) (hw : w.Settled)
    (hc : ∀ d, c'.dispatcher = .socket d → d.Settled) : w'.Settled := by
  intro q d hq
  have hs := World.slotAt_of_socketAt (World.socketAt_eq_some_iff.mpr hq)
  rcases h.slot_cases hO hs with ⟨-,he⟩ | ⟨-,he⟩
  · exact hc d (congrArg Slot.dispatcher he).symm
  · exact hw.at (World.socketAt_of_slotAt he)

theorem LoopTurn.settled {P : Policy} {s s' : LoopState} {a : Action} (h : LoopTurn P s a s') (hs : Sound s)
    (hw : s.world.Settled) : s'.world.Settled := by
  cases h with
  | op hcan hr ha _ => exact hw.exec hs.owned hr
  | report | skip | pass | done | passBy => exact hw
  | start hp hff ht =>
    refine ht.settled hs.owned hw fun d hd hv => ?_
    cases hd
    exact absurd hv ((hs.owned.ok _ _ ht.before).valid _ rfl)
  | emit hb ht =>
    refine ht.settled hs.owned hw fun d hd => ?_
    have hset := hw.at (World.socketAt_of_slotAt ht.before)
    rw [Slot.changeEvents_dispatcher rfl] at hd
    cases hd
    exact hset
  | finish ht =>
    refine ht.settled hs.owned hw fun d hd => ?_
    have hset := hw.at (World.socketAt_of_slotAt ht.before)
    rw [Slot.mayBeUpdate_dispatcher] at hd
    cases hd
    exact hset

/-- In every run the world is sound, and a dispatcher without a descriptor is closed. -/
theorem settled_of_reachable {s : LoopState} (h : objectMachine.Reachable Machine.Free s) :
    Sound s ∧ s.world.Settled := by
  apply h.rule (I := fun s => Sound s ∧ s.world.Settled)
  · rintro s ⟨p,afd,ha,rfl⟩
    refine ⟨sound_start ha p,fun q d hq => ?_⟩
    rw [World.start_eq ha] at hq
    dsimp only at hq
    rcases update_some_cases hq with ⟨-,hd⟩ | ⟨-,hd⟩
    · cases hd
    · cases hd
  · rintro s a t ⟨hs,hw⟩ - he
    cases a with
    | construct p =>
      obtain ⟨hc,he⟩ := Option.ite_none_right_eq_some.mp he
      cases he
      have hn := World.slotAt_of_vacant (Bool.and_eq_true_iff.mp hc).2
      have hwr := World.write_construct (P := .all) hs.owned hn
      exact ⟨⟨hwr.owned hs.owned,hwr.linked hs.linked⟩,hw.construct _ _⟩
    | loop a =>
      have ht := loopStep_turn (P := .all) (fun _ => rfl) hs within_all he
      exact ⟨ht.sound hs,ht.settled hs hw⟩

end UServer.Net
