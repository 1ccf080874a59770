import UServer.Net.OperationWrites

/-! What an operation leaves alone: every dispatcher it is not called on keeps its members
and its registration, and most calls also leave the descriptor and the registration of their own. -/
namespace UServer.Net
open Library

/-- The registration of the dispatcher at an address, and what f reads of it, are the same in both worlds. -/
structure Keeps {α : Type} (f : Dispatcher → α) (q : Ptr) (w w' : World) : Prop where
  dispatcher : (w'.dispatchers q).map f = (w.dispatchers q).map f
  key : w'.server.keyByDispatcher q = w.server.keyByDispatcher q

/-- Nothing but the descriptor of the dispatcher at p matters to what f reads at q. -/
def Steady {α : Type} (f : Dispatcher → α) (q p : Ptr) : Prop :=
  q ≠ p ∨ ∀ d d' : SocketDispatcher, d'.s = d.s → f (.socket d') = f (.socket d)

theorem steady_getDescriptor (q p : Ptr) : Steady Dispatcher.getDescriptor q p := .inr fun _ _ h => h

namespace Keeps
variable {α : Type} {f : Dispatcher → α} {p q : Ptr} {w w' w'' : World}

theorem rfl : Keeps f q w w := ⟨.refl _,.refl _⟩

theorem trans (h : Keeps f q w w') (h' : Keeps f q w' w'') : Keeps f q w w'' :=
  ⟨h'.dispatcher.trans h.dispatcher,h'.key.trans h.key⟩

theorem symm (h : Keeps f q w w') : Keeps f q w' w := ⟨h.dispatcher.symm,h.key.symm⟩

theorem dispatcher_eq (h : Keeps id q w w') : w'.dispatchers q = w.dispatchers q := by
  simpa using h.dispatcher

theorem socketAt (h : Keeps id q w w') : w'.socketAt q = w.socketAt q := by
  unfold World.socketAt
  rw [h.dispatcher_eq]

theorem vacant (h : Keeps f q w w') : w'.vacant q = w.vacant q := by
  have hm := congrArg Option.isNone h.dispatcher
  rwa [Option.isNone_map, Option.isNone_map] at hm

end Keeps

namespace World
variable {α : Type} {f : Dispatcher → α} {p q : Ptr} {w : World}

theorem keeps_setKernel (k : Kernel) : Keeps f q w (w.setKernel k) := ⟨rfl,rfl⟩

theorem keeps_setErrno (e : Errno) : Keeps f q w (w.setErrno e) := ⟨rfl,rfl⟩

theorem keeps_log (e : Event) : Keeps f q w (w.log e) := ⟨rfl,rfl⟩

theorem keeps_noteErrno {β : Type} (res : Except Errno β) : Keeps f q w (w.noteErrno res) := by
  cases res with
  | ok _ => exact .rfl
  | error e => exact keeps_setErrno e

theorem keeps_epollCtl (out : Kernel × Except Errno Unit) : Keeps f q w (w.epollCtl out) :=
  (keeps_setKernel out.1).trans (keeps_noteErrno out.2)

theorem keeps_setDispatcher (h : q ≠ p) (d : Option Dispatcher) : Keeps f q w (w.setDispatcher p d) :=
  ⟨congrArg (Option.map f) (Function.update_of_ne h _ _),rfl⟩

theorem keeps_setSocket (h : Steady f q p) {d d' : SocketDispatcher} (hd : w.socketAt p = some d) (hs : d'.s = d.s) :
    Keeps f q w (w.setSocket p d') := by
  by_cases hq : q = p
  · have hf := h.resolve_left (not_not.mpr hq) d d' hs
    refine ⟨?_,rfl⟩
    rw [hq, setSocket_same, socketAt_eq_some_iff.mp hd, Option.map_some, Option.map_some, hf]
  · exact keeps_setDispatcher hq _

theorem keeps_modifySocket (h : Steady f q p) {g : SocketDispatcher → SocketDispatcher} (hs : ∀ d, (g d).s = d.s) :
    Keeps f q w (w.modifySocket p g) := by
  unfold modifySocket
  split
  · exact .rfl
  · rename_i d hd
    exact keeps_setSocket h hd (hs d)

/-- A write on another dispatcher, whatever it does there. -/
theorem keeps_write (h : q ≠ p) (g : SocketDispatcher → SocketDispatcher) : Keeps f q w (w.modifySocket p g) := by
  unfold modifySocket
  split
  · exact .rfl
  · exact keeps_setDispatcher h _

theorem keeps_setState (h : Steady f q p) (state : ConnState) : Keeps f q w (w.setState p state) :=
  keeps_modifySocket h fun _ => rfl

theorem keeps_noteLastError {β : Type} (h : Steady f q p) (res : Except Errno β) :
    Keeps f q w ((w.noteErrno res).updateLastError p) :=
  (keeps_noteErrno res).trans (keeps_modifySocket h fun _ => rfl)

theorem keeps_addEpoll (key : Key) : Keeps f q w (w.addEpoll p key) := by
  unfold addEpoll
  split
  · exact .rfl
  · dsimp only
    split
    · exact .rfl
    · split
      · exact .rfl
      · exact keeps_epollCtl _

theorem keeps_removeEpoll : Keeps f q w (w.removeEpoll p) := by
  unfold removeEpoll
  split
  · exact .rfl
  · dsimp only
    split
    · exact .rfl
    · exact keeps_epollCtl _

theorem keeps_update : Keeps f q w (w.update p) := by
  unfold update updateEpoll
  split
  · exact .rfl
  · split
    · exact .rfl
    · dsimp only
      split
      · exact .rfl
      · split
        · exact keeps_epollCtl _
        · split
          · exact (keeps_epollCtl _).trans (keeps_epollCtl _)
          · exact keeps_epollCtl _

theorem keeps_add (h : q ≠ p) : Keeps f q w (w.add p) := by
  unfold add
  split
  · exact .rfl
  · rename_i hk
    have hn : w.server.keyByDispatcher p = none := by simpa using hk
    have hr : Keeps f q w ((w.log (.added w.server.nextDispatcherKey p)).register p) := by
      refine ⟨rfl,?_⟩
      change emplace w.server.keyByDispatcher p _ q = _
      rw [emplace_of_none hn, Function.update_of_ne h]
    exact hr.trans (keeps_addEpoll _)

theorem keeps_remove (h : q ≠ p) : Keeps f q w (w.remove p) := by
  unfold remove
  split
  · exact .rfl
  · rename_i key _
    have hr : Keeps f q w ((w.log (.removed key p)).unregister p key) := ⟨rfl,Function.update_of_ne h _ _⟩
    exact hr.trans keeps_removeEpoll

theorem keeps_mayBeUpdateDispatcher (oldEvents : EventMask) : Keeps f q w (w.mayBeUpdateDispatcher p oldEvents) := by
  unfold mayBeUpdateDispatcher
  split
  · exact .rfl
  · split
    · exact keeps_update
    · exact .rfl

theorem keeps_changeEvents (h : Steady f q p) (g : EventMask → EventMask) : Keeps f q w (w.changeEvents p g) := by
  unfold changeEvents
  split
  · exact .rfl
  · rename_i d hd
    have hs : Keeps f q w (w.setSocket p { d with enabledEvents := g d.enabledEvents }) := keeps_setSocket h hd rfl
    exact hs.trans (keeps_mayBeUpdateDispatcher _)

theorem keeps_setEnabledEvents (h : Steady f q p) (events : EventMask) : Keeps f q w (w.setEnabledEvents p events) :=
  (keeps_log _).trans (keeps_changeEvents h _)

theorem keeps_enableEvents (h : Steady f q p) (events : EventMask) : Keeps f q w (w.enableEvents p events) :=
  (keeps_log _).trans (keeps_changeEvents h _)

theorem keeps_onEventStage (h : Steady f q p) (ff signal : EventMask) : Keeps f q w (w.onEventStage p ff signal) := by
  unfold onEventStage
  split
  · exact (keeps_changeEvents h _).trans (keeps_log _)
  · exact .rfl

theorem keeps_physicalClose (h : q ≠ p) : Keeps f q w (w.physicalClose p) := by
  unfold physicalClose
  split
  · exact .rfl
  · split
    · exact .rfl
    · rename_i d _ _
      have hc : Keeps f q w (w.closeFd d.s) := ⟨rfl,rfl⟩
      have hn : Keeps f q w ((w.closeFd d.s).updateLastError p) := hc.trans (keeps_modifySocket (.inl h) fun _ => rfl)
      exact (hn.trans (keeps_write h _)).trans (keeps_setEnabledEvents (.inl h) 0)

theorem keeps_close (h : q ≠ p) : Keeps f q w (w.close p) := by
  unfold close
  split
  · exact .rfl
  · split
    · exact .rfl
    · exact ((keeps_write h _).trans (keeps_remove h)).trans (keeps_physicalClose h)

theorem keeps_initializeSocket (h : q ≠ p) (linger : Option Errno) : Keeps f q w (w.initializeSocket p linger).1 := by
  unfold initializeSocket
  split
  · exact .rfl
  · split
    · exact .rfl
    · cases linger with
      | some e => exact keeps_setErrno e
      | none => exact keeps_add h

theorem keeps_attach (h : q ≠ p) (family : Int) (type : SockType) (sock : Except Errno Fd) :
    Keeps f q w (w.attach p family type sock) := by
  cases sock with
  | ok fd =>
    have ho : Keeps f q w (w.openFd fd) := ⟨rfl,rfl⟩
    exact ho.trans (keeps_write h _)
  | error e => exact (keeps_setErrno e).trans (keeps_write h _)

theorem keeps_create (h : q ≠ p) (family : Int) (type : SockType) (sock : Except Errno Fd) (linger : Option Errno) :
    Keeps f q w (w.create p family type sock linger).1 := by
  have hc : Keeps f q w (w.physicalCreate p family type sock).1 := by
    refine ((keeps_close h).trans (keeps_attach h family type sock)).trans ?_
    unfold physicalCreate
    dsimp only
    split
    · exact keeps_setEnabledEvents (.inl h) _
    · exact .rfl
  unfold create
  dsimp only
  split
  · exact hc.trans (keeps_initializeSocket h linger)
  · exact hc

theorem keeps_delete (h : q ≠ p) : Keeps f q w (w.delete p) := (keeps_close h).trans (keeps_setDispatcher h _)

theorem keeps_construct (h : q ≠ p) (s : Fd) (soType : Option SockType) : Keeps f q w (w.construct p s soType) := by
  unfold construct
  split
  · exact (keeps_setErrno ebadf).trans (keeps_setDispatcher h _)
  · exact keeps_setDispatcher h _

theorem keeps_createSocket (h : q ≠ p) (family : Int) (type : SockType) (sock : Except Errno Fd)
    (linger : Option Errno) : Keeps f q w (w.createSocket p family type sock linger).1 := by
  have hc := (keeps_construct (f := f) (w := w) h invalidSocket none).trans (keeps_create h family type sock linger)
  unfold createSocket
  dsimp only
  split
  · exact hc
  · exact hc.trans (keeps_delete h)

theorem keeps_wrapSocket (h : q ≠ p) (s : Fd) (soType : Option SockType) (linger : Option Errno) :
    Keeps f q w (w.wrapSocket p s soType linger).1 := by
  have hc := (keeps_construct (f := f) (w := w) h s soType).trans (keeps_initializeSocket h linger)
  rw [wrapSocket_eq]
  split
  · exact hc
  · exact hc.trans (keeps_delete h)

theorem keeps_finishConnect (h : Steady f q p) (res : Except Errno Unit) : Keeps f q w (w.finishConnect p res).1 := by
  have hn := keeps_noteLastError (w := w) h res
  unfold finishConnect
  cases res with
  | ok _ => exact (hn.trans (keeps_setState h .connected)).trans (keeps_enableEvents h _)
  | error e =>
    dsimp only
    split
    · exact ((hn.trans (keeps_setState h .connecting)).trans (keeps_log _)).trans (keeps_enableEvents h _)
    · exact hn

theorem keeps_connect (h : q ≠ p) (family : Int) (sock : Except Errno Fd) (linger : Option Errno)
    (res : Except Errno Unit) : Keeps f q w (w.connect p family sock linger res).1 := by
  unfold connect doConnect
  split
  · exact .rfl
  · split
    · exact keeps_write h _
    · split
      · exact .rfl
      · split
        · have hc := keeps_create (f := f) (w := w) h family .stream sock linger
          dsimp only
          split
          · exact hc.trans (keeps_finishConnect (.inl h) res)
          · exact hc
        · exact keeps_finishConnect (.inl h) res

theorem keeps_bind (h : Steady f q p) (permitted : Bool) (res : Except Errno Unit) :
    Keeps f q w (w.bind p permitted res).1 := by
  unfold bind
  split
  · exact keeps_noteLastError h _
  · exact .rfl

theorem keeps_setOption (h : Steady f q p) (res : Except Errno Unit) : Keeps f q w (w.setOption p res).1 := by
  unfold setOption
  dsimp only
  split
  · exact keeps_noteErrno _
  · exact keeps_noteLastError h _

theorem keeps_listen (h : Steady f q p) (res : Except Errno Unit) : Keeps f q w (w.listen p res).1 := by
  have hn := keeps_noteLastError (w := w) h (w.answer p res)
  unfold listen
  dsimp only
  split
  · exact (hn.trans (keeps_setState h .connecting)).trans (keeps_enableEvents h _)
  · exact hn

theorem keeps_accept {p' : Ptr} (h : Steady f q p) (h' : q ≠ p') (res : Except Errno Fd) (soType : Option SockType)
    (linger : Option Errno) : Keeps f q w (w.accept p res p' soType linger).1 := by
  have hn := (keeps_enableEvents (w := w) h deAccept).trans
    (keeps_noteLastError h ((w.enableEvents p deAccept).answer p res))
  unfold accept
  dsimp only
  split
  · rename_i s _
    have ho (w : World) : Keeps f q w (w.openFd s) := ⟨rfl,rfl⟩
    exact (hn.trans (ho _)).trans (keeps_wrapSocket h' s soType linger)
  · exact hn

theorem keeps_send (h : Steady f q p) (cb : Nat) (res : Except Errno Nat) : Keeps f q w (w.send p cb res).1 := by
  have hn := keeps_noteLastError (w := w) h (w.answer p res)
  unfold send
  dsimp only
  split
  · exact hn.trans (keeps_enableEvents h _)
  · exact hn

theorem keeps_recvFrom (h : Steady f q p) (res : Except Errno Nat) : Keeps f q w (w.recvFrom p res).1 := by
  have hn := keeps_noteLastError (w := w) h (w.answer p res)
  unfold recvFrom
  dsimp only
  split
  · exact hn
  · dsimp only
    split
    · exact hn.trans (keeps_enableEvents h _)
    · exact hn

theorem keeps_recv (h : Steady f q p) (length : Nat) (res : Except Errno Nat) :
    Keeps f q w (w.recv p length res).1 := by
  unfold recv
  split
  · exact (keeps_enableEvents h _).trans (keeps_modifySocket h fun _ => rfl)
  · exact keeps_recvFrom h res

theorem ne_of_vacant (hl : w.live p = true) (hn : w.vacant q = true) : p ≠ q := by
  rintro rfl
  obtain ⟨d,hd⟩ := live_iff.mp hl
  have hv : w.dispatchers p = none := by simpa [vacant] using hn
  cases hv.symm.trans (socketAt_eq_some_iff.mp hd)

theorem create_live {family : Int} {type : SockType} {sock : Except Errno Fd} {linger : Option Errno}
    (h : (w.create p family type sock linger).2 = true) : (w.create p family type sock linger).1.live p = true := by
  unfold create at h ⊢
  dsimp only at h ⊢
  split at h
  · rename_i hok
    rw [if_pos hok]
    cases hd : (w.physicalCreate p family type sock).1.socketAt p with
    | none => simp [initializeSocket, hd] at h
    | some d =>
      refine live_iff.mpr ⟨d,?_⟩
      rw [socketAt_eq_some_iff, initializeSocket_dispatchers]
      exact socketAt_eq_some_iff.mp hd
  · cases h

theorem createSocket_live {family : Int} {type : SockType} {sock : Except Errno Fd} {linger : Option Errno}
    (h : (w.createSocket p family type sock linger).2 = true) :
    (w.createSocket p family type sock linger).1.live p = true := by
  unfold createSocket at h ⊢
  dsimp only at h ⊢
  split at h
  · rename_i hok
    rw [if_pos hok]
    exact create_live hok
  · cases h

end World

/-- The dispatchers that a call is about: its own, and the one that Accept makes. -/
def Op.subjects : Op → List Ptr
  | .accept p _ p' _ _ => [p, p']
  | .createSocket p _ _ _ _ | .wrapSocket p _ _ _ | .create p _ _ _ _ | .initializeSocket p _ | .bind p _ _
  | .setOption p _ | .setError p _ | .shutdown p _ | .connect p _ _ _ _ | .listen p _ | .send p _ _ | .sendTo p _ _
  | .recv p _ _ | .recvFrom p _ | .close p | .destroy p | .add p | .remove p | .update p => [p]

/-- A call leaves every other dispatcher as it is. -/
theorem World.keeps_exec {α : Type} {f : Dispatcher → α} {w : World} {q : Ptr} {o : Op} (h : q ∉ o.subjects) :
    Keeps f q w (w.exec o) := by
  have hq {p : Ptr} (hp : p ∈ o.subjects) : q ≠ p := fun he => h (he ▸ hp)
  have hself {p : Ptr} : p ∈ [p] := List.mem_singleton_self p
  cases o with
  | createSocket p family type sock linger => exact keeps_createSocket (hq hself) family type sock linger
  | wrapSocket p s soType linger =>
    have ho : Keeps f q w (if s = invalidSocket then w else w.openFd s) := by
      split
      · exact .rfl
      · exact ⟨rfl,rfl⟩
    exact ho.trans (keeps_wrapSocket (hq hself) s soType linger)
  | create p family type sock linger => exact keeps_create (hq hself) family type sock linger
  | initializeSocket p linger => exact keeps_initializeSocket (hq hself) linger
  | bind p permitted res => exact keeps_bind (.inl (hq hself)) permitted res
  | setOption p res => exact keeps_setOption (.inl (hq hself)) res
  | setError p e => exact keeps_write (hq hself) _
  | shutdown p res => exact keeps_noteErrno _
  | connect p family sock linger res => exact keeps_connect (hq hself) family sock linger res
  | listen p res => exact keeps_listen (.inl (hq hself)) res
  | accept p res p' soType linger =>
    exact keeps_accept (.inl (hq (List.mem_cons_self ..))) (hq (List.mem_cons_of_mem _ hself)) res soType linger
  | send p cb res => exact keeps_send (.inl (hq hself)) cb res
  | sendTo p cb res => exact keeps_send (.inl (hq hself)) cb res
  | recv p length res => exact keeps_recv (.inl (hq hself)) length res
  | recvFrom p res => exact keeps_recvFrom (.inl (hq hself)) res
  | close p => exact keeps_close (hq hself)
  | destroy p => exact keeps_delete (hq hself)
  | add p => exact keeps_add (hq hself)
  | remove p => exact keeps_remove (hq hself)
  | update p => exact keeps_update

end UServer.Net
