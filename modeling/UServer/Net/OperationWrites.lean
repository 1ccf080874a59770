import UServer.Net.Writes

/-! Every operation of the application, and so every handler, is a run of elementary
writes, as long as no two dispatchers share a descriptor. -/
namespace UServer.Net
open Library

/-- If SocketDispatcher::Create comes to its call of Add, is what it adds within the policy? -/
def Policy.createsWithin (P : Policy) (d : SocketDispatcher) (type : SockType) (sock : Except Errno Fd)
    (linger : Option Errno) : Bool :=
  !(sock.isOk && linger.isNone) ||
    P.adds (if type = .dgram then deRead ||| deWrite else if d.s = invalidSocket then d.enabledEvents else 0)
      (if d.s = invalidSocket then d.savedEnabledEvents else d.savedEnabledEvents.map fun _ => 0)

/-- Does Connect on this dispatcher come to its call of ::connect? -/
def SocketDispatcher.reachesConnect (d : SocketDispatcher) (sock : Except Errno Fd) (linger : Option Errno) : Bool :=
  decide (d.state = .closed) && (decide (d.s ≠ invalidSocket) || sock.isOk && linger.isNone)

/-- Is what DoConnect makes of the answer of ::connect within the policy? -/
def Policy.connectsWithin (P : Policy) (p : Ptr) : Except Errno Unit → Bool
  | .ok _ => P.arms p (deRead ||| deWrite) && P.completes p
  | .error e => !isBlockingError e || P.arms p (deRead ||| deWrite ||| deConnect) && P.arms p deConnect

/-- Does the call stay within the policy, in the state before it? -/
def Op.allowed (P : Policy) (w : World) : Op → Bool
  | .create p _ type sock linger => (w.socketAt p).all fun d => P.createsWithin d type sock linger
  | .connect p _ sock linger res => (w.socketAt p).all fun d =>
      (decide (d.s ≠ invalidSocket) || decide (d.state ≠ .closed) || P.createsWithin d .stream sock linger) &&
        (!d.reachesConnect sock linger || P.connectsWithin p res)
  | .initializeSocket p linger => (w.socketAt p).all fun d =>
      linger.isSome || (w.server.keyByDispatcher p).isSome || P.adds d.enabledEvents d.savedEnabledEvents
  | .add p => P.direct && (w.socketAt p).all fun d =>
      (w.server.keyByDispatcher p).isSome || P.adds d.enabledEvents d.savedEnabledEvents
  | .remove _ | .update _ => P.direct
  | .wrapSocket p s _ _ => decide (s = invalidSocket) || P.completes p
  | .listen p _ => P.arms p deAccept
  | .accept p _ p' _ _ => P.arms p deAccept && P.completes p'
  | .send p _ _ | .sendTo p _ _ => P.arms p deWrite
  | .recv p _ _ | .recvFrom p _ => P.arms p deRead
  | _ => true

namespace World
variable {P : Policy} {busy : Option Ptr} {w : World} {p : Ptr}

theorem slotAt_of_socketAt {d : SocketDispatcher} (h : w.socketAt p = some d) :
    w.slotAt p = some ⟨.socket d,w.server.keyByDispatcher p,w.kernel.interest d.s⟩ := by
  rw [slotAt_eq_some_iff]
  exact ⟨socketAt_eq_some_iff.mp h,rfl,rfl⟩

theorem socketAt_of_slotAt {d : SocketDispatcher} {κ : Option Key} {x : Option EpollEntry}
    (h : w.slotAt p = some ⟨.socket d,κ,x⟩) : w.socketAt p = some d :=
  socketAt_eq_some_iff.mpr (slotAt_eq_some_iff.mp h).1

theorem modifySocket_eq {d : SocketDispatcher} (h : w.socketAt p = some d) (f : SocketDispatcher → SocketDispatcher) :
    w.modifySocket p f = w.setSocket p (f d) := by
  rw [modifySocket, h]

theorem modifySocket_of_none (h : w.socketAt p = none) (f : SocketDispatcher → SocketDispatcher) :
    w.modifySocket p f = w := by
  rw [modifySocket, h]

theorem evolves_setErrno (e : Errno) : Evolves P busy w (w.setErrno e) := by
  have h (hO : Owned w busy) : Write P busy 0 [] w (w.setErrno e) :=
    Write.unchanged hO rfl rfl rfl rfl .same (fun _ => rfl) (by simp)
  exact .of_write h

theorem evolves_noteErrno {α : Type} (res : Except Errno α) : Evolves P busy w (w.noteErrno res) := by
  cases res with
  | ok _ => exact .rfl
  | error e => exact evolves_setErrno e

theorem evolves_connecting (ha : P.arms p deConnect = true) : Evolves P busy w (w.log (.connecting p)) := by
  have h (hO : Owned w busy) : Write P busy p [.connecting p] w (w.log (.connecting p)) :=
    Write.unchanged hO rfl rfl rfl rfl (fun x => .note x ha) (fun _ => rfl) (by simp)
  exact .of_write h

theorem evolves_setSocket {d d' : SocketDispatcher} (hd : w.socketAt p = some d) (hs : d'.s = d.s)
    (he : d'.enabledEvents = d.enabledEvents) (hb : d'.savedEnabledEvents = d.savedEnabledEvents)
    (hst : d'.state = .connected → d.state = .connected ∨ P.completes p = true) :
    Evolves P busy w (w.setSocket p d') := by
  have hc := slotAt_of_socketAt hd
  have h (hO : Owned w busy) : Write P busy p [] w (w.setSocket p d') := by
    rw [setSocket_eq hc rfl hs]
    refine Write.putSlot hO hc ?_ rfl (.modify _ d d' rfl hs he hb hst) (fun _ => rfl) (by simp)
    exact hs
  exact .of_write h

/-- Members outside the registry and epoll. -/
theorem evolves_modifySocket {f : SocketDispatcher → SocketDispatcher} (hs : ∀ d, (f d).s = d.s)
    (he : ∀ d, (f d).enabledEvents = d.enabledEvents)
    (hb : ∀ d, (f d).savedEnabledEvents = d.savedEnabledEvents)
    (hst : ∀ d, (f d).state = .connected → d.state = .connected ∨ P.completes p = true) :
    Evolves P busy w (w.modifySocket p f) := by
  cases hd : w.socketAt p with
  | none =>
    rw [modifySocket_of_none hd]
    exact .rfl
  | some d =>
    rw [modifySocket_eq hd]
    exact evolves_setSocket hd (hs d) (he d) (hb d) (hst d)

theorem evolves_setError (e : Errno) : Evolves P busy w (w.setError p e) :=
  evolves_modifySocket (fun _ => rfl) (fun _ => rfl) (fun _ => rfl) fun _ => .inl

theorem evolves_setState {state : ConnState} (h : state = .connected → P.completes p = true) :
    Evolves P busy w (w.setState p state) :=
  evolves_modifySocket (fun _ => rfl) (fun _ => rfl) (fun _ => rfl) fun _ hc => .inr (h hc)

theorem evolves_updateLastError : Evolves P busy w (w.updateLastError p) := evolves_setError _

theorem evolves_noteLastError {α : Type} (res : Except Errno α) :
    Evolves P busy w ((w.noteErrno res).updateLastError p) :=
  (evolves_noteErrno res).trans evolves_updateLastError

/-- An armed event, on a live dispatcher. -/
private theorem write_changeEvents {c : Slot} {events : EventMask} {f : EventMask → EventMask} (hO : Owned w busy)
    (hc : w.slotAt p = some c)
    (hw : Slot.Write P (busy = some p) p (some c) [.armed p events] (some (c.changeEvents f))) :
    Write P busy p [.armed p events] w ((w.log (.armed p events)).changeEvents p f) := by
  have hc' : (w.log (.armed p events)).slotAt p = some c := hc
  obtain ⟨e,he⟩ := changeEvents_eq hc' (hO.ok p c hc).valid f
  rw [he]
  refine Write.setErrno ?_ e
  exact Write.putSlot hO hc (c.changeEvents_fd f) (c.changeEvents_key f) hw (fun _ => rfl) (by simp)

theorem evolves_enableEvents (hd : w.live p = true) {events : EventMask} (ha : P.arms p events = true) :
    Evolves P busy w (w.enableEvents p events) := by
  obtain ⟨d,hd⟩ := Option.isSome_iff_exists.mp hd
  exact .of_write fun hO => write_changeEvents hO (slotAt_of_socketAt hd) (.enable _ events ha)

theorem evolves_setEnabledEvents {c : Slot} (hc : w.slotAt p = some c) (hk : c.key = none) (events : EventMask) :
    Evolves P busy w (w.setEnabledEvents p events) :=
  .of_write fun hO => write_changeEvents hO hc (.set _ events hk)

theorem remove_eq {c : Slot} {k : Key} (hc : w.slotAt p = some c) (hk : c.key = some k) (hv : c.fd ≠ invalidSocket) :
    ∃ e, w.remove p = (((w.log (.removed k p)).unregister p k).setKernel (w.kernel.watch c.fd none)).setErrno e := by
  obtain ⟨hd,hk',-⟩ := slotAt_eq_some_iff.mp hc
  have hd' : ((w.log (.removed k p)).unregister p k).dispatchers p = some c.dispatcher := hd
  obtain ⟨e,he⟩ := removeEpoll_eq hd' hv
  refine ⟨e,?_⟩
  simp only [remove, hk', hk, he]
  rfl

theorem remove_of_none (h : w.server.keyByDispatcher p = none) : w.remove p = w := by
  simp only [remove, h]

theorem socketAt_modifySocket {d : SocketDispatcher} (h : w.socketAt p = some d)
    (f : SocketDispatcher → SocketDispatcher) : (w.modifySocket p f).socketAt p = some (f d) := by
  rw [modifySocket_eq h, socketAt_setSocket_same]

theorem setSocket_setSocket (d d' : SocketDispatcher) : (w.setSocket p d).setSocket p d' = w.setSocket p d' := by
  simp [setSocket, setDispatcher]

/-- The first half of Close: the snapshot is reset and the registration goes. -/
private theorem write_retire {d : SocketDispatcher} (hO : Owned w busy) (hd : w.socketAt p = some d)
    (hv : d.s ≠ invalidSocket) : ∃ evs, Write P busy p evs w ((w.setSocket p
        { d with savedEnabledEvents := d.savedEnabledEvents.map fun _ => 0 }).remove p) ∧
      ((w.setSocket p { d with savedEnabledEvents := d.savedEnabledEvents.map fun _ => 0 }).remove p).slotAt p =
        some ⟨.socket { d with savedEnabledEvents := d.savedEnabledEvents.map fun _ => 0 },none,none⟩ := by
  set d' : SocketDispatcher := { d with savedEnabledEvents := d.savedEnabledEvents.map fun _ => 0 } with hd'
  have hc := slotAt_of_socketAt hd
  have hc' : (w.setSocket p d').slotAt p = some ⟨.socket d',w.server.keyByDispatcher p,w.kernel.interest d.s⟩ :=
    slotAt_of_socketAt (socketAt_setSocket_same w p d')
  cases hk : w.server.keyByDispatcher p with
  | none =>
    have hx : w.kernel.interest d.s = none := (hO.ok p _ hc).entry_eq_none hk
    rw [hk, hx] at hc hc'
    have hr : (w.setSocket p d').remove p = w.setSocket p d' := remove_of_none hk
    have he : (w.setSocket p d').remove p = w.putSlot p ⟨.socket d',none,none⟩ :=
      hr.trans (setSocket_eq hc rfl rfl)
    rw [he]
    exact ⟨[],Write.putSlot hO hc rfl rfl (.reset d) (fun _ => rfl) (by simp),slotAt_putSlot⟩
  | some k =>
    rw [hk] at hc hc'
    obtain ⟨e,he⟩ := remove_eq hc' rfl hv
    rw [he]
    refine ⟨[.removed k p],?_,?_⟩
    · refine Write.setErrno ?_ e
      refine Write.keep hO hc ?_ (.retire d k _) rfl rfl rfl rfl rfl (by simp)
      rfl
    · rw [slotAt_eq_some_iff]
      exact ⟨Function.update_self _ _ _,Function.update_self _ _ _,Function.update_self _ _ _⟩

/-- The second half of Close: the descriptor is given back. -/
private theorem write_release (d d' : SocketDispatcher) (hO : Owned w busy)
    (hc : w.slotAt p = some ⟨.socket d,none,none⟩) (hv : d.s ≠ invalidSocket) (hs : d'.s = invalidSocket)
    (he : d'.enabledEvents = d.enabledEvents) (hb : d'.savedEnabledEvents = d.savedEnabledEvents)
    (hst : d'.state = .closed) : Write P busy p [.closed d.s] w ((w.closeFd d.s).setSocket p d') := by
  refine Write.relocate hO (fun c h => ?_) rfl rfl rfl (fun fd hfd _ => ?_) (fun D hD hn => ?_) rfl
    (fun _ => rfl) (by simp) ?_
  · cases hc.symm.trans h
    rfl
  · exact Function.update_of_ne (hfd _ hc).symm _ _
  · cases hD
    exact absurd hs hn
  · rw [hc]
    exact .release d d' hv hs he hb hst

/-- What Close leaves of a dispatcher. -/
def closed (d : SocketDispatcher) (e : Errno) : SocketDispatcher :=
  if d.s = invalidSocket then d
  else { d with
    s := invalidSocket, error := e, state := .closed, enabledEvents := 0
    savedEnabledEvents := d.savedEnabledEvents.map fun _ => 0 }

theorem closed_s (d : SocketDispatcher) (e : Errno) : (closed d e).s = invalidSocket := by
  unfold closed
  split
  · assumption
  · rfl

theorem close_of_invalid {d : SocketDispatcher} (hd : w.socketAt p = some d) (hs : d.s = invalidSocket) :
    w.close p = w := by
  simp only [close, hd, if_pos hs]

/-- What SetEnabledEvents does to a dispatcher that is not registered. -/
theorem setEnabledEvents_slotAt {d : SocketDispatcher} (hc : w.slotAt p = some ⟨.socket d,none,none⟩)
    (events : EventMask) : (w.setEnabledEvents p events).slotAt p =
      some ⟨.socket { d with enabledEvents := events },none,none⟩ := by
  have hc' : (w.log (.armed p events)).slotAt p = some ⟨.socket d,none,none⟩ := hc
  obtain ⟨e,he⟩ := changeEvents_eq hc' nofun fun _ => events
  rw [setEnabledEvents, he, slotAt_setErrno, slotAt_putSlot, Slot.changeEvents_unregistered]

theorem physicalClose_eq {d : SocketDispatcher} (hd : w.socketAt p = some d) (hs : d.s ≠ invalidSocket) :
    w.physicalClose p = ((w.closeFd d.s).setSocket p
      { d with s := invalidSocket, error := w.errno, state := .closed }).setEnabledEvents p 0 := by
  have hd' : (w.closeFd d.s).socketAt p = some d := hd
  simp only [physicalClose, hd, if_neg hs, updateLastError, setError, modifySocket_eq hd',
    modifySocket_eq (socketAt_setSocket_same _ _ _), setSocket_setSocket]
  rfl

/-- A dispatcher without a descriptor is registered nowhere. -/
theorem slotAt_of_invalid (hO : Owned w busy) {d : SocketDispatcher} (hd : w.socketAt p = some d)
    (hs : d.s = invalidSocket) : w.slotAt p = some ⟨.socket d,none,none⟩ := by
  have hc := slotAt_of_socketAt hd
  have hk : w.server.keyByDispatcher p = none := by
    cases hk : w.server.keyByDispatcher p with
    | none => rfl
    | some k => exact absurd hs ((hO.ok p _ hc).valid k hk)
  rwa [hk, hs, hO.invalid] at hc

/-- After Close the dispatcher has neither descriptor nor registration. Its error is what errno was by then. -/
theorem close_spec (hO : Owned w busy) {d : SocketDispatcher} (hd : w.socketAt p = some d) :
    (∃ e, (w.close p).slotAt p = some ⟨.socket (closed d e),none,none⟩) ∧ Evolves P busy w (w.close p) := by
  by_cases hs : d.s = invalidSocket
  · refine ⟨⟨w.errno,?_⟩,?_⟩
    · rw [close_of_invalid hd hs, closed, if_pos hs]
      exact slotAt_of_invalid hO hd hs
    · rw [close_of_invalid hd hs]
      exact .rfl
  · obtain ⟨evs,hw,hc⟩ := write_retire (P := P) hO hd hs
    set wA := (w.setSocket p { d with savedEnabledEvents := d.savedEnabledEvents.map fun _ => 0 }).remove p with hwA
    have hA : w.close p = wA.physicalClose p := by
      simp only [close, hd, if_neg hs, modifySocket_eq hd, hwA]
    rw [hA, physicalClose_eq (socketAt_of_slotAt hc) hs]
    set wB := (wA.closeFd d.s).setSocket p
      ⟨invalidSocket,d.udp,d.family,wA.errno,.closed,d.enabledEvents,d.savedEnabledEvents.map fun _ => 0⟩ with hwB
    have hO' := hw.owned hO
    have hw' : Write P busy p [.closed d.s] wA wB :=
      write_release { d with savedEnabledEvents := d.savedEnabledEvents.map fun _ => 0 } _ hO' hc hs rfl rfl rfl rfl
    have hcB : wB.slotAt p = some ⟨.socket ⟨invalidSocket,d.udp,d.family,wA.errno,.closed,d.enabledEvents,
        d.savedEnabledEvents.map fun _ => 0⟩,none,none⟩ :=
      slotAt_of_invalid (hw'.owned hO') (socketAt_setSocket_same _ _ _) rfl
    refine ⟨⟨wA.errno,?_⟩,?_⟩
    · rw [setEnabledEvents_slotAt hcB, closed, if_neg hs]
    · exact ((Evolves.of_write fun _ => hw).trans (.of_write fun _ => hw')).trans
        (evolves_setEnabledEvents hcB rfl 0)

theorem emplace_of_none {α β : Type} [DecidableEq α] {m : α → Option β} {a : α} (h : m a = none) (b : β) :
    emplace m a b = Function.update m a (some b) := by
  simp [emplace, h]

/-- Add on a dispatcher that neither the registry nor epoll knows. -/
theorem add_eq {d : SocketDispatcher} (hc : w.slotAt p = some ⟨.socket d,none,none⟩) (hv : d.s ≠ invalidSocket) :
    w.add p = ((w.log (.added w.server.nextDispatcherKey p)).register p).setKernel
      (w.kernel.watch d.s (Slot.add ⟨.socket d,none,none⟩ w.server.nextDispatcherKey).entry) := by
  obtain ⟨hd,hk,hx⟩ := slotAt_eq_some_iff.mp hc
  set key := w.server.nextDispatcherKey with hkey
  have hd' : ((w.log (.added key p)).register p).dispatchers p = some (.socket d) := hd
  have hk' : w.server.keyByDispatcher p = none := hk
  simp only [add, hk', ← hkey, addEpoll_eq hd' hv hx]
  rfl

theorem add_slotAt {d : SocketDispatcher} (hc : w.slotAt p = some ⟨.socket d,none,none⟩) (hv : d.s ≠ invalidSocket) :
    (w.add p).slotAt p = some (Slot.add ⟨.socket d,none,none⟩ w.server.nextDispatcherKey) := by
  obtain ⟨hd,hk,-⟩ := slotAt_eq_some_iff.mp hc
  rw [add_eq hc hv, slotAt_eq_some_iff]
  refine ⟨hd,?_,Function.update_self _ _ _⟩
  change emplace w.server.keyByDispatcher p _ p = _
  rw [emplace_of_none hk, Function.update_self]
  rfl

theorem evolves_add {d : SocketDispatcher} (hd : w.socketAt p = some d) (hv : d.s ≠ invalidSocket)
    (ha : w.server.keyByDispatcher p = none → P.adds d.enabledEvents d.savedEnabledEvents = true) :
    Evolves P busy w (w.add p) := by
  have hc := slotAt_of_socketAt hd
  cases hk : w.server.keyByDispatcher p with
  | some k =>
    have he : w.add p = w := by simp [add, hk]
    rw [he]
    exact .rfl
  | none =>
    set key := w.server.nextDispatcherKey with hkey
    have h (hO : Owned w busy) : Write P busy p [.added key p] w (w.add p) := by
      have hx : w.kernel.interest d.s = none := (hO.ok p _ hc).entry_eq_none hk
      rw [hk, hx] at hc
      have hw : Slot.Write P (busy = some p) p (some ⟨.socket d,none,none⟩) [.added key p] _ :=
        .add _ key d rfl rfl hv (ha hk)
      rw [add_eq hc hv]
      refine Write.keep hO hc ?_ hw ?_ ?_ rfl rfl rfl (by simp [hkey])
      · rfl
      · exact (Function.update_eq_self_iff.mpr (socketAt_eq_some_iff.mp hd).symm).symm
      · exact emplace_of_none hk key
    exact .of_write h

theorem evolves_initializeSocket {d : SocketDispatcher} {linger : Option Errno} (hd : w.socketAt p = some d)
    (hv : d.s ≠ invalidSocket) (ha : linger = none → w.server.keyByDispatcher p = none →
      P.adds d.enabledEvents d.savedEnabledEvents = true) : Evolves P busy w (w.initializeSocket p linger).1 := by
  simp only [initializeSocket, hd, if_neg hv]
  cases linger with
  | some e => exact evolves_setErrno e
  | none => exact evolves_add hd hv (ha rfl)

/-- A fresh descriptor for a dispatcher that has none. -/
private theorem write_acquire (d d' : SocketDispatcher) (hO : Owned w busy)
    (hc : w.slotAt p = some ⟨.socket d,none,none⟩) (hv : d.s = invalidSocket) (hf : w.freshFd d'.s = true)
    (he : d'.enabledEvents = d.enabledEvents) (hb : d'.savedEnabledEvents = d.savedEnabledEvents)
    (hst : d'.state = d.state) : Write P busy p [.opened d'.s] w ((w.openFd d'.s).setSocket p d') := by
  obtain ⟨h0,hf⟩ : 0 ≤ d'.s ∧ w.kernel.isOpen d'.s = false := by simpa [freshFd] using hf
  have hv' : d'.s ≠ invalidSocket := fun h => absurd (h ▸ h0) (by decide)
  refine Write.relocate hO (fun c h => ?_) rfl rfl rfl (fun fd _ hfd => ?_) (fun D hD _ => ?_) rfl
    (fun _ => rfl) (by simp) ?_
  · cases hc.symm.trans h
    rfl
  · exact Function.update_of_ne (hfd _ rfl).symm _ _
  · cases hD
    exact ⟨Function.update_self _ _ _,hf⟩
  · rw [hc]
    exact .acquire d d' hv hv' he hb hst

/-- What PhysicalSocket::Create writes from the answer of ::socket. -/
def attached (d : SocketDispatcher) (e : Errno) (family : Int) (type : SockType) : Except Errno Fd → SocketDispatcher
  | .ok fd => { d with s := fd, udp := decide (type = .dgram), family := family, error := e }
  | .error e => { d with s := invalidSocket, udp := decide (type = .dgram), family := family, error := e }

/-- ::socket gives the dispatcher a descriptor or leaves it without one. -/
theorem attach_spec (hO : Owned w busy) {d : SocketDispatcher} (hd : w.socketAt p = some d) (hs : d.s = invalidSocket)
    {sock : Except Errno Fd} (hf : w.freshAnswer sock = true) (family : Int) (type : SockType) :
    (w.attach p family type sock).slotAt p = some ⟨.socket (attached d w.errno family type sock),none,none⟩ ∧
      Evolves P busy w (w.attach p family type sock) := by
  have hc := slotAt_of_invalid hO hd hs
  have hk := (slotAt_eq_some_iff.mp hc).2.1
  cases sock with
  | ok fd =>
    have hd₁ : (w.openFd fd).socketAt p = some d := hd
    have he : w.attach p family type (.ok fd) =
        (w.openFd fd).setSocket p (attached d w.errno family type (.ok fd)) := by
      simp only [attach, modifySocket_eq hd₁]
      rfl
    obtain ⟨h0,ho⟩ : 0 ≤ fd ∧ w.kernel.isOpen fd = false := by simpa [freshAnswer, freshFd] using hf
    rw [he]
    refine ⟨?_,.of_write fun hO => write_acquire d _ hO hc hs hf rfl rfl rfl⟩
    rw [slotAt_eq_some_iff]
    exact ⟨Function.update_self _ _ _,hk,hO.interest_eq_none ho⟩
  | error e =>
    have hd₁ : (w.setErrno e).socketAt p = some d := hd
    have he : w.attach p family type (.error e) =
        (w.setErrno e).setSocket p (attached d w.errno family type (.error e)) := by
      simp only [attach, modifySocket_eq hd₁]
      rfl
    rw [he]
    refine ⟨?_,(evolves_setErrno e).trans (evolves_setSocket hd₁ hs.symm rfl rfl .inl)⟩
    rw [slotAt_eq_some_iff]
    exact ⟨Function.update_self _ _ _,hk,hO.invalid⟩

/-- A dispatcher after PhysicalSocket::Create. -/
def created (w : World) (p : Ptr) (d : SocketDispatcher) (family : Int) (type : SockType) (sock : Except Errno Fd) :
    SocketDispatcher :=
  let d := attached (closed d w.errno) (w.close p).errno family type sock
  if type = .dgram then { d with enabledEvents := deRead ||| deWrite } else d

theorem created_s (d : SocketDispatcher) (family : Int) (type : SockType) (fd : Fd) :
    (created w p d family type (.ok fd)).s = fd := by
  unfold created attached
  dsimp only
  split <;> rfl

theorem ne_invalidSocket_of_freshFd {fd : Fd} (h : w.freshFd fd = true) : fd ≠ invalidSocket := by
  obtain ⟨h0,-⟩ : 0 ≤ fd ∧ w.kernel.isOpen fd = false := by simpa [freshFd] using h
  rintro rfl
  exact absurd h0 (by decide)

/-- ::socket overwrites what Close left as the error. -/
theorem attached_closed (d : SocketDispatcher) (e e' a : Errno) (family : Int) (type : SockType) (sock : Except Errno Fd) :
    attached (closed d e) a family type sock = attached (closed d e') a family type sock := by
  unfold closed
  split
  · rfl
  · cases sock <;> rfl

theorem physicalCreate_spec (hO : Owned w busy) {d : SocketDispatcher} (hd : w.socketAt p = some d)
    {sock : Except Errno Fd} (hf : (w.close p).freshAnswer sock = true) (family : Int) (type : SockType) :
    (w.physicalCreate p family type sock).1.slotAt p =
        some ⟨.socket (created w p d family type sock),none,none⟩ ∧
      Evolves P busy w (w.physicalCreate p family type sock).1 := by
  obtain ⟨⟨e,hc⟩,hw⟩ := close_spec (P := P) hO hd
  obtain ⟨hc',hw'⟩ := attach_spec (P := P) (hw hO).1 (socketAt_of_slotAt hc) (closed_s d e) hf family type
  rw [attached_closed d e w.errno] at hc'
  unfold physicalCreate created
  by_cases ht : type = .dgram
  · simp only [if_pos ht]
    exact ⟨setEnabledEvents_slotAt hc' _,(hw.trans hw').trans (evolves_setEnabledEvents hc' rfl _)⟩
  · simp only [if_neg ht]
    exact ⟨hc',hw.trans hw'⟩

theorem created_enabled (d : SocketDispatcher) (family : Int) (type : SockType) (sock : Except Errno Fd) :
    (created w p d family type sock).enabledEvents =
      if type = .dgram then deRead ||| deWrite else (closed d w.errno).enabledEvents := by
  unfold created
  dsimp only
  cases sock <;> split <;> rfl

theorem created_saved (d : SocketDispatcher) (family : Int) (type : SockType) (sock : Except Errno Fd) :
    (created w p d family type sock).savedEnabledEvents = (closed d w.errno).savedEnabledEvents := by
  unfold created
  dsimp only
  cases sock <;> split <;> rfl

theorem closed_enabled (d : SocketDispatcher) (e : Errno) :
    (closed d e).enabledEvents = if d.s = invalidSocket then d.enabledEvents else 0 := by
  unfold closed
  split <;> rfl

theorem closed_saved (d : SocketDispatcher) (e : Errno) : (closed d e).savedEnabledEvents =
    if d.s = invalidSocket then d.savedEnabledEvents else d.savedEnabledEvents.map fun _ => 0 := by
  unfold closed
  split <;> rfl

theorem evolves_create (hO : Owned w busy) {d : SocketDispatcher} (hd : w.socketAt p = some d)
    {sock : Except Errno Fd} (hf : (w.close p).freshAnswer sock = true) {family : Int} {type : SockType}
    {linger : Option Errno} (ha : P.createsWithin d type sock linger = true) :
    Evolves P busy w (w.create p family type sock linger).1 := by
  obtain ⟨hc,hw⟩ := physicalCreate_spec (P := P) hO hd hf family type
  have hd' := socketAt_of_slotAt hc
  unfold create
  cases hs : sock with
  | error e =>
    subst hs
    exact hw
  | ok fd =>
    subst hs
    have hv : (created w p d family type (.ok fd)).s ≠ invalidSocket := by
      rw [created_s]
      exact ne_invalidSocket_of_freshFd hf
    refine hw.trans (evolves_initializeSocket hd' hv fun hl _ => ?_)
    rw [created_enabled, created_saved, closed_enabled, closed_saved]
    simpa [Policy.createsWithin, hl, Except.isOk, Except.toBool] using ha

/-- The destructor closes what is open; the object itself is then in no entry. -/
theorem evolves_delete (hO : Owned w busy) {d : SocketDispatcher} (hd : w.socketAt p = some d) (hb : busy ≠ some p) :
    Evolves P busy w (w.delete p) := by
  obtain ⟨⟨e,hc⟩,hw⟩ := close_spec (P := P) hO hd
  have h (hO : Owned (w.close p) busy) : Write P busy p [] (w.close p) (w.delete p) := by
    refine Write.relocate hO (fun c h => ?_) rfl rfl rfl (fun _ _ _ => rfl) nofun rfl (fun _ => rfl) (by simp) ?_
    · cases hc.symm.trans h
      rfl
    · rw [hc]
      exact .free _ (closed_s _ _) hb
  exact hw.trans (.of_write h)

/-- The constructor without a descriptor. -/
theorem write_construct (hO : Owned w busy) (hn : w.slotAt p = none) :
    Write P busy p [] w (w.construct p invalidSocket none) := by
  refine Write.relocate hO (fun c h => ?_) rfl rfl rfl (fun _ _ _ => rfl) (fun D hD hv => ?_) rfl
    (fun _ => rfl) (by simp) ?_
  · cases hn.symm.trans h
  · cases hD
    exact absurd rfl hv
  · rw [hn]
    exact .construct

/-- The constructor over a fresh descriptor. -/
private theorem write_wrap (hO : Owned w busy) (hn : w.slotAt p = none) {s : Fd} (hf : w.freshFd s = true)
    (hcp : P.completes p = true) (soType : Option SockType) :
    Write P busy p [.opened s] w ((w.openFd s).construct p s soType) := by
  rw [construct, if_neg (ne_invalidSocket_of_freshFd hf)]
  obtain ⟨-,ho⟩ : 0 ≤ s ∧ w.kernel.isOpen s = false := by simpa [freshFd] using hf
  refine Write.relocate hO (fun c h => ?_) rfl rfl rfl (fun fd _ hfd => ?_) (fun D hD _ => ?_) rfl
    (fun _ => rfl) (by simp) ?_
  · cases hn.symm.trans h
  · exact Function.update_of_ne (hfd _ rfl).symm _ _
  · cases hD
    exact ⟨Function.update_self _ _ _,ho⟩
  · rw [hn]
    exact .wrap s soType (ne_invalidSocket_of_freshFd hf) hcp

theorem slotAt_of_vacant (hn : w.vacant p = true) : w.slotAt p = none := by
  have h : w.dispatchers p = none := by simpa [vacant] using hn
  simp [slotAt, h]

@[simp] theorem addEpoll_dispatchers (key : Key) : (w.addEpoll p key).dispatchers = w.dispatchers := by
  unfold addEpoll
  split
  · rfl
  · dsimp only
    split
    · rfl
    · split
      · rfl
      · exact w.epollCtl_dispatchers _

@[simp] theorem add_dispatchers : (w.add p).dispatchers = w.dispatchers := by
  unfold add
  split
  · rfl
  · exact addEpoll_dispatchers _

@[simp] theorem initializeSocket_dispatchers (linger : Option Errno) :
    (w.initializeSocket p linger).1.dispatchers = w.dispatchers := by
  unfold initializeSocket
  split
  · rfl
  · split
    · rfl
    · cases linger with
      | none => exact add_dispatchers
      | some e => rfl

theorem create_socketAt (hO : Owned w busy) {d : SocketDispatcher} (hd : w.socketAt p = some d)
    {sock : Except Errno Fd} (hf : (w.close p).freshAnswer sock = true) (family : Int) (type : SockType)
    (linger : Option Errno) :
    (w.create p family type sock linger).1.socketAt p = some (created w p d family type sock) := by
  have hd' := socketAt_of_slotAt (physicalCreate_spec (P := .all) hO hd hf family type).1
  unfold create
  dsimp only
  split
  · rw [socketAt_eq_some_iff, initializeSocket_dispatchers]
    exact socketAt_eq_some_iff.mp hd'
  · exact hd'

theorem evolves_createSocket (hO : Owned w busy) (hP : ∀ events, P.adds events none = true) (hn : w.vacant p = true)
    {sock : Except Errno Fd} (hf : w.freshAnswer sock = true) (family : Int) (type : SockType)
    (linger : Option Errno) : Evolves P busy w (w.createSocket p family type sock linger).1 := by
  have hn' := slotAt_of_vacant hn
  set w₁ := w.construct p invalidSocket none with hw₁
  have h₁ : Evolves P busy w w₁ := .of_write fun hO => write_construct hO hn'
  have hO₁ := (h₁ hO).1
  have hd₁ : w₁.socketAt p = some (.new invalidSocket none) := socketAt_setSocket_same _ _ _
  have hf₁ : (w₁.close p).freshAnswer sock = true := by
    rw [close_of_invalid hd₁ rfl]
    cases sock with
    | ok fd => exact hf
    | error e => rfl
  have ha : P.createsWithin (.new invalidSocket none) type sock linger = true := by
    simp [Policy.createsWithin, SocketDispatcher.new, hP]
  have h₂ : Evolves P busy w (w₁.create p family type sock linger).1 := h₁.trans (evolves_create hO₁ hd₁ hf₁ ha)
  unfold createSocket
  dsimp only
  split
  · exact h₂
  · have hd₂ := create_socketAt hO₁ hd₁ hf₁ family type linger
    exact h₂.trans (evolves_delete (h₂ hO).1 hd₂ (hO.vacant p hn').2)

/-- WrapSocket from the constructor's end on. -/
private theorem evolves_wrapped {w₁ : World} {s : Fd} {soType : Option SockType} (linger : Option Errno) (hO : Owned w busy)
    (hP : ∀ events, P.adds events none = true) (hb : busy ≠ some p) (hd : w₁.socketAt p = some (.new s soType))
    (h : Evolves P busy w w₁) : Evolves P busy w
      (if (w₁.initializeSocket p linger).2 then (w₁.initializeSocket p linger).1
        else (w₁.initializeSocket p linger).1.delete p) := by
  have h₂ : Evolves P busy w (w₁.initializeSocket p linger).1 := by
    by_cases hs : s = invalidSocket
    · have he : (w₁.initializeSocket p linger).1 = w₁ := by
        simp [initializeSocket, hd, SocketDispatcher.new, hs]
      rwa [he]
    · exact h.trans (evolves_initializeSocket hd hs fun _ _ => hP _)
  have hd₂ : (w₁.initializeSocket p linger).1.socketAt p = some (.new s soType) := by
    rw [socketAt_eq_some_iff, initializeSocket_dispatchers]
    exact socketAt_eq_some_iff.mp hd
  split
  · exact h₂
  · exact h₂.trans (evolves_delete (h₂ hO).1 hd₂ hb)

theorem wrapSocket_eq (s : Fd) (soType : Option SockType) (linger : Option Errno) :
    (w.wrapSocket p s soType linger).1 =
      if ((w.construct p s soType).initializeSocket p linger).2 then
        ((w.construct p s soType).initializeSocket p linger).1
      else ((w.construct p s soType).initializeSocket p linger).1.delete p := by
  unfold wrapSocket
  dsimp only
  split <;> rfl

/-- WrapSocket over a descriptor that has just come into use. -/
theorem evolves_wrapSocket (hO : Owned w busy) (hP : ∀ events, P.adds events none = true) (hn : w.vacant p = true)
    {s : Fd} (hf : w.freshFd s = true) (hcp : P.completes p = true) (soType : Option SockType)
    (linger : Option Errno) : Evolves P busy w ((w.openFd s).wrapSocket p s soType linger).1 := by
  rw [wrapSocket_eq]
  refine evolves_wrapped linger hO hP (hO.vacant p (slotAt_of_vacant hn)).2 (socketAt_setSocket_same _ _ _) ?_
  exact .of_write fun hO => write_wrap hO (slotAt_of_vacant hn) hf hcp soType

/-- WrapSocket over no descriptor ends in nullptr. -/
theorem evolves_wrapSocket_invalid (hO : Owned w busy) (hP : ∀ events, P.adds events none = true)
    (hn : w.vacant p = true) (soType : Option SockType) (linger : Option Errno) :
    Evolves P busy w (w.wrapSocket p invalidSocket soType linger).1 := by
  rw [wrapSocket_eq]
  refine evolves_wrapped linger hO hP (hO.vacant p (slotAt_of_vacant hn)).2 (socketAt_setSocket_same _ _ _) ?_
  exact .of_write fun hO => write_construct hO (slotAt_of_vacant hn)

theorem live_iff : w.live p = true ↔ ∃ d, w.socketAt p = some d := Option.isSome_iff_exists

@[simp] theorem live_modifySocket (f : SocketDispatcher → SocketDispatcher) :
    (w.modifySocket p f).live p = w.live p := by
  cases hd : w.socketAt p with
  | none => rw [modifySocket_of_none hd]
  | some d => simp [live, modifySocket_eq hd, hd]

@[simp] theorem live_noteErrno {α : Type} (res : Except Errno α) : (w.noteErrno res).live p = w.live p := by
  cases res <;> rfl

@[simp] theorem live_log (e : Event) : (w.log e).live p = w.live p := rfl

theorem evolves_finishConnect (hd : w.live p = true) {res : Except Errno Unit} (ha : P.connectsWithin p res = true) :
    Evolves P busy w (w.finishConnect p res).1 := by
  have h : Evolves P busy w ((w.noteErrno res).updateLastError p) := evolves_noteLastError res
  have hl : ((w.noteErrno res).updateLastError p).live p = true := by
    simpa [updateLastError, setError] using hd
  unfold finishConnect
  cases res with
  | ok _ =>
    obtain ⟨ha,hc⟩ := Bool.and_eq_true_iff.mp ha
    refine (h.trans (evolves_setState fun _ => hc)).trans (evolves_enableEvents ?_ ha)
    simpa [setState] using hl
  | error e =>
    dsimp only
    split
    · rename_i hb
      obtain ⟨ha,hc⟩ : P.arms p (deRead ||| deWrite ||| deConnect) = true ∧ P.arms p deConnect = true := by
        simpa [Policy.connectsWithin, hb] using ha
      refine ((h.trans (evolves_setState fun h => by cases h)).trans (evolves_connecting hc)).trans (evolves_enableEvents ?_ ha)
      simpa [setState] using hl
    · exact h

/-- Create comes to its end only with a descriptor whose SO_LINGER is set. -/
theorem create_succeeds {family : Int} {type : SockType} {sock : Except Errno Fd} {linger : Option Errno}
    (h : (w.create p family type sock linger).2 = true) : sock.isOk = true ∧ linger.isNone = true := by
  unfold create at h
  dsimp only at h
  split at h
  · rename_i hok
    refine ⟨hok,?_⟩
    unfold initializeSocket at h
    split at h
    · cases h
    · split at h
      · cases h
      · cases linger with
        | none => rfl
        | some e => cases h
  · cases h

theorem evolves_connect (hO : Owned w busy) {d : SocketDispatcher} (hd : w.socketAt p = some d)
    {sock : Except Errno Fd} (hf : w.freshAnswer sock = true) {family : Int} {linger : Option Errno}
    (ha : d.s = invalidSocket → d.state = .closed → P.createsWithin d .stream sock linger = true)
    {res : Except Errno Unit} (hr : d.reachesConnect sock linger = true → P.connectsWithin p res = true) :
    Evolves P busy w (w.connect p family sock linger res).1 := by
  unfold connect doConnect
  simp only [hd]
  split
  · exact evolves_setError _
  · rename_i hst
    split
    · rename_i hs
      have hf' : (w.close p).freshAnswer sock = true := by rwa [close_of_invalid hd hs]
      have hc : Evolves P busy w (w.create p family .stream sock linger).1 :=
        evolves_create hO hd hf' (ha hs (not_not.mp hst))
      split
      · rename_i hok
        refine hc.trans (evolves_finishConnect ?_ (hr ?_))
        · exact live_iff.mpr ⟨_,create_socketAt hO hd hf' family .stream linger⟩
        · simpa [SocketDispatcher.reachesConnect, hs, not_not.mp hst] using create_succeeds hok
      · exact hc
    · rename_i hs
      refine evolves_finishConnect (live_iff.mpr ⟨d,hd⟩) (hr ?_)
      simp [SocketDispatcher.reachesConnect, hs, not_not.mp hst]

theorem evolves_listen (hd : w.live p = true) (ha : P.arms p deAccept = true) (res : Except Errno Unit) :
    Evolves P busy w (w.listen p res).1 := by
  have h : Evolves P busy w ((w.noteErrno (w.answer p res)).updateLastError p) := evolves_noteLastError _
  have hl : ((w.noteErrno (w.answer p res)).updateLastError p).live p = true := by
    simpa [updateLastError, setError] using hd
  unfold listen
  dsimp only
  split
  · refine (h.trans (evolves_setState fun h => by cases h)).trans (evolves_enableEvents ?_ ha)
    simpa [setState] using hl
  · exact h

theorem evolves_send (hd : w.live p = true) (ha : P.arms p deWrite = true) (cb : Nat) (res : Except Errno Nat) :
    Evolves P busy w (w.send p cb res).1 := by
  have h : Evolves P busy w ((w.noteErrno (w.answer p res)).updateLastError p) := evolves_noteLastError _
  have hl : ((w.noteErrno (w.answer p res)).updateLastError p).live p = true := by
    simpa [updateLastError, setError] using hd
  unfold send
  dsimp only
  split
  · exact h.trans (evolves_enableEvents hl ha)
  · exact h

theorem evolves_recvFrom (hd : w.live p = true) (ha : P.arms p deRead = true) (res : Except Errno Nat) :
    Evolves P busy w (w.recvFrom p res).1 := by
  have h : Evolves P busy w ((w.noteErrno (w.answer p res)).updateLastError p) := evolves_noteLastError _
  have hl : ((w.noteErrno (w.answer p res)).updateLastError p).live p = true := by
    simpa [updateLastError, setError] using hd
  unfold recvFrom
  dsimp only
  split
  · exact h
  · dsimp only
    split
    · exact h.trans (evolves_enableEvents hl ha)
    · exact h

theorem evolves_recv (hd : w.live p = true) (ha : P.arms p deRead = true) (length : Nat) (res : Except Errno Nat) :
    Evolves P busy w (w.recv p length res).1 := by
  unfold recv
  split
  · exact (evolves_enableEvents hd ha).trans (evolves_setError _)
  · exact evolves_recvFrom hd ha res

/-- EnableEvents changes neither which descriptors are in use nor any other object. -/
theorem enableEvents_spec (hO : Owned w busy) {d : SocketDispatcher} (hd : w.socketAt p = some d) (events : EventMask) :
    (w.enableEvents p events).kernel.isOpen = w.kernel.isOpen ∧
      ∀ q, q ≠ p → (w.enableEvents p events).dispatchers q = w.dispatchers q := by
  have hc : (w.log (.armed p events)).slotAt p = _ := slotAt_of_socketAt hd
  have hv := (hO.ok p _ (slotAt_of_socketAt hd)).valid
  obtain ⟨e,he⟩ := changeEvents_eq hc hv (· ||| events)
  rw [enableEvents, he]
  exact ⟨rfl,fun q hq => Function.update_of_ne hq _ _⟩

theorem modifySocket_spec (f : SocketDispatcher → SocketDispatcher) :
    (w.modifySocket p f).kernel = w.kernel ∧ ∀ q, q ≠ p → (w.modifySocket p f).dispatchers q = w.dispatchers q := by
  cases hd : w.socketAt p with
  | none => simp [modifySocket_of_none hd]
  | some d =>
    rw [modifySocket_eq hd]
    exact ⟨rfl,fun q hq => Function.update_of_ne hq _ _⟩

@[simp] theorem noteErrno_kernel {α : Type} (res : Except Errno α) : (w.noteErrno res).kernel = w.kernel := by
  cases res <;> rfl

@[simp] theorem noteErrno_dispatchers {α : Type} (res : Except Errno α) :
    (w.noteErrno res).dispatchers = w.dispatchers := by
  cases res <;> rfl

theorem evolves_accept (hO : Owned w busy) (hP : ∀ events, P.adds events none = true) (hd : w.live p = true)
    (ha : P.arms p deAccept = true) {p' : Ptr} (hc : P.completes p' = true) (hn : w.vacant p' = true)
    {res : Except Errno Fd} (hf : w.freshAnswer res = true) (soType : Option SockType)
    (linger : Option Errno) : Evolves P busy w (w.accept p res p' soType linger).1 := by
  obtain ⟨d,hd'⟩ := live_iff.mp hd
  have hp : p' ≠ p := by
    rintro rfl
    have h : w.dispatchers p' = none := by simpa [vacant] using hn
    cases h.symm.trans (socketAt_eq_some_iff.mp hd')
  obtain ⟨ho₁,hd₁⟩ := enableEvents_spec hO hd' deAccept
  set w₁ := w.enableEvents p deAccept with hw₁
  set w₂ := (w₁.noteErrno (w₁.answer p res)).updateLastError p with hw₂
  have h : Evolves P busy w w₂ := (evolves_enableEvents hd ha).trans (evolves_noteLastError _)
  obtain ⟨hk₂,hd₂⟩ := modifySocket_spec (w := w₁.noteErrno (w₁.answer p res)) (p := p)
    fun d => { d with error := (w₁.noteErrno (w₁.answer p res)).errno }
  have hn₂ : w₂.vacant p' = true := by
    rw [vacant, hw₂, updateLastError, setError, hd₂ p' hp, noteErrno_dispatchers, hd₁ p' hp]
    exact hn
  have ho₂ : w₂.kernel.isOpen = w.kernel.isOpen := by
    rw [hw₂, updateLastError, setError, hk₂, noteErrno_kernel, ho₁]
  have he : (w.accept p res p' soType linger).1 = match w₁.answer p res with
      | .ok s => ((w₂.openFd s).wrapSocket p' s soType linger).1
      | .error _ => w₂ := by
    simp only [accept, ← hw₁, ← hw₂]
    cases w₁.answer p res <;> rfl
  rw [he]
  cases hr : w₁.answer p res with
  | error e => exact h
  | ok s =>
    have hs : w₂.freshFd s = true := by
      have hres : res = .ok s := by
        unfold answer at hr
        split at hr
        · cases hr
        · split at hr
          · cases hr
          · exact hr
      rw [freshFd, ho₂]
      simpa [hres, freshAnswer, freshFd] using hf
    exact h.trans (evolves_wrapSocket (h hO).1 hP hn₂ hs hc soType linger)

theorem evolves_remove {d : SocketDispatcher} (hd : w.socketAt p = some d) (hP : P.direct = true) :
    Evolves P busy w (w.remove p) := by
  intro hO
  have hc := slotAt_of_socketAt hd
  cases hk : w.server.keyByDispatcher p with
  | none =>
    rw [remove_of_none hk]
    exact Evolves.rfl hO
  | some k =>
    rw [hk] at hc
    have hv : Slot.fd ⟨.socket d,some k,w.kernel.interest d.s⟩ ≠ invalidSocket := (hO.ok p _ hc).valid k rfl
    have h : Write P busy p [.removed k p] w (w.remove p) := by
      obtain ⟨e,he⟩ := remove_eq hc rfl hv
      rw [he]
      refine Write.setErrno ?_ e
      refine Write.keep hO hc ?_ (.remove _ k rfl hP) ?_ rfl rfl rfl rfl (by simp)
      · rfl
      · exact (Function.update_eq_self_iff.mpr (socketAt_eq_some_iff.mp hd).symm).symm
    exact Evolves.of_write (fun _ => h) hO

theorem evolves_update {d : SocketDispatcher} (hd : w.socketAt p = some d) (hP : P.direct = true) :
    Evolves P busy w (w.update p) := by
  have hc := slotAt_of_socketAt hd
  have h (hO : Owned w busy) : Write P busy p [] w (w.update p) := by
    obtain ⟨e,he⟩ := update_eq hc (hO.ok p _ hc).valid
    rw [he]
    refine Write.setErrno ?_ e
    exact Write.putSlot hO hc (Slot.update_fd _) (Slot.update_key _) (.update _ hP) (fun _ => rfl) (by simp)
  exact .of_write h

theorem update_dispatchers : (w.update p).dispatchers = w.dispatchers := by
  unfold update updateEpoll
  split
  · rfl
  · split
    · rfl
    · dsimp only
      split
      · rfl
      · split
        · exact w.epollCtl_dispatchers _
        · split
          · exact (World.epollCtl_dispatchers _ _).trans (w.epollCtl_dispatchers _)
          · exact w.epollCtl_dispatchers _

/-- What SetEnabledEvents, EnableEvents and DisableEvents make of the object. -/
theorem changeEvents_socketAt {d : SocketDispatcher} (hd : w.socketAt p = some d) (f : EventMask → EventMask) :
    (w.changeEvents p f).socketAt p = some { d with enabledEvents := f d.enabledEvents } := by
  simp only [changeEvents, hd, mayBeUpdateDispatcher, socketAt_setSocket_same]
  split
  · rw [socketAt_eq_some_iff, update_dispatchers]
    exact setSocket_same _ _ _
  · exact socketAt_setSocket_same _ _ _

/-- What a conditional of OnEvent makes of the object. -/
theorem onEventStage_socketAt {ff signal : EventMask} {d : SocketDispatcher} (hd : w.socketAt p = some d)
    (hs : has ff signal = true) : (w.onEventStage p ff signal).socketAt p =
      some { d with enabledEvents := d.enabledEvents &&& ~~~signal } := by
  rw [onEventStage, if_pos hs]
  exact changeEvents_socketAt hd _

theorem remove_dispatchers : (w.remove p).dispatchers = w.dispatchers := by
  unfold remove removeEpoll
  split
  · rfl
  · split
    · rfl
    · dsimp only
      split
      · rfl
      · exact World.epollCtl_dispatchers _ _

/-- Close leaves the object without a descriptor. -/
theorem close_socketAt {d : SocketDispatcher} (hd : w.socketAt p = some d) :
    ∃ d', (w.close p).socketAt p = some d' ∧ d'.s = invalidSocket := by
  by_cases hs : d.s = invalidSocket
  · exact ⟨d,by rw [close_of_invalid hd hs]; exact hd,hs⟩
  · set d₁ : SocketDispatcher := { d with savedEnabledEvents := d.savedEnabledEvents.map fun _ => 0 } with hd₁
    have h₁ : ((w.setSocket p d₁).remove p).socketAt p = some d₁ := by
      rw [socketAt_eq_some_iff, remove_dispatchers]
      exact setSocket_same _ _ _
    have hc : w.close p = ((w.setSocket p d₁).remove p).physicalClose p := by
      simp only [close, hd, if_neg hs, modifySocket_eq hd, hd₁]
    rw [hc, physicalClose_eq h₁ hs, setEnabledEvents]
    set d₂ : SocketDispatcher :=
      { d₁ with s := invalidSocket, error := ((w.setSocket p d₁).remove p).errno, state := .closed } with hd₂
    have h₂ : (((((w.setSocket p d₁).remove p).closeFd d₁.s).setSocket p d₂).log (.armed p 0)).socketAt p = some d₂ :=
      socketAt_setSocket_same _ _ _
    exact ⟨_,changeEvents_socketAt h₂ _,rfl⟩

theorem evolves_bind (permitted : Bool) (res : Except Errno Unit) : Evolves P busy w (w.bind p permitted res).1 := by
  unfold bind
  split
  · exact evolves_noteLastError _
  · exact .rfl

theorem evolves_setOption (res : Except Errno Unit) : Evolves P busy w (w.setOption p res).1 := by
  unfold setOption
  dsimp only
  split
  · exact evolves_noteErrno _
  · exact evolves_noteLastError _

/-- Whatever the application may call is a run of elementary writes. -/
theorem evolves_exec {o : Op} (hP : ∀ events, P.adds events none = true) (hr : w.ready busy o = true)
    (ha : o.allowed P w = true) : Evolves P busy w (w.exec o) := by
  intro hO
  suffices h : Evolves P busy w (w.exec o) from h hO
  have hall {p : Ptr} {f : SocketDispatcher → Bool} {d : SocketDispatcher} (h : (w.socketAt p).all f = true)
      (hd : w.socketAt p = some d) : f d = true := by
    simpa [hd] using h
  cases o with
  | createSocket p family type sock linger =>
    obtain ⟨hn,hf⟩ := Bool.and_eq_true_iff.mp hr
    exact evolves_createSocket hO hP hn hf family type linger
  | wrapSocket p s soType linger =>
    obtain ⟨hn,hf⟩ := Bool.and_eq_true_iff.mp hr
    change Evolves P busy w ((if s = invalidSocket then w else w.openFd s).wrapSocket p s soType linger).1
    by_cases hs : s = invalidSocket
    · rw [if_pos hs, hs]
      exact evolves_wrapSocket_invalid hO hP hn soType linger
    · rw [if_neg hs]
      refine evolves_wrapSocket hO hP hn ?_ ?_ soType linger
      · simpa [hs] using hf
      · simpa [Op.allowed, hs] using ha
  | create p family type sock linger =>
    obtain ⟨hl,hf⟩ := Bool.and_eq_true_iff.mp hr
    obtain ⟨d,hd⟩ := live_iff.mp hl
    exact evolves_create hO hd hf (hall ha hd)
  | initializeSocket p linger =>
    obtain ⟨d,hd⟩ := live_iff.mp hr
    have ha' := hall ha hd
    change Evolves P busy w (w.initializeSocket p linger).1
    by_cases hv : d.s = invalidSocket
    · simp only [initializeSocket, hd, if_pos hv]
      exact .rfl
    · refine evolves_initializeSocket hd hv fun hl hk => ?_
      simpa [hl, hk] using ha'
  | bind p permitted res => exact evolves_bind permitted res
  | setOption p res => exact evolves_setOption res
  | setError p e => exact evolves_setError e
  | shutdown p res => exact evolves_noteErrno _
  | connect p family sock linger res =>
    obtain ⟨hl,hf⟩ := Bool.and_eq_true_iff.mp hr
    obtain ⟨d,hd⟩ := live_iff.mp hl
    obtain ⟨ha,hc⟩ := Bool.and_eq_true_iff.mp (hall ha hd)
    refine evolves_connect hO hd hf (fun hs hst => ?_) fun hre => ?_
    · simpa [hs, hst] using ha
    · simpa [hre] using hc
  | listen p res => exact evolves_listen hr ha res
  | accept p res p' soType linger =>
    obtain ⟨hl,hf⟩ := Bool.and_eq_true_iff.mp hr
    obtain ⟨hl,hn⟩ := Bool.and_eq_true_iff.mp hl
    obtain ⟨ha,hc⟩ := Bool.and_eq_true_iff.mp ha
    exact evolves_accept hO hP hl ha hc hn hf soType linger
  | send p cb res => exact evolves_send hr ha cb res
  | sendTo p cb res => exact evolves_send hr ha cb res
  | recv p length res => exact evolves_recv hr ha length res
  | recvFrom p res => exact evolves_recvFrom hr ha res
  | close p =>
    obtain ⟨d,hd⟩ := live_iff.mp hr
    exact (close_spec hO hd).2
  | destroy p =>
    obtain ⟨hl,hb⟩ := Bool.and_eq_true_iff.mp hr
    obtain ⟨d,hd⟩ := live_iff.mp hl
    exact evolves_delete hO hd (by simpa using hb)
  | add p =>
    obtain ⟨-,ha⟩ := Bool.and_eq_true_iff.mp ha
    cases hd : w.socketAt p with
    | none => simp [ready, hd] at hr
    | some d =>
      have hv : d.s ≠ invalidSocket := by simpa [ready, hd] using hr
      refine evolves_add hd hv fun hk => ?_
      simpa [hk] using hall ha hd
  | remove p =>
    obtain ⟨d,hd⟩ := live_iff.mp hr
    exact evolves_remove hd ha
  | update p =>
    obtain ⟨d,hd⟩ := live_iff.mp hr
    exact evolves_update hd ha

end World
end UServer.Net
