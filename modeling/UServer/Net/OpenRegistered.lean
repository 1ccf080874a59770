import UServer.Net.DescriptorOwnership

/-! Is a socket dispatcher registered just while it has a descriptor? It is, but for
a Create that gets a descriptor and then fails to set SO_LINGER on it. -/
namespace UServer.Net
open Library

/-- A live socket dispatcher has a descriptor if and only if it is registered. -/
def OpenRegistered (w : World) : Prop :=
  ∀ p d, w.socketAt p = some d → (d.s ≠ invalidSocket ↔ (w.server.keyByDispatcher p).isSome = true)

/-- Does the call run SocketDispatcher::Create to its end, with SO_LINGER set, if it
gets a descriptor from ::socket? -/
def Op.opensFully (w : World) : Op → Bool
  | .create _ _ _ sock linger => !sock.isOk || linger.isNone
  | .connect p _ sock linger _ => (w.socketAt p).all fun d =>
      decide (d.state ≠ .closed) || decide (d.s ≠ invalidSocket) || !sock.isOk || linger.isNone
  | _ => true

def Action.opensFully (s : LoopState) : Action → Bool
  | .op o => o.opensFully s.world
  | _ => true

/-- No direct use of the registry, and every Create that gets a descriptor comes to its end. -/
def OpensFully (s : LoopState) (a : Action) : Prop := Within .sockets s a ∧ a.opensFully s = true

instance (s : LoopState) (a : Action) : Decidable (OpensFully s a) :=
  inferInstanceAs (Decidable (_ ∧ _))

/-- The s_ of a socket dispatcher. -/
def Dispatcher.socketFd : Dispatcher → Option Fd
  | .signaler _ => none
  | .socket d => some d.s

theorem steady_socketFd (q p : Ptr) : Steady Dispatcher.socketFd q p := .inr fun _ _ h => congrArg some h

theorem Keeps.live {q : Ptr} {w w' : World} (h : Keeps Dispatcher.socketFd q w w') (hl : w.live q = true) :
    w'.live q = true := by
  obtain ⟨d,hd⟩ := World.live_iff.mp hl
  have hm := h.dispatcher
  rw [World.socketAt_eq_some_iff.mp hd, Option.map_some, Option.map_eq_some_iff] at hm
  obtain ⟨D,hD,hf⟩ := hm
  cases D with
  | signaler a => cases hf
  | socket e => exact World.live_iff.mpr ⟨e,World.socketAt_eq_some_iff.mpr hD⟩

theorem Keeps.live_eq {q : Ptr} {w w' : World} (h : Keeps Dispatcher.socketFd q w w') : w'.live q = w.live q :=
  Bool.eq_iff_iff.mpr ⟨h.symm.live,h.live⟩

/-- The socket dispatcher at the address, if any, is registered if it has a descriptor. -/
def RegisteredAt (q : Ptr) (w : World) : Prop :=
  ∀ d, w.socketAt q = some d → d.s ≠ invalidSocket → (w.server.keyByDispatcher q).isSome = true

/-- The other direction holds anyway: only an open dispatcher is ever added. -/
theorem Owned.openRegistered_iff {w : World} {busy : Option Ptr} (hO : Owned w busy) :
    OpenRegistered w ↔ ∀ q, RegisteredAt q w := by
  refine ⟨fun h q d hd hv => (h q d hd).mp hv,fun h q d hd => ⟨h q d hd,fun hk hs => ?_⟩⟩
  obtain ⟨-,hn,-⟩ := World.slotAt_eq_some_iff.mp (World.slotAt_of_invalid hO hd hs)
  rw [hn] at hk
  cases hk

namespace RegisteredAt
variable {p q : Ptr} {w w' : World} {busy : Option Ptr}

theorem of_keeps (h : RegisteredAt q w) (hk : Keeps Dispatcher.socketFd q w w') : RegisteredAt q w' := by
  intro d hd hv
  have hm := hk.dispatcher
  rw [World.socketAt_eq_some_iff.mp hd, Option.map_some, eq_comm, Option.map_eq_some_iff] at hm
  obtain ⟨D,hD,hf⟩ := hm
  rw [hk.key]
  cases D with
  | signaler a => cases hf
  | socket e =>
    have hs : e.s = d.s := Option.some_inj.mp hf
    exact h e (World.socketAt_eq_some_iff.mpr hD) (hs ▸ hv)

theorem of_key {k : Key} (h : w.server.keyByDispatcher q = some k) : RegisteredAt q w := by
  intro d _ _
  rw [h]
  rfl

theorem of_vacant (h : w.vacant q = true) : RegisteredAt q w := by
  intro d hd _
  have hn : w.dispatchers q = none := by simpa [World.vacant] using h
  cases hn.symm.trans (World.socketAt_eq_some_iff.mp hd)

theorem of_invalid {d : SocketDispatcher} (hd : w.socketAt q = some d) (hs : d.s = invalidSocket) : RegisteredAt q w := by
  intro e he hv
  cases hd.symm.trans he
  exact absurd hs hv

/-- A dispatcher with a descriptor that no key finds. -/
theorem not_of_slotAt {d : SocketDispatcher} {x : Option EpollEntry} (h : w.slotAt q = some ⟨.socket d,none,x⟩)
    (hv : d.s ≠ invalidSocket) : ¬RegisteredAt q w := by
  intro hr
  have hk := hr d (World.socketAt_of_slotAt h) hv
  rw [(World.slotAt_eq_some_iff.mp h).2.1] at hk
  cases hk

theorem add : RegisteredAt p (w.add p) := by
  unfold World.add
  split
  · rename_i hk
    obtain ⟨k,hk⟩ := Option.isSome_iff_exists.mp hk
    exact of_key hk
  · rename_i hk
    have hn : w.server.keyByDispatcher p = none := by simpa using hk
    have hr : RegisteredAt p ((w.log (.added w.server.nextDispatcherKey p)).register p) := by
      refine of_key (k := w.server.nextDispatcherKey) ?_
      change emplace w.server.keyByDispatcher p w.server.nextDispatcherKey p = _
      rw [World.emplace_of_none hn, Function.update_self]
    exact hr.of_keeps (World.keeps_addEpoll _)

/-- A successful Initialize registers. -/
theorem initializeSocket {linger : Option Errno} (h : (w.initializeSocket p linger).2 = true) :
    RegisteredAt p (w.initializeSocket p linger).1 := by
  unfold World.initializeSocket at h ⊢
  split at h
  · cases h
  · split at h
    · cases h
    · rename_i d hd hv
      cases linger with
      | some e => cases h
      | none =>
        simp only [if_neg hv]
        exact add

/-- A failed Initialize changes no descriptor and no registration. -/
theorem of_initializeSocket (hw : RegisteredAt p w) (linger : Option Errno) :
    RegisteredAt p (w.initializeSocket p linger).1 := by
  cases h : (w.initializeSocket p linger).2 with
  | true => exact initializeSocket h
  | false =>
    refine hw.of_keeps ?_
    unfold World.initializeSocket at h ⊢
    split
    · exact .rfl
    · rename_i d hd
      split
      · exact .rfl
      · rename_i hv
        cases linger with
        | some e => exact World.keeps_setErrno e
        | none => simp [hd, hv] at h

theorem close (hO : Owned w busy) {d : SocketDispatcher} (hd : w.socketAt p = some d) : RegisteredAt p (w.close p) := by
  obtain ⟨⟨e,hc⟩,-⟩ := World.close_spec (P := .all) hO hd
  exact of_invalid (World.socketAt_of_slotAt hc) (World.closed_s d e)

theorem delete : RegisteredAt p (w.delete p) := of_vacant World.vacant_delete

/-- After Create only a descriptor whose SO_LINGER is not set goes unregistered. -/
theorem create_iff (hO : Owned w busy) {d : SocketDispatcher} (hd : w.socketAt p = some d) {sock : Except Errno Fd}
    (hf : (w.close p).freshAnswer sock = true) (family : Int) (type : SockType) (linger : Option Errno) :
    RegisteredAt p (w.create p family type sock linger).1 ↔ (!sock.isOk || linger.isNone) = true := by
  have hc := (World.physicalCreate_spec (P := .all) hO hd hf family type).1
  have hd' := World.socketAt_of_slotAt hc
  cases sock with
  | error e =>
    have he : (w.create p family type (.error e) linger).1 = (w.physicalCreate p family type (.error e)).1 := rfl
    have hs : (World.created w p d family type (.error e)).s = invalidSocket := by
      unfold World.created World.attached
      dsimp only
      split <;> rfl
    rw [he]
    exact iff_of_true (of_invalid hd' hs) rfl
  | ok fd =>
    have he : (w.create p family type (.ok fd) linger).1 =
        ((w.physicalCreate p family type (.ok fd)).1.initializeSocket p linger).1 := rfl
    have hv : (World.created w p d family type (.ok fd)).s ≠ invalidSocket := by
      rw [World.created_s]
      exact World.ne_invalidSocket_of_freshFd hf
    rw [he]
    cases linger with
    | none =>
      refine iff_of_true (initializeSocket ?_) rfl
      simp [World.initializeSocket, hd', hv]
    | some e =>
      refine iff_of_false ?_ Bool.false_ne_true
      simp only [World.initializeSocket, hd', if_neg hv]
      exact not_of_slotAt (w := World.setErrno _ e) hc hv

/-- A successful Create registers. -/
theorem create {family : Int} {type : SockType} {sock : Except Errno Fd} {linger : Option Errno}
    (h : (w.create p family type sock linger).2 = true) : RegisteredAt p (w.create p family type sock linger).1 := by
  unfold World.create at h ⊢
  dsimp only at h ⊢
  split at h
  · rename_i hok
    rw [if_pos hok]
    exact initializeSocket h
  · cases h

theorem createSocket (family : Int) (type : SockType) (sock : Except Errno Fd) (linger : Option Errno) :
    RegisteredAt p (w.createSocket p family type sock linger).1 := by
  unfold World.createSocket
  dsimp only
  split
  · exact create (by assumption)
  · exact delete

theorem wrapSocket (s : Fd) (soType : Option SockType) (linger : Option Errno) :
    RegisteredAt p (w.wrapSocket p s soType linger).1 := by
  rw [World.wrapSocket_eq]
  split
  · exact initializeSocket (by assumption)
  · exact delete

theorem accept {p' : Ptr} (hn : w.vacant p' = true) (res : Except Errno Fd) (soType : Option SockType)
    (linger : Option Errno) : RegisteredAt p' (w.accept p res p' soType linger).1 := by
  unfold World.accept
  dsimp only
  split
  · exact wrapSocket _ soType linger
  · have hk := (World.keeps_enableEvents (w := w) (steady_socketFd p' p) deAccept).trans
      (World.keeps_noteLastError (steady_socketFd p' p) ((w.enableEvents p deAccept).answer p res))
    exact (of_vacant hn).of_keeps hk

/-- Connect opens an unregistered dispatcher only through a Create that does not come to its end. -/
theorem connect_iff (hw : RegisteredAt p w) (hO : Owned w busy) {d : SocketDispatcher} (hd : w.socketAt p = some d)
    {sock : Except Errno Fd} (hf : w.freshAnswer sock = true) (family : Int) (linger : Option Errno)
    (res : Except Errno Unit) : RegisteredAt p (w.connect p family sock linger res).1 ↔
      (decide (d.state ≠ .closed) || decide (d.s ≠ invalidSocket) || !sock.isOk || linger.isNone) = true := by
  have hfin (w : World) : RegisteredAt p (w.finishConnect p res).1 ↔ RegisteredAt p w :=
    ⟨fun h => h.of_keeps (World.keeps_finishConnect (steady_socketFd p p) res).symm,
      fun h => h.of_keeps (World.keeps_finishConnect (steady_socketFd p p) res)⟩
  unfold World.connect World.doConnect
  simp only [hd]
  by_cases hst : d.state ≠ .closed
  · rw [if_pos hst]
    refine iff_of_true (hw.of_keeps (World.keeps_modifySocket (steady_socketFd p p) fun _ => rfl)) ?_
    simp [hst]
  · rw [if_neg hst]
    by_cases hs : d.s = invalidSocket
    · have hf' : (w.close p).freshAnswer sock = true := by rwa [World.close_of_invalid hd hs]
      have hc := create_iff hO hd hf' family .stream linger
      rw [if_pos hs]
      simp only [hst, hs, ne_eq, not_true_eq_false, decide_false, Bool.false_or]
      rw [← hc]
      split
      · exact hfin _
      · exact .rfl
    · rw [if_neg hs]
      refine iff_of_true ((hfin w).mpr hw) ?_
      simp [hs]

/-- A call about one dispatcher leaves only that one in question. -/
theorem exec_iff {o : Op} (hw : ∀ q, RegisteredAt q w) (ho : o.subjects = [p]) :
    (∀ q, RegisteredAt q (w.exec o)) ↔ RegisteredAt p (w.exec o) := by
  refine ⟨fun h => h p,fun h q => ?_⟩
  by_cases hq : q = p
  · exact hq ▸ h
  · exact (hw q).of_keeps (World.keeps_exec (by simpa [ho] using hq))

end RegisteredAt

/-- The step lemma: of the calls outside the registry, only a Create that stops halfway
leaves an open dispatcher unregistered. -/
theorem World.exec_registered_iff {w : World} {busy : Option Ptr} {o : Op} (hO : Owned w busy)
    (hw : ∀ q, RegisteredAt q w) (hr : w.ready busy o = true) (ha : o.allowed .sockets w = true) :
    (∀ q, RegisteredAt q (w.exec o)) ↔ o.opensFully w = true := by
  have hkeep (p : Ptr) (ho : o.subjects = [p]) (hf : o.opensFully w = true)
      (hk : Keeps Dispatcher.socketFd p w (w.exec o)) : (∀ q, RegisteredAt q (w.exec o)) ↔ o.opensFully w = true :=
    iff_of_true ((RegisteredAt.exec_iff hw ho).mpr ((hw p).of_keeps hk)) hf
  have hat (p : Ptr) (ho : o.subjects = [p]) (hf : o.opensFully w = true) (hp : RegisteredAt p (w.exec o)) :
      (∀ q, RegisteredAt q (w.exec o)) ↔ o.opensFully w = true :=
    iff_of_true ((RegisteredAt.exec_iff hw ho).mpr hp) hf
  cases o with
  | createSocket p family type sock linger => exact hat p rfl rfl (.createSocket family type sock linger)
  | wrapSocket p s soType linger => exact hat p rfl rfl (.wrapSocket s soType linger)
  | create p family type sock linger =>
    obtain ⟨hl,hf⟩ := Bool.and_eq_true_iff.mp hr
    obtain ⟨d,hd⟩ := live_iff.mp hl
    rw [RegisteredAt.exec_iff (p := p) hw rfl]
    exact RegisteredAt.create_iff hO hd hf family type linger
  | initializeSocket p linger => exact hat p rfl rfl ((hw p).of_initializeSocket linger)
  | bind p permitted res => exact hkeep p rfl rfl (keeps_bind (steady_socketFd p p) permitted res)
  | setOption p res => exact hkeep p rfl rfl (keeps_setOption (steady_socketFd p p) res)
  | setError p e => exact hkeep p rfl rfl (keeps_modifySocket (steady_socketFd p p) fun _ => rfl)
  | shutdown p res => exact hkeep p rfl rfl (keeps_noteErrno _)
  | connect p family sock linger res =>
    obtain ⟨hl,hf⟩ := Bool.and_eq_true_iff.mp hr
    obtain ⟨d,hd⟩ := live_iff.mp hl
    rw [RegisteredAt.exec_iff (p := p) hw rfl, Op.opensFully, hd]
    exact (hw p).connect_iff hO hd hf family linger res
  | listen p res => exact hkeep p rfl rfl (keeps_listen (steady_socketFd p p) res)
  | accept p res p' soType linger =>
    have hn : w.vacant p' = true := (Bool.and_eq_true_iff.mp (Bool.and_eq_true_iff.mp hr).1).2
    refine iff_of_true (fun q => ?_) rfl
    by_cases hq : q = p'
    · exact hq ▸ RegisteredAt.accept hn res soType linger
    · exact (hw q).of_keeps (keeps_accept (steady_socketFd q p) hq res soType linger)
  | send p cb res => exact hkeep p rfl rfl (keeps_send (steady_socketFd p p) cb res)
  | sendTo p cb res => exact hkeep p rfl rfl (keeps_send (steady_socketFd p p) cb res)
  | recv p length res => exact hkeep p rfl rfl (keeps_recv (steady_socketFd p p) length res)
  | recvFrom p res => exact hkeep p rfl rfl (keeps_recvFrom (steady_socketFd p p) res)
  | close p =>
    obtain ⟨d,hd⟩ := live_iff.mp hr
    exact hat p rfl rfl (.close hO hd)
  | destroy p => exact hat p rfl rfl .delete
  | add p => simp [Op.allowed, Policy.sockets] at ha
  | remove p => cases ha
  | update p => cases ha

private theorem Turn.keeps {p : Ptr} {d : SocketDispatcher} {κ : Option Key} {x : Option EpollEntry} {c' : Slot}
    {evs : List Event} {w w' : World} (h : Turn p ⟨.socket d,κ,x⟩ c' evs w w')
    (hf : c'.dispatcher.socketFd = some d.s) (q : Ptr) : Keeps Dispatcher.socketFd q w w' := by
  refine ⟨?_,by rw [h.server]⟩
  by_cases hq : q = p
  · rw [hq, (World.slotAt_eq_some_iff.mp h.after).1, (World.slotAt_eq_some_iff.mp h.before).1, Option.map_some,
      Option.map_some, hf]
    rfl
  · rw [h.frame.dispatchers q hq]

/-- What the loop does by itself changes no descriptor and no registration. -/
theorem LoopTurn.keeps {P : Policy} {s s' : LoopState} {a : Action} (h : LoopTurn P s a s') (ha : ∀ o, a ≠ .op o)
    (q : Ptr) : Keeps Dispatcher.socketFd q s.world s'.world := by
  cases h with
  | op => exact absurd rfl (ha _)
  | report hr => exact World.keeps_log _
  | skip hn => exact .rfl
  | pass e hp => exact (World.keeps_setErrno e).trans (World.keeps_log _)
  | start hp hff ht => exact ht.keeps rfl q
  | done => exact .rfl
  | emit hb ht =>
    refine ht.keeps ?_ q
    rw [Slot.changeEvents_dispatcher rfl]
    rfl
  | passBy hb => exact .rfl
  | finish ht =>
    refine ht.keeps ?_ q
    rw [Slot.mayBeUpdate_dispatcher]
    rfl

theorem LoopTurn.registered_iff {s s' : LoopState} {a : Action} (h : LoopTurn .sockets s a s') (hs : Sound s)
    (hw : ∀ q, RegisteredAt q s.world) : (∀ q, RegisteredAt q s'.world) ↔ a.opensFully s = true := by
  cases a with
  | op o =>
    cases h with
    | op hcan hr ha hstep => exact World.exec_registered_iff hs.owned hw hr ha
  | _ => exact iff_of_true (fun q => (hw q).of_keeps (h.keeps (fun _ => nofun) q)) rfl

private theorem start_registered {afd : Fd} (h : 0 ≤ afd) (p q : Ptr) : RegisteredAt q (World.start p afd) := by
  intro d hd _
  rw [World.socketAt_eq_some_iff, World.start_eq h] at hd
  dsimp only at hd
  rcases update_some_cases hd with ⟨-,hd⟩ | ⟨-,hd⟩
  · cases hd
  · cases hd

/-- The invariant of the runs in which every Create that gets a descriptor comes to its end. -/
theorem registered_of_opensFully {s : LoopState} (h : loopMachine.Reachable OpensFully s) :
    Sound s ∧ ∀ q, RegisteredAt q s.world := by
  refine Machine.Reachable.rule (I := fun s => Sound s ∧ ∀ q, RegisteredAt q s.world) h ?_ ?_
  · rintro s ⟨p,afd,ha,rfl⟩
    exact ⟨sound_start ha p,start_registered ha p⟩
  · rintro s a u ⟨hs,hw⟩ ⟨ha,ho⟩ he
    have ht := loopStep_turn (P := .sockets) (fun _ => rfl) hs ha he
    exact ⟨ht.sound hs,(ht.registered_iff hs hw).mpr ho⟩

/-- As long as every Create that gets a descriptor comes to its end, a dispatcher is open if
and only if it is registered; the first call that stops halfway ends that. -/
theorem open_registered {s : LoopState} (h : loopMachine.Reachable OpensFully s) :
    OpenRegistered s.world ∧ ∀ a t, Within .sockets s a → loopStep s a = some t →
      (OpenRegistered t.world ↔ a.opensFully s = true) := by
  obtain ⟨hs,hw⟩ := registered_of_opensFully h
  refine ⟨hs.owned.openRegistered_iff.mpr hw,fun a t ha he => ?_⟩
  have ht := loopStep_turn (P := .sockets) (fun _ => rfl) hs ha he
  exact (ht.sound hs).owned.openRegistered_iff.trans (ht.registered_iff hs hw)

/-- A closed socket, and a Connect on it whose SO_LINGER fails. -/
private def halfOpenRun : List Action :=
  [.op (.createSocket 1 2 .stream (.ok 5) none), .op (.close 1), .op (.connect 1 2 (.ok 6) (some 12) (.ok ()))]

private def closedSocket (s : LoopState) : Bool := (s.world.socketAt 1).any fun d => d.s == invalidSocket

theorem open_registered_closed : ∃ s : LoopState, (s.world.socketAt 1).isSome = true ∧ OpenRegistered s.world := by
  have h : (loopMachine.run OpensFully ⟨World.start 0 3,.idle⟩ (halfOpenRun.take 2)).any closedSocket = true := by
    decide +kernel
  obtain ⟨s,hs,hp⟩ := Machine.exists_reachable_of_run (init_start 0 (by decide)) h
  obtain ⟨d,hd,-⟩ := (Option.any_eq_true _ _).mp hp
  exact ⟨s,by rw [hd]; rfl,(open_registered hs).1⟩

private def connectedUnregistered (s : LoopState) : Bool :=
  (s.world.server.keyByDispatcher 1).isNone &&
    (s.world.socketAt 1).any fun d => d.s == 6 && decide (d.state = .connected)

/-- The Connect that fails leaves its descriptor; the next one uses it, succeeds, and the
connected dispatcher is registered nowhere. -/
theorem connected_unregistered : ¬∀ s : LoopState, loopMachine.Reachable (Within .sockets) s → OpenRegistered s.world := by
  intro hall
  have h : (loopMachine.run (Within .sockets) ⟨World.start 0 3,.idle⟩
      (halfOpenRun ++ [.op (.connect 1 2 (.ok 7) none (.ok ()))])).any connectedUnregistered = true := by
    decide +kernel
  obtain ⟨s,hs,hp⟩ := Machine.exists_reachable_of_run (init_start 0 (by decide)) h
  obtain ⟨hk,hp⟩ := Bool.and_eq_true_iff.mp hp
  obtain ⟨d,hd,hp⟩ := (Option.any_eq_true _ _).mp hp
  obtain ⟨hf,-⟩ := Bool.and_eq_true_iff.mp hp
  have hv : d.s ≠ invalidSocket := by
    rw [eq_of_beq hf]
    decide
  have hreg := (hall s hs 1 d hd).mp hv
  rw [Option.isNone_iff_eq_none.mp hk] at hreg
  cases hreg

end UServer.Net
