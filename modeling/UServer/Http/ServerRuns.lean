import UServer.Http.ResponseWrites
import UServer.Http.Server
import UServer.Net.KernelInterest
import UServer.Net.OpenRegistered

/-! The handlers of HTTPServer do nothing to the sockets but call their operations, so
every run of the server is a run of the event loop. -/
namespace UServer.Http
open Library Net

/-- Is there a socket with a descriptor at the address? -/
def openAt (w : World) (p : Ptr) : Bool := (w.socketAt p).any fun d => decide (d.s ≠ invalidSocket)

theorem openAt_of_keeps {p : Ptr} {w w' : World} (h : Keeps Dispatcher.socketFd p w w') : openAt w' p = openAt w p := by
  have hopen (w : World) : openAt w p = ((w.dispatchers p).map Dispatcher.socketFd).any fun fd =>
      fd.any fun fd => decide (fd ≠ invalidSocket) := by
    unfold openAt World.socketAt
    cases hd : w.dispatchers p with
    | none => rfl
    | some D => cases D <;> rfl
  rw [hopen, hopen, h.dispatcher]

theorem openAt_iff {w : World} {p : Ptr} : openAt w p = true ↔ ∃ d, w.socketAt p = some d ∧ d.s ≠ invalidSocket := by
  simp [openAt, Option.any_eq_true]

/-- The operations that the handlers on the signals of one socket call. -/
inductive HandlerOp (p : Ptr) : Op → Prop
  | recv (length : Nat) (res : Except Errno Nat) : HandlerOp p (.recv p length res)
  | send (cb : Nat) (res : Except Errno Nat) : HandlerOp p (.send p cb res)
  | accept (res : Except Errno Fd) (p' : Ptr) (soType : Option SockType) (linger : Option Errno) :
    HandlerOp p (.accept p res p' soType linger)
  | close : HandlerOp p (.close p)

namespace Exchange
variable {p : Ptr} {I : World → Prop}

/-- What every Send keeps, the loop of OnWrite keeps. -/
theorem writeLoop_rule (response : Response) (hI : ∀ w cb res, I w → I (w.send p cb res).1) (sends : List SendOutcome)
    (readIdx : Nat) (x : Exchange) (h : I x.world) : I (writeLoop response p sends readIdx x).1.world := by
  induction sends generalizing readIdx x with
  | nil => exact hI _ _ _ h
  | cons o sends ih =>
    unfold writeLoop
    dsimp only
    split
    · exact ih _ _ (hI _ _ _ h)
    · exact hI _ _ _ h

/-- What every Recv keeps, the loop of OnRead keeps. -/
theorem readLoop_rule (hI : ∀ w res, I w → I (w.recv p readBufferSize res).1) (recvs : List (Except Errno Nat))
    (w : World) (received : Int) (h : I w) : I (readLoop p recvs w received).1 := by
  induction recvs generalizing w received with
  | nil => exact hI _ _ h
  | cons r recvs ih =>
    unfold readLoop
    dsimp only
    split
    · exact ih _ _ (hI _ _ h)
    · exact hI _ _ h

end Exchange

/-- The subscriptions that are made once, right after the socket. -/
def Slots.lasting (c : Slots) : Option Reader × Bool := (c.read,c.close)

namespace HttpServer
variable {response : Response} {p : Ptr} {s t : HttpServer} {I : LoopState → Prop}

@[simp] theorem locked_loop (s : HttpServer) (p : Ptr) (signal : Signal) (f : Slots → Slots) :
    (s.locked p signal f).loop = s.loop := by
  unfold locked
  split <;> rfl

@[simp] theorem welcome_loop (s : HttpServer) (client : Ptr) : (s.welcome client).loop = s.loop := by
  unfold welcome
  dsimp only
  split
  · simp [connectRead, setSlots]
  · simp [connectRead, connectClose, setSlots]

theorem onWrite_loop (s : HttpServer) (sends : List SendOutcome) : (s.onWrite response p sends).1.loop =
    ⟨(Exchange.writeLoop response p sends 0 (s.exchange p)).1.world,s.loop.control⟩ := by
  unfold onWrite
  dsimp only
  split
  · simp [disconnectWrite, setWorld]
  · rfl

/-- Recv reports the end of the stream as would-block, so the loop of OnRead never ends with zero. -/
theorem lastRet_ne_zero (recvs : List (Except Errno Nat)) (w : World) : lastRet p recvs w ≠ 0 := by
  have hrecv (w : World) (res : Except Errno Nat) : (w.recv p Exchange.readBufferSize res).2 ≠ 0 := by
    unfold World.recv
    split
    · exact Int.neg_ne_zero.mpr Int.one_ne_zero
    · rename_i hz
      unfold World.recvFrom
      dsimp only
      split
      · exact Int.neg_ne_zero.mpr Int.one_ne_zero
      · exact fun hret => hz ⟨hret,by decide⟩
  induction recvs generalizing w with
  | nil => exact hrecv w _
  | cons r recvs ih =>
    unfold lastRet
    dsimp only
    split
    · exact ih _
    · exact hrecv w r

/-- What the steps of OnRead after its loop keep, OnRead keeps: it never counts a client off. -/
theorem onRead_steps {recvs : List (Except Errno Nat)} {sends : List SendOutcome} {J : HttpServer → Prop}
    (hread : J (s.setWorld (Exchange.readLoop p recvs s.world 0).1)) (hconnect : ∀ s, J s → J (s.connectWrite p))
    (hwrite : ∀ s, J s → J (s.onWrite response p sends).1) : J (s.onRead response p recvs sends) := by
  unfold onRead
  dsimp only
  set s₁ := s.setWorld (Exchange.readLoop p recvs s.world 0).1 with hs₁
  set s₂ := if 0 < (Exchange.readLoop p recvs s.world 0).2 then
      if (s₁.connectWrite p).hung then s₁.connectWrite p else ((s₁.connectWrite p).onWrite response p sends).1
    else s₁ with hs₂
  have h₂ : J s₂ := by
    rw [hs₂]
    split
    · split
      · exact hconnect _ hread
      · exact hwrite _ (hconnect _ hread)
    · exact hread
  split
  · exact h₂
  · rw [if_neg (lastRet_ne_zero recvs s.world)]
    exact h₂

/-- What every OnWrite keeps, the slots of SignalWriteEvent keep. -/
theorem emitWrite_steps {J : HttpServer → Prop} (hwrite : ∀ s sends, J s → J (s.onWrite response p sends).1) (slots : Nat)
    (sends : List SendOutcome) (s : HttpServer) (h : J s) : J (emitWrite response p slots sends s) := by
  induction slots generalizing sends s with
  | zero => exact h
  | succ slots ih =>
    have hw := hwrite s sends h
    unfold emitWrite
    dsimp only
    split
    · exact hw
    · exact ih _ _ hw

/-- What every Accept keeps together with the connections to its client, if it returns one, the loop of OnAccept keeps. -/
theorem acceptLoop_rule_of_result {J : HttpServer → Prop}
    (haccept : ∀ (s : HttpServer) (a : AcceptAnswer), J s →
      s.world.ready s.loop.control.busy (.accept p a.res a.address a.soType a.linger) = true →
      J (if (s.world.accept p a.res a.address a.soType a.linger).2 then
        (s.setWorld (s.world.accept p a.res a.address a.soType a.linger).1).welcome a.address
      else s.setWorld (s.world.accept p a.res a.address a.soType a.linger).1))
    (n : Nat) (accepts : List AcceptAnswer) (s : HttpServer) (h : J s) (ht : acceptLoop p n accepts s = some t) : J t := by
  induction n generalizing accepts s with
  | zero =>
    cases ht
    exact h
  | succ n ih =>
    cases accepts with
    | nil => cases ht
    | cons a accepts =>
      unfold acceptLoop at ht
      split at ht
      · rename_i hr
        have ha := haccept s a h hr
        dsimp only at ht
        split at ht
        · rename_i hok
          rw [if_pos hok] at ha
          split at ht
          · cases ht
            exact ha
          · exact ih accepts _ ha ht
        · rename_i hok
          rw [if_neg hok] at ha
          split at ht
          · exact ih accepts _ ha ht
          · cases ht
            exact ha
      · cases ht

/-- What every Accept keeps, with a client to connect or without, the loop of OnAccept keeps. -/
theorem acceptLoop_steps {J : HttpServer → Prop}
    (haccept : ∀ (s : HttpServer) (a : AcceptAnswer), J s →
      s.world.ready s.loop.control.busy (.accept p a.res a.address a.soType a.linger) = true →
      J (s.setWorld (s.world.accept p a.res a.address a.soType a.linger).1) ∧
        ((s.world.accept p a.res a.address a.soType a.linger).2 = true →
          J ((s.setWorld (s.world.accept p a.res a.address a.soType a.linger).1).welcome a.address)))
    (n : Nat) (accepts : List AcceptAnswer) (s : HttpServer) (h : J s) (ht : acceptLoop p n accepts s = some t) : J t := by
  refine acceptLoop_rule_of_result (fun u a hu hr => ?_) n accepts s h ht
  obtain ⟨ha,hw⟩ := haccept u a hu hr
  split
  · rename_i hok
    exact hw hok
  · exact ha

section Lasting
variable {q : Ptr}

theorem locked_lasting {signal : Signal} {f : Slots → Slots} (hf : ∀ c, (f c).lasting = c.lasting) (q : Ptr) :
    ((s.locked p signal f).slots q).lasting = (s.slots q).lasting := by
  unfold locked
  split
  · rfl
  · simp only [setSlots]
    by_cases hq : q = p
    · rw [hq, Function.update_self, hf]
    · rw [Function.update_of_ne hq]

theorem onWrite_lasting (sends : List SendOutcome) :
    ((s.onWrite response p sends).1.slots q).lasting = (s.slots q).lasting := by
  unfold onWrite
  dsimp only
  split
  · exact locked_lasting (f := fun c => { c with write := c.write - 1 }) (fun _ => rfl) q
  · rfl

theorem onRead_lasting (recvs : List (Except Errno Nat)) (sends : List SendOutcome) :
    ((s.onRead response p recvs sends).slots q).lasting = (s.slots q).lasting := by
  refine onRead_steps (J := fun u => (u.slots q).lasting = (s.slots q).lasting) rfl (fun u hu => ?_)
    fun u hu => (onWrite_lasting sends).trans hu
  exact (locked_lasting (f := fun c => { c with write := c.write + 1 }) (fun _ => rfl) q).trans hu

theorem locked_slots_ne (hq : q ≠ p) (signal : Signal) (f : Slots → Slots) :
    (s.locked p signal f).slots q = s.slots q := by
  unfold locked
  split
  · rfl
  · exact Function.update_of_ne hq _ _

theorem welcome_slots_ne {client : Ptr} (hq : q ≠ client) : (s.welcome client).slots q = s.slots q := by
  have hnew : (s.setSlots client fun _ => ⟨none,0,false⟩).slots q = s.slots q := Function.update_of_ne hq _ _
  unfold welcome
  dsimp only
  split
  · exact (locked_slots_ne hq _ _).trans hnew
  · exact (Function.update_of_ne hq _ _).trans ((locked_slots_ne hq _ _).trans hnew)

/-- OnAccept connects to the signals of other sockets than the one whose signal is emitted. -/
theorem welcome_eq {client : Ptr} (hp : client ≠ p) (he : s.emitting = some (p,.read)) (hh : s.hung = false) :
    s.welcome client = { s with
      slots := Function.update s.slots client ⟨some .onRead,0,true⟩
      handed := Function.update s.handed client []
      clientCount := s.clientCount + 1 } := by
  have hne (signal : Signal) : some (p,Signal.read) ≠ some (client,signal) := by
    simp [Ne.symm hp]
  simp [welcome, connectRead, connectClose, locked, setSlots, he, hh, hne]

/-- OnAccept connects OnRead and OnClose to nothing but the sockets that it makes. -/
theorem acceptLoop_lasting (n : Nat) (accepts : List AcceptAnswer) (s : HttpServer) (hl : s.world.live q = true)
    (ht : acceptLoop p n accepts s = some t) : (t.slots q).lasting = (s.slots q).lasting := by
  refine (acceptLoop_steps (J := fun u => (u.slots q).lasting = (s.slots q).lasting ∧ u.world.live q = true) ?_ n
    accepts s ⟨rfl,hl⟩ ht).1
  rintro u a ⟨hu,hl⟩ hr
  have hq : q ≠ a.address := World.ne_of_vacant hl (Bool.and_eq_true_iff.mp (Bool.and_eq_true_iff.mp hr).1).2
  have hl' := (World.keeps_accept (steady_socketFd q p) hq a.res a.soType a.linger).live hl
  have hw : ((u.setWorld (u.world.accept p a.res a.address a.soType a.linger).1).welcome a.address).world.live q =
      true := by
    rw [world, welcome_loop]
    exact hl'
  rw [welcome_slots_ne hq]
  exact ⟨⟨hu,hl'⟩,fun _ => ⟨hu,hw⟩⟩

/-- An emission leaves the lasting subscriptions of the sockets that are there. -/
theorem emit_lasting {signal : Signal} {io : Answers} (hl : s.world.live q = true)
    (ht : emit response p signal io s = some t) : (t.slots q).lasting = (s.slots q).lasting := by
  obtain ⟨u,hu,rfl⟩ := Option.map_eq_some_iff.mp ht
  have hslots : (if u.hung then u else { u with emitting := none }).slots = u.slots := by
    split <;> rfl
  rw [hslots]
  unfold callSlots at hu
  cases signal with
  | read =>
    dsimp only at hu
    split at hu
    · cases hu
      rfl
    · exact acceptLoop_lasting (s := { s with emitting := some (p,.read) }) _ _ hl hu
    · cases hu
      exact onRead_lasting (s := { s with emitting := some (p,.read) }) _ _
  | write =>
    cases hu
    exact emitWrite_steps (J := fun u => (u.slots q).lasting = (s.slots q).lasting)
      (fun u sends hu => (onWrite_lasting sends).trans hu) _ _ { s with emitting := some (p,.write) } rfl
  | connect =>
    cases hu
    rfl
  | close =>
    cases hu
    split <;> rfl

end Lasting

section Rule
variable (hop : ∀ l o, I l → HandlerOp p o → o ≠ .close p → l.world.ready l.control.busy o = true →
    I ⟨l.world.exec o,l.control⟩)
  (hlive : ∀ l, I l → l.world.live p = true)
include hop hlive

private theorem onWrite_rule (sends : List SendOutcome) (s : HttpServer) (h : I s.loop) :
    I (s.onWrite response p sends).1.loop := by
  rw [onWrite_loop]
  exact Exchange.writeLoop_rule (I := fun w => I ⟨w,s.loop.control⟩) response
    (fun w cb res hw => hop ⟨w,_⟩ _ hw (.send cb res) nofun (hlive _ hw)) sends 0 (s.exchange p) h

/-- What every Send keeps after the loop of OnRead, all of OnRead keeps. -/
theorem onRead_rule_of_read {recvs : List (Except Errno Nat)} (sends : List SendOutcome)
    (h : I ⟨(Exchange.readLoop p recvs s.world 0).1,s.loop.control⟩) : I (s.onRead response p recvs sends).loop := by
  refine onRead_steps (J := fun s => I s.loop) h (fun s hs => ?_) fun s hs => onWrite_rule hop hlive sends s hs
  rw [connectWrite, locked_loop]
  exact hs

private theorem onRead_rule (recvs : List (Except Errno Nat)) (sends : List SendOutcome) (s : HttpServer)
    (h : I s.loop) : I (s.onRead response p recvs sends).loop :=
  onRead_rule_of_read hop hlive sends (Exchange.readLoop_rule (I := fun w => I ⟨w,s.loop.control⟩)
    (fun w res hw => hop ⟨w,_⟩ _ hw (.recv _ res) nofun (hlive _ hw)) recvs s.world 0 h)

omit hlive in
private theorem acceptLoop_rule (n : Nat) (accepts : List AcceptAnswer) (s : HttpServer) (h : I s.loop)
    (ht : acceptLoop p n accepts s = some t) : I t.loop := by
  refine acceptLoop_steps (J := fun s => I s.loop) (fun s a h hr => ?_) n accepts s h ht
  have ha := hop s.loop _ h (.accept a.res a.address a.soType a.linger) nofun hr
  rw [welcome_loop]
  exact ⟨ha,fun _ => ha⟩

/-- What the operations of the handlers keep, an emission keeps; OnClose calls Close. -/
theorem emit_rule (signal : Signal) (io : Answers)
    (hclose : ∀ l, I l → signal = .close → (s.slots p).close = true → I ⟨l.world.exec (.close p),l.control⟩)
    (h : I s.loop) (ht : emit response p signal io s = some t) : I t.loop := by
  obtain ⟨u,hu,rfl⟩ := Option.map_eq_some_iff.mp ht
  have hloop : (if u.hung then u else { u with emitting := none }).loop = u.loop := by
    split <;> rfl
  rw [hloop]
  unfold callSlots at hu
  cases signal with
  | read =>
    dsimp only at hu
    split at hu
    · cases hu
      exact h
    · exact acceptLoop_rule hop _ _ { s with emitting := some (p,.read) } h hu
    · cases hu
      exact onRead_rule hop hlive _ _ _ h
  | write =>
    cases hu
    exact emitWrite_steps (J := fun s => I s.loop) (fun s sends hs => onWrite_rule hop hlive sends s hs) _ _ _ h
  | connect =>
    cases hu
    exact h
  | close =>
    cases hu
    split
    · rename_i hslot
      exact hclose s.loop h rfl hslot
    · exact h

end Rule
end HttpServer

/-- Within the quiet policy, and every Create comes to its end. -/
def Regular (s : LoopState) (a : Action) : Prop := Within .quiet s a ∧ a.opensFully s = true

theorem HandlerOp.regular {p : Ptr} {o : Op} (h : HandlerOp p o) (s : LoopState) : Regular s (.op o) := by
  cases h <;> exact ⟨rfl,rfl⟩

/-- A call of the application is a step of the loop machine. -/
theorem reaches_op {l : LoopState} {o : Op} (hcan : l.control.canCall = true)
    (hr : l.world.ready l.control.busy o = true) (ha : Regular l (.op o)) :
    loopMachine.Reaches Regular l ⟨l.world.exec o,l.control⟩ := by
  refine .single ⟨.op o,ha,?_⟩
  simp [loopMachine, loopStep, hcan, hr]

theorem regular_sound {l : LoopState} (h : loopMachine.Reachable Regular l) : Sound l :=
  (loop_rule (P := .quiet) (I := fun _ => True) (fun _ => rfl) (h.mono fun _ _ ha => ha.1) (fun _ _ _ => trivial)
    fun _ _ _ _ _ _ => trivial).1

/-- The handlers keep the dispatcher that they are called on. -/
theorem HandlerOp.live {p : Ptr} {o : Op} {w : World} {busy : Option Ptr} (h : HandlerOp p o) (hl : w.live p = true)
    (hr : w.ready busy o = true) : (w.exec o).live p = true := by
  cases h with
  | recv length res => exact (World.keeps_recv (steady_socketFd p p) length res).live hl
  | send cb res => exact (World.keeps_send (steady_socketFd p p) cb res).live hl
  | accept res p' soType linger =>
    have hn : w.vacant p' = true := (Bool.and_eq_true_iff.mp (Bool.and_eq_true_iff.mp hr).1).2
    exact (World.keeps_accept (steady_socketFd p p) (World.ne_of_vacant hl hn) res soType linger).live hl
  | close =>
    obtain ⟨d,hd⟩ := World.live_iff.mp hl
    obtain ⟨d',hd',-⟩ := World.close_socketAt hd
    exact World.live_iff.mpr ⟨d',hd'⟩

/-- Initialize on a fresh server is a run of calls before the first wait. -/
private theorem initialize_reachable {a : Startup} {w : World} (h₀ : 0 ≤ a.afd)
    (hr : (World.start a.signaler a.afd).ready none (.createSocket a.listener afInet .stream a.sock a.linger) = true)
    (h : a.initialize = some (w,true)) : loopMachine.Reachable Regular ⟨w,.idle⟩ := by
  have hcall {w : World} {o : Op} (hw : loopMachine.Reachable Regular ⟨w,.idle⟩) (hr : w.ready none o = true)
      (ha : Regular ⟨w,.idle⟩ (.op o)) : loopMachine.Reachable Regular ⟨w.exec o,.idle⟩ := by
    obtain ⟨s,hs,hreach⟩ := hw
    exact ⟨s,hs,hreach.trans (reaches_op rfl hr ha)⟩
  unfold Startup.initialize at h
  dsimp only at h
  split at h
  · rename_i hok
    have h₁ : loopMachine.Reachable Regular ⟨World.start a.signaler a.afd,.idle⟩ := ⟨_,init_start a.signaler h₀,.refl⟩
    have h₂ := hcall h₁ hr ⟨rfl,rfl⟩
    have hl₂ := World.createSocket_live hok
    have h₃ := hcall (o := .setOption a.listener a.reuseAddr) h₂ hl₂ ⟨rfl,rfl⟩
    have hl₃ := (World.keeps_setOption (steady_socketFd a.listener a.listener) a.reuseAddr).live hl₂
    have h₄ := hcall (o := .bind a.listener a.anyOrLoopback a.bound) h₃ hl₃ ⟨rfl,rfl⟩
    have hl₄ := (World.keeps_bind (steady_socketFd a.listener a.listener) a.anyOrLoopback a.bound).live hl₃
    have h₅ := hcall (o := .listen a.listener a.listened) h₄ hl₄ ⟨rfl,rfl⟩
    split at h
    · cases h
    · split at h
      · cases h
      · cases h
        exact h₅
  · cases h

/-- A quiet step uses no registry operation and is no Create that stops halfway. -/
theorem Regular.opensFully {s : LoopState} {a : Action} (h : Regular s a) : OpensFully s a := by
  refine ⟨?_,h.2⟩
  cases a with
  | op o =>
    have ha := h.1
    cases o with
    | connect p family sock linger res =>
      cases res <;> simp [Within, Action.allowed, Op.allowed, Policy.sockets, Policy.all, Policy.createsWithin,
        Policy.connectsWithin]
    | add p => simp [Within, Action.allowed, Op.allowed, Policy.quiet, Policy.sockets] at ha
    | remove p => simp [Within, Action.allowed, Op.allowed, Policy.quiet, Policy.sockets] at ha
    | update p => simp [Within, Action.allowed, Op.allowed, Policy.quiet, Policy.sockets] at ha
    | _ => simp [Within, Action.allowed, Op.allowed, Policy.sockets, Policy.all, Policy.createsWithin]
  | _ => rfl

/-- In every run of the server an open socket is registered. -/
theorem regular_registered {l : LoopState} (h : loopMachine.Reachable Regular l) (q : Ptr) : RegisteredAt q l.world :=
  (registered_of_opensFully (h.mono fun _ _ ha => ha.opensFully)).2 q

/-- In every run of the server the kernel's interest is right between two events. -/
theorem regular_interest {l : LoopState} (h : loopMachine.Reachable Regular l) (hbusy : l.control.busy = none) :
    InterestFollows l.world := by
  obtain ⟨hs,hw⟩ := loop_rule (P := .quiet) (fun _ => rfl) (h.mono fun _ _ ha => ha.1)
    (fun p afd ha => start_synced ha p) fun _ _ _ hs hi ht => ht.synced hs hi
  exact interestFollows_of_synced (hbusy ▸ hs.owned) hw

/-- What OnEvent has still to do is an end of its conditionals. -/
theorem todo_suffix {l : LoopState} (h : loopMachine.Reachable Regular l) {rest : List PendingEvent} {key : Key}
    {p : Ptr} {ff : EventMask} {err : Errno} {handler : Bool} {todo : List EventMask}
    (hc : l.control = .onEvent rest key p ff err handler todo) : todo <:+ onEventStages := by
  have hi := (loop_rule (P := .quiet) (I := fun l => l.control.todo <:+ onEventStages) (fun _ => rfl)
    (h.mono fun _ _ ha => ha.1) (fun _ _ _ => List.nil_suffix) fun _ _ _ _ hi ht => ht.stages hi).2
  rw [hc] at hi
  exact hi

/-- The dispatcher whose OnEvent runs is a live socket. -/
theorem live_of_onEvent {l : LoopState} (h : loopMachine.Reachable Regular l) {rest : List PendingEvent} {key : Key}
    {p : Ptr} {ff : EventMask} {err : Errno} {handler : Bool} {todo : List EventMask}
    (hc : l.control = .onEvent rest key p ff err handler todo) : l.world.live p = true := by
  obtain ⟨d,κ,x,hslot,-⟩ := (regular_sound h).owned.slotAt_of_busy (by rw [hc]; rfl)
  exact World.live_iff.mpr ⟨d,World.socketAt_of_slotAt hslot⟩

/-- What the operations of the handlers keep in sound states, an emission keeps. -/
theorem emission_rule {response : Response} {s t : HttpServer} {rest : List PendingEvent} {key : Key} {p : Ptr}
    {ff : EventMask} {err : Errno} {todo : List EventMask} {signal : Signal} {io : Answers} {I : LoopState → Prop}
    (hs : loopMachine.Reachable Regular s.loop) (hc : s.loop.control = .onEvent rest key p ff err true todo)
    (hop : ∀ l o, Sound l → l.world.live p = true → I l → HandlerOp p o → l.world.ready l.control.busy o = true →
      I ⟨l.world.exec o,l.control⟩)
    (h : I s.loop) (ht : HttpServer.emit response p signal io s = some t) :
    loopMachine.Reachable Regular t.loop ∧ I t.loop := by
  have hlive : s.loop.world.live p = true := live_of_onEvent hs hc
  set J : LoopState → Prop := fun l => loopMachine.Reachable Regular l ∧ l.control = s.loop.control ∧
    l.world.live p = true ∧ I l with hJ
  have hkeep (l : LoopState) (o : Op) (hl : J l) (ho : HandlerOp p o) (hready : l.world.ready l.control.busy o = true) :
      J ⟨l.world.exec o,l.control⟩ := by
    obtain ⟨⟨i,hi,hr⟩,hcl,hlive,hl⟩ := hl
    have hcan : l.control.canCall = true := by
      rw [hcl, hc]
      rfl
    exact ⟨⟨i,hi,hr.trans (reaches_op hcan hready (ho.regular l))⟩,hcl,ho.live hlive hready,
      hop l o (regular_sound ⟨i,hi,hr⟩) hlive hl ho hready⟩
  have hi := HttpServer.emit_rule (I := J) (fun l o hl ho _ hready => hkeep l o hl ho hready) (fun _ hl => hl.2.2.1)
    signal io (fun l hl _ _ => hkeep l _ hl .close hl.2.2.1) ⟨hs,rfl,hlive,h⟩ ht
  exact ⟨hi.1,hi.2.2.2⟩

/-- What one step of the server can do: a step of the loop that emits nothing, or a conditional of
OnEvent that disarms its event and emits the signal. -/
inductive HttpTurn (response : Response) (s : HttpServer) (a : HttpAction) : HttpServer → Prop
  | quiet {l : LoopState} (he : a.emission s = none) (hl : loopStep s.loop a.loopAction = some l) :
    HttpTurn response s a { s with loop := l }
  | emits {t : HttpServer} {rest : List PendingEvent} {key : Key} {p : Ptr} {ff : EventMask} {err : Errno}
      {handler : Bool} {signal : EventMask} {todo : List EventMask} {io : Answers}
      (he : a.emission s = some (p,signal,io))
      (hc : s.loop.control = .onEvent rest key p ff err handler (signal :: todo)) (hsig : has ff signal = true)
      (hl : loopStep s.loop a.loopAction = some ⟨s.world.onEventStage p ff signal,.onEvent rest key p ff err true todo⟩)
      (ht : HttpServer.emit response p (signalOf signal) io { s with
        loop := ⟨s.world.onEventStage p ff signal,.onEvent rest key p ff err true todo⟩ } = some t) :
    HttpTurn response s a t

theorem emission_eq_some {s : HttpServer} {a : HttpAction} {p : Ptr} {signal : EventMask} {io : Answers}
    (h : a.emission s = some (p,signal,io)) : a = .advance io ∧ ∃ rest key ff err handler todo,
      s.loop.control = .onEvent rest key p ff err handler (signal :: todo) ∧ has ff signal = true := by
  cases a with
  | advance io' =>
    unfold HttpAction.emission at h
    dsimp only at h
    split at h
    · rename_i hc
      split at h
      · cases h
        exact ⟨rfl,_,_,_,_,_,_,hc,by assumption⟩
      · cases h
    · cases h
  | _ => cases h

theorem httpStep_turn {response : Response} {s t : HttpServer} {a : HttpAction} (h : httpStep response s a = some t) :
    s.hung = false ∧ HttpTurn response s a t := by
  unfold httpStep at h
  split at h
  · cases h
  · rename_i hh
    refine ⟨by simpa using hh,?_⟩
    obtain ⟨l,hl,h⟩ := Option.bind_eq_some_iff.mp h
    split at h
    · rename_i he
      cases h
      exact .quiet he hl
    · rename_i p signal io he
      obtain ⟨rfl,rest,key,ff,err,handler,todo,hc,hsig⟩ := emission_eq_some he
      have hl' := hl
      simp only [HttpAction.loopAction, loopStep, hc, hsig, Option.some_inj] at hl'
      cases hl'
      exact .emits he hc hsig hl h

/-- The loop's part of a step is within the bounds of the loop's own runs. -/
theorem HttpAction.regular (a : HttpAction) (l : LoopState) : Regular l a.loopAction := by
  cases a <;> exact ⟨rfl,rfl⟩

/-- A step of the loop that is none of its handlers' operations keeps every socket and descriptor. -/
theorem keeps_of_quiet {s : HttpServer} {a : HttpAction} {l : LoopState} (hs : loopMachine.Reachable Regular s.loop)
    (hl : loopStep s.loop a.loopAction = some l) (q : Ptr) : Keeps Dispatcher.socketFd q s.world l.world := by
  have ht := loopStep_turn (P := .quiet) (fun _ => rfl) (regular_sound hs) (a.regular s.loop).1 hl
  refine ht.keeps (fun o h => ?_) q
  cases a with
  | report => cases h
  | next => cases h
  | advance => cases h

theorem reachable_next {l l' : LoopState} {a : Action} (h : loopMachine.Reachable Regular l) (ha : Regular l a)
    (he : loopStep l a = some l') : loopMachine.Reachable Regular l' := by
  obtain ⟨i,hi,hr⟩ := h
  exact ⟨i,hi,hr.tail ⟨a,ha,he⟩⟩

theorem HttpTurn.reachable {response : Response} {s t : HttpServer} {a : HttpAction} (h : HttpTurn response s a t)
    (hs : loopMachine.Reachable Regular s.loop) : loopMachine.Reachable Regular t.loop := by
  cases h with
  | quiet he hl => exact reachable_next hs (a.regular _) hl
  | emits he hc hsig hl ht =>
    exact (emission_rule (I := fun _ => True) (reachable_next hs (a.regular _) hl) rfl
      (fun _ _ _ _ _ _ _ => trivial) trivial ht).1

/-- An invariant of every run of the server from what Initialize leaves, all of which are runs of the event loop. -/
theorem initialized_rule {response : Response} {ok : HttpServer → HttpAction → Prop} {s : HttpServer}
    (h : (httpMachine response).Reachable ok s) {I : HttpServer → Prop}
    (h₀ : ∀ (a : Startup) w, a.initialize = some (w,true) → I (a.server w))
    (hstep : ∀ s a t, loopMachine.Reachable Regular s.loop → s.hung = false → I s → ok s a →
      HttpTurn response s a t → I t) :
    loopMachine.Reachable Regular s.loop ∧ I s := by
  refine h.rule (I := fun s => loopMachine.Reachable Regular s.loop ∧ I s) ?_ ?_
  · rintro s ⟨a,w,hfd,hr,hi,rfl⟩
    exact ⟨initialize_reachable hfd hr hi,h₀ a w hi⟩
  · rintro s a t ⟨hs,hi⟩ ha ht
    obtain ⟨hh,ht⟩ := httpStep_turn ht
    exact ⟨ht.reachable hs,hstep s a t hs hh hi ha ht⟩

/-- An invariant that holds of any such state, whatever Initialize did. -/
theorem server_rule {response : Response} {ok : HttpServer → HttpAction → Prop} {s : HttpServer}
    (h : (httpMachine response).Reachable ok s) {I : HttpServer → Prop} (h₀ : ∀ (a : Startup) w, I (a.server w))
    (hstep : ∀ s a t, loopMachine.Reachable Regular s.loop → s.hung = false → I s → ok s a →
      HttpTurn response s a t → I t) :
    loopMachine.Reachable Regular s.loop ∧ I s :=
  initialized_rule h (fun a w _ => h₀ a w) hstep

/-- Every run of the server is a run of the event loop. -/
theorem server_refines_loop {response : Response} {ok : HttpServer → HttpAction → Prop} {s : HttpServer}
    (h : (httpMachine response).Reachable ok s) : loopMachine.Reachable Regular s.loop :=
  (server_rule (I := fun _ => True) h (fun _ _ => trivial) fun _ _ _ _ _ _ _ _ => trivial).1

/-- The thread can only be blocked inside an event. -/
theorem running_between_events {response : Response} {ok : HttpServer → HttpAction → Prop} {s : HttpServer}
    (h : (httpMachine response).Reachable ok s) (hbusy : s.loop.control.busy = none) : s.hung = false := by
  have hi := (server_rule (I := fun s => s.hung = true → s.loop.control.busy ≠ none) h (fun _ _ => nofun) ?_).2
  · by_contra hh
    exact hi ((Bool.not_eq_false _).mp hh) hbusy
  · intro s a t hs hh _ _ ht hung
    cases ht with
    | quiet he hl =>
      rw [show s.hung = true from hung] at hh
      cases hh
    | @emits _ rest key p ff err handler signal todo io he hc hsig hl ht =>
      have hb : t.loop.control.busy = some p :=
        (emission_rule (I := fun l => l.control.busy = some p) (reachable_next hs (a.regular _) hl) rfl
          (fun _ _ _ _ hl _ _ => hl) rfl ht).2
      rw [hb]
      exact nofun

/-- A start on which every system call succeeds: the listener has descriptor 4. -/
def plainStartup : Startup := ⟨0,3,1,.ok 4,none,.ok (),true,.ok (),.ok ()⟩

private def plainStart : Option (World × Bool) := plainStartup.initialize

def plainServer : HttpServer := plainStartup.server (plainStart.elim (World.start 0 3) Prod.fst)

theorem plainServer_init (response : Response) : (httpMachine response).init plainServer := by
  have hi : plainStart.any Prod.snd = true := by decide +kernel
  obtain ⟨⟨w,ok⟩,hw,rfl⟩ := (Option.any_eq_true _ _).mp hi
  refine ⟨plainStartup,w,by decide,by decide +kernel,hw,?_⟩
  rw [plainServer, hw]
  rfl

/-- A response of one byte. -/
def shortResponse : Response := ⟨[72],by decide⟩

/-- The listener reports a client, which gets descriptor 5 and address 2. -/
def oneClient : List HttpAction :=
  [.report [(4,epollIn)], .next (.ok 0) (.error 107), .advance ⟨[],[],[]⟩,
    .advance ⟨[⟨.ok 5,2,some .stream,none⟩,⟨.error eagain,3,none,none⟩],[],[]⟩, .advance ⟨[],[],[]⟩,
    .advance ⟨[],[],[]⟩, .advance ⟨[],[],[]⟩, .advance ⟨[],[],[]⟩, .next (.ok 0) (.ok 1)]

/-- The client closes its end of the stream, and OnClose its socket. -/
def clientLeaves : List HttpAction :=
  oneClient ++ [.report [(5,epollIn)], .next (.ok 0) (.ok 0)] ++ List.replicate 6 (.advance ⟨[],[],[]⟩)

/-- Accepting the client is operations of the loop. -/
theorem oneClient_refines_loop :
    ∃ s : HttpServer, s.clientCount = 1 ∧ loopMachine.Reachable Regular s.loop := by
  have h : ((httpMachine shortResponse).run Machine.Free plainServer oneClient).any
      (fun s => decide (s.clientCount = 1)) = true := by
    decide +kernel
  obtain ⟨s,hs,hc⟩ := Machine.exists_reachable_of_run (plainServer_init shortResponse) h
  exact ⟨s,of_decide_eq_true hc,server_refines_loop hs⟩

/-- The client is readable and writable at once; its request is read, and the stages go on. -/
def oneRequest (recvs : List (Except Errno Nat)) (first second : List SendOutcome) : List HttpAction :=
  [.report [(5,epollIn ||| epollOut)], .next (.ok 0) (.ok 1), .advance ⟨[],[],[]⟩, .advance ⟨[],[],[]⟩,
    .advance ⟨[],recvs,first⟩, .advance ⟨[],[],second⟩]

end UServer.Http
