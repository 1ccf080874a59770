import UServer.Http.ClientCount

/-! Does the server go on listening, whatever its clients do? OnEvent disarms DE_ACCEPT before it calls OnAccept, and
the first thing that each Accept does is to arm it again. -/
namespace UServer.Http
open Library Net

/-- An open socket with DE_ACCEPT enabled. -/
def ListensAt (p : Ptr) (w : World) : Prop :=
  ∃ d, w.socketAt p = some d ∧ d.s ≠ invalidSocket ∧ has d.enabledEvents deAccept = true

/-- The socket that OnAccept is connected to, and OnClose is not. -/
structure Listening (p : Ptr) (s : HttpServer) : Prop where
  accepts : (s.slots p).read = some .onAccept
  stays : (s.slots p).close = false
  listens : ListensAt p s.world

namespace ListensAt
variable {p q : Ptr} {w w' : World}

theorem of_eq (h : ListensAt q w) (he : w'.socketAt q = w.socketAt q) : ListensAt q w' := by
  unfold ListensAt
  rw [he]
  exact h

theorem openAt (h : ListensAt q w) : openAt w q = true := by
  obtain ⟨d,hd,hv,-⟩ := h
  exact openAt_iff.mpr ⟨d,hd,hv⟩

theorem setError (h : ListensAt p w) (e : Errno) : ListensAt p (w.setError p e) := by
  obtain ⟨d,hd,hv,he⟩ := h
  exact ⟨_,World.socketAt_modifySocket hd _,hv,he⟩

theorem noteErrno {α : Type} (h : ListensAt p w) (res : Except Errno α) : ListensAt p (w.noteErrno res) := by
  cases res <;> exact h

theorem enable (h : ListensAt p w) (events : EventMask) : ListensAt p (w.enableEvents p events) := by
  obtain ⟨d,hd,hv,he⟩ := h
  refine ⟨_,World.changeEvents_socketAt (w := w.log _) hd _,hv,?_⟩
  rw [has_or, he, Bool.true_or]

/-- EnableEvents(DE_ACCEPT) on an open socket, whatever it had enabled. -/
theorem enableAccept (h : Http.openAt w p = true) : ListensAt p (w.enableEvents p deAccept) := by
  obtain ⟨d,hd,hv⟩ := openAt_iff.mp h
  have ha : has deAccept deAccept = true := by decide
  refine ⟨_,World.changeEvents_socketAt (w := w.log _) hd _,hv,?_⟩
  rw [has_or, ha, Bool.or_true]

theorem send (h : ListensAt p w) (cb : Nat) (res : Except Errno Nat) : ListensAt p (w.send p cb res).1 := by
  have hn := (h.noteErrno (w.answer p res)).setError (w.noteErrno (w.answer p res)).errno
  unfold World.send
  dsimp only
  split
  · exact hn.enable deWrite
  · exact hn

theorem recv (h : ListensAt p w) (length : Nat) (res : Except Errno Nat) : ListensAt p (w.recv p length res).1 := by
  have hn := (h.noteErrno (w.answer p res)).setError (w.noteErrno (w.answer p res)).errno
  unfold World.recv World.recvFrom
  split
  · exact (h.enable deRead).setError _
  · dsimp only
    split
    · exact hn
    · dsimp only
      split
      · exact hn.enable deRead
      · exact hn

/-- Accept arms DE_ACCEPT before it asks the kernel, and touches nothing but the new socket afterwards. -/
theorem accept {p' : Ptr} (ho : Http.openAt w p = true) (hne : p ≠ p') (res : Except Errno Fd) (soType : Option SockType)
    (linger : Option Errno) : ListensAt p (w.accept p res p' soType linger).1 := by
  have hn := ((enableAccept ho).noteErrno ((w.enableEvents p deAccept).answer p res)).setError
    ((w.enableEvents p deAccept).noteErrno ((w.enableEvents p deAccept).answer p res)).errno
  unfold World.accept
  dsimp only
  split
  · rename_i s _
    exact hn.of_eq (World.keeps_wrapSocket (w := World.openFd _ s) hne s soType linger).socketAt
  · exact hn

/-- A stage of OnEvent for another event, or of another socket. -/
theorem stage (h : ListensAt q w) {ff signal : EventMask} (hne : q ≠ p ∨ deAccept &&& ~~~signal = deAccept) :
    ListensAt q (w.onEventStage p ff signal) := by
  by_cases hq : q = p
  · obtain ⟨d,hd,hv,he⟩ := h
    rw [hq] at hd ⊢
    unfold World.onEventStage
    split
    · refine ⟨_,World.changeEvents_socketAt hd _,hv,?_⟩
      rw [has_and_not_other _ _ _ (hne.resolve_left (not_not.mpr hq)), he]
    · exact ⟨d,hd,hv,he⟩
  · exact h.of_eq (World.keeps_onEventStage (.inl hq) ff signal).socketAt

end ListensAt

theorem listen_listens {w : World} {p : Ptr} {res : Except Errno Unit} (h : (w.listen p res).2 = 0) :
    ListensAt p (w.listen p res).1 := by
  unfold World.listen at h ⊢
  dsimp only at h ⊢
  cases hd : w.socketAt p with
  | none => simp [World.answer, hd] at h
  | some d =>
    by_cases hs : d.s = invalidSocket
    · simp [World.answer, hd, hs] at h
    · have ha : w.answer p res = res := by
        simp [World.answer, hd, hs]
      rw [ha] at h ⊢
      cases res with
      | error e => simp at h
      | ok _ =>
        refine ListensAt.enableAccept (openAt_iff.mpr ⟨_,World.socketAt_modifySocket (World.socketAt_modifySocket hd _) _,?_⟩)
        exact hs

/-- The operations of the handlers disarm DE_ACCEPT nowhere but in Close. -/
theorem HandlerOp.listens {p q : Ptr} {o : Op} {w : World} {busy : Option Ptr} (h : HandlerOp p o)
    (hr : w.ready busy o = true) (hne : q = p → o ≠ .close p) (hw : ListensAt q w) : ListensAt q (w.exec o) := by
  cases h with
  | recv length res =>
    by_cases hq : q = p
    · rw [hq] at hw ⊢
      exact hw.recv length res
    · exact hw.of_eq (World.keeps_recv (.inl hq) length res).socketAt
  | send cb res =>
    by_cases hq : q = p
    · rw [hq] at hw ⊢
      exact hw.send cb res
    · exact hw.of_eq (World.keeps_send (.inl hq) cb res).socketAt
  | accept res p' soType linger =>
    have hlive : w.live q = true := by
      obtain ⟨d,hd,-⟩ := hw
      exact World.live_iff.mpr ⟨d,hd⟩
    have hq' : q ≠ p' := World.ne_of_vacant hlive (Bool.and_eq_true_iff.mp (Bool.and_eq_true_iff.mp hr).1).2
    by_cases hq : q = p
    · rw [hq] at hw hq' ⊢
      exact ListensAt.accept hw.openAt hq' res soType linger
    · exact hw.of_eq (World.keeps_accept (.inl hq) hq' res soType linger).socketAt
  | close =>
    have hq : q ≠ p := fun hq => hne hq rfl
    exact hw.of_eq (World.keeps_close hq).socketAt

namespace HttpServer
variable {response : Response} {p q : Ptr} {s t : HttpServer}

/-- An emission disarms DE_ACCEPT on no socket that OnClose is not connected to. -/
theorem emit_listens {signal : Signal} {io : Answers} (hp : s.world.live p = true) (hq : (s.slots q).close = false)
    (h : ListensAt q s.world) (ht : emit response p signal io s = some t) : ListensAt q t.world := by
  refine (emit_rule (I := fun l => l.world.live p = true ∧ ListensAt q l.world) ?_ (fun _ hl => hl.1) signal io ?_
    ⟨hp,h⟩ ht).2
  · rintro l o ⟨hp,hl⟩ ho hne hr
    exact ⟨ho.live hp hr,ho.listens hr (fun _ => hne) hl⟩
  · rintro l ⟨hp,hl⟩ - hslot
    have hqp : q ≠ p := by
      rintro rfl
      exact Bool.false_ne_true (hq.symm.trans hslot)
    have hr : l.world.ready l.control.busy (.close p) = true := hp
    exact ⟨HandlerOp.close.live hp hr,HandlerOp.close.listens hr (fun h => absurd h hqp) hl⟩

/-- The loop of OnAccept calls Accept at least once. -/
theorem acceptLoop_listens {n : Nat} {accepts : List AcceptAnswer} (ho : openAt s.world p = true)
    (ht : acceptLoop p (n + 1) accepts s = some t) : ListensAt p t.world := by
  have hready {s : HttpServer} {a : AcceptAnswer} (ho : openAt s.world p = true) (hr : s.world.ready s.loop.control.busy
      (.accept p a.res a.address a.soType a.linger) = true) :
      ListensAt p (s.setWorld (s.world.accept p a.res a.address a.soType a.linger).1).world := by
    obtain ⟨hp,hn⟩ := Bool.and_eq_true_iff.mp (Bool.and_eq_true_iff.mp hr).1
    exact ListensAt.accept ho (World.ne_of_vacant hp hn) a.res a.soType a.linger
  have hwelcome (u : HttpServer) (client : Ptr) (h : ListensAt p u.world) : ListensAt p (u.welcome client).world := by
    rw [world, welcome_loop]
    exact h
  have hrest {accepts : List AcceptAnswer} {u : HttpServer} (h : ListensAt p u.world)
      (hu : acceptLoop p n accepts u = some t) : ListensAt p t.world :=
    acceptLoop_steps (J := fun u => ListensAt p u.world)
      (fun _ _ h hr => ⟨hready h.openAt hr,fun _ => hwelcome _ _ (hready h.openAt hr)⟩) n accepts u h hu
  cases accepts with
  | nil => cases ht
  | cons a accepts =>
    unfold acceptLoop at ht
    split at ht
    · rename_i hr
      have ha := hready ho hr
      dsimp only at ht
      split at ht
      · split at ht
        · cases ht
          exact hwelcome _ _ ha
        · exact hrest (hwelcome _ _ ha) ht
      · split at ht
        · exact hrest ha ht
        · cases ht
          exact ha
    · cases ht

theorem emit_accepts {io : Answers} (hr : (s.slots p).read = some .onAccept) (ho : openAt s.world p = true)
    (ht : emit response p .read io s = some t) : ListensAt p t.world := by
  obtain ⟨u,hu,rfl⟩ := Option.map_eq_some_iff.mp ht
  have hw : (if u.hung then u else { u with emitting := none }).world = u.world := by
    split <;> rfl
  rw [hw]
  simp only [callSlots, hr] at hu
  exact acceptLoop_listens (s := { s with emitting := some (p,.read) }) ho hu

end HttpServer

/-- A step without an emission leaves the descriptors and the enabled events. -/
theorem listens_of_quiet {s : HttpServer} {a : HttpAction} {l : LoopState} (hs : Sound s.loop) (he : a.emission s = none)
    (hl : loopStep s.loop a.loopAction = some l) {q : Ptr} (h : ListensAt q s.world) : ListensAt q l.world := by
  have hturn {p : Ptr} {d d' : SocketDispatcher} {κ : Option Key} {x : Option EpollEntry} {c : Slot} {evs : List Event}
      {w w' : World} (ht : Turn p ⟨.socket d,κ,x⟩ c evs w w') (hc : c.dispatcher = .socket d') (hs : d'.s = d.s)
      (he : d'.enabledEvents = d.enabledEvents) (h : ListensAt q w) : ListensAt q w' := by
    by_cases hq : q = p
    · obtain ⟨e,hd,hv,ha⟩ := h
      rw [hq] at hd ⊢
      cases (World.socketAt_of_slotAt ht.before).symm.trans hd
      refine ⟨d',?_,hs ▸ hv,he ▸ ha⟩
      rw [World.socketAt_eq_some_iff, (World.slotAt_eq_some_iff.mp ht.after).1, hc]
    · refine h.of_eq ?_
      unfold World.socketAt
      rw [ht.frame.dispatchers q hq]
  have ht := loopStep_turn (P := .quiet) (fun _ => rfl) hs (a.regular s.loop).1 hl
  obtain ⟨⟨w,control⟩,slots,handed,clientCount,emitting,hung⟩ := s
  cases a with
  | report evs =>
    cases ht
    exact h
  | next so peek =>
    cases ht with
    | skip hn => exact h
    | pass e hp => exact h
    | start hp hff ht => exact hturn ht rfl rfl rfl h
    | done => exact h
  | advance io =>
    cases ht with
    | emit hsig ht => simp [HttpAction.emission, hsig] at he
    | passBy hsig => exact h
    | finish ht => exact hturn ht (Slot.mayBeUpdate_dispatcher _ _) rfl rfl h

/-- The step lemma: OnAccept arms again what its event disarmed, and nothing else concerns the listener. -/
theorem HttpTurn.listening {response : Response} {s t : HttpServer} {a : HttpAction} {q : Ptr}
    (h : HttpTurn response s a t) (hs : loopMachine.Reachable Regular s.loop) (hi : Listening q s) : Listening q t := by
  cases h with
  | quiet he hl => exact ⟨hi.accepts,hi.stays,listens_of_quiet (regular_sound hs) he hl hi.listens⟩
  | @emits _ rest key p ff err handler signal todo io he hc hsig hl ht =>
    have hlive : s.world.live p = true := live_of_onEvent hs hc
    have hq : s.world.live q = true := openAt_live hi.listens.openAt
    set u : HttpServer := { s with loop := ⟨s.world.onEventStage p ff signal,.onEvent rest key p ff err true todo⟩ }
      with hu
    have hkeep (q : Ptr) : Keeps Dispatcher.socketFd q s.world u.world :=
      World.keeps_onEventStage (steady_socketFd q p) ff signal
    have hlast := HttpServer.emit_lasting (s := u) (q := q) ((hkeep q).live hq) ht
    refine ⟨(congrArg Prod.fst hlast).trans hi.accepts,(congrArg Prod.snd hlast).trans hi.stays,?_⟩
    by_cases hown : q = p ∧ signal = deAccept
    · obtain ⟨rfl,rfl⟩ := hown
      exact HttpServer.emit_accepts (s := u) hi.accepts ((openAt_of_keeps (hkeep q)).trans hi.listens.openAt) ht
    · have hstages : ∀ e ∈ onEventStages, e ≠ deAccept → deAccept &&& ~~~e = deAccept := by decide
      have hmem : signal ∈ onEventStages := (todo_suffix hs hc).subset (List.mem_cons_self ..)
      have hstage : ListensAt q u.world := by
        refine hi.listens.stage ?_
        rcases not_and_or.mp hown with hqp | hne
        · exact .inl hqp
        · exact .inr (hstages signal hmem hne)
      exact HttpServer.emit_listens (s := u) ((hkeep p).live hlive) hi.stays hstage ht

/-- Initialize ends with a Listen that succeeded. -/
theorem initialize_listening {a : Startup} {w : World} (h : a.initialize = some (w,true)) :
    Listening a.listener (a.server w) := by
  refine ⟨by simp [Startup.server],by simp [Startup.server],?_⟩
  unfold Startup.initialize at h
  dsimp only at h
  split at h
  · split at h
    · cases h
    · split at h
      · cases h
      · rename_i hl
        cases h
        exact listen_listens (not_not.mp hl)
  · cases h

/-- In every run, whatever the clients and the kernel do, the socket of Initialize is open with DE_ACCEPT enabled and
OnAccept connected; and between two events it is registered and epoll reports when there is a client to accept. -/
theorem always_listening {response : Response} {ok : HttpServer → HttpAction → Prop} {s : HttpServer}
    (h : (httpMachine response).Reachable ok s) :
    ∃ p d, (s.slots p).read = some .onAccept ∧ s.world.socketAt p = some d ∧ d.s ≠ invalidSocket ∧
      has d.enabledEvents deAccept = true ∧ (s.loop.control.busy = none →
        (s.world.server.keyByDispatcher p).isSome = true ∧ has (s.world.kernel.mask d.s) epollIn = true) := by
  obtain ⟨hs,p,hi⟩ := initialized_rule (I := fun s => ∃ p, Listening p s) h
    (fun a w hi => ⟨a.listener,initialize_listening hi⟩)
    fun s a t hs _ ⟨p,hi⟩ _ ht => ⟨p,ht.listening hs hi⟩
  obtain ⟨d,hd,hv,he⟩ := hi.listens
  have hkey := regular_registered hs p d hd hv
  refine ⟨p,d,hi.accepts,hd,hv,he,fun hbusy => ⟨hkey,?_⟩⟩
  obtain ⟨k,hk⟩ := Option.isSome_iff_exists.mp hkey
  have hmask := ((regular_interest hs hbusy).registered p k _ hk (World.socketAt_eq_some_iff.mp hd)).1
  change s.world.kernel.mask d.s = getEpollEvents d.enabledEvents at hmask
  rw [hmask, has_getEpollEvents_in, has_or_right, he, Bool.or_true]

/-- After a client was accepted. -/
theorem always_listening_on : ∃ s : HttpServer, s.clientCount = 1 ∧ ∃ p d, (s.slots p).read = some .onAccept ∧
    s.world.socketAt p = some d ∧ has d.enabledEvents deAccept = true := by
  have h : ((httpMachine shortResponse).run Machine.Free plainServer oneClient).any
      (fun s => decide (s.clientCount = 1)) = true := by
    decide +kernel
  obtain ⟨s,hs,hc⟩ := Machine.exists_reachable_of_run (plainServer_init shortResponse) h
  obtain ⟨p,d,hr,hd,-,he,-⟩ := always_listening hs
  exact ⟨s,of_decide_eq_true hc,p,d,hr,hd,he⟩

end UServer.Http
