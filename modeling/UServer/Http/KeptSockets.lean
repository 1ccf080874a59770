import UServer.Http.AlwaysListening

/-! Which sockets does the server keep? OnClose closes the client's descriptor, and no handler deletes an object. -/
namespace UServer.Http
open Library Net

/-- The socket objects are the listener and the clients ever accepted. -/
structure KeepsAll (p : Ptr) (s : HttpServer) : Prop where
  accepts : (s.slots p).read = some .onAccept
  live : ∀ q, s.world.live q = true ↔ q = p ∨ q ∈ s.clients

/-- WrapSocket leaves an object exactly if it returns one. -/
theorem live_wrapSocket {w : World} {p : Ptr} {s : Fd} {soType : Option SockType} {linger : Option Errno} :
    (w.wrapSocket p s soType linger).1.live p = (w.wrapSocket p s soType linger).2 := by
  unfold World.wrapSocket
  dsimp only
  split
  · rename_i hok
    exact openAt_live (initializeSocket_opens hok)
  · simp [World.live, World.socketAt, World.delete, World.setDispatcher]

theorem live_accept {w : World} {p p' q : Ptr} {res : Except Errno Fd} {soType : Option SockType} {linger : Option Errno}
    (hn : w.vacant p' = true) : (w.accept p res p' soType linger).1.live q = true ↔
      w.live q = true ∨ ((w.accept p res p' soType linger).2 = true ∧ q = p') := by
  by_cases hq : q = p'
  · have hv : w.live p' = false := by
      by_contra hl
      exact World.ne_of_vacant ((Bool.not_eq_false _).mp hl) hn rfl
    have hk := (World.keeps_enableEvents (w := w) (steady_socketFd p' p) deAccept).trans
      (World.keeps_noteLastError (steady_socketFd p' p) ((w.enableEvents p deAccept).answer p res))
    have hnew : (w.accept p res p' soType linger).1.live p' = (w.accept p res p' soType linger).2 := by
      unfold World.accept
      dsimp only
      split
      · exact live_wrapSocket
      · exact hk.live_eq.trans hv
    rw [hq, hnew, hv]
    simp
  · rw [(World.keeps_accept (steady_socketFd q p) hq res soType linger).live_eq]
    simp [hq]

theorem live_close {w : World} {p q : Ptr} : (w.close p).live q = w.live q := by
  by_cases hq : q = p
  · rw [hq]
    cases hd : w.socketAt p with
    | none => simp [World.close, hd]
    | some d =>
      obtain ⟨d',hd',-⟩ := World.close_socketAt hd
      rw [World.live, World.live, hd, hd']
      rfl
  · exact (World.keeps_close (f := Dispatcher.socketFd) hq).live_eq

namespace HttpServer
variable {response : Response} {p q : Ptr} {s t : HttpServer}

/-- What Recv, Send and Close keep, every emission but one that calls OnAccept keeps. -/
theorem emit_rule_of_io {I : World → Prop} (hrecv : ∀ w res, I w → I (w.recv p Exchange.readBufferSize res).1)
    (hsend : ∀ w cb res, I w → I (w.send p cb res).1) (hclose : ∀ w, I w → I (w.close p)) {signal : Signal} {io : Answers}
    (hr : signal = .read → (s.slots p).read ≠ some .onAccept) (h : I s.world) (ht : emit response p signal io s = some t) :
    I t.world := by
  have hwrite (s : HttpServer) (sends : List SendOutcome) (h : I s.world) : I (s.onWrite response p sends).1.world := by
    rw [world, onWrite_loop]
    exact Exchange.writeLoop_rule response hsend sends 0 (s.exchange p) h
  obtain ⟨u,hu,rfl⟩ := Option.map_eq_some_iff.mp ht
  have hworld : (if u.hung then u else { u with emitting := none }).world = u.world := by
    split <;> rfl
  rw [hworld]
  unfold callSlots at hu
  cases signal with
  | read =>
    dsimp only at hu
    split at hu
    · cases hu
      exact h
    · rename_i hslot
      exact absurd hslot (hr rfl)
    · cases hu
      refine onRead_steps (J := fun u => I u.world) (Exchange.readLoop_rule hrecv _ _ _ h) (fun u hu => ?_) fun u hu =>
        hwrite u _ hu
      rw [world, connectWrite, locked_loop]
      exact hu
  | write =>
    cases hu
    exact emitWrite_steps (J := fun u => I u.world) hwrite _ _ { s with emitting := some (p,.write) } h
  | connect =>
    cases hu
    exact h
  | close =>
    cases hu
    split
    · exact hclose _ h
    · exact h

/-- The loop of OnAccept: a socket that it makes is a client. -/
theorem acceptLoop_keepsAll (n : Nat) (accepts : List AcceptAnswer) (s : HttpServer) (hi : s.Served) (h : KeepsAll q s)
    (he : s.emitting = some (p,.read)) (hh : s.hung = false) (ht : acceptLoop p n accepts s = some t) : KeepsAll q t := by
  refine (acceptLoop_rule_of_result (J := fun u => KeepsAll q u ∧ u.Served ∧ u.emitting = some (p,.read) ∧
    u.hung = false) ?_ n accepts s ⟨h,hi,he,hh⟩ ht).1
  rintro u a ⟨h,hi,he,hh⟩ hr
  obtain ⟨hp,hn⟩ := Bool.and_eq_true_iff.mp (Bool.and_eq_true_iff.mp hr).1
  set v := u.setWorld (u.world.accept p a.res a.address a.soType a.linger).1 with hv
  have hlive (r : Ptr) : v.world.live r = true ↔
      u.world.live r = true ∨ ((u.world.accept p a.res a.address a.soType a.linger).2 = true ∧ r = a.address) :=
    live_accept hn
  have hvi : v.Served := hi.of_same (fun _ => rfl) (fun r hl => (hlive r).mpr (.inl hl)) rfl
  split
  · rename_i hok
    have hnew : a.address ∉ v.clients := fun hc => World.ne_of_vacant (hi.live _ hc) hn rfl
    have hne : q ≠ a.address := World.ne_of_vacant ((h.live q).mpr (.inl rfl)) hn
    obtain ⟨hw,hclients⟩ := hvi.welcome (World.ne_of_vacant hp hn).symm he hh hnew ((hlive _).mpr (.inr ⟨hok,rfl⟩))
    refine ⟨⟨?_,fun r => ?_⟩,hw,?_⟩
    · rw [welcome_slots_ne hne]
      exact h.accepts
    · rw [world, welcome_loop, hclients, Set.mem_insert_iff]
      refine (hlive r).trans ?_
      rw [h.live r, and_iff_right hok]
      change (r = q ∨ r ∈ v.clients) ∨ r = a.address ↔ _
      tauto
    · rw [welcome_eq (s := v) (World.ne_of_vacant hp hn).symm he hh]
      exact ⟨he,hh⟩
  · rename_i hok
    refine ⟨⟨h.accepts,fun r => ?_⟩,hvi,he,hh⟩
    rw [hlive r, h.live r]
    simp [hok, hv, clients, setWorld]

/-- An emission makes no socket but clients, and deletes none. -/
theorem emit_keepsAll {signal : Signal} {io : Answers} (hi : s.Served) (h : KeepsAll q s) (hh : s.hung = false)
    (ht : emit response p signal io s = some t) : KeepsAll q t := by
  by_cases hr : signal = .read ∧ (s.slots p).read = some .onAccept
  · obtain ⟨rfl,hslot⟩ := hr
    obtain ⟨u,hu,rfl⟩ := Option.map_eq_some_iff.mp ht
    simp only [callSlots, hslot] at hu
    have hk := acceptLoop_keepsAll _ _ { s with emitting := some (p,.read) } (hi.of_same (fun _ => rfl) (fun _ => id) rfl)
      ⟨h.accepts,h.live⟩ rfl hh hu
    split
    · exact hk
    · exact ⟨hk.accepts,hk.live⟩
  · have hno : signal = .read → (s.slots p).read ≠ some .onAccept := fun hsig hslot => hr ⟨hsig,hslot⟩
    obtain ⟨hslots,-⟩ := emit_same hno ht
    refine ⟨(congrArg Prod.fst (hslots q)).trans h.accepts,fun r => ?_⟩
    have hlive : t.world.live r = s.world.live r := by
      refine emit_rule_of_io (I := fun w => w.live r = s.world.live r) ?_ ?_ ?_ hno rfl ht
      · exact fun w res hw => (World.keeps_recv (steady_socketFd r p) _ res).live_eq.trans hw
      · exact fun w cb res hw => (World.keeps_send (steady_socketFd r p) cb res).live_eq.trans hw
      · exact fun w hw => live_close.trans hw
    rw [hlive, h.live r, clients_eq hslots]

end HttpServer

/-- The step lemma: the sockets are the listener and the clients. -/
theorem HttpTurn.keepsAll {response : Response} {s t : HttpServer} {a : HttpAction} {q : Ptr}
    (h : HttpTurn response s a t) (hs : loopMachine.Reachable Regular s.loop) (hh : s.hung = false) (hi : s.Served)
    (hk : KeepsAll q s) : KeepsAll q t := by
  cases h with
  | quiet he hl =>
    have hkeep := keeps_of_quiet hs hl
    exact ⟨hk.accepts,fun r => (Bool.eq_iff_iff.mp (hkeep r).live_eq).trans (hk.live r)⟩
  | @emits _ rest key p ff err handler signal todo io he hc hsig hl ht =>
    set u : HttpServer := { s with loop := ⟨s.world.onEventStage p ff signal,.onEvent rest key p ff err true todo⟩ }
      with hu
    have hkeep (r : Ptr) : Keeps Dispatcher.socketFd r s.world u.world :=
      World.keeps_onEventStage (steady_socketFd r p) ff signal
    have hui : u.Served := hi.of_same (fun _ => rfl) (fun r hr => (hkeep r).live hr) rfl
    have huk : KeepsAll q u := ⟨hk.accepts,fun r => (Bool.eq_iff_iff.mp (hkeep r).live_eq).trans (hk.live r)⟩
    exact HttpServer.emit_keepsAll hui huk hh ht

theorem live_start (p q : Ptr) (afd : Fd) : (World.start p afd).live q = false := by
  have hd : (World.start p afd).dispatchers = Function.update (fun _ => none) p (some (.signaler afd)) :=
    World.add_dispatchers
  unfold World.live World.socketAt
  rw [hd]
  by_cases hq : q = p <;> simp [hq]

/-- Initialize makes the listener and nothing else. -/
theorem initialize_keepsAll {a : Startup} {w : World} (h : a.initialize = some (w,true)) :
    KeepsAll a.listener (a.server w) := by
  refine ⟨by simp [Startup.server],fun q => ?_⟩
  rw [server_clients, Set.mem_empty_iff_false, or_false]
  change w.live q = true ↔ q = a.listener
  refine ⟨fun hl => ?_,fun hq => hq ▸ openAt_live (initialize_listening h).listens.openAt⟩
  by_contra hq
  have hs := steady_socketFd q a.listener
  have hw : w.live q = (World.start a.signaler a.afd).live q := by
    unfold Startup.initialize at h
    dsimp only at h
    split at h
    · split at h
      · cases h
      · split at h
        · cases h
        · cases h
          exact ((((World.keeps_createSocket hq _ _ _ _).trans (World.keeps_setOption hs _)).trans
            (World.keeps_bind hs _ _)).trans (World.keeps_listen hs _)).live_eq
    · cases h
  rw [hw, live_start] at hl
  cases hl

/-- No step of the server deletes a socket or takes its reader away. -/
theorem HttpTurn.kept {response : Response} {s t : HttpServer} {a : HttpAction} {q : Ptr} (h : HttpTurn response s a t)
    (hs : loopMachine.Reachable Regular s.loop) (hq : s.world.live q = true) :
    t.world.live q = true ∧ (t.slots q).lasting = (s.slots q).lasting := by
  cases h with
  | quiet he hl => exact ⟨(keeps_of_quiet hs hl q).live hq,rfl⟩
  | @emits _ rest key p ff err handler signal todo io he hc hsig hl ht =>
    have hlive : s.world.live p = true := live_of_onEvent hs hc
    have hkeep (r : Ptr) : Keeps Dispatcher.socketFd r s.world (s.world.onEventStage p ff signal) :=
      World.keeps_onEventStage (steady_socketFd r p) ff signal
    set u : HttpServer := { s with loop := ⟨s.world.onEventStage p ff signal,.onEvent rest key p ff err true todo⟩ }
      with hu
    have hpu : u.world.live p = true := (hkeep p).live hlive
    have hqu : u.world.live q = true := (hkeep q).live hq
    exact ⟨HttpServer.emit_live hpu hqu ht,HttpServer.emit_lasting (s := u) hqu ht⟩

/-- In every run the socket objects are the listener and the clients ever accepted, so client_count_ is one less than
their number, and no step frees any of them, closed or not. -/
theorem sockets_are_kept {response : Response} {ok : HttpServer → HttpAction → Prop} {s : HttpServer}
    (h : (httpMachine response).Reachable ok s) :
    (∃ listener, (s.slots listener).read = some .onAccept ∧ {q | s.world.live q = true} = insert listener s.clients) ∧
    s.clientCount + 1 = {q | s.world.live q = true}.ncard ∧
    ∀ t, (httpMachine response).Reaches ok s t →
      {q | s.world.live q = true} ⊆ {q | t.world.live q = true} ∧ s.clients ⊆ t.clients := by
  obtain ⟨hs,hi,p,hk⟩ := initialized_rule (I := fun s => s.Served ∧ ∃ p, KeepsAll p s) h
    (fun a w hi => ⟨server_served a w,a.listener,initialize_keepsAll hi⟩)
    fun s a t hs hh ⟨hi,p,hk⟩ _ ht => ⟨(ht.served hs hh hi).1,p,ht.keepsAll hs hh hi hk⟩
  have hall : {q | s.world.live q = true} = insert p s.clients := Set.ext hk.live
  refine ⟨⟨p,hk.accepts,hall⟩,?_,fun t ht => ?_⟩
  · have hp : p ∉ s.clients := by
      intro hc
      cases hk.accepts.symm.trans hc
    rw [hall, Set.ncard_insert_of_notMem hp hi.finite, hi.count]
    rfl
  · have hkept (q : Ptr) (hq : s.world.live q = true) :
        t.world.live q = true ∧ (t.slots q).lasting = (s.slots q).lasting := by
      obtain ⟨i,hi,hr⟩ := h
      refine ht.rule (R := fun u => u.world.live q = true ∧ (u.slots q).lasting = (s.slots q).lasting) ⟨hq,rfl⟩ ?_
      rintro u a v hu ⟨hl,hsame⟩ - he
      have hreach : (httpMachine response).Reachable ok u := ⟨i,hi,hr.trans hu⟩
      have hloop := (server_rule (I := fun _ => True) hreach (fun _ _ => trivial) fun _ _ _ _ _ _ _ _ => trivial).1
      obtain ⟨hv,hlast⟩ := (httpStep_turn he).2.kept hloop hl
      exact ⟨hv,hlast.trans hsame⟩
    exact ⟨fun q hq => (hkept q hq).1,fun q hq => (congrArg Prod.fst (hkept q (hi.live q hq)).2).trans hq⟩

/-- OnClose closes the socket, and the object stays. -/
theorem closed_socket_is_kept : ∃ s : HttpServer, s.world.live 2 = true ∧ openAt s.world 2 = false ∧
    s.clientCount + 1 = {q | s.world.live q = true}.ncard := by
  have h : ((httpMachine shortResponse).run Machine.Free plainServer clientLeaves).any
      (fun s => s.world.live 2 && !openAt s.world 2) = true := by
    decide +kernel
  obtain ⟨s,hs,hp⟩ := Machine.exists_reachable_of_run (plainServer_init shortResponse) h
  obtain ⟨hl,hc⟩ := Bool.and_eq_true_iff.mp hp
  exact ⟨s,hl,(Bool.not_eq_true' _).mp hc,(sockets_are_kept hs).2.1⟩

end UServer.Http
