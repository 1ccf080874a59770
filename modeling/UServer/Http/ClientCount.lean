import UServer.Http.ServerRuns
import Mathlib.Data.Set.Card

/-! Does client_count_ count the connections? OnAccept counts a client in, and OnRead would count
it off where Recv returns zero; Recv never does, and OnClose closes the socket and counts nothing. -/
namespace UServer.Http
open Library Net

namespace HttpServer

/-- The sockets that Accept returned to OnAccept. -/
def clients (s : HttpServer) : Set Ptr := {q | (s.slots q).read = some .onRead}

/-- The clients on which Close has not been called: it leaves no descriptor. -/
def openClients (s : HttpServer) : Set Ptr := {q ∈ s.clients | openAt s.world q = true}

def CountExact (s : HttpServer) : Prop := s.clientCount = s.openClients.ncard

end HttpServer

/-- Is SignalCloseEvent emitted on an open client? OnClose is connected to it and closes the socket. -/
def HttpAction.closesClient (s : HttpServer) (a : HttpAction) : Bool :=
  (a.emission s).any fun (p, signal, _) => decide (signal = deClose) && decide ((s.slots p).read = some .onRead) &&
    openAt s.world p

/-- No client is closed. -/
def KeepsClients (s : HttpServer) (a : HttpAction) : Prop := a.closesClient s = false

instance (s : HttpServer) (a : HttpAction) : Decidable (KeepsClients s a) := inferInstanceAs (Decidable (_ = false))

theorem openAt_live {w : World} {q : Ptr} (h : openAt w q = true) : w.live q = true := by
  obtain ⟨d,hd,-⟩ := openAt_iff.mp h
  exact World.live_iff.mpr ⟨d,hd⟩

theorem initializeSocket_opens {w : World} {p : Ptr} {linger : Option Errno}
    (h : (w.initializeSocket p linger).2 = true) : openAt (w.initializeSocket p linger).1 p = true := by
  have hsame : openAt (w.initializeSocket p linger).1 p = openAt w p := by
    unfold openAt World.socketAt
    rw [World.initializeSocket_dispatchers]
  rw [hsame]
  unfold World.initializeSocket at h
  split at h
  · cases h
  · rename_i d hd
    split at h
    · cases h
    · rename_i hv
      exact openAt_iff.mpr ⟨d,hd,hv⟩

/-- The socket that Accept returns is open. -/
theorem accept_opens {w : World} {p p' : Ptr} {res : Except Errno Fd} {soType : Option SockType}
    {linger : Option Errno} (h : (w.accept p res p' soType linger).2 = true) :
    openAt (w.accept p res p' soType linger).1 p' = true := by
  unfold World.accept World.wrapSocket at h ⊢
  dsimp only at h ⊢
  split at h
  · split at h
    · rename_i hok
      rw [if_pos hok]
      exact initializeSocket_opens hok
    · cases h
  · cases h

/-- The operations of the handlers close nothing but by Close. -/
theorem HandlerOp.keeps {p q : Ptr} {o : Op} {w : World} {busy : Option Ptr} (h : HandlerOp p o) (hne : o ≠ .close p)
    (hr : w.ready busy o = true) (hl : w.live q = true) : Keeps Dispatcher.socketFd q w (w.exec o) := by
  cases h with
  | recv length res => exact World.keeps_recv (steady_socketFd q p) length res
  | send cb res => exact World.keeps_send (steady_socketFd q p) cb res
  | accept res p' soType linger =>
    have hn : w.vacant p' = true := (Bool.and_eq_true_iff.mp (Bool.and_eq_true_iff.mp hr).1).2
    exact World.keeps_accept (steady_socketFd q p) (World.ne_of_vacant hl hn) res soType linger
  | close => exact absurd rfl hne

namespace HttpServer
variable {response : Response} {p q : Ptr} {s t : HttpServer}

private theorem close_live {w : World} (hp : w.live p = true) : (w.exec (.close p)).live p = true := by
  have hr : w.ready none (.close p) = true := hp
  exact HandlerOp.live .close hp hr

/-- No emission frees a socket. -/
theorem emit_live {signal : Signal} {io : Answers} (hp : s.world.live p = true) (hl : s.world.live q = true)
    (ht : emit response p signal io s = some t) : t.world.live q = true := by
  refine (emit_rule (I := fun l => l.world.live p = true ∧ l.world.live q = true) ?_ (fun _ hl => hl.1) signal io ?_
    ⟨hp,hl⟩ ht).2
  · rintro l o ⟨hp,hl⟩ ho hne hr
    exact ⟨(ho.keeps hne hr hp).live hp,(ho.keeps hne hr hl).live hl⟩
  · rintro l ⟨hp,hl⟩ - -
    refine ⟨close_live hp,?_⟩
    by_cases hq : q = p
    · rw [hq]
      exact close_live hp
    · exact (World.keeps_close (f := Dispatcher.socketFd) hq).live hl

/-- An emission closes no socket but where OnClose is called on it. -/
theorem emit_openAt {signal : Signal} {io : Answers} (hp : s.world.live p = true) (hl : s.world.live q = true)
    (hq : signal = .close → (s.slots p).close = true → q ≠ p) (ht : emit response p signal io s = some t) :
    openAt t.world q = openAt s.world q := by
  refine openAt_of_keeps (emit_rule (I := fun l => l.world.live p = true ∧ Keeps Dispatcher.socketFd q s.world l.world)
    ?_ (fun _ hl => hl.1) signal io ?_ ⟨hp,.rfl⟩ ht).2
  · rintro l o ⟨hp,hk⟩ ho hne hr
    exact ⟨(ho.keeps hne hr hp).live hp,hk.trans (ho.keeps hne hr (hk.live hl))⟩
  · rintro l ⟨hp,hk⟩ hsig hslot
    exact ⟨close_live hp,hk.trans (World.keeps_close (hq hsig hslot))⟩

theorem emit_close {io : Answers} (hp : s.world.live p = true) (hslot : (s.slots p).close = true)
    (ht : emit response p .close io s = some t) : openAt t.world p = false := by
  obtain ⟨d,hd⟩ := World.live_iff.mp hp
  obtain ⟨d',hd',hs⟩ := World.close_socketAt hd
  have hw : t.world = s.world.close p := by
    obtain ⟨u,hu,rfl⟩ := Option.map_eq_some_iff.mp ht
    simp only [callSlots, hslot, if_true, Option.some_inj] at hu
    rw [← hu]
    split <;> rfl
  rw [hw]
  simp [openAt, hd', hs]

theorem onWrite_clientCount (sends : List SendOutcome) :
    (s.onWrite response p sends).1.clientCount = s.clientCount := by
  unfold onWrite disconnectWrite locked
  dsimp only
  split
  · split <;> rfl
  · rfl

theorem onRead_clientCount (recvs : List (Except Errno Nat)) (sends : List SendOutcome) :
    (s.onRead response p recvs sends).clientCount = s.clientCount := by
  refine onRead_steps (J := fun u => u.clientCount = s.clientCount) rfl (fun u hu => ?_)
    fun u hu => (onWrite_clientCount sends).trans hu
  unfold connectWrite locked
  split <;> exact hu

/-- Each client is a socket of its own with OnClose connected, and is counted once. -/
structure Served (s : HttpServer) : Prop where
  finite : s.clients.Finite
  live : ∀ q ∈ s.clients, s.world.live q = true
  closes : ∀ q ∈ s.clients, (s.slots q).close = true
  count : s.clientCount = s.clients.ncard

def AllOpen (s : HttpServer) : Prop := ∀ q ∈ s.clients, openAt s.world q = true

theorem clients_eq (h : ∀ q, (t.slots q).lasting = (s.slots q).lasting) : t.clients = s.clients := by
  ext q
  have hread : (t.slots q).read = (s.slots q).read := congrArg Prod.fst (h q)
  simp only [clients, Set.mem_ofPred_eq, hread]

namespace Served

theorem of_same (h : s.Served) (hslots : ∀ q, (t.slots q).lasting = (s.slots q).lasting)
    (hlive : ∀ q, s.world.live q = true → t.world.live q = true) (hcount : t.clientCount = s.clientCount) : t.Served := by
  have he := clients_eq hslots
  constructor
  case finite => exact he ▸ h.finite
  case live => exact fun q hq => hlive q (h.live q (he ▸ hq))
  case closes => exact fun q hq => (congrArg Prod.snd (hslots q)).trans (h.closes q (he ▸ hq))
  case count => rw [hcount, he, h.count]

/-- The count is exact as long as every client ever accepted is open. -/
theorem countExact_iff (h : s.Served) : s.CountExact ↔ s.AllOpen := by
  have hsub : s.openClients ⊆ s.clients := fun q hq => hq.1
  unfold CountExact
  rw [h.count, Int.ofNat_inj]
  constructor
  · intro he q hq
    have hall : s.openClients = s.clients := Set.eq_of_subset_of_ncard_le hsub he.le h.finite
    rw [← hall] at hq
    exact hq.2
  · intro ho
    rw [Set.Subset.antisymm hsub fun q hq => ⟨hq,ho q hq⟩]

/-- OnAccept counts in the client that it connects. -/
theorem welcome (h : s.Served) {client : Ptr} (hp : client ≠ p) (he : s.emitting = some (p,.read))
    (hh : s.hung = false) (hnew : client ∉ s.clients) (hl : s.world.live client = true) :
    (s.welcome client).Served ∧ (s.welcome client).clients = insert client s.clients := by
  rw [welcome_eq hp he hh]
  have hclients : HttpServer.clients { s with
      slots := Function.update s.slots client ⟨some .onRead,0,true⟩
      handed := Function.update s.handed client []
      clientCount := s.clientCount + 1 } = insert client s.clients := by
    ext q
    by_cases hq : q = client
    · simp [HttpServer.clients, hq]
    · simp [HttpServer.clients, hq]
  refine ⟨?_,hclients⟩
  constructor
  case finite =>
    rw [hclients]
    exact h.finite.insert client
  case live =>
    rw [hclients]
    rintro q (rfl | hq)
    · exact hl
    · exact h.live q hq
  case closes =>
    rw [hclients]
    intro q hq
    by_cases hqc : q = client
    · simp [hqc]
    · simpa [hqc] using h.closes q (hq.resolve_left hqc)
  case count =>
    rw [hclients, Set.ncard_insert_of_notMem hnew h.finite, h.count]
    rfl

end Served

/-- The loop of OnAccept: every client that it takes in is counted and open. -/
theorem acceptLoop_served (n : Nat) (accepts : List AcceptAnswer) (s : HttpServer) (h : s.Served)
    (he : s.emitting = some (p,.read)) (hh : s.hung = false) (ht : acceptLoop p n accepts s = some t) :
    t.Served ∧ (s.AllOpen → t.AllOpen) := by
  have hi := acceptLoop_steps (J := fun u => u.Served ∧ (s.AllOpen → u.AllOpen) ∧ u.emitting = some (p,.read) ∧
    u.hung = false) ?_ n accepts s ⟨h,id,he,hh⟩ ht
  · exact ⟨hi.1,hi.2.1⟩
  · rintro u a ⟨hs,ho,he,hh⟩ hr
    obtain ⟨hr,-⟩ := Bool.and_eq_true_iff.mp hr
    obtain ⟨hp,hn⟩ := Bool.and_eq_true_iff.mp hr
    set v := u.setWorld (u.world.accept p a.res a.address a.soType a.linger).1 with hv
    have hkeep {q : Ptr} (hl : u.world.live q = true) : Keeps Dispatcher.socketFd q u.world v.world :=
      World.keeps_accept (steady_socketFd q p) (World.ne_of_vacant hl hn) a.res a.soType a.linger
    have hs' : v.Served := hs.of_same (fun _ => rfl) (fun q hl => (hkeep hl).live hl) rfl
    have ho' : s.AllOpen → v.AllOpen := fun hall q hq =>
      (openAt_of_keeps (hkeep (hs.live q hq))).trans (ho hall q hq)
    refine ⟨⟨hs',ho',he,hh⟩,fun hok => ?_⟩
    have hopen : openAt v.world a.address = true := accept_opens hok
    have hnew : a.address ∉ v.clients := fun hq => World.ne_of_vacant (hs.live _ hq) hn rfl
    obtain ⟨hw,hclients⟩ := hs'.welcome (World.ne_of_vacant hp hn).symm he hh hnew (openAt_live hopen)
    refine ⟨hw,fun hall q hq => ?_,?_⟩
    · rw [world, welcome_loop]
      rw [hclients] at hq
      rcases hq with rfl | hq
      · exact hopen
      · exact ho' hall q hq
    · rw [welcome_eq (s := v) (World.ne_of_vacant hp hn).symm he hh]
      exact ⟨he,hh⟩

/-- An emission that does not reach the loop of OnAccept counts nothing. -/
theorem emit_same {signal : Signal} {io : Answers} (hr : signal = .read → (s.slots p).read ≠ some .onAccept)
    (ht : emit response p signal io s = some t) :
    (∀ q, (t.slots q).lasting = (s.slots q).lasting) ∧ t.clientCount = s.clientCount := by
  obtain ⟨u,hu,rfl⟩ := Option.map_eq_some_iff.mp ht
  have hsame : (if u.hung then u else { u with emitting := none }).slots = u.slots ∧
      (if u.hung then u else { u with emitting := none }).clientCount = u.clientCount := by
    split <;> exact ⟨rfl,rfl⟩
  rw [hsame.1, hsame.2]
  unfold callSlots at hu
  cases signal with
  | read =>
    dsimp only at hu
    split at hu
    · cases hu
      exact ⟨fun _ => rfl,rfl⟩
    · rename_i hslot
      exact absurd hslot (hr rfl)
    · cases hu
      exact ⟨fun q => onRead_lasting (s := { s with emitting := some (p,.read) }) _ _,
        onRead_clientCount (s := { s with emitting := some (p,.read) }) _ _⟩
  | write =>
    cases hu
    refine emitWrite_steps (J := fun u => (∀ q, (u.slots q).lasting = (s.slots q).lasting) ∧
      u.clientCount = s.clientCount) ?_ _ _ { s with emitting := some (p,.write) } ⟨fun _ => rfl,rfl⟩
    rintro u sends ⟨hu,hc⟩
    exact ⟨fun q => (onWrite_lasting sends).trans (hu q),(onWrite_clientCount sends).trans hc⟩
  | connect =>
    cases hu
    exact ⟨fun _ => rfl,rfl⟩
  | close =>
    cases hu
    split <;> exact ⟨fun _ => rfl,rfl⟩

/-- An emission keeps the books, and every client stays open unless the signal is its SignalCloseEvent. -/
theorem emit_served {signal : Signal} {io : Answers} (h : s.Served) (hp : s.world.live p = true) (hh : s.hung = false)
    (ht : emit response p signal io s = some t) :
    t.Served ∧ (s.AllOpen → (t.AllOpen ↔ ¬(signal = .close ∧ p ∈ s.clients))) := by
  by_cases hr : signal = .read ∧ (s.slots p).read = some .onAccept
  · obtain ⟨rfl,hslot⟩ := hr
    obtain ⟨u,hu,rfl⟩ := Option.map_eq_some_iff.mp ht
    simp only [callSlots, hslot] at hu
    obtain ⟨hs,ho⟩ := acceptLoop_served _ _ { s with emitting := some (p,.read) }
      (h.of_same (fun _ => rfl) (fun _ => id) rfl) rfl hh hu
    refine ⟨hs.of_same ?_ ?_ ?_,fun hall => iff_of_true ?_ (by simp)⟩
    · intro q
      split <;> rfl
    · intro q
      split <;> exact id
    · split <;> rfl
    · split <;> exact ho hall
  · obtain ⟨hslots,hcount⟩ := emit_same (fun hsig hslot => hr ⟨hsig,hslot⟩) ht
    have hs := h.of_same hslots (fun q hl => emit_live hp hl ht) hcount
    refine ⟨hs,fun hall => ⟨fun ho hsig => ?_,fun hsig q hq => ?_⟩⟩
    · obtain ⟨rfl,hpc⟩ := hsig
      have hclosed := emit_close hp (h.closes p hpc) ht
      rw [ho p ((clients_eq hslots).symm ▸ hpc)] at hclosed
      cases hclosed
    · rw [clients_eq hslots] at hq
      refine (emit_openAt hp (h.live q hq) (fun hcl _ hqp => ?_) ht).trans (hall q hq)
      exact hsig ⟨hcl,hqp ▸ hq⟩

end HttpServer

theorem signalOf_eq_close {event : EventMask} (h : event ∈ onEventStages) :
    signalOf event = .close ↔ event = deClose := by
  have hall : ∀ e ∈ onEventStages, signalOf e = .close ↔ e = deClose := by decide
  exact hall event h

/-- The step lemma: the books are kept, and only SignalCloseEvent on an open client closes one. -/
theorem HttpTurn.served {response : Response} {s t : HttpServer} {a : HttpAction} (h : HttpTurn response s a t)
    (hs : loopMachine.Reachable Regular s.loop) (hh : s.hung = false) (hi : s.Served) :
    t.Served ∧ (s.AllOpen → (t.AllOpen ↔ a.closesClient s = false)) := by
  cases h with
  | quiet he hl =>
    have hkeep := keeps_of_quiet hs hl
    refine ⟨hi.of_same (fun _ => rfl) (fun q hq => (hkeep q).live hq) rfl,fun ho => iff_of_true ?_ ?_⟩
    · exact fun q hq => (openAt_of_keeps (hkeep q)).trans (ho q hq)
    · rw [HttpAction.closesClient, he]
      rfl
  | @emits _ rest key p ff err handler signal todo io he hc hsig hl ht =>
    have hlive : s.world.live p = true := live_of_onEvent hs hc
    set u : HttpServer := { s with loop := ⟨s.world.onEventStage p ff signal,.onEvent rest key p ff err true todo⟩ }
      with hu
    have hkeep (q : Ptr) : Keeps Dispatcher.socketFd q s.world u.world :=
      World.keeps_onEventStage (steady_socketFd q p) ff signal
    have hui : u.Served := hi.of_same (fun _ => rfl) (fun q hq => (hkeep q).live hq) rfl
    obtain ⟨ht,ho⟩ := HttpServer.emit_served hui ((hkeep p).live hlive) hh ht
    refine ⟨ht,fun hall => (ho fun q hq => (openAt_of_keeps (hkeep q)).trans (hall q hq)).trans ?_⟩
    have hmem : signal ∈ onEventStages := (todo_suffix hs hc).subset (List.mem_cons_self ..)
    rw [signalOf_eq_close hmem]
    simp only [HttpAction.closesClient, he, Option.any_some]
    by_cases hp : (s.slots p).read = some .onRead
    · have hpo : openAt s.world p = true := hall p hp
      simp [HttpServer.clients, hu, hp, hpo]
    · simp [HttpServer.clients, hu, hp]

/-- The listener is no client, and there is no other socket. -/
theorem server_clients (a : Startup) (w : World) : (a.server w).clients = ∅ := by
  ext q
  by_cases hq : q = a.listener
  · simp [HttpServer.clients, Startup.server, hq]
  · simp [HttpServer.clients, Startup.server, hq]

theorem server_served (a : Startup) (w : World) : (a.server w).Served := by
  have he := server_clients a w
  constructor
  case finite => exact he ▸ Set.finite_empty
  case live => exact he ▸ fun q hq => hq.elim
  case closes => exact he ▸ fun q hq => hq.elim
  case count =>
    rw [he, Set.ncard_empty]
    rfl

/-- In every run client_count_ counts the clients ever accepted. -/
theorem counts_accepted {response : Response} {s : HttpServer} (h : (httpMachine response).Reachable Machine.Free s) :
    s.Served :=
  (server_rule h server_served fun _ _ _ hs hh hi _ ht => (ht.served hs hh hi).1).2

/-- client_count_ is the number of open clients as long as SignalCloseEvent is emitted on none of them;
the first such emission makes it wrong. -/
theorem client_count_exact {response : Response} {s : HttpServer}
    (h : (httpMachine response).Reachable KeepsClients s) :
    s.CountExact ∧ ∀ a t, httpStep response s a = some t → (t.CountExact ↔ KeepsClients s a) := by
  obtain ⟨hs,hi,ho⟩ := server_rule (I := fun s => s.Served ∧ s.AllOpen) h
    (fun a w => ⟨server_served a w,fun q hq => (server_clients a w ▸ hq).elim⟩)
    fun s a t hs hh ⟨hi,ho⟩ ha ht => ⟨(ht.served hs hh hi).1,((ht.served hs hh hi).2 ho).mpr ha⟩
  refine ⟨hi.countExact_iff.mpr ho,fun a t ht => ?_⟩
  obtain ⟨hh,ht⟩ := httpStep_turn ht
  obtain ⟨ht,hto⟩ := ht.served hs hh hi
  exact ht.countExact_iff.trans (hto ho)

/-- A client is accepted. -/
theorem client_count_exact_one : ∃ s : HttpServer, s.clientCount = 1 ∧ 2 ∈ s.clients ∧ s.CountExact := by
  have h : ((httpMachine shortResponse).run KeepsClients plainServer oneClient).any (fun s =>
      decide (s.clientCount = 1) && decide ((s.slots 2).read = some .onRead)) = true := by
    decide +kernel
  obtain ⟨s,hs,hp⟩ := Machine.exists_reachable_of_run (plainServer_init shortResponse) h
  obtain ⟨hc,hr⟩ := Bool.and_eq_true_iff.mp hp
  have hclient : (s.slots 2).read = some .onRead := of_decide_eq_true hr
  exact ⟨s,of_decide_eq_true hc,hclient,(client_count_exact hs).1⟩

/-- The client is closed and counted still. -/
theorem closed_client_counted :
    ¬∀ s : HttpServer, (httpMachine shortResponse).Reachable Machine.Free s → s.CountExact := by
  intro hall
  have h : ((httpMachine shortResponse).run Machine.Free plainServer clientLeaves).any (fun s =>
      decide ((s.slots 2).read = some .onRead) && !openAt s.world 2) = true := by
    decide +kernel
  obtain ⟨s,hs,hp⟩ := Machine.exists_reachable_of_run (plainServer_init shortResponse) h
  obtain ⟨hr,hc⟩ := Bool.and_eq_true_iff.mp hp
  have hclient : (s.slots 2).read = some .onRead := of_decide_eq_true hr
  rw [(counts_accepted hs).countExact_iff.mp (hall s hs) 2 hclient] at hc
  cases hc

end UServer.Http
