import UServer.Http.ServerRuns

/-! Does every accepted connection stay watched? DE_READ is disarmed before each OnRead and
armed again by Recv alone, but not when the first Recv fails for good. -/
namespace UServer.Http
open Library Net

/-- Does the answer to ::recv make Recv leave DE_READ alone? -/
def hardError : Except Errno Nat → Bool
  | .ok _ => false
  | .error e => !isBlockingError e

/-- The socket at the address, if it is open, has DE_READ enabled. -/
def ArmedAt (q : Ptr) (w : World) : Prop :=
  ∀ d, w.socketAt q = some d → d.s ≠ invalidSocket → has d.enabledEvents deRead = true

/-- The clients are the sockets that OnAccept connected to OnRead. -/
def NoOrphans (s : HttpServer) : Prop := ∀ q, (s.slots q).read = some .onRead → ArmedAt q s.world

/-- Every open client is registered, and epoll reports when it can be read. -/
def Watched (s : HttpServer) : Prop :=
  ∀ q d, (s.slots q).read = some .onRead → s.world.socketAt q = some d → d.s ≠ invalidSocket →
    (s.world.server.keyByDispatcher q).isSome = true ∧ has (s.world.kernel.mask d.s) epollIn = true

/-- Does the step call OnRead for DE_READ on an open client whose first Recv fails for good? -/
def HttpAction.losesRead (s : HttpServer) (a : HttpAction) : Bool :=
  (a.emission s).any fun (p, signal, io) => decide (signal = deRead) && decide ((s.slots p).read = some .onRead) &&
    hardError (io.recvs.headD (.error eagain)) &&
      (s.world.socketAt p).any fun d => decide (d.s ≠ invalidSocket) && !d.udp

/-- No OnRead starts with a Recv that fails for good. -/
def KeepsReading (s : HttpServer) (a : HttpAction) : Prop := a.losesRead s = false

instance (s : HttpServer) (a : HttpAction) : Decidable (KeepsReading s a) := inferInstanceAs (Decidable (_ = false))

theorem read_of_or (events : EventMask) : has (events ||| deRead) deRead = true := by
  have hr : has deRead deRead = true := by decide
  rw [has_or, hr, Bool.or_true]

namespace ArmedAt
variable {p q : Ptr} {w w' : World}

theorem of_eq (h : ArmedAt q w) (he : w'.socketAt q = w.socketAt q) : ArmedAt q w' := by
  unfold ArmedAt
  rw [he]
  exact h

theorem of_none (h : w.socketAt q = none) : ArmedAt q w := by
  intro d hd
  cases h.symm.trans hd

theorem of_invalid {d : SocketDispatcher} (hd : w.socketAt q = some d) (hs : d.s = invalidSocket) : ArmedAt q w := by
  intro d' hd' hv
  cases hd.symm.trans hd'
  exact absurd hs hv

theorem iff_of_open {d : SocketDispatcher} (hd : w.socketAt q = some d) (hs : d.s ≠ invalidSocket) :
    ArmedAt q w ↔ has d.enabledEvents deRead = true := by
  refine ⟨fun h => h d hd hs,fun h d' hd' _ => ?_⟩
  cases hd.symm.trans hd'
  exact h

/-- Whatever a write on the object does, it may only add events. -/
theorem of_write (h : ArmedAt p w) (hw : ∀ d, w.socketAt p = some d → ∃ d', w'.socketAt p = some d' ∧ d'.s = d.s ∧
    (has d.enabledEvents deRead = true → has d'.enabledEvents deRead = true))
    (hn : w.socketAt p = none → w'.socketAt p = none) : ArmedAt p w' := by
  cases hd : w.socketAt p with
  | none => exact of_none (hn hd)
  | some d =>
    obtain ⟨d',hd',hs,he⟩ := hw d hd
    intro e hde hv
    cases hd'.symm.trans hde
    exact he (h d hd (hs ▸ hv))

theorem setError (h : ArmedAt p w) (e : Errno) : ArmedAt p (w.setError p e) := by
  refine h.of_write (fun d hd => ⟨_,World.socketAt_modifySocket hd _,rfl,id⟩) fun hn => ?_
  rw [World.setError, World.modifySocket_of_none hn, hn]

theorem noteErrno {α : Type} (h : ArmedAt p w) (res : Except Errno α) : ArmedAt p (w.noteErrno res) := by
  cases res <;> exact h

theorem enable (h : ArmedAt p w) (events : EventMask) : ArmedAt p (w.enableEvents p events) := by
  refine h.of_write (fun d hd => ⟨_,World.changeEvents_socketAt (w := w.log _) hd _,rfl,fun hr => ?_⟩) fun hn => ?_
  · rw [has_or, hr, Bool.true_or]
  · have hn' : (w.log (.armed p events)).socketAt p = none := hn
    rw [World.enableEvents, World.changeEvents, hn']
    exact hn

theorem enableRead : ArmedAt p (w.enableEvents p deRead) := by
  cases hd : w.socketAt p with
  | none => exact (of_none hd).enable deRead
  | some d =>
    intro e he _
    cases (World.changeEvents_socketAt (w := w.log _) hd _).symm.trans he
    exact read_of_or _

theorem send (h : ArmedAt p w) (cb : Nat) (res : Except Errno Nat) : ArmedAt p (w.send p cb res).1 := by
  have hn := (h.noteErrno (w.answer p res)).setError (w.noteErrno (w.answer p res)).errno
  unfold World.send
  dsimp only
  split
  · exact hn.enable deWrite
  · exact hn

theorem recvFrom (h : ArmedAt p w) (res : Except Errno Nat) : ArmedAt p (w.recvFrom p res).1 := by
  have hn := (h.noteErrno (w.answer p res)).setError (w.noteErrno (w.answer p res)).errno
  unfold World.recvFrom
  dsimp only
  split
  · exact hn
  · dsimp only
    split
    · exact enableRead
    · exact hn

theorem recv (h : ArmedAt p w) (length : Nat) (res : Except Errno Nat) : ArmedAt p (w.recv p length res).1 := by
  unfold World.recv
  split
  · exact enableRead.setError _
  · exact h.recvFrom res

/-- A socket that Accept returns is armed from its construction on. -/
theorem wrapSocket (s : Fd) (soType : Option SockType) (linger : Option Errno) :
    ArmedAt p (w.wrapSocket p s soType linger).1 := by
  have hc : (w.construct p s soType).socketAt p = some (.new s soType) := by
    unfold World.construct
    split <;> exact World.socketAt_setSocket_same _ _ _
  rw [World.wrapSocket_eq]
  split
  · intro d hd _
    rw [World.socketAt_eq_some_iff, World.initializeSocket_dispatchers, World.socketAt_eq_some_iff.mp hc] at hd
    cases hd
    change has (deRead ||| deWrite) deRead = true
    decide
  · refine of_none ?_
    simp [World.socketAt, World.delete, World.setDispatcher]

theorem accept (h : ArmedAt q w) (p p' : Ptr) (res : Except Errno Fd) (soType : Option SockType)
    (linger : Option Errno) : ArmedAt q (w.accept p res p' soType linger).1 := by
  have hn : ArmedAt q (((w.enableEvents p deAccept).noteErrno
      ((w.enableEvents p deAccept).answer p res)).updateLastError p) := by
    by_cases hq : q = p
    · rw [hq] at h ⊢
      exact ((h.enable deAccept).noteErrno _).setError _
    · exact h.of_eq ((World.keeps_enableEvents (.inl hq) _).trans (World.keeps_noteLastError (.inl hq) _)).socketAt
  unfold World.accept
  dsimp only
  split
  · rename_i s _
    by_cases hq : q = p'
    · rw [hq]
      exact wrapSocket s soType linger
    · exact hn.of_eq (World.keeps_wrapSocket (w := World.openFd _ s) hq s soType linger).socketAt
  · exact hn

end ArmedAt

/-- The operations of the handlers take DE_READ from no open socket. -/
theorem HandlerOp.armed {p q : Ptr} {o : Op} {w : World} (h : HandlerOp p o) (hl : w.live p = true)
    (hw : ArmedAt q w) : ArmedAt q (w.exec o) := by
  by_cases hq : q ∈ o.subjects
  · cases h with
    | recv length res =>
      obtain rfl := List.mem_singleton.mp hq
      exact hw.recv length res
    | send cb res =>
      obtain rfl := List.mem_singleton.mp hq
      exact hw.send cb res
    | accept res p' soType linger => exact hw.accept p p' res soType linger
    | close =>
      obtain rfl := List.mem_singleton.mp hq
      obtain ⟨d,hd⟩ := World.live_iff.mp hl
      obtain ⟨d',hd',hs⟩ := World.close_socketAt hd
      exact .of_invalid hd' hs
  · exact hw.of_eq (World.keeps_exec hq).socketAt

section Reading
variable {p : Ptr} {w : World} {d : SocketDispatcher} (hd : w.socketAt p = some d) (hs : d.s ≠ invalidSocket)
  (hr : has d.enabledEvents deRead = false)
include hd hs

/-- A Recv that fails for good returns minus one. -/
theorem recv_of_hard {length : Nat} {res : Except Errno Nat} (h : hardError res = true) :
    (w.recv p length res).2 = -1 := by
  cases res with
  | ok n => cases h
  | error e =>
    have ha : w.answer p (.error e : Except Errno Nat) = .error e := by
      simp [World.answer, hd, hs]
    have hne : ¬(returned (.error e) = 0 ∧ length ≠ 0) := by
      simp [returned]
    rw [World.recv, ha, if_neg hne]
    unfold World.recvFrom
    dsimp only
    rw [ha]
    split <;> rfl

include hr

/-- Recv arms DE_READ unless it fails for good. -/
theorem recv_armed_iff (length : Nat) (res : Except Errno Nat) :
    ArmedAt p (w.recv p length res).1 ↔ (d.udp || !hardError res) = true := by
  have ha : w.answer p res = res := by
    simp [World.answer, hd, hs]
  unfold World.recv
  rw [ha]
  split
  · rename_i hz
    refine iff_of_true (ArmedAt.enableRead.setError _) ?_
    cases res with
    | ok n => simp [hardError]
    | error e => cases hz.1
  · rename_i hz
    have hd₁ : (w.noteErrno res).socketAt p = some d := by cases res <;> exact hd
    have hd₂ := World.socketAt_modifySocket hd₁ fun d => { d with error := (w.noteErrno res).errno }
    unfold World.recvFrom
    rw [ha]
    dsimp only
    have hd₃ : ((w.noteErrno res).updateLastError p).socketAt p = _ := hd₂
    rw [hd₃]
    dsimp only
    have hsuccess : (decide (0 ≤ returned res) || isBlockingError (w.noteErrno res).errno) = !hardError res := by
      cases res with
      | ok n => simp [returned, hardError]
      | error e => simp [returned, hardError, World.noteErrno, World.setErrno]
    rw [hsuccess]
    split
    · rename_i hok
      exact iff_of_true ArmedAt.enableRead hok
    · rename_i hok
      refine iff_of_false ?_ hok
      rw [ArmedAt.iff_of_open hd₃ hs, hr]
      exact Bool.false_ne_true

/-- The loop of OnRead arms DE_READ unless its first Recv fails for good. -/
theorem readLoop_armed_iff (recvs : List (Except Errno Nat)) : ArmedAt p (Exchange.readLoop p recvs w 0).1 ↔
    (d.udp || !hardError (recvs.headD (.error eagain))) = true := by
  cases recvs with
  | nil => exact recv_armed_iff hd hs hr _ _
  | cons r recvs =>
    have hfirst := recv_armed_iff hd hs hr Exchange.readBufferSize r
    unfold Exchange.readLoop
    dsimp only
    split
    · rename_i hpos
      have hok : hardError r = false := by
        by_contra hh
        rw [recv_of_hard hd hs ((Bool.not_eq_false _).mp hh)] at hpos
        omega
      have hok' : (d.udp || !hardError r) = true := by
        rw [hok, Bool.not_false, Bool.or_true]
      exact iff_of_true (Exchange.readLoop_rule (fun w res hw => hw.recv _ res) recvs _ _ (hfirst.mpr hok')) hok'
    · exact hfirst

omit hr in
theorem readLoop_of_hard {recvs : List (Except Errno Nat)} (h : hardError (recvs.headD (.error eagain)) = true) :
    (Exchange.readLoop p recvs w 0).2 = 0 ∧ HttpServer.lastRet p recvs w = -1 := by
  cases recvs with
  | nil => cases h
  | cons r recvs =>
    have hret : (w.recv p Exchange.readBufferSize r).2 = -1 := recv_of_hard hd hs h
    unfold Exchange.readLoop HttpServer.lastRet
    simp [hret]

end Reading

namespace HttpServer
variable {response : Response} {p q : Ptr} {s t : HttpServer}

/-- After OnRead the socket has DE_READ enabled unless the first Recv failed for good. -/
theorem onRead_armed_iff {d : SocketDispatcher} (hd : s.world.socketAt p = some d) (hs : d.s ≠ invalidSocket)
    (hr : has d.enabledEvents deRead = false) (hh : s.hung = false) (recvs : List (Except Errno Nat))
    (sends : List SendOutcome) : ArmedAt p (s.onRead response p recvs sends).world ↔
      (d.udp || !hardError (recvs.headD (.error eagain))) = true := by
  have hread := readLoop_armed_iff hd hs hr recvs
  cases hok : d.udp || !hardError (recvs.headD (.error eagain)) with
  | true =>
    rw [hok] at hread
    refine iff_of_true ?_ rfl
    have hlive : (Exchange.readLoop p recvs s.world 0).1.live p = true :=
      Exchange.readLoop_rule (I := fun w => w.live p = true)
        (fun w res hw => (World.keeps_recv (steady_socketFd p p) _ res).live hw) recvs s.world 0
        (World.live_iff.mpr ⟨d,hd⟩)
    exact (onRead_rule_of_read (I := fun l => l.world.live p = true ∧ ArmedAt p l.world)
      (fun l o hl ho _ hready => ⟨ho.live hl.1 hready,ho.armed hl.1 hl.2⟩) (fun _ hl => hl.1) sends
      ⟨hlive,hread.mpr rfl⟩).2
  | false =>
    rw [hok] at hread
    obtain ⟨-,hhard⟩ := Bool.or_eq_false_iff.mp hok
    obtain ⟨hzero,hret⟩ := readLoop_of_hard hd hs ((Bool.not_eq_false' ..).mp hhard)
    have he : (s.onRead response p recvs sends).world = (Exchange.readLoop p recvs s.world 0).1 := by
      unfold onRead
      dsimp only
      rw [hzero, hret]
      simp [setWorld, hh, world]
    rw [he]
    exact hread

theorem emit_onRead {io : Answers} (hr : (s.slots p).read = some .onRead) (ht : emit response p .read io s = some t) :
    t.loop = ({ s with emitting := some (p,.read) }.onRead response p io.recvs io.sends).loop := by
  obtain ⟨u,hu,rfl⟩ := Option.map_eq_some_iff.mp ht
  simp only [callSlots, hr, Option.some_inj] at hu
  rw [hu]
  split <;> rfl

end HttpServer

namespace ArmedAt
variable {p q : Ptr} {w w' : World}

/-- A stage of OnEvent that disarms another event, or that of another socket. -/
theorem stage (h : ArmedAt q w) {ff signal : EventMask} (hne : q ≠ p ∨ deRead &&& ~~~signal = deRead) :
    ArmedAt q (w.onEventStage p ff signal) := by
  by_cases hq : q = p
  · rw [hq] at h ⊢
    have hkeep := hne.resolve_left (not_not.mpr hq)
    unfold World.onEventStage
    split
    · have hoff : ArmedAt p (w.disableEvents p signal) := by
        refine h.of_write (fun d hd => ⟨_,World.changeEvents_socketAt hd _,rfl,fun hr => ?_⟩) fun hn => ?_
        · rw [has_and_not_other _ _ _ hkeep, hr]
        · rw [World.disableEvents, World.changeEvents, hn]
          exact hn
      exact hoff
    · exact h
  · exact h.of_eq (World.keeps_onEventStage (.inl hq) ff signal).socketAt

/-- What the loop does to the other members of its dispatcher. -/
theorem of_turn (h : ArmedAt q w) {d d' : SocketDispatcher} {κ : Option Key} {x : Option EpollEntry} {c : Slot}
    {evs : List Event} (ht : Turn p ⟨.socket d,κ,x⟩ c evs w w') (hc : c.dispatcher = .socket d') (hs : d'.s = d.s)
    (he : d'.enabledEvents = d.enabledEvents) : ArmedAt q w' := by
  by_cases hq : q = p
  · have hd := World.socketAt_of_slotAt ht.before
    have hd' : w'.socketAt p = some d' := by
      rw [World.socketAt_eq_some_iff, (World.slotAt_eq_some_iff.mp ht.after).1, hc]
    rw [hq] at h ⊢
    intro e hde hv
    cases hd'.symm.trans hde
    rw [he]
    exact h d hd (hs ▸ hv)
  · refine h.of_eq ?_
    unfold World.socketAt
    rw [ht.frame.dispatchers q hq]

end ArmedAt

/-- A step without an emission takes DE_READ from nothing. -/
theorem armed_of_quiet {s : HttpServer} {a : HttpAction} {l : LoopState} (hs : Sound s.loop) (he : a.emission s = none)
    (hl : loopStep s.loop a.loopAction = some l) {q : Ptr} (h : ArmedAt q s.world) : ArmedAt q l.world := by
  have ht := loopStep_turn (P := .quiet) (fun _ => rfl) hs (a.regular s.loop).1 hl
  obtain ⟨⟨w,control⟩,slots,handed,clientCount,emitting,hung⟩ := s
  cases a with
  | report evs =>
    cases ht
    exact h
  | next so peek =>
    cases ht with
    | skip hn => exact h
    | pass e hp => exact h
    | start hp hff ht => exact h.of_turn ht rfl rfl rfl
    | done => exact h
  | advance io =>
    cases ht with
    | emit hsig ht => simp [HttpAction.emission, hsig] at he
    | passBy hsig => exact h
    | finish ht => exact h.of_turn ht (Slot.mayBeUpdate_dispatcher _ _) rfl rfl

theorem keeps_read {signal : EventMask} {todo : List EventMask} (h : signal :: todo <:+ onEventStages)
    (hne : signal ≠ deRead) : deRead &&& ~~~signal = deRead := by
  have hall : ∀ e ∈ onEventStages, e ≠ deRead → deRead &&& ~~~e = deRead := by decide
  exact hall signal (h.subset (List.mem_cons_self ..)) hne

theorem losesRead_eq {s : HttpServer} {a : HttpAction} {p : Ptr} {signal : EventMask} {io : Answers}
    {d : SocketDispatcher} (he : a.emission s = some (p,signal,io)) (hd : s.world.socketAt p = some d) :
    a.losesRead s = (decide (signal = deRead) && decide ((s.slots p).read = some .onRead) &&
      hardError (io.recvs.headD (.error eagain)) && (decide (d.s ≠ invalidSocket) && !d.udp)) := by
  simp only [HttpAction.losesRead, he, Option.any_some, hd]

section Emission
variable {response : Response} {s t : HttpServer} {control : Control} {p q : Ptr} {ff : EventMask} {io : Answers}

/-- A stage of OnEvent that emits leaves the subscriptions to SignalReadEvent of the sockets that are there. -/
theorem stage_read {signal : EventMask} {x : Signal} (hl : s.world.live q = true) (ht : HttpServer.emit response p x io
    { s with loop := ⟨s.world.onEventStage p ff signal,control⟩ } = some t) : (t.slots q).read = (s.slots q).read :=
  congrArg Prod.fst (HttpServer.emit_lasting (s := { s with loop := ⟨s.world.onEventStage p ff signal,control⟩ })
    ((World.keeps_onEventStage (steady_socketFd q p) ff signal).live hl) ht)

/-- After the stage for DE_READ an open client has it enabled unless its first Recv failed for good. -/
theorem stage_armed_iff {d : SocketDispatcher} (hd : s.world.socketAt p = some d) (hv : d.s ≠ invalidSocket)
    (hh : s.hung = false) (hslot : (s.slots p).read = some .onRead) (hsig : has ff deRead = true)
    (ht : HttpServer.emit response p .read io { s with loop := ⟨s.world.onEventStage p ff deRead,control⟩ } = some t) :
    ArmedAt p t.world ↔ (d.udp || !hardError (io.recvs.headD (.error eagain))) = true := by
  set u : HttpServer := { s with loop := ⟨s.world.onEventStage p ff deRead,control⟩ } with hu
  have hoff : has (d.enabledEvents &&& ~~~deRead) deRead = false := has_and_not_self _ _ _ (by simp)
  have hd' : u.world.socketAt p = some { d with enabledEvents := d.enabledEvents &&& ~~~deRead } :=
    World.onEventStage_socketAt hd hsig
  rw [HttpServer.world, HttpServer.emit_onRead (s := u) hslot ht]
  exact HttpServer.onRead_armed_iff (s := { u with emitting := some (p,.read) }) hd' hv hoff hh _ _

end Emission

/-- The step lemma: a client is orphaned exactly where its OnRead starts with a Recv that fails for good. -/
theorem HttpTurn.orphans_iff {response : Response} {s t : HttpServer} {a : HttpAction} (h : HttpTurn response s a t)
    (hs : loopMachine.Reachable Regular s.loop) (hh : s.hung = false) (hn : NoOrphans s) :
    NoOrphans t ↔ a.losesRead s = false := by
  cases h with
  | quiet he hl =>
    refine iff_of_true (fun q hq => armed_of_quiet (regular_sound hs) he hl (hn q hq)) ?_
    rw [HttpAction.losesRead, he]
    rfl
  | @emits _ rest key p ff err handler signal todo io he hc hsig hl ht =>
    obtain ⟨d,κ,x,hslot,-⟩ := (regular_sound hs).owned.slotAt_of_busy (p := p) (by rw [hc]; rfl)
    have hd : s.world.socketAt p = some d := World.socketAt_of_slotAt hslot
    have hlive : s.world.live p = true := World.live_iff.mpr ⟨d,hd⟩
    have hbefore {q : Ptr} (hq : (t.slots q).read = some .onRead) : ArmedAt q s.world := by
      cases hl : s.world.live q with
      | true => exact hn q ((stage_read hl ht).symm.trans hq)
      | false =>
        refine .of_none (Option.not_isSome_iff_eq_none.mp ?_)
        rw [← World.live, hl]
        exact Bool.false_ne_true
    have hafter {q : Ptr} (hw : ArmedAt q (s.world.onEventStage p ff signal)) : ArmedAt q t.world :=
      (emission_rule (I := fun l => ArmedAt q l.world) (reachable_next hs (a.regular _) hl) rfl
        (fun l o _ hlive hw ho _ => ho.armed hlive hw) hw ht).2
    rw [losesRead_eq he hd]
    by_cases hr : signal = deRead ∧ (s.slots p).read = some .onRead ∧ d.s ≠ invalidSocket
    · obtain ⟨rfl,hslot,hv⟩ := hr
      have hclient : NoOrphans t ↔ ArmedAt p t.world := by
        refine ⟨fun h => h p ((stage_read hlive ht).trans hslot),fun hp q hq => ?_⟩
        by_cases hqp : q = p
        · exact hqp ▸ hp
        · exact hafter ((hbefore hq).stage (.inl hqp))
      rw [hclient, stage_armed_iff hd hv hh hslot hsig ht]
      cases d.udp <;> cases hardError (io.recvs.headD (.error eagain)) <;> simp [hslot, hv]
    · refine iff_of_true (fun q hq => hafter ?_) ?_
      · by_cases hqp : q = p
        · by_cases hsd : signal = deRead
          · have hslot : (s.slots p).read = some .onRead := (stage_read hlive ht).symm.trans (hqp ▸ hq)
            have hv : d.s = invalidSocket := by
              by_contra hv
              exact hr ⟨hsd,hslot,hv⟩
            rw [hqp]
            exact .of_invalid (World.onEventStage_socketAt hd hsig) hv
          · exact (hbefore hq).stage (.inr (keeps_read (todo_suffix hs hc) hsd))
        · exact (hbefore hq).stage (.inl hqp)
      · by_contra h
        simp only [Bool.not_eq_false, Bool.and_eq_true, decide_eq_true_eq] at h
        exact hr ⟨h.1.1.1,h.1.1.2,h.2.1⟩

/-- The listener is no client, and there is no other socket. -/
theorem server_noOrphans (a : Startup) (w : World) : NoOrphans (a.server w) := by
  intro q hq
  simp only [Startup.server] at hq
  by_cases hl : q = a.listener
  · rw [hl, Function.update_self] at hq
    cases hq
  · rw [Function.update_of_ne hl] at hq
    cases hq

/-- No client is ever orphaned as long as no OnRead starts with a Recv that fails for good: between
two events epoll watches every open one. The first such OnRead orphans its client. -/
theorem no_orphaned_connection {response : Response} {s : HttpServer}
    (h : (httpMachine response).Reachable KeepsReading s) :
    NoOrphans s ∧ (s.loop.control.busy = none → Watched s) ∧
      ∀ a t, httpStep response s a = some t → (NoOrphans t ↔ KeepsReading s a) := by
  obtain ⟨hs,hn⟩ := server_rule (I := NoOrphans) h server_noOrphans
    fun s a t hs hh hn ha ht => (ht.orphans_iff hs hh hn).mpr ha
  refine ⟨hn,fun hbusy q d hq hd hv => ?_,fun a t ht => ?_⟩
  · have hkey := regular_registered hs q d hd hv
    obtain ⟨k,hk⟩ := Option.isSome_iff_exists.mp hkey
    have hmask := ((regular_interest hs hbusy).registered q k _ hk (World.socketAt_eq_some_iff.mp hd)).1
    have hread : has d.enabledEvents deRead = true := hn q hq d hd hv
    refine ⟨hkey,?_⟩
    change s.world.kernel.mask d.s = getEpollEvents d.enabledEvents at hmask
    rw [hmask, has_getEpollEvents_in, has_or_right, hread, Bool.true_or]
  · obtain ⟨hh,ht⟩ := httpStep_turn ht
    exact ht.orphans_iff hs hh hn

/-- A client is accepted, reported readable and writable, and the loop comes back to its wait. -/
private def clientRead (recvs : List (Except Errno Nat)) : List HttpAction :=
  oneClient ++ oneRequest recvs [] [] ++ [.advance ⟨[],[],[]⟩, .advance ⟨[],[],[]⟩, .next (.ok 0) (.ok 1)]

private def clientIn (reads : Bool) (s : HttpServer) : Bool :=
  s.loop.control.busy.isNone && decide ((s.slots 2).read = some .onRead) &&
    (s.world.socketAt 2).any fun d => decide (d.s ≠ invalidSocket) && (has d.enabledEvents deRead == reads)

private theorem clientIn_spec {reads : Bool} {s : HttpServer} (h : clientIn reads s = true) :
    s.loop.control.busy = none ∧ (s.slots 2).read = some .onRead ∧
      ∃ d, s.world.socketAt 2 = some d ∧ d.s ≠ invalidSocket ∧ has d.enabledEvents deRead = reads := by
  obtain ⟨h,hd⟩ := Bool.and_eq_true_iff.mp h
  obtain ⟨hb,hr⟩ := Bool.and_eq_true_iff.mp h
  obtain ⟨d,hd,h⟩ := (Option.any_eq_true _ _).mp hd
  obtain ⟨hv,he⟩ := Bool.and_eq_true_iff.mp h
  exact ⟨Option.isNone_iff_eq_none.mp hb,of_decide_eq_true hr,d,hd,of_decide_eq_true hv,eq_of_beq he⟩

theorem no_orphaned_connection_read : ∃ s : HttpServer, (s.slots 2).read = some .onRead ∧ openAt s.world 2 = true ∧
    NoOrphans s ∧ Watched s := by
  have h : ((httpMachine shortResponse).run KeepsReading plainServer (clientRead [.ok 16])).any
      (clientIn true) = true := by
    decide +kernel
  obtain ⟨s,hs,hp⟩ := Machine.exists_reachable_of_run (plainServer_init shortResponse) h
  obtain ⟨hb,hr,d,hd,hv,-⟩ := clientIn_spec hp
  obtain ⟨hn,hw,-⟩ := no_orphaned_connection hs
  exact ⟨s,hr,openAt_iff.mpr ⟨d,hd,hv⟩,hn,hw hb⟩

/-- The client's reset reaches the first ::recv: OnRead goes no further and nothing closes the socket. -/
theorem connection_orphaned : ¬∀ s : HttpServer, (httpMachine shortResponse).Reachable Machine.Free s →
    s.loop.control.busy = none → NoOrphans s := by
  intro hall
  have h : ((httpMachine shortResponse).run Machine.Free plainServer (clientRead [.error econnreset])).any
      (clientIn false) = true := by
    decide +kernel
  obtain ⟨s,hs,hp⟩ := Machine.exists_reachable_of_run (plainServer_init shortResponse) h
  obtain ⟨hb,hr,d,hd,hv,he⟩ := clientIn_spec hp
  have hread := hall s hs hb 2 hr d hd hv
  rw [he] at hread
  cases hread

end UServer.Http
