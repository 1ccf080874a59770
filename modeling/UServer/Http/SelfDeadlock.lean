import UServer.Http.ServerRuns

/-! Does the loop thread ever wait for a mutex that it holds? OnWrite disconnects from
SignalWriteEvent, and does so inside its emission if it runs there and hands over a byte. -/
namespace UServer.Http
open Library Net

/-- Does one of so many calls of OnWrite find room? A call that finds none uses up one answer. -/
def findsRoom : Nat → List SendOutcome → Bool
  | 0, _ => false
  | calls + 1, sends => decide (0 < leadingRoom sends) || findsRoom calls sends.tail

/-- Is SignalWriteEvent emitted while OnWrite is connected to it and finds room for the response? -/
def HttpAction.writesInEmission (response : Response) (s : HttpServer) (a : HttpAction) : Bool :=
  (a.emission s).any fun (p, signal, io) => decide (signal = deWrite) && openAt s.world p &&
    !response.bytes.isEmpty && findsRoom (s.slots p).write io.sends

/-- No emission of SignalWriteEvent has OnWrite hand over a byte. -/
def WritesOutside (response : Response) (s : HttpServer) (a : HttpAction) : Prop :=
  a.writesInEmission response s = false

instance (response : Response) (s : HttpServer) (a : HttpAction) : Decidable (WritesOutside response s a) :=
  inferInstanceAs (Decidable (_ = false))

/-- On no descriptor every Send fails. -/
theorem send_of_closed {w : World} {p : Ptr} (h : openAt w p = false) (cb : Nat) (res : Except Errno Nat) :
    (w.send p cb res).2 = -1 := by
  have hans : w.answer p res = .error ebadf := by
    unfold World.answer
    split
    · rfl
    · rename_i d hd
      rw [if_pos]
      by_contra hv
      rw [openAt_iff.mpr ⟨d,hd,hv⟩] at h
      cases h
  simp only [World.send, hans, returned]

theorem signalOf_eq_write (event : EventMask) : decide (signalOf event = .write) = decide (event = deWrite) := by
  have hne : deConnect ≠ deWrite := by decide
  unfold signalOf
  by_cases hc : event = deConnect
  · simp [hc, hne]
  · by_cases hw : event = deWrite
    · rw [if_neg hc, if_pos hw, hw]
      rfl
    · rw [if_neg hc, if_neg hw]
      split <;> simp [hw]

namespace HttpServer
variable {response : Response} {p : Ptr} {s t : HttpServer}

/-- When the loop of OnWrite hands over anything. -/
theorem cursor_pos_iff (sends : List SendOutcome) (x : Exchange) :
    0 < (Exchange.writeLoop response p sends 0 x).2.1 ↔
      openAt x.world p = true ∧ response.bytes.isEmpty = false ∧ 0 < leadingRoom sends := by
  cases ho : openAt x.world p with
  | true =>
    obtain ⟨d,hd,hv⟩ := openAt_iff.mp ho
    have hopen : OpenAt p (has d.enabledEvents deWrite) x.world := ⟨d,hd,hv,rfl⟩
    rw [(Exchange.writeLoop_spec response sends hopen (Nat.zero_le _)).cursor, Nat.zero_add, Nat.lt_min,
      List.length_pos_iff, List.isEmpty_eq_false_iff]
    simp
  | false =>
    have hzero : (Exchange.writeLoop response p sends 0 x).2.1 = 0 := by
      cases sends with
      | nil => rfl
      | cons o sends =>
        unfold Exchange.writeLoop
        dsimp only
        rw [send_of_closed ho]
        rfl
    simp [hzero]

theorem onWrite_emitting (sends : List SendOutcome) : (s.onWrite response p sends).1.emitting = s.emitting := by
  unfold onWrite disconnectWrite locked
  dsimp only
  split
  · split <;> rfl
  · rfl

theorem onWrite_hung (sends : List SendOutcome) : (s.onWrite response p sends).1.hung =
    (s.hung || (decide (s.emitting = some (p,.write)) &&
      decide (0 < (Exchange.writeLoop response p sends 0 (s.exchange p)).2.1))) := by
  unfold onWrite disconnectWrite locked
  dsimp only
  split
  · rename_i hpos
    split
    · rename_i he
      simp only [setWorld] at he
      simp [he, hpos]
    · rename_i he
      simp only [setWorld] at he
      simp [he, hpos, setWorld, setSlots]
  · rename_i hpos
    simp [hpos, setWorld]

theorem openAt_onWrite (sends : List SendOutcome) :
    openAt (s.onWrite response p sends).1.world p = openAt s.world p := by
  refine openAt_of_keeps ?_
  change Keeps Dispatcher.socketFd p s.world (s.onWrite response p sends).1.loop.world
  rw [onWrite_loop]
  exact Exchange.writeLoop_rule (I := fun w => Keeps Dispatcher.socketFd p s.world w) response
    (fun w cb res hw => hw.trans (World.keeps_send (steady_socketFd p p) cb res)) sends 0 (s.exchange p) .rfl

/-- The slots of SignalWriteEvent block the thread if one of them finds room. -/
theorem emitWrite_hung (slots : Nat) (sends : List SendOutcome) (s : HttpServer) (he : s.emitting = some (p,.write))
    (hh : s.hung = false) : (emitWrite response p slots sends s).hung =
      (openAt s.world p && !response.bytes.isEmpty && findsRoom slots sends) := by
  induction slots generalizing sends s with
  | zero => simp [emitWrite, findsRoom, hh]
  | succ slots ih =>
    have hhung : (s.onWrite response p sends).1.hung = _ := onWrite_hung sends
    rw [hh, Bool.false_or, he, decide_eq_true rfl, Bool.true_and] at hhung
    by_cases hpos : 0 < (Exchange.writeLoop response p sends 0 (s.exchange p)).2.1
    · obtain ⟨ho,hb,hroom⟩ := (cursor_pos_iff sends (s.exchange p)).mp hpos
      rw [decide_eq_true hpos] at hhung
      have ho : openAt s.world p = true := ho
      simp only [emitWrite, hhung, if_true, ho, hb, findsRoom, hroom, decide_true, Bool.not_false, Bool.true_or,
        Bool.and_self]
    · rw [decide_eq_false hpos] at hhung
      have hrest : (s.onWrite response p sends).2 = sends.tail := Exchange.rest_of_no_room response (s.exchange p) hpos
      have hnext := ih sends.tail (s.onWrite response p sends).1 ((onWrite_emitting sends).trans he) hhung
      simp only [emitWrite, hhung, Bool.false_eq_true, if_false, hrest, hnext, openAt_onWrite, findsRoom]
      rw [cursor_pos_iff] at hpos
      cases ho : openAt s.world p with
      | false => rfl
      | true =>
        cases hb : response.bytes.isEmpty with
        | true => rfl
        | false =>
          have hn : ¬0 < leadingRoom sends := fun hroom => hpos ⟨ho,hb,hroom⟩
          simp [hn]

/-- OnRead connects to and disconnects from SignalWriteEvent, while SignalReadEvent is emitted. -/
theorem onRead_hung (recvs : List (Except Errno Nat)) (sends : List SendOutcome) (he : s.emitting = some (p,.read))
    (hh : s.hung = false) : (s.onRead response p recvs sends).hung = false := by
  have hother {s : HttpServer} (he : s.emitting = some (p,.read)) : ¬s.emitting = some (p,.write) := by
    rw [he]
    simp
  refine (onRead_steps (J := fun s => s.emitting = some (p,.read) ∧ s.hung = false) ⟨he,hh⟩ ?_ ?_).2
  · rintro s ⟨he,hh⟩
    rw [connectWrite, locked, if_neg (hother he)]
    exact ⟨he,hh⟩
  · rintro s ⟨he,hh⟩
    rw [onWrite_emitting, onWrite_hung, hh, decide_eq_false (hother he)]
    exact ⟨he,rfl⟩

private theorem acceptLoop_hung (n : Nat) (accepts : List AcceptAnswer) (s : HttpServer)
    (he : s.emitting = some (p,.read)) (hh : s.hung = false) (ht : acceptLoop p n accepts s = some t) :
    t.hung = false := by
  refine (acceptLoop_steps (J := fun s => s.hung = false ∧ s.emitting = some (p,.read)) ?_ n accepts s ⟨hh,he⟩ ht).1
  rintro s a ⟨hh,he⟩ hr
  obtain ⟨hl,-⟩ := Bool.and_eq_true_iff.mp hr
  obtain ⟨hl,hn⟩ := Bool.and_eq_true_iff.mp hl
  set v := s.setWorld (s.world.accept p a.res a.address a.soType a.linger).1 with hv
  refine ⟨⟨hh,he⟩,fun _ => ?_⟩
  rw [welcome_eq (s := v) (World.ne_of_vacant hl hn).symm he hh]
  exact ⟨hh,he⟩

/-- An emission blocks the thread only where OnWrite runs in it and finds room. -/
theorem emit_hung {signal : Signal} {io : Answers} (hh : s.hung = false) (ht : emit response p signal io s = some t) :
    t.hung = (decide (signal = .write) && openAt s.world p && !response.bytes.isEmpty &&
      findsRoom (s.slots p).write io.sends) := by
  obtain ⟨u,hu,rfl⟩ := Option.map_eq_some_iff.mp ht
  have hhung : (if u.hung then u else { u with emitting := none }).hung = u.hung := by
    split <;> rfl
  rw [hhung]
  unfold callSlots at hu
  cases signal with
  | read =>
    dsimp only at hu
    split at hu
    · cases hu
      exact hh
    · exact acceptLoop_hung _ _ { s with emitting := some (p,.read) } rfl hh hu
    · cases hu
      exact onRead_hung (s := { s with emitting := some (p,.read) }) io.recvs io.sends rfl hh
  | write =>
    cases hu
    exact emitWrite_hung _ _ { s with emitting := some (p,.write) } rfl hh
  | connect =>
    cases hu
    exact hh
  | close =>
    cases hu
    split <;> exact hh

end HttpServer

/-- The step lemma: the thread blocks exactly where OnWrite hands over a byte inside an emission. -/
theorem httpStep_hung {response : Response} {s t : HttpServer} {a : HttpAction} (h : httpStep response s a = some t) :
    t.hung = a.writesInEmission response s := by
  obtain ⟨hh,h⟩ := httpStep_turn h
  unfold HttpAction.writesInEmission
  cases h with
  | quiet he hl =>
    rw [he]
    exact hh
  | @emits _ rest key p ff err handler signal todo io he hc hsig hl ht =>
    have hopen : openAt (s.world.onEventStage p ff signal) p = openAt s.world p :=
      openAt_of_keeps (World.keeps_onEventStage (steady_socketFd p p) ff signal)
    rw [he, Option.any_some, HttpServer.emit_hung (s := { s with
      loop := ⟨s.world.onEventStage p ff signal,.onEvent rest key p ff err true todo⟩ }) hh ht, signalOf_eq_write]
    exact congrArg (fun o => decide (signal = deWrite) && o && !response.bytes.isEmpty &&
      findsRoom (s.slots p).write io.sends) hopen

/-- The loop thread never waits for a mutex that it holds, as long as no emission of
SignalWriteEvent has OnWrite hand over a byte; the first one that does blocks it. -/
theorem loop_thread_never_blocks {response : Response} {s : HttpServer}
    (h : (httpMachine response).Reachable (WritesOutside response) s) :
    s.hung = false ∧ ∀ a t, httpStep response s a = some t → (t.hung = false ↔ WritesOutside response s a) := by
  refine ⟨?_,fun a t ht => by rw [httpStep_hung ht, WritesOutside]⟩
  refine h.rule (I := fun s => s.hung = false) ?_ fun s a t _ ha ht => (httpStep_hung ht).trans ha
  rintro s ⟨a,w,-,-,-,rfl⟩
  rfl

private def answered (s : HttpServer) : Bool := decide (s.handed 2 = [72])

theorem loop_thread_never_blocks_answered : ∃ s : HttpServer, s.handed 2 = [72] ∧ s.hung = false := by
  have h : ((httpMachine shortResponse).run (WritesOutside shortResponse) plainServer
      (oneClient ++ oneRequest [.ok 16] [.room 1] [.room 1])).any answered = true := by
    decide +kernel
  obtain ⟨s,hs,hp⟩ := Machine.exists_reachable_of_run (plainServer_init shortResponse) h
  exact ⟨s,of_decide_eq_true hp,(loop_thread_never_blocks hs).1⟩

/-- OnRead finds no room for the response and stays connected; the write event of the same
report calls OnWrite inside SignalWriteEvent, where it hands over the byte and disconnects. -/
theorem loop_thread_blocks :
    ¬∀ s : HttpServer, (httpMachine shortResponse).Reachable Machine.Free s → s.hung = false := by
  intro hall
  have h : ((httpMachine shortResponse).run Machine.Free plainServer
      (oneClient ++ oneRequest [.ok 16] [.room 0] [.room 1])).any HttpServer.hung = true := by
    decide +kernel
  obtain ⟨s,hs,hp⟩ := Machine.exists_reachable_of_run (plainServer_init shortResponse) h
  rw [hall s hs] at hp
  cases hp

end UServer.Http
