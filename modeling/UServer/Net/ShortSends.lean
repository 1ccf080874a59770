import UServer.Net.KernelInterest

/-! Is a stalled writer armed again? DE_WRITE is disarmed before each SignalWriteEvent, and Send
and SendTo are to arm it when bytes are left over; their condition for that never holds. -/
namespace UServer.Net
open Library

namespace World
variable {w : World} {p : Ptr}

/-- Fewer bytes than requested were accepted, or the call failed with a blocking error. -/
def stalls (w : World) (p : Ptr) (cb : Nat) (res : Except Errno Nat) : Bool :=
  match w.answer p res with
  | .ok n => decide (n < cb)
  | .error e => isBlockingError e

/-- The end of the open batch of events, if there is one. -/
def settle (w : World) (p : Ptr) : World :=
  if (w.socketAt p).any fun d => d.savedEnabledEvents.isSome then w.finishBatchedEventUpdates p else w

/-- DE_WRITE is enabled and, past an open batch, the kernel is asked for EPOLLOUT if the dispatcher is registered. -/
def WriteArmed (w : World) (p : Ptr) : Prop :=
  ∀ d, w.socketAt p = some d → has d.enabledEvents deWrite = true ∧
    ((w.server.keyByDispatcher p).isSome = true → has ((w.settle p).kernel.mask d.s) epollOut = true)

/-- Send never arms DE_WRITE: a count is not positive and negative at once. -/
theorem rearmsWrite_eq_false (sent : Int) (cb : Nat) (error : Errno) : rearmsWrite sent cb error = false := by
  unfold rearmsWrite
  by_cases h : 0 < sent
  · have hn : ¬sent < 0 := by omega
    simp [hn]
  · simp [h]

/-- All that Send does is to store errno. -/
theorem send_world (cb : Nat) (res : Except Errno Nat) :
    (w.send p cb res).1 = (w.noteErrno (w.answer p res)).updateLastError p := by
  simp only [send, rearmsWrite_eq_false, Bool.false_eq_true, if_false]

section Settle
variable {w' : World} {d d' : SocketDispatcher} (hd : w.socketAt p = some d) (hd' : w'.socketAt p = some d')
  (hs : d'.s = d.s) (he : d'.enabledEvents = d.enabledEvents) (hserver : w'.server = w.server)
  (hk : w'.kernel = w.kernel)
include hd hd' hs he hserver hk

/-- Update looks at the descriptor, the enabled events and the key of the dispatcher, and at the kernel. -/
private theorem update_kernel : (w'.update p).kernel = (w.update p).kernel := by
  unfold update
  rw [hserver]
  cases w.server.keyByDispatcher p with
  | none => exact hk
  | some key =>
    have hD := socketAt_eq_some_iff.mp hd
    have hD' := socketAt_eq_some_iff.mp hd'
    by_cases hv : d.s = invalidSocket
    · have hv' : d'.s = invalidSocket := hs.trans hv
      simpa [updateEpoll, hD, hD', Dispatcher.getDescriptor, hv, hv'] using hk
    · have hv' : d'.s ≠ invalidSocket := hs ▸ hv
      obtain ⟨e,hu⟩ := updateEpoll_eq hD hv key
      obtain ⟨e',hu'⟩ := updateEpoll_eq hD' hv' key
      simp only [hu, hu', Dispatcher.getDescriptor, Dispatcher.getRequestedEvents, hs, he, hk, setKernel]
      rfl

/-- So does the end of a batch, which looks at the snapshot too. -/
private theorem settle_kernel (hb : d'.savedEnabledEvents = d.savedEnabledEvents) :
    (w'.settle p).kernel = (w.settle p).kernel := by
  unfold settle
  rw [hd, hd', Option.any_some, Option.any_some, hb]
  split
  · simp only [finishBatchedEventUpdates, hd, hd', socketAt_setSocket_same, mayBeUpdateDispatcher, and_true, he, hb]
    split
    · exact update_kernel (socketAt_setSocket_same ..) (socketAt_setSocket_same ..) hs rfl hserver hk
    · exact hk
  · exact hk

end Settle

/-- Send and SendTo arm DE_WRITE on no socket. -/
theorem writeArmed_send (cb : Nat) (res : Except Errno Nat) : (w.send p cb res).1.WriteArmed p ↔ w.WriteArmed p := by
  rw [send_world, updateLastError]
  set u := w.noteErrno (w.answer p res) with hu
  have hsame : u.dispatchers = w.dispatchers ∧ u.server = w.server ∧ u.kernel = w.kernel := by
    rw [hu]
    cases w.answer p res <;> exact ⟨rfl,rfl,rfl⟩
  obtain ⟨hdispatchers,hserver,hkernel⟩ := hsame
  have hu : u.socketAt p = w.socketAt p := by
    rw [socketAt, hdispatchers, socketAt]
  cases hd : w.socketAt p with
  | none =>
    have hn : u.socketAt p = none := hu.trans hd
    rw [setError, modifySocket_of_none hn]
    simp [WriteArmed, hn, hd]
  | some d =>
    have he := modifySocket_eq (hu.trans hd) fun d => { d with error := u.errno }
    have hd' : (u.setError p u.errno).socketAt p = some { d with error := u.errno } :=
      socketAt_modifySocket (hu.trans hd) _
    have hserver' : (u.setError p u.errno).server = w.server := by
      rw [setError, he]
      exact hserver
    have hkernel' : (u.setError p u.errno).kernel = w.kernel := by
      rw [setError, he]
      exact hkernel
    simp only [WriteArmed, hd, hd', Option.some_inj, forall_eq', hserver',
      settle_kernel hd hd' rfl rfl hserver' hkernel' rfl]

/-- A Send or SendTo that stalls leaves the socket armed for writing if and only if it was armed before the call. -/
theorem stalled_send_armed_iff (w : World) (p : Ptr) (cb : Nat) (res : Except Errno Nat) :
    ((w.stalls p cb res = true → (w.send p cb res).1.WriteArmed p) ↔ (w.stalls p cb res = false ∨ w.WriteArmed p)) ∧
      ((w.stalls p cb res = true → (w.sendTo p cb res).1.WriteArmed p) ↔
        (w.stalls p cb res = false ∨ w.WriteArmed p)) := by
  have hiff : (w.stalls p cb res = true → (w.send p cb res).1.WriteArmed p) ↔
      (w.stalls p cb res = false ∨ w.WriteArmed p) := by
    rw [writeArmed_send]
    cases w.stalls p cb res <;> simp
  exact ⟨hiff,hiff⟩

end World

theorem World.mask_of_slotAt {w : World} {p : Ptr} {c : Slot} (h : w.slotAt p = some c) :
    w.kernel.mask c.fd = c.mask :=
  congrArg (fun x => x.elim 0 EpollEntry.events) (World.slotAt_eq_some_iff.mp h).2.2

/-- On the runs where the kernel's interest follows the enabled events, to be armed for writing is to have
DE_WRITE enabled. -/
theorem writeArmed_iff {s : LoopState} (h : loopMachine.Reachable (Within .quiet) s) {p : Ptr} {d : SocketDispatcher}
    (hd : s.world.socketAt p = some d) : s.world.WriteArmed p ↔ has d.enabledEvents deWrite = true := by
  obtain ⟨hs,hw⟩ := loop_rule (P := .quiet) (fun _ => rfl) h (fun p afd ha => start_synced ha p)
    fun _ _ _ hs hi ht => ht.synced hs hi
  refine ⟨fun ha => (ha d hd).1,fun he e hde => ?_⟩
  cases hd.symm.trans hde
  refine ⟨he,fun hkey => ?_⟩
  obtain ⟨k,hk⟩ := Option.isSome_iff_exists.mp hkey
  obtain ⟨D,x,hc⟩ := hs.owned.slotAt_of_key hk
  obtain rfl : D = .socket d :=
    Option.some_inj.mp ((World.slotAt_eq_some_iff.mp hc).1.symm.trans (World.socketAt_eq_some_iff.mp hd))
  have hout : has (getEpollEvents d.enabledEvents) epollOut = true := by
    rw [has_getEpollEvents_out, has_or_right, he, Bool.true_or]
  have hm := (hw p _ hc).registered k rfl
  unfold World.settle
  rw [hd, Option.any_some]
  cases hb : d.savedEnabledEvents with
  | none =>
    rw [Option.isSome_none, if_neg Bool.false_ne_true]
    have hmask : s.world.kernel.mask d.s = _ := World.mask_of_slotAt hc
    rw [hmask, hm]
    simpa [Slot.held, hb] using hout
  | some saved =>
    rw [Option.isSome_some, if_pos rfl]
    have hbusy : s.control.busy = some p := ((hs.owned.ok p _ hc).batch d rfl).mp (by simp [hb])
    have ht := finish_turn (hbusy ▸ hs.owned) hc
    have hsync : Slot.Synced (Slot.mayBeUpdate ⟨.socket { d with savedEnabledEvents := none },some k,x⟩
        (d.savedEnabledEvents.getD 0xFF)) :=
      Slot.Synced.mayBeUpdate rfl rfl fun _ _ => by simpa [Slot.held, hb, Slot.mask] using hm
    have hmask := World.mask_of_slotAt ht.after
    rw [hsync.registered k (Slot.mayBeUpdate_key _ _), Slot.mayBeUpdate_fd] at hmask
    have hheld : Slot.held (Slot.mayBeUpdate ⟨.socket { d with savedEnabledEvents := none },some k,x⟩
        (d.savedEnabledEvents.getD 0xFF)) = d.enabledEvents := by
      simp [Slot.held, Slot.mayBeUpdate_dispatcher]
    rw [hheld] at hmask
    exact (congrArg (has · epollOut) hmask).trans hout

/-- A connected socket has become writable, and its write handler runs. -/
private def writeHandler : List Action :=
  [.op (.createSocket 1 2 .stream (.ok 5) none), .op (.connect 1 2 (.ok 6) none (.ok ())), .report [(5,epollOut)],
    .next (.ok 0) (.ok 1), .advance, .advance, .advance, .advance]

private def stallsUnarmed (s : LoopState) : Bool :=
  s.control.canCall && s.world.ready s.control.busy (.send 1 10 (.ok 4)) && s.world.stalls 1 10 (.ok 4) &&
    ((s.world.send 1 10 (.ok 4)).1.socketAt 1).any fun d => !has d.enabledEvents deWrite

/-- Four of ten bytes are accepted in the write handler, and nothing will ever report room for the rest. -/
theorem stalled_send_unarmed : ¬∀ s : LoopState, loopMachine.Reachable (Within .quiet) s → s.control.canCall = true →
    ∀ p cb res, s.world.ready s.control.busy (.send p cb res) = true → cb < 2 ^ 31 → s.world.stalls p cb res = true →
      (s.world.send p cb res).1.WriteArmed p := by
  intro hall
  have h : (loopMachine.run (Within .quiet) ⟨World.start 0 3,.idle⟩ writeHandler).any stallsUnarmed = true := by
    decide +kernel
  obtain ⟨s,hs,hp⟩ := Machine.exists_reachable_of_run (init_start 0 (by decide)) h
  simp only [stallsUnarmed, Bool.and_eq_true, Option.any_eq_true] at hp
  obtain ⟨⟨⟨hcan,hr⟩,hst⟩,d,hd,hn⟩ := hp
  have harmed := (hall s hs hcan 1 10 (.ok 4) hr (by decide) hst d hd).1
  rw [harmed] at hn
  cases hn

end UServer.Net
