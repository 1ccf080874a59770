import UServer.Net.LoopTurns

/-! Does the kernel's interest follow the enabled events of every registered dispatcher?
Between batches it does, on the runs that never put an armed dispatcher into epoll
while its own batch is open. -/
namespace UServer.Net
open Library

namespace Slot

/-- The events that epoll was last told of: those of the snapshot while a batch is open. -/
def held (c : Slot) : EventMask :=
  match c.dispatcher with
  | .signaler _ => deRead
  | .socket d => d.savedEnabledEvents.getD d.enabledEvents

/-- The mask that epoll has for the slot; an absent descriptor counts as zero. -/
def mask (c : Slot) : EpollMask := c.entry.elim 0 EpollEntry.events

/-- Epoll has the mask of the held events, and an unregistered dispatcher holds none. -/
structure Synced (c : Slot) : Prop where
  registered : ∀ k, c.key = some k → c.mask = getEpollEvents c.held
  lapsed : ∀ d saved, c.key = none → c.dispatcher = .socket d → d.savedEnabledEvents = some saved →
    getEpollEvents saved = 0

theorem update_mask {c : Slot} {k : Key} (hk : c.key = some k) : c.update.mask = c.events := by
  simp only [update, hk, mask]
  split
  · rename_i h
    exact h.2.symm
  · rfl

namespace Synced
variable {c : Slot}

/-- The held events of a slot outside a batch are the enabled ones. -/
private theorem held_eq {d : SocketDispatcher} (hc : c.dispatcher = .socket d) (hb : d.savedEnabledEvents = none) :
    c.held = d.enabledEvents := by
  simp [held, hc, hb]

/-- MayBeUpdateDispatcher tells epoll what changed since the mask it was last told of. -/
theorem mayBeUpdate {d : SocketDispatcher} {oldEvents : EventMask} (hc : c.dispatcher = .socket d)
    (hb : d.savedEnabledEvents = none) (hm : ∀ k, c.key = some k → c.mask = getEpollEvents oldEvents) :
    (c.mayBeUpdate oldEvents).Synced where
  registered k hk := by
    rw [mayBeUpdate_key] at hk
    have hh : (c.mayBeUpdate oldEvents).held = d.enabledEvents :=
      held_eq ((c.mayBeUpdate_dispatcher oldEvents).trans hc) hb
    have he : c.events = getEpollEvents d.enabledEvents := by
      simp [events, hc, Dispatcher.getRequestedEvents]
    rw [hh, Slot.mayBeUpdate]
    simp only [hc]
    split
    · rw [update_mask hk, he]
    · rename_i h
      have hsame : getEpollEvents d.enabledEvents = getEpollEvents oldEvents := by
        by_contra hne
        exact h ⟨hne,hb⟩
      rw [hm k hk, hsame]
  lapsed d' saved _ hd hs := by
    rw [mayBeUpdate_dispatcher, hc] at hd
    cases hd
    cases hb.symm.trans hs

/-- While a batch is open no event change reaches epoll. -/
private theorem mayBeUpdate_of_batch {d : SocketDispatcher} {saved : EventMask} (hc : c.dispatcher = .socket d)
    (hb : d.savedEnabledEvents = some saved) (oldEvents : EventMask) : c.mayBeUpdate oldEvents = c := by
  simp [Slot.mayBeUpdate, hc, hb]

theorem changeEvents (h : c.Synced) (f : EventMask → EventMask) : (c.changeEvents f).Synced := by
  cases hc : c.dispatcher with
  | signaler afd =>
    rw [changeEvents_signaler hc]
    exact h
  | socket d =>
    rw [changeEvents_socket hc]
    cases hb : d.savedEnabledEvents with
    | none =>
      refine mayBeUpdate rfl rfl fun k hk => ?_
      rw [← held_eq hc hb]
      exact h.registered k hk
    | some saved =>
      rw [mayBeUpdate_of_batch rfl rfl]
      constructor
      case registered =>
        intro k hk
        have hm := h.registered k hk
        simpa [held, hc, hb, mask] using hm
      case lapsed =>
        intro d' saved' hk hd hs
        cases hd
        exact h.lapsed d saved' hk hc (hb.trans hs)

/-- A dispatcher in no map, with no snapshot but an empty one. -/
theorem unregistered {d : SocketDispatcher} {x : Option EpollEntry}
    (h : ∀ saved, d.savedEnabledEvents = some saved → getEpollEvents saved = 0) :
    Slot.Synced ⟨.socket d,none,x⟩ where
  registered k hk := nomatch hk
  lapsed _ saved _ hd hs := by
    cases hd
    exact h saved hs

/-- The quiet policy is what Add needs: its mask is the one of the held events. -/
theorem add (h : c.Synced) {d : SocketDispatcher} (hc : c.dispatcher = .socket d) (hk : c.key = none)
    (ha : Policy.quiet.adds d.enabledEvents d.savedEnabledEvents = true) (k : Key) : (c.add k).Synced where
  registered k' _ := by
    have he : c.events = getEpollEvents d.enabledEvents := by
      simp [events, hc, Dispatcher.getRequestedEvents]
    have hm : (c.add k).mask = getEpollEvents d.enabledEvents := by
      rw [← he]
      simp only [Slot.add, mask]
      split
      · rename_i h0
        exact h0.symm
      · rfl
    have hh : (c.add k).held = d.savedEnabledEvents.getD d.enabledEvents := by
      simp [Slot.add, held, hc]
    rw [hm, hh]
    cases hb : d.savedEnabledEvents with
    | none => rfl
    | some saved =>
      have h0 : getEpollEvents d.enabledEvents = 0 := by simpa [Policy.quiet, hb] using ha
      rw [h0]
      exact (h.lapsed d saved hk hc hb).symm
  lapsed _ _ hk' := nomatch hk'

end Synced

theorem Write.synced {busy : Prop} {p : Ptr} {x x' : Option Slot} {evs : List Event}
    (h : Write .quiet busy p x evs x') (hx : ∀ c, x = some c → c.Synced) {c : Slot} (hc : x' = some c) : c.Synced := by
  have hreset (saved : Option EventMask) : ∀ m, saved.map (fun _ => (0 : EventMask)) = some m → getEpollEvents m = 0 := by
    intro m hm
    obtain ⟨-,-,rfl⟩ := Option.map_eq_some_iff.mp hm
    decide
  cases h with
  | same => exact hx c hc
  | note => exact hx c hc
  | modify c d d' hd hs he hb =>
    cases hc
    obtain ⟨hr,hl⟩ := hx _ rfl
    constructor
    case registered =>
      intro k hk
      simpa [held, hd, he, hb, mask] using hr k hk
    case lapsed =>
      intro e saved hk hde hs
      cases hde
      exact hl d saved hk hd (hb ▸ hs)
  | enable c events =>
    cases hc
    exact (hx _ rfl).changeEvents _
  | set c events hk =>
    cases hc
    exact (hx _ rfl).changeEvents _
  | add c k d hd hk hv ha =>
    cases hc
    exact (hx _ rfl).add hd hk ha k
  | retire d k x =>
    cases hc
    exact .unregistered (hreset _)
  | reset d =>
    cases hc
    exact .unregistered (hreset _)
  | release d d' hv hs he hb =>
    cases hc
    exact .unregistered fun saved h => (hx _ rfl).lapsed d saved rfl rfl (hb ▸ h)
  | acquire d d' hv hs he hb =>
    cases hc
    exact .unregistered fun saved h => (hx _ rfl).lapsed d saved rfl rfl (hb ▸ h)
  | construct =>
    cases hc
    exact .unregistered nofun
  | wrap s soType hs =>
    cases hc
    exact .unregistered nofun
  | free d hd hb => cases hc
  | remove c k hk hd => cases hd
  | update c hd => cases hd

end Slot

/-- Every slot is in step with epoll. -/
def Synced (w : World) : Prop := ∀ p c, w.slotAt p = some c → c.Synced

theorem Frame.synced {p : Ptr} {w w' : World} {busy : Option Ptr} (h : Frame p w w') (hO : Owned w busy)
    (hw : Synced w) (hp : ∀ c, w'.slotAt p = some c → c.Synced) : Synced w' := by
  intro q c hc
  by_cases hq : q = p
  · exact hp c (hq ▸ hc)
  · exact hw q c (h.slotAt_ne hO hq ▸ hc)

theorem Writes.synced {busy : Option Ptr} {w w' : World} (h : Writes .quiet busy w w') (hO : Owned w busy)
    (hw : Synced w) : Synced w' := by
  suffices hboth : Owned w' busy ∧ Synced w' from hboth.2
  induction h with
  | refl => exact ⟨hO,hw⟩
  | tail _ hstep ih =>
    obtain ⟨p,evs,hstep⟩ := hstep
    exact ⟨hstep.owned ih.1,hstep.frame.synced ih.1 ih.2 fun c hc => hstep.slot.synced (ih.2 p) hc⟩

theorem LoopTurn.synced {s s' : LoopState} {a : Action} (h : LoopTurn .quiet s a s') (hs : Sound s)
    (hw : Synced s.world) : Synced s'.world := by
  cases h with
  | op hcan hr ha hstep => exact hstep.synced hs.owned hw
  | report | skip | pass | done | passBy => exact hw
  | start hp hff ht =>
    refine ht.frame.synced hs.owned hw fun c hc => ?_
    cases ht.after.symm.trans hc
    obtain ⟨hr,-⟩ := hw _ _ ht.before
    have hb := mt ((hs.owned.ok _ _ ht.before).batch _ rfl).mp nofun
    constructor
    case registered =>
      intro k hk
      have hm := hr k hk
      simpa [Slot.held, not_not.mp hb, Slot.mask] using hm
    case lapsed => exact nofun
  | emit hb ht =>
    refine ht.frame.synced hs.owned hw fun c hc => ?_
    cases ht.after.symm.trans hc
    exact (hw _ _ ht.before).changeEvents _
  | finish ht =>
    refine ht.frame.synced hs.owned hw fun c hc => ?_
    cases ht.after.symm.trans hc
    refine Slot.Synced.mayBeUpdate rfl rfl fun k hk => ?_
    have hm := (hw _ _ ht.before).registered k hk
    have hb := ((hs.owned.ok _ _ ht.before).batch _ rfl).mpr rfl
    obtain ⟨saved,hsaved⟩ := Option.ne_none_iff_exists'.mp hb
    simpa [Slot.held, hsaved, Slot.mask] using hm

theorem start_synced {afd : Fd} (h : 0 ≤ afd) (p : Ptr) : Synced (World.start p afd) := by
  intro q c hc
  rw [start_slotAt h] at hc
  split at hc
  · cases hc
    have hm : epollIn = getEpollEvents deRead := by decide
    exact ⟨fun _ _ => hm,nofun⟩
  · cases hc

/-- Epoll asks for what every registered dispatcher has enabled, under its current key,
and watches nothing else. -/
structure InterestFollows (w : World) : Prop where
  registered : ∀ p k d, w.server.keyByDispatcher p = some k → w.dispatchers p = some d →
    w.kernel.mask d.getDescriptor = getEpollEvents d.getRequestedEvents ∧
      ∀ e, w.kernel.interest d.getDescriptor = some e → e.key = k
  unregistered : ∀ fd e, w.kernel.interest fd = some e →
    ∃ p k d, w.server.keyByDispatcher p = some k ∧ w.dispatchers p = some d ∧ d.getDescriptor = fd

theorem interestFollows_of_synced {w : World} (hO : Owned w none) (hw : Synced w) : InterestFollows w where
  registered p k d hk hd := by
    obtain ⟨d',x,hc⟩ := hO.slotAt_of_key hk
    obtain ⟨hd',-,hx⟩ := World.slotAt_eq_some_iff.mp hc
    obtain rfl : d' = d := Option.some_inj.mp (hd'.symm.trans hd)
    have hok := hO.ok p _ hc
    have hheld : Slot.held ⟨d',some k,x⟩ = d'.getRequestedEvents := by
      cases d' with
      | signaler afd => rfl
      | socket d =>
        have hb := mt (hok.batch d rfl).mp nofun
        simp [Slot.held, not_not.mp hb, Dispatcher.getRequestedEvents]
    refine ⟨?_,fun e he => ?_⟩
    · rw [← hheld, ← (hw p _ hc).registered k rfl]
      exact congrArg (fun x => x.elim 0 EpollEntry.events) hx
    · exact (Option.some_inj.mp (hok.entry e (hx.symm.trans he))).symm
  unregistered fd e he := by
    obtain ⟨-,p,c,hc,hf⟩ := hO.held fd e he
    obtain ⟨hd,hk,hx⟩ := World.slotAt_eq_some_iff.mp hc
    have hkey := (hO.ok p c hc).entry e (hx.symm.trans (hf ▸ he))
    exact ⟨p,e.key,c.dispatcher,hk.trans hkey,hd,hf⟩

/-- Between batches the kernel's interest is that of the enabled events, in every run that
puts no armed dispatcher into epoll while its own batch is open. -/
theorem kernel_interest_follows {s : LoopState} (h : loopMachine.Reachable (Within .quiet) s)
    (hbusy : s.control.busy = none) : InterestFollows s.world := by
  obtain ⟨hs,hw⟩ := loop_rule (P := .quiet) (fun _ => rfl) h (fun p afd ha => start_synced ha p)
    fun _ _ _ hs hi ht => ht.synced hs hi
  exact interestFollows_of_synced (hbusy ▸ hs.owned) hw

/-- A run that reconnects a dispatcher in its own batch, from its connect handler. -/
def reconnectRun (handler : List Action) : List Action :=
  [.op (.createSocket 1 2 .dgram (.ok 5) none), .op (.connect 1 2 (.error 0) none (.error eagain)),
    .report [(5,epollIn ||| epollOut)], .next (.ok 0) (.ok 1), .advance, .op (.close 1)] ++ handler ++
    [.advance, .advance, .advance, .advance, .advance, .next (.ok 0) (.ok 1)]

private def asks (fd : Fd) (events : EpollMask) (s : LoopState) : Bool :=
  s.control.busy.isNone && (s.world.kernel.mask fd == events)

theorem kernel_interest_follows_sample : ∃ s : LoopState,
    s.world.kernel.mask 6 = epollOut ∧ InterestFollows s.world := by
  have h : (loopMachine.run (Within .quiet) ⟨World.start 0 3,.idle⟩
      (reconnectRun [.op (.connect 1 2 (.ok 6) none (.error einprogress))])).any (asks 6 epollOut) = true := by
    decide +kernel
  obtain ⟨s,hs,hp⟩ := Machine.exists_reachable_of_run (init_start 0 (by decide)) h
  obtain ⟨hb,hm⟩ := Bool.and_eq_true_iff.mp hp
  exact ⟨s,eq_of_beq hm,kernel_interest_follows hs (Option.isNone_iff_eq_none.mp hb)⟩

/-- The calls of CreateSocket, WrapSocket and the Socket interface that move events about. -/
def Op.onSocket : Op → Bool
  | .createSocket .. | .wrapSocket .. | .connect .. | .listen .. | .accept .. | .send .. | .sendTo .. | .recv ..
  | .recvFrom .. | .close .. => true
  | _ => false

def OnSocket (_ : LoopState) : Action → Prop
  | .op o => o.onSocket = true
  | _ => True

instance (s : LoopState) (a : Action) : Decidable (OnSocket s a) := by
  unfold OnSocket
  split <;> infer_instance

private def drifts (p : Ptr) (s : LoopState) : Bool :=
  s.control.busy.isNone && (s.world.server.keyByDispatcher p).isSome && (s.world.dispatchers p).any fun d =>
    s.world.kernel.mask d.getDescriptor != getEpollEvents d.getRequestedEvents

/-- The connect handler closes a datagram socket, reads from it and connects it again; the
connection is refused and the read event of the same batch then disarms the new socket. -/
theorem kernel_interest_drifts :
    ¬∀ s : LoopState, loopMachine.Reachable OnSocket s → s.control.busy = none → InterestFollows s.world := by
  intro hall
  have h : (loopMachine.run OnSocket ⟨World.start 0 3,.idle⟩ (reconnectRun [.op (.recvFrom 1 (.error ebadf)),
      .op (.connect 1 2 (.ok 6) none (.error econnrefused))])).any (drifts 1) = true := by
    decide +kernel
  obtain ⟨s,hs,hp⟩ := Machine.exists_reachable_of_run (init_start 0 (by decide)) h
  simp only [drifts, Bool.and_eq_true, Option.isNone_iff_eq_none, Option.any_eq_true, bne_iff_ne] at hp
  obtain ⟨⟨hb,hk⟩,d,hd,hne⟩ := hp
  obtain ⟨k,hk⟩ := Option.isSome_iff_exists.mp hk
  exact hne ((hall s hs hb).registered 1 k d hk hd).1

end UServer.Net
