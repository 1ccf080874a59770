import UServer.Library.History
import UServer.Net.DispatchKeys
import UServer.Net.OpenRegistered

/-! Does a dead socket go quiet? OnEvent delivers DE_CLOSE and disables that event alone; the end of
the stream stays readable, so silence depends on what the kernel is left asking for. -/
namespace UServer.Net
open Library

/-- The dispatchers whose SignalCloseEvent was emitted with no operation called on them since, and those
that OnEvent was called or a signal emitted on in that state. -/
structure DeathRecord where
  dead : Ptr → Bool
  noise : List Ptr

namespace DeathRecord

/-- Those that the step calls OnEvent or emits a signal on. -/
def roused (s : LoopState) (a : Action) (t : LoopState) : Option Ptr :=
  match a with
  | .next _ _ => t.control.busy
  | _ => (a.emits s).map Prod.fst

def note (s : LoopState) (a : Action) (t : LoopState) (g : DeathRecord) : DeathRecord where
  dead p :=
    match a with
    | .op o => g.dead p && !o.subjects.contains p
    | _ => g.dead p || decide (a.emits s = some (p, deClose))
  noise := ((roused s a t).filter g.dead).toList ++ g.noise

end DeathRecord

/-- The loop with a record of the dead dispatchers. -/
def deathMachine : Machine (LoopState × DeathRecord) Action :=
  loopMachine.recorded ⟨fun _ => false,[]⟩ DeathRecord.note

/-- Does the end of OnEvent leave the kernel asking for nothing on the dispatcher? No event that epoll knows is
enabled, and the kernel is told so if the snapshot asked for one, or asks for none by now. -/
def World.endsMuted (w : World) (p : Ptr) : Bool :=
  (w.server.keyByDispatcher p).isNone || (w.socketAt p).all fun d => decide (getEpollEvents d.enabledEvents = 0) &&
    (decide (getEpollEvents (d.savedEnabledEvents.getD 0xFF) ≠ 0) || decide (w.kernel.mask d.s = 0))

/-- Does OnEvent on a dead dispatcher end with the kernel asking for more, or the kernel have an error of its
socket to tell? -/
def Action.wakes (q : LoopState × DeathRecord) : Action → Bool
  | .next so _ =>
    match q.1.control with
    | .batch (ev :: _) => (q.1.world.server.dispatcherByKey ev.key).any fun p => q.2.dead p &&
        decide (pendingError (has ev.events (epollRdHup ||| epollErr ||| epollHup))
          (has ev.events (epollRdHup ||| epollErr ||| epollHup)) so ≠ 0)
    | _ => false
  | .advance =>
    match q.1.control with
    | .onEvent _ _ p _ _ _ [] => q.2.dead p && !q.1.world.endsMuted p
    | _ => false
  | _ => false

def LetsRest (q : LoopState × DeathRecord) (a : Action) : Prop := a.wakes q = false

instance (q : LoopState × DeathRecord) (a : Action) : Decidable (LetsRest q a) := inferInstanceAs (Decidable (_ = false))

/-- Anything but an event or a connection in progress on the dispatcher. -/
def Policy.others (p : Ptr) : Policy :=
  { Policy.all with arms := fun q _ => decide (q ≠ p), completes := fun q => decide (q ≠ p) }

theorem Op.allowed_others {p : Ptr} {o : Op} (h : p ∉ o.subjects) (w : World) : o.allowed (.others p) w = true := by
  have hself {q : Ptr} (hq : p ∉ [q]) : decide (q ≠ p) = true :=
    decide_eq_true fun he => hq (List.mem_singleton.mpr he.symm)
  cases o with
  | connect q family sock linger res =>
    have hq := hself h
    cases res <;> simp only [Op.allowed, Policy.createsWithin, Policy.connectsWithin, Policy.others, Policy.all, hq] <;>
      simp
  | wrapSocket q s soType linger => simp [Op.allowed, Policy.others, of_decide_eq_true (hself h)]
  | listen q res => exact hself h
  | accept q res q' soType linger =>
    simp only [Op.subjects, List.mem_cons, List.not_mem_nil, or_false, not_or] at h
    simp [Op.allowed, Policy.others, Ne.symm h.1, Ne.symm h.2]
  | send q cb res => exact hself h
  | sendTo q cb res => exact hself h
  | recv q length res => exact hself h
  | recvFrom q res => exact hself h
  | _ => simp [Op.allowed, Policy.createsWithin, Policy.others, Policy.all]

/-- Registered under the key, with nothing that the dispatcher would ask for and nothing that the kernel is asked for. -/
def Muted (w : World) (p : Ptr) (k : Key) : Prop :=
  ∃ d x, w.slotAt p = some ⟨.socket d,some k,x⟩ ∧ getEpollEvents d.enabledEvents = 0 ∧
    x.elim 0 EpollEntry.events = 0

namespace Slot

/-- Without arming it, a write keeps a muted slot muted or takes its registration. -/
theorem Write.muted {P : Policy} {busy : Prop} {p : Ptr} {d : SocketDispatcher} {k : Key} {x : Option EpollEntry}
    {evs : List Event} {y : Option Slot} (h : Write P busy p (some ⟨.socket d,some k,x⟩) evs y)
    (ha : ∀ events, P.arms p events = false) (he : getEpollEvents d.enabledEvents = 0)
    (hx : x.elim 0 EpollEntry.events = 0) : (∃ d' x', y = some ⟨.socket d',some k,x'⟩ ∧
      getEpollEvents d'.enabledEvents = 0 ∧ x'.elim 0 EpollEntry.events = 0) ∨ ∀ c, y = some c → c.key = none := by
  generalize hc : some (Slot.mk (.socket d) (some k) x) = c at h
  cases h with
  | same | note => exact .inl ⟨d,x,hc.symm,he,hx⟩
  | modify c d₀ d' hd hs hen hb hst =>
    cases hc
    cases hd
    exact .inl ⟨d',x,rfl,hen ▸ he,hx⟩
  | enable c events harm => rw [ha] at harm; cases harm
  | set c events hk => cases hc; cases hk
  | add c k' d₀ hd hk hv => cases hc; cases hk
  | retire =>
    right
    intro c hc
    cases hc
    rfl
  | reset | release | acquire | construct | wrap | free => cases hc
  | remove c k' hk hd =>
    right
    intro c hc
    cases hc
    rfl
  | update c hd =>
    cases hc
    refine .inl ⟨d,_,rfl,he,?_⟩
    have hev : Slot.events ⟨.socket d,some k,x⟩ = 0 := he
    simp only [hev]
    split <;> rfl

end Slot

section Writes
variable {P : Policy} {busy : Option Ptr} {p q : Ptr} {evs : List Event} {w w' : World} {k : Key}

/-- A dispatcher comes by a key that was issued before only if it has it already. -/
theorem Write.key_before (h : Write P busy q evs w w') (hR : Registry w) (hlt : (addedKeys w.trace).length < 2 ^ 64)
    (hold : k ∈ addedKeys w.trace) (hk : w'.server.keyByDispatcher p = some k) :
    w.server.keyByDispatcher p = some k := by
  rcases h.server_cases with ⟨hs,-⟩ | ⟨hn,-,hs⟩ | ⟨k',-,-,hs⟩
  · rwa [hs] at hk
  · have hk' : w'.server.keyByDispatcher =
        Function.update w.server.keyByDispatcher q (some w.server.nextDispatcherKey) := by
      rw [hs]
      exact World.emplace_of_none hn _
    rw [hk'] at hk
    rcases update_some_cases hk with ⟨-,rfl⟩ | ⟨-,hk⟩
    · exact absurd hold (hR.next_fresh hlt)
    · exact hk
  · rw [hs] at hk
    exact (update_none_cases hk).2

theorem Writes.mem_addedKeys (h : Writes P busy w w') (hold : k ∈ addedKeys w.trace) : k ∈ addedKeys w'.trace := by
  obtain ⟨evs,ht,-⟩ := h.trace_eq
  rw [ht, addedKeys_append]
  exact List.mem_append_right _ hold

theorem Writes.key_before (h : Writes P busy w w') (hR : Registry w) (hlt : (addedKeys w'.trace).length < 2 ^ 64)
    (hold : k ∈ addedKeys w.trace) (hk : w'.server.keyByDispatcher p = some k) :
    w.server.keyByDispatcher p = some k := by
  induction h with
  | refl => exact hk
  | tail hw hstep ih =>
    obtain ⟨q,evs,hstep⟩ := hstep
    have hlt' := lt_of_le_of_lt (Writes.addedKeys_le (.single ⟨q,evs,hstep⟩)) hlt
    exact ih hlt' (hstep.key_before (Writes.registry hw hR hlt') hlt' (Writes.mem_addedKeys hw hold) hk)

theorem Muted.of_slotAt (h : Muted w p k) (he : w'.slotAt p = w.slotAt p) : Muted w' p k := by
  obtain ⟨d,x,hc,hd,hx⟩ := h
  exact ⟨d,x,he.trans hc,hd,hx⟩

/-- Without arming the dispatcher, a write keeps it muted or takes its key. -/
theorem Write.muted (h : Write P busy q evs w w') (hO : Owned w busy) (ha : ∀ events, P.arms p events = false)
    (hm : Muted w p k) : Muted w' p k ∨ w'.server.keyByDispatcher p ≠ some k := by
  by_cases hq : p = q
  · obtain ⟨d,x,hc,hd,hx⟩ := hm
    have hs := h.slot
    rw [← hq, hc] at hs
    rcases hs.muted ha hd hx with ⟨d',x',hc',hd',hx'⟩ | hlost
    · exact .inl ⟨d',x',hc',hd',hx'⟩
    · right
      intro hk
      obtain ⟨D,x',hc'⟩ := (h.owned hO).slotAt_of_key hk
      cases hlost _ hc'
  · exact .inl (hm.of_slotAt (h.frame.slotAt_ne hO hq))

theorem Writes.muted (h : Writes P busy w w') (hO : Owned w busy) (hl : Linked w) (hR : Registry w)
    (hlt : (addedKeys w'.trace).length < 2 ^ 64) (ha : ∀ events, P.arms p events = false)
    (hold : k ∈ addedKeys w.trace) (hm : Muted w p k) (hk : w'.server.keyByDispatcher p = some k) : Muted w' p k := by
  induction h with
  | refl => exact hm
  | tail hw hstep ih =>
    obtain ⟨q,evs,hstep⟩ := hstep
    have hlt' := lt_of_le_of_lt (Writes.addedKeys_le (.single ⟨q,evs,hstep⟩)) hlt
    have hk' := hstep.key_before (Writes.registry hw hR hlt') hlt' (Writes.mem_addedKeys hw hold) hk
    exact (hstep.muted (Writes.sound hw hO hl).1 ha (ih hlt' hk')).resolve_right (not_not.mpr hk)

end Writes

/-- A call on other dispatchers leaves a muted one muted. -/
theorem Muted.exec {w : World} {busy : Option Ptr} {p : Ptr} {k : Key} {o : Op} (hm : Muted w p k) (hO : Owned w busy)
    (hl : Linked w) (hR : Registry w) (hlt : (addedKeys (w.exec o).trace).length < 2 ^ 64)
    (hr : w.ready busy o = true) (hp : p ∉ o.subjects) : Muted (w.exec o) p k := by
  have hw := (World.evolves_exec (P := .others p) (fun _ => rfl) hr (Op.allowed_others hp w) hO).2
  obtain ⟨d,x,hc,-,-⟩ := id hm
  have hk := (World.slotAt_eq_some_iff.mp hc).2.1
  have hkeep := (World.keeps_exec (f := id) (w := w) hp).key
  exact hw.muted hO hl hR hlt (fun events => by simp [Policy.others]) (mem_addedKeys.mpr ⟨p,hR.added k p hk⟩) hm
    (hkeep.trans hk)

/-- No two events of a batch have one key, and none of those ahead has the key of the dispatcher at work. -/
structure Distinct (s : LoopState) : Prop where
  nodup : ∀ rest, s.control.pending = some rest → (rest.map PendingEvent.key).Nodup
  busy : ∀ p rest, s.control.busy = some p → s.control.pending = some rest →
    ∀ ev ∈ rest, s.world.server.keyByDispatcher p ≠ some ev.key

theorem LoopTurn.distinct {P : Policy} {s s' : LoopState} {a : Action} (h : LoopTurn P s a s') (hs : Sound s)
    (hi : KeysTrusted s) (hd : Distinct s) (hlt : (addedKeys s'.world.trace).length < 2 ^ 64) : Distinct s' := by
  cases h with
  | op hcan hr ha hw =>
    refine ⟨hd.nodup,fun p rest hb hp ev hev hk => ?_⟩
    exact hd.busy p rest hb hp ev hev (hw.key_before hi.registry hlt (hi.pending_added hp hev) hk)
  | report hr =>
    refine ⟨fun rest hp => ?_,nofun⟩
    cases hp
    exact report_keys_nodup hs.owned hi.registry hr
  | skip | pass =>
    refine ⟨fun rest hp => ?_,nofun⟩
    cases hp
    exact (List.nodup_cons.mp (hd.nodup _ rfl)).2
  | start hp hff ht =>
    obtain ⟨hnot,hnodup⟩ := List.nodup_cons.mp (hd.nodup _ rfl)
    refine ⟨fun rest hr => ?_,fun q rest hb hr ev hev hk => ?_⟩
    · cases hr
      exact hnodup
    · cases hb
      cases hr
      rw [ht.server, (World.slotAt_eq_some_iff.mp ht.before).2.1, Option.some_inj] at hk
      exact hnot (hk ▸ List.mem_map_of_mem hev)
  | done => exact ⟨nofun,nofun⟩
  | emit hb ht =>
    refine ⟨hd.nodup,fun p rest hb hp ev hev => ?_⟩
    rw [ht.server]
    exact hd.busy p rest hb hp ev hev
  | passBy hb => exact ⟨hd.nodup,hd.busy⟩
  | finish ht => exact ⟨hd.nodup,nofun⟩

/-- A dead dispatcher has emitted all of its signals, or its key is of no use: the kernel is asked for nothing
under it and the events ahead bring errors at most. -/
structure Silent (s : LoopState) (p : Ptr) : Prop where
  done : s.control.busy = some p → s.control.todo = []
  muted : s.control.busy ≠ some p → ∀ k, s.world.server.keyByDispatcher p = some k → Muted s.world p k
  ahead : s.control.busy ≠ some p → ∀ rest, s.control.pending = some rest → ∀ ev ∈ rest,
    s.world.server.keyByDispatcher p = some ev.key → ev.events &&& ~~~(epollErr ||| epollHup) = 0

/-- The kernel reports no more than errors under a key that it is asked nothing for. -/
theorem reported_of_muted {w : World} (hO : Owned w none) (hR : Registry w) {p : Ptr} {evs : List (Fd × EpollMask)}
    (hm : ∀ k, w.server.keyByDispatcher p = some k → Muted w p k) {ev : PendingEvent}
    (hev : ev ∈ evs.filterMap (reportOne w.kernel)) (hk : w.server.keyByDispatcher p = some ev.key) :
    ev.events &&& ~~~(epollErr ||| epollHup) = 0 := by
  obtain ⟨e,-,he⟩ := List.mem_filterMap.mp hev
  obtain ⟨y,hy,rfl,hbits⟩ := reportOne_eq_some he
  obtain ⟨q,D,hc,-⟩ := hO.registered_of_interest hy
  obtain ⟨d,x,hcp,-,hx⟩ := hm _ hk
  obtain rfl : q = p := hR.slot_unique hc hcp rfl rfl
  obtain rfl : some y = x := congrArg Slot.entry (Option.some_inj.mp (hc.symm.trans hcp))
  have hzero : y.events = 0 := hx
  have hmask : (0 : EpollMask) ||| epollErr ||| epollHup = epollErr ||| epollHup := by decide
  rwa [hzero, hmask] at hbits

/-- An event of errors alone, with no error of the socket behind it, calls for nothing. -/
theorem processEvents_of_errors {D : Dispatcher} {events : EpollMask} {so : Except Errno Errno}
    (h : events &&& ~~~(epollErr ||| epollHup) = 0) (errorEvent : Bool)
    (hso : pendingError errorEvent errorEvent so = 0) (peek : Except Errno Nat) :
    (processEvents D (has events (epollIn ||| epollPri)) (has events epollOut) errorEvent errorEvent so peek).1 = 0 := by
  have hnone (e : EpollMask) (he : has (epollErr ||| epollHup) e = false) : has events e = false := by
    by_contra hb
    rw [has_of_subset h ((Bool.not_eq_false _).mp hb)] at he
    cases he
  simp [processEvents, hnone (epollIn ||| epollPri) (by decide), hnone epollOut (by decide), hso]

/-- What makes a step call OnEvent. -/
theorem next_busy {s t : LoopState} {so : Except Errno Errno} {peek : Except Errno Nat} {p : Ptr}
    (h : loopStep s (.next so peek) = some t) (hp : t.control.busy = some p) : ∃ ev rest D,
      s.control = .batch (ev :: rest) ∧ s.world.server.dispatcherByKey ev.key = some p ∧
      (processEvents D (has ev.events (epollIn ||| epollPri)) (has ev.events epollOut)
        (has ev.events (epollRdHup ||| epollErr ||| epollHup)) (has ev.events (epollRdHup ||| epollErr ||| epollHup))
        so peek).1 ≠ 0 := by
  simp only [loopStep] at h
  split at h
  · rename_i ev rest hc
    unfold dispatchNext at h
    split at h
    · cases h
      cases hp
    · rename_i q hq
      split at h
      · cases h
      · rename_i D hD
        dsimp only at h
        split at h
        · cases h
          cases hp
        · rename_i hff
          cases D with
          | signaler afd =>
            cases h
            cases hp
          | socket d =>
            cases h
            cases hp
            exact ⟨ev,rest,.socket d,hc,hq,hff⟩
  · cases h
    cases hp
  · cases h

/-- Nothing is heard of a silent dispatcher. -/
theorem Silent.not_roused {s t : LoopState} {g : DeathRecord} {a : Action} {p : Ptr} (h : Silent s p)
    (hp : g.dead p = true) (hl : Linked s.world) (hw : a.wakes (s,g) = false) (ht : loopStep s a = some t) :
    DeathRecord.roused s a t ≠ some p := by
  intro hr
  cases a with
  | next so peek =>
    obtain ⟨ev,rest,D,hc,hq,hff⟩ := next_busy ht hr
    have hbusy : s.control.busy ≠ some p := by
      rw [hc]
      exact nofun
    have hbits := h.ahead hbusy (ev :: rest) (by rw [hc]; rfl) ev (List.mem_cons_self ..) (hl _ _ hq)
    have hso : pendingError (has ev.events (epollRdHup ||| epollErr ||| epollHup))
        (has ev.events (epollRdHup ||| epollErr ||| epollHup)) so = 0 := by
      simpa [Action.wakes, hc, hq, hp] using hw
    exact hff (processEvents_of_errors hbits _ hso peek)
  | advance =>
    simp only [DeathRecord.roused, Action.emits] at hr
    split at hr
    · rename_i hc
      split at hr
      · cases hr
        have htodo := h.done (by rw [hc]; rfl)
        rw [hc] at htodo
        cases htodo
      · cases hr
    · cases hr
  | op o => cases hr
  | report evs => cases hr

/-- The end of OnEvent leaves the kernel with nothing to ask for. -/
theorem Slot.mayBeUpdate_muted {d : SocketDispatcher} {k : Key} {x : Option EpollEntry} {oldEvents : EventMask}
    (hb : d.savedEnabledEvents = none) (he : getEpollEvents d.enabledEvents = 0)
    (hx : getEpollEvents oldEvents ≠ 0 ∨ x.elim 0 EpollEntry.events = 0) :
    ∃ x', Slot.mayBeUpdate ⟨.socket d,some k,x⟩ oldEvents = ⟨.socket d,some k,x'⟩ ∧ x'.elim 0 EpollEntry.events = 0 := by
  have hev : Slot.events ⟨.socket d,some k,x⟩ = 0 := he
  unfold Slot.mayBeUpdate
  dsimp only
  split
  · refine ⟨_,rfl,?_⟩
    simp only [hev]
    split <;> rfl
  · rename_i hn
    refine ⟨x,rfl,hx.resolve_left fun hne => hn ⟨?_,hb⟩⟩
    rw [he]
    exact Ne.symm hne

/-- The step lemma: a silent dispatcher stays silent until an operation is called on it. -/
theorem LoopTurn.silent {s t : LoopState} {g : DeathRecord} {a : Action} {p : Ptr} (h : LoopTurn .all s a t)
    (hs : Sound s) (hi : KeysTrusted s) (hd : Distinct s) (hlt : (addedKeys t.world.trace).length < 2 ^ 64)
    (hsil : Silent s p) (hp : g.dead p = true) (hw : a.wakes (s,g) = false) (ht : loopStep s a = some t)
    (ho : ∀ o, a = .op o → p ∉ o.subjects) : Silent t p := by
  have hnot := hsil.not_roused hp hs.linked hw ht
  cases h with
  | @op w control o hcan hr ha hwrites =>
    have hp := ho o rfl
    have hkey : (w.exec o).server.keyByDispatcher p = w.server.keyByDispatcher p := (World.keeps_exec (f := id) hp).key
    refine ⟨hsil.done,fun hb k hk => ?_,fun hb rest hr ev hev hk => ?_⟩
    · exact (hsil.muted hb k (hkey.symm.trans hk)).exec hs.owned hs.linked hi.registry hlt hr hp
    · exact hsil.ahead hb rest hr ev hev (hkey.symm.trans hk)
  | report hr =>
    refine ⟨nofun,fun _ k hk => (hsil.muted nofun k hk).of_slotAt rfl,fun _ rest hr ev hev hk => ?_⟩
    cases hr
    exact reported_of_muted hs.owned hi.registry (hsil.muted nofun) hev hk
  | skip | pass =>
    refine ⟨nofun,fun _ k hk => (hsil.muted nofun k hk).of_slotAt rfl,fun _ rest hr ev hev hk => ?_⟩
    cases hr
    exact hsil.ahead nofun _ rfl ev (List.mem_cons_of_mem _ hev) hk
  | @start w w' ev rest q d x so peek ff err hq hff hturn =>
    have hne : p ≠ q := fun h => hnot (congrArg some h.symm)
    refine ⟨fun hb => absurd (Option.some_inj.mp hb).symm hne,fun _ k hk => ?_,fun _ rest' hr ev' hev hk => ?_⟩
    · rw [hturn.server] at hk
      exact (hsil.muted nofun k hk).of_slotAt (hturn.frame.slotAt_ne hs.owned hne)
    · cases hr
      rw [hturn.server] at hk
      exact hsil.ahead nofun _ rfl ev' (List.mem_cons_of_mem _ hev) hk
  | done => exact ⟨nofun,fun _ => hsil.muted nofun,fun _ => nofun⟩
  | @emit w w' rest key q ff err handler signal todo d κ x hsig hturn =>
    have hne : p ≠ q := by
      rintro rfl
      cases hsil.done rfl
    have hb : some q ≠ some p := fun h => hne (Option.some_inj.mp h).symm
    refine ⟨fun h => absurd h hb,fun _ k hk => ?_,fun _ rest' hr ev hev hk => ?_⟩
    · rw [hturn.server] at hk
      exact (hsil.muted hb k hk).of_slotAt (hturn.frame.slotAt_ne hs.owned hne)
    · rw [hturn.server] at hk
      exact hsil.ahead hb rest' hr ev hev hk
  | @passBy w rest key q ff err handler signal todo hsig =>
    have hne : p ≠ q := by
      rintro rfl
      cases hsil.done rfl
    have hb : some q ≠ some p := fun h => hne (Option.some_inj.mp h).symm
    exact ⟨fun h => absurd h hb,fun _ => hsil.muted hb,fun _ => hsil.ahead hb⟩
  | @finish w w' rest key q ff err handler d κ x hturn =>
    by_cases hq : p = q
    · subst hq
      refine ⟨nofun,fun _ k hk => ?_,fun _ rest' hr ev hev hk => ?_⟩
      · obtain ⟨hdis,hkey,hx⟩ := World.slotAt_eq_some_iff.mp hturn.before
        rw [hturn.server] at hk
        obtain rfl : κ = some k := hkey.symm.trans hk
        have hmask : w.kernel.mask d.s = x.elim 0 EpollEntry.events :=
          congrArg (fun x => x.elim 0 EpollEntry.events) hx
        have hends : w.endsMuted p = true := by
          simpa [Action.wakes, hp] using hw
        simp only [World.endsMuted, hk, Option.isNone_some, Bool.false_or, World.socketAt_of_slotAt hturn.before,
          Option.all_some, Bool.and_eq_true, Bool.or_eq_true, decide_eq_true_eq, hmask] at hends
        obtain ⟨x',hc',hx'⟩ := Slot.mayBeUpdate_muted (d := { d with savedEnabledEvents := none }) (k := k) rfl
          hends.1 hends.2
        exact ⟨_,x',hturn.after.trans (congrArg some hc'),hends.1,hx'⟩
      · rw [hturn.server] at hk
        exact absurd hk (hd.busy _ rest' rfl hr ev hev)
    · have hb : some q ≠ some p := fun h => hq (Option.some_inj.mp h).symm
      refine ⟨nofun,fun _ k hk => ?_,fun _ rest' hr ev hev hk => ?_⟩
      · rw [hturn.server] at hk
        exact (hsil.muted hb k hk).of_slotAt (hturn.frame.slotAt_ne hs.owned hq)
      · rw [hturn.server] at hk
        exact hsil.ahead hb rest' hr ev hev hk

/-- DE_CLOSE is the last that OnEvent delivers. -/
theorem silent_of_close {s t : LoopState} {a : Action} {p : Ptr} (he : a.emits s = some (p,deClose))
    (hstages : s.control.todo <:+ onEventStages) (ht : loopStep s a = some t) : Silent t p := by
  have hlast : ∀ l ∈ onEventStages.tails, l.head? = some deClose → l.tail = [] := by decide
  cases a with
  | advance =>
    simp only [Action.emits] at he
    split at he
    · rename_i hc
      split at he
      · cases he
        simp only [loopStep, hc, Option.some_inj] at ht
        rw [hc] at hstages
        subst ht
        exact ⟨fun _ => hlast _ ((List.mem_tails ..).mpr hstages) rfl,fun hb => absurd rfl hb,fun hb => absurd rfl hb⟩
      · cases he
    · cases he
  | _ => cases he

/-- What holds in every state of a run that lets the dead rest. -/
structure DeathInvariant (s : LoopState) (g : DeathRecord) : Prop where
  keys : KeysTrusted s
  distinct : Distinct s
  stages : s.control.todo <:+ onEventStages
  silent : ∀ p, g.dead p = true → Silent s p
  noise : g.noise = []

theorem LoopTurn.deathInvariant {s t : LoopState} {g : DeathRecord} {a : Action} (h : LoopTurn .all s a t)
    (hs : Sound s) (hi : DeathInvariant s g) (hlt : (addedKeys t.world.trace).length < 2 ^ 64)
    (hw : a.wakes (s,g) = false) (ht : loopStep s a = some t) : DeathInvariant t (g.note s a t) := by
  refine ⟨h.keysTrusted hs hi.keys hlt,h.distinct hs hi.keys hi.distinct hlt,h.stages hi.stages,fun p hp => ?_,?_⟩
  · by_cases hold : g.dead p = true ∧ ∀ o, a = .op o → p ∉ o.subjects
    · exact h.silent hs hi.keys hi.distinct hlt (hi.silent p hold.1) hold.1 hw ht hold.2
    · refine silent_of_close ?_ hi.stages ht
      cases a with
      | op o =>
        simp only [DeathRecord.note, Bool.and_eq_true, Bool.not_eq_true', List.contains_eq_mem,
          decide_eq_false_iff_not] at hp
        refine absurd ⟨hp.1,fun o' ho => ?_⟩ hold
        cases ho
        exact hp.2
      | _ =>
        refine of_decide_eq_true ((Bool.or_eq_true_iff.mp hp).resolve_left fun hdead => hold ⟨hdead,?_⟩)
        exact fun _ => nofun
  · rw [DeathRecord.note, hi.noise, List.append_nil]
    cases hr : DeathRecord.roused s a t with
    | none => rfl
    | some p =>
      have hdead : g.dead p = false := by
        by_contra hd
        exact (hi.silent p ((Bool.not_eq_false _).mp hd)).not_roused ((Bool.not_eq_false _).mp hd) hs.linked hw ht hr
      simp [hdead]

/-- In a run that lets the dead rest nothing is ever heard of a dispatcher after its SignalCloseEvent,
until an operation is called on it. -/
theorem dead_sockets_rest {q : LoopState × DeathRecord} (h : deathMachine.Reachable LetsRest q)
    (hlt : (addedKeys q.1.world.trace).length < 2 ^ 64) : q.2.noise = [] := by
  have hi : Sound q.1 ∧ ((addedKeys q.1.world.trace).length < 2 ^ 64 → DeathInvariant q.1 q.2) := by
    refine h.rule (I := fun q => Sound q.1 ∧ ((addedKeys q.1.world.trace).length < 2 ^ 64 → DeathInvariant q.1 q.2)) ?_ ?_
    · rintro ⟨s,g⟩ ⟨⟨p,afd,ha,rfl⟩,rfl⟩
      exact ⟨sound_start ha p,fun _ => ⟨start_keysTrusted ha p,⟨nofun,nofun⟩,List.nil_suffix,nofun,rfl⟩⟩
    · rintro ⟨s,g⟩ a r ⟨hs,hi⟩ hw hstep
      obtain ⟨ht,hg⟩ := Machine.recorded_step hstep
      have hturn : LoopTurn .all s a r.1 := loopStep_turn (fun _ => rfl) hs within_all ht
      refine ⟨hturn.sound hs,fun hlt => ?_⟩
      rw [hg]
      exact hturn.deathInvariant hs (hi (lt_of_le_of_lt hturn.addedKeys_le hlt)) hlt hw ht
  exact (hi.2 hlt).noise

private def connectedSocket : List Action :=
  [.op (.createSocket 1 2 .stream (.ok 5) none), .op (.connect 1 2 (.ok 6) none (.ok ()))]

/-- The kernel reports the socket, and OnEvent runs with handlers that do nothing. -/
private def oneEvent (events : EpollMask) (so : Except Errno Errno) (peek : Except Errno Nat) : List Action :=
  [.report [(5,events)], .next so peek, .advance, .advance, .advance, .advance, .advance, .advance,
    .next (.ok 0) (.ok 1)]

private theorem deathMachine_init : deathMachine.init (⟨World.start 0 3,.idle⟩,⟨fun _ => false,[]⟩) :=
  ⟨init_start 0 (by decide),rfl⟩

private def diedWith (keys : Nat) (q : LoopState × DeathRecord) : Bool :=
  q.2.dead 1 && decide ((addedKeys q.1.world.trace).length = keys)

/-- A socket that nothing is read from or written to any more, reset by its peer and then hung up. -/
theorem dead_sockets_rest_reset : ∃ q : LoopState × DeathRecord, q.2.dead 1 = true ∧
    (addedKeys q.1.world.trace).length < 2 ^ 64 ∧ q.2.noise = [] := by
  have h : (deathMachine.run LetsRest (⟨World.start 0 3,.idle⟩,⟨fun _ => false,[]⟩)
      (connectedSocket ++ oneEvent epollIn (.ok 0) (.ok 1) ++ oneEvent (epollOut ||| epollErr) (.ok econnreset) (.ok 1) ++
        [.report [(5,epollHup)], .next (.ok 0) (.ok 0), .next (.ok 0) (.ok 0)])).any (diedWith 2) = true := by
    decide +kernel
  obtain ⟨q,hq,hp⟩ := Machine.exists_reachable_of_run deathMachine_init h
  obtain ⟨hdead,hkeys⟩ := Bool.and_eq_true_iff.mp hp
  have hlt : (addedKeys q.1.world.trace).length < 2 ^ 64 := by
    rw [of_decide_eq_true hkeys]
    decide
  exact ⟨q,hdead,hlt,dead_sockets_rest hq hlt⟩

/-- The end of the stream is reported, and reported again. -/
theorem dead_socket_roused : ¬∀ q : LoopState × DeathRecord, deathMachine.Reachable Machine.Free q →
    (addedKeys q.1.world.trace).length < 2 ^ 64 → q.2.noise = [] := by
  intro hall
  have h : (deathMachine.run Machine.Free (⟨World.start 0 3,.idle⟩,⟨fun _ => false,[]⟩)
      (connectedSocket ++ oneEvent epollIn (.ok 0) (.ok 0) ++ oneEvent epollIn (.ok 0) (.ok 0))).any (fun q =>
        diedWith 2 q && decide (q.2.noise = [1, 1])) = true := by
    decide +kernel
  obtain ⟨q,hq,hp⟩ := Machine.exists_reachable_of_run deathMachine_init h
  obtain ⟨hp,hnoise⟩ := Bool.and_eq_true_iff.mp hp
  have hlt : (addedKeys q.1.world.trace).length < 2 ^ 64 := by
    rw [of_decide_eq_true (Bool.and_eq_true_iff.mp hp).2]
    decide
  have hnone := hall q hq hlt
  rw [of_decide_eq_true hnoise] at hnone
  cases hnone

end UServer.Net
