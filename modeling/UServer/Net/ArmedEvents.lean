import UServer.Net.DispatchKeys
import UServer.Net.KernelInterest

/-! Are only armed events delivered? ProcessEvents maps a report to events by what is
enabled when it is dispatched; handlers in between can only arm more, as long as the
kernel's interest follows the enabled events. -/
namespace UServer.Net
open Library

/-- The events that a dispatcher arms. -/
def armable : List EventMask := [deRead, deWrite, deConnect, deAccept]

/-- Every armable event of ff is enabled. -/
def Allows (enabled ff : EventMask) : Prop := ∀ b ∈ armable, has ff b = true → has enabled b = true

namespace Allows
variable {enabled : EventMask}

theorem zero : Allows enabled 0 := by
  intro b _ h
  simp at h

theorem close : Allows enabled deClose := by
  intro b hb h
  have hn : ∀ b ∈ armable, has deClose b = false := by decide
  rw [hn b hb] at h
  cases h

theorem single {e : EventMask} (he : e ∈ armable) (h : has enabled e = true) : Allows enabled e := by
  intro b hb hbe
  have hn : ∀ e ∈ armable, ∀ b ∈ armable, has e b = true → e = b := by decide
  exact hn e he b hb hbe ▸ h

theorem or {a b : EventMask} (ha : Allows enabled a) (hb : Allows enabled b) : Allows enabled (a ||| b) := by
  intro e he h
  rw [has_or, Bool.or_eq_true] at h
  rcases h with h | h
  · exact ha e he h
  · exact hb e he h

end Allows

/-- What a pending report needs of the events enabled now. -/
structure EventArmed (ev : PendingEvent) (enabled : EventMask) : Prop where
  readable : has ev.events epollIn = true → has enabled (deRead ||| deAccept) = true
  urgent : has ev.events epollPri = false
  writable : has ev.events epollOut = true → has enabled (deWrite ||| deConnect) = true

/-- ProcessEvents turns an armed report into enabled events alone. -/
theorem EventArmed.allows {ev : PendingEvent} {d : SocketDispatcher} (h : EventArmed ev d.enabledEvents)
    {error : Bool} {so : Except Errno Errno} {peek : Except Errno Nat} {ff : EventMask} {err : Errno}
    (hff : processEvents (.socket d) (has ev.events (epollIn ||| epollPri)) (has ev.events epollOut) error error
      so peek = (ff,err)) : Allows d.enabledEvents ff := by
  have hread : has ev.events (epollIn ||| epollPri) = true → has d.enabledEvents deAccept = false →
      has d.enabledEvents deRead = true := by
    intro hr ha
    rw [has_or_right, h.urgent, Bool.or_false] at hr
    have hra := h.readable hr
    rwa [has_or_right, ha, Bool.or_false] at hra
  have hwrite : has ev.events epollOut = true → has d.enabledEvents deConnect = false →
      has d.enabledEvents deWrite = true := by
    intro hw hc
    have hwc := h.writable hw
    rwa [has_or_right, hc, Bool.or_false] at hwc
  obtain ⟨hff,-⟩ := Prod.mk.inj hff
  rw [← hff]
  generalize pendingError error error so = errcode
  generalize (Dispatcher.socket d).isDescriptorClosed peek = closed
  simp only [Dispatcher.getRequestedEvents]
  set read : EventMask := if has ev.events (epollIn ||| epollPri) = true then
    if (decide (errcode ≠ 0) || closed) = true then deClose
    else if has d.enabledEvents deAccept = true then deAccept else deRead
    else 0 with hread'
  have h₁ : Allows d.enabledEvents read := by
    rw [hread']
    split
    · rename_i hr
      split
      · exact .close
      · split
        · exact .single (by decide) (by assumption)
        · rename_i ha
          exact .single (by decide) (hread hr (by simpa using ha))
    · exact .zero
  set write : EventMask := if has ev.events epollOut = true then
    if has d.enabledEvents deConnect = true then if errcode = 0 then read ||| deConnect else read
    else read ||| deWrite
    else read with hwrite'
  have h₂ : Allows d.enabledEvents write := by
    rw [hwrite']
    split
    · rename_i hw
      split
      · rename_i hc
        split
        · exact h₁.or (.single (by decide) hc)
        · exact h₁
      · rename_i hc
        exact h₁.or (.single (by decide) (hwrite hw (by simpa using hc)))
    · exact h₁
  by_cases herr : errcode ≠ 0
  · rw [if_pos herr]
    exact h₂.or .close
  · rw [if_neg herr]
    exact h₂

/-- Every OnEvent in the record was given armable events that were enabled then. -/
def OnlyArmed (trace : List Event) : Prop := ∀ k p ff enabled, .onEvent k p ff enabled ∈ trace → Allows enabled ff

/-- Between two deliveries of one event to one registration, an operation armed it. -/
def Rearmed (trace : List Event) : Prop :=
  ∀ newer k p ff enabled between ff' enabled' older b,
    trace = newer ++ .onEvent k p ff enabled :: (between ++ .onEvent k p ff' enabled' :: older) →
    b ∈ armable → has ff b = true → has ff' b = true → ∃ events, .armed p events ∈ between ∧ has events b = true

/-- The event b is still to be disarmed by the OnEvent that runs on p. -/
def Control.toDisarm (control : Control) (p : Ptr) (b : EventMask) : Prop :=
  match control with
  | .onEvent _ _ q ff _ _ todo => q = p ∧ has ff b = true ∧ b ∈ todo
  | _ => False

/-- An event that was delivered and not armed since is out, or about to be. -/
def Spent (s : LoopState) : Prop :=
  ∀ p d k x b recent ff enabled older, s.world.slotAt p = some ⟨.socket d,some k,x⟩ → b ∈ armable →
    s.world.trace = recent ++ .onEvent k p ff enabled :: older → has ff b = true →
    (∀ events, .armed p events ∈ recent → has events b = false) →
    has d.enabledEvents b = false ∨ s.control.toDisarm p b

/-- The pending events of one batch have different keys, none is that of the dispatcher
whose OnEvent runs, and each is armed as long as its registration lasts. -/
structure PendingArmed (s : LoopState) : Prop where
  nodup : ∀ rest, s.control.pending = some rest → (rest.map PendingEvent.key).Nodup
  busy : ∀ rest p c, s.control.pending = some rest → s.control.busy = some p → s.world.slotAt p = some c →
    ∀ ev ∈ rest, c.key ≠ some ev.key
  armed : ∀ rest, s.control.pending = some rest → ∀ ev ∈ rest, ∀ p d x,
    s.world.slotAt p = some ⟨.socket d,some ev.key,x⟩ → EventArmed ev d.enabledEvents

structure ArmedInvariant (s : LoopState) : Prop where
  keys : KeysTrusted s
  synced : Synced s.world
  pending : PendingArmed s
  known : ∀ k p ff enabled, .onEvent k p ff enabled ∈ s.world.trace → k ∈ addedKeys s.world.trace
  only : OnlyArmed s.world.trace
  rearmed : Rearmed s.world.trace
  spent : Spent s

/-- An element that is not in the first part of a list stands in the second. -/
private theorem append_eq_of_not_mem {α : Type} {a : α} {l t recent older : List α} (ha : a ∉ l)
    (h : l ++ t = recent ++ a :: older) : ∃ recent', recent = l ++ recent' ∧ t = recent' ++ a :: older := by
  rcases List.append_eq_append_iff.mp h with ⟨as,rfl,ht⟩ | ⟨cs,rfl,ht⟩
  · exact ⟨as,rfl,ht⟩
  · cases cs with
    | nil => exact ⟨[],by simp,by simpa using ht.symm⟩
    | cons c cs =>
      cases ht
      simp at ha

theorem OnlyArmed.append {trace evs : List Event} (h : OnlyArmed trace)
    (he : ∀ k p ff enabled, .onEvent k p ff enabled ∉ evs) : OnlyArmed (evs ++ trace) := by
  intro k p ff enabled hm
  rcases List.mem_append.mp hm with hm | hm
  · exact absurd hm (he k p ff enabled)
  · exact h k p ff enabled hm

theorem Rearmed.append {trace evs : List Event} (h : Rearmed trace) (he : ∀ k p ff enabled, .onEvent k p ff enabled ∉ evs) :
    Rearmed (evs ++ trace) := by
  intro newer k p ff enabled between ff' enabled' older b ht
  obtain ⟨newer',-,ht'⟩ := append_eq_of_not_mem (he k p ff enabled) ht
  exact h newer' k p ff enabled between ff' enabled' older b ht'

theorem EventArmed.mono {ev : PendingEvent} {enabled : EventMask} (h : EventArmed ev enabled) (events : EventMask) :
    EventArmed ev (enabled ||| events) where
  readable hr := by rw [has_or, h.readable hr, Bool.true_or]
  urgent := h.urgent
  writable hw := by rw [has_or, h.writable hw, Bool.true_or]

namespace ArmedInvariant
variable {p : Ptr} {evs : List Event} {w w' : World} {control : Control}

section Write
variable (hi : ArmedInvariant ⟨w,control⟩) (hO : Owned w control.busy) (hw : Write .quiet control.busy p evs w w')
  (hlt : (addedKeys w.trace).length < 2 ^ 64)
include hi hO hw hlt

private theorem pending_of_write : PendingArmed ⟨w',control⟩ where
  nodup rest hr := hi.pending.nodup rest hr
  busy rest q c hr hb hc ev hev hk := by
    obtain ⟨d',κ,y',hc',-⟩ := (hw.owned hO).slotAt_of_busy hb
    cases hc.symm.trans hc'
    cases hk
    rcases hw.registered_before hi.keys.registry hO hlt hc with hn | ⟨d,y,hx,-⟩
    · exact hn (hi.keys.pending_added hr hev)
    · exact hi.pending.busy rest q _ hr hb hx ev hev rfl
  armed rest hr ev hev q d' y' hq := by
    rcases hw.registered_before hi.keys.registry hO hlt hq with hn | ⟨d,y,hx,-,he⟩
    · exact absurd (hi.keys.pending_added hr hev) hn
    · have ha := hi.pending.armed rest hr ev hev q d y hx
      rcases he with he | ⟨-,events,-,-,he⟩
      · rwa [he]
      · rw [he]
        exact ha.mono events

private theorem spent_of_write : Spent ⟨w',control⟩ := by
  intro q d' k y' b recent ff enabled older hq hb ht hff harm
  have hno : Event.onEvent k q ff enabled ∉ evs := fun hm => nomatch hw.slot.not_ofLoop _ hm
  obtain ⟨recent',rfl,ht'⟩ := append_eq_of_not_mem hno (hw.trace.symm.trans ht)
  have hk : k ∈ addedKeys w.trace := by
    refine hi.known k q ff enabled ?_
    rw [ht']
    exact List.mem_append_right _ (List.mem_cons_self ..)
  rcases hw.registered_before hi.keys.registry hO hlt hq with hn | ⟨d,y,hx,-,he⟩
  · exact absurd hk hn
  · have hs := hi.spent q d k y b recent' ff enabled older hx hb ht' hff
      fun events hm => harm events (List.mem_append_right _ hm)
    refine hs.imp_left fun hd => ?_
    rcases he with he | ⟨rfl,events,-,hevs,he⟩
    · rwa [he]
    · rw [he, has_or, hd, Bool.false_or]
      exact harm events (List.mem_append_left _ (by simp [hevs]))

end Write

theorem of_writes (hi : ArmedInvariant ⟨w,control⟩) (hO : Owned w control.busy) (hw : Writes .quiet control.busy w w')
    (hlt : (addedKeys w'.trace).length < 2 ^ 64) : ArmedInvariant ⟨w',control⟩ := by
  suffices hboth : Owned w' control.busy ∧ ArmedInvariant ⟨w',control⟩ from hboth.2
  induction hw with
  | refl => exact ⟨hO,hi⟩
  | tail _ hstep ih =>
    obtain ⟨p,evs,hstep⟩ := hstep
    have hone : Writes .quiet control.busy _ _ := .single ⟨p,evs,hstep⟩
    have hlt' := lt_of_le_of_lt hone.addedKeys_le hlt
    obtain ⟨hO,hi⟩ := ih hlt'
    have hnot (k : Key) (q : Ptr) (ff enabled : EventMask) : .onEvent k q ff enabled ∉ evs :=
      fun hm => nomatch hstep.slot.not_ofLoop _ hm
    refine ⟨hstep.owned hO,hi.keys.of_writes hone hlt,hone.synced hO hi.synced,pending_of_write hi hO hstep hlt',?_,?_,?_,
      spent_of_write hi hO hstep hlt'⟩
    · intro k q ff enabled hm
      simp only [hstep.trace, addedKeys_append, List.mem_append] at hm ⊢
      exact .inr (hi.known k q ff enabled (hm.resolve_left (hnot k q ff enabled)))
    · simp only [hstep.trace]
      exact hi.only.append hnot
    · simp only [hstep.trace]
      exact hi.rearmed.append hnot

/-- A step that records no OnEvent and, on the slots, only disarms what OnEvent has in hand. -/
theorem of_step {control' : Control} (hi : ArmedInvariant ⟨w,control⟩) (ht : w'.trace = evs ++ w.trace)
    (hno : ∀ k q ff enabled, .onEvent k q ff enabled ∉ evs) (hkeys : KeysTrusted ⟨w',control'⟩) (hsynced : Synced w')
    (hpending : PendingArmed ⟨w',control'⟩)
    (hslot : ∀ q d' k y', w'.slotAt q = some ⟨.socket d',some k,y'⟩ → ∃ d y,
      w.slotAt q = some ⟨.socket d,some k,y⟩ ∧ ∀ b, has d.enabledEvents b = false ∨ control.toDisarm q b →
        has d'.enabledEvents b = false ∨ control'.toDisarm q b) : ArmedInvariant ⟨w',control'⟩ := by
  refine ⟨hkeys,hsynced,hpending,fun k q ff enabled hm => ?_,?_,?_,?_⟩
  · simp only [ht, addedKeys_append, List.mem_append] at hm ⊢
    exact .inr (hi.known k q ff enabled (hm.resolve_left (hno k q ff enabled)))
  · simp only [ht]
    exact hi.only.append hno
  · simp only [ht]
    exact hi.rearmed.append hno
  · intro q d' k y' b recent ff enabled older hq hb ht' hff harm
    obtain ⟨recent',rfl,ht''⟩ := append_eq_of_not_mem (hno k q ff enabled) (ht.symm.trans ht')
    obtain ⟨d,y,hx,hbits⟩ := hslot q d' k y' hq
    exact hbits b (hi.spent q d k y b recent' ff enabled older hx hb ht'' hff
      fun events hm => harm events (List.mem_append_right _ hm))

end ArmedInvariant

/-- The pending events of a report are armed: epoll reports no more than the mask it has. -/
private theorem pendingArmed_of_report {w : World} (hO : Owned w none) (hR : Registry w) (hw : Synced w)
    {evs : List (Fd × EpollMask)} (hr : reportReady w.kernel evs = true) (e : Event) :
    PendingArmed ⟨w.log e,.batch (evs.filterMap (reportOne w.kernel))⟩ := by
  constructor
  case nodup =>
    intro rest hrest
    cases hrest
    exact report_keys_nodup hO hR hr
  case busy =>
    intro rest p c _ hb
    cases hb
  case armed =>
    intro rest hrest ev hev p d y hc
    cases hrest
    obtain ⟨re,-,hre⟩ := List.mem_filterMap.mp hev
    obtain ⟨x,hx,rfl,hm⟩ := reportOne_eq_some hre
    obtain ⟨q,d',hc',hf⟩ := hO.registered_of_interest hx
    have hqp := hR.slot_unique hc' hc rfl rfl
    subst hqp
    cases hc'.symm.trans hc
    have hb := not_not.mp (mt ((hO.ok _ _ hc).batch d rfl).mp nofun)
    have hx' : x.events = getEpollEvents d.enabledEvents := by
      simpa [Slot.mask, Slot.held, hb] using (hw _ _ hc).registered _ rfl
    rw [hx'] at hm
    have hin : has (epollErr ||| epollHup) epollIn = false := by decide
    have hout : has (epollErr ||| epollHup) epollOut = false := by decide
    have hpri : has (epollErr ||| epollHup) epollPri = false := by decide
    rw [BitVec.or_assoc] at hm
    constructor
    case readable =>
      intro h
      have h := has_of_subset hm h
      rwa [has_or, hin, Bool.or_false, has_getEpollEvents_in] at h
    case urgent =>
      by_contra h
      have h := has_of_subset hm ((Bool.not_eq_false _).mp h)
      rw [has_or, hpri, Bool.or_false] at h
      have hle := has_of_subset (getEpollEvents_le d.enabledEvents) h
      exact absurd hle (by decide)
    case writable =>
      intro h
      have h := has_of_subset hm h
      rwa [has_or, hout, Bool.or_false, has_getEpollEvents_out] at h

/-- While a batch is between two OnEvents, only the events ahead matter. -/
private theorem pendingArmed_of_batch {w w' : World} {control : Control} {pending rest : List PendingEvent}
    (h : PendingArmed ⟨w,control⟩) (hp : control.pending = some pending) (hsub : rest.Sublist pending)
    (hslot : ∀ q d' k y', w'.slotAt q = some ⟨.socket d',some k,y'⟩ → ∃ d y,
      w.slotAt q = some ⟨.socket d,some k,y⟩ ∧ d'.enabledEvents = d.enabledEvents) :
    PendingArmed ⟨w',.batch rest⟩ where
  nodup r hr := by
    cases hr
    exact (h.nodup _ hp).sublist (hsub.map _)
  busy r q c _ hb := by cases hb
  armed r hr ev hev q d' y' hq := by
    cases hr
    obtain ⟨d,y,hx,he⟩ := hslot q d' _ y' hq
    rw [he]
    exact h.armed _ hp ev (hsub.subset hev) q d y hx

/-- Within one OnEvent the pending events are those of other dispatchers. -/
private theorem pendingArmed_of_turn {w w' : World} {rest : List PendingEvent} {key : Key} {p : Ptr} {ff : EventMask}
    {err : Errno} {handler handler' : Bool} {todo todo' : List EventMask} {c c' : Slot} {evs : List Event}
    (h : PendingArmed ⟨w,.onEvent rest key p ff err handler todo⟩) (hO : Owned w (some p)) (ht : Turn p c c' evs w w')
    (hk : c'.key = c.key) : PendingArmed ⟨w',.onEvent rest key p ff err handler' todo'⟩ where
  nodup r hr := h.nodup r hr
  busy r q e hr hb he ev hev := by
    cases hb
    rcases ht.slot_cases hO he with ⟨-,rfl⟩ | ⟨hq,-⟩
    · rw [hk]
      exact h.busy r _ c hr rfl ht.before ev hev
    · exact absurd rfl hq
  armed r hr ev hev q d y hq := by
    rcases ht.slot_cases hO hq with ⟨rfl,rfl⟩ | ⟨-,hq⟩
    · exact absurd hk.symm (h.busy r _ c hr rfl ht.before ev hev)
    · exact h.armed r hr ev hev q d y hq

private theorem toDisarm_of_ne {rest : List PendingEvent} {key : Key} {p q : Ptr} {ff b : EventMask} {err : Errno}
    {handler : Bool} {todo : List EventMask} (hq : q ≠ p) :
    ¬(Control.onEvent rest key p ff err handler todo).toDisarm q b := fun h => hq h.1.symm

section Start
variable {w w' : World} {ev : PendingEvent} {rest : List PendingEvent} {p : Ptr} {d d' : SocketDispatcher}
  {x : Option EpollEntry} {ff : EventMask} (hi : ArmedInvariant ⟨w,.batch (ev :: rest)⟩) (hallow : Allows d.enabledEvents ff)
  (ht : Turn p ⟨.socket d,some ev.key,x⟩ ⟨.socket d',some ev.key,x⟩
    [.onEvent ev.key p ff d.enabledEvents,.processed ev.key p] w w')

private theorem onEvent_notMem (ev : PendingEvent) (p : Ptr) (k : Key) (q : Ptr) (ff enabled : EventMask) :
    Event.onEvent k q ff enabled ∉ [Event.processed ev.key p] := by
  simp

include hi ht

include hallow in
/-- What OnEvent starts with was armed since the last delivery. -/
private theorem rearmed_of_start : Rearmed w'.trace := by
  intro newer k q ff₁ enabled₁ between ff₂ enabled₂ older b ht' hb h₁ h₂
  rw [ht.trace] at ht'
  cases newer with
  | nil =>
    obtain ⟨he₁,ht₁⟩ := List.cons.inj ht'
    cases he₁
    obtain ⟨between',rfl,ht''⟩ := append_eq_of_not_mem (onEvent_notMem ev p _ _ _ _) ht₁
    by_contra hnone
    have harm (events : EventMask) (hm : .armed p events ∈ between') : has events b = false := by
      by_contra h
      exact hnone ⟨events,List.mem_append_right _ hm,(Bool.not_eq_false _).mp h⟩
    rcases hi.spent p d ev.key x b between' ff₂ enabled₂ older ht.before hb ht'' h₂ harm with hs | hs
    · rw [hallow b hb h₁] at hs
      cases hs
    · exact hs
  | cons e newer =>
    obtain ⟨-,ht'⟩ := List.cons.inj ht'
    obtain ⟨newer',-,ht''⟩ := append_eq_of_not_mem (onEvent_notMem ev p _ _ _ _) ht'
    exact hi.rearmed newer' k q ff₁ enabled₁ between ff₂ enabled₂ older b ht'' hb h₁ h₂

/-- What it delivers is still to be disarmed. -/
private theorem spent_of_start (hO : Owned w none) (he : d'.enabledEvents = d.enabledEvents) (err : Errno) :
    Spent ⟨w',.onEvent rest ev.key p ff err false onEventStages⟩ := by
  intro q e k y b recent ff₁ enabled₁ older hq hb ht' h₁ harm
  rw [ht.trace] at ht'
  cases recent with
  | nil =>
    obtain ⟨he₁,-⟩ := List.cons.inj ht'
    cases he₁
    have hstage : ∀ b ∈ armable, b ∈ onEventStages := by decide
    exact .inr ⟨rfl,h₁,hstage b hb⟩
  | cons e' recent =>
    obtain ⟨-,ht'⟩ := List.cons.inj ht'
    obtain ⟨recent',rfl,ht''⟩ := append_eq_of_not_mem (onEvent_notMem ev p _ _ _ _) ht'
    have harm' (events : EventMask) (hm : .armed q events ∈ recent') : has events b = false :=
      harm events (List.mem_cons_of_mem _ (List.mem_append_right _ hm))
    left
    rcases ht.slot_cases hO hq with ⟨rfl,hc⟩ | ⟨-,hq⟩
    · cases hc
      rw [he]
      exact (hi.spent _ d _ _ b recent' ff₁ enabled₁ older ht.before hb ht'' h₁ harm').resolve_right id
    · exact (hi.spent q e k y b recent' ff₁ enabled₁ older hq hb ht'' h₁ harm').resolve_right id

include hallow in
/-- The OnEvent of an armed report: its events are enabled, and each was armed since the last. -/
private theorem armed_of_start (hO : Owned w none) (he : d'.enabledEvents = d.enabledEvents) {err : Errno}
    (hkeys : KeysTrusted ⟨w',.onEvent rest ev.key p ff err false onEventStages⟩) (hsynced : Synced w') :
    ArmedInvariant ⟨w',.onEvent rest ev.key p ff err false onEventStages⟩ := by
  have hnodup := hi.pending.nodup _ rfl
  rw [List.map_cons, List.nodup_cons] at hnodup
  have hkey : ev.key ∈ addedKeys w.trace := hi.keys.pending_added rfl (List.mem_cons_self ..)
  refine ⟨hkeys,hsynced,⟨?_,?_,?_⟩,?_,?_,rearmed_of_start hi hallow ht,spent_of_start hi ht hO he err⟩
  · intro r hr
    cases hr
    exact hnodup.2
  · intro r q c hr hb hc ev' hev' hk
    cases hr
    cases hb
    cases hc.symm.trans ht.after
    rw [Option.some_inj.mp hk] at hnodup
    exact hnodup.1 (List.mem_map_of_mem hev')
  · intro r hr ev' hev' q e y hq
    cases hr
    rcases ht.slot_cases hO hq with ⟨rfl,hc⟩ | ⟨-,hq⟩
    · rw [← Option.some_inj.mp (congrArg Slot.key hc)] at hnodup
      exact absurd (List.mem_map_of_mem hev') hnodup.1
    · exact hi.pending.armed _ rfl ev' (List.mem_cons_of_mem _ hev') q e y hq
  · intro k q ff' enabled hm
    simp only [ht.trace, addedKeys_append, List.mem_append] at hm ⊢
    rcases hm with hm | hm
    · simp only [List.mem_cons, Event.onEvent.injEq, reduceCtorEq, List.not_mem_nil, or_false] at hm
      exact .inr (hm.1 ▸ hkey)
    · exact .inr (hi.known k q ff' enabled hm)
  · intro k q ff' enabled hm
    simp only [ht.trace, List.mem_append, List.mem_cons, Event.onEvent.injEq, reduceCtorEq, List.not_mem_nil,
      or_false] at hm
    rcases hm with ⟨-,-,rfl,rfl⟩ | hm
    · exact hallow
    · exact hi.only k q ff' enabled hm

end Start

theorem LoopTurn.armed {s s' : LoopState} {a : Action} (h : LoopTurn .quiet s a s') (hs : Sound s) (hi : ArmedInvariant s)
    (hlt : (addedKeys s'.world.trace).length < 2 ^ 64) : ArmedInvariant s' := by
  have hkeys := h.keysTrusted hs hi.keys hlt
  have hsynced := h.synced hs hi.synced
  cases h with
  | op hcan hr ha hw => exact hi.of_writes hs.owned hw hlt
  | report hr =>
    refine hi.of_step (List.singleton_append ..).symm (by simp) hkeys hsynced
      (pendingArmed_of_report hs.owned hi.keys.registry hi.synced hr _) fun q d k y hq => ?_
    exact ⟨d,y,hq,fun b h => h.imp_right False.elim⟩
  | skip hn =>
    refine hi.of_step (List.nil_append _).symm (by simp) hkeys hsynced
      (pendingArmed_of_batch hi.pending rfl (List.sublist_cons_self _ _) fun q d k y hq => ⟨d,y,hq,rfl⟩)
      fun q d k y hq => ?_
    exact ⟨d,y,hq,fun b h => h.imp_right False.elim⟩
  | pass e hp =>
    refine hi.of_step (List.singleton_append ..).symm (by simp) hkeys hsynced
      (pendingArmed_of_batch hi.pending rfl (List.sublist_cons_self _ _) fun q d k y hq => ⟨d,y,hq,rfl⟩)
      fun q d k y hq => ?_
    exact ⟨d,y,hq,fun b h => h.imp_right False.elim⟩
  | start hp hff ht =>
    have ha := hi.pending.armed _ rfl _ (List.mem_cons_self ..) _ _ _ ht.before
    exact armed_of_start hi (ha.allows hff) ht hs.owned rfl hkeys hsynced
  | done =>
    refine hi.of_step (List.nil_append _).symm (by simp) hkeys hsynced ?_ fun q d k y hq => ?_
    · exact ⟨fun _ h => (by cases h),fun _ _ _ h => (by cases h),fun _ h => (by cases h)⟩
    · exact ⟨d,y,hq,fun b h => h.imp_right False.elim⟩
  | emit hb ht =>
    refine hi.of_step ht.trace (by simp) hkeys hsynced (pendingArmed_of_turn hi.pending hs.owned ht
      (Slot.changeEvents_key _ _)) fun q d' k y' hq => ?_
    rcases ht.slot_cases hs.owned hq with ⟨rfl,hc⟩ | ⟨hqp,hq⟩
    · obtain ⟨d,x,he,rfl⟩ := Slot.eq_changeEvents hc
      cases he
      refine ⟨_,_,ht.before,fun b h => ?_⟩
      rcases h with h | ⟨-,hff,hmem⟩
      · exact .inl (has_and_left _ _ _ h)
      · rcases List.mem_cons.mp hmem with rfl | hmem
        · exact .inl (has_and_not_self _ _ _ (by simp))
        · exact .inr ⟨rfl,hff,hmem⟩
    · exact ⟨d',y',hq,fun b h => .inl (h.resolve_right (toDisarm_of_ne hqp))⟩
  | passBy hb =>
    refine hi.of_step (List.nil_append _).symm (by simp) hkeys hsynced
      ⟨hi.pending.nodup,hi.pending.busy,hi.pending.armed⟩ fun q d k y hq => ⟨d,y,hq,fun b h => ?_⟩
    refine h.imp_right fun ⟨hq,hff,hmem⟩ => ⟨hq,hff,(List.mem_cons.mp hmem).resolve_left ?_⟩
    rintro rfl
    rw [hb] at hff
    cases hff
  | @finish w w' rest key p ff err handler d κ x ht =>
    have hslot (q : Ptr) (d' : SocketDispatcher) (k : Key) (y' : Option EpollEntry)
        (hq : w'.slotAt q = some ⟨.socket d',some k,y'⟩) :
        ∃ e y, w.slotAt q = some ⟨.socket e,some k,y⟩ ∧ d'.enabledEvents = e.enabledEvents := by
      rcases ht.slot_cases hs.owned hq with ⟨rfl,hc⟩ | ⟨-,hq⟩
      · obtain ⟨x₀,he⟩ := Slot.eq_mayBeUpdate hc
        cases he
        exact ⟨d,x,ht.before,rfl⟩
      · exact ⟨d',y',hq,rfl⟩
    refine hi.of_step ht.trace (by simp) hkeys hsynced
      (pendingArmed_of_batch hi.pending rfl (List.Sublist.refl _) hslot) fun q d' k y' hq => ?_
    obtain ⟨e,y,hq',he⟩ := hslot q d' k y' hq
    refine ⟨e,y,hq',fun b h => .inl ?_⟩
    rw [he]
    exact h.resolve_right fun hdis => nomatch hdis.2.2

theorem start_armed {afd : Fd} (h : 0 ≤ afd) (p : Ptr) : ArmedInvariant ⟨World.start p afd,.idle⟩ := by
  have hno (k : Key) (q : Ptr) (ff enabled : EventMask) : .onEvent k q ff enabled ∉ (World.start p afd).trace := by
    simp [World.start_eq h]
  have hnil (recent older : List Event) (k : Key) (q : Ptr) (ff enabled : EventMask) :
      (World.start p afd).trace ≠ recent ++ .onEvent k q ff enabled :: older := fun ht =>
    hno k q ff enabled (ht ▸ List.mem_append_right _ (List.mem_cons_self ..))
  refine ⟨start_keysTrusted h p,start_synced h p,⟨?_,?_,?_⟩,?_,?_,?_,?_⟩
  · intro rest hr
    cases hr
  · intro rest q c hr
    cases hr
  · intro rest hr
    cases hr
  · intro k q ff enabled hm
    exact absurd hm (hno k q ff enabled)
  · intro k q ff enabled hm
    exact absurd hm (hno k q ff enabled)
  · intro newer k q ff enabled between ff' enabled' older b ht
    exact absurd ht (hnil _ _ _ _ _ _)
  · intro q d k x b recent ff enabled older _ _ ht
    exact absurd ht (hnil _ _ _ _ _ _)

/-- In every run that puts no armed dispatcher into epoll while its own batch is open, with
fewer than 2^64 calls of Add, OnEvent gets enabled events alone, and between two deliveries
of one event to one registration an operation armed it. -/
theorem only_armed_events {s : LoopState} (h : loopMachine.Reachable (Within .quiet) s)
    (hlt : (addedKeys s.world.trace).length < 2 ^ 64) : OnlyArmed s.world.trace ∧ Rearmed s.world.trace := by
  have hi := (loop_rule (P := .quiet) (I := fun s => (addedKeys s.world.trace).length < 2 ^ 64 → ArmedInvariant s)
    (fun _ => rfl) h (fun p afd ha _ => start_armed ha p)
    fun s a s' hs hi ht hlt => ht.armed hs (hi (lt_of_le_of_lt ht.addedKeys_le hlt)) hlt).2 hlt
  exact ⟨hi.only,hi.rearmed⟩

private def keysAndEvents (keys events : ℕ) (s : LoopState) : Bool :=
  decide ((addedKeys s.world.trace).length = keys) &&
    decide ((s.world.trace.filter fun e => match e with | .onEvent _ _ _ _ => true | _ => false).length = events)

theorem only_armed_events_sample : ∃ s : LoopState,
    (s.world.trace.filter fun e => match e with | .onEvent _ _ _ _ => true | _ => false).length = 2 ∧
      OnlyArmed s.world.trace ∧ Rearmed s.world.trace := by
  have h : (loopMachine.run (Within .quiet) ⟨World.start 0 3,.idle⟩ (reconnectRun
      [.op (.connect 1 2 (.ok 6) none (.error einprogress))] ++ [.report [(6,epollOut)], .next (.ok 0) (.ok 1)])).any
      (keysAndEvents 3 2) = true := by
    decide +kernel
  obtain ⟨s,hs,hp⟩ := Machine.exists_reachable_of_run (init_start 0 (by decide)) h
  obtain ⟨hk,he⟩ := Bool.and_eq_true_iff.mp hp
  exact ⟨s,of_decide_eq_true he,only_armed_events hs (by rw [of_decide_eq_true hk]; decide)⟩

private def readsDisarmed (s : LoopState) : Bool :=
  decide ((addedKeys s.world.trace).length = 3) && decide (.onEvent 2 1 deRead 0 ∈ s.world.trace)

/-- The drift of the kernel's interest goes on: a later report delivers a read event to the
dispatcher that has nothing enabled. -/
theorem disarmed_event_delivered : ¬∀ s : LoopState, loopMachine.Reachable (Within .sockets) s →
    (addedKeys s.world.trace).length < 2 ^ 64 → OnlyArmed s.world.trace ∧ Rearmed s.world.trace := by
  intro hall
  have h : (loopMachine.run (Within .sockets) ⟨World.start 0 3,.idle⟩ (reconnectRun [.op (.recvFrom 1 (.error ebadf)),
      .op (.connect 1 2 (.ok 6) none (.error econnrefused))] ++ [.report [(6,epollIn)], .next (.ok 0) (.ok 1)])).any
      readsDisarmed = true := by
    decide +kernel
  obtain ⟨s,hs,hp⟩ := Machine.exists_reachable_of_run (init_start 0 (by decide)) h
  obtain ⟨hk,hm⟩ := Bool.and_eq_true_iff.mp hp
  have ho := (hall s hs (by rw [of_decide_eq_true hk]; decide)).1 2 1 deRead 0 (of_decide_eq_true hm)
  exact absurd (ho deRead (by decide) (by decide)) (by decide)

end UServer.Net
