import UServer.Net.LoopTurns

/-! The keys that tie a reported event to one registration: over whole runs, with
descriptors, addresses and dispatchers reused, each event reaches the dispatcher it was
reported for or none. -/
namespace UServer.Net
open Library

/-- The keys that Add issued, newest first. -/
def addedKeys (trace : List Event) : List Key :=
  trace.filterMap fun | .added k _ => some k | _ => none

theorem mem_addedKeys {trace : List Event} {k : Key} : k ∈ addedKeys trace ↔ ∃ p, .added k p ∈ trace := by
  unfold addedKeys
  rw [List.mem_filterMap]
  constructor
  · rintro ⟨e,he,hk⟩
    cases e <;> cases hk
    exact ⟨_,he⟩
  · rintro ⟨p,hp⟩
    exact ⟨_,hp,rfl⟩

theorem addedKeys_append (evs trace : List Event) : addedKeys (evs ++ trace) = addedKeys evs ++ addedKeys trace :=
  List.filterMap_append

theorem addedKeys_of_none {evs : List Event} (h : ∀ k p, .added k p ∉ evs) : addedKeys evs = [] := by
  rw [List.eq_nil_iff_forall_not_mem]
  intro k hk
  obtain ⟨p,hp⟩ := mem_addedKeys.mp hk
  exact h k p hp

/-- dispatcher_by_key_ and key_by_dispatcher_ are inverse to each other. -/
def PhysicalSocketServer.Inverse (s : PhysicalSocketServer) : Prop :=
  ∀ k p, s.dispatcherByKey k = some p ↔ s.keyByDispatcher p = some k

/-- The two maps retrace each other. -/
theorem PhysicalSocketServer.inverse_iff {s : PhysicalSocketServer} :
    s.Inverse ↔ Retraces s.dispatcherByKey s.keyByDispatcher ∧ Retraces s.keyByDispatcher s.dispatcherByKey := by
  constructor
  · intro h
    exact ⟨fun k p => (h k p).mp,fun p k => (h k p).mpr⟩
  · intro h k p
    exact ⟨h.1 k p,h.2 p k⟩

/-- The registry in terms of the record: keys count the calls of Add, and a registration
in place was added and not removed since. -/
structure Registry (w : World) : Prop where
  next : w.server.nextDispatcherKey = UInt64.ofNat (addedKeys w.trace).length
  below : ∀ k ∈ addedKeys w.trace, k.toNat < (addedKeys w.trace).length
  nodup : (addedKeys w.trace).Nodup
  inverse : w.server.Inverse
  added : ∀ k p, w.server.keyByDispatcher p = some k → .added k p ∈ w.trace
  kept : ∀ k p q, w.server.keyByDispatcher p = some k → .removed k q ∉ w.trace
  removed : ∀ k q, .removed k q ∈ w.trace → k ∈ addedKeys w.trace

namespace Registry
variable {w w' : World} {p : Ptr}

/-- The next key is larger than all issued ones. -/
theorem next_fresh (h : Registry w) (hlt : (addedKeys w.trace).length < 2 ^ 64) :
    w.server.nextDispatcherKey ∉ addedKeys w.trace := by
  intro hk
  have hlt' := h.below _ hk
  rw [h.next, UInt64.toNat_ofNat_of_lt' hlt] at hlt'
  exact Nat.lt_irrefl _ hlt'

theorem unchanged (h : Registry w) {evs : List Event} (hs : w'.server = w.server) (ht : w'.trace = evs ++ w.trace)
    (he : ∀ k q, .added k q ∉ evs ∧ .removed k q ∉ evs) : Registry w' := by
  have hk : addedKeys w'.trace = addedKeys w.trace := by
    rw [ht, addedKeys_append, addedKeys_of_none fun k q => (he k q).1, List.nil_append]
  have hr {k : Key} {q : Ptr} : .removed k q ∈ w'.trace → .removed k q ∈ w.trace := by
    rw [ht, List.mem_append]
    exact fun h => h.resolve_left (he k q).2
  exact ⟨by rw [hs, hk, h.next],by rw [hk]; exact h.below,by rw [hk]; exact h.nodup,by rw [hs]; exact h.inverse,
    fun k q hq => by rw [ht]; exact List.mem_append_right _ (h.added k q (hs ▸ hq)),
    fun k q r hq hm => h.kept k q r (hs ▸ hq) (hr hm),fun k q hm => by rw [hk]; exact h.removed k q (hr hm)⟩

theorem add (h : Registry w) (hlt : (addedKeys w.trace).length < 2 ^ 64) (hn : w.server.keyByDispatcher p = none)
    (hs : w'.server = w.server.replay (.added w.server.nextDispatcherKey p))
    (ht : w'.trace = .added w.server.nextDispatcherKey p :: w.trace) : Registry w' := by
  have hfresh := h.next_fresh hlt
  set key := w.server.nextDispatcherKey with hkey
  have hk : addedKeys w'.trace = key :: addedKeys w.trace := by
    rw [ht]
    rfl
  have hkn : key.toNat = (addedKeys w.trace).length := by
    rw [hkey, h.next, UInt64.toNat_ofNat_of_lt' hlt]
  have hvacant : w.server.dispatcherByKey key = none := by
    cases hd : w.server.dispatcherByKey key with
    | none => rfl
    | some q => exact absurd (mem_addedKeys.mpr ⟨q,h.added key q ((h.inverse key q).mp hd)⟩) hfresh
  have hd' : w'.server.dispatcherByKey = Function.update w.server.dispatcherByKey key (some p) := by
    rw [hs]
    exact World.emplace_of_none hvacant p
  have hk' : w'.server.keyByDispatcher = Function.update w.server.keyByDispatcher p (some key) := by
    rw [hs]
    exact World.emplace_of_none hn key
  constructor
  case next =>
    rw [hs, hk]
    simp only [PhysicalSocketServer.replay, List.length_cons, hkey, h.next]
    exact (UInt64.ofNat_add _ _).symm
  case below =>
    intro k hm
    rw [hk, List.mem_cons] at hm
    rw [hk, List.length_cons]
    rcases hm with rfl | hm
    · omega
    · have := h.below k hm
      omega
  case nodup =>
    rw [hk, List.nodup_cons]
    exact ⟨hfresh,h.nodup⟩
  case inverse =>
    rw [PhysicalSocketServer.inverse_iff, hd', hk']
    obtain ⟨hto,hfrom⟩ := PhysicalSocketServer.inverse_iff.mp h.inverse
    exact ⟨hto.insert hn,hfrom.insert hvacant⟩
  case added =>
    intro k q hq
    rw [hk'] at hq
    rw [ht, List.mem_cons]
    rcases update_some_cases hq with ⟨rfl,rfl⟩ | ⟨-,hq⟩
    · exact .inl rfl
    · exact .inr (h.added k q hq)
  case kept =>
    intro k q r hq hm
    rw [ht, List.mem_cons] at hm
    have hm := hm.resolve_left (by simp)
    rw [hk'] at hq
    rcases update_some_cases hq with ⟨-,rfl⟩ | ⟨-,hq⟩
    · exact hfresh (h.removed _ r hm)
    · exact h.kept k q r hq hm
  case removed =>
    intro k q hm
    rw [ht, List.mem_cons] at hm
    rw [hk, List.mem_cons]
    exact .inr (h.removed k q (hm.resolve_left (by simp)))

theorem remove (h : Registry w) {k : Key} (hp : w.server.keyByDispatcher p = some k)
    (hs : w'.server = w.server.replay (.removed k p)) (ht : w'.trace = .removed k p :: w.trace) : Registry w' := by
  have hk : addedKeys w'.trace = addedKeys w.trace := by
    rw [ht]
    rfl
  have hd' : w'.server.dispatcherByKey = Function.update w.server.dispatcherByKey k none := by rw [hs]; rfl
  have hk' : w'.server.keyByDispatcher = Function.update w.server.keyByDispatcher p none := by rw [hs]; rfl
  have hother {k' : Key} {q : Ptr} (hq : w'.server.keyByDispatcher q = some k') :
      w.server.keyByDispatcher q = some k' ∧ k' ≠ k := by
    rw [hk'] at hq
    obtain ⟨hqp,hq⟩ := update_none_cases hq
    refine ⟨hq,?_⟩
    rintro rfl
    exact hqp (Option.some_inj.mp (((h.inverse _ q).mpr hq).symm.trans ((h.inverse _ p).mpr hp)))
  constructor
  case next =>
    rw [hs, hk]
    exact h.next
  case below =>
    rw [hk]
    exact h.below
  case nodup =>
    rw [hk]
    exact h.nodup
  case inverse =>
    rw [PhysicalSocketServer.inverse_iff, hd', hk']
    obtain ⟨hto,hfrom⟩ := PhysicalSocketServer.inverse_iff.mp h.inverse
    exact ⟨hto.erase hp,hfrom.erase (hfrom p k hp)⟩
  case added =>
    intro k' q hq
    rw [ht]
    exact List.mem_cons_of_mem _ (h.added k' q (hother hq).1)
  case kept =>
    intro k' q r hq hm
    obtain ⟨hq,hkk⟩ := hother hq
    rw [ht, List.mem_cons] at hm
    rcases hm with hm | hm
    · cases hm
      exact hkk rfl
    · exact h.kept k' q r hq hm
  case removed =>
    intro k' q hm
    rw [ht, List.mem_cons] at hm
    rw [hk]
    rcases hm with hm | hm
    · cases hm
      exact mem_addedKeys.mpr ⟨p,h.added _ p hp⟩
    · exact h.removed k' q hm

end Registry

theorem Write.registry {P : Policy} {busy : Option Ptr} {p : Ptr} {evs : List Event} {w w' : World}
    (h : Write P busy p evs w w') (hR : Registry w) (hlt : (addedKeys w.trace).length < 2 ^ 64) : Registry w' := by
  have ht := h.trace
  rcases h.server_cases with ⟨hs,he⟩ | ⟨hn,he,hs⟩ | ⟨k,hk,he,hs⟩
  · exact hR.unchanged hs ht he
  · rw [he] at ht
    exact hR.add hlt hn hs ht
  · rw [he] at ht
    exact hR.remove hk hs ht

namespace Slot.Write
variable {P : Policy} {busy : Prop} {p : Ptr} {x : Option Slot} {evs : List Event}

/-- How a slot that is registered afterwards was before: not registered, or registered under
the same key and descriptor with the same enabled events or fewer. -/
theorem registered_cases {d' : SocketDispatcher} {k : Key} {y' : Option EpollEntry}
    (h : Write P busy p x evs (some ⟨.socket d',some k,y'⟩)) :
    evs = [.added k p] ∨ ∃ d y, x = some ⟨.socket d,some k,y⟩ ∧ d'.s = d.s ∧ (d'.enabledEvents = d.enabledEvents ∨
      ∃ events, P.arms p events = true ∧ evs = [.armed p events] ∧ d'.enabledEvents = d.enabledEvents ||| events) := by
  generalize hx' : some (Slot.mk (.socket d') (some k) y') = x' at h
  cases h with
  | same => exact .inr ⟨d',y',hx'.symm,rfl,.inl rfl⟩
  | note => exact .inr ⟨d',y',hx'.symm,rfl,.inl rfl⟩
  | modify c d d'' hc hs he hb hst =>
    obtain ⟨D,κ,y⟩ := c
    obtain rfl : D = .socket d := hc
    cases hx'
    exact .inr ⟨d,_,rfl,hs,.inl he⟩
  | enable c events harm =>
    obtain ⟨d,y,rfl,rfl⟩ := eq_changeEvents (Option.some_inj.mp hx')
    exact .inr ⟨d,y,rfl,rfl,.inr ⟨events,harm,rfl,rfl⟩⟩
  | set c events hk =>
    have hk' := (congrArg Slot.key (Option.some_inj.mp hx')).trans (changeEvents_key _ _)
    cases hk'.trans hk
  | add c k' d hc hk hv ha =>
    have hk' : some k = some k' := congrArg Slot.key (Option.some_inj.mp hx')
    cases hk'
    exact .inl rfl
  | retire | reset | release | acquire | construct | wrap | free => cases hx'
  | remove c k' hk hd => cases congrArg Slot.key (Option.some_inj.mp hx')
  | update c hd =>
    obtain ⟨D,κ,y⟩ := c
    have hc' := Option.some_inj.mp hx'
    obtain rfl : some k = κ := (congrArg Slot.key hc').trans (update_key _)
    obtain rfl : .socket d' = D := (congrArg Slot.dispatcher hc').trans (update_dispatcher _)
    exact .inr ⟨d',y,rfl,rfl,.inl rfl⟩

end Slot.Write

/-- A registration after the write: a new one, one that the write left alone, or one whose
enabled events grew. -/
theorem Write.registered_before {P : Policy} {busy : Option Ptr} {p q : Ptr} {evs : List Event} {w w' : World}
    (h : Write P busy p evs w w') (hR : Registry w) (hO : Owned w busy) (hlt : (addedKeys w.trace).length < 2 ^ 64)
    {d' : SocketDispatcher} {k : Key} {y' : Option EpollEntry} (hq : w'.slotAt q = some ⟨.socket d',some k,y'⟩) :
    k ∉ addedKeys w.trace ∨ ∃ d y, w.slotAt q = some ⟨.socket d,some k,y⟩ ∧ d'.s = d.s ∧
      (d'.enabledEvents = d.enabledEvents ∨ q = p ∧ ∃ events, P.arms p events = true ∧ evs = [.armed p events] ∧
        d'.enabledEvents = d.enabledEvents ||| events) := by
  by_cases hqp : q = p
  · subst hqp
    have hs := h.slot
    rw [hq] at hs
    rcases hs.registered_cases with he | ⟨d,y,hx,hd,he⟩
    · left
      rw [h.issued k q (by simp [he])]
      exact hR.next_fresh hlt
    · exact .inr ⟨d,y,hx,hd,he.imp_right fun h => ⟨rfl,h⟩⟩
  · rw [h.frame.slotAt_ne hO hqp] at hq
    exact .inr ⟨d',y',hq,rfl,.inl rfl⟩

/-- The record only grows, so the count of keys does. -/
theorem Writes.addedKeys_le {P : Policy} {busy : Option Ptr} {w w' : World} (h : Writes P busy w w') :
    (addedKeys w.trace).length ≤ (addedKeys w'.trace).length := by
  induction h with
  | refl => exact le_rfl
  | tail _ hstep ih =>
    obtain ⟨p,evs,hstep⟩ := hstep
    rw [hstep.trace, addedKeys_append, List.length_append]
    omega

theorem Writes.registry {P : Policy} {busy : Option Ptr} {w w' : World} (h : Writes P busy w w') (hR : Registry w)
    (hlt : (addedKeys w'.trace).length < 2 ^ 64) : Registry w' := by
  induction h with
  | refl => exact hR
  | tail _ hstep ih =>
    obtain ⟨p,evs,hstep⟩ := hstep
    have hle : _ ≤ _ := Writes.addedKeys_le (.single ⟨p,evs,hstep⟩)
    exact hstep.registry (ih (by omega)) (by omega)

/-- What the loop records itself, apart from the operations. -/
def Event.ofLoop : Event → Bool
  | .reported _ | .processed _ _ | .onEvent _ _ _ _ | .emitted _ _ => true
  | _ => false

theorem Slot.Write.not_ofLoop {P : Policy} {busy : Prop} {p : Ptr} {x x' : Option Slot} {evs : List Event}
    (h : Slot.Write P busy p x evs x') : ∀ e ∈ evs, e.ofLoop = false := by
  cases h <;> simp [Event.ofLoop]

theorem Writes.trace_eq {P : Policy} {busy : Option Ptr} {w w' : World} (h : Writes P busy w w') :
    ∃ evs, w'.trace = evs ++ w.trace ∧ ∀ e ∈ evs, e.ofLoop = false := by
  induction h with
  | refl => exact ⟨[],rfl,by simp⟩
  | tail _ hstep ih =>
    obtain ⟨evs,ht,he⟩ := ih
    obtain ⟨p,evs',hstep⟩ := hstep
    refine ⟨evs' ++ evs,by rw [hstep.trace, ht, List.append_assoc],fun e hm => ?_⟩
    rcases List.mem_append.mp hm with hm | hm
    · exact hstep.slot.not_ofLoop e hm
    · exact he e hm

/-- An event of key k, delivered to p, is one of the last report; p was added under k before
that report and has not been removed. -/
def DeliveredRight (k : Key) (p : Ptr) (older : List Event) : Prop :=
  (∃ recent ks before, older = recent ++ .reported ks :: before ∧ (∀ ks', .reported ks' ∉ recent) ∧ k ∈ ks ∧
    .added k p ∈ before) ∧ ∀ q, .removed k q ∉ older

/-- Every call of ProcessEvents in the record went to the right dispatcher. -/
def AllDelivered (trace : List Event) : Prop :=
  ∀ newer k p older, trace = newer ++ .processed k p :: older → DeliveredRight k p older

theorem AllDelivered.cons {trace : List Event} (h : AllDelivered trace) {e : Event}
    (he : ∀ k p, e = .processed k p → DeliveredRight k p trace) : AllDelivered (e :: trace) := by
  intro newer k p older ht
  cases newer with
  | nil =>
    cases ht
    exact he k p rfl
  | cons e' newer =>
    cases ht
    exact h newer k p older rfl

theorem AllDelivered.append {trace : List Event} (h : AllDelivered trace) {evs : List Event}
    (he : ∀ e ∈ evs, e.ofLoop = false) : AllDelivered (evs ++ trace) := by
  induction evs with
  | nil => exact h
  | cons e evs ih =>
    refine (ih fun e he' => he e (List.mem_cons_of_mem _ he')).cons fun k p hk => ?_
    have hf := he e (List.mem_cons_self ..)
    rw [hk] at hf
    cases hf

/-- The pending events are of the last report, and each key was in use when it was taken. -/
def PendingReported (trace : List Event) (pending : List PendingEvent) : Prop :=
  ∃ recent ks before, trace = recent ++ .reported ks :: before ∧ (∀ ks', .reported ks' ∉ recent) ∧
    ∀ ev ∈ pending, ev.key ∈ ks ∧ ∃ p, .added ev.key p ∈ before

theorem PendingReported.append {trace : List Event} {pending : List PendingEvent} (h : PendingReported trace pending)
    {evs : List Event} (he : ∀ ks, .reported ks ∉ evs) : PendingReported (evs ++ trace) pending := by
  obtain ⟨recent,ks,before,rfl,hr,hp⟩ := h
  refine ⟨evs ++ recent,ks,before,(List.append_assoc _ _ _).symm,fun ks' hm => ?_,hp⟩
  rcases List.mem_append.mp hm with hm | hm
  · exact he ks' hm
  · exact hr ks' hm

theorem PendingReported.tail {trace : List Event} {ev : PendingEvent} {rest : List PendingEvent}
    (h : PendingReported trace (ev :: rest)) : PendingReported trace rest := by
  obtain ⟨recent,ks,before,ht,hr,hp⟩ := h
  exact ⟨recent,ks,before,ht,hr,fun e he => hp e (List.mem_cons_of_mem _ he)⟩

/-- The events of a batch that are still ahead. -/
def Control.pending : Control → Option (List PendingEvent)
  | .idle => none
  | .batch rest => some rest
  | .onEvent rest _ _ _ _ _ _ => some rest

structure KeysTrusted (s : LoopState) : Prop where
  registry : Registry s.world
  pending : ∀ rest, s.control.pending = some rest → PendingReported s.world.trace rest
  delivered : AllDelivered s.world.trace

/-- Two registrations with one key are one. -/
theorem added_unique {trace : List Event} (h : (addedKeys trace).Nodup) {k : Key} {p q : Ptr}
    (hp : .added k p ∈ trace) (hq : .added k q ∈ trace) : p = q := by
  induction trace with
  | nil => cases hp
  | cons e trace ih =>
    have hn := (addedKeys_append [e] trace) ▸ h
    have hnd := (List.nodup_append.mp hn).2.1
    have hdis {r : Ptr} (he : e = .added k r) {r' : Ptr} : .added k r' ∉ trace := fun hm =>
      (List.nodup_append.mp hn).2.2 k (by simp [he, addedKeys]) k (mem_addedKeys.mpr ⟨r',hm⟩) rfl
    rcases List.mem_cons.mp hp with hp | hp <;> rcases List.mem_cons.mp hq with hq | hq
    · cases hp.trans hq.symm
      rfl
    · exact absurd hq (hdis hp.symm)
    · exact absurd hp (hdis hq.symm)
    · exact ih hnd hp hq

namespace KeysTrusted

theorem of_writes {P : Policy} {w w' : World} {control : Control} (h : KeysTrusted ⟨w,control⟩)
    (hw : Writes P control.busy w w') (hlt : (addedKeys w'.trace).length < 2 ^ 64) : KeysTrusted ⟨w',control⟩ := by
  obtain ⟨evs,ht,he⟩ := hw.trace_eq
  refine ⟨hw.registry h.registry hlt,fun rest hr => ?_,?_⟩
  · simp only [ht]
    exact (h.pending rest hr).append fun ks hm => nomatch he _ hm
  · simp only [ht]
    exact h.delivered.append he

/-- Steps of the loop itself, which keep the registry and record neither a report nor a delivery. -/
theorem of_turn {w w' : World} {control control' : Control} (h : KeysTrusted ⟨w,control⟩) (evs : List Event)
    (hs : w'.server = w.server) (ht : w'.trace = evs ++ w.trace) (hd : AllDelivered w'.trace)
    (he : ∀ k q, .added k q ∉ evs ∧ .removed k q ∉ evs) (hr : ∀ ks, .reported ks ∉ evs)
    (hp : ∀ rest', control'.pending = some rest' → ∃ rest, control.pending = some rest ∧ rest' <:+ rest) :
    KeysTrusted ⟨w',control'⟩ := by
  refine ⟨h.registry.unchanged hs ht he,fun rest' hrest' => ?_,hd⟩
  obtain ⟨rest,hrest,hsuf⟩ := hp rest' hrest'
  obtain ⟨recent,ks,before,ht',hn,hk⟩ := h.pending rest hrest
  rw [ht]
  exact PendingReported.append ⟨recent,ks,before,ht',hn,fun ev hev => hk ev (hsuf.subset hev)⟩ hr

/-- The dispatcher that a pending event finds is the one it was reported for. -/
theorem deliveredRight {w : World} {ev : PendingEvent} {rest : List PendingEvent}
    (h : KeysTrusted ⟨w,.batch (ev :: rest)⟩) {p : Ptr} (hp : w.server.dispatcherByKey ev.key = some p) :
    DeliveredRight ev.key p w.trace := by
  have hkey := (h.registry.inverse _ _).mp hp
  obtain ⟨recent,ks,before,ht,hr,hk⟩ := h.pending _ rfl
  obtain ⟨hks,q,hq⟩ := hk ev (List.mem_cons_self ..)
  have hqp : q = p := by
    refine added_unique h.registry.nodup ?_ (h.registry.added _ _ hkey)
    rw [ht]
    exact List.mem_append_right _ (List.mem_cons_of_mem _ hq)
  exact ⟨⟨recent,ks,before,ht,hr,hks,hqp ▸ hq⟩,fun r => h.registry.kept _ _ r hkey⟩

end KeysTrusted

theorem KeysTrusted.pending_added {s : LoopState} (h : KeysTrusted s) {rest : List PendingEvent}
    (hr : s.control.pending = some rest) {ev : PendingEvent} (he : ev ∈ rest) : ev.key ∈ addedKeys s.world.trace := by
  obtain ⟨recent,ks,before,ht,-,hp⟩ := h.pending rest hr
  obtain ⟨-,q,hq⟩ := hp ev he
  rw [mem_addedKeys, ht]
  exact ⟨q,List.mem_append_right _ (List.mem_cons_of_mem _ hq)⟩

/-- What a report says about a watched descriptor. -/
theorem reportOne_eq_some {k : Kernel} {ev : Fd × EpollMask} {pe : PendingEvent} (h : reportOne k ev = some pe) :
    ∃ x, k.interest ev.1 = some x ∧ pe = ⟨x.key,ev.2⟩ ∧ ev.2 &&& ~~~(x.events ||| epollErr ||| epollHup) = 0 := by
  unfold reportOne at h
  split at h
  · cases h
  · rename_i x hx
    split at h
    · rename_i hm
      exact ⟨x,hx,(Option.some_inj.mp h).symm,hm.2⟩
    · cases h

/-- An entry of epoll is that of a registered dispatcher. -/
theorem Owned.registered_of_interest {w : World} {busy : Option Ptr} (hO : Owned w busy) {fd : Fd} {x : EpollEntry}
    (hx : w.kernel.interest fd = some x) :
    ∃ p d, w.slotAt p = some ⟨d,some x.key,some x⟩ ∧ d.getDescriptor = fd := by
  obtain ⟨-,p,⟨d,κ,y⟩,hc,hf⟩ := hO.held _ _ hx
  have hy : y = some x := (World.slotAt_eq_some_iff.mp hc).2.2.symm.trans (hf ▸ hx)
  subst hy
  have hκ : κ = some x.key := (hO.ok p _ hc).entry x rfl
  exact ⟨p,d,hκ ▸ hc,hf⟩

/-- Two registered dispatchers with one key are one. -/
theorem Registry.slot_unique {w : World} (hR : Registry w) {p q : Ptr} {c e : Slot} {k : Key}
    (hc : w.slotAt p = some c) (he : w.slotAt q = some e) (hk : c.key = some k) (hk' : e.key = some k) : p = q := by
  have h₁ := (hR.inverse k p).mpr ((World.slotAt_eq_some_iff.mp hc).2.1.trans hk)
  have h₂ := (hR.inverse k q).mpr ((World.slotAt_eq_some_iff.mp he).2.1.trans hk')
  exact Option.some_inj.mp (h₁.symm.trans h₂)

/-- One report has no key twice. -/
theorem report_keys_nodup {w : World} {busy : Option Ptr} (hO : Owned w busy) (hR : Registry w)
    {evs : List (Fd × EpollMask)} (hr : reportReady w.kernel evs = true) :
    ((evs.filterMap (reportOne w.kernel)).map PendingEvent.key).Nodup := by
  have hfds : (evs.map Prod.fst).Nodup := by
    simp only [reportReady, Bool.and_eq_true, decide_eq_true_eq] at hr
    exact hr.1.2
  rw [List.Nodup, List.pairwise_map, List.pairwise_filterMap]
  refine (List.pairwise_map.mp hfds).imp fun {a b} hab pa ha pb hb hkey => hab ?_
  obtain ⟨x,hx,rfl,-⟩ := reportOne_eq_some ha
  obtain ⟨y,hy,rfl,-⟩ := reportOne_eq_some hb
  obtain ⟨p,d,hc,hf⟩ := hO.registered_of_interest hx
  obtain ⟨q,d',hc',hf'⟩ := hO.registered_of_interest hy
  have hpq := hR.slot_unique hc hc' rfl (congrArg some hkey.symm)
  subst hpq
  have hd : d = d' := congrArg Slot.dispatcher (Option.some_inj.mp (hc.symm.trans hc'))
  rw [← hf, ← hf', hd]

/-- A reported key is the key of a dispatcher that is registered when the report is taken. -/
private theorem reported_key {w : World} (hO : Owned w none) (hR : Registry w) {evs : List (Fd × EpollMask)}
    {ev : PendingEvent} (h : ev ∈ evs.filterMap (reportOne w.kernel)) : ∃ p, .added ev.key p ∈ w.trace := by
  obtain ⟨e,-,he⟩ := List.mem_filterMap.mp h
  obtain ⟨x,hx,rfl,-⟩ := reportOne_eq_some he
  obtain ⟨p,d,hc,-⟩ := hO.registered_of_interest hx
  exact ⟨p,hR.added _ _ (World.slotAt_eq_some_iff.mp hc).2.1⟩

theorem LoopTurn.keysTrusted {P : Policy} {s s' : LoopState} {a : Action} (h : LoopTurn P s a s') (hs : Sound s)
    (hi : KeysTrusted s) (hlt : (addedKeys s'.world.trace).length < 2 ^ 64) : KeysTrusted s' := by
  cases h with
  | op hcan hr ha hw => exact hi.of_writes hw hlt
  | report hr =>
    refine ⟨hi.registry.unchanged rfl (List.singleton_append ..).symm (by simp),fun rest hrest => ?_,?_⟩
    · cases hrest
      exact ⟨[],_,_,rfl,by simp,fun ev hev =>
        ⟨List.mem_map_of_mem hev,reported_key hs.owned hi.registry hev⟩⟩
    · exact hi.delivered.cons nofun
  | skip hn =>
    refine hi.of_turn [] rfl rfl hi.delivered (by simp) (by simp) fun rest' h => ?_
    cases h
    exact ⟨_,rfl,List.suffix_cons ..⟩
  | pass e hp =>
    refine hi.of_turn [.processed _ _] rfl rfl (hi.delivered.cons fun k q he => ?_) (by simp) (by simp) fun rest' h => ?_
    · cases he
      exact hi.deliveredRight hp
    · cases h
      exact ⟨_,rfl,List.suffix_cons ..⟩
  | start hp hff ht =>
    refine hi.of_turn _ ht.server ht.trace ?_ (by simp) (by simp) fun rest' h => ?_
    · rw [ht.trace]
      refine AllDelivered.cons (hi.delivered.cons fun k q he => ?_) nofun
      cases he
      exact hi.deliveredRight hp
    · cases h
      exact ⟨_,rfl,List.suffix_cons ..⟩
  | done => exact hi.of_turn [] rfl rfl hi.delivered (by simp) (by simp) nofun
  | emit hb ht =>
    refine hi.of_turn _ ht.server ht.trace ?_ (by simp) (by simp) fun rest' h => ⟨_,h,List.suffix_refl _⟩
    rw [ht.trace]
    exact hi.delivered.cons nofun
  | passBy hb => exact hi.of_turn [] rfl rfl hi.delivered (by simp) (by simp) fun rest' h => ⟨_,h,List.suffix_refl _⟩
  | finish ht =>
    refine hi.of_turn [] ht.server ht.trace ?_ (by simp) (by simp) fun rest' h => ⟨_,h,List.suffix_refl _⟩
    rw [ht.trace]
    exact hi.delivered

theorem LoopTurn.addedKeys_le {P : Policy} {s s' : LoopState} {a : Action} (h : LoopTurn P s a s') :
    (addedKeys s.world.trace).length ≤ (addedKeys s'.world.trace).length := by
  have hle {evs : List Event} {w w' : World} (ht : w'.trace = evs ++ w.trace) :
      (addedKeys w.trace).length ≤ (addedKeys w'.trace).length := by
    rw [ht, addedKeys_append, List.length_append]
    omega
  cases h with
  | op hcan hr ha hw => exact hw.addedKeys_le
  | start _ _ ht | emit _ ht | finish ht => exact hle ht.trace
  | report | pass => exact hle (List.singleton_append ..).symm
  | skip | done | passBy => exact le_rfl

theorem start_registry {afd : Fd} (h : 0 ≤ afd) (p : Ptr) : Registry (World.start p afd) := by
  rw [World.start_eq h]
  have hk : addedKeys [.added 0 p,.opened afd] = [0] := rfl
  constructor
  case next => rfl
  case below => simp [hk]
  case nodup => simp [hk]
  case inverse =>
    rw [PhysicalSocketServer.inverse_iff]
    exact ⟨(Retraces.empty _).insert rfl,(Retraces.empty _).insert rfl⟩
  case added =>
    intro k q hq
    dsimp only at hq
    rcases update_some_cases hq with ⟨rfl,rfl⟩ | ⟨-,hq⟩
    · exact List.mem_cons_self
    · cases hq
  case kept => simp
  case removed => simp

theorem start_keysTrusted {afd : Fd} (h : 0 ≤ afd) (p : Ptr) : KeysTrusted ⟨World.start p afd,.idle⟩ := by
  refine ⟨start_registry h p,fun rest hr => (by cases hr),?_⟩
  have hnil : AllDelivered [] := fun newer k q older ht => by simp at ht
  have hopened : AllDelivered [.opened afd] := hnil.cons nofun
  rw [World.start_eq h]
  exact hopened.cons nofun

/-- The record of a run is trusted as long as fewer than 2^64 keys were issued. -/
theorem keysTrusted {P : Policy} (hP : ∀ events, P.adds events none = true) {s : LoopState}
    (h : loopMachine.Reachable (Within P) s) (hlt : (addedKeys s.world.trace).length < 2 ^ 64) : KeysTrusted s := by
  refine (loop_rule (I := fun s => (addedKeys s.world.trace).length < 2 ^ 64 → KeysTrusted s) hP h ?_ ?_).2 hlt
  · intro p afd ha _
    exact start_keysTrusted ha p
  · intro s a s' hs hi ht hlt'
    exact ht.keysTrusted hs (hi (lt_of_le_of_lt ht.addedKeys_le hlt')) hlt'

theorem allowed_all (o : Op) (w : World) : o.allowed .all w = true := by
  cases o with
  | connect p family sock linger res =>
    cases res <;> simp [Op.allowed, Policy.all, Policy.createsWithin, Policy.connectsWithin]
  | _ => simp [Op.allowed, Policy.all, Policy.createsWithin]

theorem within_all {s : LoopState} {a : Action} : Within .all s a := by
  cases a with
  | op o => exact allowed_all o s.world
  | _ => rfl

/-- In every run with fewer than 2^64 calls of Add the two maps are inverse, no key is
issued twice, and every event is processed by the dispatcher that Add gave its key to
before the report and that has stayed registered since. -/
theorem events_reach_their_registration {s : LoopState} (h : loopMachine.Reachable Machine.Free s)
    (hlt : (addedKeys s.world.trace).length < 2 ^ 64) :
    s.world.server.Inverse ∧ (addedKeys s.world.trace).Nodup ∧ AllDelivered s.world.trace := by
  have ht := keysTrusted (P := .all) (fun _ => rfl) (h.mono fun _ _ _ => within_all) hlt
  exact ⟨ht.registry.inverse,ht.registry.nodup,ht.delivered⟩

/-- A handler destroys the dispatcher of the next event and makes a new one in its place. -/
def replaceRun : List Action :=
  [.op (.createSocket 1 2 .stream (.ok 5) none), .op (.createSocket 2 2 .stream (.ok 6) none),
    .report [(5,epollOut),(6,epollOut)], .next (.ok 0) (.ok 1), .advance, .advance, .advance, .advance,
    .op (.destroy 2), .op (.createSocket 2 2 .stream (.ok 6) none), .advance, .advance, .next (.ok 0) (.ok 1),
    .next (.ok 0) (.ok 1)]

theorem events_reach_their_registration_sample : ∃ s : LoopState, (addedKeys s.world.trace).length = 4 ∧
    s.world.server.Inverse ∧ (addedKeys s.world.trace).Nodup ∧ AllDelivered s.world.trace := by
  have h : (loopMachine.run Machine.Free ⟨World.start 0 3,.idle⟩ replaceRun).any
      (fun s => decide ((addedKeys s.world.trace).length = 4)) = true := by decide +kernel
  obtain ⟨s,hs,hp⟩ := Machine.exists_reachable_of_run (init_start 0 (by decide)) h
  have hl := of_decide_eq_true hp
  exact ⟨s,hl,events_reach_their_registration hs (by rw [hl]; decide)⟩

/-- Whatever the handlers destroy, the loop never reaches a dispatcher that is gone: the
next event of a batch can always be taken. -/
theorem dispatch_is_defined {s : LoopState} (h : loopMachine.Reachable Machine.Free s) {rest : List PendingEvent}
    (hc : s.control = .batch rest) (so : Except Errno Errno) (peek : Except Errno Nat) :
    (loopStep s (.next so peek)).isSome = true := by
  have hs := (loop_rule (P := .all) (I := fun _ => True) (fun _ => rfl) (h.mono fun _ _ _ => within_all)
    (fun _ _ _ => trivial) fun _ _ _ _ _ _ => trivial).1
  obtain ⟨w,control⟩ := s
  cases hc
  cases rest with
  | nil => rfl
  | cons ev rest =>
    simp only [loopStep, dispatchNext]
    cases hp : w.server.dispatcherByKey ev.key with
    | none => rfl
    | some p =>
      obtain ⟨d,x,hc⟩ := hs.owned.slotAt_of_key (hs.linked _ _ hp)
      have hd : w.dispatchers p = some d := (World.slotAt_eq_some_iff.mp hc).1
      simp only [hd]
      split
      · rfl
      · cases d <;> rfl

end UServer.Net
