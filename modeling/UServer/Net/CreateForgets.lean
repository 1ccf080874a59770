import UServer.Net.ClosedStates
import UServer.Net.Receptions

/-! Create on objects with different histories: a datagram socket has its events set anew, and a stream socket keeps those
that Close or the constructor left, which decide what it receives. -/
namespace UServer.Net
open Library

/-- state_, udp_, family_ and enabled_events(). -/
def SocketDispatcher.members (d : SocketDispatcher) : ConnState × Bool × Int × EventMask :=
  (d.state,d.udp,d.family,d.enabledEvents)

/-- The events that Create finds behind its Close. -/
def SocketDispatcher.leftover (d : SocketDispatcher) : EventMask := if d.s = invalidSocket then d.enabledEvents else 0

/-- The events that Create leaves. -/
def SocketDispatcher.createdEvents (d : SocketDispatcher) (type : SockType) : EventMask :=
  if type = .dgram then deRead ||| deWrite else d.leftover

/-- What epoll watches the dispatcher's descriptor for, if it does. -/
def World.interestMask (w : World) (p : Ptr) : Option EpollMask :=
  (w.socketAt p).bind fun d => (w.kernel.interest d.s).map EpollEntry.events

/-- Two sockets with the same members and the same interest, which receive the same whatever happens to their
descriptors, as long as nothing is called on them. -/
structure Alike (w₁ : World) (p₁ : Ptr) (w₂ : World) (p₂ : Ptr) : Prop where
  members : (w₁.socketAt p₁).map SocketDispatcher.members = (w₂.socketAt p₂).map SocketDispatcher.members
  interest : w₁.interestMask p₁ = w₂.interestMask p₂
  receptions : ∀ rs, w₁.receptions p₁ rs = w₂.receptions p₂ rs

/-- A successful Create outside of an event batch, at the end of a history of the dispatcher. -/
structure Creates (s : LoopState) (p : Ptr) (d : SocketDispatcher) (family : Int) (type : SockType)
    (sock : Except Errno Fd) (linger : Option Errno) : Prop where
  history : objectMachine.Reachable Machine.Free s
  called : s.control.canCall = true
  before : s.world.socketAt p = some d
  batch : d.savedEnabledEvents = none
  ready : s.world.ready s.control.busy (.create p family type sock linger) = true
  success : (s.world.create p family type sock linger).2 = true

/-- A socket that was only created. -/
structure SocketDispatcher.Plain (d : SocketDispatcher) (family : Int) (type : SockType) (events : EventMask) : Prop where
  s : d.s ≠ invalidSocket
  state : d.state = .closed
  udp : d.udp = decide (type = .dgram)
  family : d.family = family
  enabled : d.enabledEvents = events
  saved : d.savedEnabledEvents = none

namespace World
variable {w : World} {busy : Option Ptr} {p : Ptr} {d : SocketDispatcher}

/-- The object behind PhysicalSocket::Create. -/
theorem created_plain (hw : d.Settled) (hb : d.savedEnabledEvents = none) {fd : Fd} (hf : fd ≠ invalidSocket)
    (family : Int) (type : SockType) :
    (created w p d family type (.ok fd)).Plain family type (d.createdEvents type) where
  s := by
    rw [created_s]
    exact hf
  state := by
    have hc : (closed d w.errno).state = .closed := by
      unfold closed
      split
      · rename_i hs
        exact hw hs
      · rfl
    unfold created
    dsimp only
    split <;> exact hc
  udp := by
    unfold created
    dsimp only
    split <;> rfl
  family := by
    unfold created
    dsimp only
    split <;> rfl
  enabled := by
    rw [created_enabled, closed_enabled]
    rfl
  saved := by
    rw [created_saved, closed_saved, hb]
    split <;> rfl

/-- What Create leaves of the object, the registry and epoll. -/
theorem create_slotAt (hO : Owned w busy) (hw : w.Settled) (hd : w.socketAt p = some d)
    (hb : d.savedEnabledEvents = none) {family : Int} {type : SockType} {sock : Except Errno Fd} {linger : Option Errno}
    (hf : (w.close p).freshAnswer sock = true) (h : (w.create p family type sock linger).2 = true) :
    ∃ d' k, d'.Plain family type (d.createdEvents type) ∧
      (w.create p family type sock linger).1.slotAt p = some (Slot.add ⟨.socket d',none,none⟩ k) := by
  obtain ⟨hok,hl⟩ := create_succeeds h
  cases sock with
  | error e => cases hok
  | ok fd =>
    cases linger with
    | some e => cases hl
    | none =>
      have hc := (physicalCreate_spec (P := .all) hO hd hf family type).1
      have hp := created_plain (w := w) (p := p) (hw.at hd) hb (ne_invalidSocket_of_freshFd hf) family type
      refine ⟨_,(w.physicalCreate p family type (.ok fd)).1.server.nextDispatcherKey,hp,?_⟩
      have he : (w.create p family type (.ok fd) none).1 = (w.physicalCreate p family type (.ok fd)).1.add p := by
        have hok : (w.physicalCreate p family type (.ok fd)).2 = true := rfl
        simp only [create, hok, if_true, initializeSocket, socketAt_of_slotAt hc, if_neg hp.s]
      rw [he]
      exact add_slotAt hc hp.s

end World

section
variable {w₁ w₂ : World} {p₁ p₂ : Ptr} {d₁ d₂ : SocketDispatcher} {k₁ k₂ : Key} {family : Int} {type : SockType}
  {events₁ events₂ : EventMask}

theorem Slot.like_add (h₁ : d₁.Plain family type events₁) (h₂ : d₂.Plain family type events₁) :
    Slot.Like (Slot.add ⟨.socket d₁,none,none⟩ k₁) (Slot.add ⟨.socket d₂,none,none⟩ k₂) := by
  have he : d₁.enabledEvents = d₂.enabledEvents := h₁.enabled.trans h₂.enabled.symm
  refine .mk h₁.s h₂.s (h₁.state.trans h₂.state.symm) (h₁.udp.trans h₂.udp.symm) (h₁.family.trans h₂.family.symm) he
    (h₁.saved.trans h₂.saved.symm) ?_
  change (if getEpollEvents d₁.enabledEvents = 0 then none
      else some ⟨getEpollEvents d₁.enabledEvents,k₁⟩ : Option EpollEntry).map EpollEntry.events =
    (if getEpollEvents d₂.enabledEvents = 0 then none
      else some ⟨getEpollEvents d₂.enabledEvents,k₂⟩ : Option EpollEntry).map EpollEntry.events
  rw [he]
  split <;> rfl

/-- Plain sockets are alike exactly if they have the same events. -/
theorem alike_iff (h₁ : d₁.Plain family type events₁) (h₂ : d₂.Plain family type events₂)
    (hc₁ : w₁.slotAt p₁ = some (Slot.add ⟨.socket d₁,none,none⟩ k₁))
    (hc₂ : w₂.slotAt p₂ = some (Slot.add ⟨.socket d₂,none,none⟩ k₂)) : Alike w₁ p₁ w₂ p₂ ↔ events₁ = events₂ := by
  have hd₁ : w₁.socketAt p₁ = some d₁ := World.socketAt_of_slotAt hc₁
  have hd₂ : w₂.socketAt p₂ = some d₂ := World.socketAt_of_slotAt hc₂
  constructor
  · intro h
    have hm := h.members
    rw [hd₁, hd₂, Option.map_some, Option.map_some, Option.some_inj] at hm
    have he : d₁.enabledEvents = d₂.enabledEvents := congrArg (fun m => m.2.2.2) hm
    rw [← h₁.enabled, ← h₂.enabled, he]
  · rintro rfl
    have hl : Slot.Like (Slot.add ⟨.socket d₁,none,none⟩ k₁) (Slot.add ⟨.socket d₂,none,none⟩ k₂) := Slot.like_add h₁ h₂
    refine ⟨?_,?_,fun rs => ?_⟩
    · rw [hd₁, hd₂, Option.map_some, Option.map_some, SocketDispatcher.members, SocketDispatcher.members, h₁.state,
        h₂.state, h₁.udp, h₂.udp, h₁.family, h₂.family, h₁.enabled, h₂.enabled]
    · have hi₁ : w₁.kernel.interest d₁.s = _ := (World.slotAt_eq_some_iff.mp hc₁).2.2
      have hi₂ : w₂.kernel.interest d₂.s = _ := (World.slotAt_eq_some_iff.mp hc₂).2.2
      rw [World.interestMask, World.interestMask, hd₁, hd₂, Option.bind_some, Option.bind_some, hi₁, hi₂]
      cases hl with
      | mk _ _ _ _ _ _ _ entry => exact entry
    · calc w₁.receptions p₁ rs
        _ = Slot.receptions (Slot.add ⟨.socket d₁,none,none⟩ k₁) rs :=
          World.receptions_slotAt hc₁ (Slot.like_add h₁ h₁) rs
        _ = Slot.receptions (Slot.add ⟨.socket d₂,none,none⟩ k₂) rs := hl.receptions rs
        _ = w₂.receptions p₂ rs := (World.receptions_slotAt hc₂ (Slot.like_add h₂ h₂) rs).symm

end

namespace Creates
variable {s₁ s₂ : LoopState} {p₁ p₂ : Ptr} {d₁ d₂ : SocketDispatcher} {family : Int} {type : SockType}
  {sock₁ sock₂ : Except Errno Fd} {linger₁ linger₂ : Option Errno}

theorem slotAt (h : Creates s₁ p₁ d₁ family type sock₁ linger₁) : ∃ d k, d.Plain family type (d₁.createdEvents type) ∧
    (s₁.world.create p₁ family type sock₁ linger₁).1.slotAt p₁ = some (Slot.add ⟨.socket d,none,none⟩ k) := by
  obtain ⟨hs,hw⟩ := settled_of_reachable h.history
  exact World.create_slotAt hs.owned hw h.before h.batch (Bool.and_eq_true_iff.mp h.ready).2 h.success

/-- Two histories end alike exactly if Create leaves the same events. -/
theorem alike_iff (h₁ : Creates s₁ p₁ d₁ family type sock₁ linger₁) (h₂ : Creates s₂ p₂ d₂ family type sock₂ linger₂) :
    Alike (s₁.world.create p₁ family type sock₁ linger₁).1 p₁ (s₂.world.create p₂ family type sock₂ linger₂).1 p₂ ↔
      d₁.createdEvents type = d₂.createdEvents type := by
  obtain ⟨e₁,k₁,hp₁,hc₁⟩ := h₁.slotAt
  obtain ⟨e₂,k₂,hp₂,hc₂⟩ := h₂.slotAt
  exact UServer.Net.alike_iff hp₁ hp₂ hc₁ hc₂

end Creates

/-- A successful Create leaves two histories behind exactly for a datagram socket, or where both had the same
leftover events. -/
theorem create_forgets_iff {s₁ s₂ : LoopState} {p₁ p₂ : Ptr} {d₁ d₂ : SocketDispatcher} {family : Int} {type : SockType}
    {sock₁ sock₂ : Except Errno Fd} {linger₁ linger₂ : Option Errno} (h₁ : Creates s₁ p₁ d₁ family type sock₁ linger₁)
    (h₂ : Creates s₂ p₂ d₂ family type sock₂ linger₂) :
    Alike (s₁.world.create p₁ family type sock₁ linger₁).1 p₁ (s₂.world.create p₂ family type sock₂ linger₂).1 p₂ ↔
      type = .dgram ∨ d₁.leftover = d₂.leftover := by
  rw [h₁.alike_iff h₂, SocketDispatcher.createdEvents, SocketDispatcher.createdEvents]
  by_cases ht : type = .dgram
  · rw [if_pos ht, if_pos ht]
    exact iff_of_true rfl (.inl ht)
  · rw [if_neg ht, if_neg ht]
    exact (or_iff_right ht).symm

section
variable {s : LoopState} {p : Ptr} {family : Int} {type : SockType} {sock : Except Errno Fd} {linger : Option Errno}
  {leftover : EventMask}

/-- Whether Create may be called now, succeeds, and finds the given events. -/
def LoopState.creates (s : LoopState) (p : Ptr) (family : Int) (type : SockType) (sock : Except Errno Fd)
    (linger : Option Errno) (leftover : EventMask) : Bool :=
  s.control.canCall && s.world.ready s.control.busy (.create p family type sock linger) &&
    (s.world.create p family type sock linger).2 &&
    (s.world.socketAt p).any fun d => d.savedEnabledEvents.isNone && decide (d.leftover = leftover)

theorem exists_creates (h : objectMachine.Reachable Machine.Free s)
    (hc : s.creates p family type sock linger leftover = true) :
    ∃ d, Creates s p d family type sock linger ∧ d.leftover = leftover := by
  simp only [LoopState.creates, Bool.and_eq_true] at hc
  obtain ⟨⟨⟨hcall,hr⟩,hs⟩,hd⟩ := hc
  obtain ⟨d,hd,hb⟩ := (Option.any_eq_true _ _).mp hd
  obtain ⟨hb,hl⟩ := Bool.and_eq_true_iff.mp hb
  exact ⟨d,⟨h,hcall,hd,Option.isNone_iff_eq_none.mp hb,hr,hs⟩,of_decide_eq_true hl⟩

end

/-- A new object, and one that was created and closed, before Create of a stream socket. -/
theorem exists_new_and_reused : ∃ s₁ s₂ d₁ d₂, Creates s₁ 1 d₁ 2 .stream (.ok 5) none ∧
    Creates s₂ 1 d₂ 2 .stream (.ok 5) none ∧ d₁.leftover = deRead ||| deWrite ∧ d₂.leftover = 0 := by
  have hinit : objectMachine.init ⟨World.start 0 3,.idle⟩ := init_start 0 (by decide)
  have h₁ : (objectMachine.run Machine.Free ⟨World.start 0 3,.idle⟩ [.construct 1]).any
      (fun s => s.creates 1 2 .stream (.ok 5) none (deRead ||| deWrite)) = true := by
    decide +kernel
  have h₂ : (objectMachine.run Machine.Free ⟨World.start 0 3,.idle⟩ [.construct 1,
      .loop (.op (.create 1 2 .stream (.ok 5) none)), .loop (.op (.close 1))]).any
      (fun s => s.creates 1 2 .stream (.ok 5) none 0) = true := by
    decide +kernel
  obtain ⟨s₁,hs₁,hc₁⟩ := Machine.exists_reachable_of_run hinit h₁
  obtain ⟨s₂,hs₂,hc₂⟩ := Machine.exists_reachable_of_run hinit h₂
  obtain ⟨d₁,hd₁,hl₁⟩ := exists_creates hs₁ hc₁
  obtain ⟨d₂,hd₂,hl₂⟩ := exists_creates hs₂ hc₂
  exact ⟨s₁,s₂,d₁,d₂,hd₁,hd₂,hl₁,hl₂⟩

/-- The new object and the reused one are told apart by their leftovers. -/
theorem create_forgets_reused : ∃ s₁ s₂ d₁ d₂, Creates s₁ 1 d₁ 2 .stream (.ok 5) none ∧
    Creates s₂ 1 d₂ 2 .stream (.ok 5) none ∧
    (Alike (s₁.world.create 1 2 .stream (.ok 5) none).1 1 (s₂.world.create 1 2 .stream (.ok 5) none).1 1 ↔
      SockType.stream = .dgram ∨ d₁.leftover = d₂.leftover) := by
  obtain ⟨s₁,s₂,d₁,d₂,h₁,h₂,-,-⟩ := exists_new_and_reused
  exact ⟨s₁,s₂,d₁,d₂,h₁,h₂,create_forgets_iff h₁ h₂⟩

/-- Create after Close leaves a stream socket without events, where a new object has DE_READ and DE_WRITE. -/
theorem create_remembers : ¬∀ (s₁ s₂ : LoopState) (p₁ p₂ : Ptr) (d₁ d₂ : SocketDispatcher) (family : Int)
    (type : SockType) (sock₁ sock₂ : Except Errno Fd) (linger₁ linger₂ : Option Errno),
    Creates s₁ p₁ d₁ family type sock₁ linger₁ → Creates s₂ p₂ d₂ family type sock₂ linger₂ →
    Alike (s₁.world.create p₁ family type sock₁ linger₁).1 p₁ (s₂.world.create p₂ family type sock₂ linger₂).1 p₂ := by
  intro hall
  obtain ⟨s₁,s₂,d₁,d₂,h₁,h₂,hl₁,hl₂⟩ := exists_new_and_reused
  have he := (h₁.alike_iff h₂).mp (hall _ _ _ _ _ _ _ _ _ _ _ _ h₁ h₂)
  rw [SocketDispatcher.createdEvents, SocketDispatcher.createdEvents, hl₁, hl₂] at he
  exact absurd he (by decide)

end UServer.Net
