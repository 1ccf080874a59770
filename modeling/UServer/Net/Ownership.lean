import UServer.Net.Slot

/-! Which dispatcher holds a descriptor, and that a step on one dispatcher leaves the
slots of all others as they are. -/
namespace UServer.Net
open Library

/-- Each descriptor has one holder, whose slot is sound; busy is the dispatcher whose
OnEvent runs. -/
structure Owned (w : World) (busy : Option Ptr) : Prop where
  ok : ∀ p c, w.slotAt p = some c → c.Ok (busy = some p)
  vacant : ∀ p, w.slotAt p = none → w.server.keyByDispatcher p = none ∧ busy ≠ some p
  isOpen : ∀ p c, w.slotAt p = some c → c.fd ≠ invalidSocket → w.kernel.isOpen c.fd = true
  distinct : ∀ p q c e, w.slotAt p = some c → w.slotAt q = some e → c.fd = e.fd → c.fd ≠ invalidSocket → p = q
  held : ∀ fd x, w.kernel.interest fd = some x → fd ≠ invalidSocket ∧ ∃ p c, w.slotAt p = some c ∧ c.fd = fd

namespace Owned
variable {w : World} {busy : Option Ptr}

theorem invalid (hO : Owned w busy) : w.kernel.interest invalidSocket = none := by
  cases hi : w.kernel.interest invalidSocket with
  | none => rfl
  | some x => exact absurd rfl (hO.held _ _ hi).1

/-- Epoll watches no descriptor that is not in use. -/
theorem interest_eq_none (hO : Owned w busy) {fd : Fd} (h : w.kernel.isOpen fd = false) :
    w.kernel.interest fd = none := by
  cases hi : w.kernel.interest fd with
  | none => rfl
  | some x =>
    obtain ⟨hv,p,c,hc,rfl⟩ := hO.held _ _ hi
    rw [hO.isOpen p c hc hv] at h
    cases h

end Owned

/-- A step that concerns one dispatcher, its descriptor before and its descriptor after,
which is fresh if it is another one. -/
structure Frame (p : Ptr) (w w' : World) : Prop where
  dispatchers : ∀ q, q ≠ p → w'.dispatchers q = w.dispatchers q
  keys : ∀ q, q ≠ p → w'.server.keyByDispatcher q = w.server.keyByDispatcher q
  kernel : ∀ fd, (∀ c, w.slotAt p = some c → c.fd ≠ fd) → (∀ c, w'.slotAt p = some c → c.fd ≠ fd) →
    w'.kernel.isOpen fd = w.kernel.isOpen fd ∧ w'.kernel.interest fd = w.kernel.interest fd
  isOpen : ∀ c, w'.slotAt p = some c → c.fd ≠ invalidSocket → w'.kernel.isOpen c.fd = true
  fresh : ∀ c', w'.slotAt p = some c' → c'.fd ≠ invalidSocket →
    (∃ c, w.slotAt p = some c ∧ c.fd = c'.fd) ∨ w.kernel.isOpen c'.fd = false
  dropped : ∀ c, w.slotAt p = some c → (∀ c', w'.slotAt p = some c' → c'.fd ≠ c.fd) →
    w'.kernel.interest c.fd = none
  invalid : w'.kernel.interest invalidSocket = none

namespace Frame
variable {p : Ptr} {w w' : World} {busy : Option Ptr}

/-- A write that keeps the dispatcher's descriptor. -/
theorem keep {c c' : Slot} (hO : Owned w busy) (h : w.slotAt p = some c) (hf : c'.fd = c.fd)
    (he : ∀ e, c'.entry = some e → c'.fd ≠ invalidSocket)
    (hd : w'.dispatchers = Function.update w.dispatchers p (some c'.dispatcher))
    (hs : w'.server.keyByDispatcher = Function.update w.server.keyByDispatcher p c'.key)
    (hk : w'.kernel = w.kernel.watch c'.fd c'.entry) : w'.slotAt p = some c' ∧ Frame p w w' := by
  have hc : w'.slotAt p = some c' := by
    rw [World.slotAt_eq_some_iff, hd, hs, hk]
    exact ⟨Function.update_self _ _ _,Function.update_self _ _ _,Function.update_self _ _ _⟩
  refine ⟨hc,?_⟩
  constructor
  case dispatchers =>
    intro q hq
    rw [hd, Function.update_of_ne hq]
  case keys =>
    intro q hq
    rw [hs, Function.update_of_ne hq]
  case kernel =>
    intro fd hfd _
    rw [hk, hf]
    exact ⟨rfl,Function.update_of_ne (hfd c h).symm _ _⟩
  case isOpen =>
    intro e hx hv
    cases hc.symm.trans hx
    rw [hk, hf]
    exact hO.isOpen p c h (hf ▸ hv)
  case fresh =>
    intro e hx _
    cases hc.symm.trans hx
    exact .inl ⟨c,h,hf.symm⟩
  case dropped =>
    intro e hx hn
    cases h.symm.trans hx
    exact absurd hf (hn c' hc)
  case invalid =>
    rw [hk, Kernel.watch_interest]
    by_cases hv : c'.fd = invalidSocket
    · rw [hv, Function.update_self]
      cases hx : c'.entry with
      | none => rfl
      | some e => exact absurd hv (he e hx)
    · rw [Function.update_of_ne (Ne.symm hv)]
      exact hO.invalid

/-- A write that gives an unregistered dispatcher another descriptor, a fresh one or none. -/
theorem relocate {d' : Option Dispatcher} (hO : Owned w busy) (hn : ∀ c, w.slotAt p = some c → c.key = none)
    (hd : w'.dispatchers = Function.update w.dispatchers p d') (hs : w'.server = w.server)
    (hi : w'.kernel.interest = w.kernel.interest)
    (ho : ∀ fd, (∀ c, w.slotAt p = some c → c.fd ≠ fd) → (∀ d, d' = some d → d.getDescriptor ≠ fd) →
      w'.kernel.isOpen fd = w.kernel.isOpen fd)
    (hf : ∀ d, d' = some d → d.getDescriptor ≠ invalidSocket →
      w'.kernel.isOpen d.getDescriptor = true ∧ w.kernel.isOpen d.getDescriptor = false) :
    w'.slotAt p = d'.map (fun d => ⟨d,none,none⟩) ∧ Frame p w w' := by
  have hk : w.server.keyByDispatcher p = none := by
    cases hc : w.slotAt p with
    | none => exact (hO.vacant p hc).1
    | some c => rw [(World.slotAt_eq_some_iff.mp hc).2.1, hn c hc]
  have hc : w'.slotAt p = d'.map (fun d => ⟨d,none,none⟩) := by
    cases d' with
    | none => simp [World.slotAt, hd]
    | some d =>
      rw [Option.map_some, World.slotAt_eq_some_iff, hd, hs, hi]
      refine ⟨Function.update_self _ _ _,hk,?_⟩
      by_cases hv : d.getDescriptor = invalidSocket
      · rw [Slot.fd, hv]
        exact hO.invalid
      · exact hO.interest_eq_none (hf d rfl hv).2
  refine ⟨hc,?_⟩
  have hget : ∀ c, w'.slotAt p = some c → ∃ d, d' = some d ∧ c.fd = d.getDescriptor := by
    intro c hx
    obtain ⟨d,hd',hcd⟩ := Option.map_eq_some_iff.mp (hc.symm.trans hx)
    exact ⟨d,hd',hcd ▸ rfl⟩
  constructor
  case dispatchers =>
    intro q hq
    rw [hd, Function.update_of_ne hq]
  case keys =>
    intro q _
    rw [hs]
  case kernel =>
    intro fd hp hp'
    refine ⟨ho fd hp fun d hx => ?_,by rw [hi]⟩
    exact hp' ⟨d,none,none⟩ (by rw [hc, hx]; rfl)
  case isOpen =>
    intro c hx hv
    obtain ⟨d,hx',hcd⟩ := hget c hx
    rw [hcd] at hv ⊢
    exact (hf d hx' hv).1
  case fresh =>
    intro c hx hv
    obtain ⟨d,hx',hcd⟩ := hget c hx
    rw [hcd] at hv ⊢
    exact .inr (hf d hx' hv).2
  case dropped =>
    intro c hx _
    rw [hi, (World.slotAt_eq_some_iff.mp hx).2.2]
    exact (hO.ok p c hx).entry_eq_none (hn c hx)
  case invalid => rw [hi, hO.invalid]

/-- The descriptor of another dispatcher is not among those the step concerns. -/
private theorem apart (h : Frame p w w') (hO : Owned w busy) {q : Ptr} {c : Slot} (hq : q ≠ p)
    (hc : w.slotAt q = some c) (hv : c.fd ≠ invalidSocket) :
    (∀ e, w.slotAt p = some e → e.fd ≠ c.fd) ∧ ∀ e, w'.slotAt p = some e → e.fd ≠ c.fd := by
  constructor
  · intro e he hf
    exact hq (hO.distinct _ _ _ _ hc he hf.symm hv)
  · intro e he hf
    rcases h.fresh e he (hf ▸ hv) with ⟨e',he',hf'⟩ | hf'
    · exact hq (hO.distinct _ _ _ _ hc he' (hf'.trans hf).symm hv)
    · rw [hf, hO.isOpen _ _ hc hv] at hf'
      cases hf'

/-- Every other dispatcher keeps its slot. -/
theorem slotAt_ne (h : Frame p w w') (hO : Owned w busy) {q : Ptr} (hq : q ≠ p) : w'.slotAt q = w.slotAt q := by
  have hd := h.dispatchers q hq
  cases hc : w.slotAt q with
  | none =>
    have hn : w.dispatchers q = none := by simpa [World.slotAt] using hc
    simp [World.slotAt, hd, hn]
  | some c =>
    obtain ⟨hqd,hqk,hqe⟩ := World.slotAt_eq_some_iff.mp hc
    rw [World.slotAt_eq_some_iff, hd, h.keys q hq]
    refine ⟨hqd,hqk,?_⟩
    by_cases hv : c.fd = invalidSocket
    · rw [← hqe, hv, hO.invalid, h.invalid]
    · obtain ⟨hp,hp'⟩ := h.apart hO hq hc hv
      rw [← hqe]
      exact (h.kernel c.fd hp hp').2

theorem owned (h : Frame p w w') (hO : Owned w busy) {busy' : Option Ptr}
    (hok : ∀ c, w'.slotAt p = some c → c.Ok (busy' = some p))
    (hn : w'.slotAt p = none → w'.server.keyByDispatcher p = none ∧ busy' ≠ some p)
    (hb : ∀ q, q ≠ p → (busy' = some q ↔ busy = some q)) : Owned w' busy' where
  ok q c hc := by
    by_cases hq : q = p
    · exact hq ▸ hok c (hq ▸ hc)
    · rw [h.slotAt_ne hO hq] at hc
      simpa only [hb q hq] using hO.ok q c hc
  vacant q hc := by
    by_cases hq : q = p
    · exact hq ▸ hn (hq ▸ hc)
    · rw [h.slotAt_ne hO hq] at hc
      rw [h.keys q hq, Ne, hb q hq]
      exact hO.vacant q hc
  isOpen q c hc hv := by
    by_cases hq : q = p
    · exact h.isOpen c (hq ▸ hc) hv
    · rw [h.slotAt_ne hO hq] at hc
      obtain ⟨hp,hp'⟩ := h.apart hO hq hc hv
      rw [(h.kernel c.fd hp hp').1, hO.isOpen q c hc hv]
  distinct q r c e hc he hf hv := by
    by_cases hq : q = p
    · by_cases hr : r = p
      · rw [hq, hr]
      · rw [h.slotAt_ne hO hr] at he
        exact absurd hf ((h.apart hO hr he (hf ▸ hv)).2 c (hq ▸ hc))
    · rw [h.slotAt_ne hO hq] at hc
      by_cases hr : r = p
      · exact absurd hf.symm ((h.apart hO hq hc hv).2 e (hr ▸ he))
      · rw [h.slotAt_ne hO hr] at he
        exact hO.distinct q r c e hc he hf hv
  held fd x hx := by
    refine ⟨fun hv => ?_,?_⟩
    · rw [hv, h.invalid] at hx
      cases hx
    · by_cases hn : ∃ c, w'.slotAt p = some c ∧ c.fd = fd
      · exact ⟨p,hn⟩
      · have hn' : ∀ c, w'.slotAt p = some c → c.fd ≠ fd := fun c hc hf => hn ⟨c,hc,hf⟩
        by_cases ho : ∃ c, w.slotAt p = some c ∧ c.fd = fd
        · obtain ⟨c,hc,hf⟩ := ho
          rw [← hf, h.dropped c hc fun c' hc' => hf ▸ hn' c' hc'] at hx
          cases hx
        · have ho' : ∀ c, w.slotAt p = some c → c.fd ≠ fd := fun c hc hf => ho ⟨c,hc,hf⟩
          rw [(h.kernel fd ho' hn').2] at hx
          obtain ⟨-,q,c,hc,hf⟩ := hO.held fd x hx
          have hq : q ≠ p := by
            rintro rfl
            exact ho' c hc hf
          exact ⟨q,c,(h.slotAt_ne hO hq).trans hc,hf⟩

end Frame
end UServer.Net
