import UServer.Library.Custody
import UServer.Net.Bystanders
import UServer.Net.DispatchKeys

/-! Who owns a descriptor? Every one that came into use is held by one live dispatcher
until it is closed, and it is closed once, whatever fails on the way. -/
namespace UServer.Net
open Library

/-- ::socket and ::accept take a descriptor into use, ::close gives it back. -/
def Event.custody : Event → Option (Fd × Bool)
  | .opened fd => some (fd, true)
  | .closed fd => some (fd, false)
  | _ => none

/-- By the record, was the descriptor obtained and not closed since? -/
def World.inUse (w : World) (fd : Fd) : Bool := Custody.out Event.custody fd w.trace

/-- What holds of the descriptors other than the signaler's own. -/
structure DescriptorOwnership (afd : Fd) (w : World) : Prop where
  wakeUp : ∃ p, w.dispatchers p = some (.signaler afd)
  owner : ∀ fd, fd ≠ afd → w.inUse fd = true → ∃! p, ∃ d, w.socketAt p = some d ∧ d.s = fd
  held : ∀ p d, w.socketAt p = some d → d.s ≠ invalidSocket → d.s ≠ afd ∧ w.inUse d.s = true
  inTurn : Custody.InTurn Event.custody w.trace

/-- Where CreateSocket, WrapSocket and Accept build a dispatcher, and whether they return it. -/
def World.handsOut (w : World) : Op → Option (Ptr × Bool)
  | .createSocket p family type sock linger => some (p, (w.createSocket p family type sock linger).2)
  | .wrapSocket p s soType linger =>
    some (p, ((if s = invalidSocket then w else w.openFd s).wrapSocket p s soType linger).2)
  | .accept p res p' soType linger => some (p', (w.accept p res p' soType linger).2)
  | _ => none

namespace Slot

/-- The descriptor that is held at an address, if any. -/
def holding (x : Option Slot) : Option Fd := x.bind fun c => if c.fd = invalidSocket then none else some c.fd

theorem holding_eq_some_iff {x : Option Slot} {fd : Fd} :
    holding x = some fd ↔ fd ≠ invalidSocket ∧ ∃ c, x = some c ∧ c.fd = fd := by
  unfold holding
  rw [Option.bind_eq_some_iff]
  constructor
  · rintro ⟨c,hc,hf⟩
    split at hf
    · cases hf
    · cases hf
      exact ⟨by assumption,c,hc,rfl⟩
  · rintro ⟨hv,c,hc,rfl⟩
    exact ⟨c,hc,if_neg hv⟩

theorem holding_congr {c c' : Slot} (h : c'.fd = c.fd) : holding (some c') = holding (some c) := by
  simp [holding, h]

theorem holding_of_invalid {c : Slot} (h : c.fd = invalidSocket) : holding (some c) = none := by
  simp [holding, h]

theorem holding_of_ne {c : Slot} (h : c.fd ≠ invalidSocket) : holding (some c) = some c.fd := by
  simp [holding, h]

theorem holding_slotAt_congr {w w' : World} {q : Ptr}
    (h : (w'.dispatchers q).map Dispatcher.getDescriptor = (w.dispatchers q).map Dispatcher.getDescriptor) :
    holding (w'.slotAt q) = holding (w.slotAt q) := by
  unfold World.slotAt
  cases hd : w.dispatchers q with
  | none =>
    rw [hd, Option.map_none, Option.map_eq_none_iff] at h
    rw [h]
    rfl
  | some D =>
    rw [hd, Option.map_some, Option.map_eq_some_iff] at h
    obtain ⟨D',hd',hf⟩ := h
    rw [hd']
    exact holding_congr hf

/-- What a write does to the descriptor that is held, with what the record says of it. -/
inductive Passes : Option Fd → List Event → Option Fd → Prop
  | keeps {x : Option Fd} {evs : List Event} (h : ∀ e ∈ evs, e.custody = none) : Passes x evs x
  | takes (fd : Fd) : Passes none [.opened fd] (some fd)
  | gives (fd : Fd) : Passes (some fd) [.closed fd] none

/-- No write swaps one descriptor for another, and none takes or drops one off the record. -/
theorem Write.passes {P : Policy} {busy : Prop} {p : Ptr} {x x' : Option Slot} {evs : List Event}
    (h : Write P busy p x evs x') : Passes (holding x) evs (holding x') := by
  have hkeep {c c' : Slot} {evs : List Event} (hf : c'.fd = c.fd) (he : ∀ e ∈ evs, e.custody = none) :
      Passes (holding (some c)) evs (holding (some c')) := by
    rw [holding_congr hf]
    exact .keeps he
  cases h with
  | same => exact .keeps (by simp)
  | note => exact .keeps (by simp [Event.custody])
  | modify c d d' hc hs he hb hst =>
    refine hkeep ?_ (by simp)
    simp [fd, hc, Dispatcher.getDescriptor, hs]
  | enable c events ha => exact hkeep (c.changeEvents_fd _) (by simp [Event.custody])
  | set c events hk => exact hkeep (c.changeEvents_fd _) (by simp [Event.custody])
  | add c k d hc hk hv ha => exact hkeep rfl (by simp [Event.custody])
  | retire d k x => exact hkeep rfl (by simp [Event.custody])
  | reset d => exact hkeep rfl (by simp)
  | release d d' hv hs he hb hst =>
    rw [holding_of_ne (c := ⟨.socket d,none,none⟩) hv, holding_of_invalid (c := ⟨.socket d',none,none⟩) hs]
    exact .gives d.s
  | acquire d d' hv hs he hb hst =>
    rw [holding_of_invalid (c := ⟨.socket d,none,none⟩) hv, holding_of_ne (c := ⟨.socket d',none,none⟩) hs]
    exact .takes d'.s
  | construct =>
    rw [holding_of_invalid (c := ⟨.socket (.new invalidSocket none),none,none⟩) rfl]
    exact .keeps (by simp)
  | wrap s soType hs hc =>
    rw [holding_of_ne (c := ⟨.socket (.new s soType),none,none⟩) hs]
    exact .takes s
  | free d hd hb =>
    rw [holding_of_invalid (c := ⟨.socket d,none,none⟩) hd]
    exact .keeps (by simp)
  | remove c k hk hd => exact hkeep rfl (by simp [Event.custody])
  | update c hd => exact hkeep (update_fd c) (by simp)

theorem changeEvents_signaler_iff (c : Slot) (f : EventMask → EventMask) (a : Fd) :
    (c.changeEvents f).dispatcher = .signaler a ↔ c.dispatcher = .signaler a := by
  cases hc : c.dispatcher with
  | signaler b => simp [changeEvents, hc]
  | socket d => simp [changeEvents_dispatcher hc]

/-- A write neither makes nor frees a signaler. -/
theorem Write.signaler_iff {P : Policy} {busy : Prop} {p : Ptr} {x x' : Option Slot} {evs : List Event}
    (h : Write P busy p x evs x') (a : Fd) :
    x'.map Slot.dispatcher = some (.signaler a) ↔ x.map Slot.dispatcher = some (.signaler a) := by
  cases h with
  | same => exact .rfl
  | note => exact .rfl
  | modify c d d' hc => simp [hc]
  | enable c events => simpa using c.changeEvents_signaler_iff _ a
  | set c events => simpa using c.changeEvents_signaler_iff _ a
  | add c => exact .rfl
  | update c => simp
  | remove c => exact .rfl
  | _ => simp

end Slot

/-- The descriptors in use, by the record, are those that are held; there is one signaler. -/
structure Custodial (w : World) : Prop where
  held : ∀ fd, w.inUse fd = true ↔ ∃ p, Slot.holding (w.slotAt p) = some fd
  inTurn : Custody.InTurn Event.custody w.trace
  signaler : ∃ p afd, ∀ q a, w.dispatchers q = some (.signaler a) ↔ q = p ∧ a = afd

theorem Owned.holder_unique {w : World} {busy : Option Ptr} (hO : Owned w busy) {p q : Ptr} {fd : Fd}
    (hp : Slot.holding (w.slotAt p) = some fd) (hq : Slot.holding (w.slotAt q) = some fd) : p = q := by
  obtain ⟨hv,c,hc,hf⟩ := Slot.holding_eq_some_iff.mp hp
  obtain ⟨-,e,he,hf'⟩ := Slot.holding_eq_some_iff.mp hq
  exact hO.distinct p q c e hc he (hf.trans hf'.symm) (hf ▸ hv)

namespace Custodial
variable {p : Ptr} {evs : List Event} {w w' : World} {busy busy' : Option Ptr}

/-- Whether some other descriptor is held depends on the other slots. -/
private theorem held_iff (hF : Frame p w w') (hO : Owned w busy) (fd : Fd)
    (hx : Slot.holding (w.slotAt p) ≠ some fd) (hx' : Slot.holding (w'.slotAt p) ≠ some fd) :
    (∃ q, Slot.holding (w'.slotAt q) = some fd) ↔ ∃ q, Slot.holding (w.slotAt q) = some fd := by
  refine exists_congr fun q => ?_
  by_cases hq : q = p
  · rw [hq]
    exact iff_of_false hx' hx
  · rw [hF.slotAt_ne hO hq]

/-- The signaler stays what it was. -/
private theorem signaler_of_frame (hw : Custodial w) (hF : Frame p w w')
    (hs : ∀ a, (w'.slotAt p).map Slot.dispatcher = some (.signaler a) ↔
      (w.slotAt p).map Slot.dispatcher = some (.signaler a)) :
    ∃ p afd, ∀ q a, w'.dispatchers q = some (.signaler a) ↔ q = p ∧ a = afd := by
  obtain ⟨s,afd,hsame⟩ := hw.signaler
  refine ⟨s,afd,fun q a => Iff.trans ?_ (hsame q a)⟩
  by_cases hq : q = p
  · have hmap (w : World) : (w.slotAt p).map Slot.dispatcher = w.dispatchers p := by
      cases hd : w.dispatchers p <;> simp [World.slotAt, hd]
    simpa only [hq, hmap] using hs a
  · rw [hF.dispatchers q hq]

/-- The record says that a descriptor is taken or given back, and it is. -/
private theorem of_pass (hw : Custodial w) {e : Event} {fd : Fd} {taken : Bool} (he : e.custody = some (fd,taken))
    (ht : w'.trace = [e] ++ w.trace) (hturn : w.inUse fd = !taken)
    (hfd : taken = true ↔ ∃ q, Slot.holding (w'.slotAt q) = some fd)
    (hother : ∀ g, fd ≠ g → ((∃ q, Slot.holding (w'.slotAt q) = some g) ↔ ∃ q, Slot.holding (w.slotAt q) = some g))
    (hs : ∃ p afd, ∀ q a, w'.dispatchers q = some (.signaler a) ↔ q = p ∧ a = afd) : Custodial w' := by
  refine ⟨fun g => ?_,?_,hs⟩
  · have hout : w'.inUse g = if fd = g then taken else w.inUse g := by
      rw [World.inUse, ht]
      exact Custody.out_cons_of_some he g
    rw [hout]
    by_cases hg : fd = g
    · rw [if_pos hg, hfd, hg]
    · rw [if_neg hg, hw.held g, hother g hg]
  · rw [ht]
    refine hw.inTurn.cons fun i b hi => ?_
    cases he.symm.trans hi
    exact hturn

/-- A step on the slot of one dispatcher. -/
theorem step (hw : Custodial w) (hO : Owned w busy) (hO' : Owned w' busy') (hF : Frame p w w')
    (ht : w'.trace = evs ++ w.trace) (hp : Slot.Passes (Slot.holding (w.slotAt p)) evs (Slot.holding (w'.slotAt p)))
    (hs : ∀ a, (w'.slotAt p).map Slot.dispatcher = some (.signaler a) ↔
      (w.slotAt p).map Slot.dispatcher = some (.signaler a)) : Custodial w' := by
  have hsignaler := signaler_of_frame hw hF hs
  have hother {fd : Fd} := held_iff hF hO fd
  have hsame {q : Ptr} (hq : q ≠ p) : Slot.holding (w'.slotAt q) = Slot.holding (w.slotAt q) :=
    congrArg _ (hF.slotAt_ne hO hq)
  generalize hx : Slot.holding (w.slotAt p) = x at hp hother
  generalize hx' : Slot.holding (w'.slotAt p) = x' at hp hother
  cases hp with
  | keeps he =>
    refine ⟨fun fd => ?_,ht ▸ hw.inTurn.append_of_none he,hsignaler⟩
    have hout : w'.inUse fd = w.inUse fd := by
      rw [World.inUse, ht, Custody.out_append_of_none he, World.inUse]
    rw [hout, hw.held fd]
    by_cases hfd : x = some fd
    · exact iff_of_true ⟨p,hx.trans hfd⟩ ⟨p,hx'.trans hfd⟩
    · exact (hother hfd hfd).symm
  | takes fd =>
    have hfree : w.inUse fd = false := by
      rw [← Bool.not_eq_true, hw.held fd]
      rintro ⟨q,hq⟩
      have hqp : q ≠ p := by
        rintro rfl
        cases hx.symm.trans hq
      exact hqp (hO'.holder_unique ((hsame hqp).trans hq) hx')
    exact hw.of_pass rfl ht hfree (iff_of_true rfl ⟨p,hx'⟩)
      (fun g hg => hother nofun fun h => hg (Option.some_inj.mp h)) hsignaler
  | gives fd =>
    have hused : w.inUse fd = true := (hw.held fd).mpr ⟨p,hx⟩
    refine hw.of_pass rfl ht hused (iff_of_false nofun ?_)
      (fun g hg => hother (fun h => hg (Option.some_inj.mp h)) nofun) hsignaler
    rintro ⟨q,hq⟩
    have hqp : q ≠ p := by
      rintro rfl
      cases hx'.symm.trans hq
    exact hqp (hO.holder_unique ((hsame hqp).symm.trans hq) hx)

theorem of_writes {P : Policy} (hw : Custodial w) (hO : Owned w busy) (h : Writes P busy w w') : Custodial w' := by
  suffices hboth : Owned w' busy ∧ Custodial w' from hboth.2
  induction h with
  | refl => exact ⟨hO,hw⟩
  | tail _ hstep ih =>
    obtain ⟨p,evs,hstep⟩ := hstep
    have hO' := hstep.owned ih.1
    exact ⟨hO',ih.2.step ih.1 hO' hstep.frame hstep.trace hstep.slot.passes hstep.slot.signaler_iff⟩

/-- OnEvent opens and closes nothing by itself. -/
theorem of_turn {c c' : Slot} (hw : Custodial w) (hO : Owned w busy) (hO' : Owned w' busy') (h : Turn p c c' evs w w')
    (hf : c'.fd = c.fd) (he : ∀ e ∈ evs, e.custody = none)
    (hs : ∀ a, c'.dispatcher = .signaler a ↔ c.dispatcher = .signaler a) : Custodial w' := by
  refine hw.step hO hO' h.frame h.trace ?_ fun a => ?_
  · rw [h.before, h.after, Slot.holding_congr hf]
    exact .keeps he
  · simpa [h.before, h.after] using hs a

theorem setErrno (hw : Custodial w) (e : Errno) : Custodial (w.setErrno e) := ⟨hw.held,hw.inTurn,hw.signaler⟩

theorem of_log {e : Event} (hw : Custodial w) (he : e.custody = none) : Custodial (w.log e) := by
  have hnone : ∀ e' ∈ [e], e'.custody = none := by simpa using he
  refine ⟨fun fd => ?_,hw.inTurn.append_of_none hnone,hw.signaler⟩
  have hout : (w.log e).inUse fd = w.inUse fd := Custody.out_cons_of_none he fd
  rw [hout]
  exact hw.held fd

end Custodial

theorem LoopTurn.custodial {P : Policy} {s s' : LoopState} {a : Action} (h : LoopTurn P s a s') (hs : Sound s)
    (hw : Custodial s.world) : Custodial s'.world := by
  have hO := (h.sound hs).owned
  cases h with
  | op hcan hr ha hstep => exact hw.of_writes hs.owned hstep
  | report hr => exact hw.of_log rfl
  | skip hn => exact hw
  | pass e hp => exact (hw.setErrno e).of_log rfl
  | start hp hff ht => exact hw.of_turn hs.owned hO ht rfl (by simp [Event.custody]) (by simp)
  | done => exact hw
  | emit hb ht =>
    exact hw.of_turn hs.owned hO ht (Slot.changeEvents_fd _ _) (by simp [Event.custody])
      (Slot.changeEvents_signaler_iff _ _)
  | passBy hb => exact hw
  | finish ht => exact hw.of_turn hs.owned hO ht (Slot.mayBeUpdate_fd _ _) (by simp) (by simp)

theorem start_custodial {afd : Fd} (h : 0 ≤ afd) (p : Ptr) : Custodial (World.start p afd) := by
  have hv : afd ≠ invalidSocket := by
    rintro rfl
    exact absurd h (by decide)
  have htrace : (World.start p afd).trace = [.added 0 p,.opened afd] := by rw [World.start_eq h]
  constructor
  case held =>
    intro fd
    have hout : (World.start p afd).inUse fd = decide (afd = fd) := by
      rw [World.inUse, htrace]
      by_cases hf : afd = fd <;> simp [Custody.out, Event.custody, hf]
    rw [hout, decide_eq_true_iff]
    constructor
    · rintro rfl
      refine ⟨p,?_⟩
      rw [start_slotAt h, if_pos rfl]
      exact Slot.holding_of_ne hv
    · rintro ⟨q,hq⟩
      obtain ⟨-,c,hc,hf⟩ := Slot.holding_eq_some_iff.mp hq
      rw [start_slotAt h] at hc
      split at hc
      · cases hc
        exact hf
      · cases hc
  case inTurn =>
    rw [htrace]
    have hnil : Custody.InTurn Event.custody [] := .nil
    refine (hnil.cons fun i taken he => ?_).cons fun i taken he => ?_
    · cases he
      rfl
    · cases he
  case signaler =>
    refine ⟨p,afd,fun q a => ?_⟩
    rw [World.start_eq h]
    by_cases hq : q = p
    · simp [hq, eq_comm]
    · simp [hq]

theorem Custodial.ownership {w : World} {busy : Option Ptr} (hw : Custodial w) (hO : Owned w busy) :
    ∃ afd, DescriptorOwnership afd w := by
  obtain ⟨p₀,afd,hsig⟩ := hw.signaler
  have hsocket {p : Ptr} {d : SocketDispatcher} (hd : w.socketAt p = some d) (hv : d.s ≠ invalidSocket) :
      Slot.holding (w.slotAt p) = some d.s :=
    Slot.holding_eq_some_iff.mpr ⟨hv,_,World.slotAt_of_socketAt hd,rfl⟩
  refine ⟨afd,⟨p₀,(hsig p₀ afd).mpr ⟨rfl,rfl⟩⟩,?_,?_,hw.inTurn⟩
  · intro fd hfd hu
    obtain ⟨p,hp⟩ := (hw.held fd).mp hu
    obtain ⟨hv,c,hc,hf⟩ := Slot.holding_eq_some_iff.mp hp
    obtain ⟨hd,-,-⟩ := World.slotAt_eq_some_iff.mp hc
    cases hD : c.dispatcher with
    | signaler a =>
      have ha := ((hsig p a).mp (hD ▸ hd)).2
      rw [Slot.fd, hD] at hf
      exact absurd (hf.symm.trans ha) hfd
    | socket d =>
      have hs : d.s = fd := by simpa [Slot.fd, hD, Dispatcher.getDescriptor] using hf
      refine ⟨p,⟨d,World.socketAt_eq_some_iff.mpr (hD ▸ hd),hs⟩,?_⟩
      rintro q ⟨e,he,hes⟩
      exact hO.holder_unique (hes ▸ hsocket he (hes ▸ hv)) hp
  · intro p d hd hv
    refine ⟨fun ha => ?_,(hw.held d.s).mpr ⟨p,hsocket hd hv⟩⟩
    have h₀ := (hsig p₀ afd).mpr ⟨rfl,rfl⟩
    have hslot : w.slotAt p₀ = some ⟨.signaler afd,w.server.keyByDispatcher p₀,w.kernel.interest afd⟩ :=
      World.slotAt_eq_some_iff.mpr ⟨h₀,rfl,rfl⟩
    have hhold : Slot.holding (w.slotAt p₀) = some afd := Slot.holding_eq_some_iff.mpr ⟨ha ▸ hv,_,hslot,rfl⟩
    have hp := hO.holder_unique (ha ▸ hsocket hd hv) hhold
    cases (World.socketAt_eq_some_iff.mp hd).symm.trans (hp ▸ h₀)

namespace World
variable {w : World} {o : Op} {p q : Ptr} {returned : Bool}

/-- Building a dispatcher leaves the descriptors of all others. -/
theorem keeps_of_handsOut (h : w.handsOut o = some (p,returned)) (hq : q ≠ p) :
    Keeps Dispatcher.getDescriptor q w (w.exec o) := by
  cases o with
  | createSocket p' family type sock linger =>
    cases h
    exact keeps_createSocket hq family type sock linger
  | wrapSocket p' s soType linger =>
    cases h
    exact keeps_exec (o := .wrapSocket p s soType linger) (by simpa [Op.subjects] using hq)
  | accept p₁ res p' soType linger =>
    cases h
    exact keeps_accept (steady_getDescriptor q p₁) hq res soType linger
  | _ => cases h

/-- The base class's destructor closes once more and finds no descriptor: one Close models both. -/
theorem physicalClose_close {busy : Option Ptr} (hO : Owned w busy) {d : SocketDispatcher} (hd : w.socketAt p = some d) :
    (w.close p).physicalClose p = w.close p := by
  obtain ⟨⟨e,hc⟩,-⟩ := close_spec (P := .all) hO hd
  have hc := socketAt_of_slotAt hc
  simp only [physicalClose, hc, closed_s, if_pos]

theorem vacant_delete : (w.delete p).vacant p = true := by
  simp [vacant, delete, setDispatcher]

theorem vacant_wrapSocket {s : Fd} {soType : Option SockType} {linger : Option Errno}
    (h : (w.wrapSocket p s soType linger).2 = false) : (w.wrapSocket p s soType linger).1.vacant p = true := by
  unfold wrapSocket at h ⊢
  dsimp only at h ⊢
  split at h
  · cases h
  · rename_i hok
    rw [if_neg hok]
    exact vacant_delete

/-- Where nullptr is returned, nothing was there and nothing is left. -/
theorem vacant_of_nullptr {busy : Option Ptr} (hr : w.ready busy o = true) (h : w.handsOut o = some (p,false)) :
    w.vacant p = true ∧ (w.exec o).vacant p = true := by
  cases o with
  | createSocket p' family type sock linger =>
    obtain ⟨rfl,hn⟩ := Prod.mk.inj (Option.some_inj.mp h)
    refine ⟨(Bool.and_eq_true_iff.mp hr).1,?_⟩
    change (w.createSocket p' family type sock linger).1.vacant p' = true
    unfold createSocket at hn ⊢
    dsimp only at hn ⊢
    split at hn
    · cases hn
    · rename_i hok
      rw [if_neg hok]
      exact vacant_delete
  | wrapSocket p' s soType linger =>
    obtain ⟨rfl,hn⟩ := Prod.mk.inj (Option.some_inj.mp h)
    exact ⟨(Bool.and_eq_true_iff.mp hr).1,vacant_wrapSocket hn⟩
  | accept p₁ res p' soType linger =>
    obtain ⟨rfl,hn⟩ := Prod.mk.inj (Option.some_inj.mp h)
    have hv : w.vacant p' = true := (Bool.and_eq_true_iff.mp (Bool.and_eq_true_iff.mp hr).1).2
    refine ⟨hv,?_⟩
    change (w.accept p₁ res p' soType linger).1.vacant p' = true
    unfold accept at hn ⊢
    dsimp only at hn ⊢
    split
    · rename_i s hs
      rw [hs] at hn ⊢
      exact vacant_wrapSocket hn
    · have hk := (keeps_enableEvents (w := w) (steady_getDescriptor p' p₁) deAccept).trans
        (keeps_noteLastError (steady_getDescriptor p' p₁) ((w.enableEvents p₁ deAccept).answer p₁ res))
      rwa [hk.vacant]
  | _ => cases h

end World

/-- A nullptr leaves the same descriptors in use. -/
theorem Custodial.inUse_of_nullptr {w : World} {busy : Option Ptr} {o : Op} {p : Ptr} (hw : Custodial w)
    (hw' : Custodial (w.exec o)) (hr : w.ready busy o = true) (h : w.handsOut o = some (p,false)) (fd : Fd) :
    (w.exec o).inUse fd = w.inUse fd := by
  obtain ⟨hv,hv'⟩ := World.vacant_of_nullptr hr h
  rw [Bool.eq_iff_iff, hw.held, hw'.held]
  refine exists_congr fun q => ?_
  by_cases hq : q = p
  · rw [hq, World.slotAt_of_vacant hv, World.slotAt_of_vacant hv']
  · rw [Slot.holding_slotAt_congr (World.keeps_of_handsOut h hq).dispatcher]

/-- Every descriptor in use is the s_ of one live dispatcher until it is closed, once; and where
nullptr is returned nothing is left at the address and no descriptor stays in use. -/
theorem descriptor_ownership {s : LoopState} (h : loopMachine.Reachable Machine.Free s) :
    (∃ afd, DescriptorOwnership afd s.world) ∧
      ∀ o p, s.control.canCall = true → s.world.ready s.control.busy o = true → s.world.handsOut o = some (p,false) →
        (s.world.exec o).vacant p = true ∧ ∀ fd, (s.world.exec o).inUse fd = s.world.inUse fd := by
  obtain ⟨hs,hw⟩ := loop_rule (P := .all) (I := fun s => Custodial s.world) (fun _ => rfl)
    (h.mono fun _ _ _ => within_all) (fun p afd ha => start_custodial ha p) fun _ _ _ hs hi ht => ht.custodial hs hi
  refine ⟨hw.ownership hs.owned,fun o p _ hr hn => ⟨(World.vacant_of_nullptr hr hn).2,?_⟩⟩
  have hwrites := (World.evolves_exec (P := .all) (fun _ => rfl) hr (within_all (s := s) (a := .op o)) hs.owned).2
  exact hw.inUse_of_nullptr (hw.of_writes hs.owned hwrites) hr hn

/-- An accepted descriptor that fails and comes again, and an open socket that is created anew. -/
private def reuseRun : List Action :=
  [.op (.createSocket 1 2 .stream (.ok 5) none), .op (.listen 1 (.ok ())), .op (.accept 1 (.ok 6) 2 none (some 12)),
    .op (.accept 1 (.ok 6) 2 (some .stream) none), .op (.close 1), .op (.create 2 2 .stream (.ok 5) (some 12))]

private def holdsAnew (s : LoopState) : Bool :=
  s.world.inUse 5 && !s.world.inUse 6 && (s.world.socketAt 2).any fun d => d.s == 5

theorem descriptor_ownership_reuse : ∃ s : LoopState,
    (s.world.inUse 5 = true ∧ s.world.inUse 6 = false) ∧ ∃ afd, DescriptorOwnership afd s.world := by
  have h : (loopMachine.run Machine.Free ⟨World.start 0 3,.idle⟩ reuseRun).any holdsAnew = true := by
    decide +kernel
  obtain ⟨s,hs,hp⟩ := Machine.exists_reachable_of_run (init_start 0 (by decide)) h
  simp only [holdsAnew, Bool.and_eq_true, Bool.not_eq_true'] at hp
  exact ⟨s,hp.1,(descriptor_ownership hs).1⟩

end UServer.Net
